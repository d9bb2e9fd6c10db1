/-
Sums of times that a claimant or an issuer chooses.

`verify_response` and `issue` add `u64` values without a check.  A sum that does not fit
panics in a debug build and wraps in a release build; the validity window and the issued
expiry are what they are over unbounded integers when the sums that are reached fit.
-/
import Identikey.Auth.HonestResponse

namespace Identikey.Auth

open Lib Lib.Fallible

variable {bk : Backend} {build : Build} {c : Challenge} {now skewSecs : UInt64}

/-- The validity window over unbounded integers. -/
def InWindow (c : Challenge) (now skewSecs : UInt64) : Prop :=
  ¬ (now.toNat + skewSecs.toNat < c.issuedAt.toNat ∨
    c.expiresAt.toNat + skewSecs.toNat < now.toNat)

instance : Decidable (InWindow c now skewSecs) := inferInstanceAs (Decidable (¬ _))

/-- The window test over unbounded integers. -/
def windowVerdict (c : Challenge) (now skewSecs : UInt64) : Except Fault Unit :=
  ensure (InWindow c now skewSecs) (.err .timeWindow)

/-- The first sum of the window test fits, and the second does if it is reached. -/
def SumsFit (c : Challenge) (now skewSecs : UInt64) : Prop :=
  now.toNat + skewSecs.toNat < 2 ^ 64 ∧
    (now.toNat + skewSecs.toNat < c.issuedAt.toNat ∨
      c.expiresAt.toNat + skewSecs.toNat < 2 ^ 64)

lemma addU64_of_lt {a b : UInt64} (h : a.toNat + b.toNat < 2 ^ 64) :
    addU64 build a b = .ok (a + b) := addU64_eq_ok.mpr ⟨.inr h, rfl⟩

lemma addU64_debug_of_le {a b : UInt64} (h : 2 ^ 64 ≤ a.toNat + b.toNat) :
    addU64 .debug a b = .error .panic := if_pos ⟨rfl, h⟩

lemma toNat_add_of_lt {a b : UInt64} (h : a.toNat + b.toNat < 2 ^ 64) :
    (a + b).toNat = a.toNat + b.toNat := by
  rw [UInt64.toNat_add, Nat.mod_eq_of_lt h]

/-! ### The window test -/

/-- With sums that fit, the test is that of unbounded integers. -/
lemma checkWindow_eq_verdict (h : SumsFit c now skewSecs) :
    checkWindow build c now skewSecs = windowVerdict c now skewSecs := by
  obtain ⟨hfirst, hsecond⟩ := h
  have hlow : now + skewSecs < c.issuedAt ↔ now.toNat + skewSecs.toNat < c.issuedAt.toNat := by
    rw [UInt64.lt_iff_toNat_lt, toNat_add_of_lt hfirst]
  rw [checkWindow, addU64_of_lt hfirst, ok_bind]
  by_cases hearly : now.toNat + skewSecs.toNat < c.issuedAt.toNat
  · -- the first half of the test rejects, and the second sum is never formed
    have hout : ¬ InWindow c now skewSecs := not_not_intro (.inl hearly)
    rw [windowVerdict, ensure, ensure, if_neg (not_not_intro (hlow.mpr hearly)), if_neg hout]
    rfl
  · have hfit := hsecond.resolve_left hearly
    have hhigh : now > c.expiresAt + skewSecs ↔
        c.expiresAt.toNat + skewSecs.toNat < now.toNat := by
      rw [gt_iff_lt, UInt64.lt_iff_toNat_lt, toNat_add_of_lt hfit]
    have hwindow : InWindow c now skewSecs ↔ ¬ now > c.expiresAt + skewSecs := by
      rw [hhigh, InWindow, not_or]
      exact and_iff_right hearly
    rw [ensure, if_pos (hlow.not.mpr hearly), ok_bind, addU64_of_lt hfit, ok_bind, windowVerdict]
    simp only [ensure, hwindow]

/-- A sum that does not fit panics in a debug build. -/
lemma checkWindow_panics (h : ¬ SumsFit c now skewSecs) :
    checkWindow .debug c now skewSecs = .error .panic := by
  rw [checkWindow]
  by_cases hfirst : now.toNat + skewSecs.toNat < 2 ^ 64
  · obtain ⟨hlate, hover⟩ := not_or.mp (not_and.mp h hfirst)
    have hlow : ¬ now + skewSecs < c.issuedAt := by
      rwa [UInt64.lt_iff_toNat_lt, toNat_add_of_lt hfirst]
    rw [addU64_of_lt hfirst, ok_bind, ensure, if_pos hlow, ok_bind,
      addU64_debug_of_le (Nat.not_lt.mp hover)]
    rfl
  · rw [addU64_debug_of_le (Nat.not_lt.mp hfirst)]
    rfl

lemma windowVerdict_ne_panic : windowVerdict c now skewSecs ≠ .error .panic := by
  unfold windowVerdict ensure
  split_ifs <;> simp

/-- The test is that of unbounded integers in every build exactly when the sums fit. -/
lemma checkWindow_exact_iff :
    (∀ build, checkWindow build c now skewSecs = windowVerdict c now skewSecs) ↔
      SumsFit c now skewSecs := by
  constructor
  · intro hexact
    by_contra hover
    exact windowVerdict_ne_panic ((hexact .debug).symm.trans (checkWindow_panics hover))
  · exact fun h _ => checkWindow_eq_verdict h

/-! ### The issued expiry -/

/-- The challenge that is issued expires `ttl` after now, over unbounded integers. -/
def IssuesExactly (build : Build) (issuer : ChallengeIssuer) (store : InMemoryNonceStore)
    (now : UInt64) (nonce : Nonce) : Prop :=
  ∃ c store', issuer.issue build store now nonce = (.ok c, store') ∧
    c.expiresAt.toNat = now.toNat + issuer.ttlSecs.toNat

lemma issue_exact_iff {issuer : ChallengeIssuer} {store : InMemoryNonceStore} {nonce : Nonce} :
    (∀ build, IssuesExactly build issuer store now nonce) ↔
      now.toNat + issuer.ttlSecs.toNat < 2 ^ 64 := by
  constructor
  · intro hexact
    obtain ⟨c, store', -, hexpiry⟩ := hexact .debug
    rw [← hexpiry]
    exact c.expiresAt.toNat_lt
  · intro hfit build
    exact ⟨_, _, ChallengeIssuer.issue_eq_ok.mpr ⟨_, addU64_of_lt hfit, rfl, rfl⟩,
      toNat_add_of_lt hfit⟩

/-! ### What a claimant can do -/

lemma liftErr_ne_panic {α : Type} {r : Except AuthError α} : liftErr r ≠ .error .panic := by
  cases r <;> simp [liftErr, Except.mapError]

/-- Among the checks only the window test can panic. -/
lemma checkResponse_panics_iff {a : Attempt}
    (hread : Challenge.fromBytes a.response.challengeBytes = .ok c)
    (hversion : c.version = VERSION) (haudience : c.audience = a.expectedAudience)
    (hnonce : MIN_NONCE_LEN ≤ c.nonce.length) :
    checkResponse bk build a = .error .panic ↔
      checkWindow build c a.now a.skewSecs = .error .panic := by
  have hliftErr : liftErr (Challenge.fromBytes a.response.challengeBytes) = .ok c :=
    liftErr_eq_ok.mpr hread
  rw [checkResponse, hliftErr, ok_bind, ensure, if_pos hversion, ok_bind, ensure,
    if_pos haudience, ok_bind, ensure, if_pos (Nat.not_lt.mpr hnonce), ok_bind, bind_eq_error]
  refine or_iff_left ?_
  rintro ⟨_, -, hrest⟩
  rcases bind_eq_error.mp hrest with hsig | ⟨_, -, hrest⟩
  · exact liftErr_ne_panic hsig
  · rcases bind_eq_error.mp hrest with hpq | ⟨_, -, hrest⟩
    · exact liftErr_ne_panic hpq
    · cases hrest

/-- **A response whose challenge reaches the window test panics a debug build exactly when its sums
do not fit.**  Neither a key nor a signature has been looked at by then. -/
theorem verifyResponse_panics_iff {σ : Type} [NonceStore σ] {a : Attempt} {nonces : σ}
    (hread : Challenge.fromBytes a.response.challengeBytes = .ok c)
    (hversion : c.version = VERSION) (haudience : c.audience = a.expectedAudience)
    (hnonce : MIN_NONCE_LEN ≤ c.nonce.length) :
    (verifyResponse bk .debug a nonces).1 = .error .panic ↔ ¬ SumsFit c a.now a.skewSecs := by
  have hcheck := @checkResponse_panics_iff bk .debug c a hread hversion haudience hnonce
  have hwindow : checkWindow .debug c a.now a.skewSecs = .error .panic ↔
      ¬ SumsFit c a.now a.skewSecs := by
    constructor
    · intro hpanic hfit
      exact windowVerdict_ne_panic ((checkWindow_eq_verdict hfit).symm.trans hpanic)
    · exact checkWindow_panics
  rw [← hwindow, ← hcheck]
  unfold verifyResponse
  rcases checkResponse bk .debug a with e | ⟨c', v⟩
  · simp
  · -- the store reports errors only
    simp only [reduceCtorEq, iff_false]
    split <;> simp

/-! ### The law and where it fails -/

/-- **The times of a response and of a challenge are added as unbounded integers if and only if
the sums fit.**  The window test of `verify_response` rejects exactly what is outside of the
window, in every build, when the sums that it reaches are below `2 ^ 64`; and `issue` gives the
expiry that it means when that sum is. -/
theorem time_sums_exact_iff (c : Challenge) (now skewSecs : UInt64) (issuer : ChallengeIssuer)
    (store : InMemoryNonceStore) (nonce : Nonce) :
    ((∀ build, checkWindow build c now skewSecs = windowVerdict c now skewSecs) ↔
      now.toNat + skewSecs.toNat < 2 ^ 64 ∧
        (now.toNat + skewSecs.toNat < c.issuedAt.toNat ∨
          c.expiresAt.toNat + skewSecs.toNat < 2 ^ 64)) ∧
    ((∀ build, IssuesExactly build issuer store now nonce) ↔
      now.toNat + issuer.ttlSecs.toNat < 2 ^ 64) :=
  ⟨checkWindow_exact_iff, issue_exact_iff⟩

/-- A challenge that never expires, in a response to which a skew of one second is granted. -/
theorem time_sums_overflow :
    ¬ ∀ (a : Attempt) (c : Challenge), Challenge.fromBytes a.response.challengeBytes = .ok c →
      ∀ build, checkWindow build c a.now a.skewSecs = windowVerdict c a.now a.skewSecs := by
  intro h
  have hread : Challenge.fromBytes
      ({ sampleChallenge with expiresAt := 2 ^ 64 - 1 } : Challenge).toBytes =
        .ok { sampleChallenge with expiresAt := 2 ^ 64 - 1 } := by decide +kernel
  have hexact := h (sampleAttempt
    ({ sampleChallenge with expiresAt := 2 ^ 64 - 1 } : Challenge).toBytes 1010 1) _ hread .debug
  exact absurd hexact (by decide +kernel)

end Identikey.Auth
