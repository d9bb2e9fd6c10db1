/-
When an honest response is accepted.

Expiry is decided twice: by the window of `verify_response`, which tolerates skew, and
by the store, which does not.  An honest response inside the skewed window is accepted
exactly when it also comes before the expiry that the store holds and the sums of the
window test do not overflow.
-/
import Identikey.Auth.WireForm
import Identikey.Auth.VerifierRun

namespace Identikey.Auth

open Lib Lib.Fallible

/-- The sums of the window test stay below `2 ^ 64`; in a build that wraps them, the wrapped sums
may pass the test as well. -/
def WindowSums (build : Build) (c : Challenge) (now skewSecs : UInt64) : Prop :=
  (now.toNat + skewSecs.toNat < 2 ^ 64 ∨ build = .release ∧ c.issuedAt ≤ now + skewSecs) ∧
    (c.expiresAt.toNat + skewSecs.toNat < 2 ^ 64 ∨
      build = .release ∧ now ≤ c.expiresAt + skewSecs)

/-- Inside the window over unbounded integers, the window test passes when its sums do. -/
lemma checkWindow_eq_ok {build : Build} {c : Challenge} {now skewSecs : UInt64}
    (hlow : c.issuedAt.toNat ≤ now.toNat + skewSecs.toNat)
    (hhigh : now.toNat ≤ c.expiresAt.toNat + skewSecs.toNat) :
    checkWindow build c now skewSecs = .ok () ↔ WindowSums build c now skewSecs := by
  have hsum : ∀ {a b : UInt64}, a.toNat + b.toNat < 2 ^ 64 → (a + b).toNat = a.toNat + b.toNat :=
    fun h => by rw [UInt64.toNat_add, Nat.mod_eq_of_lt h]
  simp only [checkWindow, bind_eq_ok, addU64_eq_ok, ensure_eq_ok]
  constructor
  · rintro ⟨_, ⟨hfit₁, rfl⟩, _, hlate, _, ⟨hfit₂, rfl⟩, hlast⟩
    constructor
    · exact hfit₁.symm.imp_right fun h => ⟨h, UInt64.not_lt.mp hlate⟩
    · exact hfit₂.symm.imp_right fun h => ⟨h, UInt64.not_lt.mp hlast⟩
  · rintro ⟨h₁, h₂⟩
    refine ⟨_, ⟨h₁.symm.imp_left And.left, rfl⟩, (), ?_, _, ⟨h₂.symm.imp_left And.left, rfl⟩, ?_⟩
    · rw [UInt64.not_lt]
      rcases h₁ with hfit | ⟨-, h⟩
      · rw [UInt64.le_iff_toNat_le, hsum hfit]
        exact hlow
      · exact h
    · rw [gt_iff_lt, UInt64.not_lt]
      rcases h₂ with hfit | ⟨-, h⟩
      · rw [UInt64.le_iff_toNat_le, hsum hfit]
        exact hhigh
      · exact h

/-! ### The entry of an issued nonce -/

namespace Ledger

section Entry

variable {bk : Backend} {build : Build} {n : Bytes}

/-- The store holds the nonce unused, with the expiry `expiresAt`. -/
def Pending (l : Ledger) (n : Bytes) (expiresAt : UInt64) : Prop :=
  l.store.issued n = some (expiresAt, false)

/-- Without `gc`, an operation that does not use the nonce keeps it unused, and keeps its expiry
if it does not draw it again. -/
lemma Pending.step {l : Ledger} {expiresAt : UInt64} (h : l.Pending n expiresAt) (op : Op)
    (hgc : ∀ now, op ≠ .gc now)
    (huse : ∀ a ∈ (Ledger.step bk build l op).accepted, a.nonce ≠ some n) :
    ∃ e, (Ledger.step bk build l op).Pending n e ∧ (op.drawn ≠ some n → e = expiresAt) := by
  cases op with
  | gc now => exact absurd rfl (hgc now)
  | issue issuer now nonce =>
    rcases step_issue issuer now nonce with hstay | ⟨c, -, -, hstep⟩
    · rw [hstay]
      exact ⟨expiresAt, h, fun _ => rfl⟩
    · rw [hstep]
      by_cases hn : n = nonce.val
      · refine ⟨c.expiresAt, ?_, fun hne => absurd (congrArg some hn.symm) hne⟩
        rw [Pending, hn, InMemoryNonceStore.insert_self]
      · refine ⟨expiresAt, ?_, fun _ => rfl⟩
        rw [Pending, InMemoryNonceStore.insert_of_ne _ _ hn]
        exact h
  | verify a =>
    refine ⟨expiresAt, ?_, fun _ => rfl⟩
    rcases step_verify a with hstay | ⟨c, v, e, hcheck, -, -, hstep⟩
    · rwa [hstay]
    · rw [hstep] at huse ⊢
      have hn : n ≠ c.nonce := by
        rintro rfl
        exact huse a List.mem_cons_self (nonce_eq hcheck)
      rw [Pending, InMemoryNonceStore.insert_of_ne _ _ hn]
      exact h

lemma accepted_step (l : Ledger) (op : Op) :
    l.accepted ⊆ (Ledger.step bk build l op).accepted := by
  cases op with
  | gc now => exact List.Subset.refl _
  | issue issuer now nonce =>
    rcases step_issue issuer now nonce with hstay | ⟨c, -, -, hstep⟩
    · rw [hstay]
      exact List.Subset.refl _
    · rw [hstep]
      exact List.Subset.refl _
  | verify a =>
    rcases step_verify a with hstay | ⟨c, v, e, -, -, -, hstep⟩
    · rw [hstay]
      exact List.Subset.refl _
    · rw [hstep]
      exact List.subset_cons_self _ _

/-- The nonce stays pending along a run without `gc` that does not use it. -/
lemma Pending.run {l : Ledger} {expiresAt : UInt64} (h : l.Pending n expiresAt) {ops : List Op}
    (hgc : ∀ now, .gc now ∉ ops)
    (huse : ∀ a ∈ (Ledger.run bk build l ops).accepted, a.nonce ≠ some n) :
    ∃ e, (Ledger.run bk build l ops).Pending n e ∧ (n ∉ drawnNonces ops → e = expiresAt) := by
  induction ops generalizing l expiresAt with
  | nil => exact ⟨expiresAt, h, fun _ => rfl⟩
  | cons op ops ih =>
    -- what the first step accepts stays accepted, so it does not use the nonce either
    have hkept : (Ledger.step bk build l op).accepted ⊆
        (Ledger.run bk build (Ledger.step bk build l op) ops).accepted :=
      run_keeps (Q := fun l' : Ledger => (Ledger.step bk build l op).accepted ⊆ l'.accepted)
        (fun l' op' hsub => List.Subset.trans hsub (accepted_step l' op'))
        (List.Subset.refl _) ops
    obtain ⟨e, hpending, he⟩ := h.step op
      (fun now heq => hgc now (heq ▸ List.mem_cons_self)) fun a ha => huse a (hkept ha)
    obtain ⟨e', hpending', he'⟩ := ih hpending
      (fun now hmem => hgc now (List.mem_cons_of_mem op hmem)) huse
    refine ⟨e', hpending', fun hn => ?_⟩
    rw [drawnNonces, List.filterMap_cons] at hn
    cases hdrawn : op.drawn with
    | none =>
      rw [hdrawn] at hn
      rw [he' hn, he (by simp [hdrawn])]
    | some m =>
      rw [hdrawn] at hn
      obtain ⟨hne, hnot⟩ := not_or.mp (List.mem_cons.not.mp hn)
      rw [he' hnot, he (by simp [hdrawn, Ne.symm hne])]

end Entry

end Ledger

/-! ### Honest responses -/

/-- The signatures that the signer put into the response verify. -/
structure Response.Verifies (bk : Backend) (resp : Response) : Prop where
  classical : verifyClassical bk resp.publicKey resp.signingPayload resp.signature = .ok ()
  pq : ∀ pk sig, resp.pq = some (pk, sig) → verifyPq bk pk resp.signingPayload sig = .ok ()

section Honest

variable {bk : Backend} {build : Build}

lemma Signer.challengeBytes_respond {signer : Signer} {c : Challenge} {resp : Response}
    (h : signer.respond c = .ok resp) : resp.challengeBytes = c.toBytes := by
  simp only [respond, bind_eq_ok, pure_eq_ok] at h
  obtain ⟨_, -, _, -, rfl⟩ := h
  rfl

lemma Response.Verifies.checkPq {resp : Response} (h : resp.Verifies bk) :
    ∃ pq, checkPq bk resp resp.signingPayload .pqOptional = .ok pq := by
  unfold Auth.checkPq
  cases hpq : resp.pq with
  | none => exact ⟨none, rfl⟩
  | some pair =>
    obtain ⟨pk, sig⟩ := pair
    exact ⟨some pk, bind_eq_ok.mpr ⟨(), h.pq pk sig hpq, rfl⟩⟩

/-- **When an honest response is accepted.**  Let a challenge be issued into a store, and let any
operations but `gc` follow that do not use its nonce.  At a time inside its window over unbounded
integers, a response whose signatures verify is accepted exactly when the time is not after the
expiry that the store holds, which is the challenge's own unless the nonce was drawn again, and
the sums of the window test pass. -/
theorem honest_accepted_iff {store₀ store₁ : InMemoryNonceStore} {issuer : ChallengeIssuer}
    {t₀ : UInt64} {nonce : Nonce} {c : Challenge} {ops : List Op} {signer : Signer}
    {resp : Response} {now skewSecs : UInt64}
    (hissue : issuer.issue build store₀ t₀ nonce = (.ok c, store₁))
    (hgc : ∀ t, .gc t ∉ ops)
    (huse : ∀ a ∈ (Ledger.run bk build (.start store₁) ops).accepted, a.nonce ≠ some nonce.val)
    (hrespond : signer.respond c = .ok resp) (hverifies : resp.Verifies bk)
    (hfit : c.toBytes.length < 2 ^ 64)
    (hlow : c.issuedAt.toNat ≤ now.toNat + skewSecs.toNat)
    (hhigh : now.toNat ≤ c.expiresAt.toNat + skewSecs.toNat) :
    ∃ e, (Ledger.run bk build (.start store₁) ops).Pending nonce.val e ∧
      (nonce.val ∉ drawnNonces ops → e = c.expiresAt) ∧
      ((∃ v, (verifyResponse bk build
          { response := resp, expectedAudience := issuer.audience, now, skewSecs,
            policy := .pqOptional }
          (Ledger.run bk build (.start store₁) ops).store).1 = .ok v) ↔
        now ≤ e ∧ WindowSums build c now skewSecs) := by
  obtain ⟨hversion, haud, hnonce, hlen, hpending⟩ : c.version = VERSION ∧
      c.audience = issuer.audience ∧ c.nonce = nonce.val ∧ MIN_NONCE_LEN ≤ c.nonce.length ∧
      (Ledger.start store₁).Pending nonce.val c.expiresAt := by
    obtain ⟨expiresAt, -, rfl, rfl⟩ := ChallengeIssuer.issue_eq_ok.mp hissue
    exact ⟨rfl, rfl, rfl, nonce.property.ge, InMemoryNonceStore.insert_self _ _ _⟩
  obtain ⟨e, hrun, he⟩ := hpending.run hgc huse
  refine ⟨e, hrun, he, ?_⟩
  generalize Ledger.run bk build (.start store₁) ops = l at hrun
  have hread : Challenge.fromBytes resp.challengeBytes = .ok c := by
    rw [Signer.challengeBytes_respond hrespond]
    exact Challenge.fromBytes_toBytes hfit
  constructor
  · rintro ⟨v, hv⟩
    obtain ⟨c', e', hcheck, hentry, hnow, -⟩ := verifyResponse_eq_ok.mp (Prod.ext hv rfl)
    obtain ⟨hread', -, -, -, hwindow, -⟩ := checkResponse_eq_ok.mp hcheck
    obtain rfl : c = c' := Except.ok.inj (hread.symm.trans hread')
    rw [hnonce, hrun] at hentry
    obtain ⟨rfl, -⟩ := Prod.mk.inj (Option.some.inj hentry)
    exact ⟨hnow, (checkWindow_eq_ok hlow hhigh).mp hwindow⟩
  · rintro ⟨hnow, hsums⟩
    obtain ⟨pq, hpq⟩ := hverifies.checkPq
    have hwindow := (checkWindow_eq_ok hlow hhigh).mpr hsums
    have hcheck : checkResponse bk build
        { response := resp, expectedAudience := issuer.audience, now, skewSecs,
          policy := .pqOptional } = .ok (c, _) :=
      checkResponse_eq_ok.mpr
        ⟨hread, hversion, haud, hlen, hwindow, hverifies.classical, pq, hpq, rfl⟩
    have hok := verifyResponse_eq_ok.mpr ⟨c, e, hcheck, by rw [hnonce]; exact hrun, hnow, rfl⟩
    exact ⟨_, congrArg Prod.fst hok⟩

end Honest

/-- A claimant that signs with `sampleKey` in `sampleBackend`. -/
def sampleSigner : Signer where
  classicalPublicKey := sampleKey
  signClassical payload := .ok { alg := .ed25519, bytes := sampleSign 64 sampleKey.bytes payload }
  pqPublicKey := none
  signPq _ := .ok none

/-- The store after `sampleIssue`. -/
def sampleStore : InMemoryNonceStore :=
  InMemoryNonceStore.new.recordIssued sampleChallenge.nonce sampleChallenge.expiresAt

lemma sampleAnswer_verifies (chalBytes : Bytes) :
    (sampleAnswer chalBytes).Verifies sampleBackend where
  classical := verifyClassical_sample List.length_replicate (signingPayload chalBytes)
  pq _ _ h := by cases h

/-- One second after the expiry, and inside a window with a skew of five, the store refuses. -/
theorem late_answer_refused :
    sampleSigner.respond sampleChallenge = .ok (sampleAnswer sampleChallenge.toBytes) ∧
      (sampleAnswer sampleChallenge.toBytes).Verifies sampleBackend ∧
      sampleChallenge.issuedAt.toNat ≤ 1121 + 5 ∧ 1121 ≤ sampleChallenge.expiresAt.toNat + 5 ∧
      (Ledger.run sampleBackend .debug (.start .new) [sampleIssue]).issued = [sampleChallenge] ∧
      (verifyResponse sampleBackend .debug (sampleAttempt sampleChallenge.toBytes 1121 5)
        (Ledger.run sampleBackend .debug (.start .new) [sampleIssue]).store).1 =
          .error (.err .timeWindow) :=
  ⟨rfl, sampleAnswer_verifies _, by decide, by decide, by decide +kernel, by decide +kernel⟩

/-- Before the expiry, an honest response is accepted. -/
theorem honest_accepted_sampleChallenge :
    ∃ v, (verifyResponse sampleBackend .debug (sampleAttempt sampleChallenge.toBytes 1010 5)
      (Ledger.run sampleBackend .debug (.start sampleStore) []).store).1 = .ok v := by
  have hissue : sampleIssuer.issue .debug InMemoryNonceStore.new sampleChallenge.issuedAt
      ⟨sampleChallenge.nonce, rfl⟩ = (.ok sampleChallenge, sampleStore) := rfl
  have hrespond : sampleSigner.respond sampleChallenge =
      .ok (sampleAnswer sampleChallenge.toBytes) := rfl
  have hlow : sampleChallenge.issuedAt.toNat ≤ (1010 : UInt64).toNat + (5 : UInt64).toNat := by
    decide
  have hhigh : (1010 : UInt64).toNat ≤ sampleChallenge.expiresAt.toNat + (5 : UInt64).toNat := by
    decide
  obtain ⟨e, -, he, hiff⟩ := @honest_accepted_iff sampleBackend .debug _ _ _ _ _ _ [] _ _ _ _
    hissue (fun _ h => by cases h) (fun _ h => by cases h) hrespond
    (sampleAnswer_verifies sampleChallenge.toBytes) (by decide +kernel) hlow hhigh
  refine hiff.mpr ⟨?_, ?_⟩
  · rw [he (by decide)]
    decide
  · exact ⟨.inl (by decide), .inl (by decide)⟩

end Identikey.Auth
