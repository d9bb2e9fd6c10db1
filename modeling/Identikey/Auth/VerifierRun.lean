/-
Runs of a verifier over one nonce store.

A verifier issues challenges, verifies responses and drops expired entries, in any
order and at any times.  A ledger is its store together with the challenges it has
issued and the attempts it has accepted, the latest first.  An entry of the store
that is not used belongs to an issued challenge that no accepted attempt has
answered (`Ledger.Sound`), so that every challenge is answered once.
-/
import Identikey.Lib.Run
import Identikey.Auth.Verify

namespace Identikey.Auth

open Lib

/-- One operation of a verifier, with the nonce that `issue` draws. -/
inductive Op where
  | issue (issuer : ChallengeIssuer) (now : UInt64) (nonce : Nonce)
  | verify (attempt : Attempt)
  | gc (now : UInt64)
deriving DecidableEq, Repr

/-- The nonce that the operation draws. -/
def Op.drawn : Op → Option Bytes
  | .issue _ _ nonce => some nonce.val
  | .verify _ => none
  | .gc _ => none

/-- The nonces that the operations draw. -/
def drawnNonces (ops : List Op) : List Bytes := ops.filterMap Op.drawn

/-- The nonce of the challenge that the attempt answers. -/
def Attempt.nonce (a : Attempt) : Option Bytes :=
  (Challenge.fromBytes a.response.challengeBytes).toOption.map Challenge.nonce

/-- The store of a verifier, the challenges it has issued and the attempts it has accepted. -/
structure Ledger where
  store : InMemoryNonceStore
  issued : List Challenge
  accepted : List Attempt

namespace Ledger

/-- A verifier with this store that has not done anything. -/
def start (store : InMemoryNonceStore) : Ledger := { store, issued := [], accepted := [] }

section Step

variable (bk : Backend) (build : Build)

/-- One operation; what fails or panics leaves the store that the call leaves. -/
def step (l : Ledger) : Op → Ledger
  | .issue issuer now nonce =>
    match issuer.issue build l.store now nonce with
    | (.ok c, store) => { l with store, issued := c :: l.issued }
    | (.error _, store) => { l with store }
  | .verify a =>
    match verifyResponse bk build a l.store with
    | (.ok _, store) => { l with store, accepted := a :: l.accepted }
    | (.error _, store) => { l with store }
  | .gc now => { l with store := l.store.gc now }

/-- The ledger after a list of operations. -/
def run (l : Ledger) (ops : List Op) : Ledger := ops.foldl (step bk build) l

end Step

/-! ### What an operation changes -/

section Cases

variable {bk : Backend} {build : Build} {l : Ledger}

/-- Issuing a challenge records its nonce, unless its expiry overflows in a debug build. -/
lemma step_issue (issuer : ChallengeIssuer) (now : UInt64) (nonce : Nonce) :
    step bk build l (.issue issuer now nonce) = l ∨
      ∃ c : Challenge, c.version = VERSION ∧ c.nonce = nonce.val ∧
        step bk build l (.issue issuer now nonce) =
          { l with store := l.store.insert nonce.val (c.expiresAt, false)
                   issued := c :: l.issued } := by
  rcases h : issuer.issue build l.store now nonce with ⟨e | c, store⟩
  · left
    simp only [step, h, ChallengeIssuer.issue_error h]
  · right
    obtain ⟨expiresAt, -, hc, rfl⟩ := ChallengeIssuer.issue_eq_ok.mp h
    refine ⟨c, by rw [hc], by rw [hc], ?_⟩
    simp only [step, h]
    rw [hc]

/-- Verifying a response changes nothing or uses its nonce. -/
lemma step_verify (a : Attempt) :
    step bk build l (.verify a) = l ∨
      ∃ c v expiresAt, checkResponse bk build a = .ok (c, v) ∧
        l.store.issued c.nonce = some (expiresAt, false) ∧ a.now ≤ expiresAt ∧
        step bk build l (.verify a) =
          { l with store := l.store.insert c.nonce (expiresAt, true)
                   accepted := a :: l.accepted } := by
  rcases h : verifyResponse bk build a l.store with ⟨e | v, store⟩
  · left
    simp only [step, h, verifyResponse_error h]
  · right
    obtain ⟨c, expiresAt, hcheck, hentry, hnow, rfl⟩ := verifyResponse_eq_ok.mp h
    refine ⟨c, v, expiresAt, hcheck, hentry, hnow, ?_⟩
    simp only [step, h]

end Cases

lemma nonce_eq {bk : Backend} {build : Build} {a : Attempt} {c : Challenge} {v : Verified}
    (h : checkResponse bk build a = .ok (c, v)) : a.nonce = some c.nonce := by
  rw [Attempt.nonce, (checkResponse_eq_ok.mp h).1]
  rfl

/-! ### The invariant -/

/-- What holds of a ledger, `drawn` being the nonces drawn so far. -/
structure Sound (drawn : List Bytes) (l : Ledger) : Prop where
  issued_drawn : ∀ c ∈ l.issued, c.nonce ∈ drawn
  entry_issued : ∀ n e, l.store.issued n = some e → ∃ c ∈ l.issued, c.nonce = n
  unused : ∀ n expiresAt, l.store.issued n = some (expiresAt, false) →
    some n ∉ l.accepted.map Attempt.nonce
  accepted_issued : ∀ a ∈ l.accepted, ∃ c ∈ l.issued, a.nonce = some c.nonce
  accepted_nodup : (l.accepted.map Attempt.nonce).Nodup

section Invariant

variable {bk : Backend} {build : Build} {l : Ledger} {drawn : List Bytes}

lemma sound_new : (start .new).Sound [] :=
  { issued_drawn := fun _ h => by cases h
    entry_issued := fun _ _ h => by cases h
    unused := fun _ _ h => by cases h
    accepted_issued := fun _ h => by cases h
    accepted_nodup := List.nodup_nil }

lemma Sound.mono {drawn' : List Bytes} (h : l.Sound drawn) (hsub : drawn ⊆ drawn') :
    l.Sound drawn' :=
  { h with issued_drawn := fun c hc => hsub (h.issued_drawn c hc) }

/-- A challenge with a nonce that was not drawn before. -/
lemma Sound.issue (h : l.Sound drawn) {c : Challenge} (hfresh : c.nonce ∉ drawn) :
    Sound (drawn ++ [c.nonce])
      { l with store := l.store.insert c.nonce (c.expiresAt, false), issued := c :: l.issued } := by
  -- an accepted nonce was issued, hence drawn, hence not drawn again
  have hnotused : some c.nonce ∉ l.accepted.map Attempt.nonce := by
    intro hmem
    obtain ⟨a, ha, hnonce⟩ := List.mem_map.mp hmem
    obtain ⟨c', hc', hnonce'⟩ := h.accepted_issued a ha
    rw [hnonce] at hnonce'
    exact hfresh (Option.some.inj hnonce' ▸ h.issued_drawn c' hc')
  constructor
  · intro c' hc'
    rcases List.mem_cons.mp hc' with rfl | hc'
    · simp
    · exact List.mem_append_left _ (h.issued_drawn c' hc')
  · intro n e he
    by_cases hn : n = c.nonce
    · exact ⟨c, List.mem_cons_self, hn.symm⟩
    · rw [InMemoryNonceStore.insert_of_ne _ _ hn] at he
      obtain ⟨c', hc', hnonce⟩ := h.entry_issued n e he
      exact ⟨c', List.mem_cons_of_mem c hc', hnonce⟩
  · intro n expiresAt he
    by_cases hn : n = c.nonce
    · rw [hn]
      exact hnotused
    · rw [InMemoryNonceStore.insert_of_ne _ _ hn] at he
      exact h.unused n expiresAt he
  · intro a ha
    obtain ⟨c', hc', hnonce⟩ := h.accepted_issued a ha
    exact ⟨c', List.mem_cons_of_mem c hc', hnonce⟩
  · exact h.accepted_nodup

/-- An accepted attempt, whose nonce was stored and unused. -/
lemma Sound.verify (h : l.Sound drawn) {a : Attempt} {c : Challenge} {expiresAt : UInt64}
    (hnonce : a.nonce = some c.nonce) (hentry : l.store.issued c.nonce = some (expiresAt, false)) :
    Sound drawn
      { l with store := l.store.insert c.nonce (expiresAt, true)
               accepted := a :: l.accepted } := by
  have hissued := h.entry_issued c.nonce (expiresAt, false) hentry
  constructor
  · exact h.issued_drawn
  · intro n e he
    by_cases hn : n = c.nonce
    · rw [hn]
      exact hissued
    · rw [InMemoryNonceStore.insert_of_ne _ _ hn] at he
      exact h.entry_issued n e he
  · intro n e he
    by_cases hn : n = c.nonce
    · rw [hn, InMemoryNonceStore.insert_self] at he
      cases he
    · rw [InMemoryNonceStore.insert_of_ne _ _ hn] at he
      rw [List.map_cons, List.mem_cons, not_or, hnonce]
      exact ⟨fun heq => hn (Option.some.inj heq), h.unused n e he⟩
  · refine List.forall_mem_cons.mpr ⟨?_, h.accepted_issued⟩
    obtain ⟨c', hc', hnonce'⟩ := hissued
    exact ⟨c', hc', by rw [hnonce, hnonce']⟩
  · rw [List.map_cons, List.nodup_cons, hnonce]
    exact ⟨h.unused c.nonce expiresAt hentry, h.accepted_nodup⟩

/-- Entries that are dropped do not matter. -/
lemma Sound.gc (h : l.Sound drawn) (now : UInt64) :
    Sound drawn { l with store := l.store.gc now } := by
  -- a dropped entry cannot be accepted any more, used or not
  have hkept : ∀ n e, (l.store.gc now).issued n = some e → l.store.issued n = some e :=
    fun n e he => (Option.filter_eq_some_iff.mp he).1
  exact
    { h with
      entry_issued := fun n e he => h.entry_issued n e (hkept n e he)
      unused := fun n expiresAt he => h.unused n expiresAt (hkept n _ he) }

/-- Every operation keeps the invariant, if it does not draw a nonce again. -/
lemma Sound.step (h : l.Sound drawn) (op : Op) (hfresh : ∀ n ∈ op.drawn, n ∉ drawn) :
    (step bk build l op).Sound (drawn ++ op.drawn.toList) := by
  cases op with
  | issue issuer now nonce =>
    rcases step_issue issuer now nonce with hstay | ⟨c, -, hnonce, hstep⟩
    · rw [hstay]
      exact h.mono (List.subset_append_left _ _)
    · have hnew : c.nonce ∉ drawn := by
        rw [hnonce]
        exact hfresh nonce.val rfl
      have hissue := h.issue hnew
      rw [hstep]
      rwa [hnonce] at hissue
  | verify a =>
    rw [Op.drawn, Option.toList_none, List.append_nil]
    rcases step_verify a with hstay | ⟨c, v, expiresAt, hcheck, hentry, -, hstep⟩
    · rwa [hstay]
    · rw [hstep]
      exact h.verify (nonce_eq hcheck) hentry
  | gc now =>
    rw [Op.drawn, Option.toList_none, List.append_nil]
    exact h.gc now

/-- The invariant holds after every run in which no nonce is drawn twice. -/
lemma sound_run {ops : List Op} (hfresh : (drawnNonces ops).Nodup) :
    (run bk build (start .new) ops).Sound (drawnNonces ops) := by
  refine run_induction
    (P := fun ops (l : Ledger) => (drawnNonces ops).Nodup → l.Sound (drawnNonces ops))
    (fun _ => sound_new) ?_ ops hfresh
  intro ops op ih hfresh
  have hdrawn : drawnNonces (ops ++ [op]) = drawnNonces ops ++ op.drawn.toList := by
    rw [drawnNonces, List.filterMap_append]
    rfl
  rw [hdrawn] at hfresh ⊢
  -- the nonce drawn last is none of those drawn before
  obtain ⟨hold, -, hdisjoint⟩ := List.nodup_append'.mp hfresh
  refine Sound.step (ih hold) op fun n hn hmem => ?_
  exact hdisjoint hmem (Option.mem_toList.mpr hn)

end Invariant

/-! ### Single use -/

section SingleUse

variable (bk : Backend) (build : Build)

/-- **Single use of challenges.**  In every run in which no nonce is drawn twice, no two accepted
attempts answer the same nonce, and an accepted attempt answers a nonce issued before it.  An
attempt that fails, on whatever store, leaves the store exactly as it was. -/
theorem single_use {ops : List Op} (hfresh : (drawnNonces ops).Nodup) :
    ((run bk build (start .new) ops).accepted.map Attempt.nonce).Nodup ∧
    (∀ pre a post, ops = pre ++ .verify a :: post →
      (∃ v, (verifyResponse bk build a (run bk build (start .new) pre).store).1 = .ok v) →
      ∃ c ∈ (run bk build (start .new) pre).issued, a.nonce = some c.nonce) ∧
    ∀ (s : InMemoryNonceStore) (a : Attempt),
      (∃ e, (verifyResponse bk build a s).1 = .error e) → (verifyResponse bk build a s).2 = s := by
  refine ⟨(sound_run hfresh).accepted_nodup, ?_, ?_⟩
  · rintro pre a post rfl ⟨v, hv⟩
    have hpre : (drawnNonces pre).Nodup := by
      rw [drawnNonces, List.filterMap_append] at hfresh
      exact hfresh.of_append_left
    obtain ⟨c, expiresAt, hcheck, hentry, -, -⟩ := verifyResponse_eq_ok.mp (Prod.ext hv rfl)
    obtain ⟨c', hc', hnonce⟩ := (sound_run hpre).entry_issued c.nonce _ hentry
    exact ⟨c', hc', by rw [nonce_eq hcheck, hnonce]⟩
  · rintro s a ⟨e, he⟩
    exact verifyResponse_error (Prod.ext he rfl)

end SingleUse

end Ledger

/-! ### A verifier to run the model with -/

/-- The issuer of `sampleChallenge`. -/
def sampleIssuer : ChallengeIssuer := { audience := sampleChallenge.audience, ttlSecs := 120 }

/-- The operation that issues `sampleChallenge`. -/
def sampleIssue : Op := .issue sampleIssuer sampleChallenge.issuedAt ⟨sampleChallenge.nonce, rfl⟩

/-- A response with these challenge bytes, signed with `sampleKey` in `sampleBackend`. -/
def sampleAnswer (chalBytes : Bytes) : Response where
  challengeBytes := chalBytes
  publicKey := sampleKey
  signature :=
    { alg := .ed25519, bytes := sampleSign 64 sampleKey.bytes (signingPayload chalBytes) }
  pq := none

def sampleAttempt (chalBytes : Bytes) (now skewSecs : UInt64) : Attempt where
  response := sampleAnswer chalBytes
  expectedAudience := sampleChallenge.audience
  now
  skewSecs
  policy := .pqOptional

namespace Ledger

/-- A challenge is answered once, and an attempt to answer it again changes nothing. -/
theorem single_use_sampleIssue :
    let a := sampleAttempt sampleChallenge.toBytes 1010 0
    let used := run sampleBackend .debug (start .new) [sampleIssue, .verify a]
    used.accepted = [a] ∧ (used.accepted.map Attempt.nonce).Nodup ∧
      (∃ c ∈ (run sampleBackend .debug (start .new) [sampleIssue]).issued,
        a.nonce = some c.nonce) ∧
      (verifyResponse sampleBackend .debug a used.store).2 = used.store := by
  intro a used
  have hfresh : (drawnNonces [sampleIssue, .verify a]).Nodup := by decide
  obtain ⟨hnodup, hissued, hstay⟩ := single_use sampleBackend .debug hfresh
  have haccepted : ∃ v, (verifyResponse sampleBackend .debug a
      (run sampleBackend .debug (start .new) [sampleIssue]).store).1 = .ok v :=
    ⟨{ fingerprint := sampleKey.fingerprint sampleBackend, publicKey := sampleKey,
       pqPublicKey := none }, by decide +kernel⟩
  have hreplay : (verifyResponse sampleBackend .debug a used.store).1 =
      .error (.err .nonceReplay) := by decide +kernel
  exact ⟨by decide +kernel, hnodup, hissued [sampleIssue] a [] rfl haccepted,
    hstay used.store a ⟨_, hreplay⟩⟩

end Ledger

end Identikey.Auth
