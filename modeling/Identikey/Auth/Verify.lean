/-
Verification of a response (`verify.rs`).
-/
import Identikey.Auth.Signer
import Identikey.Auth.Nonce

namespace Identikey.Auth

open Lib.Fallible

/-- `VerifyPolicy`. -/
inductive VerifyPolicy where
  | pqOptional
  | pqRequired
deriving DecidableEq, Repr

/-- The authenticated identity. -/
structure Verified where
  fingerprint : Digest32
  publicKey : ClassicalPublicKey
  pqPublicKey : Option PqPublicKey
deriving DecidableEq, Repr

/-- What `verify_response` is given besides the store. -/
structure Attempt where
  response : Response
  expectedAudience : String
  now : UInt64
  skewSecs : UInt64
  policy : VerifyPolicy
deriving DecidableEq, Repr

section Verify

variable (bk : Backend) (build : Build)

/-- The validity window of the challenge, with symmetric skew tolerance. -/
def checkWindow (challenge : Challenge) (now skewSecs : UInt64) : Except Fault Unit := do
  let latest ← addU64 build now skewSecs
  ensure (¬ latest < challenge.issuedAt) (.err .timeWindow)
  let last ← addU64 build challenge.expiresAt skewSecs
  ensure (¬ now > last) (.err .timeWindow)

/-- The post-quantum policy: a signature that is present must verify. -/
def checkPq (resp : Response) (payload : Bytes) (policy : VerifyPolicy) :
    Except AuthError (Option PqPublicKey) :=
  match resp.pq with
  | some (pqpub, pqsig) => do
    verifyPq bk pqpub payload pqsig
    return some pqpub
  | none => do
    ensure (policy ≠ .pqRequired) .pqRequired
    return none

/-- The checks of `verify_response` before it looks at the store. -/
def checkResponse (a : Attempt) : Except Fault (Challenge × Verified) := do
  let challenge ← liftErr (Challenge.fromBytes a.response.challengeBytes)
  ensure (challenge.version = VERSION) (.err (.version challenge.version))
  ensure (challenge.audience = a.expectedAudience) (.err .audience)
  ensure (¬ challenge.nonce.length < MIN_NONCE_LEN) (.err .nonceTooShort)
  checkWindow build challenge a.now a.skewSecs
  let payload := a.response.signingPayload
  liftErr (verifyClassical bk a.response.publicKey payload a.response.signature)
  let pqPublicKey ← liftErr (checkPq bk a.response payload a.policy)
  return (challenge,
    { fingerprint := a.response.publicKey.fingerprint bk, publicKey := a.response.publicKey,
      pqPublicKey })

/-- `verify_response`: all checks first, and then the nonce is consumed. -/
def verifyResponse {σ : Type} [NonceStore σ] (a : Attempt) (nonces : σ) :
    Except Fault Verified × σ :=
  match checkResponse bk build a with
  | .error e => (.error e, nonces)
  | .ok (challenge, verified) =>
    match NonceStore.consume nonces challenge.nonce a.now with
    | (.error e, nonces') => (.error (.err e), nonces')
    | (.ok (), nonces') => (.ok verified, nonces')

end Verify

section Spec

variable {bk : Backend} {build : Build}

lemma liftErr_eq_ok {α : Type} {r : Except AuthError α} {a : α} : liftErr r = .ok a ↔ r = .ok a :=
  mapError_eq_ok

/-- The checks succeed exactly when the embedded challenge decodes and passes, and the signatures
verify. -/
lemma checkResponse_eq_ok {a : Attempt} {c : Challenge} {v : Verified} :
    checkResponse bk build a = .ok (c, v) ↔
      Challenge.fromBytes a.response.challengeBytes = .ok c ∧ c.version = VERSION ∧
      c.audience = a.expectedAudience ∧ MIN_NONCE_LEN ≤ c.nonce.length ∧
      checkWindow build c a.now a.skewSecs = .ok () ∧
      verifyClassical bk a.response.publicKey a.response.signingPayload a.response.signature =
        .ok () ∧
      ∃ pqPublicKey, checkPq bk a.response a.response.signingPayload a.policy = .ok pqPublicKey ∧
        v = { fingerprint := a.response.publicKey.fingerprint bk,
              publicKey := a.response.publicKey, pqPublicKey } := by
  simp only [checkResponse, bind_eq_ok, ensure_eq_ok, liftErr_eq_ok, pure_eq_ok, Prod.mk.injEq,
    not_lt]
  constructor
  · rintro ⟨_, hread, _, hversion, _, haud, _, hlen, _, hwindow, _, hsig, pq, hpq, rfl, rfl⟩
    exact ⟨hread, hversion, haud, hlen, hwindow, hsig, pq, hpq, rfl⟩
  · rintro ⟨hread, hversion, haud, hlen, hwindow, hsig, pq, hpq, rfl⟩
    exact ⟨c, hread, (), hversion, (), haud, (), hlen, (), hwindow, (), hsig, pq, hpq, rfl, rfl⟩

/-- A response is accepted exactly when the checks succeed and its nonce is stored, unused and
not expired; the nonce is then used. -/
lemma verifyResponse_eq_ok {a : Attempt} {s s' : InMemoryNonceStore} {v : Verified} :
    verifyResponse bk build a s = (.ok v, s') ↔
      ∃ c expiresAt, checkResponse bk build a = .ok (c, v) ∧
        s.issued c.nonce = some (expiresAt, false) ∧ a.now ≤ expiresAt ∧
        s' = s.insert c.nonce (expiresAt, true) := by
  unfold verifyResponse
  rcases hcheck : checkResponse bk build a with e | ⟨c, v'⟩
  · simp
  · simp only [InMemoryNonceStore.nonceStore_consume]
    rcases hconsume : s.consume c.nonce a.now with ⟨e | u, s₁⟩
    · constructor
      · rintro ⟨⟩
      · rintro ⟨c', expiresAt, hc, hentry, hnow, -⟩
        obtain ⟨rfl, rfl⟩ := Prod.mk.inj (Except.ok.inj hc)
        have hok : s.consume c.nonce a.now = (.ok (), _) :=
          InMemoryNonceStore.consume_eq_ok.mpr ⟨expiresAt, hentry, hnow, rfl⟩
        rw [hok] at hconsume
        cases hconsume
    · obtain ⟨expiresAt, hentry, hnow, rfl⟩ := InMemoryNonceStore.consume_eq_ok.mp hconsume
      constructor
      · rintro ⟨⟩
        exact ⟨c, expiresAt, rfl, hentry, hnow, rfl⟩
      · rintro ⟨c', expiresAt', hc, hentry', -, rfl⟩
        obtain ⟨rfl, rfl⟩ := Prod.mk.inj (Except.ok.inj hc)
        rw [hentry] at hentry'
        obtain ⟨rfl, -⟩ := Prod.mk.inj (Option.some.inj hentry')
        rfl

/-- An attempt that fails leaves the store as it was. -/
lemma verifyResponse_error {a : Attempt} {s s' : InMemoryNonceStore} {e : Fault}
    (h : verifyResponse bk build a s = (.error e, s')) : s' = s := by
  unfold verifyResponse at h
  rcases hcheck : checkResponse bk build a with e' | ⟨c, v⟩
  · rw [hcheck] at h
    cases h
    rfl
  · simp only [hcheck, InMemoryNonceStore.nonceStore_consume] at h
    rcases hconsume : s.consume c.nonce a.now with ⟨e' | u, s₁⟩
    · rw [hconsume] at h
      cases h
      exact InMemoryNonceStore.consume_error hconsume
    · rw [hconsume] at h
      cases h

end Spec

end Identikey.Auth
