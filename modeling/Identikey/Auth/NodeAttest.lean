/-
Making and checking node attestations (`attestation.rs`).
-/
import Identikey.Auth.Attestation
import Identikey.Auth.Verify

namespace Identikey.Auth

open Lib.Fallible

/-- `attest_node_id`. -/
def attestNodeId (signer : Signer) (nodeId : Bytes) : Except AuthError NodeAttestation := do
  let payload := nodeSigningPayload nodeId
  let signature ← signer.signClassical payload
  let pqsig ← signer.signPq payload
  let pq :=
    match signer.pqPublicKey, pqsig with
    | some pk, some sig => some (pk, sig)
    | _, _ => none
  return { nodeId, publicKey := signer.classicalPublicKey, signature, pq }

/-- `verify_node_attestation`. -/
def verifyNodeAttestation (bk : Backend) (att : NodeAttestation) (policy : VerifyPolicy) :
    Except AuthError Digest32 := do
  let payload := nodeSigningPayload att.nodeId
  verifyClassical bk att.publicKey payload att.signature
  match att.pq with
  | some (pqpub, pqsig) => verifyPq bk pqpub payload pqsig
  | none => ensure (policy ≠ .pqRequired) .pqRequired
  return att.publicKey.fingerprint bk

/-- An attestation is accepted exactly when its signatures verify and there is a post-quantum one
where it is required. -/
lemma verifyNodeAttestation_eq_ok {bk : Backend} {att : NodeAttestation} {policy : VerifyPolicy}
    {fp : Digest32} :
    verifyNodeAttestation bk att policy = .ok fp ↔
      verifyClassical bk att.publicKey (nodeSigningPayload att.nodeId) att.signature = .ok () ∧
      (∀ pk sig, att.pq = some (pk, sig) →
        verifyPq bk pk (nodeSigningPayload att.nodeId) sig = .ok ()) ∧
      (att.pq = none → policy ≠ .pqRequired) ∧ fp = att.publicKey.fingerprint bk := by
  rw [verifyNodeAttestation]
  cases hpq : att.pq with
  | none =>
    simp only [bind_eq_ok, ensure_eq_ok, pure_eq_ok]
    constructor
    · rintro ⟨⟨⟩, hsig, _, hpolicy, rfl⟩
      exact ⟨hsig, (fun _ _ h => by cases h), fun _ => hpolicy, rfl⟩
    · rintro ⟨hsig, -, hpolicy, rfl⟩
      exact ⟨(), hsig, (), hpolicy trivial, rfl⟩
  | some pair =>
    obtain ⟨pk, sig⟩ := pair
    simp only [bind_eq_ok, pure_eq_ok]
    constructor
    · rintro ⟨⟨⟩, hsig, ⟨⟩, hpqsig, rfl⟩
      refine ⟨hsig, ?_, (fun h => by cases h), rfl⟩
      rintro _ _ ⟨⟩
      exact hpqsig
    · rintro ⟨hsig, hpqsig, -, rfl⟩
      exact ⟨(), hsig, (), hpqsig pk sig rfl, rfl⟩

/-- Where the signatures verify, the policy decides. -/
lemma verifyNodeAttestation_of_verifies {bk : Backend} {att : NodeAttestation}
    (hclassical : verifyClassical bk att.publicKey (nodeSigningPayload att.nodeId) att.signature =
      .ok ())
    (hpq : ∀ pk sig, att.pq = some (pk, sig) →
      verifyPq bk pk (nodeSigningPayload att.nodeId) sig = .ok ()) (policy : VerifyPolicy) :
    verifyNodeAttestation bk att policy =
      if policy = .pqRequired ∧ att.pq = none then .error .pqRequired
      else .ok (att.publicKey.fingerprint bk) := by
  split_ifs with hcase
  · obtain ⟨rfl, hnone⟩ := hcase
    rw [verifyNodeAttestation, hclassical, hnone]
    rfl
  · rw [verifyNodeAttestation_eq_ok]
    exact ⟨hclassical, hpq, fun hnone hpolicy => hcase ⟨hpolicy, hnone⟩, rfl⟩

end Identikey.Auth
