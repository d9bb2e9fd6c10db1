/-
Signing and verification of operations (`identikey-log`, `sign.rs`).

What is signed is the digest of the wrapped operation.
-/
import Identikey.Log.Codec

namespace Identikey.Log

open Lib Lib.Fallible Auth Dcbor Gordian

/-- The length of an ML-DSA-87 public key. -/
def PK_LEN : ℕ := 2592

/-- The length of an ML-DSA-87 signature. -/
def SIG_LEN : ℕ := 4627

variable (scheme : SignatureScheme)

/-- `verify_ml_dsa_87`. -/
def verifyMlDsa87 (publicKey msg sig : Bytes) : Except LogError Unit := do
  if publicKey.length ≠ PK_LEN then throw (.invalidKey "ml-dsa-87")
  if sig.length ≠ SIG_LEN then throw (.invalidSig "ml-dsa-87")
  let some verify := scheme.mlDsa87 publicKey | throw (.invalidKey "ml-dsa-87")
  if verify msg sig then return () else throw .badSignature

/-- Whether one signature verifies. -/
def verifySignature (digest : Digest32) (actor : Hash32) (pqPublicKey : Option SigningPublicKey)
    (sig : scheme.Signature) : Except LogError Bool :=
  match scheme.mldsa sig with
  | some sig => do
    let some key := pqPublicKey | throw .pqDangling
    let .mldsa pk := key | throw (.invalidKey "ml-dsa-87")
    if sig.level ≠ .mldsa87 then throw (.pqUnsupportedLevel sig.level.code)
    return (verifyMlDsa87 scheme pk digest.val sig.bytes).isOk
  | none => .ok (scheme.actorVerify actor sig digest)

/-- `verify_signatures`. -/
def verifySignatures (signatures : List scheme.Signature) (digest : Digest32) (actor : Hash32)
    (pqPublicKey : Option SigningPublicKey) : Except LogError Unit :=
  match signatures with
  | [] => .ok ()
  | sig :: signatures => do
    let ok ← verifySignature scheme digest actor pqPublicKey sig
    if ¬ ok then throw .badSignature
    verifySignatures signatures digest actor pqPublicKey

variable (host : Host)

/-- The digest that `Author::raw_sign` signs. -/
def signedDigest (op : Op) : Except LogError Digest32 := do
  return (← toEnvelope host op).wrap.digest host

variable {scheme}

/-- `verify_with_pq_key`. -/
def verifyWithPqKey (signed : SignedOp scheme) (pqPublicKey : Option SigningPublicKey) :
    Except LogError Unit := do
  if signed.signatures = [] then throw .unsigned
  let digest ← signedDigest host signed.op
  verifySignatures scheme signed.signatures digest signed.op.actor pqPublicKey

/-- `verify`. -/
def verify (signed : SignedOp scheme) : Except LogError Unit := verifyWithPqKey host signed none

variable (scheme)

/-- `signatures_of`. -/
def signaturesOf (envelope : Envelope) : Except LogError (List scheme.Signature) := do
  return (← fromEnvelope host scheme envelope).signatures

/-- `verify_envelope_with_pq_key`. -/
def verifyEnvelopeWithPqKey (envelope : Envelope) (actor : Hash32)
    (pqPublicKey : Option SigningPublicKey) : Except LogError Unit := do
  let signatures ← signaturesOf scheme host envelope
  if signatures = [] then throw .unsigned
  verifySignatures scheme signatures (envelope.subject.digest host) actor pqPublicKey

/-- `verify_envelope`. -/
def verifyEnvelope (envelope : Envelope) (actor : Hash32) : Except LogError Unit :=
  verifyEnvelopeWithPqKey scheme host envelope actor none

variable {host}

/-- `decode_and_verify`. -/
def decodeAndVerify (reader : EnvelopeReader host) (blake3 : Bytes → Hash32) (bytes : Bytes) :
    Except LogError (SignedOp scheme × Hash32) :=
  match reader.tryFromCborData bytes with
  | none => .error .envelope
  | some envelope => do
    let signed ← fromEnvelope host scheme envelope
    verifyEnvelope scheme host envelope signed.op.actor
    let hash ← contentHash host blake3 signed.op
    return (signed, hash)

variable {scheme}

/-! ### The verdict -/

/-- What is signed is the digest of the envelope built, wrapped. -/
lemma signedDigest_of_toEnvelope {op : Op} {e : Envelope} (h : toEnvelope host op = .ok e) :
    signedDigest host op = .ok (e.wrap.digest host) := by
  rw [signedDigest, h]
  rfl

/-- The signature verifies under the key of the actor. -/
def Verifies (scheme : SignatureScheme) (actor : Hash32) (digest : Digest32)
    (sig : scheme.Signature) : Prop :=
  scheme.mldsa sig = none ∧ scheme.actorVerify actor sig digest = true

lemma verifies_sampleSigned :
    ∀ sig ∈ sampleSigned.signatures, Verifies sampleScheme sampleOp.actor sampleDigest sig :=
  List.forall_mem_singleton.mpr ⟨rfl, by decide⟩

/-- Without a post-quantum key, all signatures must verify under the actor. -/
lemma verifySignatures_eq_ok {sigs : List scheme.Signature} {digest : Digest32} {actor : Hash32} :
    verifySignatures scheme sigs digest actor none = .ok () ↔
      ∀ sig ∈ sigs, Verifies scheme actor digest sig := by
  have hone : ∀ sig, verifySignature scheme digest actor none sig = .ok true ↔
      Verifies scheme actor digest sig := by
    intro sig
    unfold verifySignature Verifies
    cases scheme.mldsa sig with
    | none => simp
    | some m => simp [throw, throwThe, MonadExceptOf.throw]
  induction sigs with
  | nil => simp [verifySignatures]
  | cons sig sigs ih =>
    rw [verifySignatures, bind_eq_ok, List.forall_mem_cons]
    constructor
    · rintro ⟨ok, hok, h⟩
      cases ok with
      | true => exact ⟨(hone sig).mp hok, ih.mp h⟩
      | false => cases h
    · rintro ⟨hok, h⟩
      exact ⟨true, (hone sig).mpr hok, ih.mpr h⟩

/-- The verdict on an envelope from what is decoded of it. -/
lemma verifyEnvelope_of_fromEnvelope {e : Envelope} {s : SignedOp scheme} {actor : Hash32}
    (h : fromEnvelope host scheme e = .ok s) :
    verifyEnvelope scheme host e actor =
      if s.signatures = [] then .error .unsigned
      else verifySignatures scheme s.signatures (e.subject.digest host) actor none := by
  have hsigs : signaturesOf scheme host e = .ok s.signatures := by
    unfold signaturesOf
    rw [h]
    rfl
  unfold verifyEnvelope verifyEnvelopeWithPqKey
  rw [hsigs, ok_bind]
  split_ifs <;> rfl

/-- What is decoded and verified, of the envelope that is read. -/
lemma decodeAndVerify_eq_ok {reader : EnvelopeReader host} {blake3 : Bytes → Hash32} {b : Bytes}
    {e : Envelope} (he : reader.tryFromCborData b = some e) {s : SignedOp scheme} {hash : Hash32} :
    decodeAndVerify scheme reader blake3 b = .ok (s, hash) ↔
      fromEnvelope host scheme e = .ok s ∧ verifyEnvelope scheme host e s.op.actor = .ok () ∧
        contentHash host blake3 s.op = .ok hash := by
  unfold decodeAndVerify
  rw [he]
  simp only [bind_eq_ok, pure_eq_ok, Prod.mk.injEq]
  constructor
  · rintro ⟨_, hfrom, _, hverify, _, hhash, rfl, rfl⟩
    exact ⟨hfrom, hverify, hhash⟩
  · rintro ⟨hfrom, hverify, hhash⟩
    exact ⟨s, hfrom, (), hverify, hash, hhash, rfl, rfl⟩

end Identikey.Log
