/-
Signing and verification (`signer.rs`).

The signature schemes and Blake3 are crates of their own.  `Backend` holds what this
crate calls in them; the checks around these calls, and the errors they map to, are
the crate's.
-/
import Identikey.Lib.Fallible
import Identikey.Auth.Challenge

namespace Identikey.Auth

open Lib.Fallible

/-- The functions of the signature and hash crates. -/
structure Backend where
  /-- `ed25519_dalek::VerifyingKey::from_bytes` accepts the key. -/
  ed25519Key : Bytes → Bool
  /-- `VerifyingKey::verify_strict`, on key, payload and signature. -/
  ed25519Verify : Bytes → Bytes → Bytes → Bool
  /-- `p256::ecdsa::VerifyingKey::from_sec1_bytes` accepts the key. -/
  p256Key : Bytes → Bool
  /-- `p256::ecdsa::Signature::from_slice` accepts the signature. -/
  p256Sig : Bytes → Bool
  /-- `VerifyingKey::verify`, on key, payload and signature. -/
  p256Verify : Bytes → Bytes → Bytes → Bool
  /-- `PublicKey::try_from_bytes` of the `fips204` module of an algorithm. -/
  mlDsaKey : PqAlg → Bytes → Except String Unit
  /-- `PublicKey::verify` with an empty context, on key, payload and signature. -/
  mlDsaVerify : PqAlg → Bytes → Bytes → Bytes → Bool
  /-- `blake3::hash`. -/
  blake3 : Bytes → Digest32

/-- `PK_LEN` of the `fips204` module of an algorithm. -/
def PqAlg.pkLen : PqAlg → ℕ
  | .mlDsa44 => 1312
  | .mlDsa65 => 1952
  | .mlDsa87 => 2592

/-- `SIG_LEN` of the `fips204` module of an algorithm. -/
def PqAlg.sigLen : PqAlg → ℕ
  | .mlDsa44 => 2420
  | .mlDsa65 => 3309
  | .mlDsa87 => 4627

section Verify

variable (bk : Backend)

/-- `verify_classical`. -/
def verifyClassical (pk : ClassicalPublicKey) (payload : Bytes) (sig : ClassicalSignature) :
    Except AuthError Unit := do
  ensure (pk.alg = sig.alg) .badSignature
  match pk.alg with
  | .ed25519 => do
    ensure (pk.bytes.length = 32) (.invalidKey "ed25519")
    ensure (bk.ed25519Key pk.bytes = true) (.invalidKey "ed25519")
    ensure (sig.bytes.length = 64) (.invalidSig "ed25519")
    ensure (bk.ed25519Verify pk.bytes payload sig.bytes = true) .badSignature
  | .p256 => do
    ensure (bk.p256Key pk.bytes = true) (.invalidKey "p256")
    ensure (bk.p256Sig sig.bytes = true) (.invalidSig "p256")
    ensure (bk.p256Verify pk.bytes payload sig.bytes = true) .badSignature

/-- `verify_pq`; the arms of its `match` differ in the module they use only. -/
def verifyPq (pk : PqPublicKey) (payload : Bytes) (sig : PqSignature) : Except AuthError Unit := do
  ensure (pk.alg = sig.alg) .badSignature
  ensure (pk.bytes.length = pk.alg.pkLen) (.invalidKey pk.alg.tag)
  (bk.mlDsaKey pk.alg pk.bytes).mapError .backend
  ensure (sig.bytes.length = pk.alg.sigLen) (.invalidSig pk.alg.tag)
  ensure (bk.mlDsaVerify pk.alg pk.bytes payload sig.bytes = true) .badSignature

/-- `ClassicalPublicKey::fingerprint`. -/
def ClassicalPublicKey.fingerprint (pk : ClassicalPublicKey) : Digest32 :=
  bk.blake3 pk.toValue.toBytes

end Verify

/-- The `Signer` trait. -/
structure Signer where
  classicalPublicKey : ClassicalPublicKey
  signClassical : Bytes → Except AuthError ClassicalSignature
  pqPublicKey : Option PqPublicKey
  signPq : Bytes → Except AuthError (Option PqSignature)

/-- `Signer::respond`: the response to a challenge, over its domain-separated payload. -/
def Signer.respond (s : Signer) (challenge : Challenge) : Except AuthError Response := do
  let chal := challenge.toBytes
  let payload := signingPayload chal
  let signature ← s.signClassical payload
  let pqsig ← s.signPq payload
  let pq :=
    match s.pqPublicKey, pqsig with
    | some pk, some sig => some (pk, sig)
    | _, _ => none
  return { challengeBytes := chal, publicKey := s.classicalPublicKey, signature, pq }

/-! ### A backend to run the model with -/

/-- The signature of a payload in `sampleBackend`: `len` bytes made of the key's first ones and
the payload, read from its end. -/
def sampleSign (len : ℕ) (key payload : Bytes) : Bytes :=
  (key.take 4 ++ payload.reverse ++ List.replicate len 0).take len

/-- A backend in which the keys of the right length are well formed and a payload has the one
signature that `sampleSign` makes. -/
def sampleBackend : Backend where
  ed25519Key _ := true
  ed25519Verify key payload sig := sig = sampleSign 64 key payload
  p256Key key := key.length = 33
  p256Sig sig := sig.length = 64
  p256Verify key payload sig := sig = sampleSign 64 key payload
  mlDsaKey _ _ := .ok ()
  mlDsaVerify alg key payload sig := sig = sampleSign alg.sigLen key payload
  blake3 b := ⟨(b ++ List.replicate 32 0).take 32, by simp⟩

lemma length_sampleSign (len : ℕ) (key payload : Bytes) :
    (sampleSign len key payload).length = len := by
  simp only [sampleSign, List.length_take, List.length_append, List.length_replicate]
  omega

lemma verifyClassical_sample {key : Bytes} (hkey : key.length = 32) (payload : Bytes) :
    verifyClassical sampleBackend { alg := .ed25519, bytes := key } payload
      { alg := .ed25519, bytes := sampleSign 64 key payload } = .ok () := by
  simp only [verifyClassical, bind_eq_ok, ensure_eq_ok]
  exact ⟨(), trivial, (), hkey, (), rfl, (), length_sampleSign 64 key payload,
    decide_eq_true rfl⟩

lemma verifyPq_sample {pk : PqPublicKey} (hkey : pk.bytes.length = pk.alg.pkLen)
    (payload : Bytes) :
    verifyPq sampleBackend pk payload
      { alg := pk.alg, bytes := sampleSign pk.alg.sigLen pk.bytes payload } = .ok () := by
  simp only [verifyPq, bind_eq_ok, ensure_eq_ok]
  exact ⟨(), trivial, (), hkey, (), rfl, (), length_sampleSign _ _ _, decide_eq_true rfl⟩

end Identikey.Auth
