/-
Granting access to a share, and checking a grant (`grant.rs`).

The signature schemes are crates of their own; `Signers` holds what the crate calls in
them, and that a signature made with a key verifies under its public key.
-/
import Identikey.Share.Share
import Identikey.Share.Grant

set_option linter.dupNamespace false

namespace Identikey.Share

open Lib Lib.Fallible Auth Dcbor

/-- `AccessMode::from_tag`. -/
def AccessMode.fromTag (tag : String) : Except ShareError AccessMode :=
  if tag = "direct" then .ok .direct
  else if tag = "recrypt" then .ok .recrypt
  else if tag = "either" then .ok .either
  else .error .mode

/-- `PqAlg::from_tag`. -/
def PqAlg.fromTag (tag : String) : Except ShareError PqAlg :=
  if tag = "ml-dsa-44" then .ok .mlDsa44
  else if tag = "ml-dsa-65" then .ok .mlDsa65
  else if tag = "ml-dsa-87" then .ok .mlDsa87
  else .error .signature

/-- `PK_LEN` of the `fips204` module of an algorithm. -/
def PqAlg.pkLen : PqAlg → ℕ
  | .mlDsa44 => 1312
  | .mlDsa65 => 1952
  | .mlDsa87 => 2592

/-- `SIG_LEN` of the `fips204` module of an algorithm. -/
def PqAlg.sigLen : PqAlg → ℕ
  | .mlDsa44 => 2420
  | .mlDsa65 => 3309
  | .mlDsa87 => 4627

/-- `PqPolicy`: how much post-quantum assurance the verifier demands. -/
inductive PqPolicy where
  | optional
  | required
deriving DecidableEq, Repr

/-- What the crates `ed25519_dalek` and `fips204` compute, and that their signatures verify. -/
structure Signers where
  /-- `SigningKey::verifying_key`, from the seed. -/
  ed25519Public : ByteArrayOf 32 → Digest32
  ed25519Sign : ByteArrayOf 32 → Bytes → ByteArrayOf 64
  /-- `VerifyingKey::from_bytes` accepts the key. -/
  ed25519Key : Digest32 → Bool
  /-- `VerifyingKey::verify_strict`. -/
  ed25519Verify : Digest32 → Bytes → ByteArrayOf 64 → Bool
  /-- `PrivateKey` of the `fips204` module of an algorithm. -/
  MlDsaSecret : PqAlg → Type
  mlDsaPublic : (alg : PqAlg) → MlDsaSecret alg → Bytes
  /-- `try_sign` with an empty context, on secret, random bytes and message. -/
  mlDsaSign : (alg : PqAlg) → MlDsaSecret alg → Bytes → Bytes → Option Bytes
  /-- `PublicKey::try_from_bytes` accepts the key. -/
  mlDsaKey : PqAlg → Bytes → Bool
  /-- `PublicKey::verify` with an empty context. -/
  mlDsaVerify : PqAlg → Bytes → Bytes → Bytes → Bool
  ed25519Key_public : ∀ seed, ed25519Key (ed25519Public seed) = true
  ed25519Verify_sign : ∀ seed m,
    ed25519Verify (ed25519Public seed) m (ed25519Sign seed m) = true
  length_mlDsaPublic : ∀ alg sk, (mlDsaPublic alg sk).length = alg.pkLen
  mlDsaKey_public : ∀ alg sk, mlDsaKey alg (mlDsaPublic alg sk) = true
  length_mlDsaSign : ∀ alg sk coins m sig,
    mlDsaSign alg sk coins m = some sig → sig.length = alg.sigLen
  mlDsaVerify_sign : ∀ alg sk coins m sig,
    mlDsaSign alg sk coins m = some sig → mlDsaVerify alg (mlDsaPublic alg sk) m sig = true

variable (signers : Signers) (blake3 : Bytes → Digest32) (host : Host)

/-- A key that `with_pq` generated. -/
structure PqKey where
  alg : PqAlg
  pk : Bytes
  secret : signers.MlDsaSecret alg
  pk_eq : pk = signers.mlDsaPublic alg secret

/-- `GrantKeys`. -/
structure GrantKeys where
  ed25519 : ByteArrayOf 32
  pq : Option (PqKey signers)

/-! ### The wire form -/

namespace AccessGrant

/-- `to_map`. -/
def toMap (g : AccessGrant) : Map host :=
  let map := (g.signedMap host).insert (.text "ed25519-sig") (.byteString g.ed25519Sig.val)
  match g.mlDsaSig with
  | some sig => map.insert (.text "ml-dsa-sig") (.byteString sig)
  | none => map

/-- `to_cbor`; the `Result` of the source is always `Ok`. -/
def toCbor (g : AccessGrant) : Bytes := (g.toMap host).toCBOR.toCborData host

/-- How many fields of a map are about ML-DSA: all three, none of them empty, or none. -/
def pqParts : Option PqAlg → Option Bytes → Option Bytes → Except ShareError ℕ
  | none, none, none => .ok 0
  | some _, some pk, some sig => if pk ≠ [] ∧ sig ≠ [] then .ok 3 else .error .signature
  | _, _, _ => .error .signature

/-- `from_cbor`, from the entries of the map on. -/
def readGrant (entries : List (CBOR × CBOR)) : Except ShareError AccessGrant := do
  let version ← okOr .signature (getAs host entries "v" CBOR.toU64)
  ensure (version = 1) .signature
  let contentBytes ← okOr .signature (getAs host entries "content" CBOR.toByteString)
  let commitmentBytes ← okOr .signature (getAs host entries "commitment" CBOR.toByteString)
  let epoch ← okOr .signature (getAs host entries "epoch" CBOR.toU64)
  let modeTag ← okOr .signature (getAs host entries "mode" CBOR.toText)
  let signerBytes ← okOr .signature (getAs host entries "signer" CBOR.toByteString)
  let edSigBytes ← okOr .signature (getAs host entries "ed25519-sig" CBOR.toByteString)
  let pqAlg ← (getAs host entries "pq-alg" CBOR.toText).mapM PqAlg.fromTag
  let pqPk := getAs host entries "pq-pk" CBOR.toByteString
  let mlDsaSig := getAs host entries "ml-dsa-sig" CBOR.toByteString
  let parts ← pqParts pqAlg pqPk mlDsaSig
  ensure (entries.length = 7 + parts) .signature
  let content ← okOr .signature (toArray 32 contentBytes)
  let commitment ← okOr .signature (toArray 32 commitmentBytes)
  let signer ← okOr .signature (toArray 32 signerBytes)
  let ed25519Sig ← okOr .signature (toArray 64 edSigBytes)
  let mode ← AccessMode.fromTag modeTag
  return { content, commitment, epoch, mode, signer, pqAlg, pqPk, ed25519Sig, mlDsaSig }

/-- `from_cbor`. -/
def fromCbor (bytes : Bytes) : Except ShareError AccessGrant :=
  parseMap host bytes .signature (readGrant host)

end AccessGrant

/-! ### Granting and checking -/

/-- The mode of a grant is that of the share's access set. -/
def ModeFits (mode : AccessMode) (s : Share) : Prop :=
  match mode with
  | .direct => s.hasDirect = true ∧ s.hasRecrypt = false
  | .recrypt => s.hasDirect = false ∧ s.hasRecrypt = true
  | .either => s.hasDirect = true ∧ s.hasRecrypt = true

instance : (mode : AccessMode) → (s : Share) → Decidable (ModeFits mode s)
  | .direct, _ => inferInstanceAs (Decidable (_ ∧ _))
  | .recrypt, _ => inferInstanceAs (Decidable (_ ∧ _))
  | .either, _ => inferInstanceAs (Decidable (_ ∧ _))

/-- A grant for a share before it is signed. -/
def unsignedGrant (s : Share) (keys : GrantKeys signers) (mode : AccessMode)
    (pqAlg : Option PqAlg) (pqPk mlDsaSig : Option Bytes) : AccessGrant :=
  { content := s.contentId blake3, commitment := s.accessCommitment blake3 host, epoch := s.epoch,
    mode, signer := signers.ed25519Public keys.ed25519, pqAlg, pqPk,
    ed25519Sig := ⟨List.replicate 64 0, rfl⟩, mlDsaSig }

/-- `grant_access`; `coins` are the random bytes of an ML-DSA signature. -/
def grantAccess (s : Share) (keys : GrantKeys signers) (mode : AccessMode) (coins : Bytes) :
    Except ShareError AccessGrant := do
  ensure (ModeFits mode s) .mode
  let mlDsaSig ← keys.pq.mapM fun key =>
    let unsigned := unsignedGrant signers blake3 host s keys mode (some key.alg) (some key.pk) none
    okOr .signature (signers.mlDsaSign key.alg key.secret coins (unsigned.message host))
  let grant := unsignedGrant signers blake3 host s keys mode (keys.pq.map PqKey.alg)
    (keys.pq.map PqKey.pk) mlDsaSig
  return { grant with ed25519Sig := signers.ed25519Sign keys.ed25519 (grant.message host) }

/-- `verify_pq`. -/
def verifyPq (alg : PqAlg) (pk message sig : Bytes) : Except ShareError Unit := do
  ensure (pk.length = alg.pkLen) .signature
  ensure (sig.length = alg.sigLen) .signature
  ensure (signers.mlDsaKey alg pk) .signature
  ensure (signers.mlDsaVerify alg pk message sig) .signature

/-- The ML-DSA part of `verify_grant`. -/
def verifyPqPart (grant : AccessGrant) (policy : PqPolicy) : Except ShareError Unit :=
  match grant.mlDsaSig, grant.pqAlg, grant.pqPk with
  | none, none, none => ensure (policy ≠ .required) .pqRequired
  | some sig, some alg, some pk => verifyPq signers alg pk (grant.message host) sig
  | _, _, _ => .error .signature

/-- `verify_grant`. -/
def verifyGrant (grant : AccessGrant) (s : Share) (policy : PqPolicy) : Except ShareError Unit := do
  ensure (¬ (grant.content ≠ s.contentId blake3 ∨
    grant.commitment ≠ s.accessCommitment blake3 host ∨
    grant.epoch ≠ s.epoch)) .grantMismatch
  ensure (ModeFits grant.mode s) .mode
  ensure (signers.ed25519Key grant.signer) .signature
  ensure (signers.ed25519Verify grant.signer (grant.message host) grant.ed25519Sig) .signature
  verifyPqPart signers host grant policy

end Identikey.Share
