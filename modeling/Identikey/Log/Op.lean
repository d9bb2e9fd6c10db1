/-
Operations of the append-only log (`identikey-log`, `op.rs`, `hlc.rs`, `error.rs`).

An operation has a core, which is always there, and attributes, which may be
withheld one by one: dependencies, negative acknowledgements, a target fingerprint
and a timestamp.
-/
import Identikey.Auth.Sha256
import Identikey.Dcbor.Value

namespace Identikey.Log

open Lib Auth Dcbor

/-- `Hash32`. -/
abbrev Hash32 := Digest32

/-- `Hlc`: a hybrid logical clock reading. -/
@[ext]
structure Hlc where
  l : UInt64
  c : UInt64
deriving DecidableEq, Repr

/-- `OP_TYPE`. -/
def OP_TYPE : String := "ball.action"

/-- `FORMAT_VERSION`. -/
def FORMAT_VERSION : UInt64 := 4

/-- `Op`. -/
structure Op where
  kind : String
  body : Option Bytes
  hlc : Hlc
  actor : Hash32
  parentHashes : List Hash32
  deps : List Hash32
  nacks : List Hash32
  targetFp : Option Hash32
  timestamp : Option UInt64
deriving DecidableEq, Repr

/-- `LogError`, without the texts that come from other crates. -/
inductive LogError where
  | envelope
  | missingField (name : String)
  | invalidValue (reason : String)
  | unsupportedFormatVersion (version : UInt64)
  | wrongType (ty : String)
  | wrongTag (expected got : UInt64)
  | emptyKind
  | badLength (expected got : ℕ)
  | nonCanonicalBody
  | unknownPredicate (label : String)
  | invalidKey (name : String)
  | invalidSig (name : String)
  | badSignature
  | unsigned
  | pqDangling
  | pqUnavailable
  | pqUnsupportedLevel (level : UInt64)
deriving DecidableEq, Repr

/-- `Op::validate`. -/
def Op.validate (op : Op) : Except LogError Unit :=
  if op.kind = "" then .error .emptyKind else .ok ()

/-! ### Signatures -/

/-- `MLDSA`: the level of a post-quantum signature. -/
inductive MLDSA where
  | mldsa44
  | mldsa65
  | mldsa87
deriving DecidableEq, Repr

/-- The discriminant of a level. -/
def MLDSA.code : MLDSA → UInt64
  | .mldsa44 => 2
  | .mldsa65 => 3
  | .mldsa87 => 5

/-- `MLDSASignature`. -/
structure MldsaSignature where
  level : MLDSA
  bytes : Bytes
deriving DecidableEq, Repr

/-- `SigningPublicKey`, as far as it is told apart. -/
inductive SigningPublicKey where
  | ed25519 (data : Hash32)
  | mldsa (bytes : Bytes)
deriving DecidableEq, Repr

/-- The tag of a signature. -/
def TAG_SIGNATURE : UInt64 := 40020

/-- The tag of an ML-DSA signature. -/
def TAG_MLDSA_SIGNATURE : UInt64 := 40105

/-- `Signature` of `bc-components` and what the log does with it.  `mldsa` tells an ML-DSA
signature, which there is only with the feature `pqcrypto`; `actorVerify` is the check under an
Ed25519 key, `mlDsa87` the decoding of an ML-DSA-87 key to its check of a message and a
signature. -/
structure SignatureScheme where
  Signature : Type
  decEq : DecidableEq Signature
  toCbor : Signature → CBOR
  tryFromCbor : CBOR → Option Signature
  tryFromCbor_toCbor : ∀ s, tryFromCbor (toCbor s) = some s
  toCbor_tagged : ∀ s, ∃ item, toCbor s = .tagged TAG_SIGNATURE item
  toCborData_injective : ∀ (host : Host) (s s' : Signature),
    (toCbor s).toCborData host = (toCbor s').toCborData host → s = s'
  mldsa : Signature → Option MldsaSignature
  actorVerify : Hash32 → Signature → Digest32 → Bool
  mlDsa87 : Bytes → Option (Bytes → Bytes → Bool)

/-- Signatures that are the key and what is signed. -/
def sampleScheme : SignatureScheme where
  Signature := { b : Bytes // b.length = 64 }
  decEq := inferInstance
  toCbor s := .tagged TAG_SIGNATURE (.array [.unsigned 2, .byteString s.val])
  tryFromCbor c :=
    match c with
    | .tagged tag (.array [.unsigned 2, .byteString b]) =>
      if h : tag = TAG_SIGNATURE ∧ b.length = 64 then some ⟨b, h.2⟩ else none
    | _ => none
  tryFromCbor_toCbor s := dif_pos ⟨rfl, s.2⟩
  toCbor_tagged s := ⟨_, rfl⟩
  toCborData_injective host s s' h := by
    have hlen := s.2.trans s'.2.symm
    simp only [CBOR.toCborData, itemsData, List.append_nil, hlen, List.length_cons,
      List.append_cancel_left_eq] at h
    exact Subtype.ext h
  mldsa _ := none
  actorVerify actor sig digest := sig.val = actor.val ++ digest.val
  mlDsa87 _ := none

instance (scheme : SignatureScheme) : DecidableEq scheme.Signature := scheme.decEq

/-- `SignedOp`. -/
structure SignedOp (scheme : SignatureScheme) where
  op : Op
  signatures : List scheme.Signature
  elided : ℕ
deriving DecidableEq

/-- An operation with one dependency. -/
def sampleOp : Op :=
  { kind := "k", body := none, hlc := { l := 1, c := 0 }, actor := ⟨List.replicate 32 1, by decide⟩,
    parentHashes := [], deps := [⟨List.replicate 32 7, by decide⟩], nacks := [], targetFp := none,
    timestamp := none }

/-- The digest of its envelope, wrapped. -/
def sampleDigest : Digest32 :=
  ⟨[0xd5, 0x44, 0xaa, 0xa2, 0xe7, 0x75, 0x63, 0xe5, 0xe7, 0x84, 0xa5, 0xe8, 0x18, 0xf4, 0x8b, 0xe6,
    0x91, 0x46, 0x51, 0xda, 0x37, 0xcc, 0x02, 0xc7, 0x01, 0x69, 0x11, 0xb9, 0xeb, 0x69, 0x78, 0x1c],
    rfl⟩

/-- The sample operation, signed by its actor. -/
def sampleSigned : SignedOp sampleScheme :=
  { op := sampleOp, elided := 0,
    signatures := [⟨sampleOp.actor.val ++ sampleDigest.val, by
      rw [List.length_append, sampleOp.actor.2, sampleDigest.2]⟩] }

end Identikey.Log
