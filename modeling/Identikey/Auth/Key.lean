/-
Self-describing public keys and signatures (`algorithm.rs`, `key.rs`).

Every key and signature carries its algorithm, and is written as a map of the
algorithm's tag and the raw bytes.
-/
import Identikey.Auth.Cbor

namespace Identikey.Auth

/-! ### The algorithm registry -/

/-- Classical signature algorithms. -/
inductive ClassicalAlg where
  | ed25519
  | p256
deriving DecidableEq, Repr

/-- Post-quantum signature algorithms. -/
inductive PqAlg where
  | mlDsa44
  | mlDsa65
  | mlDsa87
deriving DecidableEq, Repr

def ClassicalAlg.tag : ClassicalAlg → String
  | .ed25519 => "ed25519"
  | .p256 => "p256"

def ClassicalAlg.fromTag (tag : String) : Except AuthError ClassicalAlg :=
  if tag = "ed25519" then .ok .ed25519
  else if tag = "p256" then .ok .p256
  else .error (.unknownAlg tag)

def PqAlg.tag : PqAlg → String
  | .mlDsa44 => "ml-dsa-44"
  | .mlDsa65 => "ml-dsa-65"
  | .mlDsa87 => "ml-dsa-87"

def PqAlg.fromTag (tag : String) : Except AuthError PqAlg :=
  if tag = "ml-dsa-44" then .ok .mlDsa44
  else if tag = "ml-dsa-65" then .ok .mlDsa65
  else if tag = "ml-dsa-87" then .ok .mlDsa87
  else .error (.unknownAlg tag)

/-! ### Keys and signatures -/

structure ClassicalPublicKey where
  alg : ClassicalAlg
  bytes : Bytes
deriving DecidableEq, Repr

structure ClassicalSignature where
  alg : ClassicalAlg
  bytes : Bytes
deriving DecidableEq, Repr

structure PqPublicKey where
  alg : PqAlg
  bytes : Bytes
deriving DecidableEq, Repr

structure PqSignature where
  alg : PqAlg
  bytes : Bytes
deriving DecidableEq, Repr

/-- The map of an algorithm tag and, under `field`, the raw bytes. -/
def taggedEntries (field tag : String) (bytes : Bytes) : List (String × Value) :=
  [("alg", .text tag), (field, .bytes bytes)]

/-- The algorithm tag of such a map, checked by `fromTag`, and then the bytes under `field`. -/
def readTagged {α : Type} (fromTag : String → Except AuthError α) (field : String) (v : Value) :
    Except AuthError (α × Bytes) := do
  let alg ← fromTag (← (← v.get "alg").asText)
  let bytes ← (← v.get field).asBytes
  return (alg, bytes)

namespace ClassicalPublicKey

def toValue (k : ClassicalPublicKey) : Value := .map (taggedEntries "key" k.alg.tag k.bytes)

def fromValue (v : Value) : Except AuthError ClassicalPublicKey := do
  let (alg, bytes) ← readTagged ClassicalAlg.fromTag "key" v
  return { alg, bytes }

end ClassicalPublicKey

namespace ClassicalSignature

def toValue (s : ClassicalSignature) : Value := .map (taggedEntries "sig" s.alg.tag s.bytes)

def fromValue (v : Value) : Except AuthError ClassicalSignature := do
  let (alg, bytes) ← readTagged ClassicalAlg.fromTag "sig" v
  return { alg, bytes }

end ClassicalSignature

namespace PqPublicKey

def toValue (k : PqPublicKey) : Value := .map (taggedEntries "key" k.alg.tag k.bytes)

def fromValue (v : Value) : Except AuthError PqPublicKey := do
  let (alg, bytes) ← readTagged PqAlg.fromTag "key" v
  return { alg, bytes }

end PqPublicKey

namespace PqSignature

def toValue (s : PqSignature) : Value := .map (taggedEntries "sig" s.alg.tag s.bytes)

def fromValue (v : Value) : Except AuthError PqSignature := do
  let (alg, bytes) ← readTagged PqAlg.fromTag "sig" v
  return { alg, bytes }

end PqSignature

end Identikey.Auth
