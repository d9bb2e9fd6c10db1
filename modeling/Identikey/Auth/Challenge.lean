/-
Challenge and response on the wire, and the payload that is signed (`challenge.rs`).
-/
import Identikey.Auth.Key

namespace Identikey.Auth

/-- Current protocol version. -/
def VERSION : UInt64 := 1

/-- Domain-separation context tag. -/
def CONTEXT : String := "identikey-auth/v1"

/-- Purpose tag for a login proof. -/
def PURPOSE_CHALLENGE : String := "challenge"

/-- Minimum verifier-issued nonce length, in bytes. -/
def MIN_NONCE_LEN : ℕ := 16

/-- A verifier-issued challenge. -/
@[ext]
structure Challenge where
  version : UInt64
  audience : String
  nonce : Bytes
  issuedAt : UInt64
  expiresAt : UInt64
deriving DecidableEq, Repr

namespace Challenge

def entries (c : Challenge) : List (String × Value) :=
  [("v", .uint c.version), ("aud", .text c.audience), ("nonce", .bytes c.nonce),
    ("iat", .uint c.issuedAt), ("exp", .uint c.expiresAt)]

def toValue (c : Challenge) : Value := .map c.entries

def toBytes (c : Challenge) : Bytes := c.toValue.toBytes

def fromValue (v : Value) : Except AuthError Challenge := do
  let version ← (← v.get "v").asUint
  let audience ← (← v.get "aud").asText
  let nonce ← (← v.get "nonce").asBytes
  let issuedAt ← (← v.get "iat").asUint
  let expiresAt ← (← v.get "exp").asUint
  return { version, audience, nonce, issuedAt, expiresAt }

def fromBytes (data : Bytes) : Except AuthError Challenge := do
  let v ← Value.fromBytes data
  fromValue v

end Challenge

/-- The domain-separated payload of a login proof: `[CONTEXT, PURPOSE_CHALLENGE, chal_bytes]`. -/
def signingPayload (chalBytes : Bytes) : Bytes :=
  (Value.array [.text CONTEXT, .text PURPOSE_CHALLENGE, .bytes chalBytes]).toBytes

/-- The post-quantum pair of a message: both halves or neither. -/
def pqEntries : Option (PqPublicKey × PqSignature) → List (String × Value)
  | none => []
  | some (pqpub, pqsig) => [("pqpub", pqpub.toValue), ("pqsig", pqsig.toValue)]

/-- The post-quantum pair of a decoded message; one half alone is malformed. -/
def readPq (v : Value) : Except AuthError (Option (PqPublicKey × PqSignature)) := do
  match ← v.getOpt "pqpub", ← v.getOpt "pqsig" with
  | some pk, some sig => return some (← PqPublicKey.fromValue pk, ← PqSignature.fromValue sig)
  | none, none => return none
  | _, _ => throw .pqDangling

/-- The entries of a signed message: its body under `field`, key and signature, and the
post-quantum pair. -/
def signedEntries (field : String) (body : Bytes) (pub : ClassicalPublicKey)
    (sig : ClassicalSignature) (pq : Option (PqPublicKey × PqSignature)) :
    List (String × Value) :=
  [(field, .bytes body), ("pub", pub.toValue), ("sig", sig.toValue)] ++ pqEntries pq

/-- The parts of a signed message, in the order of the source's checks. -/
def readSigned (field : String) (v : Value) :
    Except AuthError
      (Bytes × ClassicalPublicKey × ClassicalSignature × Option (PqPublicKey × PqSignature)) := do
  let body ← (← v.get field).asBytes
  let pub ← ClassicalPublicKey.fromValue (← v.get "pub")
  let sig ← ClassicalSignature.fromValue (← v.get "sig")
  let pq ← readPq v
  return (body, pub, sig, pq)

/-- A claimant's response to a challenge. -/
structure Response where
  challengeBytes : Bytes
  publicKey : ClassicalPublicKey
  signature : ClassicalSignature
  pq : Option (PqPublicKey × PqSignature)
deriving DecidableEq, Repr

namespace Response

def toValue (r : Response) : Value :=
  .map (signedEntries "chal" r.challengeBytes r.publicKey r.signature r.pq)

def toBytes (r : Response) : Bytes := r.toValue.toBytes

def fromValue (v : Value) : Except AuthError Response := do
  let (challengeBytes, publicKey, signature, pq) ← readSigned "chal" v
  return { challengeBytes, publicKey, signature, pq }

def fromBytes (data : Bytes) : Except AuthError Response := do
  let v ← Value.fromBytes data
  fromValue v

/-- The signing payload for this response's embedded challenge. -/
def signingPayload (r : Response) : Bytes := Auth.signingPayload r.challengeBytes

end Response

/-! ### A challenge and a key to run the model with -/

def sampleChallenge : Challenge :=
  { version := 1, audience := "papyrus", nonce := List.replicate 16 7, issuedAt := 1000,
    expiresAt := 1120 }

def sampleKey : ClassicalPublicKey := { alg := .ed25519, bytes := List.replicate 32 1 }

end Identikey.Auth
