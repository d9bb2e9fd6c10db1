/-
The built-in identity type (`identikey-wallet`, `basic.rs`).

An identity has an Ed25519 key pair, the Blake3 fingerprint of its public key, and
possibly an ML-DSA-87 key pair.  Both the encoder and the decoder check the
fingerprint.
-/
import Identikey.Wallet.Envelope

namespace Identikey.Wallet

open Lib Lib.Fallible Auth Dcbor Gordian Secret

namespace BasicIdentity

/-- `IDENTITY_TYPE`. -/
def IDENTITY_TYPE : String := "identikey.identity"

/-- `IDENTITY_FORMAT_VERSION`. -/
def IDENTITY_FORMAT_VERSION : UInt32 := 1

/-- `KNOWN_PREDICATES`. -/
def KNOWN_PREDICATES : List String :=
  ["created", "ed25519-public", "ed25519-secret", "ml-dsa-public", "ml-dsa-secret", "name"]

end BasicIdentity

/-- `KeyPair`. -/
structure KeyPair where
  publicKey : Bytes
  secretKey : Bytes
deriving DecidableEq, Repr

/-- `BasicIdentity`. -/
structure BasicIdentity where
  createdAt : UInt64
  fingerprint : Digest32
  ed25519 : KeyPair
  mlDsa : Option KeyPair
  unknownAssertions : List (Envelope × Envelope)

namespace BasicIdentity

/-- `new`. -/
def new (blake3 : Bytes → Digest32) (createdAt : UInt64) (ed25519Public ed25519Secret : Bytes) :
    BasicIdentity :=
  { createdAt, fingerprint := blake3 ed25519Public,
    ed25519 := { publicKey := ed25519Public, secretKey := ed25519Secret }, mlDsa := none,
    unknownAssertions := [] }

variable (host : Host) (blake3 : Bytes → Digest32)

/-- The subject of an identity. -/
def subject (fingerprint : Digest32) : Map host :=
  (((Map.new : Map host).insert (.text "type") (.text IDENTITY_TYPE)).insert
    (.text "format-version") (.unsigned IDENTITY_FORMAT_VERSION.toUInt64)).insert
    (.text "fingerprint") (.byteString fingerprint.val)

/-- `to_envelope`. -/
def toEnvelope (identity : BasicIdentity) (name : String) : Except WalletError Envelope := do
  ensure (identity.fingerprint = blake3 identity.ed25519.publicKey) .fingerprintMismatch
  let envelope := Envelope.leaf (subject host identity.fingerprint).toCBOR
  let envelope := envelope.addAssertion host (.ofText "created")
    (.leaf (.tagged TAG_EPOCH_TIME (.unsigned identity.createdAt)))
  let envelope := envelope.addAssertion host (.ofText "ed25519-public")
    (.leaf (.byteString identity.ed25519.publicKey))
  let envelope := envelope.addAssertion host (.ofText "ed25519-secret")
    (.leaf (.byteString identity.ed25519.secretKey))
  let envelope := match identity.mlDsa with
    | some mlDsa =>
      let envelope := envelope.addAssertion host (.ofText "ml-dsa-public")
        (.leaf (.byteString mlDsa.publicKey))
      envelope.addAssertion host (.ofText "ml-dsa-secret") (.leaf (.byteString mlDsa.secretKey))
    | none => envelope
  let envelope := envelope.addAssertion host (.ofText "name") (.ofText name)
  return identity.unknownAssertions.foldl (fun e u => e.addAssertionEnvelope host (.ofPair u))
    envelope

/-- The time in `created`; its tag is not looked at. -/
def readCreatedAt (envelope : Envelope) : Except WalletError UInt64 := do
  let obj ← (envelope.objectForPredicate host "created").mapError (.identityMissing "created")
  let cbor ← okOr .createdNotLeaf obj.tryLeaf
  let (_, value) ← okOr .createdNotTagged cbor.tryIntoTaggedValue
  okOr .createdNotInteger value.toU64

/-- The bytes under a predicate that must be there. -/
def readBytes (envelope : Envelope) (p : String) : Except WalletError Bytes :=
  (envelope.extractObjectForPredicate host CBOR.toByteString p).mapError (.identityMissing p)

/-- The bytes under a predicate, if they are there once and are bytes. -/
def readOptionalBytes (envelope : Envelope) (p : String) : Option Bytes :=
  Envelope.orNone (envelope.extractOptionalObjectForPredicate host CBOR.toByteString p)

/-- The ML-DSA key pair: both keys or none. -/
def readMlDsa (envelope : Envelope) : Except WalletError (Option KeyPair) :=
  match readOptionalBytes host envelope "ml-dsa-public",
    readOptionalBytes host envelope "ml-dsa-secret" with
  | some publicKey, some secretKey => .ok (some { publicKey, secretKey })
  | none, none => .ok none
  | _, _ => .error .halfMlDsa

/-- `from_envelope`. -/
def fromEnvelope (envelope : Envelope) : Except WalletError (String × BasicIdentity) := do
  let subject ← subjectMap "Identity" envelope
  let ty ← okOr (.subjectMissing "Identity" "type") (getAs host subject "type" CBOR.toText)
  ensure (ty = IDENTITY_TYPE) (.wrongType "identity" IDENTITY_TYPE ty)
  let version ← okOr (.subjectMissing "Identity" "format-version")
    (getAs host subject "format-version" CBOR.toU32)
  ensure (version = IDENTITY_FORMAT_VERSION) (.unsupportedVersion "identity" version)
  let fingerprintBytes ← okOr (.subjectMissing "Identity" "fingerprint")
    (getAs host subject "fingerprint" CBOR.toByteString)
  let fingerprint ← okOr .fingerprintLength (toArray32 fingerprintBytes)
  let name ← (envelope.extractObjectForPredicate host CBOR.toText "name").mapError
    (.identityMissing "name")
  let createdAt ← readCreatedAt host envelope
  let publicKey ← readBytes host envelope "ed25519-public"
  let secretKey ← readBytes host envelope "ed25519-secret"
  let mlDsa ← readMlDsa host envelope
  ensure (fingerprint = blake3 publicKey) .fingerprintMismatch
  return (name, { createdAt, fingerprint, ed25519 := { publicKey, secretKey }, mlDsa,
                  unknownAssertions := envelope.unknownAssertions host KNOWN_PREDICATES })

/-- `WalletIdentity for BasicIdentity`. -/
def codec : WalletIdentity BasicIdentity where
  toEnvelope := toEnvelope host blake3
  fromEnvelope := fromEnvelope host blake3

end BasicIdentity

end Identikey.Wallet
