/-
The wallet container (`identikey-wallet`, `envelope.rs` and the data of `format.rs`).

The subject of the container's envelope is a map with its type and version.  There is
an assertion for the active identity, one for each identity and one for each secret;
all other assertions are kept and written again.  How an identity is written is left to
its type.
-/
import Identikey.Secret.Store

namespace Identikey.Wallet

open Lib Lib.Fallible Auth Dcbor Gordian Secret

/-! ### Data -/

/-- What the wallet code reports; `what` is `Wallet` or `Identity`. -/
inductive WalletError where
  /-- `Failed to parse wallet envelope` -/
  | parse
  /-- `{what} envelope subject not a leaf` -/
  | subjectNotLeaf (what : String)
  /-- `{what} envelope subject is not a map` -/
  | subjectNotMap (what : String)
  /-- `{what} envelope subject missing '{field}'` -/
  | subjectMissing (what field : String)
  /-- `Expected {what} type '{expected}', got '{got}'` -/
  | wrongType (what expected got : String)
  /-- `Unsupported {what} format-version: {version}` -/
  | unsupportedVersion (what : String) (version : UInt32)
  /-- `sealed secret: {e}` -/
  | sealedSecret (e : SecretError)
  /-- `Duplicate identity name: {name}` -/
  | duplicateIdentity (name : String)
  /-- `Identity fingerprint must be 32 bytes` -/
  | fingerprintLength
  /-- `Identity envelope missing '{field}': {e}` -/
  | identityMissing (field : String) (e : QueryError)
  /-- `'created' is not a leaf`, `not a tagged value`, `not an integer` -/
  | createdNotLeaf
  | createdNotTagged
  | createdNotInteger
  /-- `Identity envelope has only one of ml-dsa-public/ml-dsa-secret` -/
  | halfMlDsa
  /-- `fingerprint does not match Blake3(ed25519-public)` -/
  | fingerprintMismatch
  /-- `Wallet file too short for salt extraction` -/
  | tooShortForSalt
  /-- `Wallet file too short` -/
  | tooShort
  /-- `Invalid wallet file (bad magic)` -/
  | badMagic
  /-- the `v1_rejection_msg` of the application -/
  | v1Rejected (msg : String)
  /-- `Unsupported wallet version: {version}` -/
  | unsupportedShell (version : UInt8)
  /-- `Decryption failed (wrong key?)` -/
  | decryption
  /-- `Encryption failed` -/
  | encryption
  /-- `Argon2 key derivation failed` -/
  | keyDerivation
deriving DecidableEq, Repr

/-- `WalletParams`, as far as the file is concerned. -/
structure WalletParams where
  walletType : String
  formatVersion : UInt32
  v1RejectionMsg : String

/-- `IDENTIKEY_PARAMS`. -/
def IDENTIKEY_PARAMS : WalletParams where
  walletType := "identikey.wallet"
  formatVersion := 2
  v1RejectionMsg := "Wallet format v1 is no longer supported. " ++
    "Create a new wallet with `ikey identity new`."

/-- An identity and its name, ordered by the name. -/
def nameKey {I : Type} (x : String × I) : Bytes := utf8 x.1

/-- `HashMap<String, I>`; it is only ever read in the order of the names. -/
structure Identities (I : Type) where
  entries : List (String × I)
  ordered : Keyed nameKey entries

namespace Identities

variable {I : Type}

/-- `HashMap::new`. -/
def new : Identities I := { entries := [], ordered := List.Pairwise.nil }

/-- `get`. -/
def get (m : Identities I) (name : String) : Option I :=
  (m.entries.find? fun x => x.1 = name).map Prod.snd

/-- `insert`. -/
def insert (m : Identities I) (name : String) (identity : I) : Identities I :=
  { entries := insertKeyed nameKey (name, identity) m.entries,
    ordered := m.ordered.insertKeyed (name, identity) }

/-- `remove`. -/
def remove (m : Identities I) (name : String) : Identities I :=
  { entries := m.entries.filter fun x => x.1 ≠ name, ordered := m.ordered.filter _ }

end Identities

/-- `WalletData`. -/
structure WalletData (I : Type) where
  identities : Identities I
  activeIdentity : Option String
  secrets : MemorySecretStore
  unknownAssertions : List (Envelope × Envelope)

/-- `WalletData::new`. -/
def WalletData.new {I : Type} : WalletData I :=
  { identities := .new, activeIdentity := none, secrets := .new, unknownAssertions := [] }

/-- `WalletIdentity`: how identities are written and read. -/
structure WalletIdentity (I : Type) where
  toEnvelope : I → String → Except WalletError Envelope
  fromEnvelope : Envelope → Except WalletError (String × I)

/-- `KNOWN_PREDICATES`. -/
def KNOWN_PREDICATES : List String := ["active-identity", "identity", "sealed-secret"]

/-! ### Encoding -/

variable (host : Host) {I : Type} (codec : WalletIdentity I) (params : WalletParams)

/-- The subject of the container. -/
def walletSubject : Map host :=
  ((Map.new : Map host).insert (.text "type") (.text params.walletType)).insert
    (.text "format-version") (.unsigned params.formatVersion.toUInt64)

/-- The assertion for the active identity, if there is one. -/
def addActive (envelope : Envelope) (active : Option String) : Envelope :=
  match active with
  | some name => envelope.addAssertion host (.ofText "active-identity") (.ofText name)
  | none => envelope

/-- The assertion for one identity. -/
def addIdentity (envelope : Envelope) (x : String × I) : Except WalletError Envelope := do
  let idEnvelope ← codec.toEnvelope x.2 x.1
  return envelope.addAssertion host (.ofText "identity") idEnvelope

/-- `wallet_to_envelope`. -/
def walletToEnvelope (wallet : WalletData I) : Except WalletError Envelope := do
  let envelope := Envelope.leaf (walletSubject host params).toCBOR
  let envelope := addActive host envelope wallet.activeIdentity
  let envelope ← wallet.identities.entries.foldlM (addIdentity host codec) envelope
  let envelope := wallet.secrets.records.foldl (fun e secret =>
    e.addAssertion host (.ofText "sealed-secret") (secret.toEnvelope host)) envelope
  return wallet.unknownAssertions.foldl
    (fun e u => e.addAssertionEnvelope host (.ofPair u)) envelope

/-- `to_envelope`. -/
def toEnvelope (wallet : WalletData I) : Except WalletError Bytes := do
  return (← walletToEnvelope host codec params wallet).toCborData host

/-! ### Decoding -/

/-- The entries of the map in the subject. -/
def subjectMap (what : String) (envelope : Envelope) :
    Except WalletError (List (CBOR × CBOR)) :=
  match envelope.subject.tryLeaf with
  | none => .error (.subjectNotLeaf what)
  | some (.map entries) => .ok entries
  | some _ => .error (.subjectNotMap what)

/-- What an assertion of the container holds. -/
inductive Item (I : Type) where
  | identity (name : String) (identity : I)
  | secret (secret : SealedSecret)
  | unknown (u : Envelope × Envelope)

/-- The object of an assertion with a known predicate; the text decides, not the digest. -/
def readKnown (predicate object : Envelope) : Except WalletError (Option (Item I)) :=
  match predicate.tryLeaf.bind CBOR.toText with
  | none => .ok none
  | some predStr =>
    if predStr = "sealed-secret" then do
      let secret ← (SealedSecret.fromEnvelope host object).mapError .sealedSecret
      return some (.secret secret)
    else if predStr = "identity" then do
      let (name, identity) ← codec.fromEnvelope object
      return some (.identity name identity)
    else .ok none

/-- One assertion of the container; none if it is passed over. -/
def readItem (assertion : Envelope) : Except WalletError (Option (Item I)) :=
  match assertion.subject with
  | .assertion predicate object =>
    if predicate.digest host ∈ Envelope.knownDigests host KNOWN_PREDICATES then
      readKnown host codec predicate object
    else .ok (some (.unknown (predicate, object)))
  | _ => .ok none

/-- What the loop does with an item. -/
def putItem (wallet : WalletData I) : Item I → Except WalletError (WalletData I)
  | .identity name identity => do
    ensure (wallet.identities.get name).isNone (.duplicateIdentity name)
    return { wallet with identities := wallet.identities.insert name identity }
  | .secret secret => do
    let secrets ← (wallet.secrets.insertSealed secret).mapError .sealedSecret
    return { wallet with secrets }
  | .unknown u => .ok { wallet with unknownAssertions := wallet.unknownAssertions ++ [u] }

/-- One turn of the loop over the assertions. -/
def readAssertion (wallet : WalletData I) (assertion : Envelope) :
    Except WalletError (WalletData I) := do
  match ← readItem host codec assertion with
  | none => return wallet
  | some item => putItem wallet item

/-- `wallet_from_envelope`. -/
def walletFromEnvelope (envelope : Envelope) : Except WalletError (WalletData I) := do
  let subject ← subjectMap "Wallet" envelope
  let ty ← okOr (.subjectMissing "Wallet" "type") (getAs host subject "type" CBOR.toText)
  ensure (ty = params.walletType) (.wrongType "wallet" params.walletType ty)
  let version ← okOr (.subjectMissing "Wallet" "format-version")
    (getAs host subject "format-version" CBOR.toU32)
  ensure (version = params.formatVersion) (.unsupportedVersion "wallet envelope" version)
  let activeIdentity := Envelope.orNone
    (envelope.extractOptionalObjectForPredicate host CBOR.toText "active-identity")
  envelope.assertions.foldlM (readAssertion host codec) { WalletData.new with activeIdentity }

variable {host}

/-- `from_envelope`. -/
def fromEnvelope (reader : EnvelopeReader host) (bytes : Bytes) :
    Except WalletError (WalletData I) := do
  let envelope ← okOr .parse (reader.tryFromCborData bytes)
  walletFromEnvelope host codec params envelope

end Identikey.Wallet
