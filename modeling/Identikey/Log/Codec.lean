/-
The codec of operations (`identikey-log`, `codec.rs`).

The subject of an operation's envelope is a leaf with the core map, its attributes are
assertions.  A signed operation is that envelope, wrapped, with a `'signed'` assertion
for each signature.  Decoding skips elided assertions and counts them.
-/
import Identikey.Lib.KeyedList
import Identikey.Lib.Fallible
import Identikey.Dcbor.Decode
import Identikey.Gordian.Wire
import Identikey.Log.Op

namespace Identikey.Log

open Lib Lib.Fallible Auth Dcbor Gordian

/-- `TAG_EPOCH_TIME`. -/
def TAG_EPOCH_TIME : UInt64 := 1

/-- `PRED_DEPS`. -/
def PRED_DEPS : String := "deps"

/-- `PRED_NACKS`. -/
def PRED_NACKS : String := "nacks"

/-- `PRED_TARGET_FP`. -/
def PRED_TARGET_FP : String := "target-fp"

/-- `PRED_TIMESTAMP`. -/
def PRED_TIMESTAMP : String := "timestamp"

/-- `known_values::SIGNED`. -/
def SIGNED : UInt64 := 3

variable (host : Host)

/-! ### Encoding -/

/-- `assert_canonical`. -/
def assertCanonical (bytes : Bytes) : Except LogError Unit :=
  match decodeCbor host bytes with
  | .error _ => .error .nonCanonicalBody
  | .ok cbor => if cbor.toCborData host ≠ bytes then .error .nonCanonicalBody else .ok ()

/-- The body of an operation must be canonical. -/
def assertBody (op : Op) : Except LogError Unit :=
  match op.body with
  | some body => assertCanonical host body
  | none => .ok ()

/-- The core map of an operation. -/
def coreMap (op : Op) : Map host :=
  let core := (Map.new : Map host).insert (.text "hlc")
    (.array [.unsigned op.hlc.l, .unsigned op.hlc.c])
  let core := match op.body with
    | some body => core.insert (.text "body") (.byteString body)
    | none => core
  let core := core.insert (.text "kind") (.text op.kind)
  let core := core.insert (.text "type") (.text OP_TYPE)
  let core := core.insert (.text "actor") (.byteString op.actor.val)
  let core := core.insert (.text "parent-hashes")
    (.array (op.parentHashes.map fun p => .byteString p.val))
  core.insert (.text "format-version") (.unsigned FORMAT_VERSION)

/-- `to_envelope`. -/
def toEnvelope (op : Op) : Except LogError Envelope := do
  op.validate
  assertBody host op
  let envelope := Envelope.leaf (coreMap host op).toCBOR
  let envelope := op.deps.foldl (fun e d =>
    e.addAssertion host (.ofText PRED_DEPS) (.leaf (.byteString d.val))) envelope
  let envelope := op.nacks.foldl (fun e n =>
    e.addAssertion host (.ofText PRED_NACKS) (.leaf (.byteString n.val))) envelope
  let envelope := match op.targetFp with
    | some fp => envelope.addAssertion host (.ofText PRED_TARGET_FP) (.leaf (.byteString fp.val))
    | none => envelope
  let envelope := match op.timestamp with
    | some ts => envelope.addAssertion host (.ofText PRED_TIMESTAMP)
        (.leaf (.tagged TAG_EPOCH_TIME (.unsigned ts)))
    | none => envelope
  return envelope

variable {scheme : SignatureScheme}

/-- `to_signed_envelope`. -/
def toSignedEnvelope (signed : SignedOp scheme) : Except LogError Envelope := do
  let inner ← toEnvelope host signed.op
  if signed.signatures = [] then
    return inner
  return signed.signatures.foldl (fun e sig =>
    e.addAssertion host (.knownValue SIGNED) (.leaf (scheme.toCbor sig))) inner.wrap

/-- `encode`. -/
def encode (op : Op) : Except LogError Bytes := do
  return (← toEnvelope host op).toCborData host

/-- `encode_signed`. -/
def encodeSigned (signed : SignedOp scheme) : Except LogError Bytes := do
  return (← toSignedEnvelope host signed).toCborData host

/-- `content_hash`, for a hash function in the place of Blake3. -/
def contentHash (blake3 : Bytes → Hash32) (op : Op) : Except LogError Hash32 := do
  return blake3 (← encode host op)

/-! ### Decoding -/

/-- `into_array`. -/
def intoArray : CBOR → Except LogError (List CBOR)
  | .array items => .ok items
  | _ => .error (.invalidValue "expected an array")

/-- `into_text`. -/
def intoText : CBOR → Except LogError String
  | .text s => .ok s
  | _ => .error (.invalidValue "expected a text string")

/-- `into_bytes`. -/
def intoBytes : CBOR → Except LogError Bytes
  | .byteString b => .ok b
  | _ => .error (.invalidValue "expected a byte string")

/-- `into_uint`. -/
def intoUint : CBOR → Except LogError UInt64
  | .unsigned n => .ok n
  | _ => .error (.invalidValue "expected an unsigned integer")

/-- `expect_tag`. -/
def expectTag (cbor : CBOR) (expected : UInt64) : Except LogError CBOR :=
  match cbor with
  | .tagged tag item => if tag = expected then .ok item else .error (.wrongTag expected tag)
  | _ => .error (.invalidValue "expected a tagged value")

/-- `hash32`. -/
def hash32 (bytes : Bytes) : Except LogError Hash32 :=
  if h : bytes.length = 32 then .ok ⟨bytes, h⟩ else .error (.badLength 32 bytes.length)

/-- A hash in a byte string. -/
def readHash (v : CBOR) : Except LogError Hash32 := do hash32 (← intoBytes v)

/-- A field of the core map. -/
def field (core : List (CBOR × CBOR)) (k : String) : Except LogError CBOR :=
  match getEntry host core (.text k) with
  | some v => .ok v
  | none => .error (.missingField k)

/-- The clock reading in the core map. -/
def readHlc (core : List (CBOR × CBOR)) : Except LogError (CBOR × CBOR) := do
  match ← intoArray (← field host core "hlc") with
  | [l, c] => return (l, c)
  | _ => throw (.invalidValue "hlc must be [l, c]")

/-- The body in the core map, if there is one. -/
def readBody (core : List (CBOR × CBOR)) : Except LogError (Option Bytes) :=
  match getEntry host core (.text "body") with
  | some b => do
    let b ← intoBytes b
    assertCanonical host b
    return some b
  | none => .ok none

/-- The operation in a core map, without attributes. -/
def readCore (core : List (CBOR × CBOR)) : Except LogError Op := do
  let version ← intoUint (← field host core "format-version")
  ensure (version = FORMAT_VERSION) (.unsupportedFormatVersion version)
  let ty ← intoText (← field host core "type")
  ensure (ty = OP_TYPE) (.wrongType ty)
  let kind ← intoText (← field host core "kind")
  ensure (kind ≠ "") .emptyKind
  let (l, c) ← readHlc host core
  let body ← readBody host core
  let l ← intoUint l
  let c ← intoUint c
  let actor ← readHash (← field host core "actor")
  let parentHashes ← (← intoArray (← field host core "parent-hashes")).mapM readHash
  return { kind, body, hlc := { l, c }, actor, parentHashes, deps := [], nacks := [],
           targetFp := none, timestamp := none }

/-- The core map of an inner envelope. -/
def coreOf (inner : Envelope) : Except LogError (List (CBOR × CBOR)) :=
  match inner.subject.tryLeaf with
  | none => .error .envelope
  | some (.map entries) => .ok entries
  | some _ => .error (.invalidValue "subject is not a map")

/-- What an assertion says. -/
inductive Attribute where
  | deps (d : Hash32)
  | nacks (n : Hash32)
  | targetFp (fp : Hash32)
  | timestamp (ts : UInt64)
deriving DecidableEq, Repr

/-- What an assertion does to the operation. -/
def Attribute.apply (op : Op) : Attribute → Op
  | .deps d => { op with deps := op.deps ++ [d] }
  | .nacks n => { op with nacks := op.nacks ++ [n] }
  | .targetFp fp => { op with targetFp := some fp }
  | .timestamp ts => { op with timestamp := some ts }

/-- The attribute that a value is, under a predicate. -/
def attributeOf (label : String) (value : CBOR) : Except LogError Attribute :=
  if label = PRED_DEPS then do return .deps (← readHash value)
  else if label = PRED_NACKS then do return .nacks (← readHash value)
  else if label = PRED_TARGET_FP then do return .targetFp (← readHash value)
  else if label = PRED_TIMESTAMP then do
    return .timestamp (← intoUint (← expectTag value TAG_EPOCH_TIME))
  else .error (.unknownPredicate label)

/-- One assertion of the inner envelope; none if it is elided. -/
def readAttribute (assertion : Envelope) : Except LogError (Option Attribute) :=
  match assertion.asPredicate with
  | none => .ok none
  | some predicate => do
    let some object := assertion.asObject
      | throw (.invalidValue "assertion without an object")
    let some (.text label) := predicate.extractSubject
      | throw (.invalidValue "assertion predicate is not text")
    let some value := object.tryLeaf | throw .envelope
    return some (← attributeOf label value)

/-- One turn of the loop over the assertions of the inner envelope. -/
def readAssertion (acc : Op × ℕ) (assertion : Envelope) : Except LogError (Op × ℕ) := do
  match ← readAttribute assertion with
  | none => return (acc.1, acc.2 + 1)
  | some a => return (a.apply acc.1, acc.2)

/-- `is_mldsa_signature_object`. -/
def isMldsaSignatureObject (object : Envelope) : Bool :=
  match object.subject.tryLeaf with
  | some (.tagged tag _) => tag = TAG_MLDSA_SIGNATURE
  | _ => false

variable (scheme)

/-- One assertion of the wrapper; none if it is elided. -/
def readSignature (assertion : Envelope) : Except LogError (Option scheme.Signature) :=
  match assertion.asPredicate with
  | none => .ok none
  | some predicate => do
    ensure (predicate.subject.asKnownValue = some SIGNED)
      (.unknownPredicate "non-'signed' assertion on a wrapped op")
    let some object := assertion.asObject
      | throw (.invalidValue "assertion without an object")
    match object.extractSubject.bind scheme.tryFromCbor with
    | some sig => return some sig
    | none =>
      if isMldsaSignatureObject object then throw .pqUnavailable
      else throw (.invalidValue "'signed' object is not a Signature")

/-- One turn of the loop over the assertions of the wrapper. -/
def readOuter (acc : List scheme.Signature × ℕ) (assertion : Envelope) :
    Except LogError (List scheme.Signature × ℕ) := do
  match ← readSignature scheme assertion with
  | none => return (acc.1, acc.2 + 1)
  | some sig => return (acc.1 ++ [sig], acc.2)

/-- The operation with its repeatable links in order. -/
def Op.sortLinks (op : Op) : Op :=
  { op with deps := sortOn Subtype.val op.deps, nacks := sortOn Subtype.val op.nacks }

/-- The inner envelope and the assertions outside it. -/
def unwrapOp (envelope : Envelope) : Envelope × List Envelope :=
  match envelope.tryUnwrap with
  | some inner => (inner, envelope.assertions)
  | none => (envelope, [])

/-- `from_envelope`. -/
def fromEnvelope (envelope : Envelope) : Except LogError (SignedOp scheme) := do
  let (inner, outerAssertions) := unwrapOp envelope
  let op ← readCore host (← coreOf inner)
  let (op, elided) ← inner.assertions.foldlM readAssertion (op, 0)
  let op := op.sortLinks
  let (signatures, elided) ← outerAssertions.foldlM (readOuter scheme) ([], elided)
  return { op, signatures, elided }

variable {host}

/-- `decode`. -/
def decode (reader : EnvelopeReader host) (bytes : Bytes) : Except LogError (SignedOp scheme) :=
  match reader.tryFromCborData bytes with
  | none => .error .envelope
  | some envelope => fromEnvelope host scheme envelope

end Identikey.Log
