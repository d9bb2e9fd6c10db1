/-
Gordian envelopes, as the `bc-envelope` crate keeps them in memory.

An envelope is a tree.  A leaf holds a CBOR value, a node a subject with
assertions, an assertion a predicate and an object; a wrapped envelope is one that
has become a subject as a whole, and an elided one is only its digest.  An encrypted
or compressed element keeps its digest beside contents that are opaque here.  Every
tree has a digest, which hashes the digests of its parts: eliding a part does not
change it.

The assertions of a node are in increasing order of their digests and no two have
the same digest; `addAssertionEnvelope` keeps that.
-/
import Mathlib.Data.Finset.Basic
import Identikey.Lib.KeyedInsert
import Identikey.Auth.Sha256
import Identikey.Dcbor.Value

namespace Identikey.Gordian

open Lib Auth Dcbor

/-- How the contents of an element are closed: `EnvelopeCase::Encrypted` and
`EnvelopeCase::Compressed`. -/
inductive Closing where
  | encrypted
  | compressed
deriving DecidableEq, Repr, Inhabited

/-- The tag of a digest. -/
def TAG_DIGEST : UInt64 := 40001

/-- The tags of an `EncryptedMessage` and of a `Compressed`. -/
def Closing.tag : Closing → UInt64
  | .encrypted => 40002
  | .compressed => 40003

/-- The digest behind the contents: an encrypted message authenticates its encoding. -/
def Closing.digestCbor : Closing → Digest32 → CBOR
  | .encrypted, d =>
    .byteString (encodeVarint TAG_DIGEST .tagged ++ encodeLen 32 .byteString ++ d.val)
  | .compressed, d => .tagged TAG_DIGEST (.byteString d.val)

/-- `EnvelopeCase`. -/
inductive Envelope where
  | leaf (cbor : CBOR)
  | knownValue (value : UInt64)
  | assertion (predicate object : Envelope)
  | wrapped (envelope : Envelope)
  | elided (digest : Digest32)
  | closed (how : Closing) (contents : List CBOR) (digest : Digest32)
  | node (subject : Envelope) (assertions : List Envelope)
deriving Repr, Inhabited

namespace Envelope

/-! ### Looking at an envelope -/

/-- `subject`. -/
def subject : Envelope → Envelope
  | .node subject _ => subject
  | e => e

/-- `assertions`. -/
def assertions : Envelope → List Envelope
  | .node _ assertions => assertions
  | _ => []

/-- `try_unwrap`: the envelope inside, if the subject is a wrapped one. -/
def tryUnwrap (e : Envelope) : Option Envelope :=
  match e.subject with
  | .wrapped inner => some inner
  | _ => none

/-- `try_leaf`. -/
def tryLeaf : Envelope → Option CBOR
  | .leaf cbor => some cbor
  | _ => none

/-- `as_predicate`. -/
def asPredicate (e : Envelope) : Option Envelope :=
  match e.subject with
  | .assertion predicate _ => some predicate
  | _ => none

/-- `as_object`. -/
def asObject (e : Envelope) : Option Envelope :=
  match e.subject with
  | .assertion _ object => some object
  | _ => none

/-- `as_known_value`. -/
def asKnownValue : Envelope → Option UInt64
  | .knownValue value => some value
  | _ => none

/-- `extract_subject`, before the conversion: the leaf under any number of nodes. -/
def extractSubject : Envelope → Option CBOR
  | .leaf cbor => some cbor
  | .node subject _ => subject.extractSubject
  | _ => none

/-- `is_obscured`: of the element itself only the digest is known. -/
def Obscured : Envelope → Prop
  | .elided _ => True
  | .closed _ _ _ => True
  | _ => False

lemma tryUnwrap_eq_some {e inner : Envelope} :
    e.tryUnwrap = some inner ↔ e.subject = wrapped inner := by
  unfold tryUnwrap
  cases e.subject with
  | wrapped i => rw [Option.some.injEq, wrapped.injEq]
  | _ => simp

/-! ### Digests -/

variable (host : Host)

/-- The tag of a known value in the image that is hashed. -/
def TAG_KNOWN_VALUE : UInt64 := 40000

/-- Digests, one after the other. -/
def digestsData (ds : List Digest32) : Bytes := ds.flatMap Subtype.val

mutual

/-- `digest`. -/
def digest : Envelope → Digest32
  | .leaf cbor => sha256 (cbor.toCborData host)
  | .knownValue value => sha256 ((CBOR.tagged TAG_KNOWN_VALUE (.unsigned value)).toCborData host)
  | .assertion predicate object => sha256 (digestsData [predicate.digest, object.digest])
  | .wrapped e => sha256 (digestsData [e.digest])
  | .elided d => d
  | .closed _ _ d => d
  | .node subject assertions => sha256 (digestsData (subject.digest :: digests assertions))

/-- The digests of a list of envelopes. -/
def digests : List Envelope → List Digest32
  | [] => []
  | e :: es => e.digest :: digests es

end

/-- The key by which the assertions of a node are ordered. -/
def digestKey (e : Envelope) : Bytes := (e.digest host).val

/-! ### Building an envelope -/

/-- `add_assertion_envelope`: an assertion that is there already is not added again. -/
def addAssertionEnvelope (e a : Envelope) : Envelope :=
  match e with
  | .node subject assertions => .node subject (addKeyed (digestKey host) a assertions)
  | e => .node e [a]

/-- `add_assertion`. -/
def addAssertion (e predicate object : Envelope) : Envelope :=
  e.addAssertionEnvelope host (.assertion predicate object)

/-- `Envelope::new` of a text. -/
def ofText (s : String) : Envelope := .leaf (.text s)

/-- `wrap`. -/
def wrap (e : Envelope) : Envelope := .wrapped e

/-! ### Bytes -/

/-- The tag of an envelope. -/
def TAG_ENVELOPE : UInt64 := 200

/-- The tag of a leaf. -/
def TAG_LEAF : UInt64 := 201

mutual

/-- `untagged_cbor`. -/
def untaggedCbor : Envelope → CBOR
  | .leaf cbor => .tagged TAG_LEAF cbor
  | .knownValue value => .unsigned value
  | .assertion predicate object => .map [(predicate.untaggedCbor, object.untaggedCbor)]
  | .wrapped e => .tagged TAG_ENVELOPE e.untaggedCbor
  | .elided d => .byteString d.val
  | .closed how contents d => .tagged how.tag (.array (contents ++ [how.digestCbor d]))
  | .node subject assertions => .array (subject.untaggedCbor :: untaggedCbors assertions)

/-- The elements of a node behind the subject. -/
def untaggedCbors : List Envelope → List CBOR
  | [] => []
  | e :: es => e.untaggedCbor :: untaggedCbors es

end

/-- `tagged_cbor`. -/
def taggedCbor (e : Envelope) : CBOR := .tagged TAG_ENVELOPE e.untaggedCbor

/-- `to_cbor_data`. -/
def toCborData (e : Envelope) : Bytes := e.taggedCbor.toCborData host

/-! ### Elision -/

mutual

/-- `elide_removing_set`: every element whose digest is in `target` is replaced by its digest. -/
def elideRemovingSet (target : Finset Digest32) : Envelope → Envelope
  | .leaf cbor =>
    if digest host (.leaf cbor) ∈ target then .elided (digest host (.leaf cbor)) else .leaf cbor
  | .knownValue value =>
    if digest host (.knownValue value) ∈ target then .elided (digest host (.knownValue value))
    else .knownValue value
  | .assertion predicate object =>
    if digest host (.assertion predicate object) ∈ target then
      .elided (digest host (.assertion predicate object))
    else .assertion (elideRemovingSet target predicate) (elideRemovingSet target object)
  | .wrapped e =>
    if digest host (.wrapped e) ∈ target then .elided (digest host (.wrapped e))
    else .wrapped (elideRemovingSet target e)
  | .elided d => .elided d
  | .closed how contents d =>
    if digest host (.closed how contents d) ∈ target then
      .elided (digest host (.closed how contents d))
    else .closed how contents d
  | .node subject assertions =>
    if digest host (.node subject assertions) ∈ target then
      .elided (digest host (.node subject assertions))
    else .node (elideRemovingSet target subject) (elideAll target assertions)

/-- Every element of a list, elided. -/
def elideAll (target : Finset Digest32) : List Envelope → List Envelope
  | [] => []
  | e :: es => elideRemovingSet target e :: elideAll target es

end

end Envelope

end Identikey.Gordian
