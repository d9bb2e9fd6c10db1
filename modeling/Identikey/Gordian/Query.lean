/-
Looking up assertions, as the `bc-envelope` crate does it.

A predicate is looked up by its digest, so an elided predicate is found like the text
itself.  An object that is looked for must be there once; its value may be taken from
under assertions of its own.
-/
import Identikey.Lib.Fallible
import Identikey.Gordian.Wire

namespace Identikey.Gordian

open Lib Lib.Fallible Auth Dcbor

/-- `bc_envelope::Error`, as far as a lookup reports it. -/
inductive QueryError where
  | nonexistentPredicate
  | ambiguousPredicate
  | invalidFormat
  | wrongType
  | notLeaf
deriving DecidableEq, Repr

namespace Envelope

variable (host : Host)

/-! ### Lookups -/

/-- The object of an assertion, if its predicate has this digest. -/
def objectUnder (d : Digest32) (a : Envelope) : Option Envelope :=
  match a.subject with
  | .assertion predicate object => if predicate.digest host = d then some object else none
  | _ => none

/-- `objects_for_predicate`. -/
def objectsForPredicate (e : Envelope) (p : String) : List Envelope :=
  e.assertions.filterMap (objectUnder host ((ofText p).digest host))

/-- `object_for_predicate`. -/
def objectForPredicate (e : Envelope) (p : String) : Except QueryError Envelope :=
  match e.objectsForPredicate host p with
  | [] => .error .nonexistentPredicate
  | [o] => .ok o
  | _ => .error .ambiguousPredicate

/-- `optional_object_for_predicate`. -/
def optionalObjectForPredicate (e : Envelope) (p : String) :
    Except QueryError (Option Envelope) :=
  match e.objectsForPredicate host p with
  | [] => .ok none
  | [o] => .ok (some o)
  | _ => .error .ambiguousPredicate

/-- `extract_subject`, for types that a leaf is converted to. -/
def extractSubjectAs {α : Type} (convert : CBOR → Option α) (e : Envelope) :
    Except QueryError α :=
  match e.extractSubject with
  | none => .error .invalidFormat
  | some cbor =>
    match convert cbor with
    | none => .error .wrongType
    | some a => .ok a

/-- `extract_object_for_predicate`. -/
def extractObjectForPredicate {α : Type} (convert : CBOR → Option α) (e : Envelope) (p : String) :
    Except QueryError α := do
  extractSubjectAs convert (← e.objectForPredicate host p)

/-- `extract_optional_object_for_predicate`. -/
def extractOptionalObjectForPredicate {α : Type} (convert : CBOR → Option α) (e : Envelope)
    (p : String) : Except QueryError (Option α) := do
  match ← e.optionalObjectForPredicate host p with
  | none => return none
  | some o => return some (← extractSubjectAs convert o)

/-- `unwrap_or(None)`. -/
def orNone {ε α : Type} : Except ε (Option α) → Option α
  | .ok a => a
  | .error _ => none

/-! ### Assertions with unknown predicates -/

/-- `Envelope::new_assertion`, of a pair of predicate and object. -/
def ofPair (u : Envelope × Envelope) : Envelope := .assertion u.1 u.2

/-- `known_predicate_digests`. -/
def knownDigests (known : List String) : List Digest32 :=
  known.map fun p => (ofText p).digest host

instance (known : List String) (d : Digest32) : Decidable (d ∈ knownDigests host known) :=
  inferInstanceAs (Decidable (d ∈ (_ : List Digest32)))

/-- Predicate and object of an assertion, if the predicate is not a known one. -/
def unknownPair (known : List String) (a : Envelope) : Option (Envelope × Envelope) :=
  match a.subject with
  | .assertion predicate object =>
    if predicate.digest host ∈ knownDigests host known then none else some (predicate, object)
  | _ => none

/-- The assertions whose predicates are not known, as pairs; what has no predicate is left out. -/
def unknownAssertions (known : List String) (e : Envelope) : List (Envelope × Envelope) :=
  e.assertions.filterMap (unknownPair host known)

end Envelope

end Identikey.Gordian
