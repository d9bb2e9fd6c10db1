/-
Admission of a thaw (`identikey-admit`): attestations, envelopes and the shape check.

Payloads are JSON values as `serde_json` holds them.
-/
import Identikey.Lib.Fallible

namespace Identikey.Admit

open Lib Lib.Fallible

/-! ### JSON -/

/-- `serde_json::Number`: a `u64`, a negative `i64` or the bits of an `f64`. -/
inductive Number where
  | posInt (n : UInt64)
  | negInt (n : Int64)
  | float (bits : UInt64)
deriving DecidableEq, Repr

/-- `Number::as_u64`. -/
def Number.asU64 : Number → Option UInt64
  | .posInt n => some n
  | .negInt _ => none
  | .float _ => none

/-- `serde_json::Value`; no two members of an object have one name. -/
inductive Json where
  | null
  | bool (b : Bool)
  | number (n : Number)
  | string (s : String)
  | array (elements : List Json)
  | object (members : List (String × Json))
deriving Repr

namespace Json

/-- `as_object`. -/
def asObject : Json → Option (List (String × Json))
  | object members => some members
  | _ => none

/-- `as_str`. -/
def asStr : Json → Option String
  | string s => some s
  | _ => none

/-- `get` of an object's map. -/
def find (members : List (String × Json)) (name : String) : Option Json := members.lookup name

end Json

/-! ### Attestations -/

/-- `AdmitError`. -/
inductive AdmitError where
  | notAnObject
  | missingAttestation
  | missingField (field : String)
  | emptyVmId
  | invalidEpoch
  | unsupportedVersion (version : UInt64)
  | unknownVerdict (verdict : String)
deriving DecidableEq, Repr

/-- `Attestation`: a VM and its lifecycle epoch. -/
structure Attestation where
  vmId : String
  epoch : UInt64
deriving DecidableEq, Repr

namespace Attestation

/-- `Attestation::new`. -/
def new (vmId : String) (epoch : UInt64) : Except AdmitError Attestation := do
  ensure (vmId ≠ "") .emptyVmId
  return { vmId, epoch }

/-- The epoch of an attestation. -/
def readEpoch (obj : List (String × Json)) : Except AdmitError UInt64 :=
  match Json.find obj "epoch" with
  | some (.number n) => okOr .invalidEpoch n.asU64
  | _ => throw .invalidEpoch

/-- `Attestation::from_value`. -/
def fromValue (value : Json) : Except AdmitError Attestation := do
  let obj ← okOr .notAnObject value.asObject
  let vmId ← okOr (.missingField "vm_id") ((Json.find obj "vm_id").bind Json.asStr)
  ensure (vmId ≠ "") .emptyVmId
  let epoch ← readEpoch obj
  return { vmId, epoch }

/-- `Attestation::from_payload`. -/
def fromPayload (payload : Json) : Except AdmitError Attestation := do
  let obj ← okOr .notAnObject payload.asObject
  let att ← okOr .missingAttestation (Json.find obj "attestation")
  fromValue att

/-- `Attestation::to_value`. -/
def toValue (att : Attestation) : Json :=
  .object [("epoch", .number (.posInt att.epoch)), ("vm_id", .string att.vmId)]

/-- `Attestation::valid_for`. -/
def validFor (att : Attestation) (vmId : String) : Bool := att.vmId == vmId

end Attestation

/-! ### Envelopes -/

def ENVELOPE_VERSION : UInt32 := 1

/-- `Envelope`. -/
structure Envelope where
  version : UInt32
  attestation : Attestation
deriving DecidableEq, Repr

namespace Envelope

/-- `Envelope::new`. -/
def new (attestation : Attestation) : Envelope := { version := ENVELOPE_VERSION, attestation }

/-- The version of an envelope, which may be left out. -/
def readVersion (obj : List (String × Json)) : Except AdmitError UInt32 :=
  match Json.find obj "version" with
  | none => return ENVELOPE_VERSION
  | some (.number n) => do
    let ver ← okOr (.unsupportedVersion 0) n.asU64
    ensure (ver = ENVELOPE_VERSION.toUInt64) (.unsupportedVersion ver)
    return ENVELOPE_VERSION
  | some _ => throw (.unsupportedVersion 0)

/-- `Envelope::from_value`. -/
def fromValue (value : Json) : Except AdmitError Envelope := do
  let obj ← okOr .notAnObject value.asObject
  let version ← readVersion obj
  let attestation ← Attestation.fromPayload value
  return { version, attestation }

/-- `Envelope::to_value`. -/
def toValue (e : Envelope) : Json :=
  .object [("attestation", e.attestation.toValue),
    ("version", .number (.posInt e.version.toUInt64))]

/-- `Envelope::valid_for`. -/
def validFor (e : Envelope) (vmId : String) : Bool :=
  e.version == ENVELOPE_VERSION && e.attestation.validFor vmId

end Envelope

/-- `thaw_allowed`. -/
def thawAllowed (vmId : String) (payload : Json) : Bool :=
  match Attestation.fromPayload payload with
  | .ok att => att.validFor vmId
  | .error _ => false

end Identikey.Admit
