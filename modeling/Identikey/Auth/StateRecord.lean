/-
State records of the post-quantum chain and their strict decoder (`state.rs`).
-/
import Identikey.Lib.Fallible
import Identikey.Auth.Cbor
import Identikey.Auth.Key
import Identikey.Auth.Sha256

namespace Identikey.Auth

open Lib Lib.Fallible

/-- State record version this module implements. -/
def STATE_VERSION : UInt64 := 1

/-- Domain-separation tag, the first element of the signing payload. -/
def STATE_DOMAIN : String := "identikey-pq-state/v1"

/-- Raw ML-DSA-65 public key length. -/
def ML_DSA_65_PK_LEN : ℕ := 1952

/-- An operational authentication key committed by a record. -/
structure OperationalKey where
  alg : String
  key : Bytes
  privileges : List String
  notBefore : Option UInt64
  notAfter : Option UInt64
deriving DecidableEq, Repr

/-- A decoded unsigned state record. -/
structure StateRecord where
  xid : Digest32
  seq : UInt64
  prev : Option Digest32
  control : PqPublicKey
  operational : List OperationalKey
deriving DecidableEq, Repr

/-! ### Reading a map -/

/-- `map_entries`: the entries of a map without keys beyond `allowed`. -/
def mapEntries (v : Value) (allowed : List String) (unknown : String) :
    Except AuthError (List (String × Value)) :=
  match v with
  | .map entries =>
    if entries.any fun e => !allowed.contains e.1 then .error (.state unknown) else .ok entries
  | _ => .error (.state "expected a map")

/-- `required`; `optional` is `lookup`. -/
def required (entries : List (String × Value)) (key missing : String) : Except AuthError Value :=
  match lookup key entries with
  | some v => .ok v
  | none => .error (.state missing)

/-- `digest32`. -/
def digest32 (v : Value) (wrongLen : String) : Except AuthError Digest32 := do
  let b ← v.asBytes
  if h : b.length = 32 then .ok ⟨b, h⟩ else .error (.state wrongLen)

/-- The items of an array. -/
def arrayItems (v : Value) (notArray : String) : Except AuthError (List Value) :=
  match v with
  | .array items => .ok items
  | _ => .error (.state notArray)

/-! ### Operational keys -/

namespace OperationalKey

def entries (k : OperationalKey) : List (String × Value) :=
  [("alg", .text k.alg), ("key", .bytes k.key), ("privileges", .array (k.privileges.map .text))] ++
    (k.notBefore.toList.map fun t => ("not_before", .uint t)) ++
    (k.notAfter.toList.map fun t => ("not_after", .uint t))

def toValue (k : OperationalKey) : Value := .map k.entries

def fromValue (v : Value) : Except AuthError OperationalKey := do
  let entries ← mapEntries v ["alg", "key", "privileges", "not_before", "not_after"]
    "unknown key in operational entry"
  let alg ← (← required entries "alg" "operational alg missing").asText
  let key ← (← required entries "key" "operational key missing").asBytes
  let items ← arrayItems (← required entries "privileges" "operational privileges missing")
    "operational privileges must be an array"
  let privileges ← items.mapM Value.asText
  let notBefore ← (lookup "not_before" entries).mapM Value.asUint
  let notAfter ← (lookup "not_after" entries).mapM Value.asUint
  return { alg, key, privileges, notBefore, notAfter }

end OperationalKey

/-! ### Control keys -/

/-- The control key of a record, with its threshold. -/
def controlEntries (control : PqPublicKey) : List (String × Value) :=
  [("alg", .text control.alg.tag), ("key", .bytes control.bytes), ("threshold", .uint 1)]

/-- `parse_control`. -/
def parseControl (v : Value) : Except AuthError PqPublicKey := do
  let entries ← mapEntries v ["alg", "key", "threshold"] "unknown key in control"
  let alg ← (← required entries "alg" "control alg missing").asText
  ensure (alg = PqAlg.mlDsa65.tag) (.state "control alg must be ml-dsa-65")
  let key ← (← required entries "key" "control key missing").asBytes
  ensure (key.length = ML_DSA_65_PK_LEN) (.state "control key must be 1952 bytes")
  let threshold ← (← required entries "threshold" "control threshold missing").asUint
  ensure (threshold = 1) (.state "control threshold must be 1")
  return { alg := .mlDsa65, bytes := key }

/-- `xid_for_control_key`: the XID of a new identity whose inception key is `pk`. -/
def xidForControlKey (pk : PqPublicKey) : Digest32 := sha256 pk.toValue.toBytes

/-! ### Records -/

namespace StateRecord

def entries (r : StateRecord) : List (String × Value) :=
  [("v", .uint STATE_VERSION), ("xid", .bytes r.xid.val), ("seq", .uint r.seq),
    ("control", .map (controlEntries r.control)),
    ("operational", .array (r.operational.map OperationalKey.toValue))] ++
    (r.prev.toList.map fun d => ("prev", .bytes d.val))

def toValue (r : StateRecord) : Value := .map r.entries

def toBytes (r : StateRecord) : Bytes := r.toValue.toBytes

/-- The version of a record, which is read before any other field. -/
def readVersion (v : Value) : Except AuthError UInt64 :=
  match v with
  | .map entries =>
    match lookup "v" entries with
    | some version => version.asUint
    | none => .error (.missingField "v")
  | _ => .error (.state "record must be a map")

/-- `prev` is absent on the first record and present on every later one. -/
def checkPrev (seq : UInt64) (prev : Option Digest32) : Except AuthError Unit :=
  if seq = 0 then .error (.state "seq starts at 1")
  else if seq = 1 ∧ prev.isSome then .error (.state "first record must not carry prev")
  else if 1 < seq ∧ prev.isNone then .error (.state "record after the first needs prev")
  else .ok ()

/-- The fields of a record of the right version. -/
def fromValue (v : Value) : Except AuthError StateRecord := do
  let version ← readVersion v
  ensure (version = STATE_VERSION) (.version version)
  let entries ← mapEntries v ["v", "xid", "seq", "prev", "control", "operational"]
    "unknown key in state record"
  let xid ← digest32 (← required entries "xid" "xid missing") "xid must be 32 bytes"
  let seq ← (← required entries "seq" "seq missing").asUint
  let prev ← (lookup "prev" entries).mapM fun v => digest32 v "prev must be 32 bytes"
  checkPrev seq prev
  let control ← parseControl (← required entries "control" "control missing")
  let items ← arrayItems (← required entries "operational" "operational missing")
    "operational must be an array"
  let operational ← items.mapM OperationalKey.fromValue
  return { xid, seq, prev, control, operational }

/-- `StateRecord::from_bytes`. -/
def fromBytes (bytes : Bytes) : Except AuthError StateRecord := do
  let v ← Value.fromBytes bytes
  ensure (v.toBytes = bytes) (.cbor "non-canonical state record")
  fromValue v

def digest (r : StateRecord) : Digest32 := sha256 r.toBytes

end StateRecord

/-- `state_signing_payload`: the payload that detached signatures cover. -/
def stateSigningPayload (unsigned : Bytes) : Bytes :=
  (Value.array [.text STATE_DOMAIN, .bytes unsigned]).toBytes

def StateRecord.signingPayload (r : StateRecord) : Bytes := stateSigningPayload r.toBytes

end Identikey.Auth
