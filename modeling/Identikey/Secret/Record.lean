/-
Sealed secrets (`identikey-secret`, `record.rs`).

A record holds a secret under a label and an id that can be a path segment.  The checks
on id, label and value are made when a record is generated and again when it is read,
so the types carry them: there is no record that has not passed.
-/
import Identikey.Gordian.Query

namespace Identikey.Secret

open Lib Lib.Fallible Auth Dcbor Gordian

/-- `MAX_VALUE_LEN`. -/
def MAX_VALUE_LEN : ℕ := 64 * 1024

/-- `SECRET_TYPE`. -/
def SECRET_TYPE : String := "identikey.sealed-secret"

/-- `FORMAT_VERSION`. -/
def FORMAT_VERSION : UInt32 := 1

/-- `KNOWN`. -/
def KNOWN : List String := ["label", "created", "salt", "value"]

/-- The tag of a time, `Tag::with_value(1)`. -/
def TAG_EPOCH_TIME : UInt64 := 1

/-- `SecretError`. -/
inductive SecretError where
  | badId
  | badLabel
  | badValue
  | envelope
  | duplicate
deriving DecidableEq, Repr

/-! ### Checks -/

/-- `u8::is_ascii_alphanumeric`. -/
def isAsciiAlphanumeric (b : UInt8) : Bool :=
  0x30 ≤ b && b ≤ 0x39 || 0x41 ≤ b && b ≤ 0x5a || 0x61 ≤ b && b ≤ 0x7a

/-- A byte of an id: alphanumeric, `.`, `_` or `-`. -/
def isIdByte (b : UInt8) : Bool := isAsciiAlphanumeric b || b == 0x2e || b == 0x5f || b == 0x2d

/-- `is_path_safe`. -/
def isPathSafe (raw : String) : Bool :=
  !((utf8 raw).isEmpty || 64 < (utf8 raw).length || raw == "." || raw == "..") &&
    (utf8 raw).all isIdByte

/-- The condition of `check_label`. -/
def labelFits (label : String) : Bool :=
  !((utf8 label).isEmpty || 128 < (utf8 label).length || label.toList.contains '\x00' ||
    label.toList.contains '/')

/-- The condition of `check_value`. -/
def valueFits (value : Bytes) : Bool := !(value.isEmpty || MAX_VALUE_LEN < value.length)

/-- `SecretId`. -/
@[ext]
structure SecretId where
  raw : String
  safe : isPathSafe raw = true
deriving DecidableEq

/-- A label that was checked. -/
abbrev Label := { s : String // labelFits s = true }

/-- A value that was checked. -/
abbrev SecretValue := { b : Bytes // valueFits b = true }

/-- `SecretId::new`. -/
def SecretId.new (raw : String) : Except SecretError SecretId :=
  if h : isPathSafe raw = true then .ok { raw, safe := h } else .error .badId

/-- `check_label`. -/
def checkLabel (label : String) : Except SecretError Label :=
  if h : labelFits label = true then .ok ⟨label, h⟩ else .error .badLabel

/-- `check_value`. -/
def checkValue (value : Bytes) : Except SecretError SecretValue :=
  if h : valueFits value = true then .ok ⟨value, h⟩ else .error .badValue

/-! ### Ids -/

/-- The digits of `hex_id`. -/
def HEX : List Char := "0123456789abcdef".toList

/-- `hex_id`, character by character. -/
def hexChars (bytes : Bytes) : List Char :=
  bytes.flatMap fun (b : UInt8) =>
    [HEX.getD (b >>> 4 : UInt8).toNat '0', HEX.getD (b &&& 0xf : UInt8).toNat '0']

/-- `hex_id`. -/
def hexId (bytes : Bytes) : String := String.ofList (hexChars bytes)

/-- The 16 bytes of which an id is made. -/
abbrev IdBytes := { b : Bytes // b.length = 16 }

lemma hexDigit_ascii : ∀ c ∈ HEX, c.utf8Size = 1 ∧ isIdByte c.val.toUInt8 = true := by decide

lemma hexChars_mem {bytes : Bytes} {c : Char} (h : c ∈ hexChars bytes) : c ∈ HEX := by
  have hdigit : ∀ n : ℕ, HEX.getD n '0' ∈ HEX := by
    intro n
    by_cases hn : n < HEX.length
    · rw [List.getD_eq_getElem _ _ hn]
      exact List.getElem_mem hn
    · rw [List.getD_eq_default _ _ (by omega)]
      decide
  obtain ⟨b, -, hc⟩ := List.mem_flatMap.mp h
  rcases List.mem_pair.mp hc with rfl | rfl
  · exact hdigit _
  · exact hdigit _

lemma isIdByte_lt {b : UInt8} (h : isIdByte b = true) : b < 128 := by
  have hall : ∀ b : Fin 256, isIdByte (UInt8.ofNat b) = true → UInt8.ofNat b < 128 := by
    decide +kernel
  have := hall ⟨b.toNat, b.toNat_lt⟩
  rw [UInt8.ofNat_toNat] at this
  exact this h

lemma SecretId.ascii (id : SecretId) : ∀ c ∈ id.raw.toList, c.val < 128 := by
  have hsafe := id.safe
  rw [isPathSafe, Bool.and_eq_true, List.all_eq_true] at hsafe
  exact ascii_of_utf8 fun b hb => isIdByte_lt (hsafe.2 b hb)

lemma hexId_safe (bytes : IdBytes) : isPathSafe (hexId bytes.val) = true := by
  have hbytes : utf8 (hexId bytes.val) = (hexChars bytes.val).map fun c => c.val.toUInt8 := by
    rw [hexId, utf8_ofList, List.map_eq_flatMap]
    refine List.flatMap_congr fun c hc => ?_
    exact String.utf8EncodeChar_eq_singleton (hexDigit_ascii c (hexChars_mem hc)).1
  have hlen : (utf8 (hexId bytes.val)).length = 32 := by
    rw [hbytes, List.length_map, hexChars, List.length_flatMap]
    simp [bytes.2]
  have hne : ∀ s : String, (utf8 s).length ≠ 32 → hexId bytes.val ≠ s := by
    rintro s hs rfl
    exact hs hlen
  have hall : (utf8 (hexId bytes.val)).all isIdByte = true := by
    rw [hbytes, List.all_map, List.all_eq_true]
    exact fun c hc => (hexDigit_ascii c (hexChars_mem hc)).2
  have hempty : (utf8 (hexId bytes.val)).isEmpty = false := by
    rw [List.isEmpty_eq_false_iff]
    exact fun h => by simp [h] at hlen
  rw [isPathSafe, hall, hlen, hempty, beq_false_of_ne (hne "." (by decide)),
    beq_false_of_ne (hne ".." (by decide))]
  rfl
/-! ### Records -/

/-- Bytes as an array of 32. -/
def toArray32 (bytes : Bytes) : Option Digest32 :=
  if h : bytes.length = 32 then some ⟨bytes, h⟩ else none

/-- `SealedSecret`. -/
structure SealedSecret where
  id : SecretId
  label : Label
  createdAt : UInt64
  salt : Digest32
  value : SecretValue
  unknown : List (Envelope × Envelope)

namespace SealedSecret

/-- `generate`, with the random bytes that are drawn. -/
def generate (idBytes : IdBytes) (salt : Digest32) (label : String) (value : Bytes)
    (createdAt : UInt64) : Except SecretError SealedSecret := do
  let label ← checkLabel label
  let value ← checkValue value
  return { id := { raw := hexId idBytes.val, safe := hexId_safe idBytes }, label, createdAt,
           salt, value, unknown := [] }

variable (host : Host)

/-- The subject of a record. -/
def subject (id : SecretId) : Map host :=
  (((Map.new : Map host).insert (.text "type") (.text SECRET_TYPE)).insert
    (.text "format-version") (.unsigned FORMAT_VERSION.toUInt64)).insert
    (.text "id") (.text id.raw)

/-- `to_envelope`; a new assertion is never refused. -/
def toEnvelope (secret : SealedSecret) : Envelope :=
  let envelope := Envelope.leaf (subject host secret.id).toCBOR
  let envelope := envelope.addAssertion host (.ofText "label") (.ofText secret.label.val)
  let envelope := envelope.addAssertion host (.ofText "created")
    (.leaf (.tagged TAG_EPOCH_TIME (.unsigned secret.createdAt)))
  let envelope := envelope.addAssertion host (.ofText "salt") (.leaf (.byteString secret.salt.val))
  let envelope := envelope.addAssertion host (.ofText "value")
    (.leaf (.byteString secret.value.val))
  secret.unknown.foldl (fun e u => e.addAssertionEnvelope host (.ofPair u)) envelope

/-- The number under the tag in a leaf, whatever the tag: `created_at`. -/
def taggedNumber (e : Envelope) : Option UInt64 := do
  let cbor ← e.tryLeaf
  let (_, value) ← cbor.tryIntoTaggedValue
  value.toU64

/-- `created_at`. -/
def readCreatedAt (envelope : Envelope) : Except SecretError UInt64 := do
  let obj ← (envelope.objectForPredicate host "created").mapError fun _ => .envelope
  okOr .envelope (taggedNumber obj)

/-- The entries of the map in the subject. -/
def subjectMap (envelope : Envelope) : Except SecretError (List (CBOR × CBOR)) :=
  match envelope.subject.tryLeaf with
  | some (.map entries) => .ok entries
  | _ => .error .envelope

/-- `from_envelope`. -/
def fromEnvelope (envelope : Envelope) : Except SecretError SealedSecret := do
  let subject ← subjectMap envelope
  let ty ← okOr .envelope (getAs host subject "type" CBOR.toText)
  ensure (ty = SECRET_TYPE) .envelope
  let version ← okOr .envelope (getAs host subject "format-version" CBOR.toU32)
  ensure (version = FORMAT_VERSION) .envelope
  let idText ← okOr .envelope (getAs host subject "id" CBOR.toText)
  let id ← SecretId.new idText
  let label ←
    (envelope.extractObjectForPredicate host CBOR.toText "label").mapError fun _ => .envelope
  let label ← checkLabel label
  let createdAt ← readCreatedAt host envelope
  let saltBs ←
    (envelope.extractObjectForPredicate host CBOR.toByteString "salt").mapError fun _ => .envelope
  let salt ← okOr .envelope (toArray32 saltBs)
  let valueBs ←
    (envelope.extractObjectForPredicate host CBOR.toByteString "value").mapError fun _ => .envelope
  let value ← checkValue valueBs
  return { id, label, createdAt, salt, value,
           unknown := envelope.unknownAssertions host KNOWN }

end SealedSecret

/-! ### The public commitment -/

/-- `COMMIT_DOMAIN`. -/
def COMMIT_DOMAIN : Bytes := utf8 "identikey-secret-v1\n"

/-- What `commitment` hashes. -/
def commitmentMaterial (salt : Digest32) (value : Bytes) : Bytes :=
  COMMIT_DOMAIN ++ salt.val ++ value

/-- `commitment`. -/
def commitment (blake3 : Bytes → Digest32) (salt : Digest32) (value : Bytes) : Digest32 :=
  blake3 (commitmentMaterial salt value)

end Identikey.Secret
