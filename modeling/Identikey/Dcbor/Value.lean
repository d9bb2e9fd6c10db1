/-
CBOR values of the vendored `dcbor` crate and their encoding (`cbor.rs`, `map.rs`,
`varint.rs`, `simple.rs`).

A value in memory is not yet what its bytes say: a text string is put in Unicode
normalisation form C only when it is written.  So two different values can have
one encoding, and a value and what is read back from its bytes may differ.

A `Map` keeps its entries in increasing order of their encoded keys; the type
carries that order, and `insert` keeps it.
-/
import Identikey.Lib.KeyedInsert
import Identikey.Auth.Cbor

namespace Identikey.Dcbor

open Lib Auth

/-- What is said of the members of a list is decided member by member, in finite types as well. -/
scoped instance (priority := high) decidableMembers {α : Type} (p : α → Prop) [DecidablePred p]
    (l : List α) : Decidable (∀ x ∈ l, p x) := List.decidableBAll p l

/-- The three widths of a floating-point number. -/
inductive FloatWidth where
  | f16
  | f32
  | f64
deriving DecidableEq, Repr, Inhabited

/-- `Simple`; a floating-point number stands as the bits that `f64_cbor_data` writes for it. -/
inductive Simple where
  | false
  | true
  | null
  | float (width : FloatWidth) (bits : UInt64)
deriving DecidableEq, Repr, Inhabited

/-- `CBORCase`; the entries of a map as `Map` keeps them. -/
inductive CBOR where
  | unsigned (n : UInt64)
  | negative (n : UInt64)
  | byteString (b : Bytes)
  | text (s : String)
  | array (items : List CBOR)
  | map (entries : List (CBOR × CBOR))
  | tagged (tag : UInt64) (item : CBOR)
  | simple (s : Simple)
deriving Repr, Inhabited

/-- `Error`, as far as the decoder reports it. -/
inductive Error where
  | underrun
  | unsupportedHeaderValue (v : UInt8)
  | nonCanonicalNumeric
  | invalidSimpleValue
  | invalidUtf8
  | nonCanonicalString
  | unusedData (n : ℕ)
  | misorderedMapKey
  | duplicateMapKey
deriving DecidableEq, Repr

/-- What the crate takes from outside: Unicode normalisation form C, which is idempotent,
leaves ASCII text alone and keeps at least one character of a text that has one; and the
arithmetic with which the decoder checks a floating-point number and may reduce it. -/
structure Host where
  nfc : String → String
  nfc_nfc : ∀ s, nfc (nfc s) = nfc s
  nfc_ascii : ∀ s, (∀ c ∈ s.toList, c.val < 128) → nfc s = s
  nfc_ne_empty : ∀ s, s ≠ "" → nfc s ≠ ""
  readFloat : FloatWidth → UInt64 → Except Error CBOR

/-- A host for texts that are in normalisation form C already, as all ASCII text is, and for
values without floating-point numbers. -/
def Host.plain : Host :=
  { nfc := id, nfc_nfc := fun _ => rfl, nfc_ascii := fun _ _ => rfl, nfc_ne_empty := fun _ h => h,
    readFloat := fun _ _ => .error .nonCanonicalNumeric }

/-- A host that composes one letter with its accent. -/
def Host.composing : Host :=
  { Host.plain with
    nfc := fun s => if s = "e\u0301" then "\u00e9" else s
    nfc_nfc := fun s => by
      by_cases h : s = "e\u0301"
      · rw [if_pos h, if_neg (by decide)]
      · rw [if_neg h, if_neg h]
    nfc_ascii := fun s hs => by
      rw [if_neg]
      rintro rfl
      exact absurd (hs '\u0301' (by decide)) (by decide)
    nfc_ne_empty := fun s hs => by
      by_cases h : s = "e\u0301"
      · rw [if_pos h]
        decide
      · rwa [if_neg h] }

/-! ### Encoding -/

/-- `MajorType`. -/
inductive MajorType where
  | unsigned
  | negative
  | byteString
  | text
  | array
  | map
  | tagged
  | simple
deriving DecidableEq, Repr

/-- `type_bits`, before the shift. -/
def MajorType.code : MajorType → UInt8
  | .unsigned => 0
  | .negative => 1
  | .byteString => 2
  | .text => 3
  | .array => 4
  | .map => 5
  | .tagged => 6
  | .simple => 7

/-- `encode_varint`: the smallest width that holds the number, as in the head of the other
codec. -/
def encodeVarint (n : UInt64) (majorType : MajorType) : Bytes := encodeHead majorType.code n

/-- `encode_varint` of a length, a 64-bit `usize`. -/
def encodeLen (n : ℕ) (majorType : MajorType) : Bytes := encodeVarint (UInt64.ofNat n) majorType

/-- `Simple::cbor_data`; a number in the width it has. -/
def Simple.cborData : Simple → Bytes
  | .false => encodeVarint 20 .simple
  | .true => encodeVarint 21 .simple
  | .null => encodeVarint 22 .simple
  | .float .f16 bits => 0xf9 :: beBytes 2 bits.toNat
  | .float .f32 bits => 0xfa :: beBytes 4 bits.toNat
  | .float .f64 bits => 0xfb :: beBytes 8 bits.toNat

variable (host : Host)

mutual

/-- `CBOR::to_cbor_data`. -/
def CBOR.toCborData : CBOR → Bytes
  | .unsigned n => encodeVarint n .unsigned
  | .negative n => encodeVarint n .negative
  | .byteString b => encodeLen b.length .byteString ++ b
  | .text s => encodeLen (utf8 (host.nfc s)).length .text ++ utf8 (host.nfc s)
  | .array items => encodeLen items.length .array ++ itemsData items
  | .map entries => encodeLen entries.length .map ++ entriesData entries
  | .tagged tag item => encodeVarint tag .tagged ++ item.toCborData
  | .simple s => s.cborData

/-- The items of an array, one after the other. -/
def itemsData : List CBOR → Bytes
  | [] => []
  | v :: vs => v.toCborData ++ itemsData vs

/-- The entries of a map, key and value, one after the other. -/
def entriesData : List (CBOR × CBOR) → Bytes
  | [] => []
  | (k, v) :: es => k.toCborData ++ v.toCborData ++ entriesData es

end

/-! ### Maps -/

/-- The encoded key of an entry, `MapKey`. -/
def mapKey (e : CBOR × CBOR) : Bytes := e.1.toCborData host

/-- `Map`: entries in strictly increasing order of their encoded keys. -/
structure Map where
  entries : List (CBOR × CBOR)
  ordered : Keyed (mapKey host) entries

variable {host}

namespace Map

/-- `Map::new`. -/
def new : Map host := { entries := [], ordered := List.Pairwise.nil }

/-- `Map::insert`. -/
def insert (m : Map host) (key value : CBOR) : Map host :=
  { entries := insertKeyed (mapKey host) (key, value) m.entries,
    ordered := m.ordered.insertKeyed (key, value) }

/-- `Map::len`. -/
def len (m : Map host) : ℕ := m.entries.length

/-- `CBOR::from` of a map. -/
def toCBOR (m : Map host) : CBOR := .map m.entries

end Map

variable (host)

/-- The value under a key in the entries of a map: `Map::get` before the conversion. -/
def getEntry (entries : List (CBOR × CBOR)) (key : CBOR) : Option CBOR :=
  (entries.find? fun e => mapKey host e == key.toCborData host).map Prod.snd

/-! ### Conversions -/

/-- `TryFrom<CBOR> for String`, and `try_into_text`. -/
def CBOR.toText : CBOR → Option String
  | .text s => some s
  | _ => none

/-- `TryFrom<CBOR> for ByteString`. -/
def CBOR.toByteString : CBOR → Option Bytes
  | .byteString b => some b
  | _ => none

/-- `TryFrom<CBOR>` of an unsigned type with the largest value `max`.  A negative number
`-1 - n` is not refused: the cast to the type leaves it modulo `max + 1`. -/
def CBOR.toUnsigned (max : ℕ) : CBOR → Option ℕ
  | .unsigned n => if n.toNat ≤ max then some n.toNat else none
  | .negative n => if n.toNat ≤ max then some (max - n.toNat) else none
  | _ => none

/-- `TryFrom<CBOR> for u32`. -/
def CBOR.toU32 (v : CBOR) : Option UInt32 := (v.toUnsigned (2 ^ 32 - 1)).map UInt32.ofNat

/-- `TryFrom<CBOR> for u64`. -/
def CBOR.toU64 (v : CBOR) : Option UInt64 := (v.toUnsigned (2 ^ 64 - 1)).map UInt64.ofNat

/-- `try_into_tagged_value`. -/
def CBOR.tryIntoTaggedValue : CBOR → Option (UInt64 × CBOR)
  | .tagged tag item => some (tag, item)
  | _ => none

/-- `Map::get`. -/
def getAs {α : Type} (entries : List (CBOR × CBOR)) (key : String) (convert : CBOR → Option α) :
    Option α :=
  (getEntry host entries (.text key)).bind convert

end Identikey.Dcbor
