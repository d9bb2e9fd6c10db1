/-
The decoder of the vendored `dcbor` crate (`decode.rs`).

The decoder works on what is left of the input.  It calls itself on items, keys,
values and tagged content; the model recurses on a fuel that `decodeInternal_eq`
shows never to run out.  `decodeCbor_toCborData` says that every value in canonical
form is read back from its bytes.
-/
import Identikey.Lib.Reader
import Identikey.Dcbor.Exact

namespace Identikey.Dcbor

open Lib Auth Lib.Reader

/-- A reader of the rest of the input. -/
abbrev Parser (α : Type) := Reader Error Bytes α

/-- `parse_bytes`: the next `n` bytes. -/
def parseBytes (n : ℕ) : Parser Bytes := fun data =>
  if data.length < n then .error .underrun else .ok (data.take n, data.drop n)

/-- The major type in the high bits of a header. -/
def MajorType.ofCode (code : UInt8) : MajorType :=
  if code = 0 then .unsigned
  else if code = 1 then .negative
  else if code = 2 then .byteString
  else if code = 3 then .text
  else if code = 4 then .array
  else if code = 5 then .map
  else if code = 6 then .tagged
  else .simple

/-- A big-endian argument of `width` bytes; a shorter form must not hold it, unless the header
is that of a floating-point number. -/
def parseWide (width : ℕ) (lower : UInt64) (float header : UInt8) : Parser UInt64 := do
  let val := UInt64.ofNat (ofBeBytes (← parseBytes width))
  if val ≤ lower ∧ header ≠ float then throw .nonCanonicalNumeric else pure val

/-- The argument of a header and the length of both. -/
def parseArg (header : UInt8) : Parser (UInt64 × ℕ) :=
  let value := header &&& 31
  if value ≤ 23 then pure (value.toUInt64, 1)
  else if value = 24 then do
    let val := ((← parseBytes 1).getD 0 0).toUInt64
    if val < 24 then throw .nonCanonicalNumeric else pure (val, 2)
  else if value = 25 then do return (← parseWide 2 0xff 0xf9 header, 3)
  else if value = 26 then do return (← parseWide 4 0xffff 0xfa header, 5)
  else if value = 27 then do return (← parseWide 8 0xffffffff 0xfb header, 9)
  else throw (.unsupportedHeaderValue value)

/-- `parse_header_varint`. -/
def parseHeaderVarint : Parser (MajorType × UInt64 × ℕ) := do
  let header := (← parseBytes 1).getD 0 0
  let (value, varintLen) ← parseArg header
  return (MajorType.ofCode (header >>> 5), value, varintLen)

variable (host : Host)

/-- The text string of `n` bytes, which must be in normalisation form C. -/
def parseText (n : ℕ) : Parser CBOR := do
  match fromUtf8 (← parseBytes n) with
  | none => throw .invalidUtf8
  | some s => if host.nfc s ≠ s then throw .nonCanonicalString else return .text s

/-- A simple value, told apart by the length of its header. -/
def parseSimple (value : UInt64) (varintLen : ℕ) : Except Error CBOR :=
  if varintLen = 3 then host.readFloat .f16 value
  else if varintLen = 5 then host.readFloat .f32 value
  else if varintLen = 9 then host.readFloat .f64 value
  else if value = 20 then .ok (.simple .false)
  else if value = 21 then .ok (.simple .true)
  else if value = 22 then .ok (.simple .null)
  else .error .invalidSimpleValue

variable {host}

/-- `Map::insert_next`. -/
def Map.insertNext (m : Map host) (key value : CBOR) : Except Error (Map host) :=
  match m.entries.getLast? with
  | none => .ok (m.insert key value)
  | some last =>
    if ∃ e ∈ m.entries, mapKey host e = key.toCborData host then .error .duplicateMapKey
    else if key.toCborData host ≤ mapKey host last then .error .misorderedMapKey
    else .ok (m.insert key value)

/-- The loop over the entries of a map. -/
def parseEntries (item : Parser CBOR) : ℕ → Map host → Parser (Map host)
  | 0, m => return m
  | n + 1, m => do
    let key ← item
    let value ← item
    let m ← liftM (m.insertNext key value)
    parseEntries item n m

variable (host)

/-- The body of `decode_cbor_internal`, `item` standing for the calls it makes to itself. -/
def decodeBody (item : Parser CBOR) : Parser CBOR := do
  let (majorType, value, varintLen) ← parseHeaderVarint
  match majorType with
  | .unsigned => return .unsigned value
  | .negative => return .negative value
  | .byteString => return .byteString (← parseBytes value.toNat)
  | .text => parseText host value.toNat
  | .array => return .array (← item.times value.toNat)
  | .map => return (← parseEntries item value.toNat (Map.new : Map host)).toCBOR
  | .tagged => return .tagged value (← item)
  | .simple => liftM (parseSimple host value varintLen)

/-- `decode_cbor_internal` with at most `fuel` calls nested in it. -/
def decodeFuel : ℕ → Parser CBOR
  | 0 => decodeBody host (throw .underrun)
  | fuel + 1 => decodeBody host (decodeFuel fuel)

/-- `decode_cbor_internal`: every call reads a byte before it calls itself, so the number of
bytes left bounds the depth of the calls. -/
def decodeInternal : Parser CBOR := fun data => decodeFuel host data.length data

/-- `decode_cbor`, `CBOR::try_from_data`: one value and nothing after it. -/
def decodeCbor (data : Bytes) : Except Error CBOR := do
  let (cbor, remaining) ← decodeInternal host data
  if 0 < remaining.length then throw (.unusedData remaining.length) else pure cbor

end Identikey.Dcbor
