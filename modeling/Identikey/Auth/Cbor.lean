/-
The canonical CBOR codec (`cbor.rs`).

The subset of the protocol: unsigned integers, byte strings, text strings,
definite-length arrays and text-keyed maps.  The encoder puts map entries in
increasing order of their encoded keys; the decoder enforces that order, the
smallest form of every head and, at the top level, that the input is used up.

The decoder works on a `Cursor` into the input.  `read_value` calls itself on
the items of arrays and maps; the model recurses on a fuel that
`Cursor.readValue_eq` (in `Identikey.Auth.CborExact`) shows never to run out.
-/
import Identikey.Lib.KeyedList
import Identikey.Lib.BigEndian
import Identikey.Lib.Reader
import Identikey.Auth.Error

namespace Identikey.Auth

open Lib

/-- A CBOR value in the supported subset; map entries in any order. -/
inductive Value where
  | uint (n : UInt64)
  | bytes (b : Bytes)
  | text (s : String)
  | array (items : List Value)
  | map (entries : List (String × Value))
deriving Repr, Inhabited

/-! ### Text -/

/-- `str::as_bytes`. -/
def utf8 (s : String) : Bytes := s.toByteArray.data.toList

/-- `std::str::from_utf8`. -/
def fromUtf8 (b : Bytes) : Option String := String.fromUTF8? b.toByteArray

/-! ### Encoding -/

/-- A head: major type in the high three bits and the argument in smallest form. -/
def encodeHead (major : UInt8) (n : UInt64) : Bytes :=
  let mt := major <<< 5
  if n < 24 then [mt ||| n.toUInt8]
  else if n ≤ 0xff then [mt ||| 24, n.toUInt8]
  else if n ≤ 0xffff then (mt ||| 25) :: beBytes 2 n.toUInt16.toNat
  else if n ≤ 0xffffffff then (mt ||| 26) :: beBytes 4 n.toUInt32.toNat
  else (mt ||| 27) :: beBytes 8 n.toNat

/-- The encoded form of a map key, by which the entries are ordered. -/
def encodeKey (k : String) : Bytes :=
  encodeHead 3 (UInt64.ofNat (utf8 k).length) ++ utf8 k

mutual

/-- `Value::encode`; a map's entries are sorted by their encoded keys. -/
def Value.encode : Value → Bytes
  | .uint n => encodeHead 0 n
  | .bytes b => encodeHead 2 (UInt64.ofNat b.length) ++ b
  | .text s => encodeHead 3 (UInt64.ofNat (utf8 s).length) ++ utf8 s
  | .array items => encodeHead 4 (UInt64.ofNat items.length) ++ encodeItems items
  | .map entries =>
    encodeHead 5 (UInt64.ofNat entries.length) ++
      (sortOn (fun e => e.1) (encodeEntries entries)).flatMap fun e => e.1 ++ e.2

/-- The items of an array, one after the other. -/
def encodeItems : List Value → Bytes
  | [] => []
  | v :: vs => v.encode ++ encodeItems vs

/-- The entries of a map, each with its encoded key. -/
def encodeEntries : List (String × Value) → List (Bytes × Bytes)
  | [] => []
  | (k, v) :: es => (encodeKey k, v.encode) :: encodeEntries es

end

/-- `Value::to_bytes`. -/
def Value.toBytes (v : Value) : Bytes := v.encode

/-! ### Decoding -/

/-- A position in the input `data`: a `usize` that is not past the end. -/
structure Cursor (data : Bytes) where
  pos : ℕ
  pos_le : pos ≤ data.length
  pos_lt : pos < 2 ^ 64

namespace Cursor

/-- The cursor before the first byte. -/
def start (data : Bytes) : Cursor data :=
  { pos := 0, pos_le := Nat.zero_le _, pos_lt := by decide }

variable {data : Bytes}

/-- What is still to be read. -/
def rest (c : Cursor data) : Bytes := data.drop c.pos

/-- A reader of the input under the cursor. -/
abbrev Read (data : Bytes) := Reader AuthError (Cursor data)

/-- `Cursor::take`: the next `n` bytes; positions are 64-bit. -/
def take (n : ℕ) : Read data Bytes := fun c =>
  let stop := c.pos + n
  if hover : 2 ^ 64 ≤ stop then .error (.cbor "length overflow")
  else if hend : data.length < stop then .error (.cbor "unexpected end of input")
  else .ok (c.rest.take n, { pos := stop, pos_le := by omega, pos_lt := by omega })

/-- A big-endian argument of `width` bytes, rejected when a shorter form holds it. -/
def readWide (width : ℕ) (lower : UInt64) (nonMinimal : String) : Read data UInt64 := do
  let b := UInt64.ofNat (ofBeBytes (← take width))
  if b ≤ lower then throw (.cbor nonMinimal) else pure b

/-- The argument of a head from the low five bits of its first byte, in smallest form. -/
def readArg (info : UInt8) : Read data UInt64 :=
  if info ≤ 23 then pure info.toUInt64
  else if info = 24 then do
    let b := ((← take 1).getD 0 0).toUInt64
    if b < 24 then throw (.cbor "non-minimal integer (1-byte)") else pure b
  else if info = 25 then readWide 2 0xff "non-minimal integer (2-byte)"
  else if info = 26 then readWide 4 0xffff "non-minimal integer (4-byte)"
  else if info = 27 then readWide 8 0xffffffff "non-minimal integer (8-byte)"
  else throw (.cbor "indefinite-length or reserved encoding")

/-- `Cursor::read_head`: major type and argument. -/
def readHead : Read data (UInt8 × UInt64) := do
  let first := (← take 1).getD 0 0
  let arg ← readArg (first &&& 0x1f)
  return (first >>> 5, arg)

/-- The text string of `n` bytes at the cursor. -/
def readText (n : ℕ) (invalid : String) : Read data String := do
  let b ← take n
  match fromUtf8 b with
  | none => throw (.cbor invalid)
  | some s => return s

/-- A map key after the key `prev`: a text string whose encoding is above that of `prev`. -/
def readKey (prev : Option Bytes) : Read data String := do
  let (km, ka) ← readHead
  if km ≠ 3 then throw (.cbor "map key must be a text string")
  else do
    let key ← readText ka.toNat "invalid utf-8 in map key"
    if ∃ p ∈ prev, encodeKey key ≤ p then
      throw (.cbor "map keys not in canonical order or duplicated")
    else return key

/-- The loop over the entries of a map, `prev` being the encoded key before them. -/
def readEntries (value : Read data Value) : Option Bytes → ℕ → Read data (List (String × Value))
  | _, 0 => return []
  | prev, n + 1 => do
    let key ← readKey prev
    let v ← value
    let es ← readEntries value (some (encodeKey key)) n
    return (key, v) :: es

/-- The body of `read_value`, `value` standing for the calls it makes to itself. -/
def readValueBody (value : Read data Value) : Read data Value := do
  let (major, arg) ← readHead
  if major = 0 then return .uint arg
  else if major = 2 then return .bytes (← take arg.toNat)
  else if major = 3 then return .text (← readText arg.toNat "invalid utf-8 in text string")
  else if major = 4 then return .array (← value.times arg.toNat)
  else if major = 5 then return .map (← readEntries value none arg.toNat)
  else throw (.cbor "unsupported major type")

/-- `read_value` with at most `fuel` calls nested in it. -/
def readValueFuel : ℕ → Read data Value
  | 0 => readValueBody (throw (.cbor "unexpected end of input"))
  | fuel + 1 => readValueBody (readValueFuel fuel)

/-- `Cursor::read_value`: every call reads at least one byte before it calls itself, so the
number of bytes left bounds the depth of the calls. -/
def readValue : Read data Value := fun c => readValueFuel (data.length - c.pos) c

end Cursor

/-- `Value::from_bytes`: one value and nothing after it. -/
def Value.fromBytes (data : Bytes) : Except AuthError Value := do
  let (v, cur) ← Cursor.readValue (Cursor.start data)
  if cur.pos ≠ data.length then throw (.cbor "trailing bytes after top-level value") else pure v

/-! ### Typed access -/

namespace Value

def asUint : Value → Except AuthError UInt64
  | .uint n => .ok n
  | _ => .error (.cbor "expected uint")

def asBytes : Value → Except AuthError Bytes
  | .bytes b => .ok b
  | _ => .error (.cbor "expected byte string")

def asText : Value → Except AuthError String
  | .text s => .ok s
  | _ => .error (.cbor "expected text string")

/-- The field names `MissingField` can carry. -/
def leak (key : String) : String :=
  if key ∈ ["v", "aud", "nonce", "iat", "exp", "chal", "pub", "sig", "pqpub", "pqsig", "alg",
    "key"] then key else "field"

/-- `Value::get`: the value of a key of a map. -/
def get (v : Value) (key : String) : Except AuthError Value :=
  match v with
  | .map entries =>
    match lookup key entries with
    | some x => .ok x
    | none => .error (.missingField (leak key))
  | _ => .error (.cbor "expected map")

/-- `Value::get_opt`. -/
def getOpt (v : Value) (key : String) : Except AuthError (Option Value) :=
  match v with
  | .map entries => .ok (lookup key entries)
  | _ => .error (.cbor "expected map")

end Value

end Identikey.Auth
