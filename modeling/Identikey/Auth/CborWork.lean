/-
What the decoder does on hostile input (`cbor.rs`).

`read_value` loops as often as a head announces, and heads come from the input.  This is the
decoder of `Identikey.Auth.Cbor` with its work counted, the calls of `read_value` and the
turns of the loops, and with the conversions of slices that would panic on another length.
Every call that reads a head and every turn uses up a byte of the input, so the work is
bounded by the length of the input, whatever is announced.
-/
import Identikey.Lib.Metered
import Identikey.Auth.CborExact

namespace Identikey.Auth

open Lib Lib.Metered

/-- The calls of `read_value` and the turns of its loops. -/
structure Work where
  calls : ℕ
  turns : ℕ
deriving DecidableEq, Repr

namespace Work

instance : Zero Work := ⟨⟨0, 0⟩⟩

instance : Add Work := ⟨fun a b => ⟨a.calls + b.calls, a.turns + b.turns⟩⟩

@[simp] lemma zero_eq : (0 : Work) = ⟨0, 0⟩ := rfl

@[simp] lemma add_eq (a b : Work) : a + b = ⟨a.calls + b.calls, a.turns + b.turns⟩ := rfl

instance : AddZeroClass Work where
  zero_add a := by simp
  add_zero a := by simp

/-- The work of one call. -/
def call : Work := ⟨1, 0⟩

/-- The work of one turn. -/
def turn : Work := ⟨0, 1⟩

def callsHom : Work →+ ℕ where
  toFun := calls
  map_zero' := rfl
  map_add' _ _ := rfl

def turnsHom : Work →+ ℕ where
  toFun := turns
  map_zero' := rfl
  map_add' _ _ := rfl

end Work

namespace Cursor

variable {data : Bytes}

/-- A part of the decoder with its work; it fails or panics. -/
abbrev Counted (data : Bytes) := Metered Fault (Cursor data) Work

/-- A part that makes no calls and does not loop. -/
def plain {α : Type} (p : Read data α) : Counted data α := free Fault.err p

/-- `slice[0]`. -/
def firstByte : Bytes → Counted data UInt8
  | b :: _ => pure b
  | [] => fail .panic

/-- `slice.try_into().unwrap()`, to an array of `n` bytes. -/
def unwrapArray (n : ℕ) (slice : Bytes) : Counted data { b : Bytes // b.length = n } :=
  if h : slice.length = n then pure ⟨slice, h⟩ else fail .panic

/-- `readWide`, with the conversion to an array. -/
def readWideCounted (width : ℕ) (lower : UInt64) (nonMinimal : String) : Counted data UInt64 := do
  let slice ← plain (take width)
  let array ← unwrapArray width slice
  let b := UInt64.ofNat (ofBeBytes array.val)
  if b ≤ lower then fail (.err (.cbor nonMinimal)) else pure b

/-- `readArg`, with what can panic in it. -/
def readArgCounted (info : UInt8) : Counted data UInt64 :=
  if info ≤ 23 then pure info.toUInt64
  else if info = 24 then do
    let slice ← plain (take 1)
    let b ← firstByte slice
    if b.toUInt64 < 24 then fail (.err (.cbor "non-minimal integer (1-byte)"))
    else pure b.toUInt64
  else if info = 25 then readWideCounted 2 0xff "non-minimal integer (2-byte)"
  else if info = 26 then readWideCounted 4 0xffff "non-minimal integer (4-byte)"
  else if info = 27 then readWideCounted 8 0xffffffff "non-minimal integer (8-byte)"
  else fail (.err (.cbor "indefinite-length or reserved encoding"))

/-- `Cursor::read_head`, with what can panic in it. -/
def readHeadCounted : Counted data (UInt8 × UInt64) := do
  let slice ← plain (take 1)
  let first ← firstByte slice
  let arg ← readArgCounted (first &&& 0x1f)
  return (first >>> 5, arg)

/-- `readKey`, with its work. -/
def readKeyCounted (prev : Option Bytes) : Counted data String := do
  let (km, ka) ← readHeadCounted
  if km ≠ 3 then fail (.err (.cbor "map key must be a text string"))
  else do
    let key ← plain (readText ka.toNat "invalid utf-8 in map key")
    if ∃ p ∈ prev, encodeKey key ≤ p then
      fail (.err (.cbor "map keys not in canonical order or duplicated"))
    else return key

/-- `readEntries`, with its work. -/
def readEntriesCounted (value : Counted data Value) :
    Option Bytes → ℕ → Counted data (List (String × Value))
  | _, 0 => return []
  | prev, n + 1 => do
    pay Work.turn
    let key ← readKeyCounted prev
    let v ← value
    let es ← readEntriesCounted value (some (encodeKey key)) n
    return (key, v) :: es

/-- One turn of the loop over the items of an array. -/
def itemCounted (value : Counted data Value) : Counted data Value := do
  pay Work.turn
  value

/-- `readValueBody`, with its work. -/
def readValueBodyCounted (value : Counted data Value) : Counted data Value := do
  pay Work.call
  let (major, arg) ← readHeadCounted
  if major = 0 then return .uint arg
  else if major = 2 then return .bytes (← plain (take arg.toNat))
  else if major = 3 then return .text (← plain (readText arg.toNat "invalid utf-8 in text string"))
  else if major = 4 then return .array (← (itemCounted value).times arg.toNat)
  else if major = 5 then return .map (← readEntriesCounted value none arg.toNat)
  else fail (.err (.cbor "unsupported major type"))

/-- `readValueFuel`, with its work. -/
def readValueFuelCounted : ℕ → Counted data Value
  | 0 => readValueBodyCounted (fail (.err (.cbor "unexpected end of input")))
  | fuel + 1 => readValueBodyCounted (readValueFuelCounted fuel)

/-- `Cursor::read_value`, with its work. -/
def readValueCounted : Counted data Value := fun c =>
  readValueFuelCounted (data.length - c.pos) c

end Cursor

/-- `Value::from_bytes`, with its work. -/
def Value.fromBytesCounted (data : Bytes) : Except Fault Value × Work :=
  let (result, work) := Cursor.readValueCounted (Cursor.start data)
  (result.bind fun (v, cur) =>
    if cur.pos ≠ data.length then .error (.err (.cbor "trailing bytes after top-level value"))
    else .ok v, work)

namespace Cursor

variable {data : Bytes}

/-! ### Counting changes nothing -/

lemma firstByte_of_take {n : ℕ} {c c' : Cursor data} {slice : Bytes}
    (h : take (n + 1) c = .ok (slice, c')) :
    (firstByte slice : Counted data UInt8) = pure (slice.getD 0 0) := by
  obtain ⟨hlen, -⟩ := take_eq_ok h
  cases slice with
  | nil => cases hlen
  | cons b slice => rfl

lemma unwrapArray_of_take {n : ℕ} {c c' : Cursor data} {slice : Bytes}
    (h : take n c = .ok (slice, c')) :
    (unwrapArray n slice : Counted data _) = pure ⟨slice, (take_eq_ok h).1⟩ :=
  dif_pos _

lemma readWideCounted_implements (width : ℕ) (lower : UInt64) (nonMinimal : String) :
    Implements Fault.err (@readWideCounted data width lower nonMinimal)
      (readWide width lower nonMinimal) := by
  refine fun c => (implements_free _ c).bind fun slice c' h => ?_
  rw [unwrapArray_of_take h]
  refine ImplementsAt.pure_bind ?_
  simp only
  split_ifs
  · exact implements_fail _ c'
  · exact implements_pure _ c'

lemma readArgCounted_implements (info : UInt8) :
    Implements Fault.err (@readArgCounted data info) (readArg info) := by
  unfold readArgCounted readArg
  split_ifs
  · exact implements_pure _
  · refine fun c => (implements_free _ c).bind fun slice c' h => ?_
    rw [firstByte_of_take h]
    refine ImplementsAt.pure_bind ?_
    simp only
    split_ifs
    · exact implements_fail _ c'
    · exact implements_pure _ c'
  · exact readWideCounted_implements _ _ _
  · exact readWideCounted_implements _ _ _
  · exact readWideCounted_implements _ _ _
  · exact implements_fail _

/-- **No conversion of a slice panics.** -/
lemma readHeadCounted_implements : Implements Fault.err (@readHeadCounted data) readHead := by
  refine fun c => (implements_free _ c).bind fun slice c' h => ?_
  rw [firstByte_of_take h]
  refine ImplementsAt.pure_bind ?_
  exact (readArgCounted_implements _).bind (fun arg => implements_pure _) c'

lemma readKeyCounted_implements (prev : Option Bytes) :
    Implements Fault.err (@readKeyCounted data prev) (readKey prev) := by
  refine readHeadCounted_implements.bind fun head => ?_
  obtain ⟨km, ka⟩ := head
  simp only
  split_ifs
  · exact implements_fail _
  · refine (implements_free _).bind fun key => ?_
    split_ifs
    · exact implements_fail _
    · exact implements_pure _

lemma readEntriesCounted_implements {value : Counted data Value} {value' : Read data Value}
    (hvalue : Implements Fault.err value value') (n : ℕ) (prev : Option Bytes) :
    Implements Fault.err (readEntriesCounted value prev n) (readEntries value' prev n) := by
  induction n generalizing prev with
  | zero => exact implements_pure []
  | succ n ih =>
    refine Implements.pay_bind _ ((readKeyCounted_implements prev).bind fun key => ?_)
    exact hvalue.bind fun v => (ih _).bind fun es => implements_pure _

lemma readValueBodyCounted_implements {value : Counted data Value} {value' : Read data Value}
    (hvalue : Implements Fault.err value value') :
    Implements Fault.err (readValueBodyCounted value) (readValueBody value') := by
  refine Implements.pay_bind _ (readHeadCounted_implements.bind fun head => ?_)
  obtain ⟨major, arg⟩ := head
  simp only
  split_ifs
  · exact implements_pure _
  · exact (implements_free _).bind fun b => implements_pure _
  · exact (implements_free _).bind fun s => implements_pure _
  · have hitem : Implements Fault.err (itemCounted value) value' := hvalue.pay_bind _
    exact (hitem.times _).bind fun items => implements_pure _
  · exact (readEntriesCounted_implements hvalue _ _).bind fun es => implements_pure _
  · exact implements_fail _

lemma readValueFuelCounted_implements (fuel : ℕ) :
    Implements Fault.err (@readValueFuelCounted data fuel) (readValueFuel fuel) := by
  induction fuel with
  | zero => exact readValueBodyCounted_implements (implements_fail _)
  | succ fuel ih => exact readValueBodyCounted_implements ih

lemma readValueCounted_implements : Implements Fault.err (@readValueCounted data) readValue :=
  fun c => readValueFuelCounted_implements _ c

/-! ### What the decoder spends -/

/-- The bytes that are left. -/
def left (c : Cursor data) : ℕ := data.length - c.pos

lemma take_consumes (n : ℕ) : Consumes left n (@take data n) := by
  intro c b c' h
  obtain ⟨hlen, hrest⟩ := take_eq_ok h
  have hpos := pos_of_rest hrest
  have hle := c'.pos_le
  unfold left
  omega

lemma readText_consumes (n : ℕ) (invalid : String) :
    Consumes left 0 (@readText data n invalid) := by
  refine ((take_consumes n).bind (k := 0) fun b => ?_).mono (Nat.zero_le _)
  cases fromUtf8 b with
  | none => exact consumes_throw _ 0
  | some s => exact consumes_pure s

variable {cost : Work →+ ℕ}

lemma firstByte_spends (slice : Bytes) :
    Spends cost left 0 0 (firstByte slice : Counted data UInt8) := by
  cases slice with
  | nil => exact spends_fail _ 0
  | cons b slice => exact spends_pure b 0

lemma unwrapArray_spends (n : ℕ) (slice : Bytes) :
    Spends cost left 0 0 (unwrapArray n slice : Counted data _) := by
  unfold unwrapArray
  split_ifs
  · exact spends_pure _ 0
  · exact spends_fail _ 0

lemma plain_spends {α : Type} {p : Read data α} {n : ℕ} (hp : Consumes left n p) :
    Spends cost left n 0 (plain p) := spends_free hp

lemma readWideCounted_spends (width : ℕ) (lower : UInt64) (nonMinimal : String) :
    Spends cost left 0 0 (@readWideCounted data width lower nonMinimal) := by
  refine (plain_spends (take_consumes width)).mono (by omega) le_rfl |>.bind_zero le_rfl fun b => ?_
  refine (unwrapArray_spends width b).bind_zero le_rfl fun array => ?_
  simp only
  split_ifs
  · exact spends_fail _ 0
  · exact spends_pure _ 0

lemma readArgCounted_spends (info : UInt8) :
    Spends cost left 0 0 (@readArgCounted data info) := by
  unfold readArgCounted
  split_ifs
  · exact spends_pure _ 0
  · refine (plain_spends (take_consumes 1)).mono (by omega) le_rfl |>.bind_zero le_rfl fun b => ?_
    refine (firstByte_spends b).bind_zero le_rfl fun b => ?_
    split_ifs
    · exact spends_fail _ 0
    · exact spends_pure _ 0
  · exact readWideCounted_spends _ _ _
  · exact readWideCounted_spends _ _ _
  · exact readWideCounted_spends _ _ _
  · exact spends_fail _ 0

/-- **A head is at least one byte.** -/
lemma readHeadCounted_spends : Spends cost left 1 0 (@readHeadCounted data) := by
  refine (plain_spends (take_consumes 1)).bind_zero (by omega) fun b => ?_
  refine (firstByte_spends b).bind_zero le_rfl fun first => ?_
  exact (readArgCounted_spends _).bind_zero le_rfl fun arg => spends_pure _ 0

lemma readKeyCounted_spends (prev : Option Bytes) :
    Spends cost left 0 0 (@readKeyCounted data prev) := by
  refine readHeadCounted_spends.mono (by omega) le_rfl |>.bind_zero le_rfl fun head => ?_
  obtain ⟨km, ka⟩ := head
  simp only
  split_ifs
  · exact spends_fail _ 0
  · refine (plain_spends (readText_consumes _ _)).bind_zero le_rfl fun key => ?_
    split_ifs
    · exact spends_fail _ 0
    · exact spends_pure _ 0

/-- What a value spends: of a cost that counts a call and a turn together as one, a value keeps
the share of the turn, and a failure may cost the share of the call more. -/
abbrev ValueSpends {α : Type} (cost : Work →+ ℕ) (value : Counted data α) : Prop :=
  Spends cost left (cost Work.turn) (cost Work.call) value

/-- A turn spends what its value has kept. -/
lemma itemCounted_spends {value : Counted data Value} (hcost : cost Work.call + cost Work.turn = 1)
    (hvalue : ValueSpends cost value) : Spends cost left 0 1 (itemCounted value) :=
  ((spends_pay _ 0).bind fun _ => hvalue).mono (by omega) (by omega)

lemma readEntriesCounted_spends {value : Counted data Value}
    (hcost : cost Work.call + cost Work.turn = 1) (hvalue : ValueSpends cost value) (n : ℕ)
    (prev : Option Bytes) : Spends cost left 0 1 (readEntriesCounted value prev n) := by
  induction n generalizing prev with
  | zero => exact spends_pure [] 1
  | succ n ih =>
    have hentries : ∀ (key : String) (v : Value), Spends cost left 0 1
        (do let es ← readEntriesCounted value (some (encodeKey key)) n
            return (key, v) :: es) := fun key v =>
      (ih (some (encodeKey key))).bind_zero (by omega) fun es => spends_pure _ 0
    have hrest : ∀ key, ValueSpends cost
        (do let v ← value
            let es ← readEntriesCounted value (some (encodeKey key)) n
            return (key, v) :: es) := fun key =>
      (hvalue.bind (hentries key)).mono (by omega) (by omega)
    exact ((spends_pay _ 0).bind fun _ =>
      (readKeyCounted_spends prev).bind hrest).mono (by omega) (by omega)

/-- **The head of a value pays for its call, or for the turn that it is read in.** -/
lemma readValueBodyCounted_spends {value : Counted data Value}
    (hcost : cost Work.call + cost Work.turn = 1) (hvalue : ValueSpends cost value) :
    ValueSpends cost (readValueBodyCounted value) := by
  -- behind the head a failure may cost one more, as the head has saved one
  have hrest : ∀ head : UInt8 × UInt64, Spends cost left 0 1
      (let (major, arg) := head
       if major = 0 then return .uint arg
       else if major = 2 then return .bytes (← plain (take arg.toNat))
       else if major = 3 then
         return .text (← plain (readText arg.toNat "invalid utf-8 in text string"))
       else if major = 4 then return .array (← (itemCounted value).times arg.toNat)
       else if major = 5 then return .map (← readEntriesCounted value none arg.toNat)
       else fail (.err (.cbor "unsupported major type")) : Counted data Value) := by
    rintro ⟨major, arg⟩
    simp only
    split_ifs
    · exact spends_pure _ 1
    · refine (plain_spends (take_consumes _)).mono (by omega) zero_le_one |>.bind_zero (by omega) ?_
      exact fun b => spends_pure _ 0
    · refine (plain_spends (readText_consumes _ _)).mono le_rfl zero_le_one |>.bind_zero
        (by omega) ?_
      exact fun s => spends_pure _ 0
    · refine ((itemCounted_spends hcost hvalue).times _).bind_zero (by omega) ?_
      exact fun items => spends_pure _ 0
    · refine (readEntriesCounted_spends hcost hvalue _ _).bind_zero (by omega) ?_
      exact fun es => spends_pure _ 0
    · exact (spends_fail _ 0).mono le_rfl zero_le_one
  exact ((spends_pay _ 0).bind fun _ =>
    readHeadCounted_spends.bind hrest).mono (by omega) (by omega)

lemma readValueFuelCounted_spends (hcost : cost Work.call + cost Work.turn = 1) (fuel : ℕ) :
    ValueSpends cost (@readValueFuelCounted data fuel) := by
  induction fuel with
  | zero =>
    exact readValueBodyCounted_spends hcost ((spends_fail _ _).mono le_rfl (by omega))
  | succ fuel ih => exact readValueBodyCounted_spends hcost ih

/-! ### The nested calls -/

lemma readEntriesCounted_agree {value value' : Counted data Value} {bound : ℤ}
    (hvalue : ValueSpends Work.callsHom value) (h : AgreeUpTo left bound value value') (n : ℕ)
    (prev : Option Bytes) :
    AgreeUpTo left bound (readEntriesCounted value prev n) (readEntriesCounted value' prev n) := by
  induction n generalizing prev with
  | zero => exact agreeUpTo_refl _ _
  | succ n ih =>
    refine AgreeUpTo.pay_bind _ ?_
    have hkey : Spends Work.callsHom left 0 0 (readKeyCounted prev : Counted data String) :=
      readKeyCounted_spends prev
    have hturn : Work.callsHom Work.turn = 0 := rfl
    refine (agreeUpTo_refl bound _).bind (j := bound) hkey (by omega) fun key => ?_
    refine h.bind (j := bound) hvalue (by omega) fun v => ?_
    exact (ih _).bind (readEntriesCounted_spends rfl hvalue n _) le_rfl fun es => agreeUpTo_refl _ _

/-- The calls nested in a body start past its head. -/
lemma readValueBodyCounted_agree {value value' : Counted data Value} {bound : ℤ}
    (hvalue : ValueSpends Work.callsHom value) (h : AgreeUpTo left bound value value') :
    AgreeUpTo left (bound + 1) (readValueBodyCounted value) (readValueBodyCounted value') := by
  refine AgreeUpTo.pay_bind _ ?_
  have hhead : Spends Work.callsHom left 1 0 (@readHeadCounted data) := readHeadCounted_spends
  refine (agreeUpTo_refl _ _).bind (j := bound) hhead (by omega) fun head => ?_
  obtain ⟨major, arg⟩ := head
  simp only
  split_ifs
  · exact agreeUpTo_refl _ _
  · exact agreeUpTo_refl _ _
  · exact agreeUpTo_refl _ _
  · have hitem : AgreeUpTo left bound (itemCounted value) (itemCounted value') := h.pay_bind _
    have hspends := itemCounted_spends rfl hvalue
    exact (hitem.times hspends _).bind (hspends.times _) le_rfl fun items => agreeUpTo_refl _ _
  · exact (readEntriesCounted_agree hvalue h _ _).bind (readEntriesCounted_spends rfl hvalue _ _)
      le_rfl fun es => agreeUpTo_refl _ _
  · exact agreeUpTo_refl _ _

/-- Fuel for the bytes that are left is enough: more of it changes nothing. -/
lemma readValueFuelCounted_agree {fuel fuel' : ℕ} (h : fuel ≤ fuel') :
    AgreeUpTo left fuel (@readValueFuelCounted data fuel) (readValueFuelCounted fuel') := by
  induction fuel generalizing fuel' with
  | zero =>
    -- without a byte left no nested call is made
    have hnone : ∀ value : Counted data Value, AgreeUpTo left (-1)
        (fail (.err (.cbor "unexpected end of input"))) value := fun value c hc => by omega
    have hspends : ValueSpends Work.callsHom
        (fail (.err (.cbor "unexpected end of input")) : Counted data Value) :=
      (spends_fail _ _).mono le_rfl (by omega)
    cases fuel' with
    | zero => exact agreeUpTo_refl _ _
    | succ fuel' => exact readValueBodyCounted_agree hspends (hnone _)
  | succ fuel ih =>
    cases fuel' with
    | zero => omega
    | succ fuel' =>
      exact readValueBodyCounted_agree (readValueFuelCounted_spends rfl fuel) (ih (by omega))

/-- The equation of the source: `read_value` is its body with itself for the nested calls. -/
lemma readValueCounted_eq : @readValueCounted data = readValueBodyCounted readValueCounted := by
  have hself : ∀ fuel : ℕ, AgreeUpTo left fuel (@readValueCounted data)
      (readValueFuelCounted fuel) := by
    intro fuel c hc
    exact readValueFuelCounted_agree (by unfold left at hc; omega) c (by unfold left; omega)
  funext c
  have hbody := readValueBodyCounted_agree (readValueFuelCounted_spends rfl (left c))
    fun d hd => (hself (left c) d hd).symm
  rw [← hbody c (by omega)]
  exact hself (left c + 1) c (by omega)

lemma readValueCounted_spends (hcost : cost Work.call + cost Work.turn = 1) :
    ValueSpends cost (@readValueCounted data) := by
  constructor
  · exact fun c v c' m h => (readValueFuelCounted_spends hcost _).ok c v c' m h
  · exact fun c x m h => (readValueFuelCounted_spends hcost _).error c x m h

/-- What the whole decoder spends. -/
lemma cost_readValueCounted_le (hcost : cost Work.call + cost Work.turn = 1) :
    cost (readValueCounted (start data)).2 ≤ data.length + cost Work.call := by
  have hspends : ValueSpends cost (@readValueCounted data) := readValueCounted_spends hcost
  have hleft : left (start data) = data.length := Nat.sub_zero _
  rcases hresult : readValueCounted (start data) with ⟨x | ⟨v, c⟩, work⟩
  · have hle := hspends.error _ x work hresult
    show cost work ≤ _
    omega
  · have hle := hspends.ok _ v c work hresult
    show cost work ≤ _
    omega

end Cursor

open Cursor

/-- **The decoder does no more work than its input is long.**  Counting leaves the result as it is
and so finds no panic in the conversions of slices; there are at most as many turns as bytes, and
one call more, whatever counts are announced; and a value is read from at least one byte. -/
theorem fromBytes_work (data : Bytes) :
    (Value.fromBytesCounted data).1 = liftErr (Value.fromBytes data) ∧
    (Value.fromBytesCounted data).2.calls ≤ data.length + 1 ∧
    (Value.fromBytesCounted data).2.turns ≤ data.length ∧
    (∀ c : Cursor data, (readHeadCounted c).1 ≠ .error .panic) ∧
    (∀ (c c' : Cursor data) (v : Value) (work : Work),
      readValueCounted c = (.ok (v, c'), work) → c.pos < c'.pos ∧ c'.pos ≤ data.length) ∧
    @readValueCounted data = readValueBodyCounted readValueCounted := by
  have hturns : ValueSpends Work.turnsHom (@readValueCounted data) := readValueCounted_spends rfl
  refine ⟨?_, ?_, ?_, fun c => ?_, fun c c' v work h => ⟨?_, c'.pos_le⟩, readValueCounted_eq⟩
  · have hvalue : (readValueCounted (start data)).1 =
        (readValue (start data)).mapError Fault.err := readValueCounted_implements (start data)
    unfold Value.fromBytesCounted Value.fromBytes liftErr
    simp only [hvalue]
    cases readValue (start data) with
    | error e => rfl
    | ok x =>
      simp only [Except.mapError, bind, Except.bind]
      split_ifs <;> rfl
  · exact @cost_readValueCounted_le data Work.callsHom rfl
  · exact @cost_readValueCounted_le data Work.turnsHom rfl
  · rw [readHeadCounted_implements c]
    cases readHead c with
    | error e => exact fun h => by cases h
    | ok x => exact fun h => by cases h
  · have hle := hturns.size_le h
    have hturn : Work.turnsHom Work.turn = 1 := rfl
    have hpos := c.pos_le
    unfold left at hle
    omega

end Identikey.Auth
