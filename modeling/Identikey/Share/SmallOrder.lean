/-
Which encodings of small-order X25519 keys are refused.

A curve reads a key by RFC 7748: it clears the top bit, reads the bytes little-endian and
reduces modulo `2 ^ 255 - 19`.  Five coordinates have small order.  Seven numbers below
`2 ^ 255` are read as one of them, each from two strings of bytes, and the check looks for
eight of these fourteen strings.
-/
import Identikey.Share.Wrapping

set_option linter.dupNamespace false

namespace Identikey.Share

open Lib Lib.Fallible Auth Dcbor

variable {curves : Curves} {host : Host} {b : ByteArrayOf 32}

/-! ### How a key is read -/

/-- The prime of the field. -/
def fieldPrime : ℕ := 2 ^ 255 - 19

/-- The number in little-endian bytes. -/
def leNumber (b : Bytes) : ℕ := ofBeBytes b.reverse

/-- The bytes with the top bit of the last of 32 cleared. -/
def clearTopBit (b : Bytes) : Bytes := b.take 31 ++ (b.drop 31).map (· &&& 0x7f)

/-- The u-coordinate that a curve reads from a key. -/
def uCoordinate (b : ByteArrayOf 32) : ℕ := leNumber (clearTopBit b.val) % fieldPrime

/-- The u-coordinates of small order: 0, 1, -1 and the two of order 8. -/
def SMALL_U : List ℕ :=
  [0, 1, fieldPrime - 1,
    325606250916557431795983626356110631294008115727848805560023387167927233504,
    39382357235489614581723060781553021112529911719440698176882885853963445705823]

/-- The last two double to the coordinate 1, which is of order 4. -/
example : ∀ u ∈ SMALL_U.drop 3, (u * u - 1) ^ 2 % fieldPrime =
    4 * u * (u * u + 486662 * u + 1) % fieldPrime := by
  decide +kernel

/-- The top bit of a key is clear. -/
def TopBitClear (b : ByteArrayOf 32) : Prop := ∀ x ∈ b.val.drop 31, x < 0x80

instance : Decidable (TopBitClear b) :=
  inferInstanceAs (Decidable (∀ x ∈ b.val.drop 31, x < 0x80))

/-- The coordinate 0 with the top bit set. -/
def HIGH_ZERO : Bytes := List.replicate 31 0 ++ [0x80]

/-! ### The list of the check -/

lemma leNumber_inj {b b' : Bytes} (hlen : b.length = b'.length) (h : leNumber b = leNumber b') :
    b = b' := by
  have hreverse : b.reverse = b'.reverse := by
    rw [← beBytes_ofBeBytes b.reverse, ← beBytes_ofBeBytes b'.reverse, List.length_reverse,
      List.length_reverse, hlen]
    exact congrArg _ h
  exact List.reverse_inj.mp hreverse

/-- A key is 31 bytes and a last one. -/
lemma eq_append_last (b : ByteArrayOf 32) :
    ∃ x, b.val.drop 31 = [x] ∧ b.val = b.val.take 31 ++ [x] := by
  have hlen : (b.val.drop 31).length = 1 := by rw [List.length_drop, b.2]
  obtain ⟨x, hx⟩ := List.length_eq_one_iff.mp hlen
  exact ⟨x, hx, by rw [← hx, List.take_append_drop]⟩

lemma clearTopBit_of_clear (h : TopBitClear b) : clearTopBit b.val = b.val := by
  have hbyte : ∀ x : UInt8, x < 0x80 → x &&& 0x7f = x := by
    intro x hx
    apply UInt8.toNat_inj.mp
    rw [UInt8.toNat_and]
    exact (Nat.and_two_pow_sub_one_eq_mod x.toNat 7).trans (Nat.mod_eq_of_lt hx)
  have hmask : (b.val.drop 31).map (· &&& 0x7f) = b.val.drop 31 :=
    (List.map_congr_left fun x hx => hbyte x (h x hx)).trans (List.map_id _)
  rw [clearTopBit, hmask, List.take_append_drop]

lemma leNumber_lt (h : TopBitClear b) : leNumber b.val < 2 ^ 255 := by
  obtain ⟨x, hdrop, hb⟩ := eq_append_last b
  have hx : x.toNat < 128 := h x (by rw [hdrop]; exact List.mem_singleton_self x)
  have hlen : (b.val.take 31).reverse.length = 31 := by
    rw [List.length_reverse, List.length_take, b.2]
    rfl
  have hrest := ofBeBytes_lt (b.val.take 31).reverse
  rw [hlen] at hrest
  rw [leNumber, hb, List.reverse_append, List.reverse_singleton, List.singleton_append, ofBeBytes,
    hlen]
  omega

/-- The numbers below `2 ^ 255` that are read as a coordinate of small order. -/
lemma mem_of_mod_mem {v : ℕ} (hv : v < 2 ^ 255) (h : v % fieldPrime ∈ SMALL_U) :
    v ∈ SMALL_U ∨ v = fieldPrime ∨ v = fieldPrime + 1 := by
  have hprime : fieldPrime + 19 = 2 ^ 255 := by decide
  rcases lt_or_ge v fieldPrime with hlt | hge
  · rw [Nat.mod_eq_of_lt hlt] at h
    exact .inl h
  · -- the excess over the prime is below 19, where only 0 and 1 are of small order
    have hmod : v % fieldPrime = v - fieldPrime := by
      rw [Nat.mod_eq_sub_mod hge, Nat.mod_eq_of_lt (by omega)]
    have hfew : ∀ u ∈ SMALL_U, u < 19 → u = 0 ∨ u = 1 := by decide
    rw [hmod] at h
    have hexcess := hfew _ h (by omega)
    omega

/-- Each of these numbers is in the list, from bytes without the top bit. -/
lemma exists_listed {v : ℕ} (h : v ∈ SMALL_U ∨ v = fieldPrime ∨ v = fieldPrime + 1) :
    ∃ x ∈ SMALL_ORDER, leNumber x = v := by
  have hall : ∀ v ∈ SMALL_U ++ [fieldPrime, fieldPrime + 1], ∃ x ∈ SMALL_ORDER, leNumber x = v := by
    decide +kernel
  exact hall v (by simpa using h)

lemma length_of_listed : ∀ x ∈ SMALL_ORDER, x.length = 32 := by decide

/-- The only string of the list with the top bit set is that of 0. -/
lemma highZero_of_listed : ∀ x ∈ SMALL_ORDER, (∀ y ∈ x.drop 31, y < 0x80) ∨ x = HIGH_ZERO := by
  decide

/-- **A key of small order is in the list exactly if its top bit is clear, or it is 0 with the top
bit set.** -/
lemma isSmallOrder_iff (hsmall : uCoordinate b ∈ SMALL_U) :
    isSmallOrder b = true ↔ TopBitClear b ∨ b.val = HIGH_ZERO := by
  have hlisted : isSmallOrder b = true ↔ b.val ∈ SMALL_ORDER := by
    unfold isSmallOrder
    simp
  rw [hlisted]
  constructor
  · exact highZero_of_listed b.val
  · rintro (hclear | hzero)
    · rw [uCoordinate, clearTopBit_of_clear hclear] at hsmall
      obtain ⟨x, hx, hsame⟩ := exists_listed (mem_of_mod_mem (leNumber_lt hclear) hsmall)
      rwa [← leNumber_inj ((length_of_listed x hx).trans b.2.symm) hsame]
    · rw [hzero]
      decide

/-! ### What is refused -/

lemma x25519_eq_error : WrapPublic.x25519 b = .error .rejectedKey ↔ isSmallOrder b = true := by
  unfold WrapPublic.x25519
  cases isSmallOrder b <;> simp

/-- Keys that pass the checks of a wrap are not in the list. -/
lemma ne_of_checkWrapKeys (hb : isSmallOrder b = true) {alg : String} {recipient ephemeral : Bytes}
    (h : checkWrapKeys curves alg recipient ephemeral = .ok ()) :
    recipient ≠ b.val ∧ ephemeral ≠ b.val := by
  unfold checkWrapKeys at h
  split_ifs at h
  · simp only [bind_eq_ok, ensure_eq_ok, okOr_eq_ok, toArray_eq_some] at h
    obtain ⟨r, rfl, e, rfl, hr, he⟩ := h
    constructor
    · intro hsame
      rw [Subtype.ext hsame, hb] at hr
      cases hr
    · intro hsame
      rw [Subtype.ext hsame, hb] at he
      cases he
  · simp only [bind_eq_ok, ensure_eq_ok] at h
    obtain ⟨_, ⟨hr, he⟩, -⟩ := h
    constructor
    · rintro rfl
      exact absurd (b.2.symm.trans hr) (by decide)
    · rintro rfl
      exact absurd (b.2.symm.trans he) (by decide)

/-- A wrap that has a key on both sides. -/
def keyWrap (b : ByteArrayOf 32) : Wrap :=
  { alg := ALG_X25519, recipient := b.val, ephemeral := b.val, nonce := fill 24 0, ciphertext := [],
    epoch := 0 }

lemma keyWrap_fits : (wrapValue (keyWrap b)).Fits host :=
  have hlen : b.val.length ≤ 33 := b.2.le.trans (by decide)
  wrapValue_fits (.inl rfl) hlen hlen (Nat.zero_le _)

/-- Every other key is taken. -/
lemma parseWrap_keyWrap (hb : isSmallOrder b = false) :
    parseWrap curves host ((wrapValue (keyWrap b)).toCborData host) = .ok (keyWrap b) := by
  have harray : toArray 32 b.val = some b := toArray_eq_some.mpr rfl
  rw [parseWrap_toCborData (wrapValue_canonical (.inl rfl)) keyWrap_fits]
  refine ⟨?_, _, toU64_unsigned 0, rfl⟩
  unfold keyWrap checkWrapKeys
  rw [if_pos rfl, harray]
  simp only [okOr, ok_bind]
  exact ensure_eq_ok.mpr ⟨hb, hb⟩

/-- **A small-order key is refused exactly if its top bit is clear, or it is 0 with the top bit
set.**  So it is where a key is made of it, and where a wrap is parsed that has it as recipient
or as ephemeral key. -/
theorem small_order_refused_iff (hsmall : uCoordinate b ∈ SMALL_U) :
    (WrapPublic.x25519 b = .error .rejectedKey ↔ TopBitClear b ∨ b.val = HIGH_ZERO) ∧
    ((∀ bytes w, parseWrap curves host bytes = .ok w →
      w.recipient ≠ b.val ∧ w.ephemeral ≠ b.val) ↔ TopBitClear b ∨ b.val = HIGH_ZERO) := by
  rw [← isSmallOrder_iff hsmall]
  refine ⟨x25519_eq_error, fun hall => ?_, fun hb bytes w hw => ?_⟩
  · cases hb : isSmallOrder b with
    | true => rfl
    | false => exact absurd rfl (hall _ _ (parseWrap_keyWrap hb)).1
  · obtain ⟨entries, -, -, hread⟩ := parseMap_eq_ok.mp hw
    exact ne_of_checkWrapKeys hb (of_readWrap hread).2

/-- The coordinate -1, in its only form without the top bit. -/
def minusOne : ByteArrayOf 32 := ⟨0xec :: List.replicate 30 0xff ++ [0x7f], rfl⟩

theorem small_order_refused_iff_minusOne :
    WrapPublic.x25519 minusOne = .error .rejectedKey := by
  have hsmall : uCoordinate minusOne ∈ SMALL_U := by decide +kernel
  exact (@small_order_refused_iff sampleCurves Host.plain _ hsmall).1.mpr (.inl (by decide))

/-- The coordinate 1 with the top bit set. -/
def highOne : ByteArrayOf 32 := ⟨1 :: List.replicate 30 0 ++ [0x80], rfl⟩

theorem small_order_not_refused :
    ¬ ∀ (curves : Curves) (host : Host) (b : ByteArrayOf 32), uCoordinate b ∈ SMALL_U →
      WrapPublic.x25519 b = .error .rejectedKey ∧
      ∀ bytes w, parseWrap curves host bytes = .ok w →
        w.recipient ≠ b.val ∧ w.ephemeral ≠ b.val := by
  intro hall
  have hrefused := (hall sampleCurves Host.plain highOne (by decide +kernel)).1
  rw [x25519_eq_error] at hrefused
  exact absurd hrefused (by decide)

end Identikey.Share
