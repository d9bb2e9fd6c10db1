/-
The field with 256 elements, on bytes.

An element is a polynomial over the field with two elements, of degree below 8, taken
modulo `X ^ 8 + X ^ 4 + X ^ 3 + X + 1`: bit `i` of the byte is the coefficient of `X ^ i`.
Sums are exclusive ors, and a product adds up the multiples of one factor by the powers
of `X` that occur in the other.  Every element is made of 1 by sums and multiples by `X`
(`Gf256.induction`), and the laws of the product follow along that.
-/
import Mathlib.Algebra.Field.Defs
import Mathlib.Tactic.Abel
import Mathlib.Tactic.Ring

namespace Identikey.Lib

/-- An element of the field with 256 elements. -/
@[ext]
structure Gf256 where
  bits : BitVec 8
deriving DecidableEq, Repr

namespace Gf256

instance : Zero Gf256 := ⟨⟨0⟩⟩
instance : One Gf256 := ⟨⟨1⟩⟩
instance : Add Gf256 := ⟨fun a b => ⟨a.bits ^^^ b.bits⟩⟩
instance : Neg Gf256 := ⟨fun a => a⟩

instance : AddCommGroup Gf256 where
  add_assoc a b c := Gf256.ext (BitVec.xor_assoc a.bits b.bits c.bits)
  zero_add a := Gf256.ext (BitVec.zero_xor (x := a.bits))
  add_zero a := Gf256.ext (BitVec.xor_zero (x := a.bits))
  add_comm a b := Gf256.ext (BitVec.xor_comm a.bits b.bits)
  neg_add_cancel a := Gf256.ext (BitVec.xor_self (x := a.bits))
  nsmul := nsmulRec
  zsmul := zsmulRec

lemma add_self (a : Gf256) : a + a = 0 := neg_add_cancel a

/-- Bit `i`: the coefficient of `X ^ i`. -/
def coeff (a : Gf256) (i : ℕ) : Bool := a.bits.getLsbD i

lemma ext_coeff {a b : Gf256} (h : ∀ i < 8, a.coeff i = b.coeff i) : a = b := by
  apply Gf256.ext
  apply BitVec.eq_of_getLsbD_eq
  intro i hi
  exact h i hi

@[simp] lemma coeff_add (a b : Gf256) (i : ℕ) : (a + b).coeff i = (a.coeff i ^^ b.coeff i) := by
  show (a.bits ^^^ b.bits).getLsbD i = _
  rw [BitVec.getLsbD_xor]
  rfl

@[simp] lemma coeff_zero (i : ℕ) : (0 : Gf256).coeff i = false := BitVec.getLsbD_zero

/-- A bit string by its bits. -/
def ofBits (f : ℕ → Bool) : (n : ℕ) → BitVec n
  | 0 => BitVec.nil
  | n + 1 => BitVec.cons (f n) (ofBits f n)

lemma getLsbD_ofBits (f : ℕ → Bool) {n i : ℕ} (hi : i < n) : (ofBits f n).getLsbD i = f i := by
  induction n with
  | zero => omega
  | succ n ih =>
    rw [ofBits, BitVec.getLsbD_cons]
    by_cases hin : i = n
    · rw [if_pos hin, hin]
    · rw [if_neg hin, ih (by omega)]

/-- The element with these coefficients. -/
def ofCoeffs (f : ℕ → Bool) : Gf256 := ⟨ofBits f 8⟩

lemma coeff_ofCoeffs (f : ℕ → Bool) {i : ℕ} (hi : i < 8) : (ofCoeffs f).coeff i = f i :=
  getLsbD_ofBits f hi

/-- The part of a polynomial that stays when it is multiplied by a coefficient. -/
def scale (p : Bool) (a : Gf256) : Gf256 := if p then a else 0

lemma scale_xor (p q : Bool) (a : Gf256) : scale (p ^^ q) a = scale p a + scale q a := by
  cases p <;> cases q <;> simp [scale, add_self]

lemma scale_add (p : Bool) (a b : Gf256) : scale p (a + b) = scale p a + scale p b := by
  cases p <;> simp [scale]

lemma coeff_scale (p : Bool) (a : Gf256) (i : ℕ) : (scale p a).coeff i = (p && a.coeff i) := by
  cases p <;> simp [scale]

/-! ### Products -/

/-- The multiple by `X`: a shift, and the modulus where the shift leaves 8 bits. -/
def xtime (a : Gf256) : Gf256 := ⟨a.bits <<< 1⟩ + scale (a.coeff 7) ⟨0x1b⟩

lemma xtime_add (a b : Gf256) : xtime (a + b) = xtime a + xtime b := by
  have hshift : (⟨(a + b).bits <<< 1⟩ : Gf256) = ⟨a.bits <<< 1⟩ + ⟨b.bits <<< 1⟩ :=
    Gf256.ext (BitVec.shiftLeft_xor_distrib a.bits b.bits 1)
  rw [xtime, xtime, xtime, hshift, coeff_add, scale_xor]
  abel

lemma xtime_zero : xtime 0 = 0 := rfl

lemma xtime_scale (p : Bool) (a : Gf256) : xtime (scale p a) = scale p (xtime a) := by
  cases p with
  | false => exact xtime_zero
  | true => rfl

/-- The sum of the multiples of `a` by the powers of `X` that `b` has from `X ^ i` on, `n` of them
at most: each step takes the next multiple of `a`. -/
def mulFrom (b : Gf256) : ℕ → ℕ → Gf256 → Gf256
  | 0, _, _ => 0
  | n + 1, i, a => scale (b.coeff i) a + mulFrom b n (i + 1) (xtime a)

lemma mulFrom_add (b : Gf256) (n i : ℕ) (a a' : Gf256) :
    mulFrom b n i (a + a') = mulFrom b n i a + mulFrom b n i a' := by
  induction n generalizing i a a' with
  | zero => exact (add_zero 0).symm
  | succ n ih =>
    rw [mulFrom, mulFrom, mulFrom, xtime_add, ih, scale_add]
    abel

lemma add_mulFrom (b b' : Gf256) (n i : ℕ) (a : Gf256) :
    mulFrom (b + b') n i a = mulFrom b n i a + mulFrom b' n i a := by
  induction n generalizing i a with
  | zero => exact (add_zero 0).symm
  | succ n ih =>
    rw [mulFrom, mulFrom, mulFrom, coeff_add, scale_xor, ih]
    abel

instance : Mul Gf256 := ⟨fun a b => mulFrom b 8 0 a⟩

lemma mul_def (a b : Gf256) : a * b = mulFrom b 8 0 a := rfl

lemma mul_add' (a b c : Gf256) : a * (b + c) = a * b + a * c := add_mulFrom b c 8 0 a

lemma add_mul' (a b c : Gf256) : (a + b) * c = a * c + b * c := mulFrom_add c 8 0 a b

lemma mul_zero' (a : Gf256) : a * 0 = 0 := by
  have h : a * 0 + a * 0 = a * 0 + 0 := by rw [← mul_add', add_zero, add_zero]
  exact add_left_cancel h

lemma zero_mul' (a : Gf256) : 0 * a = 0 := by
  have h : 0 * a + 0 * a = 0 * a + 0 := by rw [← add_mul', add_zero, add_zero]
  exact add_left_cancel h

lemma mul_one' (a : Gf256) : a * 1 = a := by
  show a + (0 + (0 + (0 + (0 + (0 + (0 + (0 + 0))))))) = a
  simp only [add_zero]

/-- The powers of `X` that an element has add up to it. -/
lemma one_mul' (a : Gf256) : 1 * a = a := by
  have h : ∀ b : BitVec 8, 1 * (⟨b⟩ : Gf256) = ⟨b⟩ := by decide +kernel
  exact h a.bits

/-- What holds of 0 and 1 and is kept by sums and by multiples by `X` holds of every element. -/
theorem induction {P : Gf256 → Prop} (zero : P 0) (one : P 1) (xtime : ∀ a, P a → P (xtime a))
    (add : ∀ a b, P a → P b → P (a + b)) (a : Gf256) : P a := by
  have h : ∀ n i c, P c → P (mulFrom a n i c) := by
    intro n
    induction n with
    | zero => exact fun _ _ _ => zero
    | succ n ih =>
      intro i c hc
      apply add _ _ _ (ih (i + 1) _ (xtime c hc))
      cases a.coeff i with
      | false => exact zero
      | true => exact hc
  rw [← one_mul' a]
  exact h 8 0 1 one

lemma xtime_mulFrom (b : Gf256) (n i : ℕ) (a : Gf256) :
    mulFrom b n i (xtime a) = xtime (mulFrom b n i a) := by
  induction n generalizing i a with
  | zero => exact xtime_zero.symm
  | succ n ih => rw [mulFrom, mulFrom, xtime_add, ih, xtime_scale]

lemma xtime_mul (a b : Gf256) : xtime a * b = xtime (a * b) := xtime_mulFrom b 8 0 a

lemma mul_xtime (a b : Gf256) : a * xtime b = xtime (a * b) := by
  induction a using induction with
  | zero => rw [zero_mul', zero_mul', xtime_zero]
  | one => rw [one_mul', one_mul']
  | xtime a ih => rw [xtime_mul, ih, xtime_mul]
  | add a a' ha ha' => rw [add_mul', ha, ha', add_mul', xtime_add]

lemma mul_comm' (a b : Gf256) : a * b = b * a := by
  induction a using induction with
  | zero => rw [zero_mul', mul_zero']
  | one => rw [one_mul', mul_one']
  | xtime a ih => rw [xtime_mul, ih, mul_xtime]
  | add a a' ha ha' => rw [add_mul', ha, ha', mul_add']

lemma mul_assoc' (a b c : Gf256) : a * b * c = a * (b * c) := by
  induction a using induction with
  | zero => rw [zero_mul', zero_mul', zero_mul']
  | one => rw [one_mul', one_mul']
  | xtime a ih => rw [xtime_mul, xtime_mul, ih, xtime_mul]
  | add a a' ha ha' => rw [add_mul', add_mul', ha, ha', add_mul']

instance : CommRing Gf256 where
  mul_assoc := mul_assoc'
  mul_comm := mul_comm'
  left_distrib := mul_add'
  right_distrib := add_mul'
  zero_mul := zero_mul'
  mul_zero := mul_zero'
  mul_one := mul_one'
  one_mul := one_mul'
  neg_add_cancel := neg_add_cancel
  zsmul := zsmulRec

/-! ### Quotients -/

lemma add_sq' (a b : Gf256) : (a + b) ^ 2 = a ^ 2 + b ^ 2 := by
  calc (a + b) ^ 2 = a ^ 2 + b ^ 2 + (a * b + a * b) := by ring
    _ = a ^ 2 + b ^ 2 := by rw [add_self, add_zero]

/-- Squaring, any number of times, is additive. -/
lemma add_pow_two_pow (a b : Gf256) (n : ℕ) :
    (a + b) ^ 2 ^ n = a ^ 2 ^ n + b ^ 2 ^ n := by
  induction n with
  | zero => simp only [pow_zero, pow_one]
  | succ n ih => rw [pow_succ, pow_mul, ih, add_sq', ← pow_mul, ← pow_mul]

lemma xtime_eq_mul (a : Gf256) : xtime a = xtime 1 * a := by
  rw [xtime_mul]
  congr
  exact (one_mul a).symm

/-- The Frobenius map has order 8: it has on `X`, and it is additive. -/
lemma pow_card (a : Gf256) : a ^ 2 ^ 8 = a := by
  induction a using induction with
  | zero => exact zero_pow (by decide)
  | one => exact one_pow _
  | xtime a ih =>
    have hX : xtime 1 ^ 2 ^ 8 = xtime 1 := by decide +kernel
    rw [xtime_eq_mul, mul_pow, hX, ih]
  | add a b ha hb => rw [add_pow_two_pow, ha, hb]

lemma eq_zero_or_one_of_idempotent {e : Gf256} (h : e * e = e) : e = 0 ∨ e = 1 := by
  have hall : ∀ b : BitVec 8, (⟨b⟩ : Gf256) * ⟨b⟩ = ⟨b⟩ →
      (⟨b⟩ : Gf256) = 0 ∨ (⟨b⟩ : Gf256) = 1 := by decide +kernel
  exact hall e.bits h

/-- The power 255 is an idempotent, so it is 1 where it is not 0. -/
lemma mul_pow_254 {a : Gf256} (h : a ≠ 0) : a * a ^ 254 = 1 := by
  have hcard : a * a ^ 255 = a := by
    rw [← pow_succ']
    exact pow_card a
  have hidem : a ^ 255 * a ^ 255 = a ^ 255 := by
    calc a ^ 255 * a ^ 255 = a * a ^ 255 * a ^ 254 := by ring
      _ = a ^ 255 := by rw [hcard, ← pow_succ']
  rw [← pow_succ']
  rcases eq_zero_or_one_of_idempotent hidem with hzero | hone
  · rw [hzero, mul_zero] at hcard
    exact absurd hcard.symm h
  · exact hone

instance : Nontrivial Gf256 := ⟨0, 1, by decide⟩

instance : Field Gf256 where
  inv a := a ^ 254
  mul_inv_cancel _ h := mul_pow_254 h
  inv_zero := zero_pow (by decide)
  nnqsmul := _
  qsmul := _

lemma inv_eq_pow (a : Gf256) : a⁻¹ = a ^ 254 := rfl

/-- Subtraction is addition. -/
lemma sub_eq_add (a b : Gf256) : a - b = a + b := rfl

end Gf256

end Identikey.Lib
