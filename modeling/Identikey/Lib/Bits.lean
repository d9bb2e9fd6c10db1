/-
Bit strings, most significant bit first.

`toBits k n` are the low `k` bits of `n`, and `ofBits` reads a bit string as a number in
base 2.  A byte string is the bit string of its bytes (`bitsOf`), and a big-endian number
is the same number read bit by bit (`ofBits_bitsOf`, `bitsOf_beBytes`).
-/
import Mathlib.Data.Nat.Bitwise
import Identikey.Lib.BigEndian

namespace Identikey.Lib

/-- The low `k` bits of `n`, most significant first. -/
def toBits : ℕ → ℕ → List Bool
  | 0, _ => []
  | k + 1, n => n.testBit k :: toBits k n

/-- The number a bit string denotes in base 2. -/
def ofBits : List Bool → ℕ
  | [] => 0
  | b :: l => b.toNat * 2 ^ l.length + ofBits l

/-- A byte string as a bit string. -/
def bitsOf (l : List UInt8) : List Bool := l.flatMap fun b => toBits 8 b.toNat

@[simp] lemma length_toBits (k n : ℕ) : (toBits k n).length = k := by
  induction k with
  | zero => rfl
  | succ k ih => rw [toBits, List.length_cons, ih]

@[simp] lemma bitsOf_nil : bitsOf [] = [] := rfl

lemma bitsOf_cons (b : UInt8) (l : List UInt8) : bitsOf (b :: l) = toBits 8 b.toNat ++ bitsOf l :=
  List.flatMap_cons

lemma bitsOf_append (l l' : List UInt8) : bitsOf (l ++ l') = bitsOf l ++ bitsOf l' :=
  List.flatMap_append

@[simp] lemma length_bitsOf (l : List UInt8) : (bitsOf l).length = 8 * l.length := by
  induction l with
  | nil => rfl
  | cons b l ih =>
    rw [bitsOf_cons, List.length_append, length_toBits, ih, List.length_cons]
    omega

/-! ### Parts -/

/-- Past the bits of one byte. -/
lemma skip_toBits (b : UInt8) (n : ℕ) : 8 * (n + 1) = (toBits 8 b.toNat).length + 8 * n := by
  rw [length_toBits]
  omega

lemma drop_bitsOf (n : ℕ) (l : List UInt8) : (bitsOf l).drop (8 * n) = bitsOf (l.drop n) := by
  induction n generalizing l with
  | zero => rfl
  | succ n ih =>
    cases l with
    | nil => simp
    | cons b l =>
      rw [bitsOf_cons, skip_toBits b, List.drop_length_add_append, ih, List.drop_succ_cons]

lemma take_bitsOf (n : ℕ) (l : List UInt8) : (bitsOf l).take (8 * n) = bitsOf (l.take n) := by
  induction n generalizing l with
  | zero => simp
  | succ n ih =>
    cases l with
    | nil => simp
    | cons b l =>
      rw [bitsOf_cons, skip_toBits b, List.take_length_add_append, ih, List.take_succ_cons,
        bitsOf_cons]

/-! ### Numbers -/

/-- The bits from position `k` on are those of what is above it. -/
lemma toBits_add (j k n : ℕ) : toBits (j + k) n = toBits j (n / 2 ^ k) ++ toBits k n := by
  induction j with
  | zero => simp [toBits]
  | succ j ih =>
    have hbit : n.testBit (j + k) = (n / 2 ^ k).testBit j := by
      rw [Nat.testBit_div_two_pow, Nat.add_comm]
    rw [Nat.succ_add, toBits, toBits, ih, hbit, List.cons_append]

lemma toBits_mod (k n : ℕ) : toBits k (n % 2 ^ k) = toBits k n := by
  have hlow : ∀ j ≤ k, toBits j (n % 2 ^ k) = toBits j n := by
    intro j hj
    induction j with
    | zero => rfl
    | succ j ih =>
      rw [toBits, toBits, ih (by omega), Nat.testBit_mod_two_pow, decide_eq_true (by omega : j < k),
        Bool.true_and]
  exact hlow k le_rfl

lemma ofBits_append (l l' : List Bool) :
    ofBits (l ++ l') = ofBits l * 2 ^ l'.length + ofBits l' := by
  induction l with
  | nil => simp [ofBits]
  | cons b l ih =>
    rw [List.cons_append, ofBits, ofBits, ih, List.length_append, pow_add]
    ring

lemma ofBits_toBits (k n : ℕ) : ofBits (toBits k n) = n % 2 ^ k := by
  induction k with
  | zero => simp [toBits, ofBits, Nat.mod_one]
  | succ k ih =>
    rw [toBits, ofBits, ih, length_toBits, Nat.toNat_testBit, Nat.mod_pow_succ, Nat.mul_comm,
      Nat.add_comm]

/-- **Bytes and bits denote the same number.** -/
lemma ofBits_bitsOf (l : List UInt8) : ofBits (bitsOf l) = ofBeBytes l := by
  induction l with
  | nil => rfl
  | cons b l ih =>
    have hbyte : b.toNat % 2 ^ 8 = b.toNat := Nat.mod_eq_of_lt b.toNat_lt
    have hpow : 2 ^ (8 * l.length) = 256 ^ l.length := pow_mul 2 8 l.length
    rw [bitsOf_cons, ofBits_append, ofBits_toBits, hbyte, ih, length_bitsOf, ofBeBytes, hpow]

/-- The bits of a big-endian number. -/
lemma bitsOf_beBytes (k n : ℕ) : bitsOf (beBytes k n) = toBits (8 * k) n := by
  induction k with
  | zero => rfl
  | succ k ih =>
    have hbyte : toBits 8 (UInt8.ofNat (n / 256 ^ k)).toNat = toBits 8 (n / 256 ^ k) :=
      toBits_mod 8 _
    have hpow : 2 ^ (8 * k) = 256 ^ k := pow_mul 2 8 k
    have hlen : 8 * (k + 1) = 8 + 8 * k := by omega
    rw [beBytes, bitsOf_cons, ih, hbyte, hlen, toBits_add, hpow]

lemma bitsOf_replicate_zero (n : ℕ) :
    bitsOf (List.replicate n 0) = List.replicate (8 * n) false := by
  induction n with
  | zero => rfl
  | succ n ih =>
    have hlen : 8 * (n + 1) = 8 + 8 * n := by omega
    rw [List.replicate_succ, bitsOf_cons, ih, hlen, ← List.replicate_append_replicate]
    rfl

end Identikey.Lib
