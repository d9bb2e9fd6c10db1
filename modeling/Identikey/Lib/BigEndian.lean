/-
Big-endian words.

`beBytes k n` are the low `k` bytes of `n`, most significant first, and
`ofBeBytes` reads a byte string as a number in base 256.  They are inverse to
each other between the numbers below `256 ^ k` and the byte strings of length
`k`, which is what makes a fixed-width field readable in one way only.
-/
import Mathlib.Tactic.Lemma
import Mathlib.Tactic.Ring
import Mathlib.Data.Nat.Basic

namespace Identikey.Lib

/-- The low `k` bytes of `n`, most significant first. -/
def beBytes : ℕ → ℕ → List UInt8
  | 0, _ => []
  | k + 1, n => UInt8.ofNat (n / 256 ^ k) :: beBytes k n

/-- The number a byte string denotes in base 256. -/
def ofBeBytes : List UInt8 → ℕ
  | [] => 0
  | b :: l => b.toNat * 256 ^ l.length + ofBeBytes l

@[simp] lemma length_beBytes (k n : ℕ) : (beBytes k n).length = k := by
  induction k with
  | zero => rfl
  | succ k ih => simp [beBytes, ih]

lemma ofBeBytes_lt (l : List UInt8) : ofBeBytes l < 256 ^ l.length := by
  induction l with
  | nil => simp [ofBeBytes]
  | cons b l ih =>
    have hb : b.toNat + 1 ≤ 256 := b.toNat_lt
    calc ofBeBytes (b :: l) < b.toNat * 256 ^ l.length + 256 ^ l.length := by
          simpa [ofBeBytes] using ih
      _ = (b.toNat + 1) * 256 ^ l.length := by ring
      _ ≤ 256 * 256 ^ l.length := Nat.mul_le_mul_right _ hb
      _ = 256 ^ (b :: l).length := by rw [List.length_cons, pow_succ']

lemma ofBeBytes_append (l l' : List UInt8) :
    ofBeBytes (l ++ l') = ofBeBytes l * 256 ^ l'.length + ofBeBytes l' := by
  induction l with
  | nil => simp [ofBeBytes]
  | cons b l ih =>
    rw [List.cons_append, ofBeBytes, ofBeBytes, ih, List.length_append, pow_add]
    ring

/-- The low bytes do not see what is above them. -/
lemma beBytes_add_mul (k a n : ℕ) : beBytes k (a * 256 ^ k + n) = beBytes k n := by
  induction k generalizing a with
  | zero => rfl
  | succ k ih =>
    have hpow : a * 256 ^ (k + 1) + n = (a * 256) * 256 ^ k + n := by rw [pow_succ']; ring
    have hdiv : ((a * 256) * 256 ^ k + n) / 256 ^ k = a * 256 + n / 256 ^ k := by
      rw [Nat.add_comm, Nat.add_mul_div_right _ _ (Nat.pow_pos (by decide)), Nat.add_comm]
    have hbyte : UInt8.ofNat (a * 256 + n / 256 ^ k) = UInt8.ofNat (n / 256 ^ k) := by
      apply UInt8.toNat_inj.mp
      simp
    rw [hpow, beBytes, beBytes, ih (a * 256), hdiv, hbyte]

lemma beBytes_ofBeBytes (l : List UInt8) : beBytes l.length (ofBeBytes l) = l := by
  induction l with
  | nil => rfl
  | cons b l ih =>
    have hdiv : (b.toNat * 256 ^ l.length + ofBeBytes l) / 256 ^ l.length = b.toNat := by
      rw [Nat.add_comm, Nat.add_mul_div_right _ _ (Nat.pow_pos (by decide)),
        Nat.div_eq_of_lt (ofBeBytes_lt l), Nat.zero_add]
    rw [List.length_cons, ofBeBytes, beBytes, hdiv, beBytes_add_mul, ih, UInt8.ofNat_toNat]

lemma ofBeBytes_beBytes {k n : ℕ} (h : n < 256 ^ k) : ofBeBytes (beBytes k n) = n := by
  induction k generalizing n with
  | zero => simp at h; simp [beBytes, ofBeBytes, h]
  | succ k ih =>
    have htop : n / 256 ^ k < 256 := by
      refine Nat.div_lt_of_lt_mul ?_
      rwa [pow_succ] at h
    have hmod : beBytes k n = beBytes k (n % 256 ^ k) := by
      conv_lhs => rw [← Nat.div_add_mod n (256 ^ k), Nat.mul_comm]
      exact beBytes_add_mul k _ _
    have hlow : ofBeBytes (beBytes k n) = n % 256 ^ k := by
      rw [hmod]
      exact ih (Nat.mod_lt _ (Nat.pow_pos (by decide)))
    rw [beBytes, ofBeBytes, length_beBytes, hlow, UInt8.toNat_ofNat_of_lt' (by simpa using htop)]
    exact Nat.div_add_mod' n (256 ^ k)

end Identikey.Lib
