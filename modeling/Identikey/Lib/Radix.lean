/-
Change of base for digit strings, leading zeros included.

A digit string is written most significant digit first.  `rebase a b` reads it in
base `a` and writes the same number in base `b`, and keeps the leading zeros, which
the number itself does not show, one for one.  Changes of base compose, and the
change from a base to itself is the identity on the strings of its digits, so a change
of base loses nothing.
-/
import Identikey.Lib.BigEndian
import Mathlib.Data.List.TakeWhile
import Mathlib.Data.Nat.Digits.Lemmas

namespace Identikey.Lib.Radix

/-- The number of zeros a digit string begins with. -/
def zeros (l : List ℕ) : ℕ := (l.takeWhile (· == 0)).length

/-- The digit string in base `b` of the number that `l` denotes in base `a`, with the
leading zeros of `l`. -/
def rebase (a b : ℕ) (l : List ℕ) : List ℕ :=
  List.replicate (zeros l) 0 ++ (Nat.digits b (Nat.ofDigits a l.reverse)).reverse

/-! ### Leading zeros -/

lemma eq_replicate_zeros (l : List ℕ) :
    l = List.replicate (zeros l) 0 ++ l.dropWhile (· == 0) := by
  have hzero : l.takeWhile (· == 0) = List.replicate (zeros l) 0 := by
    refine List.eq_replicate_iff.mpr ⟨rfl, fun d hd => ?_⟩
    simpa using List.mem_takeWhile_imp hd
  rw [← hzero, List.takeWhile_append_dropWhile]

lemma head?_dropWhile_ne (l : List ℕ) : (l.dropWhile (· == 0)).head? ≠ some 0 := by
  intro h
  have hnot := List.head?_dropWhile_not (· == 0) l
  rw [h] at hnot
  cases hnot

lemma zeros_replicate_append {z : ℕ} {top : List ℕ} (h : top.head? ≠ some 0) :
    zeros (List.replicate z 0 ++ top) = z := by
  have htop : top.takeWhile (· == 0) = [] := by
    cases top with
    | nil => rfl
    | cons d top =>
      have hd : d ≠ 0 := by
        rintro rfl
        exact h rfl
      simp [hd]
  rw [zeros, List.takeWhile_append_of_pos (by simp), htop, List.append_nil,
    List.length_replicate]

/-- Leading zeros add nothing to the number. -/
lemma ofDigits_reverse_replicate_append (b z : ℕ) (top : List ℕ) :
    Nat.ofDigits b (List.replicate z 0 ++ top).reverse = Nat.ofDigits b top.reverse := by
  rw [List.reverse_append, List.reverse_replicate, Nat.ofDigits_append_replicate_zero]

/-! ### The digits of a number -/

lemma head?_reverse_digits (b n : ℕ) : (Nat.digits b n).reverse.head? ≠ some 0 := by
  rw [List.head?_reverse]
  intro h
  have hne : n ≠ 0 := by
    rintro rfl
    simp at h
  rw [List.getLast?_eq_some_getLast (Nat.digits_ne_nil_iff_ne_zero.mpr hne)] at h
  exact Nat.getLast_digit_ne_zero b hne (Option.some.inj h)

/-- The digits of a number are the only ones without a leading zero that denote it. -/
lemma reverse_digits_unique {b : ℕ} (hb : 1 < b) {top : List ℕ} (hlt : ∀ d ∈ top, d < b)
    (hhead : top.head? ≠ some 0) :
    (Nat.digits b (Nat.ofDigits b top.reverse)).reverse = top := by
  rw [Nat.digits_ofDigits b hb, List.reverse_reverse]
  · intro d hd
    exact hlt d (List.mem_reverse.mp hd)
  · intro hne hlast
    refine hhead ?_
    rw [← List.getLast?_reverse, List.getLast?_eq_some_getLast hne, hlast]

/-! ### The change of base -/

lemma mem_rebase {a b : ℕ} (hb : 1 < b) {l : List ℕ} {d : ℕ} (hd : d ∈ rebase a b l) : d < b := by
  rcases List.mem_append.mp hd with hd | hd
  · rw [List.eq_of_mem_replicate hd]
    exact Nat.lt_trans Nat.zero_lt_one hb
  · exact Nat.digits_lt_base hb (List.mem_reverse.mp hd)

lemma zeros_rebase (a b : ℕ) (l : List ℕ) : zeros (rebase a b l) = zeros l :=
  zeros_replicate_append (head?_reverse_digits b _)

lemma ofDigits_rebase (a b : ℕ) (l : List ℕ) :
    Nat.ofDigits b (rebase a b l).reverse = Nat.ofDigits a l.reverse := by
  rw [rebase, ofDigits_reverse_replicate_append, List.reverse_reverse, Nat.ofDigits_digits]

lemma rebase_rebase (a b c : ℕ) (l : List ℕ) : rebase b c (rebase a b l) = rebase a c l := by
  rw [rebase, zeros_rebase, ofDigits_rebase]
  rfl

lemma rebase_self {a : ℕ} (ha : 1 < a) {l : List ℕ} (hl : ∀ d ∈ l, d < a) : rebase a a l = l := by
  have hvalue : Nat.ofDigits a l.reverse = Nat.ofDigits a (l.dropWhile (· == 0)).reverse := by
    conv_lhs => rw [eq_replicate_zeros l, ofDigits_reverse_replicate_append]
  rw [rebase, hvalue, reverse_digits_unique ha
    (fun d hd => hl d ((List.dropWhile_sublist _).subset hd)) (head?_dropWhile_ne l)]
  exact (eq_replicate_zeros l).symm

lemma rebase_injOn {a b : ℕ} (ha : 1 < a) :
    Set.InjOn (rebase a b) {l | ∀ d ∈ l, d < a} := by
  intro l hl l' hl' h
  have hback : rebase b a (rebase a b l) = rebase b a (rebase a b l') := by rw [h]
  rwa [rebase_rebase, rebase_rebase, rebase_self ha hl, rebase_self ha hl'] at hback

/-! ### Byte strings -/

lemma ofBeBytes_eq_ofDigits (l : List UInt8) :
    ofBeBytes l = Nat.ofDigits 256 (l.map UInt8.toNat).reverse := by
  induction l with
  | nil => rfl
  | cons b l ih =>
    rw [ofBeBytes, ih, List.map_cons, List.reverse_cons, Nat.ofDigits_append,
      Nat.ofDigits_singleton, List.length_reverse, List.length_map]
    ring

lemma map_toNat_lt (l : List UInt8) : ∀ d ∈ l.map UInt8.toNat, d < 256 := by
  intro d hd
  obtain ⟨byte, -, rfl⟩ := List.mem_map.mp hd
  exact byte.toNat_lt

lemma zeros_map_toNat (l : List UInt8) :
    zeros (l.map UInt8.toNat) = (l.takeWhile (· == 0)).length := by
  rw [zeros, List.takeWhile_map, List.length_map]
  congr 2
  funext b
  rw [Bool.eq_iff_iff]
  simp [← UInt8.toNat_inj]

/-- A byte string in base `b`. -/
lemma rebase_bytes (b : ℕ) (l : List UInt8) :
    rebase 256 b (l.map UInt8.toNat) =
      List.replicate (l.takeWhile (· == 0)).length 0 ++ (Nat.digits b (ofBeBytes l)).reverse := by
  rw [rebase, zeros_map_toNat, ofBeBytes_eq_ofDigits]

lemma rebase_bytes_injective (b : ℕ) :
    Function.Injective fun l : List UInt8 => rebase 256 b (l.map UInt8.toNat) := by
  intro l l' h
  have hdigits := rebase_injOn (by decide) (map_toNat_lt l) (map_toNat_lt l') h
  exact List.map_injective_iff.mpr (fun _ _ => UInt8.toNat_inj.mp) hdigits

end Identikey.Lib.Radix
