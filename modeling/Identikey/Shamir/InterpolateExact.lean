/-
`interpolate` is Lagrange interpolation, byte by byte.

For up to 16 points nothing in `interpolate` panics, and byte `b` of its result is the
value at `x` of the polynomial through the bytes `b` of the points (`interpolate_eq_some`).
Two points at one place do not break this: the inverse of 0 is 0 in the code, as it is in
the field.
-/
import Identikey.Shamir.Interpolate
import Identikey.Lib.ForRange
import Mathlib.LinearAlgebra.Lagrange

namespace Identikey.Shamir

open Lib Polynomial

/-- The place of point `i`. -/
def place (xc : List UInt8) (i : ℕ) : Gf256 := ofByte (xc.getD i 0)

/-! ### The basis -/

/-- What the first loop has done after `i` turns: the points are there twice as far as it got, and
slice `k` holds them from point `k` on, around. -/
structure Rotated (n : ℕ) (xc : List UInt8) (i : ℕ) (s : List UInt8 × List Slice) : Prop where
  length_xx : s.1.length = 48
  xx : ∀ m < n + i, s.1.getD m 0 = xc.getD (m % n) 0
  length_lxi : s.2.length = i
  lxi : ∀ k < i, ∃ slice, s.2[k]? = some slice ∧
    ∀ m < n, lane slice m = place xc ((k + m) % n)

lemma rotated_zero {n : ℕ} {xc : List UInt8} (hn : n ≤ 16) (hxc : n ≤ xc.length) :
    Rotated n xc 0 (xc.take n ++ List.replicate (32 + 16 - n) 0, []) where
  length_xx := by
    simp only [List.length_append, List.length_take, List.length_replicate]
    omega
  xx m hm := by
    rw [Nat.mod_eq_of_lt (by omega), List.getD_append _ _ _ _ (by rw [List.length_take]; omega)]
    simp only [List.getD_eq_getElem?_getD, List.getElem?_take]
    rw [if_pos (by omega)]
  length_lxi := rfl
  lxi k hk := by omega

lemma rotateStep_eq_some {n i : ℕ} {xc : List UInt8} {s : List UInt8 × List Slice} (hn : n ≤ 16)
    (hi : i < n) (hs : Rotated n xc i s) :
    ∃ s', rotateStep n s i = some s' ∧ Rotated n xc (i + 1) s' := by
  have hlen := hs.length_xx
  obtain ⟨slice, hslice, hlane⟩ := bitslice_eq_some (x := s.1.drop i)
    (by rw [List.length_drop]; omega)
  have hget : s.1[i]? = some (xc.getD i 0) := by
    have h := hs.xx i (by omega)
    rw [Nat.mod_eq_of_lt hi, List.getD_eq_getElem _ _ (by omega)] at h
    rw [List.getElem?_eq_getElem (by omega), h]
  refine ⟨(s.1.set (i + n) (xc.getD i 0), s.2 ++ [slice]), ?_, ?_⟩
  · rw [rotateStep, hslice, hget]
    exact if_pos (by omega)
  · refine ⟨by rw [List.length_set]; exact hlen, ?_, by simp [hs.length_lxi], ?_⟩
    · intro m hm
      by_cases hmi : m = i + n
      · subst hmi
        rw [List.getD_eq_getElem _ _ (by rw [List.length_set]; omega), List.getElem_set_self,
          Nat.add_mod_right, Nat.mod_eq_of_lt hi]
      · rw [← hs.xx m (by omega)]
        simp only [List.getD_eq_getElem?_getD]
        rw [List.getElem?_set_ne (by omega)]
    · intro k hk
      by_cases hki : k = i
      · subst hki
        refine ⟨slice, by rw [← hs.length_lxi, List.getElem?_concat_length], ?_⟩
        intro m hm
        rw [hlane m (by omega), place, ← hs.xx (k + m) (by omega)]
        simp only [List.getD_eq_getElem?_getD, List.getElem?_drop]
      · obtain ⟨slice', hslice', hlane'⟩ := hs.lxi k (by omega)
        refine ⟨slice', ?_, hlane'⟩
        rw [List.getElem?_append_left (by rw [hs.length_lxi]; omega)]
        exact hslice'

/-- The products over the `i` points after point `k`, around. -/
def productAround (n : ℕ) (xc : List UInt8) (a : Gf256) (k i : ℕ) : Gf256 :=
  ∏ j ∈ Finset.Ico 1 i, (a - place xc ((k + j) % n))

lemma productAround_one (n : ℕ) (xc : List UInt8) (a : Gf256) (k : ℕ) :
    productAround n xc a k 1 = 1 := by
  rw [productAround, Finset.Ico_self, Finset.prod_empty]

lemma productAround_succ (n : ℕ) (xc : List UInt8) (a : Gf256) (k : ℕ) {i : ℕ} (hi : 1 ≤ i) :
    productAround n xc a k (i + 1) =
      productAround n xc a k i * (a - place xc ((k + i) % n)) :=
  Finset.prod_Ico_succ_top hi _

/-- What the second loop has done before turn `i`. -/
def Multiplied (n : ℕ) (xc : List UInt8) (x : UInt8) (i : ℕ) (s : Slice × Slice) : Prop :=
  ∀ k < n, lane s.1 k = productAround n xc (ofByte x) k i ∧
    lane s.2 k = productAround n xc (place xc k) k i

lemma basisStep_eq_some {n i : ℕ} {xc : List UInt8} {x : UInt8} {t : List UInt8 × List Slice}
    {s : Slice × Slice} (hn : n ≤ 16) (ht : Rotated n xc n t) (hi : 1 ≤ i) (hin : i < n)
    (hs : Multiplied n xc x i s) :
    ∃ s', basisStep t.2 (bitsliceSetall x) s i = some s' ∧ Multiplied n xc x (i + 1) s' := by
  obtain ⟨slice, hslice, hlane⟩ := ht.lxi i hin
  obtain ⟨first, hfirst, hlane₀⟩ := ht.lxi 0 (by omega)
  refine ⟨(gf256Mul s.1 (gf256Add (bitsliceSetall x) slice), gf256Mul s.2 (gf256Add first slice)),
    ?_, ?_⟩
  · rw [basisStep, hslice, hfirst]
    rfl
  · intro k hk
    obtain ⟨hnum, hden⟩ := hs k hk
    constructor
    · rw [lane_gf256Mul, lane_gf256Add, hnum, productAround_succ _ _ _ _ hi, hlane k hk,
        lane_bitsliceSetall x (by omega), ← Gf256.sub_eq_add, Nat.add_comm i k]
    · rw [lane_gf256Mul, lane_gf256Add, hden, productAround_succ _ _ _ _ hi, hlane k hk,
        hlane₀ k hk, ← Gf256.sub_eq_add, Nat.add_comm i k, Nat.zero_add, Nat.mod_eq_of_lt hk]

/-- The points after point `k`, around, are the others. -/
lemma prod_around {n k : ℕ} (hk : k < n) (f : ℕ → Gf256) :
    ∏ j ∈ Finset.Ico 1 n, f ((k + j) % n) = ∏ j ∈ (Finset.range n).erase k, f j := by
  have hmod : ∀ j, j < n → (k + j) % n = if k + j < n then k + j else k + j - n := by
    intro j hj
    by_cases h : k + j < n
    · rw [if_pos h, Nat.mod_eq_of_lt h]
    · rw [if_neg h, Nat.mod_eq_sub_mod (by omega), Nat.mod_eq_of_lt (by omega)]
  refine Finset.prod_bij (fun j _ => (k + j) % n) ?_ ?_ ?_ (fun _ _ => rfl)
  · intro j hj
    rw [Finset.mem_Ico] at hj
    rw [Finset.mem_erase, Finset.mem_range, hmod j (by omega)]
    split <;> omega
  · intro i hi j hj heq
    rw [Finset.mem_Ico] at hi hj
    rw [hmod i (by omega), hmod j (by omega)] at heq
    split at heq <;> split at heq <;> omega
  · intro j hj
    rw [Finset.mem_erase, Finset.mem_range] at hj
    by_cases h : k < j
    · refine ⟨j - k, Finset.mem_Ico.mpr (by omega), ?_⟩
      rw [hmod _ (by omega), if_pos (by omega)]
      omega
    · refine ⟨n + j - k, Finset.mem_Ico.mpr (by omega), ?_⟩
      rw [hmod _ (by omega), if_neg (by omega)]
      omega

/-- The quotient of the two products is the Lagrange basis. -/
lemma eval_basis_eq {n k : ℕ} (hk : k < n) (xc : List UInt8) (a : Gf256) :
    (Lagrange.basis (Finset.range n) (place xc) k).eval a =
      productAround n xc a k n * (productAround n xc (place xc k) k n)⁻¹ := by
  rw [Lagrange.basis, eval_prod, productAround, productAround,
    prod_around hk fun j => a - place xc j, prod_around hk fun j => place xc k - place xc j,
    ← Finset.prod_inv_distrib, ← Finset.prod_mul_distrib]
  apply Finset.prod_congr rfl
  intro j _
  rw [Lagrange.basisDivisor, eval_mul, eval_C, eval_sub, eval_X, eval_C, mul_comm]

/-- `hazmat_lagrange_basis` computes the values of the Lagrange basis. -/
lemma hazmatLagrangeBasis_eq_some {n : ℕ} {xc : List UInt8} (hn : n ≤ 16) (hxc : n ≤ xc.length)
    (x : UInt8) :
    ∃ values, hazmatLagrangeBasis n xc x = some values ∧ values.length = n ∧
      ∀ k < n, place values k =
        (Lagrange.basis (Finset.range n) (place xc) k).eval (ofByte x) := by
  obtain ⟨t, ht, hrot⟩ := foldlM_range (rotateStep n) (rotated_zero hn hxc)
    (fun i s hi hs => rotateStep_eq_some hn hi hs)
  have hone : Multiplied n xc x 1 (bitsliceSetall 1, bitsliceSetall 1) := by
    intro k hk
    rw [productAround_one, productAround_one]
    exact ⟨lane_bitsliceSetall 1 (by omega), lane_bitsliceSetall 1 (by omega)⟩
  obtain ⟨s, hs, hmul⟩ := foldlM_range' (basisStep t.2 (bitsliceSetall x)) (n - 1) 1 hone
    (fun i s hi hin hs => basisStep_eq_some hn hrot hi (by omega) hs)
  obtain ⟨values, hvalues, hlen, hlane⟩ := unbitslice_eq_some (32 + 16) (by omega)
    (gf256Mul s.1 (gf256Inv s.2))
  refine ⟨values.take n, ?_, by rw [List.length_take]; omega, ?_⟩
  · rw [hazmatLagrangeBasis, if_pos (by omega)]
    simp only [ht, hs, hvalues, Option.bind_eq_bind, Option.bind_some]
  · intro k hk
    obtain ⟨hnum, hden⟩ := hmul k hk
    have hget : (values.take n).getD k 0 = values.getD k 0 := by
      simp only [List.getD_eq_getElem?_getD, List.getElem?_take]
      rw [if_pos hk]
    rw [place, hget, hlane k (by omega), ofByte_toByte, lane_gf256Mul, lane_gf256Inv,
      eval_basis_eq hk, hnum, hden, show 1 + (n - 1) = n by omega]

/-! ### The sum -/

/-- The block of point `i`: its values, and zeros up to 32 bytes. -/
def block (yl : ℕ) (yij : List (List UInt8)) (i : ℕ) : List UInt8 :=
  yij.getD i [] ++ List.replicate (maxSecretLen - yl) 0

lemma blockOf_eq_some {yl i : ℕ} {yij : List (List UInt8)} (hyl : yl ≤ 32) (hi : i < yij.length)
    (hlen : ∀ yi ∈ yij, yi.length = yl) : blockOf yl yij i = some (block yl yij i) := by
  rw [blockOf, block, List.getElem?_eq_getElem hi, List.getD_eq_getElem _ _ hi]
  exact if_pos ⟨hyl, hlen _ (List.getElem_mem hi)⟩

lemma length_block {yl i : ℕ} {yij : List (List UInt8)} (hyl : yl ≤ 32) (hi : i < yij.length)
    (hlen : ∀ yi ∈ yij, yi.length = yl) : (block yl yij i).length = 32 := by
  rw [block, List.length_append, List.length_replicate, List.getD_eq_getElem _ _ hi,
    hlen _ (List.getElem_mem hi)]
  show yl + (32 - yl) = 32
  omega

/-- Byte `b` of point `i`. -/
def byteAt (yij : List (List UInt8)) (b i : ℕ) : Gf256 := ofByte ((yij.getD i []).getD b 0)

lemma getD_block {yl i b : ℕ} {yij : List (List UInt8)} (hi : i < yij.length)
    (hlen : ∀ yi ∈ yij, yi.length = yl) (hb : b < yl) :
    ofByte ((block yl yij i).getD b 0) = byteAt yij b i := by
  have hyi : (yij.getD i []).length = yl := by
    rw [List.getD_eq_getElem _ _ hi]
    exact hlen _ (List.getElem_mem hi)
  rw [block, byteAt, List.getD_append _ _ _ _ (by omega)]

/-- The sum of the first `i` points' values, each times its basis coefficient. -/
def partialSum (values : List UInt8) (yij : List (List UInt8)) (b i : ℕ) : Gf256 :=
  ∑ j ∈ Finset.range i, place values j * byteAt yij b j

lemma sumStep_eq_some {n yl i : ℕ} {yij : List (List UInt8)} {values : List UInt8} {s : Slice}
    (hyl : yl ≤ 32) (hn : n ≤ yij.length) (hlen : ∀ yi ∈ yij, yi.length = yl)
    (hvalues : values.length = n) (hi : i < n)
    (hs : ∀ b < yl, lane s b = partialSum values yij b i) :
    ∃ s', sumStep ((List.range n).map (block yl yij)) values s i = some s' ∧
      ∀ b < yl, lane s' b = partialSum values yij b (i + 1) := by
  obtain ⟨slice, hslice, hlane⟩ := bitslice_eq_some (x := block yl yij i)
    (by rw [length_block hyl (by omega) hlen])
  refine ⟨gf256Add s (gf256Mul (bitsliceSetall (values.getD i 0)) slice), ?_, ?_⟩
  · have hblock : ((List.range n).map (block yl yij))[i]? = some (block yl yij i) := by
      simp [hi]
    have hcoeff : values[i]? = some (values.getD i 0) := by
      rw [List.getD_eq_getElem _ _ (by omega), List.getElem?_eq_getElem (by omega)]
    rw [sumStep, hblock, hcoeff]
    simp only [Option.bind_eq_bind, Option.bind_some, hslice]
  · intro b hb
    rw [lane_gf256Add, lane_gf256Mul, hs b hb, lane_bitsliceSetall _ (by omega),
      hlane b (by omega), getD_block (by omega) hlen hb, partialSum, partialSum,
      Finset.sum_range_succ, place]

/-- The polynomial through byte `b` of the first `n` points. -/
noncomputable def through (n : ℕ) (xi : List UInt8) (yij : List (List UInt8)) (b : ℕ) : Gf256[X] :=
  Lagrange.interpolate (Finset.range n) (place xi) (byteAt yij b)

/-- For up to 16 points of up to 32 bytes each, `interpolate` does not panic, and its result holds
the values at `x` of the polynomials through the points. -/
theorem interpolate_eq_some (n : ℕ) {yl : ℕ} (xi : List UInt8) (yij : List (List UInt8))
    (hn : n ≤ 16) (hxi : n ≤ xi.length) (hyij : n ≤ yij.length) (hyl : yl ≤ 32)
    (hlen : ∀ yi ∈ yij, yi.length = yl) (x : UInt8) :
    ∃ result, interpolate n xi yl yij x = some result ∧ result.length = yl ∧
      ∀ b < yl, ofByte (result.getD b 0) = (through n xi yij b).eval (ofByte x) := by
  have hblocks : (List.range n).mapM (blockOf yl yij) = some ((List.range n).map (block yl yij)) :=
    mapM_eq_some fun i hi => blockOf_eq_some hyl (by rw [List.mem_range] at hi; omega) hlen
  obtain ⟨values, hvalues, hvlen, hbasis⟩ := hazmatLagrangeBasis_eq_some hn hxi x
  have hzero : ∀ b < yl, lane (bitsliceSetall 0) b = partialSum values yij b 0 := by
    intro b hb
    rw [lane_bitsliceSetall 0 (by omega), partialSum, Finset.range_zero, Finset.sum_empty]
    rfl
  obtain ⟨s, hs, hsum⟩ := foldlM_range
    (sumStep ((List.range n).map (block yl yij)) values) hzero
    (fun i s hi hs => sumStep_eq_some hyl hyij hlen hvlen hi hs)
  obtain ⟨result, hresult, hrlen, hlane⟩ := unbitslice_eq_some 32 (le_refl _) s
  refine ⟨result.take yl, ?_, by rw [List.length_take]; omega, ?_⟩
  · rw [interpolate, hblocks]
    simp only [hvalues, hs, Option.bind_eq_bind, Option.bind_some]
    rw [maxSecretLen, hresult]
    rfl
  · intro b hb
    have hget : (result.take yl).getD b 0 = result.getD b 0 := by
      simp only [List.getD_eq_getElem?_getD, List.getElem?_take]
      rw [if_pos hb]
    rw [hget, hlane b (by omega), ofByte_toByte, hsum b hb, partialSum, through,
      Lagrange.interpolate_apply, eval_finset_sum]
    apply Finset.sum_congr rfl
    intro k hk
    rw [Finset.mem_range] at hk
    rw [eval_mul, eval_C, hbasis k hk, mul_comm]

end Identikey.Shamir
