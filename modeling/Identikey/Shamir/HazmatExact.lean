/-
What the bitsliced arithmetic computes on each of the 32 bytes.

`lane x k` is byte `k` of the slice `x`, as an element of the field with 256 elements.
A function of `hazmat.rs` that combines slices does to every lane what the field does to
its elements; those that fill and read slices put bytes into lanes and take them out.
-/
import Identikey.Lib.Gf256
import Identikey.Shamir.Hazmat
import Mathlib.Data.List.GetD
import Mathlib.Tactic.IntervalCases

namespace Identikey.Shamir

open Lib

/-- Byte `k` of a slice. -/
def lane (x : Slice) (k : ℕ) : Gf256 := .ofCoeffs fun j => (x.getD j 0).toBitVec.getLsbD k

/-- A byte as an element of the field. -/
def ofByte (b : UInt8) : Gf256 := ⟨b.toBitVec⟩

/-- An element of the field as a byte. -/
def toByte (a : Gf256) : UInt8 := ⟨a.bits⟩

@[simp] lemma toByte_ofByte (b : UInt8) : toByte (ofByte b) = b := rfl

@[simp] lemma ofByte_toByte (a : Gf256) : ofByte (toByte a) = a := rfl

lemma ofByte_injective : Function.Injective ofByte := fun _ _ h => congrArg toByte h

lemma coeff_ofByte (b : UInt8) (j : ℕ) : (ofByte b).coeff j = b.toBitVec.getLsbD j := rfl

lemma coeff_lane (x : Slice) (k : ℕ) {j : ℕ} (hj : j < 8) :
    (lane x k).coeff j = x[j].toBitVec.getLsbD k := by
  have hget : x.getD j 0 = x[j] := by simp [Vector.getD, hj]
  rw [lane, Gf256.coeff_ofCoeffs _ hj, hget]

lemma coeff_lane_get (x : Slice) (k : ℕ) (i : Fin 8) :
    (lane x k).coeff i = (x.get i).toBitVec.getLsbD k := coeff_lane x k i.isLt

/-- Two slices have the same bytes in some lanes when the words agree on these bits. -/
lemma lane_eq {x : Slice} {k : ℕ} {a : Gf256}
    (h : ∀ j, (hj : j < 8) → x[j].toBitVec.getLsbD k = a.coeff j) : lane x k = a := by
  apply Gf256.ext_coeff
  intro j hj
  rw [coeff_lane x k hj]
  exact h j hj

/-! ### Sums and products -/

@[simp] lemma lane_gf256Add (a b : Slice) (k : ℕ) :
    lane (gf256Add a b) k = lane a k + lane b k := by
  apply lane_eq
  intro j hj
  rw [Gf256.coeff_add, coeff_lane a k hj, coeff_lane b k hj, ← BitVec.getLsbD_xor]
  simp only [gf256Add, Vector.getElem_zipWith, UInt32.toBitVec_xor]

/-- The next multiple of `a2`, in its place: the words move up by one and the top word is
reduced. -/
def xtimeSlice (a : Slice) : Slice :=
  #v[a.get 7, a.get 0 ^^^ a.get 7, a.get 1, a.get 2 ^^^ a.get 7, a.get 3 ^^^ a.get 7, a.get 4,
    a.get 5, a.get 6]

/-- The lanes of `a` that `w` has. -/
def maskSlice (a : Slice) (w : UInt32) : Slice := a.map fun v => v &&& w

lemma lane_maskSlice (a : Slice) (w : UInt32) (k : ℕ) :
    lane (maskSlice a w) k = Gf256.scale (w.toBitVec.getLsbD k) (lane a k) := by
  apply lane_eq
  intro j hj
  rw [Gf256.coeff_scale, coeff_lane a k hj, Bool.and_comm, ← BitVec.getLsbD_and]
  simp only [maskSlice, Vector.getElem_map, UInt32.toBitVec_and]

lemma lane_xtimeSlice (a : Slice) (k : ℕ) : lane (xtimeSlice a) k = Gf256.xtime (lane a k) := by
  have hcoeff : ∀ b : Gf256, ∀ j < 8, (Gf256.xtime b).coeff j =
      ((decide (j ≠ 0) && b.coeff (j - 1)) ^^ (b.coeff 7 && (0x1b#8).getLsbD j)) := by
    intro b j hj
    rw [Gf256.xtime, Gf256.coeff_add, Gf256.coeff_scale]
    congr 1
    show (b.bits <<< 1).getLsbD j = _
    rw [BitVec.getLsbD_shiftLeft]
    simp [hj, Gf256.coeff]
  apply lane_eq
  intro j hj
  rw [hcoeff _ j hj, coeff_lane a k (by omega : j - 1 < 8), coeff_lane a k (by omega : 7 < 8)]
  have hget : a.get 0 = a[0] ∧ a.get 1 = a[1] ∧ a.get 2 = a[2] ∧ a.get 3 = a[3] ∧
      a.get 4 = a[4] ∧ a.get 5 = a[5] ∧ a.get 6 = a[6] ∧ a.get 7 = a[7] :=
    ⟨rfl, rfl, rfl, rfl, rfl, rfl, rfl, rfl⟩
  interval_cases j <;> simp [xtimeSlice, hget]

/-- `gf256_mul` adds up the multiples of `a` by the powers of `X` in `b`, lane by lane. -/
lemma gf256Mul_eq (a b : Slice) :
    gf256Mul a b =
      let a1 := xtimeSlice a
      let a2 := xtimeSlice a1
      let a3 := xtimeSlice a2
      let a4 := xtimeSlice a3
      let a5 := xtimeSlice a4
      let a6 := xtimeSlice a5
      let a7 := xtimeSlice a6
      gf256Add (gf256Add (gf256Add (gf256Add (gf256Add (gf256Add (gf256Add
        (maskSlice a (b.get 0)) (maskSlice a1 (b.get 1))) (maskSlice a2 (b.get 2)))
        (maskSlice a3 (b.get 3))) (maskSlice a4 (b.get 4))) (maskSlice a5 (b.get 5)))
        (maskSlice a6 (b.get 6))) (maskSlice a7 (b.get 7)) := by
  apply Vector.ext
  intro j hj
  simp only [gf256Add, maskSlice, Vector.getElem_zipWith, Vector.getElem_map]
  interval_cases j <;> rfl

@[simp] lemma lane_gf256Mul (a b : Slice) (k : ℕ) :
    lane (gf256Mul a b) k = lane a k * lane b k := by
  rw [gf256Mul_eq, Gf256.mul_def]
  simp only [lane_gf256Add, lane_maskSlice, lane_xtimeSlice, Gf256.mulFrom]
  rw [show (lane b k).coeff 0 = _ from coeff_lane_get b k 0,
    show (lane b k).coeff 1 = _ from coeff_lane_get b k 1,
    show (lane b k).coeff 2 = _ from coeff_lane_get b k 2,
    show (lane b k).coeff 3 = _ from coeff_lane_get b k 3,
    show (lane b k).coeff 4 = _ from coeff_lane_get b k 4,
    show (lane b k).coeff 5 = _ from coeff_lane_get b k 5,
    show (lane b k).coeff 6 = _ from coeff_lane_get b k 6,
    show (lane b k).coeff 7 = _ from coeff_lane_get b k 7, add_zero]
  abel

/-- The square by its coefficients: they move to the even powers, and those from `X ^ 8` on are
reduced. -/
def squareCoeffs (a : Gf256) : Vector Bool 8 :=
  let r8 := a.coeff 4 ^^ a.coeff 6
  let r10 := a.coeff 5 ^^ a.coeff 7
  #v[a.coeff 0 ^^ r8, a.coeff 7 ^^ r8, (a.coeff 1 ^^ r10) ^^ a.coeff 7, r10 ^^ r8,
    ((a.coeff 2 ^^ a.coeff 6) ^^ a.coeff 7) ^^ r8, (a.coeff 6 ^^ r10) ^^ a.coeff 7,
    (a.coeff 3 ^^ a.coeff 7) ^^ r10, a.coeff 7 ^^ a.coeff 6]

lemma coeff_mul_self (a : Gf256) (j : Fin 8) : (a * a).coeff j = (squareCoeffs a)[j] := by
  have h : ∀ (b : BitVec 8) (j : Fin 8),
      ((⟨b⟩ : Gf256) * ⟨b⟩).coeff j = (squareCoeffs ⟨b⟩)[j] := by decide +kernel
  exact h a.bits j

@[simp] lemma lane_gf256Square (x : Slice) (k : ℕ) :
    lane (gf256Square x) k = lane x k * lane x k := by
  apply lane_eq
  intro j hj
  rw [show (lane x k * lane x k).coeff j = _ from coeff_mul_self (lane x k) ⟨j, hj⟩]
  simp only [squareCoeffs, Fin.getElem_fin,
    coeff_lane x k (by omega : 0 < 8), coeff_lane x k (by omega : 1 < 8),
    coeff_lane x k (by omega : 2 < 8), coeff_lane x k (by omega : 3 < 8),
    coeff_lane x k (by omega : 4 < 8), coeff_lane x k (by omega : 5 < 8),
    coeff_lane x k (by omega : 6 < 8), coeff_lane x k (by omega : 7 < 8)]
  interval_cases j <;> simp [gf256Square]

/-- The exponents along the way are 2, 4, 8, 9, 16, 25, 50, 100, 200, 250 and 254. -/
@[simp] lemma lane_gf256Inv (x : Slice) (k : ℕ) : lane (gf256Inv x) k = (lane x k)⁻¹ := by
  rw [Gf256.inv_eq_pow]
  simp only [gf256Inv, lane_gf256Mul, lane_gf256Square]
  ring

/-! ### Filling and reading -/

lemma takeBit_eq (cur : UInt8) {i : ℕ} (hi : i < 8) :
    takeBit cur i = if (ofByte cur).coeff i then 1 else 0 := by
  have h : ∀ b : BitVec 8, ∀ i : Fin 8,
      takeBit ⟨b⟩ i = if (ofByte ⟨b⟩).coeff i then 1 else 0 := by decide +kernel
  exact h cur.toBitVec ⟨i, hi⟩

lemma getLsbD_one_shiftLeft {i k : ℕ} (hi : i < 32) (hk : k < 32) :
    ((1 : UInt32) <<< UInt32.ofNat i).toBitVec.getLsbD k = decide (k = i) := by
  have h : ∀ i k : Fin 32,
      ((1 : UInt32) <<< UInt32.ofNat i).toBitVec.getLsbD k = decide (k.val = i.val) := by
    decide +kernel
  exact h ⟨i, hi⟩ ⟨k, hk⟩

/-- A turn of the outer loop of `bitslice` adds the byte to its lane and leaves the others. -/
lemma getLsbD_bitsliceByte (r : Slice) (cur : UInt8) {i j k : ℕ} (hi : i < 32) (hj : j < 8)
    (hk : k < 32) :
    (bitsliceByte r cur i)[j].toBitVec.getLsbD k =
      (r[j].toBitVec.getLsbD k || (decide (k = i) && (ofByte cur).coeff j)) := by
  simp only [bitsliceByte, Vector.getElem_mapFinIdx, UInt32.toBitVec_or, BitVec.getLsbD_or]
  congr 1
  rw [takeBit_eq cur hj]
  cases (ofByte cur).coeff j with
  | false => simp
  | true => simpa using getLsbD_one_shiftLeft hi hk

/-- The outer loop of `bitslice`: the bytes `l` go into the lanes from `i` on. -/
lemma lane_foldl_bitsliceByte (l : List UInt8) {i k : ℕ} (hl : i + l.length ≤ 32) (hk : k < 32)
    (r : Slice) (hr : i ≤ k → lane r k = 0) :
    lane ((l.zipIdx i).foldl (fun r e => bitsliceByte r e.1 e.2) r) k =
      if k < i then lane r k else ofByte (l.getD (k - i) 0) := by
  induction l generalizing i r with
  | nil =>
    by_cases hki : k < i
    · rw [if_pos hki]
      rfl
    · rw [if_neg hki]
      exact hr (by omega)
  | cons b l ih =>
    rw [List.length_cons] at hl
    have hstep : lane (bitsliceByte r b i) k = if k = i then ofByte b else lane r k := by
      apply lane_eq
      intro j hj
      rw [getLsbD_bitsliceByte r b (by omega) hj hk, ← coeff_lane r k hj]
      by_cases hki : k = i
      · have hzero : (lane r i).coeff j = false := by
          rw [← hki, hr (by omega), Gf256.coeff_zero]
        simp [hki, hzero]
      · simp [hki]
    have hrest : i + 1 ≤ k → lane (bitsliceByte r b i) k = 0 := by
      intro hle
      rw [hstep, if_neg (by omega)]
      exact hr (by omega)
    rw [List.zipIdx_cons, List.foldl_cons, ih (by omega) _ hrest, hstep]
    rcases lt_trichotomy k i with hlt | rfl | hgt
    · rw [if_pos (by omega), if_neg (by omega), if_pos hlt]
    · rw [if_pos (by omega), if_pos rfl, if_neg (by omega), Nat.sub_self, List.getD_cons_zero]
    · rw [if_neg (by omega), if_neg (by omega), show k - i = (k - (i + 1)) + 1 by omega,
        List.getD_cons_succ]

lemma lane_replicate (k : ℕ) : lane (.replicate 8 0) k = 0 := by
  apply lane_eq
  intro j hj
  simp

/-- `bitslice` puts byte `k` into lane `k`. -/
lemma bitslice_eq_some {x : List UInt8} (hx : 32 ≤ x.length) :
    ∃ r, bitslice x = some r ∧ ∀ k < 32, lane r k = ofByte (x.getD k 0) := by
  refine ⟨_, if_pos hx, ?_⟩
  intro k hk
  have hlen : (x.take 32).length = 32 := by rw [List.length_take]; omega
  rw [lane_foldl_bitsliceByte _ (by omega) hk _ (fun _ => lane_replicate k), if_neg (by omega),
    Nat.sub_zero]
  simp [List.getD_eq_getElem?_getD, hk]

lemma getElem_bitsliceSetall (x : UInt8) (j : Fin 8) :
    (bitsliceSetall x)[j] = if (ofByte x).coeff j then 0xffffffff else 0 := by
  have h : ∀ (b : BitVec 8) (j : Fin 8),
      (bitsliceSetall ⟨b⟩)[j] = if (ofByte ⟨b⟩).coeff j then 0xffffffff else 0 := by
    decide +kernel
  exact h x.toBitVec j

/-- `bitslice_setall` puts the byte into every lane. -/
lemma lane_bitsliceSetall (x : UInt8) {k : ℕ} (hk : k < 32) :
    lane (bitsliceSetall x) k = ofByte x := by
  have hbit : ∀ k : Fin 32, (0xffffffff : UInt32).toBitVec.getLsbD k = true := by decide
  apply lane_eq
  intro j hj
  rw [show (bitsliceSetall x)[j] = _ from getElem_bitsliceSetall x ⟨j, hj⟩]
  cases (ofByte x).coeff j with
  | false => simp
  | true => exact hbit ⟨k, hk⟩

lemma and_shiftRight_eq (cur : UInt32) {k : ℕ} (hk : k < 32) :
    (cur &&& (1 <<< UInt32.ofNat k)) >>> UInt32.ofNat k =
      if cur.toBitVec.getLsbD k then 1 else 0 := by
  have hshift : ((UInt32.ofNat k).toBitVec % 32).toNat = k := by
    simp only [UInt32.toBitVec_ofNat', BitVec.toNat_umod, BitVec.toNat_ofNat]
    show k % 2 ^ 32 % 32 = k
    omega
  apply UInt32.toBitVec_inj.mp
  apply BitVec.eq_of_getLsbD_eq
  intro i hi
  rw [UInt32.toBitVec_shiftRight, BitVec.ushiftRight_eq', hshift, BitVec.getLsbD_ushiftRight,
    UInt32.toBitVec_and, BitVec.getLsbD_and]
  by_cases hki : k + i < 32
  · rw [getLsbD_one_shiftLeft hk hki]
    by_cases hzero : i = 0
    · subst hzero
      cases cur.toBitVec.getLsbD k <;> simp
    · cases cur.toBitVec.getLsbD k <;> simp [hzero, hi]
  · rw [BitVec.getLsbD_of_ge _ _ (by omega : 32 ≤ k + i)]
    have hzero : i ≠ 0 := by omega
    cases cur.toBitVec.getLsbD k <;> simp [hzero, hi]

/-- The bit of a word that `unbitslice` takes out is the one bit of the byte that it sets. -/
lemma coeff_takeLane (cur : UInt32) {k i j : ℕ} (hk : k < 32) (hi : i < 8) (hj : j < 8) :
    (ofByte (takeLane cur k i)).coeff j = (decide (j = i) && cur.toBitVec.getLsbD k) := by
  have hone : ∀ i j : Fin 8,
      (ofByte ((1 : UInt32) <<< UInt32.ofNat i).toUInt8).coeff j = decide (j.val = i.val) := by
    decide +kernel
  rw [takeLane, and_shiftRight_eq cur hk]
  cases cur.toBitVec.getLsbD k with
  | false =>
    rw [Bool.and_false, if_neg (by simp), UInt32.zero_shiftLeft]
    exact Gf256.coeff_zero j
  | true =>
    rw [Bool.and_true]
    exact hone ⟨i, hi⟩ ⟨j, hj⟩

lemma length_unbitsliceWord (r : List UInt8) (cur : UInt32) (i : ℕ) :
    (unbitsliceWord r cur i).length = r.length := List.length_mapIdx

/-- A turn of the outer loop of `unbitslice` adds its bit to the bytes of the lanes. -/
lemma coeff_unbitsliceWord {r : List UInt8} (hr : 32 ≤ r.length) (cur : UInt32) {k i j : ℕ}
    (hk : k < 32) (hi : i < 8) (hj : j < 8) :
    (ofByte ((unbitsliceWord r cur i).getD k 0)).coeff j =
      ((ofByte (r.getD k 0)).coeff j || (decide (j = i) && cur.toBitVec.getLsbD k)) := by
  have hget : (unbitsliceWord r cur i).getD k 0 = r.getD k 0 ||| takeLane cur k i := by
    rw [List.getD_eq_getElem _ _ (by rw [length_unbitsliceWord]; omega),
      List.getD_eq_getElem _ _ (by omega)]
    simp only [unbitsliceWord, List.getElem_mapIdx, if_pos hk]
  rw [hget, ← coeff_takeLane cur hk hi hj, coeff_ofByte, UInt8.toBitVec_or, BitVec.getLsbD_or]
  rfl

/-- The outer loop of `unbitslice`: the words `l` give the bits from `i` on. -/
lemma coeff_foldl_unbitsliceWord (l : List UInt32) {i k j : ℕ} (hl : i + l.length ≤ 8) (hk : k < 32)
    (hj : j < 8) {r : List UInt8} (hr : 32 ≤ r.length) :
    (ofByte (((l.zipIdx i).foldl (fun r e => unbitsliceWord r e.1 e.2) r).getD k 0)).coeff j =
      ((ofByte (r.getD k 0)).coeff j ||
        (decide (i ≤ j) && (l.getD (j - i) 0).toBitVec.getLsbD k)) := by
  induction l generalizing i r with
  | nil => simp
  | cons w l ih =>
    rw [List.length_cons] at hl
    rw [List.zipIdx_cons, List.foldl_cons, ih (by omega) (by rw [length_unbitsliceWord]; exact hr),
      coeff_unbitsliceWord hr w hk (by omega) hj, Bool.or_assoc]
    congr 1
    rcases lt_trichotomy j i with hlt | rfl | hgt
    · simp [show ¬ i ≤ j by omega, show ¬ i + 1 ≤ j by omega, show j ≠ i by omega]
    · simp
    · rw [show j - i = (j - (i + 1)) + 1 by omega, List.getD_cons_succ]
      simp [show i ≤ j by omega, show i + 1 ≤ j by omega, show j ≠ i by omega]

lemma length_foldl_unbitsliceWord (l : List (UInt32 × ℕ)) (r : List UInt8) :
    (l.foldl (fun r e => unbitsliceWord r e.1 e.2) r).length = r.length := by
  induction l generalizing r with
  | nil => rfl
  | cons e l ih => rw [List.foldl_cons, ih, length_unbitsliceWord]

/-- `unbitslice` takes byte `k` out of lane `k`. -/
lemma unbitslice_eq_some (len : ℕ) (hlen : 32 ≤ len) (x : Slice) :
    ∃ r, unbitslice len x = some r ∧ r.length = len ∧
      ∀ k < 32, r.getD k 0 = toByte (lane x k) := by
  refine ⟨_, if_pos hlen, by rw [length_foldl_unbitsliceWord, List.length_replicate], ?_⟩
  intro k hk
  apply ofByte_injective
  rw [ofByte_toByte]
  symm
  apply lane_eq
  intro j hj
  have hl : 0 + x.toList.length ≤ 8 := by rw [Vector.length_toList]
  rw [coeff_foldl_unbitsliceWord x.toList hl hk hj (by rw [List.length_replicate]; exact hlen)]
  have hzero : (ofByte ((List.replicate len (0 : UInt8)).getD k 0)).coeff j = false := by
    rw [List.getD_replicate _ (by omega)]
    exact Gf256.coeff_zero j
  rw [hzero, List.getD_eq_getElem _ _ (by rw [Vector.length_toList]; omega)]
  simp

end Identikey.Shamir
