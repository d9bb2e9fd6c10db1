/-
Interpolation of polynomials through byte strings (`interpolate.rs`).

The Lagrange basis is computed for all points at once: slice `i` holds the points rotated
by `i`, so that the products over the other points are taken lane by lane.  An index out
of range is a panic, which is a `none`.
-/
import Identikey.Shamir.HazmatExact

namespace Identikey.Shamir

/-- `MAX_SECRET_LEN`. -/
def maxSecretLen : ℕ := 32

/-- A turn of the first loop of `hazmat_lagrange_basis`, on `xx` and the slices of `lxi` so far. -/
def rotateStep (n : ℕ) (s : List UInt8 × List Slice) (i : ℕ) :
    Option (List UInt8 × List Slice) := do
  let slice ← bitslice (s.1.drop i)
  let xi ← s.1[i]?
  if i + n < s.1.length then some (s.1.set (i + n) xi, s.2 ++ [slice]) else none

/-- A turn of the second loop of `hazmat_lagrange_basis`, on the numerators and denominators. -/
def basisStep (lxi : List Slice) (xSlice : Slice) (s : Slice × Slice) (i : ℕ) :
    Option (Slice × Slice) := do
  let xi ← lxi[i]?
  let x0 ← lxi[0]?
  some (gf256Mul s.1 (gf256Add xSlice xi), gf256Mul s.2 (gf256Add x0 xi))

/-- `hazmat_lagrange_basis`. -/
def hazmatLagrangeBasis (n : ℕ) (xc : List UInt8) (x : UInt8) : Option (List UInt8) := do
  if n ≤ 32 + 16 ∧ n ≤ xc.length then
    let xx := xc.take n ++ List.replicate (32 + 16 - n) 0
    let (_, lxi) ← (List.range n).foldlM (rotateStep n) (xx, [])
    let xSlice := bitsliceSetall x
    let (numerator, denominator) ← (List.range' 1 (n - 1)).foldlM (basisStep lxi xSlice)
      (bitsliceSetall 1, bitsliceSetall 1)
    let values ← unbitslice (32 + 16) (gf256Mul numerator (gf256Inv denominator))
    some (values.take n)
  else none

/-- A point's values as `interpolate` copies them into a block of 32 bytes. -/
def blockOf (yl : ℕ) (yij : List (List UInt8)) (i : ℕ) : Option (List UInt8) := do
  let yi ← yij[i]?
  if yl ≤ maxSecretLen ∧ yi.length = yl then
    some (yi ++ List.replicate (maxSecretLen - yl) 0)
  else none

/-- A turn of the loop of `interpolate`: the values of a point, times its basis coefficient. -/
def sumStep (y : List (List UInt8)) (lagrange : List UInt8) (result : Slice) (i : ℕ) :
    Option Slice := do
  let yi ← y[i]?
  let ySlice ← bitslice yi
  let coeff ← lagrange[i]?
  some (gf256Add result (gf256Mul (bitsliceSetall coeff) ySlice))

/-- `interpolate`: the values at `x` of the polynomials through the first `n` points. -/
def interpolate (n : ℕ) (xi : List UInt8) (yl : ℕ) (yij : List (List UInt8)) (x : UInt8) :
    Option (List UInt8) := do
  let y ← (List.range n).mapM (blockOf yl yij)
  let lagrange ← hazmatLagrangeBasis n xi x
  let result ← (List.range n).foldlM (sumStep y lagrange) (bitsliceSetall 0)
  let values ← unbitslice maxSecretLen result
  some (values.take yl)

end Identikey.Shamir
