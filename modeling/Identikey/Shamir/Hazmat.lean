/-
Bitsliced arithmetic on 32 bytes at once (`hazmat.rs`).

Word `j` of a slice holds bit `j` of each of its 32 bytes: byte `k` is spread over bit `k`
of the eight words.  The functions below are the ones of the source, with what they write
to returned; an assertion that fails is a `none`.
-/
import Mathlib.Data.Nat.Notation
import Mathlib.Tactic.Lemma

namespace Identikey.Shamir

/-- `[u32; 8]`. -/
abbrev Slice := Vector UInt32 8

/-- Bit `i` of a byte as `bitslice` takes it out. -/
def takeBit (cur : UInt8) (i : ℕ) : UInt32 :=
  (cur.toUInt32 &&& (1 <<< UInt32.ofNat i)) >>> UInt32.ofNat i

/-- The body of the outer loop of `bitslice`, for the byte `cur` at `arrIdx`. -/
def bitsliceByte (r : Slice) (cur : UInt8) (arrIdx : ℕ) : Slice :=
  r.mapFinIdx fun bitIdx w _ => w ||| takeBit cur bitIdx <<< UInt32.ofNat arrIdx

/-- `bitslice`: the first 32 bytes of `x`. -/
def bitslice (x : List UInt8) : Option Slice :=
  if 32 ≤ x.length then
    some ((x.take 32).zipIdx.foldl (fun r e => bitsliceByte r e.1 e.2) (.replicate 8 0))
  else none

/-- Bit `arrIdx` of a word as `unbitslice` takes it out, for bit `bitIdx` of the byte. -/
def takeLane (cur : UInt32) (arrIdx bitIdx : ℕ) : UInt8 :=
  (((cur &&& (1 <<< UInt32.ofNat arrIdx)) >>> UInt32.ofNat arrIdx) <<< UInt32.ofNat bitIdx).toUInt8

/-- The body of the outer loop of `unbitslice`, for the word `cur` at `bitIdx`. -/
def unbitsliceWord (r : List UInt8) (cur : UInt32) (bitIdx : ℕ) : List UInt8 :=
  r.mapIdx fun arrIdx b => if arrIdx < 32 then b ||| takeLane cur arrIdx bitIdx else b

/-- `unbitslice`, into `len` bytes. -/
def unbitslice (len : ℕ) (x : Slice) : Option (List UInt8) :=
  if 32 ≤ len then
    some (x.toList.zipIdx.foldl (fun r e => unbitsliceWord r e.1 e.2) (.replicate len 0))
  else none

/-- `bitslice_setall`: all 32 bytes are `x`. -/
def bitsliceSetall (x : UInt8) : Slice :=
  .ofFn fun idx =>
    let bit := (x.toUInt32 &&& (1 <<< UInt32.ofNat idx)) <<< UInt32.ofNat (31 - idx)
    (bit.toInt32 >>> 31).toUInt32

/-- `gf256_add`. -/
def gf256Add (r x : Slice) : Slice := r.zipWith (fun r x => r ^^^ x) x

/-- `gf256_mul`: the steps of the source, each a multiple of the rotated `a2` added up and the next
rotation reduced. -/
def gf256Mul (a b : Slice) : Slice :=
  let a0 := a[0]; let a1 := a[1]; let a2 := a[2]; let a3 := a[3]
  let a4 := a[4]; let a5 := a[5]; let a6 := a[6]; let a7 := a[7]
  let b0 := b[0]; let b1 := b[1]; let b2 := b[2]; let b3 := b[3]
  let b4 := b[4]; let b5 := b[5]; let b6 := b[6]; let b7 := b[7]
  let r0 := a0 &&& b0; let r1 := a1 &&& b0; let r2 := a2 &&& b0
  let r3 := a3 &&& b0; let r4 := a4 &&& b0; let r5 := a5 &&& b0
  let r6 := a6 &&& b0; let r7 := a7 &&& b0
  let a0 := a0 ^^^ a7; let a2 := a2 ^^^ a7; let a3 := a3 ^^^ a7
  let r0 := r0 ^^^ (a7 &&& b1); let r1 := r1 ^^^ (a0 &&& b1); let r2 := r2 ^^^ (a1 &&& b1)
  let r3 := r3 ^^^ (a2 &&& b1); let r4 := r4 ^^^ (a3 &&& b1); let r5 := r5 ^^^ (a4 &&& b1)
  let r6 := r6 ^^^ (a5 &&& b1); let r7 := r7 ^^^ (a6 &&& b1)
  let a7 := a7 ^^^ a6; let a1 := a1 ^^^ a6; let a2 := a2 ^^^ a6
  let r0 := r0 ^^^ (a6 &&& b2); let r1 := r1 ^^^ (a7 &&& b2); let r2 := r2 ^^^ (a0 &&& b2)
  let r3 := r3 ^^^ (a1 &&& b2); let r4 := r4 ^^^ (a2 &&& b2); let r5 := r5 ^^^ (a3 &&& b2)
  let r6 := r6 ^^^ (a4 &&& b2); let r7 := r7 ^^^ (a5 &&& b2)
  let a6 := a6 ^^^ a5; let a0 := a0 ^^^ a5; let a1 := a1 ^^^ a5
  let r0 := r0 ^^^ (a5 &&& b3); let r1 := r1 ^^^ (a6 &&& b3); let r2 := r2 ^^^ (a7 &&& b3)
  let r3 := r3 ^^^ (a0 &&& b3); let r4 := r4 ^^^ (a1 &&& b3); let r5 := r5 ^^^ (a2 &&& b3)
  let r6 := r6 ^^^ (a3 &&& b3); let r7 := r7 ^^^ (a4 &&& b3)
  let a5 := a5 ^^^ a4; let a7 := a7 ^^^ a4; let a0 := a0 ^^^ a4
  let r0 := r0 ^^^ (a4 &&& b4); let r1 := r1 ^^^ (a5 &&& b4); let r2 := r2 ^^^ (a6 &&& b4)
  let r3 := r3 ^^^ (a7 &&& b4); let r4 := r4 ^^^ (a0 &&& b4); let r5 := r5 ^^^ (a1 &&& b4)
  let r6 := r6 ^^^ (a2 &&& b4); let r7 := r7 ^^^ (a3 &&& b4)
  let a4 := a4 ^^^ a3; let a6 := a6 ^^^ a3; let a7 := a7 ^^^ a3
  let r0 := r0 ^^^ (a3 &&& b5); let r1 := r1 ^^^ (a4 &&& b5); let r2 := r2 ^^^ (a5 &&& b5)
  let r3 := r3 ^^^ (a6 &&& b5); let r4 := r4 ^^^ (a7 &&& b5); let r5 := r5 ^^^ (a0 &&& b5)
  let r6 := r6 ^^^ (a1 &&& b5); let r7 := r7 ^^^ (a2 &&& b5)
  let a3 := a3 ^^^ a2; let a5 := a5 ^^^ a2; let a6 := a6 ^^^ a2
  let r0 := r0 ^^^ (a2 &&& b6); let r1 := r1 ^^^ (a3 &&& b6); let r2 := r2 ^^^ (a4 &&& b6)
  let r3 := r3 ^^^ (a5 &&& b6); let r4 := r4 ^^^ (a6 &&& b6); let r5 := r5 ^^^ (a7 &&& b6)
  let r6 := r6 ^^^ (a0 &&& b6); let r7 := r7 ^^^ (a1 &&& b6)
  let a2 := a2 ^^^ a1; let a4 := a4 ^^^ a1; let a5 := a5 ^^^ a1
  #v[r0 ^^^ (a1 &&& b7), r1 ^^^ (a2 &&& b7), r2 ^^^ (a3 &&& b7), r3 ^^^ (a4 &&& b7),
    r4 ^^^ (a5 &&& b7), r5 ^^^ (a6 &&& b7), r6 ^^^ (a7 &&& b7), r7 ^^^ (a0 &&& b7)]

/-- `gf256_square`. -/
def gf256Square (x : Slice) : Slice :=
  let r14 := x[7]; let r12 := x[6]; let r10 := x[5]; let r8 := x[4]
  let r6 := x[3]; let r4 := x[2]; let r2 := x[1]; let r0 := x[0]
  let r7 := r14; let r6 := r6 ^^^ r14; let r10 := r10 ^^^ r14
  let r4 := r4 ^^^ r12; let r5 := r12; let r7 := r7 ^^^ r12; let r8 := r8 ^^^ r12
  let r2 := r2 ^^^ r10; let r3 := r10; let r5 := r5 ^^^ r10; let r6 := r6 ^^^ r10
  let r1 := r14; let r2 := r2 ^^^ r14; let r4 := r4 ^^^ r14; let r5 := r5 ^^^ r14
  let r0 := r0 ^^^ r8; let r1 := r1 ^^^ r8; let r3 := r3 ^^^ r8; let r4 := r4 ^^^ r8
  #v[r0, r1, r2, r3, r4, r5, r6, r7]

/-- `gf256_inv`. -/
def gf256Inv (x : Slice) : Slice :=
  let y := gf256Square x
  let y := gf256Square y
  let r := gf256Square y
  let z := gf256Mul r x
  let r := gf256Square r
  let r := gf256Mul r z
  let r := gf256Square r
  let z := gf256Square r
  let z := gf256Square z
  let r := gf256Mul r z
  gf256Mul r y

end Identikey.Shamir
