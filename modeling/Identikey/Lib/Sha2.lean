/-
SHA-256, after FIPS 180-4.

A message is a bit string.  It is padded to a multiple of 512 bits; the message schedule of
a block, its working variables and the hash value are recursions over the word, the round
and the block; and the constants are fractional parts of roots of the first primes.
Section numbers are those of the standard.
-/
import Mathlib.Data.Nat.Find
import Mathlib.Data.Nat.Prime.Defs
import Mathlib.Order.ConditionallyCompleteLattice.Basic
import Mathlib.Order.Lattice.Nat
import Identikey.Lib.Bits

namespace Identikey.Lib.Sha2

abbrev Word := BitVec 32

/-! ### Functions (4.1.2) -/

def Ch (x y z : Word) : Word := (x &&& y) ^^^ (~~~x &&& z)

def Maj (x y z : Word) : Word := (x &&& y) ^^^ (x &&& z) ^^^ (y &&& z)

def bigSigma0 (x : Word) : Word := x.rotateRight 2 ^^^ x.rotateRight 13 ^^^ x.rotateRight 22

def bigSigma1 (x : Word) : Word := x.rotateRight 6 ^^^ x.rotateRight 11 ^^^ x.rotateRight 25

def smallSigma0 (x : Word) : Word := x.rotateRight 7 ^^^ x.rotateRight 18 ^^^ x >>> 3

def smallSigma1 (x : Word) : Word := x.rotateRight 17 ^^^ x.rotateRight 19 ^^^ x >>> 10

/-! ### Constants (4.2.2, 5.3.3) -/

/-- The `d`-th root of `n`, rounded down. -/
def floorRoot (d n : ℕ) : ℕ := Nat.findGreatest (fun r => r ^ d ≤ n) n

/-- The first 32 bits of the fractional part of the `d`-th root of `n`. -/
def rootFraction (d n : ℕ) : Word := BitVec.ofNat 32 (floorRoot d (n * 2 ^ (32 * d)))

/-- The first sixty-four primes. -/
def firstPrimes : List ℕ := (List.range 312).filter Nat.Prime

def K (t : ℕ) : Word := rootFraction 3 (firstPrimes.getD t 0)

/-- Eight words: a hash value, or the working variables. -/
@[ext]
structure Registers where
  a : Word
  b : Word
  c : Word
  d : Word
  e : Word
  f : Word
  g : Word
  h : Word

/-- The initial hash value. -/
def initial : Registers :=
  let root := fun j => rootFraction 2 (firstPrimes.getD j 0)
  { a := root 0, b := root 1, c := root 2, d := root 3, e := root 4, f := root 5, g := root 6,
    h := root 7 }

/-! ### Padding and parsing (5.1.1, 5.2.1) -/

/-- The least number of zeros that leaves 64 bits of the last block. -/
noncomputable def zeros (len : ℕ) : ℕ := sInf {k | (len + 1 + k) % 512 = 448}

/-- The padded message: a one, zeros, and the length. -/
noncomputable def pad (message : List Bool) : List Bool :=
  message ++ true :: (List.replicate (zeros message.length) false ++ toBits 64 message.length)

/-- Word `t` of block `i`. -/
def wordAt (padded : List Bool) (i t : ℕ) : Word :=
  BitVec.ofNat 32 (ofBits ((padded.drop (512 * i + 32 * t)).take 32))

/-! ### The hash (6.2.2) -/

/-- The message schedule of a block, by its words. -/
def schedule (M : ℕ → Word) (t : ℕ) : Word :=
  if _h : t < 16 then M t
  else smallSigma1 (schedule M (t - 2)) + schedule M (t - 7) + smallSigma0 (schedule M (t - 15)) +
    schedule M (t - 16)

/-- Round `t` on the working variables. -/
def round (W : ℕ → Word) (t : ℕ) (s : Registers) : Registers :=
  let T1 := s.h + bigSigma1 s.e + Ch s.e s.f s.g + K t + W t
  let T2 := bigSigma0 s.a + Maj s.a s.b s.c
  { a := T1 + T2, b := s.a, c := s.b, d := s.c, e := s.d + T1, f := s.e, g := s.f, h := s.g }

/-- The working variables before round `t`. -/
def working (W : ℕ → Word) (H : Registers) : ℕ → Registers
  | 0 => H
  | t + 1 => round W t (working W H t)

/-- The next hash value. -/
def compress (M : ℕ → Word) (H : Registers) : Registers :=
  let s := working (schedule M) H 64
  { a := s.a + H.a, b := s.b + H.b, c := s.c + H.c, d := s.d + H.d,
    e := s.e + H.e, f := s.f + H.f, g := s.g + H.g, h := s.h + H.h }

/-- The hash value before block `i`. -/
def hashValue (padded : List Bool) : ℕ → Registers
  | 0 => initial
  | i + 1 => compress (wordAt padded i) (hashValue padded i)

/-- The words of a hash value, one after the other. -/
def Registers.toBits (H : Registers) : List Bool :=
  [H.a, H.b, H.c, H.d, H.e, H.f, H.g, H.h].flatMap fun w => Lib.toBits 32 w.toNat

/-- The message digest. -/
noncomputable def sha256 (message : List Bool) : List Bool :=
  (hashValue (pad message) ((pad message).length / 512)).toBits

/-! ### Equations -/

lemma floorRoot_eq {d n r : ℕ} (hd : d ≠ 0) (h : r ^ d ≤ n) (h' : n < (r + 1) ^ d) :
    floorRoot d n = r := by
  rw [floorRoot, Nat.findGreatest_eq_iff]
  refine ⟨(Nat.le_self_pow hd r).trans h, fun _ => h, ?_⟩
  intro k hk _ hle
  have hpow : (r + 1) ^ d ≤ k ^ d := Nat.pow_le_pow_left hk d
  omega

/-- A word is the fraction of a root if it is so with some whole part. -/
lemma rootFraction_eq {d n whole : ℕ} {w : Word} (hd : d ≠ 0)
    (h : (whole * 2 ^ 32 + w.toNat) ^ d ≤ n * 2 ^ (32 * d))
    (h' : n * 2 ^ (32 * d) < (whole * 2 ^ 32 + w.toNat + 1) ^ d) : rootFraction d n = w := by
  apply BitVec.eq_of_toNat_eq
  rw [rootFraction, floorRoot_eq hd h h', BitVec.toNat_ofNat, Nat.mul_add_mod',
    Nat.mod_eq_of_lt w.isLt]

/-- A number below `18 ^ 2` is tested by the divisors below 18. -/
lemma prime_iff_of_lt {n : ℕ} (hn : n < 18 ^ 2) :
    n.Prime ↔ 2 ≤ n ∧ ∀ m < 18, 2 ≤ m → m ∣ n → m = n := by
  constructor
  · intro hprime
    refine ⟨hprime.two_le, fun m _ hm hdvd => ?_⟩
    exact ((Nat.dvd_prime hprime).mp hdvd).resolve_left (by omega)
  · rintro ⟨hn2, h⟩
    refine Nat.prime_def_le_sqrt.mpr ⟨hn2, fun m hm2 hsqrt hdvd => ?_⟩
    have hsq : m * m ≤ n := Nat.le_sqrt.mp hsqrt
    have hm : m < 18 := by
      by_contra hge
      have hmul : 18 * 18 ≤ m * m := Nat.mul_le_mul (by omega) (by omega)
      omega
    have hmul : 2 * m ≤ m * m := Nat.mul_le_mul_right m hm2
    have hmn := h m hm hm2 hdvd
    omega

lemma firstPrimes_eq : firstPrimes =
    [2, 3, 5, 7, 11, 13, 17, 19, 23, 29, 31, 37, 41, 43, 47, 53, 59, 61, 67, 71, 73, 79, 83, 89, 97,
      101, 103, 107, 109, 113, 127, 131, 137, 139, 149, 151, 157, 163, 167, 173, 179, 181, 191, 193,
      197, 199, 211, 223, 227, 229, 233, 239, 241, 251, 257, 263, 269, 271, 277, 281, 283, 293, 307,
      311] := by
  have htest : firstPrimes = (List.range 312).filter fun n =>
      decide (2 ≤ n ∧ ∀ m < 18, 2 ≤ m → m ∣ n → m = n) := by
    refine List.filter_congr fun n hn => ?_
    have hlt : n < 18 ^ 2 := (List.mem_range.mp hn).trans (by decide)
    exact decide_eq_decide.mpr (prime_iff_of_lt hlt)
  rw [htest]
  decide +kernel

lemma zeros_eq (len : ℕ) : zeros len = (447 + 512 - len % 512) % 512 := by
  refine IsLeast.csInf_eq ⟨?_, fun k hk => ?_⟩
  · show (len + 1 + (447 + 512 - len % 512) % 512) % 512 = 448
    omega
  · have hmod : (len + 1 + k) % 512 = 448 := hk
    omega

lemma schedule_of_lt {M : ℕ → Word} {t : ℕ} (ht : t < 16) : schedule M t = M t := by
  rw [schedule, dif_pos ht]

lemma schedule_add (M : ℕ → Word) (t : ℕ) :
    schedule M (t + 16) = smallSigma1 (schedule M (t + 14)) + schedule M (t + 9) +
      smallSigma0 (schedule M (t + 1)) + schedule M t := by
  rw [schedule, dif_neg (by omega)]
  rfl

end Identikey.Lib.Sha2
