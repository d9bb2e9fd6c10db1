/-
The crate's own SHA-256 (`state.rs`).

The message is padded to a multiple of 64 bytes, and the eight words of the state
go through 64 rounds for every block of 64 bytes.  The array `w` of the message
schedule is filled in place, as in the source.
-/
import Mathlib.Data.List.GetD
import Mathlib.Data.List.Basic
import Identikey.Lib.BigEndian
import Identikey.Auth.Error

namespace Identikey.Auth.Sha256

open Lib

/-- The round constants. -/
def K : List UInt32 := [
  0x428a2f98, 0x71374491, 0xb5c0fbcf, 0xe9b5dba5, 0x3956c25b, 0x59f111f1, 0x923f82a4, 0xab1c5ed5,
  0xd807aa98, 0x12835b01, 0x243185be, 0x550c7dc3, 0x72be5d74, 0x80deb1fe, 0x9bdc06a7, 0xc19bf174,
  0xe49b69c1, 0xefbe4786, 0x0fc19dc6, 0x240ca1cc, 0x2de92c6f, 0x4a7484aa, 0x5cb0a9dc, 0x76f988da,
  0x983e5152, 0xa831c66d, 0xb00327c8, 0xbf597fc7, 0xc6e00bf3, 0xd5a79147, 0x06ca6351, 0x14292967,
  0x27b70a85, 0x2e1b2138, 0x4d2c6dfc, 0x53380d13, 0x650a7354, 0x766a0abb, 0x81c2c92e, 0x92722c85,
  0xa2bfe8a1, 0xa81a664b, 0xc24b8b70, 0xc76c51a3, 0xd192e819, 0xd6990624, 0xf40e3585, 0x106aa070,
  0x19a4c116, 0x1e376c08, 0x2748774c, 0x34b0bcb5, 0x391c0cb3, 0x4ed8aa4a, 0x5b9cca4f, 0x682e6ff3,
  0x748f82ee, 0x78a5636f, 0x84c87814, 0x8cc70208, 0x90befffa, 0xa4506ceb, 0xbef9a3f7, 0xc67178f2]

/-- The eight words of the state. -/
structure State where
  a : UInt32
  b : UInt32
  c : UInt32
  d : UInt32
  e : UInt32
  f : UInt32
  g : UInt32
  h : UInt32
deriving DecidableEq, Repr

/-- The state before the first block. -/
def initial : State :=
  { a := 0x6a09e667, b := 0xbb67ae85, c := 0x3c6ef372, d := 0xa54ff53a,
    e := 0x510e527f, f := 0x9b05688c, g := 0x1f83d9ab, h := 0x5be0cd19 }

/-- `u32::rotate_right`, for `0 < n < 32`. -/
def rotateRight (x n : UInt32) : UInt32 := (x >>> n) ||| (x <<< (32 - n))

/-! ### Padding -/

/-- The zeros that the `while` loop pushes onto a message of `len` bytes, at most `fuel`. -/
def padZeros : ℕ → ℕ → Bytes
  | 0, _ => []
  | fuel + 1, len => if len % 64 ≠ 56 then 0 :: padZeros fuel (len + 1) else []

/-- The padded message: `0x80`, zeros, and the length in bits. -/
def pad (data : Bytes) : Bytes :=
  data ++ 0x80 :: (padZeros 64 (data.length + 1) ++
    beBytes 8 (UInt64.ofNat data.length * 8).toNat)

/-- `slice::chunks_exact`. -/
def chunksExact (n : ℕ) (l : Bytes) : List Bytes :=
  (List.range (l.length / n)).map fun i => (l.drop (n * i)).take n

/-! ### The block loop -/

/-- `w[i]` of the message schedule, from the words before it. -/
def extend (w : List UInt32) (i : ℕ) : List UInt32 :=
  let word := fun j => w.getD j 0
  let s0 := rotateRight (word (i - 15)) 7 ^^^ rotateRight (word (i - 15)) 18 ^^^
    (word (i - 15) >>> 3)
  let s1 := rotateRight (word (i - 2)) 17 ^^^ rotateRight (word (i - 2)) 19 ^^^
    (word (i - 2) >>> 10)
  w.set i (word (i - 16) + s0 + word (i - 7) + s1)

/-- The message schedule of a block: its sixteen words, then 48 more. -/
def schedule (block : Bytes) : List UInt32 :=
  let words := (chunksExact 4 block).map fun word => UInt32.ofNat (ofBeBytes word)
  (List.range' 16 48).foldl extend (words ++ List.replicate (64 - words.length) 0)

/-- The body of a round, with its constant and its word of the schedule. -/
def mix (s : State) (k w : UInt32) : State :=
  let s1 := rotateRight s.e 6 ^^^ rotateRight s.e 11 ^^^ rotateRight s.e 25
  let ch := (s.e &&& s.f) ^^^ (~~~s.e &&& s.g)
  let t1 := s.h + s1 + ch + k + w
  let s0 := rotateRight s.a 2 ^^^ rotateRight s.a 13 ^^^ rotateRight s.a 22
  let maj := (s.a &&& s.b) ^^^ (s.a &&& s.c) ^^^ (s.b &&& s.c)
  let t2 := s0 + maj
  { a := t1 + t2, b := s.a, c := s.b, d := s.c, e := s.d + t1, f := s.e, g := s.f, h := s.g }

/-- Round `i`. -/
def round (w : List UInt32) (s : State) (i : ℕ) : State := mix s (K.getD i 0) (w.getD i 0)

/-- One pass of the block loop. -/
def compress (h : State) (block : Bytes) : State :=
  let s := (List.range 64).foldl (round (schedule block)) h
  { a := h.a + s.a, b := h.b + s.b, c := h.c + s.c, d := h.d + s.d,
    e := h.e + s.e, f := h.f + s.f, g := h.g + s.g, h := h.h + s.h }

/-- The words of the state, most significant byte first. -/
def State.toBytes (s : State) : Bytes :=
  [s.a, s.b, s.c, s.d, s.e, s.f, s.g, s.h].flatMap fun word => beBytes 4 word.toNat

lemma State.length_toBytes (s : State) : s.toBytes.length = 32 := by
  simp [toBytes, length_beBytes]

/-- The loop stops at a length of 56 modulo 64, having pushed fewer than 64 zeros. -/
lemma padZeros_eq {fuel len : ℕ} (hfuel : (120 - len % 64) % 64 ≤ fuel) :
    padZeros fuel len = List.replicate ((120 - len % 64) % 64) 0 := by
  induction fuel generalizing len with
  | zero =>
    have hnone : (120 - len % 64) % 64 = 0 := by omega
    rw [padZeros, hnone, List.replicate_zero]
  | succ fuel ih =>
    rw [padZeros]
    split_ifs with hlen
    -- one zero fewer is missing after this one
    · have hnext : (120 - len % 64) % 64 = (120 - (len + 1) % 64) % 64 + 1 := by omega
      rw [ih (by omega), hnext, List.replicate_succ]
    · have hnone : (120 - len % 64) % 64 = 0 := by omega
      rw [hnone, List.replicate_zero]

/-- The padded message is a whole number of blocks. -/
lemma dvd_length_pad (data : Bytes) : 64 ∣ (pad data).length := by
  rw [pad, padZeros_eq (by omega)]
  simp only [List.length_append, List.length_cons, List.length_replicate, length_beBytes]
  omega

/-! ### The schedule as a recurrence -/

/-- The next word of the schedule, from the words so far, the latest first. -/
def nextWord (w : List UInt32) : UInt32 :=
  let s0 := rotateRight (w.getD 14 0) 7 ^^^ rotateRight (w.getD 14 0) 18 ^^^ (w.getD 14 0 >>> 3)
  let s1 := rotateRight (w.getD 1 0) 17 ^^^ rotateRight (w.getD 1 0) 19 ^^^ (w.getD 1 0 >>> 10)
  w.getD 15 0 + s0 + w.getD 6 0 + s1

/-- The words so far and `n` more, the latest first. -/
def growWords : ℕ → List UInt32 → List UInt32
  | 0, w => w
  | n + 1, w => growWords n (nextWord w :: w)

/-- The array is filled from the left: the word at its end is the next one of the recurrence. -/
lemma extend_append {w : List UInt32} (hw : 16 ≤ w.length) (rest : List UInt32) :
    extend (w ++ 0 :: rest) w.length = w ++ nextWord w.reverse :: rest := by
  -- the words behind the one to be filled, counted from it, are those of `w` reversed
  have hword : ∀ j, j < w.length → (w ++ 0 :: rest).getD (w.length - (j + 1)) 0 =
      w.reverse.getD j 0 := by
    intro j hj
    have hlt : w.length - (j + 1) < w.length := by omega
    rw [List.getD_append _ _ _ _ hlt, List.getD_eq_getElem _ _ hlt,
      List.getD_eq_getElem _ _ (by simpa using hj), List.getElem_reverse]
    congr 1
    omega
  simp only [extend, nextWord, hword 14 (by omega), hword 1 (by omega), hword 6 (by omega),
    hword 15 (by omega), List.set_append_right _ _ le_rfl, Nat.sub_self, List.set_cons_zero]

lemma foldl_extend {w : List UInt32} (hw : 16 ≤ w.length) (n : ℕ) :
    (List.range' w.length n).foldl extend (w ++ List.replicate n 0) =
      (growWords n w.reverse).reverse := by
  induction n generalizing w with
  | zero => simp [growWords]
  | succ n ih =>
    have hnext := @ih (w ++ [nextWord w.reverse]) (by simp; omega)
    rw [List.length_append, List.length_singleton, List.append_assoc, List.singleton_append,
      List.reverse_append, List.reverse_singleton, List.singleton_append] at hnext
    rw [List.replicate_succ, List.range'_succ, List.foldl_cons, extend_append hw, hnext, growWords]

/-- A loop that reads two arrays at its index runs through them side by side. -/
lemma foldl_range_getD {σ α β : Type} (f : σ → α → β → σ) (xs : List α) (ys : List β)
    (h : xs.length = ys.length) (x : α) (y : β) (s : σ) :
    (List.range xs.length).foldl (fun s i => f s (xs.getD i x) (ys.getD i y)) s =
      (xs.zip ys).foldl (fun s p => f s p.1 p.2) s := by
  induction xs generalizing ys s with
  | nil => rfl
  | cons a xs ih =>
    obtain _ | ⟨b, ys⟩ := ys
    · cases h
    · rw [List.length_cons, List.range_succ_eq_map, List.foldl_cons, List.foldl_map,
        List.zip_cons_cons, List.foldl_cons]
      exact ih ys (Nat.succ.inj h) _

/-- `compress` with the schedule as a recurrence. -/
def compressWords (h : State) (words : List UInt32) : State :=
  let s := (K.zip (growWords 48 words.reverse).reverse).foldl (fun s p => mix s p.1 p.2) h
  { a := h.a + s.a, b := h.b + s.b, c := h.c + s.c, d := h.d + s.d,
    e := h.e + s.e, f := h.f + s.f, g := h.g + s.g, h := h.h + s.h }

lemma length_growWords (n : ℕ) (w : List UInt32) : (growWords n w).length = w.length + n := by
  induction n generalizing w with
  | zero => rfl
  | succ n ih =>
    rw [growWords, ih, List.length_cons]
    omega

lemma compress_eq {block : Bytes} (hblock : block.length = 64) (h : State) :
    compress h block =
      compressWords h ((chunksExact 4 block).map fun word => UInt32.ofNat (ofBeBytes word)) := by
  generalize hwords : (chunksExact 4 block).map (fun word => UInt32.ofNat (ofBeBytes word)) = words
  have hlen : words.length = 16 := by
    simp [← hwords, chunksExact, hblock]
  have hschedule : schedule block = (growWords 48 words.reverse).reverse := by
    rw [← foldl_extend hlen.ge, hlen, schedule, hwords, hlen]
  -- one word of the schedule for each round constant
  have hlong : K.length = (growWords 48 words.reverse).reverse.length := by
    rw [List.length_reverse, length_growWords, List.length_reverse, hlen]
    rfl
  have hrounds := foldl_range_getD mix K _ hlong 0 0 h
  unfold compress compressWords
  rw [← hschedule] at hrounds ⊢
  rw [← hrounds]
  rfl

lemma length_of_mem_chunksExact {n : ℕ} {l b : Bytes} (h : b ∈ chunksExact n l) :
    b.length = n := by
  obtain ⟨i, hi, rfl⟩ := List.mem_map.mp h
  rw [List.mem_range] at hi
  have hle : n * i + n ≤ l.length :=
    calc n * i + n = n * (i + 1) := (Nat.mul_succ n i).symm
      _ ≤ n * (l.length / n) := Nat.mul_le_mul_left n hi
      _ ≤ l.length := Nat.mul_div_le _ _
  rw [List.length_take, List.length_drop]
  omega

end Sha256

/-- `sha256`. -/
def sha256 (data : Bytes) : Digest32 :=
  let h := (Sha256.chunksExact 64 (Sha256.pad data)).foldl Sha256.compress Sha256.initial
  ⟨h.toBytes, h.length_toBytes⟩

/-- The digest by the recurrence of the schedule, which is faster to evaluate. -/
lemma sha256_eq (data : Bytes) :
    (sha256 data).val = ((Sha256.chunksExact 64 (Sha256.pad data)).foldl
      (fun h block => Sha256.compressWords h
        ((Sha256.chunksExact 4 block).map fun word => UInt32.ofNat (Lib.ofBeBytes word)))
      Sha256.initial).toBytes := by
  rw [sha256]
  refine congrArg Sha256.State.toBytes (List.foldl_ext _ _ _ fun h block hblock => ?_)
  exact Sha256.compress_eq (Sha256.length_of_mem_chunksExact hblock) h

/-- The vector of "abc". -/
example : (sha256 [0x61, 0x62, 0x63]).val =
    Lib.beBytes 32 0xba7816bf8f01cfea414140de5dae2223b00361a396177a9cb410ff61f20015ad := by
  decide +kernel

end Identikey.Auth
