/-
Digests of concrete messages.

To compute a digest inside a proof, a message, a block and the words of a schedule are each
one natural number, for which the kernel has fast arithmetic, and every number is evaluated
before it is used again (`force`).  `sha256_eq_nat` says that the digest computed in this way
is the digest.
-/
import Identikey.Auth.Sha256

namespace Identikey.Auth.Sha256

open Lib

/-- Go on with `n`, evaluated: the match makes the kernel reduce it to a numeral. -/
def force {α : Type} (n : ℕ) (next : ℕ → α) : α :=
  match n with
  | 0 => next 0
  | m + 1 => next (Nat.succ m)

@[simp] lemma force_eq {α : Type} (n : ℕ) (next : ℕ → α) : force n next = next n := by
  cases n <;> rfl

/-! ### Words

The operations stand under the names that the kernel evaluates on numerals at once. -/

/-- `rotateRight` on numbers below `2 ^ 32`. -/
def rotN (x n : ℕ) : ℕ :=
  Nat.lor (Nat.shiftRight x n) (Nat.mod (Nat.shiftLeft x (Nat.sub 32 n)) 0x100000000)

def xor3 (x y z : ℕ) : ℕ := Nat.xor (Nat.xor x y) z

lemma xor3_eq (x y z : ℕ) : xor3 x y z = x ^^^ y ^^^ z := rfl

def addN (x y : ℕ) : ℕ := Nat.mod (Nat.add x y) 0x100000000

lemma addN_eq (x y : ℕ) : addN x y = (x + y) % 2 ^ 32 := rfl

lemma toNat_rotateRight (x n : UInt32) (h₀ : 0 < n.toNat) (h : n.toNat < 32) :
    (rotateRight x n).toNat = rotN x.toNat n.toNat := by
  -- no wrap-around, as `n` is between 0 and 32
  have hsub : (32 - n).toNat = 32 - n.toNat := by
    rw [UInt32.toNat_sub_of_le _ _ (by rw [UInt32.le_iff_toNat_le]; exact h.le)]
    rfl
  have hmod : (32 - n.toNat) % 32 = 32 - n.toNat := Nat.mod_eq_of_lt (by omega)
  rw [rotateRight, UInt32.toNat_or, UInt32.toNat_shiftRight, UInt32.toNat_shiftLeft, hsub,
    Nat.mod_eq_of_lt h, hmod]
  rfl

/-! ### States -/

/-- A state as numbers. -/
structure NatState where
  a : ℕ
  b : ℕ
  c : ℕ
  d : ℕ
  e : ℕ
  f : ℕ
  g : ℕ
  h : ℕ
deriving DecidableEq

def State.toNats (s : State) : NatState :=
  { a := s.a.toNat, b := s.b.toNat, c := s.c.toNat, d := s.d.toNat,
    e := s.e.toNat, f := s.f.toNat, g := s.g.toNat, h := s.h.toNat }

/-- `mix` on numbers. -/
def mixN (s : NatState) (k w : ℕ) : NatState :=
  match s with
  | { a, b, c, d, e, f, g, h } =>
    force (Nat.add (Nat.add (Nat.add (Nat.add h (xor3 (rotN e 6) (rotN e 11) (rotN e 25)))
      (Nat.xor (Nat.land e f) (Nat.land (Nat.sub 0xffffffff e) g))) k) w) fun t1 =>
    force (addN t1 (Nat.add (xor3 (rotN a 2) (rotN a 13) (rotN a 22))
      (xor3 (Nat.land a b) (Nat.land a c) (Nat.land b c)))) fun a' =>
    force (addN d t1) fun e' =>
    { a := a', b := a, c := b, d := c, e := e', f := e, g := f, h := g }

lemma mixN_eq (a b c d e f g h k w : ℕ) :
    mixN { a, b, c, d, e, f, g, h } k w =
      { a := addN (h + xor3 (rotN e 6) (rotN e 11) (rotN e 25) +
            ((e &&& f) ^^^ ((2 ^ 32 - 1 - e) &&& g)) + k + w)
          (xor3 (rotN a 2) (rotN a 13) (rotN a 22) + xor3 (a &&& b) (a &&& c) (b &&& c))
        b := a
        c := b
        d := c
        e := addN d (h + xor3 (rotN e 6) (rotN e 11) (rotN e 25) +
          ((e &&& f) ^^^ ((2 ^ 32 - 1 - e) &&& g)) + k + w)
        f := e
        g := f
        h := g } := by
  simp only [mixN, force_eq]
  rfl

lemma toNats_mix (s : State) (k w : UInt32) :
    (mix s k w).toNats = mixN s.toNats k.toNat w.toNat := by
  have hrot := toNat_rotateRight
  simp only [mix, State.toNats, mixN_eq, NatState.mk.injEq, addN_eq, xor3_eq, UInt32.toNat_add,
    UInt32.toNat_xor, UInt32.toNat_and, UInt32.toNat_not, hrot _ 2 (by decide) (by decide),
    hrot _ 6 (by decide) (by decide), hrot _ 11 (by decide) (by decide),
    hrot _ 13 (by decide) (by decide), hrot _ 22 (by decide) (by decide),
    hrot _ 25 (by decide) (by decide), Nat.mod_add_mod, Nat.add_mod_mod]
  exact ⟨rfl, trivial, trivial, trivial, rfl, trivial, trivial, trivial⟩

/-! ### The words of a schedule as the digits of a number -/

/-- The number with the digits `w` in base `2 ^ 32`, the lowest one first. -/
def pack : List UInt32 → ℕ
  | [] => 0
  | x :: w => x.toNat + 2 ^ 32 * pack w

/-- The digit with `i` digits below it. -/
def digit (n i : ℕ) : ℕ := Nat.mod (Nat.shiftRight n (Nat.mul 32 i)) 0x100000000

lemma digit_pack (w : List UInt32) (i : ℕ) : digit (pack w) i = (w.getD i 0).toNat := by
  change pack w >>> (32 * i) % 2 ^ 32 = _
  induction w generalizing i with
  | nil => simp [pack]
  | cons x w ih =>
    have hx : x.toNat < 2 ^ 32 := x.toNat_lt
    cases i with
    | zero =>
      rw [pack, Nat.mul_zero, Nat.shiftRight_zero, Nat.add_mul_mod_self_left,
        Nat.mod_eq_of_lt hx]
      rfl
    | succ i =>
      have hdrop : pack (x :: w) >>> 32 = pack w := by
        rw [pack, Nat.shiftRight_eq_div_pow, Nat.add_mul_div_left _ _ (by decide),
          Nat.div_eq_of_lt hx, Nat.zero_add]
      rw [Nat.mul_succ, Nat.add_comm, Nat.shiftRight_add, hdrop, ih]
      rfl

lemma pack_concat (w : List UInt32) (x : UInt32) :
    pack (w ++ [x]) = pack w + 2 ^ (32 * w.length) * x.toNat := by
  induction w with
  | nil => simp [pack]
  | cons y w ih =>
    rw [List.cons_append, pack, pack, ih, List.length_cons, Nat.mul_succ, Nat.pow_add]
    ring

/-- `nextWord` on numbers. -/
def nextN (w : ℕ) : ℕ :=
  addN
    (Nat.add (Nat.add (digit w 15)
      (xor3 (rotN (digit w 14) 7) (rotN (digit w 14) 18) (Nat.shiftRight (digit w 14) 3)))
      (digit w 6))
    (xor3 (rotN (digit w 1) 17) (rotN (digit w 1) 19) (Nat.shiftRight (digit w 1) 10))

lemma nextN_eq (w : ℕ) : nextN w =
    addN (digit w 15 + xor3 (rotN (digit w 14) 7) (rotN (digit w 14) 18) (digit w 14 >>> 3) +
      digit w 6) (xor3 (rotN (digit w 1) 17) (rotN (digit w 1) 19) (digit w 1 >>> 10)) := rfl

lemma toNat_nextWord (w : List UInt32) : (nextWord w).toNat = nextN (pack w) := by
  have hrot := toNat_rotateRight
  simp only [nextWord, nextN_eq, digit_pack, addN_eq, xor3_eq, UInt32.toNat_add, UInt32.toNat_xor,
    UInt32.toNat_shiftRight, hrot _ 7 (by decide) (by decide), hrot _ 17 (by decide) (by decide),
    hrot _ 18 (by decide) (by decide), hrot _ 19 (by decide) (by decide), Nat.mod_add_mod]
  rfl

def growN : ℕ → ℕ → ℕ
  | 0, w => w
  | n + 1, w => force (Nat.add (nextN w) (Nat.mul 0x100000000 w)) fun x => growN n x

lemma pack_growWords (n : ℕ) (w : List UInt32) : pack (growWords n w) = growN n (pack w) := by
  induction n generalizing w with
  | zero => rfl
  | succ n ih =>
    rw [growWords, ih, pack, toNat_nextWord, growN, force_eq]
    rfl

/-- The rounds on numbers: a word of the schedule is as many digits from the lowest one as there
are constants to come. -/
def roundsN : List ℕ → ℕ → NatState → NatState
  | [], _, s => s
  | k :: ks, w, s => roundsN ks w (mixN s k (digit w ks.length))

lemma roundsN_eq {ks w : List UInt32} (hlen : ks.length ≤ w.length) (s : State) :
    ((ks.zip (w.take ks.length).reverse).foldl (fun s p => mix s p.1 p.2) s).toNats =
      roundsN (ks.map UInt32.toNat) (pack w) s.toNats := by
  induction ks generalizing s with
  | nil => rfl
  | cons k ks ih =>
    rw [List.length_cons] at hlen
    -- the word of this round is the last one of those that are left
    have htake : w.take (ks.length + 1) = w.take ks.length ++ [w.getD ks.length 0] := by
      rw [List.take_add_one, List.getElem?_eq_getElem (by omega),
        List.getD_eq_getElem _ _ (by omega)]
      rfl
    rw [List.length_cons, htake, List.reverse_append, List.reverse_singleton,
      List.singleton_append, List.zip_cons_cons, List.foldl_cons, ih (by omega), toNats_mix,
      ← digit_pack, List.map_cons, roundsN, List.length_map]

/-- The sums at the end of a block. -/
def sumN (h s : NatState) : NatState :=
  force (addN h.a s.a) fun a => force (addN h.b s.b) fun b => force (addN h.c s.c) fun c =>
  force (addN h.d s.d) fun d => force (addN h.e s.e) fun e => force (addN h.f s.f) fun f =>
  force (addN h.g s.g) fun g => force (addN h.h s.h) fun h => { a, b, c, d, e, f, g, h }

/-- `compressWords` on numbers. -/
def compressN (h : NatState) (block : ℕ) : NatState :=
  force (growN 48 block) fun w => sumN h (roundsN (K.map UInt32.toNat) w h)

lemma toNats_compressWords {words : List UInt32} (hlen : words.length = 16) (h : State) :
    (compressWords h words).toNats = compressN h.toNats (pack words.reverse) := by
  have hgrown : (growWords 48 words.reverse).length = K.length := by
    rw [length_growWords, List.length_reverse, hlen]
    rfl
  have hrounds := roundsN_eq hgrown.ge h
  rw [← hgrown, List.take_length] at hrounds
  rw [compressN, force_eq, ← pack_growWords, ← hrounds]
  simp only [compressWords, sumN, force_eq, addN_eq, State.toNats, UInt32.toNat_add]

/-! ### Messages as numbers -/

/-- A message of whole chunks is taken apart chunk by chunk. -/
lemma chunks_induction {n : ℕ} {P : (l : Bytes) → n ∣ l.length → Prop} (nil : ∀ h, P [] h)
    (append : ∀ chunk l (h : n ∣ l.length) (h' : n ∣ (chunk ++ l).length), chunk.length = n →
      P l h → P (chunk ++ l) h') (l : Bytes) (hl : n ∣ l.length) : P l hl := by
  obtain ⟨q, hq⟩ := hl
  induction q generalizing l with
  | zero =>
    obtain rfl : l = [] := List.length_eq_zero_iff.mp hq
    exact nil _
  | succ q ih =>
    rw [Nat.mul_succ] at hq
    have htake : (l.take n).length = n := by
      rw [List.length_take, hq, Nat.min_eq_left (Nat.le_add_left n _)]
    have hdrop : (l.drop n).length = n * q := by
      rw [List.length_drop, hq, Nat.add_sub_cancel]
    have hwhole := List.take_append_drop n l
    generalize l.take n = chunk at htake hwhole
    generalize l.drop n = rest at hdrop hwhole
    subst hwhole
    exact append chunk rest ⟨q, hdrop⟩ _ htake (ih rest hdrop)

lemma chunksExact_append {n : ℕ} (hn : 0 < n) {chunk : Bytes} (hchunk : chunk.length = n)
    (l : Bytes) : chunksExact n (chunk ++ l) = chunk :: chunksExact n l := by
  have hcount : (chunk ++ l).length / n = l.length / n + 1 := by
    rw [List.length_append, hchunk, Nat.add_comm, Nat.add_div_right _ hn]
  rw [chunksExact, hcount, List.range_succ_eq_map, List.map_cons, List.map_map, Nat.mul_zero,
    List.drop_zero, List.take_left' hchunk, chunksExact]
  refine congrArg _ (List.map_congr_left fun i _ => ?_)
  rw [Function.comp_apply, Nat.mul_succ, Nat.add_comm, ← List.drop_drop, List.drop_left' hchunk]

lemma pow_eq_of_dvd {n b len : ℕ} (hb : b = 8 * n) (h : n ∣ len) :
    2 ^ (b * (len / n)) = 256 ^ len := by
  have hlen : b * (len / n) = 8 * len := by rw [hb, Nat.mul_assoc, Nat.mul_div_cancel' h]
  rw [hlen, Nat.pow_mul]

/-- The words of a block are the digits of the number that its bytes denote. -/
lemma pack_words {l : Bytes} (hl : 4 ∣ l.length) :
    pack ((chunksExact 4 l).map fun word => UInt32.ofNat (ofBeBytes word)).reverse =
      ofBeBytes l := by
  induction l, hl using chunks_induction with
  | nil => rfl
  | append chunk l hdvd _ hchunk ih =>
    have hlt : ofBeBytes chunk < 2 ^ 32 := by
      have h := ofBeBytes_lt chunk
      rwa [hchunk] at h
    rw [chunksExact_append (by decide) hchunk, List.map_cons, List.reverse_cons, pack_concat, ih,
      List.length_reverse, List.length_map, UInt32.toNat_ofNat_of_lt' hlt, ofBeBytes_append]
    rw [show (chunksExact 4 l).length = l.length / 4 by simp [chunksExact],
      pow_eq_of_dvd rfl hdvd, Nat.mul_comm, Nat.add_comm]

/-- The blocks of a message, as many as `n` says and the first one highest. -/
def blocksN : ℕ → ℕ → NatState → NatState
  | 0, _, h => h
  | n + 1, message, h =>
    force (Nat.mod message (Nat.pow 2 (Nat.mul 512 n))) fun rest =>
      blocksN n rest (compressN h (Nat.shiftRight message (Nat.mul 512 n)))

lemma toNats_foldl_compressWords {l : Bytes} (hl : 64 ∣ l.length) (h : State) :
    ((chunksExact 64 l).foldl (fun h block => compressWords h
      ((chunksExact 4 block).map fun word => UInt32.ofNat (ofBeBytes word))) h).toNats =
      blocksN (l.length / 64) (ofBeBytes l) h.toNats := by
  induction l, hl using chunks_induction generalizing h with
  | nil => rfl
  | append block l hdvd _ hblock ih =>
    have hlt := ofBeBytes_lt l
    rw [← pow_eq_of_dvd (n := 64) rfl hdvd] at hlt
    have hcount : (block ++ l).length / 64 = l.length / 64 + 1 := by
      rw [List.length_append, hblock, Nat.add_comm, Nat.add_div_right _ (by decide)]
    have hmessage : ofBeBytes (block ++ l) =
        ofBeBytes l + 2 ^ (512 * (l.length / 64)) * ofBeBytes block := by
      rw [ofBeBytes_append, pow_eq_of_dvd (n := 64) rfl hdvd, Nat.mul_comm, Nat.add_comm]
    -- the block stands above the rest of the message
    have hrest : Nat.mod (ofBeBytes (block ++ l)) (Nat.pow 2 (Nat.mul 512 (l.length / 64))) =
        ofBeBytes l := by
      change ofBeBytes (block ++ l) % 2 ^ (512 * (l.length / 64)) = _
      rw [hmessage, Nat.add_mul_mod_self_left, Nat.mod_eq_of_lt hlt]
    have htop : Nat.shiftRight (ofBeBytes (block ++ l)) (Nat.mul 512 (l.length / 64)) =
        ofBeBytes block := by
      change ofBeBytes (block ++ l) >>> (512 * (l.length / 64)) = _
      rw [hmessage, Nat.shiftRight_eq_div_pow,
        Nat.add_mul_div_left _ _ (Nat.pow_pos (by decide)), Nat.div_eq_of_lt hlt, Nat.zero_add]
    have hwords : ((chunksExact 4 block).map
        fun word => UInt32.ofNat (ofBeBytes word)).length = 16 := by
      simp [chunksExact, hblock]
    rw [chunksExact_append (by decide) hblock, List.foldl_cons, ih, toNats_compressWords hwords,
      pack_words (by rw [hblock]; decide), hcount, blocksN, force_eq, hrest, htop]

/-- Evaluate all numbers of a list. -/
def forceAll {α : Type} : List ℕ → (List ℕ → α) → α
  | [], next => next []
  | x :: xs, next => force x fun x' => forceAll xs fun xs' => next (x' :: xs')

@[simp] lemma forceAll_eq {α : Type} (xs : List ℕ) (next : List ℕ → α) :
    forceAll xs next = next xs := by
  induction xs generalizing next with
  | nil => rfl
  | cons x xs ih => rw [forceAll, force_eq, ih]

/-- The words of the state, most significant byte first. -/
def NatState.toBytes (s : NatState) : Bytes :=
  [s.a, s.b, s.c, s.d, s.e, s.f, s.g, s.h].flatMap (beBytes 4)

end Sha256

/-- The digest of a message, computed on numbers. -/
def sha256N (data : Bytes) : Bytes :=
  Sha256.force (Lib.ofBeBytes (Sha256.pad data)) fun message =>
    (Sha256.blocksN ((Sha256.pad data).length / 64) message Sha256.initial.toNats).toBytes

lemma sha256_eq_nat (data : Bytes) : (sha256 data).val = sha256N data := by
  rw [sha256_eq, sha256N, Sha256.force_eq,
    ← Sha256.toNats_foldl_compressWords (Sha256.dvd_length_pad data)]
  rfl

end Identikey.Auth
