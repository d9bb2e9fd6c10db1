/-
The crate's SHA-256 is that of FIPS 180-4 (`state.rs`).

The standard is in `Identikey.Lib.Sha2`, on bit strings and with recursions in the place of
loops.  The words of the code are those of the standard, the array of the message schedule
holds its recursion, a pass of the block loop is one step of the hash value, and the loop
that pads adds as many zeros as are needed for whole blocks.
-/
import Identikey.Lib.Sha2
import Identikey.Auth.Sha256

namespace Identikey.Auth

open Lib

namespace Sha256

/-! ### Words -/

/-- The state as the eight words of the standard. -/
def State.registers (s : State) : Sha2.Registers :=
  { a := s.a.toBitVec, b := s.b.toBitVec, c := s.c.toBitVec, d := s.d.toBitVec,
    e := s.e.toBitVec, f := s.f.toBitVec, g := s.g.toBitVec, h := s.h.toBitVec }

/-- **The table of constants.** -/
lemma K_eq {t : ℕ} (ht : t < 64) : (K.getD t 0).toBitVec = Sha2.K t := by
  have hroots : ∀ t < 64, ∃ whole < 8,
      (whole * 2 ^ 32 + (K.getD t 0).toBitVec.toNat) ^ 3 ≤
        Sha2.firstPrimes.getD t 0 * 2 ^ (32 * 3) ∧
      Sha2.firstPrimes.getD t 0 * 2 ^ (32 * 3) <
        (whole * 2 ^ 32 + (K.getD t 0).toBitVec.toNat + 1) ^ 3 := by
    rw [Sha2.firstPrimes_eq]
    decide +kernel
  obtain ⟨whole, -, hlow, hhigh⟩ := hroots t ht
  exact (Sha2.rootFraction_eq (by decide) hlow hhigh).symm

lemma initial_eq : initial.registers = Sha2.initial := by
  have hroots : ∀ p ∈ Sha2.firstPrimes.zip [initial.a, initial.b, initial.c, initial.d,
      initial.e, initial.f, initial.g, initial.h], ∃ whole < 8,
      (whole * 2 ^ 32 + p.2.toBitVec.toNat) ^ 2 ≤ p.1 * 2 ^ (32 * 2) ∧
      p.1 * 2 ^ (32 * 2) < (whole * 2 ^ 32 + p.2.toBitVec.toNat + 1) ^ 2 := by
    rw [Sha2.firstPrimes_eq]
    decide +kernel
  have hword : ∀ p ∈ Sha2.firstPrimes.zip [initial.a, initial.b, initial.c, initial.d,
      initial.e, initial.f, initial.g, initial.h], p.2.toBitVec = Sha2.rootFraction 2 p.1 := by
    intro p hp
    obtain ⟨whole, -, hlow, hhigh⟩ := hroots p hp
    exact (Sha2.rootFraction_eq (by decide) hlow hhigh).symm
  rw [Sha2.firstPrimes_eq] at hword
  simp only [List.zip_cons_cons, List.zip_nil_right, List.forall_mem_cons] at hword
  obtain ⟨ha, hb, hc, hd, he, hf, hg, hh, -⟩ := hword
  unfold Sha2.initial State.registers
  rw [ha, hb, hc, hd, he, hf, hg, hh, Sha2.firstPrimes_eq]
  rfl

/-! ### The message schedule -/

/-- The words so far, the latest first, are the schedule of the standard. -/
def Tracks (M : ℕ → Sha2.Word) (w : List UInt32) : Prop :=
  ∀ t < w.length, (w.reverse.getD t 0).toBitVec = Sha2.schedule M t

variable {M : ℕ → Sha2.Word}

/-- The word `j` places from the latest. -/
lemma Tracks.getD {w : List UInt32} (h : Tracks M w) {j t : ℕ} (ht : j + t + 1 = w.length) :
    (w.getD j 0).toBitVec = Sha2.schedule M t := by
  have hj : w.length - 1 - t = j := by omega
  rw [← h t (by omega), List.getD_reverse t (by omega), hj]

/-- **The next word of the recurrence is the next of the schedule.** -/
lemma Tracks.nextWord {w : List UInt32} (h : Tracks M w) (hw : 16 ≤ w.length) :
    (nextWord w).toBitVec = Sha2.schedule M w.length := by
  obtain ⟨t, ht⟩ : ∃ t, w.length = t + 16 := ⟨w.length - 16, by omega⟩
  have h15 : (w.getD 15 0).toBitVec = _ := h.getD (show 15 + t + 1 = _ by omega)
  have h14 : (w.getD 14 0).toBitVec = _ := h.getD (show 14 + (t + 1) + 1 = _ by omega)
  have h6 : (w.getD 6 0).toBitVec = _ := h.getD (show 6 + (t + 9) + 1 = _ by omega)
  have h1 : (w.getD 1 0).toBitVec = _ := h.getD (show 1 + (t + 14) + 1 = _ by omega)
  rw [ht, Sha2.schedule_add, ← h15, ← h14, ← h6, ← h1]
  -- the code adds the four words in another order
  have hcode : (Sha256.nextWord w).toBitVec = (w.getD 15 0).toBitVec +
      Sha2.smallSigma0 (w.getD 14 0).toBitVec + (w.getD 6 0).toBitVec +
      Sha2.smallSigma1 (w.getD 1 0).toBitVec := rfl
  rw [hcode]
  ac_rfl

lemma Tracks.cons {w : List UInt32} (h : Tracks M w) (hw : 16 ≤ w.length) :
    Tracks M (Sha256.nextWord w :: w) := by
  intro t ht
  rw [List.length_cons] at ht
  rw [List.reverse_cons]
  by_cases hlast : t < w.length
  · rw [List.getD_append _ _ _ _ (by rwa [List.length_reverse]), h t hlast]
  · have hlen : t = w.reverse.length := by
      rw [List.length_reverse]
      omega
    rw [List.getD_append_right _ _ _ _ hlen.ge, hlen, Nat.sub_self, List.length_reverse]
    exact h.nextWord hw

lemma Tracks.growWords {w : List UInt32} (h : Tracks M w) (hw : 16 ≤ w.length) (n : ℕ) :
    Tracks M (growWords n w) := by
  induction n generalizing w with
  | zero => exact h
  | succ n ih => exact ih (h.cons hw) (by rw [List.length_cons]; omega)

/-- **The array that is filled in place is the schedule of the standard.** -/
lemma schedule_eq {block : Bytes}
    (hM : ∀ t < 16, M t = BitVec.ofNat 32 (ofBeBytes ((block.drop (4 * t)).take 4)))
    (hblock : block.length = 64) {t : ℕ} (ht : t < 64) :
    ((schedule block).getD t 0).toBitVec = Sha2.schedule M t := by
  generalize hwords : (chunksExact 4 block).map (fun word => UInt32.ofNat (ofBeBytes word)) = words
  have hlen : words.length = 16 := by
    simp [← hwords, chunksExact, hblock]
  have hgrown : schedule block = (Sha256.growWords 48 words.reverse).reverse := by
    rw [← foldl_extend hlen.ge, hlen, schedule, hwords, hlen]
  have hfirst : Tracks M words.reverse := by
    intro t ht
    rw [List.length_reverse, hlen] at ht
    rw [List.reverse_reverse, Sha2.schedule_of_lt ht, hM t ht,
      List.getD_eq_getElem _ _ (by rwa [hlen])]
    simp only [← hwords, chunksExact, List.getElem_map, List.getElem_range]
    rfl
  have htracks := hfirst.growWords (by rw [List.length_reverse, hlen]) 48
  rw [hgrown]
  refine htracks t ?_
  rw [length_growWords, List.length_reverse, hlen]
  exact ht

/-! ### Rounds and blocks -/

/-- A round of the loop is a round of the standard. -/
lemma mix_registers (s : State) {k w : UInt32} {W : ℕ → Sha2.Word} {t : ℕ}
    (hk : k.toBitVec = Sha2.K t) (hw : w.toBitVec = W t) :
    (mix s k w).registers = Sha2.round W t s.registers := by
  unfold Sha2.round
  rw [← hk, ← hw]
  rfl

lemma foldl_round {words : List UInt32} {W : ℕ → Sha2.Word}
    (hwords : ∀ t < 64, (words.getD t 0).toBitVec = W t) (h : State) {n : ℕ} (hn : n ≤ 64) :
    ((List.range n).foldl (round words) h).registers = Sha2.working W h.registers n := by
  induction n with
  | zero => rfl
  | succ n ih =>
    rw [List.range_succ, List.foldl_append, List.foldl_cons, List.foldl_nil, Sha2.working,
      ← ih (by omega)]
    exact mix_registers _ (K_eq (by omega)) (hwords n (by omega))

/-- **A pass of the block loop is one step of the hash value.** -/
lemma compress_registers {block : Bytes}
    (hM : ∀ t < 16, M t = BitVec.ofNat 32 (ofBeBytes ((block.drop (4 * t)).take 4)))
    (hblock : block.length = 64) (h : State) :
    (compress h block).registers = Sha2.compress M h.registers := by
  have hrounds := foldl_round (fun t ht => schedule_eq hM hblock ht) h le_rfl
  have hadd : ∀ x y : UInt32, (x + y).toBitVec = y.toBitVec + x.toBitVec :=
    fun x y => BitVec.add_comm _ _
  unfold compress Sha2.compress
  rw [← hrounds]
  simp only [State.registers, hadd]

/-! ### Padding -/

/-- The loop adds the zeros that are missing to whole blocks, fewer than 64. -/
lemma pad_eq {data : Bytes} (hlen : data.length < 2 ^ 61) : ∃ zeros < 64,
    (data.length + 1 + zeros) % 64 = 56 ∧
      pad data = data ++ 0x80 :: (List.replicate zeros 0 ++ beBytes 8 (8 * data.length)) := by
  have hbits : (UInt64.ofNat data.length * 8).toNat = 8 * data.length := by
    rw [UInt64.toNat_mul, UInt64.toNat_ofNat_of_lt' (hlen.trans (by decide))]
    show data.length * 8 % 2 ^ 64 = 8 * data.length
    omega
  refine ⟨(120 - (data.length + 1) % 64) % 64, Nat.mod_lt _ (by decide), by omega, ?_⟩
  rw [pad, padZeros_eq (by omega), hbits]

/-- **Padding in bytes is padding in bits.** -/
lemma bitsOf_pad {data : Bytes} (hlen : data.length < 2 ^ 61) :
    bitsOf (pad data) = Sha2.pad (bitsOf data) := by
  obtain ⟨zeros, hzeros, hmod, hpad⟩ := pad_eq hlen
  have hone : toBits 8 (0x80 : UInt8).toNat = true :: List.replicate 7 false := by decide
  have hcount : Sha2.zeros (8 * data.length) = 7 + 8 * zeros := by
    rw [Sha2.zeros_eq]
    omega
  rw [hpad, bitsOf_append, bitsOf_cons, bitsOf_append, bitsOf_replicate_zero, bitsOf_beBytes, hone,
    Sha2.pad, length_bitsOf, hcount, ← List.replicate_append_replicate]
  simp only [List.cons_append, List.append_assoc]

/-- **Padding tells the messages.** -/
lemma pad_inj {data data' : Bytes} (hlen : data.length < 2 ^ 61) (hlen' : data'.length < 2 ^ 61)
    (h : pad data = pad data') : data = data' := by
  obtain ⟨zeros, -, -, hpad⟩ := pad_eq hlen
  obtain ⟨zeros', -, -, hpad'⟩ := pad_eq hlen'
  rw [hpad, hpad', ← List.cons_append, ← List.cons_append, ← List.append_assoc,
    ← List.append_assoc] at h
  -- the last eight bytes are the length, and the message is as long as they say
  obtain ⟨hfront, hlast⟩ := List.append_inj' h (by rw [length_beBytes, length_beBytes])
  have hlength : data.length = data'.length := by
    have heq : 8 * data.length = 8 * data'.length := by
      rw [← ofBeBytes_beBytes (k := 8) (n := 8 * data.length) (by omega), hlast,
        ofBeBytes_beBytes (by omega)]
    omega
  exact (List.append_inj hfront hlength).1

lemma flatten_chunks (n k : ℕ) (l : Bytes) :
    ((List.range k).map fun i => (l.drop (n * i)).take n).flatten = l.take (n * k) := by
  induction k with
  | zero => simp
  | succ k ih =>
    rw [List.range_succ, List.map_append, List.flatten_append, ih, Nat.mul_succ, List.take_add]
    simp

/-- `chunks_exact` drops nothing of a whole number of chunks. -/
lemma flatten_chunksExact {n : ℕ} {l : Bytes} (h : n ∣ l.length) :
    (chunksExact n l).flatten = l := by
  rw [chunksExact, flatten_chunks, Nat.mul_div_cancel' h, List.take_length]

/-! ### The digest -/

/-- The word of a block is that of the standard. -/
lemma wordAt_eq (padded : Bytes) (i : ℕ) {t : ℕ} (ht : t < 16) :
    Sha2.wordAt (bitsOf padded) i t = BitVec.ofNat 32
      (ofBeBytes (((((padded.drop (64 * i)).take 64)).drop (4 * t)).take 4)) := by
  have hskip : 512 * i + 32 * t = 8 * (64 * i + 4 * t) := by omega
  have hword : (((padded.drop (64 * i)).take 64).drop (4 * t)).take 4 =
      (padded.drop (64 * i + 4 * t)).take 4 := by
    rw [List.drop_take, List.drop_drop, List.take_take, Nat.min_eq_left (by omega)]
  rw [Sha2.wordAt, hskip, drop_bitsOf, take_bitsOf 4, ofBits_bitsOf, hword]

/-- The block loop goes through the hash values of the standard. -/
lemma foldl_compress (padded : Bytes) {n : ℕ} (hn : 64 * n ≤ padded.length) :
    (((List.range n).map fun i => (padded.drop (64 * i)).take 64).foldl compress
      initial).registers = Sha2.hashValue (bitsOf padded) n := by
  induction n with
  | zero => exact initial_eq
  | succ n ih =>
    rw [List.range_succ, List.map_append, List.foldl_append, List.map_singleton, List.foldl_cons,
      List.foldl_nil, Sha2.hashValue, ← ih (by omega)]
    refine compress_registers (fun t ht => wordAt_eq padded n ht) ?_ _
    rw [List.length_take, List.length_drop]
    omega

lemma bitsOf_toBytes (s : State) : bitsOf s.toBytes = s.registers.toBits := by
  have hword : ∀ word : UInt32, bitsOf (beBytes 4 word.toNat) = toBits 32 word.toBitVec.toNat :=
    fun word => bitsOf_beBytes 4 _
  simp only [State.toBytes, Sha2.Registers.toBits, State.registers, List.flatMap_cons,
    List.flatMap_nil, bitsOf_append, bitsOf_nil, hword]

end Sha256

open Sha256

/-- **The digest is that of FIPS 180-4.**  The loop pads with fewer than 64 zeros to whole blocks,
of which `chunks_exact` drops nothing; different messages are padded differently; and the bits of
the digest are those of the standard. -/
theorem sha256_is_fips {data : Bytes} (hlen : data.length < 2 ^ 61) :
    (∃ zeros < 64, (data.length + 1 + zeros) % 64 = 56 ∧
      pad data = data ++ 0x80 :: (List.replicate zeros 0 ++ beBytes 8 (8 * data.length))) ∧
    64 ∣ (pad data).length ∧ (chunksExact 64 (pad data)).flatten = pad data ∧
    (∀ data' : Bytes, data'.length < 2 ^ 61 → pad data = pad data' → data = data') ∧
    bitsOf (sha256 data).val = Sha2.sha256 (bitsOf data) := by
  have hdvd := dvd_length_pad data
  refine ⟨pad_eq hlen, hdvd, flatten_chunksExact hdvd, fun data' hlen' => pad_inj hlen hlen', ?_⟩
  have hblocks : (bitsOf (pad data)).length / 512 = (pad data).length / 64 := by
    rw [length_bitsOf]
    omega
  rw [Sha2.sha256, ← bitsOf_pad hlen, hblocks,
    ← foldl_compress (pad data) (Nat.mul_div_le _ _), ← bitsOf_toBytes]
  rfl

/-- A message whose length field takes a block more. -/
theorem sha256_is_fips_spill :
    64 ∣ (pad (List.replicate 60 0x61)).length ∧
    bitsOf (sha256 (List.replicate 60 0x61)).val =
      Sha2.sha256 (bitsOf (List.replicate 60 0x61)) := by
  obtain ⟨-, hdvd, -, -, hdigest⟩ :=
    @sha256_is_fips (List.replicate 60 0x61) (by decide)
  exact ⟨hdvd, hdigest⟩

end Identikey.Auth
