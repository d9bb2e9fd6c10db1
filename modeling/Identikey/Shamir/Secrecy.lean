/-
What fewer shares than the threshold say about the secret.

The generator is a tape of random bytes here.  Up to two shares fewer than the threshold
say nothing: whatever two secrets of one length, the tapes of one are matched one to one
with those of the other, so that the shares look the same.
-/
import Mathlib.Data.Set.Finite.List
import Mathlib.Data.Finset.Card
import Identikey.Shamir.Recovery

namespace Identikey.Shamir

open Lib Polynomial

/-! ### Tapes -/

lemma length_take_pad (n : ℕ) (tape : List UInt8) :
    ((tape ++ List.replicate n 0).take n).length = n := by
  rw [List.length_take, List.length_append, List.length_replicate]
  omega

/-- The generator that reads a tape, and zeros behind its end. -/
def tapeFill : Generator (List UInt8) :=
  fun n tape => (⟨(tape ++ List.replicate n 0).take n, length_take_pad n tape⟩, tape.drop n)

lemma tapeFill_append {n : ℕ} {item : List UInt8} (hitem : item.length = n) (rest : List UInt8) :
    tapeFill n (item ++ rest) = (⟨item, hitem⟩, rest) := by
  rw [tapeFill, Prod.mk.injEq]
  constructor
  · apply Subtype.ext
    show ((item ++ rest) ++ List.replicate n 0).take n = item
    rw [List.append_assoc, List.take_left' hitem]
  · rw [List.drop_left' hitem]

/-- The first shares are what the tape starts with. -/
lemma fillShares_tapeFill {n : ℕ} {items : List (List UInt8)}
    (hitems : ∀ item ∈ items, item.length = n) (rest : List UInt8) :
    fillShares tapeFill n items.length (items.flatten ++ rest) = (items, rest) := by
  induction items with
  | nil => rfl
  | cons item items ih =>
    rw [List.length_cons, fillShares, List.flatten_cons, List.append_assoc,
      tapeFill_append (hitems item List.mem_cons_self)]
    simp only
    rw [ih fun i hi => hitems i (List.mem_cons_of_mem item hi)]

/-- A tape is its buffers. -/
lemma exists_items (n k : ℕ) {tape : List UInt8} (h : n * k ≤ tape.length) :
    ∃ (items : List (List UInt8)) (rest : List UInt8), tape = items.flatten ++ rest ∧
      items.length = k ∧
      ∀ item ∈ items, item.length = n := by
  induction k generalizing tape with
  | zero => exact ⟨[], tape, rfl, rfl, fun item hitem => absurd hitem List.not_mem_nil⟩
  | succ k ih =>
    rw [Nat.mul_succ] at h
    obtain ⟨items, rest, htape, hlen, hitems⟩ := ih (by
      show n * k ≤ (tape.drop n).length
      rw [List.length_drop]
      omega)
    refine ⟨tape.take n :: items, rest, ?_, by rw [List.length_cons, hlen], ?_⟩
    · rw [List.flatten_cons, List.append_assoc, ← htape, List.take_append_drop]
    · intro item hitem
      rcases List.mem_cons.mp hitem with rfl | hmem
      · rw [List.length_take]
        omega
      · exact hitems item hmem

/-- How many random bytes `split_secret` uses. -/
def tapeLength (threshold len : ℕ) : ℕ := len * (threshold - 2) + (len - 4)

/-- The random bytes of a split: the first shares, and what the digest covers besides the
secret. -/
@[ext]
structure Draws (threshold len : ℕ) where
  first : List (List UInt8)
  length_first : first.length = threshold - 2
  length_item : ∀ item ∈ first, item.length = len
  random : ByteArrayOf (len - 4)

namespace Draws

variable {threshold len : ℕ}

/-- The tape with these draws. -/
def tape (d : Draws threshold len) : List UInt8 := d.first.flatten ++ d.random.val

lemma length_flatten_items {items : List (List UInt8)} {n : ℕ}
    (h : ∀ item ∈ items, item.length = n) : items.flatten.length = n * items.length := by
  induction items with
  | nil => rfl
  | cons item items ih =>
    rw [List.flatten_cons, List.length_append, h item List.mem_cons_self,
      ih fun i hi => h i (List.mem_cons_of_mem item hi), List.length_cons, Nat.mul_succ,
      Nat.add_comm]

lemma length_tape (d : Draws threshold len) : d.tape.length = tapeLength threshold len := by
  rw [tape, List.length_append, length_flatten_items d.length_item, d.length_first,
    d.random.property, tapeLength]

lemma fillShares_tape (d : Draws threshold len) :
    fillShares tapeFill len (threshold - 2) d.tape = (d.first, d.random.val) := by
  have hfill := fillShares_tapeFill d.length_item d.random.val
  rw [d.length_first] at hfill
  exact hfill

lemma tape_injective {d d' : Draws threshold len} (h : d.tape = d'.tape) : d = d' := by
  have hfill := d.fillShares_tape
  rw [h, d'.fillShares_tape] at hfill
  obtain ⟨hfirst, hrandom⟩ := Prod.mk.inj hfill
  exact Draws.ext hfirst.symm (Subtype.ext hrandom.symm)

/-- Every tape of the right length is read as some draws. -/
lemma exists_of_length {tape : List UInt8} (h : tape.length = tapeLength threshold len) :
    ∃ d : Draws threshold len, tape = d.tape := by
  rw [tapeLength] at h
  obtain ⟨items, rest, htape, hlen, hitems⟩ := exists_items len (threshold - 2)
    (by rw [h]; omega)
  have hrest : rest.length = len - 4 := by
    have hsum := congrArg List.length htape
    rw [List.length_append, length_flatten_items hitems, hlen] at hsum
    omega
  exact ⟨⟨items, hlen, hitems, ⟨rest, hrest⟩⟩, htape⟩

end Draws

section Secrecy

variable (hmac : List UInt8 → List UInt8 → ByteArrayOf 32) {threshold shareCount : ℕ}
  {secret : List UInt8}

/-- A split with a tape: its first shares are the first draws, and polynomials deal all shares. -/
lemma splitSecret_tape (h : ValidParameters threshold shareCount secret.length) (ht : 2 ≤ threshold)
    (d : Draws threshold secret.length) :
    ∃ rest p, splitSecret hmac tapeFill threshold shareCount secret d.tape =
        .ok (d.first ++ rest, []) ∧
      Dealt threshold shareCount (digestShare hmac d.random.val secret) secret
        (d.first ++ rest) p := by
  have hrandom : tapeFill (secret.length - 4) d.random.val = (d.random, []) := by
    have hfill := tapeFill_append d.random.property []
    rw [List.append_nil] at hfill
    exact hfill
  obtain ⟨rest, hsplit, hdealt⟩ := splitSecret_eq_ok hmac tapeFill h ht d.tape
  simp only [d.fillShares_tape, hrandom] at hsplit hdealt
  exact ⟨rest, _, hsplit, hdealt⟩

/-- The points that decide the polynomials: some shares, and the digest and the secret. -/
lemma eq_of_agree {n t : ℕ} {digest : List UInt8} {shares shares' : List (List UInt8)}
    {p p' : ℕ → Gf256[X]} (hn : n ≤ 16) (hdealt : Dealt t n digest secret shares p)
    (hdealt' : Dealt t n digest secret shares' p') {indexes : List ℕ} (hnodup : indexes.Nodup)
    (hlt : ∀ i ∈ indexes, i < n) (hmany : t ≤ indexes.length + 2)
    (hagree : ∀ i ∈ indexes, shares.getD i [] = shares'.getD i []) {b : ℕ}
    (hb : b < secret.length) : p b = p' b := by
  have hle : (t : WithBot ℕ) ≤ (anchored indexes).length := by
    rw [length_anchored]
    exact_mod_cast hmany
  have hlt' : ∀ i ∈ indexes, i < 254 := fun i hi => by have h := hlt i hi; omega
  apply eq_of_eval_node (nodup_anchored hnodup hlt') (anchored_lt hlt')
  · exact lt_of_lt_of_le (hdealt.degree_lt b hb) hle
  · exact lt_of_lt_of_le (hdealt'.degree_lt b hb) hle
  · rw [forall_mem_anchored]
    refine ⟨?_, ?_, ?_⟩
    · intro i hi
      rw [hdealt.eval_share b hb i (hlt i hi), hdealt'.eval_share b hb i (hlt i hi), byteAt, byteAt,
        hagree i hi]
    · rw [hdealt.eval_digest b hb, hdealt'.eval_digest b hb]
    · rw [hdealt.eval_secret b hb, hdealt'.eval_secret b hb]

/-- Shares dealt by the same polynomials are the same. -/
lemma Dealt.shares_eq {n t : ℕ} {digest digest' secret' : List UInt8}
    {shares shares' : List (List UInt8)} {p p' : ℕ → Gf256[X]}
    (hdealt : Dealt t n digest secret shares p) (hdealt' : Dealt t n digest' secret' shares' p')
    (hlen : secret.length = secret'.length) {i : ℕ} (hi : i < n)
    (heval : ∀ b < secret.length, (p b).eval (node i) = (p' b).eval (node i)) :
    shares.getD i [] = shares'.getD i [] := by
  have hi₁ : i < shares.length := by rw [hdealt.length_shares]; exact hi
  have hi₂ : i < shares'.length := by rw [hdealt'.length_shares]; exact hi
  apply bytes_ext (n := secret.length)
  · rw [List.getD_eq_getElem _ _ hi₁]
    exact hdealt.length_share _ (List.getElem_mem hi₁)
  · rw [List.getD_eq_getElem _ _ hi₂, hlen]
    exact hdealt'.length_share _ (List.getElem_mem hi₂)
  · intro b hb
    have h := heval b hb
    rw [hdealt.eval_share b hb i hi, hdealt'.eval_share b (by omega) i hi] at h
    exact h

lemma Dealt.congr {n t : ℕ} {digest : List UInt8} {shares : List (List UInt8)} {p q : ℕ → Gf256[X]}
    (hdealt : Dealt t n digest secret shares p) (h : ∀ b < secret.length, p b = q b) :
    Dealt t n digest secret shares q where
  length_shares := hdealt.length_shares
  length_share := hdealt.length_share
  degree_lt b hb := h b hb ▸ hdealt.degree_lt b hb
  eval_digest b hb := h b hb ▸ hdealt.eval_digest b hb
  eval_secret b hb := h b hb ▸ hdealt.eval_secret b hb
  eval_share b hb := h b hb ▸ hdealt.eval_share b hb

/-- Shares with these bytes: byte `b` of share `i` is `v b i`. -/
def sharesOf (v : ℕ → ℕ → Gf256) (k len : ℕ) : List (List UInt8) :=
  (List.range k).map fun i => (List.range len).map fun b => toByte (v b i)

lemma length_sharesOf {v : ℕ → ℕ → Gf256} {k len : ℕ} :
    ∀ item ∈ sharesOf v k len, item.length = len := by
  intro item hitem
  obtain ⟨i, -, rfl⟩ := List.mem_map.mp hitem
  rw [List.length_map, List.length_range]

lemma byteAt_sharesOf (v : ℕ → ℕ → Gf256) {k len i b : ℕ} (hi : i < k) (hb : b < len) :
    byteAt (sharesOf v k len) b i = v b i := by
  have hshare : (sharesOf v k len).getD i [] = (List.range len).map fun b => toByte (v b i) := by
    rw [sharesOf, List.getD_eq_getElem _ _ (by rw [List.length_map, List.length_range]; exact hi),
      List.getElem_map, List.getElem_range]
  rw [byteAt, hshare,
    List.getD_eq_getElem _ _ (by rw [List.length_map, List.length_range]; exact hb),
    List.getElem_map, List.getElem_range, ofByte_toByte]

/-- Any polynomials of degree below the threshold that have the secret at its place, and its digest
for some random data, deal the shares of some draws. -/
lemma exists_draws (h : ValidParameters threshold shareCount secret.length) (ht : 2 ≤ threshold)
    (random : ByteArrayOf (secret.length - 4)) {q : ℕ → Gf256[X]}
    (hdeg : ∀ b < secret.length, (q b).degree < threshold)
    (hdigest : ∀ b < secret.length,
      (q b).eval (node 254) = ofByte ((digestShare hmac random.val secret).getD b 0))
    (hsecret : ∀ b < secret.length, (q b).eval (node 255) = ofByte (secret.getD b 0)) :
    ∃ (d : Draws threshold secret.length) (shares : List (List UInt8)), d.random = random ∧
      splitSecret hmac tapeFill threshold shareCount secret d.tape = .ok (shares, []) ∧
      Dealt threshold shareCount (digestShare hmac random.val secret) secret shares q := by
  let d : Draws threshold secret.length :=
    { first := sharesOf (fun b i => (q b).eval (node i)) (threshold - 2) secret.length
      length_first := by rw [sharesOf, List.length_map, List.length_range]
      length_item := length_sharesOf
      random := random }
  have hcount : threshold ≤ 16 := le_trans h.le_count h.count_le
  obtain ⟨rest, p, hsplit, hdealt⟩ := splitSecret_tape hmac h ht d
  refine ⟨d, _, rfl, hsplit, hdealt.congr ?_⟩
  intro b hb
  have hlen := length_splitNumbers ht
  apply eq_of_eval_node (nodup_splitNumbers hcount) (splitNumbers_lt hcount)
  · rw [hlen]
    exact hdealt.degree_lt b hb
  · rw [hlen]
    exact hdeg b hb
  · rw [splitNumbers, forall_mem_anchored]
    refine ⟨?_, ?_, ?_⟩
    · intro i hi
      rw [List.mem_range] at hi
      have hle := h.le_count
      rw [hdealt.eval_share b hb i (by omega), byteAt,
        List.getD_append _ _ _ _ (by rw [d.length_first]; exact hi)]
      exact byteAt_sharesOf (fun b i => (q b).eval (node i)) hi hb
    · rw [hdealt.eval_digest b hb, hdigest b hb]
    · rw [hdealt.eval_secret b hb, hsecret b hb]

/-- Whatever two shares fewer than the threshold are, and whatever the digest's random data, there
are draws of every secret with these shares. -/
lemma exists_draws_with (h : ValidParameters threshold shareCount secret.length)
    (ht : 2 ≤ threshold) (random : ByteArrayOf (secret.length - 4)) {indexes : List ℕ}
    (hnodup : indexes.Nodup) (hlt : ∀ i ∈ indexes, i < shareCount)
    (hlen : indexes.length = threshold - 2) (seen : List (List UInt8)) :
    ∃ (d : Draws threshold secret.length) (shares : List (List UInt8)) (p : ℕ → Gf256[X]),
      d.random = random ∧
      splitSecret hmac tapeFill threshold shareCount secret d.tape = .ok (shares, []) ∧
      Dealt threshold shareCount (digestShare hmac random.val secret) secret shares p ∧
      ∀ b < secret.length, ∀ i ∈ indexes, (p b).eval (node i) = byteAt seen b i := by
  let digest := digestShare hmac random.val secret
  let values := select seen indexes ++ [digest, secret]
  have hcount : shareCount ≤ 16 := h.count_le
  have hlt' : ∀ i ∈ indexes, i < 254 := fun i hi => by have hin := hlt i hi; omega
  have hks : (anchored indexes).length = threshold := by rw [length_anchored]; omega
  have hsel : (select seen indexes).length = indexes.length := List.length_map _
  obtain ⟨hget, hget₀, hget₁⟩ := getD_anchored indexes
  let q := fun b => through (anchored indexes).length ((anchored indexes).map UInt8.ofNat) values b
  have heval : ∀ b, ∀ j < indexes.length + 2,
      (q b).eval (node ((anchored indexes).getD j 0)) = byteAt values b j := by
    intro b j hj
    exact eval_through (nodup_anchored hnodup hlt') (anchored_lt hlt') values b
      (by rw [length_anchored]; exact hj)
  have hright : ∀ j, values.getD (indexes.length + j) [] = [digest, secret].getD j [] := by
    intro j
    rw [← hsel]
    show (select seen indexes ++ [digest, secret]).getD _ [] = _
    rw [List.getD_append_right _ _ _ _ (by omega), Nat.add_sub_cancel_left]
  obtain ⟨d, shares, hrandom, hsplit, hdealt⟩ := exists_draws hmac h ht random (q := q)
    (fun b _ => hks ▸ degree_through (nodup_anchored hnodup hlt') (anchored_lt hlt') values b)
    (fun b _ => by
      have hb := heval b indexes.length (by omega)
      rw [hget₀, byteAt, ← Nat.add_zero indexes.length, hright 0] at hb
      exact hb)
    (fun b _ => by
      have hb := heval b (indexes.length + 1) (by omega)
      rw [hget₁, byteAt, hright 1] at hb
      exact hb)
  refine ⟨d, shares, q, hrandom, hsplit, hdealt, ?_⟩
  intro b _ i hi
  obtain ⟨j, hj, rfl⟩ := List.getElem_of_mem hi
  have hb := heval b j (by omega)
  rw [hget j hj, List.getD_eq_getElem _ _ hj] at hb
  rw [hb, byteAt, byteAt]
  show ofByte (((select seen indexes ++ [digest, secret]).getD j []).getD b 0) = _
  rw [List.getD_append _ _ _ _ (by omega), getD_select seen hj, List.getD_eq_getElem _ _ hj]

/-! ### Two shares fewer -/

/-- Tapes of two secrets that have the same random data for the digest and deal the same shares at
some indexes. -/
def Alike (threshold shareCount : ℕ) (secret secret' : List UInt8) (indexes : List ℕ)
    (d : Draws threshold secret.length) (d' : Draws threshold secret'.length) : Prop :=
  d.random.val = d'.random.val ∧ ∃ shares shares',
    splitSecret hmac tapeFill threshold shareCount secret d.tape = .ok (shares, []) ∧
    splitSecret hmac tapeFill threshold shareCount secret' d'.tape = .ok (shares', []) ∧
    ∀ i ∈ indexes, shares.getD i [] = shares'.getD i []

/-- The tape of one of two secrets decides the other's. -/
lemma Alike.unique {secret' : List UInt8} {indexes : List ℕ}
    (h : ValidParameters threshold shareCount secret.length) (ht : 2 ≤ threshold)
    (hnodup : indexes.Nodup) (hlt : ∀ i ∈ indexes, i < shareCount)
    (hmany : threshold ≤ indexes.length + 2) {d e : Draws threshold secret.length}
    {d' : Draws threshold secret'.length}
    (hd : Alike hmac threshold shareCount secret secret' indexes d d')
    (he : Alike hmac threshold shareCount secret secret' indexes e d') : d.tape = e.tape := by
  obtain ⟨hdr, shares, shares', hsplit, hsplit', hagree⟩ := hd
  obtain ⟨her, eshares, eshares', hesplit, hesplit', heagree⟩ := he
  obtain ⟨rest, p, hdsplit, hdealt⟩ := splitSecret_tape hmac h ht d
  obtain ⟨erest, ep, hdesplit, hedealt⟩ := splitSecret_tape hmac h ht e
  have hrandom : d.random = e.random := Subtype.ext (hdr.trans her.symm)
  rw [hsplit'] at hesplit'
  rw [hsplit] at hdsplit
  rw [hesplit] at hdesplit
  obtain rfl := (Prod.mk.inj (Except.ok.inj hesplit')).1
  obtain rfl := (Prod.mk.inj (Except.ok.inj hdsplit)).1
  obtain rfl := (Prod.mk.inj (Except.ok.inj hdesplit)).1
  rw [← hrandom] at hedealt
  have hp : ∀ b < secret.length, p b = ep b := fun b hb =>
    eq_of_agree h.count_le hdealt hedealt hnodup hlt hmany
      (fun i hi => (hagree i hi).trans (heagree i hi).symm) hb
  have hshares : d.first ++ rest = e.first ++ erest := by
    apply List.ext_getElem
    · rw [hdealt.length_shares, hedealt.length_shares]
    · intro i hi hi'
      have heq := hdealt.shares_eq hedealt rfl (i := i) (by rw [← hdealt.length_shares]; exact hi)
        (fun b hb => by rw [hp b hb])
      rw [List.getD_eq_getElem _ _ hi, List.getD_eq_getElem _ _ hi'] at heq
      exact heq
  have hfirst : d.first = e.first :=
    List.append_inj_left hshares (by rw [d.length_first, e.length_first])
  rw [Draws.tape, Draws.tape, hfirst, hrandom]

/-- Every tape of one secret has one of the other like it. -/
lemma exists_alike {secret' : List UInt8} {indexes : List ℕ}
    (h : ValidParameters threshold shareCount secret.length) (ht : 2 ≤ threshold)
    (hsize : secret'.length = secret.length)
    (hnodup : indexes.Nodup) (hlt : ∀ i ∈ indexes, i < shareCount)
    (hlen : indexes.length = threshold - 2) (d : Draws threshold secret.length) :
    ∃ d' : Draws threshold secret'.length,
      Alike hmac threshold shareCount secret secret' indexes d d' := by
  obtain ⟨rest, p, hsplit, hdealt⟩ := splitSecret_tape hmac h ht d
  have h' : ValidParameters threshold shareCount secret'.length := by
    rw [hsize]
    exact h
  obtain ⟨d', shares', p', hrandom, hsplit', hdealt', heval⟩ :=
    exists_draws_with hmac h' ht ⟨d.random.val, by rw [d.random.property, hsize]⟩
    hnodup hlt hlen (d.first ++ rest)
  refine ⟨d', by rw [hrandom], _, _, hsplit, hsplit', ?_⟩
  intro i hi
  apply hdealt.shares_eq hdealt' hsize.symm (hlt i hi)
  intro b hb
  rw [heval b (by omega) i hi, hdealt.eval_share b hb i (hlt i hi)]

/-- Indexes of shares can be added up to a number of them. -/
lemma exists_superset {n k : ℕ} {indexes : List ℕ} (hnodup : indexes.Nodup)
    (hlt : ∀ i ∈ indexes, i < n) (hle : indexes.length ≤ k) (hkn : k ≤ n) :
    ∃ more : List ℕ, more.Nodup ∧ (∀ i ∈ more, i < n) ∧ more.length = k ∧
      ∀ i ∈ indexes, i ∈ more := by
  have hsub : indexes.toFinset ⊆ Finset.range n := by
    intro i hi
    exact Finset.mem_range.mpr (hlt i (List.mem_toFinset.mp hi))
  obtain ⟨u, hiu, hun, hcard⟩ := Finset.exists_subsuperset_card_eq (n := k) hsub
    (by rw [List.toFinset_card_of_nodup hnodup]; exact hle) (by rw [Finset.card_range]; exact hkn)
  refine ⟨u.toList, u.nodup_toList, ?_, by rw [Finset.length_toList, hcard], ?_⟩
  · intro i hi
    exact Finset.mem_range.mp (hun (Finset.mem_toList.mp hi))
  · intro i hi
    exact Finset.mem_toList.mpr (hiu (List.mem_toFinset.mpr hi))

instance finite_uint8 : Finite UInt8 :=
  Finite.of_injective UInt8.toFin fun _ _ h => UInt8.toFin_inj.mp h

instance (n : ℕ) : Finite (ByteArrayOf n) := (List.finite_length_eq UInt8 n).to_subtype

/-- Up to two shares fewer than the threshold say nothing about the secret: the tapes of any two
secrets of one length can be matched so that these shares are the same. -/
theorem splitSecret_secrecy {len : ℕ} (h : validateParameters threshold shareCount len = .ok ())
    {secret secret' : ByteArrayOf len} {indexes : List ℕ} (hnodup : indexes.Nodup)
    (hlt : ∀ i ∈ indexes, i < shareCount) (hfew : indexes.length + 2 ≤ threshold) :
    ∃ π : Equiv.Perm (ByteArrayOf (tapeLength threshold len)), ∀ tape, ∃ shares shares',
      splitSecret hmac tapeFill threshold shareCount secret.val tape.val = .ok (shares, []) ∧
      splitSecret hmac tapeFill threshold shareCount secret'.val (π tape).val =
        .ok (shares', []) ∧
      ∀ i ∈ indexes, shares.getD i [] = shares'.getD i [] := by
  have hvalid := validateParameters_eq_ok_iff.mp h
  obtain ⟨secret, rfl⟩ := secret
  obtain ⟨secret', hsize⟩ := secret'
  have hle := hvalid.le_count
  have ht : 2 ≤ threshold := by omega
  obtain ⟨more, hnodup', hlt', hlen, hmore⟩ := exists_superset (k := threshold - 2) hnodup hlt
    (by omega) (by omega)
  have hpartner : ∀ tape : ByteArrayOf (tapeLength threshold secret.length),
      ∃ tape' : ByteArrayOf (tapeLength threshold secret.length),
      ∃ (d : Draws threshold secret.length) (d' : Draws threshold secret'.length),
        tape.val = d.tape ∧ tape'.val = d'.tape ∧
        Alike hmac threshold shareCount secret secret' more d d' := by
    intro tape
    obtain ⟨d, hd⟩ := Draws.exists_of_length tape.property
    obtain ⟨d', hd'⟩ := exists_alike hmac hvalid ht hsize hnodup' hlt' hlen d
    exact ⟨⟨d'.tape, by rw [d'.length_tape, hsize]⟩, d, d', hd, rfl, hd'⟩
  choose partner hpartner using hpartner
  have hinj : Function.Injective partner := by
    intro tape₁ tape₂ heq
    obtain ⟨d₁, d₁', h₁, h₁', halike₁⟩ := hpartner tape₁
    obtain ⟨d₂, d₂', h₂, h₂', halike₂⟩ := hpartner tape₂
    obtain rfl := Draws.tape_injective (h₁'.symm.trans ((congrArg Subtype.val heq).trans h₂'))
    apply Subtype.ext
    rw [h₁, h₂]
    exact halike₁.unique hmac hvalid ht hnodup' hlt' (by omega) halike₂
  refine ⟨Equiv.ofBijective partner (Finite.injective_iff_bijective.mp hinj), ?_⟩
  intro tape
  obtain ⟨d, d', hd, hd', -, shares, shares', hsplit, hsplit', hagree⟩ := hpartner tape
  refine ⟨shares, shares', by rw [hd]; exact hsplit, ?_, fun i hi => hagree i (hmore i hi)⟩
  rw [Equiv.ofBijective_apply, hd']
  exact hsplit'

/-- The shares 4 of two secrets that three shares recover. -/
theorem splitSecret_secrecy_three_of_five :
    ∃ π : Equiv.Perm (ByteArrayOf (tapeLength 3 16)), ∀ tape, ∃ shares shares',
      splitSecret hmacSha256 tapeFill 3 5 (List.replicate 16 0) tape.val = .ok (shares, []) ∧
      splitSecret hmacSha256 tapeFill 3 5 (List.replicate 16 1) (π tape).val = .ok (shares', []) ∧
      ∀ i ∈ [4], shares.getD i [] = shares'.getD i [] :=
  @splitSecret_secrecy hmacSha256 3 5 16 rfl ⟨List.replicate 16 0, List.length_replicate⟩
    ⟨List.replicate 16 1, List.length_replicate⟩ [4] (by decide) (by decide) (by decide)

end Secrecy

end Identikey.Shamir
