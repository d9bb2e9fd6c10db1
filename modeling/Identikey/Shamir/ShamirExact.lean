/-
What splitting and recovering compute.

The shares that `split_secret` deals are the values of polynomials of degree below the
threshold (`Dealt`), and `recover_secret` reads the values of the polynomials through the
shares at the places of the digest and of the secret.  Neither panics.
-/
import Identikey.Lib.Fallible
import Identikey.Shamir.Shamir
import Identikey.Shamir.InterpolateExact

namespace Identikey.Shamir

open Lib Polynomial

/-! ### Byte strings -/

lemma bytes_ext {l l' : List UInt8} {n : ℕ} (hl : l.length = n) (hl' : l'.length = n)
    (h : ∀ b < n, ofByte (l.getD b 0) = ofByte (l'.getD b 0)) : l = l' := by
  apply List.ext_getElem (by omega)
  intro b hb hb'
  have hbyte := ofByte_injective (h b (by omega))
  rw [List.getD_eq_getElem _ _ hb, List.getD_eq_getElem _ _ hb'] at hbyte
  exact hbyte

/-! ### Parameters -/

/-- What `validate_parameters` lets through. -/
structure ValidParameters (threshold shareCount secretLength : ℕ) : Prop where
  count_le : shareCount ≤ 16
  one_le : 1 ≤ threshold
  le_count : threshold ≤ shareCount
  length_le : secretLength ≤ 32
  le_length : 16 ≤ secretLength
  even : secretLength % 2 = 0

lemma validateParameters_total (threshold shareCount secretLength : ℕ) :
    (∃ e, validateParameters threshold shareCount secretLength = .error (.error e)) ∨
      validateParameters threshold shareCount secretLength = .ok () := by
  rw [validateParameters]
  split_ifs <;> simp

lemma validateParameters_eq_ok_iff {threshold shareCount secretLength : ℕ} :
    validateParameters threshold shareCount secretLength = .ok () ↔
      ValidParameters threshold shareCount secretLength := by
  rw [validateParameters, maxShareCount, maxSecretLen, minSecretLen, Nat.and_one_is_mod]
  constructor
  · intro h
    split_ifs at h with h1 h2 h3 h4 h5
    exact ⟨by omega, by omega, by omega, by omega, by omega, by omega⟩
  · rintro ⟨h1, h2, h3, h4, h5, h6⟩
    rw [if_neg (by omega), if_neg (by omega), if_neg (by omega), if_neg (by omega),
      if_neg (by omega)]

/-! ### Places -/

/-- The place with number `k`. -/
def node (k : ℕ) : Gf256 := ofByte (UInt8.ofNat k)

lemma node_injective {i j : ℕ} (hi : i < 256) (hj : j < 256) (h : node i = node j) : i = j := by
  have hnat := congrArg UInt8.toNat (ofByte_injective h)
  rw [UInt8.toNat_ofNat', UInt8.toNat_ofNat', Nat.mod_eq_of_lt hi, Nat.mod_eq_of_lt hj] at hnat
  exact hnat

lemma place_map_ofNat {indexes : List ℕ} {i : ℕ} (hi : i < indexes.length) :
    place (indexes.map UInt8.ofNat) i = node (indexes.getD i 0) := by
  rw [place, List.getD_eq_getElem _ _ (by rw [List.length_map]; exact hi), List.getElem_map,
    List.getD_eq_getElem _ _ hi]
  rfl

/-- Points at different numbers below 256 are at different places. -/
lemma place_injOn {indexes : List ℕ} (hnodup : indexes.Nodup) (hlt : ∀ i ∈ indexes, i < 256) :
    Set.InjOn (place (indexes.map UInt8.ofNat)) (Finset.range indexes.length) := by
  intro i hi j hj heq
  rw [Finset.mem_coe, Finset.mem_range] at hi hj
  rw [place_map_ofNat hi, place_map_ofNat hj, List.getD_eq_getElem _ _ hi,
    List.getD_eq_getElem _ _ hj] at heq
  have hnum := node_injective (hlt _ (List.getElem_mem hi)) (hlt _ (List.getElem_mem hj)) heq
  exact (hnodup.getElem_inj_iff).mp hnum

/-- A polynomial of degree below the number of points is the one through the values it has
there. -/
lemma through_eq {indexes : List ℕ} (hnodup : indexes.Nodup) (hlt : ∀ i ∈ indexes, i < 256)
    {shares : List (List UInt8)} {b : ℕ} {p : Gf256[X]} (hdeg : p.degree < indexes.length)
    (heval : ∀ j < indexes.length, p.eval (node (indexes.getD j 0)) = byteAt shares b j) :
    through indexes.length (indexes.map UInt8.ofNat) shares b = p := by
  symm
  apply Lagrange.eq_interpolate_of_eval_eq
  · exact place_injOn hnodup hlt
  · rw [Finset.card_range]
    exact hdeg
  · intro j hj
    rw [Finset.mem_range] at hj
    rw [place_map_ofNat hj, heval j hj]

lemma eval_through {indexes : List ℕ} (hnodup : indexes.Nodup) (hlt : ∀ i ∈ indexes, i < 256)
    (shares : List (List UInt8)) (b : ℕ) {j : ℕ} (hj : j < indexes.length) :
    (through indexes.length (indexes.map UInt8.ofNat) shares b).eval (node (indexes.getD j 0)) =
      byteAt shares b j := by
  rw [← place_map_ofNat hj]
  exact Lagrange.eval_interpolate_at_node _ (place_injOn hnodup hlt) (Finset.mem_range.mpr hj)

lemma degree_through {indexes : List ℕ} (hnodup : indexes.Nodup) (hlt : ∀ i ∈ indexes, i < 256)
    (shares : List (List UInt8)) (b : ℕ) :
    (through indexes.length (indexes.map UInt8.ofNat) shares b).degree < indexes.length := by
  have hdeg := Lagrange.degree_interpolate_lt (byteAt shares b) (place_injOn hnodup hlt)
  rw [Finset.card_range] at hdeg
  exact hdeg

/-- Polynomials of degree below the number of points that agree on them are equal. -/
lemma eq_of_eval_node {indexes : List ℕ} (hnodup : indexes.Nodup) (hlt : ∀ i ∈ indexes, i < 256)
    {p q : Gf256[X]} (hp : p.degree < indexes.length) (hq : q.degree < indexes.length)
    (heval : ∀ i ∈ indexes, p.eval (node i) = q.eval (node i)) : p = q := by
  apply Polynomial.eq_of_degrees_lt_of_eval_index_eq (Finset.range indexes.length)
    (place_injOn hnodup hlt)
  · rw [Finset.card_range]
    exact hp
  · rw [Finset.card_range]
    exact hq
  · intro j hj
    rw [Finset.mem_range] at hj
    rw [place_map_ofNat hj]
    apply heval
    rw [List.getD_eq_getElem _ _ hj]
    exact List.getElem_mem hj

/-- Some shares' numbers, and those of the digest and of the secret. -/
def anchored (indexes : List ℕ) : List ℕ := indexes ++ [254, 255]

lemma length_anchored (indexes : List ℕ) : (anchored indexes).length = indexes.length + 2 :=
  List.length_append

lemma forall_mem_anchored {indexes : List ℕ} {P : ℕ → Prop} :
    (∀ i ∈ anchored indexes, P i) ↔ (∀ i ∈ indexes, P i) ∧ P 254 ∧ P 255 := by
  simp [anchored, or_imp, forall_and]

lemma nodup_anchored {indexes : List ℕ} (hnodup : indexes.Nodup) (hlt : ∀ i ∈ indexes, i < 254) :
    (anchored indexes).Nodup := by
  rw [anchored, List.nodup_append]
  refine ⟨hnodup, by decide, ?_⟩
  intro i hi j hj
  have hi := hlt i hi
  simp only [List.mem_cons, List.not_mem_nil, or_false] at hj
  omega

lemma anchored_lt {indexes : List ℕ} (hlt : ∀ i ∈ indexes, i < 254) :
    ∀ i ∈ anchored indexes, i < 256 :=
  forall_mem_anchored.mpr ⟨fun i hi => by have h := hlt i hi; omega, by omega, by omega⟩

lemma getD_anchored (indexes : List ℕ) :
    (∀ j < indexes.length, (anchored indexes).getD j 0 = indexes.getD j 0) ∧
    (anchored indexes).getD indexes.length 0 = 254 ∧
    (anchored indexes).getD (indexes.length + 1) 0 = 255 := by
  have hright : ∀ j, (anchored indexes).getD (indexes.length + j) 0 = [254, 255].getD j 0 := by
    intro j
    rw [anchored, List.getD_append_right _ _ _ _ (by omega), Nat.add_sub_cancel_left]
  exact ⟨fun j hj => List.getD_append _ _ _ _ hj, hright 0, hright 1⟩

/-- The numbers of the points that `split_secret` takes its polynomials through. -/
def splitNumbers (threshold : ℕ) : List ℕ := anchored (List.range (threshold - 2))

lemma length_splitNumbers {threshold : ℕ} (ht : 2 ≤ threshold) :
    (splitNumbers threshold).length = threshold := by
  rw [splitNumbers, length_anchored, List.length_range]
  omega

lemma range_lt {threshold : ℕ} (ht : threshold ≤ 16) :
    ∀ i ∈ List.range (threshold - 2), i < 254 := by
  intro i hi
  rw [List.mem_range] at hi
  omega

lemma nodup_splitNumbers {threshold : ℕ} (ht : threshold ≤ 16) : (splitNumbers threshold).Nodup :=
  nodup_anchored List.nodup_range (range_lt ht)

lemma splitNumbers_lt {threshold : ℕ} (ht : threshold ≤ 16) :
    ∀ i ∈ splitNumbers threshold, i < 256 :=
  anchored_lt (range_lt ht)

lemma splitPlaces_eq (threshold shareCount : ℕ) :
    splitPlaces threshold shareCount =
      (splitNumbers threshold).map UInt8.ofNat ++ List.replicate (shareCount - threshold) 0 := by
  rw [splitPlaces, splitNumbers, anchored, List.map_append]
  rfl

lemma place_splitPlaces {threshold i : ℕ} (shareCount : ℕ) (ht : 2 ≤ threshold)
    (hi : i < threshold) :
    place (splitPlaces threshold shareCount) i = node ((splitNumbers threshold).getD i 0) := by
  have hlen := length_splitNumbers ht
  rw [← place_map_ofNat (by omega), place, place, splitPlaces_eq,
    List.getD_append _ _ _ _ (by rw [List.length_map]; omega)]

lemma splitPlaces_injOn {threshold : ℕ} (shareCount : ℕ) (ht : 2 ≤ threshold)
    (hcount : threshold ≤ 16) :
    Set.InjOn (place (splitPlaces threshold shareCount)) (Finset.range threshold) := by
  have hinj := place_injOn (nodup_splitNumbers hcount) (splitNumbers_lt hcount)
  rw [length_splitNumbers ht] at hinj
  intro i hi j hj heq
  rw [Finset.mem_coe, Finset.mem_range] at hi hj
  have hlen := length_splitNumbers ht
  apply hinj (Finset.mem_coe.mpr (Finset.mem_range.mpr hi))
    (Finset.mem_coe.mpr (Finset.mem_range.mpr hj))
  rw [place_map_ofNat (by omega), place_map_ofNat (by omega), ← place_splitPlaces shareCount ht hi,
    ← place_splitPlaces shareCount ht hj]
  exact heq

/-! ### Dealing -/

/-- Shares of a secret: byte `b` of share `i` is the value at `i` of the polynomial `p b`, which
has degree below the threshold and takes the bytes of the digest and of the secret at their
places. -/
structure Dealt (threshold shareCount : ℕ) (digest secret : List UInt8)
    (shares : List (List UInt8)) (p : ℕ → Gf256[X]) : Prop where
  length_shares : shares.length = shareCount
  length_share : ∀ share ∈ shares, share.length = secret.length
  degree_lt : ∀ b < secret.length, (p b).degree < threshold
  eval_digest : ∀ b < secret.length, (p b).eval (node 254) = ofByte (digest.getD b 0)
  eval_secret : ∀ b < secret.length, (p b).eval (node 255) = ofByte (secret.getD b 0)
  eval_share : ∀ b < secret.length, ∀ i < shareCount, (p b).eval (node i) = byteAt shares b i

lemma length_fillShares {σ : Type} (fill : Generator σ) (n k : ℕ) (g : σ) :
    (fillShares fill n k g).1.length = k ∧ ∀ item ∈ (fillShares fill n k g).1, item.length = n := by
  induction k generalizing g with
  | zero => exact ⟨rfl, fun item hitem => absurd hitem List.not_mem_nil⟩
  | succ k ih =>
    obtain ⟨hlen, hitems⟩ := ih (fill n g).2
    refine ⟨congrArg (· + 1) hlen, ?_⟩
    intro item hitem
    rcases List.mem_cons.mp hitem with rfl | htail
    · exact (fill n g).1.property
    · exact hitems item htail

lemma length_digestShare (hmac : List UInt8 → List UInt8 → ByteArrayOf 32) {n : ℕ}
    (random : ByteArrayOf n) (secret : List UInt8) :
    (digestShare hmac random.val secret).length = 4 + n := by
  rw [digestShare, List.length_append, List.length_take, createDigest,
    (hmac random.val secret).property, random.property]
  rfl

lemma length_splitValues (shareCount : ℕ) {first : List (List UInt8)} {digest secret : List UInt8}
    (hfirst : ∀ item ∈ first, item.length = secret.length)
    (hdigest : digest.length = secret.length) :
    ∀ yi ∈ splitValues shareCount first digest secret, yi.length = secret.length := by
  intro yi hyi
  rw [splitValues, List.mem_append, List.mem_append] at hyi
  rcases hyi with (h | h) | h
  · exact hfirst yi h
  · simp only [List.mem_cons, List.not_mem_nil, or_false] at h
    rcases h with rfl | rfl
    · exact hdigest
    · rfl
  · rw [(List.mem_replicate.mp h).2, List.length_replicate]

section Deal

variable {threshold : ℕ} (shareCount : ℕ) {first : List (List UInt8)} (digest secret : List UInt8)

/-- The polynomials of `split_secret`. -/
noncomputable def dealt (threshold shareCount : ℕ) (first : List (List UInt8))
    (digest secret : List UInt8) (b : ℕ) : Gf256[X] :=
  through threshold (splitPlaces threshold shareCount)
    (splitValues shareCount first digest secret) b

lemma byteAt_splitValues (hfirst : first.length = threshold - 2) (ht : 2 ≤ threshold) (b : ℕ) :
    (∀ i < threshold - 2,
      byteAt (splitValues shareCount first digest secret) b i = byteAt first b i) ∧
    byteAt (splitValues shareCount first digest secret) b (threshold - 2) =
      ofByte (digest.getD b 0) ∧
    byteAt (splitValues shareCount first digest secret) b (threshold - 1) =
      ofByte (secret.getD b 0) := by
  have hright : ∀ j, (splitValues shareCount first digest secret).getD (first.length + j) [] =
      ([digest, secret] ++ List.replicate (shareCount - (first.length + 2))
        (List.replicate secret.length 0)).getD j [] := by
    intro j
    rw [splitValues, List.append_assoc, List.getD_append_right _ _ _ _ (by omega),
      Nat.add_sub_cancel_left]
  refine ⟨?_, ?_, ?_⟩
  · intro i hi
    rw [byteAt, byteAt, splitValues, List.append_assoc, List.getD_append _ _ _ _ (by omega)]
  · rw [byteAt, ← hfirst, ← Nat.add_zero first.length, hright 0]
    rfl
  · rw [byteAt, show threshold - 1 = first.length + 1 by omega, hright 1]
    rfl

/-- The polynomials take the values they are drawn through. -/
lemma eval_dealt (hfirst : first.length = threshold - 2) (ht : 2 ≤ threshold)
    (hcount : threshold ≤ 16) (b : ℕ) :
    (∀ i < threshold - 2,
      (dealt threshold shareCount first digest secret b).eval (node i) = byteAt first b i) ∧
    (dealt threshold shareCount first digest secret b).eval (node 254) =
      ofByte (digest.getD b 0) ∧
    (dealt threshold shareCount first digest secret b).eval (node 255) =
      ofByte (secret.getD b 0) := by
  have hnode : ∀ i < threshold, (dealt threshold shareCount first digest secret b).eval
      (node ((splitNumbers threshold).getD i 0)) =
        byteAt (splitValues shareCount first digest secret) b i := by
    intro i hi
    rw [← place_splitPlaces shareCount ht hi]
    exact Lagrange.eval_interpolate_at_node _ (splitPlaces_injOn shareCount ht hcount)
      (Finset.mem_range.mpr hi)
  obtain ⟨hshare, hdigest, hsecret⟩ := byteAt_splitValues shareCount digest secret
    hfirst ht b
  obtain ⟨hget, hget₀, hget₁⟩ := getD_anchored (List.range (threshold - 2))
  rw [List.length_range] at hget hget₀ hget₁
  refine ⟨?_, ?_, ?_⟩
  · intro i hi
    have h := hnode i (by omega)
    rw [splitNumbers, hget i hi, List.getD_eq_getElem _ _ (by rw [List.length_range]; exact hi),
      List.getElem_range] at h
    rw [h, hshare i hi]
  · have h := hnode (threshold - 2) (by omega)
    rw [splitNumbers, hget₀] at h
    exact h.trans hdigest
  · have h := hnode (threshold - 2 + 1) (by omega)
    rw [splitNumbers, hget₁, show threshold - 2 + 1 = threshold - 1 by omega] at h
    exact h.trans hsecret

/-- What is dealt is given by the polynomials. -/
lemma dealt_of_interpolate {rest : List (List UInt8)}
    (h : ValidParameters threshold shareCount secret.length) (ht : 2 ≤ threshold)
    (hfirst : first.length = threshold - 2)
    (hitems : ∀ item ∈ first, item.length = secret.length)
    (hrest : rest.length = shareCount - (threshold - 2))
    (hvalue : ∀ i, threshold - 2 ≤ i → i < shareCount →
      (rest.getD (i - (threshold - 2)) []).length = secret.length ∧
      ∀ b < secret.length, byteAt rest b (i - (threshold - 2)) =
        (dealt threshold shareCount first digest secret b).eval (node i)) :
    Dealt threshold shareCount digest secret (first ++ rest)
      (dealt threshold shareCount first digest secret) := by
  have hle := h.le_count
  have hcount : threshold ≤ 16 := le_trans hle h.count_le
  refine ⟨by rw [List.length_append]; omega, ?_, ?_, ?_, ?_, ?_⟩
  · intro share hshare
    rcases List.mem_append.mp hshare with hmem | hmem
    · exact hitems share hmem
    · obtain ⟨j, hj, rfl⟩ := List.getElem_of_mem hmem
      have hlen := (hvalue (j + (threshold - 2)) (by omega) (by omega)).1
      rw [Nat.add_sub_cancel, List.getD_eq_getElem _ _ hj] at hlen
      exact hlen
  · intro b _
    have hdeg := Lagrange.degree_interpolate_lt
      (byteAt (splitValues shareCount first digest secret) b)
      (splitPlaces_injOn shareCount ht hcount)
    rw [Finset.card_range] at hdeg
    exact hdeg
  · exact fun b _ => (eval_dealt shareCount digest secret hfirst ht hcount b).2.1
  · exact fun b _ => (eval_dealt shareCount digest secret hfirst ht hcount b).2.2
  · intro b hb i hi
    by_cases hfst : i < threshold - 2
    · rw [(eval_dealt shareCount digest secret hfirst ht hcount b).1 i hfst, byteAt, byteAt,
        List.getD_append _ _ _ _ (by omega)]
    · rw [← (hvalue i (by omega) hi).2 b hb, byteAt, byteAt,
        List.getD_append_right _ _ _ _ (by omega), hfirst]

end Deal

/-- What `split_secret` returns for a threshold of 2 or more: its random shares first, and all
shares dealt by its polynomials. -/
theorem splitSecret_eq_ok {σ : Type} (hmac : List UInt8 → List UInt8 → ByteArrayOf 32)
    (fill : Generator σ) {threshold shareCount : ℕ} {secret : List UInt8}
    (h : ValidParameters threshold shareCount secret.length) (ht : 2 ≤ threshold) (g : σ) :
    let first := fillShares fill secret.length (threshold - 2) g
    let random := fill (secret.length - 4) first.2
    let digest := digestShare hmac random.1.val secret
    ∃ rest, splitSecret hmac fill threshold shareCount secret g =
        .ok (first.1 ++ rest, random.2) ∧
      Dealt threshold shareCount digest secret (first.1 ++ rest)
        (dealt threshold shareCount first.1 digest secret) := by
  intro first random digest
  have hle := h.le_count
  have hcount := h.count_le
  have hmin := h.le_length
  obtain ⟨hfirst, hitems⟩ := length_fillShares fill secret.length (threshold - 2) g
  have hdigest : digest.length = secret.length := by
    rw [length_digestShare]
    omega
  have hvalues := length_splitValues shareCount hitems hdigest
  let read := fun index => (interpolate threshold (splitPlaces threshold shareCount) secret.length
    (splitValues shareCount first.1 digest secret) (UInt8.ofNat index)).getD []
  have hread : ∀ index, interpolate threshold (splitPlaces threshold shareCount) secret.length
      (splitValues shareCount first.1 digest secret) (UInt8.ofNat index) = some (read index) ∧
      (read index).length = secret.length ∧ ∀ b < secret.length,
        ofByte ((read index).getD b 0) =
          (dealt threshold shareCount first.1 digest secret b).eval (node index) := by
    intro index
    obtain ⟨result, hresult, hlen, hbyte⟩ := interpolate_eq_some threshold
      (splitPlaces threshold shareCount) (splitValues shareCount first.1 digest secret) (by omega)
      (by rw [splitPlaces_eq, List.length_append, List.length_map, length_splitNumbers ht]; omega)
      (by
        rw [splitValues, List.length_append, List.length_append, List.length_replicate, hfirst]
        show threshold ≤ threshold - 2 + 2 + (shareCount - (threshold - 2 + 2))
        omega)
      h.length_le hvalues (UInt8.ofNat index)
    have heq : read index = result := by
      show (interpolate _ _ _ _ _).getD [] = result
      rw [hresult]
      rfl
    rw [heq]
    exact ⟨hresult, hlen, hbyte⟩
  refine ⟨(List.range' (threshold - 2) (shareCount - (threshold - 2))).map read, ?_, ?_⟩
  · have hmapM : (List.range' (threshold - 2) (shareCount - (threshold - 2))).mapM (fun index =>
        orPanic (interpolate threshold (splitPlaces threshold shareCount) secret.length
          (splitValues shareCount first.1 digest secret) (UInt8.ofNat index))) =
        .ok ((List.range' (threshold - 2) (shareCount - (threshold - 2))).map read) := by
      apply Fallible.mapM_of_forall
      intro index _
      rw [(hread index).1]
      rfl
    rw [splitSecret, validateParameters_eq_ok_iff.mpr h, Fallible.ok_bind, if_neg (by omega)]
    show ((List.range' (threshold - 2) (shareCount - (threshold - 2))).mapM (fun index =>
        orPanic (interpolate threshold (splitPlaces threshold shareCount) secret.length
          (splitValues shareCount first.1 digest secret) (UInt8.ofNat index))) >>= _) = _
    rw [hmapM]
    rfl
  · apply dealt_of_interpolate shareCount digest secret h ht hfirst hitems
    · rw [List.length_map, List.length_range']
    · intro i hi hlt
      have hget : ((List.range' (threshold - 2) (shareCount - (threshold - 2))).map read).getD
          (i - (threshold - 2)) [] = read i := by
        rw [List.getD_eq_getElem _ _ (by rw [List.length_map, List.length_range']; omega),
          List.getElem_map, List.getElem_range', Nat.one_mul, Nat.add_sub_cancel' hi]
      simp only [byteAt, hget]
      exact (hread i).2

/-- Splitting ends with the error of its parameters, or with shares. -/
lemma splitSecret_eq {σ : Type} (hmac : List UInt8 → List UInt8 → ByteArrayOf 32)
    (fill : Generator σ) (threshold shareCount : ℕ) (secret : List UInt8) (g : σ) :
    (∃ e, validateParameters threshold shareCount secret.length = .error (.error e) ∧
      splitSecret hmac fill threshold shareCount secret g = .error (.error e)) ∨
    validateParameters threshold shareCount secret.length = .ok () ∧
      ∃ result, splitSecret hmac fill threshold shareCount secret g = .ok result := by
  rcases validateParameters_total threshold shareCount secret.length with ⟨e, he⟩ | hok
  · refine Or.inl ⟨e, he, ?_⟩
    rw [splitSecret, he]
    rfl
  · refine Or.inr ⟨hok, ?_⟩
    have hvalid := validateParameters_eq_ok_iff.mp hok
    by_cases hone : threshold = 1
    · rw [splitSecret, hok, Fallible.ok_bind, if_pos hone]
      exact ⟨_, rfl⟩
    · have hle := hvalid.one_le
      obtain ⟨rest, hsplit, -⟩ := splitSecret_eq_ok hmac fill hvalid (by omega) g
      exact ⟨_, hsplit⟩

/-! ### Recovering -/

/-- The last step of `recover_secret`: the secret, if the digest is its own. -/
def checkDigest (hmac : List UInt8 → List UInt8 → ByteArrayOf 32) (digest secret : List UInt8) :
    Except Failure (List UInt8) :=
  if digest.take 4 = (createDigest hmac (digest.drop 4) secret).take 4 then .ok secret
  else .error (.error .checksumFailure)

/-- What `recover_secret` returns for two shares or more that pass its checks: it reads the
polynomials through the shares. -/
theorem recoverSecret_eq (hmac : List UInt8 → List UInt8 → ByteArrayOf 32) (indexes : List ℕ)
    (shares : List (List UInt8)) {len : ℕ} (hindexes : indexes.length = shares.length)
    (h : ValidParameters shares.length shares.length len)
    (hlen : ∀ share ∈ shares, share.length = len) (hmany : 2 ≤ shares.length) :
    ∃ digest secret, recoverSecret hmac indexes shares = checkDigest hmac digest secret ∧
      digest.length = len ∧ secret.length = len ∧ ∀ b < len,
        ofByte (digest.getD b 0) =
          (through shares.length (indexes.map UInt8.ofNat) shares b).eval (node 254) ∧
        ofByte (secret.getD b 0) =
          (through shares.length (indexes.map UInt8.ofNat) shares b).eval (node 255) := by
  obtain ⟨hd, tl, hcons⟩ : ∃ hd tl, shares = hd :: tl := by
    cases shares with
    | nil => simp at hmany
    | cons hd tl => exact ⟨hd, tl, rfl⟩
  have hhead : (shares.headD []).length = len := by
    rw [hcons]
    exact hlen hd (by rw [hcons]; exact List.mem_cons_self)
  have hall : (shares.all fun share => share.length == len) = true := by
    rw [List.all_eq_true]
    exact fun share hshare => beq_iff_eq.mpr (hlen share hshare)
  obtain ⟨digest, hdigest, hdlen, hdbyte⟩ := interpolate_eq_some shares.length
    (indexes.map UInt8.ofNat) shares h.count_le (by rw [List.length_map, hindexes]) (le_refl _)
    h.length_le hlen digestIndex
  obtain ⟨secret, hsecret, hslen, hsbyte⟩ := interpolate_eq_some shares.length
    (indexes.map UInt8.ofNat) shares h.count_le (by rw [List.length_map, hindexes]) (le_refl _)
    h.length_le hlen secretIndex
  refine ⟨digest, secret, ?_, hdlen, hslen, fun b hb => ⟨hdbyte b hb, hsbyte b hb⟩⟩
  rw [recoverSecret, if_neg (by omega), hhead]
  simp only [validateParameters_eq_ok_iff.mpr h, Fallible.ok_bind, hall, not_true_eq_false,
    if_false, hdigest, hsecret, orPanic]
  rw [if_neg (by omega)]
  rfl

/-- Recovering does not panic, on any shares and indexes. -/
lemma recoverSecret_ne_panic (hmac : List UInt8 → List UInt8 → ByteArrayOf 32) (indexes : List ℕ)
    (shares : List (List UInt8)) : recoverSecret hmac indexes shares ≠ .error .panic := by
  by_cases hcount : shares.length = 0 ∨ indexes.length ≠ shares.length
  · rw [recoverSecret, if_pos hcount]
    exact fun h => Failure.noConfusion (Except.error.inj h)
  rcases validateParameters_total shares.length shares.length (shares.headD []).length with
    ⟨e, he⟩ | hok
  · rw [recoverSecret, if_neg hcount]
    simp only [he]
    exact fun h => Failure.noConfusion (Except.error.inj h)
  by_cases hall : (shares.all fun share => share.length == (shares.headD []).length) = true
  · by_cases hone : shares.length = 1
    · rw [recoverSecret, if_neg hcount]
      simp only [hok, Fallible.ok_bind, hall, not_true_eq_false, if_false, if_pos hone]
      exact fun h => absurd h (by simp)
    · obtain ⟨digest, secret, heq, -⟩ := recoverSecret_eq hmac indexes shares (by omega)
        (validateParameters_eq_ok_iff.mp hok)
        (fun share hshare => beq_iff_eq.mp (List.all_eq_true.mp hall share hshare)) (by omega)
      rw [heq, checkDigest]
      split_ifs <;> simp
  · rw [recoverSecret, if_neg hcount]
    simp only [hok, Fallible.ok_bind]
    rw [if_pos hall]
    exact fun h => Failure.noConfusion (Except.error.inj h)

/-- Neither splitting nor recovering panics, and splitting fails on its parameters only. -/
theorem splitSecret_recoverSecret_ne_panic (hmac : List UInt8 → List UInt8 → ByteArrayOf 32) :
    (∀ (σ : Type) (fill : Generator σ) (threshold shareCount : ℕ) (secret : List UInt8) (g : σ),
      splitSecret hmac fill threshold shareCount secret g ≠ .error .panic ∧
      ((∃ result, splitSecret hmac fill threshold shareCount secret g = .ok result) ↔
        validateParameters threshold shareCount secret.length = .ok ())) ∧
    ∀ indexes shares, recoverSecret hmac indexes shares ≠ .error .panic := by
  refine ⟨?_, recoverSecret_ne_panic hmac⟩
  intro σ fill threshold shareCount secret g
  rcases splitSecret_eq hmac fill threshold shareCount secret g with
    ⟨e, hvalidate, hsplit⟩ | ⟨hvalidate, result, hsplit⟩
  · rw [hsplit, hvalidate]
    simp
  · rw [hsplit, hvalidate]
    simp

/-- What polynomials of degree below the number of points take at them, `interpolate` takes at
every other place. -/
theorem interpolate_eval (indexes : List ℕ) (shares : List (List UInt8))
    (hcount : indexes.length ≤ 16) (hnodup : indexes.Nodup) (hlt : ∀ i ∈ indexes, i < 256)
    {len : ℕ} (hlen : len ≤ 32)
    (hshares : shares.length = indexes.length) (hitems : ∀ share ∈ shares, share.length = len)
    {p : ℕ → Gf256[X]} (hdeg : ∀ b < len, (p b).degree < indexes.length)
    (heval : ∀ b < len, ∀ j < indexes.length,
      toByte ((p b).eval (node (indexes.getD j 0))) = (shares.getD j []).getD b 0) (x : UInt8) :
    ∃ result, interpolate indexes.length (indexes.map UInt8.ofNat) len shares x = some result ∧
      result.length = len ∧ ∀ b < len, result.getD b 0 = toByte ((p b).eval (ofByte x)) := by
  obtain ⟨result, hresult, hrlen, hbyte⟩ := interpolate_eq_some indexes.length
    (indexes.map UInt8.ofNat) shares hcount (List.length_map UInt8.ofNat).ge (by omega) hlen
    hitems x
  refine ⟨result, hresult, hrlen, ?_⟩
  intro b hb
  have hp : through indexes.length (indexes.map UInt8.ofNat) shares b = p b := by
    apply through_eq hnodup hlt (hdeg b hb)
    intro j hj
    rw [byteAt, ← heval b hb j hj, ofByte_toByte]
  rw [← hp, ← hbyte b hb, toByte_ofByte]

/-- Two points at the places 1 and 2, and the line through them: its value at 3 is their sum. -/
theorem interpolate_eval_line :
    ∃ result, interpolate 2 [1, 2] 1 [[1], [2]] 3 = some result ∧ result.length = 1 ∧
      ∀ b < 1, result.getD b 0 = toByte ((fun _ : ℕ => (X : Gf256[X])) b |>.eval (ofByte 3)) :=
  interpolate_eval [1, 2] [[1], [2]] (by decide) (by decide) (by decide)
    (by decide) rfl (by decide) (fun b _ => by rw [degree_X]; exact_mod_cast (by decide : 1 < 2))
    (by
      intro b hb j hj
      rw [eval_X]
      interval_cases b
      have hj' : j < 2 := hj
      interval_cases j <;> rfl) 3

end Identikey.Shamir
