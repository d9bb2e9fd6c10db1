/-
What one share fewer than the threshold says about the secret.

With a candidate for the secret as a further point, the shares give polynomials, and with
them a digest.  Some tape splits the candidate into these shares exactly when that digest
is the candidate's, which is what `recover_secret` checks: the 4 bytes of the digest are
all that such shares say.
-/
import Identikey.Shamir.Secrecy

namespace Identikey.Shamir

open Lib Polynomial

section Candidate

variable {hmac : List UInt8 → List UInt8 → ByteArrayOf 32} {threshold shareCount len : ℕ}
  {indexes : List ℕ} {seen : List (List UInt8)}

lemma checkDigest_eq_ok_iff {digest secret secret' : List UInt8} :
    checkDigest hmac digest secret = .ok secret' ↔
      secret = secret' ∧ digest = digestShare hmac (digest.drop 4) secret := by
  have hdigest : digest.take 4 = (createDigest hmac (digest.drop 4) secret).take 4 ↔
      digest = digestShare hmac (digest.drop 4) secret := by
    have hlen : ((createDigest hmac (digest.drop 4) secret).take 4).length = 4 := by
      rw [List.length_take, createDigest, (hmac (digest.drop 4) secret).property]
      rfl
    constructor
    · intro h
      rw [digestShare, ← h, List.take_append_drop]
    · intro h
      conv_lhs => rw [h, digestShare, List.take_left' hlen]
  rw [checkDigest, ← hdigest]
  split_ifs with h
  · simp [h]
  · simp [h]

/-- The numbers of the shares seen, and that of the secret. -/
lemma candidateNumbers (hnodup : indexes.Nodup) (hlt : ∀ i ∈ indexes, i < 254) :
    (indexes ++ [255]).Nodup ∧ ∀ i ∈ indexes ++ [255], i < 256 := by
  constructor
  · rw [List.nodup_append]
    refine ⟨hnodup, by decide, ?_⟩
    intro i hi j hj
    have hin := hlt i hi
    rw [List.mem_singleton] at hj
    omega
  · intro i hi
    rcases List.mem_append.mp hi with h | h
    · have hin := hlt i h
      omega
    · rw [List.mem_singleton] at h
      omega

lemma byteAt_candidate (candidate : List UInt8) (hseen : seen.length = indexes.length) (b : ℕ) :
    (∀ j < indexes.length, byteAt (seen ++ [candidate]) b j = byteAt seen b j ∧
      (indexes ++ [255]).getD j 0 = indexes.getD j 0) ∧
    byteAt (seen ++ [candidate]) b indexes.length = ofByte (candidate.getD b 0) ∧
    (indexes ++ [255]).getD indexes.length 0 = 255 := by
  refine ⟨?_, ?_, ?_⟩
  · intro j hj
    refine ⟨?_, List.getD_append _ _ _ _ hj⟩
    rw [byteAt, byteAt, List.getD_append _ _ _ _ (by omega)]
  · rw [byteAt, ← hseen, List.getD_append_right _ _ _ _ (le_refl _), Nat.sub_self]
    rfl
  · rw [List.getD_append_right _ _ _ _ (le_refl _), Nat.sub_self]
    rfl

lemma select_eq_of_byteAt {shares : List (List UInt8)} (hseen : seen.length = indexes.length)
    (hshares : ∀ share ∈ shares, share.length = len) (hlt : ∀ i ∈ indexes, i < shares.length)
    (hitems : ∀ share ∈ seen, share.length = len)
    (h : ∀ b < len, ∀ j < indexes.length, byteAt shares b (indexes.getD j 0) = byteAt seen b j) :
    select shares indexes = seen := by
  apply List.ext_getElem (by rw [hseen]; exact List.length_map _)
  intro j hj hj'
  have hi : indexes[j] < shares.length := hlt _ (List.getElem_mem _)
  apply bytes_ext (n := len)
  · have hsel : (select shares indexes)[j] = shares.getD indexes[j] [] := List.getElem_map _
    rw [hsel, List.getD_eq_getElem _ _ hi]
    exact hshares _ (List.getElem_mem _)
  · exact hitems _ (List.getElem_mem hj')
  · intro b hb
    have hbyte := h b hb j (by omega)
    rw [byteAt, byteAt, ← getD_select shares (by omega), List.getD_eq_getElem _ _ hj,
      List.getD_eq_getElem _ _ hj'] at hbyte
    exact hbyte

/-- Some tape splits a candidate into the shares seen, one fewer than the threshold, exactly when
`recover_secret` accepts the candidate along with them. -/
theorem exists_tape_iff (h : validateParameters threshold shareCount len = .ok ())
    (ht : 2 ≤ threshold) {candidate : ByteArrayOf len} (hnodup : indexes.Nodup)
    (hlt : ∀ i ∈ indexes, i < shareCount) (hone : indexes.length + 1 = threshold)
    (hseen : seen.length = indexes.length) (hitems : ∀ share ∈ seen, share.length = len) :
    (∃ (tape : ByteArrayOf (tapeLength threshold len)) (shares : List (List UInt8)),
      splitSecret hmac tapeFill threshold shareCount candidate.val tape.val = .ok (shares, []) ∧
      select shares indexes = seen) ↔
    recoverSecret hmac (indexes ++ [255]) (seen ++ [candidate.val]) = .ok candidate.val := by
  have hvalid := validateParameters_eq_ok_iff.mp h
  obtain ⟨candidate, rfl⟩ := candidate
  have hcount := hvalid.count_le
  have hle := hvalid.le_count
  have hlt' : ∀ i ∈ indexes, i < 254 := fun i hi => by have hin := hlt i hi; omega
  obtain ⟨hnumbers, hnumbers'⟩ := candidateNumbers hnodup hlt'
  have hks : (indexes ++ [255]).length = threshold := by
    rw [List.length_append]
    exact hone
  have hys : (seen ++ [candidate]).length = threshold := by
    rw [List.length_append, hseen]
    exact hone
  obtain ⟨digest, secret, hrecover, hdlen, hslen, hbyte⟩ := recoverSecret_eq hmac
    (indexes ++ [255]) (seen ++ [candidate]) (by omega)
    (by
      rw [hys]
      exact ⟨by omega, by omega, le_refl _, hvalid.length_le, hvalid.le_length, hvalid.even⟩)
    (by
      intro share hshare
      rcases List.mem_append.mp hshare with hmem | hmem
      · exact hitems share hmem
      · rw [List.mem_singleton.mp hmem])
    (by omega)
  rw [hys, ← hks] at hbyte
  rw [hrecover, checkDigest_eq_ok_iff]
  constructor
  · rintro ⟨tape, shares, hsplit, hselect⟩
    obtain ⟨d, hd⟩ := Draws.exists_of_length tape.property
    obtain ⟨rest, p, hsplit', hdealt⟩ := splitSecret_tape hmac hvalid ht d
    rw [hd, hsplit'] at hsplit
    obtain rfl := (Prod.mk.inj (Except.ok.inj hsplit)).1
    have hp : ∀ b < candidate.length, through (indexes ++ [255]).length
        ((indexes ++ [255]).map UInt8.ofNat) (seen ++ [candidate]) b = p b := by
      intro b hb
      obtain ⟨hget, hget₁, hnum⟩ := byteAt_candidate candidate hseen b
      apply through_eq hnumbers hnumbers'
      · rw [hks]
        exact hdealt.degree_lt b hb
      · intro j hj
        by_cases hlast : j < indexes.length
        · have hmem : indexes.getD j 0 ∈ indexes := by
            rw [List.getD_eq_getElem _ _ hlast]
            exact List.getElem_mem hlast
          rw [(hget j hlast).1, (hget j hlast).2, ← hselect, byteAt_select hlast,
            hdealt.eval_share b hb _ (hlt _ hmem)]
        · obtain rfl : j = indexes.length := by omega
          rw [hnum, hget₁, hdealt.eval_secret b hb]
    have hdigest : digest = digestShare hmac d.random.val candidate := by
      apply bytes_ext hdlen (by rw [length_digestShare]; have hmin := hvalid.le_length; omega)
      intro b hb
      rw [(hbyte b hb).1, hp b hb, hdealt.eval_digest b hb]
    have hsecret : secret = candidate := by
      apply bytes_ext hslen rfl
      intro b hb
      rw [(hbyte b hb).2, hp b hb, hdealt.eval_secret b hb]
    have hrandom : digest.drop 4 = d.random.val := by
      rw [hdigest, digestShare, List.drop_left']
      rw [List.length_take, createDigest, (hmac d.random.val candidate).property]
      rfl
    refine ⟨hsecret, ?_⟩
    rw [hrandom, hsecret, hdigest]
  · rintro ⟨rfl, hdigest⟩
    have hmin := hvalid.le_length
    have hq : ∀ b < secret.length, (through (indexes ++ [255]).length
        ((indexes ++ [255]).map UInt8.ofNat) (seen ++ [secret]) b).eval (node 254) =
          ofByte ((digestShare hmac (digest.drop 4) secret).getD b 0) := by
      intro b hb
      rw [← hdigest]
      exact (hbyte b hb).1.symm
    obtain ⟨d, shares, hrandom, hsplit, hdealt⟩ := exists_draws hmac hvalid ht
      ⟨digest.drop 4, by rw [List.length_drop, hdlen]⟩ (fun b _ =>
        hks ▸ degree_through hnumbers hnumbers' (seen ++ [secret]) b) hq
      (fun b hb => (hbyte b hb).2.symm)
    refine ⟨⟨d.tape, d.length_tape⟩, shares, hsplit, ?_⟩
    apply select_eq_of_byteAt hseen hdealt.length_share
      (by rw [hdealt.length_shares]; exact hlt) hitems
    intro b hb j hj
    obtain ⟨hget, -, -⟩ := byteAt_candidate secret hseen b
    have hmem : indexes.getD j 0 ∈ indexes := by
      rw [List.getD_eq_getElem _ _ hj]
      exact List.getElem_mem hj
    rw [← hdealt.eval_share b hb _ (hlt _ hmem), ← (hget j hj).1, ← (hget j hj).2]
    exact eval_through hnumbers hnumbers' (seen ++ [secret]) b (by omega)

/-- One share seen, where two recover the secret. -/
theorem exists_tape_iff_two_of_three :
    (∃ (tape : ByteArrayOf (tapeLength 2 16)) (shares : List (List UInt8)),
      splitSecret hmacSha256 tapeFill 2 3 (List.replicate 16 0) tape.val = .ok (shares, []) ∧
      select shares [1] = [List.replicate 16 7]) ↔
    recoverSecret hmacSha256 [1, 255] [List.replicate 16 7, List.replicate 16 0] =
      .ok (List.replicate 16 0) :=
  @exists_tape_iff hmacSha256 2 3 16 [1] [List.replicate 16 7] rfl (by decide)
    ⟨List.replicate 16 0, List.length_replicate⟩ (by decide) (by decide) rfl rfl
    (fun share hshare => by rw [List.mem_singleton.mp hshare, List.length_replicate])

end Candidate

end Identikey.Shamir
