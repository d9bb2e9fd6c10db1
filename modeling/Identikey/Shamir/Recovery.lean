/-
Recovering a secret from its shares.

Any shares of a split, as many as its threshold or more and each once, give the secret
back.  The exception is a threshold of 1: the shares are then copies of the secret, and
two of them or more are taken for points of a polynomial whose digest nobody wrote.
-/
import Identikey.Auth.Sha256
import Identikey.Shamir.ShamirExact

namespace Identikey.Shamir

open Lib Polynomial

variable {threshold shareCount : ℕ} {digest secret : List UInt8} {shares : List (List UInt8)}
  {p : ℕ → Gf256[X]}

/-- The shares at these indexes. -/
def select (shares : List (List UInt8)) (indexes : List ℕ) : List (List UInt8) :=
  indexes.map fun i => shares.getD i []

lemma getD_select (shares : List (List UInt8)) {indexes : List ℕ} {j : ℕ}
    (hj : j < indexes.length) :
    (select shares indexes).getD j [] = shares.getD (indexes.getD j 0) [] := by
  rw [select, List.getD_eq_getElem _ _ (by rw [List.length_map]; exact hj), List.getElem_map,
    List.getD_eq_getElem _ _ hj]

lemma byteAt_select {indexes : List ℕ} {j : ℕ} (hj : j < indexes.length) (b : ℕ) :
    byteAt (select shares indexes) b j = byteAt shares b (indexes.getD j 0) := by
  rw [byteAt, byteAt, getD_select shares hj]

lemma length_select {indexes : List ℕ} (hlen : ∀ share ∈ shares, share.length = secret.length)
    (hlt : ∀ i ∈ indexes, i < shares.length) :
    ∀ share ∈ select shares indexes, share.length = secret.length := by
  intro share hshare
  obtain ⟨i, hi, rfl⟩ := List.mem_map.mp hshare
  rw [List.getD_eq_getElem _ _ (hlt i hi)]
  exact hlen _ (List.getElem_mem _)

/-- The polynomial through enough shares is the one they were dealt by. -/
lemma through_select (hdealt : Dealt threshold shareCount digest secret shares p)
    {indexes : List ℕ} (hnodup : indexes.Nodup) (hlt : ∀ i ∈ indexes, i < shareCount)
    (hcount : shareCount ≤ 256) (hmany : threshold ≤ indexes.length) {b : ℕ}
    (hb : b < secret.length) :
    through indexes.length (indexes.map UInt8.ofNat) (select shares indexes) b = p b := by
  apply through_eq hnodup fun i hi => lt_of_lt_of_le (hlt i hi) hcount
  · exact lt_of_lt_of_le (hdealt.degree_lt b hb) (by exact_mod_cast hmany)
  · intro j hj
    have hmem : indexes.getD j 0 ∈ indexes := by
      rw [List.getD_eq_getElem _ _ hj]
      exact List.getElem_mem hj
    rw [byteAt_select hj, hdealt.eval_share b hb _ (hlt _ hmem)]

lemma nodup_length_le {indexes : List ℕ} (hnodup : indexes.Nodup)
    (hlt : ∀ i ∈ indexes, i < shareCount) : indexes.length ≤ shareCount := by
  have hsub : indexes ⊆ List.range shareCount := fun i hi => List.mem_range.mpr (hlt i hi)
  have hle := (List.subperm_of_subset hnodup hsub).length_le
  rw [List.length_range] at hle
  exact hle

/-- Enough shares of a dealt secret give it back, up to the check of its digest. -/
lemma recoverSecret_select (hmac : List UInt8 → List UInt8 → ByteArrayOf 32)
    (h : ValidParameters threshold shareCount secret.length)
    (hdealt : Dealt threshold shareCount digest secret shares p)
    (hdigest : digest.length = secret.length) {indexes : List ℕ} (hnodup : indexes.Nodup)
    (hlt : ∀ i ∈ indexes, i < shareCount) (hmany : threshold ≤ indexes.length)
    (htwo : 2 ≤ indexes.length) :
    recoverSecret hmac indexes (select shares indexes) = checkDigest hmac digest secret := by
  have hsel : (select shares indexes).length = indexes.length := List.length_map _
  have hle := nodup_length_le hnodup hlt
  have hcount := h.count_le
  obtain ⟨digest', secret', heq, hdlen, hslen, hbyte⟩ := recoverSecret_eq hmac
    indexes (select shares indexes) hsel.symm
    ⟨by omega, by omega, le_refl _, h.length_le, h.le_length, h.even⟩
    (length_select hdealt.length_share (by rw [hdealt.length_shares]; exact hlt)) (by omega)
  have hp : ∀ b < secret.length, through (select shares indexes).length
      (indexes.map UInt8.ofNat) (select shares indexes) b = p b := by
    intro b hb
    rw [hsel]
    exact through_select hdealt hnodup hlt (by omega) hmany hb
  have hd : digest' = digest := by
    apply bytes_ext hdlen hdigest
    intro b hb
    rw [(hbyte b hb).1, hp b hb, hdealt.eval_digest b hb]
  have hs : secret' = secret := by
    apply bytes_ext hslen rfl
    intro b hb
    rw [(hbyte b hb).2, hp b hb, hdealt.eval_secret b hb]
  rw [heq, hd, hs]

/-- The digest that `split_secret` wrote is the one that `recover_secret` computes. -/
lemma checkDigest_digestShare (hmac : List UInt8 → List UInt8 → ByteArrayOf 32)
    (random secret : List UInt8) :
    checkDigest hmac (digestShare hmac random secret) secret = .ok secret := by
  have hlen : ((createDigest hmac random secret).take 4).length = 4 := by
    rw [List.length_take, createDigest, (hmac random secret).property]
    rfl
  rw [checkDigest, digestShare, List.take_left' hlen, List.drop_left' hlen, if_pos rfl]

/-- Copies of a secret are dealt by constant polynomials. -/
lemma dealt_replicate (shareCount : ℕ) (secret : List UInt8) :
    Dealt 1 shareCount secret secret (List.replicate shareCount secret)
      (fun b => C (ofByte (secret.getD b 0))) where
  length_shares := List.length_replicate
  length_share share hshare := by rw [(List.mem_replicate.mp hshare).2]
  degree_lt b _ := lt_of_le_of_lt degree_C_le (by norm_num)
  eval_digest b _ := eval_C
  eval_secret b _ := eval_C
  eval_share b _ i hi := by
    rw [eval_C, byteAt, List.getD_replicate _ hi]

section Split

variable {σ : Type} {hmac : List UInt8 → List UInt8 → ByteArrayOf 32} {fill : Generator σ}
  {g g' : σ}

lemma validParameters_of_splitSecret
    (h : splitSecret hmac fill threshold shareCount secret g = .ok (shares, g')) :
    ValidParameters threshold shareCount secret.length := by
  obtain ⟨⟨⟩, hvalid, -⟩ := Fallible.bind_eq_ok.mp h
  exact validateParameters_eq_ok_iff.mp hvalid

lemma splitSecret_one (h : ValidParameters 1 shareCount secret.length) :
    splitSecret hmac fill 1 shareCount secret g =
      .ok (List.replicate shareCount secret, g) := by
  rw [splitSecret, validateParameters_eq_ok_iff.mpr h, Fallible.ok_bind, if_pos rfl]

lemma recoverSecret_one {share : List UInt8} {i : ℕ} (h : ValidParameters 1 1 share.length) :
    recoverSecret hmac [i] [share] = .ok share := by
  rw [recoverSecret, if_neg (by simp)]
  show (validateParameters 1 1 share.length >>= _) = _
  rw [validateParameters_eq_ok_iff.mpr h, Fallible.ok_bind]
  simp

/-- Any shares of a split, in any order, as many as the threshold or more and each once, recover
the secret; shares of a threshold of 1 do so alone, and together only if the secret starts with its
own digest. -/
theorem recoverSecret_splitSecret
    (h : splitSecret hmac fill threshold shareCount secret g = .ok (shares, g'))
    {indexes : List ℕ} (hnodup : indexes.Nodup) (hlt : ∀ i ∈ indexes, i < shareCount)
    (hmany : threshold ≤ indexes.length) :
    recoverSecret hmac indexes (select shares indexes) =
      if threshold = 1 ∧ 2 ≤ indexes.length then checkDigest hmac secret secret
      else .ok secret := by
  have hvalid := validParameters_of_splitSecret h
  by_cases hone : threshold = 1
  · subst hone
    rw [splitSecret_one hvalid] at h
    obtain ⟨rfl, rfl⟩ := Prod.mk.inj (Except.ok.inj h)
    by_cases htwo : 2 ≤ indexes.length
    · rw [if_pos ⟨rfl, htwo⟩]
      exact recoverSecret_select hmac hvalid (dealt_replicate shareCount secret) rfl hnodup hlt
        hmany htwo
    · obtain ⟨i, rfl⟩ := List.length_eq_one_iff.mp (by omega : indexes.length = 1)
      have hi : (List.replicate shareCount secret).getD i [] = secret :=
        List.getD_replicate _ (hlt i (List.mem_singleton_self i))
      rw [if_neg (fun hand => htwo hand.2)]
      show recoverSecret hmac [i] [(List.replicate shareCount secret).getD i []] = _
      rw [hi]
      exact recoverSecret_one ⟨by omega, le_refl _, le_refl _, hvalid.length_le,
        hvalid.le_length, hvalid.even⟩
  · have ht : 2 ≤ threshold := by
      have hle := hvalid.one_le
      omega
    obtain ⟨rest, hsplit, hdealt⟩ := splitSecret_eq_ok hmac fill hvalid ht g
    rw [hsplit] at h
    obtain ⟨rfl, rfl⟩ := Prod.mk.inj (Except.ok.inj h)
    rw [if_neg (fun hand => hone hand.1), recoverSecret_select hmac hvalid hdealt _ hnodup hlt hmany
      (by omega), checkDigest_digestShare]
    have hmin := hvalid.le_length
    rw [length_digestShare]
    omega

/-- `hmac_sha256`, for keys of up to a block of the hash. -/
def hmacSha256 (key message : List UInt8) : ByteArrayOf 32 :=
  let block := key ++ List.replicate (64 - key.length) 0
  Auth.sha256 (block.map (· ^^^ 0x5c) ++
    (Auth.sha256 (block.map (· ^^^ 0x36) ++ message)).val)

/-- A generator for tests: every buffer holds the multiples of 17. -/
def fakeFill : Generator Unit := fun n _ =>
  (⟨(List.range n).map fun i => UInt8.ofNat (17 * i), by rw [List.length_map, List.length_range]⟩,
    ())

/-- Shares 6, 3 and 4 of 7 recover a secret that two shares can. -/
theorem recoverSecret_splitSecret_two_of_seven :
    ∃ shares, splitSecret hmacSha256 fakeFill 2 7 (List.replicate 32 5) () = .ok (shares, ()) ∧
      recoverSecret hmacSha256 [6, 3, 4] (select shares [6, 3, 4]) =
        if 2 = 1 ∧ 2 ≤ [6, 3, 4].length
        then checkDigest hmacSha256 (List.replicate 32 5) (List.replicate 32 5)
        else .ok (List.replicate 32 5) := by
  have hvalid : ValidParameters 2 7 (List.replicate 32 (5 : UInt8)).length := by
    constructor <;> decide
  obtain ⟨rest, hsplit, -⟩ := splitSecret_eq_ok hmacSha256 fakeFill hvalid (by decide) ()
  exact ⟨_, hsplit, recoverSecret_splitSecret hsplit (by decide) (by decide) (by decide)⟩

end Split

end Identikey.Shamir
