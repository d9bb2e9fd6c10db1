/-
What the identity of a share and its access set stand for.

The bytes behind `content_id` tell the nonce and the ciphertext.  The bytes behind
`access_commitment` tell the targets and the capsules, each as a multiset: the parts are
hashed in order, each behind its length, and a target is a map of two entries where a
capsule is one of four.
-/
import Identikey.Lib.PrefixCode
import Identikey.Share.ShareExact

set_option linter.dupNamespace false

namespace Identikey.Share

open Lib Lib.Fallible Auth Dcbor

variable {host : Host} {s s' : Share}

/-! ### The payload -/

/-- **The content id is of the nonce and the ciphertext.** -/
lemma contentMaterial_eq_iff :
    s.contentMaterial = s'.contentMaterial ↔ s.nonce = s'.nonce ∧ s.ciphertext = s'.ciphertext := by
  constructor
  · intro h
    simp only [Share.contentMaterial, List.append_assoc] at h
    obtain ⟨hnonce, h⟩ :=
      List.append_inj (List.append_cancel_left h) (by rw [s.nonce.2, s'.nonce.2])
    obtain ⟨-, hciphertext⟩ := List.append_inj h (by rw [length_beBytes, length_beBytes])
    exact ⟨Subtype.ext hnonce, hciphertext⟩
  · rintro ⟨hnonce, hciphertext⟩
    rw [Share.contentMaterial, Share.contentMaterial, hnonce, hciphertext]

/-! ### Parts behind their lengths -/

/-- A part behind its length tells where it ends. -/
lemma framed_unambiguous {a b : Bytes} (ha : a.length < 2 ^ 64) (hb : b.length < 2 ^ 64) :
    Unambiguous framed id a b := by
  intro t u h
  simp only [framed, List.append_assoc, UInt64.toNat_ofNat_of_lt' ha,
    UInt64.toNat_ofNat_of_lt' hb] at h
  obtain ⟨hlen, h⟩ := List.append_inj h (by rw [length_beBytes, length_beBytes])
  have hlen' : a.length = b.length := by
    rw [← ofBeBytes_beBytes (k := 8) ha, hlen, ofBeBytes_beBytes hb]
  exact List.append_inj h hlen'

lemma framed_ne_nil (part : Bytes) : framed part ≠ [] := by
  have hpos : 0 < (framed part).length := by
    rw [framed, List.length_append, length_beBytes]
    omega
  exact List.ne_nil_of_length_pos hpos

/-- Every part of the access set is shorter than `2 ^ 64` bytes. -/
def Share.AccessFits (s : Share) (host : Host) : Prop := ∀ part ∈ s.parts host, part.length < 2 ^ 64

instance : Decidable (s.AccessFits host) :=
  inferInstanceAs (Decidable (∀ part ∈ s.parts host, part.length < 2 ^ 64))

/-- **The access commitment is of the multiset of parts.** -/
lemma accessMaterial_eq_iff (hfit : s.AccessFits host) (hfit' : s'.AccessFits host) :
    s.accessMaterial host = s'.accessMaterial host ↔ (s.parts host).Perm (s'.parts host) := by
  rw [← sortOn_eq_iff_perm Function.injective_id]
  constructor
  · intro h
    simp only [Share.accessMaterial, List.append_assoc] at h
    obtain ⟨-, h⟩ := List.append_inj (List.append_cancel_left h)
      (by rw [length_beBytes, length_beBytes])
    have hparts := Unambiguous.flatMap_eq (fun a ha b hb => framed_unambiguous
      (hfit a ((mem_sortOn id).mp ha)) (hfit' b ((mem_sortOn id).mp hb))) framed_ne_nil h
    rwa [List.map_id, List.map_id] at hparts
  · intro h
    simp only [Share.accessMaterial, h]

/-- The order of the parts does not matter. -/
lemma accessCommitment_congr (h : (s.parts host).Perm (s'.parts host)) (blake3 : Bytes → Digest32) :
    s.accessCommitment blake3 host = s'.accessCommitment blake3 host := by
  unfold Share.accessCommitment Share.accessMaterial
  rw [(sortOn_eq_iff_perm Function.injective_id).mpr h]

/-! ### Targets and capsules -/

lemma targetCbor_head (t : WrapPublic) : (targetCbor host t).head? = some 0xa2 := by
  have hhead : encodeLen 2 .map = [0xa2] := by decide
  have hlen : (textEntries (targetFields t)).length = 2 := rfl
  rw [targetCbor_eq, targetValue, toCborData_map, hlen, hhead]
  rfl

lemma capsuleCbor_head (c : RecryptCapsule) : (capsuleCbor host c).head? = some 0xa4 := by
  have hhead : encodeLen 4 .map = [0xa4] := by decide
  have hlen : (textEntries (capsuleFields c)).length = 4 := rfl
  rw [capsuleCbor_eq, capsuleValue, toCborData_map, hlen, hhead]
  rfl

lemma targetValue_fits (t : WrapPublic) : (targetValue t).Fits host := by
  have htag : ((CBOR.text t.tag).toCborData host).length ≤ 42 := by
    cases t with
    | X25519 b => exact (@length_text_le host "x25519" (by decide)).trans (by decide)
    | Ed25519 b => exact (@length_text_le host "ed25519" (by decide)).trans (by decide)
    | P256 b => exact (@length_text_le host "p256" (by decide)).trans (by decide)
  have hkey : ((CBOR.byteString t.keyBytes).toCborData host).length ≤ 42 := by
    refine (length_byteString_le _).trans ?_
    cases t with
    | X25519 b | Ed25519 b | P256 b => simp [WrapPublic.keyBytes, b.2]
  have hkeys : ∀ k ∈ TARGET_KEYS, (utf8 k).length ≤ 3 := by decide
  have hlen := @length_textEntries_le host (targetFields t) 3 42 targetKeys_ascii hkeys
    (by simp [targetFields, htag, hkey])
  exact hlen.trans_lt (by simp [targetFields])

lemma targetCbor_injective : Function.Injective (targetCbor host) := by
  intro t t' h
  rw [targetCbor_eq, targetCbor_eq] at h
  have hvalue := (targetValue_canonical t).eq_of_toCborData (targetValue_canonical t')
    (targetValue_fits t) h
  simp only [targetValue, textEntries, targetFields, List.map_cons, List.map_nil,
    CBOR.map.injEq, List.cons.injEq, Prod.mk.injEq, CBOR.text.injEq, CBOR.byteString.injEq,
    true_and, and_true] at hvalue
  obtain ⟨htag, hkey⟩ := hvalue
  -- the tag tells which kind of key it is
  cases t <;> cases t' <;> simp_all [WrapPublic.tag, WrapPublic.keyBytes, Subtype.ext_iff]

/-- Capsules of the same bytes differ at most in how their backend is written. -/
lemma normal_eq_of_capsuleCbor {c c' : RecryptCapsule}
    (hfit : (capsuleCbor host c).length < 2 ^ 64)
    (h : capsuleCbor host c = capsuleCbor host c') : c.normal host = c'.normal host := by
  rw [← capsuleCbor_normal, ← capsuleCbor_normal c', capsuleCbor_eq, capsuleCbor_eq] at h
  rw [← capsuleCbor_normal, capsuleCbor_eq] at hfit
  have hcanonical : ∀ d : RecryptCapsule, (capsuleValue (d.normal host)).Canonical host :=
    fun d => capsuleValue_canonical (host.nfc_nfc _)
  have hvalue := (hcanonical c).eq_of_toCborData (hcanonical c') hfit h
  simp only [capsuleValue, textEntries, capsuleFields, List.map_cons, List.map_nil,
    CBOR.map.injEq, List.cons.injEq, Prod.mk.injEq, CBOR.text.injEq, CBOR.byteString.injEq,
    true_and, and_true] at hvalue
  obtain ⟨hbackend, hrecipient, hciphertext⟩ := hvalue
  rw [RecryptCapsule.mk.injEq]
  exact ⟨hbackend, hrecipient, hciphertext⟩

/-- **The access set is the multiset of targets and that of encoded capsules.** -/
lemma parts_perm_iff :
    (s.parts host).Perm (s'.parts host) ↔ s.targets.Perm s'.targets ∧
      (s.recrypt.map (capsuleCbor host)).Perm (s'.recrypt.map (capsuleCbor host)) := by
  have htarget : ∀ ts : List WrapPublic, ∀ part ∈ ts.map (targetCbor host),
      part.head? = some 0xa2 := fun ts => List.forall_mem_map.mpr fun t _ => targetCbor_head t
  have hcapsule : ∀ cs : List RecryptCapsule, ∀ part ∈ cs.map (capsuleCbor host),
      ¬ part.head? = some 0xa2 := by
    refine fun cs => List.forall_mem_map.mpr fun c _ => ?_
    rw [capsuleCbor_head]
    decide
  rw [Share.parts, Share.parts, perm_append_iff (htarget _) (htarget _) (hcapsule _) (hcapsule _),
    List.map_perm_map_iff targetCbor_injective]

/-- Equal encodings of capsules are those of equal capsules, up to how backends are written. -/
lemma capsules_perm_iff (hfit : s.AccessFits host) :
    (s.recrypt.map (capsuleCbor host)).Perm (s'.recrypt.map (capsuleCbor host)) ↔
      (s.recrypt.map (RecryptCapsule.normal host)).Perm
        (s'.recrypt.map (RecryptCapsule.normal host)) := by
  have hnormal : ∀ cs : List RecryptCapsule, cs.map (capsuleCbor host) =
      (cs.map (RecryptCapsule.normal host)).map (capsuleCbor host) := by
    intro cs
    rw [List.map_map]
    exact List.map_congr_left fun c _ => (capsuleCbor_normal c).symm
  rw [hnormal s.recrypt, hnormal s'.recrypt]
  refine map_perm_map_iff_of_forall fun c hc c' hc' hsame => ?_
  obtain ⟨d, hd, rfl⟩ := List.mem_map.mp hc
  obtain ⟨d', hd', rfl⟩ := List.mem_map.mp hc'
  rw [capsuleCbor_normal, capsuleCbor_normal] at hsame
  exact normal_eq_of_capsuleCbor (hfit _ (List.mem_append_right _ (List.mem_map_of_mem hd))) hsame

/-- **The access commitment identifies the access set.**  Shares have one commitment exactly when
they have the same targets and the same capsules, each as a multiset and the backends in
normalisation form C; no order of the recipients changes it, and no target is taken for a
capsule. -/
theorem accessCommitment_eq_iff (hfit : s.AccessFits host) (hfit' : s'.AccessFits host)
    {blake3 : Bytes → Digest32}
    (hblake3 : Set.InjOn blake3 {s.accessMaterial host, s'.accessMaterial host}) :
    (s.accessCommitment blake3 host = s'.accessCommitment blake3 host ↔
      s.targets.Perm s'.targets ∧ (s.recrypt.map (RecryptCapsule.normal host)).Perm
        (s'.recrypt.map (RecryptCapsule.normal host))) ∧
    (∀ targets recrypt, targets.Perm s.targets → recrypt.Perm s.recrypt →
      ({ s with targets, recrypt } : Share).accessCommitment blake3 host =
        s.accessCommitment blake3 host) ∧
    ∀ t ∈ s.targets, ∀ c ∈ s'.recrypt, targetCbor host t ≠ capsuleCbor host c := by
  refine ⟨?_, fun targets recrypt htargets hrecrypt => ?_, fun t _ c _ hsame => ?_⟩
  · rw [← capsules_perm_iff hfit, ← parts_perm_iff, ← accessMaterial_eq_iff hfit hfit']
    exact ⟨fun h => hblake3 (by simp) (by simp) h, fun h => congrArg blake3 h⟩
  · exact accessCommitment_congr (parts_perm_iff.mpr ⟨htargets, hrecrypt.map _⟩) blake3
  · have hhead := @targetCbor_head host t
    rw [hsame, capsuleCbor_head] at hhead
    exact absurd hhead (by decide)

/-- A share with capsules for two recipients, the backend of the first as it is given. -/
def twoCapsules (backend : String) : Share :=
  { epoch := 0, nonce := fill 24 2, ciphertext := [], wraps := [], targets := [],
    recrypt := [{ backend, recipient := [1], ciphertext := [7] },
      { backend := "lattice-bfv", recipient := [2], ciphertext := [8] }] }

/-- The same two, listed the other way round. -/
def capsulesReversed (backend : String) : Share :=
  { twoCapsules backend with recrypt := (twoCapsules backend).recrypt.reverse }

/-- Neither the order of the capsules nor the form of a backend is part of the commitment, and
another backend is. -/
theorem accessCommitment_eq_iff_reversed :
    (twoCapsules "e\u0301").accessCommitment sampleHash Host.composing =
      (capsulesReversed "\u00e9").accessCommitment sampleHash Host.composing ∧
    (twoCapsules "e\u0301").accessCommitment sampleHash Host.composing ≠
      (capsulesReversed "e").accessCommitment sampleHash Host.composing := by
  have hfit : (twoCapsules "e\u0301").AccessFits Host.composing := by decide +kernel
  have hfit' : (capsulesReversed "\u00e9").AccessFits Host.composing := by decide +kernel
  have hother : (capsulesReversed "e").AccessFits Host.composing := by decide +kernel
  have hcapsules : ((twoCapsules "e\u0301").recrypt.map (RecryptCapsule.normal Host.composing)).Perm
      ((capsulesReversed "\u00e9").recrypt.map (RecryptCapsule.normal Host.composing)) := by
    decide +kernel
  have hapart :
      ¬ ((twoCapsules "e\u0301").recrypt.map (RecryptCapsule.normal Host.composing)).Perm
        ((capsulesReversed "e").recrypt.map (RecryptCapsule.normal Host.composing)) := by
    decide +kernel
  have hmaterial := (accessMaterial_eq_iff hfit hfit').mpr
    (parts_perm_iff.mpr ⟨.nil, (capsules_perm_iff hfit).mpr hcapsules⟩)
  have hhash : Set.InjOn sampleHash {(twoCapsules "e\u0301").accessMaterial Host.composing,
      (capsulesReversed "\u00e9").accessMaterial Host.composing} := by
    rw [Set.injOn_pair]
    exact fun _ => hmaterial
  have hhash' : Set.InjOn sampleHash {(twoCapsules "e\u0301").accessMaterial Host.composing,
      (capsulesReversed "e").accessMaterial Host.composing} := by
    rw [Set.injOn_pair]
    have hne : sampleHash ((twoCapsules "e\u0301").accessMaterial Host.composing) ≠
        sampleHash ((capsulesReversed "e").accessMaterial Host.composing) := by decide +kernel
    exact fun h => absurd h hne
  refine ⟨(accessCommitment_eq_iff hfit hfit' hhash).1.mpr ⟨.nil, hcapsules⟩, fun hsame => ?_⟩
  exact hapart ((accessCommitment_eq_iff hfit hother hhash').1.mp hsame).2

end Identikey.Share
