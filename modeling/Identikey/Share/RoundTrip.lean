/-
Shares on the wire.

A well-formed share is written as its value, the backends of its capsules in
normalisation form C, and read back from these bytes in that form.
-/
import Identikey.Share.ShareExact

set_option linter.dupNamespace false

namespace Identikey.Share

open Lib Lib.Fallible Auth Dcbor

variable {curves : Curves} {host : Host}

/-- A share as it is written, the backends of its capsules in normalisation form C. -/
def Share.normal (host : Host) (s : Share) : Share :=
  { s with recrypt := s.recrypt.map (RecryptCapsule.normal host) }

/-- The encoding of the share is shorter than `2 ^ 64` bytes, as all that is in memory. -/
def Share.Fits (host : Host) (s : Share) : Prop := (shareValue s).Fits host

instance (s : Share) : Decidable (s.Fits host) :=
  inferInstanceAs (Decidable (((shareValue s).toCborData host).length < 2 ^ 64))

namespace Share

variable {s : Share}

lemma WellFormed.alg (h : s.WellFormed curves) {w : Wrap} (hw : w ∈ s.wraps) :
    w.alg = ALG_X25519 ∨ w.alg = ALG_P256 := by
  obtain ⟨t, -, ht⟩ := exists_mem_of_forall₂ h.recipients w hw
  exact alg_of_checkWrapKeys ht.keys

lemma WellFormed.normal (h : s.WellFormed curves) : (s.normal host).WellFormed curves := by
  refine ⟨h.recipients, List.forall_mem_map.mpr fun c hc => ?_, fun hnil => ?_⟩
  · have hfilled := h.capsules c hc
    exact ⟨host.nfc_ne_empty _ hfilled.backend, hfilled.recipient, hfilled.ciphertext⟩
  · exact h.nonempty ⟨hnil.1, List.map_eq_nil_iff.mp hnil.2⟩

/-! ### Writing -/

/-- The encodings of the wraps, targets and capsules are shorter than `2 ^ 64` bytes. -/
structure PartsFit (host : Host) (s : Share) : Prop where
  wraps : ∀ w ∈ s.wraps, (wrapValue w).Fits host
  targets : ∀ t ∈ s.targets, (targetValue t).Fits host
  capsules : ∀ c ∈ s.recrypt, (capsuleValue c).Fits host

lemma Fits.parts (h : s.Fits host) : s.PartsFit host := by
  have hitems : ∀ {k : String} {items : List CBOR},
      (.text k, .array items) ∈ textEntries (shareFields s (.unsigned 1) (.unsigned s.epoch)
        (s.wraps.map wrapValue) (s.recrypt.map capsuleValue)) → ∀ x ∈ items, x.Fits host := by
    intro k items hmem x hx
    exact (CBOR.Fits.entry h hmem).2.item hx
  refine ⟨fun w hw => ?_, fun t ht => ?_, fun c hc => ?_⟩
  · exact @hitems "wraps" _ (by simp [textEntries, shareFields]) _ (List.mem_map_of_mem hw)
  · exact @hitems "targets" _ (by simp [textEntries, shareFields]) _ (List.mem_map_of_mem ht)
  · exact @hitems "recrypt" _ (by simp [textEntries, shareFields]) _ (List.mem_map_of_mem hc)

lemma shareValue_canonical (h : s.WellFormed curves) :
    (shareValue (s.normal host)).Canonical host := by
  refine textEntries_canonical (shareFields_keyed _ _ _ _ _) shareKeys_ascii ?_
  simp only [shareFields, List.forall_mem_cons]
  refine ⟨.unsigned _, .unsigned _, .array ?_, payload_canonical _ _, .array ?_, .array ?_, by simp⟩
  · exact List.forall_mem_map.mpr fun w hw => wrapValue_canonical (h.alg hw)
  · refine List.forall_mem_map.mpr (List.forall_mem_map.mpr fun c _ => ?_)
    exact capsuleValue_canonical (host.nfc_nfc _)
  · exact List.forall_mem_map.mpr fun t _ => targetValue_canonical t

lemma shareValue_normal (h : s.WellFormed curves) :
    (shareValue s).normal host = shareValue (s.normal host) := by
  have hwraps : (s.wraps.map wrapValue).map (CBOR.normal host) = s.wraps.map wrapValue := by
    rw [List.map_map]
    exact List.map_congr_left fun w hw => (wrapValue_canonical (h.alg hw)).normal_eq
  have htargets :
      (s.targets.map targetValue).map (CBOR.normal host) = s.targets.map targetValue := by
    rw [List.map_map]
    exact List.map_congr_left fun t _ => (targetValue_canonical t).normal_eq
  have hcapsules : (s.recrypt.map capsuleValue).map (CBOR.normal host) =
      (s.recrypt.map (RecryptCapsule.normal host)).map capsuleValue := by
    rw [List.map_map, List.map_map]
    exact List.map_congr_left fun c _ => capsuleValue_normal c
  rw [shareValue, @normal_textEntries host (shareFields _ _ _ _ _) shareKeys_ascii]
  simp only [shareFields, List.map_cons, List.map_nil, normal_array, hwraps, htargets, hcapsules,
    (payload_canonical _ _).normal_eq]
  rfl

/-- **A well-formed share is written as its value.** -/
theorem toCbor_eq (h : s.WellFormed curves) (hfit : s.PartsFit host) :
    s.toCbor host = .ok ((shareValue s).toCborData host) := by
  have hwraps : s.wraps.mapM (fun w => embed host (w.toCbor host)) =
      .ok (s.wraps.map wrapValue) := by
    refine mapM_of_forall fun w hw => ?_
    rw [embed, wrap_toCbor, decodeCbor_toCborData (wrapValue_canonical (h.alg hw))
      (hfit.wraps w hw)]
    rfl
  have htargets : s.targets.mapM (fun t => embed host (targetCbor host t)) =
      .ok (s.targets.map targetValue) := by
    refine mapM_of_forall fun t ht => ?_
    rw [embed, targetCbor_eq, decodeCbor_toCborData (targetValue_canonical t)
      (hfit.targets t ht)]
    rfl
  have hcapsules : s.recrypt.mapM (fun c => embed host (capsuleCbor host c)) =
      .ok ((s.recrypt.map (RecryptCapsule.normal host)).map capsuleValue) := by
    rw [List.map_map]
    refine mapM_of_forall fun c hc => ?_
    have hfitc := hfit.capsules c hc
    rw [CBOR.Fits, ← toCborData_normal, capsuleValue_normal] at hfitc
    rw [embed, ← capsuleCbor_normal, capsuleCbor_eq,
      decodeCbor_toCborData (capsuleValue_canonical (host.nfc_nfc _)) hfitc]
    rfl
  have hentries := @foldl_insert_eq host _
    [(.text "v", .unsigned 1), (.text "epoch", .unsigned s.epoch),
      (.text "payload", (s.payloadMap host).toCBOR),
      (.text "wraps", .array (s.wraps.map wrapValue)),
      (.text "targets", .array (s.targets.map targetValue)),
      (.text "recrypt", .array ((s.recrypt.map (RecryptCapsule.normal host)).map capsuleValue))]
    (shareFields_keyed (s.normal host) (.unsigned 1) (.unsigned s.epoch) (s.wraps.map wrapValue)
      ((s.recrypt.map (RecryptCapsule.normal host)).map capsuleValue)) rfl
    (by simp [shareFields, Map.toCBOR, payload_entries, Share.normal])
  rw [← toCborData_normal, shareValue_normal h]
  unfold Share.toCbor Share.toMap
  simp only [hwraps, htargets, hcapsules, ok_bind]
  exact congrArg (fun es => Except.ok ((CBOR.map es).toCborData host)) hentries

/-! ### Reading back -/

lemma isWrap_wrapValue (ws : List Wrap) : List.Forall₂ IsWrap (ws.map wrapValue) ws := by
  rw [List.forall₂_map_left_iff, List.forall₂_same]
  exact fun w _ => ⟨_, toU64_unsigned w.epoch, rfl⟩

/-- **What is written of a well-formed share is read as that share, its backends in normalisation
form C.** -/
theorem fromCbor_toCborData (h : s.WellFormed curves) (hfit : s.Fits host) :
    fromCbor curves host ((shareValue s).toCborData host) = .ok (s.normal host) := by
  have hcanonical := @shareValue_canonical curves host s h
  have hfit' : (shareValue (s.normal host)).Fits host := by
    rwa [CBOR.Fits, ← shareValue_normal h, toCborData_normal]
  rw [← toCborData_normal, shareValue_normal h, fromCbor, parseMap_toCborData hcanonical hfit']
  refine ⟨_, rfl, (readShare_eq_ok hcanonical hfit').mpr ⟨h.normal, _, _, _, toU64_unsigned 1,
    toU64_unsigned _, isWrap_wrapValue s.wraps, rfl⟩⟩

/-- A share comes back the same exactly when its backends are in normalisation form C. -/
lemma normal_eq_iff : s.normal host = s ↔ ∀ c ∈ s.recrypt, host.nfc c.backend = c.backend := by
  have hcapsule : ∀ c : RecryptCapsule, c.normal host = c ↔ host.nfc c.backend = c.backend :=
    fun c => ⟨fun h => congrArg RecryptCapsule.backend h, fun h => by rw [RecryptCapsule.normal, h]⟩
  constructor
  · intro h c hc
    have hmap : s.recrypt.map (RecryptCapsule.normal host) = s.recrypt.map id :=
      (congrArg Share.recrypt h).trans (List.map_id _).symm
    exact (hcapsule c).mp (List.map_eq_map_iff.mp hmap c hc)
  · intro h
    have hmap : s.recrypt.map (RecryptCapsule.normal host) = s.recrypt :=
      (List.map_congr_left fun c hc => (hcapsule c).mpr (h c hc)).trans (List.map_id _)
    rw [Share.normal, hmap]

end Share

end Identikey.Share
