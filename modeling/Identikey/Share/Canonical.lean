/-
Decoding shares, grants and wraps is canonical up to the sign of their numbers.

A negative integer is read as an unsigned number, modulo `2 ^ 64`, and written back as the
unsigned one.  Bytes without negative numbers are the only ones that decode to what they
decode to.
-/
import Mathlib.Data.UInt
import Identikey.Share.RoundTrip
import Identikey.Share.Wrapping
import Identikey.Share.GrantExact

set_option linter.dupNamespace false

namespace Identikey.Share

open Lib Lib.Fallible Auth Dcbor

/-! ### Negative numbers -/

/-- A negative integer stands somewhere in the value. -/
inductive HoldsNegative : CBOR → Prop where
  | negative (n : UInt64) : HoldsNegative (.negative n)
  | item {items : List CBOR} {v : CBOR} (hv : v ∈ items) (h : HoldsNegative v) :
      HoldsNegative (.array items)
  | key {es : List (CBOR × CBOR)} {e : CBOR × CBOR} (he : e ∈ es) (h : HoldsNegative e.1) :
      HoldsNegative (.map es)
  | value {es : List (CBOR × CBOR)} {e : CBOR × CBOR} (he : e ∈ es) (h : HoldsNegative e.2) :
      HoldsNegative (.map es)
  | tagged {tag : UInt64} {v : CBOR} (h : HoldsNegative v) : HoldsNegative (.tagged tag v)

/-- No negative integer stands in what the bytes are decoded to. -/
def NoNegatives (host : Host) (b : Bytes) : Prop :=
  ∀ v, decodeCbor host b = .ok v → ¬ HoldsNegative v

@[simp] lemma not_holdsNegative_unsigned (n : UInt64) : ¬ HoldsNegative (.unsigned n) := nofun

@[simp] lemma not_holdsNegative_text (s : String) : ¬ HoldsNegative (.text s) := nofun

@[simp] lemma not_holdsNegative_byteString (b : Bytes) : ¬ HoldsNegative (.byteString b) := nofun

@[simp] lemma holdsNegative_array {items : List CBOR} :
    HoldsNegative (.array items) ↔ ∃ v ∈ items, HoldsNegative v := by
  constructor
  · rintro (_ | ⟨hv, h⟩)
    exact ⟨_, hv, h⟩
  · rintro ⟨v, hv, h⟩
    exact .item hv h

@[simp] lemma holdsNegative_textEntries {es : List (String × CBOR)} :
    HoldsNegative (.map (textEntries es)) ↔ ∃ e ∈ es, HoldsNegative e.2 := by
  constructor
  · rintro (_ | _ | ⟨he, h⟩ | ⟨he, h⟩)
    · obtain ⟨e, -, rfl⟩ := List.mem_map.mp he
      exact absurd h (not_holdsNegative_text _)
    · obtain ⟨e, hmem, rfl⟩ := List.mem_map.mp he
      exact ⟨e, hmem, h⟩
  · rintro ⟨e, he, h⟩
    exact .value (List.mem_map_of_mem (f := fun e : String × CBOR => (CBOR.text e.1, e.2)) he) h

/-- A number that is read from an integer that is not negative stands there itself. -/
lemma eq_unsigned_of_toU64 {v : CBOR} {n : UInt64} (h : v.toU64 = some n)
    (hv : ¬ HoldsNegative v) : v = .unsigned n := by
  rcases toU64_eq_some.mp h with rfl | rfl
  · rfl
  · exact absurd (.negative _) hv

variable {curves : Curves} {host : Host}

/-! ### What is written holds none -/

lemma not_holdsNegative_wrapValue (w : Wrap) : ¬ HoldsNegative (wrapValue w) := by
  simp [wrapValue, wrapFields]

lemma not_holdsNegative_shareValue (s : Share) : ¬ HoldsNegative (shareValue s) := by
  simp [shareValue, shareFields, payloadFields, targetValue, targetFields, capsuleValue,
    capsuleFields, not_holdsNegative_wrapValue]

lemma not_holdsNegative_grant (g : AccessGrant) : ¬ HoldsNegative g.value := by
  unfold AccessGrant.value AccessGrant.fields
  cases g.pq <;> simp

/-! ### What is read without them is what is written -/

lemma eq_wrapValue {x : CBOR} {w : Wrap} (h : IsWrap x w) (hx : ¬ HoldsNegative x) :
    x = wrapValue w := by
  obtain ⟨v, hv, rfl⟩ := h
  rw [holdsNegative_textEntries, not_exists] at hx
  have hnot : ¬ HoldsNegative v := fun hneg => hx ("epoch", v) ⟨by simp [wrapFields], hneg⟩
  rw [wrapValue, eq_unsigned_of_toU64 hv hnot]

lemma eq_wrapValues {xs : List CBOR} {ws : List Wrap} (h : List.Forall₂ IsWrap xs ws)
    (hxs : ∀ x ∈ xs, ¬ HoldsNegative x) : xs = ws.map wrapValue := by
  induction h with
  | nil => rfl
  | @cons x w xs ws hx _ ih =>
    obtain ⟨hnot, hrest⟩ := List.forall_mem_cons.mp hxs
    rw [List.map_cons, eq_wrapValue hx hnot, ih hrest]

/-- Writing the epoch of a wrap as an unsigned number makes it longer by at most eight bytes. -/
lemma length_wrapValue_le (w : Wrap) (v : CBOR) :
    ((wrapValue w).toCborData host).length ≤
      ((CBOR.map (textEntries (wrapFields w v))).toCborData host).length + 8 := by
  have hepoch : ((CBOR.unsigned w.epoch).toCborData host).length ≤ 9 := length_encodeHead_le 0 _
  have hv := length_toCborData_pos host v
  simp only [wrapValue, toCborData_map, textEntries, wrapFields, List.map_cons, List.map_nil,
    List.flatMap_cons, List.flatMap_nil, entryData, List.length_append, List.length_cons,
    List.length_nil]
  omega

/-- A backend that stands in a canonical value is in normalisation form C. -/
lemma nfc_of_capsuleValue {c : RecryptCapsule} (h : (capsuleValue c).Canonical host) :
    host.nfc c.backend = c.backend := by
  have hmem : (CBOR.text "backend", CBOR.text c.backend) ∈ textEntries (capsuleFields c) := by
    simp [textEntries, capsuleFields]
  cases (h.entry hmem).2 with
  | text hnfc => exact hnfc

/-! ### The three decoders -/

variable {b : Bytes}

lemma noNegatives_iff {v : CBOR} (h : decodeCbor host b = .ok v) :
    NoNegatives host b ↔ ¬ HoldsNegative v := by
  constructor
  · exact fun hall => hall v h
  · intro hnot w hw
    rw [h, Except.ok.injEq] at hw
    exact hw ▸ hnot

/-- Bytes that decode to a value in canonical form and are its encoding are those of another such
value exactly when the two are the same. -/
lemma toCborData_eq_bytes {v w : CBOR} (hv : v.Canonical host) (hw : w.Canonical host)
    (hfit : v.Fits host) (hb : v.toCborData host = b) : w.toCborData host = b ↔ v = w := by
  constructor
  · exact fun h => hv.eq_of_toCborData hw hfit (hb.trans h.symm)
  · rintro rfl
    exact hb

/-- What was parsed is a map in canonical form, whose encoding is the bytes. -/
lemma parsedMap {α : Type} {e : ShareError} {read : List (CBOR × CBOR) → Except ShareError α}
    {a : α} (hfloats : host.CanonicalFloats) (hb : b.length < 2 ^ 63) (h : parseMap host b e read = .ok a) :
    ∃ entries, decodeCbor host b = .ok (.map entries) ∧ (CBOR.map entries).toCborData host = b ∧
      (CBOR.map entries).Canonical host ∧ (CBOR.map entries).Fits host ∧
      read entries = .ok a := by
  obtain ⟨entries, hdecode, hsame, hread⟩ := parseMap_eq_ok.mp h
  have hfit : (CBOR.map entries).Fits host := by
    rw [CBOR.Fits, hsame]
    omega
  exact ⟨entries, hdecode, hsame, decodeCbor_canonical hfloats hdecode, hfit, hread⟩

lemma share_canonical_iff (hfloats : host.CanonicalFloats) (hb : b.length < 2 ^ 63) {s : Share}
    (h : Share.fromCbor curves host b = .ok s) :
    s.toCbor host = .ok b ↔ NoNegatives host b := by
  obtain ⟨entries, hdecode, hsame, hc, hfit, hread⟩ := parsedMap hfloats hb h
  obtain ⟨hwf, version, epoch, xs, hversion, hepoch, hxs, rfl⟩ := (readShare_eq_ok hc hfit).mp hread
  -- what stands in the arrays of the map
  have hitems : ∀ {k : String} {items : List CBOR},
      (k, .array items) ∈ shareFields s version epoch xs (s.recrypt.map capsuleValue) →
      ∀ x ∈ items, x.Canonical host ∧ x.Fits host ∧
        (x.toCborData host).length ≤ b.length := by
    intro k items hmem x hx
    have hmem' := List.mem_map_of_mem (f := fun e : String × CBOR => (CBOR.text e.1, e.2)) hmem
    have hlen := (length_item_lt host hx).le.trans
      ((Nat.le_add_left _ _).trans (length_entry_lt host hmem').le)
    exact ⟨(hc.entry hmem').2.item_of_mem hx, (hfit.entry hmem').2.item hx, hsame ▸ hlen⟩
  have hwraps := @hitems "wraps" xs (by simp [shareFields])
  have htargets := @hitems "targets" (s.targets.map targetValue) (by simp [shareFields])
  have hcapsules := @hitems "recrypt" (s.recrypt.map capsuleValue) (by simp [shareFields])
  have hnormal : s.normal host = s := Share.normal_eq_iff.mpr fun c hc =>
    nfc_of_capsuleValue (hcapsules _ (List.mem_map_of_mem hc)).1
  have hparts : s.PartsFit host := by
    refine ⟨fun w hw => ?_, fun t ht => (htargets _ (List.mem_map_of_mem ht)).2.1,
      fun c hc => (hcapsules _ (List.mem_map_of_mem hc)).2.1⟩
    obtain ⟨x, hx, hxw⟩ := exists_mem_of_forall₂ hxs.flip w hw
    obtain ⟨v, -, rfl⟩ : IsWrap x w := hxw
    have hle := (@length_wrapValue_le host w v).trans
      (Nat.add_le_add_right (hwraps _ hx).2.2 8)
    rw [CBOR.Fits]
    omega
  have hvalue : (shareValue s).Canonical host := by
    have hcanonical := @Share.shareValue_canonical curves host s hwf
    rwa [hnormal] at hcanonical
  rw [Share.toCbor_eq hwf hparts, Except.ok.injEq, toCborData_eq_bytes hc hvalue hfit hsame,
    noNegatives_iff hdecode]
  constructor
  · intro heq
    rw [heq]
    exact not_holdsNegative_shareValue s
  · intro hnot
    rw [holdsNegative_textEntries, not_exists] at hnot
    have hfield : ∀ {k : String} {v : CBOR},
        (k, v) ∈ shareFields s version epoch xs (s.recrypt.map capsuleValue) → ¬ HoldsNegative v :=
      fun hmem hneg => hnot _ ⟨hmem, hneg⟩
    have hxs' : xs = s.wraps.map wrapValue := by
      refine eq_wrapValues hxs fun x hx hneg => ?_
      exact @hfield "wraps" (.array xs) (by simp [shareFields]) (.item hx hneg)
    rw [shareValue, hxs', eq_unsigned_of_toU64 hversion (@hfield "v" _ (by simp [shareFields])),
      eq_unsigned_of_toU64 hepoch (@hfield "epoch" _ (by simp [shareFields]))]

lemma grant_canonical_iff (hfloats : host.CanonicalFloats) (hb : b.length < 2 ^ 63)
    {g : AccessGrant} (h : AccessGrant.fromCbor host b = .ok g) :
    g.toCbor host = b ↔ NoNegatives host b := by
  obtain ⟨entries, hdecode, hsame, hc, hfit, hread⟩ := parsedMap hfloats hb h
  obtain ⟨hcomplete, version, epoch, hversion, hepoch, rfl⟩ :=
    (AccessGrant.readGrant_eq_ok hc).mp hread
  rw [AccessGrant.toCbor_eq hcomplete, toCborData_eq_bytes hc g.value_canonical hfit hsame,
    noNegatives_iff hdecode]
  constructor
  · intro heq
    rw [heq]
    exact not_holdsNegative_grant g
  · intro hnot
    rw [holdsNegative_textEntries, not_exists] at hnot
    have hversion' : ¬ HoldsNegative version := fun hneg =>
      hnot ("v", version) ⟨by unfold AccessGrant.fields; cases g.pq <;> simp, hneg⟩
    have hepoch' : ¬ HoldsNegative epoch := fun hneg =>
      hnot ("epoch", epoch) ⟨by unfold AccessGrant.fields; cases g.pq <;> simp, hneg⟩
    rw [AccessGrant.value, eq_unsigned_of_toU64 hversion hversion',
      eq_unsigned_of_toU64 hepoch hepoch']

lemma wrap_canonical_iff (hfloats : host.CanonicalFloats) (hb : b.length < 2 ^ 63) {w : Wrap}
    (h : parseWrap curves host b = .ok w) : w.toCbor host = b ↔ NoNegatives host b := by
  obtain ⟨entries, hdecode, hsame, hc, hfit, hread⟩ := parsedMap hfloats hb h
  obtain ⟨hcheck, v, hv, rfl⟩ := (readWrap_eq_ok hc).mp hread
  rw [wrap_toCbor, toCborData_eq_bytes hc (wrapValue_canonical (alg_of_checkWrapKeys hcheck)) hfit
    hsame, noNegatives_iff hdecode]
  constructor
  · intro heq
    rw [heq]
    exact not_holdsNegative_wrapValue w
  · exact eq_wrapValue ⟨v, hv, rfl⟩

/-- **Decoding is canonical exactly where no number is negative.**  Bytes that decode to a share, a
grant or a wrap are what it encodes to if and only if no negative integer stands in them. -/
theorem decoding_canonical_iff (hfloats : host.CanonicalFloats) (hb : b.length < 2 ^ 63) :
    (∀ s, Share.fromCbor curves host b = .ok s → (s.toCbor host = .ok b ↔ NoNegatives host b)) ∧
    (∀ g, AccessGrant.fromCbor host b = .ok g → (g.toCbor host = b ↔ NoNegatives host b)) ∧
    (∀ w, parseWrap curves host b = .ok w → (w.toCbor host = b ↔ NoNegatives host b)) :=
  ⟨fun _ h => share_canonical_iff hfloats hb h, fun _ h => grant_canonical_iff hfloats hb h,
    fun _ h => wrap_canonical_iff hfloats hb h⟩

/-- The bytes of a wrap for epoch 0 hold no negative number. -/
theorem decoding_canonical_iff_wrap :
    parseWrap sampleCurves Host.plain ((sampleWrap 0).toCbor Host.plain) = .ok (sampleWrap 0) ∧
      NoNegatives Host.plain ((sampleWrap 0).toCbor Host.plain) := by
  have hlen : ((sampleWrap 0).toCbor Host.plain).length < 2 ^ 63 := by decide +kernel
  have hparse : parseWrap sampleCurves Host.plain ((sampleWrap 0).toCbor Host.plain) =
      .ok (sampleWrap 0) := by
    rw [wrap_toCbor, parseWrap_toCborData (wrapValue_canonical (.inl rfl)) (by decide +kernel)]
    exact ⟨checkWrapKeys_sampleWrap, _, toU64_unsigned 0, rfl⟩
  have h := (@decoding_canonical_iff sampleCurves Host.plain _ canonicalFloats_plain hlen).2.2
  exact ⟨hparse, (h _ hparse).mp rfl⟩

/-- A wrap whose epoch stands as the integer `-2 ^ 64`, which is read as 0. -/
def negativeWrap : CBOR := .map (textEntries (wrapFields (sampleWrap 0) (.negative (2 ^ 64 - 1))))

lemma negativeWrap_canonical : negativeWrap.Canonical Host.plain := by
  refine textEntries_canonical (wrapFields_keyed _ _) wrapKeys_ascii ?_
  simp only [wrapFields, List.forall_mem_cons]
  exact ⟨.text rfl, .negative _, .byteString _, .byteString _, .byteString _, .byteString _,
    by simp⟩

theorem decoding_not_canonical :
    ¬ ∀ (curves : Curves) (host : Host) (b : Bytes), host.CanonicalFloats → b.length < 2 ^ 63 →
      (∀ s, Share.fromCbor curves host b = .ok s → s.toCbor host = .ok b) ∧
      (∀ g, AccessGrant.fromCbor host b = .ok g → g.toCbor host = b) ∧
      (∀ w, parseWrap curves host b = .ok w → w.toCbor host = b) := by
  intro hall
  have hfit : negativeWrap.Fits Host.plain := by decide +kernel
  have hlen : (negativeWrap.toCborData Host.plain).length < 2 ^ 63 := by decide +kernel
  have hparse : parseWrap sampleCurves Host.plain (negativeWrap.toCborData Host.plain) =
      .ok (sampleWrap 0) := by
    rw [parseWrap_toCborData negativeWrap_canonical hfit]
    exact ⟨checkWrapKeys_sampleWrap, _, by decide +kernel, rfl⟩
  have hsame := (hall sampleCurves Host.plain _ canonicalFloats_plain hlen).2.2 _ hparse
  refine (wrap_canonical_iff canonicalFloats_plain hlen hparse).mp hsame _
    (decodeCbor_toCborData negativeWrap_canonical hfit) ?_
  have hmem : (CBOR.text "epoch", CBOR.negative (2 ^ 64 - 1)) ∈
      textEntries (wrapFields (sampleWrap 0) (.negative (2 ^ 64 - 1))) := by
    simp [textEntries, wrapFields]
  exact .value hmem (.negative _)

end Identikey.Share
