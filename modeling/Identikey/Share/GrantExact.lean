/-
The CBOR of grants.

A grant is written into a map of seven fields, or of ten when an ML-DSA key signed it too,
and the parser accepts exactly these maps.  Its epoch may stand as any integer that is
read as it.
-/
import Identikey.Share.ShareExact
import Identikey.Share.GrantAccess

set_option linter.dupNamespace false

namespace Identikey.Share

open Lib Lib.Fallible Auth Dcbor

variable {host : Host}

/-! ### Tags -/

lemma accessMode_fromTag_eq_ok {tag : String} {mode : AccessMode} :
    AccessMode.fromTag tag = .ok mode ↔ tag = mode.tag := by
  unfold AccessMode.fromTag
  cases mode <;> simp only [AccessMode.tag] <;> split_ifs <;> simp_all

lemma pqAlg_fromTag_eq_ok {tag : String} {alg : PqAlg} :
    PqAlg.fromTag tag = .ok alg ↔ tag = alg.tag := by
  unfold PqAlg.fromTag
  cases alg <;> simp only [PqAlg.tag] <;> split_ifs <;> simp_all

lemma nfc_modeTag (mode : AccessMode) : host.nfc mode.tag = mode.tag := by
  cases mode with
  | direct => exact @nfc_of_ascii host "direct" (by decide)
  | recrypt => exact @nfc_of_ascii host "recrypt" (by decide)
  | either => exact @nfc_of_ascii host "either" (by decide)

lemma nfc_algTag (alg : PqAlg) : host.nfc alg.tag = alg.tag := by
  cases alg with
  | mlDsa44 => exact @nfc_of_ascii host "ml-dsa-44" (by decide)
  | mlDsa65 => exact @nfc_of_ascii host "ml-dsa-65" (by decide)
  | mlDsa87 => exact @nfc_of_ascii host "ml-dsa-87" (by decide)

namespace AccessGrant

/-! ### Fields -/

/-- The ML-DSA parts of a grant: algorithm, key and signature, if it has all three. -/
def pq (g : AccessGrant) : Option (PqAlg × Bytes × Bytes) :=
  match g.pqAlg, g.pqPk, g.mlDsaSig with
  | some alg, some pk, some sig => some (alg, pk, sig)
  | _, _, _ => none

/-- All three ML-DSA parts are there and not empty, or none is. -/
structure Complete (g : AccessGrant) : Prop where
  pqAlg : g.pqAlg = g.pq.map Prod.fst
  pqPk : g.pqPk = g.pq.map fun p => p.2.1
  mlDsaSig : g.mlDsaSig = g.pq.map fun p => p.2.2
  filled : ∀ p ∈ g.pq, p.2.1 ≠ [] ∧ p.2.2 ≠ []

def GRANT_KEYS : List String :=
  ["v", "mode", "epoch", "signer", "content", "commitment", "ed25519-sig"]

def PQ_GRANT_KEYS : List String :=
  ["v", "mode", "epoch", "pq-pk", "pq-alg", "signer", "content", "commitment", "ml-dsa-sig",
    "ed25519-sig"]

lemma grantKeys_ascii : ∀ k ∈ GRANT_KEYS, ∀ c ∈ k.toList, c.val < 128 := by decide

lemma pqGrantKeys_ascii : ∀ k ∈ PQ_GRANT_KEYS, ∀ c ∈ k.toList, c.val < 128 := by decide

/-- The fields of a grant, its numbers as they stand in the map. -/
def fields (g : AccessGrant) (version epoch : CBOR) : List (String × CBOR) :=
  match g.pq with
  | none =>
    [("v", version), ("mode", .text g.mode.tag), ("epoch", epoch),
      ("signer", .byteString g.signer.val), ("content", .byteString g.content.val),
      ("commitment", .byteString g.commitment.val), ("ed25519-sig", .byteString g.ed25519Sig.val)]
  | some (alg, pk, sig) =>
    [("v", version), ("mode", .text g.mode.tag), ("epoch", epoch), ("pq-pk", .byteString pk),
      ("pq-alg", .text alg.tag), ("signer", .byteString g.signer.val),
      ("content", .byteString g.content.val), ("commitment", .byteString g.commitment.val),
      ("ml-dsa-sig", .byteString sig), ("ed25519-sig", .byteString g.ed25519Sig.val)]

lemma fields_ascii (g : AccessGrant) (version epoch : CBOR) :
    ∀ k ∈ (g.fields version epoch).map Prod.fst, ∀ c ∈ k.toList, c.val < 128 := by
  unfold fields
  cases g.pq with
  | none => exact grantKeys_ascii
  | some p => exact pqGrantKeys_ascii

lemma fields_keyed (g : AccessGrant) (version epoch : CBOR) :
    Keyed (mapKey host) (textEntries (g.fields version epoch)) := by
  unfold fields
  cases g.pq with
  | none => exact @textEntries_keyed host _ GRANT_KEYS rfl grantKeys_ascii (by decide)
  | some p => exact @textEntries_keyed host _ PQ_GRANT_KEYS rfl pqGrantKeys_ascii (by decide)

/-- A grant as a value. -/
def value (g : AccessGrant) : CBOR :=
  .map (textEntries (g.fields (.unsigned 1) (.unsigned g.epoch)))

lemma value_canonical (g : AccessGrant) : g.value.Canonical host := by
  refine textEntries_canonical (g.fields_keyed _ _) (g.fields_ascii _ _) ?_
  have hmode := @nfc_modeTag host g.mode
  unfold fields
  cases g.pq with
  | none =>
    simp only [List.forall_mem_cons]
    exact ⟨.unsigned _, .text hmode, .unsigned _, .byteString _, .byteString _, .byteString _,
      .byteString _, by simp⟩
  | some p =>
    simp only [List.forall_mem_cons]
    exact ⟨.unsigned _, .text hmode, .unsigned _, .byteString _, .text (nfc_algTag _),
      .byteString _, .byteString _, .byteString _, .byteString _, .byteString _, by simp⟩

/-- **A complete grant is written as its fields.** -/
lemma toCbor_eq {g : AccessGrant} (h : g.Complete) : g.toCbor host = g.value.toCborData host := by
  have hentries : (g.toMap host).entries =
      textEntries (g.fields (.unsigned 1) (.unsigned g.epoch)) := by
    have hkeyed := @fields_keyed host g (.unsigned 1) (.unsigned g.epoch)
    unfold toMap signedMap
    rw [h.pqAlg, h.pqPk, h.mlDsaSig]
    revert hkeyed
    unfold fields
    cases g.pq with
    | none =>
      intro hkeyed
      exact @foldl_insert_eq host _ [_, _, _, _, _, _, _] hkeyed rfl (by simp)
    | some p =>
      intro hkeyed
      exact @foldl_insert_eq host _ [_, _, _, _, _, _, _, _, _, _] hkeyed rfl (by simp)
  rw [toCbor, Map.toCBOR, hentries, value]

/-! ### Reading -/

/-- A key that is in no field is not found. -/
lemma getAs_eq_none {α : Type} {convert : CBOR → Option α} {es : List (String × CBOR)}
    (h : (CBOR.map (textEntries es)).Canonical host) {k : String}
    (hk : ∀ c ∈ k.toList, c.val < 128) (hnot : k ∉ es.map Prod.fst) :
    getAs host (textEntries es) k convert = none := by
  have hnone : getEntry host (textEntries es) (.text k) = none := by
    refine Option.eq_none_iff_forall_ne_some.mpr fun v hv => hnot ?_
    obtain ⟨e, he, heq⟩ := List.mem_map.mp ((getEntry_eq_some h hk).mp hv)
    obtain ⟨hkey, -⟩ := Prod.mk.inj heq
    exact List.mem_map.mpr ⟨e, he, CBOR.text.inj hkey⟩
  rw [getAs, hnone]
  rfl

lemma pqParts_eq_ok {alg : Option PqAlg} {pk sig : Option Bytes} {n : ℕ} :
    pqParts alg pk sig = .ok n ↔
      (alg = none ∧ pk = none ∧ sig = none ∧ n = 0) ∨
        ∃ a p s, alg = some a ∧ pk = some p ∧ sig = some s ∧ p ≠ [] ∧ s ≠ [] ∧ n = 3 := by
  -- all three are there or none is; every other combination is refused
  rcases alg with _ | a <;> rcases pk with _ | p <;> rcases sig with _ | s
  case none.none.none => simp [pqParts, eq_comm]
  case some.some.some =>
    by_cases hfilled : p ≠ [] ∧ s ≠ []
    · rw [pqParts, if_pos hfilled]
      simp [hfilled, eq_comm]
    · rw [pqParts, if_neg hfilled]
      simp only [reduceCtorEq, false_and, Option.some.injEq, false_or, false_iff]
      rintro ⟨-, p', s', -, rfl, rfl, hp, hs, -⟩
      exact hfilled ⟨hp, hs⟩
  all_goals simp [pqParts]

lemma eq_of_parts {g : AccessGrant} {alg : Option PqAlg} {pk sig : Option Bytes}
    (halg : g.pqAlg = alg) (hpk : g.pqPk = pk) (hsig : g.mlDsaSig = sig) :
    ({ g with pqAlg := alg, pqPk := pk, mlDsaSig := sig } : AccessGrant) = g := by
  subst halg hpk hsig
  rfl

/-- What is read as a grant is that grant's fields. -/
lemma of_readGrant {entries : List (CBOR × CBOR)} (h : (CBOR.map entries).Canonical host)
    {g : AccessGrant} (hg : readGrant host entries = .ok g) :
    g.Complete ∧ ∃ version epoch, version.toU64 = some 1 ∧ epoch.toU64 = some g.epoch ∧
      entries = textEntries (g.fields version epoch) := by
  unfold readGrant at hg
  simp (disch := decide) only [bind_eq_ok, ensure_eq_ok, okOr_eq_ok, pure_eq_ok, getAs_toU64 h,
    toArray_eq_some, accessMode_fromTag_eq_ok, optionMapM_eq_ok, pqAlg_fromTag_eq_ok, pqParts_eq_ok]
    at hg
  obtain ⟨_, ⟨v, hv, hversion⟩, _, rfl, _, hcontent, _, hcommitment, epoch, ⟨e, he, hepoch⟩, _,
    hmode, _, hsigner, _, hedsig, pqAlg, hrel, n, hparts, _, hlen, content, rfl, commitment, rfl,
    signer, rfl, edsig, rfl, mode, rfl, rfl⟩ := hg
  rw [getAs_toText h (by decide)] at hmode
  rw [getAs_toByteString h (by decide)] at hcontent hcommitment hsigner hedsig
  rcases hparts with ⟨rfl, hpk, hsig, rfl⟩ | ⟨a, pk, sig, rfl, hpk, hsig, hpk', hsig', rfl⟩
  · rw [hpk, hsig]
    refine ⟨⟨rfl, rfl, rfl, by simp [pq]⟩, v, e, hversion, hepoch, ?_⟩
    rw [eq_textEntries_iff h.keyed (fields_keyed _ _ _)]
    simp only [fields, pq, List.forall_mem_cons]
    exact ⟨hlen, hv, hmode, he, hsigner, hcontent, hcommitment, hedsig, by simp⟩
  · generalize hget : getAs host entries "pq-alg" CBOR.toText = o at hrel
    cases hrel with
    | some htag =>
      subst htag
      have hpk₁ := (getAs_toByteString h (by decide)).mp hpk
      have hsig₁ := (getAs_toByteString h (by decide)).mp hsig
      have halg := (getAs_toText h (by decide)).mp hget
      rw [hpk, hsig]
      refine ⟨⟨rfl, rfl, rfl, by simpa [pq] using ⟨hpk', hsig'⟩⟩, v, e, hversion, hepoch, ?_⟩
      rw [eq_textEntries_iff h.keyed (fields_keyed _ _ _)]
      simp only [fields, pq, List.forall_mem_cons]
      exact ⟨hlen, hv, hmode, he, hpk₁, halg, hsigner, hcontent, hcommitment, hsig₁, hedsig,
        by simp⟩

/-- The fields of a grant are read as that grant. -/
lemma readGrant_fields {g : AccessGrant} (hc : g.Complete) {v e : CBOR}
    (h : (CBOR.map (textEntries (g.fields v e))).Canonical host) (hversion : v.toU64 = some 1)
    (hepoch : e.toU64 = some g.epoch) : readGrant host (textEntries (g.fields v e)) = .ok g := by
  unfold readGrant
  simp (disch := decide) only [bind_eq_ok, ensure_eq_ok, okOr_eq_ok, pure_eq_ok, getAs_toU64 h,
    toArray_eq_some, accessMode_fromTag_eq_ok, optionMapM_eq_ok, pqAlg_fromTag_eq_ok, pqParts_eq_ok]
  -- the value under each key, in a grant of either kind
  have hget : ∀ {k : String} {x : CBOR} {α : Type} {convert : CBOR → Option α},
      (k, x) ∈ g.fields v e →
        getAs host (textEntries (g.fields v e)) k convert = convert x :=
    fun hmem => getAs_of_mem (g.fields_keyed v e) hmem
  have hmem : ∀ {k : String} {x : CBOR}, (k, x) ∈ g.fields v e →
      (CBOR.text k, x) ∈ textEntries (g.fields v e) := fun {k x} hkx =>
    List.mem_map_of_mem (f := fun e : String × CBOR => (CBOR.text e.1, e.2)) hkx
  have hshared : ∀ f ∈ [("v", v), ("mode", .text g.mode.tag), ("epoch", e),
      ("signer", .byteString g.signer.val), ("content", .byteString g.content.val),
      ("commitment", .byteString g.commitment.val),
      ("ed25519-sig", .byteString g.ed25519Sig.val)], f ∈ g.fields v e := by
    unfold fields
    cases g.pq <;> simp
  simp only [List.forall_mem_cons] at hshared
  obtain ⟨hv, hmode, he, hsigner, hcontent, hcommitment, hedsig, -⟩ := hshared
  refine ⟨1, ⟨v, hmem hv, hversion⟩, (), rfl, _, hget hcontent, _, hget hcommitment, g.epoch,
    ⟨e, hmem he, hepoch⟩, _, hget hmode, _, hget hsigner, _, hget hedsig, g.pqAlg, ?_⟩
  have halg := hc.pqAlg
  have hpk := hc.pqPk
  have hsig := hc.mlDsaSig
  cases hpq : g.pq with
  | none =>
    rw [hpq] at halg hpk hsig
    have hkeys : (g.fields v e).map Prod.fst = GRANT_KEYS := by rw [fields, hpq]; rfl
    have hlen : (textEntries (g.fields v e)).length = 7 := length_textEntries hkeys
    rw [getAs_eq_none h (by decide) (by rw [hkeys]; decide),
      getAs_eq_none h (by decide) (by rw [hkeys]; decide),
      getAs_eq_none h (by decide) (by rw [hkeys]; decide), halg]
    exact ⟨.none, 0, .inl ⟨rfl, rfl, rfl, rfl⟩, (), hlen, _, rfl, _, rfl, _, rfl, _, rfl, _, rfl,
      eq_of_parts halg hpk hsig⟩
  | some p =>
    rw [hpq] at halg hpk hsig
    obtain ⟨hfilled, hfilled'⟩ := hc.filled p (Option.mem_def.mpr hpq)
    have hkeys : (g.fields v e).map Prod.fst = PQ_GRANT_KEYS := by rw [fields, hpq]; rfl
    have hlen : (textEntries (g.fields v e)).length = 7 + 3 := length_textEntries hkeys
    have hgetAlg := @hget "pq-alg" (.text p.1.tag) _ CBOR.toText (by simp [fields, hpq])
    have hgetPk := @hget "pq-pk" (.byteString p.2.1) _ CBOR.toByteString (by simp [fields, hpq])
    have hgetSig := @hget "ml-dsa-sig" (.byteString p.2.2) _ CBOR.toByteString
      (by simp [fields, hpq])
    rw [hgetAlg, hgetPk, hgetSig, halg]
    exact ⟨.some rfl, 3, .inr ⟨_, _, _, rfl, rfl, rfl, hfilled, hfilled', rfl⟩, (), hlen, _, rfl,
      _, rfl, _, rfl, _, rfl, _, rfl, eq_of_parts halg hpk hsig⟩

/-- **A map is read as a grant exactly when it is that grant's fields.**  Only its numbers may
stand in another form. -/
theorem readGrant_eq_ok {entries : List (CBOR × CBOR)} (h : (CBOR.map entries).Canonical host)
    {g : AccessGrant} :
    readGrant host entries = .ok g ↔ g.Complete ∧
      ∃ version epoch, version.toU64 = some 1 ∧ epoch.toU64 = some g.epoch ∧
        entries = textEntries (g.fields version epoch) := by
  constructor
  · exact of_readGrant h
  · rintro ⟨hc, v, e, hversion, hepoch, rfl⟩
    exact readGrant_fields hc h hversion hepoch

end AccessGrant

end Identikey.Share
