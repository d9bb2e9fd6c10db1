/-
What the codec of sealed secrets writes and reads.

The envelope of a sealed secret is a record with three entries in its subject and four
fields.  `Reads` says what the decoder finds in an envelope, and `Plain` which envelopes
are in the form in which the encoder writes them.
-/
import Identikey.Gordian.Record
import Identikey.Secret.Record

namespace Identikey.Secret

open Lib Lib.Fallible Auth Dcbor Gordian Gordian.Envelope

variable {host : Host}

lemma toArray32_eq_some {b : Bytes} {d : Digest32} : toArray32 b = some d ↔ b = d.val := by
  unfold toArray32
  constructor
  · intro h
    split_ifs at h with hlen
    rw [← Option.some.inj h]
  · rintro rfl
    rw [dif_pos d.2]

lemma checkLabel_eq_ok {s : String} {label : Label} :
    checkLabel s = .ok label ↔ s = label.val := by
  unfold checkLabel
  constructor
  · intro h
    split_ifs at h with hfits
    rw [← Except.ok.inj h]
  · rintro rfl
    rw [dif_pos label.2]

lemma checkValue_eq_ok {b : Bytes} {value : SecretValue} :
    checkValue b = .ok value ↔ b = value.val := by
  unfold checkValue
  constructor
  · intro h
    split_ifs at h with hfits
    rw [← Except.ok.inj h]
  · rintro rfl
    rw [dif_pos value.2]

lemma SecretId.new_eq_ok {s : String} {id : SecretId} : SecretId.new s = .ok id ↔ s = id.raw := by
  unfold SecretId.new
  constructor
  · intro h
    split_ifs at h with hsafe
    rw [← Except.ok.inj h]
  · rintro rfl
    rw [dif_pos id.safe]

namespace SealedSecret

lemma taggedNumber_unsigned (tag n : UInt64) :
    taggedNumber (.leaf (.tagged tag (.unsigned n))) = some n := toU64_unsigned n

/-! ### The record -/

lemma known_ascii : ∀ k ∈ KNOWN, ∀ c ∈ k.toList, c.val < 128 := by decide

lemma knownApart : KnownApart host KNOWN := knownApart_of_nat known_ascii (by decide +kernel)

/-- The keys of the subject. -/
def SUBJECT_KEYS : List String := ["id", "type", "format-version"]

lemma subjectKeys_ascii : ∀ k ∈ SUBJECT_KEYS, ∀ c ∈ k.toList, c.val < 128 := by decide

/-- The entries of the subject. -/
def entries (id : SecretId) : List (String × CBOR) :=
  [("id", .text id.raw), ("type", .text SECRET_TYPE),
    ("format-version", .unsigned FORMAT_VERSION.toUInt64)]

lemma entries_keyed (id : SecretId) : Keyed (mapKey host) (textEntries (entries id)) :=
  @textEntries_keyed host _ SUBJECT_KEYS rfl subjectKeys_ascii (by decide)

lemma entries_canonical (id : SecretId) : (CBOR.map (textEntries (entries id))).Canonical host := by
  refine textEntries_canonical (entries_keyed _) subjectKeys_ascii ?_
  simp only [entries, List.forall_mem_cons]
  exact ⟨.text (nfc_of_ascii id.ascii), .text (nfc_of_ascii (by decide)), .unsigned _, by simp⟩

lemma subject_entries (id : SecretId) : (subject host id).entries = textEntries (entries id) :=
  (entries_keyed id).foldl_insertKeyed_eq (@List.perm_append_comm _ [_, _] [_])

/-- The fields of a sealed secret. -/
def fields (secret : SealedSecret) : List (String × Envelope) :=
  [("label", .ofText secret.label.val),
    ("created", .leaf (.tagged TAG_EPOCH_TIME (.unsigned secret.createdAt))),
    ("salt", .leaf (.byteString secret.salt.val)),
    ("value", .leaf (.byteString secret.value.val))]

lemma mem_fields {secret : SealedSecret} {f : String × Envelope} :
    f ∈ fields secret ↔ f = ("label", .ofText secret.label.val) ∨
      f = ("created", .leaf (.tagged TAG_EPOCH_TIME (.unsigned secret.createdAt))) ∨
      f = ("salt", .leaf (.byteString secret.salt.val)) ∨
      f = ("value", .leaf (.byteString secret.value.val)) := by
  simp [fields]

lemma fields_known {secret : SealedSecret} : ∀ f ∈ fields secret, f.1 ∈ KNOWN := by
  simp [fields, KNOWN]

lemma fields_ascii {secret : SealedSecret} :
    ∀ f ∈ fields secret, ∀ c ∈ f.1.toList, c.val < 128 := fun f hf =>
  known_ascii f.1 (fields_known f hf)

lemma map_normal_entries (id : SecretId) :
    (textEntries (entries id)).map (normalEntry host) = textEntries (entries id) :=
  CBOR.map.inj (normal_map host _ ▸ (entries_canonical id).normal_eq)

lemma toEnvelope_eq (secret : SealedSecret) : secret.toEnvelope host =
    record host (textEntries (entries secret.id)) (fieldPairs (fields secret) secret.unknown) := by
  unfold record fieldPairs addAll toEnvelope
  rw [List.map_append, List.foldl_append, List.map_map, List.foldl_map, List.foldl_map,
    Map.toCBOR, subject_entries]
  rfl

/-! ### What the decoder finds -/

/-- The decoder finds this secret. -/
structure Reads (host : Host) (e : Envelope) (secret : SealedSecret) : Prop where
  subject : ∃ m, e.subject = .leaf (.map m) ∧
    getAs host m "type" CBOR.toText = some SECRET_TYPE ∧
    getAs host m "format-version" CBOR.toU32 = some FORMAT_VERSION ∧
    getAs host m "id" CBOR.toText = some secret.id.raw
  label : ∃ o, e.objectsForPredicate host "label" = [o] ∧
    o.extractSubject.bind CBOR.toText = some secret.label.val
  created : ∃ o, e.objectsForPredicate host "created" = [o] ∧
    taggedNumber o = some secret.createdAt
  salt : ∃ o, e.objectsForPredicate host "salt" = [o] ∧
    o.extractSubject.bind CBOR.toByteString = some secret.salt.val
  value : ∃ o, e.objectsForPredicate host "value" = [o] ∧
    o.extractSubject.bind CBOR.toByteString = some secret.value.val
  unknown : secret.unknown = e.unknownAssertions host KNOWN

lemma subjectMap_eq_ok {e : Envelope} {m : List (CBOR × CBOR)} :
    subjectMap e = .ok m ↔ e.subject = .leaf (.map m) := by
  unfold subjectMap tryLeaf
  cases e.subject with
  | leaf c => cases c <;> simp
  | _ => simp

lemma fromEnvelope_eq_ok {e : Envelope} {secret : SealedSecret} :
    fromEnvelope host e = .ok secret ↔ Reads host e secret := by
  unfold fromEnvelope readCreatedAt
  simp only [bind_eq_ok, mapError_eq_ok, okOr_eq_ok, ensure_eq_ok, pure_eq_ok, subjectMap_eq_ok,
    objectForPredicate_eq_ok, extractObject_eq_ok, toArray32_eq_some, checkLabel_eq_ok,
    checkValue_eq_ok, SecretId.new_eq_ok]
  constructor
  · rintro ⟨m, hm, ty, hty, -, rfl, v, hv, -, rfl, i, hi, id, rfl, l, hl, label, rfl, c, hc,
      s, hs, salt, rfl, b, hb, value, rfl, rfl⟩
    exact ⟨⟨m, hm, hty, hv, hi⟩, hl, hc, hs, hb, rfl⟩
  · rintro ⟨⟨m, hm, hty, hv, hi⟩, hl, hc, hs, hb, hunknown⟩
    refine ⟨m, hm, _, hty, (), rfl, _, hv, (), rfl, _, hi, _, rfl, _, hl, _, rfl, _, hc,
      _, hs, _, rfl, _, hb, _, rfl, ?_⟩
    rw [← hunknown]

/-! ### Reading what was written -/

/-- The secret is read back, with its unknown assertions in the order of their digests. -/
lemma reads_toEnvelope {secret : SealedSecret}
    (hunknown : ∀ u ∈ secret.unknown, u.1.digest host ∉ knownDigests host KNOWN)
    (hap : Apart host (fieldPairs (fields secret) secret.unknown)) :
    Reads host (secret.toEnvelope host)
      { secret with unknown := (secret.toEnvelope host).unknownAssertions host KNOWN } := by
  have hobject : ∀ k ∈ KNOWN, ∀ o, (∀ o', (k, o') ∈ fields secret ↔ o' = o) →
      (secret.toEnvelope host).objectsForPredicate host k = [o] := by
    intro k hk o ho
    rw [toEnvelope_eq]
    exact objects_record_eq knownApart fields_known hunknown hap hk ((ho o).mpr rfl)
      fun o' => (ho o').mp
  have hkeyed := @entries_keyed host secret.id
  have hsubject : (secret.toEnvelope host).subject =
      .leaf (.map (textEntries (entries secret.id))) :=
    @toEnvelope_eq host secret ▸ record_subject
  refine ⟨⟨_, hsubject, ?_, ?_, ?_⟩,
    ⟨_, hobject _ (by decide) (.ofText secret.label.val) ?_, rfl⟩,
    ⟨_, hobject _ (by decide) _ ?_, taggedNumber_unsigned TAG_EPOCH_TIME _⟩,
    ⟨_, hobject _ (by decide) (.leaf (.byteString secret.salt.val)) ?_, rfl⟩,
    ⟨_, hobject _ (by decide) (.leaf (.byteString secret.value.val)) ?_, rfl⟩, rfl⟩
  · exact getAs_of_mem hkeyed (v := .text SECRET_TYPE) (by simp [entries])
  · exact getAs_of_mem hkeyed (v := .unsigned FORMAT_VERSION.toUInt64) (by simp [entries])
  · exact getAs_of_mem hkeyed (v := .text secret.id.raw) (by simp [entries])
  · simp [mem_fields, ofText]
  · simp [mem_fields]
  · simp [mem_fields]
  · simp [mem_fields]

/-- The secret with its unknown assertions as they are written. -/
def normal (host : Host) (secret : SealedSecret) : SealedSecret :=
  { secret with unknown := secret.unknown.map (normalPair host) }

lemma map_normal_fields {secret : SealedSecret}
    (hlabel : host.nfc secret.label.val = secret.label.val) :
    (fields secret).map (fun f => (f.1, f.2.normal host)) = fields (secret.normal host) := by
  have htext : (ofText secret.label.val).normal host = ofText secret.label.val := by
    rw [ofText, Envelope.normal, CBOR.normal, hlabel]
  simp only [fields, List.map_cons, htext]
  rfl

/-- A secret whose label is in normalisation form C is written under that label. -/
lemma normal_toEnvelope {secret : SealedSecret}
    (hlabel : host.nfc secret.label.val = secret.label.val) :
    (secret.toEnvelope host).normal host = (secret.normal host).toEnvelope host := by
  rw [toEnvelope_eq, toEnvelope_eq, normal_record, map_normal_fieldPairs fields_ascii,
    map_normal_entries, map_normal_fields hlabel]
  rfl

lemma toEnvelope_wellFormed {secret : SealedSecret}
    (hforeign : ∀ u ∈ secret.unknown, Foreign host KNOWN u) :
    ((secret.toEnvelope host).normal host).WellFormed host := by
  rw [toEnvelope_eq, normal_record, map_normal_entries]
  refine record_wellFormed (entries_canonical _) (List.forall_mem_map.mpr fun u hu => ?_)
  rcases List.mem_append.mp hu with hu | hu
  · obtain ⟨f, hf, rfl⟩ := List.mem_map.mp hu
    refine ⟨.leaf (.text (host.nfc_nfc f.1)), ?_⟩
    rcases mem_fields.mp hf with rfl | rfl | rfl | rfl
    · exact .leaf (.text (host.nfc_nfc _))
    · exact .leaf (.tagged (.unsigned _))
    · exact .leaf (.byteString _)
    · exact .leaf (.byteString _)
  · exact (hforeign u hu).2

variable (host)

/-- The same secret, with the same unknown assertions. -/
structure Same (secret secret' : SealedSecret) : Prop where
  id : secret'.id = secret.id
  label : secret'.label = secret.label
  createdAt : secret'.createdAt = secret.createdAt
  salt : secret'.salt = secret.salt
  value : secret'.value = secret.value
  unknown : SameAssertions host secret.unknown secret'.unknown

/-- The label is in normalisation form C, and assertions with one digest are written alike. -/
structure Storable (secret : SealedSecret) : Prop where
  label : host.nfc secret.label.val = secret.label.val
  apart : Apart host ((fieldPairs (fields secret) secret.unknown).map (normalPair host))

variable {host}

/-- What is read has the id that was written. -/
lemma id_of_reads {secret secret' : SealedSecret}
    (h : Reads host ((secret.toEnvelope host).normal host) secret') : secret'.id = secret.id := by
  have hsubject : ((secret.toEnvelope host).normal host).subject =
      .leaf (.map (textEntries (entries secret.id))) := by
    rw [toEnvelope_eq, normal_record, map_normal_entries]
    exact record_subject
  obtain ⟨m, hm, -, -, hget⟩ := h.subject
  rw [hsubject] at hm
  rw [← CBOR.map.inj (Envelope.leaf.inj hm),
    getAs_of_mem (entries_keyed secret.id) (v := .text secret.id.raw) (by simp [entries])] at hget
  exact SecretId.ext (Option.some.inj hget).symm

/-- **A sealed secret is read back the same if and only if it is storable.** -/
theorem exists_same_iff {secret : SealedSecret}
    (hforeign : ∀ u ∈ secret.unknown, Foreign host KNOWN u) :
    (∃ secret', fromEnvelope host ((secret.toEnvelope host).normal host) = .ok secret' ∧
      Same host secret secret') ↔ Storable host secret := by
  have hwf := toEnvelope_wellFormed hforeign
  have hunknown : ∀ u ∈ (secret.normal host).unknown, u.1.digest host ∉ knownDigests host KNOWN :=
    List.forall_mem_map.mpr fun u hu => (hforeign u hu).normal
  have hlabel : ∀ secret', Reads host ((secret.toEnvelope host).normal host) secret' →
      Same host secret secret' → host.nfc secret.label.val = secret.label.val := by
    intro secret' h hsame
    obtain ⟨o, ho, htext⟩ := h.label
    rw [← hsame.label]
    exact (hwf.of_mem_objects (ho ▸ List.mem_singleton_self o)).nfc_of_extract htext
  -- from here on the label is in form C, and the record is that of the written secret
  suffices hstored : host.nfc secret.label.val = secret.label.val →
      ((∃ secret', fromEnvelope host ((secret.toEnvelope host).normal host) = .ok secret' ∧
        Same host secret secret') ↔
      Apart host ((fieldPairs (fields secret) secret.unknown).map (normalPair host))) by
    constructor
    · rintro ⟨secret', h, hsame⟩
      have hnfc := hlabel secret' (fromEnvelope_eq_ok.mp h) hsame
      exact ⟨hnfc, (hstored hnfc).mp ⟨secret', h, hsame⟩⟩
    · exact fun h => (hstored h.label).mpr h.apart
  intro hnfc
  have hrecord : (secret.toEnvelope host).normal host =
      record host (textEntries (entries secret.id)) (fieldPairs (fields (secret.normal host))
        (secret.unknown.map (normalPair host))) := by
    rw [normal_toEnvelope hnfc, toEnvelope_eq]
    rfl
  rw [map_normal_fieldPairs fields_ascii, map_normal_fields hnfc,
    apart_iff knownApart fields_known hforeign hrecord hwf]
  constructor
  · rintro ⟨secret', h, hsame⟩
    have hreads := fromEnvelope_eq_ok.mp h
    have hfound : ∀ k ∈ KNOWN, ∀ o,
        (∃ o', ((secret.toEnvelope host).normal host).objectsForPredicate host k = [o']) →
        (∀ o', (k, o') ∈ fields (secret.normal host) → o' = o) →
        o ∈ ((secret.toEnvelope host).normal host).objectsForPredicate host k := by
      rintro k hk o ⟨o', ho'⟩ honly
      have hmem : o' ∈ ((secret.toEnvelope host).normal host).objectsForPredicate host k :=
        ho' ▸ List.mem_singleton_self o'
      rw [hrecord] at hmem ⊢
      rwa [← honly o' (field_of_object knownApart fields_known hunknown hk hmem)]
    refine ⟨fun f hf => ?_, hreads.unknown ▸ hsame.unknown⟩
    have hk := fields_known f hf
    rcases mem_fields.mp hf with rfl | rfl | rfl | rfl
    · exact hfound _ hk _ (hreads.label.imp fun _ => And.left) (by simp [mem_fields])
    · exact hfound _ hk _ (hreads.created.imp fun _ => And.left) (by simp [mem_fields])
    · exact hfound _ hk _ (hreads.salt.imp fun _ => And.left) (by simp [mem_fields])
    · exact hfound _ hk _ (hreads.value.imp fun _ => And.left) (by simp [mem_fields])
  · intro h
    have hap := (apart_iff knownApart fields_known hforeign hrecord hwf).mpr h
    have hreads := reads_toEnvelope hunknown hap
    rw [← normal_toEnvelope hnfc] at hreads
    exact ⟨_, fromEnvelope_eq_ok.mpr hreads, ⟨rfl, rfl, rfl, rfl, rfl, h.2⟩⟩

/-! ### The encoder's form -/

/-- The object of a field as the encoder writes it. -/
def PlainObject (k : String) (o : Envelope) : Prop :=
  if k = "label" then ∃ s, o = .ofText s
  else if k = "created" then ∃ n, o = .leaf (.tagged TAG_EPOCH_TIME (.unsigned n))
  else ∃ b, o = .leaf (.byteString b)

/-- The envelope has the form in which secrets are written: no further entry in the subject,
plain assertions, and bare leaves in the fields. -/
structure Plain (host : Host) (e : Envelope) : Prop where
  subject : ∃ id, e.subject = .leaf (.map (textEntries (entries id)))
  bare : Bare host KNOWN PlainObject e

/-- What the encoder writes has the encoder's form, whatever the label. -/
lemma plain_normal_toEnvelope {secret : SealedSecret}
    (hunknown : ∀ u ∈ secret.unknown, u.1.digest host ∉ knownDigests host KNOWN) :
    Plain host ((secret.toEnvelope host).normal host) := by
  rw [toEnvelope_eq, normal_record, map_normal_fieldPairs fields_ascii, map_normal_entries]
  refine ⟨⟨_, record_subject⟩, bare_record ?_ ?_⟩
  · refine List.forall_mem_map.mpr fun f hf => ⟨fields_known f hf, ?_⟩
    rcases mem_fields.mp hf with rfl | rfl | rfl | rfl <;>
      simp [PlainObject, ofText, Envelope.normal, CBOR.normal]
  · refine List.forall_mem_map.mpr fun u hu => ?_
    rw [normalPair, digest_normal]
    exact hunknown u hu

/-- A plain envelope is written again as it was read. -/
lemma toEnvelope_of_plain {e : Envelope} {secret : SealedSecret} (hwf : e.WellFormed host)
    (hplain : Plain host e) (h : Reads host e secret) : secret.toEnvelope host = e := by
  obtain ⟨id, hsubject⟩ := hplain.subject
  have hid : secret.id = id := by
    obtain ⟨m, hm, -, -, hget⟩ := h.subject
    have hentries : m = textEntries (entries id) := by
      rw [hsubject] at hm
      exact (CBOR.map.inj (Envelope.leaf.inj hm)).symm
    rw [hentries, getAs_of_mem (entries_keyed id) (v := .text id.raw) (by simp [entries])] at hget
    exact (SecretId.ext (Option.some.inj hget)).symm
  -- the object of a field, from its form and from what is extracted
  have hobject : ∀ k ∈ KNOWN, ∀ o, e.objectsForPredicate host k = [o] →
      PlainObject k o := fun k hk o ho =>
    (hplain.bare.object knownApart hk (ho ▸ List.mem_singleton_self o)).2
  have hlabel : e.objectsForPredicate host "label" = [.ofText secret.label.val] := by
    obtain ⟨o, ho, hv⟩ := h.label
    obtain ⟨s, rfl⟩ : ∃ s, o = .ofText s := hobject "label" (by decide) o ho
    rw [ho, Option.some.inj hv]
  have hcreated : e.objectsForPredicate host "created" =
      [.leaf (.tagged TAG_EPOCH_TIME (.unsigned secret.createdAt))] := by
    obtain ⟨o, ho, hv⟩ := h.created
    obtain ⟨n, rfl⟩ : ∃ n, o = .leaf (.tagged TAG_EPOCH_TIME (.unsigned n)) :=
      hobject "created" (by decide) o ho
    rw [taggedNumber_unsigned, Option.some.injEq] at hv
    rw [ho, hv]
  have hsalt : e.objectsForPredicate host "salt" = [.leaf (.byteString secret.salt.val)] := by
    obtain ⟨o, ho, hv⟩ := h.salt
    obtain ⟨b, rfl⟩ : ∃ b, o = .leaf (.byteString b) := hobject "salt" (by decide) o ho
    rw [ho, Option.some.inj hv]
  have hvalue : e.objectsForPredicate host "value" = [.leaf (.byteString secret.value.val)] := by
    obtain ⟨o, ho, hv⟩ := h.value
    obtain ⟨b, rfl⟩ : ∃ b, o = .leaf (.byteString b) := hobject "value" (by decide) o ho
    rw [ho, Option.some.inj hv]
  rw [toEnvelope_eq]
  refine hplain.bare.record_eq hwf knownApart (hid ▸ hsubject) fields_known ?_ fun u => ?_
  · intro k hk o
    simp only [KNOWN, List.mem_cons, List.not_mem_nil, or_false] at hk
    rcases hk with rfl | rfl | rfl | rfl
    · simp [hlabel, mem_fields]
    · simp [hcreated, mem_fields]
    · simp [hsalt, mem_fields]
    · simp [hvalue, mem_fields]
  · rw [h.unknown]

end SealedSecret

end Identikey.Secret
