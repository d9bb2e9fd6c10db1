/-
Records: a map with fields under it.

A record is a leaf with a map, and assertions under it.  The predicates of its fields
are known texts; all other assertions are unknown ones, which are kept.  Where digests
tell the assertions of a record apart, looking up a field finds what was put there, and
the unknown assertions that are read are those that were put there.

An envelope is bare, to a codec, if its assertions are plain pairs and those with a
known predicate have the text itself for it, with an object that is as the codec
writes it.  A bare envelope is the record of what is read from it.
-/
import Identikey.Gordian.DigestEval
import Identikey.Gordian.Query

namespace Identikey.Gordian

open Lib Lib.Fallible Auth Dcbor

namespace Envelope

variable (host : Host)

/-- A leaf with a map and assertions under it, added in this order. -/
def record (entries : List (CBOR × CBOR)) (ps : List (Envelope × Envelope)) : Envelope :=
  (leaf (.map entries)).addAll host (ps.map ofPair)

/-- The pair of a field. -/
def ofField (f : String × Envelope) : Envelope × Envelope := (ofText f.1, f.2)

/-- The pairs of fields and of unknown assertions. -/
def fieldPairs (fields : List (String × Envelope)) (unknown : List (Envelope × Envelope)) :
    List (Envelope × Envelope) := fields.map ofField ++ unknown

/-- Digests tell these assertions apart. -/
def Apart (ps : List (Envelope × Envelope)) : Prop :=
  ∀ u ∈ ps, ∀ v ∈ ps, (ofPair u).digest host = (ofPair v).digest host → u = v

/-- Digests tell the known predicates apart. -/
def KnownApart (known : List String) : Prop :=
  ∀ k ∈ known, ∀ k' ∈ known, (ofText k).digest host = (ofText k').digest host → k = k'

variable {host}

lemma length_le_one {α : Type} {l : List α} (hl : l.Nodup) (hsame : ∀ a ∈ l, ∀ b ∈ l, a = b) :
    l.length ≤ 1 := by
  match l, hl with
  | [], _ => exact Nat.zero_le 1
  | [a], _ => exact le_refl 1
  | a :: b :: l, hl =>
    have hab : a ≠ b := fun h => (List.nodup_cons.mp hl).1 (h ▸ List.mem_cons_self)
    exact absurd (hsame a (by simp) b (by simp)) hab

lemma eq_singleton {α : Type} {l : List α} {a : α} (hl : l.length ≤ 1) (ha : a ∈ l) : l = [a] := by
  match l, hl with
  | [b], _ => rw [List.mem_singleton.mp ha]
  | b :: c :: l, hl => exact absurd hl (by simp)

lemma ofPair_injective : Function.Injective ofPair := by
  rintro ⟨p, o⟩ ⟨p', o'⟩ h
  obtain ⟨hp, ho⟩ := Envelope.assertion.inj h
  exact Prod.ext hp ho

/-! ### Known predicates -/

/-- Known predicates in ASCII, told apart by their digests as these are computed. -/
lemma knownApart_of_nat {known : List String} (hascii : ∀ k ∈ known, ∀ c ∈ k.toList, c.val < 128)
    (hnodup : (known.map fun k => sha256N ((CBOR.text k).toCborData Host.plain)).Nodup) :
    KnownApart host known := by
  intro k hk k' hk' h
  have hdigest : ∀ k ∈ known, ((ofText k).digest host).val =
      sha256N ((CBOR.text k).toCborData Host.plain) := by
    intro k hk
    rw [← @textData_of_ascii host _ (hascii k hk)]
    exact sha256_eq_nat _
  refine List.inj_on_of_nodup_map hnodup hk hk' ?_
  show sha256N _ = sha256N _
  rw [← hdigest k hk, ← hdigest k' hk', h]

lemma mem_knownDigests {known : List String} {k : String} (hk : k ∈ known) :
    (ofText k).digest host ∈ knownDigests host known := List.mem_map_of_mem hk

/-- Assertions told apart by their digests as these are computed. -/
lemma apart_of_nat {ps : List (Envelope × Envelope)}
    (h : (ps.map fun u => (ofPair u).digestN host).Nodup) : Apart host ps := by
  intro u hu v hv heq
  refine List.inj_on_of_nodup_map h hu hv ?_
  show (ofPair u).digestN host = (ofPair v).digestN host
  rw [← digest_eq_nat, ← digest_eq_nat, heq]

/-! ### The pairs of an envelope -/

section Pairs

variable {e : Envelope}

lemma mem_objectsForPredicate {k : String} {o : Envelope} :
    o ∈ e.objectsForPredicate host k ↔ ∃ a ∈ e.assertions, ∃ p, a.subject = .assertion p o ∧
      p.digest host = (ofText k).digest host := by
  unfold objectsForPredicate
  rw [List.mem_filterMap]
  refine exists_congr fun a => and_congr_right fun _ => ?_
  unfold objectUnder
  cases a.subject with
  | assertion p o' =>
    simp only [Option.ite_none_right_eq_some, Option.some.injEq, assertion.injEq]
    constructor
    · rintro ⟨hp, rfl⟩
      exact ⟨p, ⟨rfl, rfl⟩, hp⟩
    · rintro ⟨p', ⟨rfl, rfl⟩, hp⟩
      exact ⟨hp, rfl⟩
  | _ => simp

lemma mem_unknownAssertions {known : List String} {u : Envelope × Envelope} :
    u ∈ e.unknownAssertions host known ↔
      u.1.digest host ∉ knownDigests host known ∧ ∃ a ∈ e.assertions, a.subject = ofPair u := by
  unfold unknownAssertions
  rw [List.mem_filterMap, ← exists_and_left]
  refine exists_congr fun a => ?_
  unfold unknownPair ofPair
  cases a.subject with
  | assertion p o =>
    simp only [Option.ite_none_left_eq_some, Option.some.injEq, assertion.injEq]
    constructor
    · rintro ⟨ha, hp, rfl⟩
      exact ⟨hp, ha, rfl, rfl⟩
    · rintro ⟨hp, ha, rfl, rfl⟩
      exact ⟨ha, hp, rfl⟩
  | _ => simp

lemma objectForPredicate_eq_ok {k : String} {o : Envelope} :
    e.objectForPredicate host k = .ok o ↔ e.objectsForPredicate host k = [o] := by
  unfold objectForPredicate
  cases e.objectsForPredicate host k with
  | nil => simp
  | cons x l => cases l <;> simp

lemma extractSubjectAs_eq_ok {α : Type} {convert : CBOR → Option α} {o : Envelope} {a : α} :
    extractSubjectAs convert o = .ok a ↔ o.extractSubject.bind convert = some a := by
  unfold extractSubjectAs
  cases o.extractSubject with
  | none => simp
  | some c => cases h : convert c <;> simp [h]

/-- What is extracted from a required object. -/
lemma extractObject_eq_ok {α : Type} {convert : CBOR → Option α} {k : String} {a : α} :
    e.extractObjectForPredicate host convert k = .ok a ↔
      ∃ o, e.objectsForPredicate host k = [o] ∧ o.extractSubject.bind convert = some a := by
  unfold extractObjectForPredicate
  rw [bind_eq_ok]
  simp only [objectForPredicate_eq_ok, extractSubjectAs_eq_ok]

/-- What is extracted from an optional object, where failures are dropped. -/
lemma orNone_extractOptional {α : Type} {convert : CBOR → Option α} {k : String} {a : α} :
    orNone (e.extractOptionalObjectForPredicate host convert k) = some a ↔
      ∃ o, e.objectsForPredicate host k = [o] ∧ o.extractSubject.bind convert = some a := by
  unfold extractOptionalObjectForPredicate optionalObjectForPredicate
  match e.objectsForPredicate host k with
  | [] =>
    rw [ok_bind]
    simp [orNone, pure, Except.pure]
  | [o] =>
    rw [ok_bind]
    simp only [List.cons.injEq, and_true, exists_eq_left']
    rw [← extractSubjectAs_eq_ok]
    cases extractSubjectAs convert o <;> simp [orNone, bind, Except.bind, pure, Except.pure]
  | o :: o' :: l => simp [orNone, bind, Except.bind]

end Pairs

/-! ### What is in a record -/

section Record

variable {entries : List (CBOR × CBOR)} {ps : List (Envelope × Envelope)}

lemma record_subject : (record host entries ps).subject = leaf (.map entries) :=
  subject_addAll ⟨rfl, rfl⟩ _

lemma record_assertions : (record host entries ps).assertions = sorted host (ps.map ofPair) :=
  assertions_addAll ⟨rfl, rfl⟩ _

lemma record_keyed : Keyed (digestKey host) (record host entries ps).assertions :=
  record_assertions ▸ sorted_keyed _

/-- What stands under a record is one of its pairs. -/
lemma exists_pair {a : Envelope} (ha : a ∈ (record host entries ps).assertions) :
    ∃ u ∈ ps, a = ofPair u := by
  rw [record_assertions] at ha
  obtain ⟨u, hu, rfl⟩ := List.mem_map.mp (mem_of_mem_sorted ha)
  exact ⟨u, hu, rfl⟩

/-- Pairs that are told apart all stand under the record, each once. -/
lemma record_pairs (hap : Apart host ps) : ∃ l : List (Envelope × Envelope),
    (record host entries ps).assertions = l.map ofPair ∧ l.Nodup ∧ ∀ u, u ∈ l ↔ u ∈ ps := by
  rw [record_assertions]
  exact sorted_map hap

lemma mem_record (hap : Apart host ps) {u : Envelope × Envelope} :
    ofPair u ∈ (record host entries ps).assertions ↔ u ∈ ps := by
  obtain ⟨l, hl, -, hmem⟩ := @record_pairs host entries _ hap
  rw [hl, List.mem_map_of_injective ofPair_injective, hmem]

lemma record_wellFormed (hentries : (CBOR.map entries).Canonical host)
    (hps : ∀ u ∈ ps, u.1.WellFormed host ∧ u.2.WellFormed host) :
    (record host entries ps).WellFormed host := by
  refine WellFormed.addAll (.leaf hentries) ⟨rfl, rfl⟩ ?_ ?_
  · exact List.forall_mem_map.mpr fun u hu => .assertion (hps u hu).1 (hps u hu).2
  · exact List.forall_mem_map.mpr fun u _ => trivial

end Record

/-! ### Bare envelopes -/

variable (host)

/-- The assertions are plain pairs, and those with a known predicate have the text itself for it
and an object of the form `P`. -/
structure Bare (known : List String) (P : String → Envelope → Prop) (e : Envelope) : Prop where
  pairs : ∀ a ∈ e.assertions, ∃ u, a = ofPair u
  fields : ∀ u, ofPair u ∈ e.assertions → u.1.digest host ∈ knownDigests host known →
    ∃ k ∈ known, u.1 = ofText k ∧ P k u.2

variable {host}

section Bare

variable {known : List String} {P : String → Envelope → Prop} {e : Envelope}
  {entries : List (CBOR × CBOR)} {fields : List (String × Envelope)}
  {unknown : List (Envelope × Envelope)}

/-- What is written as a record is bare. -/
lemma bare_record (hfields : ∀ f ∈ fields, f.1 ∈ known ∧ P f.1 f.2)
    (hunknown : ∀ u ∈ unknown, u.1.digest host ∉ knownDigests host known) :
    Bare host known P (record host entries (fieldPairs fields unknown)) where
  pairs a ha := by
    obtain ⟨u, -, rfl⟩ := exists_pair ha
    exact ⟨u, rfl⟩
  fields u hu hdigest := by
    obtain ⟨v, hv, heq⟩ := exists_pair hu
    obtain rfl := ofPair_injective heq
    rcases List.mem_append.mp hv with hv | hv
    · obtain ⟨f, hf, rfl⟩ := List.mem_map.mp hv
      exact ⟨f.1, (hfields f hf).1, rfl, (hfields f hf).2⟩
    · exact absurd hdigest (hunknown u hv)

/-- The object of a known predicate in a bare envelope. -/
lemma Bare.object (h : Bare host known P e) (hknown : KnownApart host known) {k : String}
    (hk : k ∈ known) {o : Envelope} (ho : o ∈ e.objectsForPredicate host k) :
    ofPair (ofField (k, o)) ∈ e.assertions ∧ P k o := by
  obtain ⟨a, ha, p, hsubject, hp⟩ := mem_objectsForPredicate.mp ho
  obtain ⟨u, rfl⟩ := h.pairs a ha
  obtain ⟨rfl, rfl⟩ := Envelope.assertion.inj hsubject
  obtain ⟨k', hk', htext, hP⟩ := h.fields u ha (hp ▸ mem_knownDigests hk)
  obtain rfl := hknown k' hk' k hk (htext ▸ hp)
  have hu : ofField (k', u.2) = u := Prod.ext htext.symm rfl
  exact ⟨hu ▸ ha, hP⟩

/-- In a bare envelope no object stands twice under a known predicate. -/
lemma Bare.nodup_objects (h : Bare host known P e) (hknown : KnownApart host known)
    (hkeyed : Keyed (digestKey host) e.assertions) {k : String} (hk : k ∈ known) :
    (e.objectsForPredicate host k).Nodup := by
  have hunder : ∀ a ∈ e.assertions, ∀ o,
      objectUnder host ((ofText k).digest host) a = some o → a = ofPair (ofField (k, o)) := by
    intro a ha o ho
    obtain ⟨u, rfl⟩ := h.pairs a ha
    unfold objectUnder at ho
    simp only [ofPair, subject, Option.ite_none_right_eq_some, Option.some.injEq] at ho
    obtain ⟨hp, rfl⟩ := ho
    obtain ⟨k', hk', htext, -⟩ := h.fields u ha (hp ▸ mem_knownDigests hk)
    obtain rfl := hknown k' hk' k hk (htext ▸ hp)
    exact congrArg ofPair (Prod.ext htext rfl)
  unfold objectsForPredicate
  refine List.pairwise_filterMap.mpr (List.Pairwise.imp_of_mem ?_ hkeyed.nodup)
  rintro a b ha hb hab o ho o' ho' rfl
  exact hab ((hunder a ha o ho).trans (hunder b hb o ho').symm)

/-- A bare envelope is the record of its fields and of its unknown assertions. -/
lemma Bare.record_eq (h : Bare host known P e) (hwf : e.WellFormed host)
    (hknown : KnownApart host known) (hsubject : e.subject = leaf (.map entries))
    (hfields : ∀ f ∈ fields, f.1 ∈ known)
    (hobjects : ∀ k ∈ known, ∀ o, o ∈ e.objectsForPredicate host k ↔ (k, o) ∈ fields)
    (hunknown : ∀ u, u ∈ unknown ↔ u ∈ e.unknownAssertions host known) :
    record host entries (fieldPairs fields unknown) = e := by
  have hmem : ∀ a, a ∈ (fieldPairs fields unknown).map ofPair ↔ a ∈ e.assertions := by
    intro a
    constructor
    · intro ha
      obtain ⟨u, hu, rfl⟩ := List.mem_map.mp ha
      rcases List.mem_append.mp hu with hu | hu
      · obtain ⟨f, hf, rfl⟩ := List.mem_map.mp hu
        exact (h.object hknown (hfields f hf) ((hobjects _ (hfields f hf) f.2).mpr hf)).1
      · obtain ⟨-, a, ha, hau⟩ := mem_unknownAssertions.mp ((hunknown u).mp hu)
        obtain ⟨v, rfl⟩ := h.pairs a ha
        exact ofPair_injective hau ▸ ha
    · intro ha
      obtain ⟨u, rfl⟩ := h.pairs a ha
      refine List.mem_map_of_mem ?_
      by_cases hu : u.1.digest host ∈ knownDigests host known
      · obtain ⟨k, hk, htext, -⟩ := h.fields u ha hu
        have hf := (hobjects k hk u.2).mp
          (mem_objectsForPredicate.mpr ⟨_, ha, u.1, rfl, congrArg (digest host) htext⟩)
        have hfield : ofField (k, u.2) = u := Prod.ext htext.symm rfl
        exact hfield ▸ List.mem_append_left _ (List.mem_map_of_mem hf)
      · exact List.mem_append_right _
          ((hunknown u).mpr (mem_unknownAssertions.mpr ⟨hu, _, ha, rfl⟩))
  have hsorted : sorted host ((fieldPairs fields unknown).map ofPair) = e.assertions :=
    hwf.keyed.foldl_addKeyed_eq hmem
  rw [record, addAll_eq ⟨rfl, rfl⟩, ← hsubject]
  cases hwf with
  | @node s as hs hne has hkind hordered =>
    have hsorted' : sorted host ((fieldPairs fields unknown).map ofPair) = as := hsorted
    rw [if_neg fun hnil => hne (hsorted'.symm.trans (sorted_eq_nil.mpr hnil)), hsorted']
    rfl
  | leaf hc =>
    rw [if_pos (sorted_eq_nil.mp hsorted)]
    rfl
  | _ => cases hsubject

end Bare

section Fields

variable {known : List String} {entries : List (CBOR × CBOR)} {fields : List (String × Envelope)}
  {unknown : List (Envelope × Envelope)} (hknown : KnownApart host known)
  (hfields : ∀ f ∈ fields, f.1 ∈ known)
  (hunknown : ∀ u ∈ unknown, u.1.digest host ∉ knownDigests host known)
  (hap : Apart host (fieldPairs fields unknown))

include hknown hfields hunknown

/-- A pair under a known predicate is that of a field. -/
lemma field_of_pair {k : String} (hk : k ∈ known) {u : Envelope × Envelope}
    (hu : u ∈ fieldPairs fields unknown) (h : u.1.digest host = (ofText k).digest host) :
    (k, u.2) ∈ fields ∧ u = ofField (k, u.2) := by
  rcases List.mem_append.mp hu with hu | hu
  · obtain ⟨f, hf, rfl⟩ := List.mem_map.mp hu
    obtain rfl := hknown _ (hfields f hf) k hk h
    exact ⟨hf, rfl⟩
  · exact absurd (h ▸ mem_knownDigests hk) (hunknown u hu)

lemma field_of_object {k : String} (hk : k ∈ known) {o : Envelope}
    (ho : o ∈ (record host entries (fieldPairs fields unknown)).objectsForPredicate host k) :
    (k, o) ∈ fields := by
  obtain ⟨a, ha, p, hsubject, hp⟩ := mem_objectsForPredicate.mp ho
  obtain ⟨u, hu, rfl⟩ := exists_pair ha
  obtain ⟨rfl, rfl⟩ := Envelope.assertion.inj hsubject
  exact (field_of_pair hknown hfields hunknown hk hu hp).1

/-- A field that is written once at most is there once at most. -/
lemma length_objects_record {k : String} (hk : k ∈ known)
    (honce : ∀ o o', (k, o) ∈ fields → (k, o') ∈ fields → o = o') :
    ((record host entries (fieldPairs fields unknown)).objectsForPredicate host k).length ≤ 1 := by
  have hbare : Bare host known (fun _ _ => True)
      (record host entries (fieldPairs fields unknown)) :=
    bare_record (fun f hf => ⟨hfields f hf, trivial⟩) hunknown
  refine length_le_one (hbare.nodup_objects hknown record_keyed hk) fun o ho o' ho' => ?_
  exact honce o o' (field_of_object hknown hfields hunknown hk ho)
    (field_of_object hknown hfields hunknown hk ho')

include hap

lemma mem_objects_record {k : String} (hk : k ∈ known) {o : Envelope} :
    o ∈ (record host entries (fieldPairs fields unknown)).objectsForPredicate host k ↔
      (k, o) ∈ fields := by
  refine ⟨field_of_object hknown hfields hunknown hk, fun ho => ?_⟩
  have hmem : ofField (k, o) ∈ fieldPairs fields unknown :=
    List.mem_append_left _ (List.mem_map_of_mem ho)
  exact mem_objectsForPredicate.mpr ⟨_, (mem_record hap).mpr hmem, ofText k, rfl, rfl⟩

/-- A field that is there once is found. -/
lemma objects_record_eq {k : String} (hk : k ∈ known) {o : Envelope} (ho : (k, o) ∈ fields)
    (honly : ∀ o', (k, o') ∈ fields → o' = o) :
    (record host entries (fieldPairs fields unknown)).objectsForPredicate host k = [o] := by
  refine eq_singleton (length_objects_record hknown hfields hunknown hk fun o₁ o₂ h₁ h₂ => ?_)
    ((mem_objects_record hknown hfields hunknown hap hk).mpr ho)
  exact (honly o₁ h₁).trans (honly o₂ h₂).symm

lemma objects_record_nil {k : String} (hk : k ∈ known) (h : ∀ o, (k, o) ∉ fields) :
    (record host entries (fieldPairs fields unknown)).objectsForPredicate host k = [] :=
  List.eq_nil_iff_forall_not_mem.mpr fun o ho =>
    h o ((mem_objects_record hknown hfields hunknown hap hk).mp ho)

omit hknown in
/-- The unknown assertions that are read are those that were put there. -/
lemma mem_unknown_record {u : Envelope × Envelope} :
    u ∈ (record host entries (fieldPairs fields unknown)).unknownAssertions host known ↔
      u ∈ unknown := by
  rw [mem_unknownAssertions]
  constructor
  · rintro ⟨hu, a, ha, hsubject⟩
    obtain ⟨v, hv, rfl⟩ := exists_pair ha
    obtain rfl := ofPair_injective hsubject
    rcases List.mem_append.mp hv with hv | hv
    · obtain ⟨f, hf, rfl⟩ := List.mem_map.mp hv
      exact absurd (mem_knownDigests (hfields f hf)) hu
    · exact hv
  · exact fun hu => ⟨hunknown u hu, _, (mem_record hap).mpr (List.mem_append_right _ hu), rfl⟩

end Fields

/-! ### The record that is written -/

variable (host)

/-- A pair as it is written. -/
def normalPair (u : Envelope × Envelope) : Envelope × Envelope := (u.1.normal host, u.2.normal host)

variable {host}

lemma digestKey_normal (e : Envelope) : digestKey host (e.normal host) = digestKey host e := by
  rw [digestKey, digest_normal, digestKey]

lemma map_normal_sorted (as : List Envelope) :
    (sorted host as).map (normal host) = sorted host (as.map (normal host)) := by
  rw [sorted, sorted, List.foldl_map]
  exact (List.foldl_hom (List.map (normal host)) fun l a =>
    (map_addKeyed digestKey_normal a l).symm).symm

lemma normal_record (entries : List (CBOR × CBOR)) (ps : List (Envelope × Envelope)) :
    (record host entries ps).normal host =
      record host (entries.map (normalEntry host)) (ps.map (normalPair host)) := by
  have hmap : (ps.map (normalPair host)).map ofPair = (ps.map ofPair).map (normal host) := by
    rw [List.map_map, List.map_map]
    rfl
  unfold record
  rw [addAll_eq ⟨rfl, rfl⟩, addAll_eq ⟨rfl, rfl⟩, hmap, ← normal_map]
  split_ifs with h h' h'
  · rfl
  · exact absurd (List.map_eq_nil_iff.mpr h) h'
  · exact absurd (List.map_eq_nil_iff.mp h') h
  · rw [normal, normals_eq, map_normal_sorted]
    rfl

lemma map_normal_fieldPairs {fields : List (String × Envelope)}
    (hascii : ∀ f ∈ fields, ∀ c ∈ f.1.toList, c.val < 128) (unknown : List (Envelope × Envelope)) :
    (fieldPairs fields unknown).map (normalPair host) =
      fieldPairs (fields.map fun f => (f.1, f.2.normal host)) (unknown.map (normalPair host)) := by
  have hfield : ∀ f ∈ fields, normalPair host (ofField f) = ofField (f.1, f.2.normal host) := by
    intro f hf
    rw [normalPair, ofField, ofText, normal, CBOR.normal, nfc_of_ascii (hascii f hf)]
    rfl
  rw [fieldPairs, fieldPairs, List.map_append, List.map_map, List.map_map]
  exact congrArg (· ++ _) (List.map_congr_left hfield)

/-! ### Reading a record back -/

lemma WellFormed.of_mem_objects {e o : Envelope} (h : e.WellFormed host) {k : String}
    (ho : o ∈ e.objectsForPredicate host k) : o.WellFormed host := by
  obtain ⟨a, ha, p, hsubject, -⟩ := mem_objectsForPredicate.mp ho
  have hwf := (h.of_mem_assertions ha).subject
  rw [hsubject] at hwf
  cases hwf with
  | assertion hp ho => exact ho

/-- A text in a well-formed envelope is in normalisation form C. -/
lemma WellFormed.nfc_of_extract {o : Envelope} (h : o.WellFormed host) {s : String}
    (hs : o.extractSubject.bind CBOR.toText = some s) : host.nfc s = s := by
  induction h with
  | leaf hcanonical =>
    cases hcanonical with
    | text hnfc =>
      obtain rfl := Option.some.inj hs
      exact hnfc
    | _ => cases hs
  | node hsubject hne hassertions hkind hordered ih => exact ih hs
  | _ => cases hs

variable (host)

/-- The same assertions, as they are written. -/
def SameAssertions (us vs : List (Envelope × Envelope)) : Prop :=
  ∀ p, p ∈ us.map (normalPair host) ↔ p ∈ vs.map (normalPair host)

/-- An assertion that a codec does not know, and that is read back when it was written. -/
def Foreign (known : List String) (u : Envelope × Envelope) : Prop :=
  u.1.digest host ∉ knownDigests host known ∧
    (u.1.normal host).WellFormed host ∧ (u.2.normal host).WellFormed host

variable {host}

lemma Foreign.normal {known : List String} {u : Envelope × Envelope} (h : Foreign host known u) :
    (normalPair host u).1.digest host ∉ knownDigests host known := by
  rw [normalPair, digest_normal]
  exact h.1

lemma wellFormed_of_mem_unknown {e : Envelope} (h : e.WellFormed host) {known : List String}
    {u : Envelope × Envelope} (hu : u ∈ e.unknownAssertions host known) :
    u.1.WellFormed host ∧ u.2.WellFormed host := by
  obtain ⟨-, a, ha, hsubject⟩ := mem_unknownAssertions.mp hu
  have hwf := (h.of_mem_assertions ha).subject
  rw [hsubject] at hwf
  cases hwf with
  | assertion hp ho => exact ⟨hp, ho⟩

/-- What is read is as it is written. -/
lemma map_normal_unknown {e : Envelope} (h : e.WellFormed host) (known : List String) :
    (e.unknownAssertions host known).map (normalPair host) = e.unknownAssertions host known := by
  refine (List.map_congr_left fun u hu => ?_).trans (List.map_id _)
  obtain ⟨hp, ho⟩ := wellFormed_of_mem_unknown h hu
  exact Prod.ext hp.normal_eq ho.normal_eq

/-- What is read as unknown is. -/
lemma foreign_of_mem_unknown {e : Envelope} (h : e.WellFormed host) {known : List String}
    {u : Envelope × Envelope} (hu : u ∈ e.unknownAssertions host known) :
    Foreign host known u := by
  obtain ⟨hp, ho⟩ := wellFormed_of_mem_unknown h hu
  refine ⟨(mem_unknownAssertions.mp hu).1, ?_⟩
  rw [hp.normal_eq, ho.normal_eq]
  exact ⟨hp, ho⟩

/-- The assertions of a record are told apart if and only if all of them are read back. -/
lemma apart_iff {known : List String} {entries : List (CBOR × CBOR)}
    {fields : List (String × Envelope)} {unknown : List (Envelope × Envelope)}
    (hknown : KnownApart host known) (hfields : ∀ f ∈ fields, f.1 ∈ known)
    (hforeign : ∀ u ∈ unknown, Foreign host known u) {e : Envelope}
    (he : e = record host entries (fieldPairs fields (unknown.map (normalPair host))))
    (hwf : e.WellFormed host) :
    Apart host (fieldPairs fields (unknown.map (normalPair host))) ↔
      (∀ f ∈ fields, f.2 ∈ e.objectsForPredicate host f.1) ∧
        SameAssertions host unknown (e.unknownAssertions host known) := by
  have hunknown : ∀ u ∈ unknown.map (normalPair host),
      u.1.digest host ∉ knownDigests host known :=
    List.forall_mem_map.mpr fun u hu => (hforeign u hu).normal
  unfold SameAssertions
  rw [map_normal_unknown hwf]
  subst he
  constructor
  · intro hap
    refine ⟨fun f hf => ?_, fun p => (mem_unknown_record hfields hunknown hap).symm⟩
    exact (mem_objects_record hknown hfields hunknown hap (hfields f hf)).mpr hf
  · rintro ⟨hobjects, hsame⟩
    -- every pair stands there, and what stands there is told apart
    have hmem : ∀ u ∈ fieldPairs fields (unknown.map (normalPair host)), ofPair u ∈
        (record host entries (fieldPairs fields (unknown.map (normalPair host)))).assertions := by
      intro u hu
      rcases List.mem_append.mp hu with hu | hu
      · obtain ⟨f, hf, rfl⟩ := List.mem_map.mp hu
        obtain ⟨a, ha, p, hsubject, hp⟩ := mem_objectsForPredicate.mp (hobjects f hf)
        obtain ⟨v, hv, rfl⟩ := exists_pair ha
        obtain ⟨rfl, hobject⟩ := Envelope.assertion.inj hsubject
        obtain ⟨-, heq⟩ := field_of_pair hknown hfields hunknown (hfields f hf) hv hp
        rw [hobject] at heq
        rwa [← show v = ofField f from heq]
      · obtain ⟨-, a, ha, hsubject⟩ := mem_unknownAssertions.mp ((hsame u).mp hu)
        obtain ⟨v, -, rfl⟩ := exists_pair ha
        rwa [← ofPair_injective hsubject]
    intro u hu v hv h
    exact ofPair_injective (record_keyed.inj (hmem u hu) (hmem v hv) (congrArg Subtype.val h))

/-- A record with its assertions in order, by their digests as these are computed. -/
lemma record_eq_node {entries : List (CBOR × CBOR)} {ps : List (Envelope × Envelope)}
    {as : List Envelope} (hne : ps ≠ []) (hmem : ∀ a, a ∈ ps.map ofPair ↔ a ∈ as)
    (hkeyed : Keyed (digestN host) as) :
    record host entries ps = node (leaf (.map entries)) as := by
  have hdigest : Keyed (digestKey host) as := by
    rwa [show digestKey host = digestN host from funext digest_eq_nat]
  rw [record, addAll_eq ⟨rfl, rfl⟩, if_neg (List.map_eq_nil_iff.not.mpr hne), sorted,
    hdigest.foldl_addKeyed_eq hmem]

/-! ### How long an envelope is -/

section Width

variable (host : Host)

/-- The bytes that an envelope takes inside another one. -/
def width (e : Envelope) : ℕ := (e.untaggedCbor.toCborData host).length

variable {host}

lemma length_toCborData_le (e : Envelope) : (e.toCborData host).length ≤ 9 + e.width host := by
  have hhead : (encodeVarint TAG_ENVELOPE .tagged).length ≤ 9 := length_encodeHead_le 6 _
  rw [toCborData, taggedCbor, CBOR.toCborData, List.length_append, width]
  omega

lemma width_assertion (p o : Envelope) :
    (assertion p o).width host ≤ 9 + p.width host + o.width host := by
  have hhead : (encodeLen 1 .map).length ≤ 9 := length_encodeHead_le 5 (UInt64.ofNat 1)
  have hentry : (entryData host (p.untaggedCbor, o.untaggedCbor)).length =
      p.width host + o.width host := List.length_append
  rw [width, untaggedCbor, toCborData_map, List.length_append, List.flatMap_singleton, hentry,
    List.length_singleton]
  omega

/-- A node takes what its parts take and a head. -/
lemma width_node (s : Envelope) (as : List Envelope) :
    s.width host + (as.map (width host)).sum ≤ (node s as).width host ∧
      (node s as).width host ≤ 9 + s.width host + (as.map (width host)).sum := by
  have hhead : (encodeLen (s.untaggedCbor :: untaggedCbors as).length .array).length ≤ 9 :=
    length_encodeHead_le 4 _
  have hparts : ((untaggedCbors as).flatMap (CBOR.toCborData host)).length =
      (as.map (width host)).sum := by
    induction as with
    | nil => rfl
    | cons a as ih =>
      rw [untaggedCbors, List.flatMap_cons, List.length_append, List.map_cons, List.sum_cons,
        ih (length_encodeHead_le 4 _), width]
  have hnode : (node s as).width host =
      (encodeLen (s.untaggedCbor :: untaggedCbors as).length .array).length +
        (s.width host + (as.map (width host)).sum) := by
    rw [width, untaggedCbor.eq_def, toCborData_array, List.length_append, List.flatMap_cons,
      List.length_append, hparts, width]
  omega

lemma sum_insertKeyed_le (a : Envelope) (as : List Envelope) :
    ((insertKeyed (digestKey host) a as).map (width host)).sum ≤
      a.width host + (as.map (width host)).sum := by
  induction as with
  | nil => simp
  | cons b as ih =>
    rw [insertKeyed]
    split_ifs
    · simp
    · simp only [List.map_cons, List.sum_cons]
      omega
    · simp only [List.map_cons, List.sum_cons]
      omega

lemma width_addAssertionEnvelope (e a : Envelope) :
    (e.addAssertionEnvelope host a).width host ≤ 9 + e.width host + a.width host := by
  have hfirst : (node e [a]).width host ≤ 9 + e.width host + a.width host := by
    have hnode := (@width_node host e [a]).2
    rwa [List.map_singleton, List.sum_singleton] at hnode
  cases e with
  | node s as =>
    have hsum : ((addKeyed (digestKey host) a as).map (width host)).sum ≤
        a.width host + (as.map (width host)).sum := by
      unfold addKeyed
      split_ifs
      · omega
      · exact sum_insertKeyed_le a as
    have hbefore := (@width_node host s as).1
    have hafter := (@width_node host s (addKeyed (digestKey host) a as)).2
    rw [addAssertionEnvelope]
    omega
  | _ => exact hfirst

/-- Assertions of bounded lengths make an envelope of bounded length. -/
lemma width_addAll {as : List Envelope} {n : ℕ} (hn : ∀ a ∈ as, a.width host ≤ n) (e : Envelope) :
    (e.addAll host as).width host ≤ e.width host + as.length * (9 + n) := by
  induction as generalizing e with
  | nil => exact Nat.le_add_right _ _
  | cons a as ih =>
    obtain ⟨ha, has⟩ := List.forall_mem_cons.mp hn
    have hfirst := @width_addAssertionEnvelope host e a
    have hrest := ih has (e.addAssertionEnvelope host a)
    rw [addAll] at hrest
    rw [addAll, List.foldl_cons, List.length_cons, Nat.succ_mul]
    omega

end Width

end Envelope

end Identikey.Gordian
