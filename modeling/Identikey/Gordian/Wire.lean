/-
Envelopes and their bytes.

The bytes of an envelope tell it up to the normalisation of the texts in its leaves.
A well-formed envelope is one that is what its bytes say: leaves in canonical form,
nodes with at least one assertion, assertions in the order of their digests.  The
reader of the `bc-envelope` crate is not part of the sources; `EnvelopeReader` is
what is relied on: it reads exactly the bytes of the well-formed envelopes, each as
that envelope.
-/
import Identikey.Dcbor.DecodeExact
import Identikey.Gordian.Digest

namespace Identikey.Gordian

open Lib Auth Dcbor

namespace Envelope

variable (host : Host)

/-! ### The envelope that is written -/

mutual

/-- The envelope as it is written. -/
def normal : Envelope → Envelope
  | .leaf cbor => .leaf (cbor.normal host)
  | .knownValue value => .knownValue value
  | .assertion predicate object => .assertion predicate.normal object.normal
  | .wrapped e => .wrapped e.normal
  | .elided d => .elided d
  | .closed how contents d => .closed how (contents.map (CBOR.normal host)) d
  | .node subject assertions => .node subject.normal (normals assertions)

/-- The envelopes as they are written. -/
def normals : List Envelope → List Envelope
  | [] => []
  | e :: es => e.normal :: normals es

end

lemma normals_eq (es : List Envelope) : normals host es = es.map (normal host) := by
  induction es with
  | nil => rfl
  | cons e es ih => rw [normals, List.map_cons, ih]

lemma untaggedCbors_eq (es : List Envelope) : untaggedCbors es = es.map untaggedCbor := by
  induction es with
  | nil => rfl
  | cons e es ih => rw [untaggedCbors, List.map_cons, ih]

lemma untaggedCbor_normal (e : Envelope) :
    (e.normal host).untaggedCbor = e.untaggedCbor.normal host := by
  induction e using parts_induction with
  | leaf cbor => rfl
  | knownValue value => rfl
  | assertion predicate object hp ho =>
    rw [normal, untaggedCbor, hp, ho, untaggedCbor, normal_map]
    rfl
  | wrapped e he => rw [normal, untaggedCbor, he, untaggedCbor, CBOR.normal]
  | elided d => rfl
  | closed how contents d =>
    have hdigest : (how.digestCbor d).normal host = how.digestCbor d := by cases how <;> rfl
    rw [normal, untaggedCbor, untaggedCbor, CBOR.normal, normal_array, List.map_append,
      List.map_singleton, hdigest]
  | node subject assertions hs has =>
    have hmap : assertions.map (untaggedCbor ∘ normal host) =
        assertions.map (CBOR.normal host ∘ untaggedCbor) := List.map_congr_left has
    rw [normal, untaggedCbor, hs, untaggedCbor, normal_array, List.map_cons, normals_eq,
      untaggedCbors_eq, untaggedCbors_eq, List.map_map, List.map_map, hmap]

/-- Writing an envelope changes no digest. -/
lemma digest_normal (e : Envelope) : (e.normal host).digest host = e.digest host := by
  induction e using parts_induction with
  | leaf cbor => rw [normal, digest, toCborData_normal, digest]
  | knownValue value => rfl
  | assertion predicate object hp ho => rw [normal, digest, hp, ho, digest]
  | wrapped e he => rw [normal, digest, he, digest]
  | elided d => rfl
  | closed how contents d => rfl
  | node subject assertions hs has =>
    have hmap : assertions.map (digest host ∘ normal host) = assertions.map (digest host) :=
      List.map_congr_left has
    rw [normal, digest, hs, digest, digests_eq, digests_eq, normals_eq, List.map_map, hmap]

lemma digestCbor_injective (how : Closing) : Function.Injective how.digestCbor := by
  intro d d' h
  cases how with
  | encrypted => exact Subtype.ext (List.append_cancel_left (CBOR.byteString.inj h))
  | compressed => exact Subtype.ext (CBOR.byteString.inj (CBOR.tagged.inj h).2)

/-- The value of an envelope tells the envelope. -/
lemma untaggedCbor_injective : Function.Injective untaggedCbor := by
  intro e e' h
  induction e using parts_induction generalizing e' with
  | leaf cbor =>
    cases e' with
    | closed how contents d => cases how <;> simp [untaggedCbor, TAG_LEAF, Closing.tag] at h
    | _ => simp_all [untaggedCbor, TAG_LEAF, TAG_ENVELOPE]
  | knownValue value => cases e' <;> simp_all [untaggedCbor]
  | elided d =>
    cases e' with
    | elided d' => exact congrArg elided (Subtype.ext (CBOR.byteString.inj h))
    | _ => simp [untaggedCbor] at h
  | closed how contents d =>
    cases e' with
    | closed how' contents' d' =>
      obtain ⟨htag, hitems⟩ := CBOR.tagged.inj h
      obtain rfl : how = how' := by cases how <;> cases how' <;> simp [Closing.tag] at htag ⊢
      obtain ⟨rfl, hd⟩ := List.append_inj' (CBOR.array.inj hitems) rfl
      rw [digestCbor_injective how (List.singleton_inj.mp hd)]
    | leaf cbor => cases how <;> simp [untaggedCbor, TAG_LEAF, Closing.tag] at h
    | wrapped e' => cases how <;> simp [untaggedCbor, TAG_ENVELOPE, Closing.tag] at h
    | _ => simp [untaggedCbor] at h
  | wrapped e he =>
    cases e' with
    | wrapped e' => rw [he (CBOR.tagged.inj h).2]
    | closed how contents d => cases how <;> simp [untaggedCbor, TAG_ENVELOPE, Closing.tag] at h
    | _ => simp [untaggedCbor, TAG_LEAF, TAG_ENVELOPE] at h
  | assertion predicate object hp ho =>
    cases e' with
    | assertion p' o' =>
      simp only [untaggedCbor, CBOR.map.injEq, List.cons.injEq, Prod.mk.injEq, and_true] at h
      rw [hp h.1, ho h.2]
    | _ => simp [untaggedCbor] at h
  | node subject assertions hs has =>
    cases e' with
    | node s' as' =>
      simp only [untaggedCbor, CBOR.array.injEq, List.cons.injEq, untaggedCbors_eq] at h
      obtain ⟨hsubject, hassertions⟩ := h
      rw [hs hsubject]
      congr 1
      clear hs hsubject
      induction assertions generalizing as' with
      | nil => exact (List.map_eq_nil_iff.mp hassertions.symm).symm
      | cons a as ih =>
        cases as' with
        | nil => exact absurd hassertions (List.cons_ne_nil _ _)
        | cons a' as' =>
          obtain ⟨ha, has⟩ := List.forall_mem_cons.mp has
          simp only [List.map_cons, List.cons.injEq] at hassertions
          rw [ha hassertions.1, ih has as' hassertions.2]
    | _ => simp [untaggedCbor] at h

/-- The encoding of the envelope is shorter than `2 ^ 64` bytes, as all that is in memory. -/
def Fits (e : Envelope) : Prop := e.taggedCbor.Fits host

instance (e : Envelope) : Decidable (e.Fits host) :=
  inferInstanceAs (Decidable ((e.toCborData host).length < 2 ^ 64))

variable {host}

lemma Fits.untagged {e : Envelope} (h : e.Fits host) : e.untaggedCbor.Fits host :=
  CBOR.Fits.tagged h

/-- **The bytes of an envelope tell it, as it is written.** -/
theorem toCborData_eq_iff {e e' : Envelope} (hfit : e.Fits host) :
    e.toCborData host = e'.toCborData host ↔ e.normal host = e'.normal host := by
  rw [toCborData, toCborData, Dcbor.toCborData_eq_iff hfit, taggedCbor, taggedCbor, CBOR.normal,
    CBOR.normal, CBOR.tagged.injEq, ← untaggedCbor_normal, ← untaggedCbor_normal]
  constructor
  · exact fun h => untaggedCbor_injective h.2
  · exact fun h => ⟨rfl, congrArg untaggedCbor h⟩

/-! ### Well-formed envelopes -/

/-- The element may stand as an assertion: it is one, or may hide one, with or without
assertions of its own. -/
def MayAssert : Envelope → Prop
  | .assertion _ _ => True
  | .elided _ => True
  | .closed _ _ _ => True
  | .node subject _ => subject.MayAssert
  | _ => False

variable (host)

/-- An envelope that is what its bytes say. -/
inductive WellFormed : Envelope → Prop where
  | leaf {cbor : CBOR} (h : cbor.Canonical host) : WellFormed (.leaf cbor)
  | knownValue (value : UInt64) : WellFormed (.knownValue value)
  | assertion {predicate object : Envelope} (hpredicate : WellFormed predicate)
      (hobject : WellFormed object) : WellFormed (.assertion predicate object)
  | wrapped {e : Envelope} (h : WellFormed e) : WellFormed (.wrapped e)
  | elided (d : Digest32) : WellFormed (.elided d)
  | closed (how : Closing) {contents : List CBOR} (h : ∀ c ∈ contents, c.Canonical host)
      (d : Digest32) : WellFormed (.closed how contents d)
  | node {subject : Envelope} {assertions : List Envelope} (hsubject : WellFormed subject)
      (hne : assertions ≠ []) (hassertions : ∀ a ∈ assertions, WellFormed a)
      (hkind : ∀ a ∈ assertions, a.MayAssert) (hordered : Keyed (digestKey host) assertions) :
      WellFormed (.node subject assertions)

/-- An envelope that the crate can build: nodes have assertions, and these may stand there. -/
inductive Shaped : Envelope → Prop where
  | leaf (cbor : CBOR) : Shaped (.leaf cbor)
  | knownValue (value : UInt64) : Shaped (.knownValue value)
  | assertion {predicate object : Envelope} (hpredicate : Shaped predicate)
      (hobject : Shaped object) : Shaped (.assertion predicate object)
  | wrapped {e : Envelope} (h : Shaped e) : Shaped (.wrapped e)
  | elided (d : Digest32) : Shaped (.elided d)
  | closed (how : Closing) (contents : List CBOR) (d : Digest32) :
      Shaped (.closed how contents d)
  | node {subject : Envelope} {assertions : List Envelope} (hsubject : Shaped subject)
      (hne : assertions ≠ []) (hassertions : ∀ a ∈ assertions, Shaped a)
      (hkind : ∀ a ∈ assertions, a.MayAssert) : Shaped (.node subject assertions)

variable {host}

lemma WellFormed.shaped {e : Envelope} (h : e.WellFormed host) : e.Shaped := by
  induction h with
  | leaf h => exact .leaf _
  | knownValue value => exact .knownValue value
  | assertion hp ho ihp iho => exact .assertion ihp iho
  | wrapped h ih => exact .wrapped ih
  | elided d => exact .elided d
  | closed how h d => exact .closed how _ d
  | node hs hne has hkind hordered ihs ihas => exact .node ihs hne ihas hkind

lemma Shaped.subject {e : Envelope} (h : e.Shaped) : e.subject.Shaped := by
  cases h with
  | node hsubject hne hassertions hkind => exact hsubject
  | leaf cbor => exact .leaf cbor
  | knownValue value => exact .knownValue value
  | assertion hp ho => exact .assertion hp ho
  | wrapped h => exact .wrapped h
  | elided d => exact .elided d
  | closed how contents d => exact .closed how contents d

lemma Shaped.of_mem_assertions {e a : Envelope} (h : e.Shaped) (ha : a ∈ e.assertions) :
    a.Shaped ∧ a.MayAssert := by
  cases h with
  | node hsubject hne hassertions hkind => exact ⟨hassertions a ha, hkind a ha⟩
  | _ => exact absurd ha List.not_mem_nil

/-- What stands as an assertion and is not obscured has an image of two digests or more. -/
lemma Shaped.length_image {e : Envelope} (h : e.Shaped) (hmay : e.MayAssert)
    (hne : ¬ e.Obscured) : ∃ b, e.image host = some b ∧ 64 ≤ b.length := by
  cases h with
  | assertion hp ho =>
    refine ⟨_, rfl, ?_⟩
    rw [length_digestsData, List.length_cons, List.length_singleton]
  | @node s as hs has hassertions hkind =>
    refine ⟨_, rfl, ?_⟩
    have hpos := List.length_pos_iff.mpr has
    rw [length_digestsData, List.length_cons, List.length_map]
    omega
  | elided d => exact absurd trivial hne
  | closed how contents d => exact absurd trivial hne
  | _ => exact absurd hmay id

lemma WellFormed.canonical {e : Envelope} (h : e.WellFormed host) :
    e.untaggedCbor.Canonical host := by
  induction h with
  | leaf h => exact .tagged h
  | knownValue value => exact .unsigned value
  | assertion hp ho ihp iho =>
    refine .map (List.pairwise_singleton _ _) ?_ ?_
    · exact List.forall_mem_singleton.mpr ihp
    · exact List.forall_mem_singleton.mpr iho
  | wrapped h ih => exact .tagged ih
  | elided d => exact .byteString d.val
  | closed how h d =>
    refine .tagged (.array (List.forall_mem_append.mpr ⟨h, ?_⟩))
    refine List.forall_mem_singleton.mpr ?_
    cases how with
    | encrypted => exact .byteString _
    | compressed => exact .tagged (.byteString d.val)
  | node hs hne has hkind hordered ihs ihas =>
    rw [untaggedCbor, untaggedCbors_eq]
    refine .array (List.forall_mem_cons.mpr ⟨ihs, ?_⟩)
    exact List.forall_mem_map.mpr ihas

lemma WellFormed.normal_eq {e : Envelope} (h : e.WellFormed host) : e.normal host = e :=
  untaggedCbor_injective (by rw [untaggedCbor_normal, h.canonical.normal_eq])

lemma WellFormed.subject {e : Envelope} (h : e.WellFormed host) : e.subject.WellFormed host := by
  cases h with
  | node hsubject hne hassertions hkind hordered => exact hsubject
  | leaf h => exact .leaf h
  | knownValue value => exact .knownValue value
  | assertion hp ho => exact .assertion hp ho
  | wrapped h => exact .wrapped h
  | elided d => exact .elided d
  | closed how h d => exact .closed how h d

lemma WellFormed.of_mem_assertions {e a : Envelope} (h : e.WellFormed host)
    (ha : a ∈ e.assertions) : a.WellFormed host := by
  cases h with
  | node hsubject hne hassertions hkind hordered => exact hassertions a ha
  | _ => exact absurd ha List.not_mem_nil

lemma WellFormed.keyed {e : Envelope} (h : e.WellFormed host) :
    Keyed (digestKey host) e.assertions := by
  cases h with
  | node hsubject hne hassertions hkind hordered => exact hordered
  | _ => exact keyed_nil _

/-- Assertions added to a bare well-formed envelope. -/
lemma WellFormed.addAll {e : Envelope} (h : e.WellFormed host)
    (hbare : e.assertions = [] ∧ e.subject = e) {as : List Envelope}
    (has : ∀ a ∈ as, a.WellFormed host) (hkind : ∀ a ∈ as, a.MayAssert) :
    (e.addAll host as).WellFormed host := by
  rw [addAll_eq hbare]
  split_ifs with hnil
  · exact h
  · refine .node h (fun hs => hnil (sorted_eq_nil.mp hs)) ?_ ?_ (sorted_keyed as)
    · exact fun a ha => has a (mem_of_mem_sorted ha)
    · exact fun a ha => hkind a (mem_of_mem_sorted ha)

end Envelope

/-! ### Reading -/

/-- `Envelope::try_from_cbor_data`: it reads the bytes of the well-formed envelopes and nothing
else. -/
structure EnvelopeReader (host : Host) where
  tryFromCborData : Bytes → Option Envelope
  reads : ∀ b e, tryFromCborData b = some e ↔
    e.WellFormed host ∧ e.Fits host ∧ e.toCborData host = b

namespace EnvelopeReader

variable {host : Host}

/-- What is read is written back as it was. -/
lemma toCborData (reader : EnvelopeReader host) {b : Bytes} {e : Envelope}
    (h : reader.tryFromCborData b = some e) : e.toCborData host = b := ((reader.reads b e).mp h).2.2

/-- What is written is read back, as it is written. -/
lemma tryFromCborData_toCborData (reader : EnvelopeReader host) {e : Envelope}
    (h : (e.normal host).WellFormed host) (hfit : e.Fits host) :
    reader.tryFromCborData (e.toCborData host) = some (e.normal host) := by
  have hdata : (e.normal host).toCborData host = e.toCborData host := by
    rw [(Envelope.toCborData_eq_iff hfit).mpr h.normal_eq.symm]
  refine (reader.reads _ _).mpr ⟨h, ?_, hdata⟩
  change ((e.normal host).toCborData host).length < 2 ^ 64
  rw [hdata]
  exact hfit

open Classical in
/-- There is such a reader. -/
noncomputable def canonical (host : Host) : EnvelopeReader host where
  tryFromCborData b :=
    if h : ∃ e : Envelope, e.WellFormed host ∧ e.Fits host ∧ e.toCborData host = b then
      some h.choose
    else none
  reads b e := by
    constructor
    · intro h
      split_ifs at h with hex
      cases h
      exact hex.choose_spec
    · intro h
      have hex : ∃ e : Envelope, e.WellFormed host ∧ e.Fits host ∧ e.toCborData host = b := ⟨e, h⟩
      rw [dif_pos hex, Option.some.injEq]
      obtain ⟨hwf, hfit, hdata⟩ := hex.choose_spec
      rw [← hwf.normal_eq, ← h.1.normal_eq]
      exact (Envelope.toCborData_eq_iff hfit).mp (hdata.trans h.2.2.symm)

end EnvelopeReader

end Identikey.Gordian
