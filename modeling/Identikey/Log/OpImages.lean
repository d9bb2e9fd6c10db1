/-
The digests in an operation's envelope.

The digest of an assertion does not tell what is hashed: the image could be that of
another element.  In the envelope of an operation it cannot.  The five predicates have
short images and known digests; the core map starts with the head of a map of six or
seven entries; so the image of an assertion, the digests of predicate and object, is
the image of no other element.
-/
import Mathlib.Tactic.IntervalCases
import Identikey.Gordian.DigestEval
import Identikey.Log.CodecExact

namespace Identikey.Log

open Lib Auth Dcbor Gordian Envelope

variable {host : Host} {l : List Bytes}

/-! ### Predicates -/

/-- The predicates of operations. -/
def opPredicates : List Envelope :=
  [.ofText PRED_DEPS, .ofText PRED_NACKS, .ofText PRED_TARGET_FP, .ofText PRED_TIMESTAMP,
    .knownValue SIGNED]

/-- The first bytes of the images of the predicates. -/
def imageHeads : List UInt8 := [0x64, 0x65, 0x69, 0xd9]

/-- The first bytes of the digests of the predicates. -/
def digestHeads : List UInt8 := [0x13, 0xe4, 0x1d, 0xc7, 0xd0]

/-- The labels are ASCII text. -/
lemma predicate_image {p : Envelope} (hp : p ∈ opPredicates) :
    p.image host = p.image Host.plain := by
  have htext : ∀ s ∈ LABELS,
      (CBOR.text s).toCborData host = (CBOR.text s).toCborData Host.plain := fun s hs =>
    textData_of_ascii (labels_ascii s hs)
  simp only [opPredicates, List.mem_cons, List.not_mem_nil, or_false] at hp
  rcases hp with rfl | rfl | rfl | rfl | rfl
  · exact congrArg some (htext _ (by simp [LABELS]))
  · exact congrArg some (htext _ (by simp [LABELS]))
  · exact congrArg some (htext _ (by simp [LABELS]))
  · exact congrArg some (htext _ (by simp [LABELS]))
  · rfl

/-- The image of a predicate is short. -/
lemma predicate_facts {p : Envelope} (hp : p ∈ opPredicates) :
    ∃ b, p.image host = some b ∧ b.length ≤ 10 ∧ ∃ x ∈ imageHeads, b.head? = some x := by
  have hplain : ∀ p ∈ opPredicates, (p.image Host.plain).isSome ∧
      ((p.image Host.plain).getD []).length ≤ 10 ∧
      ∃ x ∈ imageHeads, ((p.image Host.plain).getD []).head? = some x := by decide
  obtain ⟨hsome, hfacts⟩ := hplain p hp
  obtain ⟨b, hb⟩ := Option.isSome_iff_exists.mp hsome
  rw [hb] at hfacts
  exact ⟨b, (predicate_image hp).trans hb, hfacts⟩

/-- The digests of the predicates, evaluated. -/
lemma predicate_digest_heads :
    opPredicates.map (fun p => (p.digest host).val.head?) = digestHeads.map some := by
  have hplain : ∀ p ∈ opPredicates, (p.digest host).val.head? =
      ((p.image Host.plain).map sha256N).bind List.head? := by
    intro p hp
    obtain ⟨b, hb, -⟩ := @predicate_facts host _ hp
    rw [digest_of_image hb, sha256_eq_nat, ← @predicate_image host _ hp, hb]
    rfl
  rw [List.map_congr_left hplain]
  decide +kernel

/-- The digest of a predicate starts with one of five bytes. -/
lemma predicate_digest_head {p : Envelope} (hp : p ∈ opPredicates) :
    ∃ x ∈ digestHeads, (p.digest host).val.head? = some x := by
  have hmem : (p.digest host).val.head? ∈ digestHeads.map some := by
    rw [← @predicate_digest_heads host]
    exact List.mem_map_of_mem (f := fun p => (p.digest host).val.head?) hp
  obtain ⟨x, hx, h⟩ := List.mem_map.mp hmem
  exact ⟨x, hx, h.symm⟩

/-- The digest of a predicate tells the predicate. -/
lemma predicate_digest_inj {p p' : Envelope} (hp : p ∈ opPredicates) (hp' : p' ∈ opPredicates)
    (h : p.digest host = p'.digest host) : p = p' := by
  have hnodup : (opPredicates.map fun p => (p.digest host).val.head?).Nodup := by
    rw [predicate_digest_heads]
    decide
  exact List.inj_on_of_nodup_map hnodup hp hp' (by rw [h])

/-! ### Assertions against other elements -/

/-- An assertion of an operation or of its wrapper: its predicate is one of the five. -/
def OpAssertion (a : Envelope) : Prop := ∃ p o, a = .assertion p o ∧ p ∈ opPredicates

lemma label_mem (a : Attribute) : Envelope.ofText a.label ∈ opPredicates := by
  cases a <;> simp [opPredicates, Attribute.label]

lemma Attribute.opAssertion (a : Attribute) : OpAssertion a.assertion :=
  ⟨_, _, rfl, label_mem a⟩

variable {scheme : SignatureScheme}

lemma signature_opAssertion (sig : scheme.Signature) : OpAssertion (signatureAssertion sig) :=
  ⟨_, _, rfl, by simp [opPredicates]⟩

/-- An image of another length, or with another start, is not that of an assertion. -/
lemma digest_ne_of_image (hfree : CollisionFree l) {a e : Envelope} (ha : OpAssertion a)
    (hca : a.Covered host l) (hce : e.Covered host l) {b : Bytes} (hb : e.image host = some b)
    (hapart : b.length ≠ 64 ∨ ∀ x ∈ digestHeads, b.head? ≠ some x) :
    e.digest host ≠ a.digest host := by
  obtain ⟨p, o, rfl, hp⟩ := ha
  intro h
  have himage := image_eq_of_digest hfree hce hca hb rfl h
  rcases hapart with hlen | hhead
  · refine hlen ?_
    rw [himage, length_digestsData]
    rfl
  · obtain ⟨x, hx, hhx⟩ := @predicate_digest_head host _ hp
    refine hhead x hx ?_
    rw [himage, digestsData_cons, List.head?_append, hhx]
    rfl

/-- A node whose subject is not hashed like a predicate is not hashed like an assertion. -/
lemma node_digest_ne (hfree : CollisionFree l) {a s : Envelope} {as : List Envelope}
    (ha : OpAssertion a) (hca : a.Covered host l) (hce : (node s as).Covered host l) {b : Bytes}
    (hb : s.image host = some b)
    (hapart : 10 < b.length ∨ ∀ x ∈ imageHeads, b.head? ≠ some x) :
    (node s as).digest host ≠ a.digest host := by
  obtain ⟨p, o, rfl, hp⟩ := ha
  intro h
  obtain ⟨c, hc, hshort, x, hx, hhx⟩ := @predicate_facts host _ hp
  have himage := digestsData_injective (image_eq_of_digest hfree hce hca rfl rfl h)
  have hsubject : s.digest host = p.digest host := (List.cons.inj himage).1
  have hbc := image_eq_of_digest hfree hce.subject hca.predicate hb hc hsubject
  rcases hapart with hlen | hhead
  · rw [hbc] at hlen
    omega
  · exact hhead x hx (hbc ▸ hhx)

/-! ### The elements of an operation -/

/-- The core map starts as a map of six or seven entries. -/
lemma coreData_head (op : Op) :
    ∃ x ∈ [(0xa6 : UInt8), 0xa7], ((CBOR.map (coreEntries op)).toCborData host).head? = some x := by
  have hlen : (coreEntries op).length = 6 ∨ (coreEntries op).length = 7 := by
    cases hbody : op.body <;> simp [coreEntries, hbody]
  rw [toCborData_map]
  rcases hlen with h | h
  · exact ⟨0xa6, by simp, by rw [h]; rfl⟩
  · exact ⟨0xa7, by simp, by rw [h]; rfl⟩

lemma core_digest_ne (hfree : CollisionFree l) {op : Op} {a : Envelope} (ha : OpAssertion a)
    (hca : a.Covered host l) (hce : (leaf (.map (coreEntries op))).Covered host l) :
    (leaf (.map (coreEntries op))).digest host ≠ a.digest host := by
  obtain ⟨x, hx, hhead⟩ := @coreData_head host op
  have hapart : ∀ x ∈ [(0xa6 : UInt8), 0xa7], x ∉ digestHeads := by decide
  refine digest_ne_of_image hfree ha hca hce rfl (.inr fun y hy => ?_)
  rw [hhead]
  rintro ⟨⟩
  exact hapart x hx hy

lemma coreNode_digest_ne (hfree : CollisionFree l) {op : Op} {a : Envelope} {as : List Envelope}
    (ha : OpAssertion a) (hca : a.Covered host l)
    (hce : (node (leaf (.map (coreEntries op))) as).Covered host l) :
    (node (leaf (.map (coreEntries op))) as).digest host ≠ a.digest host := by
  obtain ⟨x, hx, hhead⟩ := @coreData_head host op
  have hapart : ∀ x ∈ [(0xa6 : UInt8), 0xa7], x ∉ imageHeads := by decide
  refine node_digest_ne hfree ha hca hce rfl (.inr fun y hy => ?_)
  rw [hhead]
  rintro ⟨⟩
  exact hapart x hx hy

lemma length_value_le (a : Attribute) : (a.value.toCborData host).length ≤ 34 := by
  have hhash : ∀ d : Hash32, ((CBOR.byteString d.val).toCborData host).length ≤ 34 := by
    intro d
    rw [CBOR.toCborData, List.length_append, d.2]
    decide
  cases a with
  | deps d => exact hhash d
  | nacks n => exact hhash n
  | targetFp fp => exact hhash fp
  | timestamp ts =>
    have hhead := length_encodeHead_le 0 ts
    rw [Attribute.value, CBOR.toCborData, CBOR.toCborData, List.length_append]
    have htag : (encodeVarint TAG_EPOCH_TIME .tagged).length = 1 := by decide
    have hts : (encodeVarint ts .unsigned).length ≤ 9 := hhead
    omega

/-! ### Attributes and signatures -/

/-- The parts of the assertion for an attribute are not hashed like an assertion. -/
lemma attribute_parts_ne (hfree : CollisionFree l) {a : Envelope} (ha : OpAssertion a)
    (hca : a.Covered host l) {b : Attribute} (hcb : b.assertion.Covered host l) :
    (Envelope.ofText b.label).digest host ≠ a.digest host ∧
      (leaf b.value).digest host ≠ a.digest host := by
  obtain ⟨c, hc, hshort, -⟩ := @predicate_facts host _ (label_mem b)
  have hvalue := @length_value_le host b
  constructor
  · exact digest_ne_of_image hfree ha hca hcb.predicate hc (.inl (by omega))
  · exact digest_ne_of_image hfree ha hca hcb.object rfl (.inl (by omega))

/-- The encoding of a signature starts with its tag. -/
lemma signatureData_head (sig : scheme.Signature) :
    ((scheme.toCbor sig).toCborData host).head? = some 0xd9 := by
  obtain ⟨item, h⟩ := scheme.toCbor_tagged sig
  have htag : encodeVarint TAG_SIGNATURE .tagged = [0xd9, 0x9c, 0x54] := by decide
  rw [h, CBOR.toCborData, htag]
  rfl

/-- The parts of the assertion for a signature are not hashed like an assertion. -/
lemma signature_parts_ne (hfree : CollisionFree l) {a : Envelope} (ha : OpAssertion a)
    (hca : a.Covered host l) {sig : scheme.Signature}
    (hcs : (signatureAssertion sig).Covered host l) :
    (knownValue SIGNED).digest host ≠ a.digest host ∧
      (leaf (scheme.toCbor sig)).digest host ≠ a.digest host := by
  have hmem : knownValue SIGNED ∈ opPredicates := by simp [opPredicates]
  obtain ⟨c, hc, hshort, -⟩ := @predicate_facts host _ hmem
  constructor
  · exact digest_ne_of_image hfree ha hca hcs.predicate hc (.inl (by omega))
  · refine digest_ne_of_image hfree ha hca hcs.object rfl (.inr fun x hx => ?_)
    rw [signatureData_head]
    rintro ⟨⟩
    exact absurd hx (by decide)

lemma value_fits (a : Attribute) : a.value.Fits host :=
  lt_of_le_of_lt (length_value_le a) (by decide)

/-- Label and encoded value tell an attribute. -/
lemma attribute_ext {a b : Attribute} (hlabel : a.label = b.label)
    (hvalue : a.value.toCborData host = b.value.toCborData host) : a = b := by
  have hnormal : ∀ a : Attribute, a.value.normal host = a.value := fun a => by cases a <;> rfl
  have heq := normal_eq_of_toCborData (value_fits a) hvalue
  rw [hnormal, hnormal] at heq
  have hread := attributeOf_value a
  rw [hlabel, heq, attributeOf_value] at hread
  exact (Except.ok.inj hread).symm

/-- The digest of its assertion tells an attribute. -/
lemma attribute_digest_inj (hfree : CollisionFree l) {a b : Attribute}
    (ha : a.assertion.Covered host l) (hb : b.assertion.Covered host l)
    (h : a.assertion.digest host = b.assertion.digest host) : a = b := by
  obtain ⟨hp, ho⟩ := assertion_parts hfree ha hb h
  have hlabel := predicate_digest_inj (label_mem a) (label_mem b) hp
  exact attribute_ext (CBOR.text.inj (Envelope.leaf.inj hlabel))
    (leaf_data hfree ha.object hb.object ho)

/-- The digest of its assertion tells a signature. -/
lemma signature_digest_inj (hfree : CollisionFree l) {sig sig' : scheme.Signature}
    (h₁ : (signatureAssertion sig).Covered host l)
    (h₂ : (signatureAssertion sig').Covered host l)
    (h : (signatureAssertion sig).digest host = (signatureAssertion sig').digest host) :
    sig = sig' := by
  obtain ⟨-, ho⟩ := assertion_parts hfree h₁ h₂ h
  exact scheme.toCborData_injective host sig sig' (leaf_data hfree h₁.object h₂.object ho)

/-- An attribute is not a signature. -/
lemma attribute_ne_signature (hfree : CollisionFree l) {a : Attribute} {sig : scheme.Signature}
    (ha : a.assertion.Covered host l) (hs : (signatureAssertion sig).Covered host l) :
    a.assertion.digest host ≠ (signatureAssertion sig).digest host := by
  intro h
  obtain ⟨hp, -⟩ := assertion_parts hfree ha hs h
  have heq := predicate_digest_inj (label_mem a) (by simp [opPredicates]) hp
  exact Envelope.noConfusion heq

lemma sampleDigest_eq :
    (opEnvelope Host.plain sampleOp).wrap.digest Host.plain = sampleDigest := by
  refine Subtype.ext ?_
  rw [digest_eq_nat]
  decide +kernel

end Identikey.Log
