/-
Elision of assertions of a signed operation.

Any set of assertions may be withheld, inside and outside the wrapper.  No other
element of the envelope is hashed like an assertion, so exactly the assertions that
are asked for disappear; the decoder counts them and reads the others, and the
signatures that are left are checked against the digest that was signed.
-/
import Mathlib.Data.Finset.Dedup
import Identikey.Gordian.DigestEval
import Identikey.Log.OpImages
import Identikey.Log.Sign

namespace Identikey.Log

open Lib Lib.Fallible Auth Dcbor Gordian Envelope

variable {host : Host} {scheme : SignatureScheme} {l : List Bytes}

/-! ### What is left -/

section Kept

variable {β : Type}

/-- What is read of elements some of which are elided. -/
def readKept (gone : β → Bool) (bs : List β) : List (Option β) :=
  bs.map fun b => if gone b then none else some b

lemma reduceOption_readKept (gone : β → Bool) (bs : List β) :
    (readKept gone bs).reduceOption = bs.filter fun b => !gone b := by
  induction bs with
  | nil => rfl
  | cons b bs ih =>
    rw [readKept, List.map_cons]
    cases hb : gone b with
    | true =>
      rw [if_pos rfl, List.reduceOption_cons_of_none, List.filter_cons_of_neg (by simp [hb])]
      exact ih
    | false =>
      rw [if_neg (by simp), List.reduceOption_cons_of_some, List.filter_cons_of_pos (by simp [hb])]
      exact congrArg _ ih

lemma count_readKept [DecidableEq β] (gone : β → Bool) (bs : List β) :
    (readKept gone bs).count none = (bs.filter gone).length := by
  induction bs with
  | nil => rfl
  | cons b bs ih =>
    rw [readKept, List.map_cons]
    cases hb : gone b with
    | true =>
      rw [if_pos rfl, List.count_cons_self, List.filter_cons_of_pos hb, List.length_cons]
      exact congrArg (· + 1) ih
    | false =>
      rw [if_neg (by simp), List.count_cons_of_ne (by simp), List.filter_cons_of_neg (by simp [hb])]
      exact ih

end Kept

/-- The assertions that are withheld. -/
def gone (host : Host) (T : Finset Digest32) (a : Envelope) : Bool := a.digest host ∈ T

/-- The operation without the attributes whose assertions are withheld, its links in order and
without repetitions. -/
def Op.withhold (host : Host) (T : Finset Digest32) (op : Op) : Op :=
  { op with
    deps := sortOn Subtype.val
      (op.deps.dedup.filter fun d => !gone host T (Attribute.deps d).assertion)
    nacks := sortOn Subtype.val
      (op.nacks.dedup.filter fun n => !gone host T (Attribute.nacks n).assertion)
    targetFp := op.targetFp.filter fun fp => !gone host T (Attribute.targetFp fp).assertion
    timestamp := op.timestamp.filter fun ts => !gone host T (Attribute.timestamp ts).assertion }

/-! ### The elided envelope -/

/-- Only assertions of operations are asked for. -/
def Targets (host : Host) (l : List Bytes) (T : Finset Digest32) : Prop :=
  ∀ d ∈ T, ∃ a, OpAssertion a ∧ a.Covered host l ∧ a.digest host = d

lemma Targets.not_mem {T : Finset Digest32} (hT : Targets host l T) {e : Envelope}
    (h : ∀ a, OpAssertion a → a.Covered host l → e.digest host ≠ a.digest host) :
    e.digest host ∉ T := by
  intro hmem
  obtain ⟨a, ha, hca, heq⟩ := hT _ hmem
  exact h a ha hca heq.symm

section Elide

variable (hfree : CollisionFree l) {T : Finset Digest32} (hT : Targets host l T)

include hfree hT

lemma elide_attribute {b : Attribute} (hcb : b.assertion.Covered host l) :
    elideRemovingSet host T b.assertion =
      if gone host T b.assertion then .elided (b.assertion.digest host) else b.assertion := by
  by_cases h : b.assertion.digest host ∈ T
  · rw [if_pos (by simpa [gone] using h)]
    exact elideRemovingSet_of_mem h
  · have hp := hT.not_mem fun a ha hca => (attribute_parts_ne hfree ha hca hcb).1
    have ho := hT.not_mem fun a ha hca => (attribute_parts_ne hfree ha hca hcb).2
    rw [if_neg (by simpa [gone] using h), Attribute.assertion, elide_assertion h]
    exact congrArg₂ _ (elide_leaf hp) (elide_leaf ho)

lemma elide_signature {sig : scheme.Signature}
    (hcs : (signatureAssertion sig).Covered host l) :
    elideRemovingSet host T (signatureAssertion sig) =
      if gone host T (signatureAssertion sig) then
        .elided ((signatureAssertion sig).digest host)
      else signatureAssertion sig := by
  by_cases h : (signatureAssertion sig).digest host ∈ T
  · rw [if_pos (by simpa [gone] using h)]
    exact elideRemovingSet_of_mem h
  · have hp := hT.not_mem fun a ha hca => (signature_parts_ne hfree ha hca hcs).1
    have ho := hT.not_mem fun a ha hca => (signature_parts_ne hfree ha hca hcs).2
    rw [if_neg (by simpa [gone] using h), signatureAssertion, elide_assertion h]
    exact congrArg₂ _ (if_neg hp) (elide_leaf ho)

/-- Inside, the core map stays and the assertions are elided one by one. -/
lemma elide_opEnvelope {op : Op} (hc : (opEnvelope host op).Covered host l) :
    (elideRemovingSet host T (opEnvelope host op)).subject = leaf (.map (coreEntries op)) ∧
      (elideRemovingSet host T (opEnvelope host op)).assertions =
        (sorted host (op.attributes.map Attribute.assertion)).map
          (elideRemovingSet host T) := by
  have heq : opEnvelope host op = if op.attributes.map Attribute.assertion = [] then
      leaf (.map (coreEntries op)) else node (leaf (.map (coreEntries op)))
        (sorted host (op.attributes.map Attribute.assertion)) := addAll_eq ⟨rfl, rfl⟩ _
  have hcore : (leaf (.map (coreEntries op))).Covered host l := by
    have hsubject := hc.subject
    rwa [opEnvelope, subject_addAll ⟨rfl, rfl⟩] at hsubject
  have hleaf := hT.not_mem fun a ha hca => core_digest_ne hfree ha hca hcore
  rw [heq]
  split_ifs with hnil
  · rw [elide_leaf hleaf, hnil]
    exact ⟨rfl, rfl⟩
  · rw [heq, if_neg hnil] at hc
    have hnode := hT.not_mem fun a ha hca => coreNode_digest_ne hfree ha hca hc
    rw [elide_node hnode, elide_leaf hleaf]
    exact ⟨rfl, rfl⟩

/-- Outside, the wrapper stays and the assertions are elided one by one. -/
lemma elide_signedEnvelope {signed : SignedOp scheme} (hne : signed.signatures ≠ [])
    (hc : (signedEnvelope host signed).Covered host l) :
    elideRemovingSet host T (signedEnvelope host signed) =
      node (wrapped (elideRemovingSet host T (opEnvelope host signed.op)))
        ((sorted host (signed.signatures.map signatureAssertion)).map
          (elideRemovingSet host T)) := by
  have heq : signedEnvelope host signed = node (wrapped (opEnvelope host signed.op))
      (sorted host (signed.signatures.map signatureAssertion)) := by
    rw [signedEnvelope, addAll_eq ⟨rfl, rfl⟩, if_neg (fun h => hne (List.map_eq_nil_iff.mp h))]
  have hlen : (digestsData [(opEnvelope host signed.op).digest host]).length = 32 :=
    length_digestsData _
  rw [heq] at hc ⊢
  have hnode := hT.not_mem fun a ha hca =>
    node_digest_ne hfree ha hca hc rfl (.inl (by rw [hlen]; decide))
  have hwrapped := hT.not_mem fun a ha hca =>
    digest_ne_of_image hfree ha hca hc.subject rfl (.inl (by rw [hlen]; decide))
  rw [elide_node hnode, elide_wrapped hwrapped]

end Elide

/-! ### Reading what is left -/

/-- The only value of a list. -/
lemma getLast?_eq_of_mem {α : Type} {as : List α} {o : Option α} (h : ∀ x, x ∈ as ↔ o = some x) :
    as.getLast? = o := by
  cases hlast : as.getLast? with
  | none =>
    cases o with
    | none => rfl
    | some x =>
      have hmem := (h x).mpr rfl
      rw [List.getLast?_eq_none_iff.mp hlast] at hmem
      exact absurd hmem List.not_mem_nil
  | some x => exact ((h x).mp (List.mem_of_getLast? hlast)).symm

/-- Links without repetitions are told by what is among them. -/
lemma sortOn_ext {as bs : List Hash32} (has : as.Nodup) (hbs : bs.Nodup)
    (h : ∀ x, x ∈ as ↔ x ∈ bs) : sortOn Subtype.val as = sortOn Subtype.val bs :=
  sortOn_eq_of_perm Subtype.val ((List.perm_ext_iff_of_nodup has hbs).mpr h)
    (has.map Subtype.val_injective)

/-- The attributes of an operation that are not withheld give what is left of it. -/
lemma applyAll_kept {op : Op} {T : Finset Digest32} {as : List Attribute} (hnodup : as.Nodup)
    (has : ∀ a, a ∈ as ↔ a ∈ op.attributes) :
    (op.core.applyAll (as.filter fun a => !gone host T a.assertion)).sortLinks =
      op.withhold host T := by
  have hmem : ∀ a, a ∈ as.filter (fun a => !gone host T a.assertion) ↔
      a ∈ op.attributes ∧ !gone host T a.assertion := by
    intro a
    rw [List.mem_filter, has]
  have hkept : (as.filter fun a => !gone host T a.assertion).Nodup := hnodup.filter _
  rw [applyAll_eq]
  simp only [Op.core, Op.sortLinks, Op.withhold, List.nil_append, Option.or_none, Op.mk.injEq,
    true_and]
  refine ⟨?_, ?_, ?_, ?_⟩
  · refine sortOn_ext ?_ ((List.nodup_dedup _).filter _) fun d => ?_
    · refine hkept.filterMap fun a b d ha hb => ?_
      rw [Attribute.dep?_eq_some.mp ha, Attribute.dep?_eq_some.mp hb]
    · simp only [List.mem_filterMap, Attribute.dep?_eq_some, exists_eq_right, hmem,
        deps_mem_attributes, List.mem_filter, List.mem_dedup]
  · refine sortOn_ext ?_ ((List.nodup_dedup _).filter _) fun n => ?_
    · refine hkept.filterMap fun a b n ha hb => ?_
      rw [Attribute.nack?_eq_some.mp ha, Attribute.nack?_eq_some.mp hb]
    · simp only [List.mem_filterMap, Attribute.nack?_eq_some, exists_eq_right, hmem,
        nacks_mem_attributes, List.mem_filter, List.mem_dedup]
  · refine getLast?_eq_of_mem fun fp => ?_
    simp only [List.mem_filterMap, Attribute.target?_eq_some, exists_eq_right, hmem,
      targetFp_mem_attributes, Option.filter_eq_some_iff]
  · refine getLast?_eq_of_mem fun ts => ?_
    simp only [List.mem_filterMap, Attribute.time?_eq_some, exists_eq_right, hmem,
      timestamp_mem_attributes, Option.filter_eq_some_iff]

/-! ### The whole -/

/-- The messages that are hashed when the envelope of a signed operation is built. -/
def signedImages (host : Host) (signed : SignedOp scheme) : List Bytes :=
  (signedEnvelope host signed).images host ++
    (signed.op.attributes.map Attribute.assertion ++
      signed.signatures.map signatureAssertion).flatMap (images host)

section Covered

variable {signed : SignedOp scheme}

lemma covered_signedEnvelope :
    (signedEnvelope host signed).Covered host (signedImages host signed) :=
  fun _ hb => List.mem_append_left _ hb

lemma covered_attribute {a : Attribute} (ha : a ∈ signed.op.attributes) :
    a.assertion.Covered host (signedImages host signed) := fun _ hb =>
  List.mem_append_right _ (List.mem_flatMap.mpr
    ⟨_, List.mem_append_left _ (List.mem_map_of_mem ha), hb⟩)

lemma covered_signature {sig : scheme.Signature} (hs : sig ∈ signed.signatures) :
    (signatureAssertion sig).Covered host (signedImages host signed) := fun _ hb =>
  List.mem_append_right _ (List.mem_flatMap.mpr
    ⟨_, List.mem_append_right _ (List.mem_map_of_mem hs), hb⟩)

lemma covered_opEnvelope :
    (opEnvelope host signed.op).Covered host (signedImages host signed) := by
  have hwrapped := (@covered_signedEnvelope host _ signed).subject
  rw [signedEnvelope, subject_addAll ⟨rfl, rfl⟩] at hwrapped
  exact hwrapped.unwrapped

end Covered

/-- Digests of elements that they tell apart, as many as there are. -/
lemma card_targets {β γ : Type} {f : β → Digest32} {g : γ → Digest32} {bs : List β} {cs : List γ}
    (hbs : bs.Nodup) (hcs : cs.Nodup) (hf : ∀ b ∈ bs, ∀ b' ∈ bs, f b = f b' → b = b')
    (hg : ∀ c ∈ cs, ∀ c' ∈ cs, g c = g c' → c = c') (hfg : ∀ b ∈ bs, ∀ c ∈ cs, f b ≠ g c)
    {T : Finset Digest32} (hT : ∀ d ∈ T, (∃ b ∈ bs, f b = d) ∨ ∃ c ∈ cs, g c = d) :
    (bs.filter fun b => f b ∈ T).length + (cs.filter fun c => g c ∈ T).length = T.card := by
  have hnodup :
      ((bs.filter fun b => f b ∈ T).map f ++ (cs.filter fun c => g c ∈ T).map g).Nodup := by
    refine List.Nodup.append ?_ ?_ ?_
    · refine List.Nodup.map_on (fun b hb b' hb' => ?_) (hbs.filter _)
      exact hf b (List.mem_of_mem_filter hb) b' (List.mem_of_mem_filter hb')
    · refine List.Nodup.map_on (fun c hc c' hc' => ?_) (hcs.filter _)
      exact hg c (List.mem_of_mem_filter hc) c' (List.mem_of_mem_filter hc')
    · intro d hd hd'
      obtain ⟨b, hb, rfl⟩ := List.mem_map.mp hd
      obtain ⟨c, hc, hbc⟩ := List.mem_map.mp hd'
      exact hfg b (List.mem_of_mem_filter hb) c (List.mem_of_mem_filter hc) hbc.symm
  have hset : T = ((bs.filter fun b => f b ∈ T).map f ++
      (cs.filter fun c => g c ∈ T).map g).toFinset := by
    ext d
    simp only [List.mem_toFinset, List.mem_append, List.mem_map, List.mem_filter, decide_eq_true_eq]
    constructor
    · intro hd
      rcases hT d hd with ⟨b, hb, rfl⟩ | ⟨c, hc, rfl⟩
      · exact .inl ⟨b, ⟨hb, hd⟩, rfl⟩
      · exact .inr ⟨c, ⟨hc, hd⟩, rfl⟩
    · rintro (⟨b, ⟨-, hd⟩, rfl⟩ | ⟨c, ⟨-, hd⟩, rfl⟩)
      · exact hd
      · exact hd
  have hcard := congrArg Finset.card hset
  rw [List.toFinset_card_of_nodup hnodup, List.length_append, List.length_map,
    List.length_map] at hcard
  exact hcard.symm

/-- Every element is read unless its assertion is elided. -/
lemma forall₂_readKept {β : Type} {f : β → Envelope} {read : Envelope → Except LogError (Option β)}
    {T : Finset Digest32} {bs : List β}
    (helide : ∀ b ∈ bs, elideRemovingSet host T (f b) =
      if gone host T (f b) then .elided ((f b).digest host) else f b)
    (helided : ∀ d, read (.elided d) = .ok none) (hread : ∀ b, read (f b) = .ok (some b)) :
    List.Forall₂ (fun a x => read a = .ok x) ((bs.map f).map (elideRemovingSet host T))
      (readKept (fun b => gone host T (f b)) bs) := by
  rw [readKept, List.map_map, List.forall₂_map_left_iff, List.forall₂_map_right_iff]
  refine List.forall₂_same.mpr fun b hb => ?_
  rw [Function.comp_apply, helide b hb]
  split_ifs
  · exact helided _
  · exact hread b

/-- The subject that is signed keeps its digest. -/
lemma subject_digest_elided {signed : SignedOp scheme} (T : Finset Digest32) {as : List Envelope}
    (helide : elideRemovingSet host T (signedEnvelope host signed) =
      node (wrapped (elideRemovingSet host T (opEnvelope host signed.op))) as) :
    (elideRemovingSet host T (signedEnvelope host signed)).subject.digest host =
      (opEnvelope host signed.op).wrap.digest host := by
  rw [helide]
  change
    sha256 (digestsData [(elideRemovingSet host T (opEnvelope host signed.op)).digest host]) =
      sha256 (digestsData [(opEnvelope host signed.op).digest host])
  rw [digest_elideRemovingSet]

/-- **Elision hides what is asked for and nothing else.**  A signed operation is redacted: any
set of its assertions, inside and outside the wrapper, is elided.  The digest stays; the decoder
counts the elided assertions and reads the operation without the attributes they held; and
verification asks for a signature that is left, and for all of those to verify under the actor
over the digest that was signed. -/
theorem fromEnvelope_elided {signed : SignedOp scheme} {inner e : Envelope}
    (hsigned : signed.signatures ≠ []) (hinner : toEnvelope host signed.op = .ok inner)
    (he : toSignedEnvelope host signed = .ok e) (hfree : CollisionFree (signedImages host signed))
    {T : Finset Digest32}
    (hT : ∀ d ∈ T, d ∈ (inner.assertions ++ e.assertions).map (digest host)) :
    (elideRemovingSet host T e).digest host = e.digest host ∧
      (∃ s, fromEnvelope host scheme (elideRemovingSet host T e) = .ok s ∧ s.elided = T.card ∧
        s.op = signed.op.withhold host T) ∧
      ∀ actor,
        ((∀ sig ∈ signed.signatures, (signatureAssertion sig).digest host ∈ T) →
          verifyEnvelope scheme host (elideRemovingSet host T e) actor = .error .unsigned) ∧
        ((∃ sig ∈ signed.signatures, (signatureAssertion sig).digest host ∉ T) →
          (verifyEnvelope scheme host (elideRemovingSet host T e) actor = .ok () ↔
            ∀ sig ∈ signed.signatures, (signatureAssertion sig).digest host ∉ T →
              Verifies scheme actor (inner.wrap.digest host) sig)) := by
  obtain ⟨hvalid, rfl⟩ := toEnvelope_eq_ok.mp hinner
  obtain ⟨-, rfl⟩ := (toSignedEnvelope_eq_ok hsigned).mp he
  have hinj : ∀ a ∈ signed.op.attributes, ∀ b ∈ signed.op.attributes,
      a.assertion.digest host = b.assertion.digest host → a = b := fun a ha b hb h =>
    attribute_digest_inj hfree (covered_attribute ha) (covered_attribute hb) h
  have hinj' : ∀ s ∈ signed.signatures, ∀ s' ∈ signed.signatures,
      (signatureAssertion s).digest host = (signatureAssertion s').digest host → s = s' :=
    fun s hs s' hs' h =>
      signature_digest_inj hfree (covered_signature hs) (covered_signature hs') h
  obtain ⟨as, has, hasNodup, hasMem⟩ := sorted_map hinj
  obtain ⟨ss, hss, hssNodup, hssMem⟩ := sorted_map hinj'
  -- what is asked for are assertions of the operation
  have hT' : ∀ d ∈ T, (∃ a ∈ as, a.assertion.digest host = d) ∨
      ∃ s ∈ ss, (signatureAssertion s).digest host = d := by
    intro d hd
    have hmem := hT d hd
    rw [opEnvelope, assertions_addAll ⟨rfl, rfl⟩, signedEnvelope, assertions_addAll ⟨rfl, rfl⟩,
      has, hss, List.map_append, List.map_map, List.map_map, List.mem_append, List.mem_map,
      List.mem_map] at hmem
    exact hmem
  have htargets : Targets host (signedImages host signed) T := by
    intro d hd
    rcases hT' d hd with ⟨a, ha, rfl⟩ | ⟨s, hs, rfl⟩
    · exact ⟨_, a.opAssertion, covered_attribute ((hasMem a).mp ha), rfl⟩
    · exact ⟨_, signature_opAssertion s, covered_signature ((hssMem s).mp hs), rfl⟩
  have helide := elide_signedEnvelope hfree htargets hsigned covered_signedEnvelope
  obtain ⟨hsubject, hassertions⟩ := elide_opEnvelope hfree htargets
    (@covered_opEnvelope host _ signed)
  -- what the decoder reads
  have hunwrap : unwrapOp (elideRemovingSet host T (signedEnvelope host signed)) =
      (elideRemovingSet host T (opEnvelope host signed.op),
        (ss.map signatureAssertion).map (elideRemovingSet host T)) := by
    rw [helide, hss]
    rfl
  have hxs : List.Forall₂ (fun a x => readAttribute a = .ok x) _ _ := forall₂_readKept
    (fun a ha => elide_attribute hfree htargets (covered_attribute ((hasMem a).mp ha)))
    (fun _ => rfl) readAttribute_assertion
  have hys : List.Forall₂ (fun a y => readSignature scheme a = .ok y) _ _ := forall₂_readKept
    (fun s hs => elide_signature hfree htargets (covered_signature ((hssMem s).mp hs)))
    (fun _ => rfl) readSignature_assertion
  have hread : fromEnvelope host scheme (elideRemovingSet host T (signedEnvelope host signed)) =
      .ok { op := signed.op.withhold host T,
            signatures := ss.filter fun s => !gone host T (signatureAssertion s),
            elided := T.card } := by
    refine fromEnvelope_eq_ok.mpr ⟨coreEntries signed.op, signed.op.core,
      readKept (fun a : Attribute => gone host T a.assertion) as,
      readKept (fun s : scheme.Signature => gone host T (signatureAssertion s)) ss, ?_,
      readCore_coreEntries hvalid, ?_, ?_, ?_⟩
    · rw [hunwrap, coreOf, hsubject]
      rfl
    · rw [hunwrap, hassertions, has]
      exact hxs
    · rw [hunwrap]
      exact hys
    · rw [reduceOption_readKept, reduceOption_readKept, count_readKept, count_readKept,
        applyAll_kept hasNodup hasMem]
      have hcard := card_targets hasNodup hssNodup
        (fun a ha b hb => hinj a ((hasMem a).mp ha) b ((hasMem b).mp hb))
        (fun s hs s' hs' => hinj' s ((hssMem s).mp hs) s' ((hssMem s').mp hs'))
        (fun a ha s hs => attribute_ne_signature hfree (covered_attribute ((hasMem a).mp ha))
          (covered_signature ((hssMem s).mp hs))) hT'
      rw [← hcard]
      rfl
  have hleft : ∀ s, s ∈ ss.filter (fun s => !gone host T (signatureAssertion s)) ↔
      s ∈ signed.signatures ∧ (signatureAssertion s).digest host ∉ T := by
    intro s
    simp [List.mem_filter, hssMem, gone]
  have hdigest := subject_digest_elided T helide
  refine ⟨digest_elideRemovingSet T _, ⟨_, hread, rfl, rfl⟩, fun actor => ⟨?_, ?_⟩⟩
  · intro hall
    rw [verifyEnvelope_of_fromEnvelope hread, if_pos]
    refine List.eq_nil_iff_forall_not_mem.mpr fun s hs => ?_
    exact ((hleft s).mp hs).2 (hall s ((hleft s).mp hs).1)
  · rintro ⟨s, hs, hkept⟩
    have hne : ss.filter (fun s => !gone host T (signatureAssertion s)) ≠ [] :=
      List.ne_nil_of_mem ((hleft s).mpr ⟨hs, hkept⟩)
    rw [verifyEnvelope_of_fromEnvelope hread, if_neg hne, verifySignatures_eq_ok, hdigest]
    simp only [hleft, and_imp]

/-- The messages that are hashed for the sample operation do not collide. -/
lemma collisionFree_sampleSigned : CollisionFree (signedImages Host.plain sampleSigned) := by
  refine collisionFree_of_nat ?_
  rw [signedImages, show images Host.plain = imagesN Host.plain from funext images_eq_nat]
  decide +kernel

/-- The digests of the assertions inside, and of all. -/
def sampleInside : Finset Digest32 :=
  ((opEnvelope Host.plain sampleOp).assertions.map (digest Host.plain)).toFinset

def sampleAssertions : Finset Digest32 :=
  (((opEnvelope Host.plain sampleOp).assertions ++
    (signedEnvelope Host.plain sampleSigned).assertions).map (digest Host.plain)).toFinset

/-- The sample operation is still signed without its dependency, and without all assertions it is
not. -/
theorem fromEnvelope_elided_sample :
    (∃ s, fromEnvelope Host.plain sampleScheme (elideRemovingSet Host.plain sampleInside
        (signedEnvelope Host.plain sampleSigned)) = .ok s ∧
      s.elided = 1 ∧ s.op = { sampleOp with deps := [] }) ∧
    verifyEnvelope sampleScheme Host.plain (elideRemovingSet Host.plain sampleInside
      (signedEnvelope Host.plain sampleSigned)) sampleOp.actor = .ok () ∧
    verifyEnvelope sampleScheme Host.plain (elideRemovingSet Host.plain sampleAssertions
      (signedEnvelope Host.plain sampleSigned)) sampleOp.actor = .error .unsigned := by
  have hsigned : sampleSigned.signatures ≠ [] := List.cons_ne_nil _ _
  have hinner : toEnvelope Host.plain sampleSigned.op = .ok (opEnvelope Host.plain sampleOp) :=
    toEnvelope_eq_ok.mpr ⟨sampleOp_valid, rfl⟩
  have he : toSignedEnvelope Host.plain sampleSigned =
      .ok (signedEnvelope Host.plain sampleSigned) :=
    (toSignedEnvelope_eq_ok hsigned).mpr ⟨sampleOp_valid, rfl⟩
  have hinside : ∀ d ∈ sampleInside, d ∈ ((opEnvelope Host.plain sampleOp).assertions ++
      (signedEnvelope Host.plain sampleSigned).assertions).map (digest Host.plain) := by
    intro d hd
    rw [List.map_append]
    exact List.mem_append_left _ (List.mem_toFinset.mp hd)
  obtain ⟨-, ⟨s, hs, helided, hop⟩, hverdict⟩ :=
    fromEnvelope_elided hsigned hinner he collisionFree_sampleSigned hinside
  obtain ⟨-, -, hverdict'⟩ := fromEnvelope_elided hsigned hinner he collisionFree_sampleSigned
    (T := sampleAssertions) (fun d hd => List.mem_toFinset.mp hd)
  refine ⟨⟨s, hs, helided, hop.trans ?_⟩, ?_, ?_⟩
  · have hdeps : (sampleOp.deps.dedup.filter fun d => !gone Host.plain sampleInside
        (Attribute.deps d).assertion) = [] := by
      refine List.filter_eq_nil_iff.mpr fun d hd => ?_
      have hmem : (Attribute.deps d).assertion ∈ (opEnvelope Host.plain sampleOp).assertions := by
        rw [List.mem_singleton.mp (List.mem_dedup.mp hd)]
        exact List.mem_cons_self
      have hgone : gone Host.plain sampleInside (Attribute.deps d).assertion = true :=
        decide_eq_true (List.mem_toFinset.mpr (List.mem_map_of_mem hmem))
      simp [hgone]
    rw [show sampleSigned.op = sampleOp from rfl, Op.withhold, hdeps]
    rfl
  · -- the signature is no assertion inside, and verifies over the digest that was signed
    refine ((hverdict sampleOp.actor).2 ⟨_, List.mem_singleton_self _, ?_⟩).mpr ?_
    · intro hmem
      obtain ⟨a, ha, hsame⟩ := List.mem_map.mp (List.mem_toFinset.mp hmem)
      obtain rfl := List.mem_singleton.mp ha
      exact attribute_ne_signature collisionFree_sampleSigned
        (covered_attribute (List.mem_singleton_self _))
        (covered_signature (List.mem_singleton_self _)) hsame
    · intro sig hsig _
      rw [sampleDigest_eq]
      exact verifies_sampleSigned sig hsig
  · refine (hverdict' sampleOp.actor).1 fun sig hsig => ?_
    rw [sampleAssertions, List.mem_toFinset]
    refine List.mem_map_of_mem (List.mem_append_right _ ?_)
    rw [List.mem_singleton.mp hsig]
    exact List.mem_singleton_self _

end Identikey.Log
