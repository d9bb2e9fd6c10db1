/-
What one signature authenticates.

A signature is made over the digest of the wrapped operation.  Envelopes with that
digest in common hold the same operation if both operations have attributes or both
have none, and no predicate carries an obscured assertion of its own.

Between an operation with attributes and one without there is no such guarantee:
leaves and nodes are hashed alike, and the decoder does not mind keys in the core map
that it does not know.  A core map can be found whose digest reads as the start of
another core map with one unknown key; the elided assertions beside it are the rest.
-/
import Identikey.Gordian.DigestEval
import Identikey.Log.OpImages

namespace Identikey.Log

open Lib Lib.Fallible Auth Dcbor Gordian Envelope

variable {host : Host} {scheme : SignatureScheme} {l : List Bytes}

/-! ### Core maps with the same bytes -/

/-- Looking up a key in entries as they are written. -/
lemma getEntry_normal (es : List (CBOR × CBOR)) (k : CBOR) :
    getEntry host (es.map (normalEntry host)) k = (getEntry host es k).map (CBOR.normal host) := by
  have hkey : ∀ e, mapKey host (normalEntry host e) = mapKey host e := fun e =>
    toCborData_normal host e.1
  unfold getEntry
  rw [List.find?_map, Option.map_map, Option.map_map]
  simp only [Function.comp_def, hkey]
  rfl

/-- Core maps with the same bytes hold the same core, but for the form of the kind. -/
lemma CoreFields.same {c₁ c₂ : List (CBOR × CBOR)} {op₁ op₂ : Op} (h₁ : CoreFields host c₁ op₁)
    (h₂ : CoreFields host c₂ op₂) (h : c₁.map (normalEntry host) = c₂.map (normalEntry host)) :
    host.nfc op₁.kind = host.nfc op₂.kind ∧ op₁.body = op₂.body ∧ op₁.hlc = op₂.hlc ∧
      op₁.actor = op₂.actor ∧ op₁.parentHashes = op₂.parentHashes := by
  have hget : ∀ k, (getEntry host c₁ k).map (CBOR.normal host) =
      (getEntry host c₂ k).map (CBOR.normal host) := by
    intro k
    rw [← getEntry_normal, ← getEntry_normal, h]
  have hkind := hget (.text "kind")
  have hbody := hget (.text "body")
  have hhlc := hget (.text "hlc")
  have hactor := hget (.text "actor")
  have hparents := hget (.text "parent-hashes")
  rw [h₁.kind, h₂.kind] at hkind
  rw [h₁.body, h₂.body, Option.map_map, Option.map_map] at hbody
  rw [h₁.hlc, h₂.hlc] at hhlc
  rw [h₁.actor, h₂.actor] at hactor
  rw [h₁.parentHashes, h₂.parentHashes, Option.map_some, Option.map_some, normal_array,
    normal_array, List.map_map, List.map_map, Option.some.injEq, CBOR.array.injEq] at hparents
  refine ⟨?_, ?_, ?_, ?_, ?_⟩
  · exact CBOR.text.inj (Option.some.inj hkind)
  · exact Option.map_injective (fun b b' hb => CBOR.byteString.inj hb) hbody
  · simp only [Option.map_some, normalItems, CBOR.normal, Option.some.injEq, CBOR.array.injEq,
      List.cons.injEq, CBOR.unsigned.injEq, and_true] at hhlc
    exact Hlc.ext hhlc.1 hhlc.2
  · exact Subtype.ext (CBOR.byteString.inj (Option.some.inj hactor))
  · refine List.map_injective_iff.mpr (fun p q hpq => ?_) hparents
    exact Subtype.ext (CBOR.byteString.inj hpq)

/-! ### Assertions with the same digest -/

/-- An attribute is the value under its predicate. -/
lemma attributeOf_eq_ok {t : String} {v : CBOR} {x : Attribute} :
    attributeOf t v = .ok x ↔ t = x.label ∧ v = x.value := by
  constructor
  · intro h
    unfold attributeOf at h
    split_ifs at h with hd hn hfp hts
    · obtain ⟨d, hread, h'⟩ := bind_eq_ok.mp h
      obtain rfl := pure_eq_ok.mp h'
      exact ⟨hd, readHash_eq_ok.mp hread⟩
    · obtain ⟨n, hread, h'⟩ := bind_eq_ok.mp h
      obtain rfl := pure_eq_ok.mp h'
      exact ⟨hn, readHash_eq_ok.mp hread⟩
    · obtain ⟨fp, hread, h'⟩ := bind_eq_ok.mp h
      obtain rfl := pure_eq_ok.mp h'
      exact ⟨hfp, readHash_eq_ok.mp hread⟩
    · obtain ⟨item, htag, h'⟩ := bind_eq_ok.mp h
      obtain ⟨ts, hts', h''⟩ := bind_eq_ok.mp h'
      obtain rfl := pure_eq_ok.mp h''
      refine ⟨hts, ?_⟩
      unfold expectTag at htag
      split at htag
      · split_ifs at htag with heq
        rw [heq, Except.ok.inj htag, intoUint_eq_ok.mp hts']
        rfl
      · cases htag
  · rintro ⟨rfl, rfl⟩
    exact attributeOf_value x

/-- What is read is an assertion, with or without assertions of its own. -/
lemma readAttribute_eq_some {a : Envelope} {x : Attribute} (h : readAttribute a = .ok (some x)) :
    ∃ p, a.subject = .assertion p (.leaf x.value) ∧
      p.extractSubject = some (.text x.label) := by
  unfold readAttribute asPredicate asObject at h
  split at h
  · cases h
  rename_i p hp
  split at hp
  swap
  · cases hp
  rename_i p' o hsubject
  obtain rfl := Option.some.inj hp
  simp only [hsubject] at h
  split at h
  swap
  · cases h
  rename_i t ht
  split at h
  swap
  · cases h
  rename_i v hv
  obtain ⟨y, hy, h'⟩ := bind_eq_ok.mp h
  obtain rfl := Option.some.inj (pure_eq_ok.mp h')
  obtain ⟨rfl, rfl⟩ := attributeOf_eq_ok.mp hy
  refine ⟨p', ?_, ht⟩
  rw [hsubject]
  cases o with
  | leaf c => rw [Option.some.inj hv]
  | _ => cases hv

/-- What is read as elided has no assertion for its subject. -/
lemma readAttribute_eq_none {a : Envelope} (h : readAttribute a = .ok none) :
    a.asPredicate = none := by
  unfold readAttribute at h
  split at h
  · assumption
  · split at h
    swap
    · cases h
    split at h
    swap
    · cases h
    split at h
    swap
    · cases h
    obtain ⟨y, -, h'⟩ := bind_eq_ok.mp h
    cases pure_eq_ok.mp h'

/-- No assertion of the predicate is obscured. -/
def PredicateWhole (a : Envelope) : Prop :=
  ∀ p, a.asPredicate = some p → ∀ z ∈ p.assertions, ¬ z.Obscured

section Digests

variable (hfree : CollisionFree l)

include hfree

/-- The image of a label is shorter than that of a node. -/
lemma label_ne_node (x : Attribute) {s : Envelope} {as : List Envelope} (has : as ≠ [])
    (hc : (ofText x.label).Covered host l) (hn : (node s as).Covered host l) :
    (ofText x.label).digest host ≠ (node s as).digest host := by
  intro h
  obtain ⟨b, hb, hshort, -⟩ := @predicate_facts host _ (label_mem x)
  have himage := image_eq_of_digest hfree hc hn hb rfl h
  have hpos := List.length_pos_iff.mpr has
  rw [himage, length_digestsData, List.length_cons, List.length_map] at hshort
  omega

/-- Predicates with the same digest have the same label, whatever they carry. -/
lemma label_eq_of_digest {p q : Envelope} {x y : Attribute} (hp : p.Shaped) (hq : q.Shaped)
    (hcp : p.Covered host l) (hcq : q.Covered host l)
    (hx : p.extractSubject = some (.text x.label)) (hy : q.extractSubject = some (.text y.label))
    (h : p.digest host = q.digest host) : x.label = y.label := by
  induction p using parts_induction generalizing q with
  | leaf c =>
    obtain rfl := Option.some.inj hx
    cases q with
    | leaf c' =>
      obtain rfl := Option.some.inj hy
      have heq := predicate_digest_inj (label_mem x) (label_mem y) h
      exact CBOR.text.inj (Envelope.leaf.inj heq)
    | node s as =>
      cases hq with
      | node hs has hassertions hkind => exact absurd h (label_ne_node hfree x has hcp hcq)
    | _ => cases hy
  | node s as ih _ =>
    cases hp with
    | node hs has hassertions hkind =>
      cases q with
      | leaf c' =>
        obtain rfl := Option.some.inj hy
        exact absurd h.symm (label_ne_node hfree y has hcq hcp)
      | node s' as' =>
        have hparts := node_parts hfree hcp hcq h
        exact ih hs hq.subject hcp.subject hcq.subject hx hy hparts.1
      | _ => cases hy
  | _ => cases hx

/-- An assertion without assertions of its own is not hashed like one that has them. -/
lemma assertion_ne_node {p q : Envelope} {x y : Attribute} {as : List Envelope}
    (hp : p.Shaped) (hcp : (assertion p (leaf x.value)).Covered host l)
    (hcq : (node (assertion q (leaf y.value)) as).Covered host l)
    (hx : p.extractSubject = some (.text x.label))
    (hwhole : ∀ z ∈ p.assertions, ¬ z.Obscured) :
    (assertion p (leaf x.value)).digest host ≠
      (node (assertion q (leaf y.value)) as).digest host := by
  intro h
  have himage := digestsData_injective (image_eq_of_digest hfree hcp hcq rfl rfl h)
  have hpq : p.digest host = (assertion q (leaf y.value)).digest host := (List.cons.inj himage).1
  have hcs := hcq.subject
  cases p with
  | leaf c =>
    obtain rfl := Option.some.inj hx
    obtain ⟨b, hb, hshort, -⟩ := @predicate_facts host _ (label_mem x)
    have hlen := image_eq_of_digest hfree hcp.predicate hcs hb rfl hpq
    rw [hlen, length_digestsData, List.length_cons, List.length_singleton] at hshort
    omega
  | node s zs =>
    -- the only assertion of the predicate is hashed like the value: it must be obscured
    have hinner := digestsData_injective
      (image_eq_of_digest hfree hcp.predicate hcs rfl rfl hpq)
    have hzs : zs.map (digest host) = [(leaf y.value).digest host] := (List.cons.inj hinner).2
    obtain ⟨z, hz, hzd⟩ := List.mem_map.mp (hzs ▸ List.mem_cons_self (l := []))
    obtain ⟨hshaped, hmay⟩ := hp.of_mem_assertions hz
    obtain ⟨b, hb, hlen⟩ := @Shaped.length_image host _ hshaped hmay (hwhole z hz)
    have hvalue := image_eq_of_digest hfree (hcp.predicate.of_mem_assertions hz) hcs.object hb rfl
      hzd
    have hle := @length_value_le host y
    rw [hvalue] at hlen
    omega
  | _ => cases hx

/-- **Assertions with the same digest say the same**, if no assertion of a predicate is obscured. -/
theorem attribute_eq_of_digest {a₁ a₂ : Envelope} {x₁ x₂ : Attribute} (hs₁ : a₁.Shaped)
    (hs₂ : a₂.Shaped) (hc₁ : a₁.Covered host l) (hc₂ : a₂.Covered host l)
    (h₁ : readAttribute a₁ = .ok (some x₁)) (h₂ : readAttribute a₂ = .ok (some x₂))
    (hw₁ : PredicateWhole a₁) (hw₂ : PredicateWhole a₂) (h : a₁.digest host = a₂.digest host) :
    x₁ = x₂ := by
  obtain ⟨p, ha₁, hp⟩ := readAttribute_eq_some h₁
  obtain ⟨q, ha₂, hq⟩ := readAttribute_eq_some h₂
  have hwp := hw₁ p (by unfold asPredicate; rw [ha₁])
  have hwq := hw₂ q (by unfold asPredicate; rw [ha₂])
  have hsp : p.Shaped ∧ q.Shaped := by
    have hsubject₁ := hs₁.subject
    have hsubject₂ := hs₂.subject
    rw [ha₁] at hsubject₁
    rw [ha₂] at hsubject₂
    cases hsubject₁ with
    | assertion hp ho =>
      cases hsubject₂ with
      | assertion hq ho' => exact ⟨hp, hq⟩
  have hparts : (assertion p (leaf x₁.value)).Covered host l →
      (assertion q (leaf x₂.value)).Covered host l →
      (assertion p (leaf x₁.value)).digest host = (assertion q (leaf x₂.value)).digest host →
      x₁ = x₂ := by
    intro hcp hcq hd
    obtain ⟨hlabel, hvalue⟩ := assertion_parts hfree hcp hcq hd
    exact attribute_ext
      (label_eq_of_digest hfree hsp.1 hsp.2 hcp.predicate hcq.predicate hp hq hlabel)
      (leaf_data hfree hcp.object hcq.object hvalue)
  -- each of the two stands with assertions of its own or without
  have hform : ∀ {a b : Envelope}, a.subject = b → (∃ as, a = .node b as) ∨ a = b := by
    intro a b hab
    cases a with
    | node s as => exact .inl ⟨as, by rw [← hab]; rfl⟩
    | _ => exact .inr hab
  rcases hform ha₁ with ⟨as, rfl⟩ | rfl
  · rcases hform ha₂ with ⟨bs, rfl⟩ | rfl
    · exact hparts hc₁.subject hc₂.subject (node_parts hfree hc₁ hc₂ h).1
    · exact absurd h.symm (assertion_ne_node hfree hsp.2 hc₂ hc₁ hq hwq)
  · rcases hform ha₂ with ⟨bs, rfl⟩ | rfl
    · exact absurd h (assertion_ne_node hfree hsp.1 hc₁ hc₂ hp hwp)
    · exact hparts hc₁ hc₂ h

/-- Lists of assertions with the same digests, none of them elided, say the same. -/
lemma attributes_eq_of_digests {as₁ as₂ : List Envelope} {xs₁ xs₂ : List (Option Attribute)}
    (hs₁ : ∀ a ∈ as₁, a.Shaped) (hs₂ : ∀ a ∈ as₂, a.Shaped)
    (hc₁ : ∀ a ∈ as₁, a.Covered host l) (hc₂ : ∀ a ∈ as₂, a.Covered host l)
    (h₁ : List.Forall₂ (fun a x => readAttribute a = .ok x) as₁ xs₁)
    (h₂ : List.Forall₂ (fun a x => readAttribute a = .ok x) as₂ xs₂)
    (hne₁ : ∀ a ∈ as₁, a.asPredicate ≠ none) (hne₂ : ∀ a ∈ as₂, a.asPredicate ≠ none)
    (hw₁ : ∀ a ∈ as₁, PredicateWhole a) (hw₂ : ∀ a ∈ as₂, PredicateWhole a)
    (h : as₁.map (digest host) = as₂.map (digest host)) : xs₁ = xs₂ := by
  induction h₁ generalizing as₂ xs₂ with
  | nil =>
    obtain rfl := List.map_eq_nil_iff.mp h.symm
    cases h₂
    rfl
  | @cons a x as xs hx hxs ih =>
    cases h₂ with
    | nil => exact absurd h (List.cons_ne_nil _ _)
    | @cons b y bs ys hy hys =>
      obtain ⟨hd, hds⟩ := List.cons.inj h
      obtain ⟨hsa, hsas⟩ := List.forall_mem_cons.mp hs₁
      obtain ⟨hsb, hsbs⟩ := List.forall_mem_cons.mp hs₂
      obtain ⟨hca, hcas⟩ := List.forall_mem_cons.mp hc₁
      obtain ⟨hcb, hcbs⟩ := List.forall_mem_cons.mp hc₂
      obtain ⟨hna, hnas⟩ := List.forall_mem_cons.mp hne₁
      obtain ⟨hnb, hnbs⟩ := List.forall_mem_cons.mp hne₂
      obtain ⟨hwa, hwas⟩ := List.forall_mem_cons.mp hw₁
      obtain ⟨hwb, hwbs⟩ := List.forall_mem_cons.mp hw₂
      rw [ih hsas hsbs hcas hcbs hys hnas hnbs hwas hwbs hds]
      cases x with
      | none => exact absurd (readAttribute_eq_none hx) hna
      | some x =>
        cases y with
        | none => exact absurd (readAttribute_eq_none hy) hnb
        | some y => rw [attribute_eq_of_digest hfree hsa hsb hca hcb hx hy hwa hwb hd]

end Digests

/-! ### One signature, one operation -/

/-- The kind stands in the core map in normalisation form C, as all text that was read. -/
def KindNormal (host : Host) (inner : Envelope) : Prop :=
  ∀ core k, coreOf inner = .ok core → getEntry host core (.text "kind") = some (.text k) →
    host.nfc k = k

/-- The inner envelope is the leaf with the core map, alone or with assertions. -/
lemma inner_form {inner : Envelope} (hs : inner.Shaped) {core : List (CBOR × CBOR)}
    (h : coreOf inner = .ok core) :
    (inner = leaf (.map core) ∧ inner.assertions = []) ∨
      inner = node (leaf (.map core)) inner.assertions ∧ inner.assertions ≠ [] := by
  have hsubject := coreOf_eq_ok.mp h
  cases hs with
  | node hs' hne has hkind => exact .inr ⟨congrArg (node · _) hsubject, hne⟩
  | _ => exact .inl ⟨hsubject, rfl⟩

/-- What `fromEnvelope` reads from a wrapped operation. -/
lemma fromEnvelope_wrapped {e inner : Envelope} {s : SignedOp scheme}
    (h : fromEnvelope host scheme e = .ok s) (hu : e.tryUnwrap = some inner) :
    ∃ core op xs, coreOf inner = .ok core ∧ CoreFields host core op ∧
      List.Forall₂ (fun a x => readAttribute a = .ok x) inner.assertions xs ∧
      s.op = (op.applyAll xs.reduceOption).sortLinks := by
  obtain ⟨core, op, xs, ys, hcore, hop, hxs, -, rfl⟩ := fromEnvelope_eq_ok.mp h
  rw [unwrapOp_of_wrapped (tryUnwrap_eq_some.mp hu)] at hcore hxs
  exact ⟨core, op, xs, hcore, coreFields_of_readCore hop, hxs, rfl⟩

/-- **One signature authenticates one operation**, where both inner envelopes have assertions or
both have none.  Two wrapped operations with the digest that is signed in common have the same
core; and if no assertion is elided, nor obscured in a predicate, they are the same operation. -/
theorem one_signature_one_op {e₁ e₂ inner₁ inner₂ : Envelope} {s₁ s₂ : SignedOp scheme}
    (hs₁ : e₁.Shaped) (hs₂ : e₂.Shaped) (hu₁ : e₁.tryUnwrap = some inner₁)
    (hu₂ : e₂.tryUnwrap = some inner₂) (h₁ : fromEnvelope host scheme e₁ = .ok s₁)
    (h₂ : fromEnvelope host scheme e₂ = .ok s₂)
    (hdigest : e₁.subject.digest host = e₂.subject.digest host)
    (hfree : CollisionFree (e₁.images host ++ e₂.images host))
    (hsized : ∀ b ∈ e₁.images host, b.length < 2 ^ 64)
    (hbare : inner₁.assertions = [] ↔ inner₂.assertions = [])
    (hk₁ : KindNormal host inner₁) (hk₂ : KindNormal host inner₂) :
    (s₁.op.kind = s₂.op.kind ∧ s₁.op.body = s₂.op.body ∧ s₁.op.hlc = s₂.op.hlc ∧
      s₁.op.actor = s₂.op.actor ∧ s₁.op.parentHashes = s₂.op.parentHashes) ∧
    ((∀ a ∈ inner₁.assertions, a.asPredicate ≠ none ∧ PredicateWhole a) →
      (∀ a ∈ inner₂.assertions, a.asPredicate ≠ none ∧ PredicateWhole a) → s₁.op = s₂.op) := by
  obtain ⟨core₁, op₁, xs₁, hcore₁, hop₁, hxs₁, hsop₁⟩ := fromEnvelope_wrapped h₁ hu₁
  obtain ⟨core₂, op₂, xs₂, hcore₂, hop₂, hxs₂, hsop₂⟩ := fromEnvelope_wrapped h₂ hu₂
  have hw₁ := tryUnwrap_eq_some.mp hu₁
  have hw₂ := tryUnwrap_eq_some.mp hu₂
  have hcov₁ : e₁.Covered host (e₁.images host ++ e₂.images host) :=
    fun b hb => List.mem_append_left _ hb
  have hcov₂ : e₂.Covered host (e₁.images host ++ e₂.images host) :=
    fun b hb => List.mem_append_right _ hb
  have hcw₁ := hcov₁.subject
  have hcw₂ := hcov₂.subject
  have hshaped₁ := hs₁.subject
  have hshaped₂ := hs₂.subject
  rw [hw₁] at hcw₁ hshaped₁ hdigest
  rw [hw₂] at hcw₂ hshaped₂ hdigest
  have hc₁ := hcw₁.unwrapped
  have hc₂ := hcw₂.unwrapped
  have hin₁ : inner₁.Shaped := by
    cases hshaped₁ with
    | wrapped h => exact h
  have hin₂ : inner₂.Shaped := by
    cases hshaped₂ with
    | wrapped h => exact h
  have hinner := wrapped_part hfree hcw₁ hcw₂ hdigest
  -- the core maps are leaves with the same bytes
  have hleaf : (leaf (.map core₁)).Covered host (e₁.images host ++ e₂.images host) ∧
      (leaf (.map core₂)).Covered host (e₁.images host ++ e₂.images host) ∧
      (leaf (.map core₁)).digest host = (leaf (.map core₂)).digest host ∧
      inner₁.assertions.map (digest host) = inner₂.assertions.map (digest host) ∧
      (CBOR.map core₁).Fits host := by
    have hfits : ∀ b ∈ inner₁.images host, b.length < 2 ^ 64 := by
      intro b hb
      refine hsized b (images_subject ?_)
      rw [hw₁]
      exact images_wrapped hb
    rcases inner_form hin₁ hcore₁ with ⟨heq₁, hnil₁⟩ | ⟨heq₁, hne₁⟩
    · rcases inner_form hin₂ hcore₂ with ⟨heq₂, hnil₂⟩ | ⟨-, hne₂⟩
      · rw [hnil₁, hnil₂]
        rw [heq₁] at hc₁ hinner hfits
        rw [heq₂] at hc₂ hinner
        exact ⟨hc₁, hc₂, hinner, rfl, hfits _ (mem_images_self rfl)⟩
      · exact absurd (hbare.mp hnil₁) hne₂
    · rcases inner_form hin₂ hcore₂ with ⟨-, hnil₂⟩ | ⟨heq₂, hne₂⟩
      · exact absurd (hbare.mpr hnil₂) hne₁
      · rw [heq₁] at hc₁ hinner hfits
        rw [heq₂] at hc₂ hinner
        obtain ⟨hsubject, hassertions⟩ := node_parts hfree hc₁ hc₂ hinner
        exact ⟨hc₁.subject, hc₂.subject, hsubject, hassertions,
          hfits _ (images_nodeSubject (mem_images_self rfl))⟩
  obtain ⟨hcl₁, hcl₂, hcoreDigest, hdigests, hfit⟩ := hleaf
  have hnormal := normal_eq_of_toCborData hfit (leaf_data hfree hcl₁ hcl₂ hcoreDigest)
  rw [normal_map, normal_map, CBOR.map.injEq] at hnormal
  obtain ⟨hkind, hbody, hhlc, hactor, hparents⟩ := hop₁.same hop₂ hnormal
  rw [hk₁ core₁ _ hcore₁ hop₁.kind, hk₂ core₂ _ hcore₂ hop₂.kind] at hkind
  rw [hsop₁, hsop₂, applyAll_eq, applyAll_eq]
  refine ⟨⟨hkind, hbody, hhlc, hactor, hparents⟩, fun hwhole₁ hwhole₂ => ?_⟩
  have hxs := attributes_eq_of_digests hfree
    (fun a ha => (hin₁.of_mem_assertions ha).1) (fun a ha => (hin₂.of_mem_assertions ha).1)
    (fun a ha => hc₁.of_mem_assertions ha) (fun a ha => hc₂.of_mem_assertions ha) hxs₁ hxs₂
    (fun a ha => (hwhole₁ a ha).1) (fun a ha => (hwhole₂ a ha).1)
    (fun a ha => (hwhole₁ a ha).2) (fun a ha => (hwhole₂ a ha).2) hdigests
  rw [← hop₁.bare, ← hop₂.bare, hxs]
  simp only [Op.core, Op.sortLinks, hkind, hbody, hhlc, hactor, hparents]

/-- The sample operation, wrapped, and the same with its dependency elided have the same core. -/
theorem one_signature_one_op_sample :
    ∃ s₁ s₂, fromEnvelope Host.plain sampleScheme (wrapped (opEnvelope Host.plain sampleOp)) =
        .ok s₁ ∧
      fromEnvelope Host.plain sampleScheme (wrapped (node (leaf (.map (coreEntries sampleOp)))
        ((opEnvelope Host.plain sampleOp).assertions.map fun a => elided (a.digest Host.plain)))) =
        .ok s₂ ∧ s₁.op.kind = s₂.op.kind := by
  have hcore : readCore Host.plain (coreEntries sampleOp) = .ok sampleOp.core :=
    readCore_coreEntries sampleOp_valid
  have hread₁ : fromEnvelope Host.plain sampleScheme (wrapped (opEnvelope Host.plain sampleOp)) =
      .ok { op := sampleOp, signatures := [], elided := 0 } :=
    fromEnvelope_eq_ok.mpr ⟨coreEntries sampleOp, sampleOp.core,
      sampleOp.attributes.map some, [], rfl, hcore, .cons rfl .nil, .nil, rfl⟩
  have hread₂ : fromEnvelope Host.plain sampleScheme
      (wrapped (node (leaf (.map (coreEntries sampleOp)))
        ((opEnvelope Host.plain sampleOp).assertions.map fun a => elided (a.digest Host.plain)))) =
      .ok { op := sampleOp.core, signatures := [], elided := 1 } :=
    fromEnvelope_eq_ok.mpr ⟨coreEntries sampleOp, sampleOp.core, [none], [], rfl, hcore,
      .cons rfl .nil, .nil, rfl⟩
  have hfree : CollisionFree ((wrapped (opEnvelope Host.plain sampleOp)).images Host.plain ++
      (wrapped (node (leaf (.map (coreEntries sampleOp)))
        ((opEnvelope Host.plain sampleOp).assertions.map fun a =>
          elided (a.digest Host.plain)))).images Host.plain) := by
    have helided : ∀ e : Envelope, elided (e.digest Host.plain) =
        elided ⟨e.digestN Host.plain, by rw [← digest_eq_nat]; exact (e.digest Host.plain).2⟩ :=
      fun e => congrArg elided (Subtype.ext (digest_eq_nat e))
    refine collisionFree_of_nat ?_
    simp only [helided]
    rw [images_eq_nat, images_eq_nat]
    decide +kernel
  have hshaped : ∀ as : List Envelope, (∀ a ∈ as, a.Shaped) → (∀ a ∈ as, a.MayAssert) → as ≠ [] →
      (wrapped (node (leaf (.map (coreEntries sampleOp))) as)).Shaped :=
    fun as has hmay hne => .wrapped (.node (.leaf _) hne has hmay)
  have hnormal : ∀ inner, KindNormal Host.plain inner := fun _ _ _ _ _ => rfl
  refine ⟨_, _, hread₁, hread₂, (one_signature_one_op ?_ ?_ rfl rfl hread₁ hread₂ ?_ hfree ?_ ?_
    (hnormal _) (hnormal _)).1.1⟩
  · refine hshaped _ (List.forall_mem_singleton.mpr (.assertion (.leaf _) (.leaf _)))
      (List.forall_mem_singleton.mpr trivial) (List.cons_ne_nil _ _)
  · exact hshaped _ (List.forall_mem_map.mpr fun a _ => .elided _)
      (List.forall_mem_map.mpr fun a _ => trivial) (List.cons_ne_nil _ _)
  · change sha256 _ = sha256 _
    rfl
  · rw [images_eq_nat]
    decide +kernel
  · exact iff_of_false (List.cons_ne_nil _ _) (List.cons_ne_nil _ _)

/-! ### Two operations under one signature -/

/-- The actor of both operations. -/
def forgedActor : Hash32 := ⟨List.replicate 31 2 ++ [255], by decide⟩

/-- An operation whose core map has a digest that starts like a map with an unknown key. -/
def postOp : Op :=
  { kind := "post", body := none, hlc := { l := 1099511658886, c := 0 }, actor := forgedActor,
    parentHashes := [], deps := [], nacks := [], targetFp := none, timestamp := none }

/-- Another operation of the same actor. -/
def revokedOp : Op :=
  { kind := "\trevoked", body := none, hlc := { l := 24, c := 0 }, actor := forgedActor,
    parentHashes := [], deps := [], nacks := [], targetFp := none, timestamp := none }

/-- The value under the unknown key: the rest of the digest, and zeros. -/
def forgedValue : Bytes :=
  [190, 9, 35, 254, 249, 79, 174, 12, 139, 61, 163, 158, 190, 70, 118, 170, 45, 168, 207, 239, 18,
    177, 214, 205, 46, 207, 121, 53] ++ List.replicate 18 0

/-- The core map of the second operation behind an unknown key. -/
def forgedCore : List (CBOR × CBOR) := (.unsigned 12, .byteString forgedValue) ::
  coreEntries revokedOp

/-- The bytes of that core map behind the first 32, in blocks of the length of a digest. -/
def forgedBlocks : List Digest32 :=
  [⟨List.replicate 18 0 ++ [99, 104, 108, 99, 130, 24, 24, 0, 100, 107, 105, 110, 100, 104],
      by decide⟩,
    ⟨[9, 114, 101, 118, 111, 107, 101, 100, 100, 116, 121, 112, 101, 107, 98, 97, 108, 108, 46, 97,
      99, 116, 105, 111, 110, 101, 97, 99, 116, 111, 114, 88], by decide⟩,
    ⟨32 :: List.replicate 31 2, by decide⟩,
    ⟨[255, 109, 112, 97, 114, 101, 110, 116, 45, 104, 97, 115, 104, 101, 115, 128, 110, 102, 111,
      114, 109, 97, 116, 45, 118, 101, 114, 115, 105, 111, 110, 4], by decide⟩]

/-- The first operation with four elided assertions. -/
def postEnvelope : Envelope :=
  node (leaf (.map (coreEntries postOp))) (forgedBlocks.map .elided)

/-- **One signature, two operations.**  Two well-formed wrapped operations with the same digest to
sign, one with assertions and one without, are read as operations of different kinds; no two of
the messages that are hashed for them have the same digest. -/
theorem one_signature_two_ops :
    ¬ ∀ (e₁ e₂ inner₁ inner₂ : Envelope) (s₁ s₂ : SignedOp sampleScheme),
      e₁.WellFormed Host.plain → e₂.WellFormed Host.plain →
      e₁.tryUnwrap = some inner₁ → e₂.tryUnwrap = some inner₂ →
      fromEnvelope Host.plain sampleScheme e₁ = .ok s₁ →
      fromEnvelope Host.plain sampleScheme e₂ = .ok s₂ →
      e₁.subject.digest Host.plain = e₂.subject.digest Host.plain →
      CollisionFree (e₁.images Host.plain ++ e₂.images Host.plain) →
      s₁.op.kind = s₂.op.kind := by
  have hcanonical : ∀ op : Op, ∀ e ∈ coreEntries op,
      e.1.Canonical Host.plain ∧ e.2.Canonical Host.plain := fun op => coreEntries_canonical rfl
  have hforged : (leaf (.map forgedCore)).WellFormed Host.plain := by
    have hall : ∀ e ∈ forgedCore, e.1.Canonical Host.plain ∧ e.2.Canonical Host.plain :=
      List.forall_mem_cons.mpr ⟨⟨.unsigned _, .byteString _⟩, hcanonical revokedOp⟩
    refine .leaf (.map ?_ (fun e he => (hall e he).1) fun e he => (hall e he).2)
    exact keyed_cons.mpr ⟨by decide, coreEntries_keyed revokedOp⟩
  have hpost : postEnvelope.WellFormed Host.plain := by
    refine .node (.leaf (.map (coreEntries_keyed postOp) (fun e he => (hcanonical _ e he).1)
      fun e he => (hcanonical _ e he).2)) (List.cons_ne_nil _ _) ?_ ?_ ?_
    · exact List.forall_mem_map.mpr fun d _ => .elided d
    · exact List.forall_mem_map.mpr fun d _ => trivial
    · refine List.pairwise_map.mpr ?_
      change forgedBlocks.Pairwise fun d d' => d.val < d'.val
      decide
  have hread₁ : fromEnvelope Host.plain sampleScheme (wrapped (leaf (.map forgedCore))) =
      .ok { op := revokedOp, signatures := [], elided := 0 } := by decide +kernel
  have hread₂ : fromEnvelope Host.plain sampleScheme (wrapped postEnvelope) =
      .ok { op := postOp, signatures := [], elided := 4 } := by decide +kernel
  -- the bytes of the one core map are the digests of the other operation
  have hblocks : (CBOR.map forgedCore).toCborData Host.plain =
      digestsData (sha256 ((CBOR.map (coreEntries postOp)).toCborData Host.plain) ::
        forgedBlocks) := by
    rw [digestsData_cons, sha256_eq_nat]
    decide +kernel
  have hdigest : (leaf (.map forgedCore)).digest Host.plain = postEnvelope.digest Host.plain := by
    change sha256 _ = sha256 _
    rw [hblocks]
    rfl
  have hfree : CollisionFree ((wrapped (leaf (.map forgedCore))).images Host.plain ++
      (wrapped postEnvelope).images Host.plain) := by
    refine collisionFree_of_nat ?_
    rw [images_eq_nat, images_eq_nat]
    decide +kernel
  intro h
  have hkind := h _ _ _ _ _ _ (.wrapped hforged) (.wrapped hpost) rfl rfl hread₁ hread₂
    (by change sha256 _ = sha256 _; rw [hdigest]) hfree
  exact absurd hkind (by decide)

end Identikey.Log
