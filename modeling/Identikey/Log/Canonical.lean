/-
Encoding undoes decoding.

The decoder accepts more than the encoder writes: assertions may be salted, that is,
carry assertions of their own.  A plain envelope carries nothing of the kind: the core
map has the known keys only, attributes with one value are given once, and a wrapper
has a signature.  What is decoded from a plain envelope is encoded to the same bytes,
and the content hash is that of the bytes under the signature.
-/
import Identikey.Log.OneSignature
import Identikey.Log.RoundTrip

namespace Identikey.Log

open Lib Lib.Fallible Auth Dcbor Gordian Envelope

variable {host : Host} {scheme : SignatureScheme}

/-- The assertion carries no assertions, nor do its predicate and its object. -/
structure Unsalted (a : Envelope) : Prop where
  self : a.assertions = []
  predicate : ∀ p, a.asPredicate = some p → p.assertions = []
  object : ∀ o, a.asObject = some o → o.assertions = []

/-- An envelope without anything that the encoder does not write. -/
structure Plain (scheme : SignatureScheme) (e : Envelope) : Prop where
  keys : ∀ core, coreOf (unwrapOp e).1 = .ok core → ∀ x ∈ core, ∃ k ∈ CORE_KEYS, x.1 = .text k
  attributes : ∀ a ∈ (unwrapOp e).1.assertions, Unsalted a
  single : ∀ label ∈ [PRED_TARGET_FP, PRED_TIMESTAMP],
    (unwrapOp e).1.assertions.Pairwise fun a b =>
      a.asPredicate = some (.ofText label) → b.asPredicate ≠ some (.ofText label)
  signed : e.tryUnwrap ≠ none → e.assertions ≠ []
  outside : ∀ a ∈ (unwrapOp e).2, Unsalted a
  signatures : ∀ a ∈ (unwrapOp e).2, ∀ c sig, a.asObject = some (.leaf c) →
    scheme.tryFromCbor c = some sig → scheme.toCbor sig = c

/-! ### The core map -/

lemma getEntry_eq_some {es : List (CBOR × CBOR)} {k v : CBOR} (h : getEntry host es k = some v) :
    ∃ e ∈ es, mapKey host e = k.toCborData host ∧ e.2 = v := by
  obtain ⟨e, he, rfl⟩ := Option.map_eq_some_iff.mp h
  exact ⟨e, List.mem_of_find?_eq_some he,
    eq_of_beq (List.find?_some (p := fun e => mapKey host e == k.toCborData host) he), rfl⟩

/-- The encoding of a key of the core map tells the key. -/
lemma coreKey_inj {k k' : String} (hk : k ∈ CORE_KEYS) (hk' : k' ∈ CORE_KEYS)
    (h : (CBOR.text k).toCborData host = (CBOR.text k').toCborData host) : k = k' := by
  have hnodup : (CORE_KEYS.map fun k => (CBOR.text k).toCborData host).Nodup := by
    refine coreKeys_ordered.imp ?_
    intro a b hab heq
    exact Std.lt_irrefl (heq ▸ hab)
  exact List.inj_on_of_nodup_map hnodup hk hk' h

/-- A core map with the known keys only is the one that is written. -/
lemma CoreFields.entries_eq {core : List (CBOR × CBOR)} {op : Op} (h : CoreFields host core op)
    (hordered : Keyed (mapKey host) core)
    (hkeys : ∀ x ∈ core, ∃ k ∈ CORE_KEYS, x.1 = .text k) : core = coreEntries op := by
  have hget : ∀ k ∈ CORE_KEYS, ∀ v, getEntry host core (.text k) = some v ↔
      (CBOR.text k, v) ∈ coreEntries op := by
    intro k hk v
    simp only [CORE_KEYS, List.mem_cons, List.not_mem_nil, or_false] at hk
    rcases hk with rfl | rfl | rfl | rfl | rfl | rfl | rfl
    · rw [h.hlc]
      simp [coreEntries, eq_comm]
    · rw [h.body]
      simp [coreEntries, eq_comm]
    · rw [h.kind]
      simp [coreEntries, eq_comm]
    · rw [h.type]
      simp [coreEntries, eq_comm]
    · rw [h.actor]
      simp [coreEntries, eq_comm]
    · rw [h.parentHashes]
      simp [coreEntries, eq_comm]
    · rw [h.version]
      simp [coreEntries, eq_comm]
  refine Keyed.ext hordered (coreEntries_keyed op) fun x => ⟨fun hx => ?_, fun hx => ?_⟩
  · obtain ⟨k, hk, hxk⟩ := hkeys x hx
    have hmem : (CBOR.text k, x.2) ∈ core := by
      rw [← hxk]
      exact hx
    have hx' := (hget k hk x.2).mp (getEntry_of_mem hordered hmem)
    rwa [← hxk] at hx'
  · obtain ⟨k, hk, hxk⟩ := coreEntries_keys op x hx
    have hx' : (CBOR.text k, x.2) ∈ coreEntries op := by
      rw [← hxk]
      exact hx
    obtain ⟨y, hy, hyk, hyv⟩ := getEntry_eq_some ((hget k hk x.2).mpr hx')
    obtain ⟨k', hk', hyk'⟩ := hkeys y hy
    rw [mapKey, hyk'] at hyk
    have hkk := coreKey_inj hk' hk hyk
    have hxy : x = y := Prod.ext (by rw [hxk, hyk', hkk]) hyv.symm
    rw [hxy]
    exact hy

/-! ### Assertions -/

/-- An element that carries no assertions is its own subject. -/
lemma subject_of_bare {a : Envelope} (hs : a.Shaped) (h : a.assertions = []) : a.subject = a := by
  cases hs with
  | node hsubject hne hassertions hkind => exact absurd h hne
  | _ => rfl

/-- Unsalted, an attribute stands as it is written. -/
lemma eq_assertion_of_unsalted {a : Envelope} {x : Attribute} (hs : a.Shaped)
    (hplain : Unsalted a) (h : readAttribute a = .ok (some x)) : a = x.assertion := by
  obtain ⟨p, hsubject, hp⟩ := readAttribute_eq_some h
  have ha := subject_of_bare hs hplain.self
  rw [hsubject] at ha
  subst ha
  have hp' := hplain.predicate p rfl
  cases hs with
  | assertion hsp hso =>
    have hbare := subject_of_bare hsp hp'
    cases p with
    | leaf c =>
      obtain rfl := Option.some.inj hp
      rfl
    | node s as => cases hsp with
      | node hsubject hne hassertions hkind => exact absurd hp' hne
    | _ => cases hp

/-- What is read of an assertion of the wrapper. -/
lemma readSignature_eq_some {a : Envelope} {sig : scheme.Signature}
    (h : readSignature scheme a = .ok (some sig)) :
    ∃ p o c, a.subject = .assertion p o ∧ p.subject = .knownValue SIGNED ∧
      o.extractSubject = some c ∧ scheme.tryFromCbor c = some sig := by
  unfold readSignature asPredicate asObject at h
  split at h
  · cases h
  rename_i p hp
  split at hp
  swap
  · cases hp
  rename_i p' o hsubject
  obtain rfl := Option.some.inj hp
  simp only [hsubject] at h
  obtain ⟨⟨⟩, hensure, h'⟩ := bind_eq_ok.mp h
  have hknown := ensure_eq_ok.mp hensure
  clear h
  cases hc : o.extractSubject with
  | none =>
    simp only [hc, Option.bind_none] at h'
    split_ifs at h'
  | some c =>
    simp only [hc, Option.bind_some] at h'
    cases hsig : scheme.tryFromCbor c with
    | none =>
      simp only [hsig] at h'
      split_ifs at h'
    | some sig' =>
      simp only [hsig] at h'
      obtain rfl := Option.some.inj (pure_eq_ok.mp h')
      refine ⟨p', o, c, hsubject, ?_, hc, hsig⟩
      unfold asKnownValue at hknown
      split at hknown
      · rename_i v hv
        rw [hv, Option.some.inj hknown]
      · cases hknown

/-- Unsalted, a signature stands as it is written. -/
lemma eq_signature_of_unsalted {a : Envelope} {sig : scheme.Signature} (hs : a.Shaped)
    (hplain : Unsalted a) (hform : ∀ c sig, a.asObject = some (.leaf c) →
      scheme.tryFromCbor c = some sig → scheme.toCbor sig = c)
    (h : readSignature scheme a = .ok (some sig)) : a = signatureAssertion sig := by
  obtain ⟨p, o, c, hsubject, hp, ho, hsig⟩ := readSignature_eq_some h
  have ha := subject_of_bare hs hplain.self
  rw [hsubject] at ha
  subst ha
  cases hs with
  | assertion hsp hso =>
    have hpbare := subject_of_bare hsp (hplain.predicate p rfl)
    have hobare := subject_of_bare hso (hplain.object o rfl)
    rw [hp] at hpbare
    subst hpbare
    cases o with
    | leaf c' =>
      obtain rfl := Option.some.inj ho
      rw [signatureAssertion, hform c' sig rfl hsig]
    | node s as => cases hso with
      | node hsubject hne hassertions hkind =>
        exact absurd (hplain.object _ rfl) hne
    | _ => cases ho

/-- Everything was read: nothing was elided. -/
lemma forall₂_of_count {α β : Type} [DecidableEq β] {R : α → Option β → Prop} {as : List α}
    {xs : List (Option β)} (h : List.Forall₂ R as xs) (hcount : xs.count none = 0) :
    ∃ ys, xs = ys.map some ∧ List.Forall₂ (fun a y => R a (some y)) as ys := by
  induction h with
  | nil => exact ⟨[], rfl, .nil⟩
  | @cons a x as xs ha has ih =>
    cases x with
    | none => simp at hcount
    | some y =>
      rw [List.count_cons_of_ne (by simp)] at hcount
      obtain ⟨ys, rfl, hys⟩ := ih hcount
      exact ⟨y :: ys, rfl, .cons ha hys⟩

lemma eq_map_of_forall₂ {α β : Type} {f : β → α} {as : List α} {ys : List β}
    (h : List.Forall₂ (fun a y => a = f y) as ys) : as = ys.map f := by
  induction h with
  | nil => rfl
  | cons ha has ih => rw [List.map_cons, ← ih, ha]

/-! ### The whole -/

/-- The decoded operation has the attributes that stand in the envelope. -/
lemma mem_attributes_decoded {op : Op} {as : List Attribute} (hbare : op.core = op)
    (hsingle : ∀ label ∈ [PRED_TARGET_FP, PRED_TIMESTAMP],
      as.Pairwise fun a b => a.label = label → b.label ≠ label) (a : Attribute) :
    a ∈ (op.applyAll as).sortLinks.attributes ↔ a ∈ as := by
  have honly : ∀ {β : Type} (f : Attribute → Option β) (label : String),
      label ∈ [PRED_TARGET_FP, PRED_TIMESTAMP] → (∀ a y, f a = some y → a.label = label) →
      ∀ y, (as.filterMap f).getLast? = some y ↔ y ∈ as.filterMap f := by
    intro β f label hlabel hf y
    refine ⟨fun h => List.mem_of_getLast? h, fun h => ?_⟩
    have hpair : (as.filterMap f).Pairwise fun _ _ => False := by
      refine List.pairwise_filterMap.mpr ((hsingle label hlabel).imp ?_)
      intro a b hab y hy z hz
      exact hab (hf a y hy) (hf b z hz)
    cases hlist : as.filterMap f with
    | nil =>
      rw [hlist] at h
      exact absurd h List.not_mem_nil
    | cons z zs =>
      rw [hlist] at h hpair
      cases zs with
      | nil =>
        rw [List.mem_singleton.mp h]
        rfl
      | cons w ws => exact absurd ((List.pairwise_cons.mp hpair).1 w List.mem_cons_self) id
  rw [applyAll_eq, ← hbare]
  cases a with
  | deps d => simp [Op.sortLinks, Op.core]
  | nacks n => simp [Op.sortLinks, Op.core]
  | targetFp fp =>
    simp only [targetFp_mem_attributes, Op.sortLinks, Op.core, Option.or_none]
    rw [honly Attribute.target? PRED_TARGET_FP (by simp)
      (fun a y h => by rw [Attribute.target?_eq_some.mp h]; rfl)]
    simp
  | timestamp ts =>
    simp only [timestamp_mem_attributes, Op.sortLinks, Op.core, Option.or_none]
    rw [honly Attribute.time? PRED_TIMESTAMP (by simp)
      (fun a y h => by rw [Attribute.time?_eq_some.mp h]; rfl)]
    simp

/-- The core map of a well-formed envelope is in order. -/
lemma keyed_core {inner : Envelope} (h : inner.WellFormed host) {core : List (CBOR × CBOR)}
    (hcore : coreOf inner = .ok core) : Keyed (mapKey host) core := by
  have hleaf := h.subject
  rw [coreOf_eq_ok.mp hcore] at hleaf
  cases hleaf with
  | leaf hmap => cases hmap with
    | map hordered hkeys hvalues => exact hordered

lemma unwrapOp_wellFormed {e : Envelope} (h : e.WellFormed host) :
    (unwrapOp e).1.WellFormed host := by
  rcases unwrapOp_cases e with ⟨inner, hsubject, hu⟩ | ⟨-, hu⟩
  · have hwrapped := h.subject
    rw [hsubject] at hwrapped
    rw [hu]
    cases hwrapped with
    | wrapped h => exact h
  · rw [hu]
    exact h

/-- The inner envelope, if its assertions stand as they are written. -/
lemma eq_opEnvelope_of_plain {inner : Envelope} (hwf : inner.WellFormed host)
    {core : List (CBOR × CBOR)} (hcore : coreOf inner = .ok core)
    (hkeys : ∀ x ∈ core, ∃ k ∈ CORE_KEYS, x.1 = .text k) {op : Op}
    (hfields : CoreFields host core op) {as : List Attribute}
    (hattributes : inner.assertions = as.map Attribute.assertion)
    (hsingle : ∀ label ∈ [PRED_TARGET_FP, PRED_TIMESTAMP],
      as.Pairwise fun a b => a.label = label → b.label ≠ label) :
    inner = opEnvelope host (op.applyAll as).sortLinks := by
  have hentries : coreEntries (op.applyAll as).sortLinks = core := by
    rw [applyAll_eq, hfields.entries_eq (keyed_core hwf hcore) hkeys]
    rfl
  have hmem := mem_attributes_decoded hfields.bare hsingle
  have hsorted : sorted host
      ((op.applyAll as).sortLinks.attributes.map Attribute.assertion) = inner.assertions := by
    refine Keyed.foldl_addKeyed_eq hwf.keyed fun a => ?_
    rw [hattributes, List.mem_map, List.mem_map]
    simp only [hmem]
  have hnil : (op.applyAll as).sortLinks.attributes = [] ↔ inner.assertions = [] := by
    rw [hattributes, List.map_eq_nil_iff, List.eq_nil_iff_forall_not_mem,
      List.eq_nil_iff_forall_not_mem]
    simp only [hmem]
  rw [opEnvelope, addAll_eq ⟨rfl, rfl⟩, hentries, hsorted]
  rcases inner_form hwf.shaped hcore with ⟨hleaf, hbare⟩ | ⟨hnode, hne⟩
  · rw [if_pos (List.map_eq_nil_iff.mpr (hnil.mpr hbare)), hleaf]
  · rw [if_neg (fun h' => hne (hnil.mp (List.map_eq_nil_iff.mp h')))]
    exact hnode

/-- The envelope around it, if it is wrapped and the signatures stand as they are written. -/
lemma eq_signedEnvelope_of_plain {e : Envelope} (hwf : e.WellFormed host) {s : SignedOp scheme}
    (hsubject : e.subject = wrapped (opEnvelope host s.op)) (hsigned : s.signatures ≠ [])
    (houter : e.assertions = s.signatures.map signatureAssertion) :
    e = signedEnvelope host s := by
  have hmap : s.signatures.map signatureAssertion ≠ [] := fun h' =>
    hsigned (List.map_eq_nil_iff.mp h')
  have hsorted : sorted host (s.signatures.map signatureAssertion) = e.assertions := by
    refine Keyed.foldl_addKeyed_eq hwf.keyed fun a => ?_
    rw [houter]
  rw [signedEnvelope, addAll_eq ⟨rfl, rfl⟩, hsorted, if_neg hmap, ← hsubject]
  cases e with
  | node s as => rfl
  | _ => exact absurd houter.symm hmap

/-- A plain envelope from which an operation is decoded is the one that the operation is encoded
to. -/
lemma fromEnvelope_plain {e : Envelope} {s : SignedOp scheme} (hwf : e.WellFormed host)
    (h : fromEnvelope host scheme e = .ok s) (helided : s.elided = 0) (hplain : Plain scheme e) :
    toEnvelope host s.op = .ok (unwrapOp e).1 ∧ toSignedEnvelope host s = .ok e := by
  obtain ⟨core, op, xs, ys, hcore, hop, hxs, hys, rfl⟩ := fromEnvelope_eq_ok.mp h
  have hfields := coreFields_of_readCore hop
  obtain ⟨hxnone, hynone⟩ : xs.count none = 0 ∧ ys.count none = 0 := by
    simpa using helided
  obtain ⟨as, rfl, has⟩ := forall₂_of_count hxs hxnone
  obtain ⟨sigs, rfl, hsigs⟩ := forall₂_of_count hys hynone
  have hinner := unwrapOp_wellFormed hwf
  -- every assertion stands as it is written
  have hattributes : (unwrapOp e).1.assertions = as.map Attribute.assertion := by
    refine eq_map_of_forall₂ (((List.forall₂_and_left _ _).mpr ⟨fun a ha => ha, has⟩).imp ?_)
    rintro a x ⟨ha, hx⟩
    exact eq_assertion_of_unsalted (hinner.of_mem_assertions ha).shaped (hplain.attributes a ha) hx
  have hsingle : ∀ label ∈ [PRED_TARGET_FP, PRED_TIMESTAMP],
      as.Pairwise fun a b => a.label = label → b.label ≠ label := by
    intro label hlabel
    have hpair := hplain.single label hlabel
    rw [hattributes] at hpair
    refine (List.pairwise_map.mp hpair).imp ?_
    intro a b hab ha hb
    exact hab (by rw [← ha]; rfl) (by rw [← hb]; rfl)
  rw [reduceOption_map_some, reduceOption_map_some]
  have hvalid : ((op.applyAll as).sortLinks).Valid host := by
    rw [applyAll_eq]
    exact ⟨hfields.valid.kind, hfields.valid.body⟩
  have hopen : (unwrapOp e).1 = opEnvelope host (op.applyAll as).sortLinks :=
    eq_opEnvelope_of_plain hinner hcore (hplain.keys core hcore) hfields hattributes hsingle
  have hto : toEnvelope host (op.applyAll as).sortLinks = .ok (unwrapOp e).1 :=
    toEnvelope_eq_ok.mpr ⟨hvalid, hopen⟩
  refine ⟨hto, ?_⟩
  rcases unwrapOp_cases e with ⟨inner, hsubject, hu⟩ | ⟨-, hu⟩
  · have hne : e.assertions ≠ [] :=
      hplain.signed (by rw [tryUnwrap_eq_some.mpr hsubject]; exact Option.some_ne_none _)
    have houter : e.assertions = sigs.map signatureAssertion := by
      have hout : (unwrapOp e).2 = e.assertions := by rw [hu]
      rw [← hout]
      refine eq_map_of_forall₂ (((List.forall₂_and_left _ _).mpr ⟨fun a ha => ha, hsigs⟩).imp ?_)
      rintro a x ⟨ha, hx⟩
      exact eq_signature_of_unsalted (hwf.of_mem_assertions (hout ▸ ha)).shaped
        (hplain.outside a ha) (hplain.signatures a ha) hx
    have hsigned : sigs ≠ [] := by
      rintro rfl
      exact hne houter
    have hwrapped : e.subject = wrapped (opEnvelope host (op.applyAll as).sortLinks) := by
      rw [← hopen, hu, hsubject]
    exact (toSignedEnvelope_eq_ok hsigned).mpr
      ⟨hvalid, eq_signedEnvelope_of_plain hwf hwrapped hsigned houter⟩
  · rw [hu] at hsigs hto
    cases hsigs
    rw [toSignedEnvelope_unsigned rfl]
    exact hto

/-- **Decoding is canonical on plain envelopes.**  If an operation is decoded from the bytes of a
plain envelope and nothing in it was elided, it is encoded to these bytes; and if the signatures
verify, what they cover is the wrapped inner envelope, and the content hash is that of the inner
envelope's bytes. -/
theorem encodeSigned_decode {reader : EnvelopeReader host} {b : Bytes} {e : Envelope}
    {s : SignedOp scheme} (he : reader.tryFromCborData b = some e)
    (h : decode scheme reader b = .ok s) (helided : s.elided = 0) (hplain : Plain scheme e) :
    encodeSigned host s = .ok b ∧
      ∀ (blake3 : Bytes → Hash32) (s' : SignedOp scheme) (hash : Hash32),
        decodeAndVerify scheme reader blake3 b = .ok (s', hash) →
          s' = s ∧ e.subject = (unwrapOp e).1.wrap ∧
            hash = blake3 ((unwrapOp e).1.toCborData host) := by
  obtain ⟨hwf, -, hdata⟩ := (reader.reads b e).mp he
  rw [decode, he] at h
  obtain ⟨hinner, hsigned⟩ := fromEnvelope_plain hwf h helided hplain
  constructor
  · rw [encodeSigned_of_toSignedEnvelope hsigned, hdata]
  · intro blake3 s' hash hverified
    obtain ⟨hs', hverify, hhash⟩ := (decodeAndVerify_eq_ok he).mp hverified
    obtain rfl : s' = s := Except.ok.inj (hs'.symm.trans h)
    refine ⟨rfl, ?_, ?_⟩
    · -- an envelope with a signature is wrapped
      rw [verifyEnvelope_of_fromEnvelope h] at hverify
      have hne : s'.signatures ≠ [] := by
        intro hnil
        rw [if_pos hnil] at hverify
        cases hverify
      obtain ⟨core, op, xs, ys, -, -, -, hys, rfl⟩ := fromEnvelope_eq_ok.mp h
      rcases unwrapOp_cases e with ⟨inner, hsubject, hu⟩ | ⟨-, hu⟩
      · rw [hu, hsubject]
        rfl
      · rw [hu] at hys
        cases hys
        exact absurd rfl hne
    · rw [contentHash_of_toEnvelope hinner] at hhash
      exact (Except.ok.inj hhash).symm

lemma sampleSigned_read : (EnvelopeReader.canonical Host.plain).tryFromCborData
    ((signedEnvelope Host.plain sampleSigned).toCborData Host.plain) =
      some (signedEnvelope Host.plain sampleSigned) := by
  have hsigned : sampleSigned.signatures ≠ [] := List.cons_ne_nil _ _
  have hwritten : writtenEnvelope Host.plain sampleSigned =
      signedEnvelope Host.plain sampleSigned := if_neg hsigned
  have hop : sampleSigned.op.written Host.plain = sampleSigned.op := rfl
  have hread := (EnvelopeReader.canonical Host.plain).tryFromCborData_toCborData
    (written_wellFormed sampleSigned_canonical) sampleSigned_fits
  rwa [normal_written sampleSigned_canonical, hop, hwritten] at hread

/-- The sample operation, signed by its actor: it is encoded to the bytes it is decoded from, and
its content hash is that of the operation inside. -/
theorem encodeSigned_decode_sample :
    encodeSigned Host.plain sampleSigned =
        .ok ((signedEnvelope Host.plain sampleSigned).toCborData Host.plain) ∧
      decodeAndVerify sampleScheme (EnvelopeReader.canonical Host.plain) sha256
          ((signedEnvelope Host.plain sampleSigned).toCborData Host.plain) =
        .ok (sampleSigned, sha256 ((opEnvelope Host.plain sampleOp).toCborData Host.plain)) := by
  have hfrom : fromEnvelope Host.plain sampleScheme (signedEnvelope Host.plain sampleSigned) =
      .ok sampleSigned :=
    fromEnvelope_eq_ok.mpr ⟨coreEntries sampleOp, sampleOp.core, sampleOp.attributes.map some,
      sampleSigned.signatures.map some, rfl, readCore_coreEntries sampleOp_valid, .cons rfl .nil,
      .cons (readSignature_assertion _) .nil, rfl⟩
  have hplain : Plain sampleScheme (signedEnvelope Host.plain sampleSigned) :=
    { keys := fun core hcore => by
        obtain rfl := Except.ok.inj hcore
        exact coreEntries_keys sampleOp
      attributes := List.forall_mem_singleton.mpr
        ⟨rfl, fun p hp => Option.some.inj hp ▸ rfl, fun o ho => Option.some.inj ho ▸ rfl⟩
      single := fun _ _ => List.pairwise_singleton _ _
      signed := fun _ => List.cons_ne_nil _ _
      outside := List.forall_mem_singleton.mpr
        ⟨rfl, fun p hp => Option.some.inj hp ▸ rfl, fun o ho => Option.some.inj ho ▸ rfl⟩
      signatures := List.forall_mem_singleton.mpr fun c sig hc hsig => by
        obtain rfl := Envelope.leaf.inj (Option.some.inj hc)
        have hsame := (sampleScheme.tryFromCbor_toCbor _).symm.trans hsig
        rw [← Option.some.inj hsame] }
  have hdecode : decode sampleScheme (EnvelopeReader.canonical Host.plain)
      ((signedEnvelope Host.plain sampleSigned).toCborData Host.plain) = .ok sampleSigned := by
    rw [decode, sampleSigned_read]
    exact hfrom
  obtain ⟨hencode, hverified⟩ := encodeSigned_decode sampleSigned_read hdecode rfl hplain
  refine ⟨hencode, ?_⟩
  have hverify : verifyEnvelope sampleScheme Host.plain (signedEnvelope Host.plain sampleSigned)
      sampleSigned.op.actor = .ok () := by
    have hsigned : sampleSigned.signatures ≠ [] := List.cons_ne_nil _ _
    have hsubject : (signedEnvelope Host.plain sampleSigned).subject =
        (opEnvelope Host.plain sampleOp).wrap := subject_addAll ⟨rfl, rfl⟩ _
    rw [verifyEnvelope_of_fromEnvelope hfrom, if_neg hsigned, verifySignatures_eq_ok, hsubject,
      sampleDigest_eq]
    exact verifies_sampleSigned
  have hhash := contentHash_of_toEnvelope
    (toEnvelope_eq_ok.mpr ⟨sampleOp_valid, rfl⟩ : toEnvelope Host.plain sampleSigned.op = _) sha256
  have hok := (decodeAndVerify_eq_ok sampleSigned_read).mpr ⟨hfrom, hverify, hhash⟩
  obtain ⟨-, -, hsame⟩ := hverified _ _ _ hok
  rw [hok, hsame]
  rfl

/-! ### Salted operations -/

/-- The known value `'salt'`. -/
def SALT : UInt64 := 15

/-- The tag of a salt. -/
def TAG_SALT : UInt64 := 40018

/-- The sample operation, its dependency salted. -/
def saltedEnvelope : Envelope :=
  node (leaf (.map (coreEntries sampleOp)))
    (sampleOp.attributes.map fun a => node a.assertion
      [.assertion (.knownValue SALT) (.leaf (.tagged TAG_SALT (.byteString (List.replicate 8 9))))])

/-- **A salted operation is not encoded to the bytes it is decoded from.** -/
theorem encodeSigned_decode_salted :
    ¬ ∀ (reader : EnvelopeReader Host.plain) (b : Bytes) (s : SignedOp sampleScheme),
      decode sampleScheme reader b = .ok s → s.elided = 0 →
        encodeSigned Host.plain s = .ok b := by
  have hcore := @coreEntries_canonical Host.plain sampleOp rfl
  have hop : (opEnvelope Host.plain sampleOp).WellFormed Host.plain := opEnvelope_wellFormed rfl
  have hwf : saltedEnvelope.WellFormed Host.plain := by
    refine .node (.leaf (.map (coreEntries_keyed sampleOp) (fun e he => (hcore e he).1)
      fun e he => (hcore e he).2)) (List.cons_ne_nil _ _) ?_ ?_ (List.pairwise_singleton _ _)
    · refine List.forall_mem_singleton.mpr (.node ?_ (List.cons_ne_nil _ _) ?_ ?_
        (List.pairwise_singleton _ _))
      · exact hop.of_mem_assertions List.mem_cons_self
      · exact List.forall_mem_singleton.mpr
          (.assertion (.knownValue _) (.leaf (.tagged (.byteString _))))
      · exact List.forall_mem_singleton.mpr trivial
    · exact List.forall_mem_singleton.mpr trivial
  have hread : (EnvelopeReader.canonical Host.plain).tryFromCborData
      (saltedEnvelope.toCborData Host.plain) = some saltedEnvelope := by
    refine ((EnvelopeReader.canonical Host.plain).reads _ _).mpr ⟨hwf, ?_, rfl⟩
    change (Envelope.toCborData Host.plain _).length < 2 ^ 64
    decide +kernel
  have hdecode : decode sampleScheme (EnvelopeReader.canonical Host.plain)
      (saltedEnvelope.toCborData Host.plain) =
        .ok { op := sampleOp, signatures := [], elided := 0 } := by
    rw [decode, hread]
    exact fromEnvelope_eq_ok.mpr ⟨coreEntries sampleOp, sampleOp.core,
      sampleOp.attributes.map some, [], rfl, readCore_coreEntries sampleOp_valid,
      .cons rfl .nil, .nil, rfl⟩
  intro h
  have hencode := h _ _ _ hdecode rfl
  have hunsalted : encodeSigned Host.plain
      ({ op := sampleOp, signatures := [], elided := 0 } : SignedOp sampleScheme) =
        .ok ((opEnvelope Host.plain sampleOp).toCborData Host.plain) := by
    refine encodeSigned_of_toSignedEnvelope ?_
    rw [toSignedEnvelope_unsigned rfl]
    exact toEnvelope_eq_ok.mpr ⟨sampleOp_valid, rfl⟩
  have hlen := congrArg List.length (Except.ok.inj (hunsalted.symm.trans hencode))
  revert hlen
  decide +kernel

end Identikey.Log
