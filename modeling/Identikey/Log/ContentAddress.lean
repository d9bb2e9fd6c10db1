/-
Content addressing of operations.

The bytes of an operation's envelope, its digest and the digest that is signed tell
the operation, up to what the envelope does not hold: the order and repetition of
links, and the form of the kind before normalisation.

Leaves and nodes are hashed alike.  So the digest of an operation without attributes is
also that of one with attributes if its core map is written just as the digests of the
other's parts are (`ReadAsNode`).  Nothing that is assumed of SHA-256 speaks against that;
two operations that both have attributes, or both have none, cannot be taken for one
another.
-/
import Identikey.Gordian.DigestEval
import Identikey.Log.OpImages
import Identikey.Log.Sign

namespace Identikey.Log

open Lib Lib.Fallible Auth Dcbor Gordian Envelope

variable {host : Host}

/-- What the envelopes of two operations have in common when they are the same. -/
structure SameContent (host : Host) (op₁ op₂ : Op) : Prop where
  kind : host.nfc op₁.kind = host.nfc op₂.kind
  body : op₁.body = op₂.body
  hlc : op₁.hlc = op₂.hlc
  actor : op₁.actor = op₂.actor
  parentHashes : op₁.parentHashes = op₂.parentHashes
  deps : ∀ d, d ∈ op₁.deps ↔ d ∈ op₂.deps
  nacks : ∀ n, n ∈ op₁.nacks ↔ n ∈ op₂.nacks
  targetFp : op₁.targetFp = op₂.targetFp
  timestamp : op₁.timestamp = op₂.timestamp

/-- The messages that are hashed when the envelope of an operation is built and wrapped. -/
def opImages (host : Host) (op : Op) : List Bytes :=
  (wrapped (opEnvelope host op)).images host ++
    (op.attributes.map Attribute.assertion).flatMap (images host)

/-- The encoding of a core map. -/
def coreData (host : Host) (op : Op) : Bytes := (CBOR.map (coreEntries op)).toCborData host

/-- The digests of the parts of an operation with attributes, as its node is hashed. -/
def partDigests (host : Host) (op : Op) : Bytes :=
  digestsData (sha256 (coreData host op) ::
    (sorted host (op.attributes.map Attribute.assertion)).map (digest host))

/-- The core map of `op₁`, which has no attributes, is written as the digests of the parts of `op₂`,
which has some. -/
structure ReadAsNode (host : Host) (op₁ op₂ : Op) : Prop where
  bare : op₁.attributes = []
  attributes : op₂.attributes ≠ []
  data : coreData host op₁ = partDigests host op₂

section Covered

variable {op : Op} {l : List Bytes}

lemma covered_wrapped (h : ∀ b ∈ opImages host op, b ∈ l) :
    (wrapped (opEnvelope host op)).Covered host l :=
  fun b hb => h b (List.mem_append_left _ hb)

lemma covered_assertion (h : ∀ b ∈ opImages host op, b ∈ l) {a : Attribute}
    (ha : a ∈ op.attributes) : a.assertion.Covered host l := fun b hb =>
  h b (List.mem_append_right _ (List.mem_flatMap.mpr ⟨_, List.mem_map_of_mem ha, hb⟩))

end Covered

/-! ### The parts of the content -/

/-- The core map, as it is written, tells the core. -/
lemma coreNormal_eq_iff {op₁ op₂ : Op} :
    (CBOR.map (coreEntries op₁)).normal host = (CBOR.map (coreEntries op₂)).normal host ↔
      host.nfc op₁.kind = host.nfc op₂.kind ∧ op₁.body = op₂.body ∧ op₁.hlc = op₂.hlc ∧
        op₁.actor = op₂.actor ∧ op₁.parentHashes = op₂.parentHashes := by
  have hnormal : ∀ op : Op, (CBOR.map (coreEntries op)).normal host = .map
      ((.text (host.nfc "hlc"), .array [.unsigned op.hlc.l, .unsigned op.hlc.c]) ::
      ((op.body.map fun b => (CBOR.text (host.nfc "body"), CBOR.byteString b)).toList ++
      [(.text (host.nfc "kind"), .text (host.nfc op.kind)),
        (.text (host.nfc "type"), .text (host.nfc OP_TYPE)),
        (.text (host.nfc "actor"), .byteString op.actor.val),
        (.text (host.nfc "parent-hashes"), .array (op.parentHashes.map fun p => .byteString p.val)),
        (.text (host.nfc "format-version"), .unsigned FORMAT_VERSION)])) := by
    intro op
    rw [normal_map]
    cases hbody : op.body <;>
      simp [coreEntries, hbody, normalEntry, CBOR.normal, normalItems, normalItems_eq]
  have hparents : ∀ ps qs : List Hash32,
      (ps.map fun p => CBOR.byteString p.val) = (qs.map fun p => CBOR.byteString p.val) ↔
        ps = qs := by
    intro ps qs
    refine (List.map_injective_iff.mpr fun p q h => ?_).eq_iff
    exact Subtype.ext (CBOR.byteString.inj h)
  have hhlc : op₁.hlc = op₂.hlc ↔ op₁.hlc.l = op₂.hlc.l ∧ op₁.hlc.c = op₂.hlc.c := by
    cases op₁.hlc
    cases op₂.hlc
    simp
  rw [hnormal, hnormal, CBOR.map.injEq, hhlc]
  cases hb₁ : op₁.body <;> cases hb₂ : op₂.body <;>
    simp [hparents, Subtype.ext_iff, and_comm, and_left_comm, and_assoc, -List.map_subtype]

/-- The attributes tell the rest. -/
lemma attributes_eq_iff {op₁ op₂ : Op} :
    (∀ a, a ∈ op₁.attributes ↔ a ∈ op₂.attributes) ↔
      (∀ d, d ∈ op₁.deps ↔ d ∈ op₂.deps) ∧ (∀ n, n ∈ op₁.nacks ↔ n ∈ op₂.nacks) ∧
        op₁.targetFp = op₂.targetFp ∧ op₁.timestamp = op₂.timestamp := by
  constructor
  · intro h
    refine ⟨fun d => ?_, fun n => ?_, Option.ext fun fp => ?_, Option.ext fun ts => ?_⟩
    · rw [← deps_mem_attributes, h, deps_mem_attributes]
    · rw [← nacks_mem_attributes, h, nacks_mem_attributes]
    · rw [← targetFp_mem_attributes, h, targetFp_mem_attributes]
    · rw [← timestamp_mem_attributes, h, timestamp_mem_attributes]
  · rintro ⟨hd, hn, hfp, hts⟩ a
    cases a with
    | deps d => simp [hd]
    | nacks n => simp [hn]
    | targetFp fp => simp [hfp]
    | timestamp ts => simp [hts]

lemma sameContent_iff {op₁ op₂ : Op} :
    SameContent host op₁ op₂ ↔
      (CBOR.map (coreEntries op₁)).normal host = (CBOR.map (coreEntries op₂)).normal host ∧
        ∀ a, a ∈ op₁.attributes ↔ a ∈ op₂.attributes := by
  rw [coreNormal_eq_iff, attributes_eq_iff]
  constructor
  · intro h
    exact ⟨⟨h.kind, h.body, h.hlc, h.actor, h.parentHashes⟩, h.deps, h.nacks, h.targetFp,
      h.timestamp⟩
  · rintro ⟨⟨hkind, hbody, hhlc, hactor, hparents⟩, hdeps, hnacks, hfp, hts⟩
    exact ⟨hkind, hbody, hhlc, hactor, hparents, hdeps, hnacks, hfp, hts⟩

/-! ### From the envelope to the content -/

lemma opEnvelope_eq (op : Op) :
    opEnvelope host op = if op.attributes = [] then leaf (.map (coreEntries op)) else
      node (leaf (.map (coreEntries op)))
        (sorted host (op.attributes.map Attribute.assertion)) := by
  rw [opEnvelope, addAll_eq ⟨rfl, rfl⟩]
  by_cases h : op.attributes = []
  · rw [if_pos h, if_pos (List.map_eq_nil_iff.mpr h)]
  · rw [if_neg h, if_neg (fun h' => h (List.map_eq_nil_iff.mp h'))]

/-- The core map is no longer than the envelope. -/
lemma core_fits {op : Op} (h : (opEnvelope host op).Fits host) :
    (CBOR.map (coreEntries op)).Fits host := by
  have huntagged := h.untagged
  rw [opEnvelope_eq] at huntagged
  split_ifs at huntagged
  · exact CBOR.Fits.tagged huntagged
  · exact CBOR.Fits.tagged (CBOR.Fits.item huntagged List.mem_cons_self)

section Content

variable {op₁ op₂ : Op} {l : List Bytes} (hfree : CollisionFree l)
  (h₁ : ∀ b ∈ opImages host op₁, b ∈ l) (h₂ : ∀ b ∈ opImages host op₂, b ∈ l)

include hfree h₁ h₂

/-- Operations with the same content have the same envelope, as it is written. -/
lemma SameContent.normal_eq (h : SameContent host op₁ op₂) :
    (opEnvelope host op₁).normal host = (opEnvelope host op₂).normal host := by
  obtain ⟨hcore, hattrs⟩ := sameContent_iff.mp h
  have hsorted : sorted host (op₁.attributes.map Attribute.assertion) =
      sorted host (op₂.attributes.map Attribute.assertion) := by
    refine Keyed.ext (sorted_keyed _) (sorted_keyed _) fun a => ?_
    have hmem : ∀ (op : Op), (∀ b ∈ opImages host op, b ∈ l) →
        (a ∈ sorted host (op.attributes.map Attribute.assertion) ↔
          ∃ x ∈ op.attributes, x.assertion = a) := by
      intro op hop
      rw [mem_sorted, List.mem_map]
      intro x hx y hy hxy
      obtain ⟨a, ha, rfl⟩ := List.mem_map.mp hx
      obtain ⟨b, hb, rfl⟩ := List.mem_map.mp hy
      rw [attribute_digest_inj hfree (covered_assertion hop ha) (covered_assertion hop hb) hxy]
    rw [hmem op₁ h₁, hmem op₂ h₂]
    simp only [hattrs]
  have hnil : op₁.attributes = [] ↔ op₂.attributes = [] := by
    simp only [List.eq_nil_iff_forall_not_mem, hattrs]
  rw [opEnvelope_eq, opEnvelope_eq, hsorted]
  by_cases hop : op₂.attributes = []
  · rw [if_pos hop, if_pos (hnil.mpr hop), normal, normal, hcore]
  · rw [if_neg hop, if_neg (fun h => hop (hnil.mp h)), normal, normal, normal, normal, hcore]

/-- Operations with the same digest that both have attributes, or both have none, have the same
content. -/
lemma sameContent_of_digest (hfit : (opEnvelope host op₁).Fits host)
    (hnil : op₁.attributes = [] ↔ op₂.attributes = [])
    (h : (opEnvelope host op₁).digest host = (opEnvelope host op₂).digest host) :
    SameContent host op₁ op₂ := by
  have hc₁ := (covered_wrapped h₁).unwrapped
  have hc₂ := (covered_wrapped h₂).unwrapped
  have hcore : ∀ {c₁ c₂ : CBOR}, (leaf c₁).Covered host l → (leaf c₂).Covered host l →
      (leaf c₁).digest host = (leaf c₂).digest host → c₁.Fits host →
      c₁.normal host = c₂.normal host := fun hl₁ hl₂ hd hf =>
    normal_eq_of_toCborData hf (leaf_data hfree hl₁ hl₂ hd)
  have hfit₁ := core_fits hfit
  rw [sameContent_iff]
  rw [opEnvelope_eq] at h hc₁
  rw [opEnvelope_eq op₂] at h hc₂
  by_cases hop : op₂.attributes = []
  · have hop₁ := hnil.mpr hop
    rw [if_pos hop₁] at h hc₁
    rw [if_pos hop] at h hc₂
    refine ⟨hcore hc₁ hc₂ h hfit₁, fun a => ?_⟩
    rw [hop₁, hop]
  · have hop₁ : op₁.attributes ≠ [] := fun h => hop (hnil.mp h)
    rw [if_neg hop₁] at h hc₁
    rw [if_neg hop] at h hc₂
    obtain ⟨hsubject, hdigests⟩ := node_parts hfree hc₁ hc₂ h
    refine ⟨hcore hc₁.subject hc₂.subject hsubject hfit₁, ?_⟩
    -- both lists of digests are those of the attributes, in order
    have hinj : ∀ (op : Op), (∀ b ∈ opImages host op, b ∈ l) → ∀ a ∈ op.attributes,
        ∀ b ∈ op.attributes, a.assertion.digest host = b.assertion.digest host → a = b :=
      fun op hop a ha b hb =>
        attribute_digest_inj hfree (covered_assertion hop ha) (covered_assertion hop hb)
    obtain ⟨as₁, has₁, -, hmem₁⟩ := sorted_map (hinj op₁ h₁)
    obtain ⟨as₂, has₂, -, hmem₂⟩ := sorted_map (hinj op₂ h₂)
    rw [has₁, has₂, List.map_map, List.map_map] at hdigests
    have hsub : ∀ {as bs : List Attribute} {op op' : Op},
        (∀ b ∈ opImages host op, b ∈ l) → (∀ b ∈ opImages host op', b ∈ l) →
        (∀ b, b ∈ as ↔ b ∈ op.attributes) → (∀ b, b ∈ bs ↔ b ∈ op'.attributes) →
        as.map (digest host ∘ Attribute.assertion) = bs.map (digest host ∘ Attribute.assertion) →
        ∀ a ∈ op.attributes, a ∈ op'.attributes := by
      intro as bs op op' hop hop' has hbs heq a ha
      have hd : (digest host ∘ Attribute.assertion) a ∈
          bs.map (digest host ∘ Attribute.assertion) :=
        heq ▸ List.mem_map_of_mem ((has a).mpr ha)
      obtain ⟨b, hb, hab⟩ := List.mem_map.mp hd
      have hb' := (hbs b).mp hb
      rwa [attribute_digest_inj hfree (covered_assertion hop ha) (covered_assertion hop' hb')
        hab.symm]
    exact fun a => ⟨hsub h₁ h₂ hmem₁ hmem₂ hdigests a, hsub h₂ h₁ hmem₂ hmem₁ hdigests.symm a⟩

/-- An operation without attributes has the digest of one with attributes exactly if it can be read
as its node. -/
lemma digest_eq_iff_readAsNode (hbare : op₁.attributes = []) (hattrs : op₂.attributes ≠ []) :
    (opEnvelope host op₁).digest host = (opEnvelope host op₂).digest host ↔
      ReadAsNode host op₁ op₂ := by
  have hc₁ := (covered_wrapped h₁).unwrapped
  have hc₂ := (covered_wrapped h₂).unwrapped
  rw [opEnvelope_eq, if_pos hbare] at hc₁ ⊢
  rw [opEnvelope_eq, if_neg hattrs] at hc₂ ⊢
  constructor
  · intro h
    have himage := image_eq_of_digest hfree hc₁ hc₂ rfl rfl h
    exact ⟨hbare, hattrs, himage⟩
  · intro h
    have hdata := h.data
    rw [partDigests, ← digests_eq] at hdata
    exact congrArg sha256 hdata

/-- Equal digests, in terms of what the operations are. -/
lemma digest_eq_iff (hfit : (opEnvelope host op₁).Fits host) :
    (opEnvelope host op₁).digest host = (opEnvelope host op₂).digest host ↔
      SameContent host op₁ op₂ ∨ ReadAsNode host op₁ op₂ ∨ ReadAsNode host op₂ op₁ := by
  have hsame : SameContent host op₁ op₂ →
      (opEnvelope host op₁).digest host = (opEnvelope host op₂).digest host := by
    intro h
    rw [← digest_normal host (opEnvelope host op₁), h.normal_eq hfree h₁ h₂, digest_normal]
  have hnil : SameContent host op₁ op₂ → (op₁.attributes = [] ↔ op₂.attributes = []) := by
    intro h
    simp only [List.eq_nil_iff_forall_not_mem, (sameContent_iff.mp h).2]
  by_cases hop₁ : op₁.attributes = []
  · by_cases hop₂ : op₂.attributes = []
    · refine ⟨fun h => .inl ?_, ?_⟩
      · exact sameContent_of_digest hfree h₁ h₂ hfit (iff_of_true hop₁ hop₂) h
      · rintro (h | h | h)
        · exact hsame h
        · exact absurd hop₂ h.attributes
        · exact absurd hop₁ h.attributes
    · rw [digest_eq_iff_readAsNode hfree h₁ h₂ hop₁ hop₂]
      refine ⟨fun h => .inr (.inl h), ?_⟩
      rintro (h | h | h)
      · exact absurd ((hnil h).mp hop₁) hop₂
      · exact h
      · exact absurd hop₁ h.attributes
  · by_cases hop₂ : op₂.attributes = []
    · rw [eq_comm, digest_eq_iff_readAsNode hfree h₂ h₁ hop₂ hop₁]
      refine ⟨fun h => .inr (.inr h), ?_⟩
      rintro (h | h | h)
      · exact absurd ((hnil h).mpr hop₂) hop₁
      · exact absurd h.bare hop₁
      · exact h
    · refine ⟨fun h => .inl ?_, ?_⟩
      · exact sameContent_of_digest hfree h₁ h₂ hfit (iff_of_false hop₁ hop₂) h
      · rintro (h | h | h)
        · exact hsame h
        · exact absurd h.bare hop₁
        · exact absurd h.bare hop₂

end Content

/-- **Content addressing is exact.**  Two operations that can be encoded have the same bytes and the
same content hash exactly when they have the same content.  Where both have attributes or both have
none, they have the same digest and the same digest to sign exactly then; in general they have these
also if one without attributes can be read as the node of the other.  Here SHA-256 has no collision
among the messages hashed for the two envelopes, and Blake3 none between their bytes. -/
theorem encode_eq_iff {op₁ op₂ : Op} {e₁ e₂ : Envelope} (h₁ : toEnvelope host op₁ = .ok e₁)
    (h₂ : toEnvelope host op₂ = .ok e₂) (hfit : e₁.Fits host)
    (hfree : CollisionFree (opImages host op₁ ++ opImages host op₂)) :
    (encode host op₁ = encode host op₂ ↔ SameContent host op₁ op₂) ∧
      (∀ blake3 : Bytes → Hash32, Set.InjOn blake3 {e₁.toCborData host, e₂.toCborData host} →
        (contentHash host blake3 op₁ = contentHash host blake3 op₂ ↔
          SameContent host op₁ op₂)) ∧
      ((op₁.attributes = [] ↔ op₂.attributes = []) →
        (e₁.digest host = e₂.digest host ↔ SameContent host op₁ op₂) ∧
        (signedDigest host op₁ = signedDigest host op₂ ↔ SameContent host op₁ op₂)) ∧
      (e₁.digest host = e₂.digest host ↔
        SameContent host op₁ op₂ ∨ ReadAsNode host op₁ op₂ ∨ ReadAsNode host op₂ op₁) ∧
      (signedDigest host op₁ = signedDigest host op₂ ↔
        SameContent host op₁ op₂ ∨ ReadAsNode host op₁ op₂ ∨ ReadAsNode host op₂ op₁) := by
  have hencode₁ := encode_of_toEnvelope h₁
  have hencode₂ := encode_of_toEnvelope h₂
  have hhash₁ := contentHash_of_toEnvelope h₁
  have hhash₂ := contentHash_of_toEnvelope h₂
  have hsigned₁ := signedDigest_of_toEnvelope h₁
  have hsigned₂ := signedDigest_of_toEnvelope h₂
  obtain ⟨-, rfl⟩ := toEnvelope_eq_ok.mp h₁
  obtain ⟨-, rfl⟩ := toEnvelope_eq_ok.mp h₂
  have hl₁ : ∀ b ∈ opImages host op₁, b ∈ opImages host op₁ ++ opImages host op₂ :=
    fun b hb => List.mem_append_left _ hb
  have hl₂ : ∀ b ∈ opImages host op₂, b ∈ opImages host op₁ ++ opImages host op₂ :=
    fun b hb => List.mem_append_right _ hb
  have hdata : (opEnvelope host op₁).toCborData host = (opEnvelope host op₂).toCborData host ↔
      SameContent host op₁ op₂ := by
    rw [Envelope.toCborData_eq_iff hfit]
    refine ⟨fun h => ?_, SameContent.normal_eq hfree hl₁ hl₂⟩
    have hdigest := congrArg (digest host) h
    rw [digest_normal, digest_normal] at hdigest
    -- what is written shows whether there are attributes
    have hnil : op₁.attributes = [] ↔ op₂.attributes = [] := by
      rw [opEnvelope_eq, opEnvelope_eq] at h
      split_ifs at h with ha hb hb
      · exact iff_of_true ha hb
      · cases h
      · cases h
      · exact iff_of_false ha hb
    exact sameContent_of_digest hfree hl₁ hl₂ hfit hnil hdigest
  have hdigest := digest_eq_iff hfree hl₁ hl₂ hfit
  -- what is signed is the digest of the wrapped envelope
  have hsigned : signedDigest host op₁ = signedDigest host op₂ ↔
      (opEnvelope host op₁).digest host = (opEnvelope host op₂).digest host := by
    rw [hsigned₁, hsigned₂, Except.ok.injEq]
    constructor
    · exact wrapped_part hfree (covered_wrapped hl₁) (covered_wrapped hl₂)
    · intro h
      change sha256 (digestsData [_]) = sha256 (digestsData [_])
      rw [h]
  have hapart : (op₁.attributes = [] ↔ op₂.attributes = []) →
      ((opEnvelope host op₁).digest host = (opEnvelope host op₂).digest host ↔
        SameContent host op₁ op₂) := by
    intro hnil
    rw [hdigest]
    refine ⟨?_, .inl⟩
    rintro (h | h | h)
    · exact h
    · exact absurd (hnil.mp h.bare) h.attributes
    · exact absurd (hnil.mpr h.bare) h.attributes
  refine ⟨?_, fun blake3 hinj => ?_, fun hnil => ⟨hapart hnil, hsigned.trans (hapart hnil)⟩,
    hdigest, hsigned.trans hdigest⟩
  · rw [hencode₁, hencode₂, Except.ok.injEq, hdata]
  · rw [hhash₁ blake3, hhash₂ blake3, Except.ok.injEq, ← hdata]
    exact hinj.eq_iff (by simp) (by simp)

/-- A dependency is not a negative acknowledgement: not in the bytes, not in the digest, and not in
what is signed. -/
theorem encode_eq_iff_sample :
    let other := { sampleOp with deps := [], nacks := sampleOp.deps }
    encode Host.plain sampleOp ≠ encode Host.plain other ∧
      (opEnvelope Host.plain sampleOp).digest Host.plain ≠
        (opEnvelope Host.plain other).digest Host.plain ∧
      signedDigest Host.plain sampleOp ≠ signedDigest Host.plain other := by
  intro other
  have hvalid : Op.Valid Host.plain other :=
    { kind := by decide, body := fun b hb => by cases hb }
  have hfree : CollisionFree (opImages Host.plain sampleOp ++ opImages Host.plain other) := by
    refine collisionFree_of_nat ?_
    simp only [opImages, show images Host.plain = imagesN Host.plain from funext images_eq_nat]
    decide +kernel
  have hfit : (opEnvelope Host.plain sampleOp).Fits Host.plain := by
    change (Envelope.toCborData Host.plain _).length < 2 ^ 64
    decide +kernel
  have hne : ¬ SameContent Host.plain sampleOp other := by
    intro h
    have hdep := (h.deps _).mp (List.mem_cons_self (l := []))
    exact absurd hdep List.not_mem_nil
  -- both have an attribute
  have hnil : sampleOp.attributes = [] ↔ other.attributes = [] :=
    iff_of_false (by decide) (by decide)
  obtain ⟨hbytes, -, hboth, -⟩ := encode_eq_iff (toEnvelope_eq_ok.mpr ⟨sampleOp_valid, rfl⟩)
    (toEnvelope_eq_ok.mpr ⟨hvalid, rfl⟩) hfit hfree
  obtain ⟨hdigest, hsigned⟩ := hboth hnil
  exact ⟨mt hbytes.mp hne, mt hdigest.mp hne, mt hsigned.mp hne⟩

end Identikey.Log
