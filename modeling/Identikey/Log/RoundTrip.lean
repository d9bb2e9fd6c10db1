/-
Decoding undoes encoding.

A signed operation comes back with its links in order and without repetitions, and its
signatures as a set, as long as their assertions are told apart by their digests: of two
assertions with the same digest an envelope keeps one.  What is written are texts in
normalisation form C, so that the kind of the operation comes back in that form.

The verdict on the envelope in memory needs neither bytes nor texts: it is the verdict on
the operation.
-/
import Identikey.Gordian.Record
import Identikey.Log.ContentAddress
import Identikey.Log.Elision

namespace Identikey.Log

open Lib Lib.Fallible Auth Dcbor Gordian Envelope

variable {host : Host} {scheme : SignatureScheme} {signed : SignedOp scheme}

/-! ### The envelope in memory -/

/-- The envelope that a signed operation is encoded to: wrapped only if there is a signature. -/
def writtenEnvelope (host : Host) (signed : SignedOp scheme) : Envelope :=
  if signed.signatures = [] then opEnvelope host signed.op else signedEnvelope host signed

lemma toSignedEnvelope_eq {e : Envelope} :
    toSignedEnvelope host signed = .ok e ↔
      signed.op.Valid host ∧ e = writtenEnvelope host signed := by
  unfold writtenEnvelope
  split_ifs with hnil
  · rw [toSignedEnvelope_unsigned hnil, toEnvelope_eq_ok]
  · exact toSignedEnvelope_eq_ok hnil

/-- Inside is the operation, outside are the signatures. -/
lemma unwrapOp_written : unwrapOp (writtenEnvelope host signed) =
    (opEnvelope host signed.op, sorted host (signed.signatures.map signatureAssertion)) := by
  unfold writtenEnvelope
  split_ifs with hnil
  · have hleaf : (opEnvelope host signed.op).subject = leaf (.map (coreEntries signed.op)) :=
      subject_addAll ⟨rfl, rfl⟩ _
    rw [unwrapOp, tryUnwrap, hleaf, hnil]
    rfl
  · have hne : ¬ signed.signatures.map signatureAssertion = [] := by
      rwa [List.map_eq_nil_iff]
    rw [signedEnvelope, addAll_eq ⟨rfl, rfl⟩, if_neg hne]
    rfl

/-- What the decoder reads of the envelope in memory. -/
lemma fromEnvelope_written {as : List Attribute} {ss : List scheme.Signature}
    (hvalid : signed.op.Valid host)
    (has : sorted host (signed.op.attributes.map Attribute.assertion) =
      as.map Attribute.assertion)
    (hss : sorted host (signed.signatures.map signatureAssertion) = ss.map signatureAssertion) :
    fromEnvelope host scheme (writtenEnvelope host signed) =
      .ok { op := (signed.op.core.applyAll as).sortLinks, signatures := ss, elided := 0 } := by
  have hcore : coreOf (opEnvelope host signed.op) = .ok (coreEntries signed.op) :=
    coreOf_eq_ok.mpr (subject_addAll ⟨rfl, rfl⟩ _)
  have hinside : (opEnvelope host signed.op).assertions = as.map Attribute.assertion := by
    rw [opEnvelope, assertions_addAll ⟨rfl, rfl⟩, has]
  refine fromEnvelope_eq_ok.mpr ⟨coreEntries signed.op, signed.op.core, as.map some, ss.map some,
    ?_, readCore_coreEntries hvalid, ?_, ?_, ?_⟩
  · rw [unwrapOp_written]
    exact hcore
  · rw [unwrapOp_written, hinside, List.forall₂_map_left_iff, List.forall₂_map_right_iff]
    exact List.forall₂_same.mpr fun a _ => readAttribute_assertion a
  · rw [unwrapOp_written, hss, List.forall₂_map_left_iff, List.forall₂_map_right_iff]
    exact List.forall₂_same.mpr fun s _ => readSignature_assertion s
  · have hnone : ∀ {β : Type} [DecidableEq β] (bs : List β), (bs.map some).count none = 0 := by
      intro β _ bs
      rw [List.count_eq_zero]
      simp
    rw [reduceOption_map_some, reduceOption_map_some, hnone, hnone]

/-- The operation with its links in order and without repetitions. -/
def Op.linkSets (op : Op) : Op :=
  { op with deps := sortOn Subtype.val op.deps.dedup, nacks := sortOn Subtype.val op.nacks.dedup }

/-- All attributes, in any order and each of them once, give the operation. -/
lemma applyAll_linkSets {op : Op} {as : List Attribute} (hnodup : as.Nodup)
    (has : ∀ a, a ∈ as ↔ a ∈ op.attributes) :
    (op.core.applyAll as).sortLinks = op.linkSets := by
  have hnone : op.withhold Host.plain ∅ = op.linkSets := by
    cases htarget : op.targetFp <;> cases htime : op.timestamp <;>
      simp [Op.withhold, Op.linkSets, gone, htarget, htime, Option.filter]
  have hall : (as.filter fun a => !gone Host.plain ∅ a.assertion) = as :=
    List.filter_eq_self.mpr fun a _ => by simp [gone]
  rw [← hnone, ← @applyAll_kept Host.plain op ∅ as hnodup has, hall]

/-- The assertions inside and outside are told apart by their digests. -/
structure ToldApart (host : Host) (signed : SignedOp scheme) : Prop where
  attributes : ∀ a ∈ signed.op.attributes, ∀ b ∈ signed.op.attributes,
    a.assertion.digest host = b.assertion.digest host → a = b
  signatures : ∀ s ∈ signed.signatures, ∀ s' ∈ signed.signatures,
    (signatureAssertion s).digest host = (signatureAssertion s').digest host → s = s'

/-- Without a collision they are. -/
lemma toldApart_of_collisionFree (hfree : CollisionFree (signedImages host signed)) :
    ToldApart host signed where
  attributes _ ha _ hb h :=
    attribute_digest_inj hfree (covered_attribute ha) (covered_attribute hb) h
  signatures _ hs _ hs' h :=
    signature_digest_inj hfree (covered_signature hs) (covered_signature hs') h

/-! ### The two verdicts -/

/-- A signature that does not verify is no absence of signatures. -/
lemma verifySignatures_ne_unsigned {sigs : List scheme.Signature} {digest : Digest32}
    {actor : Hash32} : verifySignatures scheme sigs digest actor none ≠ .error .unsigned := by
  have hone : ∀ sig, verifySignature scheme digest actor none sig ≠ .error .unsigned := by
    intro sig
    unfold verifySignature
    cases scheme.mldsa sig <;> simp [throw, throwThe, MonadExceptOf.throw]
  induction sigs with
  | nil => exact fun h => by cases h
  | cons sig sigs ih =>
    intro h
    rw [verifySignatures, bind_eq_error] at h
    rcases h with h | ⟨ok, -, h⟩
    · exact hone sig h
    · cases ok with
      | true => exact ih h
      | false => cases h

lemma verify_eq (hvalid : signed.op.Valid host) : verify host signed =
    if signed.signatures = [] then .error .unsigned
    else verifySignatures scheme signed.signatures
      ((opEnvelope host signed.op).wrap.digest host) signed.op.actor none := by
  have hdigest : signedDigest host signed.op =
      .ok ((opEnvelope host signed.op).wrap.digest host) :=
    signedDigest_of_toEnvelope (toEnvelope_eq_ok.mpr ⟨hvalid, rfl⟩)
  unfold verify verifyWithPqKey
  split_ifs
  · rfl
  · rw [hdigest]
    rfl

/-- **The two verifiers agree**: on every signed operation that can be encoded, `verify` gives the
verdict that `verify_envelope` gives on its envelope under its actor, and one reports that there is
no signature when the other does. -/
theorem verify_iff_verifyEnvelope {e : Envelope} (he : toSignedEnvelope host signed = .ok e)
    (hfree : CollisionFree (signedImages host signed)) :
    (verify host signed = .ok () ↔
      verifyEnvelope scheme host e signed.op.actor = .ok ()) ∧
    (verify host signed = .error .unsigned ↔
      verifyEnvelope scheme host e signed.op.actor = .error .unsigned) := by
  obtain ⟨hvalid, rfl⟩ := toSignedEnvelope_eq.mp he
  have hapart := toldApart_of_collisionFree hfree
  obtain ⟨as, has, -, -⟩ := sorted_map hapart.attributes
  obtain ⟨ss, hss, -, hmem⟩ := sorted_map hapart.signatures
  have hread := fromEnvelope_written hvalid has hss
  have hnil : ss = [] ↔ signed.signatures = [] := by
    simp only [List.eq_nil_iff_forall_not_mem, hmem]
  rw [verify_eq hvalid, verifyEnvelope_of_fromEnvelope hread]
  simp only [hnil]
  split_ifs with hsigned
  · exact ⟨Iff.rfl, Iff.rfl⟩
  · -- the digest under the signatures is that of the wrapped operation
    have hsubject : (writtenEnvelope host signed).subject = (opEnvelope host signed.op).wrap := by
      rw [writtenEnvelope, if_neg hsigned]
      exact subject_addAll ⟨rfl, rfl⟩ _
    rw [hsubject]
    constructor
    · rw [verifySignatures_eq_ok, verifySignatures_eq_ok]
      simp only [hmem]
    · exact iff_of_false verifySignatures_ne_unsigned verifySignatures_ne_unsigned

/-- The two verifiers accept the sample operation, which its actor signed. -/
theorem verify_iff_verifyEnvelope_sample :
    verify Host.plain sampleSigned = .ok () ∧
      verifyEnvelope sampleScheme Host.plain (writtenEnvelope Host.plain sampleSigned)
        sampleSigned.op.actor = .ok () := by
  have hverify : verify Host.plain sampleSigned = .ok () := by
    have hop : (opEnvelope Host.plain sampleSigned.op).wrap.digest Host.plain = sampleDigest :=
      sampleDigest_eq
    have hsigned : sampleSigned.signatures ≠ [] := List.cons_ne_nil _ _
    rw [verify_eq sampleOp_valid, if_neg hsigned, verifySignatures_eq_ok, hop]
    exact verifies_sampleSigned
  refine ⟨hverify, ?_⟩
  exact (verify_iff_verifyEnvelope (toSignedEnvelope_eq.mpr ⟨sampleOp_valid, rfl⟩)
    collisionFree_sampleSigned).1.mp hverify

/-! ### What is written -/

/-- The operation as it is written. -/
def Op.written (host : Host) (op : Op) : Op := { op with kind := host.nfc op.kind }

lemma Op.Valid.written {op : Op} (h : op.Valid host) : (op.written host).Valid host :=
  ⟨host.nfc_ne_empty _ h.kind, h.body⟩

/-- The core map holds no text in another form but the kind. -/
lemma normal_coreEntries (op : Op) : (CBOR.map (coreEntries op)).normal host =
    .map (coreEntries (op.written host)) := by
  have hcanonical : (CBOR.map (coreEntries (op.written host))).Canonical host := by
    have hentries := @coreEntries_canonical host (op.written host) (host.nfc_nfc _)
    exact .map (coreEntries_keyed _) (fun e he => (hentries e he).1) fun e he => (hentries e he).2
  rw [← hcanonical.normal_eq, coreNormal_eq_iff]
  exact ⟨(host.nfc_nfc _).symm, rfl, rfl, rfl, rfl⟩

lemma normal_attribute (a : Attribute) : a.assertion.normal host = a.assertion := by
  have hlabel := @nfc_of_ascii host _ (labels_ascii _ (label_mem_labels a))
  rw [Attribute.assertion, ofText, normal, normal, normal, CBOR.normal, hlabel]
  cases a <;> rfl

lemma normal_opEnvelope (op : Op) :
    (opEnvelope host op).normal host = opEnvelope host (op.written host) := by
  have hmap : (op.attributes.map Attribute.assertion).map (normal host) =
      op.attributes.map Attribute.assertion := by
    rw [List.map_map]
    exact List.map_congr_left fun a _ => normal_attribute a
  rw [opEnvelope_eq, opEnvelope_eq]
  change _ = if op.attributes = [] then _ else node _ (sorted host (op.attributes.map _))
  split_ifs
  · rw [normal, normal_coreEntries]
  · rw [normal, normal, normal_coreEntries, normals_eq, map_normal_sorted, hmap]

/-- Signatures are written in canonical form. -/
def CanonicalSignatures (host : Host) (signed : SignedOp scheme) : Prop :=
  ∀ sig ∈ signed.signatures, (scheme.toCbor sig).Canonical host

lemma normal_written (hsigs : CanonicalSignatures host signed) :
    (writtenEnvelope host signed).normal host =
      writtenEnvelope host { signed with op := signed.op.written host } := by
  have hmap : (signed.signatures.map signatureAssertion).map (normal host) =
      signed.signatures.map signatureAssertion := by
    rw [List.map_map]
    refine List.map_congr_left fun sig hsig => ?_
    rw [Function.comp_apply, signatureAssertion, normal, normal, normal,
      (hsigs sig hsig).normal_eq]
  unfold writtenEnvelope
  split_ifs with hnil
  · exact normal_opEnvelope _
  · have hne : ¬ signed.signatures.map signatureAssertion = [] := by
      rwa [List.map_eq_nil_iff]
    rw [signedEnvelope, signedEnvelope, addAll_eq ⟨rfl, rfl⟩, addAll_eq ⟨rfl, rfl⟩, if_neg hne,
      if_neg hne, normal, normal, normal_opEnvelope, normals_eq, map_normal_sorted, hmap]

lemma written_wellFormed (hsigs : CanonicalSignatures host signed) :
    ((writtenEnvelope host signed).normal host).WellFormed host := by
  have hop : (opEnvelope host (signed.op.written host)).WellFormed host :=
    opEnvelope_wellFormed (host.nfc_nfc _)
  rw [normal_written hsigs]
  unfold writtenEnvelope
  split_ifs
  · exact hop
  · refine .addAll (.wrapped hop) ⟨rfl, rfl⟩ ?_ ?_
    · exact List.forall_mem_map.mpr fun sig hsig =>
        .assertion (.knownValue _) (.leaf (hsigs sig hsig))
    · exact List.forall_mem_map.mpr fun _ _ => trivial

/-- What comes back is what the decoder reads of the operation as it is written. -/
lemma decode_written (reader : EnvelopeReader host) (hsigs : CanonicalSignatures host signed)
    (hfit : (writtenEnvelope host signed).Fits host) :
    decode scheme reader ((writtenEnvelope host signed).toCborData host) =
      fromEnvelope host scheme
        (writtenEnvelope host { signed with op := signed.op.written host }) := by
  rw [decode, reader.tryFromCborData_toCborData (written_wellFormed hsigs) hfit,
    normal_written hsigs]

/-! ### The round trip -/

lemma mem_attributes_linkSets {op : Op} {a : Attribute} :
    a ∈ op.linkSets.attributes ↔ a ∈ op.attributes := by
  cases a <;> simp [Op.linkSets]

/-- What the decoded operation has was read. -/
lemma mem_of_mem_decoded {op : Op} {as : List Attribute} {a : Attribute}
    (h : a ∈ (op.core.applyAll as).sortLinks.attributes) : a ∈ as := by
  rw [applyAll_eq] at h
  cases a with
  | deps d => simpa [Op.sortLinks, Op.core] using h
  | nacks n => simpa [Op.sortLinks, Op.core] using h
  | targetFp fp =>
    rw [targetFp_mem_attributes] at h
    have hlast : (as.filterMap Attribute.target?).getLast? = some fp := by
      simpa [Op.sortLinks, Op.core] using h
    simpa using List.mem_of_getLast? hlast
  | timestamp ts =>
    rw [timestamp_mem_attributes] at h
    have hlast : (as.filterMap Attribute.time?).getLast? = some ts := by
      simpa [Op.sortLinks, Op.core] using h
    simpa using List.mem_of_getLast? hlast

/-- Sorted assertions have one digest only if they are one. -/
lemma eq_of_sorted {β : Type} {f : β → Envelope} {bs l : List β}
    (hl : sorted host (bs.map f) = l.map f) (hf : Function.Injective f) {b b' : β} (hb : b ∈ l)
    (hb' : b' ∈ l) (h : (f b).digest host = (f b').digest host) : b = b' := by
  have hkeyed : Keyed (digestKey host) (l.map f) := hl ▸ sorted_keyed _
  exact hf (hkeyed.inj (List.mem_map_of_mem hb) (List.mem_map_of_mem hb')
    (congrArg Subtype.val h))

lemma assertion_injective : Function.Injective Attribute.assertion := by
  intro a b h
  have hread := readAttribute_assertion a
  rw [h, readAttribute_assertion] at hread
  exact (Option.some.inj (Except.ok.inj hread)).symm

lemma signatureAssertion_injective :
    Function.Injective (signatureAssertion : scheme.Signature → Envelope) := by
  intro a b h
  have hread := readSignature_assertion a
  rw [h, readSignature_assertion] at hread
  exact (Option.some.inj (Except.ok.inj hread)).symm

/-- What was decoded is the signed operation: nothing was elided, the signatures are the same set,
and the operation has its links in order and without repetitions. -/
structure SameSigned (signed s : SignedOp scheme) : Prop where
  elided : s.elided = 0
  signatures : ∀ sig, sig ∈ s.signatures ↔ sig ∈ signed.signatures
  op : s.op = signed.op.linkSets

/-- The kind comes back as it is written. -/
lemma kind_of_decode {reader : EnvelopeReader host} (hsigs : CanonicalSignatures host signed)
    (hfit : (writtenEnvelope host signed).Fits host) (hvalid : signed.op.Valid host)
    {s : SignedOp scheme}
    (h : decode scheme reader ((writtenEnvelope host signed).toCborData host) = .ok s) :
    s.op.kind = host.nfc signed.op.kind := by
  obtain ⟨as, has, -, -⟩ := @sorted_map_subset host _ Attribute.assertion signed.op.attributes
  obtain ⟨ss, hss, -, -⟩ := @sorted_map_subset host _ signatureAssertion signed.signatures
  rw [decode_written reader hsigs hfit, @fromEnvelope_written host scheme
    { signed with op := signed.op.written host } as ss hvalid.written has hss, applyAll_eq] at h
  rw [← Except.ok.inj h]
  rfl

/-- **A signed operation survives the wire if and only if its kind is in normalisation form C and
its assertions are told apart by their digests.**  Every other field may have any value, and there
may be any number of signatures. -/
theorem decode_encodeSigned_iff (reader : EnvelopeReader host) {inner : Envelope}
    (hinner : toEnvelope host signed.op = .ok inner) (hsigs : CanonicalSignatures host signed) :
    ∃ bytes, encodeSigned host signed = .ok bytes ∧ (bytes.length < 2 ^ 64 →
      ((∃ s, decode scheme reader bytes = .ok s ∧ SameSigned signed s) ↔
        host.nfc signed.op.kind = signed.op.kind ∧ ToldApart host signed)) := by
  obtain ⟨hvalid, -⟩ := toEnvelope_eq_ok.mp hinner
  have hencode :
      encodeSigned host signed = .ok ((writtenEnvelope host signed).toCborData host) := by
    rw [encodeSigned, toSignedEnvelope_eq.mpr ⟨hvalid, rfl⟩]
    rfl
  refine ⟨_, hencode, fun hfit => ?_⟩
  constructor
  · rintro ⟨s, hs, helided, hsignatures, hop⟩
    have hkind := kind_of_decode hsigs hfit hvalid hs
    obtain ⟨as, has, -, -⟩ := @sorted_map_subset host _ Attribute.assertion signed.op.attributes
    obtain ⟨ss, hss, -, -⟩ := @sorted_map_subset host _ signatureAssertion signed.signatures
    rw [decode_written reader hsigs hfit, @fromEnvelope_written host scheme
      { signed with op := signed.op.written host } as ss hvalid.written has hss] at hs
    obtain rfl := Except.ok.inj hs
    have hdecoded : ((signed.op.written host).core.applyAll as).sortLinks = signed.op.linkSets :=
      hop
    -- everything came back, so that nothing was lost to another of its digest
    have hall : ∀ a ∈ signed.op.attributes, a ∈ as := by
      intro a ha
      refine @mem_of_mem_decoded (signed.op.written host) as a ?_
      rw [hdecoded]
      exact mem_attributes_linkSets.mpr ha
    refine ⟨?_, fun a ha b hb h => ?_, fun sig hsig sig' hsig' h => ?_⟩
    · have hsame : host.nfc signed.op.kind = signed.op.linkSets.kind := by
        rw [← hkind, ← hdecoded]
      exact hsame
    · exact eq_of_sorted has assertion_injective (hall a ha) (hall b hb) h
    · exact eq_of_sorted hss signatureAssertion_injective ((hsignatures sig).mpr hsig)
        ((hsignatures sig').mpr hsig') h
  · rintro ⟨hkind, hapart⟩
    obtain ⟨as, has, hnodup, hmem⟩ := sorted_map hapart.attributes
    obtain ⟨ss, hss, -, hmem'⟩ := sorted_map hapart.signatures
    have hwritten : signed.op.written host = signed.op := by
      rw [Op.written, hkind]
    have hread := fromEnvelope_written hvalid has hss
    rw [applyAll_linkSets hnodup hmem] at hread
    refine ⟨{ op := signed.op.linkSets, signatures := ss, elided := 0 }, ?_, rfl, hmem', rfl⟩
    rw [decode_written reader hsigs hfit, hwritten]
    exact hread

lemma sampleSigned_canonical : CanonicalSignatures Host.plain sampleSigned := by
  refine fun sig _ => .tagged (.array fun v hv => ?_)
  rcases List.mem_pair.mp hv with rfl | rfl
  · exact .unsigned _
  · exact .byteString _

lemma sampleSigned_fits : (writtenEnvelope Host.plain sampleSigned).Fits Host.plain := by
  change (Envelope.toCborData Host.plain _).length < 2 ^ 64
  decide +kernel

/-- The sample operation survives with its signature. -/
theorem decode_encodeSigned_sample : ∃ bytes s,
    encodeSigned Host.plain sampleSigned = .ok bytes ∧
      decode sampleScheme (EnvelopeReader.canonical Host.plain) bytes = .ok s ∧
      SameSigned sampleSigned s := by
  obtain ⟨bytes, hbytes, hiff⟩ := decode_encodeSigned_iff (EnvelopeReader.canonical Host.plain)
    (toEnvelope_eq_ok.mpr ⟨sampleOp_valid, rfl⟩) sampleSigned_canonical
  have hlen : bytes.length < 2 ^ 64 := by
    have hwritten : bytes = (writtenEnvelope Host.plain sampleSigned).toCborData Host.plain := by
      rw [encodeSigned, toSignedEnvelope_eq.mpr ⟨sampleOp_valid, rfl⟩] at hbytes
      exact (Except.ok.inj hbytes).symm
    rw [hwritten]
    exact sampleSigned_fits
  have hapart : ToldApart Host.plain sampleSigned :=
    ⟨fun a ha b hb _ => (List.mem_singleton.mp ha).trans (List.mem_singleton.mp hb).symm,
      fun s hs s' hs' _ => (List.mem_singleton.mp hs).trans (List.mem_singleton.mp hs').symm⟩
  obtain ⟨s, hs, hsame⟩ := (hiff hlen).mpr ⟨rfl, hapart⟩
  exact ⟨bytes, s, hbytes, hs, hsame⟩

/-- An operation whose kind has an accent of its own. -/
def accentedSigned : SignedOp sampleScheme :=
  { op := { sampleOp with kind := "e\u0301", deps := [] }, signatures := [], elided := 0 }

/-- A kind with an accent of its own comes back composed. -/
theorem decode_encodeSigned_accented :
    ¬ ∀ (host : Host) (scheme : SignatureScheme) (reader : EnvelopeReader host)
      (signed : SignedOp scheme) (inner : Envelope), toEnvelope host signed.op = .ok inner →
      CanonicalSignatures host signed → ∃ bytes s, encodeSigned host signed = .ok bytes ∧
        decode scheme reader bytes = .ok s ∧ SameSigned signed s := by
  intro hall
  have hvalid : accentedSigned.op.Valid Host.composing :=
    ⟨by decide, fun b hb => by cases hb⟩
  have hsigs : CanonicalSignatures Host.composing accentedSigned :=
    fun sig hsig => absurd hsig List.not_mem_nil
  obtain ⟨bytes, s, hbytes, hs, hsame⟩ := hall _ _ (EnvelopeReader.canonical Host.composing) _ _
    (toEnvelope_eq_ok.mpr ⟨hvalid, rfl⟩) hsigs
  rw [encodeSigned, toSignedEnvelope_eq.mpr ⟨hvalid, rfl⟩] at hbytes
  obtain rfl := Except.ok.inj hbytes
  have hkind := kind_of_decode hsigs (by decide +kernel) hvalid hs
  rw [hsame.op] at hkind
  exact absurd hkind (by decide)

end Identikey.Log
