/-
Authors of operations (`identikey-log`, `sign.rs`).

An author signs an operation, and others may sign it as well.  The operation survives the wire
with all its signatures, and its content hash does not depend on them; but every signature is
checked against the actor, so that it is accepted only if all who signed have the actor's key
(`cosigned_accepted_iff`).
-/
import Identikey.Log.RoundTrip

namespace Identikey.Log

open Lib Lib.Fallible Auth Dcbor Gordian Envelope

/-- What `bc-components` signs with: Ed25519 keys of a seed, whose signatures verify. -/
structure Signing (scheme : SignatureScheme) where
  /-- `SigningPrivateKey::public_key`. -/
  publicKey : Hash32 → Hash32
  /-- `SigningPrivateKey::sign`. -/
  sign : Hash32 → Digest32 → Option scheme.Signature
  verifies : ∀ seed digest sig, sign seed digest = some sig →
    Verifies scheme (publicKey seed) digest sig

/-- `Author`. -/
structure Author where
  seed : Hash32
deriving DecidableEq, Repr

namespace Author

variable {scheme : SignatureScheme} (signing : Signing scheme) (host : Host)

/-- `Author::from_seed`. -/
def fromSeed (seed : Hash32) : Author := { seed }

/-- `Author::actor`. -/
def actor (author : Author) : Hash32 := signing.publicKey author.seed

/-- `Author::raw_sign`. -/
def rawSign (author : Author) (unsigned : Envelope) : Except LogError scheme.Signature :=
  okOr .envelope (signing.sign author.seed (unsigned.wrap.digest host))

/-- `Author::sign`. -/
def sign (author : Author) (op : Op) : Except LogError (SignedOp scheme) := do
  let signature ← author.rawSign signing host (← toEnvelope host op)
  return { op, signatures := [signature], elided := 0 }

/-- `Author::counter_sign`. -/
def counterSign (author : Author) (signed : SignedOp scheme) :
    Except LogError (SignedOp scheme) := do
  let signature ← author.rawSign signing host (← toEnvelope host signed.op)
  return { signed with signatures := signed.signatures ++ [signature] }

/-- An operation that one author signs and others after it. -/
def signAll (author : Author) (others : List Author) (op : Op) :
    Except LogError (SignedOp scheme) := do
  let signed ← author.sign signing host op
  others.foldlM (fun signed other => other.counterSign signing host signed) signed

/-! ### What is signed -/

section Facts

variable {signing host} {author : Author} {others : List Author} {op : Op}
  {signed signed' : SignedOp scheme}

/-- Each of the authors has signed the digest of the wrapped operation. -/
def SignedBy (signing : Signing scheme) (host : Host) (op : Op) (authors : List Author)
    (signatures : List scheme.Signature) : Prop :=
  List.Forall₂ (fun a sig => signing.sign a.seed ((opEnvelope host op).wrap.digest host) = some sig)
    authors signatures

/-- What is kept while one author after another signs. -/
structure Sound (signing : Signing scheme) (host : Host) (op : Op) (authors : List Author)
    (signed : SignedOp scheme) : Prop where
  valid : op.Valid host
  op_eq : signed.op = op
  elided : signed.elided = 0
  signatures : SignedBy signing host op authors signed.signatures

lemma rawSign_eq_ok {e : Envelope} {sig : scheme.Signature} :
    author.rawSign signing host e = .ok sig ↔
      signing.sign author.seed (e.wrap.digest host) = some sig := by
  rw [rawSign, okOr_eq_ok]

lemma sound_sign (h : author.sign signing host op = .ok signed) :
    Sound signing host op [author] signed := by
  simp only [sign, bind_eq_ok, pure_eq_ok, toEnvelope_eq_ok, rawSign_eq_ok] at h
  obtain ⟨_, ⟨hvalid, rfl⟩, sig, hsig, rfl⟩ := h
  exact ⟨hvalid, rfl, rfl, .cons hsig .nil⟩

/-- A further signature is appended to those that are there. -/
lemma Sound.counterSign {authors : List Author} (h : Sound signing host op authors signed)
    (hsign : author.counterSign signing host signed = .ok signed') :
    Sound signing host op (authors ++ [author]) signed' := by
  simp only [Author.counterSign, bind_eq_ok, pure_eq_ok, toEnvelope_eq_ok, rawSign_eq_ok] at hsign
  obtain ⟨_, ⟨-, rfl⟩, sig, hsig, rfl⟩ := hsign
  rw [h.op_eq] at hsig
  refine ⟨h.valid, h.op_eq, h.elided, ?_⟩
  exact List.rel_append h.signatures (.cons hsig .nil)

/-- All authors have signed, in their order. -/
lemma sound_signAll (h : author.signAll signing host others op = .ok signed) :
    Sound signing host op (author :: others) signed := by
  obtain ⟨first, hfirst, hrest⟩ := bind_eq_ok.mp h
  have hall : ∀ {others authors : List Author} {first : SignedOp scheme},
      Sound signing host op authors first →
      others.foldlM (fun signed other => other.counterSign signing host signed) first =
        .ok signed → Sound signing host op (authors ++ others) signed := by
    intro others
    induction others with
    | nil =>
      intro authors first hs hfold
      obtain rfl := pure_eq_ok.mp hfold
      rw [List.append_nil]
      exact hs
    | cons other others ih =>
      intro authors first hs hfold
      rw [List.foldlM_cons] at hfold
      obtain ⟨next, hnext, hfold⟩ := bind_eq_ok.mp hfold
      rw [List.append_cons]
      exact ih (hs.counterSign hnext) hfold
  exact hall (sound_sign hfirst) hrest

/-! ### What is accepted -/

/-- Sorting the links does not change the envelope. -/
lemma opEnvelope_linkSets (hapart : ∀ a ∈ op.attributes, ∀ b ∈ op.attributes,
      a.assertion.digest host = b.assertion.digest host → a = b) :
    opEnvelope host op.linkSets = opEnvelope host op := by
  obtain ⟨as, has, -, hmem⟩ := sorted_map hapart
  have hapart' : ∀ a ∈ op.linkSets.attributes, ∀ b ∈ op.linkSets.attributes,
      a.assertion.digest host = b.assertion.digest host → a = b := fun a ha b hb =>
    hapart a (mem_attributes_linkSets.mp ha) b (mem_attributes_linkSets.mp hb)
  obtain ⟨bs, hbs, -, hmem'⟩ := sorted_map hapart'
  have hsorted : sorted host (op.linkSets.attributes.map Attribute.assertion) =
      sorted host (op.attributes.map Attribute.assertion) := by
    refine Keyed.ext (sorted_keyed _) (sorted_keyed _) fun e => ?_
    rw [has, hbs, List.mem_map, List.mem_map]
    exact exists_congr fun a => and_congr_left fun _ => by
      rw [hmem, hmem', mem_attributes_linkSets]
  have hnil : op.linkSets.attributes = [] ↔ op.attributes = [] := by
    simp only [List.eq_nil_iff_forall_not_mem, mem_attributes_linkSets]
  rw [opEnvelope_eq, opEnvelope_eq, hsorted]
  exact if_congr hnil rfl rfl

/-- The content hash of what comes back is that of the operation. -/
lemma contentHash_linkSets (blake3 : Bytes → Hash32) (hvalid : op.Valid host)
    (hapart : ∀ a ∈ op.attributes, ∀ b ∈ op.attributes,
      a.assertion.digest host = b.assertion.digest host → a = b) :
    contentHash host blake3 op.linkSets =
        .ok (blake3 ((opEnvelope host op).toCborData host)) ∧
      contentHash host blake3 op = .ok (blake3 ((opEnvelope host op).toCborData host)) := by
  have hhash : ∀ {op : Op}, op.Valid host → contentHash host blake3 op =
      .ok (blake3 ((opEnvelope host op).toCborData host)) := by
    intro op hop
    rw [contentHash, encode, toEnvelope_eq_ok.mpr ⟨hop, rfl⟩]
    rfl
  have hlinks : op.linkSets.Valid host := ⟨hvalid.kind, hvalid.body⟩
  refine ⟨?_, hhash hvalid⟩
  rw [hhash hlinks, opEnvelope_linkSets hapart]

/-- All signatures verify exactly if all authors have the actor's key. -/
lemma SignedBy.verifies_iff {authors : List Author} {signatures : List scheme.Signature}
    (h : SignedBy signing host op authors signatures)
    (hexclusive : ∀ a ∈ authors, ∀ digest sig, signing.sign a.seed digest = some sig →
      scheme.actorVerify op.actor sig digest = true → a.actor signing = op.actor) :
    (∀ sig ∈ signatures, Verifies scheme op.actor ((opEnvelope host op).wrap.digest host) sig) ↔
      ∀ a ∈ authors, a.actor signing = op.actor := by
  induction h with
  | nil => simp
  | @cons a sig authors signatures hsig _ ih =>
    rw [List.forall_mem_cons, List.forall_mem_cons,
      ih fun a' ha' => hexclusive a' (List.mem_cons_of_mem a ha')]
    refine and_congr_left fun _ => ?_
    constructor
    · intro hverifies
      exact hexclusive a List.mem_cons_self _ sig hsig hverifies.2
    · intro hactor
      rw [← hactor]
      exact signing.verifies _ _ _ hsig

/-- What `decode_and_verify` makes of the bytes of a signed operation. -/
lemma decodeAndVerify_written (reader : EnvelopeReader host) (blake3 : Bytes → Hash32)
    (hvalid : signed.op.Valid host) (hne : signed.signatures ≠ [])
    (hkind : host.nfc signed.op.kind = signed.op.kind) (hapart : ToldApart host signed)
    (hsigs : CanonicalSignatures host signed) (hfit : (writtenEnvelope host signed).Fits host) :
    ∃ s, SameSigned signed s ∧
      decodeAndVerify scheme reader blake3 ((writtenEnvelope host signed).toCborData host) =
        (verifySignatures scheme s.signatures ((opEnvelope host signed.op).wrap.digest host)
          signed.op.actor none).map
          fun _ => (s, blake3 ((opEnvelope host signed.op).toCborData host)) := by
  obtain ⟨as, has, hnodup, hmem⟩ := sorted_map hapart.attributes
  obtain ⟨ss, hss, -, hmem'⟩ := sorted_map hapart.signatures
  have hread := fromEnvelope_written hvalid has hss
  rw [applyAll_linkSets hnodup hmem] at hread
  have hwritten : signed.op.written host = signed.op := by rw [Op.written, hkind]
  have hbytes : reader.tryFromCborData ((writtenEnvelope host signed).toCborData host) =
      some (writtenEnvelope host signed) := by
    rw [reader.tryFromCborData_toCborData (written_wellFormed hsigs) hfit, normal_written hsigs,
      hwritten]
  have hsubject : (writtenEnvelope host signed).subject = (opEnvelope host signed.op).wrap := by
    rw [writtenEnvelope, if_neg hne]
    exact subject_addAll ⟨rfl, rfl⟩ _
  have hne' : ss ≠ [] := by
    obtain ⟨sig, hsig⟩ := List.exists_mem_of_ne_nil _ hne
    exact List.ne_nil_of_mem ((hmem' sig).mpr hsig)
  refine ⟨{ op := signed.op.linkSets, signatures := ss, elided := 0 }, ⟨rfl, hmem', rfl⟩, ?_⟩
  rw [decodeAndVerify, hbytes]
  show (fromEnvelope host scheme (writtenEnvelope host signed) >>= _) = _
  rw [hread, ok_bind]
  show (verifyEnvelope scheme host (writtenEnvelope host signed) signed.op.actor >>= _) = _
  rw [verifyEnvelope_of_fromEnvelope hread, if_neg hne', hsubject]
  cases verifySignatures scheme ss ((opEnvelope host signed.op).wrap.digest host) signed.op.actor
    none with
  | error e => rfl
  | ok u =>
    show (contentHash host blake3 signed.op.linkSets >>= _) = _
    rw [(contentHash_linkSets blake3 hvalid hapart.attributes).1]
    rfl

/-- **An operation is accepted if and only if all who signed it are its actor.**  It is signed by
an author and by others after it, encoded, and decoded and verified.  What comes back has all
signatures, and its content hash is that of the operation, however many there are. -/
theorem cosigned_accepted_iff (reader : EnvelopeReader host) (blake3 : Bytes → Hash32)
    (hsign : author.signAll signing host others op = .ok signed)
    (hkind : host.nfc op.kind = op.kind) (hapart : ToldApart host signed)
    (hsigs : CanonicalSignatures host signed)
    (hexclusive : ∀ a ∈ author :: others, ∀ digest sig, signing.sign a.seed digest = some sig →
      scheme.actorVerify op.actor sig digest = true → a.actor signing = op.actor) :
    signed.op = op ∧ signed.signatures.length = others.length + 1 ∧
    ∃ bytes hash, encodeSigned host signed = .ok bytes ∧ contentHash host blake3 op = .ok hash ∧
      (bytes.length < 2 ^ 64 →
        ((∃ s h, decodeAndVerify scheme reader blake3 bytes = .ok (s, h)) ↔
          ∀ a ∈ author :: others, a.actor signing = op.actor) ∧
        ∀ s h, decodeAndVerify scheme reader blake3 bytes = .ok (s, h) →
          SameSigned signed s ∧ h = hash) := by
  have hs := sound_signAll hsign
  obtain rfl := hs.op_eq
  have hlen : (author :: others).length = signed.signatures.length := hs.signatures.length_eq
  have hne : signed.signatures ≠ [] := by
    intro hnil
    rw [hnil] at hlen
    cases hlen
  refine ⟨rfl, hlen.symm, (writtenEnvelope host signed).toCborData host,
    blake3 ((opEnvelope host signed.op).toCborData host), ?_,
    (contentHash_linkSets blake3 hs.valid hapart.attributes).2, fun hfit => ?_⟩
  · rw [encodeSigned, toSignedEnvelope_eq.mpr ⟨hs.valid, rfl⟩]
    rfl
  · obtain ⟨s, hsame, hdecode⟩ :=
      decodeAndVerify_written reader blake3 hs.valid hne hkind hapart hsigs hfit
    rw [hdecode]
    have hverdict : verifySignatures scheme s.signatures
        ((opEnvelope host signed.op).wrap.digest host) signed.op.actor none = .ok () ↔
          ∀ a ∈ author :: others, a.actor signing = signed.op.actor := by
      rw [verifySignatures_eq_ok, ← hs.signatures.verifies_iff hexclusive]
      simp only [hsame.signatures]
    cases hv : verifySignatures scheme s.signatures
      ((opEnvelope host signed.op).wrap.digest host) signed.op.actor none with
    | error e =>
      rw [hv] at hverdict
      refine ⟨?_, fun s' h hok => by cases hok⟩
      rw [← hverdict]
      constructor
      · rintro ⟨_, _, hok⟩
        cases hok
      · intro hok
        cases hok
    | ok u =>
      refine ⟨⟨fun _ => hverdict.mp hv, fun _ => ⟨s, _, rfl⟩⟩, fun s' h hok => ?_⟩
      obtain ⟨rfl, rfl⟩ := Prod.mk.inj (Except.ok.inj hok)
      exact ⟨hsame, rfl⟩

end Facts

/-- Keys that are their own seeds. -/
def openSigning : Signing sampleScheme where
  publicKey seed := seed
  sign seed digest :=
    some ⟨seed.val ++ digest.val, by rw [List.length_append, seed.2, digest.2]⟩
  verifies seed digest sig h := by
    obtain rfl := Option.some.inj h
    exact ⟨rfl, decide_eq_true rfl⟩

/-- The actor of the sample operation. -/
def sampleAuthor : Author := fromSeed sampleOp.actor

/-- The sample operation, signed twice by its actor. -/
def twiceSigned : SignedOp sampleScheme :=
  let digest := (opEnvelope Host.plain sampleOp).wrap.digest Host.plain
  let sig : sampleScheme.Signature := ⟨sampleOp.actor.val ++ digest.val, by
    rw [List.length_append, sampleOp.actor.2, digest.2]⟩
  { op := sampleOp, signatures := [sig, sig], elided := 0 }

lemma twiceSigned_toldApart : ToldApart Host.plain twiceSigned where
  attributes a ha b hb _ := (List.mem_singleton.mp ha).trans (List.mem_singleton.mp hb).symm
  signatures s hs s' hs' _ := by
    have hone : ∀ s ∈ twiceSigned.signatures,
        s = twiceSigned.signatures.head (List.cons_ne_nil _ _) := by
      intro s hs
      rcases List.mem_pair.mp hs with rfl | rfl <;> rfl
    exact (hone s hs).trans (hone s' hs').symm

lemma twiceSigned_canonical : CanonicalSignatures Host.plain twiceSigned := by
  refine fun sig _ => .tagged (.array fun v hv => ?_)
  rcases List.mem_pair.mp hv with rfl | rfl
  · exact .unsigned _
  · exact .byteString _

lemma fits_twiceSigned : (writtenEnvelope Host.plain twiceSigned).Fits Host.plain := by
  have hsig : ∀ sig : sampleScheme.Signature,
      (signatureAssertion sig).width Host.plain ≤ 120 := by
    rintro ⟨sig, hlen⟩
    have hleaf : (Envelope.leaf (sampleScheme.toCbor ⟨sig, hlen⟩)).width Host.plain = 73 := by
      show ((CBOR.tagged TAG_LEAF (.tagged TAG_SIGNATURE
        (.array [.unsigned 2, .byteString sig]))).toCborData Host.plain).length = 73
      simp only [CBOR.toCborData, itemsData, List.length_append, hlen]
      rfl
    have hparts := @width_assertion Host.plain (.knownValue SIGNED)
      (.leaf (sampleScheme.toCbor ⟨sig, hlen⟩))
    have hsigned : (Envelope.knownValue SIGNED).width Host.plain = 1 := by decide
    exact hparts.trans (by omega)
  have hop : (opEnvelope Host.plain sampleOp).wrap.width Host.plain ≤ 1000 := by decide +kernel
  have hadd := @width_addAll Host.plain (twiceSigned.signatures.map signatureAssertion) 120
    (List.forall_mem_map.mpr fun sig _ => hsig sig) (opEnvelope Host.plain sampleOp).wrap
  have hcount : (twiceSigned.signatures.map signatureAssertion).length = 2 := rfl
  have hsigned : writtenEnvelope Host.plain twiceSigned =
      (opEnvelope Host.plain sampleOp).wrap.addAll Host.plain
        (twiceSigned.signatures.map signatureAssertion) := rfl
  rw [hcount, ← hsigned] at hadd
  have hwritten := @length_toCborData_le Host.plain (writtenEnvelope Host.plain twiceSigned)
  show ((writtenEnvelope Host.plain twiceSigned).toCborData Host.plain).length < 2 ^ 64
  omega

/-- The operation that its actor has signed twice is accepted. -/
theorem cosigned_accepted_iff_sample : ∃ bytes s h,
    encodeSigned Host.plain twiceSigned = .ok bytes ∧
      decodeAndVerify sampleScheme (EnvelopeReader.canonical Host.plain) (fun _ => sampleOp.actor)
        bytes = .ok (s, h) := by
  have hsign : sampleAuthor.signAll openSigning Host.plain [sampleAuthor] sampleOp =
      .ok twiceSigned := by
    have hop : toEnvelope Host.plain sampleOp = .ok (opEnvelope Host.plain sampleOp) :=
      toEnvelope_eq_ok.mpr ⟨sampleOp_valid, rfl⟩
    simp only [signAll, sign, counterSign, List.foldlM_cons, List.foldlM_nil, hop, ok_bind]
    rfl
  have hactor : ∀ a ∈ [sampleAuthor, sampleAuthor], a.actor openSigning = sampleOp.actor := by
    intro a ha
    rcases List.mem_pair.mp ha with rfl | rfl <;> rfl
  obtain ⟨-, -, bytes, hash, hbytes, -, hdecode⟩ := cosigned_accepted_iff
    (EnvelopeReader.canonical Host.plain) (fun _ => sampleOp.actor) hsign rfl twiceSigned_toldApart
    twiceSigned_canonical fun a ha _ _ _ _ => hactor a ha
  have hlen : bytes.length < 2 ^ 64 := by
    have hwritten : bytes = (writtenEnvelope Host.plain twiceSigned).toCborData Host.plain := by
      rw [encodeSigned, toSignedEnvelope_eq.mpr ⟨sampleOp_valid, rfl⟩] at hbytes
      exact (Except.ok.inj hbytes).symm
    rw [hwritten]
    exact fits_twiceSigned
  obtain ⟨s, h, hok⟩ := (hdecode hlen).1.mpr hactor
  exact ⟨bytes, s, h, hbytes, hok⟩

end Author

end Identikey.Log
