/-
What the codec of identities writes and reads.

The envelope of an identity is a record: three entries in its subject, a field for each
key and the unknown assertions.  `Reads` says what the decoder finds in an envelope, and
`Plain` which envelopes are in the form in which the encoder writes them; on these, and
on no others, writing what was read gives the envelope back.
-/
import Identikey.Secret.RecordExact
import Identikey.Wallet.Basic

namespace Identikey.Wallet

open Lib Lib.Fallible Auth Dcbor Gordian Gordian.Envelope Secret

lemma subjectMap_eq_ok {what : String} {e : Envelope} {m : List (CBOR × CBOR)} :
    subjectMap what e = .ok m ↔ e.subject = .leaf (.map m) := by
  unfold subjectMap tryLeaf
  cases e.subject with
  | leaf c => cases c <;> simp
  | _ => simp

namespace BasicIdentity

variable {host : Host} {blake3 : Bytes → Digest32}

/-! ### The record -/

lemma known_ascii : ∀ k ∈ KNOWN_PREDICATES, ∀ c ∈ k.toList, c.val < 128 := by decide

lemma knownApart : KnownApart host KNOWN_PREDICATES :=
  knownApart_of_nat known_ascii (by decide +kernel)

/-- The keys of the subject. -/
def SUBJECT_KEYS : List String := ["type", "fingerprint", "format-version"]

lemma subjectKeys_ascii : ∀ k ∈ SUBJECT_KEYS, ∀ c ∈ k.toList, c.val < 128 := by decide

/-- The entries of the subject. -/
def entries (fingerprint : Digest32) : List (String × CBOR) :=
  [("type", .text IDENTITY_TYPE), ("fingerprint", .byteString fingerprint.val),
    ("format-version", .unsigned IDENTITY_FORMAT_VERSION.toUInt64)]

lemma entries_keyed (fingerprint : Digest32) :
    Keyed (mapKey host) (textEntries (entries fingerprint)) :=
  @textEntries_keyed host _ SUBJECT_KEYS rfl subjectKeys_ascii (by decide)

lemma entries_canonical (fingerprint : Digest32) :
    (CBOR.map (textEntries (entries fingerprint))).Canonical host := by
  refine textEntries_canonical (entries_keyed _) subjectKeys_ascii ?_
  simp only [entries, List.forall_mem_cons]
  exact ⟨.text (nfc_of_ascii (by decide)), .byteString _, .unsigned _, by simp⟩

lemma map_normal_entries (fingerprint : Digest32) :
    (textEntries (entries fingerprint)).map (normalEntry host) =
      textEntries (entries fingerprint) :=
  CBOR.map.inj (normal_map host _ ▸ (entries_canonical fingerprint).normal_eq)

lemma subject_entries (fingerprint : Digest32) :
    (subject host fingerprint).entries = textEntries (entries fingerprint) :=
  (entries_keyed fingerprint).foldl_insertKeyed_eq (.cons _ (.swap _ _ []))

/-- The fields of an identity. -/
def fields (name : String) (identity : BasicIdentity) : List (String × Envelope) :=
  [("created", .leaf (.tagged TAG_EPOCH_TIME (.unsigned identity.createdAt))),
    ("ed25519-public", .leaf (.byteString identity.ed25519.publicKey)),
    ("ed25519-secret", .leaf (.byteString identity.ed25519.secretKey))] ++
  (identity.mlDsa.toList.flatMap fun mlDsa =>
    [("ml-dsa-public", .leaf (.byteString mlDsa.publicKey)),
      ("ml-dsa-secret", .leaf (.byteString mlDsa.secretKey))]) ++
  [("name", .ofText name)]

lemma mem_fields {name : String} {identity : BasicIdentity} {f : String × Envelope} :
    f ∈ fields name identity ↔
      f = ("created", .leaf (.tagged TAG_EPOCH_TIME (.unsigned identity.createdAt))) ∨
      f = ("ed25519-public", .leaf (.byteString identity.ed25519.publicKey)) ∨
      f = ("ed25519-secret", .leaf (.byteString identity.ed25519.secretKey)) ∨
      (∃ mlDsa, identity.mlDsa = some mlDsa ∧
        (f = ("ml-dsa-public", .leaf (.byteString mlDsa.publicKey)) ∨
          f = ("ml-dsa-secret", .leaf (.byteString mlDsa.secretKey)))) ∨
      f = ("name", .ofText name) := by
  simp [fields, or_assoc]

lemma fields_known {name : String} {identity : BasicIdentity} :
    ∀ f ∈ fields name identity, f.1 ∈ KNOWN_PREDICATES := by
  unfold fields
  cases identity.mlDsa <;> simp [KNOWN_PREDICATES]

lemma fields_ascii {name : String} {identity : BasicIdentity} :
    ∀ f ∈ fields name identity, ∀ c ∈ f.1.toList, c.val < 128 := fun f hf =>
  known_ascii f.1 (fields_known f hf)

/-- The envelope of an identity. -/
def envelopeOf (host : Host) (name : String) (identity : BasicIdentity) : Envelope :=
  record host (textEntries (entries identity.fingerprint))
    (fieldPairs (fields name identity) identity.unknownAssertions)

lemma toEnvelope_eq_ok {identity : BasicIdentity} {name : String} {e : Envelope} :
    toEnvelope host blake3 identity name = .ok e ↔
      identity.fingerprint = blake3 identity.ed25519.publicKey ∧
        e = envelopeOf host name identity := by
  have hbuild : envelopeOf host name identity =
      identity.unknownAssertions.foldl (fun e u => e.addAssertionEnvelope host (.ofPair u))
        ((fields name identity).foldl (fun e f => e.addAssertion host (.ofText f.1) f.2)
          (Envelope.leaf (subject host identity.fingerprint).toCBOR)) := by
    unfold envelopeOf record fieldPairs addAll
    rw [List.map_append, List.foldl_append, List.map_map, List.foldl_map, List.foldl_map,
      Map.toCBOR, subject_entries]
    rfl
  unfold toEnvelope
  rw [bind_eq_ok, hbuild, fields]
  simp only [ensure_eq_ok]
  cases identity.mlDsa with
  | none =>
    constructor
    · rintro ⟨-, hfp, h⟩
      exact ⟨hfp, (pure_eq_ok.mp h).symm⟩
    · rintro ⟨hfp, rfl⟩
      exact ⟨(), hfp, rfl⟩
  | some mlDsa =>
    constructor
    · rintro ⟨-, hfp, h⟩
      exact ⟨hfp, (pure_eq_ok.mp h).symm⟩
    · rintro ⟨hfp, rfl⟩
      exact ⟨(), hfp, rfl⟩

/-! ### What the decoder finds -/

/-- The decoder finds this identity, under this name. -/
structure Reads (host : Host) (blake3 : Bytes → Digest32) (e : Envelope) (name : String)
    (identity : BasicIdentity) : Prop where
  subject : ∃ m, e.subject = .leaf (.map m) ∧
    getAs host m "type" CBOR.toText = some IDENTITY_TYPE ∧
    getAs host m "format-version" CBOR.toU32 = some IDENTITY_FORMAT_VERSION ∧
    getAs host m "fingerprint" CBOR.toByteString = some identity.fingerprint.val
  name : ∃ o, e.objectsForPredicate host "name" = [o] ∧
    o.extractSubject.bind CBOR.toText = some name
  created : ∃ o, e.objectsForPredicate host "created" = [o] ∧
    SealedSecret.taggedNumber o = some identity.createdAt
  publicKey : ∃ o, e.objectsForPredicate host "ed25519-public" = [o] ∧
    o.extractSubject.bind CBOR.toByteString = some identity.ed25519.publicKey
  secretKey : ∃ o, e.objectsForPredicate host "ed25519-secret" = [o] ∧
    o.extractSubject.bind CBOR.toByteString = some identity.ed25519.secretKey
  mlDsaPublic : readOptionalBytes host e "ml-dsa-public" = identity.mlDsa.map KeyPair.publicKey
  mlDsaSecret : readOptionalBytes host e "ml-dsa-secret" = identity.mlDsa.map KeyPair.secretKey
  fingerprint : identity.fingerprint = blake3 identity.ed25519.publicKey
  unknown : identity.unknownAssertions = e.unknownAssertions host KNOWN_PREDICATES

lemma readCreatedAt_eq_ok {e : Envelope} {n : UInt64} :
    readCreatedAt host e = .ok n ↔ ∃ o, e.objectsForPredicate host "created" = [o] ∧
      SealedSecret.taggedNumber o = some n := by
  unfold readCreatedAt SealedSecret.taggedNumber
  rw [bind_eq_ok]
  refine exists_congr fun o => and_congr ?_ ?_
  · rw [mapError_eq_ok, objectForPredicate_eq_ok]
  · rw [bind_eq_ok]
    cases o.tryLeaf with
    | none => simp
    | some c =>
      simp only [okOr_eq_ok, Option.some.injEq, exists_eq_left', Option.bind_eq_bind,
        Option.bind_some]
      rw [bind_eq_ok]
      cases c.tryIntoTaggedValue with
      | none => simp
      | some x => simp

lemma readMlDsa_eq_ok {e : Envelope} {mlDsa : Option KeyPair} :
    readMlDsa host e = .ok mlDsa ↔
      readOptionalBytes host e "ml-dsa-public" = mlDsa.map KeyPair.publicKey ∧
        readOptionalBytes host e "ml-dsa-secret" = mlDsa.map KeyPair.secretKey := by
  unfold readMlDsa
  cases readOptionalBytes host e "ml-dsa-public" with
  | none =>
    cases readOptionalBytes host e "ml-dsa-secret" with
    | none => cases mlDsa <;> simp
    | some s => cases mlDsa <;> simp
  | some p =>
    cases readOptionalBytes host e "ml-dsa-secret" with
    | none => cases mlDsa <;> simp
    | some s =>
      cases mlDsa with
      | none => simp
      | some k =>
        cases k
        simp

lemma fromEnvelope_eq_ok {e : Envelope} {name : String} {identity : BasicIdentity} :
    fromEnvelope host blake3 e = .ok (name, identity) ↔ Reads host blake3 e name identity := by
  unfold fromEnvelope readBytes
  simp only [bind_eq_ok, mapError_eq_ok, okOr_eq_ok, ensure_eq_ok, pure_eq_ok, subjectMap_eq_ok,
    readCreatedAt_eq_ok, readMlDsa_eq_ok, extractObject_eq_ok, toArray32_eq_some]
  constructor
  · rintro ⟨m, hm, ty, hty, -, rfl, v, hv, -, rfl, fb, hfb, fp, rfl, n, hn, c, hc, pk, hpk, sk, hsk,
      mlDsa, hml, -, hfp, heq⟩
    obtain ⟨rfl, rfl⟩ := Prod.mk.inj heq
    exact ⟨⟨m, hm, hty, hv, hfb⟩, hn, hc, hpk, hsk, hml.1, hml.2, hfp, rfl⟩
  · rintro ⟨⟨m, hm, hty, hv, hfb⟩, hn, hc, hpk, hsk, hmp, hms, hfp, hunknown⟩
    refine ⟨m, hm, _, hty, (), rfl, _, hv, (), rfl, _, hfb, _, rfl, _, hn, _, hc, _, hpk, _, hsk,
      _, ⟨hmp, hms⟩, (), hfp, ?_⟩
    rw [← hunknown]

/-! ### Reading what was written -/

/-- The identity is read back, with its unknown assertions in the order of their digests. -/
lemma reads_envelopeOf {name : String} {identity : BasicIdentity}
    (hfp : identity.fingerprint = blake3 identity.ed25519.publicKey)
    (hunknown : ∀ u ∈ identity.unknownAssertions,
      u.1.digest host ∉ knownDigests host KNOWN_PREDICATES)
    (hap : Apart host (fieldPairs (fields name identity) identity.unknownAssertions)) :
    Reads host blake3 (envelopeOf host name identity) name
      { identity with unknownAssertions :=
          (envelopeOf host name identity).unknownAssertions host KNOWN_PREDICATES } := by
  have hobject : ∀ k ∈ KNOWN_PREDICATES, ∀ o, (k, o) ∈ fields name identity →
      (∀ o', (k, o') ∈ fields name identity → o' = o) →
      (envelopeOf host name identity).objectsForPredicate host k = [o] := fun k hk o ho honly =>
    objects_record_eq knownApart fields_known hunknown hap hk ho honly
  have hnone : ∀ k ∈ KNOWN_PREDICATES, (∀ o, (k, o) ∉ fields name identity) →
      (envelopeOf host name identity).objectsForPredicate host k = [] := fun k hk h =>
    objects_record_nil knownApart fields_known hunknown hap hk h
  have hkeyed := @entries_keyed host identity.fingerprint
  have hoptional : ∀ k o b, (envelopeOf host name identity).objectsForPredicate host k = [o] →
      o = .leaf (.byteString b) →
      readOptionalBytes host (envelopeOf host name identity) k = some b := by
    rintro k o b ho rfl
    exact orNone_extractOptional.mpr ⟨_, ho, rfl⟩
  have habsent : ∀ k, (envelopeOf host name identity).objectsForPredicate host k = [] →
      readOptionalBytes host (envelopeOf host name identity) k = none := by
    intro k hk
    refine Option.eq_none_iff_forall_ne_some.mpr fun b hb => ?_
    obtain ⟨o, ho, -⟩ := orNone_extractOptional.mp hb
    rw [hk] at ho
    exact List.cons_ne_nil _ _ ho.symm
  refine ⟨⟨_, record_subject, ?_, ?_, ?_⟩, ?_, ?_, ?_, ?_, ?_, ?_, hfp, rfl⟩
  · exact getAs_of_mem hkeyed (v := .text IDENTITY_TYPE) (by simp [entries])
  · exact getAs_of_mem hkeyed (v := .unsigned IDENTITY_FORMAT_VERSION.toUInt64) (by simp [entries])
  · exact getAs_of_mem hkeyed (v := .byteString identity.fingerprint.val) (by simp [entries])
  · refine ⟨_, hobject "name" (by decide) (.ofText name) (by simp [fields]) ?_, rfl⟩
    cases hml : identity.mlDsa <;> simp [fields, hml]
  · refine ⟨_, hobject "created" (by decide)
      (.leaf (.tagged TAG_EPOCH_TIME (.unsigned identity.createdAt))) (by simp [fields]) ?_, ?_⟩
    · cases hml : identity.mlDsa <;> simp [fields, hml]
    · exact SealedSecret.taggedNumber_unsigned _ _
  · refine ⟨_, hobject "ed25519-public" (by decide)
      (.leaf (.byteString identity.ed25519.publicKey)) (by simp [fields]) ?_, rfl⟩
    cases hml : identity.mlDsa <;> simp [fields, hml]
  · refine ⟨_, hobject "ed25519-secret" (by decide)
      (.leaf (.byteString identity.ed25519.secretKey)) (by simp [fields]) ?_, rfl⟩
    cases hml : identity.mlDsa <;> simp [fields, hml]
  · cases hml : identity.mlDsa with
    | none => exact habsent _ (hnone _ (by decide) (by simp [fields, hml]))
    | some k =>
      exact hoptional _ _ _ (hobject _ (by decide) (.leaf (.byteString k.publicKey))
        (by simp [fields, hml]) (by simp [fields, hml])) rfl
  · cases hml : identity.mlDsa with
    | none => exact habsent _ (hnone _ (by decide) (by simp [fields, hml]))
    | some k =>
      exact hoptional _ _ _ (hobject _ (by decide) (.leaf (.byteString k.secretKey))
        (by simp [fields, hml]) (by simp [fields, hml])) rfl

/-- The identity with its unknown assertions as they are written. -/
def normal (host : Host) (identity : BasicIdentity) : BasicIdentity :=
  { identity with unknownAssertions := identity.unknownAssertions.map (normalPair host) }

lemma map_normal_fields (name : String) (identity : BasicIdentity) :
    (fields name identity).map (fun f => (f.1, f.2.normal host)) =
      fields (host.nfc name) (identity.normal host) := by
  have hml : (identity.normal host).mlDsa = identity.mlDsa := rfl
  unfold fields
  rw [hml]
  cases identity.mlDsa <;> rfl

lemma normal_envelopeOf (name : String) (identity : BasicIdentity) :
    (envelopeOf host name identity).normal host =
      envelopeOf host (host.nfc name) (identity.normal host) := by
  rw [envelopeOf, normal_record, map_normal_fieldPairs fields_ascii,
    map_normal_entries, map_normal_fields]
  rfl

lemma envelopeOf_wellFormed {name : String} {identity : BasicIdentity}
    (hforeign : ∀ u ∈ identity.unknownAssertions, Foreign host KNOWN_PREDICATES u) :
    ((envelopeOf host name identity).normal host).WellFormed host := by
  rw [envelopeOf, normal_record, map_normal_entries]
  refine record_wellFormed (entries_canonical _) (List.forall_mem_map.mpr fun u hu => ?_)
  rcases List.mem_append.mp hu with hu | hu
  · obtain ⟨f, hf, rfl⟩ := List.mem_map.mp hu
    refine ⟨.leaf (.text (host.nfc_nfc f.1)), ?_⟩
    rcases mem_fields.mp hf with rfl | rfl | rfl | ⟨mlDsa, -, rfl | rfl⟩ | rfl
    · exact .leaf (.tagged (.unsigned _))
    · exact .leaf (.byteString _)
    · exact .leaf (.byteString _)
    · exact .leaf (.byteString _)
    · exact .leaf (.byteString _)
    · exact .leaf (.text (host.nfc_nfc _))
  · exact (hforeign u hu).2

variable (host)

/-- The same identity, with the same unknown assertions. -/
structure Same (identity identity' : BasicIdentity) : Prop where
  createdAt : identity'.createdAt = identity.createdAt
  fingerprint : identity'.fingerprint = identity.fingerprint
  ed25519 : identity'.ed25519 = identity.ed25519
  mlDsa : identity'.mlDsa = identity.mlDsa
  unknown : SameAssertions host identity.unknownAssertions identity'.unknownAssertions

/-- The name is in normalisation form C, and assertions with one digest are written alike. -/
structure Storable (name : String) (identity : BasicIdentity) : Prop where
  nfc : host.nfc name = name
  apart : Apart host ((fieldPairs (fields name identity) identity.unknownAssertions).map
    (normalPair host))

variable {host}

/-- What is read has the name that was written, in normalisation form C. -/
lemma name_of_reads {name name' : String} {identity identity' : BasicIdentity}
    (hforeign : ∀ u ∈ identity.unknownAssertions, Foreign host KNOWN_PREDICATES u)
    (h : Reads host blake3 ((envelopeOf host name identity).normal host) name' identity') :
    name' = host.nfc name := by
  have hunknown : ∀ u ∈ (identity.normal host).unknownAssertions,
      u.1.digest host ∉ knownDigests host KNOWN_PREDICATES :=
    List.forall_mem_map.mpr fun u hu => (hforeign u hu).normal
  obtain ⟨o, ho, htext⟩ := h.name
  rw [normal_envelopeOf] at ho
  have hfield : ("name", o) ∈ fields (host.nfc name) (identity.normal host) :=
    field_of_object knownApart fields_known hunknown (by decide) (ho ▸ List.mem_singleton_self o)
  have hname : o = .ofText (host.nfc name) := by simpa [mem_fields] using hfield
  rw [hname] at htext
  exact (Option.some.inj htext).symm

/-- **An identity is read back the same, under its name, if and only if it is storable.** -/
theorem exists_same_iff {name : String} {identity : BasicIdentity}
    (hfp : identity.fingerprint = blake3 identity.ed25519.publicKey)
    (hforeign : ∀ u ∈ identity.unknownAssertions, Foreign host KNOWN_PREDICATES u) :
    (∃ identity', fromEnvelope host blake3 ((envelopeOf host name identity).normal host) =
        .ok (name, identity') ∧ Same host identity identity') ↔ Storable host name identity := by
  have hwf := @envelopeOf_wellFormed host name identity hforeign
  have hunknown : ∀ u ∈ (identity.normal host).unknownAssertions,
      u.1.digest host ∉ knownDigests host KNOWN_PREDICATES :=
    List.forall_mem_map.mpr fun u hu => (hforeign u hu).normal
  have hrecord : (envelopeOf host name identity).normal host =
      record host (textEntries (entries identity.fingerprint))
        (fieldPairs (fields (host.nfc name) (identity.normal host))
          (identity.unknownAssertions.map (normalPair host))) := normal_envelopeOf name identity
  have hiff := apart_iff knownApart fields_known hforeign hrecord hwf
  rw [← map_normal_fields, ← map_normal_fieldPairs fields_ascii] at hiff
  constructor
  · rintro ⟨identity', h, hsame⟩
    have hreads := fromEnvelope_eq_ok.mp h
    have hfound : ∀ k ∈ KNOWN_PREDICATES, ∀ o,
        (∃ o', ((envelopeOf host name identity).normal host).objectsForPredicate host k = [o']) →
        (∀ o', (k, o') ∈ fields (host.nfc name) (identity.normal host) → o' = o) →
        o ∈ ((envelopeOf host name identity).normal host).objectsForPredicate host k := by
      rintro k hk o ⟨o', ho'⟩ honly
      have hmem : o' ∈ ((envelopeOf host name identity).normal host).objectsForPredicate host k :=
        ho' ▸ List.mem_singleton_self o'
      rw [hrecord] at hmem ⊢
      rwa [← honly o' (field_of_object knownApart fields_known hunknown hk hmem)]
    refine ⟨(name_of_reads hforeign hreads).symm, hiff.mpr ⟨fun f hf => ?_, ?_⟩⟩
    · have hk : f.1 ∈ KNOWN_PREDICATES := fields_known f (map_normal_fields name identity ▸ hf)
      rw [map_normal_fields] at hf
      rcases mem_fields.mp hf with rfl | rfl | rfl | ⟨mlDsa, hml, rfl | rfl⟩ | rfl
      · exact hfound _ hk _ (hreads.created.imp fun _ => And.left) (by simp [mem_fields])
      · exact hfound _ hk _ (hreads.publicKey.imp fun _ => And.left) (by simp [mem_fields])
      · exact hfound _ hk _ (hreads.secretKey.imp fun _ => And.left) (by simp [mem_fields])
      · have hread := hreads.mlDsaPublic
        rw [hsame.mlDsa, show identity.mlDsa = some mlDsa from hml] at hread
        exact hfound _ hk _ ((orNone_extractOptional.mp hread).imp fun _ => And.left)
          (by simp [mem_fields, hml])
      · have hread := hreads.mlDsaSecret
        rw [hsame.mlDsa, show identity.mlDsa = some mlDsa from hml] at hread
        exact hfound _ hk _ ((orNone_extractOptional.mp hread).imp fun _ => And.left)
          (by simp [mem_fields, hml])
      · exact hfound _ hk _ (hreads.name.imp fun _ => And.left) (by simp [mem_fields])
    · exact hreads.unknown ▸ hsame.unknown
  · rintro ⟨hname, hapart⟩
    have h := hiff.mp hapart
    rw [map_normal_fieldPairs fields_ascii, map_normal_fields] at hapart
    have hreads := @reads_envelopeOf host blake3 (host.nfc name) (identity.normal host) hfp hunknown
      hapart
    rw [← normal_envelopeOf, hname] at hreads
    exact ⟨_, fromEnvelope_eq_ok.mpr hreads, ⟨rfl, rfl, rfl, rfl, h.2⟩⟩

/-! ### The encoder's form -/

/-- The object of a field as the encoder writes it. -/
def PlainObject (k : String) (o : Envelope) : Prop :=
  if k = "name" then ∃ s, o = .ofText s
  else if k = "created" then ∃ n, o = .leaf (.tagged TAG_EPOCH_TIME (.unsigned n))
  else ∃ b, o = .leaf (.byteString b)

/-- The envelope has the form in which identities are written: no further entry in the subject,
plain assertions, bare leaves in the fields, and the ML-DSA keys given once at most. -/
structure Plain (host : Host) (e : Envelope) : Prop where
  subject : ∃ fingerprint, e.subject = .leaf (.map (textEntries (entries fingerprint)))
  bare : Bare host KNOWN_PREDICATES PlainObject e
  once : ∀ k ∈ ["ml-dsa-public", "ml-dsa-secret"], (e.objectsForPredicate host k).length ≤ 1

lemma fields_plain {name : String} {identity : BasicIdentity} :
    ∀ f ∈ fields name identity, f.1 ∈ KNOWN_PREDICATES ∧ PlainObject f.1 f.2 := by
  refine fun f hf => ⟨fields_known f hf, ?_⟩
  rcases mem_fields.mp hf with rfl | rfl | rfl | ⟨mlDsa, -, rfl | rfl⟩ | rfl <;>
    simp [PlainObject]

/-- What the encoder writes has the encoder's form. -/
lemma plain_envelopeOf {name : String} {identity : BasicIdentity}
    (hunknown : ∀ u ∈ identity.unknownAssertions,
      u.1.digest host ∉ knownDigests host KNOWN_PREDICATES) :
    Plain host (envelopeOf host name identity) where
  subject := ⟨_, record_subject⟩
  bare := bare_record fields_plain hunknown
  once k hk := by
    have hpq : ∀ k ∈ ["ml-dsa-public", "ml-dsa-secret"], k ∈ KNOWN_PREDICATES := by decide
    refine length_objects_record knownApart fields_known hunknown (hpq k hk) fun o o' h h' => ?_
    rw [mem_fields] at h h'
    simp only [List.mem_cons, List.not_mem_nil, or_false] at hk
    rcases hk with rfl | rfl
    · simp at h h'
      obtain ⟨K, hK, rfl⟩ := h
      obtain ⟨K', hK', rfl⟩ := h'
      rw [Option.some.inj (hK.symm.trans hK')]
    · simp at h h'
      obtain ⟨K, hK, rfl⟩ := h
      obtain ⟨K', hK', rfl⟩ := h'
      rw [Option.some.inj (hK.symm.trans hK')]

/-- Bytes that are looked for in a plain envelope, where they need not be. -/
lemma readOptionalBytes_eq {e : Envelope} (hplain : Plain host e) {k : String}
    (hk : k ∈ ["ml-dsa-public", "ml-dsa-secret"]) {o : Envelope} :
    o ∈ e.objectsForPredicate host k ↔
      ∃ b, readOptionalBytes host e k = some b ∧ o = .leaf (.byteString b) := by
  have hmem : k ∈ KNOWN_PREDICATES := by
    have hpq : ∀ k ∈ ["ml-dsa-public", "ml-dsa-secret"], k ∈ KNOWN_PREDICATES := by decide
    exact hpq k hk
  have hne : k ≠ "name" ∧ k ≠ "created" := by
    have hpq : ∀ k ∈ ["ml-dsa-public", "ml-dsa-secret"], k ≠ "name" ∧ k ≠ "created" := by decide
    exact hpq k hk
  constructor
  · intro ho
    have hP := (hplain.bare.object knownApart hmem ho).2
    rw [PlainObject, if_neg hne.1, if_neg hne.2] at hP
    obtain ⟨b, rfl⟩ := hP
    refine ⟨b, orNone_extractOptional.mpr ⟨_, eq_singleton (hplain.once k hk) ho, rfl⟩, rfl⟩
  · rintro ⟨b, hb, rfl⟩
    obtain ⟨o, ho, hbo⟩ := orNone_extractOptional.mp hb
    have hmemo : o ∈ e.objectsForPredicate host k := ho ▸ List.mem_singleton_self o
    have hP := (hplain.bare.object knownApart hmem hmemo).2
    rw [PlainObject, if_neg hne.1, if_neg hne.2] at hP
    obtain ⟨b', rfl⟩ := hP
    rw [Option.some.inj hbo] at hmemo
    exact hmemo

/-- A plain envelope is written again as it was read. -/
lemma envelopeOf_of_plain {e : Envelope} {name : String} {identity : BasicIdentity}
    (hwf : e.WellFormed host) (hplain : Plain host e) (h : Reads host blake3 e name identity) :
    envelopeOf host name identity = e := by
  obtain ⟨fp, hsubject⟩ := hplain.subject
  have hfp : identity.fingerprint = fp := by
    obtain ⟨m, hm, -, -, hget⟩ := h.subject
    have hentries : m = textEntries (entries fp) := by
      rw [hsubject] at hm
      exact (CBOR.map.inj (Envelope.leaf.inj hm)).symm
    rw [hentries, getAs_of_mem (entries_keyed fp) (v := .byteString fp.val) (by simp [entries])]
      at hget
    exact (Subtype.ext (Option.some.inj hget)).symm
  -- the object of a required field, from its form and from what is extracted
  have hobject : ∀ k ∈ KNOWN_PREDICATES, ∀ o, e.objectsForPredicate host k = [o] →
      PlainObject k o := fun k hk o ho =>
    (hplain.bare.object knownApart hk (ho ▸ List.mem_singleton_self o)).2
  have hname : e.objectsForPredicate host "name" = [.ofText name] := by
    obtain ⟨o, ho, hv⟩ := h.name
    obtain ⟨s, rfl⟩ : ∃ s, o = .ofText s := hobject "name" (by decide) o ho
    rw [ho, Option.some.inj hv]
  have hcreated : e.objectsForPredicate host "created" =
      [.leaf (.tagged TAG_EPOCH_TIME (.unsigned identity.createdAt))] := by
    obtain ⟨o, ho, hv⟩ := h.created
    obtain ⟨n, rfl⟩ : ∃ n, o = .leaf (.tagged TAG_EPOCH_TIME (.unsigned n)) :=
      hobject "created" (by decide) o ho
    rw [SealedSecret.taggedNumber_unsigned, Option.some.injEq] at hv
    rw [ho, hv]
  have hpublic : e.objectsForPredicate host "ed25519-public" =
      [.leaf (.byteString identity.ed25519.publicKey)] := by
    obtain ⟨o, ho, hv⟩ := h.publicKey
    obtain ⟨b, rfl⟩ : ∃ b, o = .leaf (.byteString b) := hobject "ed25519-public" (by decide) o ho
    rw [ho, Option.some.inj hv]
  have hsecret : e.objectsForPredicate host "ed25519-secret" =
      [.leaf (.byteString identity.ed25519.secretKey)] := by
    obtain ⟨o, ho, hv⟩ := h.secretKey
    obtain ⟨b, rfl⟩ : ∃ b, o = .leaf (.byteString b) := hobject "ed25519-secret" (by decide) o ho
    rw [ho, Option.some.inj hv]
  refine hplain.bare.record_eq hwf knownApart (hfp ▸ hsubject) fields_known ?_ fun u => ?_
  · intro k hk o
    simp only [KNOWN_PREDICATES, List.mem_cons, List.not_mem_nil, or_false] at hk
    rcases hk with rfl | rfl | rfl | rfl | rfl | rfl
    · simp [hcreated, mem_fields]
    · simp [hpublic, mem_fields]
    · simp [hsecret, mem_fields]
    · rw [readOptionalBytes_eq hplain (by decide), h.mlDsaPublic]
      simp [mem_fields]
    · rw [readOptionalBytes_eq hplain (by decide), h.mlDsaSecret]
      simp [mem_fields]
    · simp [hname, mem_fields]
  · rw [h.unknown]

end BasicIdentity

end Identikey.Wallet
