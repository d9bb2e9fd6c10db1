/-
Saving a wallet and opening it again.

Texts are written in normalisation form C, so a wallet comes back as it was only if its
names and labels are in that form; a name that is not is renamed, or makes the file
unreadable when another identity has the name it becomes, and a label may grow past its
bound.  Of assertions with one digest only the first is written.  These are all the ways
in which a wallet is not read back the same.
-/
import Identikey.Wallet.EnvelopeExact
import Identikey.Wallet.FormatExact

namespace Identikey.Wallet

open Lib Lib.Fallible Auth Dcbor Gordian Gordian.Envelope Secret

/-! ### What comes back -/

namespace WalletData

variable (host : Host) (params : WalletParams)

/-- The unknown assertions of a wallet are unknown where they stand, and can be read back. -/
structure Foreign (wallet : WalletData BasicIdentity) : Prop where
  unknown : ∀ u ∈ wallet.unknownAssertions, Envelope.Foreign host KNOWN_PREDICATES u
  identities : ∀ x ∈ wallet.identities.entries, ∀ u ∈ x.2.unknownAssertions,
    Envelope.Foreign host BasicIdentity.KNOWN_PREDICATES u
  secrets : ∀ secret ∈ wallet.secrets.records, ∀ u ∈ secret.unknown,
    Envelope.Foreign host KNOWN u

/-- The same wallet: the active identity, each name and each id with the same behind it, and the
unknown assertions. -/
structure Same (wallet wallet' : WalletData BasicIdentity) : Prop where
  active : wallet'.activeIdentity = wallet.activeIdentity
  identities : ∀ name,
    Option.Rel (BasicIdentity.Same host) (wallet.identities.get name) (wallet'.identities.get name)
  secrets : ∀ id, Option.Rel (SealedSecret.Same host) (wallet.secrets.get id)
    (wallet'.secrets.get id)
  unknown : SameAssertions host wallet.unknownAssertions wallet'.unknownAssertions

/-- All texts are in normalisation form C, and assertions of one envelope that have one digest are
written alike. -/
structure Storable (wallet : WalletData BasicIdentity) : Prop where
  walletType : host.nfc params.walletType = params.walletType
  active : ∀ name, wallet.activeIdentity = some name → host.nfc name = name
  identities : ∀ x ∈ wallet.identities.entries, BasicIdentity.Storable host x.1 x.2
  secrets : ∀ secret ∈ wallet.secrets.records, SealedSecret.Storable host secret
  apart : Apart host ((fieldPairs (fields host wallet) wallet.unknownAssertions).map
    (normalPair host))

end WalletData

variable {host : Host} {blake3 : Bytes → Digest32} {params : WalletParams}
  {wallet wallet' : WalletData BasicIdentity}

/-! ### The fields that are written -/

/-- The fields of a wallet, as they are written. -/
def writtenFields (host : Host) (wallet : WalletData BasicIdentity) : List (String × Envelope) :=
  (fields host wallet).map fun f => (f.1, f.2.normal host)

lemma mem_writtenFields {k : String} {o : Envelope} :
    (k, o) ∈ writtenFields host wallet ↔
      ∃ o', (k, o') ∈ fields host wallet ∧ o = o'.normal host := by
  unfold writtenFields
  rw [List.mem_map]
  constructor
  · rintro ⟨⟨k', o'⟩, hf, heq⟩
    obtain ⟨rfl, rfl⟩ := Prod.mk.inj heq
    exact ⟨o', hf, rfl⟩
  · rintro ⟨o', hf, rfl⟩
    exact ⟨_, hf, rfl⟩

lemma writtenFields_known : ∀ f ∈ writtenFields host wallet, f.1 ∈ KNOWN_PREDICATES :=
  List.forall_mem_map.mpr fun f hf => fields_known f hf

lemma identity_mem_writtenFields {o : Envelope} : ("identity", o) ∈ writtenFields host wallet ↔
    ∃ x ∈ wallet.identities.entries, o = (x.2.envelopeOf host x.1).normal host := by
  simp [mem_writtenFields, identity_mem_fields]

lemma secret_mem_writtenFields {o : Envelope} :
    ("sealed-secret", o) ∈ writtenFields host wallet ↔
      ∃ secret ∈ wallet.secrets.records, o = (secret.toEnvelope host).normal host := by
  simp [mem_writtenFields, secret_mem_fields]

lemma active_mem_writtenFields {o : Envelope} :
    ("active-identity", o) ∈ writtenFields host wallet ↔
      ∃ name, wallet.activeIdentity = some name ∧ o = .ofText (host.nfc name) := by
  simp only [mem_writtenFields, active_mem_fields]
  constructor
  · rintro ⟨o', ⟨name, hname, rfl⟩, rfl⟩
    exact ⟨name, hname, rfl⟩
  · rintro ⟨name, hname, rfl⟩
    exact ⟨_, ⟨name, hname, rfl⟩, rfl⟩

/-- What a container holds when it was written. -/
lemma normal_walletEnvelope (htype : host.nfc params.walletType = params.walletType) :
    (walletEnvelope host params wallet).normal host = record host (textEntries (entries params))
      (fieldPairs (writtenFields host wallet)
        (wallet.unknownAssertions.map (normalPair host))) := by
  rw [walletEnvelope, normal_record, map_normal_fieldPairs fields_ascii, map_normal_entries htype,
    writtenFields]

lemma walletEnvelope_wellFormed (htype : host.nfc params.walletType = params.walletType)
    (hforeign : wallet.Foreign host) :
    ((walletEnvelope host params wallet).normal host).WellFormed host := by
  rw [normal_walletEnvelope htype]
  refine record_wellFormed (entries_canonical htype) fun u hu => ?_
  rcases List.mem_append.mp hu with hu | hu
  · obtain ⟨f, hf, rfl⟩ := List.mem_map.mp hu
    obtain ⟨f', hf', rfl⟩ := List.mem_map.mp hf
    refine ⟨.leaf (.text (nfc_of_ascii (fields_ascii f' hf'))), ?_⟩
    rcases mem_fields.mp hf' with ⟨name, -, rfl⟩ | ⟨x, hx, rfl⟩ | ⟨secret, hs, rfl⟩
    · exact .leaf (.text (host.nfc_nfc name))
    · exact BasicIdentity.envelopeOf_wellFormed (hforeign.identities x hx)
    · exact SealedSecret.toEnvelope_wellFormed (hforeign.secrets secret hs)
  · obtain ⟨u', hu', rfl⟩ := List.mem_map.mp hu
    exact (hforeign.unknown u' hu').2

lemma unknown_written (hforeign : wallet.Foreign host) :
    ∀ u ∈ wallet.unknownAssertions.map (normalPair host),
      u.1.digest host ∉ knownDigests host KNOWN_PREDICATES :=
  List.forall_mem_map.mpr fun u hu => (hforeign.unknown u hu).normal

/-! ### A wallet that comes back is storable -/

section Same

variable {e : Envelope} (hforeign : wallet.Foreign host)
  (he : e = (walletEnvelope host params wallet).normal host) (hwf : e.WellFormed host)
  (h : Reads host (BasicIdentity.codec host blake3) params e wallet')
  (hsame : wallet.Same host wallet')

include hforeign he hwf h

/-- The assertion from which an identity or a secret is read is that of a field. -/
lemma written_of_mem {a o : Envelope} {k : String} (hk : k ∈ KNOWN_PREDICATES)
    (ha : a ∈ e.assertions) (hsubject : a.subject = .assertion (.ofText k) o) :
    (k, o) ∈ writtenFields host wallet ∧ o ∈ e.objectsForPredicate host k ∧ o.WellFormed host := by
  have ho : o ∈ e.objectsForPredicate host k :=
    mem_objectsForPredicate.mpr ⟨a, ha, _, hsubject, rfl⟩
  refine ⟨?_, ho, hwf.of_mem_objects ho⟩
  rw [he, normal_walletEnvelope (h.nfc_walletType hwf)] at ho
  exact field_of_object knownApart writtenFields_known (unknown_written hforeign) hk ho

include hsame

/-- The name of an identity that comes back is in normalisation form C. -/
lemma nfc_of_same {x : String × BasicIdentity} (hx : x ∈ wallet.identities.entries) :
    host.nfc x.1 = x.1 := by
  have hrel := hsame.identities x.1
  rw [Identities.get_eq_some.mpr hx, rel_some_left] at hrel
  obtain ⟨y, hy, -⟩ := hrel
  obtain ⟨a, ha, o, hsubject, ho⟩ := (h.identities _).mp (Identities.get_eq_some.mp hy)
  obtain ⟨-, -, hwfo⟩ := written_of_mem hforeign he hwf h (by decide) ha hsubject
  obtain ⟨o', ho', htext⟩ := (BasicIdentity.fromEnvelope_eq_ok.mp ho).name
  exact (hwfo.of_mem_objects (ho' ▸ List.mem_singleton_self o')).nfc_of_extract htext

/-- An identity that comes back is read from what was written of it. -/
lemma identity_of_same {x : String × BasicIdentity} (hx : x ∈ wallet.identities.entries) :
    (∃ y, BasicIdentity.fromEnvelope host blake3 ((x.2.envelopeOf host x.1).normal host) =
        .ok (x.1, y) ∧ BasicIdentity.Same host x.2 y) ∧
      (x.2.envelopeOf host x.1).normal host ∈ e.objectsForPredicate host "identity" := by
  have hrel := hsame.identities x.1
  rw [Identities.get_eq_some.mpr hx, rel_some_left] at hrel
  obtain ⟨y, hy, hxy⟩ := hrel
  obtain ⟨a, ha, o, hsubject, ho⟩ := (h.identities _).mp (Identities.get_eq_some.mp hy)
  obtain ⟨hfield, hobject, -⟩ := written_of_mem hforeign he hwf h (by decide) ha hsubject
  obtain ⟨x', hx', rfl⟩ := identity_mem_writtenFields.mp hfield
  have hname : x.1 = x'.1 := by
    rw [BasicIdentity.name_of_reads (hforeign.identities x' hx')
      (BasicIdentity.fromEnvelope_eq_ok.mp ho), nfc_of_same hforeign he hwf h hsame hx']
  obtain rfl : x = x' := wallet.identities.ordered.inj hx hx' (congrArg utf8 hname)
  exact ⟨⟨y, ho, hxy⟩, hobject⟩

/-- A secret that comes back is read from what was written of it. -/
lemma secret_of_same {secret : SealedSecret} (hs : secret ∈ wallet.secrets.records) :
    (∃ secret', SealedSecret.fromEnvelope host ((secret.toEnvelope host).normal host) =
        .ok secret' ∧ SealedSecret.Same host secret secret') ∧
      (secret.toEnvelope host).normal host ∈ e.objectsForPredicate host "sealed-secret" := by
  have hrel := hsame.secrets secret.id
  rw [get_eq_some.mpr ⟨hs, rfl⟩, rel_some_left] at hrel
  obtain ⟨t, ht, hst⟩ := hrel
  obtain ⟨a, ha, o, hsubject, ho⟩ := (h.secrets t).mp (get_eq_some.mp ht).1
  obtain ⟨hfield, hobject, -⟩ := written_of_mem hforeign he hwf h (by decide) ha hsubject
  obtain ⟨s', hs', rfl⟩ := secret_mem_writtenFields.mp hfield
  have hid : secret.id = s'.id := by
    rw [← SealedSecret.id_of_reads (SealedSecret.fromEnvelope_eq_ok.mp ho), hst.id]
  have hkey : secret.key = s'.key := by rw [SealedSecret.key, hid, SealedSecret.key]
  obtain rfl : secret = s' := wallet.secrets.ordered.inj hs hs' hkey
  exact ⟨⟨t, ho, hst⟩, hobject⟩

lemma storable_of_same
    (hfp : ∀ x ∈ wallet.identities.entries, x.2.fingerprint = blake3 x.2.ed25519.publicKey) :
    wallet.Storable host params := by
  have htype := h.nfc_walletType hwf
  -- the object of the active identity, if there is one
  have hactive : ∀ name, wallet.activeIdentity = some name → host.nfc name = name ∧
      .ofText (host.nfc name) ∈ e.objectsForPredicate host "active-identity" := by
    intro name hname
    have hread := h.active
    rw [hsame.active, hname] at hread
    obtain ⟨o, ho, htext⟩ := orNone_extractOptional.mp hread.symm
    have hobject : o ∈ e.objectsForPredicate host "active-identity" :=
      ho ▸ List.mem_singleton_self o
    have hfield := hobject
    rw [he, normal_walletEnvelope htype] at hfield
    obtain ⟨name', hname', rfl⟩ := active_mem_writtenFields.mp
      (field_of_object knownApart writtenFields_known (unknown_written hforeign) (by decide) hfield)
    obtain rfl := Option.some.inj (hname.symm.trans hname')
    exact ⟨Option.some.inj htext, hobject⟩
  refine ⟨htype, fun name hname => (hactive name hname).1, fun x hx => ?_, fun secret hs => ?_, ?_⟩
  · exact (BasicIdentity.exists_same_iff (hfp x hx) (hforeign.identities x hx)).mp
      (identity_of_same hforeign he hwf h hsame hx).1
  · exact (SealedSecret.exists_same_iff (hforeign.secrets secret hs)).mp
      (secret_of_same hforeign he hwf h hsame hs).1
  · rw [map_normal_fieldPairs fields_ascii]
    refine (apart_iff knownApart writtenFields_known hforeign.unknown
      (he.trans (normal_walletEnvelope htype)) hwf).mpr ⟨?_, h.unknown ▸ hsame.unknown⟩
    refine List.forall_mem_map.mpr fun f hf => ?_
    rcases mem_fields.mp hf with ⟨name, hname, rfl⟩ | ⟨x, hx, rfl⟩ | ⟨secret, hs, rfl⟩
    · exact (hactive name hname).2
    · exact (identity_of_same hforeign he hwf h hsame hx).2
    · exact (secret_of_same hforeign he hwf h hsame hs).2

end Same

/-! ### A storable wallet comes back -/

section Storable

variable {e : Envelope} (hforeign : wallet.Foreign host)
  (hfp : ∀ x ∈ wallet.identities.entries, x.2.fingerprint = blake3 x.2.ed25519.publicKey)
  (hstorable : wallet.Storable host params)
  (he : e = (walletEnvelope host params wallet).normal host)

include hforeign hstorable he

/-- The container is a record whose assertions are told apart. -/
lemma record_of_storable :
    e = record host (textEntries (entries params)) (fieldPairs (writtenFields host wallet)
      (wallet.unknownAssertions.map (normalPair host))) ∧
    Apart host (fieldPairs (writtenFields host wallet)
      (wallet.unknownAssertions.map (normalPair host))) := by
  refine ⟨he.trans (normal_walletEnvelope hstorable.walletType), ?_⟩
  have hap := hstorable.apart
  rwa [map_normal_fieldPairs fields_ascii] at hap

/-- An assertion of the container is that of its subject, and of a field if it is known. -/
lemma written_of_storable {a o : Envelope} {k : String} (hk : k ∈ KNOWN_PREDICATES)
    (ha : a ∈ e.assertions) (hsubject : a.subject = .assertion (.ofText k) o) :
    (k, o) ∈ writtenFields host wallet ∧ a = ofPair (ofField (k, o)) := by
  obtain ⟨hrecord, -⟩ := record_of_storable hforeign hstorable he
  rw [hrecord] at ha
  obtain ⟨v, hv, rfl⟩ := exists_pair ha
  obtain rfl : v = ofField (k, o) := ofPair_injective hsubject
  exact ⟨(field_of_pair knownApart writtenFields_known (unknown_written hforeign) hk hv rfl).1,
    rfl⟩

include hfp

/-- The identity that is read from an assertion of the container. -/
lemma identity_of_storable {a o : Envelope} {y : String × BasicIdentity} (ha : a ∈ e.assertions)
    (hsubject : a.subject = .assertion (.ofText "identity") o)
    (hy : BasicIdentity.fromEnvelope host blake3 o = .ok y) :
    ∃ x ∈ wallet.identities.entries, a = ofPair (ofField ("identity",
      (x.2.envelopeOf host x.1).normal host)) ∧ x.1 = y.1 ∧ BasicIdentity.Same host x.2 y.2 := by
  obtain ⟨hfield, rfl⟩ := written_of_storable hforeign hstorable he (by decide) ha hsubject
  obtain ⟨x, hx, rfl⟩ := identity_mem_writtenFields.mp hfield
  obtain ⟨z, hz, hxz⟩ := (BasicIdentity.exists_same_iff (hfp x hx) (hforeign.identities x hx)).mpr
    (hstorable.identities x hx)
  obtain rfl := Except.ok.inj (hz.symm.trans hy)
  exact ⟨x, hx, rfl, rfl, hxz⟩

omit hfp in
/-- The secret that is read from an assertion of the container. -/
lemma secret_of_storable {a o : Envelope} {t : SealedSecret} (ha : a ∈ e.assertions)
    (hsubject : a.subject = .assertion (.ofText "sealed-secret") o)
    (ht : SealedSecret.fromEnvelope host o = .ok t) :
    ∃ s ∈ wallet.secrets.records, a = ofPair (ofField ("sealed-secret",
      (s.toEnvelope host).normal host)) ∧ SealedSecret.Same host s t := by
  obtain ⟨hfield, rfl⟩ := written_of_storable hforeign hstorable he (by decide) ha hsubject
  obtain ⟨s, hs, rfl⟩ := secret_mem_writtenFields.mp hfield
  obtain ⟨t', ht', hst⟩ := (SealedSecret.exists_same_iff (hforeign.secrets s hs)).mpr
    (hstorable.secrets s hs)
  obtain rfl := Except.ok.inj (ht'.symm.trans ht)
  exact ⟨s, hs, rfl, hst⟩

/-- Every assertion of the container can be read. -/
lemma readItem_of_storable : ∀ a ∈ e.assertions,
    ∃ b, readItem host (BasicIdentity.codec host blake3) a = .ok b := by
  obtain ⟨hrecord, -⟩ := record_of_storable hforeign hstorable he
  intro a ha
  rw [hrecord] at ha
  obtain ⟨v, hv, rfl⟩ := exists_pair ha
  rcases List.mem_append.mp hv with hv | hv
  · obtain ⟨f, hf, rfl⟩ := List.mem_map.mp hv
    obtain ⟨f', hf', rfl⟩ := List.mem_map.mp hf
    rcases mem_fields.mp hf' with ⟨name, -, rfl⟩ | ⟨x, hx, rfl⟩ | ⟨s, hs, rfl⟩
    · refine ⟨none, ?_⟩
      unfold readItem
      exact if_pos (@mem_knownDigests host KNOWN_PREDICATES "active-identity" (by decide))
    · obtain ⟨y, hy, -⟩ := (BasicIdentity.exists_same_iff (hfp x hx)
        (hforeign.identities x hx)).mpr (hstorable.identities x hx)
      exact ⟨_, readItem_identity.mpr ⟨_, rfl, hy⟩⟩
    · obtain ⟨t, ht, -⟩ := (SealedSecret.exists_same_iff (hforeign.secrets s hs)).mpr
        (hstorable.secrets s hs)
      exact ⟨_, readItem_secret.mpr ⟨_, rfl, ht⟩⟩
  · exact ⟨_, readItem_unknown.mpr (if_neg (unknown_written hforeign v hv))⟩

/-- No two assertions of the container have one name or one id. -/
lemma distinct_of_storable : e.assertions.Pairwise fun a a' => ∀ item item',
    readItem host (BasicIdentity.codec host blake3) a = .ok (some item) →
    readItem host (BasicIdentity.codec host blake3) a' = .ok (some item') →
    item.Distinct item' := by
  have hnodup : e.assertions.Nodup := by
    obtain ⟨hrecord, -⟩ := record_of_storable hforeign hstorable he
    rw [hrecord]
    exact record_keyed.nodup
  refine List.Pairwise.imp_of_mem ?_ hnodup
  intro a a' ha ha' hne item item' h h'
  cases item with
  | identity name identity =>
    cases item' with
    | identity name' identity' =>
      rintro rfl
      obtain ⟨o, hsubject, ho⟩ := readItem_identity.mp h
      obtain ⟨o', hsubject', ho'⟩ := readItem_identity.mp h'
      obtain ⟨x, hx, rfl, hname, -⟩ :=
        identity_of_storable hforeign hfp hstorable he ha hsubject ho
      obtain ⟨x', hx', rfl, hname', -⟩ :=
        identity_of_storable hforeign hfp hstorable he ha' hsubject' ho'
      obtain rfl : x = x' :=
        wallet.identities.ordered.inj hx hx' (congrArg utf8 (hname.trans hname'.symm))
      exact hne rfl
    | _ => trivial
  | secret s =>
    cases item' with
    | secret s' =>
      intro hid
      obtain ⟨o, hsubject, ho⟩ := readItem_secret.mp h
      obtain ⟨o', hsubject', ho'⟩ := readItem_secret.mp h'
      obtain ⟨t, ht, rfl, hts⟩ := secret_of_storable hforeign hstorable he ha hsubject ho
      obtain ⟨t', ht', rfl, hts'⟩ := secret_of_storable hforeign hstorable he ha' hsubject' ho'
      have hkey : t.key = t'.key := by
        rw [SealedSecret.key, SealedSecret.key, ← hts.id, ← hts'.id, hid]
      obtain rfl : t = t' := wallet.secrets.ordered.inj ht ht' hkey
      exact hne rfl
    | _ => trivial
  | unknown u => trivial

/-- What is read of the container is the wallet. -/
lemma same_of_reads (h : Reads host (BasicIdentity.codec host blake3) params e wallet') :
    wallet.Same host wallet' := by
  obtain ⟨hrecord, hap⟩ := record_of_storable hforeign hstorable he
  have hwf : e.WellFormed host := by
    rw [he]
    exact walletEnvelope_wellFormed hstorable.walletType hforeign
  have hobjects : ∀ k ∈ KNOWN_PREDICATES, ∀ o, (k, o) ∈ writtenFields host wallet →
      ofPair (ofField (k, o)) ∈ e.assertions := by
    intro k _ o ho
    rw [hrecord]
    exact (mem_record hap).mpr (List.mem_append_left _ (List.mem_map_of_mem ho))
  refine ⟨?_, fun name => rel_of ?_ ?_, fun id => rel_of ?_ ?_, ?_⟩
  · refine Option.ext fun name => ?_
    rw [h.active, orNone_extractOptional, hrecord]
    constructor
    · rintro ⟨o, ho, htext⟩
      obtain ⟨name', hname', rfl⟩ := active_mem_writtenFields.mp (field_of_object knownApart
        writtenFields_known (unknown_written hforeign) (by decide) (ho ▸ List.mem_singleton_self o))
      rw [← Option.some.inj htext, hstorable.active name' hname', hname']
    · intro hname
      have hfield : ("active-identity", ofText name) ∈ writtenFields host wallet :=
        active_mem_writtenFields.mpr ⟨name, hname, by rw [hstorable.active name hname]⟩
      refine ⟨_, objects_record_eq knownApart writtenFields_known (unknown_written hforeign) hap
        (by decide) hfield fun o' ho' => ?_, rfl⟩
      obtain ⟨name', hname', rfl⟩ := active_mem_writtenFields.mp ho'
      obtain rfl := Option.some.inj (hname.symm.trans hname')
      rw [hstorable.active name hname]
  · intro i hi
    have hx := Identities.get_eq_some.mp hi
    obtain ⟨y, hy, hsame⟩ := (BasicIdentity.exists_same_iff (hfp _ hx)
      (hforeign.identities _ hx)).mpr (hstorable.identities _ hx)
    have ha := hobjects "identity" (by decide) _ (identity_mem_writtenFields.mpr ⟨_, hx, rfl⟩)
    exact ⟨y, Identities.get_eq_some.mpr ((h.identities _).mpr ⟨_, ha, _, rfl, hy⟩), hsame⟩
  · intro y hy
    obtain ⟨a, ha, o, hsubject, ho⟩ := (h.identities _).mp (Identities.get_eq_some.mp hy)
    obtain ⟨x, hx, -, hname, -⟩ := identity_of_storable hforeign hfp hstorable he ha hsubject ho
    obtain rfl : x.1 = name := hname
    exact ⟨x.2, Identities.get_eq_some.mpr hx⟩
  · intro s hs
    obtain ⟨hmem, rfl⟩ := get_eq_some.mp hs
    obtain ⟨t, ht, hsame⟩ := (SealedSecret.exists_same_iff (hforeign.secrets s hmem)).mpr
      (hstorable.secrets s hmem)
    have ha := hobjects "sealed-secret" (by decide) _ (secret_mem_writtenFields.mpr ⟨_, hmem, rfl⟩)
    exact ⟨t, get_eq_some.mpr ⟨(h.secrets t).mpr ⟨_, ha, _, rfl, ht⟩, hsame.id⟩, hsame⟩
  · intro t ht
    obtain ⟨hmem, rfl⟩ := get_eq_some.mp ht
    obtain ⟨a, ha, o, hsubject, ho⟩ := (h.secrets t).mp hmem
    obtain ⟨s, hs, -, hsame⟩ := secret_of_storable hforeign hstorable he ha hsubject ho
    exact ⟨s, get_eq_some.mpr ⟨hs, hsame.id.symm⟩⟩
  · rw [h.unknown]
    exact ((apart_iff knownApart writtenFields_known hforeign.unknown hrecord hwf).mp hap).2

lemma exists_same_of_storable :
    ∃ wallet', walletFromEnvelope host (BasicIdentity.codec host blake3) params e = .ok wallet' ∧
      wallet.Same host wallet' := by
  obtain ⟨hrecord, -⟩ := record_of_storable hforeign hstorable he
  obtain ⟨bs, hbs⟩ := forall₂_of_exists (readItem_of_storable hforeign hfp hstorable he)
  have hdistinct := pairwise_of_forall₂ hbs (distinct_of_storable hforeign hfp hstorable he)
  have hfresh : ∀ (active : Option String) (item : Item BasicIdentity),
      item.Fresh { WalletData.new with activeIdentity := active } := by
    intro active item
    cases item with
    | identity name identity => rfl
    | secret s => rfl
    | unknown u => trivial
  obtain ⟨wallet', hput⟩ := exists_foldlM hdistinct fun item _ => hfresh
    (orNone (e.extractOptionalObjectForPredicate host CBOR.toText "active-identity")) item
  have hread :
      walletFromEnvelope host (BasicIdentity.codec host blake3) params e = .ok wallet' := by
    refine walletFromEnvelope_eq_ok.mpr ⟨⟨_, hrecord ▸ record_subject, ?_, ?_⟩, bs, hbs, hput⟩
    · exact getAs_of_mem (entries_keyed params) (v := .text params.walletType) (by simp [entries])
    · rw [getAs_of_mem (entries_keyed params) (v := .unsigned params.formatVersion.toUInt64)
        (by simp [entries])]
      exact toU32_unsigned params.formatVersion
  exact ⟨wallet', hread,
    same_of_reads hforeign hfp hstorable he (reads_of_walletFromEnvelope hread)⟩

end Storable

/-! ### Files -/

section Files

variable {aead : Aead} {reader : EnvelopeReader host} {key : Key} {salt : Salt} {nonce : Nonce}
  {f : Bytes} (hforeign : wallet.Foreign host)
  (h : encryptWalletWithKeyNonce params host (BasicIdentity.codec host blake3) aead wallet key salt
    nonce = .ok f)

include h

/-- What is decrypted is what is read of the container. -/
lemma decrypt_eq_ok_iff :
    (∀ x ∈ wallet.identities.entries, x.2.fingerprint = blake3 x.2.ed25519.publicKey) ∧
      (walletEnvelope host params wallet).Fits host ∧ extractSalt params f = .ok salt ∧
      ∀ wallet', decryptWalletWithKey params (BasicIdentity.codec host blake3) aead reader f key =
          .ok wallet' ↔
        ((walletEnvelope host params wallet).normal host).WellFormed host ∧
          walletFromEnvelope host (BasicIdentity.codec host blake3) params
            ((walletEnvelope host params wallet).normal host) = .ok wallet' := by
  obtain ⟨b, hb, hlen, hsalt, hopen⟩ := @decrypt_of_encrypt params salt nonce host BasicIdentity
    (BasicIdentity.codec host blake3) aead reader key wallet f h
  obtain ⟨hfp, rfl⟩ := toEnvelope_eq_ok.mp hb
  have hfit : (walletEnvelope host params wallet).Fits host := lt_trans hlen (by decide)
  refine ⟨hfp, hfit, hsalt, fun wallet' => (hopen wallet').trans (fromEnvelope_eq_ok.trans ?_)⟩
  constructor
  · rintro ⟨e, he, hread⟩
    obtain ⟨hwf, -, hdata⟩ := (reader.reads _ e).mp he
    have hnormal : (walletEnvelope host params wallet).normal host = e := by
      rw [(Envelope.toCborData_eq_iff hfit).mp hdata.symm, hwf.normal_eq]
    rw [hnormal]
    exact ⟨hwf, hread⟩
  · rintro ⟨hwf, hread⟩
    exact ⟨_, reader.tryFromCborData_toCborData hwf hfit, hread⟩

include hforeign

/-- A file that can be decrypted to the same wallet is that of a storable one. -/
lemma storable_of_decrypt {wallet' : WalletData BasicIdentity}
    (hdecrypt : decryptWalletWithKey params (BasicIdentity.codec host blake3) aead reader f key =
      .ok wallet') (hsame : wallet.Same host wallet') : wallet.Storable host params := by
  obtain ⟨hfp, -, -, hopen⟩ :=
    @decrypt_eq_ok_iff host blake3 params wallet aead reader key salt nonce f h
  obtain ⟨hwf, hread⟩ := (hopen wallet').mp hdecrypt
  exact storable_of_same hforeign rfl hwf (reads_of_walletFromEnvelope hread) hsame hfp

/-- The file of a storable wallet can be decrypted to the same wallet. -/
lemma decrypt_of_storable (hstorable : wallet.Storable host params) :
    extractSalt params f = .ok salt ∧ ∃ wallet',
      decryptWalletWithKey params (BasicIdentity.codec host blake3) aead reader f key =
        .ok wallet' ∧ wallet.Same host wallet' := by
  obtain ⟨hfp, -, hsalt, hopen⟩ := @decrypt_eq_ok_iff host blake3 params wallet aead reader key
    salt nonce f h
  obtain ⟨wallet', hread, hsame⟩ := exists_same_of_storable hforeign hfp hstorable rfl
  have hwf := @walletEnvelope_wellFormed host params wallet hstorable.walletType hforeign
  exact ⟨hsalt, wallet', (hopen wallet').mpr ⟨hwf, hread⟩, hsame⟩

end Files

/-- **A wallet that can be saved can be opened again, and is the same, if and only if it is
storable:** its texts are in normalisation form C, and what is written differently has different
digests. -/
theorem decryptWalletWithKey_encrypt {aead : Aead} (reader : EnvelopeReader host) {key : Key}
    {salt : Salt} {nonce : Nonce} {f : Bytes} (hforeign : wallet.Foreign host)
    (h : encryptWalletWithKeyNonce params host (BasicIdentity.codec host blake3) aead wallet key
      salt nonce = .ok f) :
    (extractSalt params f = .ok salt ∧ ∃ wallet',
      decryptWalletWithKey params (BasicIdentity.codec host blake3) aead reader f key =
        .ok wallet' ∧ wallet.Same host wallet') ↔ wallet.Storable host params := by
  constructor
  · rintro ⟨-, wallet', hdecrypt, hsame⟩
    exact storable_of_decrypt hforeign h hdecrypt hsame
  · exact decrypt_of_storable hforeign h

/-! ### A wallet to run the model with -/

/-- The identity of a sample wallet. -/
def sampleIdentity : BasicIdentity :=
  BasicIdentity.new (fun _ => fill 32 0) 5 (fill 32 1).val (fill 32 2).val

/-- Its fields, in the order of their digests. -/
def sampleFields : List (String × Envelope) :=
  [("ed25519-public", .leaf (.byteString (fill 32 1).val)), ("name", .ofText "alice"),
    ("ed25519-secret", .leaf (.byteString (fill 32 2).val)),
    ("created", .leaf (.tagged TAG_EPOCH_TIME (.unsigned 5)))]

lemma envelopeOf_sampleIdentity : sampleIdentity.envelopeOf Host.plain "alice" =
    node (leaf (.map (textEntries (BasicIdentity.entries (fill 32 0)))))
      (sampleFields.map fun f => ofPair (ofField f)) := by
  have hkeyed : (sampleFields.map fun f => ofPair (ofField f)).Pairwise fun a b =>
      a.digestN Host.plain < b.digestN Host.plain := by decide +kernel
  have hperm : (sampleIdentity.fields "alice").Perm sampleFields :=
    .trans (.swap _ _ _) (.cons _ (List.reverse_perm _).symm)
  have hassertions : (fieldPairs (sampleIdentity.fields "alice") []).map ofPair =
      (sampleIdentity.fields "alice").map fun f => ofPair (ofField f) := rfl
  refine record_eq_node (List.cons_ne_nil _ _) (fun a => ?_) hkeyed
  rw [← (hperm.map fun f => ofPair (ofField f)).mem_iff, ← hassertions]
  rfl

/-- The secret of a sample wallet. -/
def sampleSecret : SealedSecret where
  id := { raw := "k1", safe := by decide }
  label := ⟨"token", by decide⟩
  createdAt := 7
  salt := fill 32 3
  value := ⟨[1, 2, 3], by decide⟩
  unknown := []

/-- Its fields, in the order of their digests. -/
def sampleSecretFields : List (String × Envelope) :=
  [("salt", .leaf (.byteString (fill 32 3).val)),
    ("created", .leaf (.tagged TAG_EPOCH_TIME (.unsigned 7))), ("label", .ofText "token"),
    ("value", .leaf (.byteString [1, 2, 3]))]

lemma toEnvelope_sampleSecret : sampleSecret.toEnvelope Host.plain =
    node (leaf (.map (textEntries (SealedSecret.entries sampleSecret.id))))
      (sampleSecretFields.map fun f => ofPair (ofField f)) := by
  have hkeyed : (sampleSecretFields.map fun f => ofPair (ofField f)).Pairwise fun a b =>
      a.digestN Host.plain < b.digestN Host.plain := by decide +kernel
  have hperm : (SealedSecret.fields sampleSecret).Perm sampleSecretFields :=
    (List.reverse_perm [_, _, _]).symm.append_right [_]
  rw [SealedSecret.toEnvelope_eq]
  refine record_eq_node (List.cons_ne_nil _ _) (fun a => ?_) hkeyed
  rw [← (hperm.map fun f => ofPair (ofField f)).mem_iff]
  rfl

/-- An assertion that no wallet knows. -/
def sampleUnknown : Envelope × Envelope := (.ofText "note", .ofText "kept")

/-- A wallet with an active identity, a secret and an unknown assertion. -/
def sampleWallet : WalletData BasicIdentity where
  activeIdentity := some "alice"
  identities := { entries := [("alice", sampleIdentity)], ordered := List.pairwise_singleton _ _ }
  secrets := { records := [sampleSecret], ordered := List.pairwise_singleton _ _ }
  unknownAssertions := [sampleUnknown]

/-- The pairs of its container. -/
def samplePairs : List (Envelope × Envelope) :=
  [(.ofText "active-identity", .ofText "alice"),
    (.ofText "identity", node (leaf (.map (textEntries (BasicIdentity.entries (fill 32 0)))))
      (sampleFields.map fun f => ofPair (ofField f))),
    (.ofText "sealed-secret",
      node (leaf (.map (textEntries (SealedSecret.entries sampleSecret.id))))
        (sampleSecretFields.map fun f => ofPair (ofField f))),
    sampleUnknown]

lemma fieldPairs_sampleWallet :
    fieldPairs (fields Host.plain sampleWallet) sampleWallet.unknownAssertions = samplePairs := by
  rw [samplePairs, ← envelopeOf_sampleIdentity, ← toEnvelope_sampleSecret]
  rfl

lemma sampleWallet_foreign : sampleWallet.Foreign Host.plain where
  unknown u hu := by
    obtain rfl := List.mem_singleton.mp hu
    have hapart : KnownApart Host.plain ("note" :: KNOWN_PREDICATES) :=
      knownApart_of_nat (by decide) (by decide +kernel)
    refine ⟨fun hmem => ?_, .leaf (.text rfl), .leaf (.text rfl)⟩
    obtain ⟨k, hk, hdigest⟩ := List.mem_map.mp hmem
    have heq := hapart k (List.mem_cons_of_mem _ hk) "note" List.mem_cons_self hdigest
    rw [heq] at hk
    exact absurd hk (by decide)
  identities x hx u hu := by
    obtain rfl := List.mem_singleton.mp hx
    exact absurd hu List.not_mem_nil
  secrets s hs u hu := by
    obtain rfl := List.mem_singleton.mp hs
    exact absurd hu List.not_mem_nil

lemma sampleWallet_storable : sampleWallet.Storable Host.plain IDENTIKEY_PARAMS where
  walletType := rfl
  active _ _ := rfl
  identities x hx := by
    obtain rfl := List.mem_singleton.mp hx
    exact ⟨rfl, apart_of_nat (by decide +kernel)⟩
  secrets s hs := by
    obtain rfl := List.mem_singleton.mp hs
    exact ⟨rfl, apart_of_nat (by decide +kernel)⟩
  apart := by
    rw [fieldPairs_sampleWallet]
    exact apart_of_nat (by decide +kernel)

lemma sampleWallet_fingerprint : ∀ x ∈ sampleWallet.identities.entries,
    x.2.fingerprint = (fun _ => fill 32 0) x.2.ed25519.publicKey := by
  intro x hx
  obtain rfl := List.mem_singleton.mp hx
  rfl

lemma length_sampleWallet :
    ((walletEnvelope Host.plain IDENTIKEY_PARAMS sampleWallet).toCborData Host.plain).length <
      2 ^ 38 := by
  have hpairs : ∀ a ∈ samplePairs.map ofPair, a.width Host.plain ≤ 400 := by decide +kernel
  have hsubject : (leaf (.map (textEntries (entries IDENTIKEY_PARAMS)))).width Host.plain ≤
      100 := by decide +kernel
  have hadd := width_addAll hpairs (leaf (.map (textEntries (entries IDENTIKEY_PARAMS))))
  have hcount : (samplePairs.map ofPair).length = 4 := rfl
  have hlen := @length_toCborData_le Host.plain
    (walletEnvelope Host.plain IDENTIKEY_PARAMS sampleWallet)
  rw [walletEnvelope, fieldPairs_sampleWallet] at hlen ⊢
  rw [hcount] at hadd
  rw [record] at hlen ⊢
  omega

/-- Its file under a key, a salt and a nonce of zeros. -/
def sampleWalletFile : Bytes :=
  shell (fill 32 0) (fill 24 0)
    ((walletEnvelope Host.plain IDENTIKEY_PARAMS sampleWallet).toCborData Host.plain ++
      Aead.clearTag)

/-- The sample wallet is opened again. -/
theorem decryptWalletWithKey_encrypt_sampleWallet : ∃ wallet',
    decryptWalletWithKey IDENTIKEY_PARAMS (BasicIdentity.codec Host.plain fun _ => fill 32 0)
      Aead.clear (EnvelopeReader.canonical Host.plain) sampleWalletFile (fill 32 0) =
        .ok wallet' ∧
    sampleWallet.Same Host.plain wallet' := by
  have hclear : ∀ msg : Bytes, msg.length < 2 ^ 38 →
      Aead.clear.encrypt (fill 32 0) (fill 24 0) [] msg = some (msg ++ Aead.clearTag) :=
    fun _ hlen => if_pos hlen
  have hmsg := (@toEnvelope_eq_ok Host.plain (fun _ => fill 32 0) IDENTIKEY_PARAMS sampleWallet
    _).mpr ⟨sampleWallet_fingerprint, rfl⟩
  have hencrypt := encryptWalletWithKeyNonce_eq_ok.mpr
    ⟨_, _, hmsg, hclear _ length_sampleWallet, sampleWalletFile.eq_1⟩
  exact ((decryptWalletWithKey_encrypt (EnvelopeReader.canonical Host.plain) sampleWallet_foreign
    hencrypt).mpr sampleWallet_storable).2

/-! ### A name that does not come back -/

/-- A wallet in which only the active identity is set. -/
def activeWallet (name : String) : WalletData BasicIdentity :=
  { WalletData.new with activeIdentity := some name }

lemma activeWallet_foreign (name : String) : (activeWallet name).Foreign host where
  unknown u hu := absurd hu List.not_mem_nil
  identities x hx := absurd hx List.not_mem_nil
  secrets s hs := absurd hs List.not_mem_nil

lemma activeWallet_storable (name : String) :
    (activeWallet name).Storable Host.plain IDENTIKEY_PARAMS := by
  refine ⟨rfl, fun _ _ => rfl, fun x hx => absurd hx List.not_mem_nil,
    fun s hs => absurd hs List.not_mem_nil, ?_⟩
  rintro u hu v hv -
  exact (List.mem_singleton.mp hu).trans (List.mem_singleton.mp hv).symm

/-- The file of such a wallet under a key, a salt and a nonce of zeros. -/
def activeFile (host : Host) (name : String) : Bytes :=
  shell (fill 32 0) (fill 24 0)
    ((walletEnvelope host IDENTIKEY_PARAMS (activeWallet name)).toCborData host ++ Aead.clearTag)

lemma encrypt_activeWallet {name : String}
    (hlen : ((walletEnvelope host IDENTIKEY_PARAMS (activeWallet name)).toCborData host).length <
      2 ^ 38) :
    encryptWalletWithKeyNonce IDENTIKEY_PARAMS host (BasicIdentity.codec host blake3) Aead.clear
      (activeWallet name) (fill 32 0) (fill 32 0)
      (fill 24 0) = .ok (activeFile host name) := by
  have hfp : ∀ x ∈ (activeWallet name).identities.entries,
      x.2.fingerprint = blake3 x.2.ed25519.publicKey := fun x hx => absurd hx List.not_mem_nil
  exact encryptWalletWithKeyNonce_eq_ok.mpr
    ⟨_, _, toEnvelope_eq_ok.mpr ⟨hfp, rfl⟩, if_pos hlen, rfl⟩

/-- A name with an accent of its own comes back composed. -/
theorem decryptWalletWithKey_encrypt_composed :
    ¬ ∀ (host : Host) (blake3 : Bytes → Digest32) (aead : Aead) (reader : EnvelopeReader host)
      (params : WalletParams) (wallet : WalletData BasicIdentity) (key : Key) (salt : Salt)
      (nonce : Nonce) (f : Bytes), wallet.Foreign host →
      encryptWalletWithKeyNonce params host (BasicIdentity.codec host blake3) aead wallet key salt
        nonce = .ok f →
      extractSalt params f = .ok salt ∧ ∃ wallet',
        decryptWalletWithKey params (BasicIdentity.codec host blake3) aead reader f key =
          .ok wallet' ∧ wallet.Same host wallet' := by
  intro hall
  have hforeign := @activeWallet_foreign Host.composing "e\u0301"
  have hencrypt := @encrypt_activeWallet Host.composing (fun _ => fill 32 0)
    "e\u0301" (by decide)
  obtain ⟨-, wallet', hdecrypt, hsame⟩ := hall Host.composing _ _
    (EnvelopeReader.canonical Host.composing) _ _ _ _ _ _ hforeign hencrypt
  have hstorable := storable_of_decrypt hforeign hencrypt hdecrypt hsame
  exact absurd (hstorable.active "e\u0301" rfl) (by decide)

end Identikey.Wallet
