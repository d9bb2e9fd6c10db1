/-
Loading and saving a wallet without edits.

The decoder of the wallet container passes over what it does not expect: further keys
of a subject, assertions that are elided or carry assertions of their own, an
`active-identity` that is not a text, the tag of a time.  None of it is kept, so it is
lost when the wallet is written again.  What comes back as it was are the containers in
the form in which the encoder writes them, with unknown assertions of any kind.
-/
import Identikey.Wallet.RoundTrip

namespace Identikey.Wallet

open Lib Lib.Fallible Auth Dcbor Gordian Gordian.Envelope Secret

variable {host : Host} {blake3 : Bytes → Digest32} {params : WalletParams}

/-! ### The encoder's form -/

/-- The object of a field as the encoder writes it. -/
def PlainObject (host : Host) (k : String) (o : Envelope) : Prop :=
  if k = "active-identity" then ∃ s, o = .ofText s
  else if k = "identity" then BasicIdentity.Plain host o
  else SealedSecret.Plain host o

/-- The container has the form in which wallets are written: no further entry in the subject,
plain assertions, one active identity at most and that a bare text, and identities and secrets
in the form in which these are written. -/
structure Plain (host : Host) (params : WalletParams) (e : Envelope) : Prop where
  subject : e.subject = .leaf (.map (textEntries (entries params)))
  bare : Bare host KNOWN_PREDICATES (PlainObject host) e
  once : (e.objectsForPredicate host "active-identity").length ≤ 1

/-! ### Writing what was read -/

section Reads

variable {e : Envelope} {wallet : WalletData BasicIdentity}

/-- The unknown assertions of a wallet that was read are unknown. -/
lemma Reads.foreign (h : Reads host (BasicIdentity.codec host blake3) params e wallet)
    (hwf : e.WellFormed host) : wallet.Foreign host where
  unknown u hu := foreign_of_mem_unknown hwf (h.unknown ▸ hu)
  identities x hx u hu := by
    obtain ⟨a, ha, o, hsubject, ho⟩ := (h.identities x).mp hx
    have hwfa := (hwf.of_mem_assertions ha).subject
    rw [hsubject] at hwfa
    cases hwfa with
    | assertion _ hwfo =>
      rw [(BasicIdentity.fromEnvelope_eq_ok.mp ho).unknown] at hu
      exact foreign_of_mem_unknown hwfo hu
  secrets s hs u hu := by
    obtain ⟨a, ha, o, hsubject, ho⟩ := (h.secrets s).mp hs
    have hwfa := (hwf.of_mem_assertions ha).subject
    rw [hsubject] at hwfa
    cases hwfa with
    | assertion _ hwfo =>
      rw [(SealedSecret.fromEnvelope_eq_ok.mp ho).unknown] at hu
      exact foreign_of_mem_unknown hwfo hu

/-- What is written has the encoder's form. -/
lemma plain_normal_walletEnvelope (htype : host.nfc params.walletType = params.walletType)
    (hforeign : wallet.Foreign host) :
    Plain host params ((walletEnvelope host params wallet).normal host) := by
  have hplain : ∀ f ∈ fields host wallet, PlainObject host f.1 (f.2.normal host) := by
    intro f hf
    rcases mem_fields.mp hf with ⟨name, -, rfl⟩ | ⟨x, hx, rfl⟩ | ⟨secret, hs, rfl⟩
    · exact ⟨host.nfc name, rfl⟩
    · show BasicIdentity.Plain host ((x.2.envelopeOf host x.1).normal host)
      rw [BasicIdentity.normal_envelopeOf]
      exact BasicIdentity.plain_envelopeOf
        (List.forall_mem_map.mpr fun u hu => (hforeign.identities x hx u hu).normal)
    · exact SealedSecret.plain_normal_toEnvelope fun u hu => (hforeign.secrets secret hs u hu).1
  have honce : ∀ o o', ("active-identity", o) ∈ writtenFields host wallet →
      ("active-identity", o') ∈ writtenFields host wallet → o = o' := by
    intro o o' ho ho'
    obtain ⟨name, hname, rfl⟩ := active_mem_writtenFields.mp ho
    obtain ⟨name', hname', rfl⟩ := active_mem_writtenFields.mp ho'
    rw [Option.some.inj (hname.symm.trans hname')]
  rw [normal_walletEnvelope htype]
  refine ⟨record_subject, bare_record (fun f hf => ⟨writtenFields_known f hf, ?_⟩)
    (unknown_written hforeign), length_objects_record knownApart writtenFields_known
      (unknown_written hforeign) (by decide) honce⟩
  obtain ⟨f', hf', rfl⟩ := List.mem_map.mp hf
  exact hplain f' hf'

/-- A plain container is what is written of the wallet that is read from it. -/
lemma walletEnvelope_of_plain (hwf : e.WellFormed host) (hplain : Plain host params e)
    (h : Reads host (BasicIdentity.codec host blake3) params e wallet) :
    walletEnvelope host params wallet = e := by
  -- an assertion with a known text for its predicate, and its object
  have hassertion : ∀ a ∈ e.assertions, ∀ k ∈ KNOWN_PREDICATES, ∀ o,
      a.subject = .assertion (.ofText k) o →
        o ∈ e.objectsForPredicate host k ∧ o.WellFormed host ∧ PlainObject host k o := by
    intro a ha k hk o hsubject
    have ho : o ∈ e.objectsForPredicate host k :=
      mem_objectsForPredicate.mpr ⟨a, ha, _, hsubject, rfl⟩
    have hwfa := (hwf.of_mem_assertions ha).subject
    rw [hsubject] at hwfa
    cases hwfa with
    | assertion hp hwfo => exact ⟨ho, hwfo, (hplain.bare.object knownApart hk ho).2⟩
  have hidentity : ∀ a ∈ e.assertions, ∀ o x, a.subject = .assertion (.ofText "identity") o →
      (BasicIdentity.codec host blake3).fromEnvelope o = .ok x → x.2.envelopeOf host x.1 = o := by
    intro a ha o x hsubject hx
    obtain ⟨-, hwfo, hP⟩ := hassertion a ha "identity" (by decide) o hsubject
    exact BasicIdentity.envelopeOf_of_plain hwfo hP (BasicIdentity.fromEnvelope_eq_ok.mp hx)
  have hsecret : ∀ a ∈ e.assertions, ∀ o s, a.subject = .assertion (.ofText "sealed-secret") o →
      SealedSecret.fromEnvelope host o = .ok s → s.toEnvelope host = o := by
    intro a ha o s hsubject hs
    obtain ⟨-, hwfo, hP⟩ := hassertion a ha "sealed-secret" (by decide) o hsubject
    exact SealedSecret.toEnvelope_of_plain hwfo hP (SealedSecret.fromEnvelope_eq_ok.mp hs)
  have hactive : ∀ o, o ∈ e.objectsForPredicate host "active-identity" ↔
      ∃ name, wallet.activeIdentity = some name ∧ o = .ofText name := by
    have hform : ∀ o ∈ e.objectsForPredicate host "active-identity", ∃ s, o = .ofText s :=
      fun o ho => (hplain.bare.object knownApart (by decide) ho).2
    intro o
    rw [h.active]
    constructor
    · intro ho
      obtain ⟨s, rfl⟩ := hform o ho
      exact ⟨s, orNone_extractOptional.mpr ⟨_, eq_singleton hplain.once ho, rfl⟩, rfl⟩
    · rintro ⟨name, hname, rfl⟩
      obtain ⟨o, ho, hv⟩ := orNone_extractOptional.mp hname
      have hmem : o ∈ e.objectsForPredicate host "active-identity" := ho ▸ List.mem_singleton_self o
      obtain ⟨s, rfl⟩ := hform o hmem
      rw [← Option.some.inj hv]
      exact hmem
  refine hplain.bare.record_eq hwf knownApart hplain.subject fields_known ?_ fun u => ?_
  · intro k hk o
    simp only [KNOWN_PREDICATES, List.mem_cons, List.not_mem_nil, or_false] at hk
    rcases hk with rfl | rfl | rfl
    · rw [hactive, active_mem_fields]
    · rw [identity_mem_fields]
      constructor
      · intro ho
        have ha := (hplain.bare.object knownApart (by decide) ho).1
        obtain ⟨b, hb⟩ := h.all _ ha
        obtain ⟨x, hx⟩ := exists_identity hb rfl
        have hmem := (h.identities x).mpr ⟨_, ha, o, rfl, hx⟩
        exact ⟨x, hmem, (hidentity _ ha o x rfl hx).symm⟩
      · rintro ⟨x, hx, rfl⟩
        obtain ⟨a, ha, o, hsubject, ho⟩ := (h.identities x).mp hx
        rw [hidentity a ha o x hsubject ho]
        exact (hassertion a ha _ (by decide) o hsubject).1
    · rw [secret_mem_fields]
      constructor
      · intro ho
        have ha := (hplain.bare.object knownApart (by decide) ho).1
        obtain ⟨b, hb⟩ := h.all _ ha
        obtain ⟨s, hs⟩ := exists_secret hb rfl
        have hmem := (h.secrets s).mpr ⟨_, ha, o, rfl, hs⟩
        exact ⟨s, hmem, (hsecret _ ha o s rfl hs).symm⟩
      · rintro ⟨s, hs, rfl⟩
        obtain ⟨a, ha, o, hsubject, ho⟩ := (h.secrets s).mp hs
        rw [hsecret a ha o s hsubject ho]
        exact (hassertion a ha _ (by decide) o hsubject).1
  · rw [h.unknown]

end Reads

section Container

variable {reader : EnvelopeReader host} {b : Bytes} {e : Envelope}
  {wallet : WalletData BasicIdentity}

/-- A plain container is written again as it was. -/
lemma toEnvelope_of_plain (he : reader.tryFromCborData b = some e) (hplain : Plain host params e)
    (hread : walletFromEnvelope host (BasicIdentity.codec host blake3) params e = .ok wallet) :
    toEnvelope host (BasicIdentity.codec host blake3) params wallet = .ok b := by
  obtain ⟨hwf, -, hdata⟩ := (reader.reads b e).mp he
  have hreads := reads_of_walletFromEnvelope hread
  have hfp : ∀ x ∈ wallet.identities.entries, x.2.fingerprint = blake3 x.2.ed25519.publicKey := by
    intro x hx
    obtain ⟨a, -, o, -, ho⟩ := (hreads.identities x).mp hx
    exact (BasicIdentity.fromEnvelope_eq_ok.mp ho).fingerprint
  exact toEnvelope_eq_ok.mpr ⟨hfp, by rw [walletEnvelope_of_plain hwf hplain hreads, hdata]⟩

/-- A storable wallet is read from its container, which is plain. -/
lemma exists_plain_of_storable (reader : EnvelopeReader host) (hforeign : wallet.Foreign host)
    (hfp : ∀ x ∈ wallet.identities.entries, x.2.fingerprint = blake3 x.2.ed25519.publicKey)
    (hstorable : wallet.Storable host params)
    (hfit : (walletEnvelope host params wallet).Fits host) :
    ∃ e wallet', reader.tryFromCborData ((walletEnvelope host params wallet).toCborData host) =
        some e ∧ Plain host params e ∧
      walletFromEnvelope host (BasicIdentity.codec host blake3) params e = .ok wallet' ∧
      wallet.Same host wallet' := by
  obtain ⟨wallet', hread, hsame⟩ := exists_same_of_storable hforeign hfp hstorable rfl
  have hwf := @walletEnvelope_wellFormed host params wallet hstorable.walletType hforeign
  exact ⟨_, wallet', reader.tryFromCborData_toCborData hwf hfit,
    plain_normal_walletEnvelope hstorable.walletType hforeign, hread, hsame⟩

end Container

/-- **A wallet that is loaded and saved without edits is the same exactly if it was plain.**  What
an application wrote in another form, or beside what is known, is lost. -/
theorem toEnvelope_fromEnvelope (reader : EnvelopeReader host) {b : Bytes}
    {wallet : WalletData BasicIdentity}
    (h : fromEnvelope (BasicIdentity.codec host blake3) params reader b = .ok wallet) :
    toEnvelope host (BasicIdentity.codec host blake3) params wallet = .ok b ↔
      ∃ e, reader.tryFromCborData b = some e ∧ Plain host params e := by
  obtain ⟨e, he, hread⟩ := fromEnvelope_eq_ok.mp h
  constructor
  · intro hto
    refine ⟨e, he, ?_⟩
    obtain ⟨hwf, hfit, hdata⟩ := (reader.reads b e).mp he
    have hreads := reads_of_walletFromEnvelope hread
    have hb := (toEnvelope_eq_ok.mp hto).2
    have hnormal : e = (walletEnvelope host params wallet).normal host := by
      rw [← hwf.normal_eq]
      exact (Envelope.toCborData_eq_iff hfit).mp (hdata.trans hb)
    rw [hnormal]
    exact plain_normal_walletEnvelope (hreads.nfc_walletType hwf) (hreads.foreign hwf)
  · rintro ⟨e', he', hplain⟩
    obtain rfl := Option.some.inj (he.symm.trans he')
    exact toEnvelope_of_plain he hplain hread

/-- The container of the sample wallet, with its unknown assertion, is written again as it was. -/
theorem toEnvelope_fromEnvelope_sampleWallet : ∃ wallet,
    fromEnvelope (BasicIdentity.codec Host.plain fun _ => fill 32 0)
      IDENTIKEY_PARAMS (EnvelopeReader.canonical Host.plain)
      ((walletEnvelope Host.plain IDENTIKEY_PARAMS sampleWallet).toCborData Host.plain) =
        .ok wallet ∧
    sampleWallet.Same Host.plain wallet ∧
    toEnvelope Host.plain (BasicIdentity.codec Host.plain fun _ => fill 32 0)
      IDENTIKEY_PARAMS wallet =
        .ok ((walletEnvelope Host.plain IDENTIKEY_PARAMS sampleWallet).toCborData
          Host.plain) := by
  have hfit : (walletEnvelope Host.plain IDENTIKEY_PARAMS sampleWallet).Fits Host.plain :=
    lt_trans length_sampleWallet (by decide)
  obtain ⟨e, wallet, he, hplain, hread, hsame⟩ := @exists_plain_of_storable Host.plain
    (fun _ => fill 32 0) IDENTIKEY_PARAMS _ (EnvelopeReader.canonical Host.plain)
    sampleWallet_foreign sampleWallet_fingerprint sampleWallet_storable hfit
  have hfrom := fromEnvelope_eq_ok.mpr ⟨e, he, hread⟩
  exact ⟨wallet, hfrom, hsame, (toEnvelope_fromEnvelope _ hfrom).mpr ⟨e, he, hplain⟩⟩

/-- A container with an elided assertion. -/
def elidedContainer : Envelope :=
  .node (.leaf (.map (textEntries (entries IDENTIKEY_PARAMS))))
    [.elided (fill 32 0)]

lemma elidedContainer_wellFormed : elidedContainer.WellFormed Host.plain := by
  refine .node (.leaf (entries_canonical rfl)) (List.cons_ne_nil _ _) ?_ ?_
    (List.pairwise_singleton _ _)
  · exact List.forall_mem_singleton.mpr (.elided _)
  · exact List.forall_mem_singleton.mpr trivial

/-- An elided assertion is passed over when the container is read, and is not written again. -/
theorem toEnvelope_fromEnvelope_elided :
    ¬ ∀ (host : Host) (blake3 : Bytes → Digest32) (params : WalletParams)
      (reader : EnvelopeReader host) (b : Bytes) (wallet : WalletData BasicIdentity),
      fromEnvelope (BasicIdentity.codec host blake3) params reader b = .ok wallet →
        toEnvelope host (BasicIdentity.codec host blake3) params wallet = .ok b := by
  intro hall
  have hreader : (EnvelopeReader.canonical Host.plain).tryFromCborData
      (elidedContainer.toCborData Host.plain) = some elidedContainer :=
    ((EnvelopeReader.canonical Host.plain).reads _ _).mpr
      ⟨elidedContainer_wellFormed, by decide, rfl⟩
  have hread : walletFromEnvelope Host.plain
      (BasicIdentity.codec Host.plain fun _ => fill 32 0) IDENTIKEY_PARAMS
      elidedContainer = .ok WalletData.new := by
    refine walletFromEnvelope_eq_ok.mpr ⟨⟨_, rfl, ?_, ?_⟩, [none], .cons rfl .nil, rfl⟩
    · exact getAs_of_mem (entries_keyed _) (v := .text IDENTIKEY_PARAMS.walletType)
        (by simp [entries])
    · exact getAs_of_mem (entries_keyed _)
        (v := .unsigned IDENTIKEY_PARAMS.formatVersion.toUInt64) (by simp [entries])
  have hsave := hall Host.plain _ _ _ _ _ (fromEnvelope_eq_ok.mpr ⟨_, hreader, hread⟩)
  have hdata := (toEnvelope_eq_ok.mp hsave).2
  have hfit : elidedContainer.Fits Host.plain := by decide
  cases (Envelope.toCborData_eq_iff hfit).mp hdata

end Identikey.Wallet
