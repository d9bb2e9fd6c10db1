/-
What the codec of the wallet container writes and reads.

The container is a record too: its fields are the active identity, the identities and
the secrets.  The decoder reads assertion by assertion; what it gathers is what is read
from each of them.
-/
import Identikey.Secret.Store
import Identikey.Wallet.BasicExact

namespace Identikey.Wallet

open Lib Lib.Fallible Auth Dcbor Gordian Gordian.Envelope Secret

variable {host : Host} {blake3 : Bytes → Digest32} {params : WalletParams}

/-! ### The record -/

lemma known_ascii : ∀ k ∈ KNOWN_PREDICATES, ∀ c ∈ k.toList, c.val < 128 := by decide

lemma knownApart : KnownApart host KNOWN_PREDICATES :=
  knownApart_of_nat known_ascii (by decide +kernel)

/-- The keys of the subject. -/
def SUBJECT_KEYS : List String := ["type", "format-version"]

lemma subjectKeys_ascii : ∀ k ∈ SUBJECT_KEYS, ∀ c ∈ k.toList, c.val < 128 := by decide

/-- The entries of the subject. -/
def entries (params : WalletParams) : List (String × CBOR) :=
  [("type", .text params.walletType), ("format-version", .unsigned params.formatVersion.toUInt64)]

lemma entries_keyed (params : WalletParams) :
    Keyed (mapKey host) (textEntries (entries params)) :=
  @textEntries_keyed host _ SUBJECT_KEYS rfl subjectKeys_ascii (by decide)

lemma entries_canonical (htype : host.nfc params.walletType = params.walletType) :
    (CBOR.map (textEntries (entries params))).Canonical host := by
  refine textEntries_canonical (entries_keyed params) subjectKeys_ascii ?_
  simp only [entries, List.forall_mem_cons]
  exact ⟨.text htype, .unsigned _, by simp⟩

lemma map_normal_entries (htype : host.nfc params.walletType = params.walletType) :
    (textEntries (entries params)).map (normalEntry host) = textEntries (entries params) :=
  CBOR.map.inj (normal_map host _ ▸ (entries_canonical htype).normal_eq)

lemma subject_entries (params : WalletParams) :
    (walletSubject host params).entries = textEntries (entries params) :=
  (entries_keyed params).foldl_insertKeyed_eq (.refl _)

/-- The fields of a wallet. -/
def fields (host : Host) (wallet : WalletData BasicIdentity) : List (String × Envelope) :=
  (wallet.activeIdentity.toList.map fun name => ("active-identity", .ofText name)) ++
  (wallet.identities.entries.map fun x => ("identity", x.2.envelopeOf host x.1)) ++
  (wallet.secrets.records.map fun secret => ("sealed-secret", secret.toEnvelope host))

lemma mem_fields {wallet : WalletData BasicIdentity} {f : String × Envelope} :
    f ∈ fields host wallet ↔
      (∃ name, wallet.activeIdentity = some name ∧ f = ("active-identity", .ofText name)) ∨
      (∃ x ∈ wallet.identities.entries, f = ("identity", x.2.envelopeOf host x.1)) ∨
      ∃ secret ∈ wallet.secrets.records, f = ("sealed-secret", secret.toEnvelope host) := by
  simp only [fields, List.mem_append, List.mem_map, Option.mem_toList, Option.mem_def, or_assoc,
    eq_comm (b := f)]

lemma active_mem_fields {wallet : WalletData BasicIdentity} {o : Envelope} :
    ("active-identity", o) ∈ fields host wallet ↔
      ∃ name, wallet.activeIdentity = some name ∧ o = .ofText name := by
  simp [mem_fields]

lemma identity_mem_fields {wallet : WalletData BasicIdentity} {o : Envelope} :
    ("identity", o) ∈ fields host wallet ↔
      ∃ x ∈ wallet.identities.entries, o = x.2.envelopeOf host x.1 := by
  simp [mem_fields]

lemma secret_mem_fields {wallet : WalletData BasicIdentity} {o : Envelope} :
    ("sealed-secret", o) ∈ fields host wallet ↔
      ∃ secret ∈ wallet.secrets.records, o = secret.toEnvelope host := by
  simp [mem_fields]

lemma fields_known {wallet : WalletData BasicIdentity} :
    ∀ f ∈ fields host wallet, f.1 ∈ KNOWN_PREDICATES := by
  intro f hf
  rcases mem_fields.mp hf with ⟨name, -, rfl⟩ | ⟨x, -, rfl⟩ | ⟨secret, -, rfl⟩ <;>
    simp [KNOWN_PREDICATES]

lemma fields_ascii {wallet : WalletData BasicIdentity} :
    ∀ f ∈ fields host wallet, ∀ c ∈ f.1.toList, c.val < 128 := fun f hf =>
  known_ascii f.1 (fields_known f hf)

/-- The envelope of a wallet. -/
def walletEnvelope (host : Host) (params : WalletParams) (wallet : WalletData BasicIdentity) :
    Envelope :=
  record host (textEntries (entries params))
    (fieldPairs (fields host wallet) wallet.unknownAssertions)

/-- The identities are added one by one, if their fingerprints are right. -/
lemma addIdentities_eq_ok {l : List (String × BasicIdentity)} {e e' : Envelope} :
    l.foldlM (addIdentity host (BasicIdentity.codec host blake3)) e = .ok e' ↔
      (∀ x ∈ l, x.2.fingerprint = blake3 x.2.ed25519.publicKey) ∧
        e' = l.foldl (fun e x =>
          e.addAssertion host (.ofText "identity") (x.2.envelopeOf host x.1)) e := by
  induction l generalizing e with
  | nil =>
    rw [List.foldlM_nil, pure_eq_ok]
    simp [eq_comm]
  | cons x l ih =>
    have hstep : ∀ e₁, addIdentity host (BasicIdentity.codec host blake3) e x = .ok e₁ ↔
        x.2.fingerprint = blake3 x.2.ed25519.publicKey ∧
          e₁ = e.addAssertion host (.ofText "identity") (x.2.envelopeOf host x.1) := by
      intro e₁
      unfold addIdentity
      rw [bind_eq_ok]
      constructor
      · rintro ⟨o, ho, h⟩
        obtain ⟨hfp, rfl⟩ := BasicIdentity.toEnvelope_eq_ok.mp ho
        exact ⟨hfp, (pure_eq_ok.mp h).symm⟩
      · rintro ⟨hfp, rfl⟩
        exact ⟨_, BasicIdentity.toEnvelope_eq_ok.mpr ⟨hfp, rfl⟩, rfl⟩
    rw [List.foldlM_cons, bind_eq_ok, List.forall_mem_cons, List.foldl_cons]
    simp only [hstep, ih]
    constructor
    · rintro ⟨e₁, ⟨hfp, rfl⟩, hl, rfl⟩
      exact ⟨⟨hfp, hl⟩, rfl⟩
    · rintro ⟨⟨hfp, hl⟩, rfl⟩
      exact ⟨_, ⟨hfp, rfl⟩, hl, rfl⟩

lemma walletToEnvelope_eq_ok {wallet : WalletData BasicIdentity} {e : Envelope} :
    walletToEnvelope host (BasicIdentity.codec host blake3) params wallet = .ok e ↔
      (∀ x ∈ wallet.identities.entries, x.2.fingerprint = blake3 x.2.ed25519.publicKey) ∧
        e = walletEnvelope host params wallet := by
  have hbuild : walletEnvelope host params wallet =
      wallet.unknownAssertions.foldl (fun e u => e.addAssertionEnvelope host (.ofPair u))
        (wallet.secrets.records.foldl (fun e secret =>
          e.addAssertion host (.ofText "sealed-secret") (secret.toEnvelope host))
          (wallet.identities.entries.foldl (fun e x =>
            e.addAssertion host (.ofText "identity") (x.2.envelopeOf host x.1))
            (addActive host (Envelope.leaf (walletSubject host params).toCBOR)
              wallet.activeIdentity))) := by
    unfold walletEnvelope record fieldPairs addAll fields
    rw [Map.toCBOR, subject_entries]
    simp only [List.map_append, List.foldl_append, List.foldl_map, List.map_map]
    cases wallet.activeIdentity <;> rfl
  unfold walletToEnvelope
  rw [bind_eq_ok, hbuild]
  simp only [addIdentities_eq_ok]
  constructor
  · rintro ⟨e₁, ⟨hfp, rfl⟩, h⟩
    exact ⟨hfp, (pure_eq_ok.mp h).symm⟩
  · rintro ⟨hfp, rfl⟩
    exact ⟨_, ⟨hfp, rfl⟩, rfl⟩

lemma toEnvelope_eq_ok {wallet : WalletData BasicIdentity} {b : Bytes} :
    toEnvelope host (BasicIdentity.codec host blake3) params wallet = .ok b ↔
      (∀ x ∈ wallet.identities.entries, x.2.fingerprint = blake3 x.2.ed25519.publicKey) ∧
        b = (walletEnvelope host params wallet).toCborData host := by
  unfold toEnvelope
  rw [bind_eq_ok]
  simp only [walletToEnvelope_eq_ok, pure_eq_ok]
  constructor
  · rintro ⟨_, ⟨hfp, rfl⟩, rfl⟩
    exact ⟨hfp, rfl⟩
  · rintro ⟨hfp, rfl⟩
    exact ⟨_, ⟨hfp, rfl⟩, rfl⟩

/-! ### What one assertion holds -/

section Items

variable {I : Type} {codec : WalletIdentity I} {a : Envelope}

lemma tryLeaf_text {p : Envelope} {s : String} :
    p.tryLeaf.bind CBOR.toText = some s ↔ p = .ofText s := by
  unfold ofText
  cases p with
  | leaf c => cases c <;> simp [tryLeaf, CBOR.toText]
  | _ => simp [tryLeaf]

/-- The two predicates that are known, and what is read under each. -/
lemma readKnown_eq_some {p o : Envelope} {item : Item I} :
    readKnown host codec p o = .ok (some item) ↔
      (p = .ofText "sealed-secret" ∧
        ∃ secret, SealedSecret.fromEnvelope host o = .ok secret ∧ item = .secret secret) ∨
      (p = .ofText "identity" ∧
        ∃ x, codec.fromEnvelope o = .ok x ∧ item = .identity x.1 x.2) := by
  unfold readKnown
  simp only [← tryLeaf_text]
  cases p.tryLeaf.bind CBOR.toText with
  | none => simp
  | some s =>
    by_cases hs : s = "sealed-secret"
    · subst hs
      cases SealedSecret.fromEnvelope host o <;>
        simp [Except.mapError, bind, Except.bind, pure, Except.pure, eq_comm]
    · by_cases hi : s = "identity"
      · subst hi
        cases codec.fromEnvelope o <;>
          simp [bind, Except.bind, pure, Except.pure, eq_comm]
      · simp [hs, hi]

lemma readKnown_secret {p o : Envelope} {secret : SealedSecret} :
    readKnown host codec p o = .ok (some (.secret secret)) ↔
      p = .ofText "sealed-secret" ∧ SealedSecret.fromEnvelope host o = .ok secret := by
  simp [readKnown_eq_some]

lemma readKnown_identity {p o : Envelope} {name : String} {identity : I} :
    readKnown host codec p o = .ok (some (.identity name identity)) ↔
      p = .ofText "identity" ∧ codec.fromEnvelope o = .ok (name, identity) := by
  rw [readKnown_eq_some]
  simp

lemma readKnown_ne_unknown {p o : Envelope} {u : Envelope × Envelope} :
    readKnown host codec p o ≠ .ok (some (.unknown u)) := by
  simp [readKnown_eq_some]

/-- What is not put to the unknown assertions is read under one of the known predicates. -/
lemma readItem_eq_readKnown {item : Item I} (hitem : ∀ u, item ≠ .unknown u) :
    readItem host codec a = .ok (some item) ↔
      ∃ p o, a.subject = .assertion p o ∧ readKnown host codec p o = .ok (some item) := by
  unfold readItem
  cases a.subject with
  | assertion p o =>
    simp only [assertion.injEq]
    have hunique : (∃ p' o', (p = p' ∧ o = o') ∧ readKnown host codec p' o' = .ok (some item)) ↔
        readKnown host codec p o = .ok (some item) := by
      constructor
      · rintro ⟨_, _, ⟨rfl, rfl⟩, h⟩
        exact h
      · exact fun h => ⟨p, o, ⟨rfl, rfl⟩, h⟩
    rw [hunique]
    split_ifs with hknown
    · exact Iff.rfl
    · constructor
      · intro h
        exact absurd (Option.some.inj (Except.ok.inj h)).symm (hitem _)
      · intro h
        obtain ⟨rfl, -⟩ | ⟨rfl, -⟩ := readKnown_eq_some.mp h
        · exact absurd (mem_knownDigests (by decide)) hknown
        · exact absurd (mem_knownDigests (by decide)) hknown
  | _ => simp

/-- An item that is read under one predicate stands in an assertion with it. -/
lemma readItem_of_readKnown {item : Item I} (hitem : ∀ u, item ≠ .unknown u) {k : String}
    {P : Envelope → Prop}
    (hknown : ∀ p o, readKnown host codec p o = .ok (some item) ↔ p = .ofText k ∧ P o) :
    readItem host codec a = .ok (some item) ↔ ∃ o, a.subject = .assertion (.ofText k) o ∧ P o := by
  rw [readItem_eq_readKnown hitem]
  simp only [hknown]
  constructor
  · rintro ⟨_, o, hsubject, rfl, h⟩
    exact ⟨o, hsubject, h⟩
  · rintro ⟨o, hsubject, h⟩
    exact ⟨_, o, hsubject, rfl, h⟩

lemma readItem_secret {secret : SealedSecret} :
    readItem host codec a = .ok (some (.secret secret)) ↔
      ∃ o, a.subject = .assertion (.ofText "sealed-secret") o ∧
        SealedSecret.fromEnvelope host o = .ok secret :=
  readItem_of_readKnown (by simp) fun _ _ => readKnown_secret

lemma readItem_identity {name : String} {identity : I} :
    readItem host codec a = .ok (some (.identity name identity)) ↔
      ∃ o, a.subject = .assertion (.ofText "identity") o ∧
        codec.fromEnvelope o = .ok (name, identity) :=
  readItem_of_readKnown (by simp) fun _ _ => readKnown_identity

/-- An identity that was passed can be read. -/
lemma exists_identity {o : Envelope} {b : Option (Item I)} (h : readItem host codec a = .ok b)
    (hsubject : a.subject = .assertion (.ofText "identity") o) :
    ∃ x, codec.fromEnvelope o = .ok x := by
  unfold readItem readKnown at h
  rw [hsubject] at h
  simp only [if_pos (@mem_knownDigests host KNOWN_PREDICATES "identity" (by decide))] at h
  obtain ⟨x, hx, -⟩ := bind_eq_ok.mp h
  exact ⟨x, hx⟩

/-- A secret that was passed can be read. -/
lemma exists_secret {o : Envelope} {b : Option (Item I)} (h : readItem host codec a = .ok b)
    (hsubject : a.subject = .assertion (.ofText "sealed-secret") o) :
    ∃ s, SealedSecret.fromEnvelope host o = .ok s := by
  unfold readItem readKnown at h
  rw [hsubject] at h
  simp only [if_pos (@mem_knownDigests host KNOWN_PREDICATES "sealed-secret" (by decide))] at h
  obtain ⟨s, hs, -⟩ := bind_eq_ok.mp h
  exact ⟨s, mapError_eq_ok.mp hs⟩

lemma readItem_unknown {u : Envelope × Envelope} :
    readItem host codec a = .ok (some (.unknown u)) ↔
      unknownPair host KNOWN_PREDICATES a = some u := by
  unfold readItem unknownPair
  cases a.subject with
  | assertion p o =>
    simp only
    split_ifs with hknown
    · simp [readKnown_ne_unknown]
    · simp
  | _ => simp

end Items

/-! ### What the loop gathers -/

section Gathering

variable {I : Type} {codec : WalletIdentity I}

lemma Identities.get_eq_none {m : Identities I} {name : String} :
    m.get name = none ↔ ∀ x ∈ m.entries, x.1 ≠ name := by
  unfold Identities.get
  rw [Option.map_eq_none_iff, List.find?_eq_none]
  simp

lemma Identities.get_eq_some {m : Identities I} {name : String} {identity : I} :
    m.get name = some identity ↔ (name, identity) ∈ m.entries := by
  unfold Identities.get
  constructor
  · intro h
    obtain ⟨x, hx, rfl⟩ := Option.map_eq_some_iff.mp h
    obtain rfl : x.1 = name := by simpa using List.find?_some hx
    exact List.mem_of_find?_eq_some hx
  · intro h
    obtain ⟨x, hx⟩ : ∃ x, m.entries.find? (fun x => x.1 = name) = some x :=
      Option.isSome_iff_exists.mp (List.find?_isSome.mpr ⟨_, h, by simp⟩)
    have hname : x.1 = name := by simpa using List.find?_some hx
    have heq : x = (name, identity) :=
      m.ordered.inj (List.mem_of_find?_eq_some hx) h (congrArg utf8 hname)
    rw [hx, heq]
    rfl

/-- A name that is not there yet is put to the others. -/
lemma Identities.mem_insert {m : Identities I} {name : String} {identity : I}
    (h : m.get name = none) {x : String × I} :
    x ∈ (m.insert name identity).entries ↔ x = (name, identity) ∨ x ∈ m.entries := by
  unfold Identities.insert
  rw [mem_insertKeyed m.ordered]
  refine or_congr_right ⟨And.left, fun hx => ⟨hx, fun hkey => ?_⟩⟩
  exact Identities.get_eq_none.mp h x hx (utf8_injective hkey)

lemma get_eq_none {store : MemorySecretStore} {id : SecretId} :
    store.get id = none ↔ ∀ secret ∈ store.records, secret.id ≠ id := by
  unfold MemorySecretStore.get
  rw [List.find?_eq_none]
  simp

lemma get_eq_some {store : MemorySecretStore} {id : SecretId} {secret : SealedSecret} :
    store.get id = some secret ↔ secret ∈ store.records ∧ secret.id = id := by
  unfold MemorySecretStore.get
  constructor
  · intro h
    exact ⟨List.mem_of_find?_eq_some h, by simpa using List.find?_some h⟩
  · rintro ⟨hmem, rfl⟩
    obtain ⟨x, hx⟩ : ∃ x, store.records.find? (fun s => s.id = secret.id) = some x :=
      Option.isSome_iff_exists.mp (List.find?_isSome.mpr ⟨_, hmem, by simp⟩)
    have hid : x.id = secret.id := by simpa using List.find?_some hx
    have hkey : x.key = secret.key := by rw [SealedSecret.key, hid, SealedSecret.key]
    rw [hx, store.ordered.inj (List.mem_of_find?_eq_some hx) hmem hkey]

lemma insertSealed_eq_ok {store store' : MemorySecretStore} {secret : SealedSecret} :
    store.insertSealed secret = .ok store' ↔ store.get secret.id = none ∧
      store'.records = insertKeyed SealedSecret.key secret store.records := by
  unfold MemorySecretStore.insertSealed
  rw [bind_eq_ok]
  simp only [ensure_eq_ok]
  constructor
  · rintro ⟨-, hfree, h⟩
    exact ⟨hfree, (congrArg MemorySecretStore.records (pure_eq_ok.mp h)).symm⟩
  · rintro ⟨hfree, h⟩
    refine ⟨(), hfree, pure_eq_ok.mpr ?_⟩
    cases store'
    cases h
    rfl

lemma mem_insertSealed {store store' : MemorySecretStore} {secret : SealedSecret}
    (h : store.insertSealed secret = .ok store') {x : SealedSecret} :
    x ∈ store'.records ↔ x = secret ∨ x ∈ store.records := by
  obtain ⟨hfree, hrecords⟩ := insertSealed_eq_ok.mp h
  rw [hrecords, mem_insertKeyed store.ordered]
  refine or_congr_right ⟨And.left, fun hx => ⟨hx, fun hkey => ?_⟩⟩
  exact get_eq_none.mp hfree x hx (SecretId.ext (utf8_injective hkey))

/-- The pair of an unknown assertion. -/
def Item.unknown? : Item I → Option (Envelope × Envelope)
  | .unknown u => some u
  | _ => none

/-- What is in a wallet after items were put to another. -/
structure Gathered (wallet wallet' : WalletData I) (items : List (Item I)) : Prop where
  active : wallet'.activeIdentity = wallet.activeIdentity
  identities : ∀ x, x ∈ wallet'.identities.entries ↔
    x ∈ wallet.identities.entries ∨ .identity x.1 x.2 ∈ items
  secrets : ∀ s, s ∈ wallet'.secrets.records ↔ s ∈ wallet.secrets.records ∨ .secret s ∈ items
  unknown : wallet'.unknownAssertions =
    wallet.unknownAssertions ++ items.filterMap Item.unknown?

/-- One item is put to a wallet. -/
lemma gathered_putItem {wallet wallet' : WalletData I} {item : Item I}
    (h : putItem wallet item = .ok wallet') : Gathered wallet wallet' [item] := by
  cases item with
  | identity name identity =>
    obtain ⟨_, hfree, h⟩ := bind_eq_ok.mp h
    rw [ensure_eq_ok, Option.isNone_iff_eq_none] at hfree
    obtain rfl := pure_eq_ok.mp h
    refine ⟨rfl, fun x => ?_, by simp, by simp [Item.unknown?]⟩
    rw [Identities.mem_insert hfree, List.mem_singleton, Item.identity.injEq, or_comm, Prod.ext_iff]
  | secret secret =>
    obtain ⟨secrets, hput, h⟩ := bind_eq_ok.mp h
    rw [mapError_eq_ok] at hput
    obtain rfl := pure_eq_ok.mp h
    refine ⟨rfl, by simp, fun s => ?_, by simp [Item.unknown?]⟩
    rw [mem_insertSealed hput, List.mem_singleton, Item.secret.injEq, or_comm]
  | unknown u =>
    obtain rfl := Except.ok.inj h
    exact ⟨rfl, by simp, by simp, rfl⟩

/-- All items are put to a wallet. -/
lemma gathered_of_foldlM {items : List (Item I)} {wallet wallet' : WalletData I}
    (h : items.foldlM putItem wallet = .ok wallet') : Gathered wallet wallet' items := by
  induction items generalizing wallet with
  | nil =>
    obtain rfl := pure_eq_ok.mp h
    exact ⟨rfl, by simp, by simp, by simp⟩
  | cons item items ih =>
    rw [List.foldlM_cons, bind_eq_ok] at h
    obtain ⟨w, hw, h⟩ := h
    have hfirst := gathered_putItem hw
    have hrest := ih h
    refine ⟨hrest.active.trans hfirst.active, fun x => ?_, fun s => ?_, ?_⟩
    · rw [hrest.identities, hfirst.identities, List.mem_singleton, List.mem_cons, or_assoc]
    · rw [hrest.secrets, hfirst.secrets, List.mem_singleton, List.mem_cons, or_assoc]
    · rw [hrest.unknown, hfirst.unknown, List.append_assoc, ← List.filterMap_append,
        List.singleton_append]

/-- The items have different names and ids. -/
def Item.Distinct : Item I → Item I → Prop
  | .identity name _, .identity name' _ => name ≠ name'
  | .secret s, .secret s' => s.id ≠ s'.id
  | _, _ => True

/-- The name or id of the item is not in the wallet. -/
def Item.Fresh (wallet : WalletData I) : Item I → Prop
  | .identity name _ => wallet.identities.get name = none
  | .secret s => wallet.secrets.get s.id = none
  | .unknown _ => True

/-- A fresh item can be put, and items that differ from it stay fresh. -/
lemma exists_putItem {wallet : WalletData I} {item : Item I} (hfresh : item.Fresh wallet) :
    ∃ wallet', putItem wallet item = .ok wallet' ∧
      ∀ item', item.Distinct item' → item'.Fresh wallet → item'.Fresh wallet' := by
  cases item with
  | identity name identity =>
    have hput : putItem wallet (.identity name identity) =
        .ok { wallet with identities := wallet.identities.insert name identity } :=
      bind_eq_ok.mpr ⟨(), ensure_eq_ok.mpr (Option.isNone_iff_eq_none.mpr hfresh), rfl⟩
    refine ⟨_, hput, fun item' hdistinct h => ?_⟩
    cases item' with
    | identity name' identity' =>
      refine Identities.get_eq_none.mpr fun x hx => ?_
      rcases (Identities.mem_insert hfresh).mp hx with rfl | hx
      · exact hdistinct
      · exact Identities.get_eq_none.mp h x hx
    | secret s => exact h
    | unknown u => trivial
  | secret secret =>
    obtain ⟨secrets, hsecrets⟩ : ∃ secrets, wallet.secrets.insertSealed secret = .ok secrets :=
      ⟨_, bind_eq_ok.mpr ⟨(), ensure_eq_ok.mpr hfresh, rfl⟩⟩
    have hput : putItem wallet (.secret secret) = .ok { wallet with secrets } :=
      bind_eq_ok.mpr ⟨secrets, mapError_eq_ok.mpr hsecrets, rfl⟩
    refine ⟨_, hput, fun item' hdistinct h => ?_⟩
    cases item' with
    | identity name' identity' => exact h
    | secret s =>
      refine get_eq_none.mpr fun x hx => ?_
      rcases (mem_insertSealed hsecrets).mp hx with rfl | hx
      · exact hdistinct
      · exact get_eq_none.mp h x hx
    | unknown u => trivial
  | unknown u => exact ⟨_, rfl, fun item' _ h => by cases item' <;> exact h⟩

/-- Items that differ among each other can be put one after the other. -/
lemma exists_foldlM {items : List (Item I)} {wallet : WalletData I}
    (hdistinct : items.Pairwise Item.Distinct) (hfresh : ∀ item ∈ items, item.Fresh wallet) :
    ∃ wallet', items.foldlM putItem wallet = .ok wallet' := by
  induction items generalizing wallet with
  | nil => exact ⟨wallet, rfl⟩
  | cons item items ih =>
    obtain ⟨hfirst, hrest⟩ := List.pairwise_cons.mp hdistinct
    obtain ⟨hitem, hitems⟩ := List.forall_mem_cons.mp hfresh
    obtain ⟨w, hw, hkeep⟩ := exists_putItem hitem
    obtain ⟨w', hw'⟩ := ih hrest fun i hi => hkeep i (hfirst i hi) (hitems i hi)
    exact ⟨w', bind_eq_ok.mpr ⟨w, hw, hw'⟩⟩

lemma readAssertion_eq (wallet : WalletData I) (a : Envelope) :
    readAssertion host codec wallet a =
      readItem host codec a >>= fun o => o.elim (pure wallet) (putItem wallet) := by
  unfold readAssertion
  congr 1
  funext o
  cases o <;> rfl

/-! ### What the decoder finds -/

/-- The decoder finds this wallet. -/
structure Reads (host : Host) (codec : WalletIdentity I) (params : WalletParams) (e : Envelope)
    (wallet : WalletData I) : Prop where
  subject : ∃ m, e.subject = .leaf (.map m) ∧
    getAs host m "type" CBOR.toText = some params.walletType ∧
    getAs host m "format-version" CBOR.toU32 = some params.formatVersion
  active : wallet.activeIdentity =
    orNone (e.extractOptionalObjectForPredicate host CBOR.toText "active-identity")
  identities : ∀ x, x ∈ wallet.identities.entries ↔ ∃ a ∈ e.assertions, ∃ o,
    a.subject = .assertion (.ofText "identity") o ∧ codec.fromEnvelope o = .ok x
  secrets : ∀ s, s ∈ wallet.secrets.records ↔ ∃ a ∈ e.assertions, ∃ o,
    a.subject = .assertion (.ofText "sealed-secret") o ∧ SealedSecret.fromEnvelope host o = .ok s
  unknown : wallet.unknownAssertions = e.unknownAssertions host KNOWN_PREDICATES
  all : ∀ a ∈ e.assertions, ∃ b, readItem host codec a = .ok b

/-- The type of a container that was read is in normalisation form C. -/
lemma Reads.nfc_walletType {e : Envelope} {wallet : WalletData I}
    (h : Reads host codec params e wallet) (hwf : e.WellFormed host) :
    host.nfc params.walletType = params.walletType := by
  obtain ⟨m, hm, htype, -⟩ := h.subject
  have hwfm := hwf.subject
  rw [hm] at hwfm
  cases hwfm with
  | leaf hcanonical => exact nfc_of_getAs hcanonical htype

lemma walletFromEnvelope_eq_ok {e : Envelope} {wallet : WalletData I} :
    walletFromEnvelope host codec params e = .ok wallet ↔
      (∃ m, e.subject = .leaf (.map m) ∧
        getAs host m "type" CBOR.toText = some params.walletType ∧
        getAs host m "format-version" CBOR.toU32 = some params.formatVersion) ∧
      ∃ bs, List.Forall₂ (fun a b => readItem host codec a = .ok b) e.assertions bs ∧
        (bs.filterMap id).foldlM putItem { WalletData.new with
          activeIdentity :=
            orNone (e.extractOptionalObjectForPredicate host CBOR.toText "active-identity") } =
          .ok wallet := by
  unfold walletFromEnvelope
  simp only [bind_eq_ok, okOr_eq_ok, ensure_eq_ok, subjectMap_eq_ok, foldlM_read readAssertion_eq]
  constructor
  · rintro ⟨m, hm, ty, hty, -, rfl, v, hv, -, rfl, h⟩
    exact ⟨⟨m, hm, hty, hv⟩, h⟩
  · rintro ⟨⟨m, hm, hty, hv⟩, h⟩
    exact ⟨m, hm, _, hty, (), rfl, _, hv, (), rfl, h⟩

lemma reads_of_walletFromEnvelope {e : Envelope} {wallet : WalletData I}
    (h : walletFromEnvelope host codec params e = .ok wallet) :
    Reads host codec params e wallet := by
  obtain ⟨hsubject, bs, hbs, hput⟩ := walletFromEnvelope_eq_ok.mp h
  have hgathered := gathered_of_foldlM hput
  have hmem : ∀ item, item ∈ bs.filterMap id ↔
      ∃ a ∈ e.assertions, readItem host codec a = .ok (some item) := by
    intro item
    rw [List.mem_filterMap, ← mem_of_forall₂ hbs]
    simp
  refine ⟨hsubject, hgathered.active, fun x => ?_, fun s => ?_, ?_, exists_of_forall₂ hbs⟩
  · rw [hgathered.identities, hmem]
    simp only [readItem_identity]
    exact or_iff_right List.not_mem_nil
  · rw [hgathered.secrets, hmem]
    simp only [readItem_secret]
    exact or_iff_right List.not_mem_nil
  · rw [hgathered.unknown, List.filterMap_filterMap]
    refine filterMap_of_forall₂ (fun a b hab => ?_) hbs
    refine Option.ext fun u => ?_
    rw [← @readItem_unknown host I codec, hab, Except.ok.injEq]
    cases b with
    | none => simp
    | some item => cases item <;> simp [Item.unknown?]

lemma fromEnvelope_eq_ok {reader : EnvelopeReader host} {b : Bytes} {wallet : WalletData I} :
    fromEnvelope codec params reader b = .ok wallet ↔
      ∃ e, reader.tryFromCborData b = some e ∧
        walletFromEnvelope host codec params e = .ok wallet := by
  unfold fromEnvelope
  rw [bind_eq_ok]
  simp only [okOr_eq_ok]

end Gathering

end Identikey.Wallet
