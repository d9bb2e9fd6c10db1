/-
What the codec of operations writes and reads.

The entries of the core map are already in the order in which a map keeps them.  The
envelope of an operation is the leaf with its core map and an assertion for each of
its attributes; reading undoes writing, assertion by assertion.
-/
import Mathlib.Data.List.ReduceOption
import Identikey.Lib.Fallible
import Identikey.Log.Codec

namespace Identikey.Log

open Lib Lib.Fallible Auth Dcbor Gordian

variable {host : Host}

/-! ### The core map -/

/-- The keys of the core map. -/
def CORE_KEYS : List String :=
  ["hlc", "body", "kind", "type", "actor", "parent-hashes", "format-version"]

lemma coreKeys_ascii : ∀ k ∈ CORE_KEYS, ∀ c ∈ k.toList, c.val < 128 := by decide

/-- The keys stand in the order of a map. -/
lemma coreKeys_ordered :
    (CORE_KEYS.map fun k => (CBOR.text k).toCborData host).Pairwise (· < ·) := by
  have hplain : (CORE_KEYS.map fun k => (CBOR.text k).toCborData host) =
      CORE_KEYS.map fun k => (CBOR.text k).toCborData Host.plain :=
    List.map_congr_left fun k hk => textData_of_ascii (coreKeys_ascii k hk)
  rw [hplain]
  decide

/-- The entries of the core map. -/
def coreEntries (op : Op) : List (CBOR × CBOR) :=
  (.text "hlc", .array [.unsigned op.hlc.l, .unsigned op.hlc.c]) ::
  ((op.body.map fun body => (CBOR.text "body", CBOR.byteString body)).toList ++
  [(.text "kind", .text op.kind), (.text "type", .text OP_TYPE),
    (.text "actor", .byteString op.actor.val),
    (.text "parent-hashes", .array (op.parentHashes.map fun p => .byteString p.val)),
    (.text "format-version", .unsigned FORMAT_VERSION)])

/-- The keys of the entries are the known ones. -/
lemma coreEntries_keys (op : Op) : ∀ x ∈ coreEntries op, ∃ k ∈ CORE_KEYS, x.1 = .text k := by
  intro x hx
  simp only [coreEntries, List.mem_cons, List.mem_append, Option.mem_toList,
    Option.map_eq_some_iff, List.not_mem_nil, or_false] at hx
  rcases hx with rfl | ⟨b, -, rfl⟩ | rfl | rfl | rfl | rfl | rfl
  all_goals exact ⟨_, by decide, rfl⟩

lemma coreEntries_keyed (op : Op) : Keyed (mapKey host) (coreEntries op) := by
  have hsub : ((coreEntries op).map (mapKey host)).Sublist
      (CORE_KEYS.map fun k => (CBOR.text k).toCborData host) := by
    cases hbody : op.body with
    | none =>
      simp only [coreEntries, hbody, mapKey, CORE_KEYS, Option.map_none, Option.toList_none,
        List.nil_append, List.map_cons, List.map_nil]
      exact .cons₂ _ (.cons _ (.refl _))
    | some body =>
      simp only [coreEntries, hbody, mapKey, CORE_KEYS, Option.map_some, Option.toList_some,
        List.cons_append, List.nil_append, List.map_cons, List.map_nil]
      exact .refl _
  exact List.pairwise_map.mp (coreKeys_ordered.sublist hsub)

lemma coreMap_entries (op : Op) : (coreMap host op).entries = coreEntries op := by
  have hfold : (coreMap host op).entries =
      (coreEntries op).foldl (fun m e => insertKeyed (mapKey host) e m) [] := by
    unfold coreMap coreEntries
    cases op.body <;> rfl
  have hinsert := foldl_insertKeyed (l := []) (@coreEntries_keyed host op)
  exact hfold.trans hinsert

/-- The core map is in canonical form if its kind is. -/
lemma coreEntries_canonical {op : Op} (hkind : host.nfc op.kind = op.kind) :
    ∀ e ∈ coreEntries op, e.1.Canonical host ∧ e.2.Canonical host := by
  have hkey : ∀ k ∈ CORE_KEYS, (CBOR.text k).Canonical host := fun k hk =>
    .text (nfc_of_ascii (coreKeys_ascii k hk))
  have hparents : (CBOR.array (op.parentHashes.map fun p => .byteString p.val)).Canonical host := by
    refine .array (List.forall_mem_map.mpr fun p _ => .byteString p.val)
  have hclock : (CBOR.array [.unsigned op.hlc.l, .unsigned op.hlc.c]).Canonical host := by
    refine .array fun v hv => ?_
    rcases List.mem_pair.mp hv with rfl | rfl
    · exact .unsigned _
    · exact .unsigned _
  have htype : (CBOR.text OP_TYPE).Canonical host := .text (nfc_of_ascii (by decide))
  intro e he
  simp only [coreEntries, List.mem_cons, List.mem_append, Option.mem_toList, Option.mem_def,
    Option.map_eq_some_iff, List.not_mem_nil, or_false] at he
  rcases he with rfl | ⟨b, -, rfl⟩ | rfl | rfl | rfl | rfl | rfl
  · exact ⟨hkey _ (by decide), hclock⟩
  · exact ⟨hkey _ (by decide), .byteString b⟩
  · exact ⟨hkey _ (by decide), .text hkind⟩
  · exact ⟨hkey _ (by decide), htype⟩
  · exact ⟨hkey _ (by decide), .byteString _⟩
  · exact ⟨hkey _ (by decide), hparents⟩
  · exact ⟨hkey _ (by decide), .unsigned _⟩

/-! ### Attributes -/

/-- The predicate for an attribute. -/
def Attribute.label : Attribute → String
  | .deps _ => PRED_DEPS
  | .nacks _ => PRED_NACKS
  | .targetFp _ => PRED_TARGET_FP
  | .timestamp _ => PRED_TIMESTAMP

/-- The predicates of attributes. -/
def LABELS : List String := [PRED_DEPS, PRED_NACKS, PRED_TARGET_FP, PRED_TIMESTAMP]

lemma labels_ascii : ∀ s ∈ LABELS, ∀ c ∈ s.toList, c.val < 128 := by decide

lemma label_mem_labels (a : Attribute) : a.label ∈ LABELS := by
  cases a <;> simp [Attribute.label, LABELS]

/-- The object for an attribute. -/
def Attribute.value : Attribute → CBOR
  | .deps d => .byteString d.val
  | .nacks n => .byteString n.val
  | .targetFp fp => .byteString fp.val
  | .timestamp ts => .tagged TAG_EPOCH_TIME (.unsigned ts)

/-- The assertion for an attribute. -/
def Attribute.assertion (a : Attribute) : Envelope := .assertion (.ofText a.label) (.leaf a.value)

/-- The attributes of an operation, in the order in which they are written. -/
def Op.attributes (op : Op) : List Attribute :=
  op.deps.map .deps ++ op.nacks.map .nacks ++ op.targetFp.toList.map .targetFp ++
    op.timestamp.toList.map .timestamp

/-- The envelope of an operation, its attributes under assertions. -/
def opEnvelope (host : Host) (op : Op) : Envelope :=
  (Envelope.leaf (.map (coreEntries op))).addAll host (op.attributes.map Attribute.assertion)

/-- The envelope of an operation whose kind is in normalisation form C is what its bytes say. -/
lemma opEnvelope_wellFormed {op : Op} (hkind : host.nfc op.kind = op.kind) :
    (opEnvelope host op).WellFormed host := by
  have hcanonical := @coreEntries_canonical host op hkind
  have hlabel : ∀ a : Attribute, (CBOR.text a.label).Canonical host := fun a =>
    .text (nfc_of_ascii (labels_ascii _ (label_mem_labels a)))
  refine Envelope.WellFormed.addAll (.leaf (.map (coreEntries_keyed op)
    (fun e he => (hcanonical e he).1) fun e he => (hcanonical e he).2)) ⟨rfl, rfl⟩ ?_ ?_
  · refine List.forall_mem_map.mpr fun a _ => .assertion (.leaf (hlabel a)) (.leaf ?_)
    cases a with
    | timestamp ts => exact .tagged (.unsigned ts)
    | _ => exact .byteString _
  · exact List.forall_mem_map.mpr fun a _ => trivial

/-- The operation can be encoded. -/
structure Op.Valid (host : Host) (op : Op) : Prop where
  kind : op.kind ≠ ""
  body : ∀ b, op.body = some b → assertCanonical host b = .ok ()

lemma sampleOp_valid : sampleOp.Valid host :=
  { kind := by decide, body := fun b hb => by cases hb }

/-- The encoder succeeds exactly on valid operations. -/
lemma toEnvelope_eq_ok {op : Op} {e : Envelope} :
    toEnvelope host op = .ok e ↔ op.Valid host ∧ e = opEnvelope host op := by
  have hbuild : toEnvelope host op = do
      op.validate
      assertBody host op
      return opEnvelope host op := by
    simp only [toEnvelope, opEnvelope, Op.attributes, List.map_append, List.map_map,
      Envelope.addAll, List.foldl_append, List.foldl_map, Map.toCBOR, coreMap_entries]
    cases op.targetFp <;> cases op.timestamp <;> rfl
  have hvalidate : op.validate = .ok () ↔ op.kind ≠ "" := by
    unfold Op.validate
    split_ifs with h <;> simp [h]
  have hassert : assertBody host op = .ok () ↔
      ∀ b, op.body = some b → assertCanonical host b = .ok () := by
    unfold assertBody
    cases op.body <;> simp
  rw [hbuild, bind_eq_ok]
  constructor
  · rintro ⟨⟨⟩, hkind, h⟩
    obtain ⟨⟨⟩, hbody, h⟩ := bind_eq_ok.mp h
    exact ⟨⟨hvalidate.mp hkind, hassert.mp hbody⟩, (pure_eq_ok.mp h).symm⟩
  · rintro ⟨hvalid, rfl⟩
    exact ⟨(), hvalidate.mpr hvalid.kind, bind_eq_ok.mpr ⟨(), hassert.mpr hvalid.body, rfl⟩⟩

variable {scheme : SignatureScheme}

/-- The assertion for a signature. -/
def signatureAssertion (sig : scheme.Signature) : Envelope :=
  .assertion (.knownValue SIGNED) (.leaf (scheme.toCbor sig))

/-- The envelope of a signed operation. -/
def signedEnvelope (host : Host) (signed : SignedOp scheme) : Envelope :=
  (Envelope.wrapped (opEnvelope host signed.op)).addAll host
    (signed.signatures.map signatureAssertion)

lemma toSignedEnvelope_eq_ok {signed : SignedOp scheme} {e : Envelope}
    (hsigned : signed.signatures ≠ []) :
    toSignedEnvelope host signed = .ok e ↔
      signed.op.Valid host ∧ e = signedEnvelope host signed := by
  unfold toSignedEnvelope
  rw [bind_eq_ok, signedEnvelope, Envelope.addAll, List.foldl_map]
  constructor
  · rintro ⟨inner, hinner, h⟩
    obtain ⟨hvalid, rfl⟩ := toEnvelope_eq_ok.mp hinner
    rw [if_neg hsigned] at h
    exact ⟨hvalid, (pure_eq_ok.mp h).symm⟩
  · rintro ⟨hvalid, rfl⟩
    refine ⟨_, toEnvelope_eq_ok.mpr ⟨hvalid, rfl⟩, ?_⟩
    rw [if_neg hsigned]
    rfl

lemma toSignedEnvelope_unsigned {signed : SignedOp scheme} (h : signed.signatures = []) :
    toSignedEnvelope host signed = toEnvelope host signed.op := by
  unfold toSignedEnvelope
  simp only [if_pos h]
  exact bind_pure _

/-- The bytes, the content hash and the bytes with signatures are those of the envelope built. -/
lemma encode_of_toEnvelope {op : Op} {e : Envelope} (h : toEnvelope host op = .ok e) :
    encode host op = .ok (e.toCborData host) := by
  rw [encode, h]
  rfl

lemma contentHash_of_toEnvelope {op : Op} {e : Envelope} (h : toEnvelope host op = .ok e)
    (blake3 : Bytes → Hash32) : contentHash host blake3 op = .ok (blake3 (e.toCborData host)) := by
  rw [contentHash, encode_of_toEnvelope h]
  rfl

lemma encodeSigned_of_toSignedEnvelope {signed : SignedOp scheme} {e : Envelope}
    (h : toSignedEnvelope host signed = .ok e) :
    encodeSigned host signed = .ok (e.toCborData host) := by
  rw [encodeSigned, h]
  rfl

/-! ### Reading the core map -/

lemma hash32_val (d : Hash32) : hash32 d.val = .ok d := dif_pos d.2

lemma intoUint_eq_ok {v : CBOR} {n : UInt64} : intoUint v = .ok n ↔ v = .unsigned n := by
  cases v <;> simp [intoUint]

lemma intoText_eq_ok {v : CBOR} {s : String} : intoText v = .ok s ↔ v = .text s := by
  cases v <;> simp [intoText]

lemma intoBytes_eq_ok {v : CBOR} {b : Bytes} : intoBytes v = .ok b ↔ v = .byteString b := by
  cases v <;> simp [intoBytes]

lemma intoArray_eq_ok {v : CBOR} {items : List CBOR} :
    intoArray v = .ok items ↔ v = .array items := by
  cases v <;> simp [intoArray]

lemma readHash_eq_ok {v : CBOR} {d : Hash32} : readHash v = .ok d ↔ v = .byteString d.val := by
  unfold readHash
  rw [bind_eq_ok]
  constructor
  · rintro ⟨b, hb, hd⟩
    unfold hash32 at hd
    split_ifs at hd with hlen
    rw [intoBytes_eq_ok.mp hb, ← Except.ok.inj hd]
  · rintro rfl
    exact ⟨d.val, rfl, hash32_val d⟩

lemma mapM_readHash_eq_ok {items : List CBOR} {ds : List Hash32} :
    items.mapM readHash = .ok ds ↔ items = ds.map fun d => .byteString d.val := by
  rw [mapM_eq_ok]
  constructor
  · intro h
    induction h with
    | nil => rfl
    | cons hhead htail ih => rw [List.map_cons, ← ih, readHash_eq_ok.mp hhead]
  · rintro rfl
    rw [List.forall₂_map_left_iff]
    exact List.forall₂_same.mpr fun d _ => readHash_eq_ok.mpr rfl

lemma field_eq_ok {core : List (CBOR × CBOR)} {k : String} {v : CBOR} :
    field host core k = .ok v ↔ getEntry host core (.text k) = some v := by
  unfold field
  cases getEntry host core (.text k) <;> simp

lemma field_of_mem {es : List (CBOR × CBOR)} (hes : Keyed (mapKey host) es) {k : String} {v : CBOR}
    (h : (CBOR.text k, v) ∈ es) : field host es k = .ok v := by
  rw [field, getEntry_of_mem hes h]

lemma readBody_coreEntries {op : Op} (h : op.Valid host) :
    readBody host (coreEntries op) = .ok op.body := by
  unfold readBody
  cases hbody : op.body with
  | some b =>
    have hmem : (CBOR.text "body", CBOR.byteString b) ∈ coreEntries op := by
      simp [coreEntries, hbody]
    rw [getEntry_of_mem (coreEntries_keyed op) hmem]
    simp only [intoBytes, ok_bind, h.body b hbody]
    rfl
  | none =>
    -- the other keys do not have the encoding of this one
    have hne : ∀ k ∈ CORE_KEYS.erase "body",
        (CBOR.text k).toCborData host ≠ (CBOR.text "body").toCborData host := by
      intro k hk
      rw [textData_of_ascii (coreKeys_ascii k (List.mem_of_mem_erase hk)),
        textData_of_ascii (coreKeys_ascii "body" (by decide))]
      revert k
      decide
    have hnone : getEntry host (coreEntries op) (.text "body") = none := by
      unfold getEntry
      rw [Option.map_eq_none_iff, List.find?_eq_none]
      intro e he heq
      have hkey := eq_of_beq heq
      simp only [coreEntries, hbody, Option.map_none, Option.toList_none, List.nil_append,
        List.mem_cons, List.not_mem_nil, or_false] at he
      rcases he with rfl | rfl | rfl | rfl | rfl | rfl
      all_goals exact hne _ (by decide) hkey
    rw [hnone]

/-- The operation without its attributes. -/
def Op.core (op : Op) : Op :=
  { op with deps := [], nacks := [], targetFp := none, timestamp := none }

/-- The core map of a valid operation is read back. -/
lemma readCore_coreEntries {op : Op} (h : op.Valid host) :
    readCore host (coreEntries op) = .ok op.core := by
  have hfield : ∀ {k : String} {v : CBOR}, (CBOR.text k, v) ∈ coreEntries op →
      field host (coreEntries op) k = .ok v := field_of_mem (coreEntries_keyed op)
  have hversion := hfield (k := "format-version") (v := .unsigned FORMAT_VERSION)
    (by simp [coreEntries])
  have htype := hfield (k := "type") (v := .text OP_TYPE) (by simp [coreEntries])
  have hkind := hfield (k := "kind") (v := .text op.kind) (by simp [coreEntries])
  have hhlc := hfield (k := "hlc") (v := .array [.unsigned op.hlc.l, .unsigned op.hlc.c])
    (by simp [coreEntries])
  have hactor := hfield (k := "actor") (v := .byteString op.actor.val) (by simp [coreEntries])
  have hparents := hfield (k := "parent-hashes")
    (v := .array (op.parentHashes.map fun p => .byteString p.val)) (by simp [coreEntries])
  have hclock : readHlc host (coreEntries op) =
      .ok (.unsigned op.hlc.l, .unsigned op.hlc.c) := by
    unfold readHlc
    rw [hhlc]
    rfl
  have hhashes : (op.parentHashes.map fun p => CBOR.byteString p.val).mapM readHash =
      .ok op.parentHashes := mapM_readHash_eq_ok.mpr rfl
  have hread : readHash (.byteString op.actor.val) = .ok op.actor := readHash_eq_ok.mpr rfl
  have hkindEnsure : ensure (op.kind ≠ "") LogError.emptyKind = .ok () := ensure_eq_ok.mpr h.kind
  unfold readCore
  simp only [hversion, htype, hkind, hclock, readBody_coreEntries h, hactor, hparents, intoUint,
    intoText, intoArray, ok_bind, hread, hhashes, hkindEnsure]
  rfl

/-- What the decoder finds in a core map. -/
structure CoreFields (host : Host) (core : List (CBOR × CBOR)) (op : Op) : Prop where
  version : getEntry host core (.text "format-version") = some (.unsigned FORMAT_VERSION)
  type : getEntry host core (.text "type") = some (.text OP_TYPE)
  kind : getEntry host core (.text "kind") = some (.text op.kind)
  hlc : getEntry host core (.text "hlc") =
    some (.array [.unsigned op.hlc.l, .unsigned op.hlc.c])
  body : getEntry host core (.text "body") = op.body.map CBOR.byteString
  actor : getEntry host core (.text "actor") = some (.byteString op.actor.val)
  parentHashes : getEntry host core (.text "parent-hashes") =
    some (.array (op.parentHashes.map fun p => .byteString p.val))
  valid : op.Valid host
  bare : op.core = op

/-- A core map that is read has these fields. -/
lemma coreFields_of_readCore {core : List (CBOR × CBOR)} {op : Op}
    (h : readCore host core = .ok op) : CoreFields host core op := by
  unfold readCore at h
  obtain ⟨v, hv, h₁⟩ := bind_eq_ok.mp h
  obtain ⟨version, hversion, h₂⟩ := bind_eq_ok.mp h₁
  obtain ⟨⟨⟩, hfour, h₃⟩ := bind_eq_ok.mp h₂
  obtain ⟨t, ht, h₄⟩ := bind_eq_ok.mp h₃
  obtain ⟨ty, hty, h₅⟩ := bind_eq_ok.mp h₄
  obtain ⟨⟨⟩, hop, h₆⟩ := bind_eq_ok.mp h₅
  obtain ⟨k, hk, h₇⟩ := bind_eq_ok.mp h₆
  obtain ⟨kind, hkind, h₈⟩ := bind_eq_ok.mp h₇
  obtain ⟨⟨⟩, hempty, h₉⟩ := bind_eq_ok.mp h₈
  clear h h₁ h₂ h₃ h₄ h₅ h₆ h₇ h₈
  obtain ⟨⟨l, c⟩, hlc, h₁⟩ := bind_eq_ok.mp h₉
  obtain ⟨body, hbody, h₂⟩ := bind_eq_ok.mp h₁
  obtain ⟨l', hl, h₃⟩ := bind_eq_ok.mp h₂
  obtain ⟨c', hc, h₄⟩ := bind_eq_ok.mp h₃
  obtain ⟨a, ha, h₅⟩ := bind_eq_ok.mp h₄
  obtain ⟨actor, hactor, h₆⟩ := bind_eq_ok.mp h₅
  obtain ⟨p, hp, h₇⟩ := bind_eq_ok.mp h₆
  obtain ⟨items, hitems, h₈⟩ := bind_eq_ok.mp h₇
  obtain ⟨parents, hparents, h⟩ := bind_eq_ok.mp h₈
  obtain rfl := pure_eq_ok.mp h
  have hclock : getEntry host core (.text "hlc") = some (.array [l, c]) := by
    unfold readHlc at hlc
    obtain ⟨w, hw, hlc⟩ := bind_eq_ok.mp hlc
    obtain ⟨ws, hws, hlc⟩ := bind_eq_ok.mp hlc
    rw [field_eq_ok.mp hw, intoArray_eq_ok.mp hws]
    split at hlc
    · cases hlc
      rfl
    · cases hlc
  have hbody' : getEntry host core (.text "body") = body.map CBOR.byteString ∧
      ∀ b, body = some b → assertCanonical host b = .ok () := by
    unfold readBody at hbody
    cases hget : getEntry host core (.text "body") with
    | none =>
      rw [hget] at hbody
      cases hbody
      exact ⟨rfl, fun b hb => by cases hb⟩
    | some w =>
      rw [hget] at hbody
      obtain ⟨b, hb, hbody⟩ := bind_eq_ok.mp hbody
      obtain ⟨⟨⟩, hcanonical, hbody⟩ := bind_eq_ok.mp hbody
      obtain rfl := pure_eq_ok.mp hbody
      rw [intoBytes_eq_ok.mp hb]
      exact ⟨rfl, fun b' hb' => by rwa [← Option.some.inj hb']⟩
  refine { version := ?_, type := ?_, kind := ?_, hlc := ?_, body := hbody'.1,
           actor := ?_, parentHashes := ?_, valid := ⟨ensure_eq_ok.mp hempty, hbody'.2⟩,
           bare := rfl }
  · rw [field_eq_ok.mp hv, intoUint_eq_ok.mp hversion, ensure_eq_ok.mp hfour]
  · rw [field_eq_ok.mp ht, intoText_eq_ok.mp hty, ensure_eq_ok.mp hop]
  · rw [field_eq_ok.mp hk, intoText_eq_ok.mp hkind]
  · rw [hclock, intoUint_eq_ok.mp hl, intoUint_eq_ok.mp hc]
  · rw [field_eq_ok.mp ha, readHash_eq_ok.mp hactor]
  · rw [field_eq_ok.mp hp, intoArray_eq_ok.mp hitems, mapM_readHash_eq_ok.mp hparents]

/-! ### Reading assertions -/

@[simp] lemma readAttribute_elided (d : Digest32) : readAttribute (.elided d) = .ok none := rfl

/-- The value of an attribute says that attribute under its predicate. -/
lemma attributeOf_value (a : Attribute) : attributeOf a.label a.value = .ok a := by
  have hread : ∀ d : Hash32, readHash (.byteString d.val) = .ok d := fun d =>
    readHash_eq_ok.mpr rfl
  have hne : PRED_NACKS ≠ PRED_DEPS ∧ PRED_TARGET_FP ≠ PRED_DEPS ∧ PRED_TARGET_FP ≠ PRED_NACKS := by
    decide
  obtain ⟨hnd, htd, htn⟩ := hne
  cases a with
  | deps d =>
    simp only [attributeOf, Attribute.label, Attribute.value, if_true, hread]
    rfl
  | nacks n =>
    simp only [attributeOf, Attribute.label, Attribute.value, if_neg hnd, if_true, hread]
    rfl
  | targetFp fp =>
    simp only [attributeOf, Attribute.label, Attribute.value, if_neg htd, if_neg htn, if_true,
      hread]
    rfl
  | timestamp ts => rfl

/-- The assertion for an attribute says that attribute. -/
lemma readAttribute_assertion (a : Attribute) : readAttribute a.assertion = .ok (some a) := by
  have hread : readAttribute a.assertion = some <$> attributeOf a.label a.value := rfl
  rw [hread, attributeOf_value]
  rfl

@[simp] lemma readSignature_elided (d : Digest32) :
    readSignature scheme (.elided d) = .ok none := rfl

/-- The assertion for a signature carries that signature. -/
lemma readSignature_assertion (sig : scheme.Signature) :
    readSignature scheme (signatureAssertion sig) = .ok (some sig) := by
  simp only [signatureAssertion, readSignature, Envelope.asPredicate, Envelope.subject,
    Envelope.asObject, Envelope.asKnownValue, Envelope.extractSubject, Option.bind_some,
    scheme.tryFromCbor_toCbor]
  rfl

/-- What one assertion does to what is gathered. -/
def gather (acc : Op × ℕ) : Option Attribute → Op × ℕ
  | none => (acc.1, acc.2 + 1)
  | some a => (a.apply acc.1, acc.2)

lemma readAssertion_eq (acc : Op × ℕ) (a : Envelope) :
    readAssertion acc a = gather acc <$> readAttribute a := by
  unfold readAssertion
  cases readAttribute a with
  | error e => rfl
  | ok x => cases x <;> rfl

/-- The operation with attributes added. -/
def Op.applyAll (op : Op) (as : List Attribute) : Op := as.foldl Attribute.apply op

lemma foldl_gather (xs : List (Option Attribute)) (acc : Op × ℕ) :
    xs.foldl gather acc = (acc.1.applyAll xs.reduceOption, acc.2 + xs.count none) := by
  induction xs generalizing acc with
  | nil => rfl
  | cons x xs ih =>
    rw [List.foldl_cons, ih]
    cases x with
    | none =>
      rw [List.reduceOption_cons_of_none, List.count_cons_self]
      simp only [gather]
      congr 1
      omega
    | some a =>
      rw [List.reduceOption_cons_of_some, List.count_cons_of_ne (by simp)]
      rfl

/-- What one assertion of the wrapper does to what is gathered. -/
def gatherOuter (acc : List scheme.Signature × ℕ) :
    Option scheme.Signature → List scheme.Signature × ℕ
  | none => (acc.1, acc.2 + 1)
  | some sig => (acc.1 ++ [sig], acc.2)

lemma readOuter_eq (acc : List scheme.Signature × ℕ) (a : Envelope) :
    readOuter scheme acc a = gatherOuter acc <$> readSignature scheme a := by
  unfold readOuter
  cases readSignature scheme a with
  | error e => rfl
  | ok x => cases x <;> rfl

lemma foldl_gatherOuter (ys : List (Option scheme.Signature)) (acc : List scheme.Signature × ℕ) :
    ys.foldl gatherOuter acc = (acc.1 ++ ys.reduceOption, acc.2 + ys.count none) := by
  induction ys generalizing acc with
  | nil => simp [List.reduceOption]
  | cons y ys ih =>
    rw [List.foldl_cons, ih]
    cases y with
    | none =>
      rw [List.reduceOption_cons_of_none, List.count_cons_self]
      simp only [gatherOuter]
      congr 1
      omega
    | some a =>
      rw [List.reduceOption_cons_of_some, List.count_cons_of_ne (by simp)]
      simp only [gatherOuter, List.append_assoc, List.singleton_append]

lemma reduceOption_map_some {β : Type} (ys : List β) : (ys.map some).reduceOption = ys := by
  induction ys with
  | nil => rfl
  | cons y ys ih => rw [List.map_cons, List.reduceOption_cons_of_some, ih]

lemma coreOf_eq_ok {inner : Envelope} {core : List (CBOR × CBOR)} :
    coreOf inner = .ok core ↔ inner.subject = .leaf (.map core) := by
  unfold coreOf
  cases inner.subject with
  | leaf c => cases c <;> simp [Envelope.tryLeaf]
  | _ => simp [Envelope.tryLeaf]

lemma unwrapOp_of_wrapped {e inner : Envelope} (h : e.subject = .wrapped inner) :
    unwrapOp e = (inner, e.assertions) := by
  rw [unwrapOp, Envelope.tryUnwrap_eq_some.mpr h]

/-- An operation stands inside a wrapper, with the assertions outside, or is not wrapped. -/
lemma unwrapOp_cases (e : Envelope) :
    (∃ inner, e.subject = .wrapped inner ∧ unwrapOp e = (inner, e.assertions)) ∨
      e.tryUnwrap = none ∧ unwrapOp e = (e, []) := by
  cases h : e.tryUnwrap with
  | some inner =>
    have hsubject := Envelope.tryUnwrap_eq_some.mp h
    exact .inl ⟨inner, hsubject, unwrapOp_of_wrapped hsubject⟩
  | none => exact .inr ⟨rfl, by rw [unwrapOp, h]⟩

/-- The decoder reads the core map, then every assertion inside, then every one outside. -/
theorem fromEnvelope_eq_ok {e : Envelope} {s : SignedOp scheme} :
    fromEnvelope host scheme e = .ok s ↔ ∃ core op xs ys,
      coreOf (unwrapOp e).1 = .ok core ∧ readCore host core = .ok op ∧
      List.Forall₂ (fun a x => readAttribute a = .ok x) (unwrapOp e).1.assertions xs ∧
      List.Forall₂ (fun a y => readSignature scheme a = .ok y) (unwrapOp e).2 ys ∧
      s = { op := (op.applyAll xs.reduceOption).sortLinks, signatures := ys.reduceOption,
            elided := xs.count none + ys.count none } := by
  unfold fromEnvelope
  generalize unwrapOp e = p
  obtain ⟨inner, outer⟩ := p
  constructor
  · intro h
    obtain ⟨core, hcore, h⟩ := bind_eq_ok.mp h
    obtain ⟨op, hop, h⟩ := bind_eq_ok.mp h
    obtain ⟨acc, hfold, h⟩ := bind_eq_ok.mp h
    obtain ⟨xs, hxs, rfl⟩ := (foldlM_eq readAssertion_eq).mp hfold
    obtain ⟨acc', hfold', h⟩ := bind_eq_ok.mp h
    obtain ⟨ys, hys, rfl⟩ := (foldlM_eq readOuter_eq).mp hfold'
    refine ⟨core, op, xs, ys, hcore, hop, hxs, hys, ?_⟩
    rw [foldl_gather, foldl_gatherOuter] at h
    rw [← pure_eq_ok.mp h]
    simp
  · rintro ⟨core, op, xs, ys, hcore, hop, hxs, hys, rfl⟩
    refine bind_eq_ok.mpr ⟨core, hcore, bind_eq_ok.mpr ⟨op, hop, bind_eq_ok.mpr ⟨_,
      (foldlM_eq readAssertion_eq).mpr ⟨xs, hxs, rfl⟩, bind_eq_ok.mpr ⟨_,
      (foldlM_eq readOuter_eq).mpr ⟨ys, hys, rfl⟩, ?_⟩⟩⟩⟩
    rw [foldl_gather, foldl_gatherOuter]
    simp [pure, Except.pure]

/-! ### What the attributes add up to -/

namespace Attribute

/-- A dependency. -/
def dep? : Attribute → Option Hash32
  | .deps d => some d
  | _ => none

/-- A negative acknowledgement. -/
def nack? : Attribute → Option Hash32
  | .nacks n => some n
  | _ => none

/-- A target. -/
def target? : Attribute → Option Hash32
  | .targetFp fp => some fp
  | _ => none

/-- A time. -/
def time? : Attribute → Option UInt64
  | .timestamp ts => some ts
  | _ => none

@[simp] lemma dep?_eq_some {a : Attribute} {d : Hash32} : a.dep? = some d ↔ a = .deps d := by
  cases a <;> simp [dep?]

@[simp] lemma nack?_eq_some {a : Attribute} {n : Hash32} : a.nack? = some n ↔ a = .nacks n := by
  cases a <;> simp [nack?]

@[simp] lemma target?_eq_some {a : Attribute} {fp : Hash32} :
    a.target? = some fp ↔ a = .targetFp fp := by
  cases a <;> simp [target?]

@[simp] lemma time?_eq_some {a : Attribute} {ts : UInt64} :
    a.time? = some ts ↔ a = .timestamp ts := by
  cases a <;> simp [time?]

end Attribute

section Attributes

variable {op : Op}

@[simp] lemma deps_mem_attributes {d : Hash32} : .deps d ∈ op.attributes ↔ d ∈ op.deps := by
  simp [Op.attributes]

@[simp] lemma nacks_mem_attributes {n : Hash32} : .nacks n ∈ op.attributes ↔ n ∈ op.nacks := by
  simp [Op.attributes]

@[simp] lemma targetFp_mem_attributes {fp : Hash32} :
    .targetFp fp ∈ op.attributes ↔ op.targetFp = some fp := by
  simp [Op.attributes]

@[simp] lemma timestamp_mem_attributes {ts : UInt64} :
    .timestamp ts ∈ op.attributes ↔ op.timestamp = some ts := by
  simp [Op.attributes]

end Attributes

/-- Links are gathered in order, the other attributes keep the last value. -/
lemma applyAll_eq (op : Op) (as : List Attribute) :
    op.applyAll as =
      { op with
        deps := op.deps ++ as.filterMap Attribute.dep?
        nacks := op.nacks ++ as.filterMap Attribute.nack?
        targetFp := (as.filterMap Attribute.target?).getLast?.or op.targetFp
        timestamp := (as.filterMap Attribute.time?).getLast?.or op.timestamp } := by
  have hlast : ∀ {α : Type} (x : α) (l : List α) (o : Option α),
      (x :: l).getLast?.or o = l.getLast?.or (some x) := by
    intro α x l o
    rw [List.getLast?_cons]
    cases l.getLast? <;> rfl
  induction as generalizing op with
  | nil => simp [Op.applyAll]
  | cons a as ih =>
    rw [show op.applyAll (a :: as) = (a.apply op).applyAll as from rfl, ih]
    cases a with
    | deps d => simp [Attribute.apply, List.filterMap_cons, Attribute.dep?, Attribute.nack?,
        Attribute.target?, Attribute.time?]
    | nacks n => simp [Attribute.apply, List.filterMap_cons, Attribute.dep?, Attribute.nack?,
        Attribute.target?, Attribute.time?]
    | targetFp fp => simp only [Attribute.apply, List.filterMap_cons, Attribute.dep?,
        Attribute.nack?, Attribute.target?, Attribute.time?, hlast]
    | timestamp ts => simp only [Attribute.apply, List.filterMap_cons, Attribute.dep?,
        Attribute.nack?, Attribute.target?, Attribute.time?, hlast]

end Identikey.Log
