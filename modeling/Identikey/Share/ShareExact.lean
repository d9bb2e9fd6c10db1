/-
The CBOR of shares, part by part.

Each map that a share is written into is told by its fields, in the order of their encoded
keys, and each reader accepts exactly the maps with these fields.  A reader takes an epoch
from any integer that is read as it; what is written is never negative.
-/
import Identikey.Dcbor.Accepted
import Identikey.Share.Share

set_option linter.dupNamespace false

namespace Identikey.Share

open Lib Lib.Fallible Auth Dcbor

variable {curves : Curves} {host : Host}

lemma toArray_eq_some {n : ℕ} {b : Bytes} {a : ByteArrayOf n} :
    toArray n b = some a ↔ b = a.val := by
  unfold toArray
  split_ifs with h
  · rw [Option.some.injEq, Subtype.ext_iff]
  · constructor
    · intro hnone
      cases hnone
    · rintro rfl
      exact absurd a.2 h

/-! ### Maps -/

section ParseMap

variable {α : Type} {e : ShareError} {read : List (CBOR × CBOR) → Except ShareError α} {a : α}

lemma parseMap_eq_ok {b : Bytes} :
    parseMap host b e read = .ok a ↔ ∃ entries, decodeCbor host b = .ok (.map entries) ∧
      (CBOR.map entries).toCborData host = b ∧ read entries = .ok a := by
  unfold parseMap
  simp only [bind_eq_ok, mapError_eq_ok, ensure_eq_ok]
  constructor
  · rintro ⟨cbor, hdecode, _, hsame, h⟩
    cases cbor with
    | map entries => exact ⟨entries, hdecode, hsame, h⟩
    | _ => cases h
  · rintro ⟨entries, hdecode, hsame, h⟩
    exact ⟨_, hdecode, (), hsame, h⟩

/-- The bytes of a value in canonical form are read as that value. -/
lemma parseMap_toCborData {x : CBOR} (h : x.Canonical host) (hfit : x.Fits host) :
    parseMap host (x.toCborData host) e read = .ok a ↔
      ∃ entries, x = .map entries ∧ read entries = .ok a := by
  rw [parseMap_eq_ok, decodeCbor_toCborData h hfit]
  constructor
  · rintro ⟨entries, hx, -, hread⟩
    exact ⟨entries, Except.ok.inj hx, hread⟩
  · rintro ⟨entries, rfl, hread⟩
    exact ⟨entries, rfl, rfl, hread⟩

end ParseMap

/-! ### Wraps -/

def WRAP_KEYS : List String := ["alg", "epoch", "nonce", "ephemeral", "recipient", "ciphertext"]

lemma wrapKeys_ascii : ∀ k ∈ WRAP_KEYS, ∀ c ∈ k.toList, c.val < 128 := by decide

/-- The fields of a wrap, its epoch as it stands in the map. -/
def wrapFields (w : Wrap) (epoch : CBOR) : List (String × CBOR) :=
  [("alg", .text w.alg), ("epoch", epoch), ("nonce", .byteString w.nonce.val),
    ("ephemeral", .byteString w.ephemeral), ("recipient", .byteString w.recipient),
    ("ciphertext", .byteString w.ciphertext)]

lemma wrapFields_keyed (w : Wrap) (epoch : CBOR) :
    Keyed (mapKey host) (textEntries (wrapFields w epoch)) :=
  @textEntries_keyed host _ WRAP_KEYS rfl wrapKeys_ascii (by decide)

lemma wrap_entries (w : Wrap) :
    (w.toMap host).entries = textEntries (wrapFields w (.unsigned w.epoch)) :=
  @foldl_insert_eq host _ [_, _, _, _, _, _] (wrapFields_keyed w _) rfl (by simp [wrapFields])

/-- The algorithm of a wrap whose keys pass the checks. -/
lemma alg_of_checkWrapKeys {alg : String} {recipient ephemeral : Bytes}
    (h : checkWrapKeys curves alg recipient ephemeral = .ok ()) :
    alg = ALG_X25519 ∨ alg = ALG_P256 := by
  unfold checkWrapKeys at h
  split_ifs at h with hx hp
  · exact .inl hx
  · exact .inr hp

lemma readWrap_eq_ok {entries : List (CBOR × CBOR)} (h : (CBOR.map entries).Canonical host)
    {w : Wrap} :
    readWrap curves host entries = .ok w ↔
      checkWrapKeys curves w.alg w.recipient w.ephemeral = .ok () ∧
        ∃ v, v.toU64 = some w.epoch ∧ entries = textEntries (wrapFields w v) := by
  unfold readWrap
  simp (disch := decide) only [bind_eq_ok, ensure_eq_ok, okOr_eq_ok, pure_eq_ok, getAs_toText h,
    getAs_toByteString h, getAs_toU64 h, toArray_eq_some]
  simp only [eq_textEntries_iff h.keyed (wrapFields_keyed w _)]
  constructor
  · rintro ⟨_, hlen, alg, halg, _, -, r, hr, e, he, _, hn, c, hc, epoch, ⟨v, hv, hepoch⟩, nonce,
      rfl, _, hcheck, rfl⟩
    refine ⟨hcheck, v, hepoch, hlen, ?_⟩
    simp only [wrapFields, List.forall_mem_cons]
    exact ⟨halg, hv, hn, he, hr, hc, by simp⟩
  · rintro ⟨hcheck, v, hepoch, hlen, hmem⟩
    simp only [wrapFields, List.forall_mem_cons] at hmem
    obtain ⟨halg, hv, hn, he, hr, hc, -⟩ := hmem
    exact ⟨(), hlen, _, halg, (), alg_of_checkWrapKeys hcheck, _, hr, _, he, _, hn, _, hc, _,
      ⟨v, hv, hepoch⟩, _, rfl, (), hcheck, rfl⟩

/-- In any map, the recipient of a wrap is the field of that name, and its keys pass the checks. -/
lemma of_readWrap {entries : List (CBOR × CBOR)} {w : Wrap}
    (h : readWrap curves host entries = .ok w) :
    getAs host entries "recipient" CBOR.toByteString = some w.recipient ∧
      checkWrapKeys curves w.alg w.recipient w.ephemeral = .ok () := by
  unfold readWrap at h
  simp only [bind_eq_ok, ensure_eq_ok, okOr_eq_ok, pure_eq_ok] at h
  obtain ⟨_, -, _, -, _, -, recipient, hrecipient, _, -, _, -, _, -, _, -, _, -, _, hcheck, rfl⟩ :=
    h
  exact ⟨hrecipient, hcheck⟩

/-- A wrap as a value. -/
def wrapValue (w : Wrap) : CBOR := .map (textEntries (wrapFields w (.unsigned w.epoch)))

lemma wrap_toCbor (w : Wrap) : w.toCbor host = (wrapValue w).toCborData host := by
  rw [Wrap.toCbor, Map.toCBOR, wrap_entries, wrapValue]

lemma wrapValue_canonical {w : Wrap} (h : w.alg = ALG_X25519 ∨ w.alg = ALG_P256) :
    (wrapValue w).Canonical host := by
  have halg : host.nfc w.alg = w.alg := by
    rcases h with h | h <;> exact nfc_of_ascii (by rw [h]; decide)
  refine textEntries_canonical (wrapFields_keyed w _) wrapKeys_ascii ?_
  simp only [wrapFields, List.forall_mem_cons]
  exact ⟨.text halg, .unsigned _, .byteString _, .byteString _, .byteString _, .byteString _,
    by simp⟩

/-- What `parse_wrap` reads of the bytes of a value. -/
lemma parseWrap_toCborData {x : CBOR} (h : x.Canonical host) (hfit : x.Fits host) {w : Wrap} :
    parseWrap curves host (x.toCborData host) = .ok w ↔
      checkWrapKeys curves w.alg w.recipient w.ephemeral = .ok () ∧
        ∃ v, v.toU64 = some w.epoch ∧ x = .map (textEntries (wrapFields w v)) := by
  rw [parseWrap, parseMap_toCborData h hfit]
  constructor
  · rintro ⟨entries, rfl, hread⟩
    obtain ⟨hcheck, v, hv, rfl⟩ := (readWrap_eq_ok h).mp hread
    exact ⟨hcheck, v, hv, rfl⟩
  · rintro ⟨hcheck, v, hv, rfl⟩
    exact ⟨_, rfl, (readWrap_eq_ok h).mpr ⟨hcheck, v, hv, rfl⟩⟩

/-! ### Targets -/

/-- A key that one of the checked constructors made. -/
inductive WrapPublic.Made (curves : Curves) (t : WrapPublic) : Prop where
  | x25519 {b : ByteArrayOf 32} (h : WrapPublic.x25519 b = .ok t)
  | ed25519 {b : ByteArrayOf 32} (h : WrapPublic.ed25519 curves b = .ok t)
  | p256 {b : ByteArrayOf 33} (h : WrapPublic.p256 curves b = .ok t)

lemma x25519_eq_ok {b : ByteArrayOf 32} {t : WrapPublic} :
    WrapPublic.x25519 b = .ok t ↔ isSmallOrder b = false ∧ t = .X25519 b := by
  unfold WrapPublic.x25519
  cases isSmallOrder b <;> simp [eq_comm]

lemma ed25519_eq_ok {b : ByteArrayOf 32} {t : WrapPublic} :
    WrapPublic.ed25519 curves b = .ok t ↔
      (∃ p, curves.toMontgomery b = some p ∧ isSmallOrder p = false) ∧ t = .Ed25519 b := by
  unfold WrapPublic.ed25519 ed25519ToX25519
  simp only [bind_eq_ok, okOr_eq_ok]
  constructor
  · rintro ⟨p, hp, h⟩
    cases hsmall : isSmallOrder p with
    | true => simp [hsmall] at h
    | false =>
      simp only [hsmall, Bool.false_eq_true, if_false, pure_eq_ok] at h
      exact ⟨⟨p, hp, hsmall⟩, h.symm⟩
  · rintro ⟨⟨p, hp, hsmall⟩, rfl⟩
    exact ⟨p, hp, by simp [hsmall]⟩

lemma p256_eq_ok {b : ByteArrayOf 33} {t : WrapPublic} :
    WrapPublic.p256 curves b = .ok t ↔ curves.isPoint b.val = true ∧ t = .P256 b := by
  unfold WrapPublic.p256
  cases curves.isPoint b.val <;> simp [eq_comm]

def TARGET_KEYS : List String := ["alg", "key"]

lemma targetKeys_ascii : ∀ k ∈ TARGET_KEYS, ∀ c ∈ k.toList, c.val < 128 := by decide

/-- The fields of a target. -/
def targetFields (t : WrapPublic) : List (String × CBOR) :=
  [("alg", .text t.tag), ("key", .byteString t.keyBytes)]

lemma targetFields_keyed (t : WrapPublic) : Keyed (mapKey host) (textEntries (targetFields t)) :=
  @textEntries_keyed host _ TARGET_KEYS rfl targetKeys_ascii (by decide)

/-- A target as a value. -/
def targetValue (t : WrapPublic) : CBOR := .map (textEntries (targetFields t))

lemma target_entries (t : WrapPublic) :
    (targetMap host t).entries = textEntries (targetFields t) :=
  @foldl_insert_eq host _ [_, _] (targetFields_keyed t) rfl (by simp [targetFields])

lemma targetCbor_eq (t : WrapPublic) : targetCbor host t = (targetValue t).toCborData host := by
  rw [targetCbor, Map.toCBOR, target_entries, targetValue]

lemma targetValue_canonical (t : WrapPublic) : (targetValue t).Canonical host := by
  have htag : host.nfc t.tag = t.tag := by
    cases t with
    | X25519 b => exact @nfc_of_ascii host "x25519" (by decide)
    | Ed25519 b => exact @nfc_of_ascii host "ed25519" (by decide)
    | P256 b => exact @nfc_of_ascii host "p256" (by decide)
  refine textEntries_canonical (targetFields_keyed t) targetKeys_ascii ?_
  simp only [targetFields, List.forall_mem_cons]
  exact ⟨.text htag, .byteString _, by simp⟩

lemma parseTarget_eq_ok {x : CBOR} (h : x.Canonical host) {t : WrapPublic} :
    parseTarget curves host x = .ok t ↔ t.Made curves ∧ x = targetValue t := by
  cases x with
  | map entries =>
    unfold parseTarget readTarget targetValue
    simp (disch := decide) only [bind_eq_ok, ensure_eq_ok, okOr_eq_ok, getAs_toText h,
      getAs_toByteString h]
    rw [CBOR.map.injEq, eq_textEntries_iff h.keyed (targetFields_keyed t)]
    simp only [targetFields, List.forall_mem_cons]
    constructor
    · rintro ⟨_, hlen, alg, halg, key, hkey, hread⟩
      split_ifs at hread with hx he hp
      · obtain ⟨b, hb, hmake⟩ := bind_eq_ok.mp hread
        obtain ⟨-, rfl⟩ := x25519_eq_ok.mp hmake
        rw [okOr_eq_ok, toArray_eq_some] at hb
        subst hx hb
        exact ⟨.x25519 hmake, hlen, halg, hkey, by simp⟩
      · obtain ⟨b, hb, hmake⟩ := bind_eq_ok.mp hread
        obtain ⟨-, rfl⟩ := ed25519_eq_ok.mp hmake
        rw [okOr_eq_ok, toArray_eq_some] at hb
        subst he hb
        exact ⟨.ed25519 hmake, hlen, halg, hkey, by simp⟩
      · obtain ⟨b, hb, hmake⟩ := bind_eq_ok.mp hread
        obtain ⟨-, rfl⟩ := p256_eq_ok.mp hmake
        rw [okOr_eq_ok, toArray_eq_some] at hb
        subst hp hb
        exact ⟨.p256 hmake, hlen, halg, hkey, by simp⟩
    · rintro ⟨hmade, hlen, halg, hkey, -⟩
      refine ⟨(), hlen, _, halg, _, hkey, ?_⟩
      cases hmade with
      | @x25519 b hb =>
        obtain ⟨-, rfl⟩ := x25519_eq_ok.mp hb
        have harray : toArray 32 b.val = some b := toArray_eq_some.mpr rfl
        simp only [WrapPublic.tag, WrapPublic.keyBytes, harray]
        exact hb
      | @ed25519 b hb =>
        obtain ⟨-, rfl⟩ := ed25519_eq_ok.mp hb
        have harray : toArray 32 b.val = some b := toArray_eq_some.mpr rfl
        simp only [WrapPublic.tag, WrapPublic.keyBytes, harray]
        exact hb
      | @p256 b hb =>
        obtain ⟨-, rfl⟩ := p256_eq_ok.mp hb
        have harray : toArray 33 b.val = some b := toArray_eq_some.mpr rfl
        simp only [WrapPublic.tag, WrapPublic.keyBytes, harray]
        exact hb
  | _ => simp [parseTarget, targetValue]

/-! ### Capsules -/

def CAPSULE_KEYS : List String := ["alg", "backend", "recipient", "ciphertext"]

lemma capsuleKeys_ascii : ∀ k ∈ CAPSULE_KEYS, ∀ c ∈ k.toList, c.val < 128 := by decide

/-- The fields of a capsule. -/
def capsuleFields (c : RecryptCapsule) : List (String × CBOR) :=
  [("alg", .text CAPSULE_ALG), ("backend", .text c.backend),
    ("recipient", .byteString c.recipient), ("ciphertext", .byteString c.ciphertext)]

lemma capsuleFields_keyed (c : RecryptCapsule) :
    Keyed (mapKey host) (textEntries (capsuleFields c)) :=
  @textEntries_keyed host _ CAPSULE_KEYS rfl capsuleKeys_ascii (by decide)

/-- A capsule as a value. -/
def capsuleValue (c : RecryptCapsule) : CBOR := .map (textEntries (capsuleFields c))

lemma capsule_entries (c : RecryptCapsule) :
    (capsuleMap host c).entries = textEntries (capsuleFields c) :=
  @foldl_insert_eq host _ [_, _, _, _] (capsuleFields_keyed c) rfl (by simp [capsuleFields])

lemma capsuleCbor_eq (c : RecryptCapsule) :
    capsuleCbor host c = (capsuleValue c).toCborData host := by
  rw [capsuleCbor, Map.toCBOR, capsule_entries, capsuleValue]

lemma capsuleValue_canonical {c : RecryptCapsule} (h : host.nfc c.backend = c.backend) :
    (capsuleValue c).Canonical host := by
  refine textEntries_canonical (capsuleFields_keyed c) capsuleKeys_ascii ?_
  simp only [capsuleFields, List.forall_mem_cons]
  exact ⟨.text (nfc_of_ascii (by decide)), .text h, .byteString _, .byteString _, by simp⟩

/-- A capsule with something in each of its fields. -/
structure RecryptCapsule.Filled (c : RecryptCapsule) : Prop where
  backend : c.backend ≠ ""
  recipient : c.recipient ≠ []
  ciphertext : c.ciphertext ≠ []

lemma parseCapsule_eq_ok {x : CBOR} (h : x.Canonical host) {c : RecryptCapsule} :
    parseCapsule host x = .ok c ↔ c.Filled ∧ x = capsuleValue c := by
  cases x with
  | map entries =>
    unfold parseCapsule readCapsule capsuleValue
    simp (disch := decide) only [bind_eq_ok, ensure_eq_ok, okOr_eq_ok, pure_eq_ok, getAs_toText h,
      getAs_toByteString h]
    rw [CBOR.map.injEq, eq_textEntries_iff h.keyed (capsuleFields_keyed c)]
    simp only [capsuleFields, List.forall_mem_cons, not_or]
    constructor
    · rintro ⟨_, hlen, alg, halg, _, rfl, b, hb, r, hr, ct, hct, _, ⟨hb', hr', hct'⟩, rfl⟩
      exact ⟨⟨hb', hr', hct'⟩, hlen, halg, hb, hr, hct, by simp⟩
    · rintro ⟨hc, hlen, halg, hb, hr, hct, -⟩
      exact ⟨(), hlen, _, halg, (), rfl, _, hb, _, hr, _, hct, (),
        ⟨hc.backend, hc.recipient, hc.ciphertext⟩, rfl⟩
  | _ => simp [parseCapsule, capsuleValue]

/-- A capsule as it is written, its backend in normalisation form C. -/
def RecryptCapsule.normal (host : Host) (c : RecryptCapsule) : RecryptCapsule :=
  { c with backend := host.nfc c.backend }

lemma capsuleValue_normal (c : RecryptCapsule) :
    (capsuleValue c).normal host = capsuleValue (c.normal host) := by
  have halg : (CBOR.text CAPSULE_ALG).normal host = .text CAPSULE_ALG := by
    rw [CBOR.normal, nfc_of_ascii (by decide)]
  rw [capsuleValue, @normal_textEntries host (capsuleFields c) capsuleKeys_ascii]
  simp only [capsuleFields, List.map_cons, List.map_nil, halg]
  rfl

lemma capsuleCbor_normal (c : RecryptCapsule) :
    capsuleCbor host (c.normal host) = capsuleCbor host c := by
  rw [capsuleCbor_eq, capsuleCbor_eq, ← capsuleValue_normal, toCborData_normal]

/-! ### The payload -/

def PAYLOAD_KEYS : List String := ["alg", "nonce", "ciphertext"]

lemma payloadKeys_ascii : ∀ k ∈ PAYLOAD_KEYS, ∀ c ∈ k.toList, c.val < 128 := by decide

/-- The fields of a payload. -/
def payloadFields (nonce : ByteArrayOf 24) (ciphertext : Bytes) : List (String × CBOR) :=
  [("alg", .text PAYLOAD_ALG), ("nonce", .byteString nonce.val),
    ("ciphertext", .byteString ciphertext)]

lemma payloadFields_keyed (nonce : ByteArrayOf 24) (ciphertext : Bytes) :
    Keyed (mapKey host) (textEntries (payloadFields nonce ciphertext)) :=
  @textEntries_keyed host _ PAYLOAD_KEYS rfl payloadKeys_ascii (by decide)

lemma payload_entries (s : Share) :
    (s.payloadMap host).entries = textEntries (payloadFields s.nonce s.ciphertext) :=
  @foldl_insert_eq host _ [_, _, _] (payloadFields_keyed _ _) rfl (by simp [payloadFields])

lemma payload_canonical (nonce : ByteArrayOf 24) (ciphertext : Bytes) :
    (CBOR.map (textEntries (payloadFields nonce ciphertext))).Canonical host := by
  refine textEntries_canonical (payloadFields_keyed _ _) payloadKeys_ascii ?_
  simp only [payloadFields, List.forall_mem_cons]
  exact ⟨.text (nfc_of_ascii (by decide)), .byteString _, .byteString _, by simp⟩

lemma readPayload_eq_ok {entries : List (CBOR × CBOR)} (h : (CBOR.map entries).Canonical host)
    {nonce : ByteArrayOf 24} {ciphertext : Bytes} :
    readPayload host entries = .ok (nonce, ciphertext) ↔
      entries = textEntries (payloadFields nonce ciphertext) := by
  unfold readPayload
  simp (disch := decide) only [bind_eq_ok, ensure_eq_ok, okOr_eq_ok, pure_eq_ok, getAs_toText h,
    getAs_toByteString h, toArray_eq_some, Prod.mk.injEq]
  rw [eq_textEntries_iff h.keyed (payloadFields_keyed nonce ciphertext)]
  simp only [payloadFields, List.forall_mem_cons]
  constructor
  · rintro ⟨_, hlen, alg, halg, _, rfl, _, hn, c, hc, n, rfl, rfl, rfl⟩
    exact ⟨hlen, halg, hn, hc, by simp⟩
  · rintro ⟨hlen, halg, hn, hc, -⟩
    exact ⟨(), hlen, _, halg, (), rfl, _, hn, _, hc, _, rfl, rfl, rfl⟩

/-! ### Shares -/

def SHARE_KEYS : List String := ["v", "epoch", "wraps", "payload", "recrypt", "targets"]

lemma shareKeys_ascii : ∀ k ∈ SHARE_KEYS, ∀ c ∈ k.toList, c.val < 128 := by decide

/-- The fields of a share, its numbers, wraps and capsules as they stand in the map. -/
def shareFields (s : Share) (version epoch : CBOR) (wraps recrypt : List CBOR) :
    List (String × CBOR) :=
  [("v", version), ("epoch", epoch), ("wraps", .array wraps),
    ("payload", .map (textEntries (payloadFields s.nonce s.ciphertext))),
    ("recrypt", .array recrypt), ("targets", .array (s.targets.map targetValue))]

lemma shareFields_keyed (s : Share) (version epoch : CBOR) (wraps recrypt : List CBOR) :
    Keyed (mapKey host) (textEntries (shareFields s version epoch wraps recrypt)) :=
  @textEntries_keyed host _ SHARE_KEYS rfl shareKeys_ascii (by decide)

/-- A share as a value. -/
def shareValue (s : Share) : CBOR :=
  .map (textEntries (shareFields s (.unsigned 1) (.unsigned s.epoch) (s.wraps.map wrapValue)
    (s.recrypt.map capsuleValue)))

/-- A wrap and the target it is for, in a share of an epoch. -/
structure Matches (curves : Curves) (epoch : UInt64) (w : Wrap) (t : WrapPublic) : Prop where
  made : t.Made curves
  keys : checkWrapKeys curves w.alg w.recipient w.ephemeral = .ok ()
  encapsulation : t.encapsulation curves = .ok { alg := w.alg, recipient := w.recipient }
  epoch : w.epoch = epoch

/-- What a parsed share satisfies: each wrap is for its target, and no capsule is empty. -/
structure Share.WellFormed (curves : Curves) (s : Share) : Prop where
  recipients : List.Forall₂ (Matches curves s.epoch) s.wraps s.targets
  capsules : ∀ c ∈ s.recrypt, c.Filled
  nonempty : ¬ (s.wraps = [] ∧ s.recrypt = [])

/-- A value that is read as a wrap. -/
def IsWrap (x : CBOR) (w : Wrap) : Prop :=
  ∃ v, v.toU64 = some w.epoch ∧ x = .map (textEntries (wrapFields w v))

lemma readRecipient_eq_ok {epoch : UInt64} {x y : CBOR} (hx : x.Canonical host)
    (hfit : x.Fits host) (hy : y.Canonical host) {w : Wrap} {t : WrapPublic} :
    readRecipient curves host epoch (x, y) = .ok (w, t) ↔
      Matches curves epoch w t ∧ IsWrap x w ∧ y = targetValue t := by
  unfold readRecipient
  simp only [bind_eq_ok, ensure_eq_ok, pure_eq_ok, Prod.mk.injEq, parseWrap_toCborData hx hfit,
    parseTarget_eq_ok hy]
  constructor
  · rintro ⟨w, ⟨hkeys, hw⟩, t, ⟨hmade, ht⟩, ⟨alg, recipient⟩, henc, _, ⟨rfl, rfl, rfl⟩, rfl, rfl⟩
    exact ⟨⟨hmade, hkeys, henc, rfl⟩, hw, ht⟩
  · rintro ⟨h, hw, ht⟩
    exact ⟨w, ⟨h.keys, hw⟩, t, ⟨h.made, ht⟩, _, h.encapsulation, (), ⟨rfl, rfl, h.epoch⟩, rfl, rfl⟩

/-- The parser checks each wrap against its target, whatever the map. -/
lemma of_readRecipient {epoch : UInt64} {values : CBOR × CBOR} {r : Wrap × WrapPublic}
    (h : readRecipient curves host epoch values = .ok r) :
    parseWrap curves host (values.1.toCborData host) = .ok r.1 ∧
      r.2.encapsulation curves = .ok { alg := r.1.alg, recipient := r.1.recipient } ∧
      r.1.epoch = epoch := by
  unfold readRecipient at h
  simp only [bind_eq_ok, ensure_eq_ok, pure_eq_ok] at h
  obtain ⟨w, hw, t, -, enc, henc, _, ⟨halg, hrecipient, hepoch⟩, rfl⟩ := h
  exact ⟨hw, by rw [henc, halg, hrecipient], hepoch⟩

/-- The loop over wraps and targets. -/
lemma readRecipients_eq_ok {epoch : UInt64} {xs ys : List CBOR} (hxs : ∀ x ∈ xs, x.Canonical host)
    (hfit : ∀ x ∈ xs, x.Fits host) (hys : ∀ y ∈ ys, y.Canonical host)
    (hlen : xs.length = ys.length) {recipients : List (Wrap × WrapPublic)} :
    (xs.zip ys).mapM (readRecipient curves host epoch) = .ok recipients ↔
      List.Forall₂ (Matches curves epoch) (recipients.map Prod.fst) (recipients.map Prod.snd) ∧
        List.Forall₂ IsWrap xs (recipients.map Prod.fst) ∧
        ys = (recipients.map Prod.snd).map targetValue := by
  rw [mapM_eq_ok]
  induction xs generalizing ys recipients with
  | nil =>
    obtain rfl : ys = [] := List.length_eq_zero_iff.mp hlen.symm
    cases recipients <;> simp
  | cons x xs ih =>
    obtain ⟨y, ys, rfl⟩ : ∃ y ys', ys = y :: ys' := by
      cases ys with
      | nil => cases hlen
      | cons y ys => exact ⟨y, ys, rfl⟩
    obtain ⟨hx, hxs⟩ := List.forall_mem_cons.mp hxs
    obtain ⟨hfitx, hfit⟩ := List.forall_mem_cons.mp hfit
    obtain ⟨hy, hys⟩ := List.forall_mem_cons.mp hys
    cases recipients with
    | nil => simp
    | cons r rs =>
      simp only [List.zip_cons_cons, List.forall₂_cons, List.map_cons, List.cons.injEq,
        readRecipient_eq_ok hx hfitx hy, ih hxs hfit hys (Nat.succ.inj hlen)]
      constructor
      · rintro ⟨⟨hm, hw, rfl⟩, hms, hws, rfl⟩
        exact ⟨⟨hm, hms⟩, ⟨hw, hws⟩, rfl, rfl⟩
      · rintro ⟨⟨hm, hms⟩, ⟨hw, hws⟩, rfl, rfl⟩
        exact ⟨⟨hm, hw, rfl⟩, hms, hws, rfl⟩

lemma tryIntoMap_eq_ok {x : CBOR} {m : List (CBOR × CBOR)} :
    tryIntoMap x = .ok m ↔ x = .map m := by
  cases x <;> simp [tryIntoMap]

lemma tryIntoArray_eq_ok {x : CBOR} {items : List CBOR} :
    tryIntoArray x = .ok items ↔ x = .array items := by
  cases x <;> simp [tryIntoArray]

lemma mapCbor_eq_ok {entries : List (CBOR × CBOR)} (h : (CBOR.map entries).Canonical host)
    {k : String} {v : CBOR} : mapCbor entries k = .ok v ↔ (.text k, v) ∈ entries := by
  rw [mapCbor, okOr_eq_ok, find_text_eq_some h]

/-- The capsules of a share. -/
lemma readCapsules_eq_ok {xs : List CBOR} (hxs : ∀ x ∈ xs, x.Canonical host)
    {cs : List RecryptCapsule} :
    xs.mapM (parseCapsule host) = .ok cs ↔ (∀ c ∈ cs, c.Filled) ∧ xs = cs.map capsuleValue := by
  rw [mapM_eq_ok]
  induction xs generalizing cs with
  | nil => cases cs <;> simp
  | cons x xs ih =>
    obtain ⟨hx, hxs⟩ := List.forall_mem_cons.mp hxs
    cases cs with
    | nil => simp
    | cons c cs =>
      rw [List.forall₂_cons, parseCapsule_eq_ok hx, ih hxs, List.forall_mem_cons, List.map_cons,
        List.cons.injEq]
      constructor
      · rintro ⟨⟨hc, rfl⟩, hcs, rfl⟩
        exact ⟨⟨hc, hcs⟩, rfl, rfl⟩
      · rintro ⟨⟨hc, hcs⟩, rfl, rfl⟩
        exact ⟨⟨hc, rfl⟩, hcs, rfl⟩

/-- What a share is read from, whatever the map. -/
lemma of_readShare {entries : List (CBOR × CBOR)} {s : Share}
    (h : readShare curves host entries = .ok s) :
    ∃ wraps targets capsules recipients, mapCbor entries "wraps" = .ok (.array wraps) ∧
      mapCbor entries "recrypt" = .ok (.array capsules) ∧ wraps.length = targets.length ∧
      (wraps.zip targets).mapM (readRecipient curves host s.epoch) = .ok recipients ∧
      s.wraps = recipients.map Prod.fst ∧ s.targets = recipients.map Prod.snd ∧
      capsules.mapM (parseCapsule host) = .ok s.recrypt ∧
      ¬ (recipients = [] ∧ s.recrypt = []) := by
  unfold readShare at h
  simp only [bind_eq_ok, ensure_eq_ok, pure_eq_ok, tryIntoArray_eq_ok] at h
  obtain ⟨_, -, _, -, _, -, epoch, -, _, -, _, -, _, -, _, hws, wraps, rfl, _, -, targets, -, _,
    hcs, capsules, rfl, _, hlen, recipients, hrecipients, recrypt, hrecrypt, _, hne, rfl⟩ := h
  exact ⟨wraps, targets, capsules, recipients, hws, hcs, hlen, hrecipients, rfl, rfl, hrecrypt, hne⟩

/-- **A map is read as a share exactly when it is that share's fields.**  Only its numbers may
stand in another form. -/
theorem readShare_eq_ok {entries : List (CBOR × CBOR)} (h : (CBOR.map entries).Canonical host)
    (hfit : (CBOR.map entries).Fits host) {s : Share} :
    readShare curves host entries = .ok s ↔ s.WellFormed curves ∧
      ∃ version epoch wraps, version.toU64 = some 1 ∧ epoch.toU64 = some s.epoch ∧
        List.Forall₂ IsWrap wraps s.wraps ∧
        entries = textEntries (shareFields s version epoch wraps (s.recrypt.map capsuleValue)) := by
  unfold readShare
  simp (disch := decide) only [bind_eq_ok, ensure_eq_ok, okOr_eq_ok, pure_eq_ok, getAs_toU64 h,
    mapCbor_eq_ok h, tryIntoMap_eq_ok, tryIntoArray_eq_ok]
  -- the items of an array in the map
  have hitems : ∀ {k : String} {items : List CBOR}, (.text k, .array items) ∈ entries →
      (∀ x ∈ items, x.Canonical host) ∧ ∀ x ∈ items, x.Fits host := by
    intro k items hmem
    exact ⟨fun x hx => (h.entry hmem).2.item_of_mem hx, fun x hx => (hfit.entry hmem).2.item hx⟩
  constructor
  · rintro ⟨_, hlen, version, ⟨v, hv, hversion⟩, _, rfl, epoch, ⟨e, he, hepoch⟩, _, hp, payload,
      rfl, ⟨nonce, ciphertext⟩, hpayload, _, hws, ws, rfl, _, hts, ts, rfl, _, hcs, cs, rfl, _,
      hsame, recipients, hrecipients, capsules, hcapsules, _, hne, rfl⟩
    obtain ⟨hwsc, hwsf⟩ := hitems hws
    rw [readRecipients_eq_ok hwsc hwsf (hitems hts).1 hsame] at hrecipients
    obtain ⟨hmatches, hwraps, rfl⟩ := hrecipients
    obtain ⟨hfilled, rfl⟩ := (readCapsules_eq_ok (hitems hcs).1).mp hcapsules
    obtain rfl := (readPayload_eq_ok (h.entry hp).2).mp hpayload
    refine ⟨⟨hmatches, hfilled, ?_⟩, v, e, ws, hversion, hepoch, hwraps, ?_⟩
    · rwa [List.map_eq_nil_iff]
    · rw [eq_textEntries_iff h.keyed (shareFields_keyed _ _ _ _ _)]
      refine ⟨hlen, ?_⟩
      simp only [shareFields, List.forall_mem_cons]
      exact ⟨hv, he, hws, hp, hcs, hts, by simp⟩
  · rintro ⟨hwf, v, e, ws, hversion, hepoch, hwraps, heq⟩
    rw [eq_textEntries_iff h.keyed (shareFields_keyed _ _ _ _ _)] at heq
    obtain ⟨hlen, hmem⟩ := heq
    simp only [shareFields, List.forall_mem_cons] at hmem
    obtain ⟨hv, he, hws, hp, hcs, hts, -⟩ := hmem
    have hsame : s.wraps.length = s.targets.length := hwf.recipients.length_eq
    have hfst : (s.wraps.zip s.targets).map Prod.fst = s.wraps := List.map_fst_zip hsame.le
    have hsnd : (s.wraps.zip s.targets).map Prod.snd = s.targets := List.map_snd_zip hsame.ge
    have hlength : ws.length = (s.targets.map targetValue).length := by
      rw [hwraps.length_eq, hsame, List.length_map]
    obtain ⟨hwsc, hwsf⟩ := hitems hws
    refine ⟨(), hlen, 1, ⟨v, hv, hversion⟩, (), rfl, s.epoch, ⟨e, he, hepoch⟩, _, hp, _, rfl,
      (s.nonce, s.ciphertext), (readPayload_eq_ok (h.entry hp).2).mpr rfl, _, hws, ws, rfl, _, hts,
      _, rfl, _, hcs, _, rfl, (), hlength, s.wraps.zip s.targets, ?_, s.recrypt,
      (readCapsules_eq_ok (hitems hcs).1).mpr ⟨hwf.capsules, rfl⟩, (), ?_, ?_⟩
    · rw [readRecipients_eq_ok hwsc hwsf (hitems hts).1 hlength, hfst, hsnd]
      exact ⟨hwf.recipients, hwraps, rfl⟩
    · intro hnil
      refine hwf.nonempty ⟨?_, hnil.2⟩
      rw [← hfst, hnil.1, List.map_nil]
    · rw [hfst, hsnd]

/-- A hash to run the model with: the bytes are the digits of a number in base 257, of which 32
bytes are kept. -/
def sampleHash (data : Bytes) : Digest32 :=
  ⟨beBytes 32 (data.foldl (fun n b => 257 * n + b.toNat + 1) 0), length_beBytes _ _⟩

end Identikey.Share
