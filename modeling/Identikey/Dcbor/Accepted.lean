/-
What the decoder returns.

`decodeCbor_canonical`: a value that was decoded is in canonical form, if floating-point
numbers are read as such values.  A map in canonical form with text keys is told by the
values under its keys, whichever way they are looked up.
-/
import Mathlib.Data.List.Perm.Subperm
import Identikey.Lib.Fallible
import Identikey.Dcbor.DecodeExact

namespace Identikey.Dcbor

open Lib Auth Lib.Reader

/-! ### Decoded values -/

/-- A floating-point number that the decoder accepts is read as a value in canonical form: as a
number of the width that it is written in, or as an integer. -/
def Host.CanonicalFloats (host : Host) : Prop :=
  ∀ w bits v, host.readFloat w bits = .ok v → v.Canonical host

lemma canonicalFloats_plain : Host.plain.CanonicalFloats := by
  intro w bits v h
  cases h

variable {host : Host} {item : Parser CBOR}

lemma liftM_eq_ok {α : Type} {x : Except Error α} {s : Bytes} {a : α} {t : Bytes}
    (h : (liftM x : Parser α) s = .ok (a, t)) : x = .ok a := by
  cases x with
  | error e => cases h
  | ok b =>
    obtain ⟨rfl, -⟩ := pure_eq_ok.mp h
    rfl

lemma mem_insertNext {m m' : Map host} {k v : CBOR} (h : m.insertNext k v = .ok m') :
    ∀ e ∈ m'.entries, e = (k, v) ∨ e ∈ m.entries := by
  have hmem : ∀ e ∈ (m.insert k v).entries, e = (k, v) ∨ e ∈ m.entries := fun e he =>
    mem_of_mem_insertKeyed he
  unfold Map.insertNext at h
  cases hlast : m.entries.getLast? with
  | none =>
    rw [hlast] at h
    exact Except.ok.inj h ▸ hmem
  | some last =>
    rw [hlast] at h
    simp only at h
    split_ifs at h
    exact Except.ok.inj h ▸ hmem

/-- What holds of all values that the items are read as holds of keys and values. -/
lemma parseEntries_forall {P : CBOR → Prop} (hitem : ∀ s v t, item s = .ok (v, t) → P v) {n : ℕ}
    {m m' : Map host} {s t : Bytes} (hm : ∀ e ∈ m.entries, P e.1 ∧ P e.2)
    (h : parseEntries item n m s = .ok (m', t)) : ∀ e ∈ m'.entries, P e.1 ∧ P e.2 := by
  induction n generalizing m s with
  | zero =>
    obtain ⟨rfl, -⟩ := pure_eq_ok.mp h
    exact hm
  | succ n ih =>
    obtain ⟨k, s₁, hk, h⟩ := bind_eq_ok.mp h
    obtain ⟨v, s₂, hv, h⟩ := bind_eq_ok.mp h
    obtain ⟨m₁, s₃, hm₁, h⟩ := bind_eq_ok.mp h
    refine ih (fun e he => ?_) h
    rcases mem_insertNext (liftM_eq_ok hm₁) e he with rfl | he
    · exact ⟨hitem _ _ _ hk, hitem _ _ _ hv⟩
    · exact hm e he

lemma parseText_canonical {n : ℕ} {s : Bytes} {v : CBOR} {t : Bytes}
    (h : parseText host n s = .ok (v, t)) : v.Canonical host := by
  obtain ⟨b, s₁, -, h⟩ := bind_eq_ok.mp h
  cases htext : fromUtf8 b with
  | none =>
    rw [htext] at h
    exact absurd h throw_ne_ok
  | some x =>
    rw [htext] at h
    simp only at h
    split_ifs at h with hnfc
    · exact absurd h throw_ne_ok
    · obtain ⟨rfl, -⟩ := pure_eq_ok.mp h
      exact .text (not_not.mp hnfc)

lemma parseSimple_canonical (hfloats : host.CanonicalFloats) {n : UInt64} {varintLen : ℕ} {v : CBOR}
    (h : parseSimple host n varintLen = .ok v) : v.Canonical host := by
  unfold parseSimple at h
  split_ifs at h
  · exact hfloats _ _ _ h
  · exact hfloats _ _ _ h
  · exact hfloats _ _ _ h
  all_goals
    obtain rfl := Except.ok.inj h
    exact .simple fun w bits hw => by cases hw

lemma decodeBody_canonical (hfloats : host.CanonicalFloats)
    (hitem : ∀ s v t, item s = .ok (v, t) → v.Canonical host) {s : Bytes} {v : CBOR} {t : Bytes}
    (h : decodeBody host item s = .ok (v, t)) : v.Canonical host := by
  obtain ⟨⟨majorType, value, varintLen⟩, s₁, -, h⟩ := bind_eq_ok.mp h
  cases majorType with
  | unsigned =>
    obtain ⟨rfl, -⟩ := pure_eq_ok.mp h
    exact .unsigned _
  | negative =>
    obtain ⟨rfl, -⟩ := pure_eq_ok.mp h
    exact .negative _
  | byteString =>
    obtain ⟨b, s₂, -, h⟩ := bind_eq_ok.mp h
    obtain ⟨rfl, -⟩ := pure_eq_ok.mp h
    exact .byteString _
  | text => exact parseText_canonical h
  | array =>
    obtain ⟨items, s₂, hitems, h⟩ := bind_eq_ok.mp h
    obtain ⟨rfl, -⟩ := pure_eq_ok.mp h
    exact .array (Reader.times_forall hitem hitems)
  | map =>
    obtain ⟨m, s₂, hm, h⟩ := bind_eq_ok.mp h
    obtain ⟨rfl, -⟩ := pure_eq_ok.mp h
    have hall := parseEntries_forall hitem (m := (Map.new : Map host))
      (fun e he => absurd he List.not_mem_nil) hm
    exact .map m.ordered (fun e he => (hall e he).1) fun e he => (hall e he).2
  | tagged =>
    obtain ⟨x, s₂, hx, h⟩ := bind_eq_ok.mp h
    obtain ⟨rfl, -⟩ := pure_eq_ok.mp h
    exact .tagged (hitem _ _ _ hx)
  | simple => exact parseSimple_canonical hfloats (liftM_eq_ok h)

/-- **What is decoded is in canonical form.** -/
theorem decodeCbor_canonical (hfloats : host.CanonicalFloats) {b : Bytes} {v : CBOR}
    (h : decodeCbor host b = .ok v) : v.Canonical host := by
  have hfuel : ∀ fuel s v t, decodeFuel host fuel s = .ok (v, t) → v.Canonical host := by
    intro fuel
    induction fuel with
    | zero =>
      intro s v t
      exact decodeBody_canonical hfloats fun _ _ _ h => absurd h throw_ne_ok
    | succ fuel ih =>
      intro s v t
      exact decodeBody_canonical hfloats ih
  obtain ⟨⟨w, rest⟩, hinternal, h⟩ := Lib.Fallible.bind_eq_ok.mp h
  simp only at h
  split_ifs at h
  obtain rfl := Lib.Fallible.pure_eq_ok.mp h
  exact hfuel _ _ _ _ hinternal

/-! ### The fields of a map -/

section Fields

variable {entries : List (CBOR × CBOR)} {k : String} {v : CBOR}

lemma CBOR.Canonical.keyed (h : (CBOR.map entries).Canonical host) :
    Keyed (mapKey host) entries := by
  cases h with
  | map hordered _ _ => exact hordered

lemma CBOR.Canonical.entry (h : (CBOR.map entries).Canonical host) {e : CBOR × CBOR}
    (he : e ∈ entries) : e.1.Canonical host ∧ e.2.Canonical host := by
  cases h with
  | map _ hkeys hvalues => exact ⟨hkeys e he, hvalues e he⟩

lemma CBOR.Canonical.item_of_mem {items : List CBOR} (h : (CBOR.array items).Canonical host)
    (hv : v ∈ items) : v.Canonical host := by
  cases h with
  | array hitems => exact hitems v hv

/-- A key in canonical form with the bytes of an ASCII text is that text. -/
lemma key_eq_text (hk : ∀ c ∈ k.toList, c.val < 128) {key : CBOR} (hkey : key.Canonical host)
    (h : key.toCborData host = (CBOR.text k).toCborData host) : key = .text k := by
  have hmajor : key.majorType = (CBOR.text k).majorType := @majorType_eq host _ _ [] [] (by rw [h])
  cases hkey with
  | @text s hs =>
    rw [← hs, nfc_eq_of_textData h, nfc_of_ascii hk]
  | _ => cases hmajor

/-- Looking up an ASCII key in a map in canonical form. -/
lemma getEntry_eq_some (h : (CBOR.map entries).Canonical host)
    (hk : ∀ c ∈ k.toList, c.val < 128) :
    getEntry host entries (.text k) = some v ↔ (.text k, v) ∈ entries := by
  constructor
  · intro hget
    obtain ⟨⟨key, w⟩, hfind, rfl⟩ := Option.map_eq_some_iff.mp hget
    have hmem := List.mem_of_find?_eq_some hfind
    have hkey : key.toCborData host = (CBOR.text k).toCborData host := by
      have := List.find?_some hfind
      exact eq_of_beq this
    obtain rfl := key_eq_text hk (h.entry hmem).1 hkey
    exact hmem
  · exact getEntry_of_mem h.keyed

/-- Looking up a key by its text. -/
lemma find_text_eq_some (h : (CBOR.map entries).Canonical host) :
    (entries.find? fun e => e.1.toText == some k).map Prod.snd = some v ↔
      (.text k, v) ∈ entries := by
  have htext : ∀ {e : CBOR × CBOR}, e.1.toText = some k ↔ e.1 = .text k := by
    intro e
    cases hkey : e.1 <;> simp [CBOR.toText]
  constructor
  · intro hget
    obtain ⟨e, hfind, rfl⟩ := Option.map_eq_some_iff.mp hget
    have hkey : e.1.toText = some k := by
      have := List.find?_some hfind
      exact eq_of_beq this
    rw [← htext.mp hkey]
    exact List.mem_of_find?_eq_some hfind
  · intro hmem
    cases hfind : entries.find? fun e => e.1.toText == some k with
    | none =>
      have hne := List.find?_eq_none.mp hfind _ hmem
      exact absurd (beq_self_eq_true _) hne
    | some e =>
      have hkey : e.1.toText = some k := by
        have := List.find?_some hfind
        exact eq_of_beq this
      have hsame : mapKey host e = mapKey host (.text k, v) := by rw [mapKey, htext.mp hkey]; rfl
      rw [h.keyed.inj (List.mem_of_find?_eq_some hfind) hmem hsame]
      rfl

lemma getAs_toText (h : (CBOR.map entries).Canonical host) (hk : ∀ c ∈ k.toList, c.val < 128)
    {s : String} :
    getAs host entries k CBOR.toText = some s ↔ (.text k, .text s) ∈ entries := by
  rw [← getEntry_eq_some h hk, getAs, Option.bind_eq_some_iff]
  constructor
  · rintro ⟨v, hv, hs⟩
    cases v with
    | text t => rw [hv, Option.some.inj hs]
    | _ => cases hs
  · exact fun hv => ⟨_, hv, rfl⟩

lemma getAs_toByteString (h : (CBOR.map entries).Canonical host)
    (hk : ∀ c ∈ k.toList, c.val < 128) {b : Bytes} :
    getAs host entries k CBOR.toByteString = some b ↔ (.text k, .byteString b) ∈ entries := by
  rw [← getEntry_eq_some h hk, getAs, Option.bind_eq_some_iff]
  constructor
  · rintro ⟨v, hv, hb⟩
    cases v with
    | byteString c => rw [hv, Option.some.inj hb]
    | _ => cases hb
  · exact fun hv => ⟨_, hv, rfl⟩

lemma getAs_toU64 (h : (CBOR.map entries).Canonical host) (hk : ∀ c ∈ k.toList, c.val < 128)
    {n : UInt64} :
    getAs host entries k CBOR.toU64 = some n ↔ ∃ v, (.text k, v) ∈ entries ∧ v.toU64 = some n := by
  simp only [getAs, Option.bind_eq_some_iff, getEntry_eq_some h hk]

/-- A list that has every field, and as many entries as there are fields, has no others. -/
lemma perm_textEntries {es : List (String × CBOR)} {l : List (CBOR × CBOR)}
    (hes : Keyed (mapKey host) (textEntries es)) (hlen : l.length = es.length)
    (hmem : ∀ e ∈ es, (.text e.1, e.2) ∈ l) : (textEntries es).Perm l := by
  have hsub : textEntries es ⊆ l := List.forall_mem_map.mpr hmem
  exact (List.subperm_of_subset hes.nodup hsub).perm_of_length_le
    (by rw [textEntries, List.length_map, hlen])

/-- A map is its fields, if it has as many entries as there are fields. -/
lemma eq_textEntries_iff {es : List (String × CBOR)} (hkeyed : Keyed (mapKey host) entries)
    (hes : Keyed (mapKey host) (textEntries es)) :
    entries = textEntries es ↔
      entries.length = es.length ∧ ∀ e ∈ es, (.text e.1, e.2) ∈ entries := by
  constructor
  · rintro rfl
    refine ⟨List.length_map _, fun e he => ?_⟩
    exact List.mem_map_of_mem (f := fun e : String × CBOR => (CBOR.text e.1, e.2)) he
  · rintro ⟨hlen, hmem⟩
    have hperm := perm_textEntries hes hlen hmem
    exact hkeyed.ext hes fun e => hperm.mem_iff.symm

/-- A map to which all fields were added, in any order, is its fields. -/
lemma foldl_insert_eq {es : List (String × CBOR)} {as : List (CBOR × CBOR)}
    (hes : Keyed (mapKey host) (textEntries es)) (hlen : as.length = es.length)
    (hmem : ∀ e ∈ es, (.text e.1, e.2) ∈ as) :
    as.foldl (fun l a => insertKeyed (mapKey host) a l) [] = textEntries es :=
  hes.foldl_insertKeyed_eq (perm_textEntries hes hlen hmem).symm

/-- Fields under ASCII keys are written under these keys. -/
lemma normal_textEntries {es : List (String × CBOR)}
    (hascii : ∀ k ∈ es.map Prod.fst, ∀ c ∈ k.toList, c.val < 128) :
    (CBOR.map (textEntries es)).normal host =
      .map (textEntries (es.map fun e => (e.1, e.2.normal host))) := by
  rw [normal_map, textEntries, textEntries, List.map_map, List.map_map]
  congr 1
  refine List.map_congr_left fun e he => ?_
  have hkey : (CBOR.text e.1).normal host = .text e.1 := by
    rw [CBOR.normal, nfc_of_ascii (hascii e.1 (List.mem_map_of_mem he))]
  simp only [Function.comp_apply, normalEntry, hkey]

/-! ### How long a map is -/

lemma length_text_le {t : String} (h : ∀ c ∈ t.toList, c.val < 128) :
    ((CBOR.text t).toCborData host).length ≤ 9 + (utf8 t).length := by
  have hhead : (encodeLen (utf8 t).length .text).length ≤ 9 := length_encodeHead_le 3 _
  rw [CBOR.toCborData, nfc_of_ascii h, List.length_append]
  omega

lemma length_byteString_le (b : Bytes) :
    ((CBOR.byteString b).toCborData host).length ≤ 9 + b.length := by
  have hhead : (encodeLen b.length .byteString).length ≤ 9 := length_encodeHead_le 2 _
  rw [CBOR.toCborData, List.length_append]
  omega

/-- Keys and values of bounded lengths make a map of bounded length. -/
lemma length_textEntries_le {es : List (String × CBOR)} {k n : ℕ}
    (hascii : ∀ key ∈ es.map Prod.fst, ∀ c ∈ key.toList, c.val < 128)
    (hk : ∀ key ∈ es.map Prod.fst, (utf8 key).length ≤ k)
    (hn : ∀ e ∈ es, (e.2.toCborData host).length ≤ n) :
    ((CBOR.map (textEntries es)).toCborData host).length ≤ 9 + es.length * (9 + k + n) := by
  have hentries : ((textEntries es).flatMap (entryData host)).length ≤
      es.length * (9 + k + n) := by
    induction es with
    | nil => simp [textEntries]
    | cons e es ih =>
      rw [List.map_cons, List.forall_mem_cons] at hascii hk
      obtain ⟨hne, hns⟩ := List.forall_mem_cons.mp hn
      have hkey := @length_text_le host e.1 hascii.1
      have hrest := ih hascii.2 hk.2 hns
      simp only [textEntries] at hrest
      simp only [textEntries, List.map_cons, List.flatMap_cons, List.length_append,
        List.length_cons, entryData, Nat.succ_mul]
      have hlen := hk.1
      omega
  have hhead : (encodeLen (textEntries es).length .map).length ≤ 9 := length_encodeHead_le 5 _
  rw [toCborData_map, List.length_append]
  omega

end Fields

/-- A number that is read from an integer that is not negative is that number. -/
lemma toU64_eq_some {v : CBOR} {n : UInt64} :
    v.toU64 = some n ↔ v = .unsigned n ∨ v = .negative (UInt64.ofNat (2 ^ 64 - 1 - n.toNat)) := by
  have hn := n.toNat_lt
  constructor
  · intro h
    obtain ⟨m, hm, rfl⟩ := Option.map_eq_some_iff.mp h
    cases v with
    | unsigned k =>
      left
      rw [CBOR.toUnsigned, if_pos (Nat.le_sub_one_of_lt k.toNat_lt), Option.some.injEq] at hm
      rw [← hm, UInt64.ofNat_toNat]
    | negative k =>
      right
      have hk := k.toNat_lt
      have hlt : 2 ^ 64 - 1 - k.toNat < 2 ^ 64 := by omega
      rw [CBOR.toUnsigned, if_pos (Nat.le_sub_one_of_lt k.toNat_lt), Option.some.injEq] at hm
      rw [← hm, UInt64.toNat_ofNat_of_lt' hlt, Nat.sub_sub_self (by omega), UInt64.ofNat_toNat]
    | _ => cases hm
  · rintro (rfl | rfl)
    · exact toU64_unsigned n
    · have hlt : 2 ^ 64 - 1 - n.toNat < 2 ^ 64 := by omega
      rw [CBOR.toU64, CBOR.toUnsigned, UInt64.toNat_ofNat_of_lt' hlt, if_pos (by omega),
        Option.map_some, Nat.sub_sub_self (by omega), UInt64.ofNat_toNat]

end Identikey.Dcbor
