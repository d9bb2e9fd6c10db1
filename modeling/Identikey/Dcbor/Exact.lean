/-
What the encoding of a value tells about the value.

The encoding says where it ends, and it determines the value up to what is lost in
writing it: texts are put in normalisation form C.  `CBOR.normal` is the value as it
is written, and `CBOR.unambiguous` says that two encodings read at one place are of
values with the same `normal` form.  This holds of all values whose encoding is
shorter than `2 ^ 64` bytes; beyond that no length fits its head.
-/
import Identikey.Lib.PrefixCode
import Identikey.Auth.CborExact
import Identikey.Dcbor.Value

namespace Identikey.Dcbor

open Lib Auth

variable (host : Host)

/-! ### Values, part by part -/

/-- Induction on a value, through items, keys, values and tagged content. -/
@[elab_as_elim]
lemma CBOR.members_induction {P : CBOR → Prop} (unsigned : ∀ n, P (.unsigned n))
    (negative : ∀ n, P (.negative n)) (byteString : ∀ b, P (.byteString b))
    (text : ∀ s, P (.text s)) (array : ∀ items, (∀ v ∈ items, P v) → P (.array items))
    (map : ∀ es : List (CBOR × CBOR), (∀ e ∈ es, P e.1 ∧ P e.2) → P (.map es))
    (tagged : ∀ tag item, P item → P (.tagged tag item)) (simple : ∀ s, P (.simple s))
    (v : CBOR) : P v :=
  @CBOR.rec P (fun items => ∀ v ∈ items, P v) (fun es => ∀ e ∈ es, P e.1 ∧ P e.2)
    (fun e => P e.1 ∧ P e.2) unsigned negative byteString text array map tagged simple
    (fun _ h => absurd h List.not_mem_nil)
    (fun _ _ hv hvs => List.forall_mem_cons.mpr ⟨hv, hvs⟩)
    (fun _ h => absurd h List.not_mem_nil)
    (fun _ _ he hes => List.forall_mem_cons.mpr ⟨he, hes⟩)
    (fun _ _ hk hv => ⟨hk, hv⟩) v

/-- An entry of a map as it stands in the encoding. -/
def entryData (e : CBOR × CBOR) : Bytes := e.1.toCborData host ++ e.2.toCborData host

lemma itemsData_eq (vs : List CBOR) : itemsData host vs = vs.flatMap (CBOR.toCborData host) := by
  induction vs with
  | nil => rfl
  | cons v vs ih => rw [itemsData, List.flatMap_cons, ih]

lemma entriesData_eq (es : List (CBOR × CBOR)) :
    entriesData host es = es.flatMap (entryData host) := by
  induction es with
  | nil => rfl
  | cons e es ih => rw [entriesData, List.flatMap_cons, ih, entryData]

lemma toCborData_array (items : List CBOR) :
    (CBOR.array items).toCborData host =
      encodeLen items.length .array ++ items.flatMap (CBOR.toCborData host) := by
  rw [CBOR.toCborData, itemsData_eq]

lemma toCborData_map (es : List (CBOR × CBOR)) :
    (CBOR.map es).toCborData host =
      encodeLen es.length .map ++ es.flatMap (entryData host) := by
  rw [CBOR.toCborData, entriesData_eq]

/-! ### The value that is written -/

/-- The bits of a number that its width holds. -/
def FloatWidth.low : FloatWidth → UInt64 → UInt64
  | .f16, bits => UInt64.ofNat (bits.toNat % 256 ^ 2)
  | .f32, bits => UInt64.ofNat (bits.toNat % 256 ^ 4)
  | .f64, bits => bits

/-- A simple value as it is written. -/
def Simple.normal : Simple → Simple
  | .float width bits => .float width (width.low bits)
  | s => s

mutual

/-- The value as it is written, its texts in normalisation form C. -/
def CBOR.normal : CBOR → CBOR
  | .text s => .text (host.nfc s)
  | .array items => .array (normalItems items)
  | .map entries => .map (normalEntries entries)
  | .tagged tag item => .tagged tag item.normal
  | .simple s => .simple s.normal
  | .unsigned n => .unsigned n
  | .negative n => .negative n
  | .byteString b => .byteString b

/-- The items as they are written. -/
def normalItems : List CBOR → List CBOR
  | [] => []
  | v :: vs => v.normal :: normalItems vs

/-- The entries as they are written. -/
def normalEntries : List (CBOR × CBOR) → List (CBOR × CBOR)
  | [] => []
  | (k, v) :: es => (k.normal, v.normal) :: normalEntries es

end

/-- An entry as it is written. -/
def normalEntry (e : CBOR × CBOR) : CBOR × CBOR := (e.1.normal host, e.2.normal host)

lemma normalItems_eq (vs : List CBOR) : normalItems host vs = vs.map (CBOR.normal host) := by
  induction vs with
  | nil => rfl
  | cons v vs ih => rw [normalItems, List.map_cons, ih]

lemma normalEntries_eq (es : List (CBOR × CBOR)) :
    normalEntries host es = es.map (normalEntry host) := by
  induction es with
  | nil => rfl
  | cons e es ih => rw [normalEntries, List.map_cons, ih, normalEntry]

lemma normal_array (items : List CBOR) :
    (CBOR.array items).normal host = .array (items.map (CBOR.normal host)) := by
  rw [CBOR.normal, normalItems_eq]

lemma normal_map (es : List (CBOR × CBOR)) :
    (CBOR.map es).normal host = .map (es.map (normalEntry host)) := by
  rw [CBOR.normal, normalEntries_eq]

lemma beBytes_mod (k n : ℕ) : beBytes k (n % 256 ^ k) = beBytes k n := by
  conv_rhs => rw [← Nat.div_add_mod n (256 ^ k), Nat.mul_comm]
  exact (beBytes_add_mul k _ _).symm

lemma Simple.cborData_normal (s : Simple) : s.normal.cborData = s.cborData := by
  cases s with
  | float width bits =>
    have hbits := bits.toNat_lt
    cases width with
    | f16 =>
      have hlow : (UInt64.ofNat (bits.toNat % 256 ^ 2)).toNat = bits.toNat % 256 ^ 2 :=
        UInt64.toNat_ofNat_of_lt' (lt_trans (Nat.mod_lt _ (by decide)) (by decide))
      simp only [Simple.normal, FloatWidth.low, Simple.cborData, hlow, beBytes_mod]
    | f32 =>
      have hlow : (UInt64.ofNat (bits.toNat % 256 ^ 4)).toNat = bits.toNat % 256 ^ 4 :=
        UInt64.toNat_ofNat_of_lt' (lt_trans (Nat.mod_lt _ (by decide)) (by decide))
      simp only [Simple.normal, FloatWidth.low, Simple.cborData, hlow, beBytes_mod]
    | f64 => rfl
  | _ => rfl

/-- What is written is written as it is. -/
lemma toCborData_normal (v : CBOR) : (v.normal host).toCborData host = v.toCborData host := by
  induction v using CBOR.members_induction with
  | unsigned n => rfl
  | negative n => rfl
  | byteString b => rfl
  | text s => simp only [CBOR.normal, CBOR.toCborData, host.nfc_nfc]
  | array items ih =>
    rw [normal_array, toCborData_array, toCborData_array, List.length_map, List.flatMap_map]
    congr 1
    exact List.flatMap_congr ih
  | map es ih =>
    rw [normal_map, toCborData_map, toCborData_map, List.length_map, List.flatMap_map]
    congr 1
    refine List.flatMap_congr fun e he => ?_
    rw [entryData, entryData, normalEntry, (ih e he).1, (ih e he).2]
  | tagged tag item ih => simp only [CBOR.normal, CBOR.toCborData, ih]
  | simple s => simp only [CBOR.normal, CBOR.toCborData, Simple.cborData_normal]

/-! ### Heads -/

lemma code_lt (t : MajorType) : t.code < 8 := by cases t <;> decide

lemma code_injective {t t' : MajorType} (h : t.code = t'.code) : t = t' := by
  revert h
  cases t <;> cases t' <;> decide

lemma encodeVarint_append_inj {t : MajorType} {n n' : UInt64} {s s' : Bytes}
    (h : encodeVarint n t ++ s = encodeVarint n' t ++ s') : n = n' ∧ s = s' :=
  encodeHead_append_inj (code_lt t) h

lemma encodeLen_append_inj {t : MajorType} {n n' : ℕ} {s s' : Bytes} (hn : n < 2 ^ 64)
    (hn' : n' < 2 ^ 64) (h : encodeLen n t ++ s = encodeLen n' t ++ s') : n = n' ∧ s = s' := by
  obtain ⟨hlen, hst⟩ := encodeVarint_append_inj h
  have hlen' := congrArg UInt64.toNat hlen
  rw [UInt64.toNat_ofNat_of_lt' hn, UInt64.toNat_ofNat_of_lt' hn'] at hlen'
  exact ⟨hlen', hst⟩

lemma length_encodeVarint_pos (n : UInt64) (t : MajorType) : 0 < (encodeVarint n t).length :=
  length_encodeHead_pos _ _

lemma length_encodeLen_pos (n : ℕ) (t : MajorType) : 0 < (encodeLen n t).length :=
  length_encodeHead_pos _ _

/-- The high bits of the first byte of a head are its major type. -/
lemma encodeVarint_first (n : UInt64) (t : MajorType) :
    ∃ k, k < 32 ∧ ∃ w, encodeVarint n t = (t.code <<< 5 ||| k) :: w := by
  have hn := n.toNat_lt
  unfold encodeVarint
  rcases Nat.lt_or_ge n.toNat 24 with h | h
  · refine ⟨n.toUInt8, ?_, [], encodeHead_short h⟩
    rw [UInt8.lt_iff_toNat_lt, UInt64.toNat_toUInt8, Nat.mod_eq_of_lt (by omega)]
    exact lt_trans h (by decide)
  rcases Nat.lt_or_ge n.toNat 256 with h' | h'
  · exact ⟨24, by decide, _, encodeHead_byte h h'⟩
  rcases Nat.lt_or_ge n.toNat (256 ^ 2) with h2 | h2
  · exact ⟨25, by decide, _, encodeHead_two (by omega) h2⟩
  rcases Nat.lt_or_ge n.toNat (256 ^ 4) with h4 | h4
  · exact ⟨26, by decide, _, encodeHead_four (by omega) h4⟩
  · exact ⟨27, by decide, _, encodeHead_eight (by omega)⟩

/-- The major type of a value. -/
def CBOR.majorType : CBOR → MajorType
  | .unsigned _ => .unsigned
  | .negative _ => .negative
  | .byteString _ => .byteString
  | .text _ => .text
  | .array _ => .array
  | .map _ => .map
  | .tagged _ _ => .tagged
  | .simple _ => .simple

lemma toCborData_first (v : CBOR) :
    ∃ k, k < 32 ∧ ∃ w, v.toCborData host = (v.majorType.code <<< 5 ||| k) :: w := by
  have happend : ∀ (n : UInt64) (t : MajorType) (payload : Bytes),
      ∃ k, k < 32 ∧ ∃ w, encodeVarint n t ++ payload = (t.code <<< 5 ||| k) :: w := by
    intro n t payload
    obtain ⟨k, hk, w, hw⟩ := encodeVarint_first n t
    exact ⟨k, hk, w ++ payload, by rw [hw, List.cons_append]⟩
  cases v with
  | unsigned n => exact encodeVarint_first n .unsigned
  | negative n => exact encodeVarint_first n .negative
  | byteString b => exact happend _ .byteString b
  | text s => exact happend _ .text _
  | array items => exact happend _ .array _
  | map es => exact happend _ .map _
  | tagged tag item => exact happend tag .tagged _
  | simple s =>
    cases s with
    | false => exact encodeVarint_first 20 .simple
    | true => exact encodeVarint_first 21 .simple
    | null => exact encodeVarint_first 22 .simple
    | float width bits =>
      cases width with
      | f16 =>
        have hb : (0xf9 : UInt8) = MajorType.simple.code <<< 5 ||| 25 := by decide
        exact ⟨25, by decide, beBytes 2 bits.toNat, hb ▸ rfl⟩
      | f32 =>
        have hb : (0xfa : UInt8) = MajorType.simple.code <<< 5 ||| 26 := by decide
        exact ⟨26, by decide, beBytes 4 bits.toNat, hb ▸ rfl⟩
      | f64 =>
        have hb : (0xfb : UInt8) = MajorType.simple.code <<< 5 ||| 27 := by decide
        exact ⟨27, by decide, beBytes 8 bits.toNat, hb ▸ rfl⟩

lemma length_toCborData_pos (v : CBOR) : 0 < (v.toCborData host).length := by
  obtain ⟨k, -, w, hw⟩ := toCborData_first host v
  rw [hw]
  exact Nat.succ_pos _

/-- Words that start with two encodings have the same first byte. -/
lemma majorType_eq {v w : CBOR} {s t : Bytes}
    (h : v.toCborData host ++ s = w.toCborData host ++ t) : v.majorType = w.majorType := by
  obtain ⟨k, hk, r, hv⟩ := toCborData_first host v
  obtain ⟨k', hk', r', hw⟩ := toCborData_first host w
  rw [hv, hw, List.cons_append, List.cons_append, List.cons.injEq] at h
  have hcode := congrArg (fun b : UInt8 => b >>> 5) h.1
  simp only [(head_split (code_lt _) hk).1, (head_split (code_lt _) hk').1] at hcode
  exact code_injective hcode

/-! ### Lengths -/

/-- The encoding is shorter than `2 ^ 64` bytes, and so is every part of it. -/
def CBOR.Fits (v : CBOR) : Prop := (v.toCborData host).length < 2 ^ 64

instance (v : CBOR) : Decidable (v.Fits host) :=
  inferInstanceAs (Decidable ((v.toCborData host).length < 2 ^ 64))

lemma length_item_lt {items : List CBOR} {v : CBOR} (hv : v ∈ items) :
    (v.toCborData host).length < ((CBOR.array items).toCborData host).length := by
  have hitem := length_le_flatMap (f := CBOR.toCborData host) hv
  have hhead := length_encodeLen_pos items.length .array
  rw [toCborData_array, List.length_append]
  omega

lemma length_entry_lt {es : List (CBOR × CBOR)} {e : CBOR × CBOR} (he : e ∈ es) :
    (e.1.toCborData host).length + (e.2.toCborData host).length <
      ((CBOR.map es).toCborData host).length := by
  have hentry := length_le_flatMap (f := entryData host) he
  have hhead := length_encodeLen_pos es.length .map
  rw [entryData, List.length_append] at hentry
  rw [toCborData_map, List.length_append]
  omega

variable {host}

lemma CBOR.Fits.byteString {b : Bytes} (h : (CBOR.byteString b).Fits host) : b.length < 2 ^ 64 := by
  unfold CBOR.Fits at h
  rw [CBOR.toCborData, List.length_append] at h
  omega

lemma CBOR.Fits.text {s : String} (h : (CBOR.text s).Fits host) :
    (utf8 (host.nfc s)).length < 2 ^ 64 := by
  unfold CBOR.Fits at h
  rw [CBOR.toCborData, List.length_append] at h
  omega

lemma CBOR.Fits.tagged {tag : UInt64} {item : CBOR} (h : (CBOR.tagged tag item).Fits host) :
    item.Fits host := by
  unfold CBOR.Fits at h ⊢
  rw [CBOR.toCborData, List.length_append] at h
  omega

lemma CBOR.Fits.items_length {items : List CBOR} (h : (CBOR.array items).Fits host) :
    items.length < 2 ^ 64 := by
  have hitems := length_le_length_flatMap (l := items) (length_toCborData_pos host)
  unfold CBOR.Fits at h
  rw [toCborData_array, List.length_append] at h
  omega

lemma CBOR.Fits.item {items : List CBOR} (h : (CBOR.array items).Fits host) {v : CBOR}
    (hv : v ∈ items) : v.Fits host :=
  (length_item_lt host hv).trans h

lemma CBOR.Fits.entries_length {es : List (CBOR × CBOR)} (h : (CBOR.map es).Fits host) :
    es.length < 2 ^ 64 := by
  have hentry : ∀ e : CBOR × CBOR, 0 < (entryData host e).length := by
    intro e
    have hkey := length_toCborData_pos host e.1
    rw [entryData, List.length_append]
    omega
  have hentries := length_le_length_flatMap (l := es) hentry
  unfold CBOR.Fits at h
  rw [toCborData_map, List.length_append] at h
  omega

lemma CBOR.Fits.entry {es : List (CBOR × CBOR)} (h : (CBOR.map es).Fits host) {e : CBOR × CBOR}
    (he : e ∈ es) : e.1.Fits host ∧ e.2.Fits host := by
  have hentry := length_entry_lt host he
  unfold CBOR.Fits at h ⊢
  constructor <;> omega

/-! ### Encodings tell where they end -/

/-- The width that a first byte announces. -/
def announced (first : UInt8) : Option FloatWidth :=
  if first = 0xf9 then some .f16 else if first = 0xfa then some .f32
  else if first = 0xfb then some .f64 else none

/-- The bytes of a number of a width. -/
def FloatWidth.bytes : FloatWidth → ℕ
  | .f16 => 2
  | .f32 => 4
  | .f64 => 8

lemma ofBeBytes_low (width : FloatWidth) (bits : UInt64) :
    UInt64.ofNat (ofBeBytes (beBytes width.bytes bits.toNat)) = width.low bits := by
  have hread : ∀ k, ofBeBytes (beBytes k bits.toNat) = bits.toNat % 256 ^ k := by
    intro k
    rw [← beBytes_mod, ofBeBytes_beBytes (Nat.mod_lt _ (Nat.pow_pos (by decide)))]
  have hbits : bits.toNat < 256 ^ 8 := bits.toNat_lt
  cases width with
  | f16 => rw [FloatWidth.bytes, hread, FloatWidth.low]
  | f32 => rw [FloatWidth.bytes, hread, FloatWidth.low]
  | f64 => rw [FloatWidth.bytes, hread, FloatWidth.low, Nat.mod_eq_of_lt hbits, UInt64.ofNat_toNat]

/-- A float is its first byte and its bits. -/
lemma float_data (width : FloatWidth) (bits : UInt64) :
    ∃ first, (Simple.float width bits).cborData = first :: beBytes width.bytes bits.toNat ∧
      announced first = some width := by
  cases width with
  | f16 => exact ⟨0xf9, rfl, rfl⟩
  | f32 => exact ⟨0xfa, rfl, rfl⟩
  | f64 => exact ⟨0xfb, rfl, rfl⟩

lemma simple_unambiguous (s s' : Simple) :
    Unambiguous Simple.cborData Simple.normal s s' := by
  -- `false`, `true` and `null` are one byte that announces no number
  have hshort : ∀ s : Simple, (∀ w b, s ≠ .float w b) → ∃ first, s.cborData = [first] ∧
      announced first = none ∧ s.normal = s ∧ ∀ s' : Simple, (∀ w b, s' ≠ .float w b) →
        s'.cborData = [first] → s' = s := by
    intro s hs
    cases s with
    | false => exact ⟨0xf4, rfl, rfl, rfl, by rintro (_ | _ | _ | ⟨w, b⟩) h <;>
        first | exact absurd rfl (h w b) | decide⟩
    | true => exact ⟨0xf5, rfl, rfl, rfl, by rintro (_ | _ | _ | ⟨w, b⟩) h <;>
        first | exact absurd rfl (h w b) | decide⟩
    | null => exact ⟨0xf6, rfl, rfl, rfl, by rintro (_ | _ | _ | ⟨w, b⟩) h <;>
        first | exact absurd rfl (h w b) | decide⟩
    | float w b => exact absurd rfl (hs w b)
  intro t t' h
  by_cases hs : ∀ w b, s ≠ .float w b
  · obtain ⟨first, hdata, hnone, hnormal, huniq⟩ := hshort s hs
    by_cases hs' : ∀ w b, s' ≠ .float w b
    · obtain ⟨first', hdata', -, -, -⟩ := hshort s' hs'
      rw [hdata, hdata', List.singleton_append, List.singleton_append, List.cons.injEq] at h
      rw [huniq s' hs' (by rw [hdata', h.1])]
      exact ⟨rfl, h.2⟩
    · obtain ⟨w', b', rfl⟩ : ∃ w b, s' = .float w b := by simpa using hs'
      obtain ⟨first', hdata', hsome⟩ := float_data w' b'
      rw [hdata, hdata', List.singleton_append, List.cons_append, List.cons.injEq] at h
      rw [h.1, hsome] at hnone
      cases hnone
  · obtain ⟨w, b, rfl⟩ : ∃ w b, s = .float w b := by simpa using hs
    obtain ⟨first, hdata, hsome⟩ := float_data w b
    by_cases hs' : ∀ w b, s' ≠ .float w b
    · obtain ⟨first', hdata', hnone, -, -⟩ := hshort s' hs'
      rw [hdata, hdata', List.singleton_append, List.cons_append, List.cons.injEq] at h
      rw [← h.1, hsome] at hnone
      cases hnone
    · obtain ⟨w', b', rfl⟩ : ∃ w b, s' = .float w b := by simpa using hs'
      obtain ⟨first', hdata', hsome'⟩ := float_data w' b'
      rw [hdata, hdata', List.cons_append, List.cons_append, List.cons.injEq] at h
      rw [h.1, hsome', Option.some.injEq] at hsome
      subst hsome
      obtain ⟨hbits, htail⟩ := List.append_inj h.2 (by simp)
      refine ⟨?_, htail⟩
      rw [Simple.normal, Simple.normal, ← ofBeBytes_low, ← ofBeBytes_low, hbits]

/-- The items of two arrays that are read at one place. -/
lemma array_parts {items items' : List CBOR} (hfit : (CBOR.array items).Fits host)
    (hfit' : (CBOR.array items').Fits host)
    (hitems : ∀ v ∈ items, ∀ w ∈ items', Unambiguous (CBOR.toCborData host) (CBOR.normal host) v w)
    {s t : Bytes}
    (h : (CBOR.array items).toCborData host ++ s = (CBOR.array items').toCborData host ++ t) :
    items.map (CBOR.normal host) = items'.map (CBOR.normal host) ∧ s = t := by
  rw [toCborData_array, toCborData_array, List.append_assoc, List.append_assoc] at h
  obtain ⟨hlen, h⟩ := encodeLen_append_inj hfit.items_length hfit'.items_length h
  exact Unambiguous.flatMap hitems hlen h

/-- The entries of two maps that are read at one place. -/
lemma map_parts {es es' : List (CBOR × CBOR)} (hfit : (CBOR.map es).Fits host)
    (hfit' : (CBOR.map es').Fits host)
    (hes : ∀ e ∈ es, ∀ e' ∈ es', Unambiguous (entryData host) (normalEntry host) e e')
    {s t : Bytes}
    (h : (CBOR.map es).toCborData host ++ s = (CBOR.map es').toCborData host ++ t) :
    es.map (normalEntry host) = es'.map (normalEntry host) ∧ s = t := by
  rw [toCborData_map, toCborData_map, List.append_assoc, List.append_assoc] at h
  obtain ⟨hlen, h⟩ := encodeLen_append_inj hfit.entries_length hfit'.entries_length h
  exact Unambiguous.flatMap hes hlen h

/-- **The encoding of a value tells where it ends, and what was written.** -/
theorem CBOR.unambiguous {v w : CBOR} (hv : v.Fits host) (hw : w.Fits host) :
    Unambiguous (CBOR.toCborData host) (CBOR.normal host) v w := by
  induction v using CBOR.members_induction generalizing w with
  | unsigned n =>
    intro s t h
    have hmajor := majorType_eq host h
    cases w with
    | unsigned n' =>
      obtain ⟨rfl, hst⟩ := encodeVarint_append_inj h
      exact ⟨rfl, hst⟩
    | _ => cases hmajor
  | negative n =>
    intro s t h
    have hmajor := majorType_eq host h
    cases w with
    | negative n' =>
      obtain ⟨rfl, hst⟩ := encodeVarint_append_inj h
      exact ⟨rfl, hst⟩
    | _ => cases hmajor
  | byteString b =>
    intro s t h
    have hmajor := majorType_eq host h
    cases w with
    | byteString b' =>
      simp only [CBOR.toCborData, List.append_assoc] at h
      obtain ⟨hlen, h⟩ := encodeLen_append_inj hv.byteString hw.byteString h
      obtain ⟨rfl, hst⟩ := List.append_inj h hlen
      exact ⟨rfl, hst⟩
    | _ => cases hmajor
  | text x =>
    intro s t h
    have hmajor := majorType_eq host h
    cases w with
    | text y =>
      simp only [CBOR.toCborData, List.append_assoc] at h
      obtain ⟨hlen, h⟩ := encodeLen_append_inj hv.text hw.text h
      obtain ⟨hxy, hst⟩ := List.append_inj h hlen
      exact ⟨by rw [CBOR.normal, CBOR.normal, utf8_injective hxy], hst⟩
    | _ => cases hmajor
  | array items ih =>
    intro s t h
    have hmajor := majorType_eq host h
    cases w with
    | array items' =>
      obtain ⟨hmap, hst⟩ := array_parts hv hw
        (fun x hx y hy => ih x hx (hv.item hx) (hw.item hy)) h
      exact ⟨by rw [normal_array, normal_array, hmap], hst⟩
    | _ => cases hmajor
  | map es ih =>
    intro s t h
    have hmajor := majorType_eq host h
    cases w with
    | map es' =>
      -- an entry is its key and then its value
      have hentry : ∀ x ∈ es, ∀ y ∈ es',
          Unambiguous (entryData host) (normalEntry host) x y := by
        intro x hx y hy
        have hkey : Unambiguous (fun e : CBOR × CBOR => e.1.toCborData host)
            (fun e => e.1.normal host) x y := (ih x hx).1 (hv.entry hx).1 (hw.entry hy).1
        have hvalue : Unambiguous (fun e : CBOR × CBOR => e.2.toCborData host)
            (fun e => e.2.normal host) x y := (ih x hx).2 (hv.entry hx).2 (hw.entry hy).2
        exact hkey.append hvalue
      obtain ⟨hmap, hst⟩ := map_parts hv hw hentry h
      exact ⟨by rw [normal_map, normal_map, hmap], hst⟩
    | _ => cases hmajor
  | tagged tag item ih =>
    intro s t h
    have hmajor := majorType_eq host h
    cases w with
    | tagged tag' item' =>
      simp only [CBOR.toCborData, List.append_assoc] at h
      obtain ⟨htag, hrest⟩ := encodeVarint_append_inj h
      obtain ⟨hitem, hst⟩ := ih hv.tagged hw.tagged _ _ hrest
      exact ⟨by rw [CBOR.normal, CBOR.normal, htag, hitem], hst⟩
    | _ => cases hmajor
  | simple x =>
    intro s t h
    have hmajor := majorType_eq host h
    cases w with
    | simple y =>
      obtain ⟨hxy, hst⟩ := simple_unambiguous x y s t h
      exact ⟨by rw [CBOR.normal, CBOR.normal, hxy], hst⟩
    | _ => cases hmajor

/-- Values with one encoding are written as one value. -/
lemma normal_eq_of_toCborData {v w : CBOR} (hv : v.Fits host)
    (h : v.toCborData host = w.toCborData host) : v.normal host = w.normal host := by
  have hw : w.Fits host := by rwa [CBOR.Fits, ← h]
  exact (CBOR.unambiguous hv hw [] [] (by rw [h])).1

/-- A value has the bytes of another exactly when both are written as one value. -/
lemma toCborData_eq_iff {v w : CBOR} (hv : v.Fits host) :
    v.toCborData host = w.toCborData host ↔ v.normal host = w.normal host := by
  refine ⟨normal_eq_of_toCborData hv, fun h => ?_⟩
  rw [← toCborData_normal, h, toCborData_normal]

/-! ### ASCII text -/

/-- ASCII text is in normalisation form C. -/
lemma nfc_of_ascii {s : String} (h : ∀ c ∈ s.toList, c.val < 128) : host.nfc s = s :=
  host.nfc_ascii s h

/-- The encoding of ASCII text does not depend on the host. -/
lemma textData_of_ascii {s : String} (h : ∀ c ∈ s.toList, c.val < 128) :
    (CBOR.text s).toCborData host = (CBOR.text s).toCborData Host.plain := by
  rw [CBOR.toCborData, nfc_of_ascii h]
  rfl

/-- The encoding of a text tells its normalisation form C. -/
lemma nfc_eq_of_textData {s t : String}
    (h : (CBOR.text s).toCborData host = (CBOR.text t).toCborData host) :
    host.nfc s = host.nfc t :=
  utf8_injective (encodeVarint_append_inj h).2

/-! ### Lookup -/

/-- Looking up a key among entries in order. -/
lemma getEntry_of_mem {es : List (CBOR × CBOR)} (hes : Keyed (mapKey host) es) {k v : CBOR}
    (h : (k, v) ∈ es) : getEntry host es k = some v := by
  unfold getEntry
  cases hfind : es.find? fun e => mapKey host e == k.toCborData host with
  | none =>
    have hne := List.find?_eq_none.mp hfind (k, v) h
    exact absurd (beq_self_eq_true _) hne
  | some e =>
    have hmem := List.mem_of_find?_eq_some hfind
    have hkey : mapKey host e = mapKey host (k, v) := by
      have := List.find?_some hfind
      exact eq_of_beq this
    rw [hes.inj hmem h hkey]
    rfl

end Identikey.Dcbor
