/-
The canonical CBOR codec is a bijection on its format.

The decoder accepts a byte string only if it is the encoding of the value it
returns (`Value.toBytes_of_fromBytes`), and it accepts the encoding of every
value whose maps have distinct keys, returning the value with its maps in
canonical order (`Value.fromBytes_toBytes`).

Both directions follow the two recursions, the decoder's on its fuel and the
encoder's on the value, and meet in the head: `readHead` reads exactly the five
forms `encodeHead` writes.
-/
import Identikey.Auth.Cbor

namespace Identikey.Auth

open Lib Lib.Reader

/-! ### Text -/

lemma fromUtf8_utf8 (s : String) : fromUtf8 (utf8 s) = some s := by
  have h : (utf8 s).toByteArray = s.toByteArray := by
    apply ByteArray.ext
    simp [utf8]
  rw [fromUtf8, h, String.fromUTF8?, dif_pos s.isValidUTF8]
  rfl

lemma utf8_of_fromUtf8 {b : Bytes} {s : String} (h : fromUtf8 b = some s) : utf8 s = b := by
  unfold fromUtf8 String.fromUTF8? at h
  split at h
  · next hv =>
    have hs : String.fromUTF8 b.toByteArray hv = s := by simpa using h
    rw [← hs]
    simp [utf8, String.fromUTF8]
  · cases h

lemma utf8_injective : Function.Injective utf8 := by
  intro s t h
  have hs := fromUtf8_utf8 s
  rw [h, fromUtf8_utf8 t] at hs
  exact (Option.some.inj hs).symm

lemma utf8_ofList (l : List Char) : utf8 (String.ofList l) = l.flatMap String.utf8EncodeChar := by
  rw [utf8, String.toByteArray_ofList]
  simp [List.utf8Encode]

lemma utf8_eq (s : String) : utf8 s = s.toList.flatMap String.utf8EncodeChar := by
  rw [← utf8_ofList, String.ofList_toList]

/-- Text whose bytes are ASCII is ASCII text. -/
lemma ascii_of_utf8 {s : String} (h : ∀ b ∈ utf8 s, b < 128) : ∀ c ∈ s.toList, c.val < 128 := by
  intro c hc
  have hb : ∀ b ∈ String.utf8EncodeChar c, b < 128 := fun b hb =>
    h b (utf8_eq s ▸ List.mem_flatMap.mpr ⟨c, hc, hb⟩)
  have hlead : ∀ n : ℕ, 192 ≤ n → n < 256 → ¬ UInt8.ofNat n < 128 := by
    intro n hlow hhigh
    rw [UInt8.lt_iff_toNat_lt, UInt8.toNat_ofNat', Nat.mod_eq_of_lt hhigh]
    show ¬ n < 128
    omega
  rw [UInt32.lt_iff_toNat_lt]
  show c.val.toNat < 128
  unfold String.utf8EncodeChar at hb
  simp only at hb
  split_ifs at hb with h₁ h₂ h₃
  · omega
  · exact absurd (hb _ List.mem_cons_self) (hlead _ (by omega) (by omega))
  · exact absurd (hb _ List.mem_cons_self) (hlead _ (by omega) (by omega))
  · exact absurd (hb _ List.mem_cons_self) (hlead _ (by omega) (by omega))

/-! ### Heads -/

lemma shift_or_mask (b : UInt8) : (b >>> 5) <<< 5 ||| (b &&& 0x1f) = b := by
  -- there are 256 bytes
  have h : ∀ n : Fin 256, (UInt8.ofNat n >>> 5) <<< 5 ||| (UInt8.ofNat n &&& 0x1f) =
      UInt8.ofNat n := by decide +kernel
  simpa using h ⟨b.toNat, b.toNat_lt⟩

lemma head_split {m k : UInt8} (hm : m < 8) (hk : k < 32) :
    (m <<< 5 ||| k) >>> 5 = m ∧ (m <<< 5 ||| k) &&& 0x1f = k := by
  have h : ∀ (i : Fin 8) (j : Fin 32),
      (UInt8.ofNat i <<< 5 ||| UInt8.ofNat j) >>> 5 = UInt8.ofNat i ∧
        (UInt8.ofNat i <<< 5 ||| UInt8.ofNat j) &&& 0x1f = UInt8.ofNat j := by decide +kernel
  simpa using h ⟨m.toNat, UInt8.lt_iff_toNat_lt.mp hm⟩ ⟨k.toNat, UInt8.lt_iff_toNat_lt.mp hk⟩

section Forms

variable {m : UInt8} {n : UInt64}

lemma encodeHead_short (h : n.toNat < 24) : encodeHead m n = [m <<< 5 ||| n.toUInt8] := by
  rw [encodeHead, if_pos (UInt64.lt_iff_toNat_lt.mpr h)]

lemma encodeHead_byte (h : 24 ≤ n.toNat) (h' : n.toNat < 256) :
    encodeHead m n = [m <<< 5 ||| 24, n.toUInt8] := by
  rw [encodeHead, if_neg (by simpa [UInt64.lt_iff_toNat_lt] using h),
    if_pos (by simp [UInt64.le_iff_toNat_le]; omega)]

lemma encodeHead_two (h : 255 < n.toNat) (h' : n.toNat < 256 ^ 2) :
    encodeHead m n = (m <<< 5 ||| 25) :: beBytes 2 n.toNat := by
  rw [encodeHead, if_neg (by simp [UInt64.lt_iff_toNat_lt]; omega),
    if_neg (by simpa [UInt64.le_iff_toNat_le] using h),
    if_pos (by simp [UInt64.le_iff_toNat_le]; omega),
    UInt64.toNat_toUInt16, Nat.mod_eq_of_lt (by omega)]

lemma encodeHead_four (h : 65535 < n.toNat) (h' : n.toNat < 256 ^ 4) :
    encodeHead m n = (m <<< 5 ||| 26) :: beBytes 4 n.toNat := by
  rw [encodeHead, if_neg (by simp [UInt64.lt_iff_toNat_lt]; omega),
    if_neg (by simp [UInt64.le_iff_toNat_le]; omega),
    if_neg (by simpa [UInt64.le_iff_toNat_le] using h),
    if_pos (by simp [UInt64.le_iff_toNat_le]; omega),
    UInt64.toNat_toUInt32, Nat.mod_eq_of_lt (by omega)]

lemma encodeHead_eight (h : 4294967295 < n.toNat) :
    encodeHead m n = (m <<< 5 ||| 27) :: beBytes 8 n.toNat := by
  rw [encodeHead, if_neg (by simp [UInt64.lt_iff_toNat_lt]; omega),
    if_neg (by simp [UInt64.le_iff_toNat_le]; omega),
    if_neg (by simp [UInt64.le_iff_toNat_le]; omega),
    if_neg (by simpa [UInt64.le_iff_toNat_le] using h)]

end Forms

namespace Cursor

variable {data : Bytes}

lemma take_eq_ok {n : ℕ} {c c' : Cursor data} {b : Bytes} (h : take n c = .ok (b, c')) :
    b.length = n ∧ c.rest = b ++ c'.rest := by
  unfold take at h
  simp only at h
  split at h
  · cases h
  · split at h
    · cases h
    · next hover hlen =>
      cases h
      refine ⟨?_, ?_⟩
      · rw [List.length_take, rest, List.length_drop]
        omega
      · simp only [rest, ← List.drop_drop, List.take_append_drop]

/-- The input has less than 2^64 bytes: no position in it overflows. -/
def Fits (data : Bytes) (_ : Cursor data) : Prop := data.length < 2 ^ 64

lemma take_accepts (b : Bytes) : Accepts rest (Fits data) (take b.length) b b := by
  intro c t hc ht
  have hlen : data.length = c.pos + (b.length + t.length) := by
    have hd : (data.drop c.pos).length = b.length + t.length := by
      rw [← List.length_append, ← ht, rest]
    rw [List.length_drop] at hd
    have := c.pos_le
    omega
  have hover : ¬ 2 ^ 64 ≤ c.pos + b.length := by
    have hc' : data.length < 2 ^ 64 := hc
    omega
  have hend : ¬ data.length < c.pos + b.length := by omega
  refine ⟨⟨c.pos + b.length, by omega, by omega⟩, ?_, hc, ?_⟩
  · unfold take
    simp only [dif_neg hover, dif_neg hend]
    rw [ht, List.take_left]
  · have hdrop : data.drop c.pos = b ++ t := ht
    rw [rest, ← List.drop_drop, hdrop, List.drop_left]

lemma readWide_sound {width : ℕ} {lower n : UInt64} {msg : String} {c c' : Cursor data}
    (hw : 256 ^ width ≤ 2 ^ 64) (h : readWide width lower msg c = .ok (n, c')) :
    lower.toNat < n.toNat ∧ n.toNat < 256 ^ width ∧
      c.rest = beBytes width n.toNat ++ c'.rest := by
  obtain ⟨b, c₁, hb, h⟩ := bind_eq_ok.mp h
  obtain ⟨hlen, hrest⟩ := take_eq_ok hb
  split at h
  · exact absurd h throw_ne_ok
  · next hle =>
    obtain ⟨rfl, rfl⟩ := pure_eq_ok.mp h
    have hlt : ofBeBytes b < 256 ^ width := hlen ▸ ofBeBytes_lt b
    have hn : (UInt64.ofNat (ofBeBytes b)).toNat = ofBeBytes b :=
      UInt64.toNat_ofNat_of_lt' (by simpa using lt_of_lt_of_le hlt hw)
    rw [UInt64.le_iff_toNat_le, not_le] at hle
    refine ⟨hle, by rwa [hn], ?_⟩
    rw [hn, hrest, ← hlen, beBytes_ofBeBytes]

lemma readArg_sound {m info : UInt8} {n : UInt64} {c c' : Cursor data}
    (h : readArg info c = .ok (n, c')) :
    (m <<< 5 ||| info) :: c.rest = encodeHead m n ++ c'.rest := by
  unfold readArg at h
  split at h
  · next hinfo =>
    obtain ⟨rfl, rfl⟩ := pure_eq_ok.mp h
    rw [encodeHead_short]
    · simp
    · have := UInt8.le_iff_toNat_le.mp hinfo
      simp at this ⊢
      omega
  split at h
  · next hinfo =>
    obtain ⟨b, c₁, hb, h⟩ := bind_eq_ok.mp h
    obtain ⟨hlen, hrest⟩ := take_eq_ok hb
    obtain ⟨x, rfl⟩ := List.length_eq_one_iff.mp hlen
    split at h
    · exact absurd h throw_ne_ok
    · next hmin =>
      obtain ⟨rfl, rfl⟩ := pure_eq_ok.mp h
      rw [UInt64.lt_iff_toNat_lt, not_lt] at hmin
      rw [encodeHead_byte (by simpa using hmin) (by have := x.toNat_lt; simp; omega), hinfo, hrest]
      simp
  split at h
  · next hinfo =>
    obtain ⟨hlow, hhigh, hrest⟩ := readWide_sound (by decide) h
    rw [encodeHead_two (by simpa using hlow) (by simpa using hhigh), hinfo, hrest]
    rfl
  split at h
  · next hinfo =>
    obtain ⟨hlow, hhigh, hrest⟩ := readWide_sound (by decide) h
    rw [encodeHead_four (by simpa using hlow) (by simpa using hhigh), hinfo, hrest]
    rfl
  split at h
  · next hinfo =>
    obtain ⟨hlow, -, hrest⟩ := readWide_sound (by decide) h
    rw [encodeHead_eight (by simpa using hlow), hinfo, hrest]
    rfl
  · exact absurd h throw_ne_ok

/-- A head that is read is the smallest form of its major type and argument. -/
lemma readHead_sound :
    Sound (@rest data) (fun x : UInt8 × UInt64 => encodeHead x.1 x.2) readHead := by
  intro c x c' h
  obtain ⟨b, c₁, hb, h⟩ := bind_eq_ok.mp h
  obtain ⟨n, c₂, hn, h⟩ := bind_eq_ok.mp h
  obtain ⟨rfl, rfl⟩ := pure_eq_ok.mp h
  obtain ⟨hlen, hrest⟩ := take_eq_ok hb
  obtain ⟨first, rfl⟩ := List.length_eq_one_iff.mp hlen
  have hhead := readArg_sound (m := first >>> 5) hn
  simp only [List.getD_cons_zero, shift_or_mask] at hhead ⊢
  rw [hrest, ← hhead, List.singleton_append]

lemma readWide_accepts {width : ℕ} {lower n : UInt64} {msg : String} (hlow : lower.toNat < n.toNat)
    (hhigh : n.toNat < 256 ^ width) :
    Accepts rest (Fits data) (readWide width lower msg) (beBytes width n.toNat) n := by
  have hn : UInt64.ofNat (ofBeBytes (beBytes width n.toNat)) = n := by
    rw [ofBeBytes_beBytes hhigh, UInt64.ofNat_toNat]
  have hb := @take_accepts data (beBytes width n.toNat)
  rw [length_beBytes] at hb
  have hmin : ¬ n ≤ lower := by
    rw [UInt64.le_iff_toNat_le]
    omega
  refine hb.bind_nil ?_
  rw [hn, if_neg hmin]
  exact accepts_pure n

lemma readArg_accepts (m : UInt8) (n : UInt64) :
    ∃ info w, info < 32 ∧ encodeHead m n = (m <<< 5 ||| info) :: w ∧
      Accepts rest (Fits data) (readArg info) w n := by
  by_cases h₁ : n.toNat < 24
  · refine ⟨n.toUInt8, [], ?_, encodeHead_short h₁, ?_⟩
    · rw [UInt8.lt_iff_toNat_lt]
      simp
      omega
    · have hle : n.toUInt8 ≤ 23 := by
        rw [UInt8.le_iff_toNat_le]
        simp
        omega
      have hn : n.toUInt8.toUInt64 = n := by
        apply UInt64.toNat_inj.mp
        simp
        omega
      rw [readArg, if_pos hle, hn]
      exact accepts_pure n
  by_cases h₂ : n.toNat < 256
  · refine ⟨24, [n.toUInt8], by decide, encodeHead_byte (by omega) h₂, ?_⟩
    have hn : n.toUInt8.toUInt64 = n := by
      apply UInt64.toNat_inj.mp
      simp
      omega
    -- the one-byte form is refused for what the short form holds
    have hmin : ¬ n < 24 := by
      rw [UInt64.lt_iff_toNat_lt]
      simpa using h₁
    refine (take_accepts [n.toUInt8]).bind_nil ?_
    simp only [List.getD_cons_zero, hn, if_neg hmin]
    exact accepts_pure n
  by_cases h₃ : n.toNat < 256 ^ 2
  · exact ⟨25, _, by decide, encodeHead_two (by omega) h₃, readWide_accepts (by simp; omega) h₃⟩
  by_cases h₄ : n.toNat < 256 ^ 4
  · exact ⟨26, _, by decide, encodeHead_four (by omega) h₄, readWide_accepts (by simp; omega) h₄⟩
  · exact ⟨27, _, by decide, encodeHead_eight (by omega),
      readWide_accepts (by simp; omega) n.toNat_lt⟩

lemma readHead_accepts {m : UInt8} (hm : m < 8) (n : UInt64) :
    Accepts rest (Fits data) readHead (encodeHead m n) (m, n) := by
  obtain ⟨info, w, hinfo, hw, hacc⟩ := readArg_accepts m n
  obtain ⟨hmajor, hmask⟩ := head_split hm hinfo
  rw [hw]
  refine (take_accepts [m <<< 5 ||| info]).bind (v := w) ?_
  simp only [List.getD_cons_zero, hmask, hmajor]
  exact hacc.bind_pure fun arg => (m, arg)

end Cursor

lemma length_encodeHead_pos (m : UInt8) (n : UInt64) : 0 < (encodeHead m n).length := by
  simp only [encodeHead]
  split_ifs <;> simp

lemma length_encodeHead_le (m : UInt8) (n : UInt64) : (encodeHead m n).length ≤ 9 := by
  simp only [encodeHead]
  split_ifs <;> simp

/-- The head tells where it ends: it is a prefix code. -/
lemma encodeHead_append_inj {m : UInt8} (hm : m < 8) {n n' : UInt64} {s t : Bytes}
    (h : encodeHead m n ++ s = encodeHead m n' ++ t) : n = n' ∧ s = t := by
  -- reading the longer encoding finds both arguments in it
  have key : ∀ {k k' : UInt64} {u : Bytes}, encodeHead m k' = encodeHead m k ++ u → k = k' := by
    intro k k' u hu
    have hfits : (encodeHead m k').length < 2 ^ 64 :=
      lt_of_le_of_lt (length_encodeHead_le m k') (by decide)
    -- an input this short fits a 64-bit length
    have hread := (Cursor.readHead_accepts hm k).unique (Cursor.readHead_accepts hm k')
      (s := Cursor.start (encodeHead m k')) hfits hu (List.append_nil _).symm
    exact congrArg Prod.snd hread.1
  have hn : n = n' := by
    rcases List.append_eq_append_iff.mp h with ⟨u, hu, -⟩ | ⟨u, hu, -⟩
    · exact key hu
    · exact (key hu).symm
  subst hn
  exact ⟨rfl, List.append_cancel_left h⟩

lemma encodeKey_injective : Function.Injective encodeKey := by
  intro k l h
  exact utf8_injective (encodeHead_append_inj (by decide) h).2

/-! ### Values, entry by entry -/

/-- An entry of a map as it stands in the encoding. -/
def encodeEntry (e : String × Value) : Bytes := encodeKey e.1 ++ e.2.encode

lemma encodeItems_eq (vs : List Value) : encodeItems vs = vs.flatMap Value.encode := by
  induction vs with
  | nil => rfl
  | cons v vs ih => rw [encodeItems, List.flatMap_cons, ih]

lemma encodeEntries_eq (es : List (String × Value)) :
    encodeEntries es = es.map fun e => (encodeKey e.1, e.2.encode) := by
  induction es with
  | nil => rfl
  | cons e es ih => rw [encodeEntries, List.map_cons, ih]

/-- The key by which the entries of a map are ordered. -/
def entryKey (e : String × Value) : Bytes := encodeKey e.1

lemma encode_array (items : List Value) :
    (Value.array items).encode =
      encodeHead 4 (UInt64.ofNat items.length) ++ items.flatMap Value.encode := by
  rw [Value.encode, encodeItems_eq]

lemma encode_map (es : List (String × Value)) :
    (Value.map es).encode =
      encodeHead 5 (UInt64.ofNat es.length) ++ (sortOn entryKey es).flatMap encodeEntry := by
  rw [Value.encode, encodeEntries_eq,
    ← map_sortOn (f := entryKey) (fun e : String × Value => (encodeKey e.1, e.2.encode))
      (fun _ => rfl) es, List.flatMap_map]
  rfl

/-! ### Induction on values -/

/-- Induction on a value, through the items of its arrays and the values of its maps. -/
@[elab_as_elim]
lemma Value.members_induction {P : Value → Prop} (uint : ∀ n, P (.uint n))
    (bytes : ∀ b, P (.bytes b)) (text : ∀ s, P (.text s))
    (array : ∀ items, (∀ v ∈ items, P v) → P (.array items))
    (map : ∀ es : List (String × Value), (∀ e ∈ es, P e.2) → P (.map es)) (v : Value) : P v :=
  @Value.rec P (fun items => ∀ v ∈ items, P v) (fun es => ∀ e ∈ es, P e.2) (fun e => P e.2)
    uint bytes text array map
    (fun _ h => absurd h List.not_mem_nil)
    (fun _ _ hv hvs => List.forall_mem_cons.mpr ⟨hv, hvs⟩)
    (fun _ h => absurd h List.not_mem_nil)
    (fun _ _ he hes => List.forall_mem_cons.mpr ⟨he, hes⟩)
    (fun _ _ h => h) v

/-! ### Canonical order -/

mutual

/-- The value with the entries of every map, at any depth, in canonical order. -/
def Value.canon : Value → Value
  | .uint n => .uint n
  | .bytes b => .bytes b
  | .text s => .text s
  | .array items => .array (canonItems items)
  | .map es => .map (sortOn entryKey (canonEntries es))

def canonItems : List Value → List Value
  | [] => []
  | v :: vs => v.canon :: canonItems vs

def canonEntries : List (String × Value) → List (String × Value)
  | [] => []
  | (k, v) :: es => (k, v.canon) :: canonEntries es

end

lemma canonItems_eq (vs : List Value) : canonItems vs = vs.map Value.canon := by
  induction vs with
  | nil => rfl
  | cons v vs ih => rw [canonItems, List.map_cons, ih]

lemma canonEntries_eq (es : List (String × Value)) :
    canonEntries es = es.map fun e => (e.1, e.2.canon) := by
  induction es with
  | nil => rfl
  | cons e es ih => rw [canonEntries, List.map_cons, ih]

@[simp] lemma canon_uint (n : UInt64) : (Value.uint n).canon = .uint n := rfl

@[simp] lemma canon_bytes (b : Bytes) : (Value.bytes b).canon = .bytes b := rfl

@[simp] lemma canon_text (t : String) : (Value.text t).canon = .text t := rfl

lemma canon_array (items : List Value) :
    (Value.array items).canon = .array (items.map Value.canon) := by
  rw [Value.canon, canonItems_eq]

lemma canon_map (es : List (String × Value)) :
    (Value.map es).canon = .map ((sortOn entryKey es).map fun e => (e.1, e.2.canon)) := by
  rw [Value.canon, canonEntries_eq,
    map_sortOn (f := entryKey) (g := entryKey) (fun e => (e.1, e.2.canon)) fun _ => rfl]

/-- No map, at any depth, has two equal keys. -/
inductive Value.DistinctKeys : Value → Prop
  | uint (n : UInt64) : DistinctKeys (.uint n)
  | bytes (b : Bytes) : DistinctKeys (.bytes b)
  | text (s : String) : DistinctKeys (.text s)
  | array {items : List Value} (h : ∀ v ∈ items, DistinctKeys v) : DistinctKeys (.array items)
  | map {es : List (String × Value)} (hkeys : (es.map Prod.fst).Nodup)
      (h : ∀ e ∈ es, DistinctKeys e.2) : DistinctKeys (.map es)

/-- The entries of every map, at any depth, are in strictly increasing order of their keys. -/
inductive Value.Canonical : Value → Prop
  | uint (n : UInt64) : Canonical (.uint n)
  | bytes (b : Bytes) : Canonical (.bytes b)
  | text (s : String) : Canonical (.text s)
  | array {items : List Value} (h : ∀ v ∈ items, Canonical v) : Canonical (.array items)
  | map {es : List (String × Value)} (hkeys : es.Pairwise fun a b => entryKey a < entryKey b)
      (h : ∀ e ∈ es, Canonical e.2) : Canonical (.map es)

lemma map_entryKey (es : List (String × Value)) :
    es.map entryKey = (es.map Prod.fst).map encodeKey := by
  simp [entryKey]

/-- Distinct names have distinct encodings. -/
lemma nodup_entryKey {es : List (String × Value)} (h : (es.map Prod.fst).Nodup) :
    (es.map entryKey).Nodup := by
  rw [map_entryKey]
  exact h.map encodeKey_injective

lemma nodup_of_canonical {es : List (String × Value)} (h : (Value.map es).Canonical) :
    (es.map Prod.fst).Nodup := by
  cases h with
  | map hkeys h =>
    have hnodup := nodup_of_strict entryKey hkeys
    rw [map_entryKey] at hnodup
    exact hnodup.of_map

lemma Value.DistinctKeys.canonical_canon {v : Value} (h : v.DistinctKeys) :
    v.canon.Canonical := by
  induction h with
  | uint n => exact .uint n
  | bytes b => exact .bytes b
  | text s => exact .text s
  | array h ih =>
    rw [canon_array]
    refine .array fun v hv => ?_
    obtain ⟨w, hw, rfl⟩ := List.mem_map.mp hv
    exact ih w hw
  | map hkeys h ih =>
    rw [canon_map]
    refine .map ?_ fun e he => ?_
    · exact List.pairwise_map.mpr (sortOn_strict entryKey (nodup_entryKey hkeys))
    · obtain ⟨e', he', rfl⟩ := List.mem_map.mp he
      exact ih e' ((mem_sortOn entryKey).mp he')

/-- The encoding does not see the order of map entries. -/
lemma encode_canon (v : Value) : v.canon.encode = v.encode := by
  induction v using Value.members_induction with
  | uint n => rfl
  | bytes b => rfl
  | text s => rfl
  | array items ih =>
    rw [canon_array, encode_array, encode_array, List.length_map, List.flatMap_map]
    congr 1
    exact List.flatMap_congr ih
  | map es ih =>
    -- the values change but not the keys, so the sorted entries stay sorted
    have hsorted : sortOn entryKey ((sortOn entryKey es).map fun e => (e.1, e.2.canon)) =
        (sortOn entryKey es).map fun e => (e.1, e.2.canon) := by
      rw [← map_sortOn (f := entryKey) (g := entryKey) (fun e => (e.1, e.2.canon)) fun _ => rfl,
        sortOn_sortOn]
    rw [canon_map, encode_map, encode_map, hsorted, List.length_map, length_sortOn,
      List.flatMap_map]
    congr 1
    refine List.flatMap_congr fun e he => ?_
    rw [encodeEntry, encodeEntry, ih e ((mem_sortOn entryKey).mp he)]

/-! ### The decoder accepts encodings only -/

namespace Cursor

/-- A text string that is read has the bytes it was read from. -/
lemma readText_sound {n : ℕ} {msg s : String} {c c' : Cursor data}
    (h : readText n msg c = .ok (s, c')) : (utf8 s).length = n ∧ c.rest = utf8 s ++ c'.rest := by
  obtain ⟨b, c₁, hb, h⟩ := bind_eq_ok.mp h
  obtain ⟨hlen, hrest⟩ := take_eq_ok hb
  cases ht : fromUtf8 b with
  | none =>
    rw [ht] at h
    exact absurd h throw_ne_ok
  | some x =>
    rw [ht] at h
    obtain ⟨rfl, rfl⟩ := pure_eq_ok.mp h
    rw [utf8_of_fromUtf8 ht]
    exact ⟨hlen, hrest⟩

/-- A key that is read has its encoding above the one before it. -/
lemma readKey_sound {prev : Option Bytes} {k : String} {c c' : Cursor data}
    (h : readKey prev c = .ok (k, c')) :
    c.rest = encodeKey k ++ c'.rest ∧ ∀ p ∈ prev, p < encodeKey k := by
  obtain ⟨⟨km, ka⟩, c₁, hhead, h⟩ := bind_eq_ok.mp h
  simp only at h
  split at h
  · exact absurd h throw_ne_ok
  · next hkm =>
    obtain ⟨x, c₂, hx, h⟩ := bind_eq_ok.mp h
    split at h
    · exact absurd h throw_ne_ok
    · next horder =>
      obtain ⟨rfl, rfl⟩ := pure_eq_ok.mp h
      obtain ⟨hlen, hrest⟩ := readText_sound hx
      have hhead' := readHead_sound _ _ _ hhead
      refine ⟨?_, fun p hp => ?_⟩
      · rw [hhead', hrest, encodeKey, hlen, UInt64.ofNat_toNat, not_not.mp hkm,
          List.append_assoc]
      · exact Std.not_le.mp fun hle => horder ⟨p, hp, hle⟩

lemma readEntries_sound {value : Read data Value} (hv : Sound rest Value.encode value)
    (hcanon : ∀ c v c', value c = .ok (v, c') → v.Canonical) {n : ℕ} {prev : Option Bytes}
    {es : List (String × Value)} {c c' : Cursor data}
    (h : readEntries value prev n c = .ok (es, c')) :
    es.length = n ∧ c.rest = es.flatMap encodeEntry ++ c'.rest ∧
      (∀ p ∈ prev, ∀ e ∈ es, p < entryKey e) ∧
      (es.Pairwise fun a b => entryKey a < entryKey b) ∧ ∀ e ∈ es, e.2.Canonical := by
  induction n generalizing prev es c with
  | zero =>
    obtain ⟨rfl, rfl⟩ := pure_eq_ok.mp h
    simp
  | succ n ih =>
    obtain ⟨k, c₁, hk, h⟩ := bind_eq_ok.mp h
    obtain ⟨v, c₂, hvc, h⟩ := bind_eq_ok.mp h
    obtain ⟨es', c₃, hes, h⟩ := bind_eq_ok.mp h
    obtain ⟨rfl, rfl⟩ := pure_eq_ok.mp h
    obtain ⟨hkrest, hprev⟩ := readKey_sound hk
    obtain ⟨hlen, hrest, habove, hsorted, hall⟩ := ih hes
    -- the rest of the loop compares with this entry's key
    have hnext : ∀ e ∈ es', entryKey (k, v) < entryKey e := habove _ rfl
    refine ⟨by rw [List.length_cons, hlen], ?_, ?_, ?_, ?_⟩
    · rw [hkrest, hv _ _ _ hvc, hrest]
      simp [encodeEntry]
    · intro p hp
      refine List.forall_mem_cons.mpr ⟨hprev p hp, fun e he => ?_⟩
      exact Std.lt_trans (hprev p hp) (hnext e he)
    · exact List.pairwise_cons.mpr ⟨hnext, hsorted⟩
    · exact List.forall_mem_cons.mpr ⟨hcanon _ _ _ hvc, hall⟩

lemma readValueBody_sound {value : Read data Value} (hv : Sound rest Value.encode value)
    (hcanon : ∀ c v c', value c = .ok (v, c') → v.Canonical) {v : Value} {c c' : Cursor data}
    (h : readValueBody value c = .ok (v, c')) : c.rest = v.encode ++ c'.rest ∧ v.Canonical := by
  obtain ⟨⟨major, arg⟩, c₁, hhead, h⟩ := bind_eq_ok.mp h
  have hhead' := readHead_sound _ _ _ hhead
  simp only at h
  split at h
  · next hm =>
    obtain ⟨rfl, rfl⟩ := pure_eq_ok.mp h
    exact ⟨by rw [hhead', hm, Value.encode], .uint arg⟩
  split at h
  · next hm =>
    obtain ⟨b, c₂, hb, h⟩ := bind_eq_ok.mp h
    obtain ⟨rfl, rfl⟩ := pure_eq_ok.mp h
    obtain ⟨hlen, hrest⟩ := take_eq_ok hb
    refine ⟨?_, .bytes b⟩
    rw [hhead', hm, hrest, Value.encode, hlen, UInt64.ofNat_toNat, List.append_assoc]
  split at h
  · next hm =>
    obtain ⟨s, c₂, hs, h⟩ := bind_eq_ok.mp h
    obtain ⟨rfl, rfl⟩ := pure_eq_ok.mp h
    obtain ⟨hlen, hrest⟩ := readText_sound hs
    refine ⟨?_, .text s⟩
    rw [hhead', hm, hrest, Value.encode, hlen, UInt64.ofNat_toNat, List.append_assoc]
  split at h
  · next hm =>
    obtain ⟨items, c₂, hitems, h⟩ := bind_eq_ok.mp h
    obtain ⟨rfl, rfl⟩ := pure_eq_ok.mp h
    obtain ⟨hlen, hrest⟩ := hv.times hitems
    refine ⟨?_, .array (times_forall hcanon hitems)⟩
    rw [hhead', hm, hrest, encode_array, hlen, UInt64.ofNat_toNat, List.append_assoc]
  split at h
  · next hm =>
    obtain ⟨es, c₂, hes, h⟩ := bind_eq_ok.mp h
    obtain ⟨rfl, rfl⟩ := pure_eq_ok.mp h
    obtain ⟨hlen, hrest, -, hsorted, hall⟩ := readEntries_sound hv hcanon hes
    refine ⟨?_, .map hsorted hall⟩
    rw [hhead', hm, hrest, encode_map, sortOn_eq_self entryKey hsorted, hlen, UInt64.ofNat_toNat,
      List.append_assoc]
  · exact absurd h throw_ne_ok

/-- Whatever the reader accepts is the encoding of a canonical value. -/
lemma readValueFuel_sound (fuel : ℕ) {v : Value} {c c' : Cursor data}
    (h : readValueFuel fuel c = .ok (v, c')) : c.rest = v.encode ++ c'.rest ∧ v.Canonical := by
  induction fuel generalizing v c c' with
  | zero =>
    exact readValueBody_sound (fun _ _ _ h => absurd h throw_ne_ok)
      (fun _ _ _ h => absurd h throw_ne_ok) h
  | succ fuel ih =>
    exact readValueBody_sound (fun _ _ _ h => (ih h).1) (fun _ _ _ h => (ih h).2) h

end Cursor

/-! ### The fuel is enough -/

namespace Cursor

variable {data : Bytes}

lemma pos_of_rest {c c' : Cursor data} {w : Bytes} (h : c.rest = w ++ c'.rest) :
    c'.pos = c.pos + w.length := by
  have hlen := congrArg List.length h
  simp only [rest, List.length_append, List.length_drop] at hlen
  have hc := c.pos_le
  have hc' := c'.pos_le
  omega

/-- From the cursor `c` on, the two readers do the same. -/
def AgreeFrom (c : Cursor data) (value value' : Read data Value) : Prop :=
  ∀ c' : Cursor data, c.pos ≤ c'.pos → value c' = value' c'

variable {value value' : Read data Value} {c : Cursor data}

lemma AgreeFrom.mono {c' : Cursor data} (h : AgreeFrom c value value') (hle : c.pos ≤ c'.pos) :
    AgreeFrom c' value value' :=
  fun d hd => h d (hle.trans hd)

lemma times_congr (hv : Sound rest Value.encode value) {n : ℕ} (h : AgreeFrom c value value') :
    value.times n c = value'.times n c := by
  induction n generalizing c with
  | zero => rfl
  | succ n ih =>
    refine bind_congr (h c le_rfl) fun v c' hvc => ?_
    have hpos := pos_of_rest (hv _ _ _ hvc)
    exact bind_congr (ih (h.mono (by omega))) fun _ _ _ => rfl

lemma readEntries_congr (hv : Sound rest Value.encode value) {n : ℕ} {prev : Option Bytes}
    (h : AgreeFrom c value value') : readEntries value prev n c = readEntries value' prev n c := by
  induction n generalizing prev c with
  | zero => rfl
  | succ n ih =>
    refine bind_congr rfl fun k c₁ hk => ?_
    have hpos₁ := pos_of_rest (readKey_sound hk).1
    refine bind_congr (h c₁ (by omega)) fun v c₂ hvc => ?_
    have hpos₂ := pos_of_rest (hv _ _ _ hvc)
    exact bind_congr (ih (h.mono (by omega))) fun _ _ _ => rfl

/-- `read_value` calls itself only past the head it has read. -/
lemma readValueBody_congr (hv : Sound rest Value.encode value)
    (h : ∀ c' : Cursor data, c.pos < c'.pos → value c' = value' c') :
    readValueBody value c = readValueBody value' c := by
  refine bind_congr rfl fun x c' hx => ?_
  have hpos : c'.pos = c.pos + (encodeHead x.1 x.2).length :=
    pos_of_rest (readHead_sound _ _ _ hx)
  have hhead := length_encodeHead_pos x.1 x.2
  -- the head has at least one byte, so all nested calls start past `c`
  have hagree : AgreeFrom c' value value' := fun d hd => h d (by omega)
  obtain ⟨major, arg⟩ := x
  simp only
  split_ifs
  · rfl
  · rfl
  · rfl
  · exact bind_congr (times_congr hv hagree) fun _ _ _ => rfl
  · exact bind_congr (readEntries_congr hv hagree) fun _ _ _ => rfl
  · rfl

/-- Fuel for the bytes that are left is enough: more of it changes nothing. -/
lemma readValueFuel_irrel {fuel fuel' : ℕ} (h : data.length - c.pos ≤ fuel)
    (h' : data.length - c.pos ≤ fuel') :
    readValueFuel fuel c = readValueFuel fuel' c := by
  have hle := c.pos_le
  induction fuel generalizing c fuel' with
  | zero =>
    cases fuel' with
    | zero => rfl
    | succ fuel' =>
      refine readValueBody_congr (fun _ _ _ hr => absurd hr throw_ne_ok) fun d hd => ?_
      have := d.pos_le
      omega
  | succ fuel ih =>
    have hsound : Sound rest Value.encode (@readValueFuel data fuel) :=
      fun _ _ _ hr => (readValueFuel_sound fuel hr).1
    cases fuel' with
    | zero =>
      refine readValueBody_congr hsound fun d hd => ?_
      have := d.pos_le
      omega
    | succ fuel' =>
      refine readValueBody_congr hsound fun d hd => ?_
      have := d.pos_le
      exact ih (by omega) (by omega) d.pos_le

/-- The equation of the source: `read_value` is its body with itself for the nested calls. -/
theorem readValue_eq : @readValue data = readValueBody readValue := by
  funext c
  have hle := c.pos_le
  -- one unit more is not needed, and with it the body can be unfolded
  have hmore : readValue c = readValueFuel (data.length - c.pos + 1) c :=
    readValueFuel_irrel le_rfl (by omega)
  rw [hmore]
  refine readValueBody_congr (fun _ _ _ hr => (readValueFuel_sound _ hr).1) fun d hd => ?_
  exact readValueFuel_irrel (by omega) le_rfl

end Cursor

/-! ### The decoder accepts every encoding -/

lemma length_encode_pos (v : Value) : 0 < v.encode.length := by
  cases v with
  | uint n => exact length_encodeHead_pos 0 n
  | bytes b => simp [Value.encode, length_encodeHead_pos]
  | text s => simp [Value.encode, length_encodeHead_pos]
  | array items => simp [Value.encode, length_encodeHead_pos]
  | map es => simp [Value.encode, length_encodeHead_pos]

lemma length_le_flatMap {α : Type} {f : α → Bytes} {l : List α} {a : α} (h : a ∈ l) :
    (f a).length ≤ (l.flatMap f).length := by
  obtain ⟨s, t, rfl⟩ := List.append_of_mem h
  simp only [List.flatMap_append, List.flatMap_cons, List.length_append]
  omega

lemma length_le_length_flatMap {α : Type} {f : α → Bytes} {l : List α}
    (h : ∀ a, 0 < (f a).length) : l.length ≤ (l.flatMap f).length := by
  induction l with
  | nil => simp
  | cons a l ih =>
    have := h a
    simp only [List.length_cons, List.flatMap_cons, List.length_append]
    omega

/-! ### What is inside is shorter -/

lemma exists_fuel {v : Value} {fuel : ℕ} (h : v.encode.length ≤ fuel) : ∃ n, fuel = n + 1 :=
  Nat.exists_eq_add_one.mpr ((length_encode_pos v).trans_le h)

lemma length_items_lt (items : List Value) :
    items.length < (Value.array items).encode.length := by
  have hhead := length_encodeHead_pos 4 (UInt64.ofNat items.length)
  have hitems := length_le_length_flatMap (f := Value.encode) (l := items) length_encode_pos
  rw [encode_array, List.length_append]
  omega

lemma length_item_lt {items : List Value} {x : Value} (hx : x ∈ items) :
    x.encode.length < (Value.array items).encode.length := by
  have hhead := length_encodeHead_pos 4 (UInt64.ofNat items.length)
  have hitem := length_le_flatMap (f := Value.encode) hx
  rw [encode_array, List.length_append]
  omega

lemma length_entries_lt (es : List (String × Value)) :
    es.length < (Value.map es).encode.length := by
  have hhead := length_encodeHead_pos 5 (UInt64.ofNat es.length)
  have hentry : ∀ e : String × Value, 0 < (encodeEntry e).length := by
    intro e
    have hvalue := length_encode_pos e.2
    simp only [encodeEntry, List.length_append]
    omega
  have hentries := length_le_length_flatMap (l := sortOn entryKey es) hentry
  rw [length_sortOn] at hentries
  rw [encode_map, List.length_append]
  omega

lemma length_entry_lt {es : List (String × Value)} {e : String × Value} (he : e ∈ es) :
    (utf8 e.1).length + e.2.encode.length < (Value.map es).encode.length := by
  have hhead := length_encodeHead_pos 5 (UInt64.ofNat es.length)
  have hentry := length_le_flatMap (f := encodeEntry) ((mem_sortOn entryKey).mpr he)
  simp only [encodeEntry, encodeKey, List.length_append] at hentry
  rw [encode_map, List.length_append]
  omega

namespace Cursor

variable {data : Bytes}

lemma readText_accepts (s msg : String) :
    Accepts rest (Fits data) (readText (utf8 s).length msg) (utf8 s) s := by
  refine (take_accepts (utf8 s)).bind_nil ?_
  rw [fromUtf8_utf8]
  exact accepts_pure s

lemma readKey_accepts {prev : Option Bytes} {k : String} (hprev : ∀ p ∈ prev, p < encodeKey k)
    (hlen : (utf8 k).length < 2 ^ 64) :
    Accepts rest (Fits data) (readKey prev) (encodeKey k) k := by
  have hn : (UInt64.ofNat (utf8 k).length).toNat = (utf8 k).length :=
    UInt64.toNat_ofNat_of_lt' hlen
  have horder : ¬ ∃ p ∈ prev, encodeKey k ≤ p := by
    rintro ⟨p, hp, hle⟩
    exact Std.not_le.mpr (hprev p hp) hle
  refine (readHead_accepts (by decide) _).bind ?_
  simp only [ne_eq, not_true_eq_false, if_false, hn]
  refine (readText_accepts k _).bind_nil ?_
  rw [if_neg horder]
  exact accepts_pure k

lemma readEntries_accepts {value : Read data Value} {es : List (String × Value)}
    {g : String × Value → Value} (prev : Option Bytes)
    (hv : ∀ e ∈ es, Accepts rest (Fits data) value e.2.encode (g e))
    (hlen : ∀ e ∈ es, (utf8 e.1).length < 2 ^ 64)
    (hprev : ∀ p ∈ prev, ∀ e ∈ es, p < entryKey e)
    (hsorted : es.Pairwise fun a b => entryKey a < entryKey b) :
    Accepts rest (Fits data) (readEntries value prev es.length) (es.flatMap encodeEntry)
      (es.map fun e => (e.1, g e)) := by
  induction es generalizing prev with
  | nil => exact accepts_pure []
  | cons e es ih =>
    obtain ⟨habove, hsorted'⟩ := List.pairwise_cons.mp hsorted
    obtain ⟨hve, hves⟩ := List.forall_mem_cons.mp hv
    obtain ⟨hlene, hlenes⟩ := List.forall_mem_cons.mp hlen
    have hkey := @readKey_accepts data _ _
      (fun p hp => hprev p hp e List.mem_cons_self) hlene
    have hrest := ih (some (encodeKey e.1)) hves hlenes
      (fun p hp e' he' => by
        obtain rfl : encodeKey e.1 = p := by simpa using hp
        exact habove e' he') hsorted'
    rw [List.flatMap_cons, encodeEntry, List.append_assoc]
    exact hkey.bind (hve.bind (hrest.bind_pure fun xs => (e.1, g e) :: xs))

lemma readArray_accepts {value : Read data Value} {items : List Value}
    (hlen : items.length < 2 ^ 64)
    (hitems : ∀ x ∈ items, Accepts rest (Fits data) value x.encode x.canon) :
    Accepts rest (Fits data) (readValueBody value) (Value.array items).encode
      (Value.array items).canon := by
  rw [encode_array, canon_array]
  refine (readHead_accepts (by decide) _).bind ?_
  simp only [UInt64.toNat_ofNat_of_lt' hlen]
  exact (Accepts.times hitems).bind_pure Value.array

/-- The entries were written in canonical order, so they are read in that order. -/
lemma readMap_accepts {value : Read data Value} {es : List (String × Value)}
    (hkeys : (es.map Prod.fst).Nodup) (hlen : es.length < 2 ^ 64)
    (hnames : ∀ e ∈ es, (utf8 e.1).length < 2 ^ 64)
    (hvalues : ∀ e ∈ es, Accepts rest (Fits data) value e.2.encode e.2.canon) :
    Accepts rest (Fits data) (readValueBody value) (Value.map es).encode
      (Value.map es).canon := by
  have hread := @readEntries_accepts data value (sortOn entryKey es) (fun e => e.2.canon) none
    (fun e he => hvalues e ((mem_sortOn entryKey).mp he))
    (fun e he => hnames e ((mem_sortOn entryKey).mp he)) (by simp)
    (sortOn_strict entryKey (nodup_entryKey hkeys))
  rw [length_sortOn] at hread
  rw [encode_map, canon_map]
  refine (readHead_accepts (by decide) _).bind ?_
  simp only [UInt64.toNat_ofNat_of_lt' hlen]
  exact hread.bind_pure Value.map

/-- With as much fuel as its encoding is long, a value is read back in canonical order. -/
lemma readValueFuel_accepts {v : Value} (hv : v.DistinctKeys) {fuel : ℕ}
    (hfuel : v.encode.length ≤ fuel) (hfit : v.encode.length < 2 ^ 64) :
    Accepts rest (Fits data) (readValueFuel fuel) v.encode v.canon := by
  induction hv generalizing fuel with
  | uint n =>
    obtain ⟨fuel, rfl⟩ := exists_fuel hfuel
    exact (readHead_accepts (by decide) n).bind_nil (accepts_pure _)
  | bytes b =>
    obtain ⟨fuel, rfl⟩ := exists_fuel hfuel
    have hlen : b.length < 2 ^ 64 := by
      simp only [Value.encode, List.length_append] at hfit
      omega
    refine (readHead_accepts (by decide) _).bind ?_
    simp only [UInt64.toNat_ofNat_of_lt' hlen]
    exact (take_accepts b).bind_pure Value.bytes
  | text s =>
    obtain ⟨fuel, rfl⟩ := exists_fuel hfuel
    have hlen : (utf8 s).length < 2 ^ 64 := by
      simp only [Value.encode, List.length_append] at hfit
      omega
    refine (readHead_accepts (by decide) _).bind ?_
    simp only [UInt64.toNat_ofNat_of_lt' hlen]
    exact (readText_accepts s _).bind_pure Value.text
  | @array items h ih =>
    obtain ⟨fuel, rfl⟩ := exists_fuel hfuel
    -- the head takes a byte, so the fuel that is left suffices for every item
    refine readArray_accepts ?_ fun x hx => ?_
    · have hcount := length_items_lt items
      omega
    · have hx' := length_item_lt hx
      exact ih x hx (by omega) (by omega)
  | @map es hkeys h ih =>
    obtain ⟨fuel, rfl⟩ := exists_fuel hfuel
    refine readMap_accepts hkeys ?_ (fun e he => ?_) fun e he => ?_
    · have hcount := length_entries_lt es
      omega
    · have he' := length_entry_lt he
      omega
    · have he' := length_entry_lt he
      exact ih e he (by omega) (by omega)

end Cursor

/-! ### The codec -/

/-- Bytes that decode are the encoding of the value they decode to, which is in canonical
order; positions being 64-bit, they are less than 2^64. -/
lemma Value.fromBytes_sound {b : Bytes} {v : Value} (h : fromBytes b = .ok v) :
    v.toBytes = b ∧ v.Canonical ∧ b.length < 2 ^ 64 := by
  unfold fromBytes at h
  cases hread : Cursor.readValue (Cursor.start b) with
  | error e =>
    rw [hread] at h
    cases h
  | ok x =>
    obtain ⟨w, cur⟩ := x
    rw [hread] at h
    simp only [bind, Except.bind] at h
    split at h
    · cases h
    · next hpos =>
      cases h
      obtain ⟨hrest, hcanon⟩ := Cursor.readValueFuel_sound _ hread
      have hend : cur.rest = [] := by
        rw [Cursor.rest, List.drop_eq_nil_iff]
        omega
      rw [hend, List.append_nil] at hrest
      exact ⟨hrest.symm, hcanon, not_not.mp hpos ▸ cur.pos_lt⟩

/-- The encoding of a value with distinct keys decodes to the value in canonical order. -/
lemma Value.fromBytes_toBytes {v : Value} (hv : v.DistinctKeys) (hfit : v.toBytes.length < 2 ^ 64) :
    fromBytes v.toBytes = .ok v.canon := by
  obtain ⟨cur, hread, -, hend⟩ := Cursor.readValueFuel_accepts hv le_rfl hfit
    (Cursor.start v.toBytes) [] hfit (List.append_nil _).symm
  have hpos : cur.pos = v.toBytes.length := by
    rw [Cursor.rest, List.drop_eq_nil_iff] at hend
    have := cur.pos_le
    omega
  have hread' : Cursor.readValue (Cursor.start v.toBytes) = .ok (v.canon, cur) := hread
  unfold fromBytes
  rw [hread']
  simp only [bind, Except.bind]
  rw [if_neg (not_not.mpr hpos)]
  rfl

/-- Once `b` decodes, a value with distinct keys encodes to `b` exactly when it is the decoded
one up to the order of map entries. -/
lemma Value.toBytes_eq_iff {b : Bytes} {v w : Value} (h : fromBytes b = .ok v)
    (hw : w.DistinctKeys) : w.toBytes = b ↔ w.canon = v := by
  obtain ⟨hb, hv, hfit⟩ := fromBytes_sound h
  constructor
  · rintro rfl
    rw [fromBytes_toBytes hw hfit] at h
    exact Except.ok.inj h
  · rintro rfl
    rw [← hb]
    exact (encode_canon w).symm

/-- **The codec is a bijection on its format.**  A byte string that decodes is the encoding of
the value it decodes to; the encoding of a value with distinct keys decodes to that value in
canonical order, which no other byte string does; and two values have one encoding exactly
when they differ in the order of map entries only. -/
theorem codec_bijective :
    (∀ (b : Bytes) (v : Value), Value.fromBytes b = .ok v → v.toBytes = b) ∧
    (∀ v : Value, v.DistinctKeys → v.toBytes.length < 2 ^ 64 →
      Value.fromBytes v.toBytes = .ok v.canon) ∧
    (∀ v : Value, v.DistinctKeys → v.toBytes.length < 2 ^ 64 →
      ∃! b, Value.fromBytes b = .ok v.canon) ∧
    (∀ v w : Value, v.DistinctKeys → w.DistinctKeys → v.toBytes.length < 2 ^ 64 →
      (v.toBytes = w.toBytes ↔ v.canon = w.canon)) := by
  refine ⟨fun b v h => (Value.fromBytes_sound h).1,
    fun v hv hfit => Value.fromBytes_toBytes hv hfit,
    fun v hv hfit => ⟨v.toBytes, Value.fromBytes_toBytes hv hfit, fun b hb => ?_⟩,
    fun v w hv hw hfit => ⟨fun h => ?_, fun h => ?_⟩⟩
  · rw [← (Value.fromBytes_sound hb).1]
    exact encode_canon v
  · have hread := Value.fromBytes_toBytes hv hfit
    rw [h, Value.fromBytes_toBytes hw (h ▸ hfit)] at hread
    exact (Except.ok.inj hread).symm
  · calc v.toBytes = v.canon.toBytes := (encode_canon v).symm
      _ = w.canon.toBytes := by rw [h]
      _ = w.toBytes := encode_canon w

/-- A map with its entries out of order is read back with them in order. -/
theorem codec_bijective_two_entries :
    Value.fromBytes (Value.map [("b", .uint 1), ("a", .bytes [2])]).toBytes =
      .ok (.map [("a", .bytes [2]), ("b", .uint 1)]) :=
  codec_bijective.2.1 _
    (.map (by decide) (by
      intro e he
      rcases List.mem_pair.mp he with rfl | rfl
      · exact .uint 1
      · exact .bytes [2]))
    (by decide)

end Identikey.Auth
