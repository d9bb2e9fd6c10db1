/-
What the decoder accepts.

A value in canonical form is what its bytes say: its texts are in normalisation form
C, and the entries of its maps are in order without repetition.  The decoder reads
the bytes of such a value back as that value, and its fuel never runs out.
-/
import Identikey.Dcbor.Decode

namespace Identikey.Dcbor

open Lib Auth Lib.Reader

variable (host : Host)

/-- A value that is what its bytes say. -/
inductive CBOR.Canonical : CBOR → Prop where
  | unsigned (n : UInt64) : CBOR.Canonical (.unsigned n)
  | negative (n : UInt64) : CBOR.Canonical (.negative n)
  | byteString (b : Bytes) : CBOR.Canonical (.byteString b)
  | text {s : String} (h : host.nfc s = s) : CBOR.Canonical (.text s)
  | array {items : List CBOR} (h : ∀ v ∈ items, CBOR.Canonical v) : CBOR.Canonical (.array items)
  | map {es : List (CBOR × CBOR)} (hordered : Keyed (mapKey host) es)
      (hkeys : ∀ e ∈ es, CBOR.Canonical e.1) (hvalues : ∀ e ∈ es, CBOR.Canonical e.2) :
      CBOR.Canonical (.map es)
  | tagged {tag : UInt64} {item : CBOR} (h : CBOR.Canonical item) :
      CBOR.Canonical (.tagged tag item)
  | simple {s : Simple} (h : ∀ w bits, s = .float w bits → w.low bits = bits ∧
      host.readFloat w bits = .ok (.simple (.float w bits))) : CBOR.Canonical (.simple s)

variable {host}

/-- A value in canonical form is written as it is. -/
lemma CBOR.Canonical.normal_eq {v : CBOR} (h : v.Canonical host) : v.normal host = v := by
  induction h with
  | unsigned n => rfl
  | negative n => rfl
  | byteString b => rfl
  | text h => rw [CBOR.normal, h]
  | array h ih =>
    rw [normal_array, List.map_congr_left ih, List.map_id']
  | @map es hordered hkeys hvalues ihkeys ihvalues =>
    have hes : ∀ e ∈ es, normalEntry host e = e := fun e he =>
      Prod.ext (ihkeys e he) (ihvalues e he)
    rw [normal_map, List.map_congr_left hes, List.map_id']
  | tagged h ih => rw [CBOR.normal, ih]
  | @simple s h =>
    cases s with
    | float w bits => rw [CBOR.normal, Simple.normal, (h w bits rfl).1]
    | _ => rfl

/-- Values in canonical form with one encoding are one value. -/
lemma CBOR.Canonical.eq_of_toCborData {v w : CBOR} (hv : v.Canonical host) (hw : w.Canonical host)
    (hfit : v.Fits host) (h : v.toCborData host = w.toCborData host) : v = w := by
  rw [← hv.normal_eq, ← hw.normal_eq]
  exact normal_eq_of_toCborData hfit h

/-! ### Reading a header -/

/-- Every input is a good one. -/
abbrev Any (_ : Bytes) : Prop := True

/-- The parser reads the word and returns the result, whatever follows. -/
abbrev Reads {α : Type} (p : Parser α) (w : Bytes) (a : α) : Prop := Accepts id Any p w a

lemma parseBytes_reads (b : Bytes) : Reads (parseBytes b.length) b b := by
  intro s t _ hs
  have hs' : s = b ++ t := hs
  refine ⟨t, ?_, trivial, rfl⟩
  rw [parseBytes, if_neg (by rw [hs', List.length_append]; omega), hs']
  simp

lemma ofCode_code (t : MajorType) : MajorType.ofCode t.code = t := by
  cases t <;> decide

lemma parseWide_reads {width : ℕ} {lower n : UInt64} {float header : UInt8}
    (hlow : lower.toNat < n.toNat) (hn : n.toNat < 256 ^ width) :
    Reads (parseWide width lower float header) (beBytes width n.toNat) n := by
  have hlen := length_beBytes width n.toNat
  have hbytes : Reads (parseBytes width) (beBytes width n.toNat) (beBytes width n.toNat) := by
    have h := parseBytes_reads (beBytes width n.toNat)
    rwa [hlen] at h
  refine hbytes.bind_nil ?_
  rw [ofBeBytes_beBytes hn, UInt64.ofNat_toNat]
  have hle : ¬ n ≤ lower := by
    rw [UInt64.le_iff_toNat_le]
    omega
  rw [if_neg fun h => hle h.1]
  exact accepts_pure n

/-- The number behind the header of a float is not checked for the smallest width. -/
lemma parseWide_float_reads {width n : ℕ} (lower : UInt64) (header : UInt8)
    (hn : n < 256 ^ width) :
    Reads (parseWide width lower header header) (beBytes width n) (UInt64.ofNat n) := by
  have hlen := length_beBytes width n
  have hbytes : Reads (parseBytes width) (beBytes width n) (beBytes width n) := by
    have h := parseBytes_reads (beBytes width n)
    rwa [hlen] at h
  refine hbytes.bind_nil ?_
  rw [ofBeBytes_beBytes hn, if_neg fun h => h.2 rfl]
  exact accepts_pure _

/-- A header that is read from its first byte and what belongs to it. -/
lemma parseHeader_reads {header : UInt8} {w : Bytes} {arg : UInt64 × ℕ} {t : MajorType}
    (ht : MajorType.ofCode (header >>> 5) = t) (h : Reads (parseArg header) w arg) :
    Reads parseHeaderVarint (header :: w) (t, arg) := by
  have hfirst := parseBytes_reads [header]
  refine Accepts.bind (w := [header]) hfirst ?_
  simp only [List.getD_cons_zero, ht]
  exact h.bind_pure fun x => (t, x)

lemma parseHeaderVarint_reads (n : UInt64) (t : MajorType) :
    Reads parseHeaderVarint (encodeVarint n t) (t, n, (encodeVarint n t).length) := by
  have hn := n.toNat_lt
  have hcode : ∀ {k : UInt8}, k < 32 → MajorType.ofCode ((t.code <<< 5 ||| k) >>> 5) = t := by
    intro k hk
    rw [(head_split (code_lt t) hk).1, ofCode_code]
  have hmask : ∀ {k : UInt8}, k < 32 → (t.code <<< 5 ||| k) &&& 31 = k := fun hk =>
    (head_split (code_lt t) hk).2
  unfold encodeVarint
  rcases Nat.lt_or_ge n.toNat 24 with h | h
  · have hk : n.toUInt8.toNat = n.toNat := by
      rw [UInt64.toNat_toUInt8, Nat.mod_eq_of_lt (by omega)]
    have hk32 : n.toUInt8 < 32 := by
      rw [UInt8.lt_iff_toNat_lt, hk]
      exact lt_trans h (by decide)
    rw [encodeHead_short h]
    refine parseHeader_reads (hcode hk32) ?_
    have hle : n.toUInt8 ≤ 23 := by
      rw [UInt8.le_iff_toNat_le, hk]
      exact Nat.le_of_lt_succ h
    have hback : n.toUInt8.toUInt64 = n := by
      apply UInt64.toNat_inj.mp
      rw [UInt8.toNat_toUInt64, hk]
    simp only [parseArg, hmask hk32, if_pos hle, hback]
    exact accepts_pure _
  rcases Nat.lt_or_ge n.toNat 256 with h' | h'
  · have hback : n.toUInt8.toUInt64 = n := by
      apply UInt64.toNat_inj.mp
      rw [UInt8.toNat_toUInt64, UInt64.toNat_toUInt8, Nat.mod_eq_of_lt (by omega)]
    have hge : ¬ n < 24 := by
      rw [UInt64.lt_iff_toNat_lt]
      exact Nat.not_lt.mpr h
    rw [encodeHead_byte h h']
    refine parseHeader_reads (hcode (by decide)) ?_
    simp only [parseArg, hmask (show (24 : UInt8) < 32 by decide)]
    refine Accepts.bind_nil (parseBytes_reads [n.toUInt8]) ?_
    simp only [List.getD_cons_zero, hback, if_neg hge]
    exact accepts_pure _
  rcases Nat.lt_or_ge n.toNat (256 ^ 2) with h2 | h2
  · rw [encodeHead_two (by omega) h2]
    refine parseHeader_reads (hcode (by decide)) ?_
    simp only [parseArg, hmask (show (25 : UInt8) < 32 by decide)]
    have hwide := @parseWide_reads 2 0xff n 0xf9 (t.code <<< 5 ||| 25)
      (by simpa using by omega) h2
    simpa using hwide.bind_pure fun x => (x, 3)
  rcases Nat.lt_or_ge n.toNat (256 ^ 4) with h4 | h4
  · rw [encodeHead_four (by omega) h4]
    refine parseHeader_reads (hcode (by decide)) ?_
    simp only [parseArg, hmask (show (26 : UInt8) < 32 by decide)]
    have hwide := @parseWide_reads 4 0xffff n 0xfa (t.code <<< 5 ||| 26)
      (by simpa using by omega) h4
    simpa using hwide.bind_pure fun x => (x, 5)
  · rw [encodeHead_eight (by omega)]
    refine parseHeader_reads (hcode (by decide)) ?_
    simp only [parseArg, hmask (show (27 : UInt8) < 32 by decide)]
    have hwide := @parseWide_reads 8 0xffffffff n 0xfb (t.code <<< 5 ||| 27)
      (by simpa using by omega) hn
    simpa using hwide.bind_pure fun x => (x, 9)

/-! ### Reading a value -/

variable {item : Parser CBOR}

lemma parseText_reads {s : String} (h : host.nfc s = s) :
    Reads (parseText host (utf8 s).length) (utf8 s) (.text s) := by
  refine (parseBytes_reads (utf8 s)).bind_nil ?_
  rw [fromUtf8_utf8]
  simp only [h, ne_eq, not_true_eq_false, if_false]
  exact accepts_pure _

/-- The result of a computation without input. -/
lemma liftM_reads {α : Type} {x : Except Error α} {a : α} (h : x = .ok a) :
    Reads (liftM x : Parser α) [] a := by
  rw [h]
  exact accepts_pure a

lemma insertNext_eq {m : Map host} {e : CBOR × CBOR}
    (h : Keyed (mapKey host) (m.entries ++ [e])) :
    ∃ m', m.insertNext e.1 e.2 = .ok m' ∧ m'.entries = m.entries ++ [e] := by
  have hbelow : ∀ x ∈ m.entries, mapKey host x < mapKey host e := fun x hx =>
    (List.pairwise_append.mp h).2.2 x hx e List.mem_cons_self
  refine ⟨m.insert e.1 e.2, ?_, insertKeyed_append h⟩
  unfold Map.insertNext
  cases hlast : m.entries.getLast? with
  | none => rfl
  | some last =>
    have hmem : last ∈ m.entries := List.mem_of_getLast? hlast
    have hdup : ¬ ∃ x ∈ m.entries, mapKey host x = e.1.toCborData host := by
      rintro ⟨x, hx, heq⟩
      exact absurd (hbelow x hx) (by rw [heq]; exact Std.lt_irrefl)
    have horder : ¬ e.1.toCborData host ≤ mapKey host last := Std.not_le.mpr (hbelow last hmem)
    simp only [if_neg hdup, if_neg horder]

lemma parseEntries_reads {es : List (CBOR × CBOR)} {m : Map host}
    (hkeys : ∀ e ∈ es, Reads item (e.1.toCborData host) e.1)
    (hvalues : ∀ e ∈ es, Reads item (e.2.toCborData host) e.2)
    (hordered : Keyed (mapKey host) (m.entries ++ es)) :
    ∃ m', m'.entries = m.entries ++ es ∧
      Reads (parseEntries item es.length m) (es.flatMap (entryData host)) m' := by
  induction es generalizing m with
  | nil => exact ⟨m, by simp, accepts_pure m⟩
  | cons e es ih =>
    obtain ⟨hkey, hkeys⟩ := List.forall_mem_cons.mp hkeys
    obtain ⟨hvalue, hvalues⟩ := List.forall_mem_cons.mp hvalues
    rw [List.append_cons] at hordered
    obtain ⟨m₁, hm₁, hentries⟩ := insertNext_eq (List.pairwise_append.mp hordered).1
    obtain ⟨m', hm', hread⟩ := ih (m := m₁) hkeys hvalues (by rwa [hentries])
    refine ⟨m', by rw [hm', hentries, List.append_assoc, List.singleton_append], ?_⟩
    rw [List.flatMap_cons, entryData, List.append_assoc]
    refine hkey.bind (hvalue.bind ?_)
    have hbind := (liftM_reads hm₁).bind hread
    rwa [List.nil_append] at hbind

lemma decodeBody_array {items : List CBOR} (hlen : items.length < 2 ^ 64)
    (hitems : ∀ v ∈ items, Reads item (v.toCborData host) v) :
    Reads (decodeBody host item) ((CBOR.array items).toCborData host) (.array items) := by
  rw [toCborData_array]
  refine (parseHeaderVarint_reads _ .array).bind ?_
  simp only [UInt64.toNat_ofNat_of_lt' hlen]
  have hread := Accepts.times (w := CBOR.toCborData host) (g := id) hitems
  rw [List.map_id] at hread
  exact hread.bind_pure CBOR.array

lemma decodeBody_map {es : List (CBOR × CBOR)} (hlen : es.length < 2 ^ 64)
    (hordered : Keyed (mapKey host) es)
    (hkeys : ∀ e ∈ es, Reads item (e.1.toCborData host) e.1)
    (hvalues : ∀ e ∈ es, Reads item (e.2.toCborData host) e.2) :
    Reads (decodeBody host item) ((CBOR.map es).toCborData host) (.map es) := by
  obtain ⟨m, hm, hread⟩ := parseEntries_reads (m := (Map.new : Map host)) hkeys hvalues hordered
  have hentries : m.entries = es := hm
  rw [toCborData_map]
  refine (parseHeaderVarint_reads _ .map).bind ?_
  simp only [UInt64.toNat_ofNat_of_lt' hlen]
  have hbind := hread.bind_pure Map.toCBOR
  rwa [Map.toCBOR, hentries] at hbind

lemma decodeBody_float {w : FloatWidth} {bits : UInt64} (hlow : w.low bits = bits)
    (h : host.readFloat w bits = .ok (.simple (.float w bits))) :
    Reads (decodeBody host item) ((CBOR.simple (.float w bits)).toCborData host)
      (.simple (.float w bits)) := by
  have hbits : UInt64.ofNat (bits.toNat % 256 ^ w.bytes) = bits := by
    have hread := ofBeBytes_low w bits
    rwa [← beBytes_mod, ofBeBytes_beBytes (Nat.mod_lt _ (Nat.pow_pos (by decide))), hlow] at hread
  -- the header of each width
  have hdata : ∃ header varintLen, (Simple.float w bits).cborData =
      header :: beBytes w.bytes bits.toNat ∧
      Reads parseHeaderVarint (header :: beBytes w.bytes bits.toNat) (.simple, bits, varintLen) ∧
      parseSimple host bits varintLen = host.readFloat w bits := by
    have hmod := beBytes_mod w.bytes bits.toNat
    have hlt : bits.toNat % 256 ^ w.bytes < 256 ^ w.bytes := Nat.mod_lt _ (Nat.pow_pos (by decide))
    cases w with
    | f16 =>
      have hwide := parseWide_float_reads 0xff 0xf9 hlt
      rw [hmod, hbits] at hwide
      refine ⟨0xf9, 3, rfl, parseHeader_reads (by decide) ?_, rfl⟩
      exact hwide.bind_pure fun x => (x, 3)
    | f32 =>
      have hwide := parseWide_float_reads 0xffff 0xfa hlt
      rw [hmod, hbits] at hwide
      refine ⟨0xfa, 5, rfl, parseHeader_reads (by decide) ?_, rfl⟩
      exact hwide.bind_pure fun x => (x, 5)
    | f64 =>
      have hwide := parseWide_float_reads 0xffffffff 0xfb hlt
      rw [hmod, hbits] at hwide
      refine ⟨0xfb, 9, rfl, parseHeader_reads (by decide) ?_, rfl⟩
      exact hwide.bind_pure fun x => (x, 9)
  obtain ⟨header, varintLen, hdata, hread, hsimple⟩ := hdata
  rw [CBOR.toCborData, hdata]
  refine hread.bind_nil ?_
  exact liftM_reads (hsimple.trans h)

/-- With as much fuel as its encoding is long, a value in canonical form is read back. -/
lemma decodeFuel_reads {v : CBOR} (hv : v.Canonical host) {fuel : ℕ}
    (hfuel : (v.toCborData host).length ≤ fuel) (hfit : v.Fits host) :
    Reads (decodeFuel host fuel) (v.toCborData host) v := by
  have hpos := length_toCborData_pos host v
  obtain ⟨fuel, rfl⟩ : ∃ n, fuel = n + 1 := Nat.exists_eq_add_one.mpr (hpos.trans_le hfuel)
  induction hv generalizing fuel with
  | unsigned n => exact (parseHeaderVarint_reads n .unsigned).bind_nil (accepts_pure _)
  | negative n => exact (parseHeaderVarint_reads n .negative).bind_nil (accepts_pure _)
  | byteString b =>
    refine (parseHeaderVarint_reads _ .byteString).bind ?_
    simp only [UInt64.toNat_ofNat_of_lt' hfit.byteString]
    exact (parseBytes_reads b).bind_pure CBOR.byteString
  | @text s h =>
    have hlen := hfit.text
    rw [h] at hlen
    rw [CBOR.toCborData, h]
    refine (parseHeaderVarint_reads _ .text).bind ?_
    simp only [UInt64.toNat_ofNat_of_lt' hlen]
    exact parseText_reads h
  | @array items h ih =>
    refine decodeBody_array hfit.items_length fun v hv => ?_
    have hlt := length_item_lt host hv
    have hvpos := length_toCborData_pos host v
    obtain ⟨n, rfl⟩ : ∃ n, fuel = n + 1 := Nat.exists_eq_add_one.mpr (by omega)
    exact ih v hv (hfit.item hv) hvpos n (by omega)
  | @map es hordered hkeys hvalues ihkeys ihvalues =>
    refine decodeBody_map hfit.entries_length hordered (fun e he => ?_) fun e he => ?_
    · have hlt := length_entry_lt host he
      have hepos := length_toCborData_pos host e.1
      obtain ⟨n, rfl⟩ : ∃ n, fuel = n + 1 := Nat.exists_eq_add_one.mpr (by omega)
      exact ihkeys e he (hfit.entry he).1 hepos n (by omega)
    · have hlt := length_entry_lt host he
      have hepos := length_toCborData_pos host e.2
      obtain ⟨n, rfl⟩ : ∃ n, fuel = n + 1 := Nat.exists_eq_add_one.mpr (by omega)
      exact ihvalues e he (hfit.entry he).2 hepos n (by omega)
  | @tagged tag item h ih =>
    have hhead := length_encodeVarint_pos tag .tagged
    have hipos := length_toCborData_pos host item
    rw [CBOR.toCborData, List.length_append] at hfuel
    obtain ⟨n, rfl⟩ : ∃ n, fuel = n + 1 := Nat.exists_eq_add_one.mpr (by omega)
    refine (parseHeaderVarint_reads tag .tagged).bind ?_
    exact (ih hfit.tagged hipos n (by omega)).bind_pure fun x => CBOR.tagged tag x
  | @simple s h =>
    cases s with
    | float w bits => exact decodeBody_float (h w bits rfl).1 (h w bits rfl).2
    | false => exact (parseHeaderVarint_reads 20 .simple).bind_nil (liftM_reads rfl)
    | true => exact (parseHeaderVarint_reads 21 .simple).bind_nil (liftM_reads rfl)
    | null => exact (parseHeaderVarint_reads 22 .simple).bind_nil (liftM_reads rfl)

/-! ### The fuel is enough -/

lemma parseBytes_consumes (n : ℕ) : Consumes List.length n (parseBytes n) := by
  intro s a s' h
  unfold parseBytes at h
  split_ifs at h with hlen
  cases h
  rw [List.length_drop]
  omega

lemma parseWide_consumes {width : ℕ} {lower : UInt64} {float header : UInt8} :
    Consumes List.length 0 (parseWide width lower float header) := by
  refine ((parseBytes_consumes width).bind (k := 0) fun b => ?_).mono (Nat.zero_le _)
  dsimp only
  split_ifs
  · exact consumes_throw _ 0
  · exact consumes_pure _

lemma parseArg_consumes (header : UInt8) : Consumes List.length 0 (parseArg header) := by
  unfold parseArg
  simp only
  split_ifs
  · exact consumes_pure _
  · refine ((parseBytes_consumes 1).bind (k := 0) fun b => ?_).mono (Nat.zero_le _)
    split_ifs
    · exact consumes_throw _ 0
    · exact consumes_pure _
  · exact parseWide_consumes.bind fun _ => consumes_pure _
  · exact parseWide_consumes.bind fun _ => consumes_pure _
  · exact parseWide_consumes.bind fun _ => consumes_pure _
  · exact consumes_throw _ 0

/-- A header takes at least one byte. -/
lemma parseHeaderVarint_consumes : Consumes List.length 1 parseHeaderVarint :=
  (parseBytes_consumes 1).bind fun _ => (parseArg_consumes _).bind fun _ => consumes_pure _

lemma liftM_consumes {α : Type} (x : Except Error α) :
    Consumes List.length 0 (liftM x : Parser α) := by
  cases x with
  | error e => exact consumes_throw e 0
  | ok a => exact consumes_pure a

lemma parseEntries_consumes (hitem : Consumes List.length 0 item) (n : ℕ) (m : Map host) :
    Consumes List.length 0 (parseEntries item n m) := by
  induction n generalizing m with
  | zero => exact consumes_pure m
  | succ n ih =>
    exact hitem.bind fun _ => hitem.bind fun _ => (liftM_consumes _).bind fun m => ih m

lemma decodeBody_consumes (hitem : Consumes List.length 0 item) :
    Consumes List.length 1 (decodeBody host item) := by
  refine parseHeaderVarint_consumes.bind (k := 0) ?_
  rintro ⟨majorType, value, varintLen⟩
  cases majorType with
  | unsigned => exact consumes_pure _
  | negative => exact consumes_pure _
  | byteString =>
    exact ((parseBytes_consumes _).bind fun _ => consumes_pure _).mono (Nat.zero_le _)
  | text =>
    refine ((parseBytes_consumes _).bind (k := 0) fun b => ?_).mono (Nat.zero_le _)
    cases fromUtf8 b with
    | none => exact consumes_throw _ 0
    | some s =>
      simp only
      split_ifs
      · exact consumes_throw _ 0
      · exact consumes_pure _
  | array => exact (hitem.times _).bind fun _ => consumes_pure _
  | map => exact (parseEntries_consumes hitem _ _).bind fun _ => consumes_pure _
  | tagged => exact hitem.bind fun _ => consumes_pure _
  | simple => exact liftM_consumes _

lemma decodeFuel_consumes (fuel : ℕ) : Consumes List.length 1 (decodeFuel host fuel) := by
  induction fuel with
  | zero => exact decodeBody_consumes (consumes_throw _ 0)
  | succ fuel ih => exact decodeBody_consumes (ih.mono (Nat.zero_le _))

lemma parseEntries_agree {item' : Parser CBOR} {n : ℕ} (h : AgreeUpTo List.length n item item')
    (hitem : Consumes List.length 0 item) (k : ℕ) (m : Map host) :
    AgreeUpTo List.length n (parseEntries item k m) (parseEntries item' k m) := by
  induction k generalizing m with
  | zero => exact fun _ _ => rfl
  | succ k ih =>
    intro s hs
    refine bind_congr (h s hs) fun key s₁ h₁ => ?_
    have hs₁ := (hitem s key s₁ h₁).trans hs
    refine bind_congr (h s₁ hs₁) fun value s₂ h₂ => ?_
    have hs₂ := (hitem s₁ value s₂ h₂).trans hs₁
    refine bind_congr rfl fun m' s₃ h₃ => ?_
    exact ih m' s₃ ((liftM_consumes _ s₂ m' s₃ h₃).trans hs₂)

/-- The body calls itself only on what is left behind the header. -/
lemma decodeBody_agree {item' : Parser CBOR} {n : ℕ} (h : AgreeUpTo List.length n item item')
    (hitem : Consumes List.length 0 item) :
    AgreeUpTo List.length (n + 1) (decodeBody host item) (decodeBody host item') := by
  intro s hs
  refine bind_congr rfl fun x s' hx => ?_
  have hs' : s'.length ≤ n := by
    have := parseHeaderVarint_consumes s x s' hx
    omega
  obtain ⟨majorType, value, varintLen⟩ := x
  cases majorType with
  | array => exact bind_congr (h.times hitem _ s' hs') fun _ _ _ => rfl
  | map => exact bind_congr (parseEntries_agree h hitem _ _ s' hs') fun _ _ _ => rfl
  | tagged => exact bind_congr (h s' hs') fun _ _ _ => rfl
  | _ => rfl

/-- Fuel for the bytes that are left is enough: more of it changes nothing. -/
lemma decodeFuel_agree {n fuel fuel' : ℕ} (h : n ≤ fuel) (h' : n ≤ fuel') :
    AgreeUpTo List.length n (decodeFuel host fuel) (decodeFuel host fuel') := by
  induction n generalizing fuel fuel' with
  | zero =>
    -- an empty input fails before any nested call
    intro s hs
    have hnil : s = [] := List.length_eq_zero_iff.mp (Nat.le_zero.mp hs)
    subst hnil
    cases fuel <;> cases fuel' <;> rfl
  | succ n ih =>
    obtain ⟨fuel, rfl⟩ : ∃ m, fuel = m + 1 := Nat.exists_eq_add_one.mpr (by omega)
    obtain ⟨fuel', rfl⟩ : ∃ m, fuel' = m + 1 := Nat.exists_eq_add_one.mpr (by omega)
    exact decodeBody_agree (ih (by omega) (by omega))
      ((decodeFuel_consumes fuel).mono (Nat.zero_le _))

/-- The equation of the source: `decode_cbor_internal` is its body with itself for the nested
calls. -/
theorem decodeInternal_eq : decodeInternal host = decodeBody host (decodeInternal host) := by
  funext s
  have hmore : decodeInternal host s = decodeFuel host (s.length + 1) s :=
    decodeFuel_agree le_rfl (by omega) s le_rfl
  rw [hmore]
  refine decodeBody_agree (n := s.length) ?_ ?_ s (by omega)
  · intro t ht
    exact decodeFuel_agree ht le_rfl t le_rfl
  · exact (decodeFuel_consumes _).mono (Nat.zero_le _)

/-! ### Reading back -/

/-- **A value in canonical form is read back from its bytes.** -/
theorem decodeCbor_toCborData {v : CBOR} (hv : v.Canonical host) (hfit : v.Fits host) :
    decodeCbor host (v.toCborData host) = .ok v := by
  obtain ⟨t, hread, -, ht⟩ := decodeFuel_reads hv le_rfl hfit (v.toCborData host) [] trivial
    (List.append_nil _).symm
  have hrest : t = [] := ht
  subst hrest
  have hinternal : decodeInternal host (v.toCborData host) = .ok (v, []) := hread
  rw [decodeCbor, hinternal]
  rfl

/-! ### Maps with text keys -/

/-- The entries of a map under text keys. -/
def textEntries (es : List (String × CBOR)) : List (CBOR × CBOR) :=
  es.map fun e => (.text e.1, e.2)

section TextEntries

variable {host : Host} {es : List (String × CBOR)} {keys : List String}

lemma length_textEntries (hkeys : es.map Prod.fst = keys) :
    (textEntries es).length = keys.length := by
  rw [textEntries, List.length_map, ← hkeys, List.length_map]

/-- ASCII keys in order, however the host writes text. -/
lemma textEntries_keyed (hkeys : es.map Prod.fst = keys)
    (hascii : ∀ k ∈ keys, ∀ c ∈ k.toList, c.val < 128)
    (hordered : (keys.map fun k => (CBOR.text k).toCborData Host.plain).Pairwise (· < ·)) :
    Keyed (mapKey host) (textEntries es) := by
  subst hkeys
  have hdata : (es.map Prod.fst).map (fun k => (CBOR.text k).toCborData Host.plain) =
      (textEntries es).map (mapKey host) := by
    rw [textEntries, List.map_map, List.map_map]
    refine List.map_congr_left fun e he => ?_
    exact (textData_of_ascii (hascii e.1 (List.mem_map_of_mem he))).symm
  exact List.pairwise_map.mp (hdata ▸ hordered)

lemma textEntries_canonical (hkeyed : Keyed (mapKey host) (textEntries es))
    (hascii : ∀ k ∈ es.map Prod.fst, ∀ c ∈ k.toList, c.val < 128)
    (hvalues : ∀ e ∈ es, e.2.Canonical host) : (CBOR.map (textEntries es)).Canonical host := by
  refine .map hkeyed ?_ (List.forall_mem_map.mpr hvalues)
  exact List.forall_mem_map.mpr fun e he =>
    .text (nfc_of_ascii (hascii e.1 (List.mem_map_of_mem he)))

/-- The value under a key. -/
lemma getAs_of_mem {α : Type} {convert : CBOR → Option α} {k : String} {v : CBOR}
    (hkeyed : Keyed (mapKey host) (textEntries es)) (h : (k, v) ∈ es) :
    getAs host (textEntries es) k convert = convert v := by
  have hmem : (CBOR.text k, v) ∈ textEntries es :=
    List.mem_map_of_mem (f := fun e : String × CBOR => (CBOR.text e.1, e.2)) h
  rw [getAs, getEntry_of_mem hkeyed hmem]
  rfl

lemma toU32_unsigned (n : UInt32) : (CBOR.unsigned n.toUInt64).toU32 = some n := by
  have hle : n.toUInt64.toNat ≤ 2 ^ 32 - 1 := by
    rw [UInt32.toNat_toUInt64]
    exact Nat.le_sub_one_of_lt n.toNat_lt
  rw [CBOR.toU32, CBOR.toUnsigned, if_pos hle, Option.map_some, UInt32.toNat_toUInt64,
    UInt32.ofNat_toNat]

lemma toU64_unsigned (n : UInt64) : (CBOR.unsigned n).toU64 = some n := by
  have hle : n.toNat ≤ 2 ^ 64 - 1 := Nat.le_sub_one_of_lt n.toNat_lt
  rw [CBOR.toU64, CBOR.toUnsigned, if_pos hle, Option.map_some, UInt64.ofNat_toNat]

/-- Text in a map in canonical form is in normalisation form C. -/
lemma nfc_of_getAs {m : List (CBOR × CBOR)} (h : (CBOR.map m).Canonical host) {k s : String}
    (hget : getAs host m k CBOR.toText = some s) : host.nfc s = s := by
  obtain ⟨v, hv, hs⟩ := Option.bind_eq_some_iff.mp hget
  obtain ⟨e, he, rfl⟩ := Option.map_eq_some_iff.mp hv
  cases h with
  | map hordered hkeys hvalues =>
    have hcanonical := hvalues e (List.mem_of_find?_eq_some he)
    cases hval : e.2 with
    | text t =>
      rw [hval] at hs hcanonical
      obtain rfl := Option.some.inj hs
      cases hcanonical with
      | text hnfc => exact hnfc
    | _ =>
      rw [hval] at hs
      cases hs

end TextEntries

end Identikey.Dcbor
