/-
The strict decoder of state records accepts the encodings of well-formed records only.

The argument is the same at each of the three levels of maps: a canonical map is
decoded to a structure exactly when it is the canonical form of that structure's
entries, since the decoder rejects every key it does not look up.
-/
import Identikey.Auth.CborFields
import Identikey.Auth.StateRecord

namespace Identikey.Auth

open Lib Lib.Fallible

/-- What the decoder requires of a record's fields. -/
structure StateRecord.WellFormed (r : StateRecord) : Prop where
  seq_pos : 1 ≤ r.seq
  prev_iff : r.prev.isSome ↔ 1 < r.seq
  control_alg : r.control.alg = .mlDsa65
  control_len : r.control.bytes.length = ML_DSA_65_PK_LEN

instance (r : StateRecord) : Decidable r.WellFormed :=
  decidable_of_iff (1 ≤ r.seq ∧ (r.prev.isSome ↔ 1 < r.seq) ∧ r.control.alg = .mlDsa65 ∧
    r.control.bytes.length = ML_DSA_65_PK_LEN)
    ⟨fun ⟨h₁, h₂, h₃, h₄⟩ => ⟨h₁, h₂, h₃, h₄⟩, fun ⟨h₁, h₂, h₃, h₄⟩ => ⟨h₁, h₂, h₃, h₄⟩⟩

/-! ### Reading a map -/

lemma mapEntries_eq_ok {v : Value} {allowed : List String} {unknown : String}
    {es : List (String × Value)} :
    mapEntries v allowed unknown = .ok es ↔ v = .map es ∧ v.keysWithin allowed = true := by
  cases v with
  | map entries =>
    have hkeys : ((entries.any fun e => !allowed.contains e.1) = true) ↔
        ¬ (Value.map entries).keysWithin allowed = true := by
      simp [Value.keysWithin]
    simp only [mapEntries, hkeys, ite_not]
    split_ifs with h
    · simp [h]
    · simp [h]
  | _ => simp [mapEntries]

lemma required_eq_ok {es : List (String × Value)} {key missing : String} {v : Value} :
    required es key missing = .ok v ↔ lookup key es = some v := by
  unfold required
  cases lookup key es <;> simp

lemma arrayItems_eq_ok {v : Value} {notArray : String} {items : List Value} :
    arrayItems v notArray = .ok items ↔ v = .array items := by
  cases v <;> simp [arrayItems]

lemma digest32_eq_ok {v : Value} {wrongLen : String} {d : Digest32} :
    digest32 v wrongLen = .ok d ↔ v = .bytes d.val := by
  simp only [digest32, bind_eq_ok, asBytes_eq_ok]
  constructor
  · rintro ⟨b, rfl, h⟩
    split_ifs at h with hlen
    cases h
    rfl
  · rintro rfl
    refine ⟨d.val, rfl, ?_⟩
    rw [dif_pos d.property]

/-- An optional field was read from the value it is written as. -/
lemma optionMapM_map_eq_ok {α : Type} {f : Value → Except AuthError α} {g : α → Value}
    (h : ∀ v a, f v = .ok a ↔ v = g a) {o : Option Value} {o' : Option α} :
    o.mapM f = .ok o' ↔ o = o'.map g := by
  rw [optionMapM_eq_ok]
  constructor
  · rintro (hab | _)
    · rw [(h _ _).mp hab, Option.map_some]
    · rfl
  · rintro rfl
    cases o' with
    | none => exact .none
    | some a => exact .some ((h _ _).mpr rfl)

/-- A list was read, item by item, from the values it is written as. -/
lemma mapM_map_eq_ok {α : Type} {f : Value → Except AuthError α} {g : α → Value}
    {items : List Value} (h : ∀ v ∈ items, ∀ a, f v = .ok a ↔ v = g a) {l : List α} :
    items.mapM f = .ok l ↔ items = l.map g := by
  rw [mapM_eq_ok]
  induction items generalizing l with
  | nil => simp [eq_comm]
  | cons v items ih =>
    obtain ⟨hv, hitems⟩ := List.forall_mem_cons.mp h
    cases l with
    | nil => simp
    | cons a l => rw [List.forall₂_cons, hv a, ih hitems, List.map_cons, List.cons.injEq]

/-! ### The maps of a record -/

lemma OperationalKey.nodup_entries (k : OperationalKey) : (k.entries.map Prod.fst).Nodup := by
  cases hb : k.notBefore <;> cases ha : k.notAfter <;> simp [entries, hb, ha]

/-- The fields of an operational entry, as lookups. -/
lemma OperationalKey.canon_eq_iff {es : List (String × Value)} (hes : (Value.map es).Canonical)
    {k : OperationalKey} : Value.map es = k.toValue.canon ↔
      (Value.map es).keysWithin ["alg", "key", "privileges", "not_before", "not_after"] = true ∧
        lookup "alg" es = some (.text k.alg) ∧ lookup "key" es = some (.bytes k.key) ∧
        lookup "privileges" es = some (.array (k.privileges.map .text)) ∧
        lookup "not_before" es = k.notBefore.map .uint ∧
        lookup "not_after" es = k.notAfter.map .uint := by
  have hsub : ∀ x ∈ k.entries.map Prod.fst,
      x ∈ ["alg", "key", "privileges", "not_before", "not_after"] := by
    cases hb : k.notBefore <;> cases ha : k.notAfter <;> simp [entries, hb, ha]
  -- texts have no order to change
  have htexts : (Value.array (k.privileges.map .text)).canon =
      .array (k.privileges.map .text) := by
    rw [canon_array, List.map_map]
    rfl
  rw [eq_comm, toValue, canon_map_eq_iff _ k.nodup_entries hsub hes]
  refine and_congr_right fun _ => ?_
  cases hb : k.notBefore <;> cases ha : k.notAfter <;>
    simp [entries, hb, ha, lookup_cons, htexts]

lemma OperationalKey.fromValue_eq_ok {v : Value} (hv : v.Canonical) {k : OperationalKey} :
    fromValue v = .ok k ↔ v = k.toValue.canon := by
  simp only [fromValue, bind_eq_ok, mapEntries_eq_ok, required_eq_ok, asText_eq_ok, asBytes_eq_ok,
    arrayItems_eq_ok, mapM_map_eq_ok fun v _ a => asText_eq_ok,
    optionMapM_map_eq_ok fun v a => asUint_eq_ok, pure_eq_ok]
  constructor
  · rintro ⟨es, ⟨rfl, hkeys⟩, _, halg, alg, rfl, _, hkey, key, rfl, _, hpriv, _, rfl, privs, rfl,
      nb, hnb, na, hna, rfl⟩
    exact (canon_eq_iff hv).mpr ⟨hkeys, halg, hkey, hpriv, hnb, hna⟩
  · intro h
    obtain ⟨es, rfl⟩ : ∃ es, v = .map es := ⟨_, h.trans (canon_map _)⟩
    obtain ⟨hkeys, halg, hkey, hpriv, hnb, hna⟩ := (canon_eq_iff hv).mp h
    exact ⟨es, ⟨rfl, hkeys⟩, _, halg, _, rfl, _, hkey, _, rfl, _, hpriv, _, rfl, _, rfl,
      _, hnb, _, hna, rfl⟩

lemma OperationalKey.toValue_distinctKeys (k : OperationalKey) : k.toValue.DistinctKeys := by
  refine .map k.nodup_entries fun e he => ?_
  simp only [entries, List.cons_append, List.nil_append, List.mem_cons, List.mem_append,
    List.mem_map] at he
  rcases he with rfl | rfl | rfl | ⟨t, -, rfl⟩ | ⟨t, -, rfl⟩
  · exact .text _
  · exact .bytes _
  · refine .array fun x hx => ?_
    obtain ⟨p, -, rfl⟩ := List.mem_map.mp hx
    exact .text p
  · exact .uint t
  · exact .uint t

lemma parseControl_eq_ok {v : Value} (hv : v.Canonical) {control : PqPublicKey} :
    parseControl v = .ok control ↔ v = (Value.map (controlEntries control)).canon ∧
      control.alg = .mlDsa65 ∧ control.bytes.length = ML_DSA_65_PK_LEN := by
  have hcanon : ∀ {es : List (String × Value)}, (Value.map es).Canonical →
      (Value.map es = (Value.map (controlEntries control)).canon ↔
        (Value.map es).keysWithin ["alg", "key", "threshold"] = true ∧
          lookup "alg" es = some (.text control.alg.tag) ∧
          lookup "key" es = some (.bytes control.bytes) ∧
          lookup "threshold" es = some (.uint 1)) := by
    intro es hes
    rw [eq_comm, canon_map_eq_iff ["alg", "key", "threshold"] (by simp [controlEntries])
      (by simp [controlEntries]) hes]
    simp [controlEntries, lookup_cons]
  simp only [parseControl, bind_eq_ok, mapEntries_eq_ok, required_eq_ok, asText_eq_ok,
    asBytes_eq_ok, asUint_eq_ok, ensure_eq_ok, pure_eq_ok]
  constructor
  · rintro ⟨es, ⟨rfl, hkeys⟩, _, halg, _, rfl, _, rfl, _, hkey, key, rfl, _, hlen, _, hthr, _, rfl,
      _, rfl, rfl⟩
    exact ⟨(hcanon hv).mpr ⟨hkeys, halg, hkey, hthr⟩, rfl, hlen⟩
  · rintro ⟨h, hmldsa, hlen⟩
    obtain ⟨es, rfl⟩ : ∃ es, v = .map es := ⟨_, h.trans (canon_map _)⟩
    obtain ⟨hkeys, halg, hkey, hthr⟩ := (hcanon hv).mp h
    obtain ⟨alg, bytes⟩ := control
    obtain rfl : alg = .mlDsa65 := hmldsa
    exact ⟨es, ⟨rfl, hkeys⟩, _, halg, _, rfl, (), rfl, _, hkey, _, rfl, (), hlen, _, hthr, _, rfl,
      (), rfl, rfl⟩

namespace StateRecord

lemma checkPrev_eq_ok {seq : UInt64} {prev : Option Digest32} {u : Unit} :
    checkPrev seq prev = .ok u ↔ 1 ≤ seq ∧ (prev.isSome ↔ 1 < seq) := by
  -- the three arms of the `match` on `seq`
  have hcases : seq = 0 ∨ seq = 1 ∨ 1 < seq := by
    simp only [UInt64.lt_iff_toNat_lt, ← UInt64.toNat_inj]
    show seq.toNat = 0 ∨ seq.toNat = 1 ∨ 1 < seq.toNat
    omega
  unfold checkPrev
  rcases hcases with rfl | rfl | h
  · simp
  · cases prev <;> simp
  · have h₀ : seq ≠ 0 := by
      rintro rfl
      exact absurd h (by decide)
    have h₁ : seq ≠ 1 := by
      rintro rfl
      exact absurd h (by decide)
    have hle : 1 ≤ seq := by
      rw [UInt64.lt_iff_toNat_lt] at h
      exact UInt64.le_iff_toNat_le.mpr h.le
    cases prev <;> simp [h₀, h₁, h, hle]

lemma nodup_entries (r : StateRecord) : (r.entries.map Prod.fst).Nodup := by
  cases hp : r.prev <;> simp [entries, hp]

lemma readVersion_eq_ok {es : List (String × Value)} {version : UInt64} :
    readVersion (.map es) = .ok version ↔ lookup "v" es = some (.uint version) := by
  rw [readVersion]
  cases lookup "v" es with
  | none => simp
  | some v => simp [asUint_eq_ok]

/-- The fields of a record, as lookups. -/
lemma canon_eq_iff {es : List (String × Value)} (hes : (Value.map es).Canonical)
    {r : StateRecord} : Value.map es = r.toValue.canon ↔
      (Value.map es).keysWithin ["v", "xid", "seq", "prev", "control", "operational"] = true ∧
        lookup "v" es = some (.uint STATE_VERSION) ∧ lookup "xid" es = some (.bytes r.xid.val) ∧
        lookup "seq" es = some (.uint r.seq) ∧
        lookup "prev" es = r.prev.map (fun d => .bytes d.val) ∧
        lookup "control" es = some (Value.map (controlEntries r.control)).canon ∧
        lookup "operational" es =
          some (.array (r.operational.map fun k => k.toValue.canon)) := by
  have hsub : ∀ x ∈ r.entries.map Prod.fst,
      x ∈ ["v", "xid", "seq", "prev", "control", "operational"] := by
    cases hp : r.prev <;> simp [entries, hp]
  rw [eq_comm, toValue, canon_map_eq_iff _ r.nodup_entries hsub hes]
  refine and_congr_right fun _ => ?_
  cases hp : r.prev <;> simp [entries, hp, lookup_cons, canon_array, Function.comp_def]

/-- A record is decoded from a canonical map exactly when the map is its own, in canonical
order, and the record is well formed. -/
lemma fromValue_eq_ok {v : Value} (hv : v.Canonical) {r : StateRecord} :
    fromValue v = .ok r ↔ v = r.toValue.canon ∧ r.WellFormed := by
  constructor
  · intro h
    simp only [fromValue, bind_eq_ok, mapEntries_eq_ok, required_eq_ok, asUint_eq_ok,
      arrayItems_eq_ok, digest32_eq_ok, ensure_eq_ok, checkPrev_eq_ok,
      optionMapM_map_eq_ok fun v d => digest32_eq_ok, pure_eq_ok] at h
    obtain ⟨_, hversion, _, rfl, es, ⟨rfl, hkeys⟩, _, hxid, xid, rfl, _, hseq, seq, rfl, prev,
      hprev, _, hseqprev, vc, hctl, control, hcontrol, _, hops, items, rfl, ops, hitems, rfl⟩ := h
    rw [readVersion_eq_ok] at hversion
    obtain ⟨rfl, halg, hlen⟩ := (parseControl_eq_ok (canonical_of_lookup hv hctl)).mp hcontrol
    -- the items of a canonical array are canonical, as reading each of them requires
    have hcanon : ∀ x ∈ items, x.Canonical := by
      cases canonical_of_lookup hv hops with
      | array h => exact h
    rw [mapM_map_eq_ok fun x hx k => OperationalKey.fromValue_eq_ok (hcanon x hx)] at hitems
    subst hitems
    exact ⟨(canon_eq_iff hv).mpr ⟨hkeys, hversion, hxid, hseq, hprev, hctl, hops⟩,
      hseqprev.1, hseqprev.2, halg, hlen⟩
  · rintro ⟨h, hseq, hprev, halg, hlen⟩
    obtain ⟨es, rfl⟩ : ∃ es, v = .map es := ⟨_, h.trans (canon_map _)⟩
    obtain ⟨hkeys, hversion, hxid, hseq', hprev', hctl, hops⟩ := (canon_eq_iff hv).mp h
    have hread := readVersion_eq_ok.mpr hversion
    have hcontrol := (parseControl_eq_ok (canonical_of_lookup hv hctl)).mpr
      ⟨rfl, halg, hlen⟩
    have hcanon : ∀ x ∈ r.operational.map fun k => k.toValue.canon, x.Canonical := by
      cases canonical_of_lookup hv hops with
      | array h => exact h
    have hitems : (r.operational.map fun k => k.toValue.canon).mapM OperationalKey.fromValue =
        .ok r.operational :=
      (mapM_map_eq_ok fun x hx k => OperationalKey.fromValue_eq_ok (hcanon x hx)).mpr rfl
    simp only [fromValue, bind_eq_ok, mapEntries_eq_ok, required_eq_ok, asUint_eq_ok,
      arrayItems_eq_ok, digest32_eq_ok, ensure_eq_ok, checkPrev_eq_ok,
      optionMapM_map_eq_ok fun v d => digest32_eq_ok, pure_eq_ok]
    exact ⟨_, hread, (), rfl, es, ⟨rfl, hkeys⟩, _, hxid, r.xid, rfl, _, hseq', r.seq, rfl, r.prev,
      hprev', (), ⟨hseq, hprev⟩, _, hctl, r.control, hcontrol, _, hops, _, rfl, r.operational,
      hitems, rfl⟩

lemma toValue_distinctKeys (r : StateRecord) : r.toValue.DistinctKeys := by
  refine .map r.nodup_entries fun e he => ?_
  simp only [entries, List.cons_append, List.nil_append, List.mem_cons, List.mem_map] at he
  rcases he with rfl | rfl | rfl | rfl | rfl | ⟨d, -, rfl⟩
  · exact .uint _
  · exact .bytes _
  · exact .uint _
  · refine .map (by simp [controlEntries]) fun e he => ?_
    simp only [controlEntries, List.mem_cons, List.not_mem_nil, or_false] at he
    rcases he with rfl | rfl | rfl
    · exact .text _
    · exact .bytes _
    · exact .uint _
  · refine .array fun x hx => ?_
    obtain ⟨k, -, rfl⟩ := List.mem_map.mp hx
    exact k.toValue_distinctKeys
  · exact .bytes _

/-! ### From bytes -/

/-- What decoding says about the bytes: they are the encoding of the record, which is well
formed. -/
lemma fromBytes_eq_ok {b : Bytes} {r : StateRecord} (h : fromBytes b = .ok r) :
    r.toBytes = b ∧ r.WellFormed := by
  simp only [fromBytes, bind_eq_ok, ensure_eq_ok] at h
  obtain ⟨v, hv, _, -, hr⟩ := h
  obtain ⟨hcanon, hwf⟩ := (fromValue_eq_ok (Value.fromBytes_sound hv).2.1).mp hr
  exact ⟨(Value.toBytes_eq_iff hv r.toValue_distinctKeys).mpr hcanon.symm, hwf⟩

/-- A well-formed record is decoded from its encoding. -/
lemma fromBytes_toBytes {r : StateRecord} (hr : r.WellFormed) (hfit : r.toBytes.length < 2 ^ 64) :
    fromBytes r.toBytes = .ok r := by
  have hv := Value.fromBytes_toBytes r.toValue_distinctKeys hfit
  have hread := (fromValue_eq_ok r.toValue_distinctKeys.canonical_canon).mpr ⟨rfl, hr⟩
  simp only [fromBytes, bind_eq_ok, ensure_eq_ok]
  exact ⟨_, hv, (), encode_canon _, hread⟩

end StateRecord

/-- **The record codec is exact.**  Accepted bytes are the encoding of the decoded record, whose
digest is therefore the SHA-256 of the bytes received, and the record is well formed; and every
well-formed record is decoded from its encoding. -/
theorem state_record_exact :
    (∀ (b : Bytes) (r : StateRecord), StateRecord.fromBytes b = .ok r →
      r.toBytes = b ∧ r.digest = sha256 b ∧ 1 ≤ r.seq ∧ (r.prev.isSome ↔ 1 < r.seq) ∧
        r.control.alg = .mlDsa65 ∧ r.control.bytes.length = 1952) ∧
    (∀ r : StateRecord, 1 ≤ r.seq → (r.prev.isSome ↔ 1 < r.seq) → r.control.alg = .mlDsa65 →
      r.control.bytes.length = 1952 → r.toBytes.length < 2 ^ 64 →
      StateRecord.fromBytes r.toBytes = .ok r) := by
  constructor
  · intro b r h
    obtain ⟨rfl, hwf⟩ := StateRecord.fromBytes_eq_ok h
    exact ⟨rfl, rfl, hwf.seq_pos, hwf.prev_iff, hwf.control_alg, hwf.control_len⟩
  · intro r hseq hprev halg hlen hfit
    exact StateRecord.fromBytes_toBytes ⟨hseq, hprev, halg, hlen⟩ hfit

/-- A second record with one operational key, valid from 1000 on. -/
def sampleRecord : StateRecord :=
  { xid := ⟨List.replicate 32 1, rfl⟩, seq := 2, prev := some ⟨List.replicate 32 2, rfl⟩,
    control := { alg := .mlDsa65, bytes := List.replicate 1952 3 },
    operational := [{ alg := "p256", key := [4], privileges := ["login"],
                      notBefore := some 1000, notAfter := none }] }

theorem state_record_exact_sample :
    StateRecord.fromBytes sampleRecord.toBytes = .ok sampleRecord ∧
      sampleRecord.digest = sha256 sampleRecord.toBytes := by
  have hread : StateRecord.fromBytes sampleRecord.toBytes = .ok sampleRecord :=
    state_record_exact.2 sampleRecord (by decide) (by decide) rfl (by decide +kernel)
      (by decide +kernel)
  exact ⟨hread, (state_record_exact.1 _ _ hread).2.1⟩

end Identikey.Auth
