/-
Structures written as maps of named fields.

A message is encoded as the map of its entries and decoded by looking its fields
up by name.  What such a decoder leaves open is whether the map holds further
keys: the decoded entries are the message's own, in canonical order, exactly when
the map has no key beyond the named ones and every field was written back as it
was read (`canon_map_eq_iff`).
-/
import Identikey.Lib.Fallible
import Identikey.Auth.CborExact
import Identikey.Auth.Key

namespace Identikey.Auth

open Lib Lib.Fallible

/-- The value is a map whose keys are all among `allowed`. -/
def Value.keysWithin (allowed : List String) : Value → Bool
  | .map es => es.all fun e => allowed.contains e.1
  | _ => false

lemma keysWithin_map {allowed : List String} {es : List (String × Value)} :
    (Value.map es).keysWithin allowed = true ↔ ∀ k ∈ es.map Prod.fst, k ∈ allowed := by
  simp [Value.keysWithin]

section Fields

variable {fs es : List (String × Value)}

/-- The map of the entries `fs` in canonical order is `es` exactly when the two have the same
lookup function. -/
lemma canon_map_eq_iff_lookup (hfs : (fs.map Prod.fst).Nodup) (hes : (Value.map es).Canonical) :
    (Value.map fs).canon = .map es ↔ ∀ k, lookup k es = (lookup k fs).map Value.canon := by
  have hnodup := nodup_of_canonical hes
  have hcanon : (Value.map fs).canon =
      .map (sortOn entryKey (fs.map fun e => (e.1, e.2.canon))) := by
    rw [canon_map, map_sortOn (f := entryKey) (g := entryKey) (fun e => (e.1, e.2.canon))
      fun _ => rfl]
  have hfs' : ((fs.map fun e => (e.1, e.2.canon)).map Prod.fst).Nodup := by
    simpa [Function.comp_def] using hfs
  rw [hcanon, Value.map.injEq]
  constructor
  · rintro rfl k
    rw [← lookup_map Value.canon, lookup_perm hfs' (sortOn_perm entryKey _).symm]
  · intro h
    -- same lookups and no name twice: the same entries, and sorting removes the difference
    have hperm : (fs.map fun e => (e.1, e.2.canon)).Perm es :=
      perm_of_lookup hfs' hnodup fun k => by rw [lookup_map Value.canon, h]
    rw [sortOn_eq_of_perm entryKey hperm (nodup_entryKey hfs')]
    cases hes with
    | map hkeys h => exact sortOn_eq_self entryKey hkeys

/-- The same, for entries named within `allowed`: no other key, and agreement on the names. -/
lemma canon_map_eq_iff (allowed : List String) (hfs : (fs.map Prod.fst).Nodup)
    (hsub : ∀ k ∈ fs.map Prod.fst, k ∈ allowed) (hes : (Value.map es).Canonical) :
    (Value.map fs).canon = .map es ↔
      (Value.map es).keysWithin allowed = true ∧
        ∀ k ∈ allowed, lookup k es = (lookup k fs).map Value.canon := by
  rw [canon_map_eq_iff_lookup hfs hes, keysWithin_map]
  constructor
  · intro h
    refine ⟨fun k hk => hsub k ?_, fun k _ => h k⟩
    -- a key that `fs` does not have would be found in `es` only
    by_contra hno
    have hnone := h k
    rw [lookup_eq_none_iff.mpr hno, Option.map_none, lookup_eq_none_iff] at hnone
    exact hnone hk
  · rintro ⟨hkeys, hlook⟩ k
    by_cases hk : k ∈ allowed
    · exact hlook k hk
    · rw [lookup_eq_none_iff.mpr fun hmem => hk (hkeys k hmem),
        lookup_eq_none_iff.mpr fun hmem => hk (hsub k hmem), Option.map_none]

end Fields

/-! ### Typed access -/

lemma asUint_eq_ok {v : Value} {n : UInt64} : v.asUint = .ok n ↔ v = .uint n := by
  cases v <;> simp [Value.asUint]

lemma asBytes_eq_ok {v : Value} {b : Bytes} : v.asBytes = .ok b ↔ v = .bytes b := by
  cases v <;> simp [Value.asBytes]

lemma asText_eq_ok {v : Value} {s : String} : v.asText = .ok s ↔ v = .text s := by
  cases v <;> simp [Value.asText]

lemma get_map_eq_ok {es : List (String × Value)} {x : Value} {key : String} :
    (Value.map es).get key = .ok x ↔ lookup key es = some x := by
  rw [Value.get]
  cases lookup key es <;> simp

lemma map_of_get {v x : Value} {key : String} (h : v.get key = .ok x) : ∃ es, v = .map es := by
  cases v with
  | map es => exact ⟨es, rfl⟩
  | _ => cases h

/-- Values found in a canonical map are canonical. -/
lemma canonical_of_lookup {es : List (String × Value)} {k : String} {v : Value}
    (hes : (Value.map es).Canonical) (h : lookup k es = some v) : v.Canonical := by
  cases hes with
  | map hkeys hall => exact hall _ (mem_of_lookup h)

/-! ### Maps of an algorithm tag and bytes -/

lemma classicalAlg_fromTag {t : String} {a : ClassicalAlg}
    (h : ClassicalAlg.fromTag t = .ok a) : a.tag = t := by
  unfold ClassicalAlg.fromTag at h
  split_ifs at h with h₁ h₂ <;> cases h
  · exact h₁.symm
  · exact h₂.symm

lemma pqAlg_fromTag {t : String} {a : PqAlg} (h : PqAlg.fromTag t = .ok a) : a.tag = t := by
  unfold PqAlg.fromTag at h
  split_ifs at h with h₁ h₂ h₃ <;> cases h
  · exact h₁.symm
  · exact h₂.symm
  · exact h₃.symm

/-- A tagged map is written back as it was read exactly when it holds nothing else. -/
lemma readTagged_canon {α : Type} {fromTag : String → Except AuthError α} {tag : α → String}
    (htag : ∀ t a, fromTag t = .ok a → tag a = t) {field : String} (hfield : field ≠ "alg")
    {v : Value} (hv : v.Canonical) {x : α × Bytes} (h : readTagged fromTag field v = .ok x) :
    (Value.map (taggedEntries field (tag x.1) x.2)).canon = v ↔
      v.keysWithin ["alg", field] = true := by
  obtain ⟨w, hw, hrest⟩ := bind_eq_ok.mp h
  obtain ⟨es, rfl⟩ := map_of_get hw
  simp only [readTagged, bind_eq_ok, get_map_eq_ok, asText_eq_ok, asBytes_eq_ok, pure_eq_ok] at h
  obtain ⟨_, halg, t, rfl, a, ha, _, hbytes, b, rfl, rfl⟩ := h
  have hne : ¬ "alg" = field := Ne.symm hfield
  rw [canon_map_eq_iff ["alg", field] (by simp [taggedEntries, hne])
    (by simp [taggedEntries]) hv, and_iff_left]
  intro k hk
  rcases List.mem_pair.mp hk with rfl | rfl
  · simp [taggedEntries, lookup_cons, halg, htag t a ha]
  · simp [taggedEntries, lookup_cons, hne, hbytes]

end Identikey.Auth
