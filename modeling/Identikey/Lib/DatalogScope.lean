/-
What a part of a program's origins knows.

A fact whose origins are all in a set `S` was derived by rules of `S` from facts of `S`.  So two
programs that agree on `S` know the same there (`Program.Agree.mem_model_iff`), whatever the
other origins of each of them state and conclude.
-/
import Identikey.Lib.Datalog

namespace Identikey.Lib.Datalog

variable {N V C E O : Type} [DecidableEq O] {sat : E → (V → C) → Prop} {S : Set O}
  {P P' : Program N V C E O}

/-- A query with another trust. -/
def Query.trusting (q : Query N V C E O) (trusted : Finset O) : Query N V C E O :=
  { q with trusted }

/-- What a program has in `S`, another one has as well, and trusts in `S` as far. -/
structure Program.Within (S : Set O) (P P' : Program N V C E O) : Prop where
  facts : ∀ x ∈ P.facts, ↑x.1 ⊆ S → x ∈ P'.facts
  rules : ∀ r ∈ P.rules, r.owner ∈ S → ∃ trusted : Finset O,
    { r with toQuery := r.toQuery.trusting trusted } ∈ P'.rules ∧
      ∀ o ∈ S, o ∈ r.trusted → o ∈ trusted

/-- The origins of a result are those of the rule and of the facts it used. -/
lemma Rule.result_subset {r : Rule N V C E O} {σ : V → C} {origins : Fin r.body.length → Finset O}
    (h : ↑(r.result σ origins).1 ⊆ S) : r.owner ∈ S ∧ ∀ i, ↑(origins i) ⊆ S := by
  rw [Rule.result, Finset.coe_insert, Set.insert_subset_iff] at h
  refine ⟨h.1, fun i o ho => h.2 ?_⟩
  exact Finset.mem_coe.mpr (Finset.mem_biUnion.mpr ⟨i, Finset.mem_univ i, ho⟩)

/-- What is known in `S` is known in `S` to every program that has as much there. -/
theorem Program.Within.mem_model (h : P.Within S P') {x : Finset O × Fact N C}
    (hx : x ∈ P.model sat) (hin : ↑x.1 ⊆ S) : x ∈ P'.model sat := by
  have hclosed : P.consequences sat {x | ↑x.1 ⊆ S → x ∈ P'.model sat} ≤
      {x | ↑x.1 ⊆ S → x ∈ P'.model sat} := by
    rintro x (hfact | ⟨r, hr, σ, origins, hmatch, rfl⟩) hsub
    · exact mem_model_of_mem_facts (h.facts x hfact hsub)
    · obtain ⟨howner, horigins⟩ := Rule.result_subset hsub
      obtain ⟨trusted, hr', htrusted⟩ := h.rules r hr howner
      refine mem_model_iff.mpr (.inr ⟨_, hr', σ, origins, ⟨?_, ?_, hmatch.guards⟩, rfl⟩)
      · intro i
        exact hmatch.known i (horigins i)
      · intro i o ho
        exact htrusted o (horigins i ho) (hmatch.trusted i ho)
  exact OrderHom.lfp_le _ hclosed hx hin

/-- Two programs have the same in `S`. -/
structure Program.Agree (S : Set O) (P P' : Program N V C E O) : Prop where
  left : P.Within S P'
  right : P'.Within S P

/-- **Programs that agree on some origins know the same there.** -/
theorem Program.Agree.mem_model_iff (h : P.Agree S P') {x : Finset O × Fact N C}
    (hin : ↑x.1 ⊆ S) : x ∈ P.model sat ↔ x ∈ P'.model sat :=
  ⟨fun hx => h.left.mem_model hx hin, fun hx => h.right.mem_model hx hin⟩

/-- A query that trusts only `S` has the same answers. -/
theorem Program.Agree.matches_iff (h : P.Agree S P') {q : Query N V C E O} (hq : ↑q.trusted ⊆ S)
    {σ : V → C} {origins : Fin q.body.length → Finset O} :
    q.Matches sat (P.model sat) σ origins ↔ q.Matches sat (P'.model sat) σ origins := by
  have hin : (∀ i, origins i ⊆ q.trusted) → ∀ i, ↑(origins i) ⊆ S := by
    intro htrusted i o ho
    exact hq (htrusted i ho)
  constructor
  · rintro ⟨hknown, htrusted, hguards⟩
    exact ⟨fun i => (h.mem_model_iff (hin htrusted i)).mp (hknown i), htrusted, hguards⟩
  · rintro ⟨hknown, htrusted, hguards⟩
    exact ⟨fun i => (h.mem_model_iff (hin htrusted i)).mpr (hknown i), htrusted, hguards⟩

end Identikey.Lib.Datalog
