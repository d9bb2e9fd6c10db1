/-
Machines that follow a list of inputs among others.

The machine has taken some of the list and the rest is still to come.  Every step keeps this, and
an input that is the next of the list is taken.  A run whose inputs have the list in order, with
whatever else between them, then takes all of it (`follow_sublist`).
-/
import Mathlib.Data.List.Induction
import Mathlib.Tactic.Lemma

namespace Identikey.Lib

section Follow

variable {S I α : Type} {step : S → I → S} {f : α → I} {At : List α → S → Prop}

/-- Each step leaves less or as much to come. -/
lemma follow_run {inputs : List I} (hstep : ∀ i ∈ inputs, ∀ todo s, At todo s →
      ∃ todo', todo' <:+ todo ∧ At todo' (step s i))
    {todo : List α} {s : S} (hat : At todo s) :
    ∃ todo', todo' <:+ todo ∧ At todo' (inputs.foldl step s) := by
  induction inputs generalizing todo s with
  | nil => exact ⟨todo, List.suffix_rfl, hat⟩
  | cons i inputs ih =>
    obtain ⟨todo₁, hsuffix, hat₁⟩ := hstep i List.mem_cons_self todo s hat
    obtain ⟨todo₂, hsuffix₂, hat₂⟩ := ih (fun j hj => hstep j (List.mem_cons_of_mem i hj)) hat₁
    exact ⟨todo₂, hsuffix₂.trans hsuffix, hat₂⟩

/-- A list that comes in order is taken. -/
theorem follow_sublist {inputs : List I} (hstep : ∀ i ∈ inputs, ∀ todo s, At todo s →
      ∃ todo', todo' <:+ todo ∧ At todo' (step s i) ∧
        ∀ x rest, todo = x :: rest → f x = i → todo' <:+ rest)
    {todo : List α} {s : S} (hat : At todo s) (hsub : (todo.map f).Sublist inputs) :
    At [] (inputs.foldl step s) := by
  induction inputs generalizing todo s with
  | nil =>
    obtain rfl := List.map_eq_nil_iff.mp (List.sublist_nil.mp hsub)
    exact hat
  | cons i inputs ih =>
    obtain ⟨todo', hsuffix, hat', htaken⟩ := hstep i List.mem_cons_self todo s hat
    refine ih (fun j hj => hstep j (List.mem_cons_of_mem i hj)) hat' ?_
    rcases List.sublist_cons_iff.mp hsub with hlater | ⟨later, heq, hlater⟩
    · exact (hsuffix.sublist.map f).trans hlater
    · obtain ⟨x, rest, rfl, hx, hrest⟩ := List.map_eq_cons_iff.mp heq
      have hsuffix' := htaken x rest rfl hx
      rw [← hrest] at hlater
      exact (hsuffix'.sublist.map f).trans hlater

end Follow

end Identikey.Lib
