/-
Runs of a deterministic machine.

A machine takes one input at a time and its run over a list of inputs is a left
fold.  What holds at the start and is kept by every step holds at the end, where
the property may speak of the inputs so far (`run_induction`); and what holds at
the end but not at the start came about at some step (`exists_step`).
-/
import Mathlib.Data.List.Induction
import Mathlib.Tactic.Lemma

namespace Identikey.Lib

section Run

variable {S I : Type} {step : S → I → S} {s₀ : S}

lemma run_snoc (inputs : List I) (i : I) :
    (inputs ++ [i]).foldl step s₀ = step (inputs.foldl step s₀) i := by
  rw [List.foldl_append, List.foldl_cons, List.foldl_nil]

/-- A property of the inputs so far and the state holds at the end of every run if it holds at
the start and every step keeps it. -/
theorem run_induction {P : List I → S → Prop} (hstart : P [] s₀)
    (hstep : ∀ inputs i, P inputs (inputs.foldl step s₀) →
      P (inputs ++ [i]) (step (inputs.foldl step s₀) i))
    (inputs : List I) : P inputs (inputs.foldl step s₀) := by
  induction inputs using List.reverseRecOn with
  | nil => exact hstart
  | append_singleton inputs i ih =>
    rw [run_snoc]
    exact hstep inputs i ih

/-- What holds at the end of a run but not at its start came about at one of its steps. -/
lemma exists_step {Q : S → Prop} (hstart : ¬ Q s₀) {inputs : List I}
    (hend : Q (inputs.foldl step s₀)) :
    ∃ pre i post, inputs = pre ++ i :: post ∧ ¬ Q (pre.foldl step s₀) ∧
      Q (step (pre.foldl step s₀) i) := by
  induction inputs using List.reverseRecOn with
  | nil => exact absurd hend hstart
  | append_singleton inputs i ih =>
    by_cases hq : Q (inputs.foldl step s₀)
    · obtain ⟨pre, j, post, rfl, hpre, hpost⟩ := ih hq
      exact ⟨pre, j, post ++ [i], by simp, hpre, hpost⟩
    · rw [run_snoc] at hend
      exact ⟨inputs, i, [], rfl, hq, hend⟩

/-- A property of states that every step keeps, and the run from there on as well. -/
lemma run_keeps {Q : S → Prop} (hstep : ∀ s i, Q s → Q (step s i)) {s : S} (hs : Q s)
    (inputs : List I) : Q (inputs.foldl step s) :=
  run_induction (P := fun _ => Q) hs (fun _ i hq => hstep _ i hq) inputs

end Run

end Identikey.Lib
