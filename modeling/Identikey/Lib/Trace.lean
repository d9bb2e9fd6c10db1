/-
Labelled runs of a relation, and simulations between two of them.

A step carries a label: what was asked for, or what was seen.  A relation between the
states of two systems that every step of the one carries to a step of the other with the
same label carries its runs as well; where the other system is a function of the labels,
the run of the one computes a fold.
-/
import Mathlib.Data.List.Induction
import Mathlib.Tactic.Lemma

namespace Identikey.Lib

variable {S A L : Type}

/-- A run with the labels of its steps, in order. -/
inductive Trace (step : S → L → S → Prop) (s₀ : S) : List L → S → Prop where
  | nil : Trace step s₀ [] s₀
  | snoc {labels : List L} {l : L} {s s' : S} (hrun : Trace step s₀ labels s)
      (hstep : step s l s') : Trace step s₀ (labels ++ [l]) s'

namespace Trace

variable {step : S → L → S → Prop} {step' : A → L → A → Prop} {s₀ s : S} {a₀ : A}
  {labels : List L}

lemma single {l : L} (h : step s₀ l s) : Trace step s₀ [l] s := .snoc .nil h

lemma of_nil (h : Trace step s₀ [] s) : s = s₀ := by
  generalize hall : ([] : List L) = all at h
  cases h with
  | nil => rfl
  | snoc _ _ => exact absurd hall.symm (List.append_ne_nil_of_right_ne_nil _ (List.cons_ne_nil _ _))

/-- The last step of a run. -/
lemma of_snoc {l : L} (h : Trace step s₀ (labels ++ [l]) s) :
    ∃ t, Trace step s₀ labels t ∧ step t l s := by
  generalize hall : labels ++ [l] = all at h
  cases h with
  | nil => exact absurd hall (List.append_ne_nil_of_right_ne_nil _ (List.cons_ne_nil _ _))
  | snoc hrun hstep =>
    obtain ⟨rfl, hlast⟩ := List.append_inj' hall rfl
    obtain rfl := List.singleton_inj.mp hlast
    exact ⟨_, hrun, hstep⟩

/-- A run in two parts. -/
lemma of_append {before after : List L} (h : Trace step s₀ (before ++ after) s) :
    ∃ t, Trace step s₀ before t ∧ Trace step t after s := by
  induction after using List.reverseRecOn generalizing s with
  | nil => exact ⟨s, List.append_nil before ▸ h, .nil⟩
  | append_singleton after l ih =>
    rw [← List.append_assoc] at h
    obtain ⟨t, hrun, hstep⟩ := of_snoc h
    obtain ⟨u, hbefore, hafter⟩ := ih hrun
    exact ⟨u, hbefore, .snoc hafter hstep⟩

/-- The first step of a run. -/
lemma of_cons {l : L} (h : Trace step s₀ (l :: labels) s) :
    ∃ t, step s₀ l t ∧ Trace step t labels s := by
  obtain ⟨t, hfirst, hrest⟩ := of_append (List.singleton_append ▸ h)
  obtain ⟨u, hnil, hstep⟩ := of_snoc ((List.nil_append [l]).symm ▸ hfirst)
  rw [of_nil hnil] at hstep
  exact ⟨t, hstep, hrest⟩

/-- What every step of a run keeps. -/
lemma keeps {I : S → Prop} (hrun : Trace step s₀ labels s)
    (hstep : ∀ s l s', l ∈ labels → I s → step s l s' → I s') (hstart : I s₀) : I s := by
  induction hrun with
  | nil => exact hstart
  | snoc _ h ih =>
    have hbefore := ih fun s l s' hl => hstep s l s' (List.mem_append_left _ hl)
    exact hstep _ _ _ (List.mem_append_right _ (List.mem_singleton_self _)) hbefore h

/-- **Forward simulation.**  A relation that every step keeps, on the other side by a step with
the same label, is kept by every run, on the other side by a run with the same labels. -/
theorem simulate {R : S → A → Prop}
    (hstep : ∀ s a l s', R s a → step s l s' → ∃ a', step' a l a' ∧ R s' a')
    (hstart : R s₀ a₀) (hrun : Trace step s₀ labels s) :
    ∃ a, Trace step' a₀ labels a ∧ R s a := by
  induction hrun with
  | nil => exact ⟨a₀, .nil, hstart⟩
  | snoc _ h ih =>
    obtain ⟨a, hrun', hR⟩ := ih
    obtain ⟨a', hstep', hR'⟩ := hstep _ _ _ _ hR h
    exact ⟨a', .snoc hrun' hstep', hR'⟩

/-- The run of a function is a fold over the labels. -/
lemma eq_foldl {g : A → L → A} {a : A}
    (hrun : Trace (fun a l a' => a' = g a l) a₀ labels a) : a = labels.foldl g a₀ := by
  induction hrun with
  | nil => rfl
  | snoc _ h ih => rw [List.foldl_append, ← ih, h, List.foldl_cons, List.foldl_nil]

/-- A simulation by a function: an invariant of the states, and what the function computes of
the labels is read off the state that is reached. -/
theorem refine {I : S → Prop} {f : S → A} {g : A → L → A}
    (hstep : ∀ s l s', I s → step s l s' → I s' ∧ f s' = g (f s) l) (hstart : I s₀)
    (hrun : Trace step s₀ labels s) : I s ∧ f s = labels.foldl g (f s₀) := by
  have hsim : ∀ s a l s', (I s ∧ f s = a) → step s l s' →
      ∃ a', a' = g a l ∧ (I s' ∧ f s' = a') := by
    rintro s a l s' ⟨hs, rfl⟩ h
    obtain ⟨hs', hf⟩ := hstep s l s' hs h
    exact ⟨_, hf, hs', rfl⟩
  obtain ⟨a, hrun', hs, rfl⟩ := simulate hsim ⟨hstart, rfl⟩ hrun
  exact ⟨hs, eq_foldl hrun'⟩

end Trace

end Identikey.Lib
