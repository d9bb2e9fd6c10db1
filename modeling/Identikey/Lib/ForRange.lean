/-
Loops over a range of numbers that may fail.

A loop invariant, which may speak of the index, carries the loop through when every turn
succeeds and keeps it.
-/
import Mathlib.Data.List.Range
import Mathlib.Tactic.Lemma

namespace Identikey.Lib

variable {S : Type} (step : S → ℕ → Option S)

/-- The loop over `n` numbers from `a` on succeeds and ends with its invariant. -/
theorem foldlM_range' {P : ℕ → S → Prop} (n a : ℕ) {s : S} (hstart : P a s)
    (hstep : ∀ i s, a ≤ i → i < a + n → P i s → ∃ s', step s i = some s' ∧ P (i + 1) s') :
    ∃ s', (List.range' a n).foldlM step s = some s' ∧ P (a + n) s' := by
  induction n generalizing a s with
  | zero => exact ⟨s, rfl, hstart⟩
  | succ n ih =>
    obtain ⟨s₁, hs₁, hP⟩ := hstep a s (by omega) (by omega) hstart
    obtain ⟨s', hs', hP'⟩ := ih (a + 1) hP (fun i s ha hi => hstep i s (by omega) (by omega))
    refine ⟨s', ?_, ?_⟩
    · rw [List.range'_succ, List.foldlM_cons, hs₁]
      exact hs'
    · rw [show a + (n + 1) = a + 1 + n by omega]
      exact hP'

/-- The loop over the numbers below `n`. -/
theorem foldlM_range {P : ℕ → S → Prop} {n : ℕ} {s : S} (hstart : P 0 s)
    (hstep : ∀ i s, i < n → P i s → ∃ s', step s i = some s' ∧ P (i + 1) s') :
    ∃ s', (List.range n).foldlM step s = some s' ∧ P n s' := by
  have h := foldlM_range' step n 0 hstart (fun i s _ hi => hstep i s (by omega))
  rw [Nat.zero_add] at h
  rw [List.range_eq_range']
  exact h

/-- A map that succeeds at every element. -/
lemma mapM_eq_some {α β : Type} {f : α → Option β} {g : α → β} {l : List α}
    (h : ∀ a ∈ l, f a = some (g a)) : l.mapM f = some (l.map g) := by
  induction l with
  | nil => rfl
  | cons a l ih =>
    rw [List.mapM_cons, h a List.mem_cons_self, ih fun b hb => h b (List.mem_cons_of_mem a hb)]
    rfl

end Identikey.Lib
