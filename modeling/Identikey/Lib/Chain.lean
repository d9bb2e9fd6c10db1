/-
Chains in which every element names the one before it.

Two chains from one root, where no element is named by two different ones, do not
branch: one of them is the beginning of the other.  The chains here are written
with the latest element first, so that the beginning of a chain is its suffix.
-/
import Mathlib.Data.List.Chain
import Mathlib.Data.List.Infix
import Mathlib.Tactic.Lemma

namespace Identikey.Lib

section Chain

variable {α : Type} {R : α → α → Prop}

/-- From the root on, the earliest element first: one chain is a prefix of the other. -/
lemma prefix_or_prefix_of_unique {r : α} {xs ys : List α}
    (hxs : (r :: xs).IsChain R) (hys : (r :: ys).IsChain R)
    (huniq : ∀ p ∈ r :: xs, ∀ a ∈ xs, ∀ b ∈ ys, R p a → R p b → a = b) :
    r :: xs <+: r :: ys ∨ r :: ys <+: r :: xs := by
  induction xs generalizing r ys with
  | nil => exact .inl (List.prefix_append [r] ys)
  | cons a xs ih =>
    cases ys with
    | nil => exact .inr (List.prefix_append [r] (a :: xs))
    | cons b ys =>
      obtain ⟨hra, hxs'⟩ := List.isChain_cons_cons.mp hxs
      obtain ⟨hrb, hys'⟩ := List.isChain_cons_cons.mp hys
      obtain rfl : a = b :=
        huniq r List.mem_cons_self a List.mem_cons_self b List.mem_cons_self hra hrb
      have htail := ih hxs' hys' fun p hp x hx y hy =>
        huniq p (List.mem_cons_of_mem r hp) x (List.mem_cons_of_mem a hx) y
          (List.mem_cons_of_mem a hy)
      rcases htail with h | h
      · exact .inl ((List.prefix_cons_inj r).mpr h)
      · exact .inr ((List.prefix_cons_inj r).mpr h)

/-- **Chains from one root do not branch**: with the latest element first and one last element,
one chain is a suffix of the other, provided that no element of the first has two successors. -/
theorem suffix_or_suffix_of_unique {r : α} {xs ys : List α}
    (hxs : (xs ++ [r]).IsChain fun a p => R p a)
    (hys : (ys ++ [r]).IsChain fun a p => R p a)
    (huniq : ∀ p ∈ xs ++ [r], ∀ a ∈ xs, ∀ b ∈ ys, R p a → R p b → a = b) :
    xs ++ [r] <:+ ys ++ [r] ∨ ys ++ [r] <:+ xs ++ [r] := by
  have hrev : ∀ l : List α, (l ++ [r]).reverse = r :: l.reverse := fun l => by
    rw [List.reverse_append, List.reverse_singleton, List.singleton_append]
  have hxs' : (r :: xs.reverse).IsChain R := by
    rw [← hrev]
    exact List.isChain_reverse.mpr hxs
  have hys' : (r :: ys.reverse).IsChain R := by
    rw [← hrev]
    exact List.isChain_reverse.mpr hys
  have hprefix := prefix_or_prefix_of_unique hxs' hys' fun p hp a ha b hb =>
    huniq p (by rwa [← List.mem_reverse, hrev]) a (List.mem_reverse.mp ha) b
      (List.mem_reverse.mp hb)
  rw [← hrev xs, ← hrev ys, List.reverse_prefix, List.reverse_prefix] at hprefix
  exact hprefix

end Chain

end Identikey.Lib
