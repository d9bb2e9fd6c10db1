/-
Encodings that tell where they end.

`Unambiguous enc val a b` says that a word which starts with the code of `a` and
with the code of `b` tells what was encoded: `a` and `b` have the same value, and
the same word follows.  Codes put one after the other keep the property, as pairs or
as lists of a known length; so the code of a structure is unambiguous when the codes
of its parts are.
-/
import Mathlib.Data.List.Basic
import Mathlib.Tactic.Lemma

namespace Identikey.Lib

variable {σ α β γ : Type}

/-- Where both codes can be read the values are the same, and the same word follows. -/
def Unambiguous (enc : α → List σ) (val : α → β) (a b : α) : Prop :=
  ∀ s t, enc a ++ s = enc b ++ t → val a = val b ∧ s = t

/-- The codes of two parts, one after the other. -/
lemma Unambiguous.append {f g : α → List σ} {u : α → β} {v : α → γ} {a b : α}
    (hf : Unambiguous f u a b) (hg : Unambiguous g v a b) :
    Unambiguous (fun x => f x ++ g x) (fun x => (u x, v x)) a b := by
  intro s t h
  simp only [List.append_assoc] at h
  obtain ⟨hu, h⟩ := hf _ _ h
  obtain ⟨hv, hst⟩ := hg _ _ h
  exact ⟨Prod.ext hu hv, hst⟩

/-- The codes of the elements of two lists of one length. -/
lemma Unambiguous.flatMap {enc : α → List σ} {val : α → β} {l l' : List α}
    (h : ∀ a ∈ l, ∀ b ∈ l', Unambiguous enc val a b) (hlen : l.length = l'.length)
    {s t : List σ} (hst : l.flatMap enc ++ s = l'.flatMap enc ++ t) :
    l.map val = l'.map val ∧ s = t := by
  induction l generalizing l' with
  | nil =>
    have hl' : l' = [] := List.length_eq_zero_iff.mp hlen.symm
    subst hl'
    exact ⟨rfl, hst⟩
  | cons a l ih =>
    cases l' with
    | nil => exact absurd hlen (by simp)
    | cons b l' =>
      rw [List.flatMap_cons, List.flatMap_cons, List.append_assoc, List.append_assoc] at hst
      obtain ⟨hab, hst⟩ := h a List.mem_cons_self b List.mem_cons_self _ _ hst
      have htail : ∀ x ∈ l, ∀ y ∈ l', Unambiguous enc val x y := fun x hx y hy =>
        h x (List.mem_cons_of_mem _ hx) y (List.mem_cons_of_mem _ hy)
      obtain ⟨hmap, hst⟩ := ih htail (by simpa using hlen) hst
      exact ⟨by rw [List.map_cons, List.map_cons, hab, hmap], hst⟩

/-- Two lists of elements whose codes are not empty, when nothing else is in the word. -/
lemma Unambiguous.flatMap_eq {enc : α → List σ} {val : α → β} {l l' : List α}
    (h : ∀ a ∈ l, ∀ b ∈ l', Unambiguous enc val a b) (hne : ∀ a, enc a ≠ [])
    (heq : l.flatMap enc = l'.flatMap enc) : l.map val = l'.map val := by
  induction l generalizing l' with
  | nil =>
    cases l' with
    | nil => rfl
    | cons b l' =>
      rw [List.flatMap_nil, List.flatMap_cons, eq_comm, List.append_eq_nil_iff] at heq
      exact absurd heq.1 (hne b)
  | cons a l ih =>
    cases l' with
    | nil =>
      rw [List.flatMap_nil, List.flatMap_cons, List.append_eq_nil_iff] at heq
      exact absurd heq.1 (hne a)
    | cons b l' =>
      rw [List.flatMap_cons, List.flatMap_cons] at heq
      obtain ⟨hab, hrest⟩ := h a List.mem_cons_self b List.mem_cons_self _ _ heq
      have htail : ∀ x ∈ l, ∀ y ∈ l', Unambiguous enc val x y := fun x hx y hy =>
        h x (List.mem_cons_of_mem _ hx) y (List.mem_cons_of_mem _ hy)
      rw [List.map_cons, List.map_cons, hab, ih htail hrest]

/-- A word in front of a symbol that it does not contain. -/
lemma Unambiguous.terminated {a : σ} {l l' : List σ} (h : a ∉ l) (h' : a ∉ l') :
    Unambiguous (fun word => word ++ [a]) id l l' := by
  intro s t heq
  simp only [List.append_assoc, List.singleton_append] at heq
  -- one word starts with the other, and what it has beyond starts with the symbol
  rcases List.append_eq_append_iff.mp heq with ⟨more, hl, hs⟩ | ⟨more, hl, hs⟩
  · cases more with
    | nil => exact ⟨by simpa using hl.symm, by simpa using hs⟩
    | cons b more =>
      obtain ⟨rfl, -⟩ := List.cons.inj hs
      exact absurd (by simp [hl]) h'
  · cases more with
    | nil => exact ⟨by simpa using hl, by simpa using hs.symm⟩
    | cons b more =>
      obtain ⟨rfl, -⟩ := List.cons.inj hs
      exact absurd (by simp [hl]) h

end Identikey.Lib
