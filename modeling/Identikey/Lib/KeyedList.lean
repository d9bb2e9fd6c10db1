/-
Lists of entries that carry a key.

Two things are done with such lists in a deterministic encoding: the entries are
put in increasing order of a sort key, and an entry is found by its name.
`sortOn` is the stable sort by a key and `lookup` the first-match search.  When
the names are distinct both are functions of the set of entries alone, so

* two lists with the same lookup function are permutations of each other
  (`perm_of_lookup`), and
* permutations of each other are sorted to the same list (`sortOn_eq_of_perm`).
-/
import Mathlib.Data.List.Sort
import Mathlib.Data.List.Nodup
import Mathlib.Tactic.Lemma

namespace Identikey.Lib

/-! ### Sorting by a key -/

section Sorting

variable {α β κ : Type} [LE κ] [DecidableLE κ]

/-- The list in increasing order of the key `f`, equal keys in their old order. -/
def sortOn (f : α → κ) (l : List α) : List α :=
  l.insertionSort fun a b => f a ≤ f b

lemma sortOn_perm (f : α → κ) (l : List α) : (sortOn f l).Perm l :=
  List.perm_insertionSort _ l

@[simp] lemma mem_sortOn (f : α → κ) {l : List α} {a : α} : a ∈ sortOn f l ↔ a ∈ l :=
  (sortOn_perm f l).mem_iff

@[simp] lemma length_sortOn (f : α → κ) (l : List α) : (sortOn f l).length = l.length :=
  (sortOn_perm f l).length_eq

/-- The sort looks at the keys only: it commutes with a map that keeps them. -/
lemma map_sortOn {f : α → κ} {g : β → κ} (m : α → β) (h : ∀ a, g (m a) = f a) (l : List α) :
    (sortOn f l).map m = sortOn g (l.map m) :=
  List.map_insertionSort _ _ m l fun a _ b _ => by rw [h a, h b]

section Linear

variable [Std.IsLinearOrder κ]

lemma sortOn_sorted (f : α → κ) (l : List α) : (sortOn f l).Pairwise fun a b => f a ≤ f b := by
  have htotal : Std.Total fun a b : α => f a ≤ f b := ⟨fun a b => Std.le_total (a := f a)⟩
  have htrans : IsTrans α fun a b : α => f a ≤ f b := ⟨fun _ _ _ => Std.le_trans⟩
  exact List.pairwise_insertionSort _ l

@[simp] lemma sortOn_sortOn (f : α → κ) (l : List α) : sortOn f (sortOn f l) = sortOn f l :=
  (sortOn_sorted f l).insertionSort_eq

/-- Lists with the same entries are sorted to the same list, when the key tells the entries. -/
lemma sortOn_eq_of_perm_of_injOn {f : α → κ} {l l' : List α} (hp : l.Perm l')
    (hf : ∀ a ∈ l, ∀ b ∈ l, f a = f b → a = b) : sortOn f l = sortOn f l' := by
  have hp' : (sortOn f l).Perm (sortOn f l') :=
    (sortOn_perm f l).trans (hp.trans (sortOn_perm f l').symm)
  refine hp'.eq_of_pairwise ?_ (sortOn_sorted f l) (sortOn_sorted f l')
  intro a b ha hb hab hba
  have ha' : a ∈ l := (mem_sortOn f).mp ha
  have hb' : b ∈ l := hp.mem_iff.mpr ((mem_sortOn f).mp hb)
  exact hf a ha' b hb' (Std.le_antisymm hab hba)

/-- Lists with the same entries and distinct keys are sorted to the same list. -/
lemma sortOn_eq_of_perm (f : α → κ) {l l' : List α} (hp : l.Perm l') (h : (l.map f).Nodup) :
    sortOn f l = sortOn f l' := by
  refine sortOn_eq_of_perm_of_injOn hp ?_
  intro a ha b hb hab
  exact List.inj_on_of_nodup_map h ha hb hab

/-- Lists are sorted to the same list, by a key that tells the entries, exactly when they have the
same entries. -/
lemma sortOn_eq_iff_perm {f : α → κ} (hf : Function.Injective f) {l l' : List α} :
    sortOn f l = sortOn f l' ↔ l.Perm l' := by
  constructor
  · intro h
    exact (sortOn_perm f l).symm.trans (h ▸ sortOn_perm f l')
  · intro hp
    exact sortOn_eq_of_perm_of_injOn hp fun a _ b _ hab => hf hab

end Linear

section Strict

variable [LT κ] [Std.LawfulOrderLT κ]

/-- A list that is in order already is left as it is. -/
lemma sortOn_eq_self (f : α → κ) {l : List α} (h : l.Pairwise fun a b => f a < f b) :
    sortOn f l = l :=
  (h.imp fun hab => Std.le_of_lt hab).insertionSort_eq

omit [DecidableLE κ] in
/-- Strictly increasing keys are distinct. -/
lemma nodup_of_strict (f : α → κ) {l : List α} (h : l.Pairwise fun a b => f a < f b) :
    (l.map f).Nodup := by
  refine List.pairwise_map.mpr (h.imp ?_)
  intro a b hab heq
  rw [heq] at hab
  exact Std.lt_irrefl hab

/-- Distinct keys are in strictly increasing order after the sort. -/
lemma sortOn_strict [Std.IsLinearOrder κ] (f : α → κ) {l : List α} (h : (l.map f).Nodup) :
    (sortOn f l).Pairwise fun a b => f a < f b := by
  have hne : (sortOn f l).Pairwise fun a b => f a ≠ f b :=
    List.pairwise_map.mp (((sortOn_perm f l).map f).nodup_iff.mpr h)
  refine ((sortOn_sorted f l).and hne).imp ?_
  rintro a b ⟨hle, hab⟩
  exact Std.lt_of_le_of_ne hle hab

end Strict

end Sorting

/-- Two lists in two parts, which a predicate tells apart. -/
lemma perm_append_iff {p : α → Prop} [DecidablePred p] {l₁ l₁' l₂ l₂' : List α}
    (h₁ : ∀ a ∈ l₁, p a) (h₁' : ∀ a ∈ l₁', p a) (h₂ : ∀ a ∈ l₂, ¬ p a) (h₂' : ∀ a ∈ l₂', ¬ p a) :
    (l₁ ++ l₂).Perm (l₁' ++ l₂') ↔ l₁.Perm l₁' ∧ l₂.Perm l₂' := by
  -- the first part of a list is what the predicate keeps, the second what it drops
  have hfirst : ∀ {k₁ k₂ : List α}, (∀ a ∈ k₁, p a) → (∀ a ∈ k₂, ¬ p a) →
      (k₁ ++ k₂).filter (fun a => p a) = k₁ := by
    intro k₁ k₂ hk₁ hk₂
    rw [List.filter_append, List.filter_eq_self.mpr (by simpa using hk₁),
      List.filter_eq_nil_iff.mpr (by simpa using hk₂), List.append_nil]
  have hsecond : ∀ {k₁ k₂ : List α}, (∀ a ∈ k₁, p a) → (∀ a ∈ k₂, ¬ p a) →
      (k₁ ++ k₂).filter (fun a => ¬ p a) = k₂ := by
    intro k₁ k₂ hk₁ hk₂
    rw [List.filter_append, List.filter_eq_nil_iff.mpr (by simpa using hk₁),
      List.filter_eq_self.mpr (by simpa using hk₂), List.nil_append]
  constructor
  · intro h
    have hkept := h.filter fun a => p a
    have hdropped := h.filter fun a => ¬ p a
    rw [hfirst h₁ h₂, hfirst h₁' h₂'] at hkept
    rw [hsecond h₁ h₂, hsecond h₁' h₂'] at hdropped
    exact ⟨hkept, hdropped⟩
  · rintro ⟨hkept, hdropped⟩
    exact hkept.append hdropped

/-- The images of two lists under a map that tells the elements of one from those of the other. -/
lemma map_perm_map_iff_of_forall {β : Type} {f : α → β} {l l' : List α}
    (hf : ∀ a ∈ l, ∀ b ∈ l', f a = f b → a = b) : (l.map f).Perm (l'.map f) ↔ l.Perm l' := by
  refine ⟨fun h => ?_, fun h => h.map f⟩
  induction l generalizing l' with
  | nil =>
    have hnil : l'.map f = [] := h.nil_eq.symm
    rw [List.map_eq_nil_iff.mp hnil]
  | cons a l ih =>
    -- the image of the first element stands somewhere among the others
    have hmem : f a ∈ l'.map f := h.subset List.mem_cons_self
    obtain ⟨b, hb, hab⟩ := List.mem_map.mp hmem
    obtain rfl := hf a List.mem_cons_self b hb hab.symm
    obtain ⟨before, after, rfl⟩ := List.append_of_mem hb
    have hrest : (l.map f).Perm ((before ++ after).map f) := by
      refine List.Perm.cons_inv (a := f a) (h.trans ?_)
      rw [List.map_append, List.map_append, List.map_cons]
      exact List.perm_middle
    have hl : l.Perm (before ++ after) := by
      refine ih (fun x hx y hy => hf x (List.mem_cons_of_mem _ hx) y ?_) hrest
      exact List.perm_middle.symm.subset (List.mem_cons_of_mem _ hy)
    exact (hl.cons a).trans List.perm_middle.symm

/-- In a list without two elements of one key, an element is all that has its key. -/
lemma filter_eq_singleton {β : Type} {f : α → β} {p : α → Bool} {l : List α} {a : α}
    (hl : (l.map f).Nodup) (ha : a ∈ l) (hp : ∀ x, p x = true ↔ f x = f a) :
    l.filter p = [a] := by
  obtain ⟨before, after, rfl⟩ := List.append_of_mem ha
  rw [List.map_append, List.map_cons, List.nodup_middle, List.nodup_cons, List.mem_append,
    not_or] at hl
  obtain ⟨⟨hbefore, hafter⟩, -⟩ := hl
  have hnone : ∀ k : List α, f a ∉ k.map f → k.filter p = [] := by
    intro k hk
    rw [List.filter_eq_nil_iff]
    intro x hx hpx
    exact hk (List.mem_map.mpr ⟨x, hx, (hp x).mp hpx⟩)
  rw [List.filter_append, List.filter_cons_of_pos ((hp a).mpr rfl), hnone before hbefore,
    hnone after hafter, List.nil_append]

/-! ### Finding an entry by its name -/

section Lookup

variable {κ β γ : Type} [DecidableEq κ]

/-- The value of the first entry named `k`. -/
def lookup (k : κ) (l : List (κ × β)) : Option β :=
  (l.find? fun e => e.1 == k).map fun e => e.2

@[simp] lemma lookup_nil (k : κ) : lookup k ([] : List (κ × β)) = none := rfl

lemma lookup_cons (k : κ) (e : κ × β) (l : List (κ × β)) :
    lookup k (e :: l) = if e.1 = k then some e.2 else lookup k l := by
  by_cases h : e.1 = k <;> simp [lookup, h]

lemma mem_of_lookup {k : κ} {v : β} {l : List (κ × β)} (h : lookup k l = some v) :
    (k, v) ∈ l := by
  induction l with
  | nil => simp at h
  | cons e l ih =>
    rw [lookup_cons] at h
    split at h
    · next hk =>
      have hv : e.2 = v := by simpa using h
      exact List.mem_cons.mpr (.inl (by rw [← hk, ← hv]))
    · exact List.mem_cons_of_mem _ (ih h)

lemma lookup_eq_some_iff {k : κ} {v : β} {l : List (κ × β)} (hl : (l.map Prod.fst).Nodup) :
    lookup k l = some v ↔ (k, v) ∈ l := by
  refine ⟨mem_of_lookup, fun h => ?_⟩
  induction l with
  | nil => simp at h
  | cons e l ih =>
    simp only [List.map_cons, List.nodup_cons] at hl
    rw [lookup_cons]
    rcases List.mem_cons.mp h with rfl | h
    · simp
    · have hne : e.1 ≠ k := fun heq => hl.1 (heq ▸ List.mem_map_of_mem (f := Prod.fst) h)
      rw [if_neg hne]
      exact ih hl.2 h

lemma lookup_eq_none_iff {k : κ} {l : List (κ × β)} :
    lookup k l = none ↔ k ∉ l.map Prod.fst := by
  induction l with
  | nil => simp
  | cons e l ih =>
    rw [lookup_cons, List.map_cons, List.mem_cons, not_or]
    by_cases h : e.1 = k
    · simp [h]
    · rw [if_neg h, ih]
      simp [Ne.symm h]

lemma lookup_map (g : β → γ) (k : κ) (l : List (κ × β)) :
    lookup k (l.map fun e => (e.1, g e.2)) = (lookup k l).map g := by
  induction l with
  | nil => rfl
  | cons e l ih =>
    rw [List.map_cons, lookup_cons, lookup_cons, ih]
    split <;> simp

/-- A list with distinct names is determined, up to order, by its lookup function. -/
lemma perm_of_lookup {l l' : List (κ × β)} (hl : (l.map Prod.fst).Nodup)
    (hl' : (l'.map Prod.fst).Nodup) (h : ∀ k, lookup k l = lookup k l') : l.Perm l' := by
  refine (List.perm_ext_iff_of_nodup hl.of_map hl'.of_map).mpr ?_
  rintro ⟨k, v⟩
  rw [← lookup_eq_some_iff hl, ← lookup_eq_some_iff hl', h k]

/-- The entry found does not depend on the order of a list with distinct names. -/
lemma lookup_perm {l l' : List (κ × β)} (hl : (l.map Prod.fst).Nodup) (hp : l.Perm l') (k : κ) :
    lookup k l = lookup k l' := by
  have hl' : (l'.map Prod.fst).Nodup := (hp.map Prod.fst).nodup_iff.mp hl
  refine Option.ext fun v => ?_
  rw [lookup_eq_some_iff hl, lookup_eq_some_iff hl', hp.mem_iff]

end Lookup

end Identikey.Lib
