/-
Lists in strictly increasing order of a key.

Such a list is a finite map from keys to elements, or, where the key tells the
elements apart, a finite set.  `insertKeyed` puts an element in its place and
replaces the one that had its key; `addKeyed` keeps that one instead.  Two lists in
order with the same elements are equal (`Keyed.ext`), so what is built by insertions
does not depend on their order.
-/
import Mathlib.Data.List.Pairwise
import Mathlib.Order.Defs.LinearOrder
import Mathlib.Tactic.Lemma

namespace Identikey.Lib

section Keyed

variable {α κ : Type} [LT κ]

/-- In strictly increasing order of the key `f`. -/
def Keyed (f : α → κ) (l : List α) : Prop := l.Pairwise fun a b => f a < f b

@[simp] lemma keyed_nil (f : α → κ) : Keyed f [] := List.Pairwise.nil

lemma keyed_cons {f : α → κ} {a : α} {l : List α} :
    Keyed f (a :: l) ↔ (∀ b ∈ l, f a < f b) ∧ Keyed f l := List.pairwise_cons

variable [DecidableLT κ] [DecidableEq κ]

/-- The element in its place, instead of the one with its key if there is one. -/
def insertKeyed (f : α → κ) (a : α) : List α → List α
  | [] => [a]
  | b :: l =>
    if f a < f b then a :: b :: l
    else if f a = f b then a :: l
    else b :: insertKeyed f a l

/-- Inserting brings in nothing but the element. -/
lemma mem_of_mem_insertKeyed {f : α → κ} {a c : α} {l : List α} (h : c ∈ insertKeyed f a l) :
    c = a ∨ c ∈ l := by
  induction l with
  | nil => exact .inl (List.mem_singleton.mp h)
  | cons b l ih =>
    rw [insertKeyed] at h
    split_ifs at h
    · exact List.mem_cons.mp h
    · rcases List.mem_cons.mp h with h | h
      · exact .inl h
      · exact .inr (List.mem_cons_of_mem _ h)
    · rcases List.mem_cons.mp h with h | h
      · exact .inr (h ▸ List.mem_cons_self)
      · exact (ih h).imp_right (List.mem_cons_of_mem _)

lemma insertKeyed_ne_nil (f : α → κ) (a : α) (l : List α) : insertKeyed f a l ≠ [] := by
  cases l with
  | nil => exact List.cons_ne_nil a []
  | cons b l =>
    rw [insertKeyed]
    split_ifs <;> exact List.cons_ne_nil _ _

@[simp] lemma insertKeyed_nil (f : α → κ) (a : α) : insertKeyed f a [] = [a] := rfl

/-- The element in its place, unless there is one with its key already. -/
def addKeyed (f : α → κ) (a : α) (l : List α) : List α :=
  if ∃ b ∈ l, f b = f a then l else insertKeyed f a l

lemma mem_of_mem_addKeyed {f : α → κ} {a c : α} {l : List α} (h : c ∈ addKeyed f a l) :
    c = a ∨ c ∈ l := by
  unfold addKeyed at h
  split_ifs at h
  · exact .inr h
  · exact mem_of_mem_insertKeyed h

/-- Insertion and a map that keeps all keys can change places. -/
lemma map_insertKeyed {f : α → κ} {g : α → α} (hg : ∀ a, f (g a) = f a) (a : α) (l : List α) :
    (insertKeyed f a l).map g = insertKeyed f (g a) (l.map g) := by
  induction l with
  | nil => rfl
  | cons b l ih =>
    rw [List.map_cons, insertKeyed, insertKeyed, hg, hg]
    split_ifs
    · rfl
    · rfl
    · rw [List.map_cons, ih]

lemma map_addKeyed {f : α → κ} {g : α → α} (hg : ∀ a, f (g a) = f a) (a : α) (l : List α) :
    (addKeyed f a l).map g = addKeyed f (g a) (l.map g) := by
  have hmem : (∃ b ∈ l.map g, f b = f (g a)) ↔ ∃ b ∈ l, f b = f a := by
    simp only [List.mem_map, exists_exists_and_eq_and, hg]
  unfold addKeyed
  by_cases h : ∃ b ∈ l, f b = f a
  · rw [if_pos h, if_pos (hmem.mpr h)]
  · rw [if_neg h, if_neg (hmem.not.mpr h), map_insertKeyed hg]

lemma addKeyed_ne_nil {f : α → κ} {a : α} {l : List α} (h : l ≠ []) : addKeyed f a l ≠ [] := by
  unfold addKeyed
  split_ifs
  · exact h
  · exact insertKeyed_ne_nil f a l

end Keyed

section Order

variable {α κ : Type} [LT κ] [LE κ] [DecidableLT κ] [DecidableEq κ] [Std.LawfulOrderLT κ]
  [Std.IsLinearOrder κ]

lemma insertKeyed_of_gt {f : α → κ} {a b : α} (h : f b < f a) (l : List α) :
    insertKeyed f a (b :: l) = b :: insertKeyed f a l := by
  have hlt : ¬ f a < f b := fun h' => Std.lt_irrefl (Std.lt_trans h h')
  have hne : ¬ f a = f b := fun heq => Std.lt_irrefl (heq ▸ h)
  rw [insertKeyed, if_neg hlt, if_neg hne]

/-- An element above all others goes to the end. -/
lemma insertKeyed_append {f : α → κ} {a : α} {l : List α} (h : Keyed f (l ++ [a])) :
    insertKeyed f a l = l ++ [a] := by
  induction l with
  | nil => rfl
  | cons b l ih =>
    rw [List.cons_append] at h ⊢
    obtain ⟨hb, hl⟩ := keyed_cons.mp h
    rw [insertKeyed_of_gt (hb a (by simp)), ih hl]

/-- Elements in order, inserted one after the other. -/
lemma foldl_insertKeyed {f : α → κ} {l as : List α} (h : Keyed f (l ++ as)) :
    as.foldl (fun l a => insertKeyed f a l) l = l ++ as := by
  induction as generalizing l with
  | nil => simp
  | cons a as ih =>
    rw [List.append_cons] at h
    rw [List.foldl_cons, insertKeyed_append (List.pairwise_append.mp h).1, ih h,
      List.append_assoc, List.singleton_append]

lemma mem_insertKeyed {f : α → κ} {a c : α} {l : List α} (hl : Keyed f l) :
    c ∈ insertKeyed f a l ↔ c = a ∨ c ∈ l ∧ f c ≠ f a := by
  induction l with
  | nil => simp
  | cons b l ih =>
    obtain ⟨hb, hl⟩ := keyed_cons.mp hl
    rw [insertKeyed]
    split_ifs with hlt heq
    · -- the new element goes in front: nothing behind it has its key
      have hne : ∀ x ∈ b :: l, f x ≠ f a := by
        intro x hx hxa
        rcases List.mem_cons.mp hx with rfl | hx
        · exact Std.lt_irrefl (hxa ▸ hlt)
        · exact Std.lt_irrefl (hxa ▸ Std.lt_trans hlt (hb x hx))
      constructor
      · intro hc
        rcases List.mem_cons.mp hc with rfl | hc
        · exact .inl rfl
        · exact .inr ⟨hc, hne c hc⟩
      · rintro (rfl | ⟨hc, -⟩)
        · exact List.mem_cons_self
        · exact List.mem_cons_of_mem _ hc
    · have hne : ∀ x ∈ l, f x ≠ f a := fun x hx hxa =>
        Std.lt_irrefl ((hxa.trans heq) ▸ hb x hx)
      constructor
      · intro hc
        rcases List.mem_cons.mp hc with rfl | hc
        · exact .inl rfl
        · exact .inr ⟨List.mem_cons_of_mem _ hc, hne c hc⟩
      · rintro (rfl | ⟨hc, hca⟩)
        · exact List.mem_cons_self
        · rcases List.mem_cons.mp hc with rfl | hc
          · exact absurd heq.symm hca
          · exact List.mem_cons_of_mem _ hc
    · have hba : f b ≠ f a := fun h => heq h.symm
      rw [List.mem_cons, ih hl, List.mem_cons]
      constructor
      · rintro (rfl | rfl | ⟨hc, hca⟩)
        · exact .inr ⟨.inl rfl, hba⟩
        · exact .inl rfl
        · exact .inr ⟨.inr hc, hca⟩
      · rintro (rfl | ⟨rfl | hc, hca⟩)
        · exact .inr (.inl rfl)
        · exact .inl rfl
        · exact .inr (.inr ⟨hc, hca⟩)

lemma Keyed.insertKeyed {f : α → κ} {l : List α} (hl : Keyed f l) (a : α) :
    Keyed f (insertKeyed f a l) := by
  induction l with
  | nil => exact List.pairwise_singleton _ _
  | cons b l ih =>
    have hbl := hl
    obtain ⟨hb, hl⟩ := keyed_cons.mp hl
    rw [Lib.insertKeyed]
    split_ifs with hlt heq
    · refine keyed_cons.mpr ⟨?_, hbl⟩
      intro x hx
      rcases List.mem_cons.mp hx with rfl | hx
      · exact hlt
      · exact Std.lt_trans hlt (hb x hx)
    · exact keyed_cons.mpr ⟨fun x hx => heq ▸ hb x hx, hl⟩
    · refine keyed_cons.mpr ⟨?_, ih hl⟩
      intro x hx
      rcases (mem_insertKeyed hl).mp hx with rfl | ⟨hx, -⟩
      · have hle : f b ≤ f x := Std.not_lt.mp hlt
        exact Std.lt_of_le_of_ne hle fun h => heq h.symm
      · exact hb x hx

lemma Keyed.addKeyed {f : α → κ} {l : List α} (hl : Keyed f l) (a : α) :
    Keyed f (addKeyed f a l) := by
  unfold Lib.addKeyed
  split_ifs
  · exact hl
  · exact hl.insertKeyed a

/-- What has a key of its own is added. -/
lemma mem_addKeyed {f : α → κ} {a c : α} {l : List α} (hl : Keyed f l)
    (ha : ∀ b ∈ l, f b = f a → b = a) : c ∈ addKeyed f a l ↔ c = a ∨ c ∈ l := by
  unfold Lib.addKeyed
  split_ifs with h
  · obtain ⟨b, hb, hba⟩ := h
    have hmem : a ∈ l := ha b hb hba ▸ hb
    constructor
    · exact .inr
    · rintro (rfl | hc)
      · exact hmem
      · exact hc
  · rw [mem_insertKeyed hl]
    constructor
    · rintro (rfl | ⟨hc, -⟩)
      · exact .inl rfl
      · exact .inr hc
    · rintro (rfl | hc)
      · exact .inl rfl
      · exact .inr ⟨hc, fun hca => h ⟨c, hc, hca⟩⟩

lemma Keyed.foldl_addKeyed {f : α → κ} (as : List α) {l : List α} (hl : Keyed f l) :
    Keyed f (as.foldl (fun l a => Lib.addKeyed f a l) l) := by
  induction as generalizing l with
  | nil => exact hl
  | cons a as ih => exact ih (hl.addKeyed a)

/-- Elements told apart by their keys, added one after the other, are all there. -/
lemma mem_foldl_addKeyed {f : α → κ} {as : List α} {l : List α} (hl : Keyed f l)
    (hinj : ∀ a ∈ as ++ l, ∀ b ∈ as ++ l, f a = f b → a = b) {c : α} :
    c ∈ as.foldl (fun l a => addKeyed f a l) l ↔ c ∈ as ∨ c ∈ l := by
  induction as generalizing l with
  | nil => simp
  | cons a as ih =>
    have hmem : ∀ x, x ∈ addKeyed f a l ↔ x = a ∨ x ∈ l := fun x =>
      mem_addKeyed hl fun b hb hba => hinj b (by simp [hb]) a (by simp) hba
    have hinj' : ∀ x ∈ as ++ addKeyed f a l, ∀ y ∈ as ++ addKeyed f a l, f x = f y → x = y := by
      have hsub : ∀ x ∈ as ++ addKeyed f a l, x ∈ a :: as ++ l := by
        intro x hx
        rcases List.mem_append.mp hx with hx | hx
        · simp [hx]
        · rcases (hmem x).mp hx with rfl | hx <;> simp [*]
      exact fun x hx y hy => hinj x (hsub x hx) y (hsub y hy)
    rw [List.foldl_cons, ih (hl.addKeyed a) hinj', hmem, List.mem_cons, or_left_comm, or_assoc]

omit [DecidableLT κ] [DecidableEq κ] in
lemma Keyed.nodup {f : α → κ} {l : List α} (hl : Keyed f l) : l.Nodup := by
  refine List.Pairwise.imp ?_ hl
  rintro a b hab rfl
  exact Std.lt_irrefl hab

omit [DecidableLT κ] [DecidableEq κ] in
/-- Lists in order with the same elements are equal. -/
lemma Keyed.ext {f : α → κ} {l l' : List α} (hl : Keyed f l) (hl' : Keyed f l')
    (h : ∀ a, a ∈ l ↔ a ∈ l') : l = l' := by
  have hp : l.Perm l' := (List.perm_ext_iff_of_nodup hl.nodup hl'.nodup).mpr h
  refine hp.eq_of_pairwise ?_ hl hl'
  intro a b _ _ hab hba
  exact absurd (Std.lt_trans hab hba) Std.lt_irrefl

omit [DecidableLT κ] [DecidableEq κ] in
/-- In a list in order the key tells the elements apart. -/
lemma Keyed.inj {f : α → κ} {l : List α} (hl : Keyed f l) {a b : α} (ha : a ∈ l) (hb : b ∈ l)
    (h : f a = f b) : a = b := by
  induction l with
  | nil => exact absurd ha List.not_mem_nil
  | cons c l ih =>
    obtain ⟨hc, hl⟩ := keyed_cons.mp hl
    rcases List.mem_cons.mp ha with rfl | hal
    · rcases List.mem_cons.mp hb with rfl | hbl
      · rfl
      · exact absurd (h ▸ hc b hbl) Std.lt_irrefl
    · rcases List.mem_cons.mp hb with rfl | hbl
      · exact absurd (h ▸ hc a hal) Std.lt_irrefl
      · exact ih hl hal hbl

/-- A list in order is what is built from its elements, in any order and with repetitions. -/
lemma Keyed.foldl_addKeyed_eq {f : α → κ} {l as : List α} (hl : Keyed f l)
    (h : ∀ a, a ∈ as ↔ a ∈ l) : as.foldl (fun l a => Lib.addKeyed f a l) [] = l := by
  have hinj : ∀ a ∈ as ++ [], ∀ b ∈ as ++ [], f a = f b → a = b := by
    intro a ha b hb
    rw [List.append_nil] at ha hb
    exact hl.inj ((h a).mp ha) ((h b).mp hb)
  refine Keyed.ext (Keyed.foldl_addKeyed as List.Pairwise.nil) hl fun a => ?_
  rw [mem_foldl_addKeyed List.Pairwise.nil hinj, h]
  simp

/-- Elements with keys of their own, inserted one after the other, are all there. -/
lemma mem_foldl_insertKeyed {f : α → κ} {as l : List α} (hl : Keyed f l)
    (has : as.Pairwise fun a b => f a ≠ f b) (hne : ∀ a ∈ as, ∀ b ∈ l, f a ≠ f b) {c : α} :
    c ∈ as.foldl (fun l a => Lib.insertKeyed f a l) l ↔ c ∈ as ∨ c ∈ l := by
  induction as generalizing l with
  | nil => simp
  | cons a as ih =>
    obtain ⟨ha, has⟩ := List.pairwise_cons.mp has
    have hmem : ∀ x, x ∈ Lib.insertKeyed f a l ↔ x = a ∨ x ∈ l := by
      intro x
      rw [mem_insertKeyed hl]
      constructor
      · exact Or.imp_right And.left
      · exact Or.imp_right fun hx => ⟨hx, fun h => hne a List.mem_cons_self x hx h.symm⟩
    have hne' : ∀ b ∈ as, ∀ x ∈ Lib.insertKeyed f a l, f b ≠ f x := by
      intro b hb x hx
      rcases (hmem x).mp hx with rfl | hx
      · exact (ha b hb).symm
      · exact hne b (List.mem_cons_of_mem _ hb) x hx
    rw [List.foldl_cons, ih (hl.insertKeyed a) has hne', hmem, List.mem_cons, or_left_comm,
      or_assoc]

/-- A list in order is what insertion builds from its elements, in any order. -/
lemma Keyed.foldl_insertKeyed_eq {f : α → κ} {l as : List α} (hl : Keyed f l)
    (hp : as.Perm l) : as.foldl (fun l a => Lib.insertKeyed f a l) [] = l := by
  have hsort : ∀ (as m : List α), Keyed f m →
      Keyed f (as.foldl (fun l a => Lib.insertKeyed f a l) m) := by
    intro as
    induction as with
    | nil => exact fun m hm => hm
    | cons a as ih => exact fun m hm => ih _ (hm.insertKeyed a)
  have hpair : as.Pairwise fun a b => f a ≠ f b := by
    refine (hp.pairwise_iff fun h => h.symm).mpr (List.Pairwise.imp ?_ hl)
    intro a b hab h
    exact Std.lt_irrefl (h ▸ hab)
  refine Keyed.ext (hsort as [] List.Pairwise.nil) hl fun c => ?_
  rw [mem_foldl_insertKeyed List.Pairwise.nil hpair fun _ _ b hb => absurd hb List.not_mem_nil]
  simp [hp.mem_iff]

end Order

end Identikey.Lib
