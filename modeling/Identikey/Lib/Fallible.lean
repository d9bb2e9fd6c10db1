/-
Results of computations that may fail.

What a successful result says about the steps it came from: a sequence of steps
succeeded one by one, a check that succeeded held, and a map over a list or over an
optional value succeeded at every element.
-/
import Mathlib.Tactic.Lemma
import Mathlib.Data.List.Forall2

namespace Identikey.Lib.Fallible

variable {ε ε' α β : Type}

lemma bind_eq_ok {x : Except ε α} {f : α → Except ε β} {b : β} :
    (x >>= f) = .ok b ↔ ∃ a, x = .ok a ∧ f a = .ok b := by
  cases x with
  | error e => simp [bind, Except.bind]
  | ok a => simp [bind, Except.bind]

/-- A step that succeeds hands its result on. -/
lemma bind_eq_error {x : Except ε α} {f : α → Except ε β} {e : ε} :
    (x >>= f) = .error e ↔ x = .error e ∨ ∃ a, x = .ok a ∧ f a = .error e := by
  cases x with
  | error e' => simp [bind, Except.bind]
  | ok a => simp [bind, Except.bind]

lemma ok_bind (a : α) (f : α → Except ε β) : (Except.ok a >>= f) = f a := rfl

@[simp] lemma pure_eq_ok {a b : α} : (pure a : Except ε α) = .ok b ↔ a = b := by
  rw [show (pure a : Except ε α) = .ok a from rfl, Except.ok.injEq]

@[simp] lemma throw_ne_ok {e : ε} {a : α} : (throw e : Except ε α) ≠ .ok a := by
  intro h
  cases h

@[simp] lemma mapError_eq_ok {f : ε → ε'} {x : Except ε α} {a : α} :
    x.mapError f = .ok a ↔ x = .ok a := by
  cases x <;> simp [Except.mapError]

/-- A map over a list succeeds exactly when it does at every element, in order. -/
lemma mapM_eq_ok {f : α → Except ε β} {l : List α} {l' : List β} :
    l.mapM f = .ok l' ↔ List.Forall₂ (fun a b => f a = .ok b) l l' := by
  induction l generalizing l' with
  | nil =>
    rw [List.mapM_nil, pure_eq_ok, List.forall₂_nil_left_iff, eq_comm]
  | cons a l ih =>
    rw [List.mapM_cons, bind_eq_ok, List.forall₂_cons_left_iff]
    constructor
    · rintro ⟨b, hb, h⟩
      obtain ⟨bs, hbs, h⟩ := bind_eq_ok.mp h
      exact ⟨b, bs, hb, ih.mp hbs, (pure_eq_ok.mp h).symm⟩
    · rintro ⟨b, bs, hb, hbs, rfl⟩
      exact ⟨b, hb, bind_eq_ok.mpr ⟨bs, ih.mpr hbs, rfl⟩⟩

lemma mapM_of_forall {f : α → Except ε β} {g : α → β} {l : List α} (h : ∀ a ∈ l, f a = .ok (g a)) :
    l.mapM f = .ok (l.map g) := by
  rw [mapM_eq_ok, List.forall₂_map_right_iff, List.forall₂_same]
  exact h

/-- A loop whose turns read an element and then update what is gathered reads all elements
first. -/
lemma foldlM_eq {γ : Type} {step : γ → α → Except ε γ} {read : α → Except ε β} {update : γ → β → γ}
    (hstep : ∀ c a, step c a = update c <$> read a) {l : List α} {c c' : γ} :
    l.foldlM step c = .ok c' ↔
      ∃ bs, List.Forall₂ (fun a b => read a = .ok b) l bs ∧ c' = bs.foldl update c := by
  induction l generalizing c with
  | nil =>
    rw [List.foldlM_nil, pure_eq_ok]
    constructor
    · rintro rfl
      exact ⟨[], .nil, rfl⟩
    · rintro ⟨bs, hbs, rfl⟩
      cases hbs
      rfl
  | cons a l ih =>
    rw [List.foldlM_cons, bind_eq_ok]
    constructor
    · rintro ⟨d, hd, h⟩
      rw [hstep, map_eq_pure_bind] at hd
      obtain ⟨b, hb, hpure⟩ := bind_eq_ok.mp hd
      obtain ⟨bs, hbs, rfl⟩ := ih.mp h
      exact ⟨b :: bs, .cons hb hbs, by rw [List.foldl_cons, pure_eq_ok.mp hpure]⟩
    · rintro ⟨bs, hbs, rfl⟩
      obtain ⟨b, bs', hb, hbs', rfl⟩ := List.forall₂_cons_left_iff.mp hbs
      refine ⟨update c b, ?_, ih.mpr ⟨bs', hbs', rfl⟩⟩
      rw [hstep, hb]
      rfl

/-- A loop whose turns read an element and, if there is something in it, put it to what is
gathered: reading does not depend on what is gathered. -/
lemma foldlM_read {γ : Type} {step : γ → α → Except ε γ} {read : α → Except ε (Option β)}
    {put : γ → β → Except ε γ}
    (hstep : ∀ c a, step c a = read a >>= fun o => o.elim (pure c) (put c)) {l : List α}
    {c c' : γ} :
    l.foldlM step c = .ok c' ↔ ∃ bs, List.Forall₂ (fun a b => read a = .ok b) l bs ∧
      (bs.filterMap id).foldlM put c = .ok c' := by
  induction l generalizing c with
  | nil =>
    rw [List.foldlM_nil, pure_eq_ok]
    constructor
    · rintro rfl
      exact ⟨[], .nil, rfl⟩
    · rintro ⟨bs, hbs, h⟩
      cases hbs
      exact pure_eq_ok.mp h
  | cons a l ih =>
    rw [List.foldlM_cons, bind_eq_ok]
    constructor
    · rintro ⟨d, hd, h⟩
      rw [hstep] at hd
      obtain ⟨b, hb, hput⟩ := bind_eq_ok.mp hd
      obtain ⟨bs, hbs, hputs⟩ := ih.mp h
      refine ⟨b :: bs, .cons hb hbs, ?_⟩
      cases b with
      | none =>
        obtain rfl := pure_eq_ok.mp hput
        exact hputs
      | some b => exact bind_eq_ok.mpr ⟨d, hput, hputs⟩
    · rintro ⟨bs, hbs, h⟩
      obtain ⟨b, bs', hb, hbs', rfl⟩ := List.forall₂_cons_left_iff.mp hbs
      cases b with
      | none =>
        refine ⟨c, ?_, ih.mpr ⟨bs', hbs', h⟩⟩
        rw [hstep, hb]
        rfl
      | some b =>
        obtain ⟨d, hd, h⟩ := bind_eq_ok.mp h
        refine ⟨d, ?_, ih.mpr ⟨bs', hbs', h⟩⟩
        rw [hstep, hb]
        exact hd

/-- What was read is what some element is read as. -/
lemma mem_of_forall₂ {read : α → Except ε β} {l : List α} {bs : List β}
    (h : List.Forall₂ (fun a b => read a = .ok b) l bs) {b : β} :
    b ∈ bs ↔ ∃ a ∈ l, read a = .ok b := by
  induction h with
  | nil => simp
  | @cons a b' l bs hab _ ih =>
    rw [List.mem_cons, ih, List.exists_mem_cons_iff, hab, Except.ok.injEq, eq_comm]

/-- Each element of a list is related to one of the other list. -/
lemma exists_mem_of_forall₂ {R : α → β → Prop} {l : List α} {l' : List β}
    (h : List.Forall₂ R l l') :
    ∀ a ∈ l, ∃ b ∈ l', R a b := by
  induction h with
  | nil => simp
  | @cons a b l l' hab _ ih =>
    refine List.forall_mem_cons.mpr ⟨⟨b, List.mem_cons_self, hab⟩, fun x hx => ?_⟩
    obtain ⟨y, hy, hxy⟩ := ih x hx
    exact ⟨y, List.mem_cons_of_mem _ hy, hxy⟩

/-- Images of related elements that are the same. -/
lemma map_eq_of_forall₂ {γ : Type} {R : α → β → Prop} {f : α → γ} {g : β → γ} {l : List α}
    {l' : List β} (h : List.Forall₂ R l l') (hfg : ∀ a b, R a b → f a = g b) :
    l.map f = l'.map g := by
  induction h with
  | nil => rfl
  | @cons a b l l' hab _ ih => rw [List.map_cons, List.map_cons, hfg a b hab, ih]

lemma exists_of_forall₂ {read : α → Except ε β} {l : List α} {bs : List β}
    (h : List.Forall₂ (fun a b => read a = .ok b) l bs) : ∀ a ∈ l, ∃ b, read a = .ok b := by
  induction h with
  | nil => simp
  | @cons a b l bs hab _ ih => exact List.forall_mem_cons.mpr ⟨⟨b, hab⟩, ih⟩

/-- A part of what is read that is a part of the elements. -/
lemma filterMap_of_forall₂ {γ : Type} {read : α → Except ε β} {f : β → Option γ} {g : α → Option γ}
    (hfg : ∀ a b, read a = .ok b → f b = g a) {l : List α} {bs : List β}
    (h : List.Forall₂ (fun a b => read a = .ok b) l bs) : bs.filterMap f = l.filterMap g := by
  induction h with
  | nil => rfl
  | @cons a b l bs hab _ ih => rw [List.filterMap_cons, List.filterMap_cons, hfg a b hab, ih]

lemma forall₂_of_exists {read : α → Except ε β} {l : List α} (h : ∀ a ∈ l, ∃ b, read a = .ok b) :
    ∃ bs, List.Forall₂ (fun a b => read a = .ok b) l bs := by
  induction l with
  | nil => exact ⟨[], .nil⟩
  | cons a l ih =>
    obtain ⟨⟨b, hb⟩, hl⟩ := List.forall_mem_cons.mp h
    obtain ⟨bs, hbs⟩ := ih hl
    exact ⟨b :: bs, .cons hb hbs⟩

/-- What is read of different elements is related, if all that can be read of them is. -/
lemma pairwise_of_forall₂ {read : α → Except ε (Option β)} {S : β → β → Prop} {l : List α}
    {bs : List (Option β)} (h : List.Forall₂ (fun a b => read a = .ok b) l bs)
    (hl : l.Pairwise fun a a' => ∀ b b', read a = .ok (some b) → read a' = .ok (some b') → S b b') :
    (bs.filterMap id).Pairwise S := by
  rw [List.pairwise_filterMap]
  induction h with
  | nil => exact .nil
  | @cons a b l bs hab hbs ih =>
    obtain ⟨hfirst, hrest⟩ := List.pairwise_cons.mp hl
    refine List.pairwise_cons.mpr ⟨fun b' hb' x hx y hy => ?_, ih hrest⟩
    obtain ⟨a', ha', hab'⟩ := (mem_of_forall₂ hbs).mp hb'
    obtain rfl : b = some x := hx
    obtain rfl : b' = some y := hy
    exact hfirst a' ha' x y hab hab'

/-! ### Optional values -/

lemma rel_some_left {R : α → β → Prop} {a : α} {o : Option β} :
    Option.Rel R (some a) o ↔ ∃ b, o = some b ∧ R a b := by
  cases o <;> simp

/-- Optional values are related if what is in one is related to what is in the other. -/
lemma rel_of {R : α → β → Prop} {o : Option α} {o' : Option β}
    (h : ∀ a, o = some a → ∃ b, o' = some b ∧ R a b) (h' : ∀ b, o' = some b → ∃ a, o = some a) :
    Option.Rel R o o' := by
  cases o with
  | some a => exact rel_some_left.mpr (h a rfl)
  | none =>
    cases o' with
    | none => exact .none
    | some b =>
      obtain ⟨a, ha⟩ := h' b rfl
      cases ha

/-! ### Checks and optional steps -/

/-- The check of a condition, with the error when it fails. -/
def ensure (p : Prop) [Decidable p] (e : ε) : Except ε Unit :=
  if p then .ok () else .error e

@[simp] lemma ensure_eq_ok {p : Prop} [Decidable p] {e : ε} {u : Unit} :
    ensure p e = .ok u ↔ p := by
  unfold ensure
  split_ifs with h <;> simp [h]

/-- `ok_or`: the value, or the error when there is none. -/
def okOr (e : ε) : Option α → Except ε α
  | some a => .ok a
  | none => .error e

@[simp] lemma okOr_eq_ok {e : ε} {o : Option α} {a : α} : okOr e o = .ok a ↔ o = some a := by
  cases o <;> simp [okOr]

lemma ensure_of_not {p : Prop} [Decidable p] (h : ¬ p) (e : ε) : ensure p e = .error e := if_neg h

/-- A step on an optional value succeeds exactly when it does on the value, if there is one. -/
lemma optionMapM_eq_ok {f : α → Except ε β} {o : Option α} {o' : Option β} :
    o.mapM f = .ok o' ↔ Option.Rel (fun a b => f a = .ok b) o o' := by
  cases o with
  | none =>
    rw [Option.mapM_none, pure_eq_ok]
    constructor
    · rintro rfl
      exact .none
    · rintro ⟨⟩
      rfl
  | some a =>
    rw [Option.mapM_some, map_eq_pure_bind, bind_eq_ok]
    constructor
    · rintro ⟨b, hb, h⟩
      obtain rfl := pure_eq_ok.mp h
      exact .some hb
    · rintro ⟨hb⟩
      exact ⟨_, hb, rfl⟩

end Identikey.Lib.Fallible
