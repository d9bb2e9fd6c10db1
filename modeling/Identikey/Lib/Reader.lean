/-
Readers of an input.

A reader takes an input state and either fails or returns a result together with
the state that is left.  What is still to be read is a list of symbols, given by
a function `rest` on states.  Two properties say that a reader and an encoding
belong together:

* `Sound rest enc p`: whatever `p` accepts, it has consumed exactly the encoding
  of its result;
* `Accepts rest good p w a`: from every good state that starts with the word
  `w`, the reader returns `a` and leaves what follows `w`.

A decoder that is sound for an encoding accepts one word only for each result;
one that accepts all encodings loses no value.  `Consumes size k p` says that `p`
makes the input smaller by at least `k`, which bounds the depth of nested calls.
-/
import Mathlib.Tactic.Lemma
import Mathlib.Data.List.Basic
import Mathlib.Order.Basic
import Mathlib.Algebra.Order.Group.Nat

namespace Identikey.Lib

/-- A reader: from an input state, a failure or a result and the state left. -/
abbrev Reader (ε S : Type) := StateT S (Except ε)

variable {ε S σ α β γ : Type}

namespace Reader

lemma bind_eq_ok {p : Reader ε S α} {f : α → Reader ε S β} {s : S} {x : β × S} :
    (p >>= f) s = .ok x ↔ ∃ a s', p s = .ok (a, s') ∧ f a s' = .ok x := by
  have h : (p >>= f) s = (p s).bind fun y => f y.1 y.2 := rfl
  rw [h]
  cases hp : p s with
  | error e => simp [Except.bind]
  | ok y =>
    obtain ⟨a, s'⟩ := y
    simp [Except.bind]

lemma bind_of_ok {p : Reader ε S α} {f : α → Reader ε S β} {s s' : S} {a : α}
    (h : p s = .ok (a, s')) : (p >>= f) s = f a s' := by
  have hb : (p >>= f) s = (p s).bind fun y => f y.1 y.2 := rfl
  rw [hb, h]
  rfl

/-- Two readers that agree on a state, and on every state the first one leads to from it. -/
lemma bind_congr {p q : Reader ε S α} {f g : α → Reader ε S β} {s : S} (hp : p s = q s)
    (h : ∀ a s', p s = .ok (a, s') → f a s' = g a s') : (p >>= f) s = (q >>= g) s := by
  have hf : (p >>= f) s = (p s).bind fun y => f y.1 y.2 := rfl
  have hg : (q >>= g) s = (q s).bind fun y => g y.1 y.2 := rfl
  rw [hf, hg, ← hp]
  cases hps : p s with
  | error e => rfl
  | ok y => exact h y.1 y.2 hps

@[simp] lemma pure_eq_ok {a b : α} {s s' : S} :
    (pure a : Reader ε S α) s = .ok (b, s') ↔ a = b ∧ s = s' := by
  have h : (pure a : Reader ε S α) s = .ok (a, s) := rfl
  rw [h, Except.ok.injEq, Prod.mk.injEq]

@[simp] lemma throw_ne_ok {e : ε} {s : S} {x : α × S} : (throw e : Reader ε S α) s ≠ .ok x := by
  intro h
  cases h

/-- The reader `n` times in a row, the results in order. -/
def times (p : Reader ε S α) : ℕ → Reader ε S (List α)
  | 0 => pure []
  | n + 1 => do
    let a ← p
    let as ← times p n
    return a :: as

end Reader

open Reader

/-! ### Readers that undo an encoding -/

/-- The reader consumes exactly the encoding of its result. -/
def Sound (rest : S → List σ) (enc : α → List σ) (p : Reader ε S α) : Prop :=
  ∀ s a s', p s = .ok (a, s') → rest s = enc a ++ rest s'

/-- From every good state that starts with `w` the reader returns `a` and leaves the rest. -/
def Accepts (rest : S → List σ) (good : S → Prop) (p : Reader ε S α) (w : List σ) (a : α) :
    Prop :=
  ∀ s t, good s → rest s = w ++ t → ∃ s', p s = .ok (a, s') ∧ good s' ∧ rest s' = t

variable {rest : S → List σ} {good : S → Prop} {enc : α → List σ}

lemma accepts_pure (a : α) : Accepts rest good (pure a : Reader ε S α) [] a :=
  fun s _ hs ht => ⟨s, rfl, hs, by simpa using ht⟩

lemma Accepts.bind {p : Reader ε S α} {f : α → Reader ε S β} {w v : List σ} {a : α} {b : β}
    (hp : Accepts rest good p w a) (hf : Accepts rest good (f a) v b) :
    Accepts rest good (p >>= f) (w ++ v) b := by
  intro s t hs ht
  obtain ⟨s₁, h₁, hs₁, ht₁⟩ := hp s (v ++ t) hs (by rw [ht, List.append_assoc])
  obtain ⟨s₂, h₂, hs₂, ht₂⟩ := hf s₁ t hs₁ ht₁
  exact ⟨s₂, by rw [bind_of_ok h₁, h₂], hs₂, ht₂⟩

lemma Accepts.bind_nil {p : Reader ε S α} {f : α → Reader ε S β} {w : List σ} {a : α} {b : β}
    (hp : Accepts rest good p w a) (hf : Accepts rest good (f a) [] b) :
    Accepts rest good (p >>= f) w b := by
  simpa using hp.bind hf

lemma Accepts.bind_pure {p : Reader ε S α} {w : List σ} {a : α} (g : α → β)
    (hp : Accepts rest good p w a) :
    Accepts rest good (p >>= fun x => pure (g x)) w (g a) :=
  hp.bind_nil (accepts_pure (g a))

/-- Two words a reader accepts are not confused: where both could be read, they give the same
result and leave the same rest. -/
lemma Accepts.unique {p : Reader ε S α} {w w' t t' : List σ} {a a' : α} {s : S}
    (h : Accepts rest good p w a) (h' : Accepts rest good p w' a') (hs : good s)
    (ht : rest s = w ++ t) (ht' : rest s = w' ++ t') : a = a' ∧ t = t' := by
  obtain ⟨s₁, h₁, -, rfl⟩ := h s t hs ht
  obtain ⟨s₂, h₂, -, rfl⟩ := h' s t' hs ht'
  rw [h₁, Except.ok.injEq, Prod.mk.injEq] at h₂
  exact ⟨h₂.1, by rw [h₂.2]⟩

/-- A sound reader repeated `n` times reads `n` encodings one after the other. -/
lemma Sound.times {p : Reader ε S α} (hp : Sound rest enc p) {n : ℕ} {s s' : S} {as : List α}
    (h : p.times n s = .ok (as, s')) :
    as.length = n ∧ rest s = as.flatMap enc ++ rest s' := by
  induction n generalizing s as with
  | zero =>
    obtain ⟨rfl, rfl⟩ := pure_eq_ok.mp h
    simp
  | succ n ih =>
    obtain ⟨a, s₁, ha, h⟩ := bind_eq_ok.mp h
    obtain ⟨as', s₂, has, h⟩ := bind_eq_ok.mp h
    obtain ⟨rfl, rfl⟩ := pure_eq_ok.mp h
    obtain ⟨hlen, hrest⟩ := ih has
    refine ⟨by rw [List.length_cons, hlen], ?_⟩
    rw [hp s a s₁ ha, hrest, List.flatMap_cons, List.append_assoc]

/-- What holds of every result of a reader holds of all results of its repetition. -/
lemma Reader.times_forall {p : Reader ε S α} {P : α → Prop}
    (hp : ∀ s a s', p s = .ok (a, s') → P a) {n : ℕ} {s s' : S} {as : List α}
    (h : p.times n s = .ok (as, s')) : ∀ a ∈ as, P a := by
  induction n generalizing s as with
  | zero =>
    obtain ⟨rfl, rfl⟩ := pure_eq_ok.mp h
    simp
  | succ n ih =>
    obtain ⟨a, s₁, ha, h⟩ := bind_eq_ok.mp h
    obtain ⟨as', s₂, has, h⟩ := bind_eq_ok.mp h
    obtain ⟨rfl, rfl⟩ := pure_eq_ok.mp h
    intro b hb
    rcases List.mem_cons.mp hb with rfl | hb
    · exact hp s b s₁ ha
    · exact ih has b hb

lemma Accepts.times {p : Reader ε S α} {w : β → List σ} {g : β → α} {xs : List β}
    (h : ∀ x ∈ xs, Accepts rest good p (w x) (g x)) :
    Accepts rest good (p.times xs.length) (xs.flatMap w) (xs.map g) := by
  induction xs with
  | nil => exact accepts_pure []
  | cons x xs ih =>
    have hx := h x List.mem_cons_self
    have hxs := ih fun y hy => h y (List.mem_cons_of_mem _ hy)
    exact hx.bind (hxs.bind_pure fun as => g x :: as)

/-! ### Readers that make progress -/

/-- Where the reader succeeds the input has become smaller by at least `k`. -/
def Consumes (size : S → ℕ) (k : ℕ) (p : Reader ε S α) : Prop :=
  ∀ s a s', p s = .ok (a, s') → size s' + k ≤ size s

variable {size : S → ℕ}

lemma consumes_pure (a : α) : Consumes size 0 (pure a : Reader ε S α) := by
  intro s b s' h
  obtain ⟨-, rfl⟩ := pure_eq_ok.mp h
  exact le_rfl

lemma consumes_throw (e : ε) (k : ℕ) : Consumes size k (throw e : Reader ε S α) :=
  fun _ _ _ h => absurd h throw_ne_ok

lemma Consumes.mono {p : Reader ε S α} {j k : ℕ} (hp : Consumes size k p) (hjk : j ≤ k) :
    Consumes size j p :=
  fun s a s' h => (Nat.add_le_add_left hjk _).trans (hp s a s' h)

lemma Consumes.bind {p : Reader ε S α} {f : α → Reader ε S β} {j k : ℕ}
    (hp : Consumes size j p) (hf : ∀ a, Consumes size k (f a)) :
    Consumes size (j + k) (p >>= f) := by
  intro s b s' h
  obtain ⟨a, s₁, h₁, h₂⟩ := bind_eq_ok.mp h
  calc size s' + (j + k) = size s' + k + j := by rw [Nat.add_comm j k, Nat.add_assoc]
    _ ≤ size s₁ + j := Nat.add_le_add_right (hf a s₁ b s' h₂) j
    _ ≤ size s := hp s a s₁ h₁

lemma Consumes.times {p : Reader ε S α} (hp : Consumes size 0 p) (n : ℕ) :
    Consumes size 0 (p.times n) := by
  induction n with
  | zero => exact consumes_pure []
  | succ n ih => exact hp.bind fun a => ih.bind fun as => consumes_pure (a :: as)

/-- Two readers that do the same on every input of size at most `n`. -/
def AgreeUpTo (size : S → ℕ) (n : ℕ) (p q : Reader ε S α) : Prop :=
  ∀ s, size s ≤ n → p s = q s

lemma AgreeUpTo.mono {p q : Reader ε S α} {m n : ℕ} (h : AgreeUpTo size n p q) (hmn : m ≤ n) :
    AgreeUpTo size m p q :=
  fun s hs => h s (hs.trans hmn)

lemma AgreeUpTo.times {p q : Reader ε S α} {n : ℕ} (h : AgreeUpTo size n p q)
    (hp : Consumes size 0 p) (k : ℕ) : AgreeUpTo size n (p.times k) (q.times k) := by
  induction k with
  | zero => exact fun _ _ => rfl
  | succ k ih =>
    intro s hs
    refine bind_congr (h s hs) fun a s₁ h₁ => ?_
    have hs₁ := (hp s a s₁ h₁).trans hs
    exact bind_congr (ih s₁ hs₁) fun _ _ _ => rfl

end Identikey.Lib
