/-
Readers that say what they cost.

A metered reader returns, beside its result or its failure, what it has spent up to then.
`Implements lift p q` says that `p` does what the plain reader `q` does, its cost aside.

`Spends cost size k e p` bounds the cost by the input: a success spends at most what the
input became smaller by, less `k`, and a failure at most what was to be read and `e` more.
Along a `bind` the slack `k` adds up, and a failure of the second part may use what the
first has saved; so a loop of any announced length spends no more than there is to read.
-/
import Mathlib.Algebra.Group.Hom.Defs
import Mathlib.Algebra.Group.Nat.Defs
import Identikey.Lib.Reader

namespace Identikey.Lib

/-- A reader that also returns its cost, whether it fails or not. -/
def Metered (ε S M α : Type) := S → Except ε (α × S) × M

variable {ε ε' S M α β : Type}

namespace Metered

instance [AddZeroClass M] : Monad (Metered ε S M) where
  pure a := fun s => (.ok (a, s), 0)
  bind p f := fun s =>
    match p s with
    | (.ok (a, s'), m) => ((f a s').1, m + (f a s').2)
    | (.error e, m) => (.error e, m)

/-- A failure that costs nothing. -/
def fail [Zero M] (e : ε) : Metered ε S M α := fun _ => (.error e, 0)

/-- What is paid for. -/
def pay (m : M) : Metered ε S M Unit := fun s => (.ok ((), s), m)

/-- A plain reader, free of cost. -/
def free [Zero M] (lift : ε' → ε) (p : Reader ε' S α) : Metered ε S M α :=
  fun s => ((p s).mapError lift, 0)

variable [AddZeroClass M]

/-- The reader `n` times in a row, the results in order. -/
def times (p : Metered ε S M α) : ℕ → Metered ε S M (List α)
  | 0 => pure []
  | n + 1 => do
    let a ← p
    let as ← times p n
    return a :: as

lemma bind_of_ok {p : Metered ε S M α} {f : α → Metered ε S M β} {s s' : S} {a : α} {m : M}
    (h : p s = (.ok (a, s'), m)) : (p >>= f) s = ((f a s').1, m + (f a s').2) := by
  have hb : (p >>= f) s = match p s with
      | (.ok (a, s'), m) => ((f a s').1, m + (f a s').2)
      | (.error e, m) => (.error e, m) := rfl
  rw [hb, h]

lemma bind_of_error {p : Metered ε S M α} {f : α → Metered ε S M β} {s : S} {e : ε} {m : M}
    (h : p s = (.error e, m)) : (p >>= f) s = (.error e, m) := by
  have hb : (p >>= f) s = match p s with
      | (.ok (a, s'), m) => ((f a s').1, m + (f a s').2)
      | (.error e, m) => (.error e, m) := rfl
  rw [hb, h]

/-! ### What a metered reader does -/

/-- The metered reader does on the state what the plain one does. -/
def ImplementsAt (lift : ε' → ε) (p : Metered ε S M α) (q : Reader ε' S α) (s : S) : Prop :=
  (p s).1 = (q s).mapError lift

/-- The metered reader does what the plain one does. -/
def Implements (lift : ε' → ε) (p : Metered ε S M α) (q : Reader ε' S α) : Prop :=
  ∀ s, ImplementsAt lift p q s

variable {lift : ε' → ε} {p : Metered ε S M α} {q : Reader ε' S α}

lemma implements_pure (a : α) : Implements lift (pure a : Metered ε S M α) (pure a) := fun _ => rfl

lemma implements_fail (e : ε') :
    Implements lift (fail (lift e) : Metered ε S M α) (throw e) := fun _ => rfl

lemma implements_free (q : Reader ε' S α) : Implements lift (free lift q : Metered ε S M α) q :=
  fun _ => rfl

/-- The second part need only follow where the first one leads. -/
lemma ImplementsAt.bind {f : α → Metered ε S M β} {g : α → Reader ε' S β} {s : S}
    (hp : ImplementsAt lift p q s)
    (hf : ∀ a s', q s = .ok (a, s') → ImplementsAt lift (f a) (g a) s') :
    ImplementsAt lift (p >>= f) (q >>= g) s := by
  have hq : (q >>= g) s = (q s).bind fun y => g y.1 y.2 := rfl
  unfold ImplementsAt at hp ⊢
  rw [hq]
  cases hqs : q s with
  | error e =>
    rw [hqs] at hp
    rw [bind_of_error (Prod.ext hp rfl)]
    rfl
  | ok x =>
    rw [hqs] at hp
    rw [bind_of_ok (Prod.ext hp rfl)]
    exact hf x.1 x.2 hqs

lemma Implements.bind {f : α → Metered ε S M β} {g : α → Reader ε' S β} (hp : Implements lift p q)
    (hf : ∀ a, Implements lift (f a) (g a)) : Implements lift (p >>= f) (q >>= g) :=
  fun s => (hp s).bind fun a s' _ => hf a s'

lemma ImplementsAt.pure_bind {f : β → Metered ε S M α} {b : β} {s : S}
    (hf : ImplementsAt lift (f b) q s) : ImplementsAt lift (pure b >>= f) q s := by
  have hpure : (pure b : Metered ε S M β) s = (.ok (b, s), 0) := rfl
  unfold ImplementsAt
  rw [bind_of_ok hpure]
  exact hf

/-- What is paid changes nothing. -/
lemma Implements.pay_bind (m : M) (hp : Implements lift p q) :
    Implements lift (pay m >>= fun _ => p) q := by
  intro s
  have hpay : (pay m : Metered ε S M Unit) s = (.ok ((), s), m) := rfl
  unfold ImplementsAt
  rw [bind_of_ok hpay]
  exact hp s

lemma Implements.times (hp : Implements lift p q) (n : ℕ) :
    Implements lift (p.times n) (q.times n) := by
  induction n with
  | zero => exact implements_pure []
  | succ n ih => exact hp.bind fun a => ih.bind fun as => implements_pure (a :: as)

/-! ### What it costs -/

/-- A success spends at most what the input became smaller by, less `k`; a failure at most what was
to be read, and `e` more. -/
structure Spends (cost : M →+ ℕ) (size : S → ℕ) (k e : ℤ) (p : Metered ε S M α) : Prop where
  ok : ∀ s a s' m, p s = (.ok (a, s'), m) → (cost m + size s' : ℤ) + k ≤ size s
  error : ∀ s x m, p s = (.error x, m) → (cost m : ℤ) ≤ size s + e

variable {cost : M →+ ℕ} {size : S → ℕ} {k k' e e' : ℤ}

lemma spends_pure (a : α) (e : ℤ) : Spends cost size 0 e (pure a : Metered ε S M α) := by
  constructor
  · rintro s b s' m ⟨⟩
    simp
  · rintro s x m ⟨⟩

lemma spends_fail (x : ε) (k : ℤ) : Spends cost size k 0 (fail x : Metered ε S M α) := by
  constructor
  · rintro s b s' m ⟨⟩
  · rintro s y m ⟨⟩
    simp

lemma spends_pay (m : M) (e : ℤ) :
    Spends cost size (-cost m) e (pay m : Metered ε S M Unit) := by
  constructor
  · rintro s a s' m' ⟨⟩
    omega
  · rintro s x m' ⟨⟩

lemma spends_free {q : Reader ε' S α} {k : ℕ} (hq : Consumes size k q) :
    Spends cost size k 0 (free lift q : Metered ε S M α) := by
  constructor
  · intro s a s' m h
    obtain ⟨hresult, rfl⟩ := Prod.mk.inj h
    cases hqs : q s with
    | error e =>
      rw [hqs] at hresult
      cases hresult
    | ok x =>
      rw [hqs] at hresult
      obtain rfl := Except.ok.inj hresult
      have hle := hq s a s' hqs
      rw [map_zero]
      omega
  · intro s x m h
    obtain ⟨-, rfl⟩ := Prod.mk.inj h
    simp

lemma Spends.mono (hp : Spends cost size k e p) (hk : k' ≤ k) (he : e ≤ e') :
    Spends cost size k' e' p := by
  constructor
  · intro s a s' m h
    have := hp.ok s a s' m h
    omega
  · intro s x m h
    have := hp.error s x m h
    omega

/-- What the first part has saved the second may spend. -/
lemma Spends.bind {k₁ k₂ e₁ e₂ : ℤ} {f : α → Metered ε S M β} (hp : Spends cost size k₁ e₁ p)
    (hf : ∀ a, Spends cost size k₂ e₂ (f a)) :
    Spends cost size (k₁ + k₂) (max e₁ (e₂ - k₁)) (p >>= f) := by
  constructor
  · intro s b s' m h
    rcases hps : p s with ⟨x | ⟨a, s₁⟩, m₁⟩
    · rw [bind_of_error hps] at h
      cases h
    · rw [bind_of_ok hps] at h
      obtain ⟨hresult, rfl⟩ := Prod.mk.inj h
      have hfirst := hp.ok s a s₁ m₁ hps
      have hsecond := (hf a).ok s₁ b s' (f a s₁).2 (Prod.ext hresult rfl)
      rw [map_add]
      omega
  · intro s x m h
    rcases hps : p s with ⟨y | ⟨a, s₁⟩, m₁⟩
    · rw [bind_of_error hps] at h
      obtain ⟨-, rfl⟩ := Prod.mk.inj h
      have hfirst := hp.error s y m₁ hps
      omega
    · rw [bind_of_ok hps] at h
      obtain ⟨hresult, rfl⟩ := Prod.mk.inj h
      have hfirst := hp.ok s a s₁ m₁ hps
      have hsecond := (hf a).error s₁ x (f a s₁).2 (Prod.ext hresult rfl)
      rw [map_add]
      omega

/-- What follows needs nothing. -/
lemma Spends.bind_zero {f : α → Metered ε S M β} (hp : Spends cost size k e p) (hke : 0 ≤ k + e)
    (hf : ∀ a, Spends cost size 0 0 (f a)) : Spends cost size k e (p >>= f) :=
  (hp.bind hf).mono (by omega) (by omega)

/-- However often a part is repeated, it spends what there is to read and the last failure. -/
lemma Spends.times (hp : Spends cost size 0 e p) (n : ℕ) :
    Spends cost size 0 e (p.times n) := by
  induction n with
  | zero => exact spends_pure [] e
  | succ n ih =>
    have hrest : ∀ a : α, Spends cost size 0 e
        ((p.times n) >>= fun as => pure (a :: as) : Metered ε S M (List α)) := fun a =>
      (ih.bind fun as => spends_pure (a :: as) e).mono (by omega) (by omega)
    exact (hp.bind hrest).mono (by omega) (by omega)

/-- What is spent is not negative, so that a success makes the input smaller by the slack. -/
lemma Spends.size_le (hp : Spends cost size k e p) {s s' : S} {a : α} {m : M}
    (h : p s = (.ok (a, s'), m)) : size s' + k ≤ size s := by
  have := hp.ok s a s' m h
  omega

/-! ### Readers that do the same up to a size -/

/-- Two metered readers that do the same on every input of size at most `n`. -/
def AgreeUpTo (size : S → ℕ) (n : ℤ) (p p' : Metered ε S M α) : Prop :=
  ∀ s, (size s : ℤ) ≤ n → p s = p' s

lemma AgreeUpTo.bind {n j : ℤ} {p p' : Metered ε S M α} {f f' : α → Metered ε S M β}
    (hp : AgreeUpTo size n p p') (hspends : Spends cost size k e p) (hn : n - k ≤ j)
    (hf : ∀ a, AgreeUpTo size j (f a) (f' a)) : AgreeUpTo size n (p >>= f) (p' >>= f') := by
  intro s hs
  rcases hps : p s with ⟨x | ⟨a, s₁⟩, m⟩
  · rw [bind_of_error hps, bind_of_error ((hp s hs).symm.trans hps)]
  · have hle := hspends.size_le hps
    rw [bind_of_ok hps, bind_of_ok ((hp s hs).symm.trans hps), hf a s₁ (by omega)]

lemma AgreeUpTo.pay_bind {n : ℤ} {p p' : Metered ε S M α} (m : M) (h : AgreeUpTo size n p p') :
    AgreeUpTo size n (pay m >>= fun _ => p) (pay m >>= fun _ => p') := by
  intro s hs
  have hpay : (pay m : Metered ε S M Unit) s = (.ok ((), s), m) := rfl
  rw [bind_of_ok hpay, bind_of_ok hpay, h s hs]

omit [AddZeroClass M] in
lemma agreeUpTo_refl (n : ℤ) (p : Metered ε S M α) : AgreeUpTo size n p p := fun _ _ => rfl

lemma AgreeUpTo.times {n : ℤ} {p p' : Metered ε S M α} (h : AgreeUpTo size n p p')
    (hspends : Spends cost size 0 e p) (count : ℕ) :
    AgreeUpTo size n (p.times count) (p'.times count) := by
  induction count with
  | zero => exact agreeUpTo_refl n _
  | succ count ih =>
    refine h.bind (j := n) hspends (by omega) fun a => ?_
    exact ih.bind (j := n) (hspends.times count) (by omega) fun as => agreeUpTo_refl _ _

end Metered

end Identikey.Lib
