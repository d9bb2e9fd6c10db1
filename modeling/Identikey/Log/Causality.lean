/-
Many authors with hybrid clocks.

Each author has a clock of its own, issues ops, and observes the ops of others in whatever order
and as often as they come in.  An op is caused by the ops that its author had issued or observed
before, and by their causes.  While there is room below the greatest `u64`, readings respect this
order (`readings_respect_causes`): no op is at or before one of its causes.
-/
import Mathlib.Logic.Relation
import Identikey.Log.Hlc

namespace Identikey.Log

open Lib

/-- `Hlc::concurrent_with`. -/
def Hlc.concurrentWith (self other : Hlc) : Bool := self = other

lemma Hlc.Before.trans {a b c : Hlc} (hab : a.Before b) (hbc : b.Before c) : a.Before c := by
  rcases hab with hab | ⟨hl, hab⟩
  · rcases hbc with hbc | ⟨hl', -⟩
    · exact .inl (UInt64.lt_trans hab hbc)
    · exact .inl (hl' ▸ hab)
  · rcases hbc with hbc | ⟨hl', hbc⟩
    · exact .inl (hl ▸ hbc)
    · exact .inr ⟨hl.trans hl', UInt64.lt_trans hab hbc⟩

lemma Hlc.not_before_self (a : Hlc) : ¬ a.Before a := by
  rintro (h | ⟨-, h⟩) <;> exact UInt64.lt_irrefl _ h

/-- An op that was issued: its reading, the wall clock it was issued at, and the ops that the
author had issued or observed, by their numbers. -/
structure Issued (N : Type) where
  author : N
  hlc : Hlc
  wall : UInt64
  known : List ℕ

/-- The authors' clocks, the ops that each of them has issued or observed, and all ops in the order
of issue. -/
structure Authors (N : Type) where
  clock : N → Hlc
  known : N → List ℕ
  ops : List (Issued N)

/-- What happens: an author issues an op, or observes the op of a number. -/
inductive AuthorEvent (N : Type) where
  | issue (author : N) (localWallMs : UInt64)
  | observe (author : N) (op : ℕ)

namespace Authors

variable {N : Type}

/-- Nobody has issued anything. -/
def start : Authors N := { clock := fun _ => .default, known := fun _ => [], ops := [] }

section Run

variable [DecidableEq N]

/-- One event; an op that was not issued cannot be observed. -/
def step (w : Authors N) : AuthorEvent N → Authors N
  | .issue author localWallMs =>
    let hlc := (w.clock author).next localWallMs
    { clock := Function.update w.clock author hlc
      known := Function.update w.known author (w.known author ++ [w.ops.length])
      ops := w.ops ++ [{ author, hlc, wall := localWallMs, known := w.known author }] }
  | .observe author op =>
    match w.ops[op]? with
    | none => w
    | some o =>
      { clock := Function.update w.clock author ((w.clock author).observe o.hlc)
        known := Function.update w.known author (w.known author ++ [op])
        ops := w.ops }

def run (events : List (AuthorEvent N)) : Authors N := events.foldl step start

end Run

/-- The author of the second op had issued or observed the first one. -/
def Direct (w : Authors N) (i j : ℕ) : Prop := ∃ b, w.ops[j]? = some b ∧ i ∈ b.known

/-- The first op is a cause of the second. -/
def Causes (w : Authors N) : ℕ → ℕ → Prop := Relation.TransGen w.Direct

/-! ### What every event keeps -/

/-- While wall clocks are at most `wall`, the clocks are ahead of all that their authors know, and
each op is one past what its author knew, and not far past the wall clocks. -/
structure Inv (wall : ℕ) (w : Authors N) : Prop where
  known : ∀ n, ∀ i ∈ w.known n, ∃ a, w.ops[i]? = some a ∧ a.hlc.l ≤ (w.clock n).l
  causes : ∀ (j : ℕ) b, w.ops[j]? = some b → ∀ i ∈ b.known,
    ∃ a, w.ops[i]? = some a ∧ a.hlc.l < b.hlc.l
  clock : ∀ n, (w.clock n).l.toNat ≤ wall + w.ops.length
  reading : ∀ (j : ℕ) b, w.ops[j]? = some b →
    b.hlc.c = 0 ∧ b.wall < b.hlc.l ∧ b.hlc.l.toNat ≤ wall + j + 1

lemma inv_start (wall : ℕ) : (start : Authors N).Inv wall where
  known _ _ h := by cases h
  causes _ _ h := by cases h
  clock _ := Nat.zero_le _
  reading _ _ h := by cases h

section Step

variable [DecidableEq N] {w : Authors N} {wall : ℕ}

lemma getElem?_ops_issue {author : N} {localWallMs : UInt64} {j : ℕ} {b : Issued N}
    (h : (w.step (.issue author localWallMs)).ops[j]? = some b) : w.ops[j]? = some b ∨
      j = w.ops.length ∧ b = { author, hlc := (w.clock author).next localWallMs,
                               wall := localWallMs, known := w.known author } := by
  change (w.ops ++ [_])[j]? = some b at h
  rcases Nat.lt_trichotomy j w.ops.length with hlt | rfl | hgt
  · rw [List.getElem?_append_left hlt] at h
    exact .inl h
  · rw [List.getElem?_append_right le_rfl, Nat.sub_self] at h
    exact .inr ⟨rfl, (Option.some.inj h).symm⟩
  · have hnone : w.ops.length + 1 ≤ j := hgt
    rw [List.getElem?_eq_none (by rw [List.length_append, List.length_singleton]; exact hnone)] at h
    cases h

/-- An op stays where it is. -/
lemma getElem?_ops_step {event : AuthorEvent N} {i : ℕ} {a : Issued N}
    (h : w.ops[i]? = some a) : (w.step event).ops[i]? = some a := by
  cases event with
  | issue author localWallMs =>
    show (w.ops ++ [_])[i]? = some a
    rw [List.getElem?_append_left (List.getElem?_eq_some_iff.mp h).1, h]
  | observe author op =>
    rw [step]
    cases w.ops[op]? <;> exact h

/-- A clock never goes back. -/
lemma le_clock_step (event : AuthorEvent N) (n : N) :
    (w.clock n).l ≤ ((w.step event).clock n).l := by
  cases event with
  | issue author localWallMs =>
    show _ ≤ (Function.update w.clock author _ n).l
    by_cases hn : n = author
    · subst hn
      rw [Function.update_self]
      exact Hlc.le_next
    · rw [Function.update_of_ne hn]
      exact UInt64.le_refl _
  | observe author op =>
    rw [step]
    cases w.ops[op]? with
    | none => exact UInt64.le_refl _
    | some o =>
      show _ ≤ (Function.update w.clock author _ n).l
      by_cases hn : n = author
      · subst hn
        rw [Function.update_self]
        exact Hlc.le_observe.1
      · rw [Function.update_of_ne hn]
        exact UInt64.le_refl _

/-- Issuing keeps the invariant while there is room above the clocks. -/
lemma Inv.issue (h : w.Inv wall) {author : N} {localWallMs : UInt64}
    (hwall : localWallMs.toNat ≤ wall) (hroom : wall + w.ops.length < MAX.toNat) :
    (w.step (.issue author localWallMs)).Inv wall := by
  have hclock := h.clock author
  have hnext := @Hlc.toNat_next (w.clock author) localWallMs
  have hfit : ((w.clock author).next localWallMs).l.toNat =
      max localWallMs.toNat (w.clock author).l.toNat + 1 := by omega
  have hlt : (w.clock author).l < ((w.clock author).next localWallMs).l := by
    rw [UInt64.lt_iff_toNat_lt]
    omega
  refine ⟨?_, ?_, ?_, ?_⟩
  · intro n i hi
    change i ∈ Function.update w.known author _ n at hi
    have hold : i ∈ w.known n → ∃ a, (w.step (.issue author localWallMs)).ops[i]? = some a ∧
        a.hlc.l ≤ ((w.step (.issue author localWallMs)).clock n).l := by
      intro hi
      obtain ⟨a, ha, hle⟩ := h.known n i hi
      exact ⟨a, getElem?_ops_step ha, UInt64.le_trans hle (le_clock_step _ n)⟩
    by_cases hn : n = author
    · subst hn
      rw [Function.update_self] at hi
      rcases List.mem_append.mp hi with hi | hi
      · exact hold hi
      · obtain rfl := List.mem_singleton.mp hi
        refine ⟨_, List.getElem?_concat_length, ?_⟩
        show _ ≤ (Function.update w.clock n _ n).l
        rw [Function.update_self]
        exact UInt64.le_refl _
    · rw [Function.update_of_ne hn] at hi
      exact hold hi
  · intro j b hb i hi
    rcases getElem?_ops_issue hb with hold | ⟨rfl, rfl⟩
    · obtain ⟨a, ha, hbefore⟩ := h.causes j b hold i hi
      exact ⟨a, getElem?_ops_step ha, hbefore⟩
    · obtain ⟨a, ha, hle⟩ := h.known author i hi
      exact ⟨a, getElem?_ops_step ha, UInt64.lt_of_le_of_lt hle hlt⟩
  · intro n
    show (Function.update w.clock author _ n).l.toNat ≤ wall + (w.ops ++ [_]).length
    rw [List.length_append, List.length_singleton]
    by_cases hn : n = author
    · subst hn
      rw [Function.update_self]
      omega
    · rw [Function.update_of_ne hn]
      have := h.clock n
      omega
  · intro j b hb
    rcases getElem?_ops_issue hb with hold | ⟨rfl, rfl⟩
    · exact h.reading j b hold
    · refine ⟨rfl, ?_, ?_⟩
      · show localWallMs < ((w.clock author).next localWallMs).l
        rw [UInt64.lt_iff_toNat_lt]
        omega
      · show ((w.clock author).next localWallMs).l.toNat ≤ _
        omega

/-- Observing an op keeps the invariant. -/
lemma Inv.observe (h : w.Inv wall) {author : N} {op : ℕ} :
    (w.step (.observe author op)).Inv wall := by
  cases hop : w.ops[op]? with
  | none =>
    have hstay : w.step (.observe author op) = w := by rw [step, hop]
    rw [hstay]
    exact h
  | some o =>
    have hstep : w.step (.observe author op) =
        { clock := Function.update w.clock author ((w.clock author).observe o.hlc)
          known := Function.update w.known author (w.known author ++ [op])
          ops := w.ops } := by rw [step, hop]
    refine ⟨?_, ?_, ?_, ?_⟩
    · intro n i hi
      have hold : i ∈ w.known n → ∃ a, (w.step (.observe author op)).ops[i]? = some a ∧
          a.hlc.l ≤ ((w.step (.observe author op)).clock n).l := by
        intro hi
        obtain ⟨a, ha, hle⟩ := h.known n i hi
        exact ⟨a, getElem?_ops_step ha, UInt64.le_trans hle (le_clock_step _ n)⟩
      rw [hstep] at hi
      change i ∈ Function.update w.known author _ n at hi
      by_cases hn : n = author
      · subst hn
        rw [Function.update_self] at hi
        rcases List.mem_append.mp hi with hi | hi
        · exact hold hi
        · obtain rfl := List.mem_singleton.mp hi
          refine ⟨o, getElem?_ops_step hop, ?_⟩
          rw [hstep]
          show _ ≤ (Function.update w.clock n _ n).l
          rw [Function.update_self]
          exact Hlc.le_observe.2
      · rw [Function.update_of_ne hn] at hi
        exact hold hi
    · rw [hstep]
      exact h.causes
    · intro n
      rw [hstep]
      show (Function.update w.clock author _ n).l.toNat ≤ wall + w.ops.length
      by_cases hn : n = author
      · subst hn
        rw [Function.update_self, Hlc.toNat_observe]
        have hlt := (List.getElem?_eq_some_iff.mp hop).1
        have hread := (h.reading op o hop).2.2
        have := h.clock n
        omega
      · rw [Function.update_of_ne hn]
        exact h.clock n
    · rw [hstep]
      exact h.reading

/-- Every event issues one op at most. -/
lemma length_step_le (event : AuthorEvent N) :
    (w.step event).ops.length ≤ w.ops.length + 1 := by
  cases event with
  | issue author localWallMs => exact (List.length_append ..).le
  | observe author op =>
    rw [step]
    cases w.ops[op]? <;> exact Nat.le_succ _

end Step

section Runs

variable [DecidableEq N] {wall : ℕ} {events : List (AuthorEvent N)}

/-- The invariant holds after every run that leaves room. -/
lemma inv_run (hwall : ∀ n t, .issue n t ∈ events → t.toNat ≤ wall)
    (hroom : wall + events.length ≤ MAX.toNat) :
    (run events).Inv wall ∧ (run events).ops.length ≤ events.length := by
  induction events using List.reverseRecOn with
  | nil => exact ⟨inv_start wall, le_rfl⟩
  | append_singleton events event ih =>
    rw [List.length_append, List.length_singleton] at hroom ⊢
    obtain ⟨hinv, hlen⟩ := ih (fun n t h => hwall n t (List.mem_append_left _ h)) (by omega)
    rw [run, run_snoc]
    change (step (run events) event).Inv wall ∧ (step (run events) event).ops.length ≤ _
    refine ⟨?_, (length_step_le event).trans (Nat.succ_le_succ hlen)⟩
    cases event with
    | issue n t =>
      exact hinv.issue (hwall n t (List.mem_append_right _ (List.mem_singleton_self _))) (by omega)
    | observe n i => exact hinv.observe

/-- **Readings respect causes.**  Any number of authors issue and observe ops in any order, with
wall clocks up to `wall` that may stand still, jump and disagree, and fewer events than there is
room above.  Then every op is after each of its causes, however indirect; ops that are concurrent
by their readings are no causes of each other; and a reading is ahead of its author's wall clock,
and ahead of all wall clocks by no more than the number of ops. -/
theorem readings_respect_causes (hwall : ∀ n t, .issue n t ∈ events → t.toNat ≤ wall)
    (hroom : wall + events.length ≤ MAX.toNat) :
    (∀ i j, (run events).Causes i j → ∃ a b, (run events).ops[i]? = some a ∧
      (run events).ops[j]? = some b ∧ a.hlc.Before b.hlc) ∧
    (∀ i j a b, (run events).ops[i]? = some a → (run events).ops[j]? = some b →
      a.hlc.concurrentWith b.hlc = true → ¬ (run events).Causes i j) ∧
    ∀ j b, (run events).ops[j]? = some b →
      b.wall < b.hlc.l ∧ b.hlc.l.toNat ≤ wall + j + 1 := by
  obtain ⟨hinv, -⟩ := inv_run hwall hroom
  have hcauses : ∀ i j, (run events).Causes i j → ∃ a b, (run events).ops[i]? = some a ∧
      (run events).ops[j]? = some b ∧ a.hlc.Before b.hlc := by
    have hdirect : ∀ i j, (run events).Direct i j → ∃ a b, (run events).ops[i]? = some a ∧
        (run events).ops[j]? = some b ∧ a.hlc.Before b.hlc := by
      rintro i j ⟨b, hb, hi⟩
      obtain ⟨a, ha, hlt⟩ := hinv.causes j b hb i hi
      exact ⟨a, b, ha, hb, .inl hlt⟩
    intro i j hcause
    induction hcause with
    | single h => exact hdirect _ _ h
    | tail _ h ih =>
      obtain ⟨a, b, ha, hb, hbefore⟩ := ih
      obtain ⟨b', c, hb', hc, hnext⟩ := hdirect _ _ h
      obtain rfl := Option.some.inj (hb.symm.trans hb')
      exact ⟨a, c, ha, hc, hbefore.trans hnext⟩
  refine ⟨hcauses, ?_, fun j b hb => (hinv.reading j b hb).2⟩
  intro i j a b ha hb hsame hcause
  obtain ⟨a', b', ha', hb', hbefore⟩ := hcauses i j hcause
  obtain rfl := Option.some.inj (ha.symm.trans ha')
  obtain rfl := Option.some.inj (hb.symm.trans hb')
  rw [of_decide_eq_true hsame] at hbefore
  exact Hlc.not_before_self _ hbefore

end Runs

/-- An op that crosses from an author with a fast clock to one with a slow clock. -/
def sampleAuthorEvents : List (AuthorEvent Bool) :=
  [.issue true 1000, .issue false 10, .observe false 0, .issue false 20]

/-- The answer of the slow author is after the op that it answers. -/
theorem readings_respect_causes_sample :
    ((run sampleAuthorEvents).ops.map fun a => (a.author, a.hlc)) =
        [(true, { l := 1001, c := 0 }), (false, { l := 11, c := 0 }),
          (false, { l := 1002, c := 0 })] ∧
      ∃ a b, (run sampleAuthorEvents).ops[0]? = some a ∧
        (run sampleAuthorEvents).ops[2]? = some b ∧ a.hlc.Before b.hlc := by
  have hwall : ∀ n t, AuthorEvent.issue n t ∈ sampleAuthorEvents → t.toNat ≤ 1000 := by
    intro n t h
    simp only [sampleAuthorEvents, List.mem_cons, AuthorEvent.issue.injEq, reduceCtorEq,
      List.not_mem_nil, or_false, false_or] at h
    rcases h with ⟨-, rfl⟩ | ⟨-, rfl⟩ | ⟨-, rfl⟩ <;> decide
  have hdirect : (run sampleAuthorEvents).Direct 0 2 := ⟨_, rfl, by decide⟩
  exact ⟨rfl, (readings_respect_causes hwall (by decide)).1 0 2 (.single hdirect)⟩

end Authors

end Identikey.Log
