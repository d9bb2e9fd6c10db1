/-
Garbage collection of nonces is not seen from outside.

A store that drops expired entries now and then is compared with one that keeps all of
them.  As time does not run backwards, what was dropped has expired for every later
`consume`, so that both refuse it, the one as a replay and the other for its time.
-/
import Identikey.Auth.Nonce

namespace Identikey.Auth

/-- An operation on a nonce store. -/
inductive StoreOp where
  | recordIssued (nonce : Bytes) (expiresAt : UInt64)
  | consume (nonce : Bytes) (now : UInt64)
  | gc (now : UInt64)
deriving DecidableEq, Repr

namespace StoreOp

/-- The time that the operation is given. -/
def time : StoreOp → Option UInt64
  | recordIssued _ _ => none
  | consume _ now => some now
  | gc now => some now

def isGc : StoreOp → Bool
  | gc _ => true
  | _ => false

/-- The store after the operation. -/
def apply (s : InMemoryNonceStore) : StoreOp → InMemoryNonceStore
  | recordIssued nonce expiresAt => s.recordIssued nonce expiresAt
  | consume nonce now => (s.consume nonce now).2
  | gc now => s.gc now

/-- Whether a `consume` is accepted. -/
def outcome (s : InMemoryNonceStore) : StoreOp → Option Bool
  | consume nonce now => some (s.consume nonce now).1.isOk
  | _ => none

end StoreOp

/-- Which of the `consume` operations of a run are accepted, in order. -/
def outcomes (s : InMemoryNonceStore) : List StoreOp → List Bool
  | [] => []
  | op :: ops => (op.outcome s).toList ++ outcomes (op.apply s) ops

/-- The times of the operations never decrease. -/
def Ordered (ops : List StoreOp) : Prop := (ops.filterMap StoreOp.time).Pairwise (· ≤ ·)

instance (ops : List StoreOp) : Decidable (Ordered ops) :=
  inferInstanceAs (Decidable (List.Pairwise _ _))

/-- The operations of a run that are not `gc`. -/
def withoutGc (ops : List StoreOp) : List StoreOp := ops.filter fun op => !op.isGc

/-! ### A store that forgets -/

/-- The store has the entries of `full`, but for some that expired before `now`. -/
def Forgets (now : UInt64) (s full : InMemoryNonceStore) : Prop :=
  ∀ n, s.issued n = full.issued n ∨
    s.issued n = none ∧ ∃ expiresAt used, full.issued n = some (expiresAt, used) ∧ expiresAt < now

variable {t now : UInt64} {s full : InMemoryNonceStore}

lemma Forgets.refl (t : UInt64) (s : InMemoryNonceStore) : Forgets t s s := fun _ => .inl rfl

lemma Forgets.mono (h : Forgets t s full) (hle : t ≤ now) : Forgets now s full := by
  intro n
  refine (h n).imp_right fun hdropped => ?_
  obtain ⟨hnone, expiresAt, used, hentry, hexpired⟩ := hdropped
  exact ⟨hnone, expiresAt, used, hentry, UInt64.lt_of_lt_of_le hexpired hle⟩

lemma Forgets.insert (h : Forgets t s full) (nonce : Bytes) (entry : UInt64 × Bool) :
    Forgets t (s.insert nonce entry) (full.insert nonce entry) := by
  intro n
  by_cases hn : n = nonce
  · subst hn
    exact .inl (by rw [InMemoryNonceStore.insert_self, InMemoryNonceStore.insert_self])
  · rw [InMemoryNonceStore.insert_of_ne _ _ hn, InMemoryNonceStore.insert_of_ne _ _ hn]
    exact h n

lemma gc_issued (s : InMemoryNonceStore) (now : UInt64) (n : Bytes) :
    (s.gc now).issued n = (s.issued n).filter fun entry => entry.1 ≥ now := rfl

/-- Collection drops what has expired, and nothing else. -/
lemma Forgets.gc (h : Forgets t s full) (hle : t ≤ now) : Forgets now (s.gc now) full := by
  intro n
  rcases h.mono hle n with hsame | ⟨hnone, hexpired⟩
  · rcases hentry : full.issued n with _ | ⟨expiresAt, used⟩
    · exact .inl (by rw [gc_issued, hsame, hentry]; rfl)
    · by_cases hlive : now ≤ expiresAt
      · left
        rw [gc_issued, hsame, hentry, Option.filter_some, if_pos (decide_eq_true hlive)]
      · right
        refine ⟨?_, expiresAt, used, rfl, UInt64.not_le.mp hlive⟩
        rw [gc_issued, hsame, hentry, Option.filter_some, if_neg (by simpa using hlive)]
  · refine .inr ⟨?_, hexpired⟩
    rw [gc_issued, hnone]
    rfl

/-- A nonce that has expired is refused and left alone. -/
lemma consume_of_expired {nonce : Bytes} {expiresAt : UInt64} {used : Bool}
    (hentry : s.issued nonce = some (expiresAt, used)) (hexpired : expiresAt < now) :
    ∃ e, s.consume nonce now = (.error e, s) := by
  unfold InMemoryNonceStore.consume
  rw [hentry]
  cases used with
  | true => exact ⟨_, rfl⟩
  | false => exact ⟨.timeWindow, if_pos hexpired⟩

/-- **Both stores give one answer**, and one still has the entries of the other. -/
lemma Forgets.consume (h : Forgets t s full) (hle : t ≤ now) (nonce : Bytes) :
    (s.consume nonce now).1.isOk = (full.consume nonce now).1.isOk ∧
      Forgets now (s.consume nonce now).2 (full.consume nonce now).2 := by
  have hnow := h.mono hle
  rcases h nonce with hsame | ⟨hnone, expiresAt, used, hentry, hexpired⟩
  · unfold InMemoryNonceStore.consume
    rw [hsame]
    rcases full.issued nonce with _ | ⟨expiresAt, used⟩
    · exact ⟨rfl, hnow⟩
    · dsimp only
      split_ifs
      · exact ⟨rfl, hnow⟩
      · exact ⟨rfl, hnow⟩
      · exact ⟨rfl, hnow.insert _ _⟩
  · -- what was dropped is a replay here and has expired there
    obtain ⟨e, hrefused⟩ := consume_of_expired hentry (UInt64.lt_of_lt_of_le hexpired hle)
    have hreplay : s.consume nonce now = (.error .nonceReplay, s) := by
      rw [InMemoryNonceStore.consume, hnone]
    rw [hrefused, hreplay]
    exact ⟨rfl, hnow⟩

/-! ### Runs -/

/-- **A run has the outcomes of the run that never collects.** -/
lemma outcomes_withoutGc {ops : List StoreOp} (h : Forgets t s full)
    (hordered : (t :: ops.filterMap StoreOp.time).Pairwise (· ≤ ·)) :
    outcomes s ops = outcomes full (withoutGc ops) := by
  induction ops generalizing t s full with
  | nil => rfl
  | cons op ops ih =>
    cases op with
    | recordIssued nonce expiresAt =>
      exact ih (h.insert nonce (expiresAt, false)) hordered
    | consume nonce now =>
      obtain ⟨hle, hrest⟩ := List.pairwise_cons.mp hordered
      obtain ⟨hsame, hnext⟩ := h.consume (hle now List.mem_cons_self) nonce
      have houtcomes := ih hnext hrest
      simp only [outcomes, withoutGc, StoreOp.outcome, StoreOp.apply, StoreOp.isGc, hsame,
        List.filter_cons, Bool.not_false, if_true] at houtcomes ⊢
      rw [houtcomes]
    | gc now =>
      obtain ⟨hle, hrest⟩ := List.pairwise_cons.mp hordered
      exact ih (h.gc (hle now List.mem_cons_self)) hrest

/-- **Garbage collection is invisible.**  Two runs that differ in their `gc` operations only, and
whose times never decrease, accept and refuse the same of their `consume` operations. -/
theorem gc_invisible (s : InMemoryNonceStore) {ops ops' : List StoreOp} (h : Ordered ops)
    (h' : Ordered ops') (hsame : withoutGc ops = withoutGc ops') :
    outcomes s ops = outcomes s ops' := by
  have hstart : ∀ {ops : List StoreOp}, Ordered ops →
      outcomes s ops = outcomes s (withoutGc ops) := fun hops =>
    outcomes_withoutGc (Forgets.refl 0 s)
      (List.pairwise_cons.mpr ⟨fun _ _ => UInt64.zero_le, hops⟩)
  rw [hstart h, hstart h', hsame]

/-- A nonce used in its time and asked for again: the store may have dropped it meanwhile. -/
theorem gc_invisible_replay :
    outcomes .new [.recordIssued [7] 1120, .consume [7] 1010, .gc 1121, .consume [7] 1130] =
      [true, false] := by
  have hordered : Ordered [.recordIssued [7] 1120, .consume [7] 1010, .gc 1121,
      .consume [7] 1130] := by decide
  have hordered' : Ordered [.recordIssued [7] 1120, .consume [7] 1010, .consume [7] 1130] := by
    decide
  rw [gc_invisible .new hordered hordered' rfl]
  decide

end Identikey.Auth
