/-
The hybrid logical clock (`identikey-log`, `hlc.rs`).

A clock issues a reading that is one past the wall clock and past all that it has seen,
and it takes over the physical component of a peer that is ahead.  The addition saturates:
a clock at the greatest `u64` stays there, and what it issues is not after what it has
seen.  Any peer can bring it there, since the decoder admits every pair of `u64`.
-/
import Identikey.Lib.Run
import Identikey.Log.Op

namespace Identikey.Log

open Lib

/-- `u64::MAX`. -/
def MAX : UInt64 := 0xFFFFFFFFFFFFFFFF

/-- `saturating_add` on `u64`. -/
def saturatingAdd (a b : UInt64) : UInt64 :=
  if a.toNat + b.toNat ≤ MAX.toNat then a + b else MAX

namespace Hlc

/-- `Hlc::default`. -/
def default : Hlc := { l := 0, c := 0 }

/-- `Hlc::advance`. -/
def advance (localWallMs lastL : UInt64) : Hlc :=
  { l := saturatingAdd (max localWallMs lastL) 1, c := 0 }

/-- `Hlc::next`. -/
def next (self : Hlc) (localWallMs : UInt64) : Hlc := advance localWallMs self.l

/-- `Hlc::observe`. -/
def observe (self other : Hlc) : Hlc :=
  if other.l > self.l then { l := other.l, c := self.c } else self

/-- The derived order, which compares `l` before `c`. -/
def Before (a b : Hlc) : Prop := a.l < b.l ∨ a.l = b.l ∧ a.c < b.c

instance (a b : Hlc) : Decidable (a.Before b) := inferInstanceAs (Decidable (_ ∨ _))

/-! ### One reading -/

variable {clock other : Hlc} {localWallMs : UInt64}

lemma toNat_MAX : MAX.toNat = 18446744073709551615 := rfl

lemma toNat_le_MAX (a : UInt64) : a.toNat ≤ MAX.toNat := by
  have hlt : a.toNat < 18446744073709551616 := a.toNat_lt
  rw [toNat_MAX]
  omega

lemma toNat_saturatingAdd_one (a : UInt64) :
    (saturatingAdd a 1).toNat = min (a.toNat + 1) MAX.toNat := by
  have hle := toNat_le_MAX a
  unfold saturatingAdd
  rw [UInt64.toNat_one]
  split_ifs with hfit
  · have hsize : a.toNat + 1 < 2 ^ 64 := by
      rw [toNat_MAX] at hfit
      omega
    rw [UInt64.toNat_add, UInt64.toNat_one, Nat.mod_eq_of_lt hsize]
    omega
  · omega

/-- The clock goes one past the wall clock and itself, as far as it can. -/
lemma toNat_next : (clock.next localWallMs).l.toNat =
    min (max localWallMs.toNat clock.l.toNat + 1) MAX.toNat := by
  rw [← UInt64.toNat_max]
  exact toNat_saturatingAdd_one _

/-- The clock is brought to the greater of the two, and keeps its counter. -/
lemma toNat_observe : (clock.observe other).l.toNat = max clock.l.toNat other.l.toNat := by
  unfold observe
  split_ifs with hahead
  · have hlt := UInt64.lt_iff_toNat_lt.mp hahead
    show other.l.toNat = _
    omega
  · have hle := UInt64.le_iff_toNat_le.mp (UInt64.not_lt.mp hahead)
    omega

/-- What is issued is past the clock, unless the clock is at its end. -/
lemma lt_next_iff : clock.l < (clock.next localWallMs).l ↔ clock.l < MAX := by
  rw [UInt64.lt_iff_toNat_lt, UInt64.lt_iff_toNat_lt, toNat_next]
  omega

/-- The clock never goes back, not even at its end. -/
lemma le_next : clock.l ≤ (clock.next localWallMs).l := by
  have hle := toNat_le_MAX clock.l
  rw [UInt64.le_iff_toNat_le, toNat_next]
  omega

lemma le_observe : clock.l ≤ (clock.observe other).l ∧ other.l ≤ (clock.observe other).l := by
  rw [UInt64.le_iff_toNat_le, UInt64.le_iff_toNat_le, toNat_observe]
  omega

lemma observe_cases : (clock.observe other).l = clock.l ∨ (clock.observe other).l = other.l := by
  unfold observe
  split_ifs
  · exact .inr rfl
  · exact .inl rfl

/-- A clock issues nothing that is after a reading at its own end. -/
lemma not_before_next_of_max {reading : Hlc} (h : reading.l = MAX) :
    ¬ reading.Before (clock.next localWallMs) := by
  have hle := toNat_le_MAX (clock.next localWallMs).l
  rintro (hlt | ⟨-, hlt⟩)
  · rw [UInt64.lt_iff_toNat_lt, h] at hlt
    omega
  · -- the counter of what is issued is zero
    exact absurd hlt (UInt64.not_lt.mpr UInt64.zero_le)

end Hlc

/-! ### Runs of a clock -/

/-- What happens at a clock: an operation is issued, or the operation of a peer comes in. -/
inductive ClockEvent where
  | next (localWallMs : UInt64)
  | observe (other : Hlc)
deriving DecidableEq, Repr

/-- A clock with its past: the readings that it issued or observed. -/
structure Clock where
  hlc : Hlc
  past : List Hlc
deriving DecidableEq, Repr

/-- A clock that has seen nothing. -/
def Clock.new : Clock := { hlc := .default, past := [] }

/-- One event: the clock is the reading that it issued last, pulled forward by its peers. -/
def Clock.step (clock : Clock) (event : ClockEvent) : Clock :=
  match event with
  | .next localWallMs =>
    let reading := clock.hlc.next localWallMs
    { hlc := reading, past := clock.past ++ [reading] }
  | .observe other => { hlc := clock.hlc.observe other, past := clock.past ++ [other] }

/-- The clock after some events. -/
def Clock.run (events : List ClockEvent) : Clock := events.foldl Clock.step .new

/-- The clock is at the greatest of its past readings. -/
structure Clock.Inv (clock : Clock) : Prop where
  upper : ∀ reading ∈ clock.past, reading.l ≤ clock.hlc.l
  reached : clock.hlc.l = 0 ∨ ∃ reading ∈ clock.past, reading.l = clock.hlc.l

/-- Every event keeps the invariant. -/
lemma Clock.Inv.step {clock : Clock} (h : clock.Inv) (event : ClockEvent) :
    (clock.step event).Inv := by
  obtain ⟨hupper, hreached⟩ := h
  cases event with
  | next localWallMs =>
    refine ⟨fun reading hreading => ?_, .inr ⟨_, List.mem_append_right _ (.head _), rfl⟩⟩
    rcases List.mem_append.mp hreading with hreading | hreading
    · exact UInt64.le_trans (hupper reading hreading) Hlc.le_next
    · obtain rfl := List.mem_singleton.mp hreading
      exact UInt64.le_refl _
  | observe other =>
    obtain ⟨hours, htheirs⟩ := @Hlc.le_observe clock.hlc other
    refine ⟨fun reading hreading => ?_, ?_⟩
    · rcases List.mem_append.mp hreading with hreading | hreading
      · exact UInt64.le_trans (hupper reading hreading) hours
      · obtain rfl := List.mem_singleton.mp hreading
        exact htheirs
    · rcases @Hlc.observe_cases clock.hlc other with hsame | hsame
      · rcases hreached with hzero | ⟨reading, hreading, heq⟩
        · exact .inl (hsame.trans hzero)
        · exact .inr ⟨reading, List.mem_append_left _ hreading, heq.trans hsame.symm⟩
      · exact .inr ⟨other, List.mem_append_right _ (.head _), hsame.symm⟩

/-- The invariant holds after every run. -/
lemma Clock.inv_run (events : List ClockEvent) : (Clock.run events).Inv :=
  run_keeps (fun _ event h => h.step event)
    ⟨fun _ h => absurd h List.not_mem_nil, .inl rfl⟩ events

/-- The next reading is after every past one exactly when the clock is not at its end. -/
lemma Clock.Inv.next_after_iff {clock : Clock} (h : clock.Inv) (localWallMs : UInt64) :
    (∀ reading ∈ clock.past, reading.Before (clock.hlc.next localWallMs)) ↔
      clock.hlc.l < MAX := by
  constructor
  · intro hafter
    by_contra hend
    have hmax : clock.hlc.l = MAX :=
      UInt64.le_antisymm (UInt64.le_iff_toNat_le.mpr (Hlc.toNat_le_MAX _)) (UInt64.not_lt.mp hend)
    rcases h.reached with hzero | ⟨reading, hreading, heq⟩
    · exact absurd (hzero.symm.trans hmax) (by decide)
    · -- the reading that brought the clock to its end is there itself
      exact Hlc.not_before_next_of_max (heq.trans hmax) (hafter reading hreading)
  · intro hend reading hreading
    exact .inl (UInt64.lt_of_le_of_lt (h.upper reading hreading) (Hlc.lt_next_iff.mpr hend))

/-- Each reading that is issued in the run is after every earlier one, issued or observed, and has
a counter of zero. -/
def NeverBack (events : List ClockEvent) : Prop :=
  ∀ pre localWallMs post, events = pre ++ .next localWallMs :: post →
    ((Clock.run pre).hlc.next localWallMs).c = 0 ∧
      ∀ reading ∈ (Clock.run pre).past,
        reading.Before ((Clock.run pre).hlc.next localWallMs)

/-- **A clock never goes backwards and never repeats a reading if and only if it never issues one
while it is at the greatest `u64`.** -/
theorem neverBack_iff (events : List ClockEvent) :
    NeverBack events ↔ ∀ pre localWallMs post, events = pre ++ .next localWallMs :: post →
      (Clock.run pre).hlc.l < MAX := by
  constructor
  · intro h pre localWallMs post hevents
    exact ((Clock.inv_run pre).next_after_iff localWallMs).mp (h pre localWallMs post hevents).2
  · intro h pre localWallMs post hevents
    have hend := h pre localWallMs post hevents
    exact ⟨rfl, ((Clock.inv_run pre).next_after_iff localWallMs).mpr hend⟩

/-- A peer at the greatest `u64` stops the clock: what is issued next is the reading of the
peer. -/
theorem neverBack_saturated : ¬ ∀ events, NeverBack events := by
  intro h
  have hafter := (h [.observe { l := MAX, c := 0 }, .next 0] [.observe { l := MAX, c := 0 }] 0 []
    rfl).2
  exact absurd hafter (by decide)

end Identikey.Log
