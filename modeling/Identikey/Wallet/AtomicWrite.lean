/-
Writing the wallet file (`identikey-wallet`, `storage.rs`, `write_secret_file`).

The contents go to a temporary name beside the path, which then replaces the path.  The
temporary name is always the same one, so that calls for one path share it: what one call
has renamed into place another may still hold open.

Here any number of calls take their steps in any order, and any of them may stop.  As long
as the temporary file is opened only while no other call holds it, what is found at the
path is what was there before, or the whole contents of one of the calls.
-/
import Identikey.Auth.Error
import Identikey.Lib.FileSystem
import Identikey.Lib.Run

namespace Identikey.Wallet

open Lib Auth

/-- A name in a directory. -/
structure FileName where
  dir : String
  name : String
deriving DecidableEq, Repr

/-- `tmp_path`: `.{file_name}.tmp` in the same directory. -/
def FileName.tmpPath (path : FileName) : FileName :=
  { path with name := "." ++ path.name ++ ".tmp" }

lemma FileName.ne_tmpPath (path : FileName) : path ≠ path.tmpPath := by
  intro h
  have hlen := congrArg (fun p => p.name.length) h
  have hdot : ".".length = 1 := rfl
  simp only [tmpPath, String.length_append, hdot] at hlen
  omega

/-! ### Calls and their steps -/

/-- How far a call of `write_secret_file` is. -/
inductive CallState where
  | ready
  /-- the temporary file is open, and so much is written -/
  | writing (fd written : ℕ)
  | synced (fd : ℕ)
  /-- returned, or stopped on the way -/
  | ended
deriving DecidableEq, Repr

/-- The call holds the temporary file. -/
def CallState.Active : CallState → Prop
  | .writing _ _ => True
  | .synced _ => True
  | _ => False

instance : DecidablePred CallState.Active
  | .ready => isFalse id
  | .writing _ _ => isTrue trivial
  | .synced _ => isTrue trivial
  | .ended => isFalse id

/-- One step of a call. -/
inductive CallStep where
  | openTemp
  /-- one write of at most so many bytes -/
  | write (count : ℕ)
  | syncAll
  | rename
  /-- an error, or the end of the process -/
  | stop
deriving DecidableEq, Repr

/-- The file system, and how far every call is. -/
structure Writers (ι : Type) where
  fs : FileSystem FileName
  calls : ι → CallState

variable {ι : Type} [DecidableEq ι] (path : FileName) (contents : ι → Bytes)

/-- One step of one call; a step that is not its next one does nothing. -/
def writeStep (s : Writers ι) (event : ι × CallStep) : Writers ι :=
  let (k, step) := event
  match step, s.calls k with
  | .openTemp, .ready =>
    let (fd, fs) := s.fs.openTruncate path.tmpPath
    { fs, calls := Function.update s.calls k (.writing fd 0) }
  | .write count, .writing fd written =>
    let chunk := ((contents k).drop written).take count
    { fs := s.fs.write fd written chunk,
      calls := Function.update s.calls k (.writing fd (written + chunk.length)) }
  | .syncAll, .writing fd written =>
    if written = (contents k).length then
      { s with calls := Function.update s.calls k (.synced fd) }
    else s
  | .rename, .synced _ =>
    { fs := (s.fs.rename path.tmpPath path).getD s.fs,
      calls := Function.update s.calls k .ended }
  | .stop, _ => { s with calls := Function.update s.calls k .ended }
  | _, _ => s

/-- What the steps lead to. -/
def writeRun (s : Writers ι) (events : List (ι × CallStep)) : Writers ι :=
  events.foldl (writeStep path contents) s

/-! ### The invariant -/

/-- What a call that holds the temporary file has done so far. -/
def CallState.Progress (fs : FileSystem FileName) (path : FileName) (bytes : Bytes) :
    CallState → Prop
  | .writing fd written => fs.inode path.tmpPath = some fd ∧ fs.inode path ≠ some fd ∧
      written ≤ bytes.length ∧ fs.content fd = bytes.take written
  | .synced fd => fs.inode path.tmpPath = some fd ∧ fs.inode path ≠ some fd ∧
      fs.content fd = bytes
  | _ => True

/-- The path has what was there before or the whole contents of a call, at most one call holds
the temporary file, and that file is not the one at the path. -/
structure Exclusive (before : Option Bytes) (s : Writers ι) : Prop where
  whole : s.fs.read path = before ∨ ∃ k, s.fs.read path = some (contents k)
  apart : s.fs.Apart path.tmpPath path
  alone : ∀ j k, (s.calls j).Active → (s.calls k).Active → j = k
  progress : ∀ k, (s.calls k).Progress s.fs path (contents k)

variable {path contents} {before : Option Bytes} {s : Writers ι}

/-- Calls that do not hold the temporary file have no progress to keep. -/
lemma progress_of_not_active {fs : FileSystem FileName} {bytes : Bytes} {c : CallState}
    (h : ¬ c.Active) : c.Progress fs path bytes := by
  cases c with
  | writing fd written => exact absurd trivial h
  | synced fd => exact absurd trivial h
  | _ => trivial

/-- One call moves on while it alone holds the temporary file. -/
lemma Exclusive.update {fs : FileSystem FileName} {k : ι} {c : CallState}
    (hwhole : fs.read path = before ∨ ∃ j, fs.read path = some (contents j))
    (hapart : fs.Apart path.tmpPath path)
    (hothers : ∀ j, j ≠ k → ¬ (s.calls j).Active) (hc : c.Progress fs path (contents k)) :
    Exclusive path contents before { fs, calls := Function.update s.calls k c } := by
  have hother : ∀ j, j ≠ k → ¬ (Function.update s.calls k c j).Active := by
    intro j hj
    rw [Function.update_of_ne hj]
    exact hothers j hj
  refine ⟨hwhole, hapart, fun i j hi hj => ?_, fun j => ?_⟩
  · have hik : i = k := not_not.mp fun hne => hother i hne hi
    have hjk : j = k := not_not.mp fun hne => hother j hne hj
    rw [hik, hjk]
  · rcases eq_or_ne j k with rfl | hne
    · show (Function.update s.calls j c j).Progress fs path (contents j)
      rwa [Function.update_self]
    · exact progress_of_not_active (hother j hne)

/-- A call that is over holds nothing. -/
lemma Exclusive.ended (h : Exclusive path contents before s) (k : ι) :
    Exclusive path contents before { s with calls := Function.update s.calls k .ended } := by
  have hsame : ∀ j, (Function.update s.calls k .ended j).Active →
      Function.update s.calls k .ended j = s.calls j := by
    intro j hj
    rcases eq_or_ne j k with rfl | hne
    · rw [Function.update_self] at hj
      exact absurd hj id
    · exact Function.update_of_ne hne _ _
  refine ⟨h.whole, h.apart, fun i j hi hj => ?_, fun j => ?_⟩
  · exact h.alone i j (hsame i hi ▸ hi) (hsame j hj ▸ hj)
  · by_cases hj : (Function.update s.calls k .ended j).Active
    · show (Function.update s.calls k .ended j).Progress s.fs path (contents j)
      rw [hsame j hj]
      exact h.progress j
    · exact progress_of_not_active hj

/-- A write adds the next bytes to the temporary file. -/
lemma Exclusive.write (h : Exclusive path contents before s) {k : ι} {fd written : ℕ}
    (hcall : s.calls k = .writing fd written) (hothers : ∀ j, j ≠ k → ¬ (s.calls j).Active)
    (count : ℕ) :
    Exclusive path contents before (writeStep path contents s (k, .write count)) := by
  have hprogress := h.progress k
  rw [hcall] at hprogress
  obtain ⟨hname, hpath, hle, hcontent⟩ := hprogress
  simp only [writeStep, hcall]
  refine .update ?_ h.apart hothers ⟨hname, hpath, ?_, ?_⟩
  · rw [FileSystem.read_write hpath]
    exact h.whole
  · rw [List.length_take, List.length_drop]
    omega
  · have hlen : (s.fs.content fd).length = written := by
      rw [hcontent, List.length_take, Nat.min_eq_left hle]
    have hend := @FileSystem.content_write_end _ s.fs fd (((contents k).drop written).take count)
    rw [hlen] at hend
    rw [hend, hcontent, List.length_take, List.length_drop, ← List.take_add]
    rcases Nat.le_total count ((contents k).length - written) with hfit | hlong
    · rw [Nat.min_eq_left hfit]
    · rw [Nat.min_eq_right hlong, List.take_of_length_le (by omega),
        List.take_of_length_le (by omega)]

/-- A renaming puts the whole contents of the call into place. -/
lemma Exclusive.rename (h : Exclusive path contents before s) {k : ι} {fd : ℕ}
    (hcall : s.calls k = .synced fd) (hothers : ∀ j, j ≠ k → ¬ (s.calls j).Active) :
    Exclusive path contents before (writeStep path contents s (k, .rename)) := by
  have hprogress := h.progress k
  rw [hcall] at hprogress
  obtain ⟨hname, -, hcontent⟩ := hprogress
  obtain ⟨fs', hfs', hgone, htarget, hsame⟩ :=
    FileSystem.rename_spec path.ne_tmpPath hname h.apart
  simp only [writeStep, hcall, hfs', Option.getD_some]
  refine .update (.inr ⟨k, ?_⟩) ?_ hothers trivial
  · rw [FileSystem.read, htarget, hsame, Option.map_some, hcontent]
  · intro i hi
    rw [hgone] at hi
    cases hi

/-- Every step keeps the invariant, if the temporary file is opened only while no other call holds
it. -/
lemma Exclusive.step (h : Exclusive path contents before s) {event : ι × CallStep}
    (hopen : event.2 = .openTemp → s.calls event.1 = .ready →
      ∀ j, j ≠ event.1 → ¬ (s.calls j).Active) :
    Exclusive path contents before (writeStep path contents s event) := by
  obtain ⟨k, step⟩ := event
  -- a call that holds the temporary file is alone
  have hothers : (s.calls k).Active → ∀ j, j ≠ k → ¬ (s.calls j).Active := fun hk j hjk hj =>
    hjk (h.alone j k hj hk)
  have hstop : Exclusive path contents before (writeStep path contents s (k, .stop)) := by
    simp only [writeStep]
    exact h.ended k
  cases hcall : s.calls k with
  | ready =>
    cases step with
    | openTemp =>
      have hne := path.ne_tmpPath
      obtain ⟨hname, hempty, hpath⟩ := FileSystem.openTruncate_spec hne h.apart
      simp only [writeStep, hcall]
      refine .update ?_ ?_ (hopen rfl hcall) ⟨hname, hpath, Nat.zero_le _, hempty⟩
      · rw [FileSystem.read_openTruncate hne h.apart]
        exact h.whole
      · intro i hi
        rwa [← Option.some.inj (hname.symm.trans hi)]
    | stop => exact hstop
    | _ =>
      simp only [writeStep, hcall]
      exact h
  | writing fd written =>
    rw [hcall] at hothers
    cases step with
    | write count => exact h.write hcall (hothers trivial) count
    | syncAll =>
      simp only [writeStep, hcall]
      split_ifs with hall
      · have hprogress := h.progress k
        rw [hcall] at hprogress
        obtain ⟨hname, hpath, -, hcontent⟩ := hprogress
        rw [hall, List.take_length] at hcontent
        exact .update h.whole h.apart (hothers trivial) ⟨hname, hpath, hcontent⟩
      · exact h
    | stop => exact hstop
    | _ =>
      simp only [writeStep, hcall]
      exact h
  | synced fd =>
    rw [hcall] at hothers
    cases step with
    | rename => exact h.rename hcall (hothers trivial)
    | stop => exact hstop
    | _ =>
      simp only [writeStep, hcall]
      exact h
  | ended =>
    cases step with
    | stop => exact hstop
    | _ =>
      simp only [writeStep, hcall]
      exact h

/-! ### Runs -/

/-- In the run the temporary file is opened only while no other call holds it. -/
def OpensAlone (path : FileName) (contents : ι → Bytes) (s : Writers ι)
    (events : List (ι × CallStep)) : Prop :=
  ∀ pre k post, events = pre ++ (k, .openTemp) :: post →
    (writeRun path contents s pre).calls k = .ready →
      ∀ j, j ≠ k → ¬ ((writeRun path contents s pre).calls j).Active

/-- **What is found at the path is what was there before or the whole contents of one of the
calls**, whatever steps the calls take and wherever they stop, if each call opens the temporary
file only while no other call holds it. -/
theorem atomic_write (hready : ∀ k, s.calls k = .ready)
    (hapart : s.fs.Apart path.tmpPath path) {events : List (ι × CallStep)}
    (halone : OpensAlone path contents s events) :
    (writeRun path contents s events).fs.read path = s.fs.read path ∨
      ∃ k, (writeRun path contents s events).fs.read path = some (contents k) := by
  have hidle : ∀ k, ¬ (s.calls k).Active := fun k => by
    rw [hready k]
    exact id
  suffices hinv : OpensAlone path contents s events →
      Exclusive path contents (s.fs.read path) (writeRun path contents s events) from
    (hinv halone).whole
  clear halone
  refine run_induction (P := fun events t => OpensAlone path contents s events →
    Exclusive path contents (s.fs.read path) t) ?_ ?_ events
  · intro _
    exact ⟨.inl rfl, hapart, fun j _ hj => absurd hj (hidle j),
      fun k => progress_of_not_active (hidle k)⟩
  · intro events event ih h
    refine (ih fun pre k post hevents => h pre k (post ++ [event]) ?_).step fun hstep => ?_
    · rw [hevents, List.append_assoc, List.cons_append]
    · obtain ⟨k, step⟩ := event
      subst hstep
      exact h events k [] rfl

/-! ### Two calls at once -/

/-- A path. -/
def samplePath : FileName := { dir := ".", name := "wallet.ikey" }

/-- Two calls, with the contents `1` and `2`, on an empty file system. -/
def sampleWriters : Writers Bool :=
  { fs := { inode := fun _ => none, content := fun _ => [], free := 0,
            inode_lt := fun _ _ h => by cases h },
    calls := fun _ => .ready }

def sampleContents (k : Bool) : Bytes := if k then [1] else [2]

/-- A call that has the file system for itself puts its contents into place. -/
theorem atomic_write_alone :
    (writeRun samplePath sampleContents sampleWriters
        [(true, .openTemp), (true, .write 1), (true, .syncAll), (true, .rename)]).fs.read
        samplePath = sampleWriters.fs.read samplePath ∨
      ∃ k, (writeRun samplePath sampleContents sampleWriters
        [(true, .openTemp), (true, .write 1), (true, .syncAll), (true, .rename)]).fs.read
        samplePath = some (sampleContents k) := by
  refine atomic_write (fun _ => rfl) (fun i hi => by cases hi) ?_
  rintro pre k post hevents - j hj
  match pre, hevents with
  | [], hevents => exact id
  | [_], hevents => cases hevents
  | [_, _], hevents => cases hevents
  | [_, _, _], hevents => cases hevents
  | [_, _, _, _], hevents => cases hevents
  | _ :: _ :: _ :: _ :: _ :: pre, hevents => cases hevents

/-- The second call truncates the temporary file when the first is about to rename it: an empty
file is put into place. -/
theorem atomic_write_contended :
    ¬ ∀ (path : FileName) (contents : Bool → Bytes) (s : Writers Bool)
      (events : List (Bool × CallStep)), (∀ k, s.calls k = .ready) →
      s.fs.Apart path.tmpPath path →
        (writeRun path contents s events).fs.read path = s.fs.read path ∨
          ∃ k, (writeRun path contents s events).fs.read path = some (contents k) := by
  intro hall
  have hempty : (writeRun samplePath sampleContents sampleWriters [(true, .openTemp),
      (true, .write 1), (true, .syncAll), (false, .openTemp), (true, .rename)]).fs.read
      samplePath = some [] := by decide
  rcases hall samplePath sampleContents sampleWriters [(true, .openTemp), (true, .write 1),
    (true, .syncAll), (false, .openTemp), (true, .rename)] (fun _ => rfl)
    (fun i hi => by cases hi) with hbefore | ⟨k, hwhole⟩
  · rw [hempty] at hbefore
    cases hbefore
  · rw [hempty] at hwhole
    cases k <;> cases hwhole

end Identikey.Wallet
