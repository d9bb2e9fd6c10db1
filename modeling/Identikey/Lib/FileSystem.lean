/-
A file system: names that point to inodes, and the contents of inodes.

Several names may point to one inode, and a program keeps writing to the inode that it has
opened, whatever name that has by then.  What is found at a name changes with a write to
its inode and with a renaming; other names keep what they had.
-/
import Mathlib.Data.Nat.Notation
import Mathlib.Logic.Function.Basic
import Mathlib.Tactic.Lemma

namespace Identikey.Lib

/-- Names, and inodes below the next free one. -/
structure FileSystem (N : Type) where
  inode : N → Option ℕ
  content : ℕ → List UInt8
  free : ℕ
  inode_lt : ∀ name i, inode name = some i → i < free

namespace FileSystem

variable {N : Type} (fs : FileSystem N)

/-- What is found at a name. -/
def read (name : N) : Option (List UInt8) := (fs.inode name).map fs.content

/-- The two names do not point to one inode. -/
def Apart (name name' : N) : Prop := ∀ i, fs.inode name = some i → fs.inode name' ≠ some i

/-- The contents of an inode are replaced. -/
def setContent (i : ℕ) (bytes : List UInt8) : FileSystem N :=
  { fs with content := Function.update fs.content i bytes }

/-- Bytes written to an inode from a position on; what is missing before it is filled with
zeros. -/
def write (i pos : ℕ) (bytes : List UInt8) : FileSystem N :=
  let old := fs.content i
  fs.setContent i (old.take pos ++ List.replicate (pos - old.length) 0 ++ bytes ++
    old.drop (pos + bytes.length))

variable [DecidableEq N]

/-- A name opened for writing, created if there is none, and truncated: the inode to write to. -/
def openTruncate (name : N) : ℕ × FileSystem N :=
  match fs.inode name with
  | some i => (i, fs.setContent i [])
  | none =>
    (fs.free,
      { inode := Function.update fs.inode name (some fs.free)
        content := Function.update fs.content fs.free []
        free := fs.free + 1
        inode_lt := fun n i h => by
          rcases eq_or_ne n name with rfl | hne
          · rw [Function.update_self] at h
            rw [← Option.some.inj h]
            exact Nat.lt_succ_self _
          · rw [Function.update_of_ne hne] at h
            exact Nat.lt_succ_of_lt (fs.inode_lt n i h) })

/-- A name moved to another, which it replaces; two names of one inode stay as they are. -/
def rename (source target : N) : Option (FileSystem N) :=
  match h : fs.inode source with
  | none => none
  | some i =>
    if fs.inode target = some i then some fs
    else some
      { fs with
        inode := Function.update (Function.update fs.inode target (some i)) source none
        inode_lt := fun n j hj => by
          rcases eq_or_ne n source with rfl | hne
          · rw [Function.update_self] at hj
            cases hj
          · rw [Function.update_of_ne hne] at hj
            rcases eq_or_ne n target with rfl | hne'
            · rw [Function.update_self] at hj
              rw [← Option.some.inj hj]
              exact fs.inode_lt source i h
            · rw [Function.update_of_ne hne'] at hj
              exact fs.inode_lt n j hj }

/-! ### What stays -/

variable {fs}

omit [DecidableEq N] in
lemma read_setContent {i : ℕ} {bytes : List UInt8} {name : N} (h : fs.inode name ≠ some i) :
    (fs.setContent i bytes).read name = fs.read name := by
  unfold read setContent
  cases hname : fs.inode name with
  | none => rfl
  | some j =>
    have hne : j ≠ i := fun hji => h (by rw [hname, hji])
    simp [Function.update_of_ne hne]

omit [DecidableEq N] in
/-- Writing to an inode changes what is found at its names only. -/
lemma read_write {i pos : ℕ} {bytes : List UInt8} {name : N} (h : fs.inode name ≠ some i) :
    (fs.write i pos bytes).read name = fs.read name := read_setContent h

omit [DecidableEq N] in
/-- Bytes added where the content ends. -/
lemma content_write_end {i : ℕ} {bytes : List UInt8} :
    (fs.write i (fs.content i).length bytes).content i = fs.content i ++ bytes := by
  simp [write, setContent]

/-- Opening a name changes what is found there only, if the other name has its own inode. -/
lemma read_openTruncate {name other : N} (hne : other ≠ name) (h : fs.Apart name other) :
    (fs.openTruncate name).2.read other = fs.read other := by
  unfold openTruncate
  cases hname : fs.inode name with
  | some i => exact read_setContent (h i hname)
  | none =>
    unfold read
    simp only [Function.update_of_ne hne]
    cases hother : fs.inode other with
    | none => rfl
    | some j =>
      have hlt := fs.inode_lt other j hother
      simp [Function.update_of_ne (Nat.ne_of_lt hlt)]

/-- What is opened is empty, has the name, and is not what other names point to. -/
lemma openTruncate_spec {name other : N} (hne : other ≠ name) (h : fs.Apart name other) :
    (fs.openTruncate name).2.inode name = some (fs.openTruncate name).1 ∧
      (fs.openTruncate name).2.content (fs.openTruncate name).1 = [] ∧
      (fs.openTruncate name).2.inode other ≠ some (fs.openTruncate name).1 := by
  unfold openTruncate
  cases hname : fs.inode name with
  | some i =>
    refine ⟨hname, ?_, h i hname⟩
    simp [setContent]
  | none =>
    refine ⟨by simp, by simp, fun hother => ?_⟩
    simp only [Function.update_of_ne hne] at hother
    exact Nat.lt_irrefl _ (fs.inode_lt other _ hother)

/-- After a renaming the content of the source is found at the target, and nothing at the
source. -/
lemma rename_spec {source target : N} {i : ℕ} (hne : target ≠ source)
    (hi : fs.inode source = some i) (h : fs.Apart source target) :
    ∃ fs', fs.rename source target = some fs' ∧ fs'.inode source = none ∧
      fs'.inode target = some i ∧ fs'.content = fs.content := by
  unfold rename
  split
  · rename_i hnone
    rw [hnone] at hi
    cases hi
  · rename_i j hj
    obtain rfl := Option.some.inj (hj.symm.trans hi)
    rw [if_neg (h j hj)]
    refine ⟨_, rfl, ?_, ?_, rfl⟩
    · exact Function.update_self _ _ _
    · simp [Function.update_of_ne hne]

end FileSystem

end Identikey.Lib
