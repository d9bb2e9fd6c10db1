/-
What the commands do, seen without file, password and cipher.

A book is a finite map of names to identities, one of which may be the active one.  The
active identity is always one of the book.  Every command is a change of the book or a
look into it, and what it prints says which.
-/
import Identikey.Ikey.Command
import Identikey.Lib.Trace
import Identikey.Wallet.EnvelopeExact

namespace Identikey.Wallet.Identities

open Lib Auth

variable {I : Type} {m m' : Identities I} {name name' : String} {identity : I}

/-! ### Maps of names -/

lemma get_insert : (m.insert name identity).get name' =
    if name' = name then some identity else m.get name' := by
  refine Option.ext fun i => ?_
  have hmem : (name', i) ∈ (m.insert name identity).entries ↔
      (name', i) = (name, identity) ∨ (name', i) ∈ m.entries ∧ utf8 name' ≠ utf8 name :=
    mem_insertKeyed m.ordered
  rw [get_eq_some, hmem]
  split
  · rename_i hsame
    subst hsame
    simp [eq_comm]
  · rename_i hne
    have hutf8 : utf8 name' ≠ utf8 name := fun heq => hne (utf8_injective heq)
    simp [hne, hutf8, get_eq_some]

lemma get_remove : (m.remove name).get name' = if name' = name then none else m.get name' := by
  refine Option.ext fun i => ?_
  have hmem : (name', i) ∈ (m.remove name).entries ↔ (name', i) ∈ m.entries ∧ name' ≠ name := by
    simp [remove, List.mem_filter]
  rw [get_eq_some, hmem]
  split
  · rename_i hsame
    simp [hsame]
  · rename_i hne
    simp [hne, get_eq_some]

/-- Maps with the same identity behind every name are the same. -/
lemma ext_get (h : ∀ name, m.get name = m'.get name) : m = m' := by
  have hentries : m.entries = m'.entries := by
    refine Keyed.ext m.ordered m'.ordered fun x => ?_
    rw [← get_eq_some, ← get_eq_some, h]
  obtain ⟨entries, ordered⟩ := m
  obtain ⟨entries', ordered'⟩ := m'
  subst hentries
  rfl

end Identikey.Wallet.Identities

namespace Identikey.Ikey

open Lib Lib.Fallible Auth Dcbor Gordian Wallet

/-- The command saves the wallet when it is done. -/
def IdentityCommand.Saves : IdentityCommand → Prop
  | .New _ _ | .Use _ | .Delete _ => True
  | _ => False

instance : DecidablePred IdentityCommand.Saves
  | .New _ _ | .Use _ | .Delete _ => isTrue trivial
  | .List | .Show _ => isFalse id

/-! ### Books -/

/-- Names with the identities behind them, one of which may be active. -/
structure Book where
  identities : Identities BasicIdentity
  active : Option String
  listed : ∀ name, active = some name → (identities.get name).isSome

namespace Book

/-- The book without identities. -/
def empty : Book := { identities := .new, active := none, listed := fun _ h => nomatch h }

/-- A name with its identity, which becomes active if there is no active one. -/
def add (b : Book) (name : String) (identity : BasicIdentity) : Book where
  identities := b.identities.insert name identity
  active := b.active.or (some name)
  listed := fun name' h => by
    rw [Identities.get_insert]
    split
    · rfl
    · rename_i hne
      refine b.listed name' ?_
      rcases Option.or_eq_some_iff.mp h with h | ⟨-, h⟩
      · exact h
      · exact absurd (Option.some.inj h).symm hne

/-- The book with another active identity. -/
def activate (b : Book) (name : String) (h : (b.identities.get name).isSome) : Book where
  identities := b.identities
  active := some name
  listed := fun _ heq => Option.some.inj heq ▸ h

/-- The book without a name. -/
def remove (b : Book) (name : String) : Book where
  identities := b.identities.remove name
  active := if b.active = some name then none else b.active
  listed := fun name' h => by
    obtain ⟨hne, hactive⟩ := Option.ite_none_left_eq_some.mp h
    have hother : name' ≠ name := by
      rintro rfl
      exact hne hactive
    rw [Identities.get_remove, if_neg hother]
    exact b.listed name' hactive

/-- What a command makes of a book, and what it prints. -/
def perform (blake3 : Bytes → Digest32) (draw : Draw) (b : Book) :
    IdentityCommand → Except IkeyError (Output × Book)
  | .New name noPq => do
    ensure (b.identities.get name).isNone (.exists name)
    let identity ← newIdentity blake3 draw noPq
    return (.created name identity.fingerprint, b.add name identity)
  | .List => return (.identities (b.identities.entries.map (line b.active)), b)
  | .Show name => do
    let name ← okOr .noIdentity (name.or b.active)
    let identity ← okOr (.notFound name) (b.identities.get name)
    return (shown name identity, b)
  | .Use name =>
    if h : (b.identities.get name).isSome then .ok (.active name, b.activate name h)
    else .error (.notFound name)
  | .Delete name => do
    ensure (b.identities.get name).isSome (.notFound name)
    return (.deleted name, b.remove name)

/-- The wallet that is written for a book. -/
def toWallet (b : Book) : WalletData BasicIdentity :=
  { (WalletData.new : WalletData BasicIdentity) with
    identities := b.identities
    activeIdentity := b.active }

@[simp] lemma toWallet_active (b : Book) : b.toWallet.activeIdentity = b.active := rfl

/-- **The command edits the wallet of a book as it changes the book.** -/
lemma edit_toWallet (blake3 : Bytes → Digest32) (draw : Draw) (b : Book) (cmd : IdentityCommand) :
    cmd.edit blake3 draw b.toWallet = (b.perform blake3 draw cmd).map fun r =>
      (r.1, if cmd.Saves then some r.2.toWallet else none) := by
  have hidentities : b.toWallet.identities = b.identities := rfl
  cases cmd with
  | New name noPq =>
    rw [IdentityCommand.edit, perform, hidentities]
    cases b.identities.get name with
    | some identity => rfl
    | none =>
      cases hnew : newIdentity blake3 draw noPq with
      | error e => rfl
      | ok identity => rfl
  | List => rfl
  | Show name =>
    rw [IdentityCommand.edit, perform, hidentities, toWallet_active]
    cases name.or b.active with
    | none => rfl
    | some name =>
      have hname : okOr IkeyError.noIdentity (some name) = .ok name := rfl
      simp only [hname, ok_bind]
      cases b.identities.get name with
      | none => rfl
      | some identity => rfl
  | Use name =>
    rw [IdentityCommand.edit, perform, hidentities]
    by_cases h : (b.identities.get name).isSome = true
    · rw [dif_pos h, ensure, if_pos h]
      rfl
    · rw [dif_neg h, ensure, if_neg h]
      rfl
  | Delete name =>
    rw [IdentityCommand.edit, perform, hidentities]
    cases b.identities.get name with
    | none => rfl
    | some identity => rfl

/-! ### What a command does to the names -/

/-- A command that saves nothing leaves the book as it is. -/
lemma eq_of_not_saves {blake3 : Bytes → Digest32} {draw : Draw} {b b' : Book}
    {cmd : IdentityCommand} {output : Output} (h : b.perform blake3 draw cmd = .ok (output, b'))
    (hsaves : ¬ cmd.Saves) : b' = b := by
  cases cmd with
  | New name noPq => exact absurd trivial hsaves
  | List =>
    obtain ⟨-, rfl⟩ := Prod.mk.inj (Except.ok.inj h)
    rfl
  | Show name =>
    unfold perform at h
    simp only [bind_eq_ok, okOr_eq_ok, pure_eq_ok, Prod.mk.injEq] at h
    obtain ⟨_, -, _, -, -, rfl⟩ := h
    rfl
  | Use name => exact absurd trivial hsaves
  | Delete name => exact absurd trivial hsaves

/-- Every name but that of the command keeps its identity. -/
lemma perform_get_of_ne {blake3 : Bytes → Digest32} {draw : Draw} {b b' : Book}
    {cmd : IdentityCommand} {output : Output} (h : b.perform blake3 draw cmd = .ok (output, b'))
    {name : String} (hnew : ∀ noPq, cmd ≠ .New name noPq) (hdelete : cmd ≠ .Delete name) :
    b'.identities.get name = b.identities.get name := by
  cases cmd with
  | New name' noPq =>
    unfold perform at h
    simp only [bind_eq_ok, ensure_eq_ok, pure_eq_ok, Prod.mk.injEq] at h
    obtain ⟨_, -, identity, -, -, rfl⟩ := h
    show (b.identities.insert name' identity).get name = _
    rw [Identities.get_insert, if_neg]
    rintro rfl
    exact hnew noPq rfl
  | List => rw [eq_of_not_saves h id]
  | Show name' => rw [eq_of_not_saves h id]
  | Use name' =>
    unfold perform at h
    simp only at h
    split at h
    · obtain ⟨-, rfl⟩ := Prod.mk.inj (Except.ok.inj h)
      rfl
    · cases h
  | Delete name' =>
    unfold perform at h
    simp only [bind_eq_ok, ensure_eq_ok, pure_eq_ok, Prod.mk.injEq] at h
    obtain ⟨_, -, -, rfl⟩ := h
    show (b.identities.remove name').get name = _
    rw [Identities.get_remove, if_neg]
    rintro rfl
    exact hdelete rfl

/-- A name that `identity new` has made has the identity that was generated. -/
lemma perform_new {blake3 : Bytes → Digest32} {draw : Draw} {b b' : Book} {name : String}
    {noPq : Bool} {output : Output}
    (h : b.perform blake3 draw (.New name noPq) = .ok (output, b')) :
    b.identities.get name = none ∧ ∃ identity, newIdentity blake3 draw noPq = .ok identity ∧
      output = .created name identity.fingerprint ∧ b'.identities.get name = some identity := by
  unfold perform at h
  simp only [bind_eq_ok, ensure_eq_ok, pure_eq_ok, Prod.mk.injEq, Option.isNone_iff_eq_none] at h
  obtain ⟨_, hfree, identity, hnew, rfl, rfl⟩ := h
  refine ⟨hfree, identity, hnew, rfl, ?_⟩
  show (b.identities.insert name identity).get name = _
  rw [Identities.get_insert, if_pos rfl]

end Book

end Identikey.Ikey
