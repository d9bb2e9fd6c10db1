/-
The error type of the authentication crate and the byte types every module uses.

`AuthError` has the variants of `error.rs` with their payloads.  A call that
adds two `u64` values can also panic, in a build with overflow checks; `Fault`
is an error or that panic, and `addU64` the addition in either kind of build.
-/
import Mathlib.Tactic.Lemma
import Mathlib.Algebra.Group.Nat.Defs
import Mathlib.Data.Nat.Basic

namespace Identikey.Auth

/-- A byte string, `Vec<u8>` or `&[u8]`. -/
abbrev Bytes := List UInt8

/-- `[u8; 32]`. -/
abbrev Digest32 := { b : Bytes // b.length = 32 }

/-- `[b; n]`. -/
def fill (n : ℕ) (b : UInt8) : { bytes : Bytes // bytes.length = n } :=
  ⟨List.replicate n b, List.length_replicate⟩

/-- `AuthError`. -/
inductive AuthError where
  | cbor (msg : String)
  | missingField (name : String)
  | version (v : UInt64)
  | unknownAlg (tag : String)
  | invalidKey (name : String)
  | invalidSig (name : String)
  | badSignature
  | audience
  | nonceTooShort
  | nonceReplay
  | timeWindow
  | pqRequired
  | pqDangling
  | state (msg : String)
  | backend (msg : String)
deriving DecidableEq, Repr

/-- What can end a call that does `u64` arithmetic: an error, or an overflow panic. -/
inductive Fault where
  | err (e : AuthError)
  | panic
deriving DecidableEq, Repr

/-- Whether the build panics on integer overflow (`debug`) or wraps (`release`). -/
inductive Build where
  | debug
  | release
deriving DecidableEq, Repr

/-- `a + b` on `u64`. -/
def addU64 (build : Build) (a b : UInt64) : Except Fault UInt64 :=
  if build = .debug ∧ 2 ^ 64 ≤ a.toNat + b.toNat then .error .panic else .ok (a + b)

lemma addU64_eq_ok {build : Build} {a b c : UInt64} :
    addU64 build a b = .ok c ↔ (build = .release ∨ a.toNat + b.toNat < 2 ^ 64) ∧ c = a + b := by
  unfold addU64
  split_ifs with h
  · obtain ⟨rfl, hover⟩ := h
    constructor
    · rintro ⟨⟩
    · rintro ⟨hbuild | hfits, -⟩
      · cases hbuild
      · exact absurd hfits (Nat.not_lt.mpr hover)
  · have hfits : build = .release ∨ a.toNat + b.toNat < 2 ^ 64 := by
      cases build with
      | debug => exact .inr (Nat.not_le.mp fun hover => h ⟨rfl, hover⟩)
      | release => exact .inl rfl
    constructor
    · rintro ⟨⟩
      exact ⟨hfits, rfl⟩
    · rintro ⟨-, rfl⟩
      rfl

/-- `u64::checked_add`. -/
def checkedAdd (a b : UInt64) : Option UInt64 :=
  if a.toNat + b.toNat < 2 ^ 64 then some (a + b) else none

lemma checkedAdd_eq_some {a b c : UInt64} :
    checkedAdd a b = some c ↔ c.toNat = a.toNat + b.toNat := by
  have hlt := c.toNat_lt
  unfold checkedAdd
  split_ifs with h
  · rw [Option.some.injEq, ← UInt64.toNat_inj, UInt64.toNat_add, Nat.mod_eq_of_lt h, eq_comm]
  · simp only [false_iff]
    omega

/-- `r?` for a result without panics inside a function that may panic. -/
def liftErr {α : Type} (r : Except AuthError α) : Except Fault α :=
  r.mapError .err

end Identikey.Auth
