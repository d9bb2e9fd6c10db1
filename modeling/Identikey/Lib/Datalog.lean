/-
Datalog with provenance.

A known fact carries its origins: the blocks whose facts and rules it came from.  A rule
belongs to a block and may use only facts all of whose origins it trusts; what it gives
has the origins of all it used, and its own block.  The model of a program is the least
fixpoint of its rules over its facts.

A name that heads no rule is known only from the facts the program starts with
(`mem_model_iff_mem_facts`).
-/
import Mathlib.Data.Finset.Union
import Mathlib.Data.Fintype.Basic
import Mathlib.Data.Set.Lattice
import Mathlib.Order.FixedPoints
import Mathlib.Order.CompletePartialOrder
import Mathlib.Tactic.Lemma

namespace Identikey.Lib.Datalog

/-- A variable or a constant. -/
inductive Term (V C : Type) where
  | var (x : V)
  | const (c : C)

/-- A name applied to terms. -/
structure Atom (N V C : Type) where
  name : N
  terms : List (Term V C)

/-- A name applied to constants. -/
structure Fact (N C : Type) where
  name : N
  terms : List C

variable {N V C E O : Type}

/-- A term under a valuation of the variables. -/
def Term.ground (σ : V → C) : Term V C → C
  | .var x => σ x
  | .const c => c

/-- An atom under a valuation of the variables. -/
def Atom.ground (σ : V → C) (a : Atom N V C) : Fact N C :=
  { name := a.name, terms := a.terms.map (Term.ground σ) }

@[simp] lemma Atom.ground_name (σ : V → C) (a : Atom N V C) : (a.ground σ).name = a.name := rfl

/-- Atoms to be found among facts of trusted origins, under guards. -/
structure Query (N V C E O : Type) where
  body : List (Atom N V C)
  guards : List E
  trusted : Finset O

/-- A rule of a block. -/
structure Rule (N V C E O : Type) extends Query N V C E O where
  owner : O
  head : Atom N V C

/-- Facts with their origins, and rules. -/
structure Program (N V C E O : Type) where
  facts : List (Finset O × Fact N C)
  rules : List (Rule N V C E O)

variable (sat : E → (V → C) → Prop)

/-- The query holds of what is known, with a valuation and for each atom the origins of the fact
that it was found as. -/
structure Query.Matches (q : Query N V C E O) (known : Set (Finset O × Fact N C)) (σ : V → C)
    (origins : Fin q.body.length → Finset O) : Prop where
  known : ∀ i, (origins i, (q.body.get i).ground σ) ∈ known
  trusted : ∀ i, origins i ⊆ q.trusted
  guards : ∀ e ∈ q.guards, sat e σ

variable {sat} in
lemma Query.Matches.mono {q : Query N V C E O} {known known' : Set (Finset O × Fact N C)}
    (hle : known ⊆ known') {σ : V → C} {origins : Fin q.body.length → Finset O}
    (h : q.Matches sat known σ origins) : q.Matches sat known' σ origins :=
  ⟨fun i => hle (h.known i), h.trusted, h.guards⟩

variable [DecidableEq O]

/-- What a rule gives with the facts that its atoms were found as. -/
def Rule.result (r : Rule N V C E O) (σ : V → C) (origins : Fin r.body.length → Finset O) :
    Finset O × Fact N C :=
  (insert r.owner (Finset.univ.biUnion origins), r.head.ground σ)

namespace Program

/-- The facts of a program and what its rules give on what is known. -/
def consequences (P : Program N V C E O) :
    Set (Finset O × Fact N C) →o Set (Finset O × Fact N C) where
  toFun known := {x | x ∈ P.facts ∨ ∃ r ∈ P.rules, ∃ σ origins,
    r.toQuery.Matches sat known σ origins ∧ x = r.result σ origins}
  monotone' known known' hle x hx := by
    rcases hx with hfact | ⟨r, hr, σ, origins, hmatch, hx⟩
    · exact .inl hfact
    · exact .inr ⟨r, hr, σ, origins, hmatch.mono hle, hx⟩

/-- The least set that holds the facts and is closed under the rules. -/
def model (P : Program N V C E O) : Set (Finset O × Fact N C) := OrderHom.lfp (P.consequences sat)

variable {sat} {P : Program N V C E O}

/-- What is known is a fact of the program or the result of a rule on what is known. -/
lemma mem_model_iff {x : Finset O × Fact N C} :
    x ∈ P.model sat ↔ x ∈ P.facts ∨ ∃ r ∈ P.rules, ∃ σ origins,
      r.toQuery.Matches sat (P.model sat) σ origins ∧ x = r.result σ origins := by
  have hfix : P.consequences sat (P.model sat) = P.model sat := OrderHom.map_lfp _
  conv_lhs => rw [← hfix]
  rfl

lemma mem_model_of_mem_facts {x : Finset O × Fact N C} (h : x ∈ P.facts) : x ∈ P.model sat :=
  mem_model_iff.mpr (.inl h)

/-- **What no rule concludes is known only where the program states it.** -/
theorem mem_model_iff_mem_facts {n : N} (hrules : ∀ r ∈ P.rules, r.head.name ≠ n)
    {x : Finset O × Fact N C} (hx : x.2.name = n) : x ∈ P.model sat ↔ x ∈ P.facts := by
  rw [mem_model_iff]
  constructor
  · rintro (hfact | ⟨r, hr, σ, origins, -, rfl⟩)
    · exact hfact
    · exact absurd hx (hrules r hr)
  · exact .inl

end Program

end Identikey.Lib.Datalog
