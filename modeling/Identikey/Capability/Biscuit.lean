/-
Biscuit tokens, as `identikey-capability` uses them.

A token is a list of blocks of Datalog, the first of them the authority block.  The crate
`biscuit_auth` is not part of the repository: `Engine` holds what is called in it, and what
the crate relies on.  Its evaluation is the least fixpoint of the facts and rules of all
blocks, each rule seeing the facts of the blocks that it trusts.
-/
import Identikey.Lib.Datalog
import Identikey.Auth.Cbor

namespace Identikey.Capability

open Lib Auth

/-- `PublicKey`, by its bytes. -/
abbrev PublicKey := Bytes

/-! ### Datalog -/

/-- A constant of `biscuit_auth`'s Datalog. -/
inductive Value where
  | integer (i : ℤ)
  | str (s : String)
  | date (seconds : ℕ)
  | bytes (b : Bytes)
  | bool (b : Bool)
  | null
  | set (elements : List Value)
  | array (elements : List Value)
  | map (entries : List (Value × Value))

abbrev Term := Datalog.Term String Value

abbrev Predicate := Datalog.Atom String String Value

abbrev Fact := Datalog.Fact String Value

/-- An expression: `==`, or any other by its text. -/
inductive Expression where
  | equal (left right : Term)
  | other (text : String)

/-- What a rule or a block says it trusts. -/
inductive Scope where
  | authority
  | previous
  | publicKey (key : PublicKey)

/-- A rule; queries of checks and policies are rules whose head is not looked at. -/
structure Rule where
  head : Predicate
  body : List Predicate
  expressions : List Expression := []
  scopes : List Scope := []

/-- `check if`, `check all` or `reject if`. -/
inductive CheckKind where
  | one
  | all
  | reject

structure Check where
  kind : CheckKind
  queries : List Rule

structure Block where
  facts : List Fact := []
  rules : List Rule := []
  checks : List Check := []
  scopes : List Scope := []
  externalKey : Option PublicKey := none

inductive PolicyKind where
  | allow
  | deny

structure Policy where
  kind : PolicyKind
  queries : List Rule

/-- `Biscuit`: the authority block and the blocks that were appended. -/
structure Biscuit where
  blocks : List Block

/-- `AuthorizerBuilder`: a block of the verifier, and its policies. -/
structure AuthorizerBuilder where
  block : Block := {}
  policies : List Policy := []

/-- `Authorizer`: a token under a verifier's own Datalog. -/
structure Authorizer where
  token : Biscuit
  builder : AuthorizerBuilder

/-! ### Scopes -/

/-- A block of the token by its index, or the verifier's. -/
inductive Origin where
  | block (i : ℕ)
  | authorizer
deriving DecidableEq

/-- The blocks that a scope names, in a block of a token with these external keys. -/
def Scope.origins (externalKeys : List (Option PublicKey)) (current : Origin) : Scope → List Origin
  | .authority => [.block 0]
  | .previous =>
    match current with
    | .block i => (List.range (i + 1)).map .block
    | .authorizer => []
  | .publicKey key =>
    ((List.range externalKeys.length).filter fun i => externalKeys[i]? = some (some key)).map .block

/-- What a rule or a block trusts: the verifier, its own block, and either what its scopes name
or, without any, what is trusted by default. -/
def trustedOrigins (externalKeys : List (Option PublicKey)) (byDefault : Finset Origin)
    (current : Origin) : List Scope → Finset Origin
  | [] => insert .authorizer (insert current byDefault)
  | scopes =>
    insert .authorizer
      (insert current (scopes.flatMap (Scope.origins externalKeys current)).toFinset)

namespace Authorizer

/-- The verifier's block and those of the token, with their origins. -/
def blocks (a : Authorizer) : List (Origin × Block) :=
  (.authorizer, a.builder.block) :: a.token.blocks.zipIdx.map fun b => (.block b.2, b.1)

/-- What the queries of a rule in a block may use. -/
def query (a : Authorizer) (b : Origin × Block) (rule : Rule) :
    Datalog.Query String String Value Expression Origin :=
  let externalKeys := a.token.blocks.map Block.externalKey
  let byDefault := trustedOrigins externalKeys {.block 0} b.1 b.2.scopes
  { body := rule.body, guards := rule.expressions,
    trusted := trustedOrigins externalKeys byDefault b.1 rule.scopes }

/-- The facts and rules of all blocks. -/
def program (a : Authorizer) : Datalog.Program String String Value Expression Origin :=
  { facts := a.blocks.flatMap fun b => b.2.facts.map fun fact => ({b.1}, fact),
    rules := a.blocks.flatMap fun b => b.2.rules.map fun rule =>
      { toQuery := a.query b rule, owner := b.1, head := rule.head } }

end Authorizer

/-! ### Evaluation -/

variable (holds : String → (String → Value) → Prop)

/-- An expression under a valuation, where `holds` tells it of any but `==`. -/
def Expression.Holds (σ : String → Value) : Expression → Prop
  | .equal left right => left.ground σ = right.ground σ
  | .other text => holds text σ

namespace Authorizer

/-- What is known once all rules have run. -/
def model (a : Authorizer) : Set (Finset Origin × Fact) :=
  a.program.model fun e σ => e.Holds holds σ

/-- A query of a block has an answer. -/
def QueryMatches (a : Authorizer) (b : Origin × Block) (rule : Rule) : Prop :=
  ∃ σ origins, (a.query b rule).Matches (fun e σ => e.Holds holds σ) (a.model holds) σ origins

/-- A query of a block has an answer, and with every choice of facts its expressions hold. -/
def QueryMatchesAll (a : Authorizer) (b : Origin × Block) (rule : Rule) : Prop :=
  a.QueryMatches holds b { rule with expressions := [] } ∧
  ∀ σ origins,
    (a.query b { rule with expressions := [] }).Matches (fun e σ => e.Holds holds σ)
      (a.model holds) σ origins →
    ∀ e ∈ rule.expressions, e.Holds holds σ

/-- A check of a block holds. -/
def CheckHolds (a : Authorizer) (b : Origin × Block) (check : Check) : Prop :=
  match check.kind with
  | .one => ∃ q ∈ check.queries, a.QueryMatches holds b q
  | .all => ∃ q ∈ check.queries, a.QueryMatchesAll holds b q
  | .reject => ∃ q ∈ check.queries, ¬ a.QueryMatches holds b q

end Authorizer

/-- What `biscuit_auth` computes; its errors are texts. -/
structure Engine where
  /-- An expression other than `==` under a valuation. -/
  holds : String → (String → Value) → Prop
  /-- `Biscuit::from`, which checks the signatures of all blocks. -/
  fromBytes : Bytes → PublicKey → Except String Biscuit
  toVec : Biscuit → Except String Bytes
  append : Biscuit → Block → Except String Biscuit
  /-- `Biscuit::authorizer`, and `AuthorizerBuilder::build` on a token. -/
  build : AuthorizerBuilder → Biscuit → Except String Authorizer
  queryAll : Authorizer → Rule → Except String (List Fact)
  /-- The rules of `Authorizer::dump`. -/
  dump : Authorizer → List Rule
  authorize : Authorizer → Except String ℕ
  fromBytes_toVec : ∀ token bytes key token',
    toVec token = .ok bytes → fromBytes bytes key = .ok token' → token' = token
  append_blocks : ∀ token block token',
    append token block = .ok token' → token'.blocks = token.blocks ++ [block]
  build_eq : ∀ builder token a, build builder token = .ok a → a = { token, builder }
  /-- A query without scopes that succeeds gives every answer, whichever blocks its facts are
  from. -/
  mem_queryAll : ∀ a rule facts σ, rule.scopes = [] → queryAll a rule = .ok facts →
    (∀ p ∈ rule.body, ∃ origins, (origins, p.ground σ) ∈ a.model holds) →
    (∀ e ∈ rule.expressions, e.Holds holds σ) → rule.head.ground σ ∈ facts
  mem_dump : ∀ a, ∀ b ∈ a.blocks, ∀ rule ∈ b.2.rules, rule ∈ dump a
  /-- Every check of every block holds, and the policy that decides is an `allow`. -/
  checks_of_authorize : ∀ a i, authorize a = .ok i →
    ∀ b ∈ a.blocks, ∀ check ∈ b.2.checks, a.CheckHolds holds b check
  policy_of_authorize : ∀ a i, authorize a = .ok i →
    ∃ policy, a.builder.policies[i]? = some policy ∧ policy.kind = .allow ∧
      ∃ q ∈ policy.queries, a.QueryMatches holds (.authorizer, a.builder.block) q

end Identikey.Capability
