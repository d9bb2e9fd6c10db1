/-
Agency capability tokens (`identikey-capability`, `lib.rs`): attenuation, parsing and
authorization.
-/
import Identikey.Lib.Fallible
import Identikey.Capability.Biscuit

set_option linter.dupNamespace false

namespace Identikey.Capability

open Lib Lib.Fallible Auth

/-- `CapabilityError`, as far as tokens are parsed, authorized and named. -/
inductive CapabilityError where
  | biscuit (e : String)
  | holderFact
  | tokenIdentity
deriving DecidableEq, Repr

variable (engine : Engine)

/-- The block of `append_holder_check`: `check if holder($fp), $fp == {fp};`. -/
def holderBlock (fp : String) : Block :=
  { checks := [{ kind := .one, queries := [
      { head := { name := "query", terms := [] },
        body := [{ name := "holder", terms := [.var "fp"] }],
        expressions := [.equal (.var "fp") (.const (.str fp))] }] }] }

/-- The query of `reject_holder_facts`: `data($h) <- holder($h)`. -/
def holderQuery : Rule :=
  { head := { name := "data", terms := [.var "h"] },
    body := [{ name := "holder", terms := [.var "h"] }] }

/-- `TryFrom<Fact>` for `(String,)`. -/
def tryFromFact (fact : Fact) : Except String String :=
  match fact.terms with
  | .str s :: _ => .ok s
  | _ => .error "conversion"

/-- `reject_holder_facts`. -/
def rejectHolderFacts (tok : Biscuit) : Except CapabilityError Unit := do
  let authorizer ← (engine.build {} tok).mapError .biscuit
  let facts ← (engine.queryAll authorizer holderQuery).mapError .biscuit
  let hits ← (facts.mapM tryFromFact).mapError .biscuit
  ensure (hits = []) .holderFact
  ensure (¬ ∃ rule ∈ engine.dump authorizer, rule.head.name = "holder") .holderFact

/-- `parse`. -/
def parse (bytes : Bytes) (rootPublic : PublicKey) : Except CapabilityError Biscuit := do
  let tok ← (engine.fromBytes bytes rootPublic).mapError .biscuit
  rejectHolderFacts engine tok
  return tok

/-- `append_holder_check`. -/
def appendHolderCheck (tok : Biscuit) (fp : String) : Except CapabilityError Bytes := do
  let next ← (engine.append tok (holderBlock fp)).mapError .biscuit
  (engine.toVec next).mapError .biscuit

/-- The policy `allow if right({resource}, {operation});`. -/
def allowRight (resource operation : String) : Policy :=
  { kind := .allow, queries := [
      { head := { name := "query", terms := [] },
        body := [
          { name := "right", terms := [.const (.str resource), .const (.str operation)] }] }] }

/-- The verifier's Datalog in `authorize`: the policy, and `holder({fp});` if there is one. -/
def authorizerCode (holderFp : Option String) (resource operation : String) : AuthorizerBuilder :=
  match holderFp with
  | some fp =>
    { block := { facts := [{ name := "holder", terms := [.str fp] }] },
      policies := [allowRight resource operation] }
  | none => { policies := [allowRight resource operation] }

/-- `authorize`. -/
def authorize (bytes : Bytes) (rootPublic : PublicKey) (holderFp : Option String)
    (resource operation : String) : Except CapabilityError Unit := do
  let tok ← parse engine bytes rootPublic
  let built ← (engine.build (authorizerCode holderFp resource operation) tok).mapError .biscuit
  let _ ← (engine.authorize built).mapError .biscuit
  return ()

end Identikey.Capability
