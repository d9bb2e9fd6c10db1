/-
Holder facts of any form.

`reject_holder_facts` asks for `holder` facts with a query of one term, and looks at the
heads of the rules by name alone.  So a `holder` fact of no term, or of two and more, is not
found; a token that states only such facts is accepted.
-/
import Identikey.Capability.Holder

set_option linter.dupNamespace false

namespace Identikey.Capability

open Lib Lib.Fallible Auth

variable {bytes : Bytes} {key : PublicKey} {tok : Biscuit}

/-- A block states a `holder` fact, of whatever terms. -/
def StatesHolder (tok : Biscuit) : Prop :=
  ∃ b ∈ tok.blocks, ∃ fact ∈ b.facts, fact.name = "holder"

/-- A block states a `holder` fact or has a rule that concludes one. -/
def AssertsHolder (tok : Biscuit) : Prop :=
  StatesHolder tok ∨ ∃ b ∈ tok.blocks, ∃ rule ∈ b.rules, rule.head.name = "holder"

/-- An engine whose queries have no answers but those that hold, and whose dump has no rules but
those of the blocks. -/
structure ExactEngine extends Engine where
  queryAll_answers : ∀ a rule facts, queryAll a rule = .ok facts → ∀ fact ∈ facts,
    ∃ σ, fact = rule.head.ground σ ∧
      (∀ p ∈ rule.body, ∃ origins, (origins, p.ground σ) ∈ a.model holds) ∧
      ∀ e ∈ rule.expressions, e.Holds holds σ
  dump_blocks : ∀ a, ∀ rule ∈ dump a, ∃ b ∈ a.blocks, rule ∈ b.2.rules

/-- `biscuit_auth` puts the token under an authorizer and runs the query for holders within its
limits. -/
def Evaluates (engine : Engine) (tok : Biscuit) : Prop :=
  ∃ a facts, engine.build {} tok = .ok a ∧ engine.queryAll a holderQuery = .ok facts

variable {engine : ExactEngine}

/-! ### What the two scans find -/

/-- A rule that the authorizer of a token sees is one of the token's. -/
lemma mem_blocks_of_mem_rules {b : Origin × Block} {rule : Rule}
    (hb : b ∈ Authorizer.blocks { token := tok, builder := {} }) (hrule : rule ∈ b.2.rules) :
    b.2 ∈ tok.blocks := by
  rcases mem_blocks.mp hb with rfl | ⟨i, hget, -⟩
  · cases hrule
  · exact List.mem_of_getElem? hget

/-- Without a unary `holder` fact and without a rule for one, the query has no answer. -/
lemma queryAll_eq_nil (hfree : HolderFree tok) {facts : List Fact}
    (h : engine.queryAll { token := tok, builder := {} } holderQuery = .ok facts) :
    facts = [] := by
  refine List.eq_nil_iff_forall_not_mem.mpr fun fact hfact => ?_
  obtain ⟨σ, -, hbody, -⟩ := engine.queryAll_answers _ _ _ h fact hfact
  obtain ⟨origins, hknown⟩ := hbody _ (List.mem_singleton_self _)
  -- the fact that was found is stated by a block, as no rule concludes it
  have hrules : ∀ rule ∈ (Authorizer.program { token := tok, builder := {} }).rules,
      rule.head.name ≠ "holder" := by
    intro rule hrule
    obtain ⟨b, hb, source, hsource, hhead⟩ := head_of_mem_rules hrule
    rw [hhead]
    exact hfree.rules _ (mem_blocks_of_mem_rules hb hsource) _ hsource
  rw [Authorizer.model, Datalog.Program.mem_model_iff_mem_facts hrules rfl, mem_facts] at hknown
  obtain ⟨b, hb, -, hstated⟩ := hknown
  rcases mem_blocks.mp hb with rfl | ⟨i, hget, -⟩
  · cases hstated
  · exact hfree.facts _ (List.mem_of_getElem? hget) _ hstated

/-- **What passes the scans is what has no unary `holder` fact and no rule for one.** -/
lemma rejectHolderFacts_eq_ok : rejectHolderFacts engine.toEngine tok = .ok () ↔
    HolderFree tok ∧ Evaluates engine.toEngine tok := by
  constructor
  · intro h
    refine ⟨holderFree_of_rejectHolderFacts h, ?_⟩
    unfold rejectHolderFacts at h
    simp only [bind_eq_ok, mapError_eq_ok] at h
    obtain ⟨a, hbuild, facts, hquery, -⟩ := h
    exact ⟨a, facts, hbuild, hquery⟩
  · rintro ⟨hfree, a, facts, hbuild, hquery⟩
    obtain rfl := engine.build_eq _ _ _ hbuild
    obtain rfl := queryAll_eq_nil hfree hquery
    unfold rejectHolderFacts
    simp only [bind_eq_ok, mapError_eq_ok, ensure_eq_ok]
    refine ⟨_, hbuild, _, hquery, [], rfl, (), rfl, ?_⟩
    rintro ⟨rule, hrule, hhead⟩
    obtain ⟨b, hb, hmem⟩ := engine.dump_blocks _ rule hrule
    exact hfree.rules _ (mem_blocks_of_mem_rules hb hmem) rule hmem hhead

/-! ### An engine to run the model with -/

/-- `holder("aa", "bb");`. -/
def pairBlock : Block :=
  { facts := [{ name := "holder", terms := [.str "aa", .str "bb"] }] }

def pairToken : Biscuit := { blocks := [mintedBlock, pairBlock] }

/-- The answer of the query for holders to a fact. -/
def holderAnswer (fact : Fact) : Option Fact :=
  match fact.terms with
  | [v] => if fact.name = "holder" then some { name := "data", terms := [v] } else none
  | _ => none

lemma holderAnswer_eq_some {fact answer : Fact} :
    holderAnswer fact = some answer ↔
      ∃ v, fact = { name := "holder", terms := [v] } ∧
        answer = { name := "data", terms := [v] } := by
  obtain ⟨name, terms⟩ := fact
  unfold holderAnswer
  constructor
  · intro h
    simp only at h
    split at h
    · split_ifs at h with hname
      subst hname
      exact ⟨_, rfl, (Option.some.inj h).symm⟩
    · cases h
  · rintro ⟨v, hfact, rfl⟩
    cases hfact
    rfl

/-- The query for holders, where there are no rules to run. -/
def pairQueryAll (a : Authorizer) : Rule → Except String (List Fact)
  | ⟨⟨"data", [.var "h"]⟩, [⟨"holder", [.var "h"]⟩], [], []⟩ =>
    if a.program.rules.isEmpty then
      .ok (a.program.facts.filterMap fun fact => holderAnswer fact.2)
    else .error "limits"
  | _ => .error "limits"

lemma pairQueryAll_eq_ok {a : Authorizer} {rule : Rule} {facts : List Fact}
    (h : pairQueryAll a rule = .ok facts) : rule = holderQuery ∧ a.program.rules = [] ∧
      facts = a.program.facts.filterMap fun fact => holderAnswer fact.2 := by
  unfold pairQueryAll at h
  split at h
  · split_ifs at h with hrules
    exact ⟨rfl, List.isEmpty_iff.mp hrules, (Except.ok.inj h).symm⟩
  · cases h

/-- An engine that knows one token more. -/
def pairEngine : ExactEngine :=
  { sampleEngine with
    fromBytes := fun bytes _ => if bytes = [3] then .ok pairToken else sampleFromBytes bytes
    queryAll := pairQueryAll
    fromBytes_toVec := by
      intro token bytes key token' hwrite hread
      have hne : bytes ≠ [3] := by
        rintro rfl
        simp only [sampleEngine, sampleToVec] at hwrite
        split at hwrite <;> cases hwrite
      rw [if_neg hne] at hread
      exact sampleEngine.fromBytes_toVec token bytes key token' hwrite hread
    mem_queryAll := by
      intro a rule facts σ _ hquery hbody _
      obtain ⟨rfl, hrules, rfl⟩ := pairQueryAll_eq_ok hquery
      obtain ⟨origins, hknown⟩ := hbody _ (List.mem_singleton_self _)
      rw [Authorizer.model, Datalog.Program.mem_model_iff_mem_facts (n := "holder")
        (by simp [hrules]) rfl] at hknown
      exact List.mem_filterMap.mpr ⟨_, hknown, holderAnswer_eq_some.mpr ⟨_, rfl, rfl⟩⟩
    queryAll_answers := by
      intro a rule facts hquery fact hfact
      obtain ⟨rfl, hrules, rfl⟩ := pairQueryAll_eq_ok hquery
      obtain ⟨stated, hstated, hanswer⟩ := List.mem_filterMap.mp hfact
      obtain ⟨v, hv, rfl⟩ := holderAnswer_eq_some.mp hanswer
      refine ⟨fun _ => v, rfl, fun p hp => ?_, fun e he => ?_⟩
      · obtain rfl := List.mem_singleton.mp hp
        have hground : Datalog.Atom.ground (fun _ => v)
            ({ name := "holder", terms := [.var "h"] } : Predicate) = stated.2 := hv.symm
        rw [hground]
        exact ⟨stated.1, Datalog.Program.mem_model_of_mem_facts hstated⟩
      · cases he
    dump_blocks := by
      intro a rule hrule
      obtain ⟨b, hb, hmem⟩ := List.mem_flatMap.mp hrule
      exact ⟨b, hb, hmem⟩ }

lemma holderFree_pairToken : HolderFree pairToken := by
  constructor
  · intro b hb v
    rcases List.mem_pair.mp hb with rfl | rfl
    · simp [mintedBlock]
    · simp [pairBlock]
  · intro b hb rule hrule
    rcases List.mem_pair.mp hb with rfl | rfl <;> cases hrule

lemma statesHolder_pairToken : StatesHolder pairToken :=
  ⟨pairBlock, by simp [pairToken], _, List.mem_singleton_self _, rfl⟩

lemma evaluates_pairToken : Evaluates pairEngine.toEngine pairToken :=
  ⟨_, _, rfl, rfl⟩

/-! ### Tokens that assert a holder -/

/-- **A `holder` fact or rule is refused, unless no `holder` fact has one term.**  Of the tokens
that assert a holder, those are accepted that state only `holder` facts of another number of
terms and have no rule for `holder`, if `biscuit_auth` can evaluate them. -/
theorem parse_refuses_holder_iff (hread : engine.fromBytes bytes key = .ok tok) :
    (AssertsHolder tok → ∃ e, parse engine.toEngine bytes key = .error e) ↔
      ¬ (StatesHolder tok ∧ HolderFree tok ∧ Evaluates engine.toEngine tok) := by
  have hparse : parse engine.toEngine bytes key = .ok tok ↔
      HolderFree tok ∧ Evaluates engine.toEngine tok := by
    rw [parse_eq_ok, rejectHolderFacts_eq_ok]
    exact and_iff_right hread
  -- what is accepted is the token that was read
  have herror : (∃ e, parse engine.toEngine bytes key = .error e) ↔
      ¬ parse engine.toEngine bytes key = .ok tok := by
    cases h : parse engine.toEngine bytes key with
    | error e => simp
    | ok tok' =>
      obtain rfl : tok' = tok :=
        Except.ok.inj ((parse_eq_ok.mp h).1.symm.trans hread)
      simp
  rw [herror, hparse]
  constructor
  · rintro h ⟨hstates, haccepted⟩
    exact h (.inl hstates) haccepted
  · rintro h (hstates | ⟨b, hb, rule, hrule, hhead⟩) haccepted
    · exact h ⟨hstates, haccepted⟩
    · exact haccepted.1.rules b hb rule hrule hhead

/-- The token with the fact of two terms is accepted. -/
theorem parse_refuses_holder_iff_pair :
    ¬ (AssertsHolder pairToken → ∃ e, parse pairEngine.toEngine [3] [] = .error e) := by
  have hread : pairEngine.fromBytes [3] [] = .ok pairToken := rfl
  rw [parse_refuses_holder_iff hread, not_not]
  exact ⟨statesHolder_pairToken, holderFree_pairToken, evaluates_pairToken⟩

/-- A token that asserts a holder in a form that the query does not match is accepted. -/
theorem parse_accepts_holder_pair :
    ¬ ∀ (engine : ExactEngine) (bytes : Bytes) (key : PublicKey) (tok : Biscuit),
      engine.fromBytes bytes key = .ok tok → AssertsHolder tok →
      ∃ e, parse engine.toEngine bytes key = .error e := by
  intro h
  obtain ⟨e, he⟩ := h pairEngine [3] [] pairToken rfl (.inl statesHolder_pairToken)
  have hok : parse pairEngine.toEngine [3] [] = .ok pairToken :=
    parse_eq_ok.mpr ⟨rfl, rejectHolderFacts_eq_ok.mpr ⟨holderFree_pairToken, evaluates_pairToken⟩⟩
  rw [hok] at he
  cases he

end Identikey.Capability
