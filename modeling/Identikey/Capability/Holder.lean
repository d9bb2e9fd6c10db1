/-
Holder checks.

A token that `parse` accepts states no `holder` fact and has no rule that concludes one.
So whatever the verifier adds, the only `holder` fact is the one it injects; and a token
with a holder check, however much further attenuated, is good for that holder alone.
-/
import Identikey.Capability.Capability

set_option linter.dupNamespace false

namespace Identikey.Capability

open Lib Lib.Fallible Auth

variable {engine : Engine} {bytes bytes' : Bytes} {key : PublicKey} {tok tok' : Biscuit}

/-! ### What is accepted -/

/-- No block has a unary `holder` fact, and none a rule that concludes `holder`. -/
structure HolderFree (tok : Biscuit) : Prop where
  facts : ∀ b ∈ tok.blocks, ∀ v : Value, { name := "holder", terms := [v] } ∉ b.facts
  rules : ∀ b ∈ tok.blocks, ∀ rule ∈ b.rules, rule.head.name ≠ "holder"

/-- The blocks of an authorizer are the verifier's and the token's. -/
lemma mem_blocks {a : Authorizer} {b : Origin × Block} :
    b ∈ a.blocks ↔ b = (.authorizer, a.builder.block) ∨
      ∃ i, a.token.blocks[i]? = some b.2 ∧ b.1 = .block i := by
  rw [Authorizer.blocks, List.mem_cons, List.mem_map]
  refine or_congr_right ⟨?_, ?_⟩
  · rintro ⟨⟨block, i⟩, hmem, rfl⟩
    exact ⟨i, List.mem_zipIdx_iff_getElem?.mp hmem, rfl⟩
  · rintro ⟨i, hget, horigin⟩
    exact ⟨(b.2, i), List.mem_zipIdx_iff_getElem?.mpr hget, Prod.ext horigin.symm rfl⟩

lemma mem_blocks_of_mem {a : Authorizer} {b : Block} (h : b ∈ a.token.blocks) :
    ∃ i, (Origin.block i, b) ∈ a.blocks := by
  obtain ⟨i, hi⟩ := List.mem_iff_getElem?.mp h
  exact ⟨i, mem_blocks.mpr (.inr ⟨i, hi, rfl⟩)⟩

/-- A fact of the program is stated by one of the blocks. -/
lemma mem_facts {a : Authorizer} {x : Finset Origin × Fact} :
    x ∈ a.program.facts ↔ ∃ b ∈ a.blocks, x.1 = {b.1} ∧ x.2 ∈ b.2.facts := by
  rw [Authorizer.program, List.mem_flatMap]
  refine exists_congr fun b => and_congr_right fun _ => ?_
  rw [List.mem_map]
  constructor
  · rintro ⟨fact, hfact, rfl⟩
    exact ⟨rfl, hfact⟩
  · rintro ⟨horigin, hfact⟩
    exact ⟨x.2, hfact, Prod.ext horigin.symm rfl⟩

/-- A rule of the program has the head of a rule of one of the blocks. -/
lemma head_of_mem_rules {a : Authorizer}
    {rule : Datalog.Rule String String Value Expression Origin} (h : rule ∈ a.program.rules) :
    ∃ b ∈ a.blocks, ∃ source ∈ b.2.rules, rule.head = source.head := by
  obtain ⟨b, hb, hrule⟩ := List.mem_flatMap.mp h
  obtain ⟨source, hsource, rfl⟩ := List.mem_map.mp hrule
  exact ⟨b, hb, source, hsource, rfl⟩

/-- **What `reject_holder_facts` lets through is free of `holder`.** -/
lemma holderFree_of_rejectHolderFacts (h : rejectHolderFacts engine tok = .ok ()) :
    HolderFree tok := by
  unfold rejectHolderFacts at h
  simp only [bind_eq_ok, mapError_eq_ok, ensure_eq_ok] at h
  obtain ⟨a, hbuild, facts, hquery, hits, hhits, _, hnone, hrules⟩ := h
  obtain rfl := engine.build_eq _ _ _ hbuild
  constructor
  · intro b hb v hfact
    obtain ⟨i, hi⟩ := @mem_blocks_of_mem { token := tok, builder := {} } b hb
    -- a stated fact is known, so that the query finds it
    have hknown : ({.block i}, { name := "holder", terms := [v] }) ∈
        Authorizer.model engine.holds { token := tok, builder := {} } :=
      Datalog.Program.mem_model_of_mem_facts (mem_facts.mpr ⟨_, hi, rfl, hfact⟩)
    have hanswer := engine.mem_queryAll _ _ _ (fun _ => v) rfl hquery
      (by simpa [holderQuery] using ⟨_, hknown⟩) (by simp [holderQuery])
    -- and one answer is one hit, if all are converted
    rw [mapM_eq_ok] at hhits
    subst hnone
    cases hhits
    exact absurd hanswer List.not_mem_nil
  · intro b hb rule hrule hhead
    obtain ⟨i, hi⟩ := @mem_blocks_of_mem { token := tok, builder := {} } b hb
    exact hrules ⟨rule, engine.mem_dump _ _ hi rule hrule, hhead⟩

lemma parse_eq_ok : parse engine bytes key = .ok tok ↔
    engine.fromBytes bytes key = .ok tok ∧ rejectHolderFacts engine tok = .ok () := by
  unfold parse
  simp only [bind_eq_ok, mapError_eq_ok, pure_eq_ok]
  constructor
  · rintro ⟨_, hread, _, hreject, rfl⟩
    exact ⟨hread, hreject⟩
  · rintro ⟨hread, hreject⟩
    exact ⟨tok, hread, (), hreject, rfl⟩

/-! ### What is known to the verifier -/

/-- The verifier states a `holder` fact only if it is given a holder, and has no rules. -/
lemma authorizerCode_block (holderFp : Option String) (resource operation : String) :
    (authorizerCode holderFp resource operation).block =
      { facts := (holderFp.map fun fp => { name := "holder", terms := [.str fp] }).toList } := by
  cases holderFp <;> rfl

/-- A block that the verifier sees is its own or is free of `holder`. -/
lemma head_ne_of_mem_blocks (hfree : HolderFree tok) {holderFp : Option String}
    {resource operation : String} {b : Origin × Block}
    (hb : b ∈ Authorizer.blocks
      { token := tok, builder := authorizerCode holderFp resource operation }) :
    ∀ rule ∈ b.2.rules, rule.head.name ≠ "holder" := by
  rcases mem_blocks.mp hb with rfl | ⟨i, hget, -⟩
  · simp [authorizerCode_block]
  · exact hfree.rules b.2 (List.mem_of_getElem? hget)

/-- **The only holder is the one that the verifier injects.** -/
lemma mem_model_holder_iff (hfree : HolderFree tok) {holderFp : Option String}
    {resource operation : String} {origins : Finset Origin} {v : Value} :
    (origins, { name := "holder", terms := [v] }) ∈ Authorizer.model engine.holds
        { token := tok, builder := authorizerCode holderFp resource operation } ↔
      origins = {.authorizer} ∧ ∃ fp, holderFp = some fp ∧ v = .str fp := by
  have hrules : ∀ rule ∈ (Authorizer.program
      { token := tok, builder := authorizerCode holderFp resource operation }).rules,
      rule.head.name ≠ "holder" := by
    intro rule hrule
    obtain ⟨b, hb, source, hsource, hhead⟩ := head_of_mem_rules hrule
    rw [hhead]
    exact head_ne_of_mem_blocks hfree hb source hsource
  rw [Authorizer.model, Datalog.Program.mem_model_iff_mem_facts hrules rfl, mem_facts]
  constructor
  · rintro ⟨b, hb, horigin, hfact⟩
    rcases mem_blocks.mp hb with rfl | ⟨i, hget, -⟩
    · rw [authorizerCode_block, Option.mem_toList, Option.map_eq_some_iff] at hfact
      obtain ⟨fp, hfp, heq⟩ := hfact
      exact ⟨horigin, fp, hfp, by simpa using heq.symm⟩
    · exact absurd hfact (hfree.facts b.2 (List.mem_of_getElem? hget) v)
  · rintro ⟨rfl, fp, rfl, rfl⟩
    exact ⟨_, mem_blocks.mpr (.inl rfl), rfl, by simp [authorizerCode_block]⟩

/-! ### Attenuation -/

/-- Bytes that come of a token by appending blocks, any number of times. -/
inductive Attenuated (engine : Engine) (bytes : Bytes) : Bytes → Prop where
  | refl : Attenuated engine bytes bytes
  | append {bytes₁ bytes₂ : Bytes} {key : PublicKey} {tok tok' : Biscuit} {block : Block}
      (h : Attenuated engine bytes bytes₁) (hread : engine.fromBytes bytes₁ key = .ok tok)
      (happend : engine.append tok block = .ok tok') (hwrite : engine.toVec tok' = .ok bytes₂) :
      Attenuated engine bytes bytes₂

/-- The blocks that a token had when it was written stay in front. -/
lemma blocks_prefix_of_attenuated (hwrite : engine.toVec tok = .ok bytes)
    (h : Attenuated engine bytes bytes') :
    ∀ {key tok'}, engine.fromBytes bytes' key = .ok tok' → tok.blocks <+: tok'.blocks := by
  induction h with
  | refl =>
    intro key tok' hread
    rw [engine.fromBytes_toVec _ _ _ _ hwrite hread]
  | append _ hread₁ happend hwrite₂ ih =>
    intro key tok' hread
    rw [engine.fromBytes_toVec _ _ _ _ hwrite₂ hread, engine.append_blocks _ _ _ happend]
    exact (ih hread₁).trans (List.prefix_append _ _)

lemma appendHolderCheck_eq_ok {fp : String} :
    appendHolderCheck engine tok fp = .ok bytes ↔
      ∃ next, engine.append tok (holderBlock fp) = .ok next ∧ engine.toVec next = .ok bytes := by
  unfold appendHolderCheck
  simp only [bind_eq_ok, mapError_eq_ok]

lemma authorize_eq_ok {holderFp : Option String} {resource operation : String} :
    authorize engine bytes key holderFp resource operation = .ok () ↔
      ∃ tok, parse engine bytes key = .ok tok ∧ ∃ built i,
        engine.build (authorizerCode holderFp resource operation) tok = .ok built ∧
        engine.authorize built = .ok i := by
  unfold authorize
  simp only [bind_eq_ok, mapError_eq_ok, pure_eq_ok]
  constructor
  · rintro ⟨tok, hparse, built, hbuild, i, hauthorize, -⟩
    exact ⟨tok, hparse, built, i, hbuild, hauthorize⟩
  · rintro ⟨tok, hparse, built, i, hbuild, hauthorize⟩
    exact ⟨tok, hparse, built, hbuild, i, hauthorize, trivial⟩

/-- The check of a holder holds only for that holder. -/
lemma holder_of_checkHolds (hfree : HolderFree tok) {holderFp : Option String}
    {resource operation fp : String} {b : Origin × Block}
    (h : ∀ check ∈ (holderBlock fp).checks, Authorizer.CheckHolds engine.holds
      { token := tok, builder := authorizerCode holderFp resource operation } b check) :
    holderFp = some fp := by
  obtain ⟨q, hq, σ, origins, hmatch⟩ := h _ (List.mem_singleton_self _)
  obtain rfl := List.mem_singleton.mp hq
  have hknown := hmatch.known ⟨0, by simp [Authorizer.query]⟩
  obtain ⟨-, fp', rfl, hvalue⟩ := (mem_model_holder_iff hfree).mp hknown
  have hequal : σ "fp" = .str fp := hmatch.guards _ (List.mem_singleton_self _)
  rw [Datalog.Term.ground, hequal, Value.str.injEq] at hvalue
  rw [hvalue]

/-! ### An engine to run the model with -/

def mintedBlock : Block :=
  { facts := [{ name := "right", terms := [.str "example", .str "read"] }] }

def mintedToken : Biscuit := { blocks := [mintedBlock] }

def heldToken : Biscuit := { blocks := [mintedBlock, holderBlock "FP"] }

/-- The bytes of these two tokens. -/
def sampleToVec : Biscuit → Except String Bytes
  | ⟨[⟨[⟨"right", [.str "example", .str "read"]⟩], [], [], [], none⟩]⟩ => .ok [1]
  | ⟨[⟨[⟨"right", [.str "example", .str "read"]⟩], [], [], [], none⟩,
      ⟨[], [], [⟨.one, [⟨⟨"query", []⟩, [⟨"holder", [.var "fp"]⟩],
        [.equal (.var "fp") (.const (.str "FP"))], []⟩]⟩], [], none⟩]⟩ => .ok [2]
  | _ => .error "unknown token"

def sampleFromBytes (bytes : Bytes) : Except String Biscuit :=
  if bytes = [1] then .ok mintedToken
  else if bytes = [2] then .ok heldToken
  else .error "signature"

/-- The query for holders, where there are no rules to run. -/
def sampleQueryAll (a : Authorizer) : Rule → Except String (List Fact)
  | ⟨⟨"data", [.var "h"]⟩, [⟨"holder", [.var "h"]⟩], [], []⟩ =>
    if a.program.rules.isEmpty then
      .ok ((a.program.facts.filter fun fact => fact.2.name = "holder").map fun fact =>
        { name := "data", terms := fact.2.terms })
    else .error "limits"
  | _ => .error "limits"

/-- The one request that is allowed: to read the example, by the holder of the second token. -/
def sampleAuthorize : Authorizer → Except String ℕ
  | ⟨⟨[⟨[⟨"right", [.str "example", .str "read"]⟩], [], [], [], none⟩,
      ⟨[], [], [⟨.one, [⟨⟨"query", []⟩, [⟨"holder", [.var "fp"]⟩],
        [.equal (.var "fp") (.const (.str "FP"))], []⟩]⟩], [], none⟩]⟩,
      ⟨⟨[⟨"holder", [.str "FP"]⟩], [], [], [], none⟩,
        [⟨.allow, [⟨⟨"query", []⟩,
          [⟨"right", [.const (.str "example"), .const (.str "read")]⟩], [], []⟩]⟩]⟩⟩ => .ok 0
  | _ => .error "denied"

lemma sampleAuthorize_eq_ok {a : Authorizer} {i : ℕ} (h : sampleAuthorize a = .ok i) :
    a = { token := heldToken, builder := authorizerCode (some "FP") "example" "read" } ∧ i = 0 := by
  unfold sampleAuthorize at h
  split at h
  · exact ⟨rfl, (Except.ok.inj h).symm⟩
  · cases h

lemma sampleQueryAll_eq_ok {a : Authorizer} {rule : Rule} {facts : List Fact}
    (h : sampleQueryAll a rule = .ok facts) : rule = holderQuery ∧ a.program.rules = [] ∧
      facts = (a.program.facts.filter fun fact => fact.2.name = "holder").map fun fact =>
        { name := "data", terms := fact.2.terms } := by
  unfold sampleQueryAll at h
  split at h
  · split_ifs at h with hrules
    exact ⟨rfl, List.isEmpty_iff.mp hrules, (Except.ok.inj h).symm⟩
  · cases h

/-- The check of the second token, with the fact that the verifier injects. -/
lemma heldToken_checkHolds {holds : String → (String → Value) → Prop} {b : Origin × Block}
    (hb : b ∈ Authorizer.blocks
      { token := heldToken, builder := authorizerCode (some "FP") "example" "read" })
    {check : Check} (hcheck : check ∈ b.2.checks) :
    Authorizer.CheckHolds holds
      { token := heldToken, builder := authorizerCode (some "FP") "example" "read" } b check := by
  have hblocks : b = (.authorizer, (authorizerCode (some "FP") "example" "read").block) ∨
      b = (.block 0, mintedBlock) ∨ b = (.block 1, holderBlock "FP") := by
    simpa [Authorizer.blocks, heldToken] using hb
  rcases hblocks with rfl | rfl | rfl
  · cases hcheck
  · cases hcheck
  · obtain rfl := List.mem_singleton.mp hcheck
    refine ⟨_, List.mem_singleton_self _, fun _ => .str "FP", fun _ => {.authorizer}, ?_, ?_, ?_⟩
    · intro i
      refine Datalog.Program.mem_model_of_mem_facts
        (mem_facts.mpr ⟨_, mem_blocks.mpr (.inl rfl), ?_⟩)
      obtain ⟨i, hi⟩ := i
      obtain rfl : i = 0 := by simpa [Authorizer.query] using hi
      exact ⟨rfl, List.mem_singleton_self _⟩
    · intro i
      simp [Authorizer.query, trustedOrigins]
    · intro e he
      obtain rfl := List.mem_singleton.mp he
      rfl

/-- An engine that knows the two tokens. -/
def sampleEngine : Engine where
  holds _ _ := False
  fromBytes bytes _ := sampleFromBytes bytes
  toVec := sampleToVec
  append tok block := .ok { blocks := tok.blocks ++ [block] }
  build builder token := .ok { token, builder }
  queryAll := sampleQueryAll
  dump a := a.blocks.flatMap fun b => b.2.rules
  authorize := sampleAuthorize
  fromBytes_toVec token bytes key token' hwrite hread := by
    unfold sampleToVec at hwrite
    split at hwrite
    · cases hwrite
      exact (Except.ok.inj hread).symm
    · cases hwrite
      exact (Except.ok.inj hread).symm
    · cases hwrite
  append_blocks token block token' h := by
    obtain rfl := Except.ok.inj h
    rfl
  build_eq builder token a h := (Except.ok.inj h).symm
  mem_queryAll a rule facts σ _ hquery hbody _ := by
    obtain ⟨rfl, hrules, rfl⟩ := sampleQueryAll_eq_ok hquery
    obtain ⟨origins, hknown⟩ := hbody _ (List.mem_singleton_self _)
    rw [Authorizer.model, Datalog.Program.mem_model_iff_mem_facts (n := "holder")
      (by simp [hrules]) rfl] at hknown
    exact List.mem_map.mpr ⟨_, List.mem_filter.mpr ⟨hknown, by simp⟩, rfl⟩
  mem_dump a b hb rule hrule := List.mem_flatMap.mpr ⟨b, hb, hrule⟩
  checks_of_authorize a i h b hb check hcheck := by
    obtain ⟨rfl, rfl⟩ := sampleAuthorize_eq_ok h
    exact heldToken_checkHolds hb hcheck
  policy_of_authorize a i h := by
    obtain ⟨rfl, rfl⟩ := sampleAuthorize_eq_ok h
    refine ⟨_, rfl, rfl, _, List.mem_singleton_self _, fun _ => .null, fun _ => {.block 0},
      ?_, ?_, ?_⟩
    · intro i
      refine Datalog.Program.mem_model_of_mem_facts
        (mem_facts.mpr ⟨(.block 0, mintedBlock), mem_blocks.mpr (.inr ⟨0, rfl, rfl⟩), ?_⟩)
      obtain ⟨i, hi⟩ := i
      obtain rfl : i = 0 := by simpa [Authorizer.query] using hi
      exact ⟨rfl, List.mem_singleton_self _⟩
    · intro i
      simp [Authorizer.query, trustedOrigins, authorizerCode]
    · intro e he
      cases he

/-! ### The holder of a token -/

/-- **A holder check cannot be satisfied by the token itself.**  When an accepted token is
authorized, the `holder` facts are those that the verifier injects; and a token with a holder
check, attenuated in whatever way, is authorized only for that holder. -/
theorem holder_check_binds (engine : Engine) :
    (∀ (bytes : Bytes) (key : PublicKey) (tok : Biscuit), parse engine bytes key = .ok tok →
      ∀ (holderFp : Option String) (resource operation : String) (v : Value),
      (∃ origins, (origins, { name := "holder", terms := [v] }) ∈ Authorizer.model engine.holds
        { token := tok, builder := authorizerCode holderFp resource operation }) ↔
      ∃ fp, holderFp = some fp ∧ v = .str fp) ∧
    ∀ (tok : Biscuit) (fp : String) (held bytes : Bytes),
      appendHolderCheck engine tok fp = .ok held → Attenuated engine held bytes →
      ∀ (key : PublicKey) (holderFp : Option String) (resource operation : String),
      authorize engine bytes key holderFp resource operation = .ok () → holderFp = some fp := by
  constructor
  · intro bytes key tok hparse holderFp resource operation v
    have hfree := holderFree_of_rejectHolderFacts (parse_eq_ok.mp hparse).2
    constructor
    · rintro ⟨origins, hknown⟩
      exact ((mem_model_holder_iff hfree).mp hknown).2
    · intro hinjected
      exact ⟨{.authorizer}, (mem_model_holder_iff hfree).mpr ⟨rfl, hinjected⟩⟩
  · intro tok fp held bytes happend hattenuated key holderFp resource operation hauthorize
    obtain ⟨next, hnext, hwrite⟩ := appendHolderCheck_eq_ok.mp happend
    obtain ⟨tok', hparse, built, i, hbuild, hpass⟩ := authorize_eq_ok.mp hauthorize
    obtain ⟨hread, hreject⟩ := parse_eq_ok.mp hparse
    obtain rfl := engine.build_eq _ _ _ hbuild
    have hblock : holderBlock fp ∈ tok'.blocks := by
      refine (blocks_prefix_of_attenuated hwrite hattenuated hread).subset ?_
      rw [engine.append_blocks _ _ _ hnext]
      simp
    obtain ⟨j, hj⟩ := @mem_blocks_of_mem
      { token := tok', builder := authorizerCode holderFp resource operation } _ hblock
    exact holder_of_checkHolds (holderFree_of_rejectHolderFacts hreject)
      (engine.checks_of_authorize _ _ hpass _ hj)

/-- The holder may read the example with the second token, and nobody else. -/
theorem holder_check_binds_example :
    authorize sampleEngine [2] [] (some "FP") "example" "read" = .ok () ∧
    ∀ holderFp, authorize sampleEngine [2] [] holderFp "example" "read" = .ok () →
      holderFp = some "FP" := by
  have happend : appendHolderCheck sampleEngine mintedToken "FP" = .ok [2] := rfl
  refine ⟨rfl, fun holderFp hauthorize => ?_⟩
  exact (holder_check_binds sampleEngine).2 _ _ _ _ happend .refl _ _ _ _ hauthorize

end Identikey.Capability
