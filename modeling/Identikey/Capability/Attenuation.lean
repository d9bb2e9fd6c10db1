/-
Attenuation never widens.

A block that is appended to a token cannot touch what the blocks before it know: they trust
neither its facts nor its rules, unless it is signed under a key that one of them names.  So a
token with more blocks of the first party permits what it permitted before, where its new checks
hold as well (`attenuation_restricts`).  The verifier's policy trusts the authority block alone;
what it allows is not changed by blocks of anybody.
-/
import Identikey.Lib.DatalogScope
import Identikey.Capability.Holder

set_option linter.dupNamespace false

namespace Identikey.Capability

open Lib Lib.Fallible Auth

/-- The token under the verifier's Datalog of `authorize`. -/
def under (tok : Biscuit) (holderFp : Option String) (resource operation : String) : Authorizer :=
  { token := tok, builder := authorizerCode holderFp resource operation }

/-- All checks hold, and the verifier's policy has an answer. -/
structure Permits (holds : String → (String → Value) → Prop) (tok : Biscuit)
    (holderFp : Option String) (resource operation : String) : Prop where
  checks : ∀ b ∈ (under tok holderFp resource operation).blocks, ∀ check ∈ b.2.checks,
    (under tok holderFp resource operation).CheckHolds holds b check
  policy : ∃ q ∈ (allowRight resource operation).queries,
    (under tok holderFp resource operation).QueryMatches holds
      (.authorizer, (authorizerCode holderFp resource operation).block) q

/-- The verifier, and the first blocks of a token. -/
def early (n : ℕ) : Set Origin := {o | ∀ i, o = .block i → i < n}

lemma authorizer_mem_early (n : ℕ) : Origin.authorizer ∈ early n := fun _ h => by cases h

lemma block_mem_early {i n : ℕ} : Origin.block i ∈ early n ↔ i < n :=
  ⟨fun h => h i rfl, fun h j hj => by cases hj; exact h⟩

section Append

variable {holds : String → (String → Value) → Prop} {tok tok' : Biscuit} {extra : List Block}
  {holderFp : Option String} {resource operation : String}

/-! ### Blocks and what they trust -/

/-- The blocks of a token are those of the longer one, under the same indices. -/
lemma mem_blocks_append (happend : tok'.blocks = tok.blocks ++ extra) {b : Origin × Block} :
    b ∈ (under tok holderFp resource operation).blocks ↔
      b ∈ (under tok' holderFp resource operation).blocks ∧ b.1 ∈ early tok.blocks.length := by
  rw [mem_blocks, mem_blocks]
  show (_ ∨ ∃ i, tok.blocks[i]? = _ ∧ _) ↔ (_ ∨ ∃ i, tok'.blocks[i]? = _ ∧ _) ∧ _
  rw [happend]
  constructor
  · rintro (rfl | ⟨i, hget, horigin⟩)
    · exact ⟨.inl rfl, authorizer_mem_early _⟩
    · have hlt := (List.getElem?_eq_some_iff.mp hget).1
      rw [horigin]
      exact ⟨.inr ⟨i, by rw [List.getElem?_append_left hlt, hget], rfl⟩, block_mem_early.mpr hlt⟩
  · rintro ⟨hverifier | ⟨i, hget, horigin⟩, hearly⟩
    · exact .inl hverifier
    · rw [horigin, block_mem_early] at hearly
      rw [List.getElem?_append_left hearly] at hget
      exact .inr ⟨i, hget, horigin⟩

/-- A scope names the same blocks among the first ones. -/
lemma mem_scope_append (keys more : List (Option PublicKey)) (current : Origin) (scope : Scope)
    {o : Origin} (ho : o ∈ early keys.length) :
    o ∈ scope.origins (keys ++ more) current ↔ o ∈ scope.origins keys current := by
  cases scope with
  | authority => rfl
  | previous => rfl
  | publicKey key =>
    rw [Scope.origins, Scope.origins, List.mem_map, List.mem_map]
    refine exists_congr fun i => and_congr_left fun hi => ?_
    subst hi
    have hlt := block_mem_early.mp ho
    rw [List.mem_filter, List.mem_filter, List.mem_range, List.mem_range, List.length_append,
      List.getElem?_append_left hlt]
    exact and_congr_left fun _ => iff_of_true (by omega) hlt

/-- And nothing else, where the blocks after them are not signed under a key. -/
lemma scope_append_none (keys : List (Option PublicKey)) {more : List (Option PublicKey)}
    (hmore : ∀ key ∈ more, key = none) (current : Origin) (scope : Scope) :
    scope.origins (keys ++ more) current = scope.origins keys current := by
  cases scope with
  | authority => rfl
  | previous => rfl
  | publicKey key =>
    rw [Scope.origins, Scope.origins, List.length_append, List.range_add, List.filter_append]
    have hlate : (((List.range more.length).map (keys.length + ·)).filter fun i =>
        decide ((keys ++ more)[i]? = some (some key))) = [] := by
      refine List.filter_eq_nil_iff.mpr fun i hi => ?_
      obtain ⟨j, -, rfl⟩ := List.mem_map.mp hi
      rw [decide_eq_true_eq, List.getElem?_append_right (Nat.le_add_right _ _),
        Nat.add_sub_cancel_left]
      intro hget
      cases hmore _ (List.mem_of_getElem? hget)
    rw [hlate, List.append_nil]
    congr 1
    refine List.filter_congr fun i hi => ?_
    rw [List.getElem?_append_left (List.mem_range.mp hi)]

/-- What is trusted is the same among the first blocks. -/
lemma mem_trusted_append (keys more : List (Option PublicKey))
    {byDefault byDefault' : Finset Origin} (current : Origin) (scopes : List Scope) {o : Origin}
    (ho : o ∈ early keys.length)
    (hdefault : o ∈ byDefault' ↔ o ∈ byDefault) :
    o ∈ trustedOrigins (keys ++ more) byDefault' current scopes ↔
      o ∈ trustedOrigins keys byDefault current scopes := by
  cases scopes with
  | nil => simp [trustedOrigins, hdefault]
  | cons scope scopes =>
    simp only [trustedOrigins, Finset.mem_insert, List.mem_toFinset, List.mem_flatMap]
    refine or_congr_right (or_congr_right (exists_congr fun s => and_congr_right fun _ => ?_))
    exact mem_scope_append keys more current s ho

lemma mem_query_append (happend : tok'.blocks = tok.blocks ++ extra) (b : Origin × Block)
    (rule : Rule) {o : Origin} (ho : o ∈ early tok.blocks.length) :
    o ∈ ((under tok' holderFp resource operation).query b rule).trusted ↔
      o ∈ ((under tok holderFp resource operation).query b rule).trusted := by
  have hkeys : (tok.blocks.map Block.externalKey).length = tok.blocks.length := List.length_map ..
  show o ∈ trustedOrigins (tok'.blocks.map _) (trustedOrigins (tok'.blocks.map _) _ _ _) _ _ ↔
    o ∈ trustedOrigins (tok.blocks.map _) (trustedOrigins (tok.blocks.map _) _ _ _) _ _
  rw [happend, List.map_append]
  rw [← hkeys] at ho
  exact mem_trusted_append _ _ _ _ ho (mem_trusted_append _ _ _ _ ho Iff.rfl)

lemma query_append (happend : tok'.blocks = tok.blocks ++ extra)
    (hfirst : ∀ b ∈ extra, b.externalKey = none) (b : Origin × Block) (rule : Rule) :
    (under tok' holderFp resource operation).query b rule =
      (under tok holderFp resource operation).query b rule := by
  have hmore : ∀ key ∈ extra.map Block.externalKey, key = none := by
    intro key hkey
    obtain ⟨block, hblock, rfl⟩ := List.mem_map.mp hkey
    exact hfirst block hblock
  have htrusted : ∀ byDefault scopes, trustedOrigins (tok'.blocks.map Block.externalKey) byDefault
      b.1 scopes = trustedOrigins (tok.blocks.map Block.externalKey) byDefault b.1 scopes := by
    intro byDefault scopes
    rw [happend, List.map_append]
    cases scopes with
    | nil => rfl
    | cons scope scopes =>
      have hscopes : Scope.origins (tok.blocks.map Block.externalKey ++
          extra.map Block.externalKey) b.1 = Scope.origins (tok.blocks.map Block.externalKey) b.1 :=
        funext fun s => scope_append_none _ hmore b.1 s
      rw [trustedOrigins, trustedOrigins, hscopes]
      · exact List.cons_ne_nil _ _
      · exact List.cons_ne_nil _ _
  simp only [Authorizer.query, under, htrusted]

/-- A block of the first ones trusts these only. -/
lemma query_trusted_early {b : Origin × Block} (hne : tok.blocks ≠ [])
    (hb : b.1 ∈ early tok.blocks.length) (rule : Rule) :
    ↑((under tok holderFp resource operation).query b rule).trusted ⊆
      early tok.blocks.length := by
  have hlen : 0 < tok.blocks.length := List.length_pos_iff.mpr hne
  have hscope : ∀ scope : Scope, ∀ o ∈ scope.origins (tok.blocks.map Block.externalKey) b.1,
      o ∈ early tok.blocks.length := by
    intro scope o ho
    cases scope with
    | authority =>
      rw [List.mem_singleton.mp ho]
      exact block_mem_early.mpr hlen
    | previous =>
      cases hcur : b.1 with
      | block i =>
        rw [hcur] at ho hb
        obtain ⟨j, hj, rfl⟩ := List.mem_map.mp ho
        have := block_mem_early.mp hb
        have := List.mem_range.mp hj
        exact block_mem_early.mpr (by omega)
      | authorizer =>
        rw [hcur] at ho
        cases ho
    | publicKey key =>
      obtain ⟨j, hj, rfl⟩ := List.mem_map.mp ho
      have := List.mem_range.mp (List.mem_filter.mp hj).1
      rw [List.length_map] at this
      exact block_mem_early.mpr this
  have htrusted : ∀ (byDefault : Finset Origin) scopes, ↑byDefault ⊆ early tok.blocks.length →
      ↑(trustedOrigins (tok.blocks.map Block.externalKey) byDefault b.1 scopes) ⊆
        early tok.blocks.length := by
    intro byDefault scopes hdefault o ho
    have hins : ∀ rest : Finset Origin, (∀ x ∈ rest, x ∈ early tok.blocks.length) →
        o ∈ insert Origin.authorizer (insert b.1 rest) → o ∈ early tok.blocks.length := by
      intro rest hrest hmem
      rcases Finset.mem_insert.mp hmem with rfl | hmem
      · exact authorizer_mem_early _
      · rcases Finset.mem_insert.mp hmem with rfl | hmem
        · exact hb
        · exact hrest o hmem
    cases scopes with
    | nil => exact hins byDefault (fun x hx => hdefault hx) ho
    | cons scope scopes =>
      refine hins _ (fun x hx => ?_) ho
      obtain ⟨s, -, hs⟩ := List.mem_flatMap.mp (List.mem_toFinset.mp hx)
      exact hscope s x hs
  refine htrusted _ _ (htrusted _ _ ?_)
  intro o ho
  rw [Finset.coe_singleton, Set.mem_singleton_iff] at ho
  rw [ho]
  exact block_mem_early.mpr hlen

/-! ### What is known -/

/-- A rule of the program is a rule of a block. -/
lemma mem_rules {a : Authorizer} {r : Datalog.Rule String String Value Expression Origin} :
    r ∈ a.program.rules ↔ ∃ b ∈ a.blocks, ∃ source ∈ b.2.rules,
      r = { toQuery := a.query b source, owner := b.1, head := source.head } := by
  rw [Authorizer.program, List.mem_flatMap]
  refine exists_congr fun b => and_congr_right fun _ => ?_
  rw [List.mem_map]
  exact exists_congr fun source => and_congr_right fun _ => eq_comm

/-- Among some of the first blocks, the programs of the two tokens agree. -/
lemma agree_append (happend : tok'.blocks = tok.blocks ++ extra) {S : Set Origin}
    (hS : S ⊆ early tok.blocks.length) :
    (under tok holderFp resource operation).program.Agree S
      (under tok' holderFp resource operation).program := by
  constructor
  · constructor
    · intro x hx _
      obtain ⟨b, hb, horigin, hfact⟩ := mem_facts.mp hx
      exact mem_facts.mpr ⟨b, ((mem_blocks_append happend).mp hb).1, horigin, hfact⟩
    · intro r hr _
      obtain ⟨b, hb, source, hsource, rfl⟩ := mem_rules.mp hr
      refine ⟨((under tok' holderFp resource operation).query b source).trusted, ?_, ?_⟩
      · exact mem_rules.mpr ⟨b, ((mem_blocks_append happend).mp hb).1, source, hsource, rfl⟩
      · intro o ho htrusted
        exact (mem_query_append happend b source (hS ho)).mpr htrusted
  · constructor
    · intro x hx hin
      obtain ⟨b, hb, horigin, hfact⟩ := mem_facts.mp hx
      have howner : b.1 ∈ early tok.blocks.length := by
        refine hS (hin ?_)
        rw [horigin]
        exact Finset.mem_coe.mpr (Finset.mem_singleton_self _)
      exact mem_facts.mpr ⟨b, (mem_blocks_append happend).mpr ⟨hb, howner⟩, horigin, hfact⟩
    · intro r hr howner
      obtain ⟨b, hb, source, hsource, rfl⟩ := mem_rules.mp hr
      refine ⟨((under tok holderFp resource operation).query b source).trusted, ?_, ?_⟩
      · exact mem_rules.mpr
          ⟨b, (mem_blocks_append happend).mpr ⟨hb, hS howner⟩, source, hsource, rfl⟩
      · intro o ho htrusted
        exact (mem_query_append happend b source (hS ho)).mp htrusted

/-! ### What is permitted -/

section Checks

variable (happend : tok'.blocks = tok.blocks ++ extra)
  (hfirst : ∀ b ∈ extra, b.externalKey = none) (hne : tok.blocks ≠ []) {b : Origin × Block}
  (hb : b.1 ∈ early tok.blocks.length)

include happend hfirst hne hb

/-- A query of one of the first blocks has the same answers. -/
lemma matches_append_iff {rule : Rule} {σ : String → Value}
    {origins : Fin rule.body.length → Finset Origin} :
    ((under tok' holderFp resource operation).query b rule).Matches (fun e σ => e.Holds holds σ)
        ((under tok' holderFp resource operation).model holds) σ origins ↔
      ((under tok holderFp resource operation).query b rule).Matches (fun e σ => e.Holds holds σ)
        ((under tok holderFp resource operation).model holds) σ origins := by
  have htrusted := congrArg Datalog.Query.trusted (@query_append tok tok' extra holderFp resource
    operation happend hfirst b rule)
  refine Iff.trans ?_
    ((agree_append happend subset_rfl).matches_iff (query_trusted_early hne hb rule)).symm
  constructor
  · rintro ⟨hknown, htrust, hguards⟩
    exact ⟨hknown, fun i => (htrust i).trans htrusted.subset, hguards⟩
  · rintro ⟨hknown, htrust, hguards⟩
    exact ⟨hknown, fun i => (htrust i).trans htrusted.symm.subset, hguards⟩

lemma queryMatches_append_iff {rule : Rule} :
    (under tok' holderFp resource operation).QueryMatches holds b rule ↔
      (under tok holderFp resource operation).QueryMatches holds b rule :=
  exists_congr fun _ => exists_congr fun _ => matches_append_iff happend hfirst hne hb

lemma queryMatchesAll_append_iff {rule : Rule} :
    (under tok' holderFp resource operation).QueryMatchesAll holds b rule ↔
      (under tok holderFp resource operation).QueryMatchesAll holds b rule := by
  refine and_congr (queryMatches_append_iff happend hfirst hne hb) ?_
  refine forall_congr' fun σ => forall_congr' fun origins => imp_congr_left ?_
  exact matches_append_iff happend hfirst hne hb

/-- A check of one of the first blocks holds as before. -/
lemma checkHolds_append_iff {check : Check} :
    (under tok' holderFp resource operation).CheckHolds holds b check ↔
      (under tok holderFp resource operation).CheckHolds holds b check := by
  unfold Authorizer.CheckHolds
  cases check.kind with
  | one =>
    exact exists_congr fun q => and_congr_right fun _ =>
      queryMatches_append_iff happend hfirst hne hb
  | all =>
    exact exists_congr fun q => and_congr_right fun _ =>
      queryMatchesAll_append_iff happend hfirst hne hb
  | reject =>
    exact exists_congr fun q => and_congr_right fun _ =>
      not_congr (queryMatches_append_iff happend hfirst hne hb)

end Checks

/-- The checks of the blocks that were appended hold. -/
def NewChecks (holds : String → (String → Value) → Prop) (tok tok' : Biscuit)
    (holderFp : Option String) (resource operation : String) : Prop :=
  ∀ b ∈ (under tok' holderFp resource operation).blocks, b.1 ∉ early tok.blocks.length →
    ∀ check ∈ b.2.checks, (under tok' holderFp resource operation).CheckHolds holds b check

/-- Blocks of the first party add their checks and nothing else. -/
lemma permits_append_iff (happend : tok'.blocks = tok.blocks ++ extra)
    (hfirst : ∀ b ∈ extra, b.externalKey = none) (hne : tok.blocks ≠ []) :
    Permits holds tok' holderFp resource operation ↔
      Permits holds tok holderFp resource operation ∧
        NewChecks holds tok tok' holderFp resource operation := by
  have hverifier : (Origin.authorizer, (authorizerCode holderFp resource operation).block).1 ∈
      early tok.blocks.length := authorizer_mem_early _
  have hpolicy : (∃ q ∈ (allowRight resource operation).queries,
        (under tok' holderFp resource operation).QueryMatches holds
          (.authorizer, (authorizerCode holderFp resource operation).block) q) ↔
      ∃ q ∈ (allowRight resource operation).queries,
        (under tok holderFp resource operation).QueryMatches holds
          (.authorizer, (authorizerCode holderFp resource operation).block) q :=
    exists_congr fun q => and_congr_right fun _ =>
      queryMatches_append_iff happend hfirst hne hverifier
  constructor
  · rintro ⟨hchecks, hallow⟩
    refine ⟨⟨?_, hpolicy.mp hallow⟩, fun b hb _ => hchecks b hb⟩
    intro b hb check hcheck
    obtain ⟨hb', hearly⟩ := (mem_blocks_append happend).mp hb
    exact (checkHolds_append_iff happend hfirst hne hearly).mp (hchecks b hb' check hcheck)
  · rintro ⟨⟨hchecks, hallow⟩, hnew⟩
    refine ⟨?_, hpolicy.mpr hallow⟩
    intro b hb check hcheck
    by_cases hearly : b.1 ∈ early tok.blocks.length
    · have hb' := (mem_blocks_append happend).mpr ⟨hb, hearly⟩
      exact (checkHolds_append_iff happend hfirst hne hearly).mpr (hchecks b hb' check hcheck)
    · exact hnew b hb hearly check hcheck

end Append

/-! ### Attenuated tokens -/

section Attenuated

variable {engine : Engine} {tok tok' : Biscuit} {bytes bytes' : Bytes} {key : PublicKey}
  {holderFp : Option String} {resource operation : String}

/-- What is authorized is permitted. -/
lemma permits_of_authorize (hread : engine.fromBytes bytes key = .ok tok)
    (h : authorize engine bytes key holderFp resource operation = .ok ()) :
    Permits engine.holds tok holderFp resource operation := by
  obtain ⟨tok', hparse, built, i, hbuild, hpass⟩ := authorize_eq_ok.mp h
  obtain rfl : tok = tok' := Except.ok.inj (hread.symm.trans (parse_eq_ok.mp hparse).1)
  obtain rfl := engine.build_eq _ _ _ hbuild
  refine ⟨engine.checks_of_authorize _ _ hpass, ?_⟩
  obtain ⟨policy, hpolicy, -, hallow⟩ := engine.policy_of_authorize _ _ hpass
  have hone : (authorizerCode holderFp resource operation).policies =
      [allowRight resource operation] := by
    cases holderFp <;> rfl
  have hmem := List.mem_of_getElem? hpolicy
  change policy ∈ (authorizerCode holderFp resource operation).policies at hmem
  rw [hone, List.mem_singleton] at hmem
  rw [hmem] at hallow
  exact hallow

/-- **Attenuation never widens.**  Of a token that was written with at least an authority block,
take whatever came of it by appending blocks that no third party signed.  It permits an operation
exactly if the first token permits it and the new checks hold; so what it is authorized for, the
first token permits. -/
theorem attenuation_restricts (hne : tok.blocks ≠ []) (hwrite : engine.toVec tok = .ok bytes)
    (hattenuated : Attenuated engine bytes bytes') (hread : engine.fromBytes bytes' key = .ok tok')
    (hfirst : ∀ b ∈ tok'.blocks.drop tok.blocks.length, b.externalKey = none)
    (holderFp : Option String) (resource operation : String) :
    (Permits engine.holds tok' holderFp resource operation ↔
      Permits engine.holds tok holderFp resource operation ∧
        NewChecks engine.holds tok tok' holderFp resource operation) ∧
    (authorize engine bytes' key holderFp resource operation = .ok () →
      Permits engine.holds tok holderFp resource operation) := by
  obtain ⟨extra, hextra⟩ := blocks_prefix_of_attenuated hwrite hattenuated hread
  rw [← hextra, List.drop_left] at hfirst
  have hiff : Permits engine.holds tok' holderFp resource operation ↔ _ :=
    permits_append_iff hextra.symm hfirst hne
  exact ⟨hiff, fun h => (hiff.mp (permits_of_authorize hread h)).1⟩

/-- The second token permits no more than the first. -/
theorem attenuation_restricts_heldToken :
    Permits sampleEngine.holds mintedToken (some "FP") "example" "read" := by
  have hattenuated : Attenuated sampleEngine [1] [2] := by
    exact @Attenuated.append sampleEngine [1] [1] [2] [] mintedToken heldToken (holderBlock "FP")
      .refl rfl rfl rfl
  refine (@attenuation_restricts sampleEngine mintedToken heldToken [1] [2] []
    (List.cons_ne_nil _ _) rfl hattenuated rfl ?_ (some "FP") "example" "read").2 rfl
  intro b hb
  obtain rfl := List.mem_singleton.mp hb
  rfl

end Attenuated

end Identikey.Capability
