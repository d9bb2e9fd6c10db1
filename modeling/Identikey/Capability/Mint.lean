/-
The right that a minted token is good for (`identikey-capability`, `lib.rs`).

A minted token states one right.  Whatever anybody appends to it, it is authorized for nothing
else (`minted_right_only`); and handed from holder to holder, each adding a check, it permits
that right to a verifier that has proved every one of them, and in no other case
(`held_right_exact`).
-/
import Identikey.Capability.Attenuation

set_option linter.dupNamespace false

namespace Identikey.Capability

open Lib Lib.Fallible Auth

/-- An engine that signs tokens with root keys. -/
structure MintingEngine (KeyPair : Type) extends Engine where
  /-- `BiscuitBuilder::build`. -/
  buildToken : Block → KeyPair → Except String Biscuit
  buildToken_blocks : ∀ block root tok, buildToken block root = .ok tok → tok.blocks = [block]

/-- The authority block `right({resource}, {operation});`. -/
def rightBlock (resource operation : String) : Block :=
  { facts := [{ name := "right", terms := [.str resource, .str operation] }] }

section Mint

variable {KeyPair : Type} (engine : MintingEngine KeyPair)

/-- `mint_right`. -/
def mintRight (root : KeyPair) (resource operation : String) : Except CapabilityError Bytes := do
  let tok ← (engine.buildToken (rightBlock resource operation) root).mapError .biscuit
  (engine.toVec tok).mapError .biscuit

/-- A token in the hands of one holder after another: each parses it and appends a check. -/
def handOn (key : PublicKey) (bytes : Bytes) (fps : List String) : Except CapabilityError Bytes :=
  fps.foldlM (fun bytes fp => do
    let tok ← parse engine.toEngine bytes key
    appendHolderCheck engine.toEngine tok fp) bytes

end Mint

/-! ### A token that is minted and held -/

/-- The sample engine, which mints one token. -/
def sampleMint : MintingEngine Unit :=
  { sampleEngine with
    buildToken := fun block _ => .ok { blocks := [block] }
    buildToken_blocks := fun block _ tok h => by
      obtain rfl := Except.ok.inj h
      rfl }

section Facts

variable {KeyPair : Type} {engine : MintingEngine KeyPair} {root : KeyPair}
  {resource operation resource' operation' : String} {holderFp : Option String}
  {bytes bytes' : Bytes} {key : PublicKey} {tok : Biscuit}
  {holds : String → (String → Value) → Prop}

lemma mintRight_eq_ok : mintRight engine root resource operation = .ok bytes ↔
    ∃ tok, engine.buildToken (rightBlock resource operation) root = .ok tok ∧
      engine.toVec tok = .ok bytes := by
  simp only [mintRight, bind_eq_ok, mapError_eq_ok]

/-- What the policy asks for was stated by the authority block or the verifier. -/
lemma right_of_permits {extra : List Block}
    (hblocks : tok.blocks = rightBlock resource operation :: extra)
    (h : Permits holds tok holderFp resource' operation') :
    resource' = resource ∧ operation' = operation := by
  obtain ⟨q, hq, σ, origins, hmatch⟩ := h.policy
  obtain rfl := List.mem_singleton.mp hq
  have hknown := hmatch.known ⟨0, Nat.one_pos⟩
  have htrusted := hmatch.trusted ⟨0, Nat.one_pos⟩
  -- the policy trusts the verifier and the authority block
  have hin : ↑(origins ⟨0, Nat.one_pos⟩) ⊆ early 1 := by
    intro o ho
    have hmem := htrusted ho
    have hcases : o = .authorizer ∨ o = .block 0 := by
      simpa [Authorizer.query, under, trustedOrigins, authorizerCode_block] using hmem
    rcases hcases with rfl | rfl
    · exact authorizer_mem_early 1
    · exact block_mem_early.mpr Nat.one_pos
  have hagree := @agree_append { blocks := [rightBlock resource operation] } tok extra holderFp
    resource' operation' hblocks (early 1) subset_rfl
  have halone := (hagree.mem_model_iff hin).mpr hknown
  have hrules : ∀ r ∈ (under { blocks := [rightBlock resource operation] } holderFp resource'
      operation').program.rules, r.head.name ≠ "right" := by
    intro r hr
    obtain ⟨b, hb, source, hsource, -⟩ := mem_rules.mp hr
    rcases mem_blocks.mp hb with rfl | ⟨i, hget, -⟩
    · rw [under, authorizerCode_block] at hsource
      cases hsource
    · obtain hb' := List.mem_singleton.mp (List.mem_of_getElem? hget)
      rw [hb'] at hsource
      cases hsource
  rw [Datalog.Program.mem_model_iff_mem_facts hrules rfl, mem_facts] at halone
  obtain ⟨b, hb, -, hfact⟩ := halone
  rcases mem_blocks.mp hb with rfl | ⟨i, hget, -⟩
  · rw [under, authorizerCode_block, Option.mem_toList, Option.map_eq_some_iff] at hfact
    obtain ⟨fp, -, hfact⟩ := hfact
    have hname : "holder" = "right" := congrArg Datalog.Fact.name hfact
    exact absurd hname (by decide)
  · have hb' := List.mem_singleton.mp (List.mem_of_getElem? hget)
    rw [hb'] at hfact
    have hterms := congrArg Datalog.Fact.terms (List.mem_singleton.mp hfact)
    simpa [allowRight, Authorizer.query, Datalog.Atom.ground, Datalog.Term.ground] using hterms

/-- **A minted token is good for its right only.**  However blocks are appended to it, and by
whomever, it is authorized for the resource and operation that it was minted for and no other. -/
theorem minted_right_only (hmint : mintRight engine root resource operation = .ok bytes)
    (hattenuated : Attenuated engine.toEngine bytes bytes')
    (h : authorize engine.toEngine bytes' key holderFp resource' operation' = .ok ()) :
    resource' = resource ∧ operation' = operation := by
  obtain ⟨tok, htok, hwrite⟩ := mintRight_eq_ok.mp hmint
  obtain ⟨tok', hparse, -⟩ := authorize_eq_ok.mp h
  have hread := (parse_eq_ok.mp hparse).1
  obtain ⟨extra, hextra⟩ := blocks_prefix_of_attenuated hwrite hattenuated hread
  rw [engine.buildToken_blocks _ _ _ htok] at hextra
  exact right_of_permits hextra.symm (permits_of_authorize hread h)

/-- The token with the check of its holder is good for the right that it was minted for. -/
theorem minted_right_only_example : ∃ resource operation,
    authorize sampleMint.toEngine [2] [] (some "FP") resource operation = .ok () ∧
      resource = "example" ∧ operation = "read" := by
  have hmint : mintRight sampleMint () "example" "read" = .ok [1] := rfl
  have hattenuated : Attenuated sampleMint.toEngine [1] [2] :=
    @Attenuated.append sampleMint.toEngine [1] [1] [2] [] mintedToken heldToken (holderBlock "FP")
      .refl rfl rfl rfl
  have hauthorize : authorize sampleMint.toEngine [2] [] (some "FP") "example" "read" = .ok () :=
    rfl
  exact ⟨"example", "read", hauthorize, minted_right_only hmint hattenuated hauthorize⟩

/-- The check of a holder holds for that holder, wherever it stands. -/
lemma checkHolds_holder (fp : String) (b : Origin × Block) {check : Check}
    (hcheck : check ∈ (holderBlock fp).checks) :
    (under tok (some fp) resource operation).CheckHolds holds b check := by
  obtain rfl := List.mem_singleton.mp hcheck
  refine ⟨_, List.mem_singleton_self _, fun _ => .str fp, fun _ => {.authorizer}, ?_, ?_, ?_⟩
  · intro i
    refine Datalog.Program.mem_model_of_mem_facts
      (mem_facts.mpr ⟨_, mem_blocks.mpr (.inl rfl), ?_⟩)
    obtain ⟨i, hi⟩ := i
    obtain rfl : i = 0 := by simpa [Authorizer.query] using hi
    exact ⟨rfl, List.mem_singleton_self _⟩
  · intro i o ho
    rw [Finset.mem_singleton.mp ho]
    exact Finset.mem_insert_self _ _
  · intro e he
    obtain rfl := List.mem_singleton.mp he
    rfl

/-- The policy allows the right that the authority block states. -/
lemma queryMatches_right {extra : List Block}
    (hblocks : tok.blocks = rightBlock resource operation :: extra) :
    ∃ q ∈ (allowRight resource operation).queries,
      (under tok holderFp resource operation).QueryMatches holds
        (.authorizer, (authorizerCode holderFp resource operation).block) q := by
  refine ⟨_, List.mem_singleton_self _, fun _ => .null, fun _ => {.block 0}, ?_, ?_, ?_⟩
  · intro i
    refine Datalog.Program.mem_model_of_mem_facts (mem_facts.mpr
      ⟨(.block 0, rightBlock resource operation), mem_blocks.mpr (.inr ⟨0, ?_, rfl⟩), ?_⟩)
    · show tok.blocks[0]? = _
      rw [hblocks]
      rfl
    · obtain ⟨i, hi⟩ := i
      obtain rfl : i = 0 := by simpa [Authorizer.query] using hi
      exact ⟨rfl, List.mem_singleton_self _⟩
  · intro i
    simp [Authorizer.query, trustedOrigins, authorizerCode_block]
  · intro e he
    cases he

/-- Rights and holder checks state no holder. -/
lemma holderFree_held {fps : List String}
    (hblocks : tok.blocks = rightBlock resource operation :: fps.map holderBlock) :
    HolderFree tok := by
  constructor
  · intro b hb v hfact
    rw [hblocks, List.mem_cons, List.mem_map] at hb
    rcases hb with rfl | ⟨fp, -, rfl⟩
    · have hname : "holder" = "right" :=
        congrArg Datalog.Fact.name (List.mem_singleton.mp hfact)
      exact absurd hname (by decide)
    · cases hfact
  · intro b hb rule hrule
    rw [hblocks, List.mem_cons, List.mem_map] at hb
    rcases hb with rfl | ⟨fp, -, rfl⟩ <;> cases hrule

/-- A right with holder checks is permitted to one that has proved all of them. -/
lemma permits_held_iff {fps : List String}
    (hblocks : tok.blocks = rightBlock resource operation :: fps.map holderBlock) :
    Permits engine.holds tok holderFp resource' operation' ↔
      resource' = resource ∧ operation' = operation ∧ ∀ fp ∈ fps, holderFp = some fp := by
  constructor
  · intro h
    obtain ⟨hresource, hoperation⟩ := right_of_permits hblocks h
    refine ⟨hresource, hoperation, fun fp hfp => ?_⟩
    have hmem : holderBlock fp ∈ (under tok holderFp resource' operation').token.blocks := by
      show _ ∈ tok.blocks
      rw [hblocks]
      exact List.mem_cons_of_mem _ (List.mem_map_of_mem hfp)
    obtain ⟨i, hi⟩ := mem_blocks_of_mem hmem
    exact holder_of_checkHolds (holderFree_held hblocks) (h.checks _ hi)
  · rintro ⟨rfl, rfl, hfps⟩
    refine ⟨?_, queryMatches_right hblocks⟩
    intro b hb check hcheck
    rcases mem_blocks.mp hb with rfl | ⟨i, hget, -⟩
    · rw [under, authorizerCode_block] at hcheck
      cases hcheck
    · have hmem : b.2 ∈ tok.blocks := List.mem_of_getElem? hget
      rw [hblocks, List.mem_cons, List.mem_map] at hmem
      rcases hmem with hright | ⟨fp, hfp, hholder⟩
      · rw [hright] at hcheck
        cases hcheck
      · rw [← hholder] at hcheck
        rw [hfps fp hfp]
        exact checkHolds_holder fp b hcheck

/-- Each holder appends one check. -/
lemma blocks_of_handOn {fps : List String} (h : handOn engine key bytes fps = .ok bytes') :
    ∀ {tok : Biscuit}, engine.toVec tok = .ok bytes →
      ∃ tok', engine.toVec tok' = .ok bytes' ∧ tok'.blocks = tok.blocks ++ fps.map holderBlock := by
  induction fps generalizing bytes with
  | nil =>
    intro tok hwrite
    obtain rfl := pure_eq_ok.mp h
    exact ⟨tok, hwrite, (List.append_nil _).symm⟩
  | cons fp fps ih =>
    intro tok hwrite
    rw [handOn, List.foldlM_cons] at h
    simp only [bind_eq_ok] at h
    obtain ⟨bytes₁, ⟨tok₁, hparse, happend⟩, hrest⟩ := h
    obtain rfl := engine.fromBytes_toVec _ _ _ _ hwrite (parse_eq_ok.mp hparse).1
    obtain ⟨next, hnext, hwrite₁⟩ := appendHolderCheck_eq_ok.mp happend
    obtain ⟨tok', hwrite', hblocks⟩ := ih hrest hwrite₁
    refine ⟨tok', hwrite', ?_⟩
    rw [hblocks, engine.append_blocks _ _ _ hnext, List.append_assoc]
    rfl

/-- **Holder checks are exact.**  A token is minted, and handed from holder to holder.  It permits
the right that it was minted for, to a verifier that has proved all of the holders to be one; so it
is authorized in no other case. -/
theorem held_right_exact {fps : List String}
    (hmint : mintRight engine root resource operation = .ok bytes)
    (hhand : handOn engine key bytes fps = .ok bytes')
    (hread : engine.fromBytes bytes' key = .ok tok) (holderFp : Option String)
    (resource' operation' : String) :
    (Permits engine.holds tok holderFp resource' operation' ↔
      resource' = resource ∧ operation' = operation ∧ ∀ fp ∈ fps, holderFp = some fp) ∧
    (authorize engine.toEngine bytes' key holderFp resource' operation' = .ok () →
      resource' = resource ∧ operation' = operation ∧ ∀ fp ∈ fps, holderFp = some fp) := by
  obtain ⟨minted, hminted, hwrite⟩ := mintRight_eq_ok.mp hmint
  obtain ⟨tok', hwrite', hblocks⟩ := blocks_of_handOn hhand hwrite
  obtain rfl := engine.fromBytes_toVec _ _ _ _ hwrite' hread
  rw [engine.buildToken_blocks _ _ _ hminted] at hblocks
  have hiff : Permits engine.holds tok holderFp resource' operation' ↔ _ :=
    permits_held_iff hblocks
  exact ⟨hiff, fun h => hiff.mp (permits_of_authorize hread h)⟩

/-- The token that its holder has added a check to is permitted to that holder, and not without
one. -/
theorem held_right_exact_example :
    Permits sampleMint.holds heldToken (some "FP") "example" "read" ∧
      ¬ Permits sampleMint.holds heldToken none "example" "read" := by
  have hmint : mintRight sampleMint () "example" "read" = .ok [1] := rfl
  have hhand : handOn sampleMint [] [1] ["FP"] = .ok [2] := rfl
  have hread : sampleMint.fromBytes [2] [] = .ok heldToken := rfl
  have hexact := fun holderFp =>
    (held_right_exact hmint hhand hread holderFp "example" "read").1
  constructor
  · exact (hexact (some "FP")).mpr ⟨rfl, rfl, fun fp hfp => by rw [List.mem_singleton.mp hfp]⟩
  · intro h
    have hnone := ((hexact none).mp h).2.2 "FP" (List.mem_singleton_self _)
    cases hnone

end Facts

end Identikey.Capability
