/-
Following the chain of an honest identity.

A holder publishes a chain of state records (`HonestChain`), and only the holder has the control
keys (`Unforged`).  A verifier that has seen the first record gets the others among whatever
anybody presents.  Its trust is always a record of the chain, it never records duplicity, and
once all records have come in order it is at the last one (`honest_chain_followed`).
-/
import Identikey.Lib.Follow
import Identikey.Auth.TrustSafety

namespace Identikey.Auth

open Lib

/-- A state record and the call that presents it. -/
structure Published where
  call : Call
  record : StateRecord
  read : StateRecord.fromBytes call.record = .ok record

namespace Published

/-- The head that the record becomes. -/
def head (p : Published) : Head := p.call.head p.record

/-- The heads of a chain, the latest first. -/
def heads (chain : List Published) : List Head := (chain.map head).reverse

lemma heads_snoc (chain : List Published) (p : Published) :
    heads (chain ++ [p]) = p.head :: heads chain := by
  rw [heads, List.map_append, List.reverse_append]
  rfl

section Chain

variable (bk : Backend)

/-- A record is made after another one, with both control keys. -/
structure Succeeds (p q : Published) : Prop where
  extends_head : Extends p.head q.record
  rotates : q.call.Rotates bk q.record p.record.xid p.record.control

/-- A chain that a verifier with this trust can follow from its first record. -/
structure HonestChain (t : Trust) (root : Published) (rest : List Published) : Prop where
  root_seq : root.record.seq = 1
  root_admits : Admits bk t root.call root.record
  succeeds : (root :: rest).IsChain (Succeeds bk)
  digests : ((root :: rest).map fun p => p.call.digest).Nodup

/-- What is signed with a control key of the chain is a record of the chain. -/
def Unforged (chain : List Published) (calls : List Call) : Prop :=
  ∀ c ∈ calls, ∀ p ∈ chain, c.SignedBy bk p.record.control → ∃ q ∈ chain, c.record = q.call.record

end Chain

section Order

variable {bk : Backend} {chain done todo : List Published} {p q : Published}

lemma record_eq (h : p.call.record = q.call.record) : p.record = q.record := by
  have hp := p.read
  rw [h] at hp
  exact Except.ok.inj (hp.symm.trans q.read)

/-- The sequence numbers of a chain increase. -/
lemma seq_pairwise (hchain : chain.IsChain (Succeeds bk)) :
    chain.Pairwise fun p q => p.record.seq.toNat < q.record.seq.toNat := by
  have hlt : chain.IsChain fun p q => p.record.seq.toNat < q.record.seq.toNat :=
    hchain.imp fun p q h => by
      have hseq : q.record.seq.toNat = p.record.seq.toNat + 1 := h.extends_head.seq_eq
      omega
  have htrans : IsTrans Published fun p q => p.record.seq.toNat < q.record.seq.toNat :=
    ⟨fun _ _ _ => Nat.lt_trans⟩
  exact List.isChain_iff_pairwise.mp hlt

/-- A record of the chain at the sequence number of another is that one. -/
lemma eq_of_seq (hchain : (done ++ p :: todo).IsChain (Succeeds bk))
    (hq : q ∈ done ++ p :: todo) (hseq : q.record.seq = p.record.seq) : q = p := by
  obtain ⟨-, hafter, hbefore⟩ := List.pairwise_append.mp (seq_pairwise hchain)
  have hlater := (List.pairwise_cons.mp hafter).1
  rcases List.mem_append.mp hq with hdone | hrest
  · have := hbefore q hdone p List.mem_cons_self
    rw [hseq] at this
    omega
  · rcases List.mem_cons.mp hrest with rfl | htodo
    · rfl
    · have := hlater q htodo
      rw [hseq] at this
      omega

/-- A record of the chain one after another is the next one. -/
lemma next_of_seq (hchain : (done ++ p :: todo).IsChain (Succeeds bk))
    (hq : q ∈ done ++ p :: todo) (hseq : q.record.seq.toNat = p.record.seq.toNat + 1) :
    ∃ rest, todo = q :: rest := by
  obtain ⟨-, hafter, hbefore⟩ := List.pairwise_append.mp (seq_pairwise hchain)
  obtain ⟨-, htail⟩ := List.pairwise_cons.mp hafter
  have hsucc := (List.isChain_append.mp hchain).2.1
  rcases List.mem_append.mp hq with hdone | hrest
  · have := hbefore q hdone p List.mem_cons_self
    omega
  · rcases List.mem_cons.mp hrest with rfl | htodo
    · omega
    · cases todo with
      | nil => cases htodo
      | cons x rest =>
        have hx : x.record.seq.toNat = p.record.seq.toNat + 1 :=
          (List.isChain_cons_cons.mp hsucc).1.extends_head.seq_eq
        rcases List.mem_cons.mp htodo with rfl | hlast
        · exact ⟨rest, rfl⟩
        · have := (List.pairwise_cons.mp htail).1 q hlast
          omega

end Order

/-! ### The session at a record of the chain -/

/-- The session of a verifier that has accepted these heads, the latest first. -/
def session (anchor : Option Digest32) (hs : List Head) : Session :=
  { trust := { anchor, head := hs.head?, parent := parentOf hs, forked := false }, accepted := hs }

/-- The verifier has the chain up to some record, and the others are still to come. -/
def At (anchor : Option Digest32) (chain todo : List Published) (s : Session) : Prop :=
  ∃ done p, chain = done ++ p :: todo ∧ s = session anchor (heads (done ++ [p]))

section Step

variable {bk : Backend} {t : Trust} {root p q : Published} {chain rest done todo : List Published}

lemma session_heads (anchor : Option Digest32) :
    session anchor (heads (done ++ [p])) =
      { trust :=
          { anchor, head := some p.head, parent := parentOf (heads (done ++ [p])), forked := false }
        accepted := heads (done ++ [p]) } := by
  rw [session, heads_snoc]
  rfl

lemma heads_snoc_snoc (done : List Published) (p q : Published) :
    heads (done ++ [p] ++ [q]) = q.head :: p.head :: heads done := by
  rw [heads_snoc, heads_snoc]

/-- The head is the record the verifier is at. -/
lemma session_head (anchor : Option Digest32) :
    (session anchor (heads (done ++ [p]))).trust.head = some p.head := by
  rw [session, heads_snoc]
  rfl

/-- The session after a record that extends the head. -/
lemma session_next (anchor : Option Digest32) {h : Head} (hq : h = q.head) :
    (⟨{ anchor, head := some h,
        parent := some { control := p.record.control, prev := p.call.digest, seq := h.record.seq },
        forked := false }, h :: heads (done ++ [p])⟩ : Session) =
      session anchor (heads (done ++ [p] ++ [q])) := by
  rw [session, heads_snoc_snoc, heads_snoc, hq]
  rfl

/-- The next record is taken. -/
lemma step_next {anchor : Option Digest32} (hzero : p.record.seq ≠ 0) (hsucc : Succeeds bk p q)
    (hnew : p.call.digest ≠ q.call.digest) :
    Session.step bk (session anchor (heads (done ++ [p]))) q.call =
      session anchor (heads (done ++ [p] ++ [q])) := by
  have hseq : q.record.seq ≠ 1 := by
    intro h
    have hone : q.record.seq.toNat = p.record.seq.toNat + 1 := hsucc.extends_head.seq_eq
    rw [h, show (1 : UInt64).toNat = 1 from rfl] at hone
    have hnat : p.record.seq.toNat = 0 := by omega
    exact hzero (UInt64.toNat_inj.mp hnat)
  have hhead : (session anchor (heads (done ++ [p]))).trust.head = some p.head :=
    session_head anchor
  have hobs := Observed.extended hhead hnew hseq hsucc.extends_head hsucc.rotates
  have hok := observe_eq_ok_iff.mpr ⟨rfl, q.record, q.read, hobs⟩
  have hmoved : some q.head ≠ some p.head := fun h =>
    hnew (congrArg Head.digest (Option.some.inj h)).symm
  rw [Session.step, hok, hhead]
  show (⟨_, if some q.head = some p.head then _ else _⟩ : Session) = _
  rw [if_neg hmoved]
  exact session_next anchor rfl

/-- What a call can do to a verifier that is at some record of the chain: nothing, or move it to
the next one. -/
lemma step_at {anchor : Option Digest32} (hchain : (done ++ p :: todo).IsChain (Succeeds bk))
    {c : Call} (hunforged : Unforged bk (done ++ p :: todo) [c]) :
    Session.step bk (session anchor (heads (done ++ [p]))) c =
        session anchor (heads (done ++ [p])) ∨
      ∃ q rest, todo = q :: rest ∧ Session.step bk (session anchor (heads (done ++ [p]))) c =
        session anchor (heads (done ++ [p] ++ [q])) := by
  have hown : ∀ x ∈ done ++ p :: todo, c.SignedBy bk x.record.control →
      ∃ q ∈ done ++ p :: todo, c.record = q.call.record :=
    fun x hx => hunforged c (List.mem_singleton_self c) x hx
  rcases Session.step_cases bk (session anchor (heads (done ++ [p]))) c with
    hstay | ⟨-, r, hread, hmove⟩
  · exact .inl hstay
  generalize hs' : Session.step bk (session anchor (heads (done ++ [p]))) c = s' at hmove ⊢
  cases hmove with
  | @extended head hhead hext hrot =>
    obtain rfl := Option.some.inj ((session_head anchor).symm.trans hhead)
    obtain ⟨q, hq, hrecord⟩ := hown p (by simp) hrot.signed_prev
    obtain rfl : r = q.record := by
      rw [hrecord] at hread
      exact Except.ok.inj (hread.symm.trans q.read)
    obtain ⟨rest, rfl⟩ := next_of_seq hchain hq hext.seq_eq
    have hhead' : c.head q.record = q.head := by
      rw [Call.head, Call.digest, hrecord]
      rfl
    exact .inr ⟨q, rest, rfl, session_next anchor hhead'⟩
  | @forked head parent hhead hnew hseq hparent hsib hrot =>
    obtain rfl := Option.some.inj ((session_head anchor).symm.trans hhead)
    -- the parent is the record before, and a second record after it would be another one
    rcases List.eq_nil_or_concat done with rfl | ⟨done', x, rfl⟩
    · cases hparent
    · rw [List.concat_eq_append] at hchain hown hparent
      rw [session, heads_snoc_snoc] at hparent
      obtain rfl := Option.some.inj hparent
      obtain ⟨q, hq, hrecord⟩ := hown x (by simp) hrot.signed_prev
      obtain rfl : r = q.record := by
        rw [hrecord] at hread
        exact Except.ok.inj (hread.symm.trans q.read)
      obtain rfl := eq_of_seq hchain hq hsib.seq_eq
      refine absurd ?_ hnew
      show q.call.digest = c.digest
      rw [Call.digest, Call.digest, hrecord]
  | first hhead =>
    rw [session_head] at hhead
    cases hhead

/-- An admitted first record is observed. -/
lemma observed_root (hfresh : t.Fresh) (hseq : root.record.seq = 1)
    (hadmits : Admits bk t root.call root.record) :
    ∃ anchor, Observed bk t root.call root.record { t with anchor, head := some root.head } := by
  cases hanchor : t.anchor with
  | some d =>
    obtain rfl := hadmits.anchored d hanchor
    rcases hadmits.route with ⟨hnone, -⟩ | ⟨helect, -⟩
    · rw [hanchor] at hnone
      cases hnone
    · refine ⟨t.anchor, ?_⟩
      exact .anchored hfresh.head_eq hseq hanchor helect hadmits.signed_own
  | none =>
    by_cases hxid : root.record.xid = xidForControlKey root.record.control
    · refine ⟨t.anchor, ?_⟩
      exact .inception hfresh.head_eq hseq hanchor hxid hadmits.signed_own
    · rcases hadmits.route with ⟨-, hown⟩ | ⟨helect, hsound⟩
      · exact absurd hown hxid
      · refine ⟨some root.call.digest, ?_⟩
        refine .migrated hfresh.head_eq hseq hanchor hxid helect hadmits.signed_own ?_
        rcases hsound with hsound | hstored
        · exact hsound
        · rw [hanchor] at hstored
          cases hstored

/-- The first record is taken. -/
lemma run_root (hfresh : t.Fresh) (hseq : root.record.seq = 1)
    (hadmits : Admits bk t root.call root.record) :
    ∃ anchor, Session.run bk t [root.call] = session anchor (heads ([] ++ [root])) := by
  obtain ⟨anchor, hobs⟩ := observed_root hfresh hseq hadmits
  have hok := observe_eq_ok_iff.mpr ⟨hfresh.forked_eq, root.record, root.read, hobs⟩
  have hstart : Session.run bk t [] = { trust := t, accepted := [] } := by
    show ({ trust := t, accepted := t.head.toList } : Session) = _
    rw [hfresh.head_eq]
    rfl
  refine ⟨anchor, ?_⟩
  rw [← List.nil_append [root.call], Session.run_snoc_of_ok bk hstart hok, hfresh.head_eq,
    hfresh.parent_eq, hfresh.forked_eq]
  rfl

end Step

section Follow

variable {bk : Backend} {t : Trust} {root : Published} {rest : List Published} {calls : List Call}

/-- The sequence numbers of an honest chain are positive. -/
lemma HonestChain.seq_ne_zero (h : HonestChain bk t root rest) {p : Published}
    (hp : p ∈ root :: rest) : p.record.seq ≠ 0 := by
  intro hzero
  rcases List.mem_cons.mp hp with rfl | hp
  · rw [h.root_seq] at hzero
    cases hzero
  · have hlt := (List.pairwise_cons.mp (seq_pairwise h.succeeds)).1 p hp
    rw [hzero] at hlt
    exact absurd hlt (Nat.not_lt_zero _)

/-- A call keeps the verifier on the chain, and the next record moves it. -/
lemma HonestChain.step_at (h : HonestChain bk t root rest) {anchor : Option Digest32} {c : Call}
    (hunforged : Unforged bk (root :: rest) [c]) {todo : List Published} {s : Session}
    (hat : At anchor (root :: rest) todo s) :
    ∃ todo', todo' <:+ todo ∧ At anchor (root :: rest) todo' (Session.step bk s c) ∧
      ∀ q later, todo = q :: later → q.call = c → todo' <:+ later := by
  obtain ⟨done, p, hchain, rfl⟩ := hat
  have hsucc := h.succeeds
  rw [hchain] at hsucc hunforged
  have hsnoc : ∀ q later, todo = q :: later → root :: rest = (done ++ [p]) ++ q :: later := by
    rintro q later rfl
    rw [hchain, List.append_assoc]
    rfl
  by_cases hnext : ∃ q later, todo = q :: later ∧ q.call = c
  · obtain ⟨q, later, rfl, rfl⟩ := hnext
    have hpq : Succeeds bk p q :=
      (List.isChain_cons_cons.mp (List.isChain_append.mp hsucc).2.1).1
    have hnew : p.call.digest ≠ q.call.digest := by
      have hnodup := h.digests
      rw [hchain, List.map_append] at hnodup
      have hafter := (List.nodup_append.mp hnodup).2.1
      intro heq
      exact (List.nodup_cons.mp hafter).1 (List.mem_map.mpr ⟨q, List.mem_cons_self, heq.symm⟩)
    have hzero := h.seq_ne_zero (p := p) (by rw [hchain]; simp)
    refine ⟨later, List.suffix_cons q later, ⟨done ++ [p], q, hsnoc q later rfl, ?_⟩, ?_⟩
    · exact step_next hzero hpq hnew
    · rintro _ _ ⟨⟩ -
      exact List.suffix_rfl
  · rcases Published.step_at hsucc hunforged with hstay | ⟨q, later, rfl, hmove⟩
    · refine ⟨todo, List.suffix_rfl, ⟨done, p, hchain, hstay⟩, ?_⟩
      intro q later htodo hcall
      exact absurd ⟨q, later, htodo, hcall⟩ hnext
    · refine ⟨later, List.suffix_cons q later, ⟨done ++ [p], q, hsnoc q later rfl, hmove⟩, ?_⟩
      intro q' later' htodo hcall
      exact absurd ⟨q', later', htodo, hcall⟩ hnext

/-- Where the verifier is, in terms of its trust. -/
lemma At.authority {anchor : Option Digest32} {chain todo : List Published} {s : Session}
    (hat : At anchor chain todo s) : ∃ done q, done ++ [q] <+: chain ∧
      s.accepted = heads (done ++ [q]) ∧ s.trust.authority = some q.head ∧
      (todo = [] → done ++ [q] = chain) := by
  obtain ⟨done, q, hchain, rfl⟩ := hat
  refine ⟨done, q, ⟨todo, ?_⟩, rfl, ?_, ?_⟩
  · rw [hchain, List.append_assoc]
    rfl
  · rw [session_heads]
    rfl
  · rintro rfl
    exact hchain.symm

/-- **Honest chains are followed.**  A verifier that has taken the first record of an honest chain
takes a part of the chain from its start on, whatever else it is shown, and in whatever order: its
authority is always the latest record of that part, and it never records duplicity.  Once the
records have come in order, with anything between them, the part is the whole chain. -/
theorem honest_chain_followed (ht : t = Trust.new ∨ ∃ d, t = Trust.withAnchor d)
    (hchain : HonestChain bk t root rest) (hunforged : Unforged bk (root :: rest) calls) :
    ∃ done q, done ++ [q] <+: root :: rest ∧
      (Session.run bk t (root.call :: calls)).accepted = heads (done ++ [q]) ∧
      (Session.run bk t (root.call :: calls)).trust.authority = some q.head ∧
      ((rest.map call).Sublist calls → done ++ [q] = root :: rest) := by
  obtain ⟨anchor, hroot⟩ := run_root (Trust.fresh_of_start ht) hchain.root_seq hchain.root_admits
  have hrun : Session.run bk t (root.call :: calls) =
      calls.foldl (Session.step bk) (session anchor (heads ([] ++ [root]))) := by
    rw [← hroot]
    rfl
  have hat : At anchor (root :: rest) rest (session anchor (heads ([] ++ [root]))) :=
    ⟨[], root, rfl, rfl⟩
  have hone : ∀ c ∈ calls, Unforged bk (root :: rest) [c] := by
    intro c hc c' hc'
    rw [List.mem_singleton.mp hc']
    exact hunforged c hc
  have hstep : ∀ c ∈ calls, ∀ todo s, At anchor (root :: rest) todo s →
      ∃ todo', todo' <:+ todo ∧ At anchor (root :: rest) todo' (Session.step bk s c) ∧
        ∀ q later, todo = q :: later → q.call = c → todo' <:+ later :=
    fun c hc _ _ => hchain.step_at (hone c hc)
  rw [hrun]
  by_cases hsub : (rest.map call).Sublist calls
  · obtain ⟨done, q, hinit, haccepted, hauth, hall⟩ := (follow_sublist hstep hat hsub).authority
    exact ⟨done, q, hinit, haccepted, hauth, fun _ => hall rfl⟩
  · have hstep' : ∀ c ∈ calls, ∀ todo s, At anchor (root :: rest) todo s →
        ∃ todo', todo' <:+ todo ∧ At anchor (root :: rest) todo' (Session.step bk s c) := by
      intro c hc todo s hs
      obtain ⟨todo', hsuffix, hnext, -⟩ := hstep c hc todo s hs
      exact ⟨todo', hsuffix, hnext⟩
    obtain ⟨todo, -, hend⟩ := follow_run hstep' hat
    obtain ⟨done, q, hinit, haccepted, hauth, -⟩ := hend.authority
    exact ⟨done, q, hinit, haccepted, hauth, fun h => absurd h hsub⟩

end Follow

/-- The sample records, published. -/
def samplePublishedRoot : Published :=
  { call := sampleCall sampleRoot, record := sampleRoot, read := read_sampleRoot }

def samplePublishedBranch : Published :=
  { call := sampleCall (sampleBranch "ed25519"), record := sampleBranch "ed25519",
    read := read_sampleBranch (.inl rfl) }

/-- A verifier follows the sample chain, with a repeat of its first record before the second. -/
theorem honest_chain_followed_sample :
    (Session.run sampleBackend .new
      [samplePublishedRoot.call, samplePublishedRoot.call, samplePublishedBranch.call]).accepted =
        heads [samplePublishedRoot, samplePublishedBranch] := by
  have hsucc : Succeeds sampleBackend samplePublishedRoot samplePublishedBranch :=
    ⟨sampleBranch_extends "ed25519", sampleBranch_rotates "ed25519"⟩
  have hchain : HonestChain sampleBackend .new samplePublishedRoot [samplePublishedBranch] :=
    { root_seq := rfl
      root_admits :=
        ⟨sampleCall_signedBy sampleRoot, .inl ⟨rfl, xid_sampleRoot⟩, fun _ h => by cases h⟩
      succeeds := List.isChain_pair.mpr hsucc
      digests := by
        show [(sampleCall sampleRoot).digest, (sampleCall (sampleBranch "ed25519")).digest].Nodup
        rw [List.nodup_cons, List.mem_singleton]
        exact ⟨sampleBranch_new (.inl rfl), List.nodup_singleton _⟩ }
  have hunforged : Unforged sampleBackend [samplePublishedRoot, samplePublishedBranch]
      [samplePublishedRoot.call, samplePublishedBranch.call] := by
    intro c hc _ _ _
    rcases List.mem_pair.mp hc with rfl | rfl
    · exact ⟨samplePublishedRoot, List.mem_cons_self, rfl⟩
    · exact ⟨samplePublishedBranch, List.mem_cons_of_mem _ List.mem_cons_self, rfl⟩
  obtain ⟨done, q, -, haccepted, -, hall⟩ := honest_chain_followed (.inl rfl) hchain hunforged
  rw [haccepted, hall (List.sublist_cons_self _ _)]

end Published

end Identikey.Auth
