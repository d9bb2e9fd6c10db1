/-
Runs of `observe` and the chain of accepted records.

A session is the trust a caller keeps together with the heads it has had, the latest
first.  The trust is determined by these: its head is the latest one, and the parent
it stores to recognize a sibling is the data of the one before (`Session.Sound`).
-/
import Identikey.Lib.Run
import Identikey.Auth.StateRecordExact
import Identikey.Auth.Trust

namespace Identikey.Auth

open Lib

/-- The trust of a caller and the heads it has had so far. -/
structure Session where
  trust : Trust
  accepted : List Head
deriving DecidableEq, Repr

section Session

variable (bk : Backend)

/-- One call: the trust moves when it succeeds and stays as it was when it fails. -/
def Session.step (s : Session) (c : Call) : Session :=
  match observe bk s.trust c.record c.sigs c.elect c.classicalSound with
  | .ok t =>
    { trust := t
      accepted := if t.head = s.trust.head then s.accepted else t.head.toList ++ s.accepted }
  | .error _ => s

/-- The session after a list of calls, starting from a trust. -/
def Session.run (t : Trust) (calls : List Call) : Session :=
  calls.foldl (step bk) { trust := t, accepted := t.head.toList }

/-- Why a first record is accepted. -/
structure Admits (t : Trust) (c : Call) (r : StateRecord) : Prop where
  signed_own : c.SignedBy bk r.control
  /-- A new identity, or a migration that the elect key and either the flag or the anchor back. -/
  route : (t.anchor = none ∧ r.xid = xidForControlKey r.control) ∨
    (c.SignedByElect bk ∧ (c.classicalSound = true ∨ t.anchor = some c.digest))
  anchored : ∀ d, t.anchor = some d → c.digest = d

/-- The sessions that one call on an unforked trust, presenting the record `r`, can lead to
besides the session itself. -/
inductive Session.Moves (s : Session) (c : Call) (r : StateRecord) : Session → Prop
  | extended {head : Head} (hhead : s.trust.head = some head) (hext : Extends head r)
      (hrot : c.Rotates bk r head.record.xid head.record.control) :
    Moves s c r
      { trust :=
          { anchor := s.trust.anchor, head := some (c.head r),
            parent := some { control := head.record.control, prev := head.digest, seq := r.seq },
            forked := false }
        accepted := c.head r :: s.accepted }
  | forked {head : Head} {parent : Parent} (hhead : s.trust.head = some head)
      (hnew : head.digest ≠ c.digest) (hseq : r.seq ≠ 1) (hparent : s.trust.parent = some parent)
      (hsib : Sibling parent r) (hrot : c.Rotates bk r head.record.xid parent.control) :
    Moves s c r { s with trust := { s.trust with forked := true } }
  | first {anchor : Option Digest32} (hhead : s.trust.head = none) (hseq : r.seq = 1)
      (hadmits : Admits bk s.trust c r) :
    Moves s c r
      { trust := { s.trust with anchor := anchor, head := some (c.head r) }
        accepted := c.head r :: s.accepted }

/-- A call leaves the session as it is or makes one of the moves. -/
lemma Session.step_cases (s : Session) (c : Call) :
    step bk s c = s ∨ s.trust.forked = false ∧
      ∃ r, StateRecord.fromBytes c.record = .ok r ∧ Moves bk s c r (step bk s c) := by
  unfold step
  cases h : observe bk s.trust c.record c.sigs c.elect c.classicalSound with
  | error e => exact .inl rfl
  | ok t =>
    obtain ⟨hforked, r, hread, hobs⟩ := observe_eq_ok_iff.mp h
    have hfirst : s.trust.head = none → some (c.head r) ≠ s.trust.head := fun h => by
      rw [h]
      exact Option.some_ne_none _
    cases hobs with
    | repeated => exact .inl (by simp)
    | rechecked => exact .inl (by simp)
    | @extended head hhead hnew hseq hext hrot =>
      -- the digest of the new head differs from the old one's
      have hmoved : some (c.head r) ≠ s.trust.head := by
        rw [hhead]
        intro heq
        exact hnew (congrArg Head.digest (Option.some.inj heq)).symm
      refine .inr ⟨hforked, r, hread, ?_⟩
      simp only [if_neg hmoved]
      exact .extended hhead hext hrot
    | forked hhead hnew hseq hext hparent hsib hrot =>
      refine .inr ⟨hforked, r, hread, ?_⟩
      simp only [if_true]
      exact .forked hhead hnew hseq hparent hsib hrot
    | anchored hhead hseq hanchor helect hown =>
      refine .inr ⟨hforked, r, hread, ?_⟩
      simp only [if_neg (hfirst hhead)]
      refine .first hhead hseq ⟨hown, .inr ⟨helect, .inr hanchor⟩, fun d hd => ?_⟩
      exact Option.some.inj (hanchor.symm.trans hd)
    | inception hhead hseq hanchor hxid hown =>
      refine .inr ⟨hforked, r, hread, ?_⟩
      simp only [if_neg (hfirst hhead)]
      refine .first hhead hseq ⟨hown, .inl ⟨hanchor, hxid⟩, fun d hd => ?_⟩
      simp [hanchor] at hd
    | migrated hhead hseq hanchor hxid helect hown hsound =>
      refine .inr ⟨hforked, r, hread, ?_⟩
      simp only [if_neg (hfirst hhead)]
      refine .first hhead hseq ⟨hown, .inr ⟨helect, .inl hsound⟩, fun d hd => ?_⟩
      simp [hanchor] at hd

/-- A run whose last call succeeds. -/
lemma Session.run_snoc_of_ok {t t' : Trust} {s : Session} {calls : List Call} {c : Call}
    (hrun : run bk t calls = s)
    (h : observe bk s.trust c.record c.sigs c.elect c.classicalSound = .ok t') :
    run bk t (calls ++ [c]) =
      { trust := t'
        accepted := if t'.head = s.trust.head then s.accepted
          else t'.head.toList ++ s.accepted } := by
  rw [run, run_snoc]
  change step bk (run bk t calls) c = _
  rw [hrun, step, h]

/-! ### The chain of accepted records -/

/-- The record of `h` succeeds that of `p`, and a call presented it with the signatures of both
control keys. -/
structure Linked (calls : List Call) (p h : Head) : Prop where
  prev_eq : h.record.prev = some p.digest
  seq_eq : h.record.seq.toNat = p.record.seq.toNat + 1
  xid_eq : h.record.xid = p.record.xid
  presented : ∃ c ∈ calls, c.record = h.record.toBytes ∧ c.SignedBy bk p.record.control ∧
    c.SignedBy bk h.record.control

/-- The record of `h` is a first one, admitted by some call of the run at the trust before it. -/
structure Rooted (t₀ : Trust) (calls : List Call) (h : Head) : Prop where
  seq_eq : h.record.seq = 1
  prev_eq : h.record.prev = none
  presented : ∃ pre c post, calls = pre ++ c :: post ∧ c.record = h.record.toBytes ∧
    Admits bk (Session.run bk t₀ pre).trust c h.record
  anchored : ∀ d, t₀.anchor = some d → h.digest = d

/-- What a sibling of the latest head is recognized by, from the heads so far. -/
def parentOf : List Head → Option Parent
  | h :: p :: _ =>
    some { control := p.record.control, prev := p.digest, seq := h.record.seq }
  | _ => none

/-- The head is the record and the digest of some accepted bytes. -/
structure Decoded (h : Head) : Prop where
  digest_eq : h.digest = sha256 h.record.toBytes
  read_eq : StateRecord.fromBytes h.record.toBytes = .ok h.record

/-- The heads so far are a chain from an admitted first record, and determine the trust. -/
structure Session.Sound (t₀ : Trust) (calls : List Call) (s : Session) : Prop where
  head_eq : s.trust.head = s.accepted.head?
  parent_eq : s.trust.parent = parentOf s.accepted
  anchor_eq : s.accepted = [] → s.trust.anchor = t₀.anchor
  decoded : ∀ h ∈ s.accepted, Decoded h
  linked : s.accepted.IsChain fun h p => Linked bk calls p h
  rooted : ∀ h ∈ s.accepted.getLast?, Rooted bk t₀ calls h

/-- A trust that no call has changed yet. -/
structure Trust.Fresh (t : Trust) : Prop where
  head_eq : t.head = none
  parent_eq : t.parent = none
  forked_eq : t.forked = false

end Session

lemma Trust.fresh_new : new.Fresh := ⟨rfl, rfl, rfl⟩

lemma Trust.fresh_withAnchor (d : Digest32) : (withAnchor d).Fresh := ⟨rfl, rfl, rfl⟩

section Invariant

variable {bk : Backend} {t₀ : Trust} {calls : List Call} {c : Call} {s : Session}

lemma Linked.mono {calls' : List Call} {p h : Head} (hsub : calls ⊆ calls')
    (hlink : Linked bk calls p h) : Linked bk calls' p h := by
  obtain ⟨c, hc, h⟩ := hlink.presented
  exact { hlink with presented := ⟨c, hsub hc, h⟩ }

lemma Rooted.snoc {h : Head} (hroot : Rooted bk t₀ calls h) : Rooted bk t₀ (calls ++ [c]) h := by
  obtain ⟨pre, c', post, rfl, h⟩ := hroot.presented
  exact { hroot with presented := ⟨pre, c', post ++ [c], by simp, h⟩ }

/-- The invariant does not depend on calls that change nothing. -/
lemma Session.Sound.snoc (hs : s.Sound bk t₀ calls) : s.Sound bk t₀ (calls ++ [c]) :=
  { hs with
    linked := hs.linked.imp fun _ _ hlink => hlink.mono (List.subset_append_left calls [c])
    rooted := fun h hh => (hs.rooted h hh).snoc }

lemma Call.decoded_head {r : StateRecord} (hread : StateRecord.fromBytes c.record = .ok r) :
    Decoded (c.head r) := by
  have hrecord : (c.head r).record.toBytes = c.record := (StateRecord.fromBytes_eq_ok hread).1
  constructor
  · rw [hrecord]
    rfl
  · rw [hrecord]
    exact hread

/-- A successor of the head, put before the heads so far. -/
lemma Session.Sound.extended (hs : s.Sound bk t₀ calls) {r : StateRecord} {head : Head}
    (hread : StateRecord.fromBytes c.record = .ok r) (hhead : s.trust.head = some head)
    (hext : Extends head r) (hrot : c.Rotates bk r head.record.xid head.record.control) :
    Session.Sound bk t₀ (calls ++ [c])
      { trust :=
          { anchor := s.trust.anchor, head := some (c.head r),
            parent := some { control := head.record.control, prev := head.digest, seq := r.seq },
            forked := false }
        accepted := c.head r :: s.accepted } := by
  have hrecord : r.toBytes = c.record := (StateRecord.fromBytes_eq_ok hread).1
  have hlink : Linked bk (calls ++ [c]) head (c.head r) :=
    { prev_eq := hext.prev_eq
      seq_eq := hext.seq_eq
      xid_eq := hrot.xid_eq
      presented := ⟨c, by simp, hrecord.symm, hrot.signed_prev, hrot.signed_own⟩ }
  have hdecoded : ∀ h ∈ c.head r :: s.accepted, Decoded h :=
    List.forall_mem_cons.mpr ⟨Call.decoded_head hread, hs.decoded⟩
  -- the chain before the new head needs the longer list of calls only
  have hsnoc := hs.snoc (c := c)
  obtain ⟨rest, hrest⟩ : ∃ rest, s.accepted = head :: rest :=
    List.head?_eq_some_iff.mp (hs.head_eq.symm.trans hhead)
  rw [hrest] at hdecoded ⊢
  exact
    { head_eq := rfl
      parent_eq := rfl
      anchor_eq := fun h => by cases h
      decoded := hdecoded
      linked := List.isChain_cons_cons.mpr ⟨hlink, hrest ▸ hsnoc.linked⟩
      rooted := fun h hh => hsnoc.rooted h (by rwa [hrest, ← List.getLast?_cons_cons]) }

/-- A first record that the trust before it admits. -/
lemma Session.Sound.first (hs : (run bk t₀ calls).Sound bk t₀ calls) {r : StateRecord}
    {anchor : Option Digest32} (hread : StateRecord.fromBytes c.record = .ok r)
    (hhead : (run bk t₀ calls).trust.head = none) (hseq : r.seq = 1)
    (hadmits : Admits bk (run bk t₀ calls).trust c r) :
    Session.Sound bk t₀ (calls ++ [c])
      { trust := { (run bk t₀ calls).trust with anchor := anchor, head := some (c.head r) }
        accepted := c.head r :: (run bk t₀ calls).accepted } := by
  obtain ⟨hrecord, hwf⟩ := StateRecord.fromBytes_eq_ok hread
  have hnone : (run bk t₀ calls).accepted = [] :=
    List.head?_eq_none_iff.mp (hs.head_eq.symm.trans hhead)
  have hprev : r.prev = none := by
    rw [← Option.not_isSome_iff_eq_none, hwf.prev_iff, hseq]
    decide
  have hroot : Rooted bk t₀ (calls ++ [c]) (c.head r) :=
    { seq_eq := hseq
      prev_eq := hprev
      presented := ⟨calls, c, [], rfl, hrecord.symm, hadmits⟩
      anchored := fun d hd => hadmits.anchored d ((hs.anchor_eq hnone).trans hd) }
  -- before the first record there is no parent either
  have hparent : (run bk t₀ calls).trust.parent = none := by
    rw [hs.parent_eq, hnone]
    rfl
  rw [hnone]
  exact
    { head_eq := rfl
      parent_eq := hparent
      anchor_eq := fun h => by cases h
      decoded := List.forall_mem_singleton.mpr (Call.decoded_head hread)
      linked := .singleton _
      rooted := fun h hh => by
        obtain rfl := Option.some.inj hh
        exact hroot }

/-- Every step keeps the invariant. -/
lemma Session.Sound.step (hs : (run bk t₀ calls).Sound bk t₀ calls) :
    (step bk (run bk t₀ calls) c).Sound bk t₀ (calls ++ [c]) := by
  rcases step_cases bk (run bk t₀ calls) c with hstay | ⟨-, r, hread, hmove⟩
  · rw [hstay]
    exact hs.snoc
  · generalize Session.step bk (run bk t₀ calls) c = s' at hmove
    cases hmove with
    | extended hhead hext hrot => exact hs.extended hread hhead hext hrot
    | forked hhead hnew hseq hparent hsib hrot => exact { hs.snoc with }
    | first hhead hseq hadmits => exact hs.first hread hhead hseq hadmits

/-- **The heads of a run are a chain.**  From a fresh trust, after every list of calls, the heads
so far are linked, start from an admitted first record and determine the trust. -/
theorem Session.sound (ht₀ : t₀.Fresh) (calls : List Call) :
    (run bk t₀ calls).Sound bk t₀ calls := by
  refine run_induction (P := fun calls (s : Session) => s.Sound bk t₀ calls) ?_ ?_ calls
  · rw [ht₀.head_eq]
    exact
      { head_eq := ht₀.head_eq
        parent_eq := ht₀.parent_eq
        anchor_eq := fun _ => rfl
        decoded := fun h hh => by cases hh
        linked := .nil
        rooted := fun h hh => by cases hh }
  · intro calls c hs
    exact Sound.step hs

/-! ### Order along the chain -/

/-- Later heads have larger sequence numbers. -/
lemma Session.Sound.seq_sorted (hs : s.Sound bk t₀ calls) :
    s.accepted.Pairwise fun h p => p.record.seq.toNat < h.record.seq.toNat := by
  have hchain : s.accepted.IsChain fun h p => p.record.seq.toNat < h.record.seq.toNat :=
    hs.linked.imp fun _ _ hlink => by
      have := hlink.seq_eq
      omega
  have htrans : IsTrans Head fun h p => p.record.seq.toNat < h.record.seq.toNat :=
    ⟨fun _ _ _ h₁ h₂ => h₂.trans h₁⟩
  exact List.isChain_iff_pairwise.mp hchain

/-- The head has the largest sequence number, and is the only one that has it. -/
lemma Session.Sound.eq_head {head h : Head} (hs : s.Sound bk t₀ calls)
    (hhead : s.trust.head = some head) (hh : h ∈ s.accepted) :
    h = head ∨ h.record.seq.toNat < head.record.seq.toNat := by
  obtain ⟨rest, hrest⟩ := List.head?_eq_some_iff.mp (hs.head_eq.symm.trans hhead)
  have hsorted := hs.seq_sorted
  rw [hrest] at hsorted hh
  rcases List.mem_cons.mp hh with rfl | hmem
  · exact .inl rfl
  · exact .inr (List.rel_of_pairwise_cons hsorted hmem)

/-! ### The fork flag -/

lemma Session.run_append {pre post : List Call} :
    run bk t₀ (pre ++ post) = post.foldl (step bk) (run bk t₀ pre) := List.foldl_append

lemma Session.step_of_forked (h : s.trust.forked = true) : step bk s c = s := by
  rcases step_cases bk s c with hstay | ⟨hunforked, -⟩
  · exact hstay
  · rw [h] at hunforked
    cases hunforked

/-- Once set, the flag stays set. -/
lemma Session.forked_of_prefix {pre post : List Call}
    (h : (run bk t₀ pre).trust.forked = true) : (run bk t₀ (pre ++ post)).trust.forked = true := by
  rw [run_append]
  refine run_keeps (Q := fun s : Session => s.trust.forked = true) (fun s c hs => ?_) h post
  rw [step_of_forked hs]
  exact hs

/-- A call that sets the flag presents a second successor of the head's predecessor, signed by
that predecessor's control key and its own. -/
structure ForkedBy (bk : Backend) (calls : List Call) (s : Session) (c : Call) (r : StateRecord)
    (head p : Head) : Prop where
  read_eq : StateRecord.fromBytes c.record = .ok r
  head_eq : s.trust.head = some head
  linked : Linked bk calls p head
  mem_head : head ∈ s.accepted
  mem_prev : p ∈ s.accepted
  digest_ne : head.digest ≠ c.digest
  seq_ne : r.seq ≠ 1
  seq_eq : r.seq = head.record.seq
  prev_eq : r.prev = some p.digest
  rotates : c.Rotates bk r head.record.xid p.record.control

lemma Session.Sound.forkedBy (hs : s.Sound bk t₀ calls) (hbefore : s.trust.forked = false)
    (hafter : (Session.step bk s c).trust.forked = true) :
    ∃ r head p, ForkedBy bk calls s c r head p := by
  rcases step_cases bk s c with hstay | ⟨-, r, hread, hmove⟩
  · rw [hstay, hbefore] at hafter
    cases hafter
  · generalize Session.step bk s c = s' at hafter hmove
    cases hmove with
    | extended => cases hafter
    | first => exact absurd (hbefore.symm.trans hafter) Bool.false_ne_true
    | @forked head parent hhead hnew hseq hparent hsib hrot =>
      obtain ⟨rest, hrest⟩ := List.head?_eq_some_iff.mp (hs.head_eq.symm.trans hhead)
      rw [hs.parent_eq, hrest] at hparent
      have hlinked := hs.linked
      rw [hrest] at hlinked
      -- the stored parent is that of the head before, so there is one
      cases rest with
      | nil => cases hparent
      | cons p rest =>
        obtain rfl := Option.some.inj hparent
        exact ⟨r, head, p,
          { read_eq := hread
            head_eq := hhead
            linked := (List.isChain_cons_cons.mp hlinked).1
            mem_head := by simp [hrest]
            mem_prev := by simp [hrest]
            digest_ne := hnew
            seq_ne := hseq
            seq_eq := hsib.seq_eq
            prev_eq := hsib.prev_eq
            rotates := hrot }⟩

end Invariant

end Identikey.Auth
