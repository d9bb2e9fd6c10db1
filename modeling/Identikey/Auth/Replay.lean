/-
Records presented again, and the direction in which trust moves.

Every call keeps an anchor, a head's XID and the fork flag, and never lowers the head's
sequence number (`Trust.Forward`).  A record that was accepted has a digest on the chain of
accepted heads, unless it is a first one; when it comes again it is the head, or its number
is too small both for a successor and for a sibling of the head.
-/
import Identikey.Auth.TrustSafety

namespace Identikey.Auth

/-! ### Trust moves forward -/

/-- What a later trust keeps of an earlier one. -/
structure Trust.Forward (t t' : Trust) : Prop where
  anchor_eq : ∀ d, t.anchor = some d → t'.anchor = some d
  head_le : ∀ h, t.head = some h →
    ∃ h', t'.head = some h' ∧ h.record.seq ≤ h'.record.seq ∧ h'.record.xid = h.record.xid
  forked : t.isForked = true → t'.isForked = true

lemma Trust.Forward.refl (t : Trust) : t.Forward t :=
  { anchor_eq := fun _ h => h
    head_le := fun h hh => ⟨h, hh, UInt64.le_refl _, rfl⟩
    forked := fun h => h }

lemma Trust.Forward.trans {t₁ t₂ t₃ : Trust} (h : t₁.Forward t₂) (h' : t₂.Forward t₃) :
    t₁.Forward t₃ where
  anchor_eq d hd := h'.anchor_eq d (h.anchor_eq d hd)
  head_le head hhead := by
    obtain ⟨head₂, hhead₂, hseq₂, hxid₂⟩ := h.head_le head hhead
    obtain ⟨head₃, hhead₃, hseq₃, hxid₃⟩ := h'.head_le head₂ hhead₂
    exact ⟨head₃, hhead₃, UInt64.le_trans hseq₂ hseq₃, hxid₃.trans hxid₂⟩
  forked hf := h'.forked (h.forked hf)

section Replay

variable {bk : Backend} {t₀ t t' : Trust} {c : Call} {r : StateRecord} {s : Session}
  {calls pre post : List Call}

/-- The first head: a trust without one has only an anchor to keep. -/
lemma Trust.Forward.of_no_head (hforked : t.forked = false) (hhead : t.head = none)
    (hanchor : ∀ d, t.anchor = some d → t'.anchor = some d) : t.Forward t' where
  anchor_eq := hanchor
  head_le h hh := by
    rw [hhead] at hh
    cases hh
  forked h := by
    rw [isForked, hforked] at h
    cases h

lemma Observed.forward (hforked : t.forked = false) (h : Observed bk t c r t') : t.Forward t' := by
  cases h with
  | repeated => exact .refl t
  | rechecked => exact .refl t
  | @extended head hhead hnew hseq hext hrot =>
    refine ⟨fun _ hd => hd, fun h hh => ?_, fun h => ?_⟩
    · obtain rfl := Option.some.inj (hhead.symm.trans hh)
      refine ⟨c.head r, rfl, ?_, hrot.xid_eq⟩
      rw [UInt64.le_iff_toNat_le]
      exact hext.seq_eq ▸ Nat.le_succ _
    · rw [Trust.isForked, hforked] at h
      cases h
  | forked =>
    exact { Trust.Forward.refl t with forked := fun _ => rfl }
  | anchored hhead => exact .of_no_head hforked hhead fun _ hd => hd
  | inception hhead => exact .of_no_head hforked hhead fun _ hd => hd
  | migrated hhead _ hanchor =>
    refine .of_no_head hforked hhead fun d hd => ?_
    rw [hanchor] at hd
    cases hd

lemma Session.step_forward (s : Session) (c : Call) : s.trust.Forward (step bk s c).trust := by
  unfold step
  cases h : observe bk s.trust c.record c.sigs c.elect c.classicalSound with
  | error e => exact .refl s.trust
  | ok t' =>
    obtain ⟨hforked, r, -, hobs⟩ := observe_eq_ok_iff.mp h
    exact hobs.forward hforked

/-- **Trust moves forward** from every point of a run to every later one. -/
lemma Session.run_forward : (run bk t₀ pre).trust.Forward (run bk t₀ (pre ++ post)).trust := by
  rw [run_append]
  exact Lib.run_keeps (Q := fun s : Session => (run bk t₀ pre).trust.Forward s.trust)
    (fun s c h => h.trans (s.step_forward c)) (.refl _) post

/-! ### Records presented again -/

/-- SHA-256 has no collision among the records of these calls. -/
def NoCollision (calls : List Call) : Prop :=
  ∀ c ∈ calls, ∀ c' ∈ calls, c.digest = c'.digest → c.record = c'.record

/-- Some call presented the record of an accepted head. -/
lemma Session.Sound.presented (hs : s.Sound bk t₀ calls) {h : Head} (hh : h ∈ s.accepted) :
    ∃ c ∈ calls, c.record = h.record.toBytes := by
  have hlinked := hs.linked
  have hrooted := hs.rooted
  generalize s.accepted = heads at hh hlinked hrooted
  induction heads with
  | nil => cases hh
  | cons h' rest ih =>
    cases rest with
    | nil =>
      obtain rfl := List.mem_singleton.mp hh
      obtain ⟨before, c, after, rfl, hrecord, -⟩ := (hrooted h rfl).presented
      exact ⟨c, by simp, hrecord⟩
    | cons p rest =>
      obtain ⟨hlink, htail⟩ := List.isChain_cons_cons.mp hlinked
      rcases List.mem_cons.mp hh with rfl | hmem
      · obtain ⟨c, hc, hrecord, -, -⟩ := hlink.presented
        exact ⟨c, hc, hrecord⟩
      · exact ih hmem htail fun root hroot => hrooted root (by rwa [List.getLast?_cons_cons])

/-- A sibling of the head has the head's number. -/
lemma Session.Sound.parent_seq (hs : s.Sound bk t₀ calls) {head : Head} {parent : Parent}
    (hhead : s.trust.head = some head) (hparent : s.trust.parent = some parent) :
    parent.seq = head.record.seq := by
  obtain ⟨rest, hrest⟩ := List.head?_eq_some_iff.mp (hs.head_eq.symm.trans hhead)
  rw [hs.parent_eq, hrest] at hparent
  cases rest with
  | nil => cases hparent
  | cons p rest =>
    obtain rfl := Option.some.inj hparent
    rfl

/-- A call that succeeded left a head, and its record is a first one or has the digest of an
accepted head, unless it set the fork flag. -/
lemma accepted_of_ok (hs : (Session.run bk t₀ pre).Sound bk t₀ pre)
    (hok : observe bk (Session.run bk t₀ pre).trust c.record c.sigs c.elect c.classicalSound =
      .ok t) (hread : StateRecord.fromBytes c.record = .ok r)
    (hforked : (Session.run bk t₀ (pre ++ [c])).trust.forked = false) :
    (∃ head, (Session.run bk t₀ (pre ++ [c])).trust.head = some head) ∧
      (r.seq ≠ 1 → ∃ h ∈ (Session.run bk t₀ (pre ++ [c])).accepted, h.digest = c.digest) := by
  have hrun := Session.run_snoc_of_ok bk rfl hok
  obtain ⟨-, r', hread', hobs⟩ := observe_eq_ok_iff.mp hok
  obtain rfl := Except.ok.inj (hread'.symm.trans hread)
  rw [hrun] at hforked ⊢
  cases hobs with
  | @repeated head hhead hdigest =>
    refine ⟨⟨head, hhead⟩, fun _ => ⟨head, ?_, hdigest⟩⟩
    rw [if_pos rfl]
    exact List.mem_of_head? (hs.head_eq.symm.trans hhead)
  | @rechecked head hhead _ hseq => exact ⟨⟨head, hhead⟩, fun hne => absurd hseq hne⟩
  | @extended head hhead hnew =>
    refine ⟨⟨_, rfl⟩, fun _ => ⟨c.head r', ?_, rfl⟩⟩
    have hmoved : some (c.head r') ≠ (Session.run bk t₀ pre).trust.head := by
      rw [hhead]
      intro heq
      exact hnew (congrArg Head.digest (Option.some.inj heq)).symm
    rw [if_neg hmoved]
    exact List.mem_cons_self
  | forked => cases hforked
  | anchored _ hseq => exact ⟨⟨_, rfl⟩, fun hne => absurd hseq hne⟩
  | inception _ hseq => exact ⟨⟨_, rfl⟩, fun hne => absurd hseq hne⟩
  | migrated _ hseq => exact ⟨⟨_, rfl⟩, fun hne => absurd hseq hne⟩

/-- A record whose digest is on the chain of accepted heads has the number of its head there, and
does not extend the chain or fork it. -/
lemma Observed.eq_of_accepted (hs : s.Sound bk t₀ calls) (hfree : NoCollision calls)
    (hc : ∃ c₀ ∈ calls, c₀.record = c.record) (hread : StateRecord.fromBytes c.record = .ok r)
    (hsome : ∃ head, s.trust.head = some head)
    (hmem : r.seq ≠ 1 → ∃ h ∈ s.accepted, h.digest = c.digest)
    (h : Observed bk s.trust c r t') : t' = s.trust := by
  -- the record is the one of the head that has its digest
  have hrecord : ∀ {head : Head}, s.trust.head = some head → head.digest ≠ c.digest →
      r.seq ≠ 1 → r.seq.toNat < head.record.seq.toNat := by
    intro head hhead hnew hseq
    obtain ⟨old, hold, hdigest⟩ := hmem hseq
    obtain ⟨c₀, hc₀, hc₀record⟩ := hc
    obtain ⟨c₁, hc₁, hc₁record⟩ := hs.presented hold
    have hdecoded := hs.decoded old hold
    have hsame : c₁.record = c₀.record := by
      refine hfree c₁ hc₁ c₀ hc₀ ?_
      rw [Call.digest, hc₁record, ← hdecoded.digest_eq, hdigest, Call.digest, Call.digest,
        hc₀record]
    have hr : old.record = r := by
      rw [hc₁record, hc₀record] at hsame
      exact Except.ok.inj (hdecoded.read_eq.symm.trans (hsame ▸ hread))
    rcases hs.eq_head hhead hold with rfl | hlt
    · exact absurd hdigest hnew
    · rwa [hr] at hlt
  have hnone : ¬ s.trust.head = none := by
    obtain ⟨head, hhead⟩ := hsome
    rw [hhead]
    exact Option.some_ne_none head
  cases h with
  | repeated => rfl
  | rechecked => rfl
  | extended hhead hnew hseq hext _ =>
    have hlt := hrecord hhead hnew hseq
    have hnext := hext.seq_eq
    omega
  | forked hhead hnew hseq _ hparent hsib _ =>
    have hlt := hrecord hhead hnew hseq
    rw [hsib.seq_eq, hs.parent_seq hhead hparent] at hlt
    exact absurd hlt (lt_irrefl _)
  | anchored hhead => exact absurd hhead hnone
  | inception hhead => exact absurd hhead hnone
  | migrated hhead => exact absurd hhead hnone

/-- **Replays never change trust, and trust only moves forward.**  In a run from `new` or
`with_anchor` whose records SHA-256 tells apart, a record that a call of the run was accepted
with is refused afterwards, whatever it comes with, or leaves the trust as it is; and every later
trust keeps what `Trust.Forward` lists of every earlier one. -/
theorem replays_never_change_trust (ht₀ : t₀ = Trust.new ∨ ∃ d, t₀ = Trust.withAnchor d)
    (hfree : NoCollision calls) :
    (∀ pre c post t, calls = pre ++ c :: post →
      observe bk (Session.run bk t₀ pre).trust c.record c.sigs c.elect c.classicalSound = .ok t →
      ∀ (sigs : StateSignatures) (elect : Option ClassicalPublicKey) (classicalSound : Bool),
        (∃ e, observe bk (Session.run bk t₀ calls).trust c.record sigs elect classicalSound =
          .error e) ∨
        observe bk (Session.run bk t₀ calls).trust c.record sigs elect classicalSound =
          .ok (Session.run bk t₀ calls).trust) ∧
    ∀ pre post, calls = pre ++ post →
      (Session.run bk t₀ pre).trust.Forward (Session.run bk t₀ calls).trust := by
  have hfresh := Trust.fresh_of_start ht₀
  constructor
  · rintro pre c post t hcalls hok sigs elect classicalSound
    cases h : observe bk (Session.run bk t₀ calls).trust c.record sigs elect classicalSound with
    | error e => exact .inl ⟨e, rfl⟩
    | ok t' =>
      right
      let again : Call := { record := c.record, sigs, elect, classicalSound }
      obtain ⟨hforked, r, hread, hobs⟩ := (observe_eq_ok_iff (c := again)).mp h
      have hsplit : calls = (pre ++ [c]) ++ post := by rw [hcalls, List.append_cons]
      have hforward : (Session.run bk t₀ (pre ++ [c])).trust.Forward
          (Session.run bk t₀ calls).trust := hsplit ▸ Session.run_forward
      -- a run that is not forked now was not when the record was accepted
      have hunforked : (Session.run bk t₀ (pre ++ [c])).trust.forked = false := by
        rw [← Bool.not_eq_true] at hforked ⊢
        exact fun hbefore => hforked (hforward.forked hbefore)
      obtain ⟨⟨head, hhead⟩, hmem⟩ :=
        accepted_of_ok (Session.sound hfresh pre) hok hread hunforked
      obtain ⟨head', hhead', -⟩ := hforward.head_le head hhead
      have hsub : (Session.run bk t₀ (pre ++ [c])).accepted ⊆ (Session.run bk t₀ calls).accepted :=
        hsplit ▸ Session.accepted_subset
      have hpresented : ∃ c₀ ∈ calls, c₀.record = again.record := ⟨c, by rw [hcalls]; simp, rfl⟩
      have hold : r.seq ≠ 1 →
          ∃ old ∈ (Session.run bk t₀ calls).accepted, old.digest = again.digest := by
        intro hseq
        obtain ⟨old, hold, hdigest⟩ := hmem hseq
        exact ⟨old, hsub hold, hdigest⟩
      rw [hobs.eq_of_accepted (Session.sound hfresh calls) hfree hpresented hread
        ⟨head', hhead'⟩ hold]
  · rintro pre post rfl
    exact Session.run_forward

end Replay

/-- The first record again, after a second one: no anchor is stored, so it is refused. -/
theorem replays_never_change_trust_sampleRoot :
    ((∃ e, observe sampleBackend (branchTrust "ed25519") sampleRoot.toBytes
        (sampleCall sampleRoot).sigs none true = .error e) ∨
      observe sampleBackend (branchTrust "ed25519") sampleRoot.toBytes
        (sampleCall sampleRoot).sigs none true = .ok (branchTrust "ed25519")) ∧
    sampleTrust.Forward (branchTrust "ed25519") := by
  have hfree : NoCollision (branchCalls "ed25519") := by
    have hne := sampleBranch_new (.inl rfl)
    intro c hc c' hc' heq
    rcases List.mem_pair.mp hc with rfl | rfl <;> rcases List.mem_pair.mp hc' with rfl | rfl
    · rfl
    · exact absurd heq hne
    · exact absurd heq.symm hne
    · rfl
  have h := @replays_never_change_trust sampleBackend .new _ (.inl rfl) hfree
  have hreplay := h.1 [] (sampleCall sampleRoot) [sampleCall (sampleBranch "ed25519")] sampleTrust
    rfl observe_sampleRoot (sampleCall sampleRoot).sigs none true
  have hforward := h.2 [sampleCall sampleRoot] [sampleCall (sampleBranch "ed25519")] rfl
  rw [run_branchCalls (.inl rfl)] at hreplay hforward
  rw [run_sampleRoot] at hforward
  exact ⟨hreplay, hforward⟩

end Identikey.Auth
