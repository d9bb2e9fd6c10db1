/-
What an authority rests on, and what sets the fork flag.

Whoever has authority after a run of `observe` has it by a chain of records from an
admitted first one, each presented with the signatures of the control keys before
and after it (`chain_sound`).  Two successors of one head are noticed in either order,
for good (`duplicity_permanent`), and the flag is never set without two such records
(`no_framing`).
-/
import Mathlib.Data.List.Chain
import Identikey.Auth.Sha256Eval
import Identikey.Auth.TrustRun

namespace Identikey.Auth

open Lib Lib.Fallible

/-- The record `r'` succeeds `r`, and a call presented it with the signatures of both control
keys. -/
structure Succeeds (bk : Backend) (calls : List Call) (r r' : StateRecord) : Prop where
  prev_eq : r'.prev = some (sha256 r.toBytes)
  seq_eq : r'.seq.toNat = r.seq.toNat + 1
  xid_eq : r'.xid = r.xid
  presented : ∃ c ∈ calls, c.record = r'.toBytes ∧ c.SignedBy bk r.control ∧
    c.SignedBy bk r'.control

section Chain

variable {bk : Backend} {t₀ : Trust} {calls : List Call}

lemma Trust.fresh_of_start (h : t₀ = new ∨ ∃ d, t₀ = withAnchor d) : t₀.Fresh := by
  rcases h with rfl | ⟨d, rfl⟩
  · exact fresh_new
  · exact fresh_withAnchor d

lemma Trust.head_of_authority {t : Trust} {h : Head} (hauth : t.authority = some h) :
    t.forked = false ∧ t.head = some h := by
  unfold authority at hauth
  split_ifs at hauth with hforked
  exact ⟨by simpa using hforked, hauth⟩

lemma Linked.succeeds {p h : Head} (hlink : Linked bk calls p h) (hp : Decoded p) :
    Succeeds bk calls p.record h.record :=
  { prev_eq := by rw [hlink.prev_eq, hp.digest_eq]
    seq_eq := hlink.seq_eq
    xid_eq := hlink.xid_eq
    presented := hlink.presented }

/-- The records of the heads so far, the first one first. -/
def Session.records (s : Session) : List StateRecord := s.accepted.reverse.map Head.record

lemma Session.Sound.succeeds {s : Session} (hs : s.Sound bk t₀ calls) :
    s.records.IsChain (Succeeds bk calls) := by
  unfold records
  rw [List.isChain_map, List.isChain_reverse]
  refine List.IsChain.imp_of_mem_imp ?_ hs.linked
  intro h p _ hp hlink
  exact hlink.succeeds (hs.decoded p hp)

/-- **Chain soundness.**  Whoever has authority after a run from `new` or `with_anchor` has it by
a list of records: the first is admitted by a call of the run (and is the anchor where the run
started with one), each later one succeeds the one before, and the last is the authority's. -/
theorem chain_sound (ht₀ : t₀ = Trust.new ∨ ∃ d, t₀ = Trust.withAnchor d) {h : Head}
    (hauth : (Session.run bk t₀ calls).trust.authority = some h) :
    ∃ (r₁ : StateRecord) (rs : List StateRecord),
      (r₁ :: rs).getLast? = some h.record ∧ h.digest = sha256 h.record.toBytes ∧
      r₁.seq = 1 ∧ r₁.prev = none ∧
      (∃ pre c post, calls = pre ++ c :: post ∧ c.record = r₁.toBytes ∧
        Admits bk (Session.run bk t₀ pre).trust c r₁) ∧
      (∀ d, t₀ = Trust.withAnchor d → sha256 r₁.toBytes = d) ∧
      (r₁ :: rs).IsChain (Succeeds bk calls) := by
  have hs := @Session.sound bk _ (Trust.fresh_of_start ht₀) calls
  generalize Session.run bk t₀ calls = s at hs hauth
  have hhead : s.accepted.head? = some h :=
    hs.head_eq.symm.trans (Trust.head_of_authority hauth).2
  have hlast : s.records.getLast? = some h.record := by
    rw [Session.records, List.getLast?_map, List.getLast?_reverse, hhead, Option.map_some]
  have hsucceeds := hs.succeeds
  cases hrev : s.accepted.reverse with
  | nil =>
    rw [List.reverse_eq_nil_iff.mp hrev] at hhead
    cases hhead
  | cons root rest =>
    have hrecords : s.records = root.record :: rest.map Head.record := by
      rw [Session.records, hrev, List.map_cons]
    have hroot : s.accepted.getLast? = some root := by
      rw [← List.head?_reverse, hrev, List.head?_cons]
    obtain ⟨hseq, hprev, hpresented, hanchored⟩ := hs.rooted root hroot
    have hmem : h ∈ s.accepted := List.mem_of_head? hhead
    have hdigest := (hs.decoded root (List.mem_of_getLast? hroot)).digest_eq
    rw [hrecords] at hlast hsucceeds
    refine ⟨root.record, rest.map Head.record, hlast, (hs.decoded h hmem).digest_eq, hseq, hprev,
      hpresented, ?_, hsucceeds⟩
    rintro d rfl
    rw [← hdigest]
    exact hanchored d rfl

end Chain

/-! ### A chain to run the model with -/

def sampleControl : PqPublicKey := { alg := .mlDsa65, bytes := List.replicate 1952 1 }

/-- The record presented with the signature of `sampleControl`. -/
def sampleCall (r : StateRecord) : Call where
  record := r.toBytes
  sigs :=
    { pq :=
        [{ alg := sampleControl.alg,
           bytes := sampleSign sampleControl.alg.sigLen sampleControl.bytes
             (stateSigningPayload r.toBytes) }]
      classical := none }
  elect := none
  classicalSound := false

lemma sampleCall_signedBy (r : StateRecord) :
    (sampleCall r).SignedBy sampleBackend sampleControl := by
  have hkey : sampleControl.bytes.length = sampleControl.alg.pkLen := List.length_replicate
  refine List.any_eq_true.mpr ⟨_, List.mem_singleton_self _, ?_⟩
  show (verifyPq sampleBackend sampleControl (stateSigningPayload r.toBytes) _).isOk = true
  rw [verifyPq_sample hkey (stateSigningPayload r.toBytes)]
  rfl

/-- The digest written as a number. -/
def digestOf (n : ℕ) : Digest32 := ⟨beBytes 32 n, length_beBytes 32 n⟩

/-- The first record of a new identity. -/
def sampleRoot : StateRecord :=
  { xid := digestOf 0xfafee64ef8e2e7cc01f1c9e96c390277c0e321cf89b5762abf535dc178a3e051
    seq := 1
    prev := none
    control := sampleControl
    operational := [] }

/-- A record after `sampleRoot`, with an operational key of the algorithm `alg`. -/
def sampleBranch (alg : String) : StateRecord :=
  { xid := sampleRoot.xid
    seq := 2
    prev := some (digestOf 0xc589096c81b559c933896f8f9f386e862fd2fc657ef04e578dbfb3c392835d75)
    control := sampleControl
    operational := [{ alg, key := [], privileges := [], notBefore := none, notAfter := none }] }

/-- What is computed of the sample records: their digests, and that they fit. -/
lemma sample_computed :
    sha256N sampleControl.toValue.toBytes = sampleRoot.xid.val ∧
    (sha256N sampleRoot.toBytes =
        beBytes 32 0xc589096c81b559c933896f8f9f386e862fd2fc657ef04e578dbfb3c392835d75 ∧
      sampleRoot.toBytes.length < 2 ^ 64) ∧
    (sha256N (sampleBranch "ed25519").toBytes =
        beBytes 32 0x9d1d61ab0251e9a9d0fefff270d822933d581ed11671a50d1508b18bcc81731f ∧
      (sampleBranch "ed25519").toBytes.length < 2 ^ 64) ∧
    sha256N (sampleBranch "p256").toBytes =
        beBytes 32 0xa43aa70952f6326520191c3472434cc26205e59f32b65e95b8ad5fba40efd24b ∧
      (sampleBranch "p256").toBytes.length < 2 ^ 64 := by
  decide +kernel

lemma xid_sampleRoot : sampleRoot.xid = xidForControlKey sampleControl :=
  (Subtype.ext ((sha256_eq_nat _).trans sample_computed.1)).symm

lemma digest_sampleRoot : sha256 sampleRoot.toBytes =
    digestOf 0xc589096c81b559c933896f8f9f386e862fd2fc657ef04e578dbfb3c392835d75 :=
  Subtype.ext ((sha256_eq_nat _).trans sample_computed.2.1.1)

lemma digest_sampleBranch_ed25519 : sha256 (sampleBranch "ed25519").toBytes =
    digestOf 0x9d1d61ab0251e9a9d0fefff270d822933d581ed11671a50d1508b18bcc81731f :=
  Subtype.ext ((sha256_eq_nat _).trans sample_computed.2.2.1.1)

lemma digest_sampleBranch_p256 : sha256 (sampleBranch "p256").toBytes =
    digestOf 0xa43aa70952f6326520191c3472434cc26205e59f32b65e95b8ad5fba40efd24b :=
  Subtype.ext ((sha256_eq_nat _).trans sample_computed.2.2.2.1)

lemma digestOf_ne {n m : ℕ} (hn : n < 256 ^ 32) (hm : m < 256 ^ 32) (h : n ≠ m) :
    digestOf n ≠ digestOf m := by
  intro heq
  have hbytes : beBytes 32 n = beBytes 32 m := congrArg Subtype.val heq
  rw [← ofBeBytes_beBytes hn, hbytes, ofBeBytes_beBytes hm] at h
  exact h rfl

/-- The trust that has the first record as its head. -/
def sampleTrust : Trust :=
  { anchor := none
    head := some ((sampleCall sampleRoot).head sampleRoot)
    parent := none
    forked := false }

lemma read_sampleRoot : StateRecord.fromBytes sampleRoot.toBytes = .ok sampleRoot :=
  StateRecord.fromBytes_toBytes ⟨by decide, by decide, rfl, List.length_replicate⟩
    sample_computed.2.1.2

lemma observe_sampleRoot : observe sampleBackend .new (sampleCall sampleRoot).record
    (sampleCall sampleRoot).sigs (sampleCall sampleRoot).elect
    (sampleCall sampleRoot).classicalSound = .ok sampleTrust :=
  observe_eq_ok_iff.mpr ⟨rfl, sampleRoot, read_sampleRoot,
    .inception rfl rfl rfl xid_sampleRoot (sampleCall_signedBy sampleRoot)⟩

lemma run_sampleRoot : Session.run sampleBackend .new [sampleCall sampleRoot] =
    { trust := sampleTrust, accepted := [(sampleCall sampleRoot).head sampleRoot] } :=
  @Session.run_snoc_of_ok sampleBackend _ _ _ [] _ rfl observe_sampleRoot

/-- The two branches that the runs below take. -/
def IsBranch (alg : String) : Prop := alg = "ed25519" ∨ alg = "p256"

lemma read_sampleBranch {alg : String} (h : IsBranch alg) :
    StateRecord.fromBytes (sampleBranch alg).toBytes = .ok (sampleBranch alg) := by
  have hwf : (sampleBranch alg).WellFormed := by
    refine ⟨?_, ?_, rfl, List.length_replicate⟩
    · show (1 : UInt64) ≤ 2
      decide
    · show true = true ↔ (1 : UInt64) < 2
      decide
  rcases h with rfl | rfl
  · exact StateRecord.fromBytes_toBytes hwf sample_computed.2.2.1.2
  · exact StateRecord.fromBytes_toBytes hwf sample_computed.2.2.2.2

lemma sampleBranch_new {alg : String} (h : IsBranch alg) :
    (sampleCall sampleRoot).digest ≠ (sampleCall (sampleBranch alg)).digest := by
  show sha256 sampleRoot.toBytes ≠ sha256 (sampleBranch alg).toBytes
  rcases h with rfl | rfl
  · rw [digest_sampleRoot, digest_sampleBranch_ed25519]
    exact digestOf_ne (by decide) (by decide) (by decide)
  · rw [digest_sampleRoot, digest_sampleBranch_p256]
    exact digestOf_ne (by decide) (by decide) (by decide)

lemma sampleBranch_digest_ne :
    (sampleCall (sampleBranch "ed25519")).digest ≠ (sampleCall (sampleBranch "p256")).digest := by
  show sha256 (sampleBranch "ed25519").toBytes ≠ sha256 (sampleBranch "p256").toBytes
  rw [digest_sampleBranch_ed25519, digest_sampleBranch_p256]
  exact digestOf_ne (by decide) (by decide) (by decide)

lemma sampleBranch_extends (alg : String) :
    Extends ((sampleCall sampleRoot).head sampleRoot) (sampleBranch alg) where
  prev_eq := congrArg some digest_sampleRoot.symm
  seq_eq := rfl

lemma sampleBranch_rotates (alg : String) :
    (sampleCall (sampleBranch alg)).Rotates sampleBackend (sampleBranch alg) sampleRoot.xid
      sampleControl where
  xid_eq := rfl
  signed_prev := sampleCall_signedBy _
  signed_own := sampleCall_signedBy _

/-- The trust after `sampleRoot` and a successor of it. -/
def branchTrust (alg : String) : Trust :=
  { anchor := sampleTrust.anchor
    head := some ((sampleCall (sampleBranch alg)).head (sampleBranch alg))
    parent := some { control := sampleControl, prev := (sampleCall sampleRoot).digest, seq := 2 }
    forked := false }

lemma observe_sampleBranch {alg : String} (h : IsBranch alg) :
    observe sampleBackend sampleTrust (sampleCall (sampleBranch alg)).record
      (sampleCall (sampleBranch alg)).sigs (sampleCall (sampleBranch alg)).elect
      (sampleCall (sampleBranch alg)).classicalSound = .ok (branchTrust alg) := by
  have hseq : (sampleBranch alg).seq ≠ 1 := by
    show (2 : UInt64) ≠ 1
    decide
  exact observe_eq_ok_iff.mpr ⟨rfl, sampleBranch alg, read_sampleBranch h,
    .extended rfl (sampleBranch_new h) hseq (sampleBranch_extends alg) (sampleBranch_rotates alg)⟩

/-- The run that is shown `sampleRoot` and then a record after it. -/
def branchCalls (alg : String) : List Call := [sampleCall sampleRoot, sampleCall (sampleBranch alg)]

lemma branchTrust_head_ne {alg : String} (h : IsBranch alg) :
    (branchTrust alg).head ≠ sampleTrust.head := by
  intro heq
  exact sampleBranch_new h (congrArg Head.digest (Option.some.inj heq)).symm

lemma run_branchCalls {alg : String} (h : IsBranch alg) :
    Session.run sampleBackend .new (branchCalls alg) =
      { trust := branchTrust alg
        accepted := [(sampleCall (sampleBranch alg)).head (sampleBranch alg),
          (sampleCall sampleRoot).head sampleRoot] } := by
  rw [branchCalls, show [sampleCall sampleRoot, sampleCall (sampleBranch alg)] =
    [sampleCall sampleRoot] ++ [sampleCall (sampleBranch alg)] from rfl,
    Session.run_snoc_of_ok sampleBackend run_sampleRoot (observe_sampleBranch h),
    if_neg (branchTrust_head_ne h)]
  rfl

/-- The authority of a record after `sampleRoot` rests on a chain from a first record. -/
theorem chain_sound_sampleBranch :
    ∃ (r₁ : StateRecord) (rs : List StateRecord),
      (r₁ :: rs).getLast? = some (sampleBranch "ed25519") ∧ r₁.seq = 1 ∧
        (r₁ :: rs).IsChain (Succeeds sampleBackend (branchCalls "ed25519")) := by
  have hauth : (Session.run sampleBackend .new (branchCalls "ed25519")).trust.authority =
      some ((sampleCall (sampleBranch "ed25519")).head (sampleBranch "ed25519")) := by
    rw [run_branchCalls (.inl rfl)]
    rfl
  obtain ⟨r₁, rs, hlast, -, hseq, -, -, -, hchain⟩ := chain_sound (.inl rfl) hauth
  exact ⟨r₁, rs, hlast, hseq, hchain⟩

/-! ### Duplicity is permanent -/

/-- The trust records duplicity: it has no authority, resolves nothing and takes no record. -/
structure Trust.Dead (bk : Backend) (t : Trust) : Prop where
  forked : t.isForked = true
  rejects : ∀ (record : Bytes) (sigs : StateSignatures) (elect : Option ClassicalPublicKey)
    (classicalSound : Bool), ∃ e, observe bk t record sigs elect classicalSound = .error e
  no_authority : t.authority = none
  no_digest : ∀ d, t.resolve d = none

section Duplicity

variable {bk : Backend} {t ta tb : Trust} {a b : Call}

lemma Trust.dead_of_forked (h : t.forked = true) : t.Dead bk := by
  have hauth : t.authority = none := if_pos h
  refine ⟨h, fun record sigs elect sound => ⟨.state "duplicity recorded for this xid", ?_⟩, hauth,
    fun d => ?_⟩
  · rw [observe, ensure_of_not (by simp [h])]
    rfl
  · rw [resolve, hauth, Option.filter_none]

/-- A call that moves the head of a trust that has one presents a successor of that head. -/
lemma extended_of_moved {head : Head} (hhead : t.head = some head)
    (h : observe bk t a.record a.sigs a.elect a.classicalSound = .ok ta)
    (hmoved : ta.head ≠ t.head) :
    t.forked = false ∧ ∃ r, StateRecord.fromBytes a.record = .ok r ∧ head.digest ≠ a.digest ∧
      r.seq ≠ 1 ∧ Extends head r ∧ a.Rotates bk r head.record.xid head.record.control ∧
      ta = { anchor := t.anchor, head := some (a.head r),
             parent := some { control := head.record.control, prev := head.digest, seq := r.seq },
             forked := false } := by
  obtain ⟨hforked, r, hread, hobs⟩ := observe_eq_ok_iff.mp h
  have hno : ¬ t.head = none := by
    rw [hhead]
    exact Option.some_ne_none head
  cases hobs with
  | repeated => exact absurd rfl hmoved
  | rechecked => exact absurd rfl hmoved
  | forked => exact absurd rfl hmoved
  | anchored hnone => exact absurd hnone hno
  | inception hnone => exact absurd hnone hno
  | migrated hnone => exact absurd hnone hno
  | @extended head' hhead' hnew hseq hext hrot =>
    obtain rfl := Option.some.inj (hhead'.symm.trans hhead)
    exact ⟨hforked, r, hread, hnew, hseq, hext, hrot, rfl⟩

/-- After one successor of a head, another one with a different digest is duplicity. -/
lemma fork_of_successors {head : Head} {ra rb : StateRecord}
    (hreadb : StateRecord.fromBytes b.record = .ok rb) (hne : a.digest ≠ b.digest)
    (hnewa : head.digest ≠ a.digest) (hseqb : rb.seq ≠ 1) (hexta : Extends head ra)
    (hextb : Extends head rb) (hxida : ra.xid = head.record.xid)
    (hrotb : b.Rotates bk rb head.record.xid head.record.control)
    (hta : ta = { anchor := t.anchor, head := some (a.head ra),
                  parent := some
                    { control := head.record.control, prev := head.digest, seq := ra.seq },
                  forked := false }) :
    observe bk ta b.record b.sigs b.elect b.classicalSound = .ok { ta with forked := true } := by
  -- `b` names the common predecessor, not the head that `a` became
  have hnotext : ¬ Extends (a.head ra) rb := by
    intro hext
    have heq : head.digest = a.digest :=
      Option.some.inj (hextb.prev_eq.symm.trans hext.prev_eq)
    exact hnewa heq
  -- the parent stored when `a` was taken is that predecessor
  have hsib : Sibling { control := head.record.control, prev := head.digest, seq := ra.seq } rb :=
    { prev_eq := hextb.prev_eq
      seq_eq := UInt64.toNat_inj.mp (hextb.seq_eq.trans hexta.seq_eq.symm) }
  have hrot : b.Rotates bk rb (a.head ra).record.xid head.record.control :=
    { hrotb with xid_eq := hrotb.xid_eq.trans hxida.symm }
  rw [observe_eq_ok_iff]
  subst hta
  exact ⟨rfl, rb, hreadb, .forked rfl hne hseqb hnotext rfl hsib hrot⟩

/-- **Duplicity is detected in either order and is permanent.**  At any trust with a head, let two
different records each be taken as the next head.  Then taking one after the other, in either
order, records duplicity, and nothing that is observed later undoes it.  No collision of SHA-256
on these two records is assumed. -/
theorem duplicity_permanent {head : Head} (hhead : t.head = some head)
    (hbytes : a.record ≠ b.record) (hcoll : sha256 a.record = sha256 b.record → a.record = b.record)
    (ha : observe bk t a.record a.sigs a.elect a.classicalSound = .ok ta)
    (hmoveda : ta.head ≠ t.head)
    (hb : observe bk t b.record b.sigs b.elect b.classicalSound = .ok tb)
    (hmovedb : tb.head ≠ t.head) :
    (∃ tab, observe bk ta b.record b.sigs b.elect b.classicalSound = .ok tab ∧ tab.Dead bk) ∧
      ∃ tba, observe bk tb a.record a.sigs a.elect a.classicalSound = .ok tba ∧ tba.Dead bk := by
  obtain ⟨-, ra, hreada, hnewa, hseqa, hexta, hrota, hta⟩ := extended_of_moved hhead ha hmoveda
  obtain ⟨-, rb, hreadb, hnewb, hseqb, hextb, hrotb, htb⟩ := extended_of_moved hhead hb hmovedb
  have hne : a.digest ≠ b.digest := fun h => hbytes (hcoll h)
  have hab := fork_of_successors hreadb hne hnewa hseqb hexta hextb hrota.xid_eq hrotb hta
  have hba := fork_of_successors hreada hne.symm hnewb hseqa hextb hexta hrotb.xid_eq hrota htb
  exact ⟨⟨_, hab, Trust.dead_of_forked rfl⟩, _, hba, Trust.dead_of_forked rfl⟩

end Duplicity

/-- Two records that name `sampleRoot` as their predecessor are duplicity in either order. -/
theorem duplicity_permanent_sampleBranch :
    (∃ t, observe sampleBackend (branchTrust "ed25519") (sampleCall (sampleBranch "p256")).record
      (sampleCall (sampleBranch "p256")).sigs none false = .ok t ∧
        t.Dead sampleBackend) ∧
    ∃ t, observe sampleBackend (branchTrust "p256") (sampleCall (sampleBranch "ed25519")).record
      (sampleCall (sampleBranch "ed25519")).sigs none false = .ok t ∧
        t.Dead sampleBackend := by
  have hne := sampleBranch_digest_ne
  refine duplicity_permanent (t := sampleTrust) (a := sampleCall (sampleBranch "ed25519"))
    (b := sampleCall (sampleBranch "p256")) rfl (fun h => hne (congrArg sha256 h))
    (fun h => absurd h hne) (observe_sampleBranch (.inl rfl)) (branchTrust_head_ne (.inl rfl))
    (observe_sampleBranch (.inr rfl)) (branchTrust_head_ne (.inr rfl))

/-! ### Nobody is framed -/

/-- Two records of one XID and one place in the chain were presented, each signed by the control
key of their accepted predecessor `p` and by its own. -/
structure TwoBranches (bk : Backend) (calls : List Call) (accepted : List Head) (c₁ c₂ : Call)
    (r₁ r₂ : StateRecord) (p : Head) : Prop where
  mem₁ : c₁ ∈ calls
  mem₂ : c₂ ∈ calls
  read₁ : StateRecord.fromBytes c₁.record = .ok r₁
  read₂ : StateRecord.fromBytes c₂.record = .ok r₂
  digest_ne : sha256 c₁.record ≠ sha256 c₂.record
  xid_eq : r₁.xid = r₂.xid
  seq_eq : r₁.seq = r₂.seq
  two_le_seq : 2 ≤ r₁.seq
  accepted : p ∈ accepted
  prev₁ : r₁.prev = some (sha256 p.record.toBytes)
  prev₂ : r₂.prev = some (sha256 p.record.toBytes)
  signed₁ : c₁.SignedBy bk p.record.control ∧ c₁.SignedBy bk r₁.control
  signed₂ : c₂.SignedBy bk p.record.control ∧ c₂.SignedBy bk r₂.control

/-- The calls that are no evidence of duplicity, given the heads so far. -/
inductive Harmless (bk : Backend) (accepted : List Head) (c : Call) : Prop
  /-- An accepted record again. -/
  | replay {h : Head} (hh : h ∈ accepted) (hrecord : c.record = h.record.toBytes)
  /-- A record that no control key of the chain signed. -/
  | unsigned (hsig : ∀ p ∈ accepted, ¬ c.SignedBy bk p.record.control)
  /-- A record that its own control key did not sign. -/
  | unsignedOwn {r : StateRecord} (hread : StateRecord.fromBytes c.record = .ok r)
      (hsig : ¬ c.SignedBy bk r.control)
  /-- A record of another XID. -/
  | otherXid {r : StateRecord} (hread : StateRecord.fromBytes c.record = .ok r)
      (hxid : ∀ h ∈ accepted, r.xid ≠ h.record.xid)
  /-- A first record. -/
  | first {r : StateRecord} (hread : StateRecord.fromBytes c.record = .ok r) (hseq : r.seq = 1)
  /-- A record from before the head. -/
  | stale {r : StateRecord} {h : Head} (hread : StateRecord.fromBytes c.record = .ok r)
      (hh : h ∈ accepted) (hseq : r.seq < h.record.seq)

section Framing

variable {bk : Backend} {t₀ : Trust} {calls : List Call} {c : Call} {s : Session}

lemma TwoBranches.mono {calls' : List Call} {accepted accepted' : List Head} {c₁ c₂ : Call}
    {r₁ r₂ : StateRecord} {p : Head} (h : TwoBranches bk calls accepted c₁ c₂ r₁ r₂ p)
    (hcalls : calls ⊆ calls') (haccepted : accepted ⊆ accepted') :
    TwoBranches bk calls' accepted' c₁ c₂ r₁ r₂ p :=
  { h with
    mem₁ := hcalls h.mem₁
    mem₂ := hcalls h.mem₂
    accepted := haccepted h.accepted }

/-- The call that sets the flag and the one that presented the head are the two branches. -/
lemma ForkedBy.twoBranches {r : StateRecord} {head p : Head} (hs : s.Sound bk t₀ calls)
    (h : ForkedBy bk calls s c r head p) :
    ∃ c₁, TwoBranches bk (calls ++ [c]) s.accepted c₁ c head.record r p := by
  obtain ⟨c₁, hc₁, hrecord, hprev, hown⟩ := h.linked.presented
  have hdecoded := hs.decoded head h.mem_head
  have hp := hs.decoded p h.mem_prev
  have hwf := (StateRecord.fromBytes_eq_ok h.read_eq).2
  -- the branch on the first record comes earlier in the source, so this one is not 1
  have hseq : 2 ≤ head.record.seq := by
    rw [← h.seq_eq]
    have hpos := UInt64.le_iff_toNat_le.mp hwf.seq_pos
    have hne : r.seq.toNat ≠ 1 := fun heq => h.seq_ne (UInt64.toNat_inj.mp heq)
    rw [UInt64.le_iff_toNat_le]
    show 2 ≤ r.seq.toNat
    have hone : 1 ≤ r.seq.toNat := hpos
    omega
  exact ⟨c₁,
    { mem₁ := List.mem_append_left _ hc₁
      mem₂ := by simp
      read₁ := by rw [hrecord, hdecoded.read_eq]
      read₂ := h.read_eq
      digest_ne := by
        rw [hrecord, ← hdecoded.digest_eq]
        exact h.digest_ne
      xid_eq := h.rotates.xid_eq.symm
      seq_eq := h.seq_eq.symm
      two_le_seq := hseq
      accepted := h.mem_prev
      prev₁ := by rw [h.linked.prev_eq, hp.digest_eq]
      prev₂ := by rw [h.prev_eq, hp.digest_eq]
      signed₁ := ⟨hprev, hown⟩
      signed₂ := ⟨h.rotates.signed_prev, h.rotates.signed_own⟩ }⟩

/-- No harmless call sets the flag. -/
lemma ForkedBy.not_harmless {r : StateRecord} {head p : Head} (hs : s.Sound bk t₀ calls)
    (h : ForkedBy bk calls s c r head p) : ¬ Harmless bk s.accepted c := by
  have huniq : ∀ {r' : StateRecord}, StateRecord.fromBytes c.record = .ok r' → r' = r :=
    fun hread => Except.ok.inj (hread.symm.trans h.read_eq)
  rintro (⟨hh, hrecord⟩ | hsig | ⟨hread, hsig⟩ | ⟨hread, hxid⟩ | ⟨hread, hseq⟩ |
    ⟨hread, hh, hseq⟩)
  · -- an accepted record with the head's number is the head, whose digest differs
    rename_i h'
    have hdecoded := hs.decoded h' hh
    have hr : h'.record = r := huniq (by rw [hrecord, hdecoded.read_eq])
    rcases hs.eq_head h.head_eq hh with rfl | hlt
    · exact h.digest_ne (by rw [hdecoded.digest_eq, ← hrecord]; rfl)
    · rw [hr, h.seq_eq] at hlt
      exact lt_irrefl _ hlt
  · exact hsig p h.mem_prev h.rotates.signed_prev
  · rw [huniq hread] at hsig
    exact hsig h.rotates.signed_own
  · rw [huniq hread] at hxid
    exact hxid head h.mem_head h.rotates.xid_eq
  · rw [huniq hread] at hseq
    exact h.seq_ne hseq
  · rename_i h'
    rw [huniq hread, h.seq_eq, UInt64.lt_iff_toNat_lt] at hseq
    rcases hs.eq_head h.head_eq hh with rfl | hlt
    · exact lt_irrefl _ hseq
    · omega

lemma Session.accepted_subset {pre post : List Call} :
    (run bk t₀ pre).accepted ⊆ (run bk t₀ (pre ++ post)).accepted := by
  rw [run_append]
  refine run_keeps (Q := fun s : Session => (run bk t₀ pre).accepted ⊆ s.accepted)
    (fun s c hsub => ?_) (List.Subset.refl _) post
  rcases step_cases bk s c with hstay | ⟨-, r, -, hmove⟩
  · rwa [hstay]
  · generalize Session.step bk s c = s' at hmove
    cases hmove with
    | extended => exact List.subset_cons_of_subset _ hsub
    | forked => exact hsub
    | first => exact List.subset_cons_of_subset _ hsub

/-- A forked run was presented two branches. -/
lemma exists_twoBranches (ht₀ : t₀.Fresh)
    (hforked : (Session.run bk t₀ calls).trust.forked = true) :
    ∃ c₁ c₂ r₁ r₂ p, TwoBranches bk calls (Session.run bk t₀ calls).accepted c₁ c₂ r₁ r₂ p := by
  have hstart : ¬ (Session.run bk t₀ []).trust.forked = true := by
    rw [show (Session.run bk t₀ []).trust = t₀ from rfl, ht₀.forked_eq]
    exact Bool.false_ne_true
  obtain ⟨pre, c, post, rfl, hbefore, hafter⟩ :=
    exists_step (Q := fun s : Session => s.trust.forked = true) hstart hforked
  have hs := @Session.sound bk _ ht₀ pre
  obtain ⟨r, head, p, hby⟩ := hs.forkedBy (Bool.eq_false_iff.mpr hbefore) hafter
  obtain ⟨c₁, hbranches⟩ := hby.twoBranches hs
  have hcalls : pre ++ [c] ⊆ pre ++ c :: post := by
    rw [List.append_cons pre c post]
    exact List.subset_append_left _ _
  exact ⟨c₁, c, head.record, r, p, hbranches.mono hcalls Session.accepted_subset⟩

/-- **Nobody is framed.**  A run that ends forked was presented two different records for one
place of the chain, both signed by the accepted predecessor's control key and by their own; and
no harmless call sets the flag. -/
theorem no_framing (ht₀ : t₀ = Trust.new ∨ ∃ d, t₀ = Trust.withAnchor d) :
    ((Session.run bk t₀ calls).trust.isForked = true →
      ∃ c₁ c₂ r₁ r₂ p,
        TwoBranches bk calls (Session.run bk t₀ calls).accepted c₁ c₂ r₁ r₂ p) ∧
    ∀ pre c post, calls = pre ++ c :: post → (Session.run bk t₀ pre).trust.isForked = false →
      Harmless bk (Session.run bk t₀ pre).accepted c →
      (Session.run bk t₀ (pre ++ [c])).trust.isForked = false := by
  have hfresh := Trust.fresh_of_start ht₀
  refine ⟨exists_twoBranches hfresh, ?_⟩
  rintro pre c post - hbefore hharmless
  rw [← Bool.not_eq_true]
  intro hafter
  have hs := @Session.sound bk _ hfresh pre
  rw [Session.run_append] at hafter
  obtain ⟨r, head, p, hby⟩ := hs.forkedBy hbefore hafter
  exact hby.not_harmless hs hharmless

end Framing

/-- The run that is shown both records after `sampleRoot`. -/
def forkedCalls : List Call := branchCalls "ed25519" ++ [sampleCall (sampleBranch "p256")]

lemma forked_forkedCalls :
    (Session.run sampleBackend .new forkedCalls).trust.isForked = true := by
  have hfork : observe sampleBackend (branchTrust "ed25519")
      (sampleCall (sampleBranch "p256")).record (sampleCall (sampleBranch "p256")).sigs
      (sampleCall (sampleBranch "p256")).elect (sampleCall (sampleBranch "p256")).classicalSound =
        .ok { branchTrust "ed25519" with forked := true } :=
    fork_of_successors (t := sampleTrust) (a := sampleCall (sampleBranch "ed25519"))
      (read_sampleBranch (.inr rfl)) sampleBranch_digest_ne (sampleBranch_new (.inl rfl))
      (by decide) (sampleBranch_extends "ed25519") (sampleBranch_extends "p256") rfl
      (sampleBranch_rotates "p256") rfl
  rw [forkedCalls, Session.run_snoc_of_ok sampleBackend (run_branchCalls (.inl rfl)) hfork]
  rfl

/-- Such a run was shown two branches; the first record again does not fork a run that starts
with it. -/
theorem no_framing_sampleRoot :
    (∃ c₁ c₂ r₁ r₂ p, TwoBranches sampleBackend forkedCalls
      (Session.run sampleBackend .new forkedCalls).accepted c₁ c₂ r₁ r₂ p) ∧
    (Session.run sampleBackend .new
      ([sampleCall sampleRoot] ++ [sampleCall sampleRoot])).trust.isForked = false := by
  refine ⟨(no_framing (.inl rfl)).1 forked_forkedCalls, ?_⟩
  refine (no_framing (.inl rfl)).2 [sampleCall sampleRoot] (sampleCall sampleRoot) [] rfl ?_
    (.replay (h := (sampleCall sampleRoot).head sampleRoot) ?_ rfl)
  · rw [run_sampleRoot]
    rfl
  · rw [run_sampleRoot]
    exact List.mem_singleton_self _

end Identikey.Auth
