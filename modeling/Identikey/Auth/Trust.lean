/-
Verifier-local trust in a chain of state records (`state.rs`).

`observe` checks one record against a trust and returns the trust after it; on an
error the caller keeps the trust it had.  `Observed` lists what a call that succeeds
can have done, one constructor for each way through the code, and
`observe_eq_ok_iff` says that these are all.
-/
import Identikey.Auth.Signer
import Identikey.Auth.StateRecord

namespace Identikey.Auth

open Lib.Fallible

/-- Detached signatures supplied with a record. -/
structure StateSignatures where
  pq : List PqSignature
  classical : Option ClassicalSignature
deriving DecidableEq, Repr

/-- The accepted head of a chain. -/
@[ext]
structure Head where
  digest : Digest32
  record : StateRecord
deriving DecidableEq, Repr

/-- The control key that authorized the head, and the head's `prev` and `seq`. -/
structure Parent where
  control : PqPublicKey
  prev : Digest32
  seq : UInt64
deriving DecidableEq, Repr

/-- Verifier-local trust for one XID. -/
structure Trust where
  anchor : Option Digest32
  head : Option Head
  parent : Option Parent
  forked : Bool
deriving DecidableEq, Repr

namespace Trust

/-- `Trust::new`. -/
def new : Trust := { anchor := none, head := none, parent := none, forked := false }

/-- `Trust::with_anchor`. -/
def withAnchor (anchor : Digest32) : Trust := { new with anchor := some anchor }

def isForked (t : Trust) : Bool := t.forked

/-- The current authority: none without a head or after a fork. -/
def authority (t : Trust) : Option Head := if t.forked then none else t.head

/-- A cited digest: only the accepted head resolves. -/
def resolve (t : Trust) (digest : Digest32) : Option Head :=
  t.authority.filter fun h => h.digest = digest

end Trust

section Observe

variable (bk : Backend)

/-- `pq_signed`: some signature verifies under the key. -/
def pqSigned (key : PqPublicKey) (payload : Bytes) (sigs : List PqSignature) : Bool :=
  sigs.any fun s => (verifyPq bk key payload s).isOk

/-- `check_rotation`. -/
def checkRotation (r : StateRecord) (xid : Digest32) (prevControl : PqPublicKey) (payload : Bytes)
    (sigs : StateSignatures) : Except AuthError Unit := do
  ensure (r.xid = xid) (.state "xid changed")
  ensure (pqSigned bk prevControl payload sigs.pq = true) .badSignature
  ensure (r.control = prevControl ∨ pqSigned bk r.control payload sigs.pq = true) .badSignature

/-- `check_migration_sigs`. -/
def checkMigrationSigs (r : StateRecord) (payload : Bytes) (sigs : StateSignatures)
    (elect : Option ClassicalPublicKey) : Except AuthError Unit :=
  match elect, sigs.classical with
  | some elect, some sig => do
    verifyClassical bk elect payload sig
    ensure (pqSigned bk r.control payload sigs.pq = true) .badSignature
  | _, _ => .error (.state "migration needs an elect key and its signature")

/-- The part of `successor` after the head's own successor: a sibling of the head is duplicity. -/
def sibling (trust : Trust) (head : Head) (r : StateRecord) (payload : Bytes)
    (sigs : StateSignatures) : Except AuthError Trust :=
  match trust.parent with
  | some parent =>
    if r.prev = some parent.prev ∧ r.seq = parent.seq then do
      checkRotation bk r head.record.xid parent.control payload sigs
      return { trust with forked := true }
    else .error (.state "record does not extend the accepted head")
  | none => .error (.state "record does not extend the accepted head")

/-- `successor`. -/
def successor (trust : Trust) (head : Head) (r : StateRecord) (digest : Digest32)
    (payload : Bytes) (sigs : StateSignatures) : Except AuthError Trust :=
  if r.prev = some head.digest ∧ some r.seq = checkedAdd head.record.seq 1 then do
    checkRotation bk r head.record.xid head.record.control payload sigs
    return {
      anchor := trust.anchor
      head := some { digest, record := r }
      parent := some { control := head.record.control, prev := head.digest, seq := r.seq }
      forked := false }
  else sibling bk trust head r payload sigs

/-- `observe` for a trust that has a head. -/
def observeHead (trust : Trust) (head : Head) (r : StateRecord) (digest : Digest32)
    (payload : Bytes) (sigs : StateSignatures) : Except AuthError Trust :=
  if head.digest = digest then .ok trust
  else if r.seq = 1 then
    if trust.anchor = some digest then .ok trust
    else .error (.state "chain already established")
  else successor bk trust head r digest payload sigs

/-- `observe` for a trust that has no head. -/
def observeFirst (trust : Trust) (r : StateRecord) (digest : Digest32) (payload : Bytes)
    (sigs : StateSignatures) (elect : Option ClassicalPublicKey) (classicalSound : Bool) :
    Except AuthError Trust := do
  ensure (r.seq = 1) (.state "no accepted head")
  match trust.anchor with
  | some anchor => do
    ensure (anchor = digest) (.state "first record is not the stored anchor")
    checkMigrationSigs bk r payload sigs elect
    return { trust with head := some { digest, record := r } }
  | none =>
    if r.xid = xidForControlKey r.control then do
      ensure (pqSigned bk r.control payload sigs.pq = true) .badSignature
      return { trust with head := some { digest, record := r } }
    else do
      checkMigrationSigs bk r payload sigs elect
      ensure (classicalSound = true)
        (.state "classical signatures are not sound and no anchor is stored")
      return { trust with anchor := some digest, head := some { digest, record := r } }

/-- `observe`: one record against `trust`. -/
def observe (trust : Trust) (record : Bytes) (sigs : StateSignatures)
    (elect : Option ClassicalPublicKey) (classicalSound : Bool) : Except AuthError Trust := do
  ensure (trust.forked = false) (.state "duplicity recorded for this xid")
  let r ← StateRecord.fromBytes record
  let digest := sha256 record
  let payload := stateSigningPayload record
  match trust.head with
  | some head => observeHead bk trust head r digest payload sigs
  | none => observeFirst bk trust r digest payload sigs elect classicalSound

end Observe

/-! ### What a call can do -/

/-- The arguments of one call of `observe` besides the trust. -/
structure Call where
  record : Bytes
  sigs : StateSignatures
  elect : Option ClassicalPublicKey
  classicalSound : Bool
deriving DecidableEq, Repr

/-- The digest of the record presented. -/
def Call.digest (c : Call) : Digest32 := sha256 c.record

section Observed

variable (bk : Backend)

/-- A signature supplied with the record verifies under the key. -/
def Call.SignedBy (c : Call) (key : PqPublicKey) : Prop :=
  pqSigned bk key (stateSigningPayload c.record) c.sigs.pq = true

/-- The elect key and its signature are supplied, and the signature verifies. -/
def Call.SignedByElect (c : Call) : Prop :=
  ∃ elect sig, c.elect = some elect ∧ c.sigs.classical = some sig ∧
    verifyClassical bk elect (stateSigningPayload c.record) sig = .ok ()

/-- The record is signed by the control key before it and by its own. -/
structure Call.Rotates (c : Call) (r : StateRecord) (xid : Digest32) (prevControl : PqPublicKey) :
    Prop where
  xid_eq : r.xid = xid
  signed_prev : c.SignedBy bk prevControl
  signed_own : c.SignedBy bk r.control

/-- The head of the record that a call presents. -/
def Call.head (c : Call) (r : StateRecord) : Head := { digest := c.digest, record := r }

/-- The record extends the head. -/
structure Extends (head : Head) (r : StateRecord) : Prop where
  prev_eq : r.prev = some head.digest
  seq_eq : r.seq.toNat = head.record.seq.toNat + 1

/-- The record has the place of the head. -/
structure Sibling (parent : Parent) (r : StateRecord) : Prop where
  prev_eq : r.prev = some parent.prev
  seq_eq : r.seq = parent.seq

/-- What a call that succeeds on an unforked trust, presenting the record `r`, has done. -/
inductive Observed (t : Trust) (c : Call) (r : StateRecord) : Trust → Prop
  /-- A byte-identical repeat of the head. -/
  | repeated {head : Head} (hhead : t.head = some head) (hdigest : head.digest = c.digest) :
    Observed t c r t
  /-- The first record again, when it is the stored anchor. -/
  | rechecked {head : Head} (hhead : t.head = some head) (hnew : head.digest ≠ c.digest)
      (hseq : r.seq = 1) (hanchor : t.anchor = some c.digest) : Observed t c r t
  /-- A successor of the head, which becomes the head. -/
  | extended {head : Head} (hhead : t.head = some head) (hnew : head.digest ≠ c.digest)
      (hseq : r.seq ≠ 1) (hext : Extends head r)
      (hrot : c.Rotates bk r head.record.xid head.record.control) :
    Observed t c r
      { anchor := t.anchor, head := some (c.head r),
        parent := some { control := head.record.control, prev := head.digest, seq := r.seq },
        forked := false }
  /-- A second successor of the head's parent. -/
  | forked {head : Head} {parent : Parent} (hhead : t.head = some head)
      (hnew : head.digest ≠ c.digest) (hseq : r.seq ≠ 1) (hext : ¬ Extends head r)
      (hparent : t.parent = some parent) (hsib : Sibling parent r)
      (hrot : c.Rotates bk r head.record.xid parent.control) :
    Observed t c r { t with forked := true }
  /-- The stored anchor, signed by the elect key. -/
  | anchored (hhead : t.head = none) (hseq : r.seq = 1) (hanchor : t.anchor = some c.digest)
      (helect : c.SignedByElect bk) (hown : c.SignedBy bk r.control) :
    Observed t c r { t with head := some (c.head r) }
  /-- The first record of a new identity. -/
  | inception (hhead : t.head = none) (hseq : r.seq = 1) (hanchor : t.anchor = none)
      (hxid : r.xid = xidForControlKey r.control) (hown : c.SignedBy bk r.control) :
    Observed t c r { t with head := some (c.head r) }
  /-- The first record of an identity that had a classical key, which becomes the anchor. -/
  | migrated (hhead : t.head = none) (hseq : r.seq = 1) (hanchor : t.anchor = none)
      (hxid : r.xid ≠ xidForControlKey r.control) (helect : c.SignedByElect bk)
      (hown : c.SignedBy bk r.control) (hsound : c.classicalSound = true) :
    Observed t c r { t with anchor := some c.digest, head := some (c.head r) }

end Observed

section Spec

variable {bk : Backend}

lemma checkRotation_eq_ok {c : Call} {r : StateRecord} {xid : Digest32} {key : PqPublicKey}
    {u : Unit} : checkRotation bk r xid key (stateSigningPayload c.record) c.sigs = .ok u ↔
      c.Rotates bk r xid key := by
  simp only [checkRotation, bind_eq_ok, ensure_eq_ok]
  constructor
  · rintro ⟨_, hxid, _, hprev, hown⟩
    refine ⟨hxid, hprev, ?_⟩
    rcases hown with heq | hown
    · rw [heq]
      exact hprev
    · exact hown
  · rintro ⟨hxid, hprev, hown⟩
    exact ⟨(), hxid, (), hprev, .inr hown⟩

lemma checkMigrationSigs_eq_ok {c : Call} {r : StateRecord} {u : Unit} :
    checkMigrationSigs bk r (stateSigningPayload c.record) c.sigs c.elect = .ok u ↔
      c.SignedByElect bk ∧ c.SignedBy bk r.control := by
  unfold checkMigrationSigs
  split
  · next elect sig helect hsig =>
    simp only [bind_eq_ok, ensure_eq_ok]
    constructor
    · rintro ⟨_, hverify, hown⟩
      exact ⟨⟨elect, sig, helect, hsig, hverify⟩, hown⟩
    · rintro ⟨⟨elect', sig', helect', hsig', hverify⟩, hown⟩
      obtain rfl := Option.some.inj (helect.symm.trans helect')
      obtain rfl := Option.some.inj (hsig.symm.trans hsig')
      exact ⟨(), hverify, hown⟩
  · next hnone =>
    constructor
    · rintro ⟨⟩
    · rintro ⟨⟨elect, sig, helect, hsig, -⟩, -⟩
      exact absurd hsig (hnone elect sig helect)

lemma extends_iff {head : Head} {r : StateRecord} :
    (r.prev = some head.digest ∧ some r.seq = checkedAdd head.record.seq 1) ↔ Extends head r := by
  rw [eq_comm (a := some r.seq), checkedAdd_eq_some]
  exact ⟨fun ⟨h₁, h₂⟩ => ⟨h₁, h₂⟩, fun ⟨h₁, h₂⟩ => ⟨h₁, h₂⟩⟩

lemma sibling_iff {parent : Parent} {r : StateRecord} :
    (r.prev = some parent.prev ∧ r.seq = parent.seq) ↔ Sibling parent r :=
  ⟨fun ⟨h₁, h₂⟩ => ⟨h₁, h₂⟩, fun ⟨h₁, h₂⟩ => ⟨h₁, h₂⟩⟩

variable {t t' : Trust} {c : Call} {r : StateRecord}

lemma sibling_eq_ok {head : Head} :
    sibling bk t head r (stateSigningPayload c.record) c.sigs = .ok t' ↔
      ∃ parent, t.parent = some parent ∧ Sibling parent r ∧
        c.Rotates bk r head.record.xid parent.control ∧ t' = { t with forked := true } := by
  unfold sibling
  cases hparent : t.parent with
  | none =>
    constructor
    · rintro ⟨⟩
    · rintro ⟨parent, h, -⟩
      cases h
  | some parent =>
    show (if _ then _ else _) = _ ↔ _
    by_cases hsib : Sibling parent r
    · rw [if_pos (sibling_iff.mpr hsib)]
      simp only [bind_eq_ok, checkRotation_eq_ok, pure_eq_ok]
      constructor
      · rintro ⟨_, hrot, rfl⟩
        exact ⟨parent, rfl, hsib, hrot, rfl⟩
      · rintro ⟨parent', hparent', -, hrot, rfl⟩
        obtain rfl := Option.some.inj hparent'
        exact ⟨(), hrot, rfl⟩
    · rw [if_neg (sibling_iff.not.mpr hsib)]
      constructor
      · rintro ⟨⟩
      · rintro ⟨parent', hparent', hsib', -⟩
        obtain rfl := Option.some.inj hparent'
        exact absurd hsib' hsib

/-- A record after the head moves it, and any other one sets the flag or fails. -/
lemma successor_eq_ok {head : Head} :
    successor bk t head r c.digest (stateSigningPayload c.record) c.sigs = .ok t' ↔
      (Extends head r ∧ c.Rotates bk r head.record.xid head.record.control ∧
        t' = { anchor := t.anchor, head := some (c.head r),
               parent := some
                 { control := head.record.control, prev := head.digest, seq := r.seq },
               forked := false }) ∨
      ¬ Extends head r ∧ ∃ parent, t.parent = some parent ∧ Sibling parent r ∧
        c.Rotates bk r head.record.xid parent.control ∧ t' = { t with forked := true } := by
  unfold successor
  by_cases hext : Extends head r
  · rw [if_pos (extends_iff.mpr hext)]
    simp only [bind_eq_ok, checkRotation_eq_ok, pure_eq_ok]
    constructor
    · rintro ⟨_, hrot, rfl⟩
      exact .inl ⟨hext, hrot, rfl⟩
    · rintro (⟨-, hrot, rfl⟩ | ⟨hnot, -⟩)
      · exact ⟨(), hrot, rfl⟩
      · exact absurd hext hnot
  · rw [if_neg (extends_iff.not.mpr hext), sibling_eq_ok]
    constructor
    · exact fun h => .inr ⟨hext, h⟩
    · rintro (⟨hyes, -⟩ | ⟨-, h⟩)
      · exact absurd hyes hext
      · exact h

/-- `observe` on a trust with a head. -/
lemma observeHead_eq_ok_iff {head : Head} (hhead : t.head = some head) :
    observeHead bk t head r c.digest (stateSigningPayload c.record) c.sigs = .ok t' ↔
      Observed bk t c r t' := by
  constructor
  · intro h
    unfold observeHead at h
    split_ifs at h with hdigest hseq hanchor
    · cases h
      exact .repeated hhead hdigest
    · cases h
      exact .rechecked hhead hdigest hseq hanchor
    · rcases successor_eq_ok.mp h with ⟨hext, hrot, rfl⟩ | ⟨hext, parent, hparent, hsib, hrot, rfl⟩
      · exact .extended hhead hdigest hseq hext hrot
      · exact .forked hhead hdigest hseq hext hparent hsib hrot
  · have huniq : ∀ {head' : Head}, t.head = some head' → head' = head := fun h =>
      Option.some.inj (h.symm.trans hhead)
    have hnone : ¬ t.head = none := by
      rw [hhead]
      exact Option.some_ne_none head
    intro h
    unfold observeHead
    cases h with
    | repeated h hdigest =>
      obtain rfl := huniq h
      rw [if_pos hdigest]
    | rechecked h hnew hseq hanchor =>
      obtain rfl := huniq h
      rw [if_neg hnew, if_pos hseq, if_pos hanchor]
    | extended h hnew hseq hext hrot =>
      obtain rfl := huniq h
      rw [if_neg hnew, if_neg hseq, successor_eq_ok]
      exact .inl ⟨hext, hrot, rfl⟩
    | forked h hnew hseq hext hparent hsib hrot =>
      obtain rfl := huniq h
      rw [if_neg hnew, if_neg hseq, successor_eq_ok]
      exact .inr ⟨hext, _, hparent, hsib, hrot, rfl⟩
    | anchored h => exact absurd h hnone
    | inception h => exact absurd h hnone
    | migrated h => exact absurd h hnone

/-- `observe` on a trust without a head. -/
lemma observeFirst_eq_ok_iff (hhead : t.head = none) :
    observeFirst bk t r c.digest (stateSigningPayload c.record) c.sigs c.elect c.classicalSound =
        .ok t' ↔ Observed bk t c r t' := by
  constructor
  · intro h
    simp only [observeFirst, bind_eq_ok, ensure_eq_ok] at h
    obtain ⟨_, hseq, h⟩ := h
    cases hanchor : t.anchor with
    | some anchor =>
      simp only [hanchor, bind_eq_ok, ensure_eq_ok, checkMigrationSigs_eq_ok, pure_eq_ok] at h
      obtain ⟨_, rfl, _, ⟨helect, hown⟩, rfl⟩ := h
      simpa only [hanchor, Call.head] using Observed.anchored hhead hseq hanchor helect hown
    | none =>
      simp only [hanchor] at h
      split_ifs at h with hxid
      · simp only [bind_eq_ok, ensure_eq_ok, pure_eq_ok] at h
        obtain ⟨_, hown, rfl⟩ := h
        simpa only [hanchor, Call.head] using Observed.inception hhead hseq hanchor hxid hown
      · simp only [bind_eq_ok, ensure_eq_ok, checkMigrationSigs_eq_ok, pure_eq_ok] at h
        obtain ⟨_, ⟨helect, hown⟩, _, hsound, rfl⟩ := h
        exact .migrated hhead hseq hanchor hxid helect hown hsound
  · have hnone : ∀ {head : Head}, ¬ t.head = some head := fun h => by
      rw [hhead] at h
      cases h
    intro h
    simp only [observeFirst, bind_eq_ok, ensure_eq_ok]
    cases h with
    | repeated h => exact absurd h hnone
    | rechecked h => exact absurd h hnone
    | extended h => exact absurd h hnone
    | forked h => exact absurd h hnone
    | anchored _ hseq hanchor helect hown =>
      refine ⟨(), hseq, ?_⟩
      simp only [hanchor, bind_eq_ok, ensure_eq_ok, checkMigrationSigs_eq_ok]
      exact ⟨(), trivial, (), ⟨helect, hown⟩, rfl⟩
    | inception _ hseq hanchor hxid hown =>
      refine ⟨(), hseq, ?_⟩
      simp only [hanchor, if_pos hxid, bind_eq_ok, ensure_eq_ok]
      exact ⟨(), hown, rfl⟩
    | migrated _ hseq hanchor hxid helect hown hsound =>
      refine ⟨(), hseq, ?_⟩
      simp only [hanchor, if_neg hxid, bind_eq_ok, ensure_eq_ok, checkMigrationSigs_eq_ok]
      exact ⟨(), ⟨helect, hown⟩, (), hsound, rfl⟩

/-- A call succeeds exactly in the ways of `Observed`, on a trust that is not forked. -/
theorem observe_eq_ok_iff :
    observe bk t c.record c.sigs c.elect c.classicalSound = .ok t' ↔
      t.forked = false ∧ ∃ r, StateRecord.fromBytes c.record = .ok r ∧ Observed bk t c r t' := by
  simp only [observe, bind_eq_ok, ensure_eq_ok]
  cases hhead : t.head with
  | none =>
    simp only [← observeFirst_eq_ok_iff hhead]
    exact ⟨fun ⟨_, hf, h⟩ => ⟨hf, h⟩, fun ⟨hf, h⟩ => ⟨(), hf, h⟩⟩
  | some head =>
    simp only [← observeHead_eq_ok_iff hhead]
    exact ⟨fun ⟨_, hf, h⟩ => ⟨hf, h⟩, fun ⟨hf, h⟩ => ⟨(), hf, h⟩⟩

end Spec

end Identikey.Auth
