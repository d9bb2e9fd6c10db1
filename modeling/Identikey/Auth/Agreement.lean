/-
Agreement between verifiers.

Two verifiers that accepted the same first record may see different records in
different orders, with anything mixed in.  As long as no control key signed two
different successors of its record among the records they are shown, the chain of
one is the beginning of the chain of the other.
-/
import Identikey.Lib.Chain
import Identikey.Auth.TrustSafety

namespace Identikey.Auth

open Lib

/-- The control key of `p` is honest towards these calls: two records presented in them that
name `p` as their predecessor, each with a signature that verifies under the key, are one. -/
def Honest (bk : Backend) (calls : List Call) (p : StateRecord) : Prop :=
  ∀ c ∈ calls, ∀ c' ∈ calls, ∀ r r', StateRecord.fromBytes c.record = .ok r →
    StateRecord.fromBytes c'.record = .ok r' → r.prev = some (sha256 p.toBytes) →
    r'.prev = some (sha256 p.toBytes) → c.SignedBy bk p.control → c'.SignedBy bk p.control → r = r'

section Agreement

variable {bk : Backend} {t₀ : Trust} {calls calls₁ calls₂ : List Call}

lemma Honest.mono {p : StateRecord} (h : Honest bk calls p) (hsub : calls₁ ⊆ calls) :
    Honest bk calls₁ p :=
  fun c hc c' hc' => h c (hsub hc) c' (hsub hc')

lemma Decoded.eq_of_record {h h' : Head} (hh : Decoded h) (hh' : Decoded h')
    (hr : h.record = h'.record) : h = h' := by
  ext1
  · rw [hh.digest_eq, hh'.digest_eq, hr]
  · exact hr

/-- Honest keys have not signed the two branches that set the fork flag. -/
lemma not_forked_of_honest (ht₀ : t₀.Fresh)
    (honest : ∀ p ∈ (Session.run bk t₀ calls).accepted, Honest bk calls p.record) :
    (Session.run bk t₀ calls).trust.forked = false := by
  rw [← Bool.not_eq_true]
  intro hforked
  obtain ⟨c₁, c₂, r₁, r₂, p, h⟩ := exists_twoBranches ht₀ hforked
  have hr : r₁ = r₂ := honest p h.accepted c₁ h.mem₁ c₂ h.mem₂ r₁ r₂ h.read₁ h.read₂ h.prev₁
    h.prev₂ h.signed₁.1 h.signed₂.1
  refine h.digest_ne ?_
  rw [← (StateRecord.fromBytes_eq_ok h.read₁).1, ← (StateRecord.fromBytes_eq_ok h.read₂).1, hr]

/-- Two accepted heads with the same honest predecessor are the same. -/
lemma Linked.unique {p h h' : Head} (honest : Honest bk calls p.record) (hp : Decoded p)
    (hh : Decoded h) (hh' : Decoded h') (hlink : Linked bk calls p h)
    (hlink' : Linked bk calls p h') : h = h' := by
  obtain ⟨c, hc, hrecord, hsig, -⟩ := hlink.presented
  obtain ⟨c', hc', hrecord', hsig', -⟩ := hlink'.presented
  have hr : h.record = h'.record :=
    honest c hc c' hc' h.record h'.record (by rw [hrecord, hh.read_eq])
      (by rw [hrecord', hh'.read_eq]) (by rw [hlink.prev_eq, hp.digest_eq])
      (by rw [hlink'.prev_eq, hp.digest_eq]) hsig hsig'
  exact Decoded.eq_of_record hh hh' hr

/-- Two runs with one first head have chains of which one is the end of the other, the latest head
standing first. -/
lemma accepted_comparable {s₁ s₂ : Session} (hs₁ : s₁.Sound bk t₀ calls₁)
    (hs₂ : s₂.Sound bk t₀ calls₂) {root : Head} (hroot₁ : s₁.accepted.getLast? = some root)
    (hroot₂ : s₂.accepted.getLast? = some root)
    (honest : ∀ p ∈ s₁.accepted, Honest bk (calls₁ ++ calls₂) p.record) :
    s₁.accepted <:+ s₂.accepted ∨ s₂.accepted <:+ s₁.accepted := by
  obtain ⟨xs, hxs⟩ := List.getLast?_eq_some_iff.mp hroot₁
  obtain ⟨ys, hys⟩ := List.getLast?_eq_some_iff.mp hroot₂
  -- both chains as chains of what was shown in the two runs together
  have hchain₁ := hs₁.linked.imp fun _ _ hlink =>
    hlink.mono (List.subset_append_left calls₁ calls₂)
  have hchain₂ := hs₂.linked.imp fun _ _ hlink =>
    hlink.mono (List.subset_append_right calls₁ calls₂)
  have hdecoded₁ := hs₁.decoded
  have hdecoded₂ := hs₂.decoded
  rw [hxs] at hchain₁ hdecoded₁ honest ⊢
  rw [hys] at hchain₂ hdecoded₂ ⊢
  refine suffix_or_suffix_of_unique (R := fun p h => Linked bk (calls₁ ++ calls₂) p h)
    hchain₁ hchain₂ ?_
  intro p hp a ha b hb hpa hpb
  exact Linked.unique (honest p hp) (hdecoded₁ p hp)
    (hdecoded₁ a (List.mem_append_left _ ha)) (hdecoded₂ b (List.mem_append_left _ hb)) hpa hpb

/-- Where one chain is the end of the other, the heads are comparable by their numbers. -/
lemma head_mem_of_suffix {s₁ s₂ : Session} (hs₁ : s₁.Sound bk t₀ calls₁)
    (hs₂ : s₂.Sound bk t₀ calls₂) {h₁ h₂ : Head} (hh₁ : s₁.trust.head = some h₁)
    (hh₂ : s₂.trust.head = some h₂) (hsuffix : s₁.accepted <:+ s₂.accepted) :
    h₁ ∈ s₂.accepted ∧ (h₂.record.seq ≤ h₁.record.seq → h₂ ∈ s₁.accepted) := by
  have hmem₁ : h₁ ∈ s₁.accepted := List.mem_of_head? (hs₁.head_eq.symm.trans hh₁)
  refine ⟨hsuffix.subset hmem₁, fun hle => ?_⟩
  rcases hs₂.eq_head hh₂ (hsuffix.subset hmem₁) with rfl | hlt
  · exact hmem₁
  · rw [UInt64.le_iff_toNat_le] at hle
    omega

/-- An unforked run has no forked prefix. -/
lemma not_forked_of_prefix {pre : List Call} (hpre : pre <+: calls)
    (h : (Session.run bk t₀ calls).trust.forked = false) :
    (Session.run bk t₀ pre).trust.forked = false := by
  obtain ⟨post, rfl⟩ := hpre
  rw [← Bool.not_eq_true] at h ⊢
  exact fun hforked => h (Session.forked_of_prefix hforked)

lemma Session.Sound.exists_head {s : Session} (hs : s.Sound bk t₀ calls) {root : Head}
    (hroot : s.accepted.getLast? = some root) : ∃ h, s.trust.head = some h := by
  rw [hs.head_eq]
  cases hacc : s.accepted with
  | nil => simp [hacc] at hroot
  | cons h rest => exact ⟨h, rfl⟩

lemma Trust.authority_of_head {t : Trust} {h : Head} (hforked : t.forked = false)
    (hhead : t.head = some h) : t.authority = some h := by
  rw [authority, hforked, hhead]
  rfl

/-- **Agreement.**  Let two runs from `new` have accepted the same first record, and let the
control keys of the accepted records be honest towards what the two were shown.  Then neither
was ever forked, both have a head, and the head with the smaller sequence number is on the
accepted chain of the other. -/
theorem agreement {root : StateRecord}
    (hroot₁ : (Session.run bk Trust.new calls₁).accepted.getLast?.map Head.record = some root)
    (hroot₂ : (Session.run bk Trust.new calls₂).accepted.getLast?.map Head.record = some root)
    (honest : ∀ p ∈ (Session.run bk Trust.new calls₁).accepted ++
      (Session.run bk Trust.new calls₂).accepted, Honest bk (calls₁ ++ calls₂) p.record) :
    (∀ pre, pre <+: calls₁ → (Session.run bk Trust.new pre).trust.isForked = false) ∧
    (∀ pre, pre <+: calls₂ → (Session.run bk Trust.new pre).trust.isForked = false) ∧
    ∃ h₁ h₂, (Session.run bk Trust.new calls₁).trust.authority = some h₁ ∧
      (Session.run bk Trust.new calls₂).trust.authority = some h₂ ∧
      (h₁.record.seq ≤ h₂.record.seq → h₁ ∈ (Session.run bk Trust.new calls₂).accepted) ∧
      (h₂.record.seq ≤ h₁.record.seq → h₂ ∈ (Session.run bk Trust.new calls₁).accepted) := by
  have hs₁ := @Session.sound bk _ Trust.fresh_new calls₁
  have hs₂ := @Session.sound bk _ Trust.fresh_new calls₂
  have honest₁ : ∀ p ∈ (Session.run bk Trust.new calls₁).accepted,
      Honest bk (calls₁ ++ calls₂) p.record :=
    fun p hp => honest p (List.mem_append_left _ hp)
  have honest₂ : ∀ p ∈ (Session.run bk Trust.new calls₂).accepted,
      Honest bk (calls₁ ++ calls₂) p.record :=
    fun p hp => honest p (List.mem_append_right _ hp)
  have hforked₁ := not_forked_of_honest Trust.fresh_new fun p hp =>
    (honest₁ p hp).mono (List.subset_append_left calls₁ calls₂)
  have hforked₂ := not_forked_of_honest Trust.fresh_new fun p hp =>
    (honest₂ p hp).mono (List.subset_append_right calls₁ calls₂)
  refine ⟨fun pre hpre => not_forked_of_prefix hpre hforked₁,
    fun pre hpre => not_forked_of_prefix hpre hforked₂, ?_⟩
  obtain ⟨r₁, hr₁, rfl⟩ := Option.map_eq_some_iff.mp hroot₁
  obtain ⟨r₂, hr₂, hrecord⟩ := Option.map_eq_some_iff.mp hroot₂
  -- one record, so one digest and one head
  obtain rfl : r₂ = r₁ := Decoded.eq_of_record (hs₂.decoded r₂ (List.mem_of_getLast? hr₂))
    (hs₁.decoded r₁ (List.mem_of_getLast? hr₁)) hrecord
  obtain ⟨h₁, hh₁⟩ := hs₁.exists_head hr₁
  obtain ⟨h₂, hh₂⟩ := hs₂.exists_head hr₂
  refine ⟨h₁, h₂, Trust.authority_of_head hforked₁ hh₁, Trust.authority_of_head hforked₂ hh₂, ?_⟩
  rcases accepted_comparable hs₁ hs₂ hr₁ hr₂ honest₁ with hsuffix | hsuffix
  · obtain ⟨hmem, hle⟩ := head_mem_of_suffix hs₁ hs₂ hh₁ hh₂ hsuffix
    exact ⟨fun _ => hmem, hle⟩
  · obtain ⟨hmem, hle⟩ := head_mem_of_suffix hs₂ hs₁ hh₂ hh₁ hsuffix
    exact ⟨hle, fun _ => hmem⟩

end Agreement

/-- The only record of these calls that has a predecessor is the branch. -/
lemma honest_branchCalls {alg : String} (h : IsBranch alg) (p : StateRecord) :
    Honest sampleBackend (sampleCall sampleRoot :: branchCalls alg) p := by
  have hbranch : ∀ c ∈ sampleCall sampleRoot :: branchCalls alg, ∀ r,
      StateRecord.fromBytes c.record = .ok r → r.prev = some (sha256 p.toBytes) →
      r = sampleBranch alg := by
    intro c hc r hread hprev
    have hc : c = sampleCall sampleRoot ∨ c = sampleCall (sampleBranch alg) := by
      simpa [branchCalls] using hc
    rcases hc with rfl | rfl
    · rw [← Except.ok.inj (read_sampleRoot.symm.trans hread)] at hprev
      cases hprev
    · exact (Except.ok.inj ((read_sampleBranch h).symm.trans hread)).symm
  intro c hc c' hc' r r' hread hread' hprev hprev' _ _
  rw [hbranch c hc r hread hprev, hbranch c' hc' r' hread' hprev']

/-- A verifier that has seen `sampleRoot` only agrees with one that has seen a record after it. -/
theorem agreement_sampleBranch :
    (Session.run sampleBackend Trust.new (branchCalls "ed25519")).trust.isForked = false ∧
    ∃ h₁, (Session.run sampleBackend Trust.new [sampleCall sampleRoot]).trust.authority =
      some h₁ ∧ h₁ ∈ (Session.run sampleBackend Trust.new (branchCalls "ed25519")).accepted := by
  have hbranch : IsBranch "ed25519" := .inl rfl
  have hrun := run_branchCalls hbranch
  have hroot₁ : (Session.run sampleBackend Trust.new
      [sampleCall sampleRoot]).accepted.getLast?.map Head.record = some sampleRoot := by
    rw [run_sampleRoot]
    rfl
  have hroot₂ : (Session.run sampleBackend Trust.new
      (branchCalls "ed25519")).accepted.getLast?.map Head.record = some sampleRoot := by
    rw [hrun]
    rfl
  obtain ⟨-, hforked, h₁, h₂, hauth₁, hauth₂, hmem, -⟩ :=
    agreement hroot₁ hroot₂ fun p _ => honest_branchCalls hbranch p.record
  refine ⟨hforked _ List.prefix_rfl, h₁, hauth₁, hmem ?_⟩
  rw [run_sampleRoot] at hauth₁
  rw [hrun] at hauth₂
  obtain rfl := Option.some.inj hauth₁
  obtain rfl := Option.some.inj hauth₂
  show (1 : UInt64) ≤ 2
  decide

end Identikey.Auth
