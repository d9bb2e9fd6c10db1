/-
Which rewraps end a grant.

A grant names the payload, the parts of the access set and the epoch.  A new recipient is
a new part, and a transformed capsule is another part than before; a rotation may keep
all of them.
-/
import Identikey.Share.GrantScope

set_option linter.dupNamespace false

namespace Identikey.Share

open Lib Lib.Fallible Auth Dcbor

/-- The operations that wrap the DEK of a share anew, with what they draw at random. -/
inductive Rewrap (curves : Curves) where
  | addRecipient (opener : WrapSecret) (recipient : WrapPublic) (coins : WrapCoins curves)
  | rotate (opener : WrapSecret) (recipients : List WrapPublic) (epoch : UInt64)
      (coins : WrapPublic → WrapCoins curves)
  | transformRecrypt (backend : String) (source : Bytes) (target : RecryptPublic)
      (transformKey : Bytes) (kem : RecryptKem)

namespace Rewrap

variable {curves : Curves} (aead : Aead) (blake3 : Bytes → Digest32)

/-- The operation on a share. -/
def apply (s : Share) : Rewrap curves → Except ShareError Share
  | addRecipient opener recipient coins => s.addRecipient curves aead blake3 opener recipient coins
  | rotate opener recipients epoch coins =>
    s.rotate curves aead blake3 opener recipients epoch coins
  | transformRecrypt backend source target transformKey kem =>
    s.transformRecrypt backend source target transformKey kem

/-- A rotation to the recipients that the share has, at the epoch that it has. -/
def KeepsAccess (s : Share) : Rewrap curves → Prop
  | rotate _ recipients epoch _ => recipients.Perm s.targets ∧ epoch = s.epoch
  | _ => False

end Rewrap

variable {curves : Curves} {aead : Aead} {blake3 : Bytes → Digest32} {signers : Signers}
  {host : Host} {s s' : Share} {g : AccessGrant} {policy : PqPolicy}

/-! ### What the verifier sees of a share -/

/-- A grant that is good for one share is good for another of the same payload, access set and
epoch, under a policy that lets ML-DSA be missing. -/
lemma verifyGrant_congr (h : verifyGrant signers blake3 host g s policy = .ok ())
    (hcontent : s'.contentId blake3 = s.contentId blake3)
    (hparts : (s'.parts host).Perm (s.parts host)) (hepoch : s'.epoch = s.epoch) :
    verifyGrant signers blake3 host g s' policy = .ok () := by
  have hcommitment := accessCommitment_congr hparts blake3
  obtain ⟨htargets, hcapsules⟩ := parts_perm_iff.mp hparts
  have hmode : ModeFits g.mode s' ↔ ModeFits g.mode s := modeFits_congr htargets hcapsules
  unfold verifyGrant at h ⊢
  simp only [bind_eq_ok, ensure_eq_ok] at h ⊢
  rw [hcontent, hcommitment, hepoch, hmode]
  exact h

/-- The grant is for the access set and the epoch of the share. -/
lemma same_of_verifyGrant (h : verifyGrant signers blake3 host g s policy = .ok ()) :
    g.commitment = s.accessCommitment blake3 host ∧ g.epoch = s.epoch := by
  unfold verifyGrant at h
  obtain ⟨_, hsame, -⟩ := bind_eq_ok.mp h
  rw [ensure_eq_ok] at hsame
  obtain ⟨-, hcommitment, hepoch⟩ := (by simpa using hsame : _ ∧ _ ∧ _)
  exact ⟨hcommitment, hepoch⟩

/-! ### What a rewrap changes -/

/-- A new recipient is a part more. -/
lemma not_perm_of_addRecipient {opener : WrapSecret} {t : WrapPublic} {coins : WrapCoins curves}
    (h : s.addRecipient curves aead blake3 opener t coins = .ok s') :
    ¬ (s'.parts host).Perm (s.parts host) := by
  obtain ⟨-, enc, dek, w, -, -, -, -, rfl⟩ := addRecipient_eq_ok.mp h
  intro hperm
  have hlen := hperm.length_eq
  simp only [Share.parts, List.length_append, List.length_map, List.length_cons,
    List.length_nil] at hlen
  omega

/-- The transformed capsule is for a recipient that had none of its backend. -/
lemma not_perm_of_transformRecrypt {backend : String} {source transformKey : Bytes}
    {target : RecryptPublic} {kem : RecryptKem} (hfit : s.AccessFits host)
    (h : s.transformRecrypt backend source target transformKey kem = .ok s') :
    ¬ (s'.parts host).Perm (s.parts host) := by
  obtain ⟨rfl, hfree, before, c, after, ct, heq, -, hbackend, -, -, -, rfl⟩ :=
    transformRecrypt_eq_ok.mp h
  intro hperm
  obtain ⟨-, hcapsules⟩ := parts_perm_iff.mp hperm
  simp only [heq, List.map_append, List.map_cons] at hcapsules
  -- the parts before and behind the capsule are the same
  rw [List.perm_append_left_iff, ← List.singleton_append, ← List.singleton_append
    (x := capsuleCbor host c), List.perm_append_right_iff, List.singleton_perm_singleton]
    at hcapsules
  have hmem : c ∈ s.recrypt := by rw [heq]; simp
  have hpart : capsuleCbor host c ∈ s.parts host :=
    List.mem_append_right _ (List.mem_map_of_mem hmem)
  have hrecipient := congrArg RecryptCapsule.recipient
    (normal_eq_of_capsuleCbor (hfit _ hpart) hcapsules.symm)
  exact hfree c hmem ⟨hbackend, hrecipient⟩

/-- **A rewrap leaves the access set and the epoch alone exactly if it is a rotation that keeps
both.** -/
lemma keepsAccess_iff {op : Rewrap curves} (hfit : s.AccessFits host)
    (h : op.apply aead blake3 s = .ok s') :
    op.KeepsAccess s ↔ (s'.parts host).Perm (s.parts host) ∧ s'.epoch = s.epoch := by
  cases op with
  | addRecipient opener recipient coins =>
    exact iff_of_false id fun hsame => not_perm_of_addRecipient h hsame.1
  | rotate opener recipients epoch coins =>
    obtain ⟨hnil, -, -, dek, ws, -, -, rfl⟩ := rotate_eq_ok.mp h
    rw [parts_perm_iff, hnil]
    simp [Rewrap.KeepsAccess]
  | transformRecrypt backend source target transformKey kem =>
    exact iff_of_false id fun hsame => not_perm_of_transformRecrypt hfit h hsame.1

lemma contentId_of_rewrap {op : Rewrap curves} (h : op.apply aead blake3 s = .ok s') :
    s'.contentId blake3 = s.contentId blake3 := by
  cases op with
  | addRecipient opener recipient coins =>
    obtain ⟨-, enc, dek, w, -, -, -, -, rfl⟩ := addRecipient_eq_ok.mp h
    rfl
  | rotate opener recipients epoch coins =>
    obtain ⟨-, -, -, dek, ws, -, -, rfl⟩ := rotate_eq_ok.mp h
    rfl
  | transformRecrypt backend source target transformKey kem =>
    obtain ⟨-, -, before, c, after, ct, -, -, -, -, -, -, rfl⟩ := transformRecrypt_eq_ok.mp h
    rfl

/-- **A rewrap ends a grant exactly if it does not keep the access set and the epoch.**  After any
other rewrap the grant passes under neither policy. -/
theorem rewrap_ends_grant_iff {op : Rewrap curves}
    (hgrant : verifyGrant signers blake3 host g s .optional = .ok ())
    (hrewrap : op.apply aead blake3 s = .ok s') (hfit : s.AccessFits host)
    (hfit' : s'.AccessFits host)
    (hblake3 : Set.InjOn blake3 {s.accessMaterial host, s'.accessMaterial host}) :
    (∀ policy, verifyGrant signers blake3 host g s' policy ≠ .ok ()) ↔ ¬ op.KeepsAccess s := by
  rw [keepsAccess_iff hfit hrewrap]
  constructor
  · rintro hfails ⟨hparts, hepoch⟩
    exact hfails .optional (verifyGrant_congr hgrant (contentId_of_rewrap hrewrap) hparts hepoch)
  · intro hchanged policy hpass
    obtain ⟨hcommitment, hepoch⟩ := same_of_verifyGrant hgrant
    obtain ⟨hcommitment', hepoch'⟩ := same_of_verifyGrant hpass
    have hmaterial : s'.accessMaterial host = s.accessMaterial host :=
      hblake3 (by simp) (by simp) (hcommitment'.symm.trans hcommitment)
    exact hchanged ⟨(accessMaterial_eq_iff hfit' hfit).mp hmaterial, hepoch'.symm.trans hepoch⟩

/-! ### Two rotations -/

/-- The rotation of the sample share to its own recipient, at an epoch. -/
def sampleRotate (epoch : UInt64) : Rewrap sampleCurves :=
  .rotate (.X25519 aliceSeed) [.X25519 alicePublic] epoch fun _ => sampleCoins

lemma shareGrant_verifies :
    verifyGrant sampleSigners sampleBlake3 Host.plain shareGrant (sampleShare 0) .optional =
      .ok () := by
  decide +kernel

/-- At another epoch the grant is no longer good. -/
theorem rewrap_ends_grant_iff_next :
    (sampleRotate 1).apply Aead.clear sampleBlake3 (sampleShare 0) = .ok (sampleShare 1) ∧
    ∀ policy, verifyGrant sampleSigners sampleBlake3 Host.plain shareGrant (sampleShare 1) policy ≠
      .ok () := by
  have hrotate : (sampleRotate 1).apply Aead.clear sampleBlake3 (sampleShare 0) =
      .ok (sampleShare 1) := by decide +kernel
  have hfit : (sampleShare 0).AccessFits Host.plain := by decide +kernel
  have hfit' : (sampleShare 1).AccessFits Host.plain := by decide +kernel
  have hblake3 : Set.InjOn sampleBlake3 {(sampleShare 0).accessMaterial Host.plain,
      (sampleShare 1).accessMaterial Host.plain} := by
    rw [Set.injOn_pair]
    exact fun _ => rfl
  have hchanged : ¬ (sampleRotate 1).KeepsAccess (sampleShare 0) := fun h => absurd h.2 (by decide)
  exact ⟨hrotate,
    (rewrap_ends_grant_iff shareGrant_verifies hrotate hfit hfit' hblake3).mpr hchanged⟩

/-- At the same epoch it still is. -/
theorem rewrap_keeps_grant :
    ¬ ∀ (curves : Curves) (aead : Aead) (blake3 : Bytes → Digest32) (signers : Signers)
      (host : Host) (s s' : Share) (g : AccessGrant) (op : Rewrap curves),
      verifyGrant signers blake3 host g s .optional = .ok () → op.apply aead blake3 s = .ok s' →
      Set.InjOn blake3 {s.accessMaterial host, s'.accessMaterial host} →
      ∀ policy, verifyGrant signers blake3 host g s' policy ≠ .ok () := by
  intro h
  have hrotate : (sampleRotate 0).apply Aead.clear sampleBlake3 (sampleShare 0) =
      .ok (sampleShare 0) := by decide +kernel
  exact h _ _ _ _ _ _ _ _ _ shareGrant_verifies hrotate (by simp) .optional shareGrant_verifies

end Identikey.Share
