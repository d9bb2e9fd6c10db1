/-
What a grant is good for.

A grant that was issued is complete and signed: it survives the wire, and its signatures
hold of the message that the verifier builds again.  What is left for the verifier to
find out is whether the share has the payload and the access set that the grant names.
-/
import Identikey.Share.AccessSet
import Identikey.Share.GrantExact
import Identikey.Share.Holders

set_option linter.dupNamespace false

namespace Identikey.Share

open Lib Lib.Fallible Auth Dcbor

variable {signers : Signers} {blake3 : Bytes → Digest32} {host : Host} {s s' : Share}
  {keys : GrantKeys signers} {mode : AccessMode} {coins : Bytes} {g : AccessGrant}

/-! ### Grants as they are issued -/

/-- The ML-DSA parts of a grant: none without a key, and with one a signature of it on the
message. -/
inductive PqIssued (host : Host) (keys : GrantKeys signers) (coins : Bytes) (g : AccessGrant) :
    Prop where
  | none (hkeys : keys.pq = none) (halg : g.pqAlg = .none) (hpk : g.pqPk = .none)
      (hsig : g.mlDsaSig = .none) : PqIssued host keys coins g
  | some {key : PqKey signers} {sig : Bytes} (hkeys : keys.pq = some key)
      (halg : g.pqAlg = .some key.alg) (hpk : g.pqPk = .some key.pk) (hsig : g.mlDsaSig = .some sig)
      (hsign : signers.mlDsaSign key.alg key.secret coins (g.message host) = .some sig) :
      PqIssued host keys coins g

/-- A grant that `grant_access` gave. -/
structure Issued (signers : Signers) (blake3 : Bytes → Digest32) (host : Host) (s : Share)
    (keys : GrantKeys signers) (mode : AccessMode) (coins : Bytes) (g : AccessGrant) : Prop where
  modeFits : ModeFits mode s
  content : g.content = s.contentId blake3
  commitment : g.commitment = s.accessCommitment blake3 host
  epoch : g.epoch = s.epoch
  mode : g.mode = mode
  signer : g.signer = signers.ed25519Public keys.ed25519
  ed25519Sig : g.ed25519Sig = signers.ed25519Sign keys.ed25519 (g.message host)
  pq : PqIssued host keys coins g

lemma issued_of_grantAccess (h : grantAccess signers blake3 host s keys mode coins = .ok g) :
    Issued signers blake3 host s keys mode coins g := by
  unfold grantAccess at h
  simp only [bind_eq_ok, ensure_eq_ok, pure_eq_ok, optionMapM_eq_ok, okOr_eq_ok] at h
  obtain ⟨_, hmode, mlDsaSig, hsigs, rfl⟩ := h
  refine ⟨hmode, rfl, rfl, rfl, rfl, rfl, rfl, ?_⟩
  -- neither signature is part of the message, so that all messages are the same
  generalize hkeys : keys.pq = pq at hsigs
  cases hsigs with
  | none => exact .none hkeys (by simp [unsignedGrant]) (by simp [unsignedGrant]) rfl
  | some hsign => exact .some hkeys (by simp [unsignedGrant]) (by simp [unsignedGrant]) rfl hsign

lemma pkLen_pos (alg : PqAlg) : 0 < alg.pkLen := by cases alg <;> decide

lemma sigLen_pos (alg : PqAlg) : 0 < alg.sigLen := by cases alg <;> decide

/-! ### The wire -/

lemma Issued.complete (h : Issued signers blake3 host s keys mode coins g) : g.Complete := by
  cases h.pq with
  | none hkeys halg hpk hsig =>
    have hpq : g.pq = none := by rw [AccessGrant.pq, halg]
    exact ⟨by rw [halg, hpq]; rfl, by rw [hpk, hpq]; rfl, by rw [hsig, hpq]; rfl, by simp [hpq]⟩
  | @some key sig hkeys halg hpk hsig hsign =>
    have hpq : g.pq = some (key.alg, key.pk, sig) := by rw [AccessGrant.pq, halg, hpk, hsig]
    refine ⟨by rw [halg, hpq]; rfl, by rw [hpk, hpq]; rfl, by rw [hsig, hpq]; rfl, ?_⟩
    rw [hpq]
    rintro _ ⟨⟩
    have hpklen := signers.length_mlDsaPublic key.alg key.secret
    have hsiglen := signers.length_mlDsaSign _ _ _ _ _ hsign
    rw [← key.pk_eq] at hpklen
    exact ⟨List.ne_nil_of_length_pos (hpklen ▸ pkLen_pos _),
      List.ne_nil_of_length_pos (hsiglen ▸ sigLen_pos _)⟩

lemma grantKeys_length : ∀ k ∈ AccessGrant.GRANT_KEYS, (utf8 k).length ≤ 11 := by decide

lemma pqGrantKeys_length : ∀ k ∈ AccessGrant.PQ_GRANT_KEYS, (utf8 k).length ≤ 11 := by decide

/-- A grant is ten fields at most, each no longer than its parts. -/
lemma value_fits (hpq : ∀ p ∈ g.pq, p.2.1.length ≤ 4627 ∧ p.2.2.length ≤ 4627) :
    g.value.Fits host := by
  have hnumber : ∀ n : UInt64, ((CBOR.unsigned n).toCborData host).length ≤ 4636 :=
    fun n => (length_encodeHead_le 0 n).trans (by decide)
  have hmode : ((CBOR.text g.mode.tag).toCborData host).length ≤ 4636 := by
    cases g.mode with
    | direct => exact (@length_text_le host "direct" (by decide)).trans (by decide)
    | recrypt => exact (@length_text_le host "recrypt" (by decide)).trans (by decide)
    | either => exact (@length_text_le host "either" (by decide)).trans (by decide)
  have halg : ∀ alg : PqAlg, ((CBOR.text alg.tag).toCborData host).length ≤ 4636 := by
    intro alg
    cases alg with
    | mlDsa44 => exact (@length_text_le host "ml-dsa-44" (by decide)).trans (by decide)
    | mlDsa65 => exact (@length_text_le host "ml-dsa-65" (by decide)).trans (by decide)
    | mlDsa87 => exact (@length_text_le host "ml-dsa-87" (by decide)).trans (by decide)
  have hbytes : ∀ b : Bytes, b.length ≤ 4627 →
      ((CBOR.byteString b).toCborData host).length ≤ 4636 :=
    fun b hb => (length_byteString_le b).trans (by omega)
  have hfields : ∀ e ∈ g.fields (.unsigned 1) (.unsigned g.epoch),
      (e.2.toCborData host).length ≤ 4636 := by
    unfold AccessGrant.fields
    cases hparts : g.pq with
    | none =>
      simp only [List.forall_mem_cons]
      exact ⟨hnumber _, hmode, hnumber _, hbytes _ (by simp [g.signer.2]),
        hbytes _ (by simp [g.content.2]), hbytes _ (by simp [g.commitment.2]),
        hbytes _ (by simp [g.ed25519Sig.2]), by simp⟩
    | some p =>
      obtain ⟨hpk, hsig⟩ := hpq p (Option.mem_def.mpr hparts)
      simp only [List.forall_mem_cons]
      exact ⟨hnumber _, hmode, hnumber _, hbytes _ hpk, halg _, hbytes _ (by simp [g.signer.2]),
        hbytes _ (by simp [g.content.2]), hbytes _ (by simp [g.commitment.2]), hbytes _ hsig,
        hbytes _ (by simp [g.ed25519Sig.2]), by simp⟩
  have hkeys : ∀ k ∈ (g.fields (.unsigned 1) (.unsigned g.epoch)).map Prod.fst,
      (utf8 k).length ≤ 11 := by
    unfold AccessGrant.fields
    cases g.pq with
    | none => exact grantKeys_length
    | some p => exact pqGrantKeys_length
  have hcount : (g.fields (.unsigned 1) (.unsigned g.epoch)).length ≤ 10 := by
    unfold AccessGrant.fields
    cases g.pq <;> simp
  have hlen := length_textEntries_le (g.fields_ascii _ _) hkeys hfields
  rw [CBOR.Fits, AccessGrant.value]
  omega

lemma Issued.fits (h : Issued signers blake3 host s keys mode coins g) : g.value.Fits host := by
  refine value_fits fun p hp => ?_
  cases h.pq with
  | none hkeys halg hpk hsig =>
    rw [AccessGrant.pq, halg] at hp
    cases hp
  | @some key sig hkeys halg hpk hsig hsign =>
    rw [AccessGrant.pq, halg, hpk, hsig, Option.mem_some_iff] at hp
    subst hp
    have hpklen := signers.length_mlDsaPublic key.alg key.secret
    rw [← key.pk_eq] at hpklen
    rw [hpklen, signers.length_mlDsaSign _ _ _ _ _ hsign]
    cases key.alg <;> decide

lemma Issued.fromCbor_toCbor (h : Issued signers blake3 host s keys mode coins g) :
    AccessGrant.fromCbor host (g.toCbor host) = .ok g := by
  rw [AccessGrant.toCbor_eq h.complete, AccessGrant.fromCbor,
    parseMap_toCborData (AccessGrant.value_canonical g) h.fits]
  refine ⟨_, rfl, (AccessGrant.readGrant_eq_ok (AccessGrant.value_canonical g)).mpr ?_⟩
  exact ⟨h.complete, _, _, toU64_unsigned 1, toU64_unsigned g.epoch, rfl⟩

/-! ### The verifier -/

lemma Issued.verifyPqPart (h : Issued signers blake3 host s keys mode coins g)
    {policy : PqPolicy} :
    verifyPqPart signers host g policy = .ok () ↔
      policy = .optional ∨ keys.pq.isSome = true := by
  cases h.pq with
  | none hkeys halg hpk hsig =>
    rw [Share.verifyPqPart, halg, hpk, hsig, hkeys]
    cases policy <;> simp [ensure_eq_ok]
  | @some key sig hkeys halg hpk hsig hsign =>
    have hverify : verifyPq signers key.alg key.pk (g.message host) sig = .ok () := by
      simp only [verifyPq, bind_eq_ok, ensure_eq_ok, key.pk_eq]
      exact ⟨(), signers.length_mlDsaPublic _ _, (), signers.length_mlDsaSign _ _ _ _ _ hsign, (),
        signers.mlDsaKey_public _ _, signers.mlDsaVerify_sign _ _ _ _ _ hsign⟩
    rw [Share.verifyPqPart, halg, hpk, hsig, hkeys]
    simp [hverify]

lemma Issued.verifyGrant (h : Issued signers blake3 host s keys mode coins g)
    {policy : PqPolicy} :
    verifyGrant signers blake3 host g s' policy = .ok () ↔
      s.contentId blake3 = s'.contentId blake3 ∧
      s.accessCommitment blake3 host = s'.accessCommitment blake3 host ∧ s.epoch = s'.epoch ∧
      ModeFits mode s' ∧ (policy = .optional ∨ keys.pq.isSome = true) := by
  simp only [Share.verifyGrant, bind_eq_ok, ensure_eq_ok, h.verifyPqPart, h.content, h.commitment,
    h.epoch, h.mode, h.signer, h.ed25519Sig]
  constructor
  · rintro ⟨_, hsame, _, hmode, _, -, _, -, hpolicy⟩
    obtain ⟨hcontent, hcommitment, hepoch⟩ := (by simpa using hsame : _ ∧ _ ∧ _)
    exact ⟨hcontent, hcommitment, hepoch, hmode, hpolicy⟩
  · rintro ⟨hcontent, hcommitment, hepoch, hmode, hpolicy⟩
    exact ⟨(), by simp [hcontent, hcommitment, hepoch], (), hmode, (),
      signers.ed25519Key_public _, (), signers.ed25519Verify_sign _ _, hpolicy⟩

/-- Shares with targets as many and capsules as many fit the same modes. -/
lemma modeFits_congr (htargets : s.targets.Perm s'.targets)
    (hcapsules : (s.recrypt.map (capsuleCbor host)).Perm (s'.recrypt.map (capsuleCbor host))) :
    ModeFits mode s ↔ ModeFits mode s' := by
  have hdirect : s.hasDirect = s'.hasDirect := by
    rw [Share.hasDirect, Share.hasDirect, htargets.isEmpty_eq]
  have hrecrypt : s.hasRecrypt = s'.hasRecrypt := by
    have hempty := hcapsules.isEmpty_eq
    rw [List.isEmpty_map, List.isEmpty_map] at hempty
    rw [Share.hasRecrypt, Share.hasRecrypt, hempty]
  unfold ModeFits
  rw [hdirect, hrecrypt]

/-! ### A grant to run the model with -/

def grantSeed : ByteArrayOf 32 :=
  ⟨[0x9d, 0x61, 0xb1, 0x9d, 0xef, 0xfd, 0x5a, 0x60, 0xba, 0x84, 0x4a, 0xf4, 0x92, 0xec, 0x2c, 0xc4,
    0x44, 0x49, 0xc5, 0x69, 0x7b, 0x32, 0x69, 0x19, 0x70, 0x3b, 0xac, 0x03, 0x1c, 0xae, 0x7f, 0x60],
    rfl⟩

def grantPublic : ByteArrayOf 32 :=
  ⟨[0xd7, 0x5a, 0x98, 0x01, 0x82, 0xb1, 0x0a, 0xb7, 0xd5, 0x4b, 0xfe, 0xd3, 0xc9, 0x64, 0x07, 0x3a,
    0x0e, 0xe1, 0x72, 0xf3, 0xda, 0xa6, 0x23, 0x25, 0xaf, 0x02, 0x1a, 0x68, 0xf7, 0x07, 0x51, 0x1a],
    rfl⟩

/-- The digest of the sample share's payload. -/
def contentDigest : ByteArrayOf 32 :=
  ⟨[0xea, 0x0a, 0x9c, 0x22, 0xcc, 0x2b, 0xfb, 0x52, 0xbb, 0x2b, 0xe3, 0x8a, 0xa7, 0x5a, 0xc3, 0xb2,
    0xc0, 0xfa, 0xda, 0x7d, 0x82, 0x70, 0x5d, 0xc7, 0x0a, 0xd3, 0x33, 0x44, 0x9d, 0xfb, 0x8d, 0x9d],
    rfl⟩

/-- The digest of its access set. -/
def accessDigest : ByteArrayOf 32 :=
  ⟨[0x04, 0xc5, 0x13, 0x4c, 0x9a, 0x07, 0x96, 0x23, 0xec, 0x23, 0x70, 0x0f, 0x76, 0x85, 0xa9, 0x40,
    0x71, 0xb3, 0x49, 0xdb, 0xa9, 0x5a, 0x24, 0x55, 0x3e, 0x32, 0x3d, 0xca, 0x24, 0x63, 0xd8, 0x59],
    rfl⟩

/-- The signature of the grant on both. -/
def grantSignature : ByteArrayOf 64 :=
  ⟨[0xd4, 0x1f, 0x8e, 0xcd, 0xbb, 0x6d, 0x42, 0xe3, 0xa8, 0x03, 0x14, 0xe9, 0x76, 0x1c, 0x2f, 0x00,
    0xd6, 0x07, 0xe7, 0xbd, 0xa4, 0xd6, 0xa5, 0x02, 0xa5, 0xdb, 0xd5, 0x3c, 0x8e, 0x86, 0x9e, 0x35,
    0x2d, 0xa3, 0xc9, 0xd7, 0xde, 0x16, 0x17, 0x8e, 0xad, 0xcb, 0x35, 0xcf, 0x2b, 0xd9, 0x70, 0xeb,
    0x2e, 0x8a, 0xc6, 0x6f, 0x45, 0xc8, 0x0a, 0xb8, 0x03, 0x36, 0x3b, 0xca, 0x30, 0x31, 0x82, 0x00],
    rfl⟩

/-- A hash that knows the two digests. -/
def sampleBlake3 (material : Bytes) : Digest32 :=
  if material = (sampleShare 0).contentMaterial then contentDigest
  else if material = (sampleShare 0).accessMaterial Host.plain then accessDigest
  else basePoint

/-- A signature scheme that knows one key pair, and no ML-DSA. -/
def sampleSigners : Signers where
  ed25519Public seed := if seed = grantSeed then grantPublic else basePoint
  ed25519Sign _ _ := grantSignature
  ed25519Key _ := true
  ed25519Verify _ _ sig := sig = grantSignature
  MlDsaSecret _ := Empty
  mlDsaPublic _ sk := sk.elim
  mlDsaSign _ sk _ _ := sk.elim
  mlDsaKey _ _ := false
  mlDsaVerify _ _ _ _ := false
  ed25519Key_public _ := rfl
  ed25519Verify_sign _ _ := by simp
  length_mlDsaPublic _ sk := sk.elim
  mlDsaKey_public _ sk := sk.elim
  length_mlDsaSign _ sk := sk.elim
  mlDsaVerify_sign _ sk := sk.elim

def sampleKeys : GrantKeys sampleSigners := { ed25519 := grantSeed, pq := none }

def shareGrant : AccessGrant :=
  { content := contentDigest, commitment := accessDigest, epoch := 0, mode := .direct,
    signer := grantPublic, pqAlg := none, pqPk := none, ed25519Sig := grantSignature,
    mlDsaSig := none }

lemma sampleBlake3_injOn :
    Set.InjOn sampleBlake3
      {(sampleShare 0).contentMaterial, (sampleShare 0).accessMaterial Host.plain} := by
  rw [Set.injOn_pair]
  have hapart : sampleBlake3 (sampleShare 0).contentMaterial ≠
      sampleBlake3 ((sampleShare 0).accessMaterial Host.plain) := by decide +kernel
  exact fun h => absurd h hapart

lemma shareGrant_eq :
    grantAccess sampleSigners sampleBlake3 Host.plain (sampleShare 0) sampleKeys .direct [] =
      .ok shareGrant := by
  decide +kernel

/-! ### The access set of a grant -/

/-- **A grant is good for the access set it was issued for, and for no other.**  It survives the
wire; and a share passes exactly when it has the payload, the targets, the capsules and the
epoch of the share the grant was issued for, and the policy is content with its signatures. -/
theorem grant_verifies_iff (hgrant : grantAccess signers blake3 host s keys mode coins = .ok g)
    (hfit : s.AccessFits host) (hfit' : s'.AccessFits host)
    (hblake3 : Set.InjOn blake3
      {s.contentMaterial, s'.contentMaterial, s.accessMaterial host, s'.accessMaterial host})
    (policy : PqPolicy) :
    AccessGrant.fromCbor host (g.toCbor host) = .ok g ∧
    (verifyGrant signers blake3 host g s' policy = .ok () ↔
      (s.nonce = s'.nonce ∧ s.ciphertext = s'.ciphertext ∧ s.targets.Perm s'.targets ∧
        (s.recrypt.map (capsuleCbor host)).Perm (s'.recrypt.map (capsuleCbor host)) ∧
        s.epoch = s'.epoch) ∧ (policy = .optional ∨ keys.pq.isSome = true)) := by
  have hissued := issued_of_grantAccess hgrant
  refine ⟨hissued.fromCbor_toCbor, ?_⟩
  have hcontent : s.contentId blake3 = s'.contentId blake3 ↔
      s.nonce = s'.nonce ∧ s.ciphertext = s'.ciphertext := by
    rw [← contentMaterial_eq_iff]
    exact hblake3.eq_iff (by simp) (by simp)
  have hcommitment : s.accessCommitment blake3 host = s'.accessCommitment blake3 host ↔
      s.targets.Perm s'.targets ∧
        (s.recrypt.map (capsuleCbor host)).Perm (s'.recrypt.map (capsuleCbor host)) := by
    rw [← parts_perm_iff, ← accessMaterial_eq_iff hfit hfit']
    exact hblake3.eq_iff (by simp) (by simp)
  rw [hissued.verifyGrant, hcontent, hcommitment]
  constructor
  · rintro ⟨⟨hnonce, hciphertext⟩, ⟨htargets, hcapsules⟩, hepoch, -, hpolicy⟩
    exact ⟨⟨hnonce, hciphertext, htargets, hcapsules, hepoch⟩, hpolicy⟩
  · rintro ⟨⟨hnonce, hciphertext, htargets, hcapsules, hepoch⟩, hpolicy⟩
    exact ⟨⟨hnonce, hciphertext⟩, ⟨htargets, hcapsules⟩, hepoch,
      (modeFits_congr htargets hcapsules).mp hissued.modeFits, hpolicy⟩

/-- The grant passes for the share it was issued for, unless the policy asks for ML-DSA. -/
theorem grant_verifies_iff_sample :
    verifyGrant sampleSigners sampleBlake3 Host.plain shareGrant (sampleShare 0) .optional =
      .ok () ∧
    verifyGrant sampleSigners sampleBlake3 Host.plain shareGrant (sampleShare 0) .required ≠
      .ok () := by
  have hfit : (sampleShare 0).AccessFits Host.plain := by decide +kernel
  have hblake3 : Set.InjOn sampleBlake3 {(sampleShare 0).contentMaterial,
      (sampleShare 0).contentMaterial, (sampleShare 0).accessMaterial Host.plain,
      (sampleShare 0).accessMaterial Host.plain} := by
    simpa using sampleBlake3_injOn
  have hpass := (grant_verifies_iff shareGrant_eq hfit hfit hblake3 .optional).2
  have hfail := (grant_verifies_iff shareGrant_eq hfit hfit hblake3 .required).2
  refine ⟨hpass.mpr ⟨⟨rfl, rfl, .refl _, .refl _, rfl⟩, .inl rfl⟩, fun h => ?_⟩
  rcases (hfail.mp h).2 with hpolicy | hkeys
  · cases hpolicy
  · cases hkeys

end Identikey.Share
