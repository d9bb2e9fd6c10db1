/-
What a signature on a grant stands for.

The signed message is the domain of grants and a map of six fields, or of eight when the
grant has an ML-DSA key.  So equal messages are of grants that say the same, and a grant
without the key has another message than one with it: whoever signs the latter only has
signed nothing that stands for the former.
-/
import Identikey.Share.GrantScope

set_option linter.dupNamespace false

namespace Identikey.Share

open Lib Lib.Fallible Auth Dcbor

variable {host : Host} {g g' : AccessGrant}

namespace AccessGrant

/-! ### The signed fields -/

/-- The ML-DSA key of a grant. -/
def pqKey (g : AccessGrant) : Option (PqAlg × Bytes) :=
  match g.pqAlg, g.pqPk with
  | some alg, some pk => some (alg, pk)
  | _, _ => none

def SIGNED_KEYS : List String := ["v", "mode", "epoch", "signer", "content", "commitment"]

def PQ_SIGNED_KEYS : List String :=
  ["v", "mode", "epoch", "pq-pk", "pq-alg", "signer", "content", "commitment"]

lemma signedKeys_ascii : ∀ k ∈ SIGNED_KEYS, ∀ c ∈ k.toList, c.val < 128 := by decide

lemma pqSignedKeys_ascii : ∀ k ∈ PQ_SIGNED_KEYS, ∀ c ∈ k.toList, c.val < 128 := by decide

/-- The fields that are signed. -/
def signedFields (g : AccessGrant) : List (String × CBOR) :=
  match g.pqKey with
  | none =>
    [("v", .unsigned 1), ("mode", .text g.mode.tag), ("epoch", .unsigned g.epoch),
      ("signer", .byteString g.signer.val), ("content", .byteString g.content.val),
      ("commitment", .byteString g.commitment.val)]
  | some (alg, pk) =>
    [("v", .unsigned 1), ("mode", .text g.mode.tag), ("epoch", .unsigned g.epoch),
      ("pq-pk", .byteString pk), ("pq-alg", .text alg.tag), ("signer", .byteString g.signer.val),
      ("content", .byteString g.content.val), ("commitment", .byteString g.commitment.val)]

lemma signedFields_ascii (g : AccessGrant) :
    ∀ k ∈ g.signedFields.map Prod.fst, ∀ c ∈ k.toList, c.val < 128 := by
  unfold signedFields
  cases g.pqKey with
  | none => exact signedKeys_ascii
  | some p => exact pqSignedKeys_ascii

lemma signedFields_keyed (g : AccessGrant) :
    Keyed (mapKey host) (textEntries g.signedFields) := by
  unfold signedFields
  cases g.pqKey with
  | none => exact @textEntries_keyed host _ SIGNED_KEYS rfl signedKeys_ascii (by decide)
  | some p => exact @textEntries_keyed host _ PQ_SIGNED_KEYS rfl pqSignedKeys_ascii (by decide)

/-- What is signed, as a value. -/
def signedValue (g : AccessGrant) : CBOR := .map (textEntries g.signedFields)

lemma signedValue_canonical (g : AccessGrant) : g.signedValue.Canonical host := by
  refine textEntries_canonical g.signedFields_keyed g.signedFields_ascii ?_
  have hmode := @nfc_modeTag host g.mode
  unfold signedFields
  cases g.pqKey with
  | none =>
    simp only [List.forall_mem_cons]
    exact ⟨.unsigned _, .text hmode, .unsigned _, .byteString _, .byteString _, .byteString _,
      by simp⟩
  | some p =>
    simp only [List.forall_mem_cons]
    exact ⟨.unsigned _, .text hmode, .unsigned _, .byteString _, .text (nfc_algTag _),
      .byteString _, .byteString _, .byteString _, by simp⟩

lemma signed_entries (g : AccessGrant) :
    (g.signedMap host).entries = textEntries g.signedFields := by
  have hkeyed := @signedFields_keyed host g
  unfold signedMap
  revert hkeyed
  unfold signedFields pqKey
  cases g.pqAlg with
  | none =>
    intro hkeyed
    exact @foldl_insert_eq host _ [_, _, _, _, _, _] hkeyed rfl (by simp)
  | some alg =>
    cases g.pqPk with
    | none =>
      intro hkeyed
      exact @foldl_insert_eq host _ [_, _, _, _, _, _] hkeyed rfl (by simp)
    | some pk =>
      intro hkeyed
      exact @foldl_insert_eq host _ [_, _, _, _, _, _, _, _] hkeyed rfl (by simp)

lemma message_eq (g : AccessGrant) :
    g.message host = GRANT_DOMAIN ++ g.signedValue.toCborData host := by
  rw [message, Map.toCBOR, signed_entries, signedValue]

lemma modeTag_injective {mode mode' : AccessMode} (h : mode.tag = mode'.tag) : mode = mode' := by
  cases mode <;> cases mode' <;> first | rfl | exact absurd h (by decide)

lemma algTag_injective {alg alg' : PqAlg} (h : alg.tag = alg'.tag) : alg = alg' := by
  cases alg <;> cases alg' <;> first | rfl | exact absurd h (by decide)

/-- The signed fields tell what a grant says. -/
lemma signedFields_inj (h : textEntries g.signedFields = textEntries g'.signedFields) :
    g.content = g'.content ∧ g.commitment = g'.commitment ∧ g.epoch = g'.epoch ∧
      g.mode = g'.mode ∧ g.signer = g'.signer ∧ g.pqKey = g'.pqKey := by
  unfold signedFields at h
  -- a map of six fields is none of eight
  cases hkey : g.pqKey with
  | none =>
    cases hkey' : g'.pqKey with
    | none =>
      simp only [hkey, hkey', textEntries, List.map_cons, List.map_nil, List.cons.injEq,
        Prod.mk.injEq, CBOR.text.injEq, CBOR.byteString.injEq, CBOR.unsigned.injEq, true_and,
        and_true] at h
      obtain ⟨hmode, hepoch, hsigner, hcontent, hcommitment⟩ := h
      exact ⟨Subtype.ext hcontent, Subtype.ext hcommitment, hepoch, modeTag_injective hmode,
        Subtype.ext hsigner, rfl⟩
    | some p =>
      simp only [hkey, hkey'] at h
      exact absurd (congrArg List.length h) (by simp [textEntries])
  | some p =>
    cases hkey' : g'.pqKey with
    | none =>
      simp only [hkey, hkey'] at h
      exact absurd (congrArg List.length h) (by simp [textEntries])
    | some p' =>
      simp only [hkey, hkey', textEntries, List.map_cons, List.map_nil, List.cons.injEq,
        Prod.mk.injEq, CBOR.text.injEq, CBOR.byteString.injEq, CBOR.unsigned.injEq, true_and,
        and_true] at h
      obtain ⟨hmode, hepoch, hpk, halg, hsigner, hcontent, hcommitment⟩ := h
      exact ⟨Subtype.ext hcontent, Subtype.ext hcommitment, hepoch, modeTag_injective hmode,
        Subtype.ext hsigner, congrArg some (Prod.ext (algTag_injective halg) hpk)⟩

/-- Two grants say the same, whatever their signatures. -/
structure SameMeaning (g g' : AccessGrant) : Prop where
  content : g.content = g'.content
  commitment : g.commitment = g'.commitment
  epoch : g.epoch = g'.epoch
  mode : g.mode = g'.mode
  signer : g.signer = g'.signer
  pqAlg : g.pqAlg = g'.pqAlg
  pqPk : g.pqPk = g'.pqPk

/-- A grant has all three ML-DSA parts or none of them. -/
def AllOrNone (g : AccessGrant) : Prop :=
  (g.pqAlg = none ∧ g.pqPk = none ∧ g.mlDsaSig = none) ∨
    ∃ alg pk sig, g.pqAlg = some alg ∧ g.pqPk = some pk ∧ g.mlDsaSig = some sig

/-- In such a grant the algorithm and the key are those of its ML-DSA key. -/
lemma AllOrNone.eq (h : g.AllOrNone) :
    g.pqAlg = g.pqKey.map Prod.fst ∧ g.pqPk = g.pqKey.map Prod.snd := by
  unfold pqKey
  rcases h with ⟨halg, hpk, -⟩ | ⟨alg, pk, sig, halg, hpk, -⟩
  · rw [halg, hpk]
    exact ⟨rfl, rfl⟩
  · rw [halg, hpk]
    exact ⟨rfl, rfl⟩

/-- **Grants with one signed message say the same.** -/
lemma sameMeaning_of_message (hg : g.AllOrNone) (hg' : g'.AllOrNone)
    (hfit : (g.message host).length < 2 ^ 64) (h : g.message host = g'.message host) :
    g.SameMeaning g' := by
  have hfits : g.signedValue.Fits host := by
    rw [message_eq, List.length_append] at hfit
    rw [CBOR.Fits]
    omega
  rw [message_eq, message_eq] at h
  have hvalue := g.signedValue_canonical.eq_of_toCborData g'.signedValue_canonical hfits
    (List.append_cancel_left h)
  rw [signedValue, signedValue, CBOR.map.injEq] at hvalue
  obtain ⟨hcontent, hcommitment, hepoch, hmode, hsigner, hkey⟩ := signedFields_inj hvalue
  obtain ⟨halg, hpk⟩ := hg.eq
  obtain ⟨halg', hpk'⟩ := hg'.eq
  refine ⟨hcontent, hcommitment, hepoch, hmode, hsigner, ?_, ?_⟩
  · rw [halg, halg', hkey]
  · rw [hpk, hpk', hkey]

end AccessGrant

/-! ### Grants that a caller can come by -/

variable {signers : Signers} {blake3 : Bytes → Digest32}

/-- A grant that was issued, or parsed from some bytes. -/
inductive Obtained (signers : Signers) (blake3 : Bytes → Digest32) (host : Host)
    (g : AccessGrant) : Prop where
  | grantAccess {s : Share} {keys : GrantKeys signers} {mode : AccessMode} {coins : Bytes}
      (h : grantAccess signers blake3 host s keys mode coins = .ok g) :
      Obtained signers blake3 host g
  | fromCbor {bytes : Bytes} (h : AccessGrant.fromCbor host bytes = .ok g) :
      Obtained signers blake3 host g

lemma Obtained.allOrNone (h : Obtained signers blake3 host g) : g.AllOrNone := by
  cases h with
  | grantAccess h =>
    cases (issued_of_grantAccess h).pq with
    | none _ halg hpk hsig => exact .inl ⟨halg, hpk, hsig⟩
    | some _ halg hpk hsig _ => exact .inr ⟨_, _, _, halg, hpk, hsig⟩
  | fromCbor h =>
    obtain ⟨entries, -, -, hread⟩ := parseMap_eq_ok.mp h
    unfold AccessGrant.readGrant at hread
    simp only [bind_eq_ok, ensure_eq_ok, okOr_eq_ok, pure_eq_ok, AccessGrant.pqParts_eq_ok] at hread
    obtain ⟨_, -, _, -, _, -, _, -, _, -, _, -, _, -, _, -, alg, -, parts, hparts, _, -, _, -, _, -,
      _, -, _, -, _, -, rfl⟩ := hread
    rcases hparts with ⟨halg, hpk, hsig, -⟩ | ⟨a, pk, sig, halg, hpk, hsig, -⟩
    · exact .inl ⟨halg, hpk, hsig⟩
    · exact .inr ⟨a, pk, sig, halg, hpk, hsig⟩

/-- What `verify_grant` finds of the signatures. -/
lemma signatures_of_verifyGrant {s : Share} {policy : PqPolicy}
    (h : verifyGrant signers blake3 host g s policy = .ok ()) :
    signers.ed25519Verify g.signer (g.message host) g.ed25519Sig = true ∧
      verifyPqPart signers host g policy = .ok () := by
  unfold verifyGrant at h
  simp only [bind_eq_ok, ensure_eq_ok] at h
  obtain ⟨_, -, _, -, _, -, _, hverify, hpart⟩ := h
  exact ⟨hverify, hpart⟩

/-- **The signed meaning of a grant is its own, ML-DSA key included.**  A grant with the message of
another says the same.  And if a signer has signed messages only of grants with an ML-DSA key
and no signature is forged, then a grant that passes under any policy says what such a grant
says, and has an ML-DSA signature that verifies under the key and the algorithm of it. -/
theorem signed_meaning_is_kept (hg : Obtained signers blake3 host g)
    (hfit : (g.message host).length < 2 ^ 64) :
    (∀ g', Obtained signers blake3 host g' → g.message host = g'.message host →
      g.SameMeaning g') ∧
    ∀ signed : Set Bytes,
      (∀ m ∈ signed, ∃ g', Obtained signers blake3 host g' ∧ g'.pqPk ≠ none ∧
        g'.message host = m) →
      (signers.ed25519Verify g.signer (g.message host) g.ed25519Sig = true →
        g.message host ∈ signed) →
      ∀ s policy, verifyGrant signers blake3 host g s policy = .ok () →
        ∃ g' alg pk sig, g'.message host ∈ signed ∧ g.SameMeaning g' ∧
          g'.pqAlg = some alg ∧ g'.pqPk = some pk ∧ g.mlDsaSig = some sig ∧
          verifyPq signers alg pk (g.message host) sig = .ok () := by
  refine ⟨fun g' hg' => AccessGrant.sameMeaning_of_message hg.allOrNone hg'.allOrNone hfit, ?_⟩
  intro signed hsigned hunforged s policy hpass
  obtain ⟨hverify, hpart⟩ := signatures_of_verifyGrant hpass
  have hmem := hunforged hverify
  obtain ⟨g', hg', hkey, hmessage⟩ := hsigned _ hmem
  have hsame := AccessGrant.sameMeaning_of_message hg.allOrNone hg'.allOrNone hfit hmessage.symm
  rcases hg.allOrNone with ⟨-, hpk, -⟩ | ⟨alg, pk, sig, halg, hpk, hsig⟩
  · exact absurd (hsame.pqPk.symm.trans hpk) hkey
  · rw [verifyPqPart, halg, hpk, hsig] at hpart
    exact ⟨g', alg, pk, sig, hmessage ▸ hmem, hsame, hsame.pqAlg.symm.trans halg,
      hsame.pqPk.symm.trans hpk, hsig, hpart⟩

/-- The sample signature scheme, with one ML-DSA key pair for each algorithm. -/
def hybridSigners : Signers :=
  { sampleSigners with
    MlDsaSecret := fun _ => Unit,
    mlDsaPublic := fun alg _ => List.replicate alg.pkLen 1,
    mlDsaSign := fun alg _ _ _ => some (List.replicate alg.sigLen 2),
    mlDsaKey := fun alg pk => pk = List.replicate alg.pkLen 1,
    mlDsaVerify := fun alg _ _ sig => sig = List.replicate alg.sigLen 2,
    length_mlDsaPublic := fun _ _ => List.length_replicate,
    mlDsaKey_public := fun _ _ => decide_eq_true rfl,
    length_mlDsaSign := fun _ _ _ _ _ h => by rw [← Option.some.inj h, List.length_replicate],
    mlDsaVerify_sign := fun _ _ _ _ _ h => decide_eq_true (Option.some.inj h).symm }

def hybridKeys : GrantKeys hybridSigners :=
  { ed25519 := grantSeed,
    pq := some { alg := .mlDsa44, pk := List.replicate 1312 1, secret := (), pk_eq := rfl } }

def hybridGrant : AccessGrant :=
  { shareGrant with
    pqAlg := some .mlDsa44, pqPk := some (List.replicate 1312 1),
    mlDsaSig := some (List.replicate 2420 2) }

lemma hybridGrant_eq :
    grantAccess hybridSigners sampleBlake3 Host.plain (sampleShare 0) hybridKeys .direct [] =
      .ok hybridGrant := by
  decide +kernel

/-- Where the message of the hybrid grant is all that was signed, the grant passes for what it says
and its ML-DSA signature verifies, even if the policy does not ask for it. -/
theorem signed_meaning_is_kept_hybrid :
    ∃ g' alg pk sig, g'.message Host.plain = hybridGrant.message Host.plain ∧
      hybridGrant.SameMeaning g' ∧ g'.pqAlg = some alg ∧ g'.pqPk = some pk ∧
      hybridGrant.mlDsaSig = some sig ∧
      verifyPq hybridSigners alg pk (hybridGrant.message Host.plain) sig = .ok () := by
  have hobtained : Obtained hybridSigners sampleBlake3 Host.plain hybridGrant :=
    .grantAccess hybridGrant_eq
  have hfit : (hybridGrant.message Host.plain).length < 2 ^ 64 := by decide +kernel
  have hpass : verifyGrant hybridSigners sampleBlake3 Host.plain hybridGrant (sampleShare 0)
      .optional = .ok () :=
    (issued_of_grantAccess hybridGrant_eq).verifyGrant.mpr
      ⟨rfl, rfl, rfl, by decide, .inl rfl⟩
  have hsigned : ∀ m ∈ ({hybridGrant.message Host.plain} : Set Bytes), ∃ g',
      Obtained hybridSigners sampleBlake3 Host.plain g' ∧ g'.pqPk ≠ none ∧
        g'.message Host.plain = m := by
    rintro m rfl
    exact ⟨hybridGrant, hobtained, Option.some_ne_none _, rfl⟩
  exact (signed_meaning_is_kept hobtained hfit).2 _ hsigned (fun _ => rfl) _ _ hpass

end Identikey.Share
