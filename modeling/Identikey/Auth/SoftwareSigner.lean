/-
The software signer, and protocol runs with it over the wire (`signer.rs`).

The signature crates sign here as well (`Keyring`), and `Keyring.Correct` is what is relied
on: what a key signs verifies under its public key.  With that, whatever the signer answers
survives the wire and is accepted (`login_roundtrip`, `attestation_roundtrip`).
-/
import Identikey.Auth.RoundTrip
import Identikey.Auth.HonestResponse
import Identikey.Auth.NodeAttest

namespace Identikey.Auth

open Lib Lib.Fallible

/-- The functions of the signature crates that sign. -/
structure Keyring where
  /-- `ed25519_dalek::SigningKey::verifying_key`, of a seed. -/
  ed25519Public : Bytes → Bytes
  /-- `SigningKey::sign`. -/
  ed25519Sign : Bytes → Bytes → Bytes
  /-- `p256::ecdsa::SigningKey::verifying_key`, as a compressed point. -/
  p256Public : Bytes → Bytes
  /-- `p256::ecdsa::SigningKey::sign`. -/
  p256Sign : Bytes → Bytes → Bytes
  /-- `ml_dsa_65::PrivateKey::try_sign` with an empty context. -/
  mlDsa65Sign : Bytes → Bytes → Except String Bytes

/-- `ClassicalSecret`. -/
inductive ClassicalSecret where
  | ed25519 (seed : Bytes)
  | p256 (seed : Bytes)
deriving DecidableEq, Repr

/-- `SoftwareSigner`: a classical key, and a private and public ML-DSA-65 key. -/
structure SoftwareSigner where
  classical : ClassicalSecret
  pq : Option (Bytes × Bytes)
deriving DecidableEq, Repr

namespace SoftwareSigner

section Signer

variable (ring : Keyring)

/-- `SoftwareSigner::classical_public_key`. -/
def classicalPublicKey (s : SoftwareSigner) : ClassicalPublicKey :=
  match s.classical with
  | .ed25519 sk => { alg := .ed25519, bytes := ring.ed25519Public sk }
  | .p256 sk => { alg := .p256, bytes := ring.p256Public sk }

/-- `SoftwareSigner::sign_classical`. -/
def signClassical (s : SoftwareSigner) (payload : Bytes) : Except AuthError ClassicalSignature :=
  match s.classical with
  | .ed25519 sk => .ok { alg := .ed25519, bytes := ring.ed25519Sign sk payload }
  | .p256 sk => .ok { alg := .p256, bytes := ring.p256Sign sk payload }

/-- `SoftwareSigner::pq_public_key`. -/
def pqPublicKey (s : SoftwareSigner) : Option PqPublicKey :=
  s.pq.map fun keys => { alg := .mlDsa65, bytes := keys.2 }

/-- `SoftwareSigner::sign_pq`. -/
def signPq (s : SoftwareSigner) (payload : Bytes) : Except AuthError (Option PqSignature) :=
  match s.pq with
  | none => .ok none
  | some (sk, _) => do
    let sig ← (ring.mlDsa65Sign sk payload).mapError fun e =>
      AuthError.backend ("ml-dsa-65 sign: " ++ e)
    return some { alg := .mlDsa65, bytes := sig }

/-- `SoftwareSigner` as a `Signer`. -/
def toSigner (s : SoftwareSigner) : Signer where
  classicalPublicKey := s.classicalPublicKey ring
  signClassical := s.signClassical ring
  pqPublicKey := s.pqPublicKey
  signPq := s.signPq ring

end Signer

end SoftwareSigner

/-- The signature crates accept the keys they make and what these sign. -/
structure Keyring.Correct (ring : Keyring) (bk : Backend) : Prop where
  ed25519_length : ∀ seed, (ring.ed25519Public seed).length = 32
  ed25519_key : ∀ seed, bk.ed25519Key (ring.ed25519Public seed) = true
  ed25519_sign_length : ∀ seed payload, (ring.ed25519Sign seed payload).length = 64
  ed25519_verify : ∀ seed payload,
    bk.ed25519Verify (ring.ed25519Public seed) payload (ring.ed25519Sign seed payload) = true
  p256_key : ∀ seed, bk.p256Key (ring.p256Public seed) = true
  p256_sig : ∀ seed payload, bk.p256Sig (ring.p256Sign seed payload) = true
  p256_verify : ∀ seed payload,
    bk.p256Verify (ring.p256Public seed) payload (ring.p256Sign seed payload) = true

/-- An ML-DSA-65 key pair, as `try_keygen` makes it. -/
structure Keyring.KeyPair (ring : Keyring) (bk : Backend) (sk pk : Bytes) : Prop where
  length : pk.length = PqAlg.mlDsa65.pkLen
  key : bk.mlDsaKey .mlDsa65 pk = .ok ()
  sign_length : ∀ payload sig, ring.mlDsa65Sign sk payload = .ok sig →
    sig.length = PqAlg.mlDsa65.sigLen
  verify : ∀ payload sig, ring.mlDsa65Sign sk payload = .ok sig →
    bk.mlDsaVerify .mlDsa65 pk payload sig = true

/-- The post-quantum keys of a signer belong together. -/
def SoftwareSigner.Paired (s : SoftwareSigner) (ring : Keyring) (bk : Backend) : Prop :=
  ∀ sk pk, s.pq = some (sk, pk) → ring.KeyPair bk sk pk

/-- Keys and signatures as `sampleBackend` accepts them. -/
def sampleKeyring : Keyring where
  ed25519Public seed := (seed ++ List.replicate 32 0).take 32
  ed25519Sign seed payload := sampleSign 64 ((seed ++ List.replicate 32 0).take 32) payload
  p256Public seed := (seed ++ List.replicate 33 0).take 33
  p256Sign seed payload := sampleSign 64 ((seed ++ List.replicate 33 0).take 33) payload
  mlDsa65Sign sk payload := .ok (sampleSign PqAlg.mlDsa65.sigLen sk payload)

lemma sampleKeyring_correct : sampleKeyring.Correct sampleBackend where
  ed25519_length seed := by simp [sampleKeyring]
  ed25519_key _ := rfl
  ed25519_sign_length _ _ := length_sampleSign _ _ _
  ed25519_verify _ _ := decide_eq_true rfl
  p256_key seed := by simp [sampleKeyring, sampleBackend]
  p256_sig _ _ := decide_eq_true (length_sampleSign _ _ _)
  p256_verify _ _ := decide_eq_true rfl

/-- A signer with `sampleKey` and no post-quantum key. -/
def sampleSoftwareSigner : SoftwareSigner :=
  { classical := .ed25519 sampleKey.bytes, pq := none }

section RoundTrip

variable {ring : Keyring} {bk : Backend} {s : SoftwareSigner}

/-- A classical signature verifies. -/
lemma verifyClassical_signClassical (hcorrect : ring.Correct bk) {payload : Bytes}
    {sig : ClassicalSignature} (h : s.signClassical ring payload = .ok sig) :
    verifyClassical bk (s.classicalPublicKey ring) payload sig = .ok () := by
  rw [SoftwareSigner.signClassical] at h
  rw [SoftwareSigner.classicalPublicKey]
  cases hsecret : s.classical with
  | ed25519 seed =>
    rw [hsecret] at h
    obtain rfl := Except.ok.inj h
    simp only [verifyClassical, bind_eq_ok, ensure_eq_ok]
    exact ⟨(), trivial, (), hcorrect.ed25519_length seed, (), hcorrect.ed25519_key seed, (),
      hcorrect.ed25519_sign_length seed payload, hcorrect.ed25519_verify seed payload⟩
  | p256 seed =>
    rw [hsecret] at h
    obtain rfl := Except.ok.inj h
    simp only [verifyClassical, bind_eq_ok, ensure_eq_ok]
    exact ⟨(), trivial, (), hcorrect.p256_key seed, (), hcorrect.p256_sig seed payload,
      hcorrect.p256_verify seed payload⟩

/-- A post-quantum signature verifies. -/
lemma verifyPq_signPq (hpaired : s.Paired ring bk) {payload : Bytes} {pk : PqPublicKey}
    {sig : PqSignature} (hpk : s.pqPublicKey = some pk)
    (h : s.signPq ring payload = .ok (some sig)) : verifyPq bk pk payload sig = .ok () := by
  rw [SoftwareSigner.signPq] at h
  rw [SoftwareSigner.pqPublicKey] at hpk
  cases hpq : s.pq with
  | none =>
    rw [hpq] at hpk
    cases hpk
  | some keys =>
    rw [hpq] at h hpk
    obtain rfl := Option.some.inj hpk
    obtain ⟨bytes, hbytes, hsig⟩ := bind_eq_ok.mp h
    obtain rfl := Option.some.inj (pure_eq_ok.mp hsig)
    have hpair := hpaired keys.1 keys.2 hpq
    rw [mapError_eq_ok] at hbytes
    simp only [verifyPq, bind_eq_ok, ensure_eq_ok, mapError_eq_ok]
    exact ⟨(), trivial, (), hpair.length, (), hpair.key, (), hpair.sign_length payload bytes hbytes,
      hpair.verify payload bytes hbytes⟩

/-- A signature comes with every post-quantum key. -/
lemma signPq_eq_ok {payload : Bytes} {sig : Option PqSignature}
    (h : s.signPq ring payload = .ok sig) :
    (s.pqPublicKey = none ∧ sig = none) ∨
      ∃ pk sig', s.pqPublicKey = some pk ∧ sig = some sig' := by
  rw [SoftwareSigner.signPq] at h
  rw [SoftwareSigner.pqPublicKey]
  cases hpq : s.pq with
  | none =>
    rw [hpq] at h
    exact .inl ⟨rfl, (Except.ok.inj h).symm⟩
  | some keys =>
    rw [hpq] at h
    obtain ⟨sig', -, hsig⟩ := bind_eq_ok.mp h
    exact .inr ⟨_, _, rfl, (pure_eq_ok.mp hsig).symm⟩

/-- What `respond` and `attest_node_id` make of a payload. -/
structure Signs (ring : Keyring) (s : SoftwareSigner) (payload : Bytes)
    (signature : ClassicalSignature) (pq : Option (PqPublicKey × PqSignature)) : Prop where
  classical : s.signClassical ring payload = .ok signature
  pq_key : pq.map Prod.fst = s.pqPublicKey
  pq_sig : ∀ pk sig, pq = some (pk, sig) → s.signPq ring payload = .ok (some sig)

lemma signs_of_ok {payload : Bytes} {signature : ClassicalSignature} {pqsig : Option PqSignature}
    {pq : Option (PqPublicKey × PqSignature)}
    (heq : pq = match s.pqPublicKey, pqsig with
      | some pk, some sig => some (pk, sig)
      | _, _ => none)
    (hsig : s.signClassical ring payload = .ok signature)
    (hpq : s.signPq ring payload = .ok pqsig) : Signs ring s payload signature pq := by
  rcases signPq_eq_ok hpq with ⟨hkey, rfl⟩ | ⟨pk, sig, hkey, rfl⟩
  · rw [hkey] at heq
    subst heq
    exact ⟨hsig, hkey.symm, fun _ _ h => by cases h⟩
  · rw [hkey] at heq
    subst heq
    refine ⟨hsig, hkey.symm, ?_⟩
    rintro _ _ ⟨⟩
    exact hpq

/-- The signatures of a signer verify. -/
lemma Signs.verifies (hcorrect : ring.Correct bk) (hpaired : s.Paired ring bk) {payload : Bytes}
    {signature : ClassicalSignature} {pq : Option (PqPublicKey × PqSignature)}
    (h : Signs ring s payload signature pq) :
    verifyClassical bk (s.classicalPublicKey ring) payload signature = .ok () ∧
      ∀ pk sig, pq = some (pk, sig) → verifyPq bk pk payload sig = .ok () := by
  refine ⟨verifyClassical_signClassical hcorrect h.classical, ?_⟩
  rintro pk sig rfl
  exact verifyPq_signPq hpaired h.pq_key.symm (h.pq_sig pk sig rfl)

/-- There is no post-quantum signature exactly where the signer has no such key. -/
lemma Signs.pq_eq_none_iff {payload : Bytes} {signature : ClassicalSignature}
    {pq : Option (PqPublicKey × PqSignature)} (h : Signs ring s payload signature pq) :
    pq = none ↔ s.pq = none := by
  have hkey := h.pq_key
  rw [SoftwareSigner.pqPublicKey] at hkey
  cases pq <;> cases hs : s.pq <;> simp_all

/-- **Attestations round-trip.**  What a software signer attests survives the wire, and any peer
accepts it as an attestation of the signer's identity, unless the peer requires a post-quantum key
that the signer does not have. -/
theorem attestation_roundtrip (hcorrect : ring.Correct bk) (hpaired : s.Paired ring bk)
    {nodeId : Bytes} {att : NodeAttestation}
    (h : attestNodeId (s.toSigner ring) nodeId = .ok att) (hfit : att.toBytes.length < 2 ^ 64)
    (policy : VerifyPolicy) :
    NodeAttestation.fromBytes att.toBytes = .ok att ∧ att.nodeId = nodeId ∧
      verifyNodeAttestation bk att policy =
        if policy = .pqRequired ∧ s.pq = none then .error .pqRequired
        else .ok ((s.classicalPublicKey ring).fingerprint bk) := by
  simp only [attestNodeId, bind_eq_ok, pure_eq_ok] at h
  obtain ⟨sig, hsig, pqsig, hpqsig, rfl⟩ := h
  have hsigns := signs_of_ok rfl hsig hpqsig
  obtain ⟨hclassical, hpq⟩ := hsigns.verifies hcorrect hpaired
  refine ⟨NodeAttestation.fromBytes_toBytes hfit, rfl, ?_⟩
  rw [verifyNodeAttestation_of_verifies hclassical hpq]
  exact if_congr (and_congr_right fun _ => hsigns.pq_eq_none_iff) rfl rfl

/-- An attestation by a sample signer. -/
theorem attestation_roundtrip_sampleSoftwareSigner :
    ∃ att, attestNodeId (sampleSoftwareSigner.toSigner sampleKeyring) [3] = .ok att ∧
      NodeAttestation.fromBytes att.toBytes = .ok att ∧
      verifyNodeAttestation sampleBackend att .pqOptional =
        .ok (sampleKey.fingerprint sampleBackend) := by
  have hpaired : sampleSoftwareSigner.Paired sampleKeyring sampleBackend := fun _ _ h => by cases h
  obtain ⟨hbytes, -, hverify⟩ := attestation_roundtrip sampleKeyring_correct hpaired
    (show attestNodeId _ [3] = .ok _ from rfl) (by decide +kernel) .pqOptional
  exact ⟨_, rfl, hbytes, hverify⟩

/-- Where the post-quantum signature verifies, the policy decides. -/
lemma checkPq_of_verifies {resp : Response} {payload : Bytes}
    (hpq : ∀ pk sig, resp.pq = some (pk, sig) → verifyPq bk pk payload sig = .ok ())
    (policy : VerifyPolicy) :
    checkPq bk resp payload policy =
      if policy = .pqRequired ∧ resp.pq = none then .error .pqRequired
      else .ok (resp.pq.map Prod.fst) := by
  rw [checkPq]
  cases hresp : resp.pq with
  | none => cases policy <;> rfl
  | some pair =>
    obtain ⟨pk, sig⟩ := pair
    rw [if_neg (fun h => by cases h.2)]
    simp only [hpq pk sig hresp]
    rfl

/-- A response whose nonce is used is refused, whatever it is checked against. -/
lemma verifyResponse_used {build : Build} {a : Attempt} {c : Challenge} {expiresAt : UInt64}
    {store : InMemoryNonceStore} (hread : Challenge.fromBytes a.response.challengeBytes = .ok c)
    (hentry : store.issued c.nonce = some (expiresAt, true)) :
    ∃ e, verifyResponse bk build a store = (.error e, store) := by
  rcases h : verifyResponse bk build a store with ⟨e | v, store'⟩
  · exact ⟨e, by rw [verifyResponse_error h]⟩
  · obtain ⟨c', expiresAt', hcheck, hentry', -⟩ := verifyResponse_eq_ok.mp h
    obtain rfl := Except.ok.inj (hread.symm.trans (checkResponse_eq_ok.mp hcheck).1)
    rw [hentry] at hentry'
    cases hentry'

/-- Where all checks but the last pass, the last decides. -/
lemma checkResponse_of_checkPq (build : Build) {a : Attempt} {c : Challenge}
    (hread : Challenge.fromBytes a.response.challengeBytes = .ok c) (hversion : c.version = VERSION)
    (haud : c.audience = a.expectedAudience) (hlen : ¬ c.nonce.length < MIN_NONCE_LEN)
    (hwindow : checkWindow build c a.now a.skewSecs = .ok ())
    (hsig : verifyClassical bk a.response.publicKey a.response.signingPayload a.response.signature =
      .ok ()) :
    checkResponse bk build a =
      (liftErr (checkPq bk a.response a.response.signingPayload a.policy)).map fun pqPublicKey =>
        (c, { fingerprint := a.response.publicKey.fingerprint bk,
              publicKey := a.response.publicKey, pqPublicKey }) := by
  rw [checkResponse, liftErr_eq_ok.mpr hread, ok_bind, (ensure_eq_ok (u := ())).mpr hversion,
    ok_bind, (ensure_eq_ok (u := ())).mpr haud, ok_bind, (ensure_eq_ok (u := ())).mpr hlen, ok_bind,
    hwindow, ok_bind]
  show (liftErr (verifyClassical bk a.response.publicKey a.response.signingPayload
    a.response.signature) >>= _) = _
  rw [liftErr_eq_ok.mpr hsig, ok_bind]
  cases liftErr (checkPq bk a.response a.response.signingPayload a.policy) <;> rfl

/-- What a verifier makes of a response that the signer has signed. -/
lemma verifyResponse_of_signs (hcorrect : ring.Correct bk) (hpaired : s.Paired ring bk)
    {build : Build} {a : Attempt} {c : Challenge} {store : InMemoryNonceStore}
    (hread : Challenge.fromBytes a.response.challengeBytes = .ok c) (hversion : c.version = VERSION)
    (haud : c.audience = a.expectedAudience) (hlen : ¬ c.nonce.length < MIN_NONCE_LEN)
    (hwindow : checkWindow build c a.now a.skewSecs = .ok ())
    (hkey : a.response.publicKey = s.classicalPublicKey ring)
    (hsigns : Signs ring s a.response.signingPayload a.response.signature a.response.pq)
    {expiresAt : UInt64} (hentry : store.issued c.nonce = some (expiresAt, false))
    (hnow : a.now ≤ expiresAt) :
    verifyResponse bk build a store =
      if a.policy = .pqRequired ∧ s.pq = none then (.error (.err .pqRequired), store)
      else (.ok { fingerprint := (s.classicalPublicKey ring).fingerprint bk,
                  publicKey := s.classicalPublicKey ring, pqPublicKey := s.pqPublicKey },
        store.insert c.nonce (expiresAt, true)) := by
  obtain ⟨hclassical, hpq⟩ := hsigns.verifies hcorrect hpaired
  have hcheck := checkResponse_of_checkPq build hread hversion haud hlen hwindow
    (by rw [hkey]; exact hclassical)
  rw [checkPq_of_verifies hpq, hsigns.pq_key, hkey] at hcheck
  split_ifs with hcase
  · rw [if_pos ⟨hcase.1, hsigns.pq_eq_none_iff.mpr hcase.2⟩] at hcheck
    rw [verifyResponse, hcheck]
    rfl
  · rw [if_neg (fun h => hcase ⟨h.1, hsigns.pq_eq_none_iff.mp h.2⟩)] at hcheck
    exact verifyResponse_eq_ok.mpr ⟨c, expiresAt, hcheck, hentry, hnow, rfl⟩

/-- **Logins round-trip.**  A challenge that is issued survives the wire, and so does the answer of
a software signer; inside the challenge's lifetime the verifier accepts it once, as a proof of the
signer's keys, unless it requires a post-quantum key that the signer does not have. -/
theorem login_roundtrip (hcorrect : ring.Correct bk) (hpaired : s.Paired ring bk) {build : Build}
    {store store₁ : InMemoryNonceStore} {issuer : ChallengeIssuer} {t₀ now skewSecs : UInt64}
    {nonce : Nonce} {c : Challenge} {resp : Response}
    (hissue : issuer.issue build store t₀ nonce = (.ok c, store₁))
    (hrespond : (s.toSigner ring).respond c = .ok resp)
    (hfit : c.toBytes.length < 2 ^ 64) (hfit' : resp.toBytes.length < 2 ^ 64)
    (hlow : t₀ ≤ now) (hhigh : now ≤ c.expiresAt)
    (hsum : c.expiresAt.toNat + skewSecs.toNat < 2 ^ 64) (policy : VerifyPolicy) :
    Challenge.fromBytes c.toBytes = .ok c ∧ Response.fromBytes resp.toBytes = .ok resp ∧
    ∃ store₂, verifyResponse bk build
        { response := resp, expectedAudience := issuer.audience, now, skewSecs, policy } store₁ =
      (if policy = .pqRequired ∧ s.pq = none then (.error (.err .pqRequired), store₁)
        else (.ok { fingerprint := (s.classicalPublicKey ring).fingerprint bk,
                    publicKey := s.classicalPublicKey ring, pqPublicKey := s.pqPublicKey },
          store₂)) ∧
      ∀ again : Attempt, again.response = resp →
        ∃ e, verifyResponse bk build again store₂ = (.error e, store₂) := by
  have hbytes := Signer.challengeBytes_respond hrespond
  simp only [Signer.respond, bind_eq_ok, pure_eq_ok] at hrespond
  obtain ⟨sig, hsig, pqsig, hpqsig, hresp⟩ := hrespond
  have hsigns : Signs ring s resp.signingPayload resp.signature resp.pq := by
    rw [← hresp]
    exact signs_of_ok rfl hsig hpqsig
  have hkey : resp.publicKey = s.classicalPublicKey ring := by
    rw [← hresp]
    rfl
  have hread : Challenge.fromBytes resp.challengeBytes = .ok c := by
    rw [hbytes]
    exact Challenge.fromBytes_toBytes hfit
  obtain ⟨hversion, haud, hiat, hlen, hentry, hnonce⟩ : c.version = VERSION ∧
      c.audience = issuer.audience ∧ c.issuedAt = t₀ ∧ ¬ c.nonce.length < MIN_NONCE_LEN ∧
      store₁.issued c.nonce = some (c.expiresAt, false) ∧ c.nonce = nonce.val := by
    obtain ⟨expiresAt, -, rfl, rfl⟩ := ChallengeIssuer.issue_eq_ok.mp hissue
    exact ⟨rfl, rfl, rfl, Nat.not_lt.mpr nonce.property.ge, InMemoryNonceStore.insert_self _ _ _,
      rfl⟩
  have hlow' := UInt64.le_iff_toNat_le.mp hlow
  have hhigh' := UInt64.le_iff_toNat_le.mp hhigh
  have hwindow : checkWindow build c now skewSecs = .ok () := by
    have hnowsum : now.toNat + skewSecs.toNat < 2 ^ 64 := by omega
    have hsums : WindowSums build c now skewSecs := ⟨.inl hnowsum, .inl hsum⟩
    refine (checkWindow_eq_ok ?_ ?_).mpr hsums
    · rw [hiat]
      omega
    · omega
  have hverify := verifyResponse_of_signs
    (a := { response := resp, expectedAudience := issuer.audience, now, skewSecs, policy })
    hcorrect hpaired hread hversion haud hlen hwindow hkey hsigns hentry hhigh
  refine ⟨Challenge.fromBytes_toBytes hfit, Response.fromBytes_toBytes hfit',
    store₁.insert c.nonce (c.expiresAt, true), hverify, ?_⟩
  intro again hagain
  have hread' : Challenge.fromBytes again.response.challengeBytes = .ok c := by
    rw [hagain]
    exact hread
  have hused := InMemoryNonceStore.insert_self store₁ c.nonce (c.expiresAt, true)
  exact verifyResponse_used hread' hused

/-- A login by a sample signer. -/
theorem login_roundtrip_sampleSoftwareSigner :
    ∃ resp, (sampleSoftwareSigner.toSigner sampleKeyring).respond sampleChallenge = .ok resp ∧
      Response.fromBytes resp.toBytes = .ok resp ∧
      (verifyResponse sampleBackend .debug
        { response := resp, expectedAudience := sampleIssuer.audience, now := 1010, skewSecs := 5,
          policy := .pqOptional } sampleStore).1 =
        .ok { fingerprint := sampleKey.fingerprint sampleBackend, publicKey := sampleKey,
              pqPublicKey := none } := by
  have hpaired : sampleSoftwareSigner.Paired sampleKeyring sampleBackend := fun _ _ h => by cases h
  have hissue : sampleIssuer.issue .debug InMemoryNonceStore.new sampleChallenge.issuedAt
      ⟨sampleChallenge.nonce, rfl⟩ = (.ok sampleChallenge, sampleStore) := rfl
  have hrespond : (sampleSoftwareSigner.toSigner sampleKeyring).respond sampleChallenge =
      .ok (sampleAnswer sampleChallenge.toBytes) := rfl
  obtain ⟨-, hbytes, store₂, hverify, -⟩ := @login_roundtrip _ _ _ sampleKeyring_correct hpaired
    .debug _ _ _ _ 1010 5 _ _ _ hissue hrespond (by decide +kernel) (by decide +kernel)
    (by decide) (by decide) (by decide) .pqOptional
  exact ⟨_, hrespond, hbytes, congrArg Prod.fst hverify⟩

end RoundTrip

end Identikey.Auth
