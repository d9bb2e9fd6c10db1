/-
What is hashed, and for which purpose.

Four functions of the stack hash a domain and then parts of known lengths, or behind their
lengths: `content_id`, `access_commitment`, `wrap_kdf` and the commitment of a sealed
secret.  No domain starts with another, so an input tells for which of the four it is.
`token_identity` hashes a domain of the caller, which a zero byte ends.
-/
import Identikey.Secret.Record
import Identikey.Capability.Commitment
import Identikey.Share.AccessSet

set_option linter.dupNamespace false

namespace Identikey.Share

open Lib Auth Dcbor Capability

/-- What `wrap_kdf` hashes. -/
def wrapMaterial (dh : ByteArrayOf 32) (ephemeral recipient : Bytes) : Bytes :=
  WRAP_LABEL ++ dh.val ++ ephemeral ++ recipient

/-- The two public keys of a wrap, both X25519 or both P-256. -/
def KeySizes (ephemeral recipient : Bytes) : Prop :=
  (ephemeral.length = 32 ∧ recipient.length = 32) ∨ (ephemeral.length = 33 ∧ recipient.length = 33)

/-- What the four functions hash. -/
inductive HashInput where
  | content (s : Share)
  | access (host : Host) (s : Share)
  | wrap (dh : ByteArrayOf 32) (ephemeral recipient : Bytes)
  | secret (salt : ByteArrayOf 32) (value : Bytes)

/-- The functions that hash them. -/
inductive Purpose where
  | content
  | access
  | wrap
  | secret
deriving DecidableEq, Repr

namespace HashInput

def purpose : HashInput → Purpose
  | content _ => .content
  | access _ _ => .access
  | wrap _ _ _ => .wrap
  | secret _ _ => .secret

/-- The bytes that are hashed. -/
def material : HashInput → Bytes
  | content s => s.contentMaterial
  | access host s => s.accessMaterial host
  | wrap dh ephemeral recipient => wrapMaterial dh ephemeral recipient
  | secret salt value => Secret.commitmentMaterial salt value

/-- The result of the function. -/
def hashed (blake3 : Bytes → Digest32) : HashInput → Digest32
  | content s => s.contentId blake3
  | access host s => s.accessCommitment blake3 host
  | wrap dh ephemeral recipient => wrapKdf blake3 dh ephemeral recipient
  | secret salt value => Secret.commitment blake3 salt value

lemma hashed_eq (blake3 : Bytes → Digest32) (i : HashInput) :
    i.hashed blake3 = blake3 i.material := by
  cases i <;> rfl

end HashInput

/-! ### Domains -/

def Purpose.domain : Purpose → Bytes
  | .content => CONTENT_DOMAIN
  | .access => ACCESS_DOMAIN
  | .wrap => WRAP_LABEL
  | .secret => Secret.COMMIT_DOMAIN

/-- The length of the shortest domain. -/
def SHORTEST_DOMAIN : ℕ := 20

lemma shortestDomain_le (p : Purpose) : SHORTEST_DOMAIN ≤ p.domain.length := by
  cases p <;> decide +kernel

/-- The domains differ in what the shortest one is long. -/
lemma domain_prefix_injective {p q : Purpose}
    (h : p.domain.take SHORTEST_DOMAIN = q.domain.take SHORTEST_DOMAIN) : p = q := by
  revert h
  cases p <;> cases q <;> decide +kernel

/-- A byte string starts with one domain at most. -/
lemma Purpose.eq_of_domain_append {p q : Purpose} {a b : Bytes}
    (h : p.domain ++ a = q.domain ++ b) : p = q := by
  have htake {p : Purpose} {a : Bytes} :
      (p.domain ++ a).take SHORTEST_DOMAIN = p.domain.take SHORTEST_DOMAIN :=
    List.take_append_of_le_length (shortestDomain_le p)
  apply domain_prefix_injective
  rw [← htake (a := a), h, htake]

/-- Every input starts with its domain. -/
lemma HashInput.domain_prefix (i : HashInput) : i.purpose.domain <+: i.material := by
  cases i with
  | content s =>
    refine ⟨s.nonce.val ++ (beBytes 8 (UInt64.ofNat s.ciphertext.length).toNat ++ s.ciphertext), ?_⟩
    simp only [material, Share.contentMaterial, purpose, Purpose.domain, List.append_assoc]
  | access host s =>
    refine ⟨beBytes 8 (UInt64.ofNat (sortOn id (s.parts host)).length).toNat ++
      (sortOn id (s.parts host)).flatMap framed, ?_⟩
    simp only [material, Share.accessMaterial, purpose, Purpose.domain, List.append_assoc]
  | wrap dh ephemeral recipient =>
    refine ⟨dh.val ++ (ephemeral ++ recipient), ?_⟩
    simp only [material, wrapMaterial, purpose, Purpose.domain, List.append_assoc]
  | secret salt value =>
    refine ⟨salt.val ++ value, ?_⟩
    simp only [material, Secret.commitmentMaterial, purpose, Purpose.domain, List.append_assoc]

/-- **An input is hashed for one purpose only.** -/
lemma HashInput.purpose_eq_of_material {i j : HashInput} (h : i.material = j.material) :
    i.purpose = j.purpose := by
  obtain ⟨a, ha⟩ := i.domain_prefix
  obtain ⟨b, hb⟩ := j.domain_prefix
  exact Purpose.eq_of_domain_append (ha.trans (h.trans hb.symm))

/-! ### Parts -/

lemma commitmentMaterial_inj {salt salt' : ByteArrayOf 32} {value value' : Bytes}
    (h : Secret.commitmentMaterial salt value = Secret.commitmentMaterial salt' value') :
    salt = salt' ∧ value = value' := by
  simp only [Secret.commitmentMaterial, List.append_assoc] at h
  obtain ⟨hsalt, hvalue⟩ :=
    List.append_inj (List.append_cancel_left h) (by rw [salt.2, salt'.2])
  exact ⟨Subtype.ext hsalt, hvalue⟩

/-- The length of the input tells which kind of keys it has. -/
lemma wrapMaterial_inj {dh dh' : ByteArrayOf 32} {ephemeral ephemeral' recipient recipient' : Bytes}
    (hsizes : KeySizes ephemeral recipient) (hsizes' : KeySizes ephemeral' recipient')
    (h : wrapMaterial dh ephemeral recipient = wrapMaterial dh' ephemeral' recipient') :
    dh = dh' ∧ ephemeral = ephemeral' ∧ recipient = recipient' := by
  simp only [wrapMaterial, List.append_assoc] at h
  obtain ⟨hdh, hkeys⟩ := List.append_inj (List.append_cancel_left h) (by rw [dh.2, dh'.2])
  have hlen : ephemeral.length = ephemeral'.length := by
    have hboth := congrArg List.length hkeys
    rw [List.length_append, List.length_append] at hboth
    rcases hsizes with ⟨he, hr⟩ | ⟨he, hr⟩ <;> rcases hsizes' with ⟨he', hr'⟩ | ⟨he', hr'⟩ <;> omega
  obtain ⟨hephemeral, hrecipient⟩ := List.append_inj hkeys hlen
  exact ⟨Subtype.ext hdh, hephemeral, hrecipient⟩

/-- **Hash inputs are unambiguous.**  Each function hashes an input from which its arguments can be
recovered, and no input of one of the four is an input of another. -/
theorem hash_inputs_unambiguous :
    (∀ (blake3 : Bytes → Digest32) (i : HashInput), i.hashed blake3 = blake3 i.material) ∧
    (∀ (blake3 : Bytes → Digest32) (domain token : Bytes) (id : Digest32),
      tokenIdentity blake3 domain token = .ok id ↔
        NamesToken domain token ∧ id = blake3 (tokenMaterial domain token)) ∧
    (∀ s s' : Share, (HashInput.content s).material = (HashInput.content s').material →
      s.nonce = s'.nonce ∧ s.ciphertext = s'.ciphertext) ∧
    (∀ (dh dh' : ByteArrayOf 32) (ephemeral ephemeral' recipient recipient' : Bytes),
      KeySizes ephemeral recipient → KeySizes ephemeral' recipient' →
      (HashInput.wrap dh ephemeral recipient).material =
        (HashInput.wrap dh' ephemeral' recipient').material →
      dh = dh' ∧ ephemeral = ephemeral' ∧ recipient = recipient') ∧
    (∀ (salt salt' : ByteArrayOf 32) (value value' : Bytes),
      (HashInput.secret salt value).material = (HashInput.secret salt' value').material →
      salt = salt' ∧ value = value') ∧
    (∀ domain domain' token token' : Bytes, NamesToken domain token → NamesToken domain' token' →
      tokenMaterial domain token = tokenMaterial domain' token' →
      domain = domain' ∧ token = token') ∧
    ∀ i j : HashInput, i.material = j.material → i.purpose = j.purpose := by
  refine ⟨fun blake3 i => i.hashed_eq blake3, fun blake3 domain token id => ?_, ?_, ?_, ?_, ?_, ?_⟩
  · unfold tokenIdentity
    rw [Fallible.bind_eq_ok]
    simp only [Fallible.ensure_eq_ok, Fallible.pure_eq_ok]
    constructor
    · rintro ⟨_, hnames, rfl⟩
      exact ⟨hnames, rfl⟩
    · rintro ⟨hnames, rfl⟩
      exact ⟨(), hnames, rfl⟩
  · exact fun s s' h => contentMaterial_eq_iff.mp h
  · exact fun dh dh' e e' r r' hsizes hsizes' h => wrapMaterial_inj hsizes hsizes' h
  · exact fun salt salt' value value' h => commitmentMaterial_inj h
  · exact fun d d' t t' h h' heq => tokenMaterial_inj h h' heq
  · exact fun i j h => HashInput.purpose_eq_of_material h

/-- A wrap for an X25519 key and one for a P-256 key, of the same agreement. -/
theorem hash_inputs_unambiguous_keys :
    (HashInput.wrap (fill 32 0) (fill 32 1).val (fill 32 2).val).material ≠
      (HashInput.wrap (fill 32 0) (fill 33 1).val (fill 33 2).val).material := by
  intro h
  have hx25519 : KeySizes (fill 32 1).val (fill 32 2).val :=
    .inl ⟨(fill 32 1).property, (fill 32 2).property⟩
  have hp256 : KeySizes (fill 33 1).val (fill 33 2).val :=
    .inr ⟨(fill 33 1).property, (fill 33 2).property⟩
  obtain ⟨-, -, -, hwrap, -⟩ := hash_inputs_unambiguous
  obtain ⟨-, hephemeral, -⟩ := hwrap _ _ _ _ _ _ hx25519 hp256 h
  exact absurd (congrArg List.length hephemeral) (by decide)

end Identikey.Share
