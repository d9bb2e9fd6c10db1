/-
What is signed for one purpose is not signed for another.

One Ed25519 key may sign login proofs, node attestations, state records and access
grants.  The first three payloads are canonical CBOR arrays that start with a text
of their own; a grant message starts with a text that no CBOR array starts with.
-/
import Identikey.Auth.CborExact
import Identikey.Auth.Attestation
import Identikey.Auth.StateRecord
import Identikey.Share.Grant

namespace Identikey.Share

open Auth Dcbor

/-- The head of a byte string that is not too long tells the string. -/
lemma encodeBytes_append_inj {a b s t : Bytes} (ha : a.length < 2 ^ 64) (hb : b.length < 2 ^ 64)
    (h : (Value.bytes a).encode ++ s = (Value.bytes b).encode ++ t) : a = b ∧ s = t := by
  simp only [Value.encode, List.append_assoc] at h
  obtain ⟨hlen, h⟩ := encodeHead_append_inj (by decide) h
  have hlen' : a.length = b.length := by
    have := congrArg UInt64.toNat hlen
    rwa [UInt64.toNat_ofNat_of_lt' ha, UInt64.toNat_ofNat_of_lt' hb] at this
  exact List.append_inj h hlen'

/-- The head of a text tells the text. -/
lemma encodeText_append_inj {a b : String} {s t : Bytes} (ha : (utf8 a).length < 2 ^ 64)
    (hb : (utf8 b).length < 2 ^ 64)
    (h : (Value.text a).encode ++ s = (Value.text b).encode ++ t) : a = b ∧ s = t := by
  simp only [Value.encode, List.append_assoc] at h
  obtain ⟨hlen, h⟩ := encodeHead_append_inj (by decide) h
  have hlen' : (utf8 a).length = (utf8 b).length := by
    have := congrArg UInt64.toNat hlen
    rwa [UInt64.toNat_ofNat_of_lt' ha, UInt64.toNat_ofNat_of_lt' hb] at this
  obtain ⟨htext, hrest⟩ := List.append_inj h hlen'
  exact ⟨utf8_injective htext, hrest⟩

/-- The payload of the login and node proofs, for a purpose. -/
def contextPayload (purpose : String) (content : Bytes) : Bytes :=
  (Value.array [.text CONTEXT, .text purpose, .bytes content]).toBytes

lemma contextPayload_inj {p q : String} {a b : Bytes} (hp : (utf8 p).length < 2 ^ 64)
    (hq : (utf8 q).length < 2 ^ 64) (ha : a.length < 2 ^ 64) (hb : b.length < 2 ^ 64)
    (h : contextPayload p a = contextPayload q b) : p = q ∧ a = b := by
  simp only [contextPayload, Value.toBytes, encode_array, List.flatMap_cons] at h
  obtain ⟨-, h⟩ := encodeHead_append_inj (by decide) h
  obtain ⟨-, h⟩ := encodeText_append_inj (by decide) (by decide) h
  obtain ⟨hpq, h⟩ := encodeText_append_inj hp hq h
  obtain ⟨hab, -⟩ := encodeBytes_append_inj ha hb h
  exact ⟨hpq, hab⟩

lemma stateSigningPayload_inj {a b : Bytes} (ha : a.length < 2 ^ 64) (hb : b.length < 2 ^ 64)
    (h : stateSigningPayload a = stateSigningPayload b) : a = b := by
  simp only [stateSigningPayload, Value.toBytes, encode_array, List.flatMap_cons] at h
  obtain ⟨-, h⟩ := encodeHead_append_inj (by decide) h
  obtain ⟨-, h⟩ := encodeText_append_inj (by decide) (by decide) h
  exact (encodeBytes_append_inj ha hb h).1

/-- A login or node payload is an array of three items, a state payload one of two. -/
lemma contextPayload_ne_state (p : String) (a c : Bytes) :
    contextPayload p a ≠ stateSigningPayload c := by
  intro h
  simp only [contextPayload, stateSigningPayload, Value.toBytes, encode_array] at h
  have hlen := (encodeHead_append_inj (by decide) h).1
  have hne : (UInt64.ofNat 3) ≠ UInt64.ofNat 2 := by decide
  exact hne hlen

/-- No CBOR array starts with the first letter of the grant domain. -/
lemma message_ne_array (host : Host) (g : AccessGrant) (items : List Value)
    (hlen : items.length < 24) : g.message host ≠ (Value.array items).toBytes := by
  intro h
  have hhead : encodeHead 4 (UInt64.ofNat items.length) =
      [(4 : UInt8) <<< 5 ||| (UInt64.ofNat items.length).toUInt8] := by
    refine encodeHead_short ?_
    rw [UInt64.toNat_ofNat_of_lt' (lt_trans hlen (by decide))]
    exact hlen
  have hfirst := congrArg List.head? h
  rw [Value.toBytes, encode_array, hhead, List.singleton_append, List.head?_cons] at hfirst
  have hdomain : (g.message host).head? = some 0x69 := rfl
  rw [hdomain, Option.some.injEq] at hfirst
  have hne : ∀ n < 24, (0x69 : UInt8) ≠ (4 : UInt8) <<< 5 ||| (UInt64.ofNat n).toUInt8 := by
    decide
  exact hne _ hlen hfirst

/-- Something that one of the four protocols has signed. -/
inductive SignedContent where
  | login (chalBytes : Bytes)
  | node (nodeId : Bytes)
  | state (unsigned : Bytes)
  | grant (g : AccessGrant)

namespace SignedContent

/-- The bytes that are signed. -/
def payload (host : Host) : SignedContent → Bytes
  | .login a => signingPayload a
  | .node b => nodeSigningPayload b
  | .state c => stateSigningPayload c
  | .grant g => g.message host

/-- The content is shorter than `2 ^ 64` bytes; a grant has no free content. -/
def Sized : SignedContent → Prop
  | .login a => a.length < 2 ^ 64
  | .node b => b.length < 2 ^ 64
  | .state c => c.length < 2 ^ 64
  | .grant _ => True

end SignedContent

/-- **Signed payloads are separated.**  Login, node and state payloads and grant messages are
pairwise different whatever they hold, and each of the three payload functions is injective.
So contents with the same signed bytes are the same content for the same purpose, or two
grants. -/
theorem cross_protocol_separation (host : Host) (a a' b b' c c' : Bytes) (g : AccessGrant)
    (ha : a.length < 2 ^ 64) (ha' : a'.length < 2 ^ 64) (hb : b.length < 2 ^ 64)
    (hb' : b'.length < 2 ^ 64) (hc : c.length < 2 ^ 64) (hc' : c'.length < 2 ^ 64) :
    ([signingPayload a, nodeSigningPayload b, stateSigningPayload c, g.message host].Pairwise
      (· ≠ ·)) ∧
    (signingPayload a = signingPayload a' → a = a') ∧
    (nodeSigningPayload b = nodeSigningPayload b' → b = b') ∧
    (stateSigningPayload c = stateSigningPayload c' → c = c') ∧
    (∀ x y : SignedContent, x.Sized → y.Sized → x.payload host = y.payload host →
      x = y ∨ ∃ g g', x = .grant g ∧ y = .grant g') := by
  have hlogin : ∀ a, signingPayload a = contextPayload PURPOSE_CHALLENGE a := fun _ => rfl
  have hnode : ∀ b, nodeSigningPayload b = contextPayload PURPOSE_NODE b := fun _ => rfl
  have hgrant : ∀ (g : AccessGrant) (p : String) (d : Bytes),
      g.message host ≠ contextPayload p d := fun g p d =>
    message_ne_array host g _ (by simp)
  have hgrantState : ∀ (g : AccessGrant) (d : Bytes), g.message host ≠ stateSigningPayload d :=
    fun g d => message_ne_array host g _ (by simp)
  have hpurpose : ∀ {a b : Bytes}, a.length < 2 ^ 64 → b.length < 2 ^ 64 →
      contextPayload PURPOSE_CHALLENGE a ≠ contextPayload PURPOSE_NODE b := by
    intro a b ha hb h
    have hpq := (contextPayload_inj (by decide) (by decide) ha hb h).1
    exact absurd hpq (by decide)
  have hinj : ∀ {p : String} {a b : Bytes}, (utf8 p).length < 2 ^ 64 → a.length < 2 ^ 64 →
      b.length < 2 ^ 64 → contextPayload p a = contextPayload p b → a = b :=
    fun hp ha hb h => (contextPayload_inj hp hp ha hb h).2
  refine ⟨?_, ?_, ?_, stateSigningPayload_inj hc hc', ?_⟩
  · simp only [List.pairwise_cons, List.mem_cons, List.not_mem_nil, or_false, forall_eq_or_imp,
      forall_eq, hlogin, hnode]
    refine ⟨⟨hpurpose ha hb, contextPayload_ne_state _ _ _, (hgrant g _ _).symm⟩,
      ⟨contextPayload_ne_state _ _ _, (hgrant g _ _).symm⟩, (hgrantState g _).symm, ?_⟩
    simp
  · rw [hlogin, hlogin]
    exact hinj (by decide) ha ha'
  · rw [hnode, hnode]
    exact hinj (by decide) hb hb'
  · intro x y hx hy h
    -- one case for each pair of purposes: equal purposes agree on the content, others clash
    cases x with
    | login a =>
      cases y with
      | login a' => exact .inl (congrArg _ (hinj (by decide) hx hy h))
      | node b => exact absurd h (hpurpose hx hy)
      | state c => exact absurd h (contextPayload_ne_state _ _ _)
      | grant g => exact absurd h (hgrant g _ _).symm
    | node b =>
      cases y with
      | login a => exact absurd h.symm (hpurpose hy hx)
      | node b' => exact .inl (congrArg _ (hinj (by decide) hx hy h))
      | state c => exact absurd h (contextPayload_ne_state _ _ _)
      | grant g => exact absurd h (hgrant g _ _).symm
    | state c =>
      cases y with
      | login a => exact absurd h.symm (contextPayload_ne_state _ _ _)
      | node b => exact absurd h.symm (contextPayload_ne_state _ _ _)
      | state c' => exact .inl (congrArg _ (stateSigningPayload_inj hx hy h))
      | grant g => exact absurd h (hgrantState g _).symm
    | grant g =>
      cases y with
      | login a => exact absurd h (hgrant g _ _)
      | node b => exact absurd h (hgrant g _ _)
      | state c => exact absurd h (hgrantState g _)
      | grant g' => exact .inr ⟨g, g', rfl, rfl⟩

/-- The sample challenge, a node identifier and a short record under a grant of zeros. -/
theorem cross_protocol_separation_sample :
    signingPayload sampleChallenge.toBytes ≠ sampleGrant.message Host.plain := by
  have h := (cross_protocol_separation Host.plain sampleChallenge.toBytes [] [7] [] [1, 2] []
    sampleGrant (by decide) (by decide) (by decide) (by decide) (by decide) (by decide)).1
  simp only [List.pairwise_cons, List.mem_cons, List.not_mem_nil, or_false, forall_eq_or_imp,
    forall_eq] at h
  exact h.1.2.2

end Identikey.Share
