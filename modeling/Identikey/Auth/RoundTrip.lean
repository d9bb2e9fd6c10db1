/-
Messages survive the wire.

An encoded message is a map whose entries the encoder puts in canonical order, and the
maps of its keys and signatures likewise.  The decoder looks the fields up by name, so that
it does not matter in which order they come (`lookup_canon`).
-/
import Identikey.Auth.WireForm

namespace Identikey.Auth

open Lib Lib.Fallible

/-- Canonical order keeps what is found under each key. -/
lemma lookup_canon {fs es : List (String × Value)} (h : (Value.map fs).DistinctKeys)
    (hes : (Value.map fs).canon = .map es) (k : String) :
    lookup k es = (lookup k fs).map Value.canon := by
  have hcanon := h.canonical_canon
  rw [hes] at hcanon
  cases h with
  | map hkeys _ => exact (canon_map_eq_iff_lookup hkeys hcanon).mp hes k

/-! ### Keys and signatures -/

lemma classicalAlg_tag (a : ClassicalAlg) : ClassicalAlg.fromTag a.tag = .ok a := by
  cases a <;> decide

lemma pqAlg_tag (a : PqAlg) : PqAlg.fromTag a.tag = .ok a := by
  cases a <;> decide

/-- An algorithm tag and bytes are read back, whichever of the two comes first. -/
lemma readTagged_canon_tagged {α : Type} {fromTag : String → Except AuthError α}
    {tag : α → String} (htag : ∀ a, fromTag (tag a) = .ok a) {field : String}
    (hfield : field ≠ "alg") (a : α) (b : Bytes) :
    readTagged fromTag field (Value.map (taggedEntries field (tag a) b)).canon = .ok (a, b) := by
  have hdistinct : (Value.map (taggedEntries field (tag a) b)).DistinctKeys :=
    taggedEntries_distinctKeys hfield b
  have hmap := canon_map (taggedEntries field (tag a) b)
  have halg := lookup_canon hdistinct hmap "alg"
  have hbytes := lookup_canon hdistinct hmap field
  rw [hmap]
  simp only [taggedEntries, lookup_cons, if_true, if_neg hfield.symm, Option.map_some,
    canon_text, canon_bytes] at halg hbytes
  simp only [readTagged, bind_eq_ok, get_map_eq_ok, asText_eq_ok, asBytes_eq_ok, pure_eq_ok]
  exact ⟨_, halg, _, rfl, a, htag a, _, hbytes, b, rfl, rfl⟩

lemma ClassicalPublicKey.fromValue_canon (k : ClassicalPublicKey) :
    fromValue k.toValue.canon = .ok k :=
  bind_eq_ok.mpr ⟨(k.alg, k.bytes), readTagged_canon_tagged classicalAlg_tag (by decide) _ _, rfl⟩

lemma ClassicalSignature.fromValue_canon (s : ClassicalSignature) :
    fromValue s.toValue.canon = .ok s :=
  bind_eq_ok.mpr ⟨(s.alg, s.bytes), readTagged_canon_tagged classicalAlg_tag (by decide) _ _, rfl⟩

lemma PqPublicKey.fromValue_canon (k : PqPublicKey) : fromValue k.toValue.canon = .ok k :=
  bind_eq_ok.mpr ⟨(k.alg, k.bytes), readTagged_canon_tagged pqAlg_tag (by decide) _ _, rfl⟩

lemma PqSignature.fromValue_canon (s : PqSignature) : fromValue s.toValue.canon = .ok s :=
  bind_eq_ok.mpr ⟨(s.alg, s.bytes), readTagged_canon_tagged pqAlg_tag (by decide) _ _, rfl⟩

/-! ### Signed messages -/

/-- The post-quantum pair is read back where a map has both of its halves, or neither. -/
lemma readPq_of_lookup {es : List (String × Value)} {pq : Option (PqPublicKey × PqSignature)}
    (hpub : lookup "pqpub" es = pq.map fun x => x.1.toValue.canon)
    (hsig : lookup "pqsig" es = pq.map fun x => x.2.toValue.canon) :
    readPq (.map es) = .ok pq := by
  unfold readPq
  rw [Value.getOpt, Value.getOpt, hpub, hsig]
  rcases pq with _ | ⟨pk, sg⟩
  · rfl
  · simp only [Option.map_some, ok_bind, PqPublicKey.fromValue_canon, PqSignature.fromValue_canon]
    rfl

section Signed

variable {field : String} (hfield : field ∉ ["pub", "sig", "pqpub", "pqsig"])

include hfield

/-- The parts of a signed message are read back from its map in canonical order. -/
lemma readSigned_canon (body : Bytes) (pub : ClassicalPublicKey) (sig : ClassicalSignature)
    (pq : Option (PqPublicKey × PqSignature)) :
    readSigned field (Value.map (signedEntries field body pub sig pq)).canon =
      .ok (body, pub, sig, pq) := by
  have hlookup := lookup_canon (signedEntries_distinctKeys hfield body pub sig pq) (canon_map _)
  rw [canon_map]
  simp only [List.mem_cons, List.not_mem_nil, or_false, not_or] at hfield
  obtain ⟨hf₁, hf₂, hf₃, hf₄⟩ := hfield
  -- what each of the five names finds among the entries, in the order they are written
  have hbody := hlookup field
  have hpub := hlookup "pub"
  have hsig := hlookup "sig"
  have hpq : readPq _ = .ok pq := readPq_of_lookup
    ((hlookup "pqpub").trans (by cases pq <;> simp [signedEntries, pqEntries, lookup_cons, hf₃]))
    ((hlookup "pqsig").trans (by cases pq <;> simp [signedEntries, pqEntries, lookup_cons, hf₄]))
  simp only [signedEntries, List.cons_append, lookup_cons, hf₁, hf₂, reduceIte, Option.map_some,
    canon_bytes] at hbody hpub hsig
  simp only [readSigned, bind_eq_ok, get_map_eq_ok, asBytes_eq_ok, pure_eq_ok]
  exact ⟨_, hbody, _, rfl, _, hpub, pub, pub.fromValue_canon, _, hsig, sig, sig.fromValue_canon,
    pq, hpq, rfl⟩

end Signed

/-- The bytes are those of a map that has one half of the post-quantum pair without the other. -/
def carriesHalfPq (b : Bytes) : Bool :=
  match Value.fromBytes b with
  | .ok (.map es) => (lookup "pqpub" es).isSome != (lookup "pqsig" es).isSome
  | _ => false

/-- A signed message is read from both halves or neither. -/
lemma not_carriesHalfPq {field : String} {b : Bytes} {v : Value} (hv : Value.fromBytes b = .ok v)
    {x : Bytes × ClassicalPublicKey × ClassicalSignature × Option (PqPublicKey × PqSignature)}
    (h : readSigned field v = .ok x) : carriesHalfPq b = false := by
  obtain ⟨w, hw, -⟩ := bind_eq_ok.mp h
  obtain ⟨es, rfl⟩ := map_of_get hw
  obtain ⟨body, pub, sig, pq⟩ := x
  have hpq := (readSigned_eq_ok h).2.1
  rw [carriesHalfPq, hv]
  rcases readPq_eq_ok hpq with ⟨hpub, hsig, -⟩ | ⟨_, _, _, _, hpub, hsig, -, -, -⟩
  · simp [hpub, hsig]
  · simp [hpub, hsig]

/-! ### Messages -/

lemma Response.fromBytes_toBytes {r : Response} (hfit : r.toBytes.length < 2 ^ 64) :
    fromBytes r.toBytes = .ok r :=
  bind_eq_ok.mpr ⟨_, Value.fromBytes_toBytes r.toValue_distinctKeys hfit,
    bind_eq_ok.mpr ⟨_, readSigned_canon (by decide) _ _ _ _, rfl⟩⟩

lemma NodeAttestation.fromBytes_toBytes {a : NodeAttestation} (hfit : a.toBytes.length < 2 ^ 64) :
    fromBytes a.toBytes = .ok a :=
  bind_eq_ok.mpr ⟨_, Value.fromBytes_toBytes a.toValue_distinctKeys hfit,
    bind_eq_ok.mpr ⟨_, readSigned_canon (by decide) _ _ _ _, rfl⟩⟩

/-- **Messages survive the wire.**  Every challenge, response and node attestation is decoded
from its own bytes, and no response or node attestation is decoded from bytes that carry one half
of a post-quantum pair. -/
theorem messages_survive_wire :
    (∀ c : Challenge, c.toBytes.length < 2 ^ 64 → Challenge.fromBytes c.toBytes = .ok c) ∧
    (∀ r : Response, r.toBytes.length < 2 ^ 64 → Response.fromBytes r.toBytes = .ok r) ∧
    (∀ a : NodeAttestation, a.toBytes.length < 2 ^ 64 →
      NodeAttestation.fromBytes a.toBytes = .ok a) ∧
    ∀ b : Bytes, carriesHalfPq b = true →
      (∀ r, Response.fromBytes b ≠ .ok r) ∧ ∀ a, NodeAttestation.fromBytes b ≠ .ok a := by
  refine ⟨fun _ => Challenge.fromBytes_toBytes, fun _ => Response.fromBytes_toBytes,
    fun _ => NodeAttestation.fromBytes_toBytes, fun b hhalf => ⟨fun r h => ?_, fun a h => ?_⟩⟩
  · obtain ⟨v, hv, h⟩ := bind_eq_ok.mp h
    obtain ⟨x, hx, -⟩ := bind_eq_ok.mp h
    exact absurd hhalf (by simp [not_carriesHalfPq hv hx])
  · obtain ⟨v, hv, h⟩ := bind_eq_ok.mp h
    obtain ⟨x, hx, -⟩ := bind_eq_ok.mp h
    exact absurd hhalf (by simp [not_carriesHalfPq hv hx])

/-- A response with a post-quantum pair, and the same with its post-quantum signature alone. -/
theorem messages_survive_wire_pq :
    Response.fromBytes ({ sampleResponse with
      pq := some (⟨.mlDsa65, [4]⟩, ⟨.mlDsa65, [5]⟩) } : Response).toBytes =
        .ok { sampleResponse with pq := some (⟨.mlDsa65, [4]⟩, ⟨.mlDsa65, [5]⟩) } ∧
    ∀ r, Response.fromBytes (Value.map (signedEntries "chal" [] sampleKey sampleSignature none ++
      [("pqsig", (⟨.mlDsa65, [5]⟩ : PqSignature).toValue)])).toBytes ≠ .ok r :=
  ⟨messages_survive_wire.2.1 _ (by decide +kernel),
    (messages_survive_wire.2.2.2 _ (by decide +kernel)).1⟩

end Identikey.Auth
