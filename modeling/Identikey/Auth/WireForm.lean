/-
One wire form for each message.

`from_bytes` of a challenge, a response or a node attestation looks its fields
up by name and does not look at what else a map holds, at the top level or in
the maps of keys and signatures.  A message is written back as it was received
exactly when none of these maps holds a key beyond the named ones.
-/
import Identikey.Auth.CborFields
import Identikey.Auth.Challenge
import Identikey.Auth.Attestation

namespace Identikey.Auth

open Lib Lib.Fallible

/-! ### Keys and signatures -/

lemma ClassicalPublicKey.toValue_canon_eq_iff {v : Value} (hv : v.Canonical)
    {k : ClassicalPublicKey} (h : fromValue v = .ok k) :
    k.toValue.canon = v ↔ v.keysWithin ["alg", "key"] = true := by
  obtain ⟨x, hx, h⟩ := bind_eq_ok.mp h
  obtain rfl := pure_eq_ok.mp h
  exact readTagged_canon (fun _ _ => classicalAlg_fromTag) (by decide) hv hx

lemma ClassicalSignature.toValue_canon_eq_iff {v : Value} (hv : v.Canonical)
    {s : ClassicalSignature} (h : fromValue v = .ok s) :
    s.toValue.canon = v ↔ v.keysWithin ["alg", "sig"] = true := by
  obtain ⟨x, hx, h⟩ := bind_eq_ok.mp h
  obtain rfl := pure_eq_ok.mp h
  exact readTagged_canon (fun _ _ => classicalAlg_fromTag) (by decide) hv hx

lemma PqPublicKey.toValue_canon_eq_iff {v : Value} (hv : v.Canonical)
    {k : PqPublicKey} (h : fromValue v = .ok k) :
    k.toValue.canon = v ↔ v.keysWithin ["alg", "key"] = true := by
  obtain ⟨x, hx, h⟩ := bind_eq_ok.mp h
  obtain rfl := pure_eq_ok.mp h
  exact readTagged_canon (fun _ _ => pqAlg_fromTag) (by decide) hv hx

lemma PqSignature.toValue_canon_eq_iff {v : Value} (hv : v.Canonical)
    {s : PqSignature} (h : fromValue v = .ok s) :
    s.toValue.canon = v ↔ v.keysWithin ["alg", "sig"] = true := by
  obtain ⟨x, hx, h⟩ := bind_eq_ok.mp h
  obtain rfl := pure_eq_ok.mp h
  exact readTagged_canon (fun _ _ => pqAlg_fromTag) (by decide) hv hx

lemma taggedEntries_distinctKeys {field tag : String} (hfield : field ≠ "alg") (b : Bytes) :
    (Value.map (taggedEntries field tag b)).DistinctKeys := by
  refine .map (by simp [taggedEntries, hfield.symm]) fun e he => ?_
  rcases List.mem_pair.mp he with rfl | rfl
  · exact .text tag
  · exact .bytes b

/-! ### Challenges -/

/-- The value is a map of no keys beyond those of a challenge. -/
def Challenge.knownKeysOnly (v : Value) : Bool := v.keysWithin ["v", "aud", "nonce", "iat", "exp"]

lemma Challenge.toValue_distinctKeys (c : Challenge) : c.toValue.DistinctKeys := by
  refine .map (by simp [entries]) fun e he => ?_
  simp only [entries, List.mem_cons, List.not_mem_nil, or_false] at he
  rcases he with rfl | rfl | rfl | rfl | rfl
  · exact .uint _
  · exact .text _
  · exact .bytes _
  · exact .uint _
  · exact .uint _

/-- What a decoded challenge says about the map it was read from. -/
lemma Challenge.fromValue_eq_ok {es : List (String × Value)} {c : Challenge} :
    fromValue (.map es) = .ok c ↔ lookup "v" es = some (.uint c.version) ∧
      lookup "aud" es = some (.text c.audience) ∧ lookup "nonce" es = some (.bytes c.nonce) ∧
      lookup "iat" es = some (.uint c.issuedAt) ∧ lookup "exp" es = some (.uint c.expiresAt) := by
  simp only [fromValue, bind_eq_ok, get_map_eq_ok, asUint_eq_ok, asText_eq_ok, asBytes_eq_ok,
    pure_eq_ok]
  constructor
  · rintro ⟨_, h₁, _, rfl, _, h₂, _, rfl, _, h₃, _, rfl, _, h₄, _, rfl, _, h₅, _, rfl, rfl⟩
    exact ⟨h₁, h₂, h₃, h₄, h₅⟩
  · rintro ⟨h₁, h₂, h₃, h₄, h₅⟩
    exact ⟨_, h₁, _, rfl, _, h₂, _, rfl, _, h₃, _, rfl, _, h₄, _, rfl, _, h₅, _, rfl, rfl⟩

lemma Challenge.map_of_fromValue {v : Value} {c : Challenge} (h : fromValue v = .ok c) :
    ∃ es, v = .map es := by
  obtain ⟨x, hx, -⟩ := bind_eq_ok.mp h
  exact map_of_get hx

lemma Challenge.toValue_canon_eq_iff {v : Value} {c : Challenge} (hv : v.Canonical)
    (h : fromValue v = .ok c) : c.toValue.canon = v ↔ knownKeysOnly v = true := by
  obtain ⟨es, rfl⟩ := map_of_fromValue h
  obtain ⟨hversion, haud, hnonce, hiat, hexp⟩ := fromValue_eq_ok.mp h
  rw [toValue, canon_map_eq_iff ["v", "aud", "nonce", "iat", "exp"]
    (by simp [entries]) (by simp [entries]) hv, knownKeysOnly, and_iff_left]
  simp [entries, lookup_cons, hversion, haud, hnonce, hiat, hexp]

/-- A challenge is read from its own map in canonical order. -/
lemma Challenge.fromValue_canon (c : Challenge) : fromValue c.toValue.canon = .ok c := by
  have hcanon := c.toValue_distinctKeys.canonical_canon
  have hmap : c.toValue.canon = .map _ := canon_map c.entries
  rw [hmap] at hcanon ⊢
  have hfields := (canon_map_eq_iff ["v", "aud", "nonce", "iat", "exp"] (by simp [entries])
    (by simp [entries]) hcanon).mp hmap
  rw [fromValue_eq_ok]
  simpa [entries, lookup_cons] using hfields.2

/-- The bytes of a challenge decode to it. -/
lemma Challenge.fromBytes_toBytes {c : Challenge} (hfit : c.toBytes.length < 2 ^ 64) :
    fromBytes c.toBytes = .ok c :=
  bind_eq_ok.mpr ⟨_, Value.fromBytes_toBytes c.toValue_distinctKeys hfit, c.fromValue_canon⟩

/-! ### Signed messages -/

/-- Where the map has the key, its value is a map of keys within `allowed`. -/
def Value.fieldWithin (key : String) (allowed : List String) : Value → Bool
  | .map es => (lookup key es).all (Value.keysWithin allowed)
  | _ => false

/-- The value is a map of no keys beyond those of a signed message with its body under `field`,
nor do its keys and signatures have further ones. -/
def signedKeysOnly (field : String) (v : Value) : Bool :=
  v.keysWithin [field, "pub", "sig", "pqpub", "pqsig"] &&
    v.fieldWithin "pub" ["alg", "key"] && v.fieldWithin "sig" ["alg", "sig"] &&
    v.fieldWithin "pqpub" ["alg", "key"] && v.fieldWithin "pqsig" ["alg", "sig"]

lemma readPq_eq_ok {es : List (String × Value)} {pq : Option (PqPublicKey × PqSignature)}
    (h : readPq (.map es) = .ok pq) :
    (lookup "pqpub" es = none ∧ lookup "pqsig" es = none ∧ pq = none) ∨
      ∃ v w pk sg, lookup "pqpub" es = some v ∧ lookup "pqsig" es = some w ∧
        PqPublicKey.fromValue v = .ok pk ∧ PqSignature.fromValue w = .ok sg ∧
        pq = some (pk, sg) := by
  simp only [readPq, Value.getOpt, bind_eq_ok] at h
  obtain ⟨a, ha, b, hb, h⟩ := h
  obtain rfl := Except.ok.inj ha
  obtain rfl := Except.ok.inj hb
  cases hpk : lookup "pqpub" es with
  | none =>
    cases hsg : lookup "pqsig" es with
    | none =>
      simp only [hpk, hsg, pure_eq_ok] at h
      exact .inl ⟨rfl, rfl, h.symm⟩
    | some w =>
      simp only [hpk, hsg] at h
      exact absurd h throw_ne_ok
  | some v =>
    cases hsg : lookup "pqsig" es with
    | none =>
      simp only [hpk, hsg] at h
      exact absurd h throw_ne_ok
    | some w =>
      simp only [hpk, hsg, bind_eq_ok, pure_eq_ok] at h
      obtain ⟨pk, hpk', sg, hsg', rfl⟩ := h
      exact .inr ⟨v, w, pk, sg, rfl, rfl, hpk', hsg', rfl⟩

/-- What a decoded signed message says about the map it was read from. -/
lemma readSigned_eq_ok {field : String} {es : List (String × Value)} {body : Bytes}
    {pub : ClassicalPublicKey} {sig : ClassicalSignature}
    {pq : Option (PqPublicKey × PqSignature)}
    (h : readSigned field (.map es) = .ok (body, pub, sig, pq)) :
    lookup field es = some (.bytes body) ∧ readPq (.map es) = .ok pq ∧
      (∃ v, lookup "pub" es = some v ∧ ClassicalPublicKey.fromValue v = .ok pub) ∧
      ∃ v, lookup "sig" es = some v ∧ ClassicalSignature.fromValue v = .ok sig := by
  simp only [readSigned, bind_eq_ok, get_map_eq_ok, asBytes_eq_ok, pure_eq_ok,
    Prod.mk.injEq] at h
  obtain ⟨_, hbody, _, rfl, v, hlp, _, hpub, w, hls, _, hsig, _, hpq, rfl, rfl, rfl, rfl⟩ := h
  exact ⟨hbody, hpq, ⟨v, hlp, hpub⟩, w, hls, hsig⟩

lemma pqEntries_distinctKeys {pq : Option (PqPublicKey × PqSignature)} :
    ∀ e ∈ pqEntries pq, e.2.DistinctKeys := by
  intro e he
  cases pq with
  | none => cases he
  | some x =>
    rcases List.mem_pair.mp he with rfl | rfl
    · exact taggedEntries_distinctKeys (by decide) _
    · exact taggedEntries_distinctKeys (by decide) _

section Signed

variable {field : String} (hfield : field ∉ ["pub", "sig", "pqpub", "pqsig"])

include hfield

lemma signedEntries_nodup (body : Bytes) (pub : ClassicalPublicKey) (sig : ClassicalSignature)
    (pq : Option (PqPublicKey × PqSignature)) :
    ((signedEntries field body pub sig pq).map Prod.fst).Nodup := by
  simp only [List.mem_cons, List.not_mem_nil, or_false, not_or] at hfield
  cases pq <;> simp [signedEntries, pqEntries, hfield]

lemma signedEntries_distinctKeys (body : Bytes) (pub : ClassicalPublicKey)
    (sig : ClassicalSignature) (pq : Option (PqPublicKey × PqSignature)) :
    (Value.map (signedEntries field body pub sig pq)).DistinctKeys := by
  refine .map (signedEntries_nodup hfield body pub sig pq) fun e he => ?_
  rcases List.mem_append.mp he with hsigned | hpq
  · simp only [List.mem_cons, List.not_mem_nil, or_false] at hsigned
    rcases hsigned with rfl | rfl | rfl
    · exact .bytes _
    · exact taggedEntries_distinctKeys (by decide) _
    · exact taggedEntries_distinctKeys (by decide) _
  · exact pqEntries_distinctKeys e hpq

/-- A signed message is written back as it was read exactly when no map in it holds a key
beyond the named ones. -/
lemma signedEntries_canon_eq_iff {v : Value} (hv : v.Canonical) {body : Bytes}
    {pub : ClassicalPublicKey} {sig : ClassicalSignature}
    {pq : Option (PqPublicKey × PqSignature)}
    (h : readSigned field v = .ok (body, pub, sig, pq)) :
    (Value.map (signedEntries field body pub sig pq)).canon = v ↔
      signedKeysOnly field v = true := by
  obtain ⟨x, hx, -⟩ := bind_eq_ok.mp h
  obtain ⟨es, rfl⟩ := map_of_get hx
  obtain ⟨hlb, hpq, ⟨vp, hlp, hpub⟩, vs, hls, hsig⟩ := readSigned_eq_ok h
  have hpubcanon := ClassicalPublicKey.toValue_canon_eq_iff (canonical_of_lookup hv hlp) hpub
  have hsigcanon := ClassicalSignature.toValue_canon_eq_iff (canonical_of_lookup hv hls) hsig
  have hnodup := signedEntries_nodup hfield body pub sig pq
  have hwithin : ∀ k ∈ (signedEntries field body pub sig pq).map Prod.fst,
      k ∈ [field, "pub", "sig", "pqpub", "pqsig"] := by
    cases pq <;> simp [signedEntries, pqEntries]
  rw [canon_map_eq_iff [field, "pub", "sig", "pqpub", "pqsig"] hnodup hwithin hv]
  simp only [List.mem_cons, List.not_mem_nil, or_false, not_or] at hfield
  obtain ⟨hf₁, hf₂, hf₃, hf₄⟩ := hfield
  -- the maps of `pub` and `sig` are there, those of the post-quantum pair may be missing
  have hkeys : signedKeysOnly field (.map es) = true ↔
      (Value.map es).keysWithin [field, "pub", "sig", "pqpub", "pqsig"] = true ∧
        vp.keysWithin ["alg", "key"] = true ∧ vs.keysWithin ["alg", "sig"] = true ∧
        (Value.map es).fieldWithin "pqpub" ["alg", "key"] = true ∧
        (Value.map es).fieldWithin "pqsig" ["alg", "sig"] = true := by
    simp [signedKeysOnly, Value.fieldWithin, hlp, hls, and_assoc]
  -- each nested condition is that the map in it is written back as it was read
  rw [hkeys, ← hpubcanon, ← hsigcanon, eq_comm (b := vp), eq_comm (b := vs)]
  refine and_congr_right fun _ => ?_
  rcases readPq_eq_ok hpq with ⟨hlpk, hlsg, rfl⟩ | ⟨vpk, vsg, pk, sg, hlpk, hlsg, hpk, hsg, rfl⟩
  · simp [Value.fieldWithin, signedEntries, pqEntries, lookup_cons, hf₁, hf₂, hf₃, hf₄, hlb, hlp,
      hls, hlpk, hlsg]
  · have hpkcanon := PqPublicKey.toValue_canon_eq_iff (canonical_of_lookup hv hlpk) hpk
    have hsgcanon := PqSignature.toValue_canon_eq_iff (canonical_of_lookup hv hlsg) hsg
    simp [Value.fieldWithin, signedEntries, pqEntries, lookup_cons, hf₁, hf₂, hf₃, hf₄, hlb, hlp,
      hls, hlpk, hlsg, ← hpkcanon, ← hsgcanon, eq_comm (b := vpk),
      eq_comm (b := vsg)]

end Signed

/-! ### From bytes -/

/-- The bytes decode to a value that `known` accepts. -/
def decodesWithin (known : Value → Bool) (b : Bytes) : Bool :=
  match Value.fromBytes b with
  | .ok v => known v
  | .error _ => false

section Messages

variable {α : Type} {toValue : α → Value} {fromValue : Value → Except AuthError α}
  {known : Value → Bool} (hdistinct : ∀ x, (toValue x).DistinctKeys)
  (hcanon : ∀ {v : Value} {x : α}, v.Canonical → fromValue v = .ok x →
    ((toValue x).canon = v ↔ known v = true))

include hdistinct hcanon

/-- A message of which `known` tells the maps that are written back as they were read is encoded
to the bytes it was read from exactly when `known` accepts these. -/
lemma toBytes_eq_iff_decodesWithin {b : Bytes} {x : α}
    (h : (do fromValue (← Value.fromBytes b)) = .ok x) :
    (toValue x).toBytes = b ↔ decodesWithin known b = true := by
  obtain ⟨v, hv, hx⟩ := bind_eq_ok.mp h
  rw [decodesWithin, hv, Value.toBytes_eq_iff hv (hdistinct x)]
  exact hcanon (Value.fromBytes_sound hv).2.1 hx

/-- The two ways to say that there is one wire form: what is read is written back as it was, and
two byte strings for one message are equal. -/
lemma wire_form_of_canon {b b' : Bytes} {x : α}
    (h : (do fromValue (← Value.fromBytes b)) = .ok x) :
    ((toValue x).toBytes = b ↔ decodesWithin known b = true) ∧
      ((do fromValue (← Value.fromBytes b')) = .ok x → decodesWithin known b = true →
        (b = b' ↔ decodesWithin known b' = true)) := by
  have hexact := @toBytes_eq_iff_decodesWithin _ _ _ _ hdistinct hcanon
  refine ⟨hexact h, fun h' hknown => ?_⟩
  constructor
  · rintro rfl
    exact hknown
  · intro hknown'
    calc b = (toValue x).toBytes := ((hexact h).mpr hknown).symm
      _ = b' := (hexact h').mpr hknown'

end Messages

lemma Response.toValue_distinctKeys (r : Response) : r.toValue.DistinctKeys :=
  signedEntries_distinctKeys (by decide) _ _ _ _

lemma Response.toValue_canon_eq_iff {v : Value} {r : Response} (hv : v.Canonical)
    (h : fromValue v = .ok r) : r.toValue.canon = v ↔ signedKeysOnly "chal" v = true := by
  obtain ⟨⟨body, pub, sig, pq⟩, hread, h⟩ := bind_eq_ok.mp h
  obtain rfl := pure_eq_ok.mp h
  exact signedEntries_canon_eq_iff (by decide) hv hread

lemma NodeAttestation.toValue_distinctKeys (a : NodeAttestation) : a.toValue.DistinctKeys :=
  signedEntries_distinctKeys (by decide) _ _ _ _

lemma NodeAttestation.toValue_canon_eq_iff {v : Value} {a : NodeAttestation} (hv : v.Canonical)
    (h : fromValue v = .ok a) : a.toValue.canon = v ↔ signedKeysOnly "node" v = true := by
  obtain ⟨⟨body, pub, sig, pq⟩, hread, h⟩ := bind_eq_ok.mp h
  obtain rfl := pure_eq_ok.mp h
  exact signedEntries_canon_eq_iff (by decide) hv hread

/-- **One wire form, as far as the named keys go.**  An accepted byte string is the encoding of
the message it decodes to exactly when none of its maps holds a key that `from_bytes` does not
look up; and it is then the only such byte string for this message. -/
theorem wire_form_iff_known_keys (b b' : Bytes) :
    (∀ c : Challenge, Challenge.fromBytes b = .ok c →
      (c.toBytes = b ↔ decodesWithin Challenge.knownKeysOnly b = true) ∧
      (Challenge.fromBytes b' = .ok c → decodesWithin Challenge.knownKeysOnly b = true →
        (b = b' ↔ decodesWithin Challenge.knownKeysOnly b' = true))) ∧
    (∀ r : Response, Response.fromBytes b = .ok r →
      (r.toBytes = b ↔ decodesWithin (signedKeysOnly "chal") b = true) ∧
      (Response.fromBytes b' = .ok r → decodesWithin (signedKeysOnly "chal") b = true →
        (b = b' ↔ decodesWithin (signedKeysOnly "chal") b' = true))) ∧
    ∀ a : NodeAttestation, NodeAttestation.fromBytes b = .ok a →
      (a.toBytes = b ↔ decodesWithin (signedKeysOnly "node") b = true) ∧
      (NodeAttestation.fromBytes b' = .ok a → decodesWithin (signedKeysOnly "node") b = true →
        (b = b' ↔ decodesWithin (signedKeysOnly "node") b' = true)) := by
  refine ⟨fun c h => ?_, fun r h => ?_, fun a h => ?_⟩
  · exact wire_form_of_canon Challenge.toValue_distinctKeys Challenge.toValue_canon_eq_iff h
  · exact wire_form_of_canon Response.toValue_distinctKeys Response.toValue_canon_eq_iff h
  · exact wire_form_of_canon NodeAttestation.toValue_distinctKeys
      NodeAttestation.toValue_canon_eq_iff h

/-! ### Second forms -/

def sampleSignature : ClassicalSignature := { alg := .ed25519, bytes := List.replicate 64 2 }

def sampleResponse : Response :=
  { challengeBytes := sampleChallenge.toBytes, publicKey := sampleKey,
    signature := sampleSignature, pq := none }

def sampleAttestation : NodeAttestation :=
  { nodeId := [3], publicKey := sampleKey, signature := sampleSignature, pq := none }

/-- The map `es` with one key more, which no message has. -/
def padded (es : List (String × Value)) : Value := .map (es ++ [("x", .uint 0)])

def sampleResponseForm : Value :=
  .map [("chal", .bytes sampleChallenge.toBytes),
    ("pub", padded (taggedEntries "key" "ed25519" sampleKey.bytes)),
    ("sig", sampleSignature.toValue)]

def sampleAttestationForm : Value :=
  .map [("node", .bytes sampleAttestation.nodeId), ("pub", sampleKey.toValue),
    ("sig", padded (taggedEntries "sig" "ed25519" sampleSignature.bytes))]

/-- A challenge with a sixth key, a response whose public key and a node attestation whose
signature has a third one decode to the same messages as their own encodings. -/
theorem second_wire_forms :
    (Challenge.fromBytes sampleChallenge.toBytes = .ok sampleChallenge ∧
      Challenge.fromBytes (padded sampleChallenge.entries).toBytes = .ok sampleChallenge ∧
      (padded sampleChallenge.entries).toBytes ≠ sampleChallenge.toBytes) ∧
    (Response.fromBytes sampleResponse.toBytes = .ok sampleResponse ∧
      Response.fromBytes sampleResponseForm.toBytes = .ok sampleResponse ∧
      sampleResponseForm.toBytes ≠ sampleResponse.toBytes) ∧
    (NodeAttestation.fromBytes sampleAttestation.toBytes = .ok sampleAttestation ∧
      NodeAttestation.fromBytes sampleAttestationForm.toBytes = .ok sampleAttestation ∧
      sampleAttestationForm.toBytes ≠ sampleAttestation.toBytes) := by
  decide +kernel

/-- The challenge with a sixth key is not written back as it was read. -/
theorem padded_challenge_ne :
    sampleChallenge.toBytes ≠ (padded sampleChallenge.entries).toBytes := by
  intro h
  have hread : Challenge.fromBytes (padded sampleChallenge.entries).toBytes =
      .ok sampleChallenge := by decide +kernel
  have hknown := ((wire_form_iff_known_keys (padded sampleChallenge.entries).toBytes []).1
    sampleChallenge hread).1.mp h
  exact absurd hknown (by decide +kernel)

end Identikey.Auth
