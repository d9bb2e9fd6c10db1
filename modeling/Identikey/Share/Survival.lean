/-
Which shares survive the wire.

Every operation leaves a share well formed, so that it can be written and parsed; and it
leaves the backends of the capsules alone.  A backend comes back in normalisation form C.
-/
import Identikey.Share.Operations

set_option linter.dupNamespace false

namespace Identikey.Share

open Lib Lib.Fallible Auth Dcbor

variable (curves : Curves) (aead : Aead) (blake3 : Bytes → Digest32) (host : Host)

/-- A share that was sealed with capsules for the given recipients, to targets and capsule
recipients that their constructors made, and then changed by any operations.  `seal` is
`seal_mixed` without capsules. -/
inductive Built (capsules : List RecryptPublic) : Share → Prop where
  | sealMixed {s : Share} {plaintext : Bytes} {recipients : List WrapPublic} {kem : RecryptKem}
      {epoch : UInt64} {coins : SealCoins curves} (hmade : ∀ t ∈ recipients, t.Made curves)
      (hnew : ∀ r ∈ capsules, RecryptPublic.new r.backend r.key = .ok r)
      (h : Share.sealMixed curves aead blake3 plaintext recipients capsules kem epoch coins =
        .ok s) : Built capsules s
  | addRecipient {s s' : Share} {opener : WrapSecret} {t : WrapPublic} {coins : WrapCoins curves}
      (hs : Built capsules s) (hmade : t.Made curves)
      (h : s.addRecipient curves aead blake3 opener t coins = .ok s') : Built capsules s'
  | rotate {s s' : Share} {opener : WrapSecret} {recipients : List WrapPublic} {epoch : UInt64}
      {coins : WrapPublic → WrapCoins curves} (hs : Built capsules s)
      (hmade : ∀ t ∈ recipients, t.Made curves)
      (h : s.rotate curves aead blake3 opener recipients epoch coins = .ok s') : Built capsules s'
  | transformRecrypt {s s' : Share} {backend : String} {source transformKey : Bytes}
      {target : RecryptPublic} {kem : RecryptKem} (hs : Built capsules s)
      (hnew : RecryptPublic.new target.backend target.key = .ok target)
      (h : s.transformRecrypt backend source target transformKey kem = .ok s') : Built capsules s'

/-- `to_cbor`, and `from_cbor` of what it gives. -/
def Share.overWire (s : Share) : Except ShareError Share := do
  Share.fromCbor curves host (← s.toCbor host)

variable {curves aead blake3 host} {capsules : List RecryptPublic} {s : Share}

lemma built_wellFormed (h : Built curves aead blake3 capsules s) : s.WellFormed curves := by
  induction h with
  | sealMixed hmade hnew h => exact wellFormed_of_sealMixed hmade hnew h
  | addRecipient _ hmade h ih => exact wellFormed_of_addRecipient ih hmade h
  | rotate _ hmade h _ => exact wellFormed_of_rotate hmade h
  | transformRecrypt _ hnew h ih => exact wellFormed_of_transformRecrypt ih hnew h

/-- The backends of the capsules are those the share was sealed with. -/
lemma built_backends (h : Built curves aead blake3 capsules s) :
    s.recrypt.map RecryptCapsule.backend = capsules.map RecryptPublic.backend := by
  induction h with
  | sealMixed hmade hnew h =>
    obtain ⟨-, -, -, c, ws, cs, -, -, hcs, rfl⟩ := sealMixed_eq_ok.mp h
    refine (map_eq_of_forall₂ (mapM_eq_ok.mp hcs) fun r c hc => ?_).symm
    exact (encapsulateTo_eq_ok.mp hc).2.2.1.symm
  | addRecipient _ hmade h ih =>
    obtain ⟨-, enc, dek, w, -, -, -, -, rfl⟩ := addRecipient_eq_ok.mp h
    exact ih
  | rotate _ hmade h ih =>
    obtain ⟨hnil, -, -, dek, ws, -, -, rfl⟩ := rotate_eq_ok.mp h
    rwa [hnil] at ih
  | transformRecrypt _ hnew h ih =>
    obtain ⟨-, -, before, c, after, ct, heq, -, hbackend, -, -, -, rfl⟩ :=
      transformRecrypt_eq_ok.mp h
    rw [heq] at ih
    rw [← ih, List.map_append, List.map_append, List.map_cons, List.map_cons, hbackend]

lemma overWire_eq (h : s.WellFormed curves) (hfit : s.Fits host) :
    s.overWire curves host = .ok (s.normal host) := by
  rw [Share.overWire, Share.toCbor_eq h hfit.parts, ok_bind]
  exact Share.fromCbor_toCborData h hfit

/-- **A share survives the wire if and only if its backends are in normalisation form C.**  It comes
back the same, and opens to the same results, exactly when every recipient of a capsule it
was sealed with has such a backend. -/
theorem survives_iff (hbuilt : Built curves aead blake3 capsules s) (hfit : s.Fits host) :
    (s.overWire curves host = .ok s ∧ ∀ s', s.overWire curves host = .ok s' →
      (∀ secret, s'.open curves aead blake3 secret = s.open curves aead blake3 secret) ∧
      ∀ backend recipient secret kem, s'.openRecrypt aead backend recipient secret kem =
        s.openRecrypt aead backend recipient secret kem) ↔
      ∀ r ∈ capsules, host.nfc r.backend = r.backend := by
  have hwire := overWire_eq (built_wellFormed hbuilt) hfit
  have hbackends : (∀ c ∈ s.recrypt, host.nfc c.backend = c.backend) ↔
      ∀ r ∈ capsules, host.nfc r.backend = r.backend := by
    rw [← List.forall_mem_map (P := fun x => host.nfc x = x), built_backends hbuilt,
      List.forall_mem_map]
  rw [← hbackends, ← Share.normal_eq_iff]
  constructor
  · rintro ⟨hsame, -⟩
    rw [hwire, Except.ok.injEq] at hsame
    exact hsame
  · intro hnormal
    rw [hnormal] at hwire
    refine ⟨hwire, fun s' hs' => ?_⟩
    rw [hwire, Except.ok.injEq] at hs'
    subst hs'
    exact ⟨fun _ => rfl, fun _ _ _ _ => rfl⟩

/-- A backend that hides nothing. -/
def sampleKem : RecryptKem :=
  { encapsulate := fun _ _ dek => .ok dek.val,
    decapsulate := fun _ _ c => okOr .recrypt (toArray 32 c), transform := fun _ _ c => .ok c }

/-- A share with one capsule, for a backend of the given name. -/
def capsuleShare (backend : String) : Share :=
  { epoch := 0, nonce := fill 24 2, ciphertext := [1, 2, 3] ++ Aead.clearTag,
    wraps := [], targets := [],
    recrypt := [{ backend, recipient := [1], ciphertext := List.replicate 32 7 }] }

lemma capsuleShare_built {backend : String} (hne : backend ≠ "") :
    Built sampleCurves Aead.clear sampleHash [{ backend, key := [1] }]
      (capsuleShare backend) := by
  have hnew : ∀ r ∈ [({ backend, key := [1] } : RecryptPublic)],
      RecryptPublic.new r.backend r.key = .ok r := by
    intro r hr
    obtain rfl := List.mem_singleton.mp hr
    exact bind_eq_ok.mpr ⟨(), ensure_eq_ok.mpr (by simpa using hne), rfl⟩
  have hseal : Share.sealMixed sampleCurves Aead.clear sampleHash [1, 2, 3] []
      [{ backend, key := [1] }] sampleKem 0 sampleSealCoins = .ok (capsuleShare backend) :=
    sealMixed_eq_ok.mpr ⟨by simp, rfl, rfl, _, [], _, rfl, rfl, rfl, rfl⟩
  exact .sealMixed (by simp) hnew hseal

/-- The capsule of a backend with an ASCII name comes back as it was. -/
theorem survives_iff_lattice :
    (capsuleShare "lattice-bfv").overWire sampleCurves Host.plain =
      .ok (capsuleShare "lattice-bfv") := by
  have hbuilt := @capsuleShare_built "lattice-bfv" (by decide)
  have hfit : (capsuleShare "lattice-bfv").Fits Host.plain := by decide +kernel
  exact ((survives_iff hbuilt hfit).mpr fun _ _ => rfl).1

/-- The backend `"e\u0301"` comes back as `"\u00e9"`. -/
theorem survives_not_always :
    ¬ ∀ (curves : Curves) (aead : Aead) (blake3 : Bytes → Digest32) (host : Host)
      (capsules : List RecryptPublic) (s : Share), Built curves aead blake3 capsules s →
        s.Fits host → s.overWire curves host = .ok s := by
  intro h
  have hbuilt := @capsuleShare_built "e\u0301" (by decide)
  have hfit : (capsuleShare "e\u0301").Fits Host.composing := by decide +kernel
  have hsame := h _ _ _ _ _ _ hbuilt hfit
  rw [overWire_eq (built_wellFormed hbuilt) hfit, Except.ok.injEq, Share.normal_eq_iff] at hsame
  exact absurd (hsame _ (List.mem_singleton_self _)) (by decide)

end Identikey.Share
