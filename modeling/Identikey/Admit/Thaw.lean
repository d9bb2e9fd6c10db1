/-
The two ways to admit a thaw.

Both read the same attestation.  An envelope must also have version 1 or none, which the
shape check of a payload does not look at.
-/
import Identikey.Admit.Envelope

namespace Identikey.Admit

open Lib Lib.Fallible

variable {payload : Json} {vmId : String}

/-- A member of a value, if the value is an object that has it. -/
def Json.member (v : Json) (name : String) : Option Json := v.asObject.bind fun ms => ms.lookup name

/-- The value is an attestation. -/
structure IsAttestation (v : Json) (att : Attestation) : Prop where
  vmId : v.member "vm_id" = some (.string att.vmId)
  epoch : v.member "epoch" = some (.number (.posInt att.epoch))
  nonempty : att.vmId ≠ ""

/-- The payload has an attestation for the VM. -/
def Attests (payload : Json) (vmId : String) : Prop :=
  ∃ v att, payload.member "attestation" = some v ∧ IsAttestation v att ∧ att.vmId = vmId

/-- The payload has the version 1, or none. -/
def VersionOne (payload : Json) : Prop :=
  payload.member "version" = none ∨ payload.member "version" = some (.number (.posInt 1))

/-! ### The parsers -/

lemma asStr_eq_some {v : Json} {s : String} : v.asStr = some s ↔ v = .string s := by
  cases v <;> simp [Json.asStr]

lemma asU64_eq_some {n : Number} {k : UInt64} : n.asU64 = some k ↔ n = .posInt k := by
  cases n <;> simp [Number.asU64]

lemma readEpoch_eq_ok {obj : List (String × Json)} {epoch : UInt64} :
    Attestation.readEpoch obj = .ok epoch ↔
      obj.lookup "epoch" = some (.number (.posInt epoch)) := by
  unfold Attestation.readEpoch Json.find
  rcases obj.lookup "epoch" with _ | v
  · simp [throw_ne_ok]
  · cases v with
    | number n => simp [okOr_eq_ok, asU64_eq_some]
    | _ => simp [throw_ne_ok]

lemma attestation_fromValue_eq_ok {v : Json} {att : Attestation} :
    Attestation.fromValue v = .ok att ↔ IsAttestation v att := by
  unfold Attestation.fromValue Json.find
  simp only [bind_eq_ok, okOr_eq_ok, ensure_eq_ok, pure_eq_ok, readEpoch_eq_ok,
    Option.bind_eq_some_iff, asStr_eq_some]
  constructor
  · rintro ⟨obj, hobj, id, ⟨_, hid, rfl⟩, _, hne, epoch, hepoch, rfl⟩
    exact ⟨by rw [Json.member, hobj]; exact hid, by rw [Json.member, hobj]; exact hepoch, hne⟩
  · rintro ⟨hid, hepoch, hne⟩
    obtain ⟨obj, hobj, hid⟩ := Option.bind_eq_some_iff.mp hid
    rw [Json.member, hobj] at hepoch
    exact ⟨obj, hobj, _, ⟨_, hid, rfl⟩, (), hne, _, hepoch, rfl⟩

lemma fromPayload_eq_ok {att : Attestation} :
    Attestation.fromPayload payload = .ok att ↔
      ∃ v, payload.member "attestation" = some v ∧ IsAttestation v att := by
  unfold Attestation.fromPayload Json.find Json.member
  simp only [bind_eq_ok, okOr_eq_ok, attestation_fromValue_eq_ok, Option.bind_eq_some_iff]
  constructor
  · rintro ⟨obj, hobj, v, hv, hatt⟩
    exact ⟨v, ⟨obj, hobj, hv⟩, hatt⟩
  · rintro ⟨v, ⟨obj, hobj, hv⟩, hatt⟩
    exact ⟨obj, hobj, v, hv, hatt⟩

lemma readVersion_eq_ok {obj : List (String × Json)} {version : UInt32} :
    Envelope.readVersion obj = .ok version ↔ version = ENVELOPE_VERSION ∧
      (obj.lookup "version" = none ∨ obj.lookup "version" = some (.number (.posInt 1))) := by
  unfold Envelope.readVersion Json.find
  rcases obj.lookup "version" with _ | v
  · rw [pure_eq_ok]
    simp [eq_comm]
  · cases v with
    | number n =>
      simp only [bind_eq_ok, okOr_eq_ok, ensure_eq_ok, pure_eq_ok, asU64_eq_some]
      constructor
      · rintro ⟨_, rfl, _, rfl, rfl⟩
        exact ⟨rfl, .inr rfl⟩
      · rintro ⟨rfl, h | h⟩
        · cases h
        · obtain rfl := Json.number.inj (Option.some.inj h)
          exact ⟨1, rfl, (), rfl, rfl⟩
    | _ => simp [throw_ne_ok]

/-! ### The two ways -/

lemma thawAllowed_iff : thawAllowed vmId payload = true ↔ Attests payload vmId := by
  unfold thawAllowed Attests
  constructor
  · intro h
    split at h
    · next att hatt =>
      obtain ⟨v, hv, hisatt⟩ := fromPayload_eq_ok.mp hatt
      exact ⟨v, att, hv, hisatt, by simpa [Attestation.validFor] using h⟩
    · cases h
  · rintro ⟨v, att, hv, hisatt, rfl⟩
    rw [fromPayload_eq_ok.mpr ⟨v, hv, hisatt⟩]
    simp [Attestation.validFor]

lemma envelope_iff :
    (∃ e, Envelope.fromValue payload = .ok e ∧ e.validFor vmId = true) ↔
      VersionOne payload ∧ Attests payload vmId := by
  unfold Envelope.fromValue VersionOne Attests
  simp only [bind_eq_ok, okOr_eq_ok, pure_eq_ok, fromPayload_eq_ok, readVersion_eq_ok]
  constructor
  · rintro ⟨_, ⟨obj, hobj, version, ⟨rfl, hversion⟩, att, ⟨v, hv, hatt⟩, rfl⟩, hvalid⟩
    rw [Envelope.validFor, Bool.and_eq_true] at hvalid
    exact ⟨by rwa [Json.member, hobj], v, att, hv, hatt,
      by simpa [Attestation.validFor] using hvalid.2⟩
  · rintro ⟨hversion, v, att, hv, hatt, rfl⟩
    obtain ⟨obj, hobj, -⟩ := Option.bind_eq_some_iff.mp hv
    rw [Json.member, hobj] at hversion
    exact ⟨_, ⟨obj, hobj, _, ⟨rfl, hversion⟩, att, ⟨v, hv, hatt⟩, rfl⟩,
      by simp [Envelope.validFor, Attestation.validFor]⟩

/-- **The two ways to admit a thaw agree on a payload if and only if its version is 1 or is left
out, or it has no attestation for the VM.** -/
theorem paths_agree_iff (vmId : String) (payload : Json) :
    (thawAllowed vmId payload = true ↔
      ∃ e, Envelope.fromValue payload = .ok e ∧ e.validFor vmId = true) ↔
    VersionOne payload ∨ ¬ Attests payload vmId := by
  rw [thawAllowed_iff, envelope_iff]
  constructor
  · intro hagree
    by_cases hatt : Attests payload vmId
    · exact .inl (hagree.mp hatt).1
    · exact .inr hatt
  · rintro (hversion | hnone)
    · exact ⟨fun hatt => ⟨hversion, hatt⟩, And.right⟩
    · exact ⟨fun hatt => absurd hatt hnone, And.right⟩

/-- A payload of version 2 is admitted, although there is no such envelope. -/
theorem version_two_admitted :
    ¬ ∀ (vmId : String) (payload : Json), thawAllowed vmId payload = true ↔
      ∃ e, Envelope.fromValue payload = .ok e ∧ e.validFor vmId = true := by
  intro h
  have hallowed : thawAllowed "vm-1" (.object
      [("attestation", .object [("epoch", .number (.posInt 0)), ("vm_id", .string "vm-1")]),
        ("version", .number (.posInt 2))]) = true := rfl
  obtain ⟨e, he, -⟩ := (h _ _).mp hallowed
  cases he

end Identikey.Admit
