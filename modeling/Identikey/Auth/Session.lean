/-
A device with one key, a verifier that it logs in to and peers that check its nodes.

A verifier issues challenges, verifies responses that may come from anybody and collects
its store; peers check node attestations that may come from anybody; a device answers
challenges and signs node attestations, state records and access grants.  The events come in
any order.  Where signatures of the device's key are made by the device only (`Unforged`), what
the verifier accepts under the key are answers of the device, each of them once
(`login_agreement`), and what peers accept are nodes of the device (`attestation_agreement`).
-/
import Identikey.Auth.ChallengeBinding
import Identikey.Auth.NodeAttest
import Identikey.Share.GrantSeparation

namespace Identikey.Auth

open Lib Lib.Fallible Dcbor Share

/-- Something that a device does with its key. -/
inductive DeviceOp where
  | respond (c : Challenge)
  | attest (nodeId : Bytes)
  | record (r : StateRecord)
  | grant (g : AccessGrant)

namespace DeviceOp

/-- What the key signs. -/
def content : DeviceOp → SignedContent
  | .respond c => .login c.toBytes
  | .attest nodeId => .node nodeId
  | .record r => .state r.toBytes
  | .grant g => .grant g

/-- The challenge that the device answers. -/
def answers : DeviceOp → Option Challenge
  | .respond c => some c
  | _ => none

end DeviceOp

/-- A login payload is signed for a login. -/
lemma payload_eq_login {host : Host} {x : SignedContent} {a : Bytes} (hx : x.Sized)
    (ha : a.length < 2 ^ 64) (h : x.payload host = signingPayload a) : x = .login a := by
  cases x with
  | login b => rw [(contextPayload_inj (by decide) (by decide) hx ha h).2]
  | node b =>
    have hpurpose := (contextPayload_inj (by decide) (by decide) hx ha h).1
    exact absurd hpurpose (by decide)
  | state c => exact absurd h.symm (contextPayload_ne_state _ _ _)
  | grant g => exact absurd h (message_ne_array host g _ (by simp))

/-- A node payload is signed for a node attestation. -/
lemma payload_eq_node {host : Host} {x : SignedContent} {b : Bytes} (hx : x.Sized)
    (hb : b.length < 2 ^ 64) (h : x.payload host = nodeSigningPayload b) : x = .node b := by
  cases x with
  | login a =>
    have hpurpose := (contextPayload_inj (by decide) (by decide) hx hb h).1
    exact absurd hpurpose (by decide)
  | node a => rw [(contextPayload_inj (by decide) (by decide) hx hb h).2]
  | state c => exact absurd h.symm (contextPayload_ne_state _ _ _)
  | grant g => exact absurd h (message_ne_array host g _ (by simp))

/-- Something that happens. -/
inductive Event where
  | verifier (op : Op)
  | device (op : DeviceOp)
  | peer (att : NodeAttestation) (policy : VerifyPolicy)

namespace Event

/-- The operation of the verifier, if the event is one. -/
def verifierOp : Event → Option Op
  | .verifier op => some op
  | _ => none

/-- The key, the payload and the signature that somebody checks. -/
def presented : Event → Option (ClassicalPublicKey × Bytes × ClassicalSignature)
  | .verifier (.verify a) =>
    some (a.response.publicKey, a.response.signingPayload, a.response.signature)
  | .peer att _ => some (att.publicKey, nodeSigningPayload att.nodeId, att.signature)
  | _ => none

end Event

/-- The verifier's ledger and what the device has done, the latest first. -/
structure World where
  ledger : Ledger
  done : List DeviceOp

namespace World

/-- The challenges that the device has answered. -/
def answered (w : World) : List Challenge := w.done.filterMap DeviceOp.answers

/-- Nothing has happened yet. -/
def start : World := { ledger := .start .new, done := [] }

section Run

variable (bk : Backend) (build : Build)

def step (w : World) : Event → World
  | .verifier op => { w with ledger := Ledger.step bk build w.ledger op }
  | .device op => { w with done := op :: w.done }
  | .peer _ _ => w

def run (events : List Event) : World := events.foldl (step bk build) start

end Run

section Facts

variable {bk : Backend} {build : Build}

/-- The verifier's ledger is that of its own operations. -/
lemma ledger_run (events : List Event) :
    (run bk build events).ledger =
      Ledger.run bk build (.start .new) (events.filterMap Event.verifierOp) := by
  refine run_induction (P := fun events (w : World) => w.ledger =
    Ledger.run bk build (.start .new) (events.filterMap Event.verifierOp)) rfl ?_ events
  intro events e ih
  rw [List.filterMap_append]
  cases e with
  | verifier op =>
    show Ledger.step bk build _ op = Ledger.run bk build _ (_ ++ [op])
    rw [ih, Ledger.run, Ledger.run, List.foldl_append]
    rfl
  | device op =>
    show (events.foldl (step bk build) start).ledger = Ledger.run bk build _ (_ ++ [])
    rw [ih, List.append_nil]
  | peer att policy =>
    show (events.foldl (step bk build) start).ledger = Ledger.run bk build _ (_ ++ [])
    rw [ih, List.append_nil]

lemma mem_done (events : List Event) (op : DeviceOp) :
    op ∈ (run bk build events).done ↔ .device op ∈ events := by
  have hstart : op ∈ start.done ↔ Event.device op ∈ [] := by simp [start]
  refine run_induction (P := fun events (w : World) => op ∈ w.done ↔ .device op ∈ events)
    hstart ?_ events
  intro events e ih
  cases e with
  | verifier vop => simpa [step] using ih
  | device dop =>
    show op ∈ dop :: _ ↔ _
    rw [List.mem_cons, ih, List.mem_append, List.mem_singleton, Event.device.injEq, or_comm]
  | peer att policy => simpa [step] using ih

/-- What the verifier has accepted, it accepted after some part of the events. -/
lemma exists_acceptance {events : List Event} {a : Attempt}
    (ha : a ∈ (run bk build events).ledger.accepted) :
    ∃ pre post c v, events = pre ++ .verifier (.verify a) :: post ∧
      checkResponse bk build a = .ok (c, v) := by
  obtain ⟨pre, e, post, rfl, hbefore, hafter⟩ :=
    exists_step (Q := fun w : World => a ∈ w.ledger.accepted) (fun h => by cases h) ha
  change a ∉ (run bk build pre).ledger.accepted at hbefore
  change a ∈ (step bk build (run bk build pre) e).ledger.accepted at hafter
  cases e with
  | device op => exact absurd hafter hbefore
  | peer att policy => exact absurd hafter hbefore
  | verifier op =>
    change a ∈ (Ledger.step bk build (run bk build pre).ledger op).accepted at hafter
    cases op with
    | gc now => exact absurd hafter hbefore
    | issue issuer now nonce =>
      rcases Ledger.step_issue issuer now nonce with hstay | ⟨c, -, -, hstep⟩
      · rw [hstay] at hafter
        exact absurd hafter hbefore
      · rw [hstep] at hafter
        exact absurd hafter hbefore
    | verify a' =>
      rcases Ledger.step_verify a' with hstay | ⟨c, v, expiresAt, hcheck, -, -, hstep⟩
      · rw [hstay] at hafter
        exact absurd hafter hbefore
      · rw [hstep] at hafter
        obtain rfl : a = a' := (List.mem_cons.mp hafter).resolve_right hbefore
        exact ⟨pre, post, c, v, rfl, hcheck⟩

end Facts

/-- A payload whose signature verifies under the key is one that the device has signed before. -/
def Unforged (host : Host) (bk : Backend) (key : ClassicalPublicKey) (events : List Event) : Prop :=
  ∀ pre e post payload sig, events = pre ++ e :: post → e.presented = some (key, payload, sig) →
    verifyClassical bk key payload sig = .ok () →
    ∃ op, .device op ∈ pre ∧ op.content.payload host = payload

section Agreement

variable {host : Host} {bk : Backend} {build : Build} {key : ClassicalPublicKey}
  {events : List Event}

/-- What passes the checks under the key is an answer that the device has given. -/
lemma answered_of_checkResponse (hunforged : Unforged host bk key events)
    (hsized : ∀ op, .device op ∈ events → op.content.Sized) {pre post : List Event} {a : Attempt}
    {c : Challenge} {v : Verified} (hevents : events = pre ++ .verifier (.verify a) :: post)
    (hkey : a.response.publicKey = key) (hcheck : checkResponse bk build a = .ok (c, v)) :
    .device (.respond c) ∈ pre ∧ a.response.challengeBytes = c.toBytes ∧
      c.audience = a.expectedAudience := by
  obtain ⟨hread, -, haud, -, -, hsig, -⟩ := checkResponse_eq_ok.mp hcheck
  rw [hkey] at hsig
  have hpresented : (Event.verifier (.verify a)).presented =
      some (key, a.response.signingPayload, a.response.signature) := by
    rw [← hkey]
    rfl
  obtain ⟨op, hop, hpayload⟩ := hunforged pre _ post _ _ hevents hpresented hsig
  have hsize : op.content.Sized := hsized op (by rw [hevents]; exact List.mem_append_left _ hop)
  have hfit : a.response.challengeBytes.length < 2 ^ 64 := by
    obtain ⟨w, hw, -⟩ := bind_eq_ok.mp hread
    exact (Value.fromBytes_sound hw).2.2
  have hcontent := payload_eq_login hsize hfit hpayload
  cases op with
  | respond c' =>
    have hbytes : c'.toBytes = a.response.challengeBytes := SignedContent.login.inj hcontent
    obtain rfl : c' = c := by
      rw [← hbytes, Challenge.fromBytes_toBytes (by rw [hbytes]; exact hfit)] at hread
      exact Except.ok.inj hread
    exact ⟨hop, hbytes.symm, haud⟩
  | attest nodeId => cases hcontent
  | record r => cases hcontent
  | grant g => cases hcontent

/-- **Agreement on logins.**  In every order of events in which no nonce is drawn twice and nobody
forges the device's signatures: when the verifier accepts a response under the device's key, the
device has answered that very challenge before, for the audience that the verifier expects, and
the verifier has issued its nonce; and the acceptances are matched with different answers. -/
theorem login_agreement
    (hfresh : (drawnNonces (events.filterMap Event.verifierOp)).Nodup)
    (hsized : ∀ op, .device op ∈ events → op.content.Sized)
    (hunforged : Unforged host bk key events) :
    (∀ pre a post, events = pre ++ .verifier (.verify a) :: post → a.response.publicKey = key →
      (∃ v, (verifyResponse bk build a (run bk build pre).ledger.store).1 = .ok v) →
      ∃ c, .device (.respond c) ∈ pre ∧ a.response.challengeBytes = c.toBytes ∧
        c.audience = a.expectedAudience ∧
        ∃ i ∈ (run bk build pre).ledger.issued, i.nonce = c.nonce) ∧
    (((run bk build events).ledger.accepted.filter fun a => a.response.publicKey = key).map
      fun a => a.response.challengeBytes).Subperm
        ((run bk build events).answered.map Challenge.toBytes) := by
  constructor
  · rintro pre a post hevents hkey ⟨v, hv⟩
    obtain ⟨c, expiresAt, hcheck, hentry, -, -⟩ := verifyResponse_eq_ok.mp (Prod.ext hv rfl)
    obtain ⟨hop, hbytes, haud⟩ := answered_of_checkResponse hunforged hsized hevents hkey hcheck
    have hpre : (drawnNonces (pre.filterMap Event.verifierOp)).Nodup := by
      rw [hevents, List.filterMap_append, drawnNonces, List.filterMap_append] at hfresh
      exact hfresh.of_append_left
    rw [ledger_run] at hentry ⊢
    exact ⟨c, hop, hbytes, haud, (Ledger.sound_run hpre).entry_issued c.nonce _ hentry⟩
  · apply List.subperm_of_subset
    · have hnodup : ((run bk build events).ledger.accepted.map Attempt.nonce).Nodup := by
        rw [ledger_run]
        exact (Ledger.sound_run hfresh).accepted_nodup
      have hbytes : ((run bk build events).ledger.accepted.map
          fun a => a.response.challengeBytes).Nodup := by
        have hcomp : (run bk build events).ledger.accepted.map Attempt.nonce =
            ((run bk build events).ledger.accepted.map fun a => a.response.challengeBytes).map
              fun b => (Challenge.fromBytes b).toOption.map Challenge.nonce := by
          rw [List.map_map]
          rfl
        rw [hcomp] at hnodup
        exact hnodup.of_map _
      exact hbytes.sublist (List.filter_sublist.map _)
    · intro b hb
      obtain ⟨a, ha, rfl⟩ := List.mem_map.mp hb
      obtain ⟨hmem, hkey⟩ := List.mem_filter.mp ha
      obtain ⟨pre, post, c, v, hevents, hcheck⟩ := exists_acceptance hmem
      obtain ⟨hop, hbytes, -⟩ := answered_of_checkResponse hunforged hsized hevents
        (of_decide_eq_true hkey) hcheck
      refine List.mem_map.mpr ⟨c, ?_, hbytes.symm⟩
      refine List.mem_filterMap.mpr ⟨.respond c, ?_, rfl⟩
      rw [mem_done, hevents]
      exact List.mem_append_left _ hop

/-- **Agreement on nodes.**  In every order of events in which nobody forges the device's
signatures: a peer that accepts a node attestation under the device's key, under whatever policy,
learns the device's identity, and the device has attested that node id before, whatever else the
key has signed. -/
theorem attestation_agreement
    (hsized : ∀ op, .device op ∈ events → op.content.Sized)
    (hunforged : Unforged host bk key events) {pre post : List Event} {att : NodeAttestation}
    {policy : VerifyPolicy} {fp : Digest32} (hevents : events = pre ++ .peer att policy :: post)
    (hkey : att.publicKey = key) (hfit : att.nodeId.length < 2 ^ 64)
    (hok : verifyNodeAttestation bk att policy = .ok fp) :
    fp = key.fingerprint bk ∧ .device (.attest att.nodeId) ∈ pre := by
  obtain ⟨hsig, -, -, hfp⟩ := verifyNodeAttestation_eq_ok.mp hok
  rw [hkey] at hsig hfp
  have hpresented : (Event.peer att policy).presented =
      some (key, nodeSigningPayload att.nodeId, att.signature) := by
    rw [← hkey]
    rfl
  obtain ⟨op, hop, hpayload⟩ := hunforged pre _ post _ _ hevents hpresented hsig
  have hsize : op.content.Sized := hsized op (by rw [hevents]; exact List.mem_append_left _ hop)
  have hcontent := payload_eq_node hsize hfit hpayload
  refine ⟨hfp, ?_⟩
  cases op with
  | attest nodeId =>
    obtain rfl : nodeId = att.nodeId := SignedContent.node.inj hcontent
    exact hop
  | respond c => cases hcontent
  | record r => cases hcontent
  | grant g => cases hcontent

end Agreement

/-- A node attestation under `sampleKey`. -/
def sampleNode : NodeAttestation :=
  { nodeId := [3], publicKey := sampleKey, pq := none,
    signature :=
      { alg := .ed25519, bytes := sampleSign 64 sampleKey.bytes (nodeSigningPayload [3]) } }

/-- A challenge is issued, answered and accepted, and a node is attested and accepted. -/
def sampleEvents : List Event :=
  [.verifier sampleIssue, .device (.respond sampleChallenge),
    .verifier (.verify (sampleAttempt sampleChallenge.toBytes 1010 0)),
    .device (.attest [3]), .peer sampleNode .pqOptional]

lemma sampleEvents_sized : ∀ op, Event.device op ∈ sampleEvents → op.content.Sized := by
  intro op hop
  simp only [sampleEvents, List.mem_cons, reduceCtorEq, Event.device.injEq, List.not_mem_nil,
    or_false, false_or] at hop
  obtain rfl | rfl := hop
  · show sampleChallenge.toBytes.length < 2 ^ 64
    decide
  · show [3].length < 2 ^ 64
    decide

lemma sampleEvents_unforged : Unforged .plain sampleBackend sampleKey sampleEvents := by
  intro pre e post payload sig hevents hpresented _
  rcases pre with _ | ⟨e₁, _ | ⟨e₂, _ | ⟨e₃, _ | ⟨e₄, _ | ⟨e₅, pre⟩⟩⟩⟩⟩ <;>
    simp only [sampleEvents, List.cons_append, List.nil_append, List.cons.injEq, reduceCtorEq,
      and_false, List.nil_eq, List.append_eq_nil_iff] at hevents
  · obtain ⟨rfl, -⟩ := hevents
    cases hpresented
  · obtain ⟨-, rfl, -⟩ := hevents
    cases hpresented
  · obtain ⟨rfl, rfl, rfl, -⟩ := hevents
    cases hpresented
    exact ⟨.respond sampleChallenge, by simp, rfl⟩
  · obtain ⟨-, -, -, rfl, -⟩ := hevents
    cases hpresented
  · obtain ⟨rfl, rfl, rfl, rfl, rfl, -⟩ := hevents
    cases hpresented
    exact ⟨.attest [3], by simp, rfl⟩

/-- The acceptance of a sample response. -/
theorem login_agreement_sampleEvents :
    (run sampleBackend .debug sampleEvents).ledger.accepted =
        [sampleAttempt sampleChallenge.toBytes 1010 0] ∧
      ((((run sampleBackend .debug sampleEvents).ledger.accepted.filter
        fun a => a.response.publicKey = sampleKey).map fun a => a.response.challengeBytes).Subperm
          ((run sampleBackend .debug sampleEvents).answered.map Challenge.toBytes)) :=
  ⟨by decide +kernel, (@login_agreement Host.plain sampleBackend .debug sampleKey sampleEvents
    (by decide) sampleEvents_sized sampleEvents_unforged).2⟩

/-- The acceptance of a sample node. -/
theorem attestation_agreement_sampleEvents :
    verifyNodeAttestation sampleBackend sampleNode .pqOptional =
        .ok (sampleKey.fingerprint sampleBackend) ∧
      Event.device (.attest [3]) ∈ sampleEvents.take 4 := by
  have hok : verifyNodeAttestation sampleBackend sampleNode .pqOptional =
      .ok (sampleKey.fingerprint sampleBackend) :=
    verifyNodeAttestation_eq_ok.mpr ⟨verifyClassical_sample List.length_replicate _,
      (fun _ _ h => by cases h), (fun _ => by decide), rfl⟩
  exact ⟨hok, (@attestation_agreement Host.plain sampleBackend sampleKey sampleEvents
    sampleEvents_sized sampleEvents_unforged (sampleEvents.take 4) [] sampleNode .pqOptional _ rfl
    rfl (by decide) hok).2⟩

end World

end Identikey.Auth
