/-
Who can open a share.

All wraps of a share hold one DEK, which opens its payload.  Adding a recipient,
rotating and a pass over the wire keep this, and the payload; so the holders of the
current wraps open it, and nobody else finds a wrap.
-/
import Mathlib.Logic.Relation
import Identikey.Share.Operations

set_option linter.dupNamespace false

namespace Identikey.Share

open Lib Lib.Fallible Auth Dcbor

variable (curves : Curves) (aead : Aead) (blake3 : Bytes → Digest32) (host : Host)

/-- What a holder can do with a share: add a recipient or rotate, always to public keys of secrets,
or write the share and parse it again. -/
inductive Step : Share → Share → Prop where
  | addRecipient {s s' : Share} {opener secret : WrapSecret} {t : WrapPublic}
      {coins : WrapCoins curves} (hpublic : secret.publicKey curves = .ok t)
      (h : s.addRecipient curves aead blake3 opener t coins = .ok s') : Step s s'
  | rotate {s s' : Share} {opener : WrapSecret} {secrets : List WrapSecret}
      {recipients : List WrapPublic} {epoch : UInt64} {coins : WrapPublic → WrapCoins curves}
      (hpublic : secrets.mapM (WrapSecret.publicKey curves) = .ok recipients)
      (h : s.rotate curves aead blake3 opener recipients epoch coins = .ok s') : Step s s'
  | pass {s s' : Share} {b : Bytes} (hfit : s.Fits host) (hto : s.toCbor host = .ok b)
      (hfrom : Share.fromCbor curves host b = .ok s') : Step s s'

/-- All wraps of the share hold the DEK, and the DEK opens the payload. -/
structure Held (dek : Key) (plaintext : Bytes) (s : Share) : Prop where
  wellFormed : s.WellFormed curves
  direct : s.recrypt = []
  wraps : ∀ w ∈ s.wraps, Holds curves aead blake3 dek w
  payload : aead.decrypt dek s.nonce PAYLOAD_AAD s.ciphertext = some plaintext

variable {curves aead blake3 host} {dek : Key} {plaintext : Bytes} {s s' : Share}

/-- A sealed share is for those it was sealed to. -/
lemma targets_of_seal {recipients : List WrapPublic} {epoch : UInt64} {coins : SealCoins curves}
    (h : Share.seal curves aead blake3 plaintext recipients epoch coins = .ok s) :
    s.targets = recipients := by
  obtain ⟨-, -, -, -, -, -, -, -, -, rfl⟩ := sealMixed_eq_ok.mp h
  rfl

/-- A recipient that was added is a target beside those before. -/
lemma targets_of_addRecipient {opener : WrapSecret} {t : WrapPublic} {coins : WrapCoins curves}
    (h : s.addRecipient curves aead blake3 opener t coins = .ok s') :
    s'.targets = s.targets ++ [t] := by
  obtain ⟨-, -, -, -, -, -, -, -, rfl⟩ := addRecipient_eq_ok.mp h
  rfl

/-- After a rotation those it was for are the targets, and nobody else. -/
lemma targets_of_rotate {opener : WrapSecret} {recipients : List WrapPublic} {epoch : UInt64}
    {coins : WrapPublic → WrapCoins curves}
    (h : s.rotate curves aead blake3 opener recipients epoch coins = .ok s') :
    s'.targets = recipients := by
  obtain ⟨-, -, -, -, -, -, -, rfl⟩ := rotate_eq_ok.mp h
  rfl

/-- A share without capsules comes back from the wire as it was. -/
lemma eq_of_pass (hs : s.WellFormed curves) (hdirect : s.recrypt = []) (hfit : s.Fits host)
    {b : Bytes} (hto : s.toCbor host = .ok b) (hfrom : Share.fromCbor curves host b = .ok s') :
    s' = s := by
  rw [Share.toCbor_eq hs hfit.parts, Except.ok.injEq] at hto
  rw [← hto, Share.fromCbor_toCborData hs hfit, Except.ok.injEq,
    Share.normal_eq_iff.mpr (by simp [hdirect])] at hfrom
  exact hfrom.symm

lemma made_of_publicKeys {secrets : List WrapSecret} {recipients : List WrapPublic}
    (h : secrets.mapM (WrapSecret.publicKey curves) = .ok recipients) :
    ∀ t ∈ recipients, t.Made curves := by
  intro t ht
  obtain ⟨secret, -, hsecret⟩ := (mem_of_forall₂ (mapM_eq_ok.mp h)).mp ht
  exact made_of_publicKey hsecret

/-! ### Opening -/

/-- The DEK of a share is found exactly behind its wraps. -/
lemma openDek_of_holds (h : ∀ w ∈ s.wraps, Holds curves aead blake3 dek w) {secret : WrapSecret}
    {r : Bytes} (hr : secret.encapsulationPublic curves = .ok r) :
    s.openDek curves aead blake3 secret =
      if r ∈ s.wraps.map Wrap.recipient then .ok dek else .error .noMatchingWrap := by
  rw [Share.openDek, hr, ok_bind]
  cases hfind : s.wraps.find? fun w => w.recipient == r with
  | none =>
    have hnot : r ∉ s.wraps.map Wrap.recipient := by
      intro hmem
      obtain ⟨w, hw, rfl⟩ := List.mem_map.mp hmem
      exact absurd (beq_self_eq_true _) (List.find?_eq_none.mp hfind w hw)
    rw [if_neg hnot]
    rfl
  | some w =>
    have hw : w ∈ s.wraps := List.mem_of_find?_eq_some hfind
    have hrecipient : w.recipient = r := by
      have := List.find?_some hfind
      exact eq_of_beq this
    rw [if_pos (List.mem_map.mpr ⟨w, hw, hrecipient⟩)]
    exact openWith_of_holds (h w hw) (hrecipient ▸ hr)

/-- Whoever opened the share found its DEK. -/
lemma eq_of_openDek (h : ∀ w ∈ s.wraps, Holds curves aead blake3 dek w) {opener : WrapSecret}
    {dek' : Key} (hopen : s.openDek curves aead blake3 opener = .ok dek') : dek' = dek := by
  obtain ⟨r, hr, -⟩ := bind_eq_ok.mp hopen
  rw [openDek_of_holds h hr] at hopen
  split_ifs at hopen
  exact (Except.ok.inj hopen).symm

/-- A target's encapsulation key is the recipient of its wrap. -/
lemma mem_recipients_iff (h : s.WellFormed curves) {r : Bytes} :
    r ∈ s.wraps.map Wrap.recipient ↔
      ∃ t ∈ s.targets, ∃ enc, t.encapsulation curves = .ok enc ∧ enc.recipient = r := by
  constructor
  · intro hmem
    obtain ⟨w, hw, rfl⟩ := List.mem_map.mp hmem
    obtain ⟨t, ht, hmatch⟩ := exists_mem_of_forall₂ h.recipients w hw
    exact ⟨t, ht, _, hmatch.encapsulation, rfl⟩
  · rintro ⟨t, ht, enc, henc, rfl⟩
    obtain ⟨w, hw, hmatch⟩ := exists_mem_of_forall₂ h.recipients.flip t ht
    have hmatch' : Matches curves s.epoch w t := hmatch
    rw [hmatch'.encapsulation, Except.ok.injEq] at henc
    exact List.mem_map.mpr ⟨w, hw, congrArg Encapsulation.recipient henc⟩

/-! ### Steps -/

lemma held_of_seal {secrets : List WrapSecret} {recipients : List WrapPublic}
    (hpublic : secrets.mapM (WrapSecret.publicKey curves) = .ok recipients) {epoch : UInt64}
    {coins : SealCoins curves}
    (h : Share.seal curves aead blake3 plaintext recipients epoch coins = .ok s) :
    Held curves aead blake3 coins.dek plaintext s := by
  have hwf := wellFormed_of_sealMixed (made_of_publicKeys hpublic) (by simp) h
  obtain ⟨-, -, -, c, ws, cs, hc, hws, hcs, rfl⟩ := sealMixed_eq_ok.mp h
  refine ⟨hwf, ?_, holds_of_sealAll hws, aead.decrypt_encrypt _ _ _ _ _ hc⟩
  exact List.length_eq_zero_iff.mp (mapM_eq_ok.mp hcs).length_eq.symm

/-- **A step keeps the payload, and every wrap holds its DEK afterwards.** -/
theorem step_held (hs : Held curves aead blake3 dek plaintext s)
    (hstep : Step curves aead blake3 host s s') :
    Held curves aead blake3 dek plaintext s' ∧ s'.nonce = s.nonce ∧
      s'.ciphertext = s.ciphertext := by
  cases hstep with
  | addRecipient hpublic h =>
    have hwf := wellFormed_of_addRecipient hs.wellFormed (made_of_publicKey hpublic) h
    obtain ⟨-, enc, dek', w, -, -, hdek, hw, rfl⟩ := addRecipient_eq_ok.mp h
    obtain rfl := eq_of_openDek hs.wraps hdek
    refine ⟨⟨hwf, hs.direct, fun x hx => ?_, hs.payload⟩, rfl, rfl⟩
    rcases List.mem_append.mp hx with hx | hx
    · exact hs.wraps x hx
    · rw [List.mem_singleton.mp hx]
      exact (seal_holds hw).1
  | rotate hpublic h =>
    have hwf := wellFormed_of_rotate (made_of_publicKeys hpublic) h
    obtain ⟨-, -, -, dek', ws, hdek, hws, rfl⟩ := rotate_eq_ok.mp h
    obtain rfl := eq_of_openDek hs.wraps hdek
    exact ⟨⟨hwf, rfl, holds_of_sealAll hws, hs.payload⟩, rfl, rfl⟩
  | pass hfit hto hfrom =>
    obtain rfl := eq_of_pass hs.wellFormed hs.direct hfit hto hfrom
    exact ⟨hs, rfl, rfl⟩

lemma run_held (hs : Held curves aead blake3 dek plaintext s)
    (hrun : Relation.ReflTransGen (Step curves aead blake3 host) s s') :
    Held curves aead blake3 dek plaintext s' ∧ s'.nonce = s.nonce ∧
      s'.ciphertext = s.ciphertext := by
  induction hrun with
  | refl => exact ⟨hs, rfl, rfl⟩
  | tail _ hstep ih =>
    obtain ⟨hheld, hnonce, hciphertext⟩ := ih
    obtain ⟨hheld', hnonce', hciphertext'⟩ := step_held hheld hstep
    exact ⟨hheld', hnonce'.trans hnonce, hciphertext'.trans hciphertext⟩

/-- What `open` gives to a secret that has an encapsulation key. -/
lemma open_of_held (hs : Held curves aead blake3 dek plaintext s) {secret : WrapSecret} {r : Bytes}
    (hr : secret.encapsulationPublic curves = .ok r) :
    s.open curves aead blake3 secret =
      if r ∈ s.wraps.map Wrap.recipient then .ok plaintext else .error .noMatchingWrap := by
  rw [Share.open, openDek_of_holds hs.wraps hr]
  split_ifs
  · rw [ok_bind, decryptPayload, hs.payload]
    rfl
  · rfl

/-- **Every current holder can open, and nobody else.**  Whatever was done to a share that was
sealed to public keys of secrets: its content id is that of the sealed share; a secret whose
public key is a target opens it to the plaintext; and a secret whose encapsulation key is
not among those of the targets finds no wrap. -/
theorem current_holders_open {secrets : List WrapSecret} {recipients : List WrapPublic}
    {epoch : UInt64} {coins : SealCoins curves} {s₀ : Share}
    (hpublic : secrets.mapM (WrapSecret.publicKey curves) = .ok recipients)
    (hseal : Share.seal curves aead blake3 plaintext recipients epoch coins = .ok s₀)
    (hrun : Relation.ReflTransGen (Step curves aead blake3 host) s₀ s) :
    s.contentId blake3 = s₀.contentId blake3 ∧
    (∀ secret t, secret.publicKey curves = .ok t → t ∈ s.targets →
      s.open curves aead blake3 secret = .ok plaintext) ∧
    (∀ secret r, secret.encapsulationPublic curves = .ok r →
      (∀ t ∈ s.targets, ∀ enc, t.encapsulation curves = .ok enc → enc.recipient ≠ r) →
      s.open curves aead blake3 secret = .error .noMatchingWrap) := by
  obtain ⟨hheld, hnonce, hciphertext⟩ := run_held (held_of_seal hpublic hseal) hrun
  refine ⟨?_, ?_, ?_⟩
  · rw [Share.contentId, Share.contentId, Share.contentMaterial, Share.contentMaterial, hnonce,
      hciphertext]
  · intro secret t ht hmem
    obtain ⟨w, hw, hmatch⟩ := exists_mem_of_forall₂ hheld.wellFormed.recipients.flip t hmem
    have henc : t.encapsulation curves = .ok { alg := w.alg, recipient := w.recipient } :=
      Matches.encapsulation hmatch
    have hr : secret.encapsulationPublic curves = .ok w.recipient :=
      encapsulationPublic_eq_ok.mpr ⟨t, _, ht, henc, rfl⟩
    rw [open_of_held hheld hr, if_pos (List.mem_map_of_mem hw)]
  · intro secret r hr hnone
    have hnot : r ∉ s.wraps.map Wrap.recipient := by
      rw [mem_recipients_iff hheld.wellFormed]
      rintro ⟨t, ht, enc, henc, hsame⟩
      exact hnone t ht enc henc hsame
    rw [open_of_held hheld hr, if_neg hnot]

/-- A secret on the other curve, and its public key. -/
def carolScalar : WrapSecret := .P256Scalar (fill 32 5)

def carolPublic : WrapPublic := .P256 ⟨2 :: List.replicate 32 5, rfl⟩

/-- What is drawn for a recipient: Bob's wraps are from Alice, all others from Bob. -/
def historyCoins : WrapPublic → WrapCoins sampleCurves
  | .Ed25519 _ => { sampleCoins with seed := aliceSeed }
  | _ => sampleCoins

/-- A share for Alice and Carol, to which Alice adds Bob, and which Carol then rotates to the two of
them. -/
def sampleHistory : Except ShareError (Share × Share × Share) := do
  let s₀ ← Share.seal sampleCurves .keyed sampleHash [1, 2, 3]
    [.X25519 alicePublic, carolPublic] 0 { sampleSealCoins with wraps := historyCoins }
  let s₁ ← s₀.addRecipient sampleCurves .keyed sampleHash (.X25519 aliceSeed)
    (.Ed25519 bobPublic) (historyCoins (.Ed25519 bobPublic))
  let s₂ ← s₁.rotate sampleCurves .keyed sampleHash carolScalar
    [.Ed25519 bobPublic, carolPublic] 1 historyCoins
  return (s₀, s₁, s₂)

lemma sampleHistory_isOk : sampleHistory.isOk = true := by decide +kernel

lemma publicKey_carol : carolScalar.publicKey sampleCurves = .ok carolPublic := by decide +kernel

/-- Carol, who was there from the start, and Bob, who was added, are holders to the end; Alice is
one until the rotation. -/
theorem current_holders_open_rotated :
    ∃ s₀ s₁ s₂, sampleHistory = .ok (s₀, s₁, s₂) ∧
      (∀ secret ∈ [WrapSecret.X25519 aliceSeed, .Ed25519Seed bobSeed, carolScalar],
        s₁.open sampleCurves .keyed sampleHash secret = .ok [1, 2, 3]) ∧
      (∀ secret ∈ [WrapSecret.Ed25519Seed bobSeed, carolScalar],
        s₂.open sampleCurves .keyed sampleHash secret = .ok [1, 2, 3]) ∧
      s₂.open sampleCurves .keyed sampleHash (.X25519 aliceSeed) = .error .noMatchingWrap := by
  cases hhistory : sampleHistory with
  | error e =>
    have hok := sampleHistory_isOk
    rw [hhistory] at hok
    cases hok
  | ok shares =>
    obtain ⟨s₀, hseal, h⟩ := bind_eq_ok.mp hhistory
    obtain ⟨s₁, hadd, h⟩ := bind_eq_ok.mp h
    obtain ⟨s₂, hrotate, h⟩ := bind_eq_ok.mp h
    obtain rfl := pure_eq_ok.mp h
    have hpublic : [WrapSecret.X25519 aliceSeed, carolScalar].mapM
        (WrapSecret.publicKey sampleCurves) = .ok [.X25519 alicePublic, carolPublic] := by
      decide +kernel
    have hpublic' : [WrapSecret.Ed25519Seed bobSeed, carolScalar].mapM
        (WrapSecret.publicKey sampleCurves) = .ok [.Ed25519 bobPublic, carolPublic] := by
      decide +kernel
    have hrun₁ : Relation.ReflTransGen (Step sampleCurves .keyed sampleHash Host.plain) s₀ s₁ :=
      .single (.addRecipient (publicKey_ed25519 bobSeed) hadd)
    have hrun₂ := hrun₁.tail (.rotate hpublic' hrotate)
    obtain ⟨-, hholders₁, -⟩ := current_holders_open hpublic hseal hrun₁
    obtain ⟨-, hholders₂, hother⟩ := current_holders_open hpublic hseal hrun₂
    have htargets₁ := targets_of_addRecipient hadd
    rw [targets_of_seal hseal] at htargets₁
    have htargets₂ := targets_of_rotate hrotate
    refine ⟨s₀, s₁, s₂, rfl, ?_, ?_, ?_⟩
    · simp only [List.forall_mem_cons]
      refine ⟨hholders₁ _ _ (publicKey_x25519 aliceSeed) ?_,
        hholders₁ _ _ (publicKey_ed25519 bobSeed) ?_, hholders₁ _ _ publicKey_carol ?_, by simp⟩
      all_goals
        rw [htargets₁]
        decide +kernel
    · simp only [List.forall_mem_cons]
      refine ⟨hholders₂ _ _ (publicKey_ed25519 bobSeed) ?_, hholders₂ _ _ publicKey_carol ?_,
        by simp⟩
      all_goals
        rw [htargets₂]
        decide +kernel
    · refine hother _ alicePublic.val (by decide +kernel) ?_
      rw [htargets₂]
      intro t ht enc henc
      rcases List.mem_pair.mp ht with rfl | rfl
      · obtain rfl := Except.ok.inj henc
        decide +kernel
      · obtain rfl := Except.ok.inj henc
        decide +kernel

/-- A share with one wrap to run the model with. -/
def sampleShare (epoch : UInt64) : Share :=
  { epoch, nonce := fill 24 2, ciphertext := [1, 2, 3] ++ Aead.clearTag,
    wraps := [sampleWrap epoch], targets := [.X25519 alicePublic], recrypt := [] }

lemma sampleShare_sealed : Share.seal sampleCurves Aead.clear sampleHash [1, 2, 3]
    [.X25519 alicePublic] 0 sampleSealCoins = .ok (sampleShare 0) := by
  decide +kernel

lemma sampleShare_rotated : (sampleShare 0).rotate sampleCurves Aead.clear sampleHash
    (.X25519 aliceSeed) [.X25519 alicePublic] 1 (fun _ => sampleCoins) = .ok (sampleShare 1) := by
  decide +kernel

end Identikey.Share
