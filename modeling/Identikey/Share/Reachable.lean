/-
Every share that a caller can come by.

A share is sealed, or parsed from some bytes, and then rewrapped any number of times.  Its
wraps and its targets are two lists kept in step: each wrap is addressed to the
encapsulation of its target, at the epoch of the share.  So the access commitment, which is
of the targets, names the keys that the wraps are addressed to.
-/
import Identikey.Share.GrantLifetime

set_option linter.dupNamespace false

namespace Identikey.Share

open Lib Lib.Fallible Auth Dcbor

/-- A share that the public operations give, when those that were parsed came from certain bytes.
`seal` is `seal_mixed` without capsules. -/
inductive Reachable (curves : Curves) (aead : Aead) (blake3 : Bytes → Digest32) (host : Host)
    (source : Bytes → Prop) : Share → Prop where
  | sealMixed {s : Share} {plaintext : Bytes} {recipients : List WrapPublic}
      {recrypt : List RecryptPublic} {kem : RecryptKem} {epoch : UInt64} {coins : SealCoins curves}
      (h : Share.sealMixed curves aead blake3 plaintext recipients recrypt kem epoch coins =
        .ok s) :
      Reachable curves aead blake3 host source s
  | fromCbor {s : Share} {bytes : Bytes} (hsource : source bytes)
      (h : Share.fromCbor curves host bytes = .ok s) : Reachable curves aead blake3 host source s
  | rewrap {s s' : Share} {op : Rewrap curves} (hs : Reachable curves aead blake3 host source s)
      (h : op.apply aead blake3 s = .ok s') : Reachable curves aead blake3 host source s'

variable {curves : Curves} {aead : Aead} {blake3 : Bytes → Digest32} {host : Host}
  {source : Bytes → Prop} {s s' : Share}

/-! ### Wraps and targets in step -/

/-- What a wrap is addressed to. -/
def Wrap.encapsulation (w : Wrap) : Encapsulation := { alg := w.alg, recipient := w.recipient }

/-- The wrap is addressed to the target, at the epoch. -/
structure Addressed (curves : Curves) (epoch : UInt64) (w : Wrap) (t : WrapPublic) : Prop where
  encapsulation : t.encapsulation curves = .ok w.encapsulation
  epoch : w.epoch = epoch

/-- Wraps and targets are in step, and there is a wrap or a capsule. -/
structure Share.InStep (curves : Curves) (s : Share) : Prop where
  recipients : List.Forall₂ (Addressed curves s.epoch) s.wraps s.targets
  nonempty : ¬ (s.wraps = [] ∧ s.recrypt = [])

lemma addressed_of_sealAll {recipients : List WrapPublic} {dek : Key} {epoch : UInt64}
    {coins : WrapPublic → WrapCoins curves} {wraps : List Wrap}
    (h : sealAll curves aead blake3 recipients dek epoch coins = .ok wraps) :
    List.Forall₂ (Addressed curves epoch) wraps recipients := by
  rw [sealAll_eq_ok] at h
  refine (h.imp fun t w hw => ?_).flip
  obtain ⟨-, hencapsulation, hepoch⟩ := seal_holds hw
  exact ⟨hencapsulation, hepoch⟩

lemma inStep_of_sealMixed {plaintext : Bytes} {recipients : List WrapPublic}
    {recrypt : List RecryptPublic} {kem : RecryptKem} {epoch : UInt64} {coins : SealCoins curves}
    (h : Share.sealMixed curves aead blake3 plaintext recipients recrypt kem epoch coins = .ok s) :
    s.InStep curves := by
  obtain ⟨hne, -, -, c, ws, cs, -, hws, hcs, rfl⟩ := sealMixed_eq_ok.mp h
  have hrecipients := addressed_of_sealAll hws
  refine ⟨hrecipients, ?_⟩
  rintro ⟨rfl, rfl⟩
  rw [mapM_eq_ok] at hcs
  exact hne ⟨List.forall₂_nil_left_iff.mp hrecipients, List.forall₂_nil_right_iff.mp hcs⟩

lemma inStep_of_fromCbor {bytes : Bytes} (h : Share.fromCbor curves host bytes = .ok s) :
    s.InStep curves := by
  obtain ⟨entries, -, -, hread⟩ := parseMap_eq_ok.mp h
  obtain ⟨_, _, _, recipients, -, -, -, hrecipients, hwraps, htargets, -, hne⟩ := of_readShare hread
  refine ⟨?_, fun hnil => hne ⟨?_, hnil.2⟩⟩
  · rw [hwraps, htargets, List.forall₂_map_left_iff, List.forall₂_map_right_iff, List.forall₂_same]
    intro r hr
    obtain ⟨values, -, hvalues⟩ := (mem_of_forall₂ (mapM_eq_ok.mp hrecipients)).mp hr
    obtain ⟨-, hencapsulation, hepoch⟩ := of_readRecipient hvalues
    exact ⟨hencapsulation, hepoch⟩
  · exact List.map_eq_nil_iff.mp (hwraps.symm.trans hnil.1)

/-- **A rewrap keeps wraps and targets in step.** -/
lemma inStep_of_rewrap (hs : s.InStep curves) {op : Rewrap curves}
    (h : op.apply aead blake3 s = .ok s') : s'.InStep curves := by
  cases op with
  | addRecipient opener t coins =>
    obtain ⟨-, enc, dek, w, -, -, -, hw, rfl⟩ := addRecipient_eq_ok.mp h
    obtain ⟨-, hencapsulation, hepoch⟩ := seal_holds hw
    refine ⟨List.rel_append hs.recipients (.cons ⟨hencapsulation, hepoch⟩ .nil), ?_⟩
    exact fun hnil => List.append_ne_nil_of_right_ne_nil _ (List.cons_ne_nil _ _) hnil.1
  | rotate opener recipients epoch coins =>
    obtain ⟨-, hne, -, dek, ws, -, hws, rfl⟩ := rotate_eq_ok.mp h
    have hrecipients := addressed_of_sealAll hws
    refine ⟨hrecipients, ?_⟩
    rintro ⟨rfl, -⟩
    exact hne (List.forall₂_nil_left_iff.mp hrecipients)
  | transformRecrypt backend from' target transformKey kem =>
    obtain ⟨-, -, before, c, after, ct, -, -, -, -, -, -, rfl⟩ := transformRecrypt_eq_ok.mp h
    refine ⟨hs.recipients, fun hnil => ?_⟩
    exact List.append_ne_nil_of_right_ne_nil _ (List.cons_ne_nil _ _) hnil.2

lemma inStep_of_reachable (h : Reachable curves aead blake3 host source s) : s.InStep curves := by
  induction h with
  | sealMixed h => exact inStep_of_sealMixed h
  | fromCbor _ h => exact inStep_of_fromCbor h
  | rewrap _ h ih => exact inStep_of_rewrap ih h

/-! ### What a commitment says of the wraps -/

/-- The encapsulations of the targets are what the wraps are addressed to. -/
lemma encapsulations_of_inStep (h : s.InStep curves) :
    s.targets.mapM (WrapPublic.encapsulation curves) = .ok (s.wraps.map Wrap.encapsulation) := by
  rw [mapM_eq_ok, List.forall₂_map_right_iff]
  exact (h.recipients.imp fun w t hw => hw.encapsulation).flip

/-- Wraps of the same targets, in any order, are addressed to the same keys. -/
lemma encapsulations_perm (hs : s.InStep curves) (hs' : s'.InStep curves)
    (h : s.targets.Perm s'.targets) :
    (s.wraps.map Wrap.encapsulation).Perm (s'.wraps.map Wrap.encapsulation) := by
  have hread := mapM_eq_ok.mp (encapsulations_of_inStep hs)
  have hread' := mapM_eq_ok.mp (encapsulations_of_inStep hs')
  exact List.rel_perm_imp (fun t e e' he he' => Except.ok.inj (he.symm.trans he')) hread hread' h

/-- **The committed access set is the real one.**  However a share was come by: it has as many wraps
as targets; each wrap is addressed to its target, at the epoch of the share; it has a wrap or
a capsule; and shares of one access commitment have wraps addressed to the same keys. -/
theorem committed_access_is_real
    (h : Reachable curves aead blake3 host (fun _ => True) s) :
    s.wraps.length = s.targets.length ∧
    (∀ (i : ℕ) (w : Wrap) (t : WrapPublic), s.wraps[i]? = some w →
      s.targets[i]? = some t →
      t.encapsulation curves = .ok { alg := w.alg, recipient := w.recipient } ∧
        w.epoch = s.epoch) ∧
    (s.wraps ≠ [] ∨ s.recrypt ≠ []) ∧
    ∀ s', Reachable curves aead blake3 host (fun _ => True) s' →
      s.AccessFits host → s'.AccessFits host →
      Set.InjOn blake3 {s.accessMaterial host, s'.accessMaterial host} →
      s.accessCommitment blake3 host = s'.accessCommitment blake3 host →
      (s.wraps.map Wrap.encapsulation).Perm (s'.wraps.map Wrap.encapsulation) := by
  have hs := inStep_of_reachable h
  refine ⟨hs.recipients.length_eq, fun i w t hw ht => ?_, ?_, ?_⟩
  · obtain ⟨hi, rfl⟩ := List.getElem?_eq_some_iff.mp hw
    obtain ⟨hi', rfl⟩ := List.getElem?_eq_some_iff.mp ht
    have haddressed := hs.recipients.get hi hi'
    exact ⟨haddressed.encapsulation, haddressed.epoch⟩
  · exact not_and_or.mp hs.nonempty
  · intro s' h' hfit hfit' hblake3 hsame
    have hmaterial : s.accessMaterial host = s'.accessMaterial host :=
      hblake3 (by simp) (by simp) hsame
    obtain ⟨htargets, -⟩ :=
      parts_perm_iff.mp ((accessMaterial_eq_iff hfit hfit').mp hmaterial)
    exact encapsulations_perm hs (inStep_of_reachable h') htargets

/-- The sample share, sealed at epoch 0 and rotated to epoch 1. -/
lemma sampleShare_reachable (source : Bytes → Prop) :
    Reachable sampleCurves Aead.clear sampleHash Host.plain source (sampleShare 1) := by
  have hsealed : Reachable sampleCurves Aead.clear sampleHash Host.plain source
      (sampleShare 0) := .sealMixed sampleShare_sealed
  have hrotated : (sampleRotate 1).apply Aead.clear sampleHash (sampleShare 0) =
      .ok (sampleShare 1) := sampleShare_rotated
  exact .rewrap hsealed hrotated

/-- The wrap of the rotated share is addressed to its target, at the new epoch. -/
theorem committed_access_is_real_alice :
    (WrapPublic.X25519 alicePublic).encapsulation sampleCurves =
        .ok { alg := (sampleWrap 1).alg, recipient := (sampleWrap 1).recipient } ∧
      (sampleWrap 1).epoch = (sampleShare 1).epoch :=
  (committed_access_is_real (sampleShare_reachable _)).2.1 0 _ _ rfl rfl

end Identikey.Share
