/-
The parts of a wallet file.

A file is told by its salt, its nonce and its ciphertext, and every file that passes the
checks of magic and version is made of these.  Decryption looks at all of them but the
salt.
-/
import Identikey.Wallet.Format

namespace Identikey.Wallet

open Lib Lib.Fallible Auth Dcbor Gordian Secret

variable {params : WalletParams} {salt salt' : Salt} {nonce nonce' : Nonce} {c c' : Bytes}

/-! ### The shell -/

lemma length_shell : (shell salt nonce c).length = 62 + c.length := by
  simp only [shell, MAGIC, List.length_append, List.length_cons, List.length_nil, salt.2, nonce.2]

lemma checkShell_shell : checkShell params (shell salt nonce c) = .ok () := by
  have hmagic : (shell salt nonce c).take 5 = MAGIC := rfl
  have hversion : (shell salt nonce c).getD 5 0 = VERSION := rfl
  unfold checkShell
  rw [hmagic, hversion]
  rfl

lemma slice_salt (h : 6 + 32 ≤ (shell salt nonce c).length) :
    slice (shell salt nonce c) 6 32 h = salt := by
  have hdrop : (shell salt nonce c).drop 6 = salt.val ++ (nonce.val ++ c) := by
    rw [← List.append_assoc]
    rfl
  refine Subtype.ext ?_
  show ((shell salt nonce c).drop 6).take 32 = salt.val
  rw [hdrop, List.take_left' salt.2]

lemma drop_shell : (shell salt nonce c).drop 38 = nonce.val ++ c := by
  have hlen : (MAGIC ++ [VERSION] ++ salt.val).length = 38 := by
    rw [List.length_append, salt.2]
    rfl
  rw [shell, List.append_assoc, List.drop_left' hlen]

lemma slice_nonce (h : 38 + 24 ≤ (shell salt nonce c).length) :
    slice (shell salt nonce c) 38 24 h = nonce := by
  refine Subtype.ext ?_
  show ((shell salt nonce c).drop 38).take 24 = nonce.val
  rw [drop_shell, List.take_left' nonce.2]

lemma ciphertext_shell : (shell salt nonce c).drop 62 = c := by
  have hdrop : (shell salt nonce c).drop 62 = ((shell salt nonce c).drop 38).drop 24 := by
    rw [List.drop_drop]
  rw [hdrop, drop_shell, List.drop_left' nonce.2]

lemma shell_inj (h : shell salt nonce c = shell salt' nonce' c') :
    salt = salt' ∧ nonce = nonce' ∧ c = c' := by
  have hsalt : 6 + 32 ≤ (shell salt nonce c).length := by rw [length_shell]; omega
  have hnonce : 38 + 24 ≤ (shell salt nonce c).length := by rw [length_shell]; omega
  refine ⟨?_, ?_, ?_⟩
  · rw [← slice_salt hsalt]
    simp only [h, slice_salt]
  · rw [← slice_nonce hnonce]
    simp only [h, slice_nonce]
  · rw [← @ciphertext_shell salt nonce c, h, ciphertext_shell]

/-- A file that passes the checks is a shell. -/
lemma exists_shell {data : Bytes} (hlen : 62 ≤ data.length)
    (h : checkShell params data = .ok ()) : ∃ salt nonce c, data = shell salt nonce c := by
  unfold checkShell at h
  simp only [bind_eq_ok, ensure_eq_ok] at h
  obtain ⟨_, hmagic, _, -, hversion⟩ := h
  refine ⟨slice data 6 32 (by omega), slice data 38 24 (by omega), data.drop 62, ?_⟩
  have hfirst : data.take 6 = MAGIC ++ [VERSION] := by
    rw [List.take_succ_eq_append_getElem (by omega), hmagic, ← hversion,
      List.getD_eq_getElem _ _ (by omega)]
  calc data = data.take 6 ++ (data.drop 6).take 32 ++ (data.drop 38).take 24 ++ data.drop 62 := by
        rw [← List.take_add, ← List.take_add, List.take_append_drop]
    _ = shell _ _ _ := by rw [hfirst]; rfl

/-! ### Opening and closing -/

lemma extractSalt_shell : extractSalt params (shell salt nonce c) = .ok salt := by
  have hlen : 6 + 32 ≤ (shell salt nonce c).length := by rw [length_shell]; omega
  rw [extractSalt, dif_pos hlen, checkShell_shell, ok_bind, slice_salt]
  rfl

section Codec

variable {host : Host} {I : Type} {codec : WalletIdentity I} {aead : Aead}
  {reader : EnvelopeReader host} {key : Key} {wallet : WalletData I}

/-- What is decrypted is a shell, and its salt is not looked at. -/
lemma decryptWalletWithKey_eq_ok {data : Bytes} :
    decryptWalletWithKey params codec aead reader data key = .ok wallet ↔
      ∃ salt nonce c b, data = shell salt nonce c ∧ 16 ≤ c.length ∧
        aead.decrypt key nonce [] c = some b ∧ fromEnvelope codec params reader b = .ok wallet := by
  constructor
  · intro h
    unfold decryptWalletWithKey at h
    split_ifs at h with hlen
    obtain ⟨_, hshell, hopen⟩ := bind_eq_ok.mp h
    obtain ⟨b, hb, hread⟩ := bind_eq_ok.mp hopen
    rw [okOr_eq_ok] at hb
    obtain ⟨salt, nonce, c, rfl⟩ := exists_shell (by omega) hshell
    rw [slice_nonce, ciphertext_shell] at hb
    rw [length_shell] at hlen
    exact ⟨salt, nonce, c, b, rfl, by omega, hb, hread⟩
  · rintro ⟨salt, nonce, c, b, rfl, hlen, hb, h⟩
    unfold decryptWalletWithKey
    rw [dif_pos (by rw [length_shell]; omega), checkShell_shell, ok_bind]
    simp only [slice_nonce, ciphertext_shell, hb]
    exact h

lemma encryptWalletWithKeyNonce_eq_ok {f : Bytes} :
    encryptWalletWithKeyNonce params host codec aead wallet key salt nonce = .ok f ↔
      ∃ b c, toEnvelope host codec params wallet = .ok b ∧
        aead.encrypt key nonce [] b = some c ∧ f = shell salt nonce c := by
  unfold encryptWalletWithKeyNonce
  simp only [bind_eq_ok, okOr_eq_ok, pure_eq_ok]
  constructor
  · rintro ⟨b, hb, c, hc, rfl⟩
    exact ⟨b, c, hb, hc, rfl⟩
  · rintro ⟨b, c, hb, hc, rfl⟩
    exact ⟨b, hb, c, hc, rfl⟩

/-- What was encrypted is decrypted to the bytes of the container. -/
lemma decrypt_of_encrypt {f : Bytes}
    (h : encryptWalletWithKeyNonce params host codec aead wallet key salt nonce = .ok f) :
    ∃ b, toEnvelope host codec params wallet = .ok b ∧ b.length < 2 ^ 38 ∧
      extractSalt params f = .ok salt ∧
      ∀ wallet', decryptWalletWithKey params codec aead reader f key = .ok wallet' ↔
        fromEnvelope codec params reader b = .ok wallet' := by
  obtain ⟨b, c, hb, hc, rfl⟩ := encryptWalletWithKeyNonce_eq_ok.mp h
  have hopen := aead.decrypt_encrypt _ _ _ _ _ hc
  refine ⟨b, hb, aead.length_lt _ _ _ _ _ hc, extractSalt_shell, fun wallet' => ?_⟩
  rw [decryptWalletWithKey_eq_ok]
  constructor
  · rintro ⟨salt', nonce', c', b', heq, -, hb', h'⟩
    obtain ⟨-, rfl, rfl⟩ := shell_inj heq
    rwa [← Option.some.inj (hopen.symm.trans hb')] at h'
  · intro h'
    refine ⟨salt, nonce, c, b, rfl, ?_, hopen, h'⟩
    rw [aead.length_encrypt _ _ _ _ _ hc]
    omega

end Codec

end Identikey.Wallet
