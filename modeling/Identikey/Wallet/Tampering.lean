/-
Files that were tampered with.

With an ideal cipher the tag covers the ciphertext, the nonce by its use, and the checks
cover magic and version.  Nothing covers the salt: a file with another salt opens as the
first did, and is saved again with that other salt.  The cipher is ideal at the time of a
decryption; a save after it encrypts under the same key.
-/
import Identikey.Wallet.FormatExact
import Identikey.Wallet.Preserve
import Identikey.Wallet.StorageSafety

namespace Identikey.Wallet

open Lib Lib.Fallible Auth Dcbor Gordian Secret

variable {params : WalletParams} {host : Host} {I : Type} {codec : WalletIdentity I} {aead : Aead}
  {reader : EnvelopeReader host} {key : Key} {salt : Salt} {nonce : Nonce}

/-! ### Files that differ in the salt -/

/-- The files have the same bytes outside of the salt, and the same length. -/
def SameButSalt (f f' : Bytes) : Prop := ∀ i, i < 6 ∨ 38 ≤ i → f'[i]? = f[i]?

lemma sameButSalt_iff {c f' : Bytes} :
    SameButSalt (shell salt nonce c) f' ↔ ∃ salt', f' = shell salt' nonce c := by
  constructor
  · intro h
    have htake : f'.take 6 = MAGIC ++ [VERSION] := by
      refine (List.ext_getElem? fun i => ?_ : f'.take 6 = (shell salt nonce c).take 6)
      by_cases hi : i < 6
      · rw [List.getElem?_take_of_lt hi, List.getElem?_take_of_lt hi, h i (.inl hi)]
      · rw [List.getElem?_take_eq_none (by omega), List.getElem?_take_eq_none (by omega)]
    have hdrop : f'.drop 38 = nonce.val ++ c := by
      rw [← @drop_shell salt nonce c]
      refine List.ext_getElem? fun i => ?_
      rw [List.getElem?_drop, List.getElem?_drop, h _ (.inr (Nat.le_add_right 38 i))]
    have hlen := congrArg List.length hdrop
    rw [List.length_drop, List.length_append, nonce.2] at hlen
    refine ⟨slice f' 6 32 (by omega), ?_⟩
    calc f' = f'.take 6 ++ (f'.drop 6).take 32 ++ f'.drop 38 := by
          rw [← List.take_add, List.take_append_drop]
      _ = shell _ nonce c := by rw [htake, hdrop, ← List.append_assoc]; rfl
  · rintro ⟨salt', rfl⟩ i (hi | hi)
    · rw [← List.getElem?_take_of_lt hi, ← List.getElem?_take_of_lt (l := shell salt nonce c) hi]
      rfl
    · obtain ⟨j, rfl⟩ := Nat.exists_eq_add_of_le hi
      rw [← List.getElem?_drop, ← List.getElem?_drop, drop_shell, drop_shell]

/-- The salt is not looked at. -/
lemma decryptWalletWithKey_salt (salt' : Salt) (c : Bytes) :
    decryptWalletWithKey params codec aead reader (shell salt' nonce c) key =
      decryptWalletWithKey params codec aead reader (shell salt nonce c) key := by
  unfold decryptWalletWithKey
  simp only [length_shell, checkShell_shell, slice_nonce, ciphertext_shell]

/-- What the file `f'` asks of the cipher is answered only if it is what the file `f` holds: when
`f'` is decrypted, nothing but `f` was encrypted under the key. -/
def OpensOnly (aead : Aead) (key : Key) (f f' : Bytes) : Prop :=
  ∀ h : 62 ≤ f'.length, (aead.decrypt key (slice f' 38 24 h) [] (f'.drop 62)).isSome →
    f'.drop 38 = f.drop 38

/-- An ideal cipher that has made one file opens only that. -/
lemma opensOnly_of_produced {c : Bytes} (hideal : aead.Produced key [(nonce, [], c)])
    (f' : Bytes) : OpensOnly aead key (shell salt nonce c) f' := by
  intro hlen hopen
  have hmem := List.mem_singleton.mp (hideal _ _ _ hopen)
  obtain ⟨hnonce, heq⟩ := Prod.mk.inj hmem
  obtain ⟨-, hc⟩ := Prod.mk.inj heq
  calc f'.drop 38 = (f'.drop 38).take 24 ++ (f'.drop 38).drop 24 :=
        (List.take_append_drop 24 _).symm
    _ = nonce.val ++ f'.drop 62 := by rw [List.drop_drop, ← hnonce]; rfl
    _ = nonce.val ++ c := by rw [hc]
    _ = (shell salt nonce c).drop 38 := drop_shell.symm

/-- Where the cipher opens only the file that was made, nothing else opens, but for its salt. -/
lemma sameButSalt_of_decrypt {c f' : Bytes} {wallet : WalletData I}
    (hideal : OpensOnly aead key (shell salt nonce c) f')
    (h : decryptWalletWithKey params codec aead reader f' key = .ok wallet) :
    SameButSalt (shell salt nonce c) f' := by
  obtain ⟨salt', nonce', c', b, rfl, -, hopen, -⟩ := decryptWalletWithKey_eq_ok.mp h
  have hlen : 62 ≤ (shell salt' nonce' c').length := by rw [length_shell]; omega
  have hsame := hideal hlen (by rw [slice_nonce, ciphertext_shell, hopen]; rfl)
  rw [drop_shell, drop_shell] at hsame
  obtain ⟨hnonce, rfl⟩ := List.append_inj hsame (nonce'.2.trans nonce.2.symm)
  obtain rfl := Subtype.ext hnonce
  exact sameButSalt_iff.mpr ⟨salt', rfl⟩

/-! ### Loading and saving again -/

/-- The prompts are not answered. -/
def unanswered : PasswordInput := { env := none, first := none, second := none }

/-- A wallet that is loaded without a password is opened by the cached key. -/
lemma loadWithProvider_cached {deriveKey : String → Salt → Except WalletError Key} {f : Bytes}
    {fresh : Salt} {wallet : Wallet I}
    (h : loadWithProvider params host codec aead reader deriveKey (.present f) (some key) unanswered
      fresh = .ok wallet) :
    decryptWalletWithKey params codec aead reader f key = .ok wallet.data ∧ wallet.key = key ∧
      extractSalt params f = .ok wallet.salt := by
  obtain ⟨salt, hsalt, h⟩ := bind_eq_ok.mp h
  rw [mapError_eq_ok] at hsalt
  rw [Option.bind_some] at h
  unfold openWith at h
  cases hopen : decryptWalletWithKey params codec aead reader f key with
  | ok data =>
    rw [hopen] at h
    obtain rfl := pure_eq_ok.mp h
    exact ⟨rfl, rfl, hsalt⟩
  | error e =>
    rw [hopen] at h
    cases h

/-- A wallet that is saved as an existing one keeps its salt. -/
lemma saveWithProvider_existing {deriveKey : String → Salt → Except WalletError Key}
    {wallet : Wallet I} {input : PasswordInput} {fresh : Salt} {writable : Bool} {f : Bytes}
    (h : (saveWithProvider params host codec aead deriveKey wallet false input fresh nonce
      writable).2 = .ok f) : extractSalt params f = .ok wallet.salt := by
  obtain ⟨f', hf', hwrite⟩ := bind_eq_ok.mp h
  rw [mapError_eq_ok] at hf'
  obtain ⟨_, -, hpure⟩ := bind_eq_ok.mp hwrite
  obtain rfl := pure_eq_ok.mp hpure
  obtain ⟨b, c, -, -, rfl⟩ := encryptWalletWithKeyNonce_eq_ok.mp hf'
  exact extractSalt_shell

/-- **A file that was tampered with is refused, unless only its salt was changed.**  Then it opens
as it did before; a load with the cached key and a save write the salt that was in the header, which
is the one the file was made with if and only if it was not tampered with.  Of the cipher only the
decryption of the load is asked to be ideal: the save encrypts under the same key. -/
theorem decryptWalletWithKey_tampered {wallet : WalletData I} {f : Bytes}
    (hf : encryptWalletWithKeyNonce params host codec aead wallet key salt nonce = .ok f) :
    (aead.Produced key [(nonce, [], f.drop 62)] → ∀ f', ¬ SameButSalt f f' →
      ∃ e, decryptWalletWithKey params codec aead reader f' key = .error e) ∧
    (∀ f', SameButSalt f f' → decryptWalletWithKey params codec aead reader f' key =
      decryptWalletWithKey params codec aead reader f key) ∧
    ∀ f' f'' (deriveKey : String → Salt → Except WalletError Key) (loaded : Wallet I)
      (input : PasswordInput) (fresh fresh' : Salt) (nonce' : Nonce) (writable : Bool),
      OpensOnly aead key f f' →
      loadWithProvider params host codec aead reader deriveKey (.present f') (some key) unanswered
        fresh = .ok loaded →
      (saveWithProvider params host codec aead deriveKey loaded false input fresh' nonce'
        writable).2 = .ok f'' →
      extractSalt params f'' = extractSalt params f' ∧
        (extractSalt params f'' = .ok salt ↔ f' = f) := by
  obtain ⟨b, c, -, -, rfl⟩ := encryptWalletWithKeyNonce_eq_ok.mp hf
  refine ⟨fun hideal f' hne => ?_, fun f' h => ?_, ?_⟩
  · rw [ciphertext_shell] at hideal
    cases h : decryptWalletWithKey params codec aead reader f' key with
    | error e => exact ⟨e, rfl⟩
    | ok w => exact absurd (sameButSalt_of_decrypt (opensOnly_of_produced hideal f') h) hne
  · obtain ⟨salt', rfl⟩ := sameButSalt_iff.mp h
    exact decryptWalletWithKey_salt salt' c
  · intro f' f'' deriveKey loaded input fresh fresh' nonce' writable hideal hload hsave
    obtain ⟨hopen, -, hsalt⟩ := loadWithProvider_cached hload
    rw [saveWithProvider_existing hsave]
    refine ⟨hsalt.symm, ?_⟩
    obtain ⟨salt', rfl⟩ := sameButSalt_iff.mp (sameButSalt_of_decrypt hideal hopen)
    rw [extractSalt_shell] at hsalt
    obtain rfl := Except.ok.inj hsalt
    constructor
    · intro h
      rw [Except.ok.inj h]
    · intro h
      rw [(shell_inj h).1]

/-- The container of a wallet whose active identity is Alice. -/
def aliceContainer : Bytes :=
  (walletEnvelope Host.plain IDENTIKEY_PARAMS (activeWallet "alice")).toCborData Host.plain

/-- The ideal cipher after this container was encrypted under these nonces. -/
def aliceCipher (nonces : List Nonce) : Aead :=
  .used (nonces.map fun nonce => (fill 32 0, nonce, [], aliceContainer))
    (List.forall_mem_map.mpr fun _ _ =>
      (by decide : aliceContainer.length < 2 ^ 38))

/-- Its file, with a salt and a nonce. -/
def aliceFile (salt : Salt) (nonce : Nonce) : Bytes :=
  shell salt nonce (aliceContainer ++ Aead.clearTag)

section Alice

variable {nonces : List Nonce}

lemma encrypt_alice (hnonce : nonce ∈ nonces) {wallet : WalletData BasicIdentity}
    (hwallet : toEnvelope Host.plain (BasicIdentity.codec Host.plain fun _ => fill 32 0)
      IDENTIKEY_PARAMS wallet = .ok aliceContainer) (salt : Salt) :
    encryptWalletWithKeyNonce IDENTIKEY_PARAMS Host.plain
      (BasicIdentity.codec Host.plain fun _ => fill 32 0) (aliceCipher nonces) wallet (fill 32 0)
      salt nonce = .ok (aliceFile salt nonce) :=
  encryptWalletWithKeyNonce_eq_ok.mpr
    ⟨_, _, hwallet, Aead.encrypt_used (List.mem_map_of_mem hnonce), rfl⟩

lemma toEnvelope_alice :
    toEnvelope Host.plain (BasicIdentity.codec Host.plain fun _ => fill 32 0) IDENTIKEY_PARAMS
      (activeWallet "alice") = .ok aliceContainer := by
  have hfp : ∀ x ∈ (activeWallet "alice").identities.entries,
      x.2.fingerprint = (fun _ => fill 32 0) x.2.ed25519.publicKey :=
    fun x hx => absurd hx List.not_mem_nil
  exact (@toEnvelope_eq_ok Host.plain (fun _ => fill 32 0) IDENTIKEY_PARAMS _ _).mpr ⟨hfp, rfl⟩

lemma produced_alice (salt : Salt) : (aliceCipher [nonce]).Produced (fill 32 0)
    [(nonce, [], (aliceFile salt nonce).drop 62)] := by
  rw [aliceFile, ciphertext_shell]
  exact Aead.produced_used _

/-- The file opens, and what is in it is written again as it was. -/
lemma decrypt_alice (hnonce : nonce ∈ nonces) (salt : Salt) : ∃ wallet,
    decryptWalletWithKey IDENTIKEY_PARAMS (BasicIdentity.codec Host.plain fun _ => fill 32 0)
      (aliceCipher nonces) (EnvelopeReader.canonical Host.plain) (aliceFile salt nonce)
      (fill 32 0) = .ok wallet ∧
    toEnvelope Host.plain (BasicIdentity.codec Host.plain fun _ => fill 32 0) IDENTIKEY_PARAMS
      wallet = .ok aliceContainer := by
  have hfp : ∀ x ∈ (activeWallet "alice").identities.entries,
      x.2.fingerprint = (fun _ => fill 32 0) x.2.ed25519.publicKey :=
    fun x hx => absurd hx List.not_mem_nil
  obtain ⟨e, wallet, he, hplain, hread, -⟩ := @exists_plain_of_storable Host.plain
    (fun _ => fill 32 0) IDENTIKEY_PARAMS _ (EnvelopeReader.canonical Host.plain)
    (activeWallet_foreign "alice") hfp (activeWallet_storable "alice") (by decide)
  refine ⟨wallet, ?_, toEnvelope_of_plain he hplain hread⟩
  have hmsg := (aliceCipher nonces).decrypt_encrypt _ _ _ _ _
    (Aead.encrypt_used (List.mem_map_of_mem hnonce))
  have hlen : 16 ≤ (aliceContainer ++ Aead.clearTag).length := by
    rw [List.length_append]
    exact Nat.le_add_left _ _
  exact decryptWalletWithKey_eq_ok.mpr
    ⟨salt, nonce, _, aliceContainer, rfl, hlen, hmsg, fromEnvelope_eq_ok.mpr ⟨e, he, hread⟩⟩

end Alice

/-- The file of Alice's wallet with one byte of its nonce changed is refused.  With another salt it
is loaded by the cached key, and saved under a fresh nonce it has that other salt. -/
theorem decryptWalletWithKey_tampered_alice :
    (∃ e, decryptWalletWithKey IDENTIKEY_PARAMS
      (BasicIdentity.codec Host.plain fun _ => fill 32 0) (aliceCipher [fill 24 0])
      (EnvelopeReader.canonical Host.plain)
      (aliceFile (fill 32 0) ⟨1 :: List.replicate 23 0, rfl⟩) (fill 32 0) = .error e) ∧
    ∃ loaded f'', loadWithProvider IDENTIKEY_PARAMS Host.plain
        (BasicIdentity.codec Host.plain fun _ => fill 32 0) (aliceCipher [fill 24 0, fill 24 9])
        (EnvelopeReader.canonical Host.plain) deriveSame
        (.present (aliceFile (fill 32 1) (fill 24 0))) (some (fill 32 0)) unanswered (fill 32 2) =
          .ok loaded ∧
      (saveWithProvider IDENTIKEY_PARAMS Host.plain
        (BasicIdentity.codec Host.plain fun _ => fill 32 0) (aliceCipher [fill 24 0, fill 24 9])
        deriveSame loaded false unanswered (fill 32 2) (fill 24 9) true).2 = .ok f'' ∧
      extractSalt IDENTIKEY_PARAMS f'' ≠ .ok (fill 32 0) := by
  constructor
  · refine (decryptWalletWithKey_tampered (encrypt_alice List.mem_cons_self toEnvelope_alice
      (fill 32 0))).1 (produced_alice _) _ fun h => ?_
    have hnonce := h 38 (by decide)
    exact absurd hnonce (by decide)
  · obtain ⟨wallet, hopen, hwallet⟩ := @decrypt_alice (fill 24 0) [fill 24 0, fill 24 9]
      List.mem_cons_self (fill 32 1)
    have hload : loadWithProvider IDENTIKEY_PARAMS Host.plain
        (BasicIdentity.codec Host.plain fun _ => fill 32 0) (aliceCipher [fill 24 0, fill 24 9])
        (EnvelopeReader.canonical Host.plain) deriveSame
        (.present (aliceFile (fill 32 1) (fill 24 0))) (some (fill 32 0)) unanswered
        (fill 32 2) = .ok { data := wallet, key := fill 32 0, salt := fill 32 1 } := by
      refine bind_eq_ok.mpr ⟨fill 32 1, mapError_eq_ok.mpr extractSalt_shell, ?_⟩
      rw [Option.bind_some, openWith, hopen]
      rfl
    have hsave : (saveWithProvider IDENTIKEY_PARAMS Host.plain
        (BasicIdentity.codec Host.plain fun _ => fill 32 0) (aliceCipher [fill 24 0, fill 24 9])
        deriveSame { data := wallet, key := fill 32 0, salt := fill 32 1 } false unanswered
        (fill 32 2) (fill 24 9) true).2 = .ok (aliceFile (fill 32 1) (fill 24 9)) := by
      have hencrypt := @encrypt_alice (fill 24 9) [fill 24 0, fill 24 9]
        (List.mem_cons_of_mem _ List.mem_cons_self) wallet hwallet (fill 32 1)
      refine bind_eq_ok.mpr ⟨_, mapError_eq_ok.mpr hencrypt, rfl⟩
    refine ⟨_, _, hload, hsave, fun hsalt => ?_⟩
    have hideal : OpensOnly (aliceCipher [fill 24 0, fill 24 9]) (fill 32 0)
        (aliceFile (fill 32 0) (fill 24 0)) (aliceFile (fill 32 1) (fill 24 0)) := fun _ _ => by
      rw [aliceFile, aliceFile, drop_shell, drop_shell]
    have hkept := ((decryptWalletWithKey_tampered
      (encrypt_alice List.mem_cons_self toEnvelope_alice (fill 32 0))).2.2 _ _ deriveSame _
        unanswered (fill 32 2) (fill 32 2) (fill 24 9) true hideal hload hsave).2.mp hsalt
    exact absurd (shell_inj hkept).1 (by decide)

/-- The file of Alice's wallet opens with another salt as well. -/
theorem decryptWalletWithKey_salted :
    ¬ ∀ (params : WalletParams) (host : Host) (codec : WalletIdentity BasicIdentity) (aead : Aead)
      (reader : EnvelopeReader host) (wallet : WalletData BasicIdentity) (key : Key) (salt : Salt)
      (nonce : Nonce) (f : Bytes),
      encryptWalletWithKeyNonce params host codec aead wallet key salt nonce = .ok f →
      aead.Produced key [(nonce, [], f.drop 62)] →
      ∀ f', f' ≠ f → ∃ e, decryptWalletWithKey params codec aead reader f' key = .error e := by
  intro hall
  obtain ⟨w, hopen, -⟩ := @decrypt_alice (fill 24 0) [fill 24 0] List.mem_cons_self (fill 32 1)
  have hne : aliceFile (fill 32 1) (fill 24 0) ≠ aliceFile (fill 32 0) (fill 24 0) := by
    intro h
    exact absurd (shell_inj h).1 (by decide)
  obtain ⟨e, he⟩ := hall _ _ _ _ (EnvelopeReader.canonical Host.plain) _ _ _ _ _
    (encrypt_alice List.mem_cons_self toEnvelope_alice _) (produced_alice _) _ hne
  cases hopen.symm.trans he

end Identikey.Wallet
