/-
What a wrap opens to.

A wrap holds the DEK it was sealed with, whoever opens it: the recipient's secret gives
the same Diffie-Hellman secret as the ephemeral one, and so the same key.  A secret of
another kind than the wrap asks for has an encapsulation key of another length.  So a key that was
wrapped on its own is unwrapped by its recipient and by nobody else.
-/
import Identikey.Share.ShareExact

set_option linter.dupNamespace false

namespace Identikey.Share

open Lib Lib.Fallible Auth Dcbor

variable {curves : Curves} {aead : Aead} {blake3 : Bytes → Digest32} {host : Host}

/-! ### The encapsulation keys of secrets -/

lemma publicKey_x25519 (seed : ByteArrayOf 32) :
    (WrapSecret.X25519 seed).publicKey curves = .ok (.X25519 (curves.x25519Public seed)) :=
  x25519_eq_ok.mpr ⟨curves.x25519Public_not_small seed, rfl⟩

lemma publicKey_ed25519 (seed : ByteArrayOf 32) :
    (WrapSecret.Ed25519Seed seed).publicKey curves = .ok (.Ed25519 (curves.verifyingKey seed)) :=
  ed25519_eq_ok.mpr ⟨⟨_, curves.toMontgomery_verifyingKey seed, curves.x25519Public_not_small _⟩,
    rfl⟩

lemma publicKey_p256 {scalar : ByteArrayOf 32} (h : curves.isScalar scalar = true) :
    (WrapSecret.P256Scalar scalar).publicKey curves =
      .ok (.P256 (curves.p256Public ⟨scalar, h⟩)) := by
  rw [WrapSecret.publicKey, dif_pos h]
  exact p256_eq_ok.mpr ⟨curves.isPoint_p256Public _, rfl⟩

lemma isScalar_of_publicKey {scalar : ByteArrayOf 32} {t : WrapPublic}
    (h : (WrapSecret.P256Scalar scalar).publicKey curves = .ok t) :
    curves.isScalar scalar = true := by
  rw [WrapSecret.publicKey] at h
  split_ifs at h with hscalar
  exact hscalar

/-- A public key that was derived passes the checks of its constructor. -/
lemma made_of_publicKey {secret : WrapSecret} {t : WrapPublic}
    (h : secret.publicKey curves = .ok t) : t.Made curves := by
  cases secret with
  | X25519 seed => exact .x25519 h
  | Ed25519Seed seed => exact .ed25519 h
  | P256Scalar scalar =>
    rw [WrapSecret.publicKey, dif_pos (isScalar_of_publicKey h)] at h
    exact .p256 h

lemma encapsulation_ed25519 (seed : ByteArrayOf 32) :
    (WrapPublic.Ed25519 (curves.verifyingKey seed)).encapsulation curves =
      .ok { alg := ALG_X25519,
            recipient := (curves.x25519Public (curves.seedToX25519 seed)).val } := by
  rw [WrapPublic.encapsulation, ed25519ToX25519, curves.toMontgomery_verifyingKey]
  rfl

lemma encapsulationPublic_eq_ok {secret : WrapSecret} {r : Bytes} :
    secret.encapsulationPublic curves = .ok r ↔
      ∃ t enc, secret.publicKey curves = .ok t ∧ t.encapsulation curves = .ok enc ∧
        enc.recipient = r := by
  unfold WrapSecret.encapsulationPublic
  simp only [bind_eq_ok, pure_eq_ok]
  constructor
  · rintro ⟨t, ht, enc, henc, rfl⟩
    exact ⟨t, enc, ht, henc, rfl⟩
  · rintro ⟨t, enc, ht, henc, rfl⟩
    exact ⟨t, ht, enc, henc, rfl⟩

lemma encapsulation_of_publicKey {secret : WrapSecret} {t : WrapPublic}
    (h : secret.publicKey curves = .ok t) : ∃ enc, t.encapsulation curves = .ok enc := by
  cases secret with
  | X25519 seed =>
    rw [publicKey_x25519, Except.ok.injEq] at h
    subst h
    exact ⟨_, rfl⟩
  | Ed25519Seed seed =>
    rw [publicKey_ed25519, Except.ok.injEq] at h
    subst h
    exact ⟨_, encapsulation_ed25519 seed⟩
  | P256Scalar scalar =>
    have hscalar := isScalar_of_publicKey h
    rw [publicKey_p256 hscalar, Except.ok.injEq] at h
    subst h
    exact ⟨_, rfl⟩

/-! ### Sealing -/

/-- The wrap holds the key: it was sealed to its recipient with some ephemeral secret. -/
inductive Holds (curves : Curves) (aead : Aead) (blake3 : Bytes → Digest32) (dek : Key) (w : Wrap) :
    Prop where
  | x25519 {seed recipient : ByteArrayOf 32} (alg : w.alg = ALG_X25519)
      (recipient_eq : w.recipient = recipient.val)
      (ephemeral_eq : w.ephemeral = (curves.x25519Public seed).val)
      (not_small : isSmallOrder recipient = false)
      (contributory : curves.wasContributory (curves.x25519 seed recipient) = true)
      (ne_zero : (curves.x25519 seed recipient).val ≠ zeroKey)
      (ciphertext : aead.encrypt (wrapKdf blake3 (curves.x25519 seed recipient)
        (curves.x25519Public seed).val recipient.val) w.nonce [] dek.val = some w.ciphertext)
  | p256 {scalar : { k // curves.isScalar k }} {recipient : ByteArrayOf 33} (alg : w.alg = ALG_P256)
      (recipient_eq : w.recipient = recipient.val)
      (ephemeral_eq : w.ephemeral = (curves.p256Public scalar).val)
      (point : curves.isPoint recipient.val = true)
      (ne_zero : (curves.p256 scalar recipient.val).val ≠ zeroKey)
      (ciphertext : aead.encrypt (wrapKdf blake3 (curves.p256 scalar recipient.val)
        (curves.p256Public scalar).val recipient.val) w.nonce [] dek.val = some w.ciphertext)

lemma sealX25519_eq_ok {seed recipient : ByteArrayOf 32} {dek : Key} {nonce : ByteArrayOf 24}
    {c : Bytes} :
    sealX25519 curves aead blake3 seed recipient dek nonce = .ok c ↔
      isSmallOrder recipient = false ∧
        curves.wasContributory (curves.x25519 seed recipient) = true ∧
        (curves.x25519 seed recipient).val ≠ zeroKey ∧
        aead.encrypt (wrapKdf blake3 (curves.x25519 seed recipient) (curves.x25519Public seed).val
          recipient.val) nonce [] dek.val = some c := by
  unfold sealX25519
  simp only [bind_eq_ok, ensure_eq_ok, okOr_eq_ok, exists_and_left, exists_const]

/-- The encapsulation of a target. -/
lemma encapsulation_cases {t : WrapPublic} {enc : Encapsulation}
    (h : t.encapsulation curves = .ok enc) :
    (enc.alg = ALG_X25519 ∧ ∃ r : ByteArrayOf 32, enc.recipient = r.val) ∨
      (enc.alg = ALG_P256 ∧ ∃ r : ByteArrayOf 33, enc.recipient = r.val) := by
  cases t with
  | X25519 b =>
    obtain rfl := Except.ok.inj h
    exact .inl ⟨rfl, b, rfl⟩
  | Ed25519 b =>
    obtain ⟨r, -, h⟩ := bind_eq_ok.mp h
    obtain rfl := pure_eq_ok.mp h
    exact .inl ⟨rfl, r, rfl⟩
  | P256 b =>
    obtain rfl := Except.ok.inj h
    exact .inr ⟨rfl, b, rfl⟩

/-- **A sealed wrap is for its recipient and holds the key.** -/
theorem seal_holds {t : WrapPublic} {dek : Key} {epoch : UInt64} {coins : WrapCoins curves}
    {w : Wrap} (h : Wrap.seal curves aead blake3 t dek epoch coins = .ok w) :
    Holds curves aead blake3 dek w ∧
      t.encapsulation curves = .ok { alg := w.alg, recipient := w.recipient } ∧
      w.epoch = epoch := by
  obtain ⟨enc, henc, h⟩ := bind_eq_ok.mp h
  have hne : ALG_P256 ≠ ALG_X25519 := by decide
  rcases encapsulation_cases henc with ⟨halg, r, hr⟩ | ⟨halg, r, hr⟩
  · rw [if_pos halg] at h
    obtain ⟨r', hr', h⟩ := bind_eq_ok.mp h
    obtain ⟨c, hc, h⟩ := bind_eq_ok.mp h
    obtain rfl := pure_eq_ok.mp h
    rw [okOr_eq_ok, toArray_eq_some] at hr'
    obtain ⟨hsmall, hcontributory, hzero, hcipher⟩ := sealX25519_eq_ok.mp hc
    exact ⟨.x25519 rfl hr' rfl hsmall hcontributory hzero hcipher, by rw [henc, ← halg], rfl⟩
  · rw [if_neg (halg ▸ hne), if_pos halg] at h
    unfold sealP256 at h
    simp only [bind_eq_ok, ensure_eq_ok, okOr_eq_ok, pure_eq_ok, hr] at h
    obtain ⟨_, hpoint, _, hzero, c, hc, rfl⟩ := h
    exact ⟨.p256 rfl rfl rfl hpoint hzero hc, by rw [henc, ← halg, ← hr], rfl⟩

/-- The keys of a sealed wrap pass the checks of the parser. -/
lemma Holds.checkWrapKeys {dek : Key} {w : Wrap} (h : Holds curves aead blake3 dek w) :
    checkWrapKeys curves w.alg w.recipient w.ephemeral = .ok () := by
  have hne : ALG_P256 ≠ ALG_X25519 := by decide
  cases h with
  | @x25519 seed recipient alg hr he hsmall _ _ _ =>
    have harray : ∀ b : ByteArrayOf 32, toArray 32 b.val = some b := fun b =>
      toArray_eq_some.mpr rfl
    unfold Share.checkWrapKeys
    rw [if_pos alg, hr, he, harray, harray]
    simp only [okOr, ok_bind]
    rw [ensure_eq_ok]
    exact ⟨hsmall, curves.x25519Public_not_small seed⟩
  | @p256 scalar recipient alg hr he hpoint _ _ =>
    unfold Share.checkWrapKeys
    rw [if_neg (alg ▸ hne), if_pos alg, hr, he]
    simp only [bind_eq_ok, ensure_eq_ok]
    exact ⟨(), ⟨recipient.2, (curves.p256Public scalar).2⟩, (), hpoint,
      curves.isPoint_p256Public scalar⟩

/-- A wrap sealed to a key that its constructor accepted matches it. -/
lemma matches_of_seal {t : WrapPublic} (ht : t.Made curves) {dek : Key} {epoch : UInt64}
    {coins : WrapCoins curves} {w : Wrap}
    (h : Wrap.seal curves aead blake3 t dek epoch coins = .ok w) : Matches curves epoch w t := by
  obtain ⟨hholds, henc, hepoch⟩ := seal_holds h
  exact ⟨ht, hholds.checkWrapKeys, henc, hepoch⟩

/-! ### Opening -/

/-- The key of an X25519 wrap, from the recipient's scalar. -/
lemma openX25519_of_holds {scalar seed : ByteArrayOf 32} {w : Wrap}
    (hr : w.recipient = (curves.x25519Public scalar).val)
    (he : w.ephemeral = (curves.x25519Public seed).val)
    (hcontributory :
      curves.wasContributory (curves.x25519 seed (curves.x25519Public scalar)) = true)
    (hzero : (curves.x25519 seed (curves.x25519Public scalar)).val ≠ zeroKey) :
    openX25519 curves blake3 scalar w =
      .ok (wrapKdf blake3 (curves.x25519 seed (curves.x25519Public scalar))
        (curves.x25519Public seed).val (curves.x25519Public scalar).val) := by
  have harray : ∀ b : ByteArrayOf 32, toArray 32 b.val = some b := fun b => toArray_eq_some.mpr rfl
  have hsmall := curves.x25519Public_not_small
  rw [openX25519, hr, he, harray, harray]
  simp only [okOr, ok_bind]
  rw [dhKdfX25519]
  simp only [bind_eq_ok, ensure_eq_ok, pure_eq_ok]
  rw [curves.x25519_comm scalar seed]
  exact ⟨(), ⟨hsmall _, hsmall _⟩, (), hcontributory, (), hzero, rfl⟩

/-- Keys of different curves have different lengths. -/
lemma x25519_ne_p256 (a : ByteArrayOf 32) (b : ByteArrayOf 33) : a.val ≠ b.val := by
  intro hab
  have hlen := congrArg List.length hab
  rw [a.2, b.2] at hlen
  cases hlen

/-- A wrap for an X25519 key is an X25519 wrap, and the scalar of that key agrees on the key it is
encrypted with. -/
lemma Holds.openX25519 {dek : Key} {w : Wrap} (h : Holds curves aead blake3 dek w)
    {scalar : ByteArrayOf 32} (hrecipient : (curves.x25519Public scalar).val = w.recipient) :
    w.alg = ALG_X25519 ∧ ∃ key, openX25519 curves blake3 scalar w = .ok key ∧
      aead.encrypt key w.nonce [] dek.val = some w.ciphertext := by
  cases h with
  | x25519 alg hr he hsmall hcontributory hzero hc =>
    obtain rfl := Subtype.ext (hrecipient.trans hr)
    exact ⟨alg, _, openX25519_of_holds hr he hcontributory hzero, hc⟩
  | p256 alg hr => exact absurd (hrecipient.trans hr) (x25519_ne_p256 _ _)

lemma openWith_of_openKey {dek key : Key} {w : Wrap} {secret : WrapSecret}
    (hkey : openKey curves blake3 secret w = .ok key)
    (hc : aead.encrypt key w.nonce [] dek.val = some w.ciphertext) :
    openWith curves aead blake3 secret w = .ok dek := by
  have harray : toArray 32 dek.val = some dek := toArray_eq_some.mpr rfl
  rw [openWith, hkey, ok_bind, aead.decrypt_encrypt _ _ _ _ _ hc]
  simp only [okOr, ok_bind, harray]

/-- **Whoever has the encapsulation key of a wrap opens it to the key it holds.** -/
theorem openWith_of_holds {dek : Key} {w : Wrap} (h : Holds curves aead blake3 dek w)
    {secret : WrapSecret} (hs : secret.encapsulationPublic curves = .ok w.recipient) :
    openWith curves aead blake3 secret w = .ok dek := by
  obtain ⟨t, enc, ht, henc, hrecipient⟩ := encapsulationPublic_eq_ok.mp hs
  cases secret with
  | X25519 scalar =>
    rw [publicKey_x25519, Except.ok.injEq] at ht
    subst ht
    obtain rfl := Except.ok.inj henc
    obtain ⟨alg, key, hkey, hc⟩ := h.openX25519 hrecipient
    refine openWith_of_openKey ?_ hc
    rw [openKey, if_pos alg]
    exact hkey
  | Ed25519Seed seed =>
    rw [publicKey_ed25519, Except.ok.injEq] at ht
    subst ht
    rw [encapsulation_ed25519, Except.ok.injEq] at henc
    subst henc
    obtain ⟨alg, key, hkey, hc⟩ := h.openX25519 hrecipient
    refine openWith_of_openKey ?_ hc
    rw [openKey, if_pos alg]
    exact hkey
  | P256Scalar scalar =>
    have hscalar := isScalar_of_publicKey ht
    rw [publicKey_p256 hscalar, Except.ok.injEq] at ht
    subst ht
    obtain rfl := Except.ok.inj henc
    cases h with
    | x25519 alg hr => exact absurd (hr.symm.trans hrecipient.symm) (x25519_ne_p256 _ _)
    | @p256 k r alg hr he hpoint hzero hc =>
      obtain rfl := Subtype.ext (hrecipient.trans hr)
      refine openWith_of_openKey ?_ hc
      rw [openKey, if_pos alg, dhKdfP256, dif_pos hscalar, hr, he]
      simp only [bind_eq_ok, ensure_eq_ok, pure_eq_ok]
      rw [curves.p256_comm ⟨scalar, hscalar⟩ k]
      exact ⟨(), curves.isPoint_p256Public k, (), hzero, rfl⟩

/-! ### Wrapping on its own -/

/-- A wrap of parts as short as those of a sealed one fits in memory. -/
lemma wrapValue_fits {w : Wrap} (halg : w.alg = ALG_X25519 ∨ w.alg = ALG_P256)
    (hr : w.recipient.length ≤ 33) (he : w.ephemeral.length ≤ 33)
    (hc : w.ciphertext.length ≤ 48) : (wrapValue w).Fits host := by
  have hbytes : ∀ c : Bytes, c.length ≤ 48 → ((CBOR.byteString c).toCborData host).length ≤ 57 :=
    fun c hc => (length_byteString_le c).trans (by omega)
  have htext : ((CBOR.text w.alg).toCborData host).length ≤ 57 := by
    rcases halg with halg | halg <;> rw [halg] <;>
      exact (length_text_le (by decide)).trans (by decide)
  have hepoch : ((CBOR.unsigned w.epoch).toCborData host).length ≤ 57 :=
    (length_encodeHead_le 0 _).trans (by decide)
  have hfields :
      ∀ e ∈ wrapFields w (.unsigned w.epoch), (e.2.toCborData host).length ≤ 57 := by
    simp only [wrapFields, List.forall_mem_cons]
    exact ⟨htext, hepoch, hbytes _ (by rw [w.nonce.2]; decide), hbytes _ (by omega),
      hbytes _ (by omega), hbytes _ hc, by simp⟩
  have hkeys : ∀ k ∈ WRAP_KEYS, (utf8 k).length ≤ 10 := by decide
  have hlen := @length_textEntries_le host (wrapFields w (.unsigned w.epoch)) 10 57
    wrapKeys_ascii hkeys hfields
  exact hlen.trans_lt (by simp [wrapFields])

lemma Holds.fits {dek : Key} {w : Wrap} (h : Holds curves aead blake3 dek w) :
    (wrapValue w).Fits host := by
  have hcipher : ∀ {key : Key},
      aead.encrypt key w.nonce [] dek.val = some w.ciphertext → w.ciphertext.length ≤ 48 := by
    intro key hc
    rw [aead.length_encrypt _ _ _ _ _ hc, dek.2]
  cases h with
  | @x25519 seed recipient alg hr he _ _ _ hc =>
    have hr' : w.recipient.length = 32 := by rw [hr, recipient.2]
    have he' : w.ephemeral.length = 32 := by rw [he, (curves.x25519Public seed).2]
    exact wrapValue_fits (.inl alg) (by omega) (by omega) (hcipher hc)
  | @p256 scalar recipient alg hr he _ _ hc =>
    have hr' : w.recipient.length = 33 := by rw [hr, recipient.2]
    have he' : w.ephemeral.length = 33 := by rw [he, (curves.p256Public scalar).2]
    exact wrapValue_fits (.inr alg) hr'.le he'.le (hcipher hc)

/-- A sealed wrap is read back from its bytes. -/
lemma Holds.parseWrap {dek : Key} {w : Wrap} (h : Holds curves aead blake3 dek w) :
    parseWrap curves host (w.toCbor host) = .ok w := by
  have hkeys := h.checkWrapKeys
  rw [wrap_toCbor, parseWrap_toCborData (wrapValue_canonical (alg_of_checkWrapKeys hkeys)) h.fits]
  exact ⟨hkeys, _, toU64_unsigned w.epoch, rfl⟩

/-- **A wrapped key is unwrapped by its recipient, and by nobody else.** -/
theorem unwrapKey_wrapKey {t : WrapPublic} {enc : Encapsulation}
    (henc : t.encapsulation curves = .ok enc) {dek : Key} {epoch : UInt64}
    {coins : WrapCoins curves} {bytes : Bytes}
    (h : wrapKey curves aead blake3 host t dek epoch coins = .ok bytes) {secret : WrapSecret}
    {key : Key} :
    unwrapKey curves aead blake3 host secret bytes = .ok key ↔
      secret.encapsulationPublic curves = .ok enc.recipient ∧ key = dek := by
  obtain ⟨w, hseal, hbytes⟩ := bind_eq_ok.mp h
  obtain rfl := pure_eq_ok.mp hbytes
  obtain ⟨hholds, henc', -⟩ := seal_holds hseal
  obtain rfl := Except.ok.inj (henc.symm.trans henc')
  unfold unwrapKey
  simp only [bind_eq_ok, ensure_eq_ok, hholds.parseWrap, Except.ok.injEq]
  constructor
  · rintro ⟨_, rfl, r, hr, _, rfl, hopen⟩
    rw [openWith_of_holds hholds hr, Except.ok.injEq] at hopen
    exact ⟨hr, hopen.symm⟩
  · rintro ⟨hr, rfl⟩
    exact ⟨_, rfl, _, hr, (), rfl, openWith_of_holds hholds hr⟩

/-- **A key is rewrapped by its recipient only, and what comes out is a wrap of the same key.** -/
theorem rewrapKey_wrapKey {t : WrapPublic} {enc : Encapsulation}
    (henc : t.encapsulation curves = .ok enc) {dek : Key} {epoch epoch' : UInt64}
    {coins coins' : WrapCoins curves} {bytes bytes' : Bytes}
    (h : wrapKey curves aead blake3 host t dek epoch coins = .ok bytes) {secret : WrapSecret}
    {t' : WrapPublic} :
    rewrapKey curves aead blake3 host secret bytes t' epoch' coins' = .ok bytes' ↔
      secret.encapsulationPublic curves = .ok enc.recipient ∧
        wrapKey curves aead blake3 host t' dek epoch' coins' = .ok bytes' := by
  unfold rewrapKey
  simp only [bind_eq_ok, unwrapKey_wrapKey henc h]
  constructor
  · rintro ⟨_, ⟨hr, rfl⟩, hwrap⟩
    exact ⟨hr, hwrap⟩
  · rintro ⟨hr, hwrap⟩
    exact ⟨_, ⟨hr, rfl⟩, hwrap⟩

/-! ### A key agreement to run the model with -/

/-- A secret key; its public key, another pair and what the two agree on follow. -/
def aliceSeed : ByteArrayOf 32 :=
  ⟨[0x77, 0x07, 0x6d, 0x0a, 0x73, 0x18, 0xa5, 0x7d, 0x3c, 0x16, 0xc1, 0x72, 0x51, 0xb2, 0x66, 0x45,
    0xdf, 0x4c, 0x2f, 0x87, 0xeb, 0xc0, 0x99, 0x2a, 0xb1, 0x77, 0xfb, 0xa5, 0x1d, 0xb9, 0x2c, 0x2a],
    rfl⟩

def alicePublic : ByteArrayOf 32 :=
  ⟨[0x85, 0x20, 0xf0, 0x09, 0x89, 0x30, 0xa7, 0x54, 0x74, 0x8b, 0x7d, 0xdc, 0xb4, 0x3e, 0xf7, 0x5a,
    0x0d, 0xbf, 0x3a, 0x0d, 0x26, 0x38, 0x1a, 0xf4, 0xeb, 0xa4, 0xa9, 0x8e, 0xaa, 0x9b, 0x4e, 0x6a],
    rfl⟩

def bobSeed : ByteArrayOf 32 :=
  ⟨[0x5d, 0xab, 0x08, 0x7e, 0x62, 0x4a, 0x8a, 0x4b, 0x79, 0xe1, 0x7f, 0x8b, 0x83, 0x80, 0x0e, 0xe6,
    0x6f, 0x3b, 0xb1, 0x29, 0x26, 0x18, 0xb6, 0xfd, 0x1c, 0x2f, 0x8b, 0x27, 0xff, 0x88, 0xe0, 0xeb],
    rfl⟩

def bobPublic : ByteArrayOf 32 :=
  ⟨[0xde, 0x9e, 0xdb, 0x7d, 0x7b, 0x7d, 0xc1, 0xb4, 0xd3, 0x5b, 0x61, 0xc2, 0xec, 0xe4, 0x35, 0x37,
    0x3f, 0x83, 0x43, 0xc8, 0x5b, 0x78, 0x67, 0x4d, 0xad, 0xfc, 0x7e, 0x14, 0x6f, 0x88, 0x2b, 0x4f],
    rfl⟩

def sharedSecret : ByteArrayOf 32 :=
  ⟨[0x4a, 0x5d, 0x9d, 0x5b, 0xa4, 0xce, 0x2d, 0xe1, 0x72, 0x8e, 0x3b, 0xf4, 0x80, 0x35, 0x0f, 0x25,
    0xe0, 0x7e, 0x21, 0xc9, 0x47, 0xd1, 0x9e, 0x33, 0x76, 0xf0, 0x9b, 0x3c, 0x1e, 0x16, 0x17, 0x42],
    rfl⟩

def basePoint : ByteArrayOf 32 := ⟨9 :: List.replicate 31 0, rfl⟩

def samplePublic (seed : ByteArrayOf 32) : ByteArrayOf 32 :=
  if seed = aliceSeed then alicePublic else if seed = bobSeed then bobPublic else basePoint

def sampleAgreement (seed point : ByteArrayOf 32) : ByteArrayOf 32 :=
  if (seed = aliceSeed ∧ point = bobPublic) ∨ (seed = bobSeed ∧ point = alicePublic) then
    sharedSecret
  else basePoint

lemma samplePublic_eq_alice {seed : ByteArrayOf 32} :
    samplePublic seed = alicePublic ↔ seed = aliceSeed := by
  have hb : bobPublic ≠ alicePublic := by decide
  have h9 : basePoint ≠ alicePublic := by decide
  unfold samplePublic
  split_ifs <;> simp_all

lemma samplePublic_eq_bob {seed : ByteArrayOf 32} :
    samplePublic seed = bobPublic ↔ seed = bobSeed := by
  have hb : alicePublic ≠ bobPublic := by decide
  have hs : aliceSeed ≠ bobSeed := by decide
  have h9 : basePoint ≠ bobPublic := by decide
  unfold samplePublic
  split_ifs <;> simp_all

/-- A key agreement on X25519 that knows the two key pairs. -/
def sampleCurves : Curves where
  x25519Public := samplePublic
  x25519 := sampleAgreement
  wasContributory dh := dh.val ≠ zeroKey
  verifyingKey := samplePublic
  toMontgomery := some
  seedToX25519 := id
  isScalar k := k.val ≠ zeroKey
  isPoint p := p.length = 33
  p256Public k := ⟨2 :: k.val.val, by simp [k.val.2]⟩
  p256 _ _ := basePoint
  x25519_comm a b := by
    refine if_congr ?_ rfl rfl
    simp only [samplePublic_eq_alice, samplePublic_eq_bob]
    exact ⟨fun h => h.symm.imp And.symm And.symm, fun h => h.symm.imp And.symm And.symm⟩
  p256_comm _ _ := rfl
  toMontgomery_verifyingKey _ := rfl
  x25519Public_not_small a := by
    unfold samplePublic
    split_ifs <;> decide
  isPoint_p256Public k := by simp [k.val.2]

/-- A wrap of a DEK of sevens for the first of them. -/
def sampleWrap (epoch : UInt64) : Wrap :=
  { alg := ALG_X25519, recipient := alicePublic.val, ephemeral := bobPublic.val,
    nonce := fill 24 1,
    ciphertext := List.replicate 32 7 ++ Aead.clearTag, epoch }

lemma checkWrapKeys_sampleWrap : checkWrapKeys sampleCurves (sampleWrap 0).alg
    (sampleWrap 0).recipient (sampleWrap 0).ephemeral = .ok () := by decide +kernel

end Identikey.Share
