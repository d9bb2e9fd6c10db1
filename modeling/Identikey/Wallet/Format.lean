/-
The encrypted wallet file (`identikey-wallet`, `format.rs`).

A file is five magic bytes, a version, the salt from which the key was derived, a nonce,
and the encrypted container.  Nothing in the header is authenticated but the nonce, by
its use.
-/
import Identikey.Lib.Aead
import Identikey.Wallet.Envelope

namespace Identikey.Wallet

open Lib Lib.Fallible Auth Dcbor Gordian Secret

/-- `MAGIC`, `IKEYW`. -/
def MAGIC : Bytes := [0x49, 0x4b, 0x45, 0x59, 0x57]

/-- `VERSION`. -/
def VERSION : UInt8 := 2

/-- A key of the cipher. -/
abbrev Key := ByteArrayOf 32

/-- A salt. -/
abbrev Salt := ByteArrayOf 32

/-- A nonce. -/
abbrev Nonce := ByteArrayOf 24

variable (params : WalletParams)

/-- The checks of magic and version. -/
def checkShell (data : Bytes) : Except WalletError Unit := do
  ensure (data.take 5 = MAGIC) .badMagic
  ensure (data.getD 5 0 ≠ 1) (.v1Rejected params.v1RejectionMsg)
  ensure (data.getD 5 0 = VERSION) (.unsupportedShell (data.getD 5 0))

/-- The bytes from `start` on, as many as `n`; there are that many behind a length check. -/
def slice (data : Bytes) (start n : ℕ) (h : start + n ≤ data.length) : ByteArrayOf n :=
  ⟨(data.drop start).take n, by rw [List.length_take, List.length_drop]; omega⟩

/-- `extract_salt`. -/
def extractSalt (data : Bytes) : Except WalletError Salt :=
  if h : 6 + 32 ≤ data.length then do
    checkShell params data
    return slice data 6 32 h
  else .error .tooShortForSalt

variable {host : Host} {I : Type} (codec : WalletIdentity I) (aead : Aead)

/-- `decrypt_wallet_with_key`. -/
def decryptWalletWithKey (reader : EnvelopeReader host) (data : Bytes) (key : Key) :
    Except WalletError (WalletData I) :=
  if h : 62 + 16 ≤ data.length then do
    checkShell params data
    let nonce := slice data 38 24 (by omega)
    let plaintext ← okOr .decryption (aead.decrypt key nonce [] (data.drop 62))
    fromEnvelope codec params reader plaintext
  else .error .tooShort

/-- The file around a ciphertext. -/
def shell (salt : Salt) (nonce : Nonce) (ciphertext : Bytes) : Bytes :=
  MAGIC ++ [VERSION] ++ salt.val ++ nonce.val ++ ciphertext

variable (host)

/-- `encrypt_wallet_with_key_nonce`. -/
def encryptWalletWithKeyNonce (data : WalletData I) (key : Key) (salt : Salt) (nonce : Nonce) :
    Except WalletError Bytes := do
  let plaintext ← toEnvelope host codec params data
  let ciphertext ← okOr .encryption (aead.encrypt key nonce [] plaintext)
  return shell salt nonce ciphertext

end Identikey.Wallet
