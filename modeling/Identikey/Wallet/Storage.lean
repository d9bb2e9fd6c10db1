/-
Loading, editing and saving a wallet (`identikey-wallet`, `storage.rs`).

What comes from outside is an input of each operation: the file that is found, the key
that the credential provider has cached, what is typed at the prompts, random bytes, and
whether the file can be written.  Argon2 is a parameter.

A store is a wallet in memory with its past: the key that decrypted the file it was loaded
from, the passwords from which keys were derived, and all files that were written.
-/
import Identikey.Lib.Run
import Identikey.Wallet.Format

namespace Identikey.Wallet

open Lib Lib.Fallible Auth Dcbor Gordian Secret

/-! ### Passwords -/

/-- What the storage code reports. -/
inductive StorageError where
  /-- `Failed to read wallet from {path}` -/
  | read
  /-- a prompt that was interrupted -/
  | prompt
  /-- `Passwords do not match` -/
  | mismatch
  /-- `Failed to write wallet to {path}` -/
  | write
  | wallet (e : WalletError)
  | secret (e : SecretError)
deriving DecidableEq, Repr

/-- The variable of the environment, and what is typed at the prompts. -/
structure PasswordInput where
  env : Option String
  first : Option String
  second : Option String

/-- `get_password`. -/
def getPassword (input : PasswordInput) : Except StorageError String :=
  match input.env with
  | some password => .ok password
  | none => okOr .prompt input.first

/-- `get_password_with_confirm`. -/
def getPasswordWithConfirm (input : PasswordInput) : Except StorageError String :=
  match input.env with
  | some password => .ok password
  | none => do
    let pass1 ← okOr .prompt input.first
    let pass2 ← okOr .prompt input.second
    ensure (pass1 = pass2) .mismatch
    return pass1

/-! ### A wallet in memory -/

/-- `Wallet`. -/
structure Wallet (I : Type) where
  data : WalletData I
  key : Key
  salt : Salt

/-- The key of a new wallet, "will be set on save". -/
def PLACEHOLDER : Key := fill 32 0

/-- What is at the path of the wallet. -/
inductive Found where
  | absent
  | unreadable
  | present (contents : Bytes)

/-- `is_new`. -/
def Wallet.isNew {I : Type} (wallet : Wallet I) : Bool := wallet.data.identities.entries.isEmpty

variable (params : WalletParams) (host : Host) {I : Type} (codec : WalletIdentity I) (aead : Aead)
  (reader : EnvelopeReader host) (deriveKey : String → Salt → Except WalletError Key)

/-- The wallet that a key opens, if it does. -/
def openWith (contents : Bytes) (salt : Salt) (key : Key) : Except WalletError (Wallet I) := do
  let data ← decryptWalletWithKey params codec aead reader contents key
  return { data, key, salt }

/-- `load_with_provider`; `salt` is drawn for a new wallet. -/
def loadWithProvider (found : Found) (cached : Option Key) (input : PasswordInput) (salt : Salt) :
    Except StorageError (Wallet I) :=
  match found with
  | .absent => .ok { data := .new, key := PLACEHOLDER, salt }
  | .unreadable => .error .read
  | .present contents => do
    let salt ← (extractSalt params contents).mapError .wallet
    match cached.bind fun key =>
      (openWith params host codec aead reader contents salt key).toOption with
    | some wallet => return wallet
    | none =>
      let password ← getPassword input
      let key ← (deriveKey password salt).mapError .wallet
      (openWith params host codec aead reader contents salt key).mapError .wallet

/-- `insert_secret`, with the random bytes that are drawn and the time. -/
def insertSecret (wallet : Wallet I) (idBytes : IdBytes) (salt : Digest32) (label : String)
    (value : Bytes) (createdAt : UInt64) : Except StorageError (Wallet I × SecretId) := do
  let (secrets, id) ←
    (wallet.data.secrets.insert idBytes salt label value createdAt).mapError .secret
  return ({ wallet with data := { wallet.data with secrets } }, id)

/-- `remove_secret`. -/
def removeSecret (wallet : Wallet I) (id : SecretId) : Wallet I × Bool :=
  let (secrets, removed) := wallet.data.secrets.remove id
  ({ wallet with data := { wallet.data with secrets } }, removed)

/-- The key and salt of a save: derived anew if the wallet is said to be new. -/
def chooseKey (wallet : Wallet I) (isNew : Bool) (input : PasswordInput) (salt : Salt) :
    Except StorageError (Wallet I) :=
  if isNew then do
    let password ← getPasswordWithConfirm input
    let key ← (deriveKey password salt).mapError .wallet
    return { wallet with key, salt }
  else .ok wallet

/-- The file that is written, if it can be. -/
def writeFile (wallet : Wallet I) (nonce : Nonce) (writable : Bool) :
    Except StorageError Bytes := do
  let encrypted ← (encryptWalletWithKeyNonce params host codec aead wallet.data wallet.key
    wallet.salt nonce).mapError .wallet
  ensure (writable = true) .write
  return encrypted

/-- `save_with_provider`: the wallet after it, and the file that was written.  The new key stays
in the wallet when the file cannot be written. -/
def saveWithProvider (wallet : Wallet I) (isNew : Bool) (input : PasswordInput) (salt : Salt)
    (nonce : Nonce) (writable : Bool) : Wallet I × Except StorageError Bytes :=
  match chooseKey deriveKey wallet isNew input salt with
  | .error e => (wallet, .error e)
  | .ok wallet => (wallet, writeFile params host codec aead wallet nonce writable)

/-! ### Stores -/

/-- A wallet in memory and its past: the key that decrypted the file it was loaded from, and the
passwords from which its saves derived a key. -/
structure Session (I : Type) where
  wallet : Wallet I
  unlocked : Option Key
  passwords : List String

/-- The session in memory, and the files that were written, each with the session at that time. -/
structure Store (I : Type) where
  session : Option (Session I)
  written : List (Session I × Bytes)

/-- A store without a wallet. -/
def Store.new {I : Type} : Store I := { session := none, written := [] }

/-- What a caller can do. -/
inductive Op (I : Type) where
  | load (found : Found) (cached : Option Key) (input : PasswordInput) (salt : Salt)
  | insertSecret (idBytes : IdBytes) (salt : Digest32) (label : String) (value : Bytes)
    (createdAt : UInt64)
  | removeSecret (id : SecretId)
  /-- an edit of the data, which is public -/
  | edit (data : WalletData I)
  | save (isNew : Bool) (input : PasswordInput) (salt : Salt) (nonce : Nonce) (writable : Bool)

/-- A wallet with a secret more, or the wallet itself if the secret is refused. -/
def withSecret (idBytes : IdBytes) (salt : Digest32) (label : String) (value : Bytes)
    (createdAt : UInt64) (wallet : Wallet I) : Wallet I :=
  match insertSecret wallet idBytes salt label value createdAt with
  | .error _ => wallet
  | .ok (wallet', _) => wallet'

/-- A wallet that was loaded. -/
def Session.start (found : Found) (wallet : Wallet I) : Session I :=
  match found with
  | .present _ => { wallet, unlocked := some wallet.key, passwords := [] }
  | _ => { wallet, unlocked := none, passwords := [] }

/-- The password from which a save derives a key, if it does. -/
def derivedFrom (isNew : Bool) (input : PasswordInput) (salt : Salt) : Option String :=
  if isNew then
    (getPasswordWithConfirm input).toOption.filter fun password => (deriveKey password salt).isOk
  else none

/-- A save in a store. -/
def saveStep (store : Store I) (session : Session I) (isNew : Bool) (input : PasswordInput)
    (salt : Salt) (nonce : Nonce) (writable : Bool) : Store I :=
  let (wallet, result) :=
    saveWithProvider params host codec aead deriveKey session.wallet isNew input salt nonce writable
  let session := { session with
    wallet, passwords := session.passwords ++ (derivedFrom deriveKey isNew input salt).toList }
  { session := some session,
    written := store.written ++ (result.toOption.map fun file => (session, file)).toList }

/-- One operation; a failed load leaves the wallet that was there. -/
def step (store : Store I) (op : Op I) : Store I :=
  match op with
  | .load found cached input salt =>
    match loadWithProvider params host codec aead reader deriveKey found cached input salt with
    | .error _ => store
    | .ok wallet => { store with session := some (.start found wallet) }
  | .insertSecret idBytes salt label value createdAt =>
    { store with session := store.session.map fun s =>
        { s with wallet := withSecret idBytes salt label value createdAt s.wallet } }
  | .removeSecret id =>
    { store with session := store.session.map fun s =>
        { s with wallet := (removeSecret s.wallet id).1 } }
  | .edit data =>
    { store with session := store.session.map fun s =>
        { s with wallet := { s.wallet with data } } }
  | .save isNew input salt nonce writable =>
    match store.session with
    | none => store
    | some session =>
      saveStep params host codec aead deriveKey store session isNew input salt nonce writable

/-- The store after a run. -/
def run (ops : List (Op I)) : Store I :=
  ops.foldl (step params host codec aead reader deriveKey) Store.new

end Identikey.Wallet
