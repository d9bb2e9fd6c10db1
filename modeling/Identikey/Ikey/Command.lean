/-
The wallet on the command line (`ikey`, `main.rs`).

Every command is a process of its own: it loads the wallet from its file, looks at it or
edits it, and saves it if it was edited.  Between the processes there are the file and
what the credential provider keeps.  What comes from outside is drawn for each command:
what is typed, random bytes and new keys, the time, and which calls fail.
-/
import Identikey.Wallet.Save

namespace Identikey.Wallet

open Lib Lib.Fallible Auth Dcbor Gordian Secret

/-- `CredentialProvider`, with what locking a wallet takes of it. -/
structure KeyCache (σ : Type) extends CredentialProvider σ where
  clearKey : σ → Except String Unit × σ
  name : String

/-- `MemoryProvider`. -/
def MemoryCache : KeyCache (Option Key) :=
  { MemoryProvider with clearKey := fun _ => (.ok (), none), name := "Memory" }

end Identikey.Wallet

namespace Identikey.Ikey

open Lib Lib.Fallible Auth Dcbor Gordian Wallet

/-! ### Commands and what they print -/

/-- `IdentityCommand`. -/
inductive IdentityCommand where
  | New (name : String) (noPq : Bool)
  | List
  | Show (name : Option String)
  | Use (name : String)
  | Delete (name : String)
deriving DecidableEq, Repr

/-- `WalletCommand`. -/
inductive WalletCommand where
  | Unlock
  | Lock
  | Status
  | Path
deriving DecidableEq, Repr

/-- `Command`. -/
inductive Command where
  | Identity (cmd : IdentityCommand)
  | Wallet (cmd : WalletCommand)
deriving DecidableEq, Repr

/-- A line of `identity list`. -/
structure Line where
  name : String
  /-- ` (active)` -/
  active : Bool
  fingerprint : Digest32
  /-- `+pq` -/
  pq : Bool
deriving DecidableEq, Repr

/-- What a command prints when it is done. -/
inductive Output where
  /-- `Created identity '{name}'`, `Fingerprint: {fingerprint}` -/
  | created (name : String) (fingerprint : Digest32)
  /-- a line for each identity; `No identities. Create one with ikey identity new.` if there is
  none -/
  | identities (lines : List Line)
  /-- name, fingerprint, time, and the lengths of the public keys -/
  | shown (name : String) (fingerprint : Digest32) (createdAt : UInt64) (ed25519 : ℕ)
    (mlDsa : Option ℕ)
  /-- `Active identity: {name}` -/
  | active (name : String)
  /-- `Deleted identity '{name}'` -/
  | deleted (name : String)
  /-- `Wallet is empty; nothing to unlock. Create an identity first.` -/
  | nothingToUnlock
  /-- `Wallet unlocked (key cached).` -/
  | unlocked
  /-- `Wallet locked (cached key cleared from {provider}).` -/
  | locked (provider : String)
  /-- the path, whether the file exists, the provider, and whether it has a key -/
  | status (path : WalletPath) (present : Bool) (provider : String) (unlocked : Bool)
  | path (path : WalletPath)
deriving DecidableEq, Repr

/-- How a command fails. -/
inductive IkeyError where
  /-- the wallet cannot be loaded -/
  | storage (e : StorageError)
  /-- the wallet cannot be saved -/
  | save (e : SaveError)
  /-- the provider cannot be asked or cleared -/
  | provider (e : String)
  /-- `Identity '{name}' already exists` -/
  | exists (name : String)
  /-- `Identity '{name}' not found` -/
  | notFound (name : String)
  /-- `No identity specified and no active identity set` -/
  | noIdentity
  /-- the clock is before 1970 -/
  | clock
  /-- `ml-dsa-87 keygen: {e}` -/
  | keygen (e : String)
deriving DecidableEq, Repr

/-- What comes from outside while a command runs. -/
structure Draw where
  /-- the variable with the password -/
  env : Option String
  /-- what is typed to load, and what is typed twice to save anew -/
  typed : Option String
  first : Option String
  second : Option String
  /-- the file can be read, if there is one -/
  readable : Bool
  loadSalt : Salt
  saveSalt : Salt
  nonce : Wallet.Nonce
  /-- `ed25519_dalek::SigningKey::generate` -/
  ed25519 : KeyPair
  /-- `ml_dsa_87::try_keygen` -/
  mlDsa : Except String KeyPair
  /-- `SystemTime::now`, in seconds since 1970 -/
  now : Option UInt64
  /-- the call of the save that fails -/
  fault : Option Wallet.Fault

/-- The input of the prompt of a load. -/
def Draw.loadInput (draw : Draw) : PasswordInput :=
  { env := draw.env, first := draw.typed, second := none }

/-- The input of the prompts of a save. -/
def Draw.saveInput (draw : Draw) : PasswordInput :=
  { env := draw.env, first := draw.first, second := draw.second }

/-! ### Editing -/

/-- The identity that `identity new` makes. -/
def newIdentity (blake3 : Bytes → Digest32) (draw : Draw) (noPq : Bool) :
    Except IkeyError BasicIdentity := do
  let createdAt ← okOr .clock draw.now
  let identity := BasicIdentity.new blake3 createdAt draw.ed25519.publicKey draw.ed25519.secretKey
  if noPq then return identity
  else
    let mlDsa ← draw.mlDsa.mapError .keygen
    return { identity with mlDsa := some mlDsa }

/-- The line of an identity. -/
def line (active : Option String) (x : String × BasicIdentity) : Line :=
  { name := x.1, active := active == some x.1, fingerprint := x.2.fingerprint,
    pq := x.2.mlDsa.isSome }

/-- What `identity show` prints of an identity. -/
def shown (name : String) (identity : BasicIdentity) : Output :=
  .shown name identity.fingerprint identity.createdAt identity.ed25519.publicKey.length
    (identity.mlDsa.map fun kp => kp.publicKey.length)

/-- What a command does with the wallet it has loaded: what it prints, and the wallet that it saves
before, if it saves one. -/
def IdentityCommand.edit (blake3 : Bytes → Digest32) (draw : Draw)
    (data : WalletData BasicIdentity) :
    IdentityCommand → Except IkeyError (Output × Option (WalletData BasicIdentity))
  | .New name noPq => do
    ensure (data.identities.get name).isNone (.exists name)
    let identity ← newIdentity blake3 draw noPq
    return (.created name identity.fingerprint,
      some { data with
        identities := data.identities.insert name identity
        activeIdentity := data.activeIdentity.or (some name) })
  | .List => return (.identities (data.identities.entries.map (line data.activeIdentity)), none)
  | .Show name => do
    let name ← okOr .noIdentity (name.or data.activeIdentity)
    let identity ← okOr (.notFound name) (data.identities.get name)
    return (shown name identity, none)
  | .Use name => do
    ensure (data.identities.get name).isSome (.notFound name)
    return (.active name, some { data with activeIdentity := some name })
  | .Delete name => do
    ensure (data.identities.get name).isSome (.notFound name)
    return (.deleted name,
      some { data with
        identities := data.identities.remove name
        activeIdentity := if data.activeIdentity = some name then none else data.activeIdentity })

/-- The command tells its save that the wallet is new: `identity new` does if there is no
identity. -/
def IdentityCommand.saysNew (wallet : Wallet BasicIdentity) : IdentityCommand → Bool
  | .New _ _ => wallet.isNew
  | _ => false

/-! ### Processes -/

/-- What is left between two commands. -/
structure Machine (σ : Type) where
  provider : σ
  fs : FileSystem FileName

variable {σ : Type} (params : WalletParams) (host : Host) (blake3 : Bytes → Digest32) (aead : Aead)
  (reader : EnvelopeReader host) (deriveKey : String → Salt → Except WalletError Key)
  (cache : KeyCache σ) (path : WalletPath)

/-- What is found at the path.  A path without a file name is that of a directory, or of nothing. -/
def Machine.found (m : Machine σ) (draw : Draw) : Found :=
  match path.file with
  | none => if draw.readable then .absent else .unreadable
  | some file =>
    match m.fs.read file with
    | none => .absent
    | some contents => if draw.readable then .present contents else .unreadable

/-- The key that the provider has cached; an error of it counts as none. -/
def cachedKey (s : σ) : Option Key :=
  match cache.getKey s with
  | .ok key => key
  | .error _ => none

/-- The wallet that the password opens. -/
def unlock (contents : Bytes) (salt : Salt) (input : PasswordInput) :
    Except StorageError (Wallet BasicIdentity) := do
  let password ← getPassword input
  let key ← (deriveKey password salt).mapError .wallet
  (openWith params host (BasicIdentity.codec host blake3) aead reader contents salt key).mapError
    .wallet

/-- `load`, with the provider of the path: a key that had to be derived is cached. -/
def Machine.load (m : Machine σ) (draw : Draw) :
    Machine σ × Except StorageError (Wallet BasicIdentity) :=
  match m.found path draw with
  | .absent => (m, .ok { data := .new, key := PLACEHOLDER, salt := draw.loadSalt })
  | .unreadable => (m, .error .read)
  | .present contents =>
    match extractSalt params contents with
    | .error e => (m, .error (.wallet e))
    | .ok salt =>
      match (cachedKey cache m.provider).bind fun key =>
        (openWith params host (BasicIdentity.codec host blake3) aead reader contents salt
          key).toOption with
      | some wallet => (m, .ok wallet)
      | none =>
        match unlock params host blake3 aead reader deriveKey contents salt draw.loadInput with
        | .error e => (m, .error e)
        | .ok wallet =>
          ({ m with provider := (cache.storeKey m.provider wallet.key).2 }, .ok wallet)

/-- `save`, with the provider of the path. -/
def Machine.save (m : Machine σ) (wallet : Wallet BasicIdentity) (isNew : Bool) (draw : Draw) :
    Machine σ × Except SaveError Unit :=
  let (state, result) :=
    saveOn params host (BasicIdentity.codec host blake3) aead deriveKey cache.toCredentialProvider
      path { wallet, provider := m.provider, fs := m.fs } isNew draw.saveInput draw.saveSalt
      draw.nonce draw.fault
  ({ provider := state.provider, fs := state.fs }, result)

/-- `identity_command`. -/
def identityCommand (m : Machine σ) (draw : Draw) (cmd : IdentityCommand) :
    Machine σ × Except IkeyError Output :=
  let (m, loaded) := m.load params host blake3 aead reader deriveKey cache path draw
  match loaded with
  | .error e => (m, .error (.storage e))
  | .ok wallet =>
    match cmd.edit blake3 draw wallet.data with
    | .error e => (m, .error e)
    | .ok (output, none) => (m, .ok output)
    | .ok (output, some data) =>
      let (m, saved) :=
        m.save params host blake3 aead deriveKey cache path { wallet with data }
          (cmd.saysNew wallet) draw
      (m, (saved.mapError .save).map fun _ => output)

/-- `wallet_command`. -/
def walletCommand (m : Machine σ) (draw : Draw) :
    WalletCommand → Machine σ × Except IkeyError Output
  | .Unlock =>
    let (m, loaded) := m.load params host blake3 aead reader deriveKey cache path draw
    (m, (loaded.mapError .storage).map fun wallet =>
      if wallet.isNew then .nothingToUnlock else .unlocked)
  | .Lock =>
    let (cleared, s) := cache.clearKey m.provider
    ({ m with provider := s }, (cleared.mapError .provider).map fun _ => .locked cache.name)
  | .Status =>
    let present := match m.found path draw with
      | .absent => false
      | _ => true
    (m, ((cache.getKey m.provider).mapError .provider).map fun key =>
      .status path present cache.name key.isSome)
  | .Path => (m, .ok (.path path))

/-- `main`. -/
def main (m : Machine σ) (draw : Draw) : Command → Machine σ × Except IkeyError Output
  | .Identity cmd => identityCommand params host blake3 aead reader deriveKey cache path m draw cmd
  | .Wallet cmd => walletCommand params host blake3 aead reader deriveKey cache path m draw cmd

end Identikey.Ikey
