/-
A save with all that it touches (`identikey-wallet`, `storage.rs`, `credential.rs`).

`save_with_provider` changes the key and salt of the wallet in memory, the key that the
credential provider has cached, and the file.  Anything on the way can fail: the prompts,
the derivation of the key, the encoding, the cipher, the directories, and every call of
`write_secret_file`.  The file is replaced only at the end; the key and salt are set and
cached as soon as they are derived.
-/
import Identikey.Wallet.AtomicWrite
import Identikey.Wallet.StorageSafety

namespace Identikey.Wallet

open Lib Lib.Fallible Auth Dcbor Gordian Secret

/-- `CredentialProvider`, as far as a save is concerned, with what it keeps in `σ`. -/
structure CredentialProvider (σ : Type) where
  storeKey : σ → Key → Except String Unit × σ
  getKey : σ → Except String (Option Key)

/-- `MemoryProvider`. -/
def MemoryProvider : CredentialProvider (Option Key) where
  storeKey _ key := (.ok (), some key)
  getKey key := .ok key

/-- The path of the wallet: its directory, and the name of the file if it has one. -/
structure WalletPath where
  dir : String
  fileName : Option String
deriving DecidableEq, Repr

/-- The file at the path. -/
def WalletPath.file (path : WalletPath) : Option FileName :=
  path.fileName.map fun name => { dir := path.dir, name }

/-- The call that fails; a failing `write_all` has written some bytes. -/
inductive Fault where
  /-- `create_dir_all` in `save_with_provider` -/
  | createDir
  /-- `create_dir_all` in `write_secret_file` -/
  | createParent
  | openTemp
  | writeAll (written : ℕ)
  | syncAll
  | rename
deriving DecidableEq, Repr

/-- `write_secret_file` from the opening of the temporary file on. -/
def replaceFile (fs : FileSystem FileName) (file : FileName) (contents : Bytes)
    (fault : Option Fault) : FileSystem FileName × Except StorageError Unit :=
  let (fd, fs) := fs.openTruncate file.tmpPath
  match fault with
  | some (.writeAll written) => (fs.write fd 0 (contents.take written), .error .write)
  | some .syncAll => (fs.write fd 0 contents, .error .write)
  | some .rename => (fs.write fd 0 contents, .error .write)
  | _ =>
    let fs := fs.write fd 0 contents
    match fs.rename file.tmpPath file with
    | none => (fs, .error .write)
    | some fs => (fs, .ok ())

/-- `write_secret_file`. -/
def writeSecretFile (fs : FileSystem FileName) (path : WalletPath) (contents : Bytes)
    (fault : Option Fault) : FileSystem FileName × Except StorageError Unit :=
  if fault = some .createParent then (fs, .error .write) else
  match path.file with
  | none => (fs, .error .write)
  | some file =>
    if fault = some .openTemp then (fs, .error .write) else replaceFile fs file contents fault

/-- What a save reports. -/
inductive SaveError where
  | storage (e : StorageError)
  /-- the directory of the wallet cannot be created -/
  | directory
deriving DecidableEq, Repr

/-- What a save touches. -/
structure SaveState (σ I : Type) where
  wallet : Wallet I
  provider : σ
  fs : FileSystem FileName

variable (params : WalletParams) (host : Host) {σ I : Type} (codec : WalletIdentity I) (aead : Aead)
  (deriveKey : String → Salt → Except WalletError Key) (provider : CredentialProvider σ)
  (path : WalletPath)

/-- The new key in the provider; that it cannot be cached is only warned of. -/
def cacheKey (state : SaveState σ I) (isNew : Bool) : SaveState σ I :=
  if isNew then
    { state with provider := (provider.storeKey state.provider state.wallet.key).2 }
  else state

/-- `save_with_provider` from the encryption on. -/
def writeWallet (state : SaveState σ I) (nonce : Nonce) (fault : Option Fault) :
    SaveState σ I × Except SaveError Unit :=
  match encryptWalletWithKeyNonce params host codec aead state.wallet.data state.wallet.key
      state.wallet.salt nonce with
  | .error e => (state, .error (.storage (.wallet e)))
  | .ok encrypted =>
    if fault = some .createDir then (state, .error .directory) else
    let (fs, result) := writeSecretFile state.fs path encrypted fault
    ({ state with fs }, result.mapError .storage)

/-- `save_with_provider`, with all that it touches. -/
def saveOn (state : SaveState σ I) (isNew : Bool) (input : PasswordInput) (salt : Salt)
    (nonce : Nonce) (fault : Option Fault) : SaveState σ I × Except SaveError Unit :=
  match chooseKey deriveKey state.wallet isNew input salt with
  | .error e => (state, .error (.storage e))
  | .ok wallet =>
    writeWallet params host codec aead path (cacheKey provider { state with wallet } isNew) nonce
      fault

/-- The content of the wallet file. -/
def SaveState.file (state : SaveState σ I) : Option Bytes := path.file.bind state.fs.read

variable {params host codec aead deriveKey provider path}

/-! ### The file -/

/-- What is written goes to the temporary file until that is renamed. -/
lemma replaceFile_error {fs : FileSystem FileName} {file : FileName} {contents : Bytes}
    {fault : Option Fault} (hapart : fs.Apart file.tmpPath file) {fs' : FileSystem FileName}
    {e : StorageError} (h : replaceFile fs file contents fault = (fs', .error e)) :
    fs'.read file = fs.read file := by
  have hne := file.ne_tmpPath
  obtain ⟨-, -, hpath⟩ := FileSystem.openTruncate_spec hne hapart
  have hkeep : ∀ bytes, ((fs.openTruncate file.tmpPath).2.write
      (fs.openTruncate file.tmpPath).1 0 bytes).read file = fs.read file := fun bytes =>
    (FileSystem.read_write hpath).trans (FileSystem.read_openTruncate hne hapart)
  unfold replaceFile at h
  rcases hopened : fs.openTruncate file.tmpPath with ⟨fd, opened⟩
  rw [hopened] at h hkeep
  simp only at h
  split at h
  · rw [← (Prod.mk.inj h).1]
    exact hkeep _
  · rw [← (Prod.mk.inj h).1]
    exact hkeep _
  · rw [← (Prod.mk.inj h).1]
    exact hkeep _
  · split at h
    · rw [← (Prod.mk.inj h).1]
      exact hkeep _
    · cases (Prod.mk.inj h).2

/-- A replacement that succeeds puts the contents into place. -/
lemma replaceFile_ok {fs : FileSystem FileName} {file : FileName} {contents : Bytes}
    {fault : Option Fault} (hapart : fs.Apart file.tmpPath file) {fs' : FileSystem FileName}
    (h : replaceFile fs file contents fault = (fs', .ok ())) : fs'.read file = some contents := by
  have hne := file.ne_tmpPath
  obtain ⟨hname, hempty, hpath⟩ := FileSystem.openTruncate_spec hne hapart
  unfold replaceFile at h
  rcases hopened : fs.openTruncate file.tmpPath with ⟨fd, opened⟩
  rw [hopened] at h hname hempty hpath
  simp only at h hname hempty hpath
  have hcontent : (opened.write fd 0 contents).content fd = contents := by
    have hend := @FileSystem.content_write_end _ opened fd contents
    rwa [hempty] at hend
  have hname' : (opened.write fd 0 contents).inode file.tmpPath = some fd := hname
  have hapart' : (opened.write fd 0 contents).Apart file.tmpPath file := fun i hi => by
    rwa [← Option.some.inj (hname'.symm.trans hi)]
  obtain ⟨renamed, hrenamed, -, htarget, hsame⟩ := FileSystem.rename_spec hne hname' hapart'
  split at h
  · cases (Prod.mk.inj h).2
  · cases (Prod.mk.inj h).2
  · cases (Prod.mk.inj h).2
  · rw [hrenamed] at h
    obtain ⟨rfl, -⟩ := Prod.mk.inj h
    rw [FileSystem.read, htarget, hsame, Option.map_some, hcontent]

/-- Undisturbed, a replacement is the steps of a single call. -/
lemma replaceFile_eq_run (fs : FileSystem FileName) (file : FileName) (contents : Bytes) :
    (replaceFile fs file contents none).1 =
      (writeRun file (fun _ : Unit => contents) { fs, calls := fun _ => .ready }
        [((), .openTemp), ((), .write contents.length), ((), .syncAll), ((), .rename)]).fs := by
  unfold replaceFile writeRun
  simp only [List.foldl_cons, List.foldl_nil, writeStep, Function.update_self, List.drop_zero,
    List.take_length, Nat.zero_add, if_true]
  split
  · rename_i hnone
    rw [hnone]
    rfl
  · rename_i renamed hrenamed
    rw [hrenamed]
    rfl

/-- A `write_secret_file` stops before it touches anything, or is the replacement of the file that
the path names. -/
lemma writeSecretFile_cases {fs fs' : FileSystem FileName} {contents : Bytes}
    {fault : Option Fault} {result : Except StorageError Unit}
    (h : writeSecretFile fs path contents fault = (fs', result)) :
    (fs' = fs ∧ result = .error .write) ∨
      ∃ file, path.file = some file ∧ replaceFile fs file contents fault = (fs', result) := by
  unfold writeSecretFile at h
  split at h
  · obtain ⟨rfl, rfl⟩ := Prod.mk.inj h
    exact .inl ⟨rfl, rfl⟩
  split at h
  · obtain ⟨rfl, rfl⟩ := Prod.mk.inj h
    exact .inl ⟨rfl, rfl⟩
  · rename_i file hfile
    split at h
    · obtain ⟨rfl, rfl⟩ := Prod.mk.inj h
      exact .inl ⟨rfl, rfl⟩
    · exact .inr ⟨file, hfile, h⟩

/-- What was found at the path is found there after a `write_secret_file` that fails. -/
lemma writeSecretFile_error {fs : FileSystem FileName} {contents : Bytes} {fault : Option Fault}
    (hapart : ∀ file, path.file = some file → fs.Apart file.tmpPath file)
    {fs' : FileSystem FileName} {e : StorageError}
    (h : writeSecretFile fs path contents fault = (fs', .error e)) :
    path.file.bind fs'.read = path.file.bind fs.read := by
  rcases writeSecretFile_cases h with ⟨rfl, -⟩ | ⟨file, hfile, hreplace⟩
  · rfl
  · rw [hfile]
    exact replaceFile_error (hapart file hfile) hreplace

lemma writeSecretFile_ok {fs : FileSystem FileName} {contents : Bytes} {fault : Option Fault}
    (hapart : ∀ file, path.file = some file → fs.Apart file.tmpPath file)
    {fs' : FileSystem FileName} (h : writeSecretFile fs path contents fault = (fs', .ok ())) :
    path.file.bind fs'.read = some contents := by
  rcases writeSecretFile_cases h with ⟨-, herror⟩ | ⟨file, hfile, hreplace⟩
  · cases herror
  · rw [hfile]
    exact replaceFile_ok (hapart file hfile) hreplace

/-- From the encryption on a save changes nothing, or only what `write_secret_file` does. -/
lemma writeWallet_cases {state state' : SaveState σ I} {nonce : Nonce} {fault : Option Fault}
    {result : Except SaveError Unit}
    (h : writeWallet params host codec aead path state nonce fault = (state', result)) :
    (state' = state ∧ ∃ e, result = .error e) ∨ ∃ encrypted fs' written,
      encryptWalletWithKeyNonce params host codec aead state.wallet.data state.wallet.key
        state.wallet.salt nonce = .ok encrypted ∧
      writeSecretFile state.fs path encrypted fault = (fs', written) ∧
      state' = { state with fs := fs' } ∧ result = written.mapError .storage := by
  unfold writeWallet at h
  split at h
  · obtain ⟨rfl, rfl⟩ := Prod.mk.inj h
    exact .inl ⟨rfl, _, rfl⟩
  · rename_i encrypted hencrypt
    split at h
    · obtain ⟨rfl, rfl⟩ := Prod.mk.inj h
      exact .inl ⟨rfl, _, rfl⟩
    · rcases hwrite : writeSecretFile state.fs path encrypted fault with ⟨fs', written⟩
      rw [hwrite] at h
      obtain ⟨rfl, rfl⟩ := Prod.mk.inj h
      exact .inr ⟨encrypted, fs', written, hencrypt, hwrite, rfl, rfl⟩

/-- A save that fails from the encryption on changes nothing. -/
lemma writeWallet_error {state : SaveState σ I} {nonce : Nonce} {fault : Option Fault}
    (hapart : ∀ file, path.file = some file → state.fs.Apart file.tmpPath file)
    {state' : SaveState σ I} {e : SaveError}
    (h : writeWallet params host codec aead path state nonce fault = (state', .error e)) :
    state'.wallet = state.wallet ∧ state'.provider = state.provider ∧
      state'.file path = state.file path := by
  rcases writeWallet_cases h with ⟨rfl, -⟩ | ⟨encrypted, fs', written, -, hwrite, rfl, hresult⟩
  · exact ⟨rfl, rfl, rfl⟩
  · cases written with
    | ok u => cases hresult
    | error e' => exact ⟨rfl, rfl, writeSecretFile_error hapart hwrite⟩

/-! ### The whole save -/

/-- The wallet's key and salt, the cached key and the file are what they were. -/
structure Unchanged (provider : CredentialProvider σ) (path : WalletPath)
    (before after : SaveState σ I) : Prop where
  key : after.wallet.key = before.wallet.key
  salt : after.wallet.salt = before.wallet.salt
  cached : provider.getKey after.provider = provider.getKey before.provider
  file : after.file path = before.file path

/-- The key that is chosen: that of the wallet, or one that is derived. -/
lemma chooseKey_eq_ok {wallet wallet' : Wallet I} {isNew : Bool} {input : PasswordInput}
    {salt : Salt} : chooseKey deriveKey wallet isNew input salt = .ok wallet' ↔
      isNew = false ∧ wallet' = wallet ∨
      isNew = true ∧ ∃ password, getPasswordWithConfirm input = .ok password ∧
        ∃ key, deriveKey password salt = .ok key ∧ wallet' = { wallet with key, salt } := by
  unfold chooseKey
  cases isNew with
  | false => simp [eq_comm]
  | true =>
    simp only [if_true, bind_eq_ok, mapError_eq_ok, pure_eq_ok, Bool.true_eq_false, false_and,
      true_and, false_or, eq_comm (a := wallet')]

/-- The inputs of a save from which no key is derived: the wallet is not saved as a new one, or
there is no confirmed password, or `derive_key` refuses it. -/
def KeepsKey (deriveKey : String → Salt → Except WalletError Key) (isNew : Bool)
    (input : PasswordInput) (salt : Salt) : Prop :=
  isNew = false ∨ ∀ password key, getPasswordWithConfirm input = .ok password →
    deriveKey password salt ≠ .ok key

/-- The key and salt that are chosen are the wallet's, or the drawn salt is put into it. -/
lemma chooseKey_cases {wallet wallet' : Wallet I} {isNew : Bool} {input : PasswordInput}
    {salt : Salt} (h : chooseKey deriveKey wallet isNew input salt = .ok wallet') :
    (isNew = false ∧ wallet' = wallet) ∨
      (isNew = true ∧ ¬ KeepsKey deriveKey isNew input salt ∧ wallet'.salt = salt) := by
  rcases chooseKey_eq_ok.mp h with ⟨hnew, rfl⟩ | ⟨hnew, password, hpassword, key, hkey, rfl⟩
  · exact .inl ⟨hnew, rfl⟩
  · refine .inr ⟨hnew, ?_, rfl⟩
    rintro (hold | hnone)
    · exact absurd (hnew.symm.trans hold) (by decide)
    · exact hnone password key hpassword hkey

/-- **A save that derives no key changes nothing when it fails.**  One that derives a key and fails
has changed the wallet, unless the salt that was drawn is the one it had.  The file keeps its
content in any case. -/
theorem failed_save_iff {state : SaveState σ I} {isNew : Bool} {input : PasswordInput}
    {salt : Salt} {nonce : Nonce} {fault : Option Fault}
    (hapart : ∀ file, path.file = some file → state.fs.Apart file.tmpPath file)
    {state' : SaveState σ I} {e : SaveError}
    (h : saveOn params host codec aead deriveKey provider path state isNew input salt nonce fault =
      (state', .error e)) :
    state'.file path = state.file path ∧
      (KeepsKey deriveKey isNew input salt → Unchanged provider path state state') ∧
      (salt ≠ state.wallet.salt → Unchanged provider path state state' →
        KeepsKey deriveKey isNew input salt) := by
  unfold saveOn at h
  cases hchoose : chooseKey deriveKey state.wallet isNew input salt with
  | error e' =>
    rw [hchoose] at h
    obtain ⟨rfl, -⟩ := Prod.mk.inj h
    refine ⟨rfl, fun _ => ⟨rfl, rfl, rfl, rfl⟩, fun _ _ => ?_⟩
    cases isNew with
    | false => exact .inl rfl
    | true =>
      refine .inr fun password key hpassword hkey => ?_
      have hok : chooseKey deriveKey state.wallet true input salt =
          .ok { state.wallet with key, salt } :=
        chooseKey_eq_ok.mpr (.inr ⟨rfl, password, hpassword, key, hkey, rfl⟩)
      rw [hchoose] at hok
      cases hok
  | ok wallet =>
    rw [hchoose] at h
    rcases chooseKey_cases hchoose with ⟨rfl, rfl⟩ | ⟨rfl, hderived, hsalt⟩
    · obtain ⟨hwallet, hprovider, hfile⟩ := writeWallet_error hapart h
      refine ⟨hfile, fun _ => ?_, fun _ _ => .inl rfl⟩
      exact ⟨congrArg Wallet.key hwallet, congrArg Wallet.salt hwallet, congrArg _ hprovider, hfile⟩
    · obtain ⟨hwallet, -, hfile⟩ := writeWallet_error (by exact hapart) h
      refine ⟨hfile, fun hkeeps => absurd hkeeps hderived, fun hdrawn hsame => ?_⟩
      -- the drawn salt is in the wallet
      have hkept : state'.wallet.salt = salt := by
        rw [hwallet, ← hsalt]
        rfl
      exact absurd (hkept.symm.trans hsame.salt) hdrawn

/-- The wallet in memory after a save, successful or not, is that of the save of the wallet
alone. -/
lemma saveOn_wallet (state : SaveState σ I) (isNew : Bool) (input : PasswordInput) (salt : Salt)
    (nonce : Nonce) (fault : Option Fault) (writable : Bool) :
    (saveOn params host codec aead deriveKey provider path state isNew input salt nonce
        fault).1.wallet =
      (saveWithProvider params host codec aead deriveKey state.wallet isNew input salt nonce
        writable).1 := by
  have hwrite : ∀ s : SaveState σ I,
      (writeWallet params host codec aead path s nonce fault).1.wallet = s.wallet := by
    intro s
    rcases hwritten : writeWallet params host codec aead path s nonce fault with ⟨s', result⟩
    rcases writeWallet_cases hwritten with ⟨rfl, -⟩ | ⟨_, _, _, -, -, rfl, -⟩
    · rfl
    · rfl
  unfold saveOn saveWithProvider
  cases chooseKey deriveKey state.wallet isNew input salt with
  | error e => rfl
  | ok wallet =>
    rw [hwrite]
    cases isNew <;> rfl

/-- A save that succeeds leaves the encrypted wallet in place. -/
lemma writeWallet_ok {state : SaveState σ I} {nonce : Nonce} {fault : Option Fault}
    (hapart : ∀ file, path.file = some file → state.fs.Apart file.tmpPath file)
    {state' : SaveState σ I}
    (h : writeWallet params host codec aead path state nonce fault = (state', .ok ())) :
    state'.wallet = state.wallet ∧ ∃ file,
      writeFile params host codec aead state.wallet nonce true = .ok file ∧
        state'.file path = some file := by
  rcases writeWallet_cases h with
    ⟨-, e, herror⟩ | ⟨encrypted, fs', written, hencrypt, hwrite, rfl, hresult⟩
  · cases herror
  · cases written with
    | error e => cases hresult
    | ok u =>
      refine ⟨rfl, encrypted, ?_, writeSecretFile_ok hapart hwrite⟩
      rw [writeFile, hencrypt]
      rfl

/-- **A save that succeeds is the save of the wallet alone, and its file is in place.** -/
theorem saveOn_ok {state : SaveState σ I} {isNew : Bool} {input : PasswordInput} {salt : Salt}
    {nonce : Nonce} {fault : Option Fault}
    (hapart : ∀ file, path.file = some file → state.fs.Apart file.tmpPath file)
    {state' : SaveState σ I}
    (h : saveOn params host codec aead deriveKey provider path state isNew input salt nonce fault =
      (state', .ok ())) :
    ∃ file, saveWithProvider params host codec aead deriveKey state.wallet isNew input salt nonce
      true = (state'.wallet, .ok file) ∧ state'.file path = some file := by
  unfold saveOn at h
  unfold saveWithProvider
  cases hchoose : chooseKey deriveKey state.wallet isNew input salt with
  | error e =>
    rw [hchoose] at h
    cases (Prod.mk.inj h).2
  | ok wallet =>
    rw [hchoose] at h
    have hcached : (cacheKey provider { state with wallet } isNew).wallet = wallet ∧
        (cacheKey provider { state with wallet } isNew).fs = state.fs := by
      cases isNew <;> exact ⟨rfl, rfl⟩
    obtain ⟨hkept, file, hfile, hplace⟩ := writeWallet_ok (by rwa [hcached.2]) h
    rw [hcached.1] at hkept hfile
    exact ⟨file, by rw [hkept, ← hfile], hplace⟩

/-! ### A save that fails after its key was cached -/

/-- A wallet with a file of one byte, its key of zeros in the provider. -/
def sampleSave : SaveState (Option Key) BasicIdentity where
  wallet := { data := .new, key := fill 32 0, salt := fill 32 1 }
  provider := some (fill 32 0)
  fs :=
    { inode := fun name => if name = samplePath then some 0 else none
      content := fun _ => [1]
      free := 1
      inode_lt := fun name i h => by
        split_ifs at h
        rw [← Option.some.inj h]
        exact Nat.one_pos }

/-- The path of that file. -/
def sampleWalletPath : WalletPath := { dir := samplePath.dir, fileName := some samplePath.name }

lemma sampleSave_apart (file : FileName) (h : sampleWalletPath.file = some file) :
    sampleSave.fs.Apart file.tmpPath file := by
  obtain rfl := Option.some.inj h
  intro i hi
  cases hi

/-- The sample saved, with a directory that cannot be created. -/
def sampleSaved (isNew : Bool) : SaveState (Option Key) BasicIdentity × Except SaveError Unit :=
  saveOn IDENTIKEY_PARAMS Host.plain (BasicIdentity.codec Host.plain fun _ => fill 32 0) Aead.clear
    deriveSame MemoryProvider sampleWalletPath sampleSave isNew (typed "secret") (fill 32 2)
    (fill 24 3) (some .createDir)

lemma sampleSaved_error (isNew : Bool) : ∃ e, (sampleSaved isNew).2 = .error e := by
  have hwrite : ∀ s : SaveState (Option Key) BasicIdentity, ∃ e, (writeWallet IDENTIKEY_PARAMS
      Host.plain (BasicIdentity.codec Host.plain fun _ => fill 32 0) Aead.clear sampleWalletPath s
      (fill 24 3) (some .createDir)).2 = .error e := by
    intro s
    unfold writeWallet
    split
    · exact ⟨_, rfl⟩
    · exact ⟨_, rfl⟩
  cases isNew with
  | false => exact hwrite _
  | true => exact hwrite _

/-- Saved as an existing one, the sample is not changed; saved as a new one it is. -/
theorem failed_save_existing : (∃ e, (sampleSaved false).2 = .error e ∧
      Unchanged MemoryProvider sampleWalletPath sampleSave (sampleSaved false).1) ∧
    ∃ e, (sampleSaved true).2 = .error e ∧
      ¬ Unchanged MemoryProvider sampleWalletPath sampleSave (sampleSaved true).1 := by
  constructor
  · obtain ⟨e, he⟩ := sampleSaved_error false
    exact ⟨e, he, (failed_save_iff sampleSave_apart (Prod.ext rfl he)).2.1 (.inl rfl)⟩
  · obtain ⟨e, he⟩ := sampleSaved_error true
    refine ⟨e, he, fun hsame => ?_⟩
    have hkeeps := (failed_save_iff sampleSave_apart (Prod.ext rfl he)).2.2 (by decide) hsame
    rcases hkeeps with hold | hnone
    · cases hold
    · exact hnone "secret" (fill 32 7) rfl rfl

/-- Saved as a new one, it has a new key in memory and in the provider, and its old file. -/
theorem failed_save_new :
    ¬ ∀ (σ : Type) (params : WalletParams) (host : Host) (codec : WalletIdentity BasicIdentity)
      (aead : Aead) (deriveKey : String → Salt → Except WalletError Key)
      (provider : CredentialProvider σ) (path : WalletPath) (state : SaveState σ BasicIdentity)
      (isNew : Bool) (input : PasswordInput) (salt : Salt) (nonce : Nonce) (fault : Option Fault)
      (state' : SaveState σ BasicIdentity) (e : SaveError),
      (∀ file, path.file = some file → state.fs.Apart file.tmpPath file) →
      saveOn params host codec aead deriveKey provider path state isNew input salt nonce fault =
        (state', .error e) → Unchanged provider path state state' := by
  intro hall
  obtain ⟨e, he⟩ := sampleSaved_error true
  have hsame := hall _ _ _ _ _ _ _ _ _ _ _ _ _ _ _ _ sampleSave_apart (Prod.ext rfl he)
  have hnew : (sampleSaved true).1.wallet.key = fill 32 7 := by
    rw [sampleSaved, @saveOn_wallet _ _ _ _ _ _ _ _ _ _ true _ _ _ _ false]
    rfl
  have hkey := hnew.symm.trans hsame.key
  exact absurd hkey (by decide)

end Identikey.Wallet
