/-
Sessions on the command line.

Any number of commands, one after the other, print what a book in memory would have
printed, except where they report that the wallet was not loaded or not saved.  After them
one of the passwords that were typed opens the file, and what is in it is the book.
-/
import Identikey.Ikey.Persist

namespace Identikey.Ikey

open Lib Lib.Fallible Auth Dcbor Gordian Gordian.Envelope Secret Wallet

/-- A command, what came from outside while it ran, and what it printed or reported. -/
structure Event where
  cmd : Command
  draw : Draw
  result : Except IkeyError Output

/-- The wallet was not loaded or not saved, for whatever reason (a wrong password and a file that
cannot be read are two), or the provider failed. -/
def IkeyError.Unreachable : IkeyError → Prop
  | .storage _ | .save _ | .provider _ => True
  | _ => False

/-- What may happen to a book: it is changed or looked at, a command is refused, or the wallet was
not loaded or saved and the book stays as it is. -/
inductive BookStep (blake3 : Bytes → Digest32) : Book → Event → Book → Prop where
  | performed {b b' : Book} {cmd : IdentityCommand} {draw : Draw} {output : Output}
      (h : b.perform blake3 draw cmd = .ok (output, b')) :
      BookStep blake3 b ⟨.Identity cmd, draw, .ok output⟩ b'
  | refused {b : Book} {cmd : IdentityCommand} {draw : Draw} {e : IkeyError}
      (h : b.perform blake3 draw cmd = .error e) :
      BookStep blake3 b ⟨.Identity cmd, draw, .error e⟩ b
  | failed {b : Book} {cmd : Command} {draw : Draw} {e : IkeyError} (h : e.Unreachable) :
      BookStep blake3 b ⟨cmd, draw, .error e⟩ b
  | unlocked {b : Book} {draw : Draw} :
      BookStep blake3 b ⟨.Wallet .Unlock, draw,
        .ok (if b.identities.entries.isEmpty then .nothingToUnlock else .unlocked)⟩ b
  | locked {b : Book} {draw : Draw} {provider : String} :
      BookStep blake3 b ⟨.Wallet .Lock, draw, .ok (.locked provider)⟩ b
  | status {b : Book} {draw : Draw} {path : WalletPath} {present unlocked : Bool}
      {provider : String} :
      BookStep blake3 b ⟨.Wallet .Status, draw, .ok (.status path present provider unlocked)⟩ b
  | path {b : Book} {draw : Draw} {path : WalletPath} :
      BookStep blake3 b ⟨.Wallet .Path, draw, .ok (.path path)⟩ b

variable (params : WalletParams) (host : Host) (blake3 : Bytes → Digest32) (aead : Aead)
  (reader : EnvelopeReader host) (deriveKey : String → Salt → Except WalletError Key)
  (passwords : Set String) (salts : Set Salt) {σ : Type} (cache : KeyCache σ) (path : WalletPath)

/-- What is typed and drawn is of the passwords and salts of the run, a new name is in normalisation
form C, and different assertions of the wallet that is saved have different digests. -/
structure Proper (m : Machine σ) (event : Event) : Prop where
  typed : ∀ p, getPassword event.draw.loadInput = .ok p → p ∈ passwords
  confirmed : ∀ p, getPasswordWithConfirm event.draw.saveInput = .ok p → p ∈ passwords
  drawn : event.draw.saveSalt ∈ salts
  nfc : ∀ name noPq, event.cmd = .Identity (.New name noPq) → host.nfc name = name
  untangled : ∀ cmd wallet output data, event.cmd = .Identity cmd →
    (m.load params host blake3 aead reader deriveKey cache path event.draw).2 = .ok wallet →
    cmd.edit blake3 event.draw wallet.data = .ok (output, some data) → Untangled host data

/-- The command runs and gives this result. -/
structure MachineStep (m : Machine σ) (event : Event) (m' : Machine σ) : Prop where
  proper : Proper params host blake3 aead reader deriveKey passwords salts cache path m event
  ran : main params host blake3 aead reader deriveKey cache path m event.draw event.cmd =
    (m', event.result)

variable {params host blake3 aead reader deriveKey passwords salts cache path} {b : Book}
  {m m' : Machine σ}

/-! ### One command -/

lemma identity_step (hcache : Honest cache)
    (hsep : Separates aead (derivedKeys deriveKey passwords salts))
    (htype : host.nfc params.walletType = params.walletType)
    (h : Keeps params host blake3 aead deriveKey passwords salts cache path m b)
    {cmd : IdentityCommand} {draw : Draw} {result : Except IkeyError Output}
    (hproper : Proper params host blake3 aead reader deriveKey passwords salts cache path m
      ⟨.Identity cmd, draw, result⟩)
    (hran : identityCommand params host blake3 aead reader deriveKey cache path m draw cmd =
      (m', result)) :
    ∃ b', BookStep blake3 b ⟨.Identity cmd, draw, result⟩ b' ∧
      Keeps params host blake3 aead deriveKey passwords salts cache path m' b' := by
  unfold identityCommand at hran
  rcases hload : m.load params host blake3 aead reader deriveKey cache path draw with ⟨m₁, loaded⟩
  obtain ⟨hkeeps, ⟨e, rfl⟩ | ⟨wallet, rfl, hwallet⟩⟩ := load_keeps hcache hsep h hproper.typed hload
  · rw [hload] at hran
    obtain ⟨rfl, rfl⟩ := Prod.mk.inj hran
    exact ⟨b, .failed trivial, hkeeps⟩
  rw [hload] at hran
  simp only at hran
  have hedit := Book.edit_toWallet blake3 draw b cmd
  rw [← hwallet.data] at hedit
  cases hperform : b.perform blake3 draw cmd with
  | error e =>
    rw [hedit, hperform] at hran
    obtain ⟨rfl, rfl⟩ := Prod.mk.inj hran
    exact ⟨b, .refused hperform, hkeeps⟩
  | ok r =>
    obtain ⟨output, b'⟩ := r
    rw [hperform, Except.map] at hedit
    by_cases hsaves : cmd.Saves
    · rw [if_pos hsaves] at hedit
      have huntangled : Untangled host b'.toWallet :=
        hproper.untangled cmd wallet output b'.toWallet rfl (congrArg Prod.snd hload) hedit
      have hfit : b'.Fit host blake3 :=
        perform_fit h.fit (fun name noPq heq => hproper.nfc name noPq (heq ▸ rfl)) hperform
      rw [hedit] at hran
      simp only at hran
      rcases hsave : m₁.save params host blake3 aead deriveKey cache path
        { wallet with data := b'.toWallet } (cmd.saysNew wallet) draw with ⟨m₂, saved⟩
      have hdata : ({ wallet with data := b'.toWallet } : Wallet BasicIdentity).data =
        b'.toWallet := rfl
      have hsaved := save_keeps hcache hkeeps hproper.confirmed hproper.drawn hfit
        (hfit.storable htype huntangled) hdata (keyed_of_saves hwallet hperform hsaves) hsave
      rw [hsave] at hran
      obtain ⟨rfl, rfl⟩ := Prod.mk.inj hran
      rcases hsaved with ⟨e, rfl, hkept⟩ | ⟨rfl, hkept⟩
      · exact ⟨b, .failed trivial, hkept⟩
      · exact ⟨b', .performed hperform, hkept⟩
    · obtain rfl := Book.eq_of_not_saves hperform hsaves
      rw [if_neg hsaves] at hedit
      rw [hedit] at hran
      obtain ⟨rfl, rfl⟩ := Prod.mk.inj hran
      exact ⟨b', .performed hperform, hkeeps⟩

lemma wallet_step (hcache : Honest cache)
    (hsep : Separates aead (derivedKeys deriveKey passwords salts))
    (h : Keeps params host blake3 aead deriveKey passwords salts cache path m b)
    {cmd : WalletCommand} {draw : Draw} {result : Except IkeyError Output}
    (hproper : Proper params host blake3 aead reader deriveKey passwords salts cache path m
      ⟨.Wallet cmd, draw, result⟩)
    (hran : walletCommand params host blake3 aead reader deriveKey cache path m draw cmd =
      (m', result)) :
    BookStep blake3 b ⟨.Wallet cmd, draw, result⟩ b ∧
      Keeps params host blake3 aead deriveKey passwords salts cache path m' b := by
  cases cmd with
  | Unlock =>
    unfold walletCommand at hran
    rcases hload : m.load params host blake3 aead reader deriveKey cache path draw with
      ⟨m₁, loaded⟩
    obtain ⟨hkeeps, ⟨e, rfl⟩ | ⟨wallet, rfl, hwallet⟩⟩ :=
      load_keeps hcache hsep h hproper.typed hload
    · rw [hload] at hran
      obtain ⟨rfl, rfl⟩ := Prod.mk.inj hran
      exact ⟨.failed trivial, hkeeps⟩
    · rw [hload] at hran
      obtain ⟨rfl, rfl⟩ := Prod.mk.inj hran
      have hnew : wallet.isNew = b.identities.entries.isEmpty := by
        rw [Wallet.isNew, hwallet.data]
        rfl
      rw [Except.mapError, Except.map, hnew]
      exact ⟨.unlocked, hkeeps⟩
  | Lock =>
    unfold walletCommand at hran
    rcases hclear : cache.clearKey m.provider with ⟨cleared, s⟩
    simp only [hclear] at hran
    obtain ⟨rfl, rfl⟩ := Prod.mk.inj hran
    have hkeeps : Keeps params host blake3 aead deriveKey passwords salts cache path
        { m with provider := s } b := by
      refine ⟨h.fit, h.file, fun key hkey => h.cached key (hcache.cleared _ _ ?_), h.apart⟩
      rw [hclear]
      exact hkey
    cases cleared with
    | error e => exact ⟨.failed trivial, hkeeps⟩
    | ok u => exact ⟨.locked, hkeeps⟩
  | Status =>
    unfold walletCommand at hran
    obtain ⟨rfl, rfl⟩ := Prod.mk.inj hran
    cases cache.getKey m.provider with
    | error e => exact ⟨.failed trivial, h⟩
    | ok key => exact ⟨.status, h⟩
  | Path =>
    obtain ⟨rfl, rfl⟩ := Prod.mk.inj hran
    exact ⟨.path, h⟩

/-- **Every command is a step of the book.** -/
lemma machine_step (hcache : Honest cache)
    (hsep : Separates aead (derivedKeys deriveKey passwords salts))
    (htype : host.nfc params.walletType = params.walletType)
    (h : Keeps params host blake3 aead deriveKey passwords salts cache path m b) {event : Event}
    (hstep : MachineStep params host blake3 aead reader deriveKey passwords salts cache path m event
      m') :
    ∃ b', BookStep blake3 b event b' ∧
      Keeps params host blake3 aead deriveKey passwords salts cache path m' b' := by
  obtain ⟨hproper, hran⟩ := hstep
  obtain ⟨cmd, draw, result⟩ := event
  cases cmd with
  | Identity cmd => exact identity_step hcache hsep htype h hproper hran
  | Wallet cmd => exact ⟨b, wallet_step hcache hsep h hproper hran⟩

/-- A wallet that is saved as a new one gets a key, which is cached, and is written under it. -/
lemma save_new {wallet : Wallet BasicIdentity} {draw : Draw} {p : String}
    (hp : getPasswordWithConfirm draw.saveInput = .ok p) {key : Key}
    (hkey : deriveKey p draw.saveSalt = .ok key) {f : Bytes}
    (hencrypt : encryptWalletWithKeyNonce params host (BasicIdentity.codec host blake3) aead
      wallet.data key draw.saveSalt draw.nonce = .ok f) :
    m.save params host blake3 aead deriveKey cache path wallet true draw =
      if draw.fault = some .createDir then
        ({ provider := (cache.storeKey m.provider key).2, fs := m.fs }, .error .directory)
      else
        ({ provider := (cache.storeKey m.provider key).2
           fs := (writeSecretFile m.fs path f draw.fault).1 },
          (writeSecretFile m.fs path f draw.fault).2.mapError .storage) := by
  have hchoose : chooseKey deriveKey wallet true draw.saveInput draw.saveSalt =
      .ok { wallet with key, salt := draw.saveSalt } :=
    chooseKey_eq_ok.mpr (.inr ⟨rfl, p, hp, key, hkey, rfl⟩)
  unfold Machine.save saveOn
  rw [hchoose]
  simp only [cacheKey, if_true, writeWallet, hencrypt]
  split <;> rfl

/-- The first identity makes a wallet. -/
lemma new_of_absent {draw : Draw} (hfound : m.found path draw = .absent) {name : String}
    {noPq : Bool} {identity : BasicIdentity} (hnew : newIdentity blake3 draw noPq = .ok identity)
    {p : String} (hp : getPasswordWithConfirm draw.saveInput = .ok p) {key : Key}
    (hkey : deriveKey p draw.saveSalt = .ok key) {f : Bytes}
    (hencrypt : encryptWalletWithKeyNonce params host (BasicIdentity.codec host blake3) aead
      (Book.empty.add name identity).toWallet key draw.saveSalt draw.nonce = .ok f) :
    identityCommand params host blake3 aead reader deriveKey cache path m draw (.New name noPq) =
      if draw.fault = some .createDir then
        ({ provider := (cache.storeKey m.provider key).2, fs := m.fs }, .error (.save .directory))
      else
        ({ provider := (cache.storeKey m.provider key).2
           fs := (writeSecretFile m.fs path f draw.fault).1 },
          ((writeSecretFile m.fs path f draw.fault).2.mapError fun e => .save (.storage e)).map
            fun _ => .created name identity.fingerprint) := by
  have hload : m.load params host blake3 aead reader deriveKey cache path draw =
      (m, .ok { data := .new, key := PLACEHOLDER, salt := draw.loadSalt }) := by
    unfold Machine.load
    rw [hfound]
  have hedit : (IdentityCommand.New name noPq).edit blake3 draw .new =
      .ok (.created name identity.fingerprint, some (Book.empty.add name identity).toWallet) := by
    have hperform : Book.empty.perform blake3 draw (.New name noPq) =
        .ok (.created name identity.fingerprint, Book.empty.add name identity) := by
      rw [Book.perform, hnew]
      rfl
    have hsame := Book.edit_toWallet blake3 draw .empty (.New name noPq)
    rwa [hperform] at hsame
  have hsave := @save_new params host blake3 aead deriveKey σ cache path m
    { data := (Book.empty.add name identity).toWallet, key := PLACEHOLDER, salt := draw.loadSalt }
    draw p hp key hkey f hencrypt
  have hsays : (IdentityCommand.New name noPq).saysNew
      { data := .new, key := PLACEHOLDER, salt := draw.loadSalt } = true := rfl
  unfold identityCommand
  rw [hload]
  simp only [hedit, hsays, hsave]
  split
  · rfl
  · cases (writeSecretFile m.fs path f draw.fault).2 <;> rfl

/-! ### Sessions -/

variable {m₀ : Machine σ} {events : List Event}

/-- The book is what one of the passwords finds in the file. -/
def Book.FoundBy (params : WalletParams) (host : Host) (blake3 : Bytes → Digest32) (aead : Aead)
    (reader : EnvelopeReader host) (deriveKey : String → Salt → Except WalletError Key)
    (path : WalletPath) (m : Machine σ) (b : Book) (p : String) : Prop :=
  ∃ contents salt key, path.file.bind m.fs.read = some contents ∧
    extractSalt params contents = .ok salt ∧ deriveKey p salt = .ok key ∧
    decryptWalletWithKey params (BasicIdentity.codec host blake3) aead reader contents key =
      .ok b.toWallet

/-- Without a file the book is empty. -/
lemma keeps_empty (hfile : path.file.bind m₀.fs.read = none)
    (hcached : ∀ key, cachedKey cache m₀.provider = some key →
      key ∈ derivedKeys deriveKey passwords salts) :
    Keeps params host blake3 aead deriveKey passwords salts cache path m₀ .empty := by
  refine ⟨fit_empty, .inl ⟨hfile, rfl⟩, hcached, fun file hpath i _ hi => ?_⟩
  rw [hpath, Option.bind_some, FileSystem.read, hi] at hfile
  cases hfile

lemma foundBy_of_keeps
    (h : Keeps params host blake3 aead deriveKey passwords salts cache path m b) :
    path.file.bind m.fs.read = none ∧ b = .empty ∨
      ∃ p ∈ passwords, b.FoundBy params host blake3 aead reader deriveKey path m p := by
  obtain hnone | ⟨contents, key, salt, hsome, hstored⟩ := h.file
  · exact .inl hnone
  · obtain ⟨p, hp, hkey⟩ := hstored.password
    obtain ⟨nonce, hencrypt⟩ := hstored.encrypted
    obtain ⟨hsalt, hdecrypt⟩ := decrypt_book h.fit hstored.storable hencrypt
    exact .inr ⟨p, hp, contents, salt, key, hsome, hsalt, hkey, hdecrypt⟩

lemma session_keeps (hcache : Honest cache)
    (hsep : Separates aead (derivedKeys deriveKey passwords salts))
    (htype : host.nfc params.walletType = params.walletType)
    (hfile : path.file.bind m₀.fs.read = none)
    (hcached : ∀ key, cachedKey cache m₀.provider = some key →
      key ∈ derivedKeys deriveKey passwords salts)
    (hrun : Trace (MachineStep params host blake3 aead reader deriveKey passwords salts cache path)
      m₀ events m) :
    ∃ b, Trace (BookStep blake3) .empty events b ∧
      Keeps params host blake3 aead deriveKey passwords salts cache path m b :=
  hrun.simulate (fun _ _ _ _ h hstep => machine_step hcache hsep htype h hstep)
    (keeps_empty hfile hcached)

/-- **The commands keep a book.**  Any session that begins without a file prints what a book in
memory prints, except where the wallet was not loaded or saved or the provider failed, which
changes nothing; and one of the passwords that were typed finds this book in the file. -/
theorem session_refines_book (hcache : Honest cache)
    (hsep : Separates aead (derivedKeys deriveKey passwords salts))
    (htype : host.nfc params.walletType = params.walletType)
    (hfile : path.file.bind m₀.fs.read = none)
    (hcached : ∀ key, cachedKey cache m₀.provider = some key →
      key ∈ derivedKeys deriveKey passwords salts)
    (hrun : Trace (MachineStep params host blake3 aead reader deriveKey passwords salts cache path)
      m₀ events m) :
    ∃ b, Trace (BookStep blake3) .empty events b ∧
      (path.file.bind m.fs.read = none ∧ b = .empty ∨
        ∃ p ∈ passwords, b.FoundBy params host blake3 aead reader deriveKey path m p) := by
  obtain ⟨b, hbook, hkeeps⟩ := session_keeps hcache hsep htype hfile hcached hrun
  exact ⟨b, hbook, foundBy_of_keeps hkeeps⟩

/-! ### A session of three commands -/

/-- A book with this identity. -/
def sampleBook : Book := Book.empty.add "alice" sampleIdentity

/-- The fields of the wallet of the book. -/
def sampleWalletFields : List (String × Envelope) :=
  [("active-identity", .ofText "alice"),
    ("identity", node (leaf (.map (textEntries (BasicIdentity.entries (fill 32 0)))))
      (sampleFields.map fun f => ofPair (ofField f)))]

lemma fieldPairs_sampleBook : fieldPairs (Wallet.fields Host.plain sampleBook.toWallet)
    sampleBook.toWallet.unknownAssertions = sampleWalletFields.map ofField := by
  rw [sampleWalletFields, ← envelopeOf_sampleIdentity]
  rfl

lemma length_sampleBook :
    ((walletEnvelope Host.plain IDENTIKEY_PARAMS sampleBook.toWallet).toCborData
      Host.plain).length < 2 ^ 38 := by
  have hfields : ∀ a ∈ (sampleWalletFields.map ofField).map ofPair, a.width Host.plain ≤ 400 := by
    decide +kernel
  have hsubject : (leaf (.map (textEntries (Wallet.entries IDENTIKEY_PARAMS)))).width Host.plain ≤
      100 := by decide +kernel
  have hadd := width_addAll hfields (leaf (.map (textEntries (Wallet.entries IDENTIKEY_PARAMS))))
  have hcount : ((sampleWalletFields.map ofField).map ofPair).length = 2 := rfl
  have hlen := @length_toCborData_le Host.plain
    (walletEnvelope Host.plain IDENTIKEY_PARAMS sampleBook.toWallet)
  rw [walletEnvelope, fieldPairs_sampleBook] at hlen ⊢
  rw [hcount] at hadd
  rw [record] at hlen ⊢
  omega

lemma untangled_sampleBook : Untangled Host.plain sampleBook.toWallet where
  wallet := by
    rw [fieldPairs_sampleBook]
    exact apart_of_nat (by decide +kernel)
  identities x hx := by
    obtain rfl : x = ("alice", sampleIdentity) := List.mem_singleton.mp hx
    exact apart_of_nat (by decide +kernel)

/-- One password and one salt; the wallet is encrypted in the clear. -/
abbrev SampleStep : Machine (Option Key) → Event → Machine (Option Key) → Prop :=
  MachineStep IDENTIKEY_PARAMS Host.plain (fun _ => fill 32 0) Aead.clear
    (EnvelopeReader.canonical Host.plain) deriveSame {"secret"} {fill 32 2} MemoryCache
    sampleWalletPath

/-- No file, no key. -/
def sampleMachine : Machine (Option Key) where
  provider := none
  fs := sampleWriters.fs

/-- What is drawn for each command of the session; the call that fails. -/
def sampleDraw (fault : Option Wallet.Fault) : Draw where
  env := some "secret"
  typed := none
  first := none
  second := none
  readable := true
  loadSalt := fill 32 2
  saveSalt := fill 32 2
  nonce := fill 24 3
  ed25519 := { publicKey := (fill 32 1).val, secretKey := (fill 32 2).val }
  mlDsa := .error "none"
  now := some 5
  fault := fault

/-- The file of the book. -/
def sampleFile : Bytes :=
  shell (fill 32 2) (fill 24 3)
    ((walletEnvelope Host.plain IDENTIKEY_PARAMS sampleBook.toWallet).toCborData Host.plain ++
      Aead.clearTag)

lemma encrypt_sampleBook : encryptWalletWithKeyNonce IDENTIKEY_PARAMS Host.plain
    (BasicIdentity.codec Host.plain fun _ => fill 32 0) Aead.clear sampleBook.toWallet (fill 32 7)
    (fill 32 2) (fill 24 3) = .ok sampleFile := by
  have hfp : ∀ x ∈ sampleBook.toWallet.identities.entries,
      x.2.fingerprint = (fun _ => fill 32 0) x.2.ed25519.publicKey := by
    intro x hx
    obtain rfl : x = ("alice", sampleIdentity) := List.mem_singleton.mp hx
    rfl
  have hmsg := (@toEnvelope_eq_ok Host.plain (fun _ => fill 32 0) IDENTIKEY_PARAMS
    sampleBook.toWallet _).mpr ⟨hfp, rfl⟩
  have hclear : ∀ msg : Bytes, msg.length < 2 ^ 38 →
      Aead.clear.encrypt (fill 32 7) (fill 24 3) [] msg = some (msg ++ Aead.clearTag) :=
    fun _ hlen => if_pos hlen
  exact encryptWalletWithKeyNonce_eq_ok.mpr
    ⟨_, _, hmsg, hclear _ length_sampleBook, sampleFile.eq_1⟩

/-- `identity new alice --no-pq` -/
def newAlice (fault : Option Wallet.Fault) (result : Except IkeyError Output) : Event :=
  { cmd := .Identity (.New "alice" true), draw := sampleDraw fault, result }

lemma proper_new {m : Machine (Option Key)} {fault : Option Wallet.Fault}
    (hfound : m.found sampleWalletPath (sampleDraw fault) = .absent)
    (result : Except IkeyError Output) :
    Proper IDENTIKEY_PARAMS Host.plain (fun _ => fill 32 0) Aead.clear
      (EnvelopeReader.canonical Host.plain) deriveSame {"secret"} {fill 32 2} MemoryCache
      sampleWalletPath m (newAlice fault result) where
  typed p hp := (Except.ok.inj hp).symm
  confirmed p hp := (Except.ok.inj hp).symm
  drawn := rfl
  nfc _ _ _ := rfl
  untangled cmd wallet output data hcmd hload hedit := by
    obtain rfl := Command.Identity.inj hcmd
    have hloaded : wallet.data = .new := by
      unfold Machine.load at hload
      rw [show (newAlice fault result).draw = sampleDraw fault from rfl, hfound] at hload
      rw [← Except.ok.inj hload]
    rw [hloaded] at hedit
    obtain ⟨-, hdata⟩ := Prod.mk.inj (Except.ok.inj hedit)
    obtain rfl := Option.some.inj hdata
    exact untangled_sampleBook

/-- The machine after the first identity was made. -/
def savedMachine : Machine (Option Key) where
  provider := some (fill 32 7)
  fs := (writeSecretFile sampleMachine.fs sampleWalletPath sampleFile none).1

/-- That machine without the key. -/
def lockedMachine : Machine (Option Key) := { provider := none, fs := savedMachine.fs }

/-- A directory that cannot be made, an identity, and a lock. -/
def sampleEvents : List Event :=
  [newAlice (some .createDir) (.error (.save .directory)),
    newAlice none (.ok (.created "alice" (fill 32 0))),
    { cmd := .Wallet .Lock, draw := sampleDraw none, result := .ok (.locked "Memory") }]

lemma trace_sample : Trace SampleStep sampleMachine sampleEvents
    lockedMachine := by
  have hnew := fun (m : Machine (Option Key)) fault hfound =>
    @new_of_absent IDENTIKEY_PARAMS Host.plain (fun _ => fill 32 0) Aead.clear
      (EnvelopeReader.canonical Host.plain) deriveSame _ MemoryCache sampleWalletPath m
      (sampleDraw fault) hfound "alice" true sampleIdentity rfl "secret" rfl (fill 32 7) rfl
      sampleFile encrypt_sampleBook
  have hfirst : SampleStep sampleMachine (newAlice (some .createDir) (.error (.save .directory)))
      { sampleMachine with provider := some (fill 32 7) } :=
    ⟨proper_new rfl _, hnew sampleMachine (some .createDir) rfl⟩
  have hsecond : SampleStep { sampleMachine with provider := some (fill 32 7) }
      (newAlice none (.ok (.created "alice" (fill 32 0)))) savedMachine :=
    ⟨proper_new rfl _, hnew { sampleMachine with provider := some (fill 32 7) } none rfl⟩
  have hthird : SampleStep savedMachine
      { cmd := .Wallet .Lock, draw := sampleDraw none, result := .ok (.locked "Memory") }
      lockedMachine := by
    refine ⟨?_, rfl⟩
    exact {
      typed := fun p hp => (Except.ok.inj hp).symm
      confirmed := fun p hp => (Except.ok.inj hp).symm
      drawn := rfl
      nfc := fun _ _ h => nomatch h
      untangled := fun _ _ _ _ h => nomatch h }
  exact .snoc (.snoc (.single hfirst) hsecond) hthird

lemma separates_sample : Separates Aead.clear (derivedKeys deriveSame {"secret"} {fill 32 2}) := by
  rintro key ⟨_, _, _, _, hkey⟩ key' ⟨_, _, _, _, hkey'⟩ _ _ _ _ _
  exact (Except.ok.inj hkey').symm.trans (Except.ok.inj hkey)

lemma no_key (key : Key) (h : cachedKey MemoryCache sampleMachine.provider = some key) :
    key ∈ derivedKeys deriveSame {"secret"} {fill 32 2} := nomatch h

/-- The session prints what a book prints. -/
theorem session_refines_book_sample : ∃ b,
    Trace (BookStep fun _ => fill 32 0) .empty sampleEvents b ∧
    (sampleWalletPath.file.bind lockedMachine.fs.read = none ∧ b = .empty ∨
      ∃ p ∈ ({"secret"} : Set String), b.FoundBy IDENTIKEY_PARAMS Host.plain (fun _ => fill 32 0)
        Aead.clear (EnvelopeReader.canonical Host.plain) deriveSame sampleWalletPath
        lockedMachine p) :=
  session_refines_book honest_memory separates_sample rfl rfl no_key trace_sample

/-! ### What is in the wallet after it -/

/-- **The wallet answers.**  After any session that begins without a file there is a password, one
of those that were typed if there is a file by then, with which `identity list` and
`identity show` print what they print of the book, if the file can be read. -/
theorem session_answers (hcache : Honest cache)
    (hsep : Separates aead (derivedKeys deriveKey passwords salts))
    (htype : host.nfc params.walletType = params.walletType)
    (hfile : path.file.bind m₀.fs.read = none)
    (hcached : ∀ key, cachedKey cache m₀.provider = some key →
      key ∈ derivedKeys deriveKey passwords salts)
    (hrun : Trace (MachineStep params host blake3 aead reader deriveKey passwords salts cache path)
      m₀ events m) :
    ∃ b p, Trace (BookStep blake3) .empty events b ∧
      (path.file.bind m.fs.read = none ∨ p ∈ passwords) ∧
      ∀ cmd draw, ¬ cmd.Saves → draw.env = some p → draw.readable = true →
        (identityCommand params host blake3 aead reader deriveKey cache path m draw cmd).2 =
          (b.perform blake3 draw cmd).map Prod.fst := by
  obtain ⟨b, hbook, hkeeps⟩ := session_keeps hcache hsep htype hfile hcached hrun
  obtain ⟨p, hp, hload⟩ := load_of_keeps hsep hkeeps
  refine ⟨b, p, hbook, hp, fun cmd draw hlooks henv hreadable => ?_⟩
  obtain ⟨m', wallet, hloaded, hdata⟩ := hload draw henv hreadable
  have hedit := Book.edit_toWallet blake3 draw b cmd
  rw [← hdata] at hedit
  simp only [if_neg hlooks] at hedit
  unfold identityCommand
  rw [hloaded]
  simp only [hedit]
  cases b.perform blake3 draw cmd with
  | error e => rfl
  | ok r => rfl

/-- After the session `identity show` shows the identity of the book. -/
theorem session_answers_sample : ∃ b p, Trace (BookStep fun _ => fill 32 0) .empty sampleEvents b ∧
    (identityCommand IDENTIKEY_PARAMS Host.plain (fun _ => fill 32 0) Aead.clear
      (EnvelopeReader.canonical Host.plain) deriveSame MemoryCache sampleWalletPath lockedMachine
      { sampleDraw none with env := some p } (.Show none)).2 =
        (b.perform (fun _ => fill 32 0) { sampleDraw none with env := some p }
          (.Show none)).map Prod.fst := by
  obtain ⟨b, p, hbook, -, hanswers⟩ := @session_answers IDENTIKEY_PARAMS Host.plain
    (fun _ => fill 32 0) Aead.clear (EnvelopeReader.canonical Host.plain) deriveSame _ _ _
    MemoryCache sampleWalletPath _ _ _ honest_memory separates_sample rfl rfl no_key trace_sample
  exact ⟨b, p, hbook, hanswers (.Show none) { sampleDraw none with env := some p } id rfl rfl⟩

/-- A book keeps the identity of a name that is not deleted. -/
lemma get_of_bookStep {name : String} {identity : BasicIdentity} {event : Event} {b' : Book}
    (hdelete : ∀ output, event.cmd = .Identity (.Delete name) → event.result ≠ .ok output)
    (h : b.identities.get name = some identity) (hstep : BookStep blake3 b event b') :
    b'.identities.get name = some identity := by
  cases hstep with
  | @performed _ cmd draw output hperform =>
    rw [← h]
    refine Book.perform_get_of_ne hperform ?_ ?_
    · rintro noPq rfl
      obtain ⟨hfree, -⟩ := Book.perform_new hperform
      rw [h] at hfree
      cases hfree
    · rintro rfl
      exact hdelete output rfl rfl
  | _ => exact h

/-- **An identity that was created is there until it is deleted.**  Where `identity new` has
reported a name as created and no later command has deleted that name, one of the passwords
that were typed finds a wallet in the file that has the identity as it was generated. -/
theorem created_identity_kept (hcache : Honest cache)
    (hsep : Separates aead (derivedKeys deriveKey passwords salts))
    (htype : host.nfc params.walletType = params.walletType)
    (hfile : path.file.bind m₀.fs.read = none)
    (hcached : ∀ key, cachedKey cache m₀.provider = some key →
      key ∈ derivedKeys deriveKey passwords salts)
    {before after : List Event} {name : String} {noPq : Bool} {draw : Draw} {output : Output}
    (hrun : Trace (MachineStep params host blake3 aead reader deriveKey passwords salts cache path)
      m₀ (before ++ ⟨.Identity (.New name noPq), draw, .ok output⟩ :: after) m)
    (hkept : ∀ event ∈ after, ∀ output, event.cmd = .Identity (.Delete name) →
      event.result ≠ .ok output) :
    ∃ (identity : BasicIdentity) (b : Book), newIdentity blake3 draw noPq = .ok identity ∧
      output = .created name identity.fingerprint ∧ b.identities.get name = some identity ∧
      ∃ p ∈ passwords, b.FoundBy params host blake3 aead reader deriveKey path m p := by
  obtain ⟨b, hbook, hkeeps⟩ := session_keeps hcache hsep htype hfile hcached hrun
  obtain ⟨b₁, -, hrest⟩ := hbook.of_append
  obtain ⟨b₂, hnew, hafter⟩ := hrest.of_cons
  cases hnew with
  | performed hperform =>
    obtain ⟨-, identity, hidentity, houtput, hget⟩ := Book.perform_new hperform
    have hgot : b.identities.get name = some identity := by
      refine hafter.keeps (I := fun b => b.identities.get name = some identity)
        (fun _ event _ hevent h hstep => ?_) hget
      exact get_of_bookStep (hkept event hevent) h hstep
    refine ⟨identity, b, hidentity, houtput, hgot, ?_⟩
    obtain ⟨-, rfl⟩ | hfound := foundBy_of_keeps hkeeps
    · cases hgot
    · exact hfound

/-- The identity of the session is in the wallet after it. -/
theorem created_identity_kept_sample : ∃ (identity : BasicIdentity) (b : Book),
    newIdentity (fun _ => fill 32 0) (sampleDraw none) true = .ok identity ∧
    Output.created "alice" (fill 32 0) = .created "alice" identity.fingerprint ∧
    b.identities.get "alice" = some identity ∧
    ∃ p ∈ ({"secret"} : Set String), b.FoundBy IDENTIKEY_PARAMS Host.plain (fun _ => fill 32 0)
      Aead.clear (EnvelopeReader.canonical Host.plain) deriveSame sampleWalletPath lockedMachine
      p := by
  have hrun : Trace SampleStep sampleMachine
      ([newAlice (some .createDir) (.error (.save .directory))] ++
        ⟨.Identity (.New "alice" true), sampleDraw none, .ok (.created "alice" (fill 32 0))⟩ ::
          [⟨.Wallet .Lock, sampleDraw none, .ok (.locked "Memory")⟩]) lockedMachine := trace_sample
  refine created_identity_kept honest_memory separates_sample rfl rfl no_key hrun ?_
  intro event hevent output hdelete
  rw [List.mem_singleton.mp hevent] at hdelete
  cases hdelete

end Identikey.Ikey
