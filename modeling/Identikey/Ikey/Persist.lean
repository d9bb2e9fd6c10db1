/-
The wallet file keeps the book.

Whatever is typed, cached or forgotten, and whichever calls fail, each command either
reports that the wallet was not loaded or not saved, and has changed nothing, or does what it
does to the book.  The file can be opened with a password that was typed, and what is found
in it is the book.

The passwords and salts of a run give finitely many keys, and it is assumed that no file
under one of them opens under another; names are in normalisation form C, and different
assertions of a wallet have different digests.
-/
import Identikey.Ikey.Book
import Identikey.Wallet.RoundTrip

namespace Identikey.Ikey

open Lib Lib.Fallible Auth Dcbor Gordian Gordian.Envelope Secret Wallet

/-! ### Books in files -/

/-- Assertions of one envelope of the wallet that have one digest are the same. -/
structure Untangled (host : Host) (data : WalletData BasicIdentity) : Prop where
  wallet : Apart host
    ((fieldPairs (Wallet.fields host data) data.unknownAssertions).map (normalPair host))
  identities : ∀ x ∈ data.identities.entries,
    Apart host ((fieldPairs (x.2.fields x.1) x.2.unknownAssertions).map (normalPair host))

/-- Names are in normalisation form C, and identities are as `BasicIdentity::new` makes them. -/
structure Book.Fit (host : Host) (blake3 : Bytes → Digest32) (b : Book) : Prop where
  nfc : ∀ x ∈ b.identities.entries, host.nfc x.1 = x.1
  fingerprint : ∀ x ∈ b.identities.entries, x.2.fingerprint = blake3 x.2.ed25519.publicKey
  unknown : ∀ x ∈ b.identities.entries, x.2.unknownAssertions = []

variable {params : WalletParams} {host : Host} {blake3 : Bytes → Digest32} {aead : Aead}
  {reader : EnvelopeReader host} {key : Key} {salt : Salt} {nonce : Wallet.Nonce} {f : Bytes}
  {b : Book}

lemma fit_empty : Book.empty.Fit host blake3 where
  nfc _ h := nomatch h
  fingerprint _ h := nomatch h
  unknown _ h := nomatch h

lemma Book.Fit.foreign (h : b.Fit host blake3) : b.toWallet.Foreign host where
  unknown _ hu := nomatch hu
  identities x hx u hu := by
    rw [h.unknown x hx] at hu
    exact nomatch hu
  secrets _ hs := nomatch hs

lemma Book.Fit.storable (h : b.Fit host blake3)
    (htype : host.nfc params.walletType = params.walletType)
    (hapart : Untangled host b.toWallet) : b.toWallet.Storable host params where
  walletType := htype
  active name hname := by
    obtain ⟨identity, hget⟩ := Option.isSome_iff_exists.mp (b.listed name hname)
    exact h.nfc _ (Identities.get_eq_some.mp hget)
  identities x hx := ⟨h.nfc x hx, hapart.identities x hx⟩
  secrets _ hs := nomatch hs
  apart := hapart.wallet

/-- No assertions come back as none. -/
lemma eq_nil_of_same {us : List (Envelope × Envelope)} (h : SameAssertions host [] us) :
    us = [] := by
  cases us with
  | nil => rfl
  | cons u us => exact absurd ((h (normalPair host u)).mpr List.mem_cons_self) List.not_mem_nil

/-- An identity without unknown assertions comes back as it was. -/
lemma identity_eq_of_same {x y : BasicIdentity} (hx : x.unknownAssertions = [])
    (h : BasicIdentity.Same host x y) : y = x := by
  have hunknown := h.unknown
  rw [hx] at hunknown
  cases x
  cases y
  simp only [BasicIdentity.mk.injEq]
  exact ⟨h.createdAt, h.fingerprint, h.ed25519, h.mlDsa, (eq_nil_of_same hunknown).trans hx.symm⟩

/-- A wallet without secrets comes back without. -/
lemma secrets_eq_new {store : MemorySecretStore}
    (h : ∀ id, Option.Rel (SealedSecret.Same host) none (store.get id)) : store = .new := by
  have hrecords : store.records = [] := by
    refine List.eq_nil_iff_forall_not_mem.mpr fun secret hs => ?_
    have hget : store.get secret.id = none := by
      have hrel := h secret.id
      cases hget : store.get secret.id with
      | none => rfl
      | some secret =>
        rw [hget] at hrel
        cases hrel
    exact get_eq_none.mp hget secret hs rfl
  cases store
  subst hrecords
  rfl

/-- **The same wallet as that of a book is that wallet.** -/
lemma eq_of_same (h : b.Fit host blake3) {data : WalletData BasicIdentity}
    (hsame : b.toWallet.Same host data) : data = b.toWallet := by
  have hidentities : data.identities = b.identities := by
    refine Identities.ext_get fun name => ?_
    have hrel : Option.Rel (BasicIdentity.Same host) (b.identities.get name)
      (data.identities.get name) := hsame.identities name
    cases hget : b.identities.get name with
    | none =>
      rw [hget] at hrel
      cases hdata : data.identities.get name with
      | none => rfl
      | some y =>
        rw [hdata] at hrel
        cases hrel
    | some x =>
      rw [hget, rel_some_left] at hrel
      obtain ⟨y, hy, hxy⟩ := hrel
      rw [hy, identity_eq_of_same (h.unknown _ (Identities.get_eq_some.mp hget)) hxy]
  have hsecrets : data.secrets = .new := secrets_eq_new hsame.secrets
  have hunknown : data.unknownAssertions = [] := eq_nil_of_same hsame.unknown
  have hactive : data.activeIdentity = b.active := hsame.active
  cases data
  rw [Book.toWallet, WalletData.mk.injEq]
  exact ⟨hidentities, hactive, hsecrets, hunknown⟩

/-- **What is written for a book is read back as it was.** -/
lemma decrypt_book (h : b.Fit host blake3) (hstorable : b.toWallet.Storable host params)
    (hencrypt : encryptWalletWithKeyNonce params host (BasicIdentity.codec host blake3) aead
      b.toWallet key salt nonce = .ok f) :
    extractSalt params f = .ok salt ∧
      decryptWalletWithKey params (BasicIdentity.codec host blake3) aead reader f key =
        .ok b.toWallet := by
  obtain ⟨hsalt, data, hdata, hsame⟩ :=
    @Wallet.decrypt_of_storable host blake3 params b.toWallet aead reader key salt nonce f
      h.foreign hencrypt hstorable
  rw [eq_of_same h hsame] at hdata
  exact ⟨hsalt, hdata⟩

/-! ### Keys -/

/-- The keys that come of some passwords and salts. -/
def derivedKeys (deriveKey : String → Salt → Except WalletError Key) (passwords : Set String)
    (salts : Set Salt) : Set Key :=
  {key | ∃ p ∈ passwords, ∃ salt ∈ salts, deriveKey p salt = .ok key}

/-- What is encrypted under one of the keys is decrypted under no other of them. -/
def Separates (aead : Aead) (keys : Set Key) : Prop :=
  ∀ key ∈ keys, ∀ key' ∈ keys, ∀ nonce msg c, aead.encrypt key nonce [] msg = some c →
    (aead.decrypt key' nonce [] c).isSome → key' = key

/-- A provider makes up no keys: what it has after it was given a key is this key or what it had,
and what it has after it was cleared it had before. -/
structure Honest {σ : Type} (cache : KeyCache σ) : Prop where
  stored : ∀ s key key', cachedKey cache (cache.storeKey s key).2 = some key' →
    key' = key ∨ cachedKey cache s = some key'
  cleared : ∀ s key, cachedKey cache (cache.clearKey s).2 = some key → cachedKey cache s = some key

lemma honest_memory : Honest MemoryCache where
  stored _ _ _ h := .inl (Option.some.inj h).symm
  cleared _ _ h := nomatch h

/-! ### The machine keeps a book -/

section Machine

variable (params host blake3 aead) (deriveKey : String → Salt → Except WalletError Key)
  (passwords : Set String) (salts : Set Salt)

/-- The file holds the book, under the key of one of the passwords and the salt in its header. -/
structure Stored (b : Book) (contents : Bytes) (key : Key) (salt : Salt) : Prop where
  password : ∃ p ∈ passwords, deriveKey p salt = .ok key
  drawn : salt ∈ salts
  encrypted : ∃ nonce, encryptWalletWithKeyNonce params host (BasicIdentity.codec host blake3) aead
    b.toWallet key salt nonce = .ok contents
  storable : b.toWallet.Storable host params

variable {σ : Type} (cache : KeyCache σ) (path : WalletPath)

/-- The file holds the book, or there is no file and the book is empty. -/
structure Keeps (m : Machine σ) (b : Book) : Prop where
  fit : b.Fit host blake3
  file : path.file.bind m.fs.read = none ∧ b = .empty ∨ ∃ contents key salt,
    path.file.bind m.fs.read = some contents ∧
      Stored params host blake3 aead deriveKey passwords salts b contents key salt
  cached : ∀ key, cachedKey cache m.provider = some key →
    key ∈ derivedKeys deriveKey passwords salts
  apart : ∀ file, path.file = some file → m.fs.Apart file.tmpPath file

/-- A wallet that was loaded for a book: it has no identity, or a key of its own. -/
structure Loaded (b : Book) (wallet : Wallet BasicIdentity) : Prop where
  data : wallet.data = b.toWallet
  keyed : wallet.isNew = true ∨
    wallet.salt ∈ salts ∧ ∃ p ∈ passwords, deriveKey p wallet.salt = .ok wallet.key

end Machine

variable {deriveKey : String → Salt → Except WalletError Key} {passwords : Set String}
  {salts : Set Salt} {σ : Type} {cache : KeyCache σ} {path : WalletPath} {m m' : Machine σ}
  {contents : Bytes}

lemma Stored.key_mem
    (h : Stored params host blake3 aead deriveKey passwords salts b contents key salt) :
    key ∈ derivedKeys deriveKey passwords salts := by
  obtain ⟨p, hp, hkey⟩ := h.password
  exact ⟨p, hp, salt, h.drawn, hkey⟩

/-- Of the keys of a run only the one opens the file, and what it opens is the book. -/
lemma openWith_of_stored (hsep : Separates aead (derivedKeys deriveKey passwords salts))
    (hfit : b.Fit host blake3)
    (h : Stored params host blake3 aead deriveKey passwords salts b contents key salt) {key' : Key}
    (hkey : key' ∈ derivedKeys deriveKey passwords salts) {wallet : Wallet BasicIdentity} :
    openWith params host (BasicIdentity.codec host blake3) aead reader contents salt key' =
        .ok wallet ↔
      key' = key ∧ wallet = { data := b.toWallet, key, salt } := by
  obtain ⟨nonce, hencrypt⟩ := h.encrypted
  have hdecrypt : decryptWalletWithKey params (BasicIdentity.codec host blake3) aead reader contents
      key = .ok b.toWallet := (decrypt_book hfit h.storable hencrypt).2
  have hopen : openWith params host (BasicIdentity.codec host blake3) aead reader contents salt
      key = .ok { data := b.toWallet, key, salt } := by
    rw [openWith, hdecrypt]
    rfl
  constructor
  · intro hother
    obtain ⟨data, hdata, -⟩ := bind_eq_ok.mp hother
    obtain ⟨salt', nonce', c', msg', hshell, -, hsome, -⟩ := decryptWalletWithKey_eq_ok.mp hdata
    obtain ⟨msg, c, -, hc, hshell'⟩ := encryptWalletWithKeyNonce_eq_ok.mp hencrypt
    obtain ⟨-, rfl, rfl⟩ := shell_inj (hshell'.symm.trans hshell)
    have hsame : key' = key :=
      hsep key h.key_mem key' hkey nonce msg c hc (Option.isSome_iff_exists.mpr ⟨msg', hsome⟩)
    subst hsame
    rw [hopen, Except.ok.injEq] at hother
    exact ⟨rfl, hother.symm⟩
  · rintro ⟨rfl, rfl⟩
    exact hopen

/-- What is found at the path is the file, or nothing if there is none. -/
lemma found_cases (m : Machine σ) (draw : Draw) :
    m.found path draw = .unreadable ∨
    m.found path draw = .absent ∧ path.file.bind m.fs.read = none ∨
    ∃ contents, m.found path draw = .present contents ∧
      path.file.bind m.fs.read = some contents := by
  unfold Machine.found
  cases path.file with
  | none =>
    cases draw.readable with
    | true => exact .inr (.inl ⟨rfl, rfl⟩)
    | false => exact .inl rfl
  | some file =>
    simp only [Option.bind_some]
    cases m.fs.read file with
    | none => exact .inr (.inl ⟨rfl, rfl⟩)
    | some contents =>
      cases draw.readable with
      | true => exact .inr (.inr ⟨contents, rfl, rfl⟩)
      | false => exact .inl rfl

/-- What is found at a path that can be read. -/
lemma found_of_readable (m : Machine σ) {draw : Draw} (h : draw.readable = true) :
    m.found path draw = match path.file.bind m.fs.read with
      | none => .absent
      | some contents => .present contents := by
  unfold Machine.found
  rw [h]
  cases path.file with
  | none => rfl
  | some file => rfl

/-- What a password opens. -/
lemma unlock_eq_ok {input : PasswordInput} {wallet : Wallet BasicIdentity} :
    unlock params host blake3 aead reader deriveKey contents salt input = .ok wallet ↔
      ∃ p key, getPassword input = .ok p ∧ deriveKey p salt = .ok key ∧
        openWith params host (BasicIdentity.codec host blake3) aead reader contents salt key =
          .ok wallet := by
  unfold unlock
  simp only [bind_eq_ok, mapError_eq_ok]
  constructor
  · rintro ⟨p, hp, key, hkey, hopen⟩
    exact ⟨p, key, hp, hkey, hopen⟩
  · rintro ⟨p, key, hp, hkey, hopen⟩
    exact ⟨p, hp, key, hkey, hopen⟩

/-- **A load finds the book or fails,** and leaves the file alone. -/
lemma load_keeps (hcache : Honest cache)
    (hsep : Separates aead (derivedKeys deriveKey passwords salts))
    (h : Keeps params host blake3 aead deriveKey passwords salts cache path m b) {draw : Draw}
    (hdraw : ∀ p, getPassword draw.loadInput = .ok p → p ∈ passwords)
    {r : Except StorageError (Wallet BasicIdentity)}
    (hload : m.load params host blake3 aead reader deriveKey cache path draw = (m', r)) :
    Keeps params host blake3 aead deriveKey passwords salts cache path m' b ∧
      ((∃ e, r = .error e) ∨ ∃ wallet, r = .ok wallet ∧
        Loaded deriveKey passwords salts b wallet) := by
  unfold Machine.load at hload
  rcases @found_cases _ path m draw with hfound | ⟨hfound, hnone⟩ | ⟨contents, hfound, hcontents⟩
  · rw [hfound] at hload
    obtain ⟨rfl, rfl⟩ := Prod.mk.inj hload
    exact ⟨h, .inl ⟨_, rfl⟩⟩
  · rw [hfound] at hload
    obtain ⟨rfl, rfl⟩ := Prod.mk.inj hload
    obtain ⟨-, rfl⟩ | ⟨contents, key, salt, hsome, -⟩ := h.file
    · exact ⟨h, .inr ⟨_, rfl, rfl, .inl rfl⟩⟩
    · rw [hnone] at hsome
      cases hsome
  · rw [hfound] at hload
    obtain ⟨hnone, -⟩ | ⟨contents', key, salt, hsome, hstored⟩ := h.file
    · rw [hnone] at hcontents
      cases hcontents
    rw [hcontents] at hsome
    obtain rfl := Option.some.inj hsome
    obtain ⟨nonce, hencrypt⟩ := hstored.encrypted
    have hsalt : extractSalt params contents = .ok salt :=
      (@decrypt_book params host blake3 aead reader _ _ _ _ _ h.fit hstored.storable hencrypt).1
    have hloaded : Loaded deriveKey passwords salts b { data := b.toWallet, key, salt } :=
      ⟨rfl, .inr ⟨hstored.drawn, hstored.password⟩⟩
    simp only [hsalt] at hload
    split at hload
    · rename_i wallet hcached
      obtain ⟨rfl, rfl⟩ := Prod.mk.inj hload
      obtain ⟨key', hkey', hopen⟩ := Option.bind_eq_some_iff.mp hcached
      obtain ⟨-, rfl⟩ := (openWith_of_stored hsep h.fit hstored (h.cached key' hkey')).mp
        (toOption_eq_some.mp hopen)
      exact ⟨h, .inr ⟨_, rfl, hloaded⟩⟩
    · split at hload
      · obtain ⟨rfl, rfl⟩ := Prod.mk.inj hload
        exact ⟨h, .inl ⟨_, rfl⟩⟩
      · rename_i wallet hunlock
        obtain ⟨rfl, rfl⟩ := Prod.mk.inj hload
        obtain ⟨p, key', hp, hkey', hopen⟩ := unlock_eq_ok.mp hunlock
        have hmem : key' ∈ derivedKeys deriveKey passwords salts :=
          ⟨p, hdraw p hp, salt, hstored.drawn, hkey'⟩
        obtain ⟨-, rfl⟩ := (openWith_of_stored hsep h.fit hstored hmem).mp hopen
        refine ⟨⟨h.fit, h.file, fun k hk => ?_, h.apart⟩, .inr ⟨_, rfl, hloaded⟩⟩
        rcases hcache.stored _ _ _ hk with rfl | hk
        · exact hstored.key_mem
        · exact h.cached k hk

/-- **One of the passwords loads the book,** whatever key the provider has. -/
lemma load_of_keeps (hsep : Separates aead (derivedKeys deriveKey passwords salts))
    (h : Keeps params host blake3 aead deriveKey passwords salts cache path m b) :
    ∃ p, (path.file.bind m.fs.read = none ∨ p ∈ passwords) ∧
      ∀ draw : Draw, draw.env = some p → draw.readable = true → ∃ m' wallet,
        m.load params host blake3 aead reader deriveKey cache path draw = (m', .ok wallet) ∧
        wallet.data = b.toWallet := by
  obtain ⟨hnone, rfl⟩ | ⟨contents, key, salt, hsome, hstored⟩ := h.file
  · refine ⟨"", .inl hnone, fun draw _ hreadable =>
      ⟨m, { data := .new, key := PLACEHOLDER, salt := draw.loadSalt }, ?_, rfl⟩⟩
    unfold Machine.load
    rw [found_of_readable m hreadable, hnone]
  · obtain ⟨p, hp, hkey⟩ := hstored.password
    obtain ⟨nonce, hencrypt⟩ := hstored.encrypted
    have hsalt : extractSalt params contents = .ok salt :=
      (@decrypt_book params host blake3 aead reader _ _ _ _ _ h.fit hstored.storable hencrypt).1
    have hopen := (@openWith_of_stored params host blake3 aead reader key salt b deriveKey passwords
      salts contents hsep h.fit hstored key hstored.key_mem _).mpr ⟨rfl, rfl⟩
    refine ⟨p, .inr hp, fun draw henv hreadable => ?_⟩
    have hunlock : unlock params host blake3 aead reader deriveKey contents salt draw.loadInput =
        .ok { data := b.toWallet, key, salt } := by
      refine unlock_eq_ok.mpr ⟨p, key, ?_, hkey, hopen⟩
      rw [getPassword, Draw.loadInput, henv]
    unfold Machine.load
    rw [found_of_readable m hreadable, hsome]
    simp only [hsalt]
    split
    · rename_i wallet hcached
      obtain ⟨key', hkey', hopened⟩ := Option.bind_eq_some_iff.mp hcached
      obtain ⟨-, rfl⟩ := (openWith_of_stored hsep h.fit hstored (h.cached key' hkey')).mp
        (toOption_eq_some.mp hopened)
      exact ⟨_, _, rfl, rfl⟩
    · rw [hunlock]
      exact ⟨_, _, rfl, rfl⟩

/-- The temporary file and the wallet file stay two files. -/
lemma replaceFile_apart {fs fs' : FileSystem FileName} {file : FileName} {contents : Bytes}
    {fault : Option Wallet.Fault} (hapart : fs.Apart file.tmpPath file)
    {r : Except StorageError Unit} (h : replaceFile fs file contents fault = (fs', r)) :
    fs'.Apart file.tmpPath file := by
  have hne := file.ne_tmpPath
  obtain ⟨hname, -, hpath⟩ := FileSystem.openTruncate_spec hne hapart
  have hwritten : ∀ bytes, ((fs.openTruncate file.tmpPath).2.write
      (fs.openTruncate file.tmpPath).1 0 bytes).Apart file.tmpPath file := by
    intro bytes i hi hfile
    obtain rfl := Option.some.inj (hname.symm.trans hi)
    exact hpath hfile
  unfold replaceFile at h
  rcases hopened : fs.openTruncate file.tmpPath with ⟨fd, opened⟩
  rw [hopened] at h hwritten hname
  simp only at h
  split at h
  · rw [← (Prod.mk.inj h).1]
    exact hwritten _
  · rw [← (Prod.mk.inj h).1]
    exact hwritten _
  · rw [← (Prod.mk.inj h).1]
    exact hwritten _
  · split at h
    · rw [← (Prod.mk.inj h).1]
      exact hwritten _
    · rename_i renamed hrenamed
      have hname' : (opened.write fd 0 contents).inode file.tmpPath = some fd := hname
      obtain ⟨fs'', hrename, hnone, -⟩ := FileSystem.rename_spec hne hname' (hwritten contents)
      rw [hrenamed] at hrename
      obtain rfl := Option.some.inj hrename
      rw [← (Prod.mk.inj h).1]
      intro i hi
      rw [hnone] at hi
      cases hi

lemma writeSecretFile_apart {fs fs' : FileSystem FileName} {contents : Bytes}
    {fault : Option Wallet.Fault}
    (hapart : ∀ file, path.file = some file → fs.Apart file.tmpPath file)
    {r : Except StorageError Unit} (h : writeSecretFile fs path contents fault = (fs', r)) :
    ∀ file, path.file = some file → fs'.Apart file.tmpPath file := by
  rcases writeSecretFile_cases h with ⟨rfl, -⟩ | ⟨file, hfile, hreplace⟩
  · exact hapart
  · intro file' hfile'
    obtain rfl := Option.some.inj (hfile.symm.trans hfile')
    exact replaceFile_apart (hapart file hfile) hreplace

/-- The wallet that is saved has a key that comes of a password and a salt of the run, also where it
was derived for this save, and the provider has no other. -/
lemma cacheKey_keeps (hcache : Honest cache)
    (hcached : ∀ key, cachedKey cache m.provider = some key →
      key ∈ derivedKeys deriveKey passwords salts) {draw : Draw}
    (hdraw : ∀ p, getPasswordWithConfirm draw.saveInput = .ok p → p ∈ passwords)
    (hsalt : draw.saveSalt ∈ salts) {wallet wallet' : Wallet BasicIdentity} {isNew : Bool}
    (hkeyed : isNew = true ∨
      wallet.salt ∈ salts ∧ ∃ p ∈ passwords, deriveKey p wallet.salt = .ok wallet.key)
    (hchoose : chooseKey deriveKey wallet isNew draw.saveInput draw.saveSalt = .ok wallet')
    {state : SaveState σ BasicIdentity}
    (hstate : cacheKey cache.toCredentialProvider
      { wallet := wallet', provider := m.provider, fs := m.fs } isNew = state) :
    state.wallet = wallet' ∧ state.fs = m.fs ∧ wallet'.data = wallet.data ∧
      wallet'.salt ∈ salts ∧ (∃ p ∈ passwords, deriveKey p wallet'.salt = .ok wallet'.key) ∧
      ∀ key, cachedKey cache state.provider = some key →
        key ∈ derivedKeys deriveKey passwords salts := by
  rcases chooseKey_eq_ok.mp hchoose with ⟨rfl, rfl⟩ | ⟨rfl, p, hp, key, hkey, rfl⟩
  · obtain hnew | ⟨hdrawn, hpassword⟩ := hkeyed
    · cases hnew
    · subst hstate
      exact ⟨rfl, rfl, rfl, hdrawn, hpassword, hcached⟩
  · subst hstate
    refine ⟨rfl, rfl, rfl, hsalt, ⟨p, hdraw p hp, hkey⟩, fun key' hkey' => ?_⟩
    rcases hcache.stored _ _ _ hkey' with rfl | hbefore
    · exact ⟨p, hdraw p hp, _, hsalt, hkey⟩
    · exact hcached key' hbefore

/-- **A save puts the new book in place of the old or fails,** and then the old one is still
there. -/
lemma save_keeps (hcache : Honest cache)
    (h : Keeps params host blake3 aead deriveKey passwords salts cache path m b) {draw : Draw}
    (hdraw : ∀ p, getPasswordWithConfirm draw.saveInput = .ok p → p ∈ passwords)
    (hsalt : draw.saveSalt ∈ salts) {b' : Book} (hfit : b'.Fit host blake3)
    (hstorable : b'.toWallet.Storable host params) {wallet : Wallet BasicIdentity}
    (hdata : wallet.data = b'.toWallet) {isNew : Bool}
    (hkeyed : isNew = true ∨
      wallet.salt ∈ salts ∧ ∃ p ∈ passwords, deriveKey p wallet.salt = .ok wallet.key)
    {r : Except SaveError Unit}
    (hsave : m.save params host blake3 aead deriveKey cache path wallet isNew draw = (m', r)) :
    (∃ e, r = .error e ∧
      Keeps params host blake3 aead deriveKey passwords salts cache path m' b) ∨
    r = .ok () ∧ Keeps params host blake3 aead deriveKey passwords salts cache path m' b' := by
  unfold Machine.save saveOn at hsave
  cases hchoose : chooseKey deriveKey wallet isNew draw.saveInput draw.saveSalt with
  | error e =>
    rw [hchoose] at hsave
    obtain ⟨rfl, rfl⟩ := Prod.mk.inj hsave
    exact .inl ⟨_, rfl, h⟩
  | ok wallet' =>
    rw [hchoose] at hsave
    simp only at hsave
    generalize hstate : cacheKey cache.toCredentialProvider
      { wallet := wallet', provider := m.provider, fs := m.fs } isNew = state at hsave
    obtain ⟨hwallet, hfs, hdata', hdrawn, hpassword, hcached⟩ :=
      cacheKey_keeps hcache h.cached hdraw hsalt hkeyed hchoose hstate
    rcases hwritten : writeWallet params host (BasicIdentity.codec host blake3) aead path state
      draw.nonce draw.fault with ⟨state', result⟩
    rw [hwritten] at hsave
    obtain ⟨rfl, rfl⟩ := Prod.mk.inj hsave
    rcases writeWallet_cases hwritten with
      ⟨rfl, e, rfl⟩ | ⟨encrypted, fs', written, hencrypt, hwrite, rfl, rfl⟩
    · refine .inl ⟨e, rfl, ⟨h.fit, ?_, hcached, ?_⟩⟩
      · show path.file.bind state'.fs.read = none ∧ _ ∨
          ∃ _ _ _, path.file.bind state'.fs.read = _ ∧ _
        rw [hfs]
        exact h.file
      · show ∀ file, path.file = some file → state'.fs.Apart file.tmpPath file
        rw [hfs]
        exact h.apart
    · rw [hfs] at hwrite
      have hapart' := writeSecretFile_apart h.apart hwrite
      cases written with
      | error e =>
        refine .inl ⟨_, rfl, ⟨h.fit, ?_, hcached, hapart'⟩⟩
        show path.file.bind fs'.read = none ∧ _ ∨ ∃ _ _ _, path.file.bind fs'.read = _ ∧ _
        rw [writeSecretFile_error h.apart hwrite]
        exact h.file
      | ok u =>
        refine .inr ⟨rfl, ⟨hfit, .inr ⟨encrypted, wallet'.key, wallet'.salt,
          writeSecretFile_ok h.apart hwrite, hpassword, hdrawn, ⟨draw.nonce, ?_⟩, hstorable⟩,
          hcached, hapart'⟩⟩
        rwa [hwallet, hdata', hdata] at hencrypt

/-! ### Commands -/

/-- What `newIdentity` makes is fit to be written. -/
lemma newIdentity_fit {draw : Draw} {noPq : Bool} {identity : BasicIdentity}
    (h : newIdentity blake3 draw noPq = .ok identity) :
    identity.fingerprint = blake3 identity.ed25519.publicKey ∧ identity.unknownAssertions = [] := by
  unfold newIdentity at h
  obtain ⟨createdAt, -, h⟩ := bind_eq_ok.mp h
  simp only at h
  split at h
  · obtain rfl := pure_eq_ok.mp h
    exact ⟨rfl, rfl⟩
  · obtain ⟨mlDsa, -, h⟩ := bind_eq_ok.mp h
    obtain rfl := pure_eq_ok.mp h
    exact ⟨rfl, rfl⟩

lemma perform_fit (h : b.Fit host blake3) {draw : Draw} {cmd : IdentityCommand}
    (hname : ∀ name noPq, cmd = .New name noPq → host.nfc name = name) {output : Output} {b' : Book}
    (hperform : b.perform blake3 draw cmd = .ok (output, b')) : b'.Fit host blake3 := by
  have hkept : ∀ {b' : Book}, (∀ x ∈ b'.identities.entries, x ∈ b.identities.entries) →
      b'.Fit host blake3 := fun hsub =>
    ⟨fun x hx => h.nfc x (hsub x hx), fun x hx => h.fingerprint x (hsub x hx),
      fun x hx => h.unknown x (hsub x hx)⟩
  cases cmd with
  | New name noPq =>
    unfold Book.perform at hperform
    simp only [bind_eq_ok, ensure_eq_ok, pure_eq_ok, Prod.mk.injEq] at hperform
    obtain ⟨_, -, identity, hnew, -, rfl⟩ := hperform
    obtain ⟨hfingerprint, hunknown⟩ := newIdentity_fit hnew
    have hmem : ∀ x ∈ (b.add name identity).identities.entries,
        x = (name, identity) ∨ x ∈ b.identities.entries := fun x hx => mem_of_mem_insertKeyed hx
    refine ⟨fun x hx => ?_, fun x hx => ?_, fun x hx => ?_⟩
    · rcases hmem x hx with rfl | hx
      · exact hname name noPq rfl
      · exact h.nfc x hx
    · rcases hmem x hx with rfl | hx
      · exact hfingerprint
      · exact h.fingerprint x hx
    · rcases hmem x hx with rfl | hx
      · exact hunknown
      · exact h.unknown x hx
  | List => exact Book.eq_of_not_saves hperform id ▸ h
  | Show name => exact Book.eq_of_not_saves hperform id ▸ h
  | Use name =>
    unfold Book.perform at hperform
    simp only at hperform
    split at hperform
    · obtain ⟨-, rfl⟩ := Prod.mk.inj (Except.ok.inj hperform)
      exact hkept fun x hx => hx
    · cases hperform
  | Delete name =>
    unfold Book.perform at hperform
    simp only [bind_eq_ok, ensure_eq_ok, pure_eq_ok, Prod.mk.injEq] at hperform
    obtain ⟨_, -, -, rfl⟩ := hperform
    exact hkept fun x hx => (List.mem_filter.mp hx).1

/-- No command saves a wallet that has only the placeholder as an existing one: without identities
there is nothing to use or delete, and a new identity makes the wallet a new one. -/
lemma keyed_of_saves {wallet : Wallet BasicIdentity}
    (h : Loaded deriveKey passwords salts b wallet) {draw : Draw} {cmd : IdentityCommand}
    {output : Output} {b' : Book} (hperform : b.perform blake3 draw cmd = .ok (output, b'))
    (hsaves : cmd.Saves) : cmd.saysNew wallet = true ∨
      wallet.salt ∈ salts ∧ ∃ p ∈ passwords, deriveKey p wallet.salt = .ok wallet.key := by
  have hlisted : ∀ name, (b.identities.get name).isSome = true → wallet.isNew = false := by
    intro name hsome
    obtain ⟨identity, hget⟩ := Option.isSome_iff_exists.mp hsome
    rw [Wallet.isNew, h.data, Book.toWallet, List.isEmpty_eq_false_iff]
    exact List.ne_nil_of_mem (Identities.get_eq_some.mp hget)
  have hold : ∀ name, (b.identities.get name).isSome = true →
      wallet.salt ∈ salts ∧ ∃ p ∈ passwords, deriveKey p wallet.salt = .ok wallet.key := by
    intro name hsome
    obtain hnew | hkeyed := h.keyed
    · rw [hlisted name hsome] at hnew
      cases hnew
    · exact hkeyed
  cases cmd with
  | New name noPq => exact h.keyed
  | List => exact absurd hsaves id
  | Show name => exact absurd hsaves id
  | Use name =>
    unfold Book.perform at hperform
    simp only at hperform
    split at hperform
    · rename_i hsome
      exact .inr (hold name hsome)
    · cases hperform
  | Delete name =>
    obtain ⟨_, hsome, -⟩ := bind_eq_ok.mp hperform
    exact .inr (hold name (ensure_eq_ok.mp hsome))

end Identikey.Ikey
