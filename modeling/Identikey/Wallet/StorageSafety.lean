/-
The keys under which wallet files are written.

A wallet that was loaded from a file has the key of that file, and a save that is told the
wallet is new derives a key from a password.  Between a load that found no file and the
first such save the wallet has only a placeholder.  A run that never saves with the
placeholder writes every file under a key that was derived from a password and the salt in
the file, or that opened the file the wallet came from.
-/
import Identikey.Wallet.FormatExact
import Identikey.Wallet.Basic
import Identikey.Wallet.Storage

namespace Identikey.Wallet

open Lib Lib.Fallible Auth Dcbor Gordian Secret

variable {params : WalletParams} {host : Host} {I : Type} {codec : WalletIdentity I} {aead : Aead}
  {reader : EnvelopeReader host} {deriveKey : String → Salt → Except WalletError Key}

/-! ### Keys that were chosen -/

/-- The session was loaded from a file, or one of its saves derived a key. -/
def Session.Keyed (session : Session I) : Prop :=
  session.unlocked ≠ none ∨ session.passwords ≠ []

/-- The key comes from a password of the session and this salt, or opened the file from which the
session was loaded. -/
def Session.Chose (deriveKey : String → Salt → Except WalletError Key) (session : Session I)
    (key : Key) (salt : Salt) : Prop :=
  (∃ p ∈ session.passwords, deriveKey p salt = .ok key) ∨ session.unlocked = some key

/-- The file is encrypted under a key that was chosen, with the salt in its header. -/
def Session.ChoseFor (params : WalletParams) (host : Host) (codec : WalletIdentity I) (aead : Aead)
    (deriveKey : String → Salt → Except WalletError Key) (session : Session I) (file : Bytes) :
    Prop :=
  ∃ data key salt nonce, extractSalt params file = .ok salt ∧
    encryptWalletWithKeyNonce params host codec aead data key salt nonce = .ok file ∧
    session.Chose deriveKey key salt

/-- The operation does not save a wallet that has only the placeholder as an existing one. -/
def Allowed (store : Store I) (op : Op I) : Prop :=
  ∀ input salt nonce session, op = .save false input salt nonce true →
    store.session = some session → session.Keyed

/-- A session with a key of its own has chosen it, and so it was with every file that was
written. -/
structure Inv (params : WalletParams) (host : Host) (codec : WalletIdentity I) (aead : Aead)
    (deriveKey : String → Salt → Except WalletError Key) (store : Store I) : Prop where
  session : ∀ session, store.session = some session → session.Keyed →
    session.Chose deriveKey session.wallet.key session.wallet.salt
  written : ∀ x ∈ store.written, x.1.ChoseFor params host codec aead deriveKey x.2

/-! ### One operation -/

lemma toOption_eq_some {ε α : Type} {x : Except ε α} {a : α} : x.toOption = some a ↔ x = .ok a := by
  cases x <;> simp [Except.toOption]

lemma isOk_of_eq {ε α : Type} {x : Except ε α} {a : α} (h : x = .ok a) : x.isOk = true := by
  rw [h]
  rfl

/-- What a save does to the key: nothing, because it fails; it derives a new one; or nothing,
because it was told that the wallet is not new. -/
lemma saveWithProvider_cases (wallet : Wallet I) (isNew : Bool) (input : PasswordInput)
    (salt : Salt) (nonce : Nonce) (writable : Bool) {wallet' : Wallet I}
    {result : Except StorageError Bytes}
    (h : saveWithProvider params host codec aead deriveKey wallet isNew input salt nonce writable =
      (wallet', result)) :
    (wallet' = wallet ∧ result.toOption = none ∧ derivedFrom deriveKey isNew input salt = none) ∨
    (∃ p key, derivedFrom deriveKey isNew input salt = some p ∧ deriveKey p salt = .ok key ∧
      wallet' = { wallet with key, salt } ∧
      result = writeFile params host codec aead wallet' nonce writable) ∨
    (isNew = false ∧ derivedFrom deriveKey isNew input salt = none ∧ wallet' = wallet ∧
      result = writeFile params host codec aead wallet' nonce writable) := by
  unfold saveWithProvider chooseKey at h
  cases isNew with
  | false =>
    obtain ⟨rfl, rfl⟩ := Prod.mk.inj h
    exact .inr (.inr ⟨rfl, rfl, rfl, rfl⟩)
  | true =>
    rw [if_pos rfl] at h
    unfold derivedFrom
    rw [if_pos rfl]
    cases hp : getPasswordWithConfirm input with
    | error e =>
      rw [hp] at h
      obtain ⟨rfl, rfl⟩ := Prod.mk.inj h
      exact .inl ⟨rfl, rfl, rfl⟩
    | ok p =>
      rw [hp, ok_bind] at h
      cases hkey : deriveKey p salt with
      | error e =>
        rw [hkey] at h
        obtain ⟨rfl, rfl⟩ := Prod.mk.inj h
        refine .inl ⟨rfl, rfl, ?_⟩
        show (some p).filter _ = none
        rw [Option.filter_some, if_neg]
        rw [hkey]
        exact Bool.false_ne_true
      | ok key =>
        rw [hkey] at h
        obtain ⟨rfl, rfl⟩ := Prod.mk.inj h
        refine .inr (.inl ⟨p, key, ?_, hkey, rfl, rfl⟩)
        show (some p).filter _ = some p
        rw [Option.filter_some, if_pos (isOk_of_eq hkey)]

/-- The file that is written has the salt of the wallet in its header. -/
lemma writeFile_eq_ok {wallet : Wallet I} {nonce : Nonce} {writable : Bool} {file : Bytes}
    (h : writeFile params host codec aead wallet nonce writable = .ok file) :
    writable = true ∧ extractSalt params file = .ok wallet.salt ∧
      encryptWalletWithKeyNonce params host codec aead wallet.data wallet.key wallet.salt nonce =
        .ok file := by
  unfold writeFile at h
  obtain ⟨encrypted, hencrypt, hwrite⟩ := bind_eq_ok.mp h
  rw [mapError_eq_ok] at hencrypt
  obtain ⟨_, hwritable, hfile⟩ := bind_eq_ok.mp hwrite
  obtain rfl := pure_eq_ok.mp hfile
  obtain ⟨b, c, -, -, rfl⟩ := encryptWalletWithKeyNonce_eq_ok.mp hencrypt
  exact ⟨ensure_eq_ok.mp hwritable, extractSalt_shell, hencrypt⟩

/-- Editing the data of a wallet changes neither its key nor its past. -/
lemma Inv.edit {store : Store I} (h : Inv params host codec aead deriveKey store)
    {f : Wallet I → Wallet I} (hkey : ∀ w, (f w).key = w.key) (hsalt : ∀ w, (f w).salt = w.salt) :
    Inv params host codec aead deriveKey
      { store with session := store.session.map fun s => { s with wallet := f s.wallet } } := by
  refine ⟨fun session hsession hkeyed => ?_, h.written⟩
  obtain ⟨s, hs, rfl⟩ := Option.map_eq_some_iff.mp hsession
  rw [Session.Chose, hkey, hsalt]
  exact h.session s hs hkeyed

lemma withSecret_key (idBytes : IdBytes) (salt : Digest32) (label : String) (value : Bytes)
    (createdAt : UInt64) (wallet : Wallet I) :
    (withSecret idBytes salt label value createdAt wallet).key = wallet.key ∧
      (withSecret idBytes salt label value createdAt wallet).salt = wallet.salt := by
  unfold withSecret insertSecret
  cases wallet.data.secrets.insert idBytes salt label value createdAt with
  | error e => exact ⟨rfl, rfl⟩
  | ok x => exact ⟨rfl, rfl⟩

/-- A save that is allowed writes a file under a chosen key. -/
lemma Inv.saveStep {store : Store I} (h : Inv params host codec aead deriveKey store)
    {session : Session I} (hsession : store.session = some session) {isNew : Bool}
    {input : PasswordInput} {salt : Salt} {nonce : Nonce} {writable : Bool}
    (hallowed : isNew = false → writable = true → session.Keyed) :
    Inv params host codec aead deriveKey
      (saveStep params host codec aead deriveKey store session isNew input salt nonce
        writable) := by
  unfold Wallet.saveStep
  generalize hsave :
    saveWithProvider params host codec aead deriveKey session.wallet isNew input salt nonce
      writable = saved
  obtain ⟨wallet, result⟩ := saved
  have hbefore := h.session session hsession
  -- the key of the session is chosen if there is one, and it is the key of the file
  suffices hafter : (∀ s', s' = { session with
      wallet, passwords := session.passwords ++ (derivedFrom deriveKey isNew input salt).toList } →
      (s'.Keyed → s'.Chose deriveKey wallet.key wallet.salt) ∧
      ∀ file, result = .ok file → s'.Keyed ∧
        writeFile params host codec aead wallet nonce writable = .ok file) by
    obtain ⟨hchose, hfile⟩ := hafter _ rfl
    refine ⟨fun s' hs' hkeyed => ?_, fun x hx => ?_⟩
    · obtain rfl := Option.some.inj hs'
      exact hchose hkeyed
    · rcases List.mem_append.mp hx with hx | hx
      · exact h.written x hx
      · rw [Option.mem_toList] at hx
        obtain ⟨file, hresult, rfl⟩ := Option.map_eq_some_iff.mp hx
        obtain ⟨hkeyed, hwrite⟩ := hfile file (toOption_eq_some.mp hresult)
        obtain ⟨-, hsalt, hencrypt⟩ := writeFile_eq_ok hwrite
        exact ⟨_, _, _, _, hsalt, hencrypt, hchose hkeyed⟩
  rintro s' rfl
  rcases saveWithProvider_cases session.wallet isNew input salt nonce writable hsave with
    ⟨rfl, hnone, hderived⟩ | ⟨p, key, hderived, hkey, rfl, hwrite⟩ | ⟨hold, hderived, rfl, hwrite⟩
  · rw [hderived, Option.toList_none, List.append_nil]
    refine ⟨hbefore, fun file hfile => ?_⟩
    rw [hfile] at hnone
    cases hnone
  · rw [hderived]
    refine ⟨fun _ => .inl ⟨p, by simp, hkey⟩, fun file hfile => ⟨.inr (by simp), ?_⟩⟩
    rw [← hwrite, hfile]
  · rw [hderived, Option.toList_none, List.append_nil]
    refine ⟨hbefore, fun file hfile => ?_⟩
    rw [hwrite] at hfile
    exact ⟨hallowed hold (writeFile_eq_ok hfile).1, hfile⟩

/-- Every allowed operation keeps the invariant. -/
lemma Inv.step {store : Store I} (h : Inv params host codec aead deriveKey store) {op : Op I}
    (hallowed : Allowed store op) :
    Inv params host codec aead deriveKey
      (step params host codec aead reader deriveKey store op) := by
  cases op with
  | load found cached input salt =>
    simp only [Wallet.step]
    cases loadWithProvider params host codec aead reader deriveKey found cached input salt with
    | error e => exact h
    | ok wallet =>
      refine ⟨fun session hsession hkeyed => ?_, h.written⟩
      obtain rfl := Option.some.inj hsession
      cases found with
      | present contents => exact .inr rfl
      | absent => rcases hkeyed with hkeyed | hkeyed <;> exact absurd rfl hkeyed
      | unreadable => rcases hkeyed with hkeyed | hkeyed <;> exact absurd rfl hkeyed
  | insertSecret idBytes salt label value createdAt =>
    exact h.edit (f := withSecret idBytes salt label value createdAt)
      (fun w => (withSecret_key _ _ _ _ _ w).1) fun w => (withSecret_key _ _ _ _ _ w).2
  | removeSecret id =>
    exact h.edit (f := fun w => (removeSecret w id).1) (fun _ => rfl) fun _ => rfl
  | edit data => exact h.edit (f := fun w => { w with data }) (fun _ => rfl) fun _ => rfl
  | save isNew input salt nonce writable =>
    unfold Wallet.step
    cases hsession : store.session with
    | none => exact h
    | some session =>
      refine h.saveStep hsession fun hold hwritable => ?_
      subst hold hwritable
      exact hallowed input salt nonce session rfl hsession

/-! ### Runs -/

/-- **A run that never saves with the placeholder writes every file under a key that was chosen:**
derived from a password of the wallet and the salt in the header of the file, or the key that
decrypted the file from which the wallet was loaded. -/
theorem written_chosen {ops : List (Op I)} (hallowed : ∀ pre op post, ops = pre ++ op :: post →
      Allowed (run params host codec aead reader deriveKey pre) op) :
    ∀ x ∈ (run params host codec aead reader deriveKey ops).written,
      x.1.ChoseFor params host codec aead deriveKey x.2 := by
  suffices hinv : (∀ pre op post, ops = pre ++ op :: post →
      Allowed (run params host codec aead reader deriveKey pre) op) →
      Inv params host codec aead deriveKey (run params host codec aead reader deriveKey ops) from
    (hinv hallowed).written
  clear hallowed
  refine run_induction (P := fun ops store => (∀ pre op post, ops = pre ++ op :: post →
    Allowed (run params host codec aead reader deriveKey pre) op) →
    Inv params host codec aead deriveKey store) ?_ ?_ ops
  · intro _
    refine ⟨fun session hsession => ?_, fun x hx => absurd hx List.not_mem_nil⟩
    cases hsession
  · intro ops op ih h
    refine (ih fun pre op' post hops => h pre op' (post ++ [op]) ?_).step (h ops op [] rfl)
    rw [hops, List.append_assoc, List.cons_append]

/-- The input of a password. -/
def typed (password : String) : PasswordInput :=
  { env := none, first := some password, second := some password }

/-- A key derivation: the same key for all passwords. -/
def deriveSame (_ : String) (_ : Salt) : Except WalletError Key := .ok (fill 32 7)

/-- Runs of wallets in the plain host, with that key derivation. -/
noncomputable def plainRun (ops : List (Op BasicIdentity)) : Store BasicIdentity :=
  run IDENTIKEY_PARAMS Host.plain
    (BasicIdentity.codec Host.plain fun _ => fill 32 0)
    Aead.clear (EnvelopeReader.canonical Host.plain) deriveSame ops

/-- The load of a wallet that does not exist. -/
def loadAbsent : Op BasicIdentity := .load .absent none (typed "") (fill 32 1)

/-- A save. -/
def saveAs (isNew : Bool) : Op BasicIdentity :=
  .save isNew (typed "secret") (fill 32 2) (fill 24 3) true

/-- A new wallet that is saved as new writes a file under a chosen key. -/
theorem written_chosen_new : (plainRun [loadAbsent, saveAs true]).written.length = 1 ∧
    ∀ x ∈ (plainRun [loadAbsent, saveAs true]).written,
      x.1.ChoseFor IDENTIKEY_PARAMS Host.plain
        (BasicIdentity.codec Host.plain fun _ => fill 32 0) Aead.clear deriveSame
        x.2 := by
  refine ⟨by decide, written_chosen ?_⟩
  rintro pre op post hops input salt nonce session rfl hsession
  match pre, hops with
  | [], hops => cases hops
  | [_], hops => cases hops
  | [_, _], hops => cases hops
  | _ :: _ :: _ :: pre, hops => cases hops

/-- A new wallet that is saved as an existing one writes a file under the placeholder. -/
theorem written_placeholder :
    ¬ ∀ (params : WalletParams) (host : Host) (codec : WalletIdentity BasicIdentity) (aead : Aead)
      (reader : EnvelopeReader host) (deriveKey : String → Salt → Except WalletError Key)
      (ops : List (Op BasicIdentity)),
      ∀ x ∈ (run params host codec aead reader deriveKey ops).written,
        x.1.ChoseFor params host codec aead deriveKey x.2 := by
  intro hall
  have hpast : (plainRun [loadAbsent, saveAs false]).written.map
      (fun x => (x.1.unlocked, x.1.passwords)) = [(none, [])] := by decide
  obtain ⟨x, hx, hnone⟩ := List.mem_map.mp (hpast ▸ List.mem_singleton_self (none, []))
  obtain ⟨hunlocked, hpasswords⟩ := Prod.mk.inj hnone
  obtain ⟨data, key, salt, nonce, -, -, ⟨p, hp, -⟩ | hkey⟩ := hall _ _ _ _ _ _ _ x hx
  · rw [hpasswords] at hp
    exact absurd hp List.not_mem_nil
  · rw [hunlocked] at hkey
    cases hkey

end Identikey.Wallet
