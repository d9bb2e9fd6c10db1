/-
Verifier-issued nonces and the store that consumes them (`nonce.rs`).

The source's random generator is an argument here: a call of `issue` is given the
nonce it draws.
-/
import Identikey.Lib.Fallible
import Identikey.Auth.Challenge

namespace Identikey.Auth

open Lib.Fallible

/-- The `NonceStore` trait; a call that takes `&mut self` returns the store after it. -/
class NonceStore (σ : Type) where
  /-- Record a freshly issued nonce and its expiry. -/
  recordIssued : σ → Bytes → UInt64 → σ
  /-- Consume a nonce on a successful proof. -/
  consume : σ → Bytes → UInt64 → Except AuthError Unit × σ
  /-- Drop expired entries. -/
  gc : σ → UInt64 → σ

/-- `InMemoryNonceStore`: the expiry of a nonce and whether it was used. -/
@[ext]
structure InMemoryNonceStore where
  issued : Bytes → Option (UInt64 × Bool)

namespace InMemoryNonceStore

/-- `InMemoryNonceStore::new`. -/
def new : InMemoryNonceStore := { issued := fun _ => none }

/-- `HashMap::insert`. -/
def insert (s : InMemoryNonceStore) (nonce : Bytes) (entry : UInt64 × Bool) :
    InMemoryNonceStore :=
  { issued := fun n => if n = nonce then some entry else s.issued n }

@[simp] lemma insert_self (s : InMemoryNonceStore) (nonce : Bytes) (entry : UInt64 × Bool) :
    (s.insert nonce entry).issued nonce = some entry := if_pos rfl

lemma insert_of_ne (s : InMemoryNonceStore) {nonce n : Bytes} (entry : UInt64 × Bool)
    (h : n ≠ nonce) : (s.insert nonce entry).issued n = s.issued n := if_neg h

def recordIssued (s : InMemoryNonceStore) (nonce : Bytes) (expiresAt : UInt64) :
    InMemoryNonceStore :=
  s.insert nonce (expiresAt, false)

def consume (s : InMemoryNonceStore) (nonce : Bytes) (now : UInt64) :
    Except AuthError Unit × InMemoryNonceStore :=
  match s.issued nonce with
  | none => (.error .nonceReplay, s)
  | some (expiresAt, used) =>
    if used then (.error .nonceReplay, s)
    else if now > expiresAt then (.error .timeWindow, s)
    else (.ok (), s.insert nonce (expiresAt, true))

def gc (s : InMemoryNonceStore) (now : UInt64) : InMemoryNonceStore :=
  { issued := fun n => (s.issued n).filter fun entry => entry.1 ≥ now }

instance : NonceStore InMemoryNonceStore where
  recordIssued := recordIssued
  consume := consume
  gc := gc

@[simp] lemma nonceStore_consume (s : InMemoryNonceStore) (nonce : Bytes) (now : UInt64) :
    NonceStore.consume s nonce now = s.consume nonce now := rfl

/-- A nonce is consumed exactly when it is stored, unused and not expired; it is then used. -/
lemma consume_eq_ok {s s' : InMemoryNonceStore} {nonce : Bytes} {now : UInt64} {u : Unit} :
    s.consume nonce now = (.ok u, s') ↔
      ∃ expiresAt, s.issued nonce = some (expiresAt, false) ∧ now ≤ expiresAt ∧
        s' = s.insert nonce (expiresAt, true) := by
  unfold consume
  rcases hentry : s.issued nonce with _ | ⟨expiresAt, used⟩
  · simp
  · cases used
    · by_cases hnow : now > expiresAt
      · simp [hnow, UInt64.not_le.mpr hnow]
      · simp [hnow, UInt64.not_lt.mp hnow, eq_comm]
    · simp

/-- A nonce that is not consumed leaves the store as it was. -/
lemma consume_error {s s' : InMemoryNonceStore} {nonce : Bytes} {now : UInt64} {e : AuthError}
    (h : s.consume nonce now = (.error e, s')) : s' = s := by
  unfold consume at h
  split at h
  · cases h
    rfl
  · split_ifs at h <;> cases h <;> rfl

end InMemoryNonceStore

/-- A nonce of the length that `issue` draws. -/
abbrev Nonce := { b : Bytes // b.length = MIN_NONCE_LEN }

/-- `ChallengeIssuer`. -/
structure ChallengeIssuer where
  audience : String
  ttlSecs : UInt64
deriving DecidableEq, Repr

/-- `ChallengeIssuer::issue`, given the nonce it draws. -/
def ChallengeIssuer.issue {σ : Type} [NonceStore σ] (build : Build) (issuer : ChallengeIssuer)
    (store : σ) (now : UInt64) (nonce : Nonce) : Except Fault Challenge × σ :=
  match addU64 build now issuer.ttlSecs with
  | .error e => (.error e, store)
  | .ok expiresAt =>
    (.ok { version := VERSION, audience := issuer.audience, nonce := nonce.val,
           issuedAt := now, expiresAt },
      NonceStore.recordIssued store nonce.val expiresAt)

/-- What `issue` returns and records; it fails on an overflow of the expiry only. -/
lemma ChallengeIssuer.issue_eq_ok {build : Build} {issuer : ChallengeIssuer}
    {store store' : InMemoryNonceStore} {now : UInt64} {nonce : Nonce} {c : Challenge} :
    issuer.issue build store now nonce = (.ok c, store') ↔
      ∃ expiresAt, addU64 build now issuer.ttlSecs = .ok expiresAt ∧
        c = { version := VERSION, audience := issuer.audience, nonce := nonce.val,
              issuedAt := now, expiresAt } ∧
        store' = store.insert nonce.val (expiresAt, false) := by
  unfold issue
  cases addU64 build now issuer.ttlSecs with
  | error e =>
    constructor
    · rintro ⟨⟩
    · rintro ⟨expiresAt, ⟨⟩, -⟩
  | ok expiresAt =>
    constructor
    · rintro ⟨⟩
      exact ⟨expiresAt, rfl, rfl, rfl⟩
    · rintro ⟨expiresAt', h, rfl, rfl⟩
      obtain rfl := Except.ok.inj h
      rfl

lemma ChallengeIssuer.issue_error {build : Build} {issuer : ChallengeIssuer}
    {store store' : InMemoryNonceStore} {now : UInt64} {nonce : Nonce} {e : Fault}
    (h : issuer.issue build store now nonce = (.error e, store')) : store' = store := by
  unfold issue at h
  split at h
  · cases h
    rfl
  · cases h

end Identikey.Auth
