/-
The identity of a token and the commitment to a secret (`identikey-capability`, `lib.rs`).

Both are Blake3 of parts put one after the other.  The identity has a zero byte behind the
domain, which no domain contains.  The commitment has nothing between the salt and the
secret: bytes can be moved from the front of the secret to the end of the salt.
-/
import Mathlib.Data.Set.Function
import Identikey.Lib.PrefixCode
import Identikey.Capability.Capability

set_option linter.dupNamespace false

namespace Identikey.Capability

open Lib Lib.Fallible Auth

variable (blake3 : Bytes → Digest32)

/-- What `token_identity` accepts. -/
def NamesToken (domain rawToken : Bytes) : Prop := ¬ (domain = [] ∨ 0 ∈ domain ∨ rawToken = [])

instance (domain rawToken : Bytes) : Decidable (NamesToken domain rawToken) :=
  inferInstanceAs (Decidable (¬ _))

/-- What `token_identity` hashes. -/
def tokenMaterial (domain rawToken : Bytes) : Bytes := domain ++ [0x00] ++ rawToken

/-- `token_identity`. -/
def tokenIdentity (domain rawToken : Bytes) : Except CapabilityError Digest32 := do
  ensure (NamesToken domain rawToken) .tokenIdentity
  return blake3 (tokenMaterial domain rawToken)

/-- What `secret_commit` hashes. -/
def secretMaterial (domain salt secret : Bytes) : Bytes := domain ++ salt ++ secret

/-- `secret_commit`. -/
def secretCommit (domain salt secret : Bytes) : Digest32 :=
  blake3 (secretMaterial domain salt secret)

variable {blake3} {domain domain' rawToken rawToken' salt salt' secret secret' : Bytes}

/-- **The zero byte tells where the domain ends.** -/
lemma tokenMaterial_inj (h : NamesToken domain rawToken) (h' : NamesToken domain' rawToken')
    (heq : tokenMaterial domain rawToken = tokenMaterial domain' rawToken') :
    domain = domain' ∧ rawToken = rawToken' := by
  have hnul : (0 : UInt8) ∉ domain := fun hmem => h (.inr (.inl hmem))
  have hnul' : (0 : UInt8) ∉ domain' := fun hmem => h' (.inr (.inl hmem))
  exact Unambiguous.terminated hnul hnul' _ _ heq

/-! ### Opening a commitment -/

/-- The second release has bytes in its salt that the first has in front of its secret. -/
def Shifted (salt secret salt' secret' : Bytes) : Prop :=
  ∃ moved ≠ [], salt' = salt ++ moved ∧ secret = moved ++ secret'

/-- Two releases are hashed alike exactly when they are the same or one is the other shifted. -/
lemma secretMaterial_eq_iff :
    secretMaterial domain salt secret = secretMaterial domain salt' secret' ↔
      (salt = salt' ∧ secret = secret') ∨ Shifted salt secret salt' secret' ∨
        Shifted salt' secret' salt secret := by
  simp only [secretMaterial, List.append_assoc, List.append_cancel_left_eq]
  rw [List.append_eq_append_iff]
  constructor
  · rintro (⟨moved, hsalt, hsecret⟩ | ⟨moved, hsalt, hsecret⟩)
    · by_cases hmoved : moved = []
      · subst hmoved
        exact .inl ⟨by simpa using hsalt.symm, by simpa using hsecret⟩
      · exact .inr (.inl ⟨moved, hmoved, hsalt, hsecret⟩)
    · by_cases hmoved : moved = []
      · subst hmoved
        exact .inl ⟨by simpa using hsalt, by simpa using hsecret.symm⟩
      · exact .inr (.inr ⟨moved, hmoved, hsalt, hsecret⟩)
  · rintro (⟨rfl, rfl⟩ | ⟨moved, -, hsalt, hsecret⟩ | ⟨moved, -, hsalt, hsecret⟩)
    · exact .inl ⟨[], by simp, by simp⟩
    · exact .inl ⟨moved, hsalt, hsecret⟩
    · exact .inr ⟨moved, hsalt, hsecret⟩

/-- A shift makes the salt longer. -/
lemma Shifted.length_lt (h : Shifted salt secret salt' secret') : salt.length < salt'.length := by
  obtain ⟨moved, hmoved, rfl, -⟩ := h
  have hpos := List.length_pos_of_ne_nil hmoved
  rw [List.length_append]
  omega

/-- **A commitment binds up to shifts.**  It has two openings exactly when bytes of the secret can
be moved to the salt; salts of one length leave no such pair. -/
theorem secretCommit_binds_iff (hblake3 : Set.InjOn blake3
      {secretMaterial domain salt secret, secretMaterial domain salt' secret'}) :
    ((secretCommit blake3 domain salt secret = secretCommit blake3 domain salt' secret' →
        salt = salt' ∧ secret = secret') ↔
      ¬ (Shifted salt secret salt' secret' ∨ Shifted salt' secret' salt secret)) ∧
    (salt.length = salt'.length →
      ¬ (Shifted salt secret salt' secret' ∨ Shifted salt' secret' salt secret)) := by
  constructor
  · have hcommit : secretCommit blake3 domain salt secret =
        secretCommit blake3 domain salt' secret' ↔
        secretMaterial domain salt secret = secretMaterial domain salt' secret' :=
      ⟨fun h => hblake3 (by simp) (by simp) h, fun h => congrArg blake3 h⟩
    rw [hcommit, secretMaterial_eq_iff]
    constructor
    · intro h hshifted
      obtain ⟨rfl, rfl⟩ := h (.inr hshifted)
      rcases hshifted with hshifted | hshifted <;> exact absurd hshifted.length_lt (lt_irrefl _)
    · rintro h (hsame | hshifted)
      · exact hsame
      · exact absurd hshifted h
  · rintro hlen (hshifted | hshifted)
    · exact absurd hshifted.length_lt (by omega)
    · exact absurd hshifted.length_lt (by omega)

/-- A sample digest, which tells short inputs of one length. -/
def sampleDigest (b : Bytes) : Digest32 := ⟨beBytes 32 (ofBeBytes b), length_beBytes 32 _⟩

/-- Under one salt two secrets have two commitments. -/
theorem secretCommit_binds_iff_salted :
    secretCommit sampleDigest (utf8 "d") (utf8 "salt") (utf8 "one") ≠
      secretCommit sampleDigest (utf8 "d") (utf8 "salt") (utf8 "two") := by
  intro hcommit
  have hblake3 : Set.InjOn sampleDigest {secretMaterial (utf8 "d") (utf8 "salt") (utf8 "one"),
      secretMaterial (utf8 "d") (utf8 "salt") (utf8 "two")} := by
    rw [Set.injOn_pair]
    exact fun h => absurd h (by decide +kernel)
  obtain ⟨hiff, hlen⟩ := secretCommit_binds_iff hblake3
  obtain ⟨-, hsecret⟩ := hiff.mpr (hlen rfl) hcommit
  exact absurd hsecret (by decide +kernel)

/-- One commitment, two releases. -/
theorem secretCommit_shifted :
    ¬ ∀ (blake3 : Bytes → Digest32) (domain salt salt' secret secret' : Bytes),
      Set.InjOn blake3 {secretMaterial domain salt secret, secretMaterial domain salt' secret'} →
      secretCommit blake3 domain salt secret = secretCommit blake3 domain salt' secret' →
      salt = salt' ∧ secret = secret' := by
  intro h
  have hsame : secretMaterial (utf8 "example/v1") (utf8 "salt") (utf8 "secret") =
      secretMaterial (utf8 "example/v1") (utf8 "salts") (utf8 "ecret") := by decide +kernel
  have hblake3 : Set.InjOn sampleDigest
      {secretMaterial (utf8 "example/v1") (utf8 "salt") (utf8 "secret"),
        secretMaterial (utf8 "example/v1") (utf8 "salts") (utf8 "ecret")} := by
    rw [Set.injOn_pair]
    exact fun _ => hsame
  obtain ⟨hsalt, -⟩ := h _ _ _ _ _ _ hblake3 (congrArg sampleDigest hsame)
  exact absurd hsalt (by decide +kernel)

end Identikey.Capability
