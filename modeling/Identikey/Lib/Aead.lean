/-
Authenticated encryption with associated data.

`Aead` is what a program relies on of the `XChaCha20Poly1305` it is given: decryption
inverts encryption, a ciphertext is 16 bytes longer than what it hides, and a message
too long for the block counter is refused.  In an ideal AEAD nothing can be decrypted
but what was encrypted: `Produced` is that, for a key under which finitely many
messages were encrypted.
-/
import Mathlib.Algebra.Group.Nat.Defs
import Mathlib.Data.Nat.Notation
import Mathlib.Tactic.Lemma

namespace Identikey.Lib

/-- Bytes of a fixed number. -/
abbrev ByteArrayOf (n : ℕ) := { b : List UInt8 // b.length = n }

/-- `XChaCha20Poly1305`. -/
structure Aead where
  encrypt : ByteArrayOf 32 → ByteArrayOf 24 → List UInt8 → List UInt8 → Option (List UInt8)
  decrypt : ByteArrayOf 32 → ByteArrayOf 24 → List UInt8 → List UInt8 → Option (List UInt8)
  decrypt_encrypt : ∀ key nonce aad msg c,
    encrypt key nonce aad msg = some c → decrypt key nonce aad c = some msg
  length_encrypt : ∀ key nonce aad msg c,
    encrypt key nonce aad msg = some c → c.length = msg.length + 16
  length_lt : ∀ key nonce aad msg c, encrypt key nonce aad msg = some c → msg.length < 2 ^ 38

namespace Aead

/-- Everything that decrypts under the key is one of these triples of nonce, associated data and
ciphertext. -/
def Produced (aead : Aead) (key : ByteArrayOf 32)
    (triples : List (ByteArrayOf 24 × List UInt8 × List UInt8)) : Prop :=
  ∀ nonce aad c, (aead.decrypt key nonce aad c).isSome → (nonce, aad, c) ∈ triples

/-- The tag of the cipher below. -/
def clearTag : List UInt8 := List.replicate 16 0

/-- The cipher that hides nothing and appends zeros for a tag. -/
def clear : Aead where
  encrypt _ _ _ msg := if msg.length < 2 ^ 38 then some (msg ++ clearTag) else none
  decrypt _ _ _ c :=
    if c.drop (c.length - 16) = clearTag then some (c.take (c.length - 16)) else none
  decrypt_encrypt key nonce aad msg c h := by
    obtain ⟨-, heq⟩ := Option.ite_none_right_eq_some.mp h
    obtain rfl := Option.some.inj heq
    have hlen : (msg ++ clearTag).length - 16 = msg.length := by simp [clearTag]
    rw [hlen, if_pos (List.drop_left' rfl), List.take_left' rfl]
  length_encrypt key nonce aad msg c h := by
    obtain ⟨-, heq⟩ := Option.ite_none_right_eq_some.mp h
    rw [← Option.some.inj heq, List.length_append]
    rfl
  length_lt key nonce aad msg c h := (Option.ite_none_right_eq_some.mp h).1

/-- The cipher that hides nothing and appends half of its key for a tag. -/
def keyed : Aead where
  encrypt key _ _ msg := if msg.length < 2 ^ 38 then some (msg ++ key.val.take 16) else none
  decrypt key _ _ c :=
    if c.drop (c.length - 16) = key.val.take 16 then some (c.take (c.length - 16)) else none
  decrypt_encrypt key nonce aad msg c h := by
    obtain ⟨-, heq⟩ := Option.ite_none_right_eq_some.mp h
    obtain rfl := Option.some.inj heq
    have hlen : (msg ++ key.val.take 16).length - 16 = msg.length := by simp [key.2]
    rw [hlen, if_pos (List.drop_left' rfl), List.take_left' rfl]
  length_encrypt key nonce aad msg c h := by
    obtain ⟨-, heq⟩ := Option.ite_none_right_eq_some.mp h
    rw [← Option.some.inj heq, List.length_append, List.length_take, key.2]
    rfl
  length_lt key nonce aad msg c h := (Option.ite_none_right_eq_some.mp h).1

/-- The cipher as an ideal one is after these messages were encrypted, each under its key, nonce and
associated data: it knows no others. -/
def used (log : List (ByteArrayOf 32 × ByteArrayOf 24 × List UInt8 × List UInt8))
    (hlog : ∀ e ∈ log, e.2.2.2.length < 2 ^ 38) : Aead where
  encrypt key nonce aad msg :=
    if (key, nonce, aad, msg) ∈ log then some (msg ++ clearTag) else none
  decrypt key nonce aad c :=
    if (key, nonce, aad, c.take (c.length - 16)) ∈ log ∧ c.drop (c.length - 16) = clearTag
    then some (c.take (c.length - 16)) else none
  decrypt_encrypt key nonce aad msg c h := by
    obtain ⟨hmem, heq⟩ := Option.ite_none_right_eq_some.mp h
    obtain rfl := Option.some.inj heq
    have hlen : (msg ++ clearTag).length - 16 = msg.length := by simp [clearTag]
    rw [hlen, List.take_left' rfl, List.drop_left' rfl, if_pos ⟨hmem, rfl⟩]
  length_encrypt key nonce aad msg c h := by
    obtain ⟨-, heq⟩ := Option.ite_none_right_eq_some.mp h
    rw [← Option.some.inj heq, List.length_append]
    rfl
  length_lt key nonce aad msg c h := hlog _ (Option.ite_none_right_eq_some.mp h).1

section Used

variable {log : List (ByteArrayOf 32 × ByteArrayOf 24 × List UInt8 × List UInt8)}
  {hlog : ∀ e ∈ log, e.2.2.2.length < 2 ^ 38} {key : ByteArrayOf 32} {nonce : ByteArrayOf 24}
  {aad : List UInt8}

lemma encrypt_used {msg : List UInt8} (h : (key, nonce, aad, msg) ∈ log) :
    (used log hlog).encrypt key nonce aad msg = some (msg ++ clearTag) := if_pos h

lemma mem_of_decrypt_used {c : List UInt8}
    (h : ((used log hlog).decrypt key nonce aad c).isSome) :
    ∃ msg, (key, nonce, aad, msg) ∈ log ∧ msg ++ clearTag = c := by
  obtain ⟨msg, hmsg⟩ := Option.isSome_iff_exists.mp h
  obtain ⟨⟨hmem, htag⟩, -⟩ := Option.ite_none_right_eq_some.mp hmsg
  refine ⟨_, hmem, ?_⟩
  rw [← htag, List.take_append_drop]

lemma produced_used (key : ByteArrayOf 32) :
    (used log hlog).Produced key (log.map fun e => (e.2.1, e.2.2.1, e.2.2.2 ++ clearTag)) := by
  intro nonce aad c h
  obtain ⟨msg, hmem, rfl⟩ := mem_of_decrypt_used h
  exact List.mem_map.mpr ⟨_, hmem, rfl⟩

end Used

end Aead

end Identikey.Lib
