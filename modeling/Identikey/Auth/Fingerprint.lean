/-
Fingerprints as text (`key.rs`).

The authentication crate shows a fingerprint through the `bs58` package.  The package is
a parameter, `Bs58`, with what it documents: its default alphabet is Bitcoin's, a leading
zero byte becomes the symbol of zero, the other symbols are the digits in base 58 of the
number the bytes denote, and decoding reads an encoding back.
-/
import Identikey.Auth.Error
import Identikey.Lib.Radix

namespace Identikey.Auth

open Lib Lib.Radix

/-- `bs58::Alphabet::BITCOIN`. -/
def BITCOIN : String := "123456789ABCDEFGHJKLMNPQRSTUVWXYZabcdefghijkmnopqrstuvwxyz"

/-- The symbol of a digit. -/
def symbol (d : ℕ) : Char := BITCOIN.toList.getD d '1'

/-- `bs58::encode(_).into_string()` and `bs58::decode(_).into_vec()`. -/
structure Bs58 where
  encode : Bytes → String
  decode : String → Option Bytes
  encode_digits : ∀ bytes, ∃ top : List ℕ, (∀ d ∈ top, d < 58) ∧ top.head? ≠ some 0 ∧
    Nat.ofDigits 58 top.reverse = ofBeBytes bytes ∧
    (encode bytes).toList =
      List.replicate (bytes.takeWhile (· == 0)).length (symbol 0) ++ top.map symbol
  decode_encode : ∀ bytes, decode (encode bytes) = some bytes

/-! ### The symbols -/

/-- The digit of a symbol. -/
def digitOf (c : Char) : Option ℕ := BITCOIN.toList.findIdx? (· == c)

lemma digitOf_symbol {d : ℕ} (hd : d < 58) : digitOf (symbol d) = some d := by
  have h : ∀ d : Fin 58, digitOf (symbol d) = some d.val := by decide
  exact h ⟨d, hd⟩

lemma mapM_digitOf {l : List ℕ} (hl : ∀ d ∈ l, d < 58) :
    (l.map symbol).mapM digitOf = some l := by
  induction l with
  | nil => rfl
  | cons d l ih =>
    rw [List.map_cons, List.mapM_cons, digitOf_symbol (hl d List.mem_cons_self),
      ih fun d hd => hl d (List.mem_cons_of_mem _ hd)]
    rfl

/-- Digit strings are told apart by their symbols. -/
lemma map_symbol_injOn : Set.InjOn (List.map symbol) {l | ∀ d ∈ l, d < 58} := by
  intro l hl l' hl' h
  have hread : (l.map symbol).mapM digitOf = (l'.map symbol).mapM digitOf :=
    congrArg (List.mapM digitOf) h
  rw [mapM_digitOf hl, mapM_digitOf hl'] at hread
  exact Option.some.inj hread

/-! ### The package -/

/-- The text in base 58 of a byte string. -/
def base58 (bytes : Bytes) : String :=
  String.ofList ((rebase 256 58 (bytes.map UInt8.toNat)).map symbol)

lemma toList_base58 (bytes : Bytes) :
    (base58 bytes).toList = List.replicate (bytes.takeWhile (· == 0)).length (symbol 0) ++
      (Nat.digits 58 (ofBeBytes bytes)).reverse.map symbol := by
  rw [base58, String.toList_ofList, rebase_bytes, List.map_append, List.map_replicate]

lemma base58_injective : Function.Injective base58 := by
  intro bytes bytes' h
  have hsymbols := String.ofList_injective h
  exact rebase_bytes_injective 58 (map_symbol_injOn (fun _ => mem_rebase (by decide))
    (fun _ => mem_rebase (by decide)) hsymbols)

lemma Bs58.encode_eq (bs58 : Bs58) (bytes : Bytes) : bs58.encode bytes = base58 bytes := by
  obtain ⟨top, hlt, hhead, hvalue, htext⟩ := bs58.encode_digits bytes
  have htop : (Nat.digits 58 (ofBeBytes bytes)).reverse = top := by
    rw [← hvalue]
    exact reverse_digits_unique (by decide) hlt hhead
  rw [← String.toList_inj, htext, toList_base58, htop]

/-- The package as a program: the text is read digit by digit and the number it denotes
written in bytes. -/
def Bs58.computed : Bs58 where
  encode := base58
  decode text := do
    let digits ← text.toList.mapM digitOf
    return (rebase 58 256 digits).map UInt8.ofNat
  encode_digits bytes := by
    refine ⟨(Nat.digits 58 (ofBeBytes bytes)).reverse, fun d hd => ?_, head?_reverse_digits 58 _,
      ?_, toList_base58 bytes⟩
    · exact Nat.digits_lt_base (by decide) (List.mem_reverse.mp hd)
    · rw [List.reverse_reverse, Nat.ofDigits_digits]
  decode_encode bytes := by
    rw [base58, String.toList_ofList, mapM_digitOf fun _ => mem_rebase (by decide)]
    simp only [Option.bind_eq_bind, Option.bind_some, rebase_rebase,
      rebase_self (by decide) (map_toNat_lt bytes), List.map_map]
    simp [Function.comp_def]

/-! ### Fingerprints -/

/-- `Fingerprint`. -/
abbrev Fingerprint := Digest32

namespace Fingerprint

variable (bs58 : Bs58)

/-- `Fingerprint::to_base58`. -/
def toBase58 (fingerprint : Fingerprint) : String := bs58.encode fingerprint.val

/-- `Fingerprint::from_base58`. -/
def fromBase58 (s : String) : Except AuthError Fingerprint :=
  match bs58.decode s with
  | none => .error (.invalidKey "fingerprint base58")
  | some bytes =>
    if h : bytes.length = 32 then .ok ⟨bytes, h⟩ else .error (.invalidKey "fingerprint length")

lemma fromBase58_toBase58 (fingerprint : Fingerprint) :
    fromBase58 bs58 (toBase58 bs58 fingerprint) = .ok fingerprint := by
  rw [fromBase58, toBase58, bs58.decode_encode]
  exact dif_pos fingerprint.property

end Fingerprint

end Identikey.Auth
