/-
The base 58 encoder of the wallet (`identikey-wallet`, `basic.rs`).

`bs58_encode` keeps the digits of the number read so far in a vector, least significant
first: a byte multiplies the number by 256 and is added to it, the carry runs through the
vector and what is left of it is pushed digit by digit.  The invariant of the outer loop
is that the vector holds `Nat.digits 58` of the number, which has no zero on top, so that
it is empty as long as only zero bytes were read; that of the inner loop is that the carry
is a byte.  The capacities the source reserves are not part of the result.
-/
import Identikey.Auth.Fingerprint
import Identikey.Lib.Fallible
import Identikey.Wallet.Basic

namespace Identikey.Wallet

open Lib Lib.Fallible Lib.Radix Auth

/-- The panics of integer arithmetic and of indexing. -/
inductive Panic where
  | overflow
  | indexOutOfBounds
deriving DecidableEq, Repr

/-- `a + b` on `u32`. -/
def addU32 (build : Build) (a b : UInt32) : Except Panic UInt32 :=
  if build = .debug ∧ 2 ^ 32 ≤ a.toNat + b.toNat then .error .overflow else .ok (a + b)

namespace BasicIdentity

/-- `ALPHABET`. -/
def ALPHABET : Bytes :=
  "123456789ABCDEFGHJKLMNPQRSTUVWXYZabcdefghijkmnopqrstuvwxyz".toList.map fun c => c.toNat.toUInt8

/-- `ALPHABET[d as usize] as char`. -/
def alphabetAt (d : UInt8) : Except Panic Char :=
  match ALPHABET[d.toNat]? with
  | some byte => .ok (Char.ofUInt8 byte)
  | none => .error .indexOutOfBounds

/-- The loop over the digits: the vector times 256 plus the carry, and the carry that is
left. -/
def mulDigits (build : Build) : UInt32 → List UInt8 → Except Panic (List UInt8 × UInt32)
  | carry, [] => .ok ([], carry)
  | carry, digit :: digits => do
    let sum ← addU32 build carry (digit.toUInt32 <<< 8)
    let (digits, carry) ← mulDigits build (sum / 58) digits
    return ((sum % 58).toUInt8 :: digits, carry)

/-- `while carry > 0`: the digits pushed. -/
def pushCarry (carry : UInt32) : List UInt8 :=
  if h : carry > 0 then (carry % 58).toUInt8 :: pushCarry (carry / 58) else []
termination_by carry.toNat
decreasing_by
  rw [UInt32.toNat_div]
  exact Nat.div_lt_self (UInt32.lt_iff_toNat_lt.mp h) (by decide)

/-- The turn of the outer loop. -/
def addByte (build : Build) (digits : List UInt8) (byte : UInt8) : Except Panic (List UInt8) := do
  let (digits, carry) ← mulDigits build byte.toUInt32 digits
  return digits ++ pushCarry carry

/-- `digits` after the outer loop. -/
def digitsOf (build : Build) (bytes : Bytes) : Except Panic (List UInt8) :=
  bytes.foldlM (addByte build) []

/-- `bs58_encode`. -/
def bs58Encode (build : Build) (bytes : Bytes) : Except Panic String := do
  let digits ← digitsOf build bytes
  let leadingZeros := (bytes.takeWhile (· == 0)).length
  let chars ← digits.reverse.mapM alphabetAt
  return String.ofList (List.replicate leadingZeros '1' ++ chars)

/-- `fingerprint_b58`. -/
def fingerprintB58 (build : Build) (identity : BasicIdentity) : Except Panic String :=
  bs58Encode build identity.fingerprint.val

/-! ### The symbols -/

lemma alphabetAt_eq {d : UInt8} (hd : d.toNat < 58) : alphabetAt d = .ok (symbol d.toNat) := by
  have h : ∀ k : Fin 58, alphabetAt (UInt8.ofNat k) = .ok (symbol k) := by decide
  simpa using h ⟨d.toNat, hd⟩

/-! ### One turn of the inner loop -/

/-- What a vector of digits denotes. -/
def Digits (n : ℕ) (digits : List UInt8) : Prop := digits.map UInt8.toNat = Nat.digits 58 n

lemma Digits.lt {n : ℕ} {digits : List UInt8} (h : Digits n digits) {d : UInt8}
    (hd : d ∈ digits) : d.toNat < 58 := by
  refine Nat.digits_lt_base (m := n) (by decide) ?_
  rw [← h]
  exact List.mem_map_of_mem hd

/-- The carry starts as a byte. -/
lemma toUInt32_le (byte : UInt8) : byte.toUInt32.toNat ≤ 255 := by
  rw [UInt8.toNat_toUInt32]
  exact Nat.le_of_lt_succ byte.toNat_lt

/-- A digit shifted by a byte leaves room for a carry that is a byte. -/
lemma addU32_shift (build : Build) {carry : UInt32} (digit : UInt8) (hcarry : carry.toNat ≤ 255) :
    ∃ sum, addU32 build carry (digit.toUInt32 <<< 8) = .ok sum ∧
      sum.toNat = 256 * digit.toNat + carry.toNat := by
  have hdigit := digit.toNat_lt
  have hshift : (digit.toUInt32 <<< 8).toNat = 256 * digit.toNat := by
    rw [UInt32.toNat_shiftLeft, UInt8.toNat_toUInt32, Nat.shiftLeft_eq]
    simp
    omega
  refine ⟨carry + digit.toUInt32 <<< 8, if_neg ?_, ?_⟩
  · rintro ⟨-, hover⟩
    omega
  · rw [UInt32.toNat_add, hshift]
    omega

/-- The digit and the carry that a sum is divided into. -/
lemma toNat_divMod (sum : UInt32) :
    (sum % 58).toUInt8.toNat = sum.toNat % 58 ∧ (sum / 58).toNat = sum.toNat / 58 := by
  refine ⟨?_, by simp⟩
  rw [UInt32.toNat_toUInt8, UInt32.toNat_mod]
  have hlt : sum.toNat % 58 < 58 := Nat.mod_lt _ (by decide)
  exact Nat.mod_eq_of_lt (by simpa using Nat.lt_trans hlt (by decide))

/-- A turn writes a digit and leaves a carry that is again a byte. -/
lemma mulDigits_cons (build : Build) {carry : UInt32} {digit : UInt8} (digits : List UInt8)
    (hcarry : carry.toNat ≤ 255) (hdigit : digit.toNat < 58) :
    ∃ (written : UInt8) (next : UInt32),
      written.toNat = (256 * digit.toNat + carry.toNat) % 58 ∧
      next.toNat = (256 * digit.toNat + carry.toNat) / 58 ∧ next.toNat ≤ 255 ∧
      mulDigits build carry (digit :: digits) =
        (mulDigits build next digits).map fun r => (written :: r.1, r.2) := by
  obtain ⟨sum, hok, hsum⟩ := addU32_shift build digit hcarry
  obtain ⟨hmod, hdiv⟩ := toNat_divMod sum
  rw [hsum] at hmod hdiv
  refine ⟨_, _, hmod, hdiv, by omega, ?_⟩
  rw [mulDigits, hok, ok_bind]
  cases mulDigits build (sum / 58) digits <;> rfl

/-! ### The inner loop -/

/-- On digits the loop does not overflow, writes digits and leaves a byte. -/
lemma mulDigits_bounded (build : Build) {carry : UInt32} {digits : List UInt8}
    (hcarry : carry.toNat ≤ 255) (hdigits : ∀ d ∈ digits, d.toNat < 58) :
    ∃ written rest, mulDigits build carry digits = .ok (written, rest) ∧ rest.toNat ≤ 255 ∧
      ∀ d ∈ written, d.toNat < 58 := by
  induction digits generalizing carry with
  | nil => exact ⟨[], carry, rfl, hcarry, by simp⟩
  | cons digit digits ih =>
    obtain ⟨d, next, hd, -, hnext, hloop⟩ :=
      mulDigits_cons build digits hcarry (hdigits digit List.mem_cons_self)
    obtain ⟨written, rest, hok, hrest, hwritten⟩ :=
      ih hnext fun e he => hdigits e (List.mem_cons_of_mem _ he)
    refine ⟨d :: written, rest, by rw [hloop, hok]; rfl, hrest, ?_⟩
    rw [List.forall_mem_cons, hd]
    exact ⟨Nat.mod_lt _ (by decide), hwritten⟩

lemma pushCarry_eq (carry : UInt32) : Digits carry.toNat (pushCarry carry) := by
  induction carry using pushCarry.induct with
  | case1 carry hpos ih =>
    have hpos' : 0 < carry.toNat := UInt32.lt_iff_toNat_lt.mp hpos
    obtain ⟨hmod, hdiv⟩ := toNat_divMod carry
    rw [Digits, hdiv] at ih
    rw [Digits, pushCarry, dif_pos hpos, List.map_cons, hmod, ih,
      Nat.digits_def' (by decide) hpos']
  | case2 carry hzero =>
    have hzero' : carry.toNat = 0 := by
      simpa [UInt32.lt_iff_toNat_lt] using hzero
    rw [Digits, pushCarry, dif_neg hzero, hzero', Nat.digits_zero, List.map_nil]

/-- The digits of `256 * n` plus the carry, from those of `n`: by induction on the digits,
where the number left is `n / 58` and the carry what the turn divided out. -/
lemma mulDigits_eq (build : Build) {n : ℕ} {carry : UInt32} {digits : List UInt8}
    (h : Digits n digits) (hcarry : carry.toNat ≤ 255) :
    ∃ written rest, mulDigits build carry digits = .ok (written, rest) ∧
      Digits (256 * n + carry.toNat) (written ++ pushCarry rest) := by
  induction digits generalizing n carry with
  | nil =>
    obtain rfl : n = 0 := Nat.digits_eq_nil_iff_eq_zero.mp h.symm
    refine ⟨[], carry, rfl, ?_⟩
    simpa using pushCarry_eq carry
  | cons digit digits ih =>
    have hn : 0 < n := by
      refine Nat.pos_of_ne_zero ?_
      rintro rfl
      simp [Digits] at h
    have hlt := h.lt List.mem_cons_self
    rw [Digits, List.map_cons, Nat.digits_def' (by decide) hn, List.cons.injEq] at h
    obtain ⟨hdigit, htail⟩ := h
    obtain ⟨d, next, hd, hnext, hbyte, hloop⟩ := mulDigits_cons build digits hcarry hlt
    obtain ⟨written, rest, hok, hdigits⟩ := ih htail hbyte
    refine ⟨d :: written, rest, by rw [hloop, hok]; rfl, ?_⟩
    have hdivide : n = digit.toNat + 58 * (n / 58) := by
      rw [hdigit]
      exact (Nat.mod_add_div n 58).symm
    have hmod : d.toNat = (256 * n + carry.toNat) % 58 := by omega
    have hdiv : 256 * (n / 58) + next.toNat = (256 * n + carry.toNat) / 58 := by omega
    have hpos : 0 < 256 * n + carry.toNat := by omega
    rw [Digits, hdiv] at hdigits
    rw [Digits, List.cons_append, List.map_cons, hdigits, hmod, Nat.digits_def' (by decide) hpos]

/-! ### The outer loop -/

lemma addByte_eq (build : Build) {n : ℕ} {digits : List UInt8} (h : Digits n digits)
    (byte : UInt8) :
    ∃ digits', addByte build digits byte = .ok digits' ∧ Digits (256 * n + byte.toNat) digits' := by
  obtain ⟨written, rest, hok, hdigits⟩ := mulDigits_eq build h (toUInt32_le byte)
  rw [UInt8.toNat_toUInt32] at hdigits
  exact ⟨written ++ pushCarry rest, by rw [addByte, hok]; rfl, hdigits⟩

lemma digitsOf_eq (build : Build) (bytes : Bytes) :
    ∃ digits, digitsOf build bytes = .ok digits ∧ Digits (ofBeBytes bytes) digits := by
  induction bytes using List.reverseRecOn with
  | nil => exact ⟨[], rfl, by simp [Digits, ofBeBytes]⟩
  | append_singleton bytes byte ih =>
    obtain ⟨digits, hok, hdigits⟩ := ih
    obtain ⟨digits', hok', hdigits'⟩ := addByte_eq build hdigits byte
    refine ⟨digits', ?_, ?_⟩
    · rw [digitsOf, List.foldlM_append]
      change (digitsOf build bytes >>= _) = _
      rw [hok, ok_bind, List.foldlM_cons, hok']
      rfl
    · rw [ofBeBytes_append]
      simpa [ofBeBytes, Nat.mul_comm] using hdigits'

/-! ### The encoder -/

lemma mapM_alphabetAt {digits : List UInt8} (h : ∀ d ∈ digits, d.toNat < 58) :
    digits.mapM alphabetAt = .ok ((digits.map UInt8.toNat).map symbol) := by
  rw [List.map_map]
  exact mapM_of_forall fun d hd => alphabetAt_eq (h d hd)

lemma bs58Encode_eq (build : Build) (bytes : Bytes) :
    bs58Encode build bytes = .ok (base58 bytes) := by
  obtain ⟨digits, hok, hdigits⟩ := digitsOf_eq build bytes
  have hchars : digits.reverse.mapM alphabetAt =
      .ok ((digits.reverse.map UInt8.toNat).map symbol) :=
    mapM_alphabetAt fun d hd => hdigits.lt (List.mem_reverse.mp hd)
  rw [bs58Encode, hok, ok_bind, hchars, ok_bind, List.map_reverse, hdigits]
  refine congrArg Except.ok ?_
  rw [← String.toList_inj, toList_base58, String.toList_ofList]
  rfl

/-- What the loops keep while a byte is worked in: the vector holds digits, wherever the
inner loop stands, and the next sum fits into a `u32`. -/
def LoopsBounded (build : Build) (before : Bytes) (byte : UInt8) : Prop :=
  ∃ digits, digitsOf build before = .ok digits ∧ (∀ d ∈ digits, d.toNat < 58) ∧
    ∀ j, ∃ written carry, mulDigits build byte.toUInt32 (digits.take j) = .ok (written, carry) ∧
      (∀ d ∈ written ++ digits.drop j, d.toNat < 58) ∧ (∀ d ∈ pushCarry carry, d.toNat < 58) ∧
      ∀ digit ∈ digits[j]?, carry.toNat + digit.toNat * 2 ^ 8 < 2 ^ 32

lemma loopsBounded (build : Build) (before : Bytes) (byte : UInt8) :
    LoopsBounded build before byte := by
  obtain ⟨digits, hok, hdigits⟩ := digitsOf_eq build before
  have hlt : ∀ d ∈ digits, d.toNat < 58 := fun d hd => hdigits.lt hd
  refine ⟨digits, hok, hlt, fun j => ?_⟩
  obtain ⟨written, carry, hloop, hcarry, hwritten⟩ :=
    mulDigits_bounded build (toUInt32_le byte) fun d hd => hlt d (List.mem_of_mem_take hd)
  refine ⟨written, carry, hloop, fun d hd => ?_, fun d hd => (pushCarry_eq carry).lt hd,
    fun digit _ => ?_⟩
  · rcases List.mem_append.mp hd with hd | hd
    · exact hwritten d hd
    · exact hlt d (List.mem_of_mem_drop hd)
  · have hdigit := digit.toNat_lt
    omega

/-- The encoder is base 58 on every byte string, its loops stay in their bounds, and it is
injective; on fingerprints it is the form of the authentication crate, which reads it
back. -/
theorem bs58Encode_is_base58 (bs58 : Bs58) :
    (∀ build bytes, ∃ text top, bs58Encode build bytes = .ok text ∧
      text.toList = List.replicate (bytes.takeWhile (· == 0)).length '1' ++ top.map symbol ∧
      top = (Nat.digits 58 (ofBeBytes bytes)).reverse ∧ top.head? ≠ some 0) ∧
    (∀ build before byte, LoopsBounded build before byte) ∧
    (∀ build bytes bytes', bs58Encode build bytes = bs58Encode build bytes' → bytes = bytes') ∧
    (∀ build bytes, bs58Encode build bytes = .ok (bs58.encode bytes)) ∧
    (∀ build (identity identity' : BasicIdentity),
      identity.fingerprintB58 build = identity'.fingerprintB58 build →
        identity.fingerprint = identity'.fingerprint) ∧
    ∀ build (identity : BasicIdentity), ∃ text, identity.fingerprintB58 build = .ok text ∧
      text = Fingerprint.toBase58 bs58 identity.fingerprint ∧
      Fingerprint.fromBase58 bs58 text = .ok identity.fingerprint := by
  have hinjective : ∀ build bytes bytes',
      bs58Encode build bytes = bs58Encode build bytes' → bytes = bytes' := by
    intro build bytes bytes' h
    rw [bs58Encode_eq, bs58Encode_eq] at h
    exact base58_injective (Except.ok.inj h)
  have hpackage : ∀ build bytes, bs58Encode build bytes = .ok (bs58.encode bytes) := by
    intro build bytes
    rw [bs58Encode_eq, bs58.encode_eq]
  refine ⟨fun build bytes => ?_, loopsBounded, hinjective, hpackage, ?_, ?_⟩
  · exact ⟨base58 bytes, _, bs58Encode_eq build bytes, toList_base58 bytes, rfl,
      head?_reverse_digits 58 _⟩
  · intro build identity identity' h
    exact Subtype.ext (hinjective build _ _ h)
  · intro build identity
    exact ⟨_, hpackage build _, rfl, Fingerprint.fromBase58_toBase58 bs58 _⟩

/-- Two zero bytes and the number `0x287fb4cd`. -/
theorem bs58Encode_is_base58_zeros :
    bs58Encode .debug [0x00, 0x00, 0x28, 0x7f, 0xb4, 0xcd] = .ok "11233QC4" := by
  obtain ⟨-, -, -, hpackage, -⟩ := bs58Encode_is_base58 Bs58.computed
  rw [hpackage]
  exact congrArg Except.ok (by decide : base58 [0x00, 0x00, 0x28, 0x7f, 0xb4, 0xcd] = "11233QC4")

end BasicIdentity

end Identikey.Wallet
