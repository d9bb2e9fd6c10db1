/-
Splitting a secret into shares and recovering it (`shamir.rs`).

The shares are the values, at the places 0, 1, 2 and on, of one polynomial for each byte
of the secret.  The polynomials have the secret at place 255, a digest of it at place 254
and otherwise random values.  `hmac` stands for `hmac_sha256`, and a generator for any
source that fills a buffer and has a next state.
-/
import Identikey.Lib.Aead
import Identikey.Shamir.Interpolate

namespace Identikey.Shamir

open Lib

/-- `Error`. -/
inductive Error
  | secretTooLong
  | tooManyShares
  | interpolationFailure
  | checksumFailure
  | secretTooShort
  | secretNotEvenLen
  | invalidThreshold
  | sharesUnequalLength
deriving DecidableEq, Repr

/-- How a call ends that returns nothing: with an error, or with a panic. -/
inductive Failure
  | error (e : Error)
  | panic
deriving DecidableEq, Repr

/-- `SECRET_INDEX`. -/
def secretIndex : UInt8 := 255

/-- `DIGEST_INDEX`. -/
def digestIndex : UInt8 := 254

/-- `MIN_SECRET_LEN`. -/
def minSecretLen : ℕ := 16

/-- `MAX_SHARE_COUNT`. -/
def maxShareCount : ℕ := 16

/-- `validate_parameters`. -/
def validateParameters (threshold shareCount secretLength : ℕ) : Except Failure Unit :=
  if shareCount > maxShareCount then .error (.error .tooManyShares)
  else if threshold < 1 ∨ threshold > shareCount then .error (.error .invalidThreshold)
  else if secretLength > maxSecretLen then .error (.error .secretTooLong)
  else if secretLength < minSecretLen then .error (.error .secretTooShort)
  else if secretLength &&& 1 ≠ 0 then .error (.error .secretNotEvenLen)
  else .ok ()

/-- A result of `interpolate`, which returns one or panics. -/
def orPanic {α : Type} : Option α → Except Failure α
  | some a => .ok a
  | none => .error .panic

/-- `RandomNumberGenerator::fill_random_data`, for a buffer of `n` bytes. -/
abbrev Generator (σ : Type) := (n : ℕ) → σ → ByteArrayOf n × σ

/-- The first shares: `k` buffers of `n` bytes, filled one after the other. -/
def fillShares {σ : Type} (fill : Generator σ) (n : ℕ) : ℕ → σ → List (List UInt8) × σ
  | 0, g => ([], g)
  | k + 1, g =>
    let (item, g) := fill n g
    let (items, g) := fillShares fill n k g
    (item.val :: items, g)

section Hmac

variable (hmac : List UInt8 → List UInt8 → ByteArrayOf 32)

/-- `create_digest`. -/
def createDigest (randomData sharedSecret : List UInt8) : List UInt8 :=
  (hmac randomData sharedSecret).val

/-- The `digest` buffer of `split_secret`: random data behind 4 bytes of its digest. -/
def digestShare (random secret : List UInt8) : List UInt8 :=
  (createDigest hmac random secret).take 4 ++ random

/-- The places of the points that the polynomials of `split_secret` go through: `x`, which has
zeros behind them. -/
def splitPlaces (threshold shareCount : ℕ) : List UInt8 :=
  (List.range (threshold - 2)).map UInt8.ofNat ++ [digestIndex, secretIndex] ++
    List.replicate (shareCount - threshold) 0

/-- The values at these places: `y`. -/
def splitValues (shareCount : ℕ) (first : List (List UInt8)) (digest secret : List UInt8) :
    List (List UInt8) :=
  first ++ [digest, secret] ++
    List.replicate (shareCount - (first.length + 2)) (List.replicate secret.length 0)

/-- `split_secret`. -/
def splitSecret {σ : Type} (fill : Generator σ) (threshold shareCount : ℕ) (secret : List UInt8)
    (g : σ) : Except Failure (List (List UInt8) × σ) := do
  validateParameters threshold shareCount secret.length
  if threshold = 1 then
    .ok (List.replicate shareCount secret, g)
  else
    let (first, g) := fillShares fill secret.length (threshold - 2) g
    let (random, g) := fill (secret.length - 4) g
    let y := splitValues shareCount first (digestShare hmac random.val secret) secret
    let rest ← (List.range' (threshold - 2) (shareCount - (threshold - 2))).mapM fun index =>
      orPanic (interpolate threshold (splitPlaces threshold shareCount) secret.length y
        (UInt8.ofNat index))
    .ok (first ++ rest, g)

/-- `recover_secret`. -/
def recoverSecret (indexes : List ℕ) (shares : List (List UInt8)) :
    Except Failure (List UInt8) := do
  let threshold := shares.length
  if threshold = 0 ∨ indexes.length ≠ threshold then
    .error (.error .invalidThreshold)
  else
    let shareLength := (shares.headD []).length
    validateParameters threshold threshold shareLength
    if ¬ (shares.all fun share => share.length == shareLength) then
      .error (.error .sharesUnequalLength)
    else if threshold = 1 then
      .ok (shares.headD [])
    else
      let indexes := indexes.map UInt8.ofNat
      let digest ← orPanic (interpolate threshold indexes shareLength shares digestIndex)
      let secret ← orPanic (interpolate threshold indexes shareLength shares secretIndex)
      let verify := createDigest hmac (digest.drop 4) secret
      if digest.take 4 = verify.take 4 then .ok secret
      else .error (.error .checksumFailure)

end Hmac

end Identikey.Shamir
