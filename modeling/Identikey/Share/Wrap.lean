/-
The wrap of a 32-byte key for one recipient (`identikey-share`, `wrap.rs`).

A wrap is XChaCha20-Poly1305 under a hash of a Diffie-Hellman secret, of the ephemeral
public key and of the recipient's.  The curves are crates of their own: `Curves` holds
what the crate calls in them, with the laws of key agreement.  What the source draws
from the system's random numbers is an argument here.
-/
import Identikey.Lib.Aead
import Identikey.Lib.Fallible
import Identikey.Dcbor.Decode

namespace Identikey.Share

open Lib Lib.Fallible Auth Dcbor

/-- `ShareError`. -/
inductive ShareError where
  | rejectedKey
  | wrap
  | payload
  | emptyRecipients
  | noMatchingWrap
  | duplicateRecipient
  | mode
  | grantMismatch
  | signature
  | pqRequired
  | recrypt
  | cbor (e : Dcbor.Error)
deriving DecidableEq, Repr

/-- A key of the cipher: a DEK, or the key it is wrapped under. -/
abbrev Key := ByteArrayOf 32

/-- `try_into` of a slice to an array. -/
def toArray (n : ℕ) (b : Bytes) : Option (ByteArrayOf n) :=
  if h : b.length = n then some ⟨b, h⟩ else none

def WRAP_LABEL : Bytes := utf8 "identikey-keyspace-v1-wrap"

def ALG_X25519 : String := "x25519-xchacha20poly1305"

def ALG_P256 : String := "p256-xchacha20poly1305"

/-- `SMALL_ORDER`: eight Montgomery u-coordinates, little-endian. -/
def SMALL_ORDER : List Bytes :=
  [List.replicate 32 0,
   1 :: List.replicate 31 0,
   [0xe0, 0xeb, 0x7a, 0x7c, 0x3b, 0x41, 0xb8, 0xae, 0x16, 0x56, 0xe3, 0xfa, 0xf1, 0x9f, 0xc4, 0x6a,
    0xda, 0x09, 0x8d, 0xeb, 0x9c, 0x32, 0xb1, 0xfd, 0x86, 0x62, 0x05, 0x16, 0x5f, 0x49, 0xb8, 0x00],
   [0x5f, 0x9c, 0x95, 0xbc, 0xa3, 0x50, 0x8c, 0x24, 0xb1, 0xd0, 0xb1, 0x55, 0x9c, 0x83, 0xef, 0x5b,
    0x04, 0x44, 0x5c, 0xc4, 0x58, 0x1c, 0x8e, 0x86, 0xd8, 0x22, 0x4e, 0xdd, 0xd0, 0x9f, 0x11, 0x57],
   0xec :: List.replicate 30 0xff ++ [0x7f],
   0xed :: List.replicate 30 0xff ++ [0x7f],
   0xee :: List.replicate 30 0xff ++ [0x7f],
   List.replicate 31 0 ++ [0x80]]

/-- `is_small_order`. -/
def isSmallOrder (point : ByteArrayOf 32) : Bool := SMALL_ORDER.any (· == point.val)

/-- What the crates `x25519_dalek`, `ed25519_dalek`, `sha2` and `p256` compute, and how the two
sides of a key agreement meet. -/
structure Curves where
  /-- `X25519Public::from(&StaticSecret)`. -/
  x25519Public : ByteArrayOf 32 → ByteArrayOf 32
  /-- `StaticSecret::diffie_hellman`, on a secret and a public key. -/
  x25519 : ByteArrayOf 32 → ByteArrayOf 32 → ByteArrayOf 32
  /-- `SharedSecret::was_contributory`. -/
  wasContributory : ByteArrayOf 32 → Bool
  /-- `SigningKey::verifying_key`. -/
  verifyingKey : ByteArrayOf 32 → ByteArrayOf 32
  /-- `VerifyingKey::from_bytes` and then `to_montgomery`. -/
  toMontgomery : ByteArrayOf 32 → Option (ByteArrayOf 32)
  /-- The first half of the SHA-512 of a seed, `ed25519_seed_to_x25519`. -/
  seedToX25519 : ByteArrayOf 32 → ByteArrayOf 32
  /-- `SecretKey::from_slice` accepts the scalar. -/
  isScalar : ByteArrayOf 32 → Bool
  /-- `PublicKey::from_sec1_bytes` accepts the point. -/
  isPoint : Bytes → Bool
  /-- `SecretKey::public_key`, compressed. -/
  p256Public : { k // isScalar k } → ByteArrayOf 33
  /-- `p256::ecdh::diffie_hellman`, on a scalar and a point. -/
  p256 : { k // isScalar k } → Bytes → ByteArrayOf 32
  x25519_comm : ∀ a b, x25519 a (x25519Public b) = x25519 b (x25519Public a)
  p256_comm : ∀ a b, p256 a (p256Public b).val = p256 b (p256Public a).val
  /-- The Ed25519-to-X25519 map commutes with the derivation of public keys. -/
  toMontgomery_verifyingKey : ∀ seed,
    toMontgomery (verifyingKey seed) = some (x25519Public (seedToX25519 seed))
  /-- A clamped scalar takes the base point to no point of small order. -/
  x25519Public_not_small : ∀ a, isSmallOrder (x25519Public a) = false
  isPoint_p256Public : ∀ k, isPoint (p256Public k).val

/-! ### Keys -/

/-- `WrapPublic`: who a wrap is sealed to. -/
inductive WrapPublic where
  | X25519 (bytes : ByteArrayOf 32)
  | Ed25519 (bytes : ByteArrayOf 32)
  | P256 (bytes : ByteArrayOf 33)
deriving DecidableEq, Repr

/-- `WrapSecret`: a secret that opens a wrap sealed to the matching public key. -/
inductive WrapSecret where
  | X25519 (scalar : ByteArrayOf 32)
  | Ed25519Seed (seed : ByteArrayOf 32)
  | P256Scalar (scalar : ByteArrayOf 32)
deriving DecidableEq, Repr

/-- `Encapsulation`. -/
structure Encapsulation where
  alg : String
  recipient : Bytes
deriving DecidableEq, Repr

variable (curves : Curves)

/-- `ed25519_to_x25519`. -/
def ed25519ToX25519 (pk : ByteArrayOf 32) : Except ShareError (ByteArrayOf 32) :=
  okOr .rejectedKey (curves.toMontgomery pk)

namespace WrapPublic

/-- `WrapPublic::x25519`. -/
def x25519 (bytes : ByteArrayOf 32) : Except ShareError WrapPublic :=
  if isSmallOrder bytes then .error .rejectedKey else .ok (.X25519 bytes)

/-- `WrapPublic::ed25519`. -/
def ed25519 (bytes : ByteArrayOf 32) : Except ShareError WrapPublic := do
  let point ← ed25519ToX25519 curves bytes
  if isSmallOrder point then throw .rejectedKey else return .Ed25519 bytes

/-- `WrapPublic::p256`. -/
def p256 (bytes : ByteArrayOf 33) : Except ShareError WrapPublic :=
  if curves.isPoint bytes.val then .ok (.P256 bytes) else .error .rejectedKey

def tag : WrapPublic → String
  | .X25519 _ => "x25519"
  | .Ed25519 _ => "ed25519"
  | .P256 _ => "p256"

def keyBytes : WrapPublic → Bytes
  | .X25519 b => b.val
  | .Ed25519 b => b.val
  | .P256 b => b.val

def encapsulation : WrapPublic → Except ShareError Encapsulation
  | .X25519 bytes => .ok { alg := ALG_X25519, recipient := bytes.val }
  | .Ed25519 bytes => do
    let point ← ed25519ToX25519 curves bytes
    return { alg := ALG_X25519, recipient := point.val }
  | .P256 bytes => .ok { alg := ALG_P256, recipient := bytes.val }

end WrapPublic

namespace WrapSecret

/-- `public`: the public key that the secret opens. -/
def publicKey : WrapSecret → Except ShareError WrapPublic
  | .X25519 seed => WrapPublic.x25519 (curves.x25519Public seed)
  | .Ed25519Seed seed => WrapPublic.ed25519 curves (curves.verifyingKey seed)
  | .P256Scalar scalar =>
    if h : curves.isScalar scalar then WrapPublic.p256 curves (curves.p256Public ⟨scalar, h⟩)
    else .error .rejectedKey

/-- `encapsulation_public`. -/
def encapsulationPublic (secret : WrapSecret) : Except ShareError Bytes := do
  let enc ← (← secret.publicKey curves).encapsulation curves
  return enc.recipient

end WrapSecret

/-! ### Wraps -/

/-- `Wrap`. -/
structure Wrap where
  alg : String
  recipient : Bytes
  ephemeral : Bytes
  nonce : ByteArrayOf 24
  ciphertext : Bytes
  epoch : UInt64
deriving DecidableEq, Repr

/-- What is drawn at random for one wrap: a nonce, and the ephemeral secret of each curve. -/
structure WrapCoins where
  nonce : ByteArrayOf 24
  seed : ByteArrayOf 32
  scalar : { k // curves.isScalar k }

variable (aead : Aead) (blake3 : Bytes → Digest32)

/-- `wrap_kdf`. -/
def wrapKdf (dh : ByteArrayOf 32) (ephemeral recipient : Bytes) : Key :=
  blake3 (WRAP_LABEL ++ dh.val ++ ephemeral ++ recipient)

/-- The secret that no key agreement may come to. -/
def zeroKey : Bytes := List.replicate 32 0

/-- `seal_x25519`. -/
def sealX25519 (seed : ByteArrayOf 32) (recipient : ByteArrayOf 32) (dek : Key)
    (nonce : ByteArrayOf 24) : Except ShareError Bytes := do
  let ephemeral := curves.x25519Public seed
  ensure (isSmallOrder recipient = false) .rejectedKey
  let dh := curves.x25519 seed recipient
  ensure (curves.wasContributory dh) .wrap
  ensure (dh.val ≠ zeroKey) .wrap
  okOr .wrap (aead.encrypt (wrapKdf blake3 dh ephemeral.val recipient.val) nonce [] dek.val)

/-- `seal_p256`. -/
def sealP256 (recipient : Bytes) (dek : Key) (epoch : UInt64) (coins : WrapCoins curves) :
    Except ShareError Wrap := do
  ensure (curves.isPoint recipient) .rejectedKey
  let ephemeral := (curves.p256Public coins.scalar).val
  let dh := curves.p256 coins.scalar recipient
  ensure (dh.val ≠ zeroKey) .wrap
  let ciphertext ← okOr .wrap
    (aead.encrypt (wrapKdf blake3 dh ephemeral recipient) coins.nonce [] dek.val)
  return { alg := ALG_P256, recipient, ephemeral, nonce := coins.nonce, ciphertext, epoch }

/-- `wrap::seal`. -/
def Wrap.seal (recipient : WrapPublic) (dek : Key) (epoch : UInt64) (coins : WrapCoins curves) :
    Except ShareError Wrap := do
  let enc ← recipient.encapsulation curves
  if enc.alg = ALG_X25519 then
    let recipientBytes ← okOr .rejectedKey (toArray 32 enc.recipient)
    let ciphertext ← sealX25519 curves aead blake3 coins.seed recipientBytes dek coins.nonce
    return { alg := ALG_X25519, recipient := enc.recipient,
             ephemeral := (curves.x25519Public coins.seed).val, nonce := coins.nonce, ciphertext,
             epoch }
  else if enc.alg = ALG_P256 then sealP256 curves aead blake3 enc.recipient dek epoch coins
  else throw .wrap

/-- `dh_kdf_x25519`. -/
def dhKdfX25519 (scalar ephemeral recipient : ByteArrayOf 32) : Except ShareError Key := do
  ensure (isSmallOrder ephemeral = false ∧ isSmallOrder recipient = false) .wrap
  let dh := curves.x25519 scalar ephemeral
  ensure (curves.wasContributory dh) .wrap
  ensure (dh.val ≠ zeroKey) .wrap
  return wrapKdf blake3 dh ephemeral.val recipient.val

/-- `dh_kdf_p256`. -/
def dhKdfP256 (scalar : ByteArrayOf 32) (ephemeral recipient : Bytes) : Except ShareError Key :=
  if h : curves.isScalar scalar then do
    ensure (curves.isPoint ephemeral) .wrap
    let dh := curves.p256 ⟨scalar, h⟩ ephemeral
    ensure (dh.val ≠ zeroKey) .wrap
    return wrapKdf blake3 dh ephemeral recipient
  else .error .wrap

/-- The key of a wrap for an X25519 scalar. -/
def openX25519 (scalar : ByteArrayOf 32) (wrap : Wrap) : Except ShareError Key := do
  let recipient ← okOr .wrap (toArray 32 wrap.recipient)
  let ephemeral ← okOr .wrap (toArray 32 wrap.ephemeral)
  dhKdfX25519 curves blake3 scalar ephemeral recipient

/-- The key under which a wrap is, for a secret of the kind that its algorithm asks for. -/
def openKey (secret : WrapSecret) (wrap : Wrap) : Except ShareError Key :=
  match secret with
  | .X25519 scalar =>
    if wrap.alg = ALG_X25519 then openX25519 curves blake3 scalar wrap else .error .wrap
  | .Ed25519Seed seed =>
    if wrap.alg = ALG_X25519 then openX25519 curves blake3 (curves.seedToX25519 seed) wrap
    else .error .wrap
  | .P256Scalar scalar =>
    if wrap.alg = ALG_P256 then dhKdfP256 curves blake3 scalar wrap.ephemeral wrap.recipient
    else .error .wrap

/-- `open_with`. -/
def openWith (secret : WrapSecret) (wrap : Wrap) : Except ShareError Key := do
  let key ← openKey curves blake3 secret wrap
  let plain ← okOr .wrap (aead.decrypt key wrap.nonce [] wrap.ciphertext)
  okOr .wrap (toArray 32 plain)

variable (host : Host)

/-- The map of `Wrap::to_cbor`. -/
def Wrap.toMap (wrap : Wrap) : Map host :=
  (((((Map.new.insert (.text "alg") (.text wrap.alg)).insert (.text "recipient")
    (.byteString wrap.recipient)).insert (.text "ephemeral") (.byteString wrap.ephemeral)).insert
    (.text "nonce") (.byteString wrap.nonce.val)).insert (.text "ciphertext")
    (.byteString wrap.ciphertext)).insert (.text "epoch") (.unsigned wrap.epoch)

/-- `Wrap::to_cbor`; the `Result` of the source is always `Ok`. -/
def Wrap.toCbor (wrap : Wrap) : Bytes := (wrap.toMap host).toCBOR.toCborData host

/-- The checks of `parse_wrap` on a key of the recipient and an ephemeral one. -/
def checkWrapKeys (alg : String) (recipient ephemeral : Bytes) : Except ShareError Unit :=
  if alg = ALG_X25519 then do
    let r ← okOr .wrap (toArray 32 recipient)
    let e ← okOr .wrap (toArray 32 ephemeral)
    ensure (isSmallOrder r = false ∧ isSmallOrder e = false) .wrap
  else if alg = ALG_P256 then do
    ensure (recipient.length = 33 ∧ ephemeral.length = 33) .wrap
    ensure (curves.isPoint recipient) .wrap
    ensure (curves.isPoint ephemeral) .wrap
  else .error .wrap

/-- `parse_wrap`, from the entries of the map on. -/
def readWrap (entries : List (CBOR × CBOR)) : Except ShareError Wrap := do
  ensure (entries.length = 6) .wrap
  let alg ← okOr .wrap (getAs host entries "alg" CBOR.toText)
  ensure (alg = ALG_X25519 ∨ alg = ALG_P256) .wrap
  let recipient ← okOr .wrap (getAs host entries "recipient" CBOR.toByteString)
  let ephemeral ← okOr .wrap (getAs host entries "ephemeral" CBOR.toByteString)
  let nonceBytes ← okOr .wrap (getAs host entries "nonce" CBOR.toByteString)
  let ciphertext ← okOr .wrap (getAs host entries "ciphertext" CBOR.toByteString)
  let epoch ← okOr .wrap (getAs host entries "epoch" CBOR.toU64)
  let nonce ← okOr .wrap (toArray 24 nonceBytes)
  checkWrapKeys curves alg recipient ephemeral
  return { alg, recipient, ephemeral, nonce, ciphertext, epoch }

/-- How every parser of the crate starts: the bytes are the encoding of a map, whose entries are
then read. -/
def parseMap {α : Type} (bytes : Bytes) (e : ShareError)
    (read : List (CBOR × CBOR) → Except ShareError α) : Except ShareError α := do
  let cbor ← (decodeCbor host bytes).mapError .cbor
  ensure (cbor.toCborData host = bytes) e
  match cbor with
  | .map entries => read entries
  | _ => throw e

/-- `parse_wrap`. -/
def parseWrap (bytes : Bytes) : Except ShareError Wrap :=
  parseMap host bytes .wrap (readWrap curves host)

/-! ### Wrapping on its own -/

/-- `wrap_key`. -/
def wrapKey (recipient : WrapPublic) (dek : Key) (epoch : UInt64) (coins : WrapCoins curves) :
    Except ShareError Bytes := do
  let wrap ← Wrap.seal curves aead blake3 recipient dek epoch coins
  return wrap.toCbor host

/-- `unwrap_key`. -/
def unwrapKey (secret : WrapSecret) (wrap : Bytes) : Except ShareError Key := do
  let parsed ← parseWrap curves host wrap
  let expected ← secret.encapsulationPublic curves
  ensure (parsed.recipient = expected) .wrap
  openWith curves aead blake3 secret parsed

/-- `rewrap_key`. -/
def rewrapKey (secret : WrapSecret) (wrap : Bytes) (recipient : WrapPublic) (epoch : UInt64)
    (coins : WrapCoins curves) : Except ShareError Bytes := do
  let dek ← unwrapKey curves aead blake3 host secret wrap
  wrapKey curves aead blake3 host recipient dek epoch coins

end Identikey.Share
