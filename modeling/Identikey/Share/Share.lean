/-
A payload encrypted under one DEK, with one wrap or capsule per recipient
(`identikey-share`, `share.rs` and `recrypt.rs`).

Adding a recipient wraps the DEK once more and leaves the payload as it is.  A capsule
holds the DEK for a proxy re-encryption backend, which the caller supplies.
-/
import Identikey.Lib.BigEndian
import Identikey.Share.Wrap

set_option linter.dupNamespace false

namespace Identikey.Share

open Lib Lib.Fallible Auth Dcbor

def PAYLOAD_ALG : String := "xchacha20poly1305"

def PAYLOAD_AAD : Bytes := utf8 "identikey-share-v1-payload"

def CONTENT_DOMAIN : Bytes := utf8 "identikey-share-v1-content\n"

def ACCESS_DOMAIN : Bytes := utf8 "identikey-share-v1-access\n"

/-- The algorithm tag of a capsule. -/
def CAPSULE_ALG : String := "recrypt-pre"

/-! ### Capsules -/

/-- `RecryptPublic`. -/
structure RecryptPublic where
  backend : String
  key : Bytes
deriving DecidableEq, Repr

/-- `RecryptPublic::new`. -/
def RecryptPublic.new (backend : String) (key : Bytes) : Except ShareError RecryptPublic := do
  ensure (¬ (backend = "" ∨ key = [])) .recrypt
  return { backend, key }

/-- `RecryptCapsule`. -/
structure RecryptCapsule where
  backend : String
  recipient : Bytes
  ciphertext : Bytes
deriving DecidableEq, Repr

/-- `RecryptKem`: what a backend supplies. -/
structure RecryptKem where
  encapsulate : String → Bytes → Key → Except ShareError Bytes
  decapsulate : String → Bytes → Bytes → Except ShareError Key
  transform : String → Bytes → Bytes → Except ShareError Bytes

/-- `NopKem`. -/
def NopKem : RecryptKem :=
  { encapsulate := fun _ _ _ => .error .recrypt, decapsulate := fun _ _ _ => .error .recrypt,
    transform := fun _ _ _ => .error .recrypt }

/-- `Share`: ciphertext and the wraps and capsules that hold its DEK. -/
structure Share where
  epoch : UInt64
  nonce : ByteArrayOf 24
  ciphertext : Bytes
  wraps : List Wrap
  targets : List WrapPublic
  recrypt : List RecryptCapsule
deriving DecidableEq, Repr

variable (curves : Curves) (aead : Aead) (blake3 : Bytes → Digest32) (host : Host)

/-- What is drawn at random to seal a share.  No recipient is sealed to twice in one call, so that
the draws for the wraps may be told by their recipients. -/
structure SealCoins where
  dek : Key
  nonce : ByteArrayOf 24
  wraps : WrapPublic → WrapCoins curves

/-! ### Sealing and opening -/

/-- `encrypt_payload`. -/
def encryptPayload (dek : Key) (nonce : ByteArrayOf 24) (plaintext : Bytes) :
    Except ShareError Bytes :=
  okOr .payload (aead.encrypt dek nonce PAYLOAD_AAD plaintext)

/-- `decrypt_payload`. -/
def decryptPayload (dek : Key) (nonce : ByteArrayOf 24) (ciphertext : Bytes) :
    Except ShareError Bytes :=
  okOr .payload (aead.decrypt dek nonce PAYLOAD_AAD ciphertext)

/-- The loop of `reject_duplicate_direct`, behind the recipients that gave `seen`. -/
def rejectSeen (recipients : List WrapPublic) (seen : List Bytes) :
    List WrapPublic → Except ShareError Unit
  | [] => .ok ()
  | recipient :: rest => do
    let enc ← recipient.encapsulation curves
    ensure (¬ (enc.recipient ∈ seen ∨ 1 < recipients.count recipient)) .duplicateRecipient
    rejectSeen recipients (seen ++ [enc.recipient]) rest

/-- `reject_duplicate_direct`. -/
def rejectDuplicateDirect (recipients : List WrapPublic) : Except ShareError Unit :=
  rejectSeen curves recipients [] recipients

/-- `reject_duplicate_recrypt`. -/
def rejectDuplicateRecrypt : List RecryptPublic → Except ShareError Unit
  | [] => .ok ()
  | recipient :: rest => do
    ensure (¬ ∃ other ∈ rest, other.backend = recipient.backend ∧ other.key = recipient.key)
      .duplicateRecipient
    rejectDuplicateRecrypt rest

/-- The wraps of a DEK for each recipient. -/
def sealAll (recipients : List WrapPublic) (dek : Key) (epoch : UInt64)
    (coins : WrapPublic → WrapCoins curves) : Except ShareError (List Wrap) :=
  recipients.mapM fun recipient =>
    Wrap.seal curves aead blake3 recipient dek epoch (coins recipient)

/-- The capsule of a DEK for one recipient. -/
def encapsulateTo (kem : RecryptKem) (dek : Key) (recipient : RecryptPublic) :
    Except ShareError RecryptCapsule := do
  let capsule ← kem.encapsulate recipient.backend recipient.key dek
  ensure (capsule ≠ []) .recrypt
  return { backend := recipient.backend, recipient := recipient.key, ciphertext := capsule }

/-- `seal_mixed`. -/
def Share.sealMixed (plaintext : Bytes) (recipients : List WrapPublic)
    (recrypt : List RecryptPublic) (kem : RecryptKem) (epoch : UInt64) (coins : SealCoins curves) :
    Except ShareError Share := do
  ensure (¬ (recipients = [] ∧ recrypt = [])) .emptyRecipients
  rejectDuplicateDirect curves recipients
  rejectDuplicateRecrypt recrypt
  let ciphertext ← encryptPayload aead coins.dek coins.nonce plaintext
  let wraps ← sealAll curves aead blake3 recipients coins.dek epoch coins.wraps
  let capsules ← recrypt.mapM (encapsulateTo kem coins.dek)
  return { epoch, nonce := coins.nonce, ciphertext, wraps, targets := recipients,
           recrypt := capsules }

/-- `seal`. -/
def Share.seal (plaintext : Bytes) (recipients : List WrapPublic) (epoch : UInt64)
    (coins : SealCoins curves) : Except ShareError Share :=
  Share.sealMixed curves aead blake3 plaintext recipients [] NopKem epoch coins

/-- `open_dek`. -/
def Share.openDek (s : Share) (opener : WrapSecret) : Except ShareError Key := do
  let expected ← opener.encapsulationPublic curves
  let wrap ← okOr .noMatchingWrap (s.wraps.find? fun wrap => wrap.recipient == expected)
  openWith curves aead blake3 opener wrap

/-- `open`; its loop over the wraps is that of `open_dek`. -/
def Share.open (s : Share) (secret : WrapSecret) : Except ShareError Bytes := do
  let dek ← s.openDek curves aead blake3 secret
  decryptPayload aead dek s.nonce s.ciphertext

/-- `open_recrypt`. -/
def Share.openRecrypt (s : Share) (backend : String) (recipient secret : Bytes) (kem : RecryptKem) :
    Except ShareError Bytes := do
  let capsule ← okOr .noMatchingWrap
    (s.recrypt.find? fun c => c.backend == backend && c.recipient == recipient)
  let dek ← kem.decapsulate backend secret capsule.ciphertext
  decryptPayload aead dek s.nonce s.ciphertext

/-! ### Rewrapping -/

/-- `add_recipient`. -/
def Share.addRecipient (s : Share) (opener : WrapSecret) (recipient : WrapPublic)
    (coins : WrapCoins curves) : Except ShareError Share := do
  ensure (recipient ∉ s.targets) .duplicateRecipient
  let enc ← recipient.encapsulation curves
  ensure (¬ ∃ wrap ∈ s.wraps, wrap.recipient = enc.recipient) .duplicateRecipient
  let dek ← s.openDek curves aead blake3 opener
  let wrap ← Wrap.seal curves aead blake3 recipient dek s.epoch coins
  return { s with wraps := s.wraps ++ [wrap], targets := s.targets ++ [recipient] }

/-- `rotate`. -/
def Share.rotate (s : Share) (opener : WrapSecret) (recipients : List WrapPublic) (epoch : UInt64)
    (coins : WrapPublic → WrapCoins curves) : Except ShareError Share := do
  ensure (s.recrypt = []) .mode
  ensure (recipients ≠ []) .emptyRecipients
  rejectDuplicateDirect curves recipients
  let dek ← s.openDek curves aead blake3 opener
  let wraps ← sealAll curves aead blake3 recipients dek epoch coins
  return { epoch, nonce := s.nonce, ciphertext := s.ciphertext, wraps, targets := recipients,
           recrypt := [] }

/-- `transform_recrypt`. -/
def Share.transformRecrypt (s : Share) (backend : String) (source : Bytes) (target : RecryptPublic)
    (transformKey : Bytes) (kem : RecryptKem) : Except ShareError Share := do
  ensure (target.backend = backend) .recrypt
  ensure (¬ ∃ c ∈ s.recrypt, c.backend = backend ∧ c.recipient = target.key) .duplicateRecipient
  let index ← okOr .noMatchingWrap
    (s.recrypt.findIdx? fun c => c.backend == backend && c.recipient == source)
  let capsule ← okOr .noMatchingWrap s.recrypt[index]?
  let nextCt ← kem.transform backend transformKey capsule.ciphertext
  ensure (nextCt ≠ []) .recrypt
  return { s with
    recrypt := s.recrypt.set index { backend, recipient := target.key, ciphertext := nextCt } }

/-! ### Targets and capsules in CBOR -/

/-- The map of `target_cbor`. -/
def targetMap (target : WrapPublic) : Map host :=
  (Map.new.insert (.text "alg") (.text target.tag)).insert (.text "key")
    (.byteString target.keyBytes)

/-- `target_cbor`; the `Result` of the source is always `Ok`. -/
def targetCbor (target : WrapPublic) : Bytes := (targetMap host target).toCBOR.toCborData host

/-- The map of `capsule_cbor`. -/
def capsuleMap (capsule : RecryptCapsule) : Map host :=
  (((Map.new.insert (.text "alg") (.text CAPSULE_ALG)).insert (.text "backend")
    (.text capsule.backend)).insert (.text "recipient") (.byteString capsule.recipient)).insert
    (.text "ciphertext") (.byteString capsule.ciphertext)

/-- `capsule_cbor`; the `Result` of the source is always `Ok`. -/
def capsuleCbor (capsule : RecryptCapsule) : Bytes :=
  (capsuleMap host capsule).toCBOR.toCborData host

/-- `parse_target`, from the entries of the map on. -/
def readTarget (entries : List (CBOR × CBOR)) : Except ShareError WrapPublic := do
  ensure (entries.length = 2) .payload
  let alg ← okOr .payload (getAs host entries "alg" CBOR.toText)
  let key ← okOr .payload (getAs host entries "key" CBOR.toByteString)
  if alg = "x25519" then WrapPublic.x25519 (← okOr .payload (toArray 32 key))
  else if alg = "ed25519" then WrapPublic.ed25519 curves (← okOr .payload (toArray 32 key))
  else if alg = "p256" then WrapPublic.p256 curves (← okOr .payload (toArray 33 key))
  else throw .payload

/-- `parse_target`. -/
def parseTarget : CBOR → Except ShareError WrapPublic
  | .map entries => readTarget curves host entries
  | _ => .error .payload

/-- `parse_capsule`, from the entries of the map on. -/
def readCapsule (entries : List (CBOR × CBOR)) : Except ShareError RecryptCapsule := do
  ensure (entries.length = 4) .recrypt
  let alg ← okOr .recrypt (getAs host entries "alg" CBOR.toText)
  ensure (alg = CAPSULE_ALG) .recrypt
  let backend ← okOr .recrypt (getAs host entries "backend" CBOR.toText)
  let recipient ← okOr .recrypt (getAs host entries "recipient" CBOR.toByteString)
  let ciphertext ← okOr .recrypt (getAs host entries "ciphertext" CBOR.toByteString)
  ensure (¬ (backend = "" ∨ recipient = [] ∨ ciphertext = [])) .recrypt
  return { backend, recipient, ciphertext }

/-- `parse_capsule`. -/
def parseCapsule : CBOR → Except ShareError RecryptCapsule
  | .map entries => readCapsule host entries
  | _ => .error .recrypt

/-! ### Identity and authority -/

/-- What `content_id` hashes. -/
def Share.contentMaterial (s : Share) : Bytes :=
  CONTENT_DOMAIN ++ s.nonce.val ++ beBytes 8 (UInt64.ofNat s.ciphertext.length).toNat ++
    s.ciphertext

/-- `content_id`. -/
def Share.contentId (s : Share) : Digest32 := blake3 s.contentMaterial

/-- The encoded targets and capsules. -/
def Share.parts (s : Share) : List Bytes :=
  s.targets.map (targetCbor host) ++ s.recrypt.map (capsuleCbor host)

/-- A part as it is hashed, behind its length. -/
def framed (part : Bytes) : Bytes := beBytes 8 (UInt64.ofNat part.length).toNat ++ part

/-- What `access_commitment` hashes. -/
def Share.accessMaterial (s : Share) : Bytes :=
  let parts := sortOn id (s.parts host)
  ACCESS_DOMAIN ++ beBytes 8 (UInt64.ofNat parts.length).toNat ++ parts.flatMap framed

/-- `access_commitment`; the `Result` of the source is always `Ok`. -/
def Share.accessCommitment (s : Share) : Digest32 := blake3 (s.accessMaterial host)

/-- `has_direct`. -/
def Share.hasDirect (s : Share) : Bool := !s.targets.isEmpty

/-- `has_recrypt`. -/
def Share.hasRecrypt (s : Share) : Bool := !s.recrypt.isEmpty

/-! ### The wire form -/

/-- `CBOR::try_from_data` of a part that is written into the share. -/
def embed (bytes : Bytes) : Except ShareError CBOR := (decodeCbor host bytes).mapError .cbor

/-- The map of the payload. -/
def Share.payloadMap (s : Share) : Map host :=
  ((Map.new.insert (.text "alg") (.text PAYLOAD_ALG)).insert (.text "nonce")
    (.byteString s.nonce.val)).insert (.text "ciphertext") (.byteString s.ciphertext)

/-- `to_map`. -/
def Share.toMap (s : Share) : Except ShareError (Map host) := do
  let wraps ← s.wraps.mapM fun wrap => embed host (wrap.toCbor host)
  let targets ← s.targets.mapM fun target => embed host (targetCbor host target)
  let recrypt ← s.recrypt.mapM fun capsule => embed host (capsuleCbor host capsule)
  return (((((Map.new.insert (.text "v") (.unsigned 1)).insert (.text "epoch")
    (.unsigned s.epoch)).insert (.text "payload") (s.payloadMap host).toCBOR).insert
    (.text "wraps") (.array wraps)).insert (.text "targets") (.array targets)).insert
    (.text "recrypt") (.array recrypt)

/-- `to_cbor`. -/
def Share.toCbor (s : Share) : Except ShareError Bytes := do
  let map ← s.toMap host
  return map.toCBOR.toCborData host

/-- `map_cbor`. -/
def mapCbor (entries : List (CBOR × CBOR)) (key : String) : Except ShareError CBOR :=
  okOr .payload ((entries.find? fun e => e.1.toText == some key).map Prod.snd)

/-- `try_into_map`. -/
def tryIntoMap : CBOR → Except ShareError (List (CBOR × CBOR))
  | .map entries => .ok entries
  | _ => .error .payload

/-- `try_into_array`. -/
def tryIntoArray : CBOR → Except ShareError (List CBOR)
  | .array items => .ok items
  | _ => .error .payload

/-- One turn of the loop over wraps and targets. -/
def readRecipient (epoch : UInt64) (values : CBOR × CBOR) :
    Except ShareError (Wrap × WrapPublic) := do
  let wrap ← parseWrap curves host (values.1.toCborData host)
  let target ← parseTarget curves host values.2
  let enc ← target.encapsulation curves
  ensure (wrap.alg = enc.alg ∧ wrap.recipient = enc.recipient ∧ wrap.epoch = epoch) .payload
  return (wrap, target)

/-- The payload of `from_cbor`: nonce and ciphertext. -/
def readPayload (entries : List (CBOR × CBOR)) : Except ShareError (ByteArrayOf 24 × Bytes) := do
  ensure (entries.length = 3) .payload
  let alg ← okOr .payload (getAs host entries "alg" CBOR.toText)
  ensure (alg = PAYLOAD_ALG) .payload
  let nonceBytes ← okOr .payload (getAs host entries "nonce" CBOR.toByteString)
  let ciphertext ← okOr .payload (getAs host entries "ciphertext" CBOR.toByteString)
  let nonce ← okOr .payload (toArray 24 nonceBytes)
  return (nonce, ciphertext)

/-- `from_cbor`, from the entries of the map on. -/
def readShare (entries : List (CBOR × CBOR)) : Except ShareError Share := do
  ensure (entries.length = 6) .payload
  let version ← okOr .payload (getAs host entries "v" CBOR.toU64)
  ensure (version = 1) .payload
  let epoch ← okOr .payload (getAs host entries "epoch" CBOR.toU64)
  let payload ← tryIntoMap (← mapCbor entries "payload")
  let (nonce, ciphertext) ← readPayload host payload
  let wrapValues ← tryIntoArray (← mapCbor entries "wraps")
  let targetValues ← tryIntoArray (← mapCbor entries "targets")
  let recryptValues ← tryIntoArray (← mapCbor entries "recrypt")
  ensure (wrapValues.length = targetValues.length) .payload
  let recipients ← (wrapValues.zip targetValues).mapM (readRecipient curves host epoch)
  let recrypt ← recryptValues.mapM (parseCapsule host)
  ensure (¬ (recipients = [] ∧ recrypt = [])) .emptyRecipients
  return { epoch, nonce, ciphertext, wraps := recipients.map Prod.fst,
           targets := recipients.map Prod.snd, recrypt }

/-- `from_cbor`. -/
def Share.fromCbor (bytes : Bytes) : Except ShareError Share :=
  parseMap host bytes .payload (readShare curves host)

end Identikey.Share
