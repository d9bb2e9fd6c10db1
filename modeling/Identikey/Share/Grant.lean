/-
The signed statement that a share's current access set is authorized (`grant.rs`).
-/
import Identikey.Dcbor.Value

namespace Identikey.Share

open Auth Dcbor

/-- The prefix of every grant message, `identikey-share-v1-grant` and a newline. -/
def GRANT_DOMAIN : Bytes := utf8 "identikey-share-v1-grant\n"

/-- Which access set the signer claims to authorize. -/
inductive AccessMode where
  | direct
  | recrypt
  | either
deriving DecidableEq, Repr

def AccessMode.tag : AccessMode → String
  | .direct => "direct"
  | .recrypt => "recrypt"
  | .either => "either"

/-- ML-DSA parameter set. -/
inductive PqAlg where
  | mlDsa44
  | mlDsa65
  | mlDsa87
deriving DecidableEq, Repr

def PqAlg.tag : PqAlg → String
  | .mlDsa44 => "ml-dsa-44"
  | .mlDsa65 => "ml-dsa-65"
  | .mlDsa87 => "ml-dsa-87"

/-- A grant bound to one share content id and one access commitment. -/
structure AccessGrant where
  content : Digest32
  commitment : Digest32
  epoch : UInt64
  mode : AccessMode
  signer : Digest32
  pqAlg : Option PqAlg
  pqPk : Option Bytes
  ed25519Sig : { b : Bytes // b.length = 64 }
  mlDsaSig : Option Bytes
deriving DecidableEq, Repr

namespace AccessGrant

variable (host : Host)

/-- `signed_map`; the `Result` of the source is always `Ok`. -/
def signedMap (g : AccessGrant) : Map host :=
  let map := (((((Map.new.insert (.text "v") (.unsigned 1)).insert (.text "content")
    (.byteString g.content.val)).insert (.text "commitment") (.byteString g.commitment.val)).insert
    (.text "epoch") (.unsigned g.epoch)).insert (.text "mode") (.text g.mode.tag)).insert
    (.text "signer") (.byteString g.signer.val)
  match g.pqAlg, g.pqPk with
  | some alg, some pk =>
    (map.insert (.text "pq-alg") (.text alg.tag)).insert (.text "pq-pk") (.byteString pk)
  | _, _ => map

/-- `message`: what the grant's signatures cover. -/
def message (g : AccessGrant) : Bytes :=
  GRANT_DOMAIN ++ (g.signedMap host).toCBOR.toCborData host

end AccessGrant

/-- A grant to run the model with. -/
def sampleGrant : AccessGrant :=
  { content := fill 32 0, commitment := fill 32 1, epoch := 3, mode := .direct,
    signer := fill 32 2, pqAlg := some .mlDsa65, pqPk := some [1, 2, 3],
    ed25519Sig := fill 64 0, mlDsaSig := none }

end Identikey.Share
