/-
Node attestations on the wire (`attestation.rs`): a device identity key signs a
transport node identifier.
-/
import Identikey.Auth.Challenge

namespace Identikey.Auth

/-- Purpose tag of a node attestation. -/
def PURPOSE_NODE : String := "node-attestation"

/-- The domain-separated payload of a node attestation: `[CONTEXT, PURPOSE_NODE, node_id]`. -/
def nodeSigningPayload (nodeId : Bytes) : Bytes :=
  (Value.array [.text CONTEXT, .text PURPOSE_NODE, .bytes nodeId]).toBytes

/-- A signed link from a device identity key to a transport node. -/
structure NodeAttestation where
  nodeId : Bytes
  publicKey : ClassicalPublicKey
  signature : ClassicalSignature
  pq : Option (PqPublicKey × PqSignature)
deriving DecidableEq, Repr

namespace NodeAttestation

def toValue (a : NodeAttestation) : Value :=
  .map (signedEntries "node" a.nodeId a.publicKey a.signature a.pq)

def toBytes (a : NodeAttestation) : Bytes := a.toValue.toBytes

def fromValue (v : Value) : Except AuthError NodeAttestation := do
  let (nodeId, publicKey, signature, pq) ← readSigned "node" v
  return { nodeId, publicKey, signature, pq }

def fromBytes (data : Bytes) : Except AuthError NodeAttestation := do
  let v ← Value.fromBytes data
  fromValue v

end NodeAttestation

end Identikey.Auth
