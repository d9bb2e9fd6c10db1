/-
The secret store in memory (`identikey-secret`, `store.rs`).

The records of a store are in the order of their ids, and no two have the same id; the
type carries that.
-/
import Identikey.Secret.Record

namespace Identikey.Secret

open Lib Lib.Fallible Auth Dcbor Gordian

/-- The id of a record, by which a store is ordered. -/
def SealedSecret.key (secret : SealedSecret) : Bytes := utf8 secret.id.raw

/-- `MemorySecretStore`. -/
structure MemorySecretStore where
  records : List SealedSecret
  ordered : Keyed SealedSecret.key records

namespace MemorySecretStore

/-- `MemorySecretStore::new`. -/
def new : MemorySecretStore := { records := [], ordered := List.Pairwise.nil }

/-- `get`. -/
def get (store : MemorySecretStore) (id : SecretId) : Option SealedSecret :=
  store.records.find? fun secret => secret.id = id

/-- `insert_sealed`. -/
def insertSealed (store : MemorySecretStore) (secret : SealedSecret) :
    Except SecretError MemorySecretStore := do
  ensure (store.get secret.id = none) .duplicate
  return { records := insertKeyed SealedSecret.key secret store.records,
           ordered := store.ordered.insertKeyed secret }

/-- `insert`, with the random bytes that are drawn. -/
def insert (store : MemorySecretStore) (idBytes : IdBytes) (salt : Digest32) (label : String)
    (value : Bytes) (createdAt : UInt64) : Except SecretError (MemorySecretStore × SecretId) := do
  let secret ← SealedSecret.generate idBytes salt label value createdAt
  let store ← store.insertSealed secret
  return (store, secret.id)

/-- `remove`. -/
def remove (store : MemorySecretStore) (id : SecretId) : MemorySecretStore × Bool :=
  ({ records := store.records.filter fun secret => secret.id ≠ id,
     ordered := store.ordered.filter _ }, store.records.any fun secret => secret.id = id)

end MemorySecretStore

end Identikey.Secret
