/-
This file holds the store at the bottom of every stack: a table of items with a name, and with a
lock for callers if they want one. Its operations never fail.
-/

import LayeredCache.Cache
import LayeredCache.Key.Fingerprint

namespace LayeredCache

/-- An unbounded cache with a name. -/
structure Store (K X : Type) where
  id : String
  /-- Callers may take a lock around several operations. -/
  hasLock : Bool := false
  table : Table K X := {}
  deriving DecidableEq, Inhabited

namespace Store

variable {K V X : Type}

/-- An empty store. Its name must not be empty. -/
def create (id : String) (hasLock : Bool) : Except ConfigError (Store K X) := do
  checkId id
  return { id, hasLock }

/-- Stores are told apart by their names alone. -/
def same {K' X' : Type} (a : Store K X) (b : Store K' X') : Bool := a.id == b.id

/-- The words by which a hash table tells stores apart: those of the name. -/
def words (store : Store K X) : List UInt64 := Key.Fingerprint.textWords store.id

/-- The store as a record. -/
def describe (store : Store K X) : String :=
  Text.record "PerpetualCache"
    [("id", Text.quote store.id), ("len", toString store.table.size),
     ("read_write_lock", Text.truth store.hasLock)]

variable [DecidableEq K]

/-- Some item is stored under the key. -/
def contains (store : Store K X) (key : K) : Bool := store.table.contains key

/-- The cache that a store is. `handles` tells what a stored item keeps alive. -/
def cache (handles : List X → Handles K V) : Cache K V (Store K X) X where
  id := (·.id)
  hasLock := (·.hasLock)
  handles store := handles store.table.items
  put key item :=
    Action.modifyLayer fun store => { store with table := store.table.insert key item }
  get key := do return (← Action.layer).table.find? key
  remove key :=
    Action.updateLayer fun store =>
      (store.table.find? key, { store with table := store.table.erase key })
  clear := Action.modifyLayer fun store => { store with table := Table.empty }
  length := do return (← Action.layer).table.size

end Store

end LayeredCache
