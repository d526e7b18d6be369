/-
This file holds the plain configuration of a stack with at most one recency layer below at most
one soft layer, and its JSON form.

A configuration is an object of four members, or an array of their values in the order of the
fields. A member or a trailing value may be missing and has its default then; other members are
ignored. A member that is given twice, a value of the wrong type and a null name or lock are
refused.
-/

import LayeredCache.Json.Text
import LayeredCache.Json.Tree
import LayeredCache.Stack.Blueprint

namespace LayeredCache

/-- The settings of a stack. -/
structure StackConfig where
  id : String := ""
  lruCapacity : Option Nat := none
  hardLinks : Option Nat := none
  readWriteLock : Bool := false
  deriving DecidableEq, Inhabited

/-- The blueprint with the layers that a configuration asks for, the recency layer below the soft
one. -/
def Blueprint.ofConfig (config : StackConfig) : Blueprint :=
  let bare := (Blueprint.named config.id).lock config.readWriteLock
  let bounded := config.lruCapacity.elim bare bare.lru
  config.hardLinks.elim bounded bounded.soft

namespace StackConfig

/-! ### Reading -/

/-- The settings that were found so far. -/
structure Draft where
  id : Option String := none
  lruCapacity : Option (Option Nat) := none
  hardLinks : Option (Option Nat) := none
  readWriteLock : Option Bool := none

/-- The settings, with the defaults for those that were not found. -/
def Draft.finish (draft : Draft) : StackConfig :=
  { id := draft.id.getD ""
    lruCapacity := draft.lruCapacity.getD none
    hardLinks := draft.hardLinks.getD none
    readWriteLock := draft.readWriteLock.getD false }

/-- The value read from the tree, unless there is one already. -/
def once {α : Type} (found : Option α) (read : Json.Tree → Option α) (tree : Json.Tree) :
    Option (Option α) :=
  if found.isSome then none else (read tree).map some

/-- A whole number that may be null. -/
def readSize : Json.Tree → Option (Option Nat) := Json.Tree.orNull? Json.Tree.word?

/-- Takes the setting with the name from the tree. Other names change nothing. -/
def Draft.take (draft : Draft) (name : String) (tree : Json.Tree) : Option Draft :=
  if name = "id" then
    (once draft.id Json.Tree.text? tree).map fun id => { draft with id }
  else if name = "lru_capacity" then
    (once draft.lruCapacity readSize tree).map fun lruCapacity => { draft with lruCapacity }
  else if name = "hard_links" then
    (once draft.hardLinks readSize tree).map fun hardLinks => { draft with hardLinks }
  else if name = "read_write_lock" then
    (once draft.readWriteLock Json.Tree.boolean? tree).map fun readWriteLock =>
      { draft with readWriteLock }
  else some draft

/-- The names of the settings in the order of the fields. -/
def names : List String := ["id", "lru_capacity", "hard_links", "read_write_lock"]

/-- Takes the members of an object one after the other. -/
def Draft.takeMembers (draft : Draft) : List (List Char × Json.Tree) → Option Draft
  | [] => some draft
  | (written, tree) :: rest => do
    let name ← Json.decodeString written
    (← draft.take (String.ofList name) tree).takeMembers rest

/-- Takes the items of an array for the names in their order. -/
def Draft.takeItems (draft : Draft) : List String → List Json.Tree → Option Draft
  | _, [] => some draft
  | [], _ :: _ => none
  | name :: names, tree :: rest => do (← draft.take name tree).takeItems names rest

/-- The configuration that a tree stands for. -/
def ofTree? : Json.Tree → Option StackConfig
  | .object members => (Draft.takeMembers {} members).map Draft.finish
  | .array items => (Draft.takeItems {} names items).map Draft.finish
  | _ => none

/-- Reads a configuration from its JSON form. -/
def read? (text : String) : Option StackConfig := Json.Tree.read? text >>= ofTree?

/-! ### Writing -/

/-- A whole number that may be null, as JSON. -/
def sizeJson (size : Option Nat) : String := size.elim "null" toString

/-- The JSON form with all members in the order of the fields. -/
def json (config : StackConfig) : String :=
  Json.object
    [("id", Json.string config.id), ("lru_capacity", sizeJson config.lruCapacity),
     ("hard_links", sizeJson config.hardLinks),
     ("read_write_lock", Json.boolean config.readWriteLock)]

/-- A whole number that may be missing. -/
def describeSize (size : Option Nat) : String :=
  size.elim "None" fun size => Text.applied "Some" (toString size)

/-- The configuration as a record. -/
def describe (config : StackConfig) : String :=
  Text.record "CacheConfig"
    [("id", Text.quote config.id), ("lru_capacity", describeSize config.lruCapacity),
     ("hard_links", describeSize config.hardLinks),
     ("read_write_lock", Text.truth config.readWriteLock)]

end StackConfig

end LayeredCache
