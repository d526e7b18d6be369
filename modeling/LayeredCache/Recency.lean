/-
This file holds the recency order: keys without duplicates, ordered from the most to the least
recently used one, where every operation touches only a few nodes.

The nodes live in slots. A node knows the slots of its two neighbours, an index knows the slot of
every key, and slots whose node was given up wait in a free list for the next new key. The view of
all this is `toList`, the keys from the front to the back.
-/

import LayeredCache.Table

namespace LayeredCache

/-- A linked key. `before` is the slot of the neighbour towards the most recently used key. -/
structure RecencyNode (K : Type) where
  key : K
  before : Option Nat := none
  after : Option Nat := none
  deriving DecidableEq, Inhabited

/-- Keys in order of use, as a linked list whose nodes live in slots. -/
structure RecencyOrder (K : Type) where
  /-- The slot of every tracked key. -/
  index : Table K Nat := {}
  slots : Array (Option (RecencyNode K)) := #[]
  /-- The vacant slots, the latest first. -/
  free : List Nat := []
  /-- The slot of the most recently used key. -/
  front : Option Nat := none
  /-- The slot of the least recently used key. -/
  back : Option Nat := none
  deriving DecidableEq, Inhabited

namespace RecencyOrder

variable {K : Type}

/-! ### Slots and links -/

/-- The node in the slot. -/
def node? (list : RecencyOrder K) (slot : Nat) : Option (RecencyNode K) :=
  (list.slots[slot]?).join

/-- Changes the node in the slot; a vacant slot stays vacant. -/
def modifyNode (list : RecencyOrder K) (slot : Nat) (change : RecencyNode K → RecencyNode K) :
    RecencyOrder K :=
  { list with slots := list.slots.modify slot (Option.map change) }

/-- Puts the node into a vacant slot, or into a new one if no slot is vacant. -/
def allocate (list : RecencyOrder K) (node : RecencyNode K) : Nat × RecencyOrder K :=
  match list.free with
  | slot :: free => (slot, { list with slots := list.slots.setIfInBounds slot (some node), free })
  | [] => (list.slots.size, { list with slots := list.slots.push (some node) })

/-- Links the neighbours of the node in the slot with each other, and the node with nothing. -/
def detach (list : RecencyOrder K) (slot : Nat) : RecencyOrder K :=
  match list.node? slot with
  | none => list
  | some node =>
    let list := match node.before with
      | some before => list.modifyNode before ({ · with after := node.after })
      | none => { list with front := node.after }
    let list := match node.after with
      | some after => list.modifyNode after ({ · with before := node.before })
      | none => { list with back := node.before }
    list.modifyNode slot ({ · with before := none, after := none })

/-- Links the node in the slot in front of all others. -/
def attachFront (list : RecencyOrder K) (slot : Nat) : RecencyOrder K :=
  let front := list.front
  let list := list.modifyNode slot ({ · with before := none, after := front })
  let list := match front with
    | some old => list.modifyNode old ({ · with before := some slot })
    | none => { list with back := some slot }
  { list with front := some slot }

/-- Links the node in the slot behind all others. -/
def attachBack (list : RecencyOrder K) (slot : Nat) : RecencyOrder K :=
  let back := list.back
  let list := list.modifyNode slot ({ · with before := back, after := none })
  let list := match back with
    | some old => list.modifyNode old ({ · with after := some slot })
    | none => { list with front := some slot }
  { list with back := some slot }

/-- Links the node in the slot in front of all others, wherever it was. -/
def moveToFront (list : RecencyOrder K) (slot : Nat) : RecencyOrder K :=
  if list.front = some slot then list else (list.detach slot).attachFront slot

/-- Takes the node out of the slot and leaves the slot vacant. -/
def vacate (list : RecencyOrder K) (slot : Nat) : Option K × RecencyOrder K :=
  let list := list.detach slot
  match list.node? slot with
  | none => (none, list)
  | some node =>
    (some node.key,
      { list with slots := list.slots.setIfInBounds slot none, free := slot :: list.free })

/-! ### Operations on keys -/

variable [DecidableEq K]

/-- The list without keys and slots. -/
def empty : RecencyOrder K := {}

/-- The number of tracked keys. -/
def length (list : RecencyOrder K) : Nat := list.index.size

/-- No key is tracked. -/
def isEmpty (list : RecencyOrder K) : Bool := list.length == 0

/-- Makes the key the most recently used one. The answer tells whether it is new. -/
def use (list : RecencyOrder K) (key : K) : Bool × RecencyOrder K :=
  match list.index.find? key with
  | some slot => (false, list.moveToFront slot)
  | none =>
    let (slot, list) := list.allocate { key }
    let list := list.attachFront slot
    (true, { list with index := list.index.insert key slot })

/-- Makes the key the most recently used one if it is tracked. The answer tells whether it is. -/
def touch (list : RecencyOrder K) (key : K) : Bool × RecencyOrder K :=
  match list.index.find? key with
  | some slot => (true, list.moveToFront slot)
  | none => (false, list)

/-- Makes the key the least recently used one if it is not tracked. The answer tells whether it
is new. -/
def pushBack (list : RecencyOrder K) (key : K) : Bool × RecencyOrder K :=
  match list.index.find? key with
  | some _ => (false, list)
  | none =>
    let (slot, list) := list.allocate { key }
    let list := list.attachBack slot
    (true, { list with index := list.index.insert key slot })

/-- Gives up the least recently used key and returns it. -/
def popBack (list : RecencyOrder K) : Option K × RecencyOrder K :=
  match list.back with
  | none => (none, list)
  | some slot =>
    match list.vacate slot with
    | (none, list) => (none, list)
    | (some key, list) => (some key, { list with index := list.index.erase key })

/-- Gives up the key. The answer tells whether it was tracked. -/
def erase (list : RecencyOrder K) (key : K) : Bool × RecencyOrder K :=
  match list.index.find? key with
  | none => (false, list)
  | some slot => (true, ({ list with index := list.index.erase key }.vacate slot).2)

/-- Gives up every key and every slot. -/
def clear (_list : RecencyOrder K) : RecencyOrder K := empty

/-! ### The view -/

/-- The keys that the links lead to from a slot towards the back, at most `steps` of them. -/
def keysFrom (list : RecencyOrder K) : Nat → Option Nat → List K
  | 0, _ => []
  | _, none => []
  | steps + 1, some slot =>
    match list.node? slot with
    | none => []
    | some node => node.key :: list.keysFrom steps node.after

/-- The keys that the links lead to from a slot towards the front, at most `steps` of them. -/
def keysBefore (list : RecencyOrder K) : Nat → Option Nat → List K
  | 0, _ => []
  | _, none => []
  | steps + 1, some slot =>
    match list.node? slot with
    | none => []
    | some node => node.key :: list.keysBefore steps node.before

/-- The tracked keys from the most to the least recently used one. No list is longer than the
number of slots, so that many steps reach the end. -/
def toList (list : RecencyOrder K) : List K := list.keysFrom list.slots.size list.front

end RecencyOrder

end LayeredCache
