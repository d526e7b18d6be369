/-
This file holds the recency layer: it bounds its delegate to a number of keys and removes the
least recently used key when one too many was put.

The layer keeps keys only, the items stay with the delegate. A put that overflows the capacity
pops one victim from the recency order and removes it from the delegate. If that removal fails, the
victim goes back to the end of the list and is counted as overdue, and the put fails. Later puts
pop overdue victims until the list fits the capacity again or nothing is overdue. A lowered
capacity takes effect only through these checks.
-/

import LayeredCache.Cache
import LayeredCache.Counters
import LayeredCache.Recency

namespace LayeredCache

/-- A bound on the number of keys in the delegate. -/
structure LruLayer (K σ : Type) where
  /-- The tracked keys in order of use. -/
  order : RecencyOrder K := {}
  capacity : Nat
  /-- The number of victims whose removal failed and is still owed. -/
  overdue : Nat := 0
  counters : LruCounters := {}
  delegate : σ
  deriving DecidableEq, Inhabited

namespace LruLayer

variable {K V σ X : Type}

/-- The capacity of a layer that is given none. -/
def defaultCapacity : Nat := 1024

/-- A layer that tracks nothing yet. Its capacity must not be zero. -/
def create (capacity : Nat) (delegate : σ) : Except ConfigError (LruLayer K σ) := do
  checkCapacity capacity
  return { capacity, delegate }

/-- Runs an action of the delegate. -/
def below {α : Type} (action : Action K V σ α) : Action K V (LruLayer K σ) α :=
  Action.within (·.delegate) (fun layer delegate => { layer with delegate }) action

/-- Counts something that happened. -/
def count (step : LruCounters → LruCounters) : Action K V (LruLayer K σ) Unit :=
  Action.modifyLayer fun layer => { layer with counters := step layer.counters }

variable [DecidableEq K]

/-- The counters with the number of tracked keys and the capacity. -/
def snapshot (layer : LruLayer K σ) : LruSnapshot :=
  ⟨layer.counters, layer.order.length, layer.capacity⟩

/-! ### Victims -/

/-- Makes the key the most recently used one. If that overflows the capacity, the least recently
used key is no longer tracked and is returned as the victim. -/
def track (key : K) (layer : LruLayer K σ) : Option K × LruLayer K σ :=
  let order := (layer.order.use key).2
  if order.length > layer.capacity then
    let (victim, order) := order.popBack
    (victim, { layer with order })
  else (none, { layer with order })

/-- A victim that an earlier failed removal still owes, as long as more keys are tracked than the
capacity allows. If no more are, nothing is owed any longer. -/
def takeOverdue (layer : LruLayer K σ) : Option K × LruLayer K σ :=
  if layer.overdue = 0 then (none, layer)
  else if layer.order.length ≤ layer.capacity then (none, { layer with overdue := 0 })
  else
    match layer.order.popBack with
    | (none, order) => (none, { layer with order })
    | (some victim, order) => (some victim, { layer with order, overdue := layer.overdue - 1 })

/-- Tracks the victim again as the least recently used key and counts it as overdue. -/
def restore (victim : K) (layer : LruLayer K σ) : LruLayer K σ :=
  { layer with order := (layer.order.pushBack victim).2, overdue := layer.overdue + 1 }

/-- Removes a popped victim from the delegate. If that fails, the victim is restored and the
error passed on. -/
def evict (delegate : Cache K V σ X) (victim : K) : Action K V (LruLayer K σ) Unit := do
  count LruCounters.countEviction
  Action.report (.evicting (delegate.id (← Action.layer).delegate))
  try
    let _ ← below (delegate.remove victim)
  catch error =>
    Action.modifyLayer (restore victim)
    throw error

/-- Evicts overdue victims, in at most the given number of rounds, until none is owed. -/
def settle (delegate : Cache K V σ X) : Nat → Action K V (LruLayer K σ) Unit
  | 0 => pure ()
  | rounds + 1 => do
    match ← Action.updateLayer takeOverdue with
    | none => pure ()
    | some victim =>
      evict delegate victim
      settle delegate rounds

/-! ### The cache -/

/-- Puts the item into the delegate and then restores the bound. Every successful round of
settling lowers the number of overdue victims by one, so as many rounds as there are suffice. -/
def put (delegate : Cache K V σ X) (key : K) (item : X) : Action K V (LruLayer K σ) Unit := do
  below (delegate.put key item)
  count LruCounters.countPut
  match ← Action.updateLayer (track key) with
  | none => pure ()
  | some victim => evict delegate victim
  settle delegate (← Action.layer).overdue

/-- Looks the key up in the delegate. A tracked key counts as used, whatever the delegate says. -/
def get (delegate : Cache K V σ X) (key : K) : Action K V (LruLayer K σ) (Option X) := do
  let touched ← Action.updateLayer fun layer =>
    let (touched, order) := layer.order.touch key
    (touched, { layer with order })
  count (·.countGet touched)
  below (delegate.get key)

/-- Removes the key from the delegate and, if that succeeds, from the recency order. -/
def remove (delegate : Cache K V σ X) (key : K) : Action K V (LruLayer K σ) (Option X) := do
  let removed ← below (delegate.remove key)
  Action.modifyLayer fun layer => { layer with order := (layer.order.erase key).2 }
  count LruCounters.countRemove
  return removed

/-- Clears the delegate and, if that succeeds, the recency order and the overdue victims. -/
def clear (delegate : Cache K V σ X) : Action K V (LruLayer K σ) Unit := do
  below delegate.clear
  Action.modifyLayer fun layer => { layer with order := layer.order.clear, overdue := 0 }
  count LruCounters.countClear

/-- The cache that a recency layer makes of its delegate. -/
def cache (delegate : Cache K V σ X) : Cache K V (LruLayer K σ) X where
  id layer := delegate.id layer.delegate
  hasLock layer := delegate.hasLock layer.delegate
  handles layer := delegate.handles layer.delegate
  put := put delegate
  get := get delegate
  remove := remove delegate
  clear := clear delegate
  length := below delegate.length

/-! ### Settings -/

/-- Changes the capacity that later checks go by, unless it is zero. Nothing is evicted now. -/
def setCapacity (delegate : Cache K V σ X) (capacity : Nat) :
    Action K V (LruLayer K σ) (Except ConfigError Unit) := do
  match checkCapacity capacity with
  | .error cause => return .error cause
  | .ok () =>
    let layer ← Action.layer
    Action.modifyLayer ({ · with capacity })
    Action.report (.capacityChanged (delegate.id layer.delegate) layer.capacity capacity)
    return .ok ()

/-- Sets all counters to zero. -/
def resetCounters : Action K V (LruLayer K σ) Unit := count fun _ => {}

/-- The layer as a record. -/
def describe (delegate : Cache K V σ X) (layer : LruLayer K σ) : String :=
  Text.openRecord "LruCache"
    [("id", Text.quote (delegate.id layer.delegate)), ("tracked", toString layer.order.length),
     ("capacity", toString layer.capacity)]

end LruLayer

end LayeredCache
