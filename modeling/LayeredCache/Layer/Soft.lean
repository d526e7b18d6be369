/-
This file holds the soft layer: it stores every value behind a soft reference, so that a memory
manager can reclaim it, and keeps the most recently read values alive in a ring.

Every put registers a new reference. When a value is reclaimed, its key waits in the queue until
the next put, remove, clear or count drains the notifications: an entry whose reference has lost
its value is then removed from the delegate, and an entry that was put anew since is left alone. A
lookup that meets a reclaimed value removes the entry at once, without waiting for a drain. The
ring holds values, not keys, and may hold a value several times.
-/

import LayeredCache.Cache
import LayeredCache.Counters
import LayeredCache.ReferenceQueue

namespace LayeredCache

/-- A layer whose values can be reclaimed. -/
structure SoftLayer (K V σ : Type) where
  /-- The values that were read last, latest first. -/
  ring : List (Shared V) := []
  /-- The number of values that the ring holds at most after a lookup. -/
  window : Nat
  queue : ReferenceQueue K V := .empty
  counters : SoftCounters := {}
  delegate : σ
  deriving DecidableEq, Inhabited

namespace SoftLayer

variable {K V σ : Type}

/-- The window of a layer that is given none. -/
def defaultWindow : Nat := 256

/-- A layer without values. Its window must not be zero. -/
def create (window : Nat) (delegate : σ) : Except ConfigError (SoftLayer K V σ) := do
  checkWindow window
  return { window, delegate }

/-- Runs an action of the delegate. -/
def below {α : Type} (action : Action K V σ α) : Action K V (SoftLayer K V σ) α :=
  Action.within (·.delegate) (fun layer delegate => { layer with delegate }) action

/-- Counts something that happened. -/
def count (step : SoftCounters → SoftCounters) : Action K V (SoftLayer K V σ) Unit :=
  Action.modifyLayer fun layer => { layer with counters := step layer.counters }

/-- The name of the cache. -/
def name (delegate : Cache K V σ (SoftReference K V)) : Action K V (SoftLayer K V σ) String := do
  return delegate.id (← Action.layer).delegate

/-- The counters with the number of values in the ring and the window. -/
def snapshot (layer : SoftLayer K V σ) : SoftSnapshot :=
  ⟨layer.counters, layer.ring.length, layer.window⟩

/-- What the layer and its delegate keep alive. -/
def handles (delegate : Cache K V σ (SoftReference K V)) (layer : SoftLayer K V σ) :
    Handles K V :=
  delegate.handles layer.delegate ++ ⟨[], layer.ring⟩

/-- Runs a change of the queue and the memory that depends on what is alive at the moment. -/
def withQueue {α : Type} (delegate : Cache K V σ (SoftReference K V))
    (change : ReferenceQueue K V → Memory K V → Handles K V →
      α × ReferenceQueue K V × Memory K V) :
    Action K V (SoftLayer K V σ) α :=
  modifyGet fun machine =>
    let alive := machine.memory.handles ++ handles delegate machine.layer
    let (answer, queue, memory) := change machine.layer.queue machine.memory alive
    (answer, { machine with layer := { machine.layer with queue }, memory })

/-! ### Notifications -/

/-- Works through the notifications and counts the entries it removes. A notification is used up
before the delegate is asked about its key. -/
def removeReclaimed (delegate : Cache K V σ (SoftReference K V)) :
    List K → Nat → Action K V (SoftLayer K V σ) Nat
  | [], removed => return removed
  | key :: rest, removed => do
    Action.modifyLayer fun layer => { layer with queue := { layer.queue with pending := rest } }
    match ← below (delegate.get key) with
    | none => removeReclaimed delegate rest removed
    | some reference =>
      if (← Action.memory).isLive reference then removeReclaimed delegate rest removed
      else
        let _ ← below (delegate.remove key)
        removeReclaimed delegate rest (removed + 1)

/-- Works through all notifications that wait. The removed entries are reported and counted when
all of them are done. -/
def drain (delegate : Cache K V σ (SoftReference K V)) : Action K V (SoftLayer K V σ) Unit := do
  let removed ← removeReclaimed delegate (← Action.layer).queue.pending 0
  if 0 < removed then
    Action.report (.purged (← name delegate) removed)
    count (·.countPurged (UInt64.ofNat removed))

/-! ### The ring -/

/-- Puts a value that was read in front of the ring and cuts the ring to the window. -/
def pin (delegate : Cache K V σ (SoftReference K V)) (value : Shared V) :
    Action K V (SoftLayer K V σ) Unit := do
  let layer ← Action.layer
  let ring := value :: layer.ring
  Action.modifyLayer ({ · with ring := ring.take layer.window })
  let trimmed := ring.length - layer.window
  if 1 < trimmed then
    Action.report (.windowShrank (← name delegate) trimmed layer.window)
  count SoftCounters.countPin

/-! ### The cache -/

/-- Drains the notifications and stores a new reference to the value. -/
def put (delegate : Cache K V σ (SoftReference K V)) (key : K) (value : Shared V) :
    Action K V (SoftLayer K V σ) Unit := do
  drain delegate
  let reference ← withQueue delegate fun queue memory alive =>
    queue.register memory alive key value
  below (delegate.put key reference)

/-- Looks the key up and resolves its reference. A value that is found is pinned; an entry whose
value was reclaimed is removed. -/
def get (delegate : Cache K V σ (SoftReference K V)) (key : K) :
    Action K V (SoftLayer K V σ) (Option (Shared V)) := do
  match ← below (delegate.get key) with
  | none =>
    count SoftCounters.countMiss
    return none
  | some reference =>
    match (← Action.memory).resolve reference with
    | some value =>
      pin delegate value
      count SoftCounters.countHit
      return some value
    | none =>
      Action.report (.foundReclaimed (← name delegate))
      let _ ← below (delegate.remove key)
      count fun counters => counters.countMiss.countReclaimedMiss
      return none

/-- Drains the notifications, removes the key and resolves the reference it had. -/
def remove (delegate : Cache K V σ (SoftReference K V)) (key : K) :
    Action K V (SoftLayer K V σ) (Option (Shared V)) := do
  drain delegate
  match ← below (delegate.remove key) with
  | none => return none
  | some reference => return (← Action.memory).resolve reference

/-- Empties the ring, drains the notifications and clears the delegate. -/
def clear (delegate : Cache K V σ (SoftReference K V)) : Action K V (SoftLayer K V σ) Unit := do
  Action.modifyLayer ({ · with ring := [] })
  drain delegate
  below delegate.clear

/-- Drains the notifications and counts the entries of the delegate. -/
def length (delegate : Cache K V σ (SoftReference K V)) : Action K V (SoftLayer K V σ) Nat := do
  drain delegate
  below delegate.length

/-- The cache of values that a soft layer makes of its delegate. -/
def cache (delegate : Cache K V σ (SoftReference K V)) :
    Cache K V (SoftLayer K V σ) (Shared V) where
  id layer := delegate.id layer.delegate
  hasLock layer := delegate.hasLock layer.delegate
  handles := handles delegate
  put := put delegate
  get := get delegate
  remove := remove delegate
  clear := clear delegate
  length := length delegate

/-! ### The memory manager's side -/

/-- Reclaims at most `limit` values that only their references keep alive, and reports the sweep.
The answer is the number of reclaimed values. -/
def reclaim (delegate : Cache K V σ (SoftReference K V)) (limit : Nat) :
    Action K V (SoftLayer K V σ) Nat := do
  let reclaimed ← withQueue delegate (·.reclaim · · limit)
  Action.report (.swept reclaimed (← Action.layer).queue.registry.length)
  return reclaimed

/-- Reclaims every value that only its reference keeps alive. -/
def reclaimAll (delegate : Cache K V σ (SoftReference K V)) :
    Action K V (SoftLayer K V σ) Nat := do
  reclaim delegate (← Action.layer).queue.registry.length

/-- Reclaims the value of the latest reference with the key, whatever keeps it alive. -/
def forceReclaim [DecidableEq K] (delegate : Cache K V σ (SoftReference K V)) (key : K) :
    Action K V (SoftLayer K V σ) Bool :=
  withQueue delegate (·.forceReclaim · · key)

/-- The number of registered references that are held and not reclaimed. -/
def registered (delegate : Cache K V σ (SoftReference K V))
    (machine : Machine K V (SoftLayer K V σ)) : Nat :=
  machine.layer.queue.registered machine.memory
    (machine.memory.handles ++ handles delegate machine.layer)

/-! ### Settings -/

/-- Changes the window that later lookups cut the ring to, unless it is zero. -/
def setWindow (delegate : Cache K V σ (SoftReference K V)) (window : Nat) :
    Action K V (SoftLayer K V σ) (Except ConfigError Unit) := do
  match checkWindow window with
  | .error cause => return .error cause
  | .ok () =>
    let layer ← Action.layer
    Action.modifyLayer ({ · with window })
    Action.report (.windowChanged (delegate.id layer.delegate) layer.window window)
    return .ok ()

/-- Sets all counters to zero. -/
def resetCounters : Action K V (SoftLayer K V σ) Unit := count fun _ => {}

/-- The layer as a record. -/
def describe (delegate : Cache K V σ (SoftReference K V)) (layer : SoftLayer K V σ) : String :=
  Text.openRecord "SoftCache"
    [("id", Text.quote (delegate.id layer.delegate)),
     ("hard_links", toString layer.ring.length),
     ("hard_link_limit", toString layer.window),
     ("pending_reclaims", toString layer.queue.pending.length)]

end SoftLayer

end LayeredCache
