/-
This file holds reference queues: the registry of the soft references a memory manager may
reclaim, and the notifications of those it did reclaim.

The registry lists references in the order of their registration and keeps none of them alive. A
reference of which no copy is left is dead: it is passed over, and dropped when the registry is
next gone through as a whole. A registration does so only when the registry has reached its
threshold, and the threshold is then at least twice what was kept, so that the cost per
registration stays small. A sweep does so always.
-/

import LayeredCache.Memory

namespace LayeredCache

/-- The registry of a group of soft references, and the keys of the reclaimed ones that nobody
has polled yet. -/
structure ReferenceQueue (K V : Type) where
  /-- The keys of reclaimed references, the first reclaimed one first. -/
  pending : List K := []
  /-- The registered references, the oldest first. -/
  registry : List (SoftReference K V) := []
  /-- A registration first prunes a registry that is at least this long. -/
  threshold : Nat := 64
  deriving DecidableEq, Inhabited

namespace ReferenceQueue

variable {K V : Type}

/-- The least threshold. -/
def minThreshold : Nat := 64

/-- The threshold after a prune or a sweep: twice what was kept, but not too low. -/
def thresholdFor (kept : Nat) : Nat := max minThreshold (2 * kept)

/-- The queue with no reference and no notification. -/
def empty : ReferenceQueue K V := { threshold := minThreshold }

/-- A copy of the reference exists and its value was not reclaimed. -/
def isCurrent (memory : Memory K V) (handles : Handles K V) (reference : SoftReference K V) :
    Bool :=
  handles.holds reference && memory.isLive reference

/-- The registry without its dead and its reclaimed references. -/
def prune (queue : ReferenceQueue K V) (memory : Memory K V) (handles : Handles K V) :
    ReferenceQueue K V :=
  let kept := queue.registry.filter (isCurrent memory handles)
  { queue with registry := kept, threshold := thresholdFor kept.length }

/-- Registers a new reference to the value. The reference is not yet among the handles. -/
def register (queue : ReferenceQueue K V) (memory : Memory K V) (handles : Handles K V) (key : K)
    (referent : Shared V) : SoftReference K V × ReferenceQueue K V × Memory K V :=
  let (reference, memory) := memory.refer key referent
  let queue :=
    if queue.registry.length ≥ queue.threshold then queue.prune memory handles else queue
  (reference, { queue with registry := queue.registry ++ [reference] }, memory)

/-- Takes the oldest notification. -/
def poll (queue : ReferenceQueue K V) : Option K × ReferenceQueue K V :=
  match queue.pending with
  | [] => (none, queue)
  | key :: rest => (some key, { queue with pending := rest })

/-- The number of registered references that are held and not reclaimed. -/
def registered (queue : ReferenceQueue K V) (memory : Memory K V) (handles : Handles K V) : Nat :=
  queue.registry.countP (isCurrent memory handles)

/-- The queue as a record. The length of the registry counts dead references too. -/
def describe (queue : ReferenceQueue K V) : String :=
  Text.record "ReferenceQueue"
    [("pending", toString queue.pending.length), ("registered", toString queue.registry.length)]

/-- The memory manager's side of a queue as a record, which shows nothing of it. -/
def reclaimerText : String := Text.openRecord "Reclaimer" []

/-! ### Reclaiming -/

/-- What a sweep over references has done. -/
structure Sweep (K V : Type) where
  /-- The references whose value the sweep reclaimed, in that order. -/
  reclaimed : List (SoftReference K V)
  /-- The references that stay registered. -/
  kept : List (SoftReference K V)
  /-- The memory after the sweep. -/
  memory : Memory K V

/-- Goes through the references in order and reclaims those that alone keep their value alive, at
most `limit` of them. Whether a reference does is looked up when the sweep reaches it, after the
earlier values were reclaimed. -/
def sweep (handles : Handles K V) :
    Nat → Memory K V → List (SoftReference K V) → Sweep K V
  | _, memory, [] => ⟨[], [], memory⟩
  | limit, memory, reference :: rest =>
    if !handles.holds reference then sweep handles limit memory rest
    else if 0 < limit && memory.isSoftlyReachable handles reference then
      let later := sweep handles (limit - 1) (memory.reclaim reference) rest
      { later with reclaimed := reference :: later.reclaimed }
    else if memory.isLive reference then
      let later := sweep handles limit memory rest
      { later with kept := reference :: later.kept }
    else sweep handles limit memory rest

/-- Reclaims at most `limit` values, the oldest registration first, and sends a notification for
each. The answer is the number of reclaimed values. -/
def reclaim (queue : ReferenceQueue K V) (memory : Memory K V) (handles : Handles K V)
    (limit : Nat) : Nat × ReferenceQueue K V × Memory K V :=
  let swept := sweep handles limit memory queue.registry
  (swept.reclaimed.length,
    { pending := queue.pending ++ swept.reclaimed.map (·.key)
      registry := swept.kept
      threshold := thresholdFor swept.kept.length },
    swept.memory)

/-- Reclaims every value that only its reference keeps alive. No sweep reclaims more values than
there are registered references. -/
def reclaimAll (queue : ReferenceQueue K V) (memory : Memory K V) (handles : Handles K V) :
    Nat × ReferenceQueue K V × Memory K V :=
  queue.reclaim memory handles queue.registry.length

/-- Reclaims the value of the latest held and live reference with the key, whatever else keeps
the value alive, and sends a notification. The answer tells whether there was such a reference.
The registry is left as it is. -/
def forceReclaim [DecidableEq K] (queue : ReferenceQueue K V) (memory : Memory K V)
    (handles : Handles K V) (key : K) : Bool × ReferenceQueue K V × Memory K V :=
  match queue.registry.reverse.find? fun reference =>
      reference.key = key && isCurrent memory handles reference with
  | none => (false, queue, memory)
  | some reference =>
    (true, { queue with pending := queue.pending ++ [reference.key] }, memory.reclaim reference)

end ReferenceQueue

end LayeredCache
