/-
This file runs requests against a stack, the way a caller with names for the things it keeps does.

On a layer that stores references, values are wrapped into references that are registered nowhere,
so the stack's own sweeps do not reach them. The report on a request holds its answer and what the
layers did meanwhile.
-/

import LayeredCache.Session.Request
import LayeredCache.Stack.Blueprint

namespace LayeredCache.Session

/-! ### Items -/

variable {σ : Type}

/-- The item under which a layer stores the pointer: the pointer itself, or a new reference that
is registered nowhere. -/
def wrap (key : Key) (value : Shared Value) :
    (content : Content) → Action Key Value σ (content.Item Key Value)
  | .value => return value
  | .reference => Action.updateMemory (·.refer key value)

/-- The caller holds the item, if a name is given. -/
def hold (name : Option String) :
    (content : Content) → content.Item Key Value → Action Key Value σ Unit
  | .value, value =>
    Action.updateMemory fun memory =>
      ((), name.elim memory fun name => memory.holdValue name value)
  | .reference, reference =>
    Action.updateMemory fun memory =>
      ((), name.elim memory fun name => memory.holdReference name reference)

/-- The answer that shows a found item. -/
def shown (memory : Memory Key Value) :
    (content : Content) → Option (content.Item Key Value) → Answer
  | .value, found => .value (found.map (·.value))
  | .reference, found => .reference (found.map (ReferenceView.of memory))

/-- Holds a found item, if a name is given, and shows it. -/
def holdFound (name : Option String) (content : Content)
    (found : Option (content.Item Key Value)) : Action Key Value σ Answer := do
  if let some item := found then
    hold name content item
  return shown (← Action.memory) content found

/-! ### Requests that every cache understands -/

/-- Puts the supplied value. It is held before it is put, so that the name stands for it even if
the put fails. -/
def putSupplied {content : Content} (cache : Cache Key Value σ (content.Item Key Value))
    (key : Key) (supply : Supply Value) (name : Option String) : Action Key Value σ Answer := do
  match ← Action.updateMemory supply.take with
  | none => return .unknown
  | some value =>
    let item ← wrap key value content
    hold name content item
    cache.put key item
    return .done

/-- Puts a reference that the caller holds, which only layers that store references take. -/
def putHeldReference (key : Key) (name : String) (copy : Option String) :
    {content : Content} → Cache Key Value σ (content.Item Key Value) → Action Key Value σ Answer
  | .value, _ => return .unknown
  | .reference, cache => do
    match (← Action.memory).references.find? name with
    | none => return .unknown
    | some reference =>
      hold copy .reference reference
      cache.put key reference
      return .done

/-- Answers a request that every cache understands. -/
def cacheRequest {content : Content} (cache : Cache Key Value σ (content.Item Key Value)) :
    CacheRequest → Action Key Value σ Answer
  | .put key supply name => putSupplied cache key supply name
  | .putReference key name copy => putHeldReference key name copy cache
  | .get key name => do holdFound name content (← cache.get key)
  | .remove key name => do holdFound name content (← cache.remove key)
  | .clear => do
    cache.clear
    return .done
  | .length => do return .count (← cache.length)
  | .isEmpty => do return .flag (← cache.isEmpty)
  | .id => do return .text (cache.id (← Action.layer))
  | .hasLock => do return .flag (cache.hasLock (← Action.layer))

/-! ### Requests to a layer -/

/-- The answer to a change of a setting. -/
def settled : Except ConfigError Unit → Answer
  | .ok () => .done
  | .error cause => .refused cause

/-- The counters of the outermost layer of a part of the stack. -/
def snapshotOf : {content : Content} → (part : Shape content) → part.State Key Value →
    Option Snapshot
  | _, .lru _, layer => some (.lru layer.snapshot)
  | _, .soft _, layer => some (.soft layer.snapshot)
  | _, .store, _ => none
  | _, .probe _, _ => none

/-- Answers a request that only stores understand. -/
def storeRequest : LayerRequest → {content : Content} →
    Store Key (content.Item Key Value) → Answer
  | .contains key, _, store => .flag (store.contains key)
  | .describe, _, store => .text store.describe
  | _, _, _ => .unknown

/-- Answers a request that only recency layers understand. -/
def lruRequest {X : Type} (delegate : Cache Key Value σ X) :
    LayerRequest → Action Key Value (LruLayer Key σ) Answer
  | .describe => do return .text ((← Action.layer).describe delegate)
  | .capacity => do return .count (← Action.layer).capacity
  | .setCapacity capacity => settled <$> LruLayer.setCapacity delegate capacity
  | .trackedLength => do return .count (← Action.layer).order.length
  | .resetCounters => do
    LruLayer.resetCounters
    return .done
  | _ => return .unknown

/-- Answers a request that only soft layers understand. -/
def softRequest (delegate : Cache Key Value σ (SoftReference Key Value)) :
    LayerRequest → Action Key Value (SoftLayer Key Value σ) Answer
  | .describe => do return .text ((← Action.layer).describe delegate)
  | .ringLength => do return .count (← Action.layer).ring.length
  | .setWindow window => settled <$> SoftLayer.setWindow delegate window
  | .resetCounters => do
    SoftLayer.resetCounters
    return .done
  | _ => return .unknown

/-- Answers a request that only probes understand. -/
def probeRequest : LayerRequest → Action Key Value (ProbeLayer σ) Answer
  | .addFault fault => do
    ProbeLayer.addFault fault
    return .done
  | _ => return .unknown

/-- Answers a request that layers of one kind alone understand. -/
def ownRequest (request : LayerRequest) :
    {content : Content} → (part : Shape content) → Action Key Value (part.State Key Value) Answer
  | _, .store => do return storeRequest request (← Action.layer)
  | _, .lru delegate => lruRequest delegate.cache request
  | _, .probe _ => probeRequest request
  | _, .soft delegate => softRequest delegate.cache request

/-- Answers a request to the outermost layer of a part of the stack. -/
def layerRequest (request : LayerRequest) {content : Content} (part : Shape content) :
    Action Key Value (part.State Key Value) Answer :=
  match request with
  | .cache request => cacheRequest part.cache request
  | .snapshot => do return .snapshot (snapshotOf part (← Action.layer))
  | request => ownRequest request part

/-- Answers a request to the stack as one cache. It describes itself as a stack, and the counters
of its layers are not its own. -/
def wholeRequest (shape : Shape .value) :
    LayerRequest → Action Key Value (shape.State Key Value) Answer
  | .cache request => cacheRequest shape.cache request
  | .describe => do return .text (Stack.describe ⟨shape, ← Action.layer⟩)
  | .snapshot => return .snapshot none
  | _ => return .unknown

/-- Answers a request to the target. -/
def targetRequest (shape : Shape .value) (request : LayerRequest) :
    Target → Action Key Value (shape.State Key Value) Answer
  | .layer position => do
    return (← shape.visit position (layerRequest request)).getD .unknown
  | .outermost => layerRequest request shape
  | .whole => wholeRequest shape request

/-! ### Sessions -/

/-- Two names stand for the same pointer, or for copies of one reference. -/
def sameHeld (memory : Memory Key Value) (first second : String) : Answer :=
  match memory.values.find? first, memory.values.find? second with
  | some a, some b => .flag (a.address == b.address)
  | _, _ =>
    match memory.references.find? first, memory.references.find? second with
    | some a, some b => .flag (a.number == b.number)
    | _, _ => .unknown

/-- Lets go of what the name stands for. The answer tells whether it stood for anything. -/
def releaseHeld (name : String) (memory : Memory Key Value) : Answer × Memory Key Value :=
  (.flag (memory.values.contains name || memory.references.contains name),
    (memory.releaseValue name).releaseReference name)

/-- A stack in use. -/
structure StackSession where
  shape : Shape .value
  machine : Machine Key Value (shape.State Key Value)
  /-- The keys that requests have named, in the order of their first mention. -/
  mentioned : List Key := []

/-- What is reported about a request. -/
structure Report where
  answer : Answer
  /-- What the layers did, in that order. -/
  trace : List (Note Key)

namespace StackSession

/-- The session that starts with a stack. -/
def start (stack : Stack Key Value .value) : StackSession :=
  { shape := stack.shape, machine := stack.machine }

/-- The action that answers a request. -/
def action (shape : Shape .value) :
    Request → Action Key Value (shape.State Key Value) Answer
  | .cache target request => targetRequest shape request target
  | .hasReclaimer => return .flag shape.hasSoft
  | .reclaim limit => do return (← shape.reclaim limit).elim .noReclaimer .count
  | .reclaimAll => do return (← shape.reclaimAll).elim .noReclaimer .count
  | .forceReclaim key => do return (← shape.forceReclaim key).elim .noReclaimer .flag
  | .registered => do return (← shape.registered).elim .noReclaimer .count
  | .describeReclaimer =>
    return if shape.hasSoft then .text ReferenceQueue.reclaimerText else .noReclaimer
  | .release name => Action.updateMemory (releaseHeld name)
  | .same first second => do return sameHeld (← Action.memory) first second
  | .reference name => do
    let memory ← Action.memory
    return (memory.references.find? name).elim .unknown fun reference =>
      .reference (some (ReferenceView.of memory reference))

/-- The keys with the given one at their end, if there is one that is not yet among them. -/
def addMention (mentioned : List Key) : Option Key → List Key
  | none => mentioned
  | some key => if mentioned.contains key then mentioned else mentioned ++ [key]

/-- Answers a request. -/
def perform (session : StackSession) (request : Request) : Report × StackSession :=
  let mentioned := addMention session.mentioned request.key?
  let (result, machine) := (action session.shape request).run { session.machine with trace := [] }
  let answer := match result with
    | .ok answer => answer
    | .error error => .failed error
  (⟨answer, machine.trace.reverse⟩, { session with machine, mentioned })

/-- Answers requests in order, up to the first one that fails. -/
def performEach (session : StackSession) : List Request → List Report × StackSession
  | [] => ([], session)
  | request :: rest =>
    let (report, session) := session.perform request
    if report.answer.isFailure then ([report], session)
    else
      let (reports, session) := session.performEach rest
      (report :: reports, session)

/-- Answers a batch of requests. -/
def performBatch (session : StackSession) (batch : Batch) : Report × StackSession :=
  let (reports, session) := session.performEach batch.requests
  (⟨batch.answer (reports.map (·.answer)), reports.flatMap (·.trace)⟩, session)

end StackSession

end LayeredCache.Session
