/-
This file holds the requests that a caller makes of a stack and the answers to them.

A request goes to the stack or a layer of it, to the memory manager's side of its soft layer, or to
what the caller holds under names. A request that its addressee does not understand has an answer
too. Requests can be made in a batch, which ends with the first request that fails.
-/

import LayeredCache.Counters
import LayeredCache.Key
import LayeredCache.Layer.Probe
import LayeredCache.Session.Supply

namespace LayeredCache.Session

/-- The values that are cached. -/
inductive Value where
  | null
  | text (value : String)
  | number (value : Int)
  deriving DecidableEq, Inhabited

/-! ### Requests -/

/-- A request that every cache understands. A name to hold keeps the item that was put or
found. -/
inductive CacheRequest where
  | put (key : Key) (supply : Supply Value) (hold : Option String)
  /-- Puts a reference that the caller holds. -/
  | putReference (key : Key) (name : String) (hold : Option String)
  | get (key : Key) (hold : Option String)
  | remove (key : Key) (hold : Option String)
  | clear
  | length
  | isEmpty
  | id
  | hasLock

/-- A request that depends on what kind of layer it goes to. -/
inductive LayerRequest where
  | cache (request : CacheRequest)
  | contains (key : Key)
  | describe
  | capacity
  | setCapacity (capacity : Nat)
  | trackedLength
  | ringLength
  | setWindow (window : Nat)
  | snapshot
  | resetCounters
  | addFault (fault : Fault)

/-- Where a request goes. -/
inductive Target where
  /-- The layer at a position; the store has position zero. -/
  | layer (position : Nat)
  | outermost
  /-- The stack as one cache, which does not show its layers. -/
  | whole
  deriving DecidableEq, Inhabited

/-- A request of a caller. -/
inductive Request where
  | cache (target : Target) (request : LayerRequest)
  | hasReclaimer
  | reclaim (limit : Nat)
  | reclaimAll
  | forceReclaim (key : Key)
  | registered
  | describeReclaimer
  /-- Lets go of what the name stands for. -/
  | release (name : String)
  /-- Asks whether two names stand for the same pointer or for copies of one reference. -/
  | same (first second : String)
  /-- Looks at a reference that is held. -/
  | reference (name : String)

/-- The key that is a single integer. -/
def integerKey (number : Int) : Key := .ofPart (.int (Int64.ofInt number))

/-- The key that a request to a cache works on. -/
def CacheRequest.key? : CacheRequest → Option Key
  | .put key _ _ | .putReference key _ _ | .get key _ | .remove key _ => some key
  | _ => none

/-- The key that a request works on. To ask a store whether it contains a key is no work on it. -/
def Request.key? : Request → Option Key
  | .cache _ (.cache request) => request.key?
  | .forceReclaim key => some key
  | _ => none

/-- Requests that are made one after the other and answered together. -/
inductive Batch where
  | single (request : Request)
  /-- Puts a new text under each integer key from the first to just before the last one. The text
  is the stem followed by the key. -/
  | putRange (target : Target) (first last : Int) (stem : String)
  /-- Looks up each integer key from the first to just before the last one. -/
  | getRange (target : Target) (first last : Int)

/-- The requests of a batch in their order. -/
def Batch.requests : Batch → List Request
  | .single request => [request]
  | .putRange target first last stem =>
    (integers first last).map fun number =>
      .cache target
        (.cache (.put (integerKey number) (.fresh (.text (stem ++ toString number))) none))
  | .getRange target first last =>
    (integers first last).map fun number =>
      .cache target (.cache (.get (integerKey number) none))

/-! ### Answers -/

/-- What can be seen of a reference. -/
structure ReferenceView where
  key : Key
  value : Option Value
  reclaimed : Bool
  text : String
  deriving DecidableEq, Inhabited

/-- What can be seen of a reference at the moment. -/
def ReferenceView.of (memory : Memory Key Value) (reference : SoftReference Key Value) :
    ReferenceView :=
  { key := reference.key
    value := (memory.resolve reference).map (·.value)
    reclaimed := !memory.isLive reference
    text := memory.describe Key.json reference }

/-- The counters of a layer. -/
inductive Snapshot where
  | lru (snapshot : LruSnapshot)
  | soft (snapshot : SoftSnapshot)
  deriving DecidableEq, Inhabited

/-- The answer to a request. -/
inductive Answer where
  | done
  | flag (value : Bool)
  | count (value : Nat)
  | text (value : String)
  | value (found : Option Value)
  | reference (found : Option ReferenceView)
  | snapshot (found : Option Snapshot)
  /-- The setting that was asked for is refused. -/
  | refused (cause : ConfigError)
  /-- The operation failed. -/
  | failed (error : CacheError)
  /-- The stack has no soft layer. -/
  | noReclaimer
  /-- Nothing in the stack or in the caller's hands fits the request. -/
  | unknown
  deriving DecidableEq, Inhabited

namespace Answer

/-- The operation failed. -/
def isFailure : Answer → Bool
  | .failed _ => true
  | _ => false

/-- A lookup has found an item. -/
def isFound : Answer → Bool
  | .value (some _) | .reference (some _) => true
  | _ => false

end Answer

/-- The answer to a batch, from the answers to those of its requests that were made. A failure is
the last of them and stands for the whole batch. -/
def Batch.answer (batch : Batch) (answers : List Answer) : Answer :=
  match batch, answers.getLast? with
  | _, some (.failed error) => .failed error
  | .single _, last => last.getD .unknown
  | .putRange .., _ => .done
  | .getRange .., _ => .count (answers.countP Answer.isFound)

end LayeredCache.Session
