/-
This file holds blueprints: what a stack is to be made of, and the check and the construction that
turn a blueprint into a stack.

The check goes over the name first and then over the layers in the order in which they were added,
innermost first; of each layer a zero setting is looked at before a second soft layer. It finds the
position of the soft layer. The construction splits the layers there, puts those below around an
empty store of references, then the soft layer, then those above; without a soft layer it puts all
of them around an empty store of values. It expects recency layers on either side of the split and
passes over any other, so it relies on the check.
-/

import LayeredCache.Stack

namespace LayeredCache

/-- A layer of a blueprint. -/
inductive Policy where
  | lru (capacity : Nat)
  | soft (window : Nat)
  deriving DecidableEq, Inhabited

namespace Policy

/-- The layer is a soft one. -/
def isSoft : Policy → Bool
  | .soft _ => true
  | .lru _ => false

/-- The layer as one to be put on a stack. -/
def layer : Policy → Layer
  | .lru capacity => .lru capacity
  | .soft window => .soft window

/-- The layer as a record. -/
def describe : Policy → String
  | .lru capacity => Text.record "Lru" [("capacity", toString capacity)]
  | .soft window => Text.record "Soft" [("hard_links", toString window)]

end Policy

/-- What a stack is to be made of. -/
structure Blueprint where
  id : String
  /-- The layers around the store, the innermost one first. -/
  layers : List Policy := []
  /-- The store has a lock for callers. -/
  hasLock : Bool := false
  deriving DecidableEq, Inhabited

namespace Blueprint

/-- The blueprint of a bare store. -/
def named (id : String) : Blueprint := { id }

/-- The blueprint with a recency layer around the rest. -/
def lru (blueprint : Blueprint) (capacity : Nat) : Blueprint :=
  { blueprint with layers := blueprint.layers ++ [.lru capacity] }

/-- The blueprint with a soft layer around the rest. -/
def soft (blueprint : Blueprint) (window : Nat) : Blueprint :=
  { blueprint with layers := blueprint.layers ++ [.soft window] }

/-- The blueprint with or without a lock. -/
def lock (blueprint : Blueprint) (enabled : Bool) : Blueprint :=
  { blueprint with hasLock := enabled }

/-! ### The check -/

/-- Checks layers in order. The first one has the given index, and `softAt` is the index of an
earlier soft layer. The answer is the index of the soft layer, if there is one. -/
def checkLayers : Nat → Option Nat → List Policy → Except ConfigError (Option Nat)
  | _, softAt, [] => return softAt
  | index, softAt, .lru capacity :: rest => do
    checkCapacity capacity
    checkLayers (index + 1) softAt rest
  | index, softAt, .soft window :: rest => do
    checkWindow window
    if softAt.isSome then throw .secondSoftLayer
    checkLayers (index + 1) (some index) rest

/-- Checks the name and then the layers, and finds the soft one. -/
def check (blueprint : Blueprint) : Except ConfigError (Option Nat) := do
  checkId blueprint.id
  checkLayers 0 none blueprint.layers

/-! ### The construction -/

variable {K V : Type} {content : Content}

/-- Puts the recency layers among the layers on a stack, in order. -/
def wrap (stack : Stack K V content) : List Policy → Except ConfigError (Stack K V content)
  | [] => return stack
  | .lru capacity :: rest => do wrap (← stack.withLru capacity) rest
  | .soft _ :: rest => wrap stack rest

/-- Builds the stack, or tells why there is no such stack. -/
def build (blueprint : Blueprint) : Except ConfigError (Stack K V .value) := do
  match ← blueprint.check with
  | some index =>
    let (below, above) := blueprint.layers.splitAt index
    match above with
    | .soft window :: above => do
      let store ← Stack.ofStore blueprint.id blueprint.hasLock
      let inner ← wrap store below
      wrap (← inner.withSoft window) above
    | _ => throw .noSoftLayer
  | none => wrap (← Stack.ofStore blueprint.id blueprint.hasLock) blueprint.layers

/-- What a successful construction reports. -/
def builtEvent (blueprint : Blueprint) : Event := .built blueprint.id blueprint.layers.length

/-- The blueprint as a record. -/
def describe (blueprint : Blueprint) : String :=
  Text.record "CacheBuilder"
    [("id", Text.quote blueprint.id),
     ("layers", Text.listing (blueprint.layers.map Policy.describe)),
     ("read_write_lock", Text.truth blueprint.hasLock)]

/-- The wording of the failure of a construction that had to succeed. -/
def failureMessage (cause : ConfigError) : String :=
  "invalid cache configuration: " ++ cause.message

end Blueprint

namespace Stack

variable {K V : Type} [DecidableEq K]

/-- The stack as a record: its name and whether its values can be reclaimed. -/
def describe {content : Content} (stack : Stack K V content) : String :=
  Text.record "CacheStack"
    [("id", Text.quote (stack.shape.cache.id stack.state)),
     ("reclaimable", Text.truth stack.shape.hasSoft)]

end Stack

end LayeredCache
