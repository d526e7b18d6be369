/-
This file holds stacks of layers. The shape of a stack says which layers stand on each other; the
states of the layers, the cache that the stack is, and what can be asked of a single layer all
follow from the shape by recursion.

Below a soft layer the items are soft references, everywhere else they are values. A soft layer
makes values of references, so the types admit at most one soft layer in a stack.
-/

import LayeredCache.Layer.Lru
import LayeredCache.Layer.Probe
import LayeredCache.Layer.Soft
import LayeredCache.Layer.Store

namespace LayeredCache

/-- What the items of a layer are. -/
inductive Content where
  | value
  | reference
  deriving DecidableEq, Inhabited

/-- The type of the items. -/
abbrev Content.Item (K V : Type) : Content → Type
  | .value => Shared V
  | .reference => SoftReference K V

/-- What items keep alive while they are stored. -/
def Content.handles {K V : Type} : (content : Content) → List (content.Item K V) → Handles K V
  | .value, values => ⟨[], values⟩
  | .reference, references => ⟨references, []⟩

/-- The layers of a stack, the outermost one first. -/
inductive Shape : Content → Type where
  | store {content : Content} : Shape content
  | lru {content : Content} (delegate : Shape content) : Shape content
  | probe {content : Content} (delegate : Shape content) : Shape content
  | soft (delegate : Shape .reference) : Shape .value
  deriving DecidableEq

namespace Shape

/-- The state of all layers of a stack. -/
@[reducible] def State (K V : Type) : {content : Content} → Shape content → Type
  | content, .store => Store K (content.Item K V)
  | _, .lru delegate => LruLayer K (delegate.State K V)
  | _, .probe delegate => ProbeLayer (delegate.State K V)
  | _, .soft delegate => SoftLayer K V (delegate.State K V)

/-- The position of the outermost layer. The store has position zero. -/
def position : {content : Content} → Shape content → Nat
  | _, .store => 0
  | _, .lru delegate | _, .probe delegate | _, .soft delegate => delegate.position + 1

/-- Some layer of the stack is soft. -/
def hasSoft : {content : Content} → Shape content → Bool
  | _, .store => false
  | _, .lru delegate | _, .probe delegate => delegate.hasSoft
  | _, .soft _ => true

variable {K V : Type} [DecidableEq K]

/-- The cache that a stack is. -/
def cache : {content : Content} → (shape : Shape content) →
    Cache K V (shape.State K V) (content.Item K V)
  | content, .store => Store.cache content.handles
  | _, .lru delegate => LruLayer.cache delegate.cache
  | _, .probe delegate => ProbeLayer.cache (delegate.position + 1) delegate.cache
  | _, .soft delegate => SoftLayer.cache delegate.cache

/-! ### Single layers -/

/-- Runs an action on the stack that ends in the layer at a position. The action is chosen for
the shape of that part of the stack. There is no result if no layer has the position. -/
def visit {α : Type} (target : Nat)
    (action : {content : Content} → (part : Shape content) → Action K V (part.State K V) α) :
    {content : Content} → (shape : Shape content) → Action K V (shape.State K V) (Option α)
  | _, .store =>
    if target = 0 then some <$> action .store else return none
  | _, .lru delegate =>
    if target = delegate.position + 1 then some <$> action (.lru delegate)
    else LruLayer.below (visit target action delegate)
  | _, .probe delegate =>
    if target = delegate.position + 1 then some <$> action (.probe delegate)
    else ProbeLayer.below (visit target action delegate)
  | _, .soft delegate =>
    if target = delegate.position + 1 then some <$> action (.soft delegate)
    else SoftLayer.below (visit target action delegate)

/-- Runs an action on the soft layer. There is no result if no layer is soft. -/
def visitSoft {α : Type}
    (action : (delegate : Shape .reference) →
      Action K V (SoftLayer K V (delegate.State K V)) α) :
    {content : Content} → (shape : Shape content) → Action K V (shape.State K V) (Option α)
  | _, .store => return none
  | _, .lru delegate => LruLayer.below (visitSoft action delegate)
  | _, .probe delegate => ProbeLayer.below (visitSoft action delegate)
  | _, .soft delegate => some <$> action delegate

/-- Reclaims at most `limit` values through the soft layer. -/
def reclaim {content : Content} (shape : Shape content) (limit : Nat) :
    Action K V (shape.State K V) (Option Nat) :=
  shape.visitSoft fun delegate => SoftLayer.reclaim delegate.cache limit

/-- Reclaims every value that only its reference keeps alive. -/
def reclaimAll {content : Content} (shape : Shape content) :
    Action K V (shape.State K V) (Option Nat) :=
  shape.visitSoft fun delegate => SoftLayer.reclaimAll delegate.cache

/-- Reclaims the value of the latest reference with the key. -/
def forceReclaim {content : Content} (shape : Shape content) (key : K) :
    Action K V (shape.State K V) (Option Bool) :=
  shape.visitSoft fun delegate => SoftLayer.forceReclaim delegate.cache key

/-- The number of registered references that are held and not reclaimed. -/
def registered {content : Content} (shape : Shape content) :
    Action K V (shape.State K V) (Option Nat) :=
  shape.visitSoft fun delegate => do
    return SoftLayer.registered delegate.cache (← Action.machine)

end Shape

/-! ### Assembling -/

/-- A layer to be put on a stack. -/
inductive Layer where
  | lru (capacity : Nat)
  | soft (window : Nat)
  | probe
  deriving DecidableEq, Inhabited

/-- A stack: its shape and the state of its layers. -/
structure Stack (K V : Type) (content : Content) where
  shape : Shape content
  state : shape.State K V

namespace Stack

variable {K V : Type} {content : Content}

/-- The stack that is an empty store. -/
def ofStore (id : String) (hasLock : Bool) : Except ConfigError (Stack K V content) := do
  return ⟨.store, ← Store.create id hasLock⟩

/-- The stack with a recency layer on top. -/
def withLru (stack : Stack K V content) (capacity : Nat) :
    Except ConfigError (Stack K V content) := do
  return ⟨.lru stack.shape, ← LruLayer.create capacity stack.state⟩

/-- The stack with a probe on top. -/
def withProbe (stack : Stack K V content) : Stack K V content :=
  ⟨.probe stack.shape, { delegate := stack.state }⟩

/-- The stack with a soft layer on top. -/
def withSoft (stack : Stack K V .reference) (window : Nat) :
    Except ConfigError (Stack K V .value) := do
  return ⟨.soft stack.shape, ← SoftLayer.create window stack.state⟩

/-- Assembles a stack of the given layers, the outermost one first, around an empty store. -/
def assemble (id : String) (hasLock : Bool) :
    List Layer → (content : Content) → Except ConfigError (Stack K V content)
  | [], _ => ofStore id hasLock
  | .lru capacity :: inner, content => do
    (← assemble id hasLock inner content).withLru capacity
  | .probe :: inner, content => do
    return (← assemble id hasLock inner content).withProbe
  | .soft window :: inner, .value => do
    (← assemble id hasLock inner .reference).withSoft window
  | .soft _ :: _, .reference => .error .secondSoftLayer

variable [DecidableEq K]

/-- The machine that runs the stack in a memory nobody has used. -/
def machine (stack : Stack K V content) : Machine K V (stack.shape.State K V) :=
  { layer := stack.state }

end Stack

end LayeredCache
