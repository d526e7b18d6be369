/-
This file tells what can be seen of the layers of a session from outside, without changing any of
them: what each layer stores or tracks, and its counters.
-/

import LayeredCache.Session.Stack

namespace LayeredCache.Session

/-! ### Contents -/

/-- What can be seen of a layer. -/
inductive LayerView where
  /-- The number of items of a store and those of the mentioned keys that it contains. -/
  | store (length : Nat) (keys : List Key)
  | lru (order : List Key) (capacity : Nat)
  | soft (pinned : List Value) (window registered : Nat)
  | probe
  deriving DecidableEq, Inhabited

/-- What can be seen of the layers, the innermost one first. -/
def viewLayers (memory : Memory Key Value) (mentioned : List Key) :
    {content : Content} → (shape : Shape content) → shape.State Key Value → List LayerView
  | _, .store, store => [.store store.table.size (mentioned.filter store.contains)]
  | _, .lru delegate, layer =>
    viewLayers memory mentioned delegate layer.delegate ++
      [.lru layer.order.toList layer.capacity]
  | _, .probe delegate, layer => viewLayers memory mentioned delegate layer.delegate ++ [.probe]
  | _, .soft delegate, layer =>
    viewLayers memory mentioned delegate layer.delegate ++
      [.soft (layer.ring.map (·.value)) layer.window
        (SoftLayer.registered delegate.cache { layer, memory })]

/-- What can be seen of the layers of a session. -/
def StackSession.view (session : StackSession) : List LayerView :=
  viewLayers session.machine.memory session.mentioned session.shape session.machine.layer

/-! ### Counters -/

/-- The counters of the layers, the innermost one first. -/
def snapshots : {content : Content} → (shape : Shape content) → shape.State Key Value →
    List (Option Snapshot)
  | _, .store, _ => [none]
  | _, .lru delegate, layer =>
    snapshots delegate layer.delegate ++ [some (.lru layer.snapshot)]
  | _, .probe delegate, layer => snapshots delegate layer.delegate ++ [none]
  | _, .soft delegate, layer =>
    snapshots delegate layer.delegate ++ [some (.soft layer.snapshot)]

/-- The counters of the layers of a session. -/
def StackSession.counters (session : StackSession) : List (Option Snapshot) :=
  snapshots session.shape session.machine.layer

end LayeredCache.Session
