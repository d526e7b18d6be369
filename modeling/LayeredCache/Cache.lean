/-
This file says what a cache layer is: a set of operations on a machine that consists of the state
of the layer, the memory shared with callers, and the trace of what has happened.

An operation ends with a result or with an error, and in both cases with a machine: what was done
before the error stays done. A layer that stands on another one, its delegate, runs the delegate's
operations with `within`, which leaves everything but the delegate's state, the memory and the
trace alone.
-/

import LayeredCache.Error
import LayeredCache.Event
import LayeredCache.Memory

namespace LayeredCache

/-! ### The trace -/

/-- The operations of the contract that do work. -/
inductive Method where
  | put
  | get
  | remove
  | clear
  | length
  deriving DecidableEq, Inhabited

/-- An entry of the trace. -/
inductive Note (K : Type) where
  /-- The probe at a position of the stack received a call. `faulted` tells whether one of its
  faults applied to the call. -/
  | call (position : Nat) (method : Method) (key : Option K) (faulted : Bool)
  /-- The probe at a position of the stack raised an error of its own. -/
  | raised (position : Nat) (error : CacheError)
  /-- A layer reported an event. -/
  | event (event : Event)
  deriving DecidableEq, Inhabited

/-! ### Machines and actions -/

/-- The state of a layer together with the memory and the trace, latest entry first. -/
structure Machine (K V σ : Type) where
  layer : σ
  memory : Memory K V := {}
  trace : List (Note K) := []
  deriving DecidableEq, Inhabited

/-- An operation on a machine: it ends with a result or an error, and always with a machine. -/
abbrev Action (K V σ : Type) : Type → Type := ExceptT CacheError (StateM (Machine K V σ))

namespace Action

variable {K V σ τ α : Type}

/-- Reads the machine. -/
def machine : Action K V σ (Machine K V σ) := get

/-- Reads the state of the layer. -/
def layer : Action K V σ σ := do return (← machine).layer

/-- Reads the memory. -/
def memory : Action K V σ (Memory K V) := do return (← machine).memory

/-- Changes the state of the layer. -/
def modifyLayer (change : σ → σ) : Action K V σ Unit :=
  modify fun machine => { machine with layer := change machine.layer }

/-- Changes the state of the layer and returns what the change answers. -/
def updateLayer (change : σ → α × σ) : Action K V σ α :=
  modifyGet fun machine =>
    let (answer, layer) := change machine.layer
    (answer, { machine with layer })

/-- Changes the memory and returns what the change answers. -/
def updateMemory (change : Memory K V → α × Memory K V) : Action K V σ α :=
  modifyGet fun machine =>
    let (answer, memory) := change machine.memory
    (answer, { machine with memory })

/-- Appends to the trace. -/
def note (entry : Note K) : Action K V σ Unit :=
  modify fun machine => { machine with trace := entry :: machine.trace }

/-- Reports an event. -/
def report (event : Event) : Action K V σ Unit := note (.event event)

/-- Runs an action on a part of the state. The memory and the trace are shared with it. -/
def within (part : τ → σ) (replace : τ → σ → τ) (action : Action K V σ α) : Action K V τ α :=
  fun machine =>
    let (result, inner) := action ⟨part machine.layer, machine.memory, machine.trace⟩
    (result, ⟨replace machine.layer inner.layer, inner.memory, inner.trace⟩)

/-! ### How actions run -/

/-- The second action runs on the machine that the first one leaves, unless that one fails. -/
theorem run_bind {β : Type} (first : Action K V σ α) (next : α → Action K V σ β)
    (machine : Machine K V σ) :
    (first >>= next).run machine =
      match first.run machine with
      | (.ok value, later) => (next value).run later
      | (.error error, later) => (.error error, later) := by
  show ExceptT.bind first next machine = _
  unfold ExceptT.bind ExceptT.mk ExceptT.bindCont
  simp only [bind, StateT.bind, ExceptT.run]
  rcases first machine with ⟨result, later⟩
  cases result <;> rfl

/-- Changing the result of an action leaves its machine and its failure as they are. -/
theorem run_map {β : Type} (change : α → β) (action : Action K V σ α) (machine : Machine K V σ) :
    (change <$> action).run machine =
      match action.run machine with
      | (.ok value, later) => (.ok (change value), later)
      | (.error error, later) => (.error error, later) := by
  show ExceptT.map change action machine = _
  unfold ExceptT.map ExceptT.mk
  simp only [bind, StateT.bind, ExceptT.run]
  rcases action machine with ⟨result, later⟩
  cases result <;> rfl

/-- The handler runs on the machine that the failed action leaves: nothing is undone. -/
theorem run_tryCatch (action : Action K V σ α) (handler : CacheError → Action K V σ α)
    (machine : Machine K V σ) :
    (tryCatch action handler).run machine =
      match action.run machine with
      | (.ok value, later) => (.ok value, later)
      | (.error error, later) => (handler error).run later := by
  show ExceptT.tryCatch action handler machine = _
  unfold ExceptT.tryCatch ExceptT.mk
  simp only [bind, StateT.bind, ExceptT.run]
  rcases action machine with ⟨result, later⟩
  cases result <;> rfl

theorem run_layer (machine : Machine K V σ) :
    (layer : Action K V σ σ).run machine = (.ok machine.layer, machine) := rfl

theorem run_modifyLayer (change : σ → σ) (machine : Machine K V σ) :
    (modifyLayer change : Action K V σ Unit).run machine =
      (.ok (), { machine with layer := change machine.layer }) := rfl

theorem run_updateLayer (change : σ → α × σ) (machine : Machine K V σ) :
    (updateLayer change : Action K V σ α).run machine =
      (.ok (change machine.layer).1, { machine with layer := (change machine.layer).2 }) := rfl

theorem run_note (entry : Note K) (machine : Machine K V σ) :
    (note entry : Action K V σ Unit).run machine =
      (.ok (), { machine with trace := entry :: machine.trace }) := rfl

/-- An action on a part of the state leaves the rest of the state as it is. -/
theorem run_within (part : τ → σ) (replace : τ → σ → τ) (action : Action K V σ α)
    (machine : Machine K V τ) :
    (within part replace action).run machine =
      ((action.run ⟨part machine.layer, machine.memory, machine.trace⟩).1,
        ⟨replace machine.layer
            (action.run ⟨part machine.layer, machine.memory, machine.trace⟩).2.layer,
          (action.run ⟨part machine.layer, machine.memory, machine.trace⟩).2.memory,
          (action.run ⟨part machine.layer, machine.memory, machine.trace⟩).2.trace⟩) := rfl

end Action

/-! ### The contract -/

/-- A cache of items under keys whose state is a `σ`. -/
structure Cache (K V σ X : Type) where
  /-- The name of the cache. -/
  id : σ → String
  /-- The cache has a lock that callers may take around several operations. -/
  hasLock : σ → Bool
  /-- What the layer and those below it keep alive. -/
  handles : σ → Handles K V
  /-- Puts the item under the key, in place of any other. -/
  put : K → X → Action K V σ Unit
  /-- The item under the key. -/
  get : K → Action K V σ (Option X)
  /-- Removes the item under the key and returns it. -/
  remove : K → Action K V σ (Option X)
  /-- Removes all items. -/
  clear : Action K V σ Unit
  /-- The number of items. -/
  length : Action K V σ Nat

/-- The cache has no items. -/
def Cache.isEmpty {K V σ X : Type} (cache : Cache K V σ X) : Action K V σ Bool := do
  return (← cache.length) == 0

end LayeredCache
