/-
This file says what can happen to a stack and what a run of it leaves behind.

Callers call the outermost layer and keep or release pointers, a memory manager reclaims values,
settings of single layers change, and probes are told to fail. Each of these is a deed; performing
deeds one after the other gives the list of what was done with what came of it, and a machine.
Every reachable state of a stack is the machine after some list of deeds. `run_induction` carries an
invariant, which may speak about the past, from single deeds to whole runs.
-/

import Mathlib.Control.Monad.Basic
import LayeredCache.Proofs.Ending
import LayeredCache.Stack

namespace LayeredCache

/-! ### Calls -/

/-- A call that every cache understands. -/
inductive Call (K X : Type) where
  | put (key : K) (item : X)
  | get (key : K)
  | remove (key : K)
  | clear
  | length
  | isEmpty
  deriving DecidableEq, Inhabited

/-- What a call answers when it does not fail. -/
inductive Reply (X : Type) where
  | done
  | item (found : Option X)
  | count (number : Nat)
  | flag (value : Bool)
  deriving DecidableEq, Inhabited

/-- Makes a call. -/
def Cache.call {K V σ X : Type} (cache : Cache K V σ X) : Call K X → Action K V σ (Reply X)
  | .put key item => do
    cache.put key item
    return .done
  | .get key => do return .item (← cache.get key)
  | .remove key => do return .item (← cache.remove key)
  | .clear => do
    cache.clear
    return .done
  | .length => do return .count (← cache.length)
  | .isEmpty => do return .flag (← cache.isEmpty)

/-! ### Settings of single layers -/

namespace Shape

variable {K V : Type} [DecidableEq K]

/-- Changes the capacity of the recency layer at a position. There is no result if there is no
such layer. -/
def setCapacity (position capacity : Nat) (shape : Shape .value) :
    Action K V (shape.State K V) (Option (Except ConfigError Unit)) :=
  Option.join <$> shape.visit position fun {_} part =>
    match part with
    | .lru delegate => some <$> LruLayer.setCapacity delegate.cache capacity
    | .store | .probe _ | .soft _ => return none

/-- Changes the window of the soft layer. There is no result if no layer is soft. -/
def setWindow (window : Nat) (shape : Shape .value) :
    Action K V (shape.State K V) (Option (Except ConfigError Unit)) :=
  shape.visitSoft fun delegate => SoftLayer.setWindow delegate.cache window

/-- Adds a fault to the probe at a position, if there is one. -/
def addFault (position : Nat) (fault : Fault) (shape : Shape .value) :
    Action K V (shape.State K V) Unit := do
  let _ ← shape.visit position fun {_} part =>
    match part with
    | .probe _ => ProbeLayer.addFault fault
    | .store | .lru _ | .soft _ => return ()

end Shape

/-! ### Deeds -/

/-- Something that happens to a stack. -/
inductive Deed (K V : Type) where
  /-- A caller calls the outermost layer. -/
  | call (call : Call K (Shared V))
  | reclaim (limit : Nat)
  | reclaimAll
  | forceReclaim (key : K)
  | setCapacity (position capacity : Nat)
  | setWindow (window : Nat)
  /-- The probe at the position will fail calls. -/
  | addFault (position : Nat) (fault : Fault)
  /-- A caller keeps a pointer under a name. -/
  | hold (name : String) (value : Shared V)
  | release (name : String)
  deriving DecidableEq, Inhabited

/-- What comes of a deed that does not fail. Where a layer of some kind is asked for and there is
none, there is no result. -/
inductive Outcome (V : Type) where
  | reply (reply : Reply (Shared V))
  | reclaimed (number : Option Nat)
  | forced (answer : Option Bool)
  | settled (change : Option (Except ConfigError Unit))
  | done
  deriving DecidableEq, Inhabited

/-- A deed and what came of it. -/
structure Occurrence (K V : Type) where
  deed : Deed K V
  result : Except CacheError (Outcome V)

namespace Shape

variable {K V : Type} [DecidableEq K]

/-- Does a deed. -/
def perform (shape : Shape .value) : Deed K V → Action K V (shape.State K V) (Outcome V)
  | .call call => .reply <$> shape.cache.call call
  | .reclaim limit => .reclaimed <$> shape.reclaim limit
  | .reclaimAll => .reclaimed <$> shape.reclaimAll
  | .forceReclaim key => .forced <$> shape.forceReclaim key
  | .setCapacity position capacity => .settled <$> shape.setCapacity position capacity
  | .setWindow window => .settled <$> shape.setWindow window
  | .addFault position fault => do
    shape.addFault position fault
    return .done
  | .hold name value =>
    Action.updateMemory fun memory => (.done, memory.holdValue name value)
  | .release name =>
    Action.updateMemory fun memory => (.done, memory.releaseValue name)

/-- Does deeds one after the other, whether they fail or not. -/
def run (shape : Shape .value) :
    List (Deed K V) → Machine K V (shape.State K V) →
      List (Occurrence K V) × Machine K V (shape.State K V)
  | [], machine => ([], machine)
  | deed :: rest, machine =>
    let (result, later) := (shape.perform deed).run machine
    let (occurrences, final) := shape.run rest later
    (⟨deed, result⟩ :: occurrences, final)

variable {shape : Shape .value}

theorem run_cons (deed : Deed K V) (rest : List (Deed K V))
    (machine : Machine K V (shape.State K V)) :
    shape.run (deed :: rest) machine =
      (⟨deed, ((shape.perform deed).run machine).1⟩ ::
          (shape.run rest ((shape.perform deed).run machine).2).1,
        (shape.run rest ((shape.perform deed).run machine).2).2) := rfl

theorem run_concat (past : List (Deed K V)) (deed : Deed K V)
    (machine : Machine K V (shape.State K V)) :
    (shape.run (past ++ [deed]) machine).2 =
      ((shape.perform deed).run (shape.run past machine).2).2 := by
  induction past generalizing machine with
  | nil => rfl
  | cons first rest inductionHypothesis => exact inductionHypothesis _

/-- What the length of the cache ends with holds of the number that a count answers. -/
theorem of_counted {machine : Machine K V (shape.State K V)} {holds : Nat → Prop}
    (ends : shape.cache.length.Ends machine (fun number _ => holds number) fun _ _ => True)
    {number : Nat} (answered : ((shape.perform (.call .length)).run machine).1 =
      .ok (.reply (.count number))) : holds number := by
  have seen : (shape.perform (.call .length)).Ends machine
      (fun outcome _ => ∀ number, outcome = .reply (.count number) → holds number)
      fun _ _ => True := by
    simp only [perform, Cache.call, Action.ends_map, Action.ends_bind, Action.ends_pure]
    refine ends.imp (fun number _ next => ?_) fun _ _ _ => trivial
    rintro _ same
    obtain rfl := Reply.count.inj (Outcome.reply.inj same)
    exact next
  exact seen.of_answer answered number rfl

/-- What every allowed deed keeps, whatever comes of it, holds after every run of allowed deeds.
The past is what has occurred so far. -/
theorem run_induction (holds : List (Occurrence K V) → Machine K V (shape.State K V) → Prop)
    (allowed : Deed K V → Prop)
    (step : ∀ past machine deed, allowed deed → holds past machine →
      (shape.perform deed).Ends machine
        (fun outcome => holds (past ++ [⟨deed, .ok outcome⟩]))
        fun cause => holds (past ++ [⟨deed, .error cause⟩]))
    (deeds : List (Deed K V)) (all : ∀ deed ∈ deeds, allowed deed)
    (past : List (Occurrence K V)) (machine : Machine K V (shape.State K V))
    (start : holds past machine) :
    holds (past ++ (shape.run deeds machine).1) (shape.run deeds machine).2 := by
  induction deeds generalizing past machine with
  | nil => simpa [run] using start
  | cons deed rest inductionHypothesis =>
    have others : ∀ deed ∈ rest, allowed deed := fun deed member =>
      all deed (List.mem_cons_of_mem _ member)
    have next := Action.Ends.result (fun result => holds (past ++ [⟨deed, result⟩]))
      (step past machine deed (all deed List.mem_cons_self) start)
    rw [run_cons]
    simpa using inductionHypothesis others _ _ next

end Shape

end LayeredCache
