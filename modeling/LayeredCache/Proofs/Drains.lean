/-
This file says what the parts of a soft layer do: how its changes of the queue end, and how its
drains work through the notifications.

To the delegate a drain is a sequence of look-ups and removals, so whatever those keep holds of the
delegate after a drain.
-/

import LayeredCache.Layer.Soft
import LayeredCache.Proofs.Ending

namespace LayeredCache.SoftLayer

open LayeredCache.Action

variable {K V σ α : Type} {delegate : Cache K V σ (SoftReference K V)}
  {machine : Machine K V (SoftLayer K V σ)}
  {failed : CacheError → Machine K V (SoftLayer K V σ) → Prop}

/-! ### Changes of the queue -/

/-- Everything that is kept alive while an operation of the layer runs. -/
def alive (delegate : Cache K V σ (SoftReference K V)) (machine : Machine K V (SoftLayer K V σ)) :
    Handles K V :=
  machine.memory.handles ++ handles delegate machine.layer

/-- As long as callers hold no reference, the references that are alive are the delegate's. -/
theorem references_alive_of_unheld (unheld : machine.memory.references.items = []) :
    (alive delegate machine).references =
      (delegate.handles machine.layer.delegate).references := by
  show machine.memory.references.items ++
    ((delegate.handles machine.layer.delegate).references ++ []) = _
  rw [unheld, List.nil_append, List.append_nil]

@[simp] theorem ends_withQueue
    {change : ReferenceQueue K V → Memory K V → Handles K V → α × ReferenceQueue K V × Memory K V}
    {done : α → Machine K V (SoftLayer K V σ) → Prop} :
    (withQueue delegate change).Ends machine done failed ↔
      done (change machine.layer.queue machine.memory (alive delegate machine)).1
        { machine with
          layer := { machine.layer with
            queue := (change machine.layer.queue machine.memory (alive delegate machine)).2.1 }
          memory := (change machine.layer.queue machine.memory (alive delegate machine)).2.2 } :=
  Iff.rfl

/-- Where nothing was reclaimed every reference has its value. -/
theorem resolve_calm {memory : Memory K V} (calm : memory.reclaimed = [])
    (reference : SoftReference K V) : memory.resolve reference = some reference.referent := by
  simp [Memory.resolve, Memory.isLive, calm]

/-- A reference resolves to nothing but the value it was made for. -/
theorem referent_of_resolve {memory : Memory K V} {reference : SoftReference K V}
    {value : Shared V} (resolved : memory.resolve reference = some value) :
    reference.referent = value := by
  unfold Memory.resolve at resolved
  split at resolved
  case isTrue => exact Option.some.inj resolved
  case isFalse => cases resolved

/-- A registration neither reclaims nor notifies. -/
theorem register_keeps (queue : ReferenceQueue K V) (memory : Memory K V) (handles : Handles K V)
    (key : K) (value : Shared V) :
    (queue.register memory handles key value).1.referent = value ∧
      (queue.register memory handles key value).2.1.pending = queue.pending ∧
      (queue.register memory handles key value).2.2.reclaimed = memory.reclaimed := by
  refine ⟨rfl, ?_, rfl⟩
  unfold ReferenceQueue.register
  simp only
  split <;> rfl

/-! ### Drains -/

variable {done : Unit → Machine K V (SoftLayer K V σ) → Prop}

/-- Without notifications a drain does nothing. -/
theorem ends_drain_idle (idle : machine.layer.queue.pending = []) :
    (drain delegate).Ends machine done failed ↔ done () machine := by
  simp only [drain, ends_bind, ends_layer, idle, removeReclaimed, ends_pure, Nat.lt_irrefl,
    if_false]

section Keeps

variable {holds fails : σ → Memory K V → Prop}
  (get : ∀ key layer memory, holds layer memory →
    (delegate.get key).Leaves layer memory (fun _ => holds) fails)
  (remove : ∀ key layer memory, holds layer memory →
    (delegate.remove key).Leaves layer memory (fun _ => holds) fails)

include get remove

/-- Working through notifications is a sequence of look-ups and removals below. -/
theorem removeReclaimed_keeps (keys : List K) (removed : Nat)
    {machine : Machine K V (SoftLayer K V σ)}
    (start : holds machine.layer.delegate machine.memory) :
    (removeReclaimed delegate keys removed).Ends machine
      (fun _ later => holds later.layer.delegate later.memory)
      fun _ later => fails later.layer.delegate later.memory := by
  induction keys generalizing machine removed with
  | nil => exact start
  | cons key rest inductionHypothesis =>
    simp only [removeReclaimed, below, ends_bind, ends_modifyLayer, ends_within]
    refine (get key _ _ start).ends (fun found later kept => ?_) fun _ _ lost => lost
    cases found with
    | none => exact inductionHypothesis _ kept
    | some reference =>
      simp only [ends_bind, ends_memory]
      split
      · exact inductionHypothesis _ kept
      · rw [ends_bind, ends_within]
        exact (remove key _ _ kept).ends (fun _ _ kept => inductionHypothesis _ kept)
          fun _ _ lost => lost

/-- So is a drain. -/
theorem drain_keeps {machine : Machine K V (SoftLayer K V σ)}
    (start : holds machine.layer.delegate machine.memory) :
    (drain delegate).Ends machine (fun _ later => holds later.layer.delegate later.memory)
      fun _ later => fails later.layer.delegate later.memory := by
  simp only [drain, name, count, ends_bind, ends_layer]
  refine (removeReclaimed_keeps get remove _ 0 start).imp (fun removed later kept => ?_)
    fun _ _ lost => lost
  split
  · simp only [ends_bind, ends_layer, ends_pure, ends_report, ends_modifyLayer]
    exact kept
  · exact kept

end Keeps

/-! ### The ring -/

/-- Pinning a value puts it in front of the ring, cuts the ring to the window and counts the pin. -/
theorem ends_pin_counted {value : Shared V}
    (all : ∀ trace, done ()
      ⟨{ machine.layer with
          ring := (value :: machine.layer.ring).take machine.layer.window
          counters := machine.layer.counters.countPin }, machine.memory, trace⟩) :
    (pin delegate value).Ends machine done failed := by
  simp only [pin, name, count, ends_bind, ends_layer, ends_modifyLayer]
  split
  · simp only [ends_bind, ends_layer, ends_pure, ends_report, ends_modifyLayer]
    exact all _
  · exact all _

/-- Pinning a value changes the ring, the counters and the trace alone. -/
theorem ends_pin {value : Shared V}
    (all : ∀ ring counters trace,
      done () ⟨{ machine.layer with ring, counters }, machine.memory, trace⟩) :
    (pin delegate value).Ends machine done failed :=
  ends_pin_counted fun trace => all _ _ trace

end LayeredCache.SoftLayer
