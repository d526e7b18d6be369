/-
This file proves that a drain removes exactly the reclaimed entries that it was told about.

A notification carries a key, not a reference, and by the time it is worked through the key may
have been put anew, removed, or notified before. So nothing is assumed about what waits, and nothing
about how the stored references came to the delegate: all that decides is whether the reference that
is found under the key has lost its value at that moment.
-/

import LayeredCache.Proofs.Counting

namespace LayeredCache

open LayeredCache.Action

variable {K V : Type} [DecidableEq K]

namespace Shape

variable {content : Content}

/-! ### What look-ups and removals below a drain do -/

/-- A look-up finds what is stored and changes nothing of it. Only a probe makes it fail. -/
theorem get_exact (shape : Shape content) (hard : shape.hasSoft = false) (layer : shape.State K V)
    (memory : Memory K V) (key : K) :
    (shape.cache.get key).Leaves layer memory
      (fun found later after => after = memory ∧ shape.table later = shape.table layer ∧
        found = (shape.table layer).find? key)
      fun _ _ => ¬shape.Plain := by
  induction shape with
  | store => exact fun _ => ⟨rfl, rfl, rfl⟩
  | lru delegate inductionHypothesis =>
    exact LruLayer.get_leaves (inductionHypothesis hard layer.delegate)
  | probe delegate inductionHypothesis =>
    exact ProbeLayer.intercept_leaves not_false
      ((inductionHypothesis hard layer.delegate).imp (fun _ _ _ next => next)
        fun _ _ _ => not_false)
      fun _ _ _ _ => not_false
  | soft delegate => cases hard

/-- A removal erases what is stored under its key. Only a probe makes it fail. -/
theorem remove_exact (shape : Shape content) (hard : shape.hasSoft = false)
    (layer : shape.State K V) (memory : Memory K V) (key : K) :
    (shape.cache.remove key).Leaves layer memory
      (fun _ later after => after = memory ∧ shape.table later = (shape.table layer).erase key)
      fun _ _ => ¬shape.Plain := by
  induction shape with
  | store => exact fun _ => ⟨rfl, rfl⟩
  | lru delegate inductionHypothesis =>
    exact LruLayer.remove_leaves (inductionHypothesis hard layer.delegate)
  | probe delegate inductionHypothesis =>
    exact ProbeLayer.intercept_leaves not_false
      ((inductionHypothesis hard layer.delegate).imp (fun _ _ _ next => next)
        fun _ _ _ => not_false)
      fun _ _ _ _ => not_false
  | soft delegate => cases hard

/-! ### Drains -/

/-- A drain over a store with any layers on it fails only at a probe. Otherwise it empties the queue
and removes the entries under the keys that waited there and whose references have lost their
values, each of them once, however often its key waited. It counts as many purged entries. Every
other entry keeps its reference, in particular one that was put after its key was notified, and the
ring, the window, the registry and the memory stay as they are. -/
theorem drain_removes {delegate : Shape .reference}
    {machine : Machine K V (SoftLayer K V (delegate.State K V))}
    (distinct : (delegate.table machine.layer.delegate).Distinct) :
    (SoftLayer.drain delegate.cache).Ends machine
      (fun _ later => ∃ removed : List K,
        let before := delegate.table machine.layer.delegate
        let after := delegate.table later.layer.delegate
        (removed.Nodup ∧ ∀ key, key ∈ removed ↔ key ∈ machine.layer.queue.pending ∧
          ∃ reference, before.find? key = some reference ∧
            machine.memory.isLive reference = false) ∧
        (∀ key, after.find? key = if key ∈ removed then none else before.find? key) ∧
        (∀ key reference, before.find? key = some reference →
          machine.memory.isLive reference = true → after.find? key = some reference) ∧
        after.size + removed.length = before.size ∧
        later.layer = { machine.layer with
          queue := { machine.layer.queue with pending := [] }
          counters := machine.layer.counters.countPurged (UInt64.ofNat removed.length)
          delegate := later.layer.delegate } ∧
        later.memory = machine.memory)
      fun _ _ => ¬delegate.Plain := by
  have hard := hasSoft_reference delegate
  refine (SoftLayer.drain_purges (delegate.get_exact hard) (delegate.remove_exact hard)
    machine).imp (fun _ later next => ?_) fun _ _ failed => failed
  obtain ⟨removed, purges, memory, layer⟩ := next
  exact ⟨removed, ⟨purges.nodup, purges.mem⟩, purges.find?, purges.find?_of_live,
    (purges.size distinct).2, layer, memory⟩

end Shape

/-- A recency layer on a store. -/
def shelf : Shape .reference := .lru .store

/-- A soft layer on a recency layer that stores four references. Those of the keys 1 and 3 have lost
their values, and so has the one that the key 2 had before it was put anew. The key 1 waits twice, 2
waits for its old reference, 7 is not stored, 3 was never notified, and 5 was never registered. -/
def littered : Machine Nat String (SoftLayer Nat String (shelf.State Nat String)) where
  layer :=
    { window := 2
      queue := { pending := [1, 2, 7, 1], registry := [⟨3, 2, ⟨3, "new two"⟩⟩] }
      delegate :=
        { capacity := 4
          delegate :=
            { id := "pages"
              table := ⟨[(5, ⟨9, 5, ⟨5, "five"⟩⟩), (2, ⟨3, 2, ⟨3, "new two"⟩⟩),
                (3, ⟨2, 3, ⟨2, "three"⟩⟩), (1, ⟨0, 1, ⟨0, "one"⟩⟩)]⟩ } } }
  memory := { nextAddress := 10, nextNumber := 10, reclaimed := [0, 1, 2] }

/-- The drain removes the key 1 alone and counts it once. -/
theorem drain_removes_littered :
    let drained := ((SoftLayer.drain shelf.cache).run littered).2
    (shelf.table littered.layer.delegate).Distinct ∧
      ((SoftLayer.drain shelf.cache).run littered).1 = .ok () ∧
      (shelf.table drained.layer.delegate).keys = [5, 2, 3] ∧
      drained.layer.counters.purgedEntries = 1 ∧
      ∃ removed : List Nat,
        (removed.Nodup ∧ ∀ key, key ∈ removed ↔ key ∈ [1, 2, 7, 1] ∧
          ∃ reference, (shelf.table littered.layer.delegate).find? key = some reference ∧
            littered.memory.isLive reference = false) ∧
        drained.layer.queue = { littered.layer.queue with pending := [] } := by
  have distinct : (shelf.table littered.layer.delegate).Distinct := by
    show [5, 2, 3, 1].Nodup
    decide
  have answered : ((SoftLayer.drain shelf.cache).run littered).1 = .ok () := by decide +kernel
  obtain ⟨removed, exact, -, -, -, layer, -⟩ := (Shape.drain_removes distinct).of_answer answered
  exact ⟨distinct, answered, by decide +kernel, by decide +kernel, removed, exact,
    congrArg SoftLayer.queue layer⟩

end LayeredCache
