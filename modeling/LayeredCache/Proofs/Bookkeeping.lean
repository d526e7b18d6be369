/-
This file proves that the counters of a recency layer balance the books, over a store whose calls
may fail before they take effect.

The books are kept beside a run, by an observer who looks at what the probe on the store notes, at
the answers of the calls, and at which keys are tracked and stored before and after each of them.
They tell how many keys the layer began to track and in which ways it gave keys up. The counters of
the layer move at other moments, some before and some after the call that may fail, and a victim
whose removal failed is counted, tracked again and tried again later. Still the counters agree with
the books, and the tracked keys are what is left of those that were ever begun.

The part of a put that needs an argument is its evictions. `Evicted` says what any number of them
may have done, and two of these statements in succession give a third.
-/

import Mathlib.Algebra.GroupWithZero.Nat
import LayeredCache.Proofs.Attempts
import LayeredCache.Proofs.Overdue

namespace LayeredCache

open LayeredCache.Action

variable {K V σ X : Type}

/-! ### What the probe notes -/

/-- A put was passed on. -/
def Note.stores : Note K → Bool
  | .call _ .put _ faulted => !faulted
  | _ => false

/-- A removal was asked for. -/
def Note.removes : Note K → Bool
  | .call _ .remove _ _ => true
  | _ => false

/-- A removal was asked for and failed. -/
def Note.failsRemoval : Note K → Bool
  | .call _ .remove _ faulted => faulted
  | _ => false

/-- What was noted since an earlier moment, the latest note first. -/
def Machine.notesSince (later earlier : Machine K V σ) : List (Note K) :=
  later.trace.take (later.trace.length - earlier.trace.length)

theorem Machine.notesSince_eq {later earlier : Machine K V σ} {notes : List (Note K)}
    (same : later.trace = notes ++ earlier.trace) : later.notesSince earlier = notes := by
  rw [notesSince, same, List.length_append, Nat.add_sub_cancel, List.take_left]

variable [DecidableEq K]

section Store

variable {inner : Machine K V (ProbeLayer (Store K (Shared V)))}

theorem ends_remove_noted (before : FailsBefore inner.layer.faults) (key : K) :
    (((.probe .store : Shape .value).cache : Cache K V _ _).remove key).Ends inner
      (fun _ later => FailsBefore later.layer.faults ∧
        later.trace = .call 1 .remove (some key) false :: inner.trace)
      fun _ later => FailsBefore later.layer.faults ∧
        ∃ error, later.trace = [.raised 1 error, .call 1 .remove (some key) true] ++ inner.trace :=
  ProbeLayer.ends_intercept before (fun _ left => ⟨left, rfl⟩)
    fun _ error left => ⟨left, error, rfl⟩

theorem ends_put_noted (before : FailsBefore inner.layer.faults) (key : K) (value : Shared V) :
    (((.probe .store : Shape .value).cache : Cache K V _ _).put key value).Ends inner
      (fun _ later => FailsBefore later.layer.faults ∧
        later.trace = .call 1 .put (some key) false :: inner.trace)
      fun _ later => ∃ error,
        later.trace = [.raised 1 error, .call 1 .put (some key) true] ++ inner.trace :=
  ProbeLayer.ends_intercept before (fun _ left => ⟨left, rfl⟩) fun _ error _ => ⟨error, rfl⟩

end Store

/-! ### Evictions -/

namespace LruLayer

variable {machine earlier later last : Machine K V (Shape.watched.State K V)}
  {keys middle left : List K} {notes more : List (Note K)}

/-- What evictions may have done, together with the notes on them: of the tracked keys some are
left, which are the first ones and at least as many as the capacity. Every removal that was asked
for is counted, and those that did not fail are as many as the keys that are gone. -/
structure Evicted (keys left : List K) (earlier later : Machine K V (Shape.watched.State K V))
    (notes : List (Note K)) : Prop where
  order : later.layer.order.Represents left
  leads : left <+: keys
  enough : left = keys ∨ earlier.layer.capacity ≤ left.length
  gone : left.length + notes.countP Note.removes = keys.length + notes.countP Note.failsRemoval
  counters : later.layer.counters = { earlier.layer.counters with
    evictions := earlier.layer.counters.evictions + UInt64.ofNat (notes.countP Note.removes) }
  trace : later.trace = notes ++ earlier.trace
  silent : notes.any Note.stores = false
  capacity : later.layer.capacity = earlier.layer.capacity
  before : FailsBefore later.layer.delegate.faults

namespace Evicted

theorem none (order : machine.layer.order.Represents keys)
    (before : FailsBefore machine.layer.delegate.faults) :
    Evicted keys keys machine machine [] where
  order := order
  leads := List.prefix_rfl
  enough := Or.inl rfl
  gone := rfl
  counters := by
    show _ = { machine.layer.counters with evictions := machine.layer.counters.evictions + 0 }
    rw [UInt64.add_zero]
  trace := rfl
  silent := rfl
  capacity := rfl
  before := before

theorem trans (first : Evicted keys middle earlier later notes)
    (second : Evicted middle left later last more) :
    Evicted keys left earlier last (more ++ notes) where
  order := second.order
  leads := second.leads.trans first.leads
  enough := by
    rcases second.enough with same | enough
    · exact same ▸ first.enough
    · exact Or.inr (first.capacity ▸ enough)
  gone := by
    have one := first.gone
    have two := second.gone
    rw [List.countP_append, List.countP_append]
    omega
  counters := by
    rw [second.counters, first.counters, List.countP_append, UInt64.ofNat_add,
      UInt64.add_comm (UInt64.ofNat _), ← UInt64.add_assoc]
  trace := by rw [second.trace, first.trace, List.append_assoc]
  silent := by rw [List.any_append, second.silent, first.silent, Bool.or_false]
  capacity := second.capacity.trans first.capacity
  before := second.before

/-- It does not matter what else was different about the layer before. -/
theorem of_relayered {layer : Shape.watched.State K V}
    (evicted : Evicted keys left { machine with layer } later notes)
    (capacity : layer.capacity = machine.layer.capacity)
    (counters : layer.counters = machine.layer.counters) :
    Evicted keys left machine later notes where
  order := evicted.order
  leads := evicted.leads
  enough := capacity ▸ evicted.enough
  gone := evicted.gone
  counters := counters ▸ evicted.counters
  trace := evicted.trace
  silent := evicted.silent
  capacity := evicted.capacity.trans capacity
  before := evicted.before

/-- Evictions leave the first key, for which there is room. -/
theorem head_mem {key : K} {rest : List K}
    (evicted : Evicted (key :: rest) left earlier later notes)
    (positive : 0 < earlier.layer.capacity) : key ∈ left := by
  obtain ⟨last, same⟩ := evicted.leads
  cases left with
  | nil =>
    rcases evicted.enough with none | enough
    · cases none
    · exact absurd (Nat.le_zero.mp enough) (Nat.pos_iff_ne_zero.mp positive)
  | cons first others =>
    rw [List.cons_append, List.cons.injEq] at same
    exact same.1 ▸ List.mem_cons_self

end Evicted

/-- However the action ends, it has evicted some of the keys. -/
def Evicts (keys : List K) (action : Action K V (Shape.watched.State K V) Unit)
    (machine : Machine K V (Shape.watched.State K V)) : Prop :=
  action.Ends machine (fun _ later => ∃ left notes, Evicted keys left machine later notes)
    fun _ later => ∃ left notes, Evicted keys left machine later notes

/-- Evictions after evictions, where something else may have been different before. -/
theorem Evicted.andThen {action : Action K V (Shape.watched.State K V) Unit}
    (first : Evicted keys middle earlier machine notes) (second : Evicts middle action machine) :
    action.Ends machine (fun _ last => ∃ left more, Evicted keys left earlier last more)
      fun _ last => ∃ left more, Evicted keys left earlier last more :=
  second.imp (fun _ _ ⟨left, _, others⟩ => ⟨left, _, first.trans others⟩)
    fun _ _ ⟨left, _, others⟩ => ⟨left, _, first.trans others⟩

/-- A popped victim is gone for good, or it is tracked again. -/
theorem evict_evicted {front : List K} {victim : K} (order : machine.layer.order.Represents front)
    (untracked : victim ∉ front) (above : machine.layer.capacity ≤ front.length)
    (before : FailsBefore machine.layer.delegate.faults) :
    (evict ((.probe .store : Shape .value).cache : Cache K V _ _) victim).Ends machine
      (fun _ later => ∃ notes, Evicted (front ++ [victim]) front machine later notes ∧
        later.layer.overdue = machine.layer.overdue)
      fun _ later =>
        ∃ notes, Evicted (front ++ [victim]) (front ++ [victim]) machine later notes := by
  rw [ends_evict, below, ends_within]
  refine Ends.imp (ends_remove_noted before victim) (fun _ inner next => ?_) fun _ inner next => ?_
  · obtain ⟨before, trace⟩ := next
    let event := Event.evicting machine.layer.delegate.delegate.id
    have gone : front.length + 1 = (front ++ [victim]).length + 0 := by simp
    refine ⟨[.call 1 .remove (some victim) false, .event event], ?_, rfl⟩
    exact ⟨order, List.prefix_append _ _, Or.inr above, gone, rfl, trace, rfl, rfl, before⟩
  · obtain ⟨before, error, trace⟩ := next
    let event := Event.evicting machine.layer.delegate.delegate.id
    refine ⟨[.raised 1 error, .call 1 .remove (some victim) true, .event event], ?_⟩
    have restored := (order.pushBack_untracked untracked).2
    exact ⟨restored, List.prefix_rfl, Or.inl rfl, rfl, rfl, trace, rfl, rfl, before⟩

/-- The rounds that settle overdue victims are evictions in succession. -/
theorem settle_evicts (rounds : Nat) (order : machine.layer.order.Represents keys)
    (before : FailsBefore machine.layer.delegate.faults) :
    Evicts keys (settle ((.probe .store : Shape .value).cache : Cache K V _ _) rounds) machine := by
  induction rounds generalizing machine keys with
  | zero => exact ⟨keys, [], .none order before⟩
  | succ rounds inductionHypothesis =>
    simp only [Evicts, settle, ends_bind, ends_updateLayer]
    rcases takeOverdue_cases order with
      ⟨taken, -⟩ | ⟨front, victim, popped, rfl, overflows, -, taken, represents⟩
    · rw [taken]
      have nothing : Evicted keys keys
          { machine with layer := { machine.layer with overdue := 0 } } _ [] := .none order before
      exact ⟨keys, [], nothing.of_relayered rfl rfl⟩
    · rw [taken]
      rw [List.length_append, List.length_singleton] at overflows
      rw [ends_bind]
      have untracked := untracked_of_nodup order.nodup
      refine Ends.imp (evict_evicted represents untracked (Nat.lt_succ_iff.mp overflows) before)
        (fun _ later next => ?_) fun _ later next => ?_
      · obtain ⟨notes, one, -⟩ := next
        exact (one.of_relayered rfl rfl).andThen (inductionHypothesis one.order one.before)
      · obtain ⟨notes, one⟩ := next
        exact ⟨_, notes, one.of_relayered rfl rfl⟩

/-- Making room for a key is tracking it and then evictions in succession. -/
theorem makeRoom_evicts (key : K) (order : machine.layer.order.Represents keys)
    (before : FailsBefore machine.layer.delegate.faults) :
    Evicts (key :: keys.erase key)
      (makeRoom ((.probe .store : Shape .value).cache : Cache K V _ _) key) machine := by
  rcases track_cases order key with
    ⟨popped, tracked, used, -⟩ | ⟨front, victim, popped, same, untracked, above, -, tracked, used⟩
  · rw [Evicts, ends_makeRoom_none tracked]
    have nothing : Evicted (key :: keys.erase key) (key :: keys.erase key)
        { machine with layer := { machine.layer with order := popped } } _ [] := .none used before
    exact (nothing.of_relayered rfl rfl).andThen (settle_evicts _ used before)
  · rw [Evicts, ends_makeRoom_some tracked, same]
    refine Ends.imp (evict_evicted used untracked above before) (fun _ later next => ?_)
      fun _ later next => ?_
    · obtain ⟨notes, one, -⟩ := next
      exact (one.of_relayered rfl rfl).andThen (settle_evicts _ one.order one.before)
    · obtain ⟨notes, one⟩ := next
      exact ⟨_, notes, one.of_relayered rfl rfl⟩

end LruLayer

/-! ### The books -/

/-- What an observer of a run counts. -/
structure Books where
  /-- The puts that the store has accepted. -/
  stored : Nat := 0
  /-- The removals that puts have asked the store for. -/
  issued : Nat := 0
  /-- Those of them that failed. -/
  failed : Nat := 0
  /-- The look-ups of a key that was stored at that moment. -/
  found : Nat := 0
  /-- The puts whose key is tracked afterwards and was not before. -/
  began : Nat := 0
  /-- The removals of a tracked key that succeeded. -/
  erased : Nat := 0
  /-- The keys that were tracked when a clear succeeded. -/
  dropped : Nat := 0
  deriving DecidableEq

namespace Books

variable {books : Books} {machine later : Machine K V (Shape.watched.State K V)} {initial : Nat}

/-- What a deed adds to the books: by what the probe notes meanwhile, by how the deed ends, and by
the keys that are tracked or stored before and after it. -/
def record (books : Books) (machine : Machine K V (Shape.watched.State K V)) (deed : Deed K V)
    (result : Except CacheError (Outcome V)) (later : Machine K V (Shape.watched.State K V)) :
    Books :=
  let notes := later.notesSince machine
  let tracked := machine.layer.order.toList
  match deed, result with
  | .call (.put key _), _ =>
    { books with
      stored := books.stored + (notes.any Note.stores).toNat
      issued := books.issued + notes.countP Note.removes
      failed := books.failed + notes.countP Note.failsRemoval
      began := books.began + (decide (key ∉ tracked ∧ key ∈ later.layer.order.toList)).toNat }
  | .call (.get key), _ =>
    { books with found := books.found + (machine.layer.delegate.delegate.contains key).toNat }
  | .call (.remove key), .ok _ =>
    { books with erased := books.erased + (decide (key ∈ tracked)).toNat }
  | .call .clear, .ok _ => { books with dropped := books.dropped + tracked.length }
  | _, _ => books

/-- Does a deed and records it. -/
def turn : Books × Machine K V (Shape.watched.State K V) → Deed K V →
    Books × Machine K V (Shape.watched.State K V)
  | (books, machine), deed =>
    let ended := (Shape.watched.perform deed).run machine
    (books.record machine deed ended.1 ended.2, ended.2)

/-- Does deeds one after the other, whether they fail or not, and records each of them. -/
def run (deeds : List (Deed K V)) (machine : Machine K V (Shape.watched.State K V)) :
    Books × Machine K V (Shape.watched.State K V) :=
  deeds.foldl turn ({}, machine)

/-- The counters agree with the books, and the keys that were ever begun are tracked still or gone
in one of three ways. -/
structure Balanced (books : Books) (layer : Shape.watched.State K V) : Prop where
  stored : layer.counters.putCalls = UInt64.ofNat books.stored
  issued : layer.counters.evictions = UInt64.ofNat books.issued
  found : layer.counters.touchFound = UInt64.ofNat books.found
  tracked : layer.order.length + books.issued + books.erased + books.dropped =
    books.began + books.failed

/-- A used key adds one to the tracked keys if it was not one of them. -/
theorem length_used (keys : List K) (key : K) :
    (key :: keys.erase key).length = keys.length + (decide (key ∉ keys)).toNat := by
  by_cases tracked : key ∈ keys
  · have positive := List.length_pos_of_mem tracked
    have erased := List.length_erase_of_mem tracked
    simp only [tracked, not_true, decide_false, Bool.toNat_false, List.length_cons]
    omega
  · rw [List.erase_of_not_mem tracked, decide_eq_true tracked]
    rfl

/-- What comes of a put that the store has accepted. -/
theorem Balanced.accepted {key : K} {value : Shared V} {keys left : List K}
    {notes : List (Note K)} {stored : Machine K V (ProbeLayer (Store K (Shared V)))}
    (balanced : Balanced books machine.layer) (order : machine.layer.order.Represents keys)
    (positive : 0 < machine.layer.capacity)
    (trace : stored.trace = .call 1 .put (some key) false :: machine.trace)
    (evicted : LruLayer.Evicted (key :: keys.erase key) left (LruLayer.accepted machine stored)
      later notes) (result : Except CacheError (Outcome V)) :
    Balanced (books.record machine (.call (.put key value)) result later) later.layer := by
  have noted : later.notesSince machine = notes ++ [.call 1 .put (some key) false] := by
    refine Machine.notesSince_eq ?_
    rw [evicted.trace, List.append_assoc]
    exact congrArg (notes ++ ·) trace
  have stays : key ∈ left := evicted.head_mem positive
  have counters := evicted.counters
  have gone := evicted.gone
  rw [length_used] at gone
  have tracked := balanced.tracked
  rw [order.length] at tracked
  have oneStored : (notes ++ [Note.call 1 .put (some key) false]).any Note.stores = true := by
    rw [List.any_append, evicted.silent]
    rfl
  have sameRemovals : (notes ++ [Note.call 1 .put (some key) false]).countP Note.removes =
      notes.countP Note.removes := by
    rw [List.countP_append]
    rfl
  have sameFailures : (notes ++ [Note.call 1 .put (some key) false]).countP Note.failsRemoval =
      notes.countP Note.failsRemoval := by
    rw [List.countP_append]
    rfl
  have listed : machine.layer.order.toList = keys := order.toList
  have kept : later.layer.order.toList = left := evicted.order.toList
  simp only [record, noted, oneStored, sameRemovals, sameFailures, listed, kept, stays, and_true]
  refine ⟨?_, ?_, ?_, ?_⟩
  · rw [counters, Bool.toNat_true, UInt64.ofNat_add, ← balanced.stored]
    rfl
  · rw [counters, UInt64.ofNat_add, ← balanced.issued]
    rfl
  · rw [counters, ← balanced.found]
    rfl
  · rw [evicted.order.length]
    show left.length + (books.issued + notes.countP Note.removes) + books.erased + books.dropped =
      books.began + (decide (key ∉ keys)).toNat +
        (books.failed + notes.countP Note.failsRemoval)
    omega

omit [DecidableEq K] in
/-- A deed that neither moves a counter nor changes which keys are tracked is not on record. -/
theorem Balanced.same (balanced : Balanced books machine.layer)
    (counters : later.layer.counters = machine.layer.counters)
    (length : later.layer.order.length = machine.layer.order.length) :
    Balanced books later.layer := by
  refine ⟨?_, ?_, ?_, ?_⟩
  · rw [counters, balanced.stored]
  · rw [counters, balanced.issued]
  · rw [counters, balanced.found]
  · rw [length, balanced.tracked]

/-- A put that the store refuses changes nothing in the books. -/
theorem Balanced.refused {key : K} {value : Shared V} {error : CacheError}
    (balanced : Balanced books machine.layer)
    (order : later.layer.order = machine.layer.order)
    (counters : later.layer.counters = machine.layer.counters)
    (trace : later.trace = [.raised 1 error, .call 1 .put (some key) true] ++ machine.trace)
    (result : Except CacheError (Outcome V)) :
    Balanced (books.record machine (.call (.put key value)) result later) later.layer := by
  have noted := Machine.notesSince_eq trace
  have same : books.record machine (.call (.put key value)) result later = books := by
    simp only [record, noted, order, not_and_self, decide_false, Bool.toNat_false]
    rfl
  rw [same]
  exact balanced.same counters (congrArg RecencyOrder.length order)

section Calls

variable {most : Nat} {keys : List K} {table : Table K (Shared V)}
  (owing : LruLayer.Owing watchedShows most keys table machine.layer)
  (balanced : Balanced books machine.layer)

include owing balanced

theorem balanced_put (positive : 0 < machine.layer.capacity) (key : K) (value : Shared V) :
    (Shape.watched.perform (.call (.put key value))).Ends machine
      (fun outcome later =>
        Balanced (books.record machine (.call (.put key value)) (.ok outcome) later) later.layer)
      fun cause later =>
        Balanced (books.record machine (.call (.put key value)) (.error cause) later)
          later.layer := by
  simp only [Shape.perform, Cache.call, ends_map, ends_bind, ends_pure]
  refine LruLayer.ends_put.mpr ?_
  refine Ends.imp (ends_put_noted owing.shown.1 key value) (fun _ stored next => ?_)
    fun cause inner next => ?_
  · obtain ⟨before, trace⟩ := next
    have order : (LruLayer.accepted machine stored).layer.order.Represents keys := owing.order
    refine Ends.imp (LruLayer.makeRoom_evicts key order before) (fun _ later next => ?_)
      fun cause later next => ?_ <;>
    · obtain ⟨left, notes, evicted⟩ := next
      exact balanced.accepted owing.order positive trace evicted _
  · obtain ⟨error, trace⟩ := next
    refine balanced.refused ?order ?counters trace _ <;> rfl

/-- A look-up counts its key as found before it asks the store, and by what is tracked. -/
theorem balanced_get (key : K) :
    (Shape.watched.perform (.call (.get key))).Ends machine
      (fun outcome later =>
        Balanced (books.record machine (.call (.get key)) (.ok outcome) later) later.layer)
      fun cause later =>
        Balanced (books.record machine (.call (.get key)) (.error cause) later) later.layer := by
  obtain ⟨answer, touched⟩ := owing.order.touch key
  have known : machine.layer.delegate.delegate.contains key =
      (machine.layer.order.touch key).1 := by
    rw [answer, Bool.eq_iff_iff, Store.contains, Table.contains_iff, owing.shown.2,
      decide_eq_true_iff]
    exact (owing.matched.same key).symm
  have counted : ∀ later : Machine K V (Shape.watched.State K V),
      later.layer.order = (machine.layer.order.touch key).2 →
      later.layer.counters =
        machine.layer.counters.countGet (machine.layer.order.touch key).1 →
      ∀ result, Balanced (books.record machine (.call (.get key)) result later) later.layer := by
    intro later order counters result
    have length : later.layer.order.length = machine.layer.order.length := by
      rw [order, touched.length, owing.order.length]
      exact (RecencyOrder.touched_perm keys key).length_eq
    refine ⟨?_, ?_, ?_, ?_⟩
    · rw [counters]
      exact balanced.stored
    · rw [counters]
      exact balanced.issued
    · show _ = UInt64.ofNat (books.found + (machine.layer.delegate.delegate.contains key).toNat)
      rw [counters, known, UInt64.ofNat_add, ← balanced.found, LruCounters.countGet]
      cases (machine.layer.order.touch key).1 with
      | false => exact (UInt64.add_zero _).symm
      | true => rfl
    · rw [length]
      exact balanced.tracked
  simp only [Shape.perform, Cache.call, ends_map, ends_bind, ends_pure]
  show (LruLayer.get _ key).Ends machine _ _
  simp only [LruLayer.get, LruLayer.below, LruLayer.count, ends_bind, ends_within,
    ends_modifyLayer, ends_updateLayer]
  exact ends_of_forall (fun _ _ => counted _ rfl rfl _) fun _ _ => counted _ rfl rfl _

theorem balanced_remove (key : K) :
    (Shape.watched.perform (.call (.remove key))).Ends machine
      (fun outcome later =>
        Balanced (books.record machine (.call (.remove key)) (.ok outcome) later) later.layer)
      fun cause later =>
        Balanced (books.record machine (.call (.remove key)) (.error cause) later)
          later.layer := by
  obtain ⟨-, erased⟩ := owing.order.erase key
  simp only [Shape.perform, Cache.call, ends_map, ends_bind, ends_pure]
  show (LruLayer.remove _ key).Ends machine _ _
  simp only [LruLayer.remove, LruLayer.below, LruLayer.count, ends_bind, ends_within,
    ends_modifyLayer, ends_pure]
  refine ends_of_forall (fun _ _ => ?_) fun _ _ => balanced.same rfl rfl
  refine ⟨balanced.stored, balanced.issued, balanced.found, ?_⟩
  have tracked := balanced.tracked
  show (machine.layer.order.erase key).2.length + books.issued +
    (books.erased + (decide (key ∈ machine.layer.order.toList)).toNat) + books.dropped =
      books.began + books.failed
  rw [owing.order.length] at tracked
  rw [erased.length, owing.order.toList]
  by_cases member : key ∈ keys
  · have positive := List.length_pos_of_mem member
    rw [List.length_erase_of_mem member, decide_eq_true member, Bool.toNat_true]
    omega
  · rw [List.erase_of_not_mem member, decide_eq_false member, Bool.toNat_false]
    omega

theorem balanced_clear :
    (Shape.watched.perform (.call .clear)).Ends machine
      (fun outcome later =>
        Balanced (books.record machine (.call .clear) (.ok outcome) later) later.layer)
      fun cause later =>
        Balanced (books.record machine (.call .clear) (.error cause) later) later.layer := by
  simp only [Shape.perform, Cache.call, ends_map, ends_bind, ends_pure]
  show (LruLayer.clear _).Ends machine _ _
  simp only [LruLayer.clear, LruLayer.below, LruLayer.count, ends_bind, ends_within,
    ends_modifyLayer]
  refine ends_of_forall (fun _ _ => ?_) fun _ _ => balanced.same rfl rfl
  refine ⟨balanced.stored, balanced.issued, balanced.found, ?_⟩
  have tracked := balanced.tracked
  show 0 + books.issued + books.erased + (books.dropped + machine.layer.order.toList.length) =
    books.began + books.failed
  rw [owing.order.length] at tracked
  rw [owing.order.toList]
  omega

end Calls

/-! ### Runs -/

/-- A capacity of zero is refused. -/
theorem setCapacity_positive (positive : 0 < machine.layer.capacity) (position capacity : Nat) :
    (Shape.watched.setCapacity position capacity).Ends machine
      (fun _ later => 0 < later.layer.capacity) fun _ later => 0 < later.layer.capacity := by
  unfold Shape.setCapacity Shape.visit
  rw [ends_map]
  split
  · rw [ends_map, ends_map]
    unfold LruLayer.setCapacity
    split
    case h_1 => exact positive
    case h_2 accepted => exact checkCapacity_eq_ok.mp accepted
  · rw [LruLayer.below, ends_within]
    exact ends_of_forall (fun _ _ => positive) fun _ _ => positive

/-- Whatever is done besides calls moves no counter and leaves the tracked keys alone. -/
theorem perform_unrecorded (positive : 0 < machine.layer.capacity) {deed : Deed K V}
    (silent : ∀ call, deed ≠ .call call) :
    (Shape.watched.perform deed).Ends machine
      (fun _ later => 0 < later.layer.capacity ∧
        later.layer.counters = machine.layer.counters ∧ later.layer.order = machine.layer.order)
      fun _ _ => False := by
  cases deed with
  | call call => exact absurd rfl (silent call)
  | setCapacity position capacity =>
    rw [Shape.perform, ends_map]
    refine ((setCapacity_watched position capacity).and
      (setCapacity_positive positive position capacity)).imp (fun _ later next => ?_)
      fun _ _ no => no.1
    obtain ⟨⟨-, layer⟩ | ⟨-, layer⟩, positive⟩ := next <;>
    · rw [layer] at positive ⊢
      exact ⟨positive, rfl, rfl⟩
  | addFault position fault =>
    rw [Shape.perform, ends_bind]
    refine (addFault_watched position fault).imp (fun _ later next => ?_) fun _ _ no => no
    rcases next with layer | layer <;>
    · rw [ends_pure, layer]
      exact ⟨positive, rfl, rfl⟩
  | _ => exact ⟨positive, rfl, rfl⟩

/-- What every run keeps: the layer may track keys, the tracked keys are the stored ones, and the
books balance. -/
structure Kept (initial : Nat) (books : Books) (machine : Machine K V (Shape.watched.State K V)) :
    Prop where
  positive : 0 < machine.layer.capacity
  keepsUp : ∃ past, KeepsUp initial past machine
  balanced : Balanced books machine.layer

theorem kept_start (id : String) (hasLock : Bool) (positive : 0 < initial) :
    Kept initial {} (watchedMachine id hasLock initial : Machine K V _) :=
  ⟨positive, ⟨[], keepsUp_start id hasLock initial⟩, rfl, rfl, rfl, rfl⟩

theorem balanced_call (kept : Kept initial books machine) (call : Call K (Shared V)) :
    (Shape.watched.perform (.call call)).Ends machine
      (fun outcome later =>
        Balanced (books.record machine (.call call) (.ok outcome) later) later.layer)
      fun cause later =>
        Balanced (books.record machine (.call call) (.error cause) later) later.layer := by
  obtain ⟨positive, ⟨past, current, older, -, -, keys, table, owing⟩, balanced⟩ := kept
  cases call with
  | put key value => exact balanced_put owing balanced positive key value
  | get key => exact balanced_get owing balanced key
  | remove key => exact balanced_remove owing balanced key
  | clear => exact balanced_clear owing balanced
  | length =>
    simp only [Shape.perform, Cache.call, ends_map, ends_bind, ends_pure]
    show (LruLayer.below _).Ends machine _ _
    rw [LruLayer.below, ends_within]
    exact ends_of_forall (fun _ _ => balanced.same rfl rfl) fun _ _ => balanced.same rfl rfl
  | isEmpty =>
    simp only [Shape.perform, Cache.call, Cache.isEmpty, ends_map, ends_bind, ends_pure]
    show (LruLayer.below _).Ends machine _ _
    rw [LruLayer.below, ends_within]
    exact ends_of_forall (fun _ _ => balanced.same rfl rfl) fun _ _ => balanced.same rfl rfl

/-- Every deed keeps it, if it is recorded. -/
theorem kept_perform (kept : Kept initial books machine) {deed : Deed K V}
    (before : deed.FailsBefore) :
    let ended := (Shape.watched.perform deed).run machine
    Kept initial (books.record machine deed ended.1 ended.2) ended.2 := by
  intro ended
  obtain ⟨past, keepsUp⟩ := kept.keepsUp
  have next := Ends.result (fun result later => KeepsUp initial (past ++ [⟨deed, result⟩]) later)
    (keepsUp_perform past machine deed before keepsUp)
  by_cases called : ∃ call, deed = .call call
  · obtain ⟨call, rfl⟩ := called
    have balanced := Ends.result
      (fun result later => Balanced (books.record machine (.call call) result later) later.layer)
      (balanced_call kept call)
    have orderly : (Shape.watched.perform (.call call)).Ends machine
        (fun _ later => LruLayer.Orderly later.layer)
        fun _ later => LruLayer.Orderly later.layer := by
      obtain ⟨_, _, -, -, keys, table, owing⟩ := keepsUp
      rw [Shape.perform, ends_map]
      exact LruLayer.call_orderly ⟨kept.positive, keys, owing.order⟩ call
    have orderly := Ends.result (fun _ later => LruLayer.Orderly later.layer) orderly
    exact ⟨orderly.1, ⟨_, next⟩, balanced⟩
  · have silent : ∀ call, deed ≠ .call call := fun call same => called ⟨call, same⟩
    obtain ⟨outcome, later, run, positive, counters, order⟩ :=
      (perform_unrecorded kept.positive silent).run_eq
    have unrecorded : books.record machine deed ended.1 ended.2 = books := by
      cases deed with
      | call call => exact absurd rfl (silent call)
      | _ => rfl
    have same : ended.2 = later := congrArg Prod.snd run
    rw [unrecorded, same]
    refine ⟨positive, ⟨_, same ▸ next⟩, ?_⟩
    exact kept.balanced.same counters (congrArg RecencyOrder.length order)

theorem kept_run (kept : Kept initial books machine) (deeds : List (Deed K V))
    (before : ∀ deed ∈ deeds, deed.FailsBefore) :
    Kept initial (deeds.foldl turn (books, machine)).1 (deeds.foldl turn (books, machine)).2 := by
  induction deeds generalizing books machine with
  | nil => exact kept
  | cons deed rest inductionHypothesis =>
    obtain ⟨first, others⟩ := List.forall_mem_cons.mp before
    exact inductionHypothesis (kept_perform kept first) others

/-- Keeping the books does not disturb the run. -/
theorem run_machine (deeds : List (Deed K V)) :
    (deeds.foldl turn (books, machine)).2 = (Shape.watched.run deeds machine).2 := by
  induction deeds generalizing books machine with
  | nil => rfl
  | cons deed rest inductionHypothesis => exact inductionHypothesis

end Books

/-- After every run on a recency layer over a store whose calls may fail before they take effect:
the counter of puts tells how many puts the store has accepted, also those that then failed because
of an eviction; the counter of evictions, how many removals puts have asked the store for; and the
counter of found keys, how many look-ups had their key in the store at that moment, each up to the
64 bits of a counter. As long as these numbers fit, the tracked keys are those that puts began to
track, less the evictions that did not fail, the removals of a tracked key that succeeded, and the
keys that clears have dropped. -/
theorem counters_balance (id : String) (hasLock : Bool) {initial : Nat} (positive : 0 < initial)
    (deeds : List (Deed K V)) (before : ∀ deed ∈ deeds, deed.FailsBefore) :
    let start := watchedMachine id hasLock initial
    let ended := Books.run deeds start
    let books := ended.1
    let snapshot := ended.2.layer.snapshot
    ended.2 = (Shape.watched.run deeds start).2 ∧
      snapshot.counters.putCalls = UInt64.ofNat books.stored ∧
      snapshot.counters.evictions = UInt64.ofNat books.issued ∧
      snapshot.counters.touchFound = UInt64.ofNat books.found ∧
      (books.stored < 2 ^ 64 → books.issued < 2 ^ 64 → books.found < 2 ^ 64 →
        snapshot.counters.putCalls.toNat = books.stored ∧
          snapshot.counters.evictions.toNat = books.issued ∧
          snapshot.counters.touchFound.toNat = books.found ∧
          (snapshot.trackedKeys : Int) =
            books.began - (snapshot.counters.evictions.toNat - books.failed : Int) -
              books.erased - books.dropped) := by
  intro start ended books snapshot
  have kept := Books.kept_run (Books.kept_start id hasLock positive) deeds before
  have stored : snapshot.counters.putCalls = UInt64.ofNat books.stored := kept.balanced.stored
  have issued : snapshot.counters.evictions = UInt64.ofNat books.issued := kept.balanced.issued
  have found : snapshot.counters.touchFound = UInt64.ofNat books.found := kept.balanced.found
  have tracked : snapshot.trackedKeys + books.issued + books.erased + books.dropped =
      books.began + books.failed := kept.balanced.tracked
  refine ⟨Books.run_machine deeds, stored, issued, found, fun few fewer fewest => ?_⟩
  rw [stored, issued, found, UInt64.toNat_ofNat_of_lt' few, UInt64.toNat_ofNat_of_lt' fewer,
    UInt64.toNat_ofNat_of_lt' fewest]
  exact ⟨rfl, rfl, rfl, by omega⟩

/-- Calls and changes on a layer with room for one key. One put is refused by the store, and one
fails because its eviction does. -/
def busyDay : List (Deed Nat String) :=
  [.call (.put 1 ⟨0, "one"⟩),
    .addFault 1 { method := .remove, error := .backend "pages" "store is down" },
    .call (.put 2 ⟨1, "two"⟩), .call (.get 1), .call (.get 9),
    .addFault 1 { method := .put, error := .backend "pages" "store is full" },
    .call (.put 3 ⟨2, "three"⟩), .call (.put 3 ⟨3, "three"⟩), .setCapacity 2 3,
    .call (.put 4 ⟨4, "four"⟩), .call (.remove 3), .call (.remove 3), .call (.put 5 ⟨5, "five"⟩),
    .call .clear, .call (.put 6 ⟨6, "six"⟩)]

/-- Six puts are accepted, and six keys begun. Three evictions are tried and one of them fails, one
key is removed, and two are dropped by the clear. One key is left. -/
theorem counters_balance_busyDay :
    (∀ deed ∈ busyDay, deed.FailsBefore) ∧
      let ended := Books.run busyDay (watchedMachine "pages" false 1)
      let snapshot := ended.2.layer.snapshot
      ended.1 =
        { stored := 6, issued := 3, failed := 1, found := 1, began := 6, erased := 1,
          dropped := 2 } ∧
      snapshot.counters.putCalls.toNat = 6 ∧ snapshot.counters.evictions.toNat = 3 ∧
      snapshot.counters.touchFound.toNat = 1 ∧ snapshot.trackedKeys = 1 := by
  have before : ∀ deed ∈ busyDay, deed.FailsBefore := by decide +kernel
  have books : (Books.run busyDay (watchedMachine "pages" false 1)).1 =
      { stored := 6, issued := 3, failed := 1, found := 1, began := 6, erased := 1,
        dropped := 2 } := by decide +kernel
  obtain ⟨-, -, -, -, balance⟩ := counters_balance "pages" false Nat.one_pos busyDay before
  rw [books] at balance
  obtain ⟨stored, issued, found, tracked⟩ := balance (by decide) (by decide) (by decide)
  rw [issued] at tracked
  exact ⟨before, books, stored, issued, found, Int.ofNat_inj.mp tracked⟩

end LayeredCache
