/-
This file proves which of the entries that drains remove are counted as purged.

A drain keeps its count to itself until it has worked through all notifications. If the delegate
fails before that, the drain ends with the failure and its count is lost, although the entries that
it has removed by then stay removed. So the counter falls short of the removed entries by those that
were removed by drains that were cut short, and by no others. The last theorem shows the shortest
way to lose one.

To tell the entries that drains remove from those that calls remove, every call is taken apart into
an opening, in which it drains, and the rest.
-/

import Mathlib.Data.Finset.Card
import LayeredCache.Proofs.Accounts
import LayeredCache.Proofs.Fragile
import LayeredCache.Proofs.Purging

namespace LayeredCache

open LayeredCache.Action

variable {K V σ X : Type}

/-! ### Removed entries -/

section Removed

variable [DecidableEq K]

/-- The number of keys that are stored before and not afterwards. -/
def Table.removed (before after : Table K X) : Nat :=
  (before.keys.toFinset \ after.keys.toFinset).card

theorem Table.removed_self (table : Table K X) : table.removed table = 0 := by
  rw [removed, Finset.sdiff_self, Finset.card_empty]

/-- A purge removes the keys that it lists. -/
theorem Purges.removed_eq {memory : Memory K V} {waiting removed : List K}
    {before after : Table K (SoftReference K V)}
    (purges : Purges memory waiting removed before after) :
    before.removed after = removed.length := by
  have same : before.keys.toFinset \ after.keys.toFinset = removed.toFinset := by
    ext key
    rw [Finset.mem_sdiff, List.mem_toFinset, List.mem_toFinset, List.mem_toFinset,
      Table.mem_keys, Table.mem_keys, purges.find?]
    by_cases gone : key ∈ removed
    · obtain ⟨-, reference, found, -⟩ := (purges.mem key).mp gone
      simp [gone, found]
    · simp [gone]
  rw [Table.removed, same, List.toFinset_card_of_nodup purges.nodup]

end Removed

/-! ### Openings -/

namespace SoftLayer

variable {delegate : Cache K V σ (SoftReference K V)} {machine : Machine K V (SoftLayer K V σ)}

/-- What a call begins with: all but look-ups drain the notifications, a clear after it has emptied
the ring. -/
def opening (delegate : Cache K V σ (SoftReference K V)) :
    Call K (Shared V) → Action K V (SoftLayer K V σ) Unit
  | .get _ => return ()
  | .clear => do
    Action.modifyLayer ({ · with ring := [] })
    drain delegate
  | .put _ _ | .remove _ | .length | .isEmpty => drain delegate

/-- What a call does when its opening has not failed. -/
def closing (delegate : Cache K V σ (SoftReference K V)) :
    Call K (Shared V) → Action K V (SoftLayer K V σ) (Reply (Shared V))
  | .put key value => do
    let reference ← withQueue delegate fun queue memory alive =>
      queue.register memory alive key value
    below (delegate.put key reference)
    return .done
  | .get key => do return .item (← get delegate key)
  | .remove key => do
    match ← below (delegate.remove key) with
    | none => return .item none
    | some reference => return .item ((← Action.memory).resolve reference)
  | .clear => do
    below delegate.clear
    return .done
  | .length => do return .count (← below delegate.length)
  | .isEmpty => do return .flag ((← below delegate.length) == 0)

/-- Every call is its opening and the rest. -/
theorem call_eq (call : Call K (Shared V)) :
    (SoftLayer.cache delegate).call call =
      opening delegate call >>= fun _ => closing delegate call := by
  cases call with
  | put key value => simp only [Cache.call, SoftLayer.cache, put, opening, closing, bind_assoc]
  | get key => simp only [Cache.call, SoftLayer.cache, opening, closing, pure_bind]
  | remove key =>
    simp only [Cache.call, SoftLayer.cache, remove, opening, closing, bind_assoc]
    refine congrArg (drain delegate >>= ·) (funext fun _ => ?_)
    refine congrArg (below (delegate.remove key) >>= ·) (funext fun found => ?_)
    cases found with
    | none => rw [pure_bind]
    | some reference => rw [bind_assoc]; rfl
  | clear => simp only [Cache.call, SoftLayer.cache, clear, opening, closing, bind_assoc]
  | length => simp only [Cache.call, SoftLayer.cache, length, opening, closing, bind_assoc]
  | isEmpty =>
    simp only [Cache.call, Cache.isEmpty, SoftLayer.cache, length, opening, closing, bind_assoc,
      pure_bind]

/-- The loop over notifications counts nothing, whether it fails or not. -/
theorem removeReclaimed_uncounted (keys : List K) (removed : Nat) :
    (removeReclaimed delegate keys removed).Ends machine
      (fun _ later => later.layer.counters = machine.layer.counters)
      fun _ later => later.layer.counters = machine.layer.counters := by
  induction keys generalizing machine removed with
  | nil => rfl
  | cons key rest inductionHypothesis =>
    simp only [removeReclaimed, below, ends_bind, ends_modifyLayer, ends_within]
    refine ends_of_forall (fun found after => ?_) fun _ _ => rfl
    cases found with
    | none => exact inductionHypothesis removed
    | some reference =>
      simp only [ends_bind, ends_memory]
      split
      · exact inductionHypothesis removed
      · rw [ends_bind, ends_within]
        exact ends_of_forall (fun _ _ => inductionHypothesis (removed + 1)) fun _ _ => rfl

/-- A drain that fails has counted nothing. -/
theorem drain_uncounted :
    (drain delegate).Ends machine (fun _ _ => True)
      fun _ later => later.layer.counters = machine.layer.counters := by
  simp only [drain, ends_bind, ends_layer]
  refine (removeReclaimed_uncounted _ 0).imp (fun removed later _ => ?_) fun _ _ same => same
  split
  · exact trivial
  · exact trivial

/-- What comes after the opening purges nothing. -/
theorem closing_unpurged (call : Call K (Shared V)) :
    (closing delegate call).Ends machine
      (fun _ later => later.layer.counters.purgedEntries = machine.layer.counters.purgedEntries)
      fun _ later => later.layer.counters.purgedEntries =
        machine.layer.counters.purgedEntries := by
  cases call with
  | get key =>
    simp only [closing, get, below, ends_bind, ends_within]
    refine ends_of_forall (fun found after => ?_) fun _ _ => rfl
    cases found with
    | none => rfl
    | some reference =>
      simp only [ends_bind, ends_memory]
      split
      case h_1 =>
        rw [ends_bind]
        exact ends_pin_counted fun _ => rfl
      case h_2 =>
        simp only [name, count, ends_bind, ends_layer, ends_pure, ends_report, ends_within,
          ends_modifyLayer]
        exact ends_of_forall (fun _ _ => rfl) fun _ _ => rfl
  | remove key =>
    simp only [closing, below, ends_bind, ends_within]
    refine ends_of_forall (fun found _ => ?_) fun _ _ => rfl
    cases found with
    | none => rfl
    | some reference => rfl
  | put | clear | length | isEmpty =>
    simp only [closing, below, ends_bind, ends_withQueue, ends_within]
    exact ends_of_forall (fun _ _ => rfl) fun _ _ => rfl

end SoftLayer

/-! ### Runs -/

variable [DecidableEq K]

namespace Shape

variable {delegate : Shape .reference}
  {machine : Machine K V (SoftLayer K V (delegate.State K V))}

/-- An action that ends well counts as purged what it has removed from the delegate. One that fails
counts nothing. -/
def CountsRemoved (delegate : Shape .reference)
    (action : Action K V (SoftLayer K V (delegate.State K V)) Unit) : Prop :=
  ∀ machine, action.Ends machine
    (fun _ later => later.layer.counters = machine.layer.counters.countPurged
      (UInt64.ofNat ((delegate.table machine.layer.delegate).removed
        (delegate.table later.layer.delegate))))
    fun _ later => later.layer.counters = machine.layer.counters

theorem drain_counts :
    delegate.CountsRemoved (SoftLayer.drain delegate.cache : Action K V _ Unit) := by
  intro machine
  have hard := hasSoft_reference delegate
  refine ((SoftLayer.drain_purges (delegate.get_exact hard) (delegate.remove_exact hard)
    machine).and SoftLayer.drain_uncounted).imp (fun _ later next => ?_) fun _ _ failed => failed.2
  obtain ⟨⟨removed, purged⟩, -⟩ := next
  rw [purged.purges.removed_eq]
  exact congrArg SoftLayer.counters purged.layer

/-- A look-up does not drain, and a clear empties the ring before it does. -/
theorem opening_counts (call : Call K (Shared V)) :
    delegate.CountsRemoved (SoftLayer.opening delegate.cache call) := by
  intro machine
  cases call with
  | get key =>
    show machine.layer.counters = _
    rw [Table.removed_self, SoftLayer.countPurged_zero]
  | clear =>
    simp only [SoftLayer.opening, ends_bind, ends_modifyLayer]
    exact drain_counts _
  | put | remove | length | isEmpty => exact drain_counts machine

/-- Whatever else is done with a stack leaves the counters of its soft layer alone. -/
theorem perform_uncounted (machine : Machine K V (SoftLayer K V (delegate.State K V)))
    {deed : Deed K V} (silent : ∀ call, deed ≠ .call call) :
    ((Shape.soft delegate).perform deed).Ends machine
      (fun _ later => later.layer.counters = machine.layer.counters)
      fun _ later => later.layer.counters = machine.layer.counters := by
  cases deed with
  | call call => exact absurd rfl (silent call)
  | reclaim limit => rfl
  | reclaimAll => rfl
  | forceReclaim key => rfl
  | setCapacity position capacity =>
    exact (uncounted_setCapacity (Shape.soft delegate) position capacity machine).imp
      (fun _ _ same => same) fun _ _ no => no.elim
  | setWindow window =>
    rw [Shape.perform, ends_map, Shape.setWindow, Shape.visitSoft, ends_map]
    unfold SoftLayer.setWindow
    split <;> rfl
  | addFault position fault =>
    rw [Shape.perform, ends_bind]
    exact (uncounted_addFault (Shape.soft delegate) position fault machine).imp
      (fun _ _ same => same) fun _ _ no => no.elim
  | hold name value => rfl
  | release name => rfl

end Shape

/-- Something that happens to a stack with a soft layer on top, or a reset of this layer's
counters. -/
inductive Turn (K V : Type) where
  | deed (deed : Deed K V)
  | reset
  deriving DecidableEq

/-- How many entries drains have removed since the last reset. -/
structure Purgings where
  all : Nat := 0
  /-- Those that were removed by drains which then failed. -/
  cutShort : Nat := 0
  deriving DecidableEq

namespace Purgings

variable {delegate : Shape .reference} {purgings : Purgings}
  {machine : Machine K V (SoftLayer K V (delegate.State K V))}

/-- What the drain of a call adds: the entries that are gone from the delegate when it ends. -/
def call (purgings : Purgings) (delegate : Shape .reference)
    (machine : Machine K V (SoftLayer K V (delegate.State K V))) (call : Call K (Shared V)) :
    Purgings :=
  let opened := (SoftLayer.opening delegate.cache call).run machine
  let removed :=
    (delegate.table machine.layer.delegate).removed (delegate.table opened.2.layer.delegate)
  match opened.1 with
  | .ok _ => { purgings with all := purgings.all + removed }
  | .error _ =>
    { all := purgings.all + removed
      cutShort := purgings.cutShort + removed }

/-- What a deed adds. Only calls drain. -/
def deed (purgings : Purgings) (delegate : Shape .reference)
    (machine : Machine K V (SoftLayer K V (delegate.State K V))) : Deed K V → Purgings
  | .call call => purgings.call delegate machine call
  | _ => purgings

/-- A turn, with what it adds. -/
def turn (delegate : Shape .reference) :
    Purgings × Machine K V (SoftLayer K V (delegate.State K V)) → Turn K V →
      Purgings × Machine K V (SoftLayer K V (delegate.State K V))
  | (purgings, machine), .deed deed =>
    (purgings.deed delegate machine deed, (((Shape.soft delegate).perform deed).run machine).2)
  | (_, machine), .reset => ({}, (SoftLayer.resetCounters.run machine).2)

/-- What is removed, and the machine, after turns of a soft layer that was put on a stack of
references. -/
def run (delegate : Shape .reference) (window : Nat) (inner : delegate.State K V)
    (memory : Memory K V) (turns : List (Turn K V)) :
    Purgings × Machine K V (SoftLayer K V (delegate.State K V)) :=
  turns.foldl (turn delegate) ({}, ⟨{ window, delegate := inner }, memory, []⟩)

/-- The counter falls short of the removed entries by those of drains that were cut short. -/
def Tally (purgings : Purgings) (counters : SoftCounters) : Prop :=
  counters.purgedEntries + UInt64.ofNat purgings.cutShort = UInt64.ofNat purgings.all

theorem Tally.same {counters later : SoftCounters} (tally : Tally purgings counters)
    (purged : later.purgedEntries = counters.purgedEntries) : Tally purgings later := by
  rw [Tally, purged]
  exact tally

/-- A drain that ends well adds as much to the counter as to the removed entries. One that fails
adds nothing to the counter. -/
theorem call_tally (tally : Tally purgings machine.layer.counters) (call : Call K (Shared V)) :
    ((Shape.soft delegate).perform (.call call)).Ends machine
      (fun _ later => Tally (purgings.call delegate machine call) later.layer.counters)
      fun _ later => Tally (purgings.call delegate machine call) later.layer.counters := by
  have counted := Shape.opening_counts call machine
  rw [Shape.perform, ends_map]
  show ((SoftLayer.cache delegate.cache).call call).Ends machine _ _
  rw [SoftLayer.call_eq, ends_bind]
  rcases ran : (SoftLayer.opening delegate.cache call).run machine with ⟨cause | answer, opened⟩
  · -- The call ends with its opening, and nothing behind it makes up for what was not counted.
    have counters := (ends_of_error ran).mp counted
    rw [ends_of_error ran]
    simp only [Purgings.call, ran]
    rw [Tally, counters, UInt64.ofNat_add, UInt64.ofNat_add, ← UInt64.add_assoc, tally]
  · have counters := (ends_of_ok ran).mp counted
    rw [ends_of_ok ran]
    have opened : Tally (purgings.call delegate machine call) opened.layer.counters := by
      simp only [Purgings.call, ran]
      rw [Tally, counters, SoftCounters.countPurged, Counter.add, UInt64.ofNat_add,
        UInt64.add_assoc, UInt64.add_comm (UInt64.ofNat _), ← UInt64.add_assoc, tally]
    exact (SoftLayer.closing_unpurged call).imp (fun _ _ same => opened.same same)
      fun _ _ same => opened.same same

theorem deed_tally (tally : Tally purgings machine.layer.counters) (deed : Deed K V) :
    Tally (purgings.deed delegate machine deed)
      (((Shape.soft delegate).perform deed).run machine).2.layer.counters := by
  have others : (∀ call, deed ≠ .call call) →
      (((Shape.soft delegate).perform deed).run machine).2.layer.counters =
        machine.layer.counters :=
    fun silent => (Shape.perform_uncounted machine silent).later
  cases deed with
  | call call => exact (call_tally tally call).later
  | _ => exact tally.same (congrArg SoftCounters.purgedEntries (others nofun))

theorem turns_tally (tally : Tally purgings machine.layer.counters) (turns : List (Turn K V)) :
    Tally (turns.foldl (turn delegate) (purgings, machine)).1
      (turns.foldl (turn delegate) (purgings, machine)).2.layer.counters := by
  induction turns generalizing purgings machine with
  | nil => exact tally
  | cons first rest inductionHypothesis =>
    cases first with
    | deed deed => exact inductionHypothesis (deed_tally tally deed)
    | reset => exact inductionHypothesis rfl

end Purgings

/-- However a soft layer on any stack of references was used, whatever failed meanwhile and whenever
its counters were reset: its counter of purged entries and the entries that were removed by drains
which then failed make up the entries that drains have removed since the last reset. All of them are
counted if no drain was cut short. The counter starts again at zero after 64 bits. -/
theorem purges_fall_short (delegate : Shape .reference) (window : Nat)
    (inner : delegate.State K V) (memory : Memory K V) (turns : List (Turn K V)) :
    let ended := Purgings.run delegate window inner memory turns
    let purged := ended.2.layer.counters.purgedEntries
    purged + UInt64.ofNat ended.1.cutShort = UInt64.ofNat ended.1.all ∧
      (ended.1.cutShort = 0 → purged = UInt64.ofNat ended.1.all) := by
  intro ended purged
  have tally : purged + UInt64.ofNat ended.1.cutShort = UInt64.ofNat ended.1.all :=
    Purgings.turns_tally (by rfl) turns
  refine ⟨tally, fun none => ?_⟩
  rw [← tally, none]
  exact (UInt64.add_zero purged).symm

/-- A drain that removes the entries of two keys, and then one that removes one entry and fails. -/
def drainedTwice : List (Turn Nat String) :=
  ([.call (.put 1 ⟨0, "one"⟩), .call (.put 2 ⟨1, "two"⟩), .call (.put 3 ⟨2, "three"⟩),
    .call (.put 4 ⟨3, "four"⟩), .forceReclaim 1, .forceReclaim 2, .call .length, .forceReclaim 3,
    .forceReclaim 4,
    .addFault 1 { method := .remove, skip := 1, error := .backend "pages" "store is down" },
    .call .clear] : List (Deed Nat String)).map .deed

/-- What the turns remove, and the machine after them. -/
def drainedAfter (turns : List (Turn Nat String)) :=
  Purgings.run (.probe .store) 4 { delegate := { id := "pages" } } {} turns

/-- The first drain counts what it removes, the second one does not. -/
theorem purges_fall_short_drainedTwice :
    (drainedAfter (drainedTwice.take 7)).1 = { all := 2, cutShort := 0 } ∧
      (drainedAfter (drainedTwice.take 7)).2.layer.counters.purgedEntries = 2 ∧
      (drainedAfter drainedTwice).1 = { all := 3, cutShort := 1 } ∧
      (drainedAfter drainedTwice).2.layer.counters.purgedEntries + 1 = 3 := by
  have two : (drainedAfter (drainedTwice.take 7)).1 = { all := 2, cutShort := 0 } := by
    decide +kernel
  have three : (drainedAfter drainedTwice).1 = { all := 3, cutShort := 1 } := by decide +kernel
  obtain ⟨-, counted⟩ := purges_fall_short (.probe .store) 4 { delegate := { id := "pages" } } {}
    (drainedTwice.take 7)
  obtain ⟨short, -⟩ := purges_fall_short (.probe .store) 4 { delegate := { id := "pages" } } {}
    drainedTwice
  unfold drainedAfter at two three ⊢
  rw [two] at counted
  rw [three] at short
  exact ⟨two, counted rfl, three, short⟩

/-! ### An uncounted entry -/

/-- Two values are reclaimed, and the count that drains their notifications fails at the second. -/
def cutDrain : List (Deed Nat String) :=
  [.call (.put 1 ⟨0, "a"⟩), .call (.put 2 ⟨1, "b"⟩), .forceReclaim 1, .forceReclaim 2,
    .addFault 1 { method := .get, skip := 1, error := .backend "probe" "injected" },
    .call .length]

/-- The drain has removed the first of the two entries, and the counter has not moved. -/
theorem cutDrain_uncounted :
    (∀ deed ∈ cutDrain, deed.FailsBefore) ∧
      let ended := drainedAfter (cutDrain.map .deed)
      ended.2.layer.delegate.delegate.table.keys = [2] ∧ ended.1.all = 1 ∧
        ended.2.layer.counters.purgedEntries = 0 := by
  decide +kernel

end LayeredCache
