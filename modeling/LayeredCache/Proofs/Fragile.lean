/-
This file proves how far the size of a soft layer can be off when calls of its store fail before
they take effect.

After every run each stored key whose value was reclaimed has a notification waiting, but for some
keys, and of these there are no more than calls that have failed while they could drain: a failed
put, removal, clear or count loses at most one notification. A count that succeeds is therefore too
high by no more than that. A notification can really be lost for ever, and the last theorems show
the shortest way.
-/

import LayeredCache.Proofs.Counting
import LayeredCache.Proofs.Losses
import LayeredCache.Proofs.Overdue

namespace LayeredCache

open LayeredCache.Action

variable {K V : Type}

/-! ### Calls that may lose a notification -/

/-- A call that drains has failed. -/
def Occurrence.failsDraining : Occurrence K V → Bool
  | ⟨.call (.get _), _⟩ => false
  | ⟨.call _, .error _⟩ => true
  | _ => false

/-- The number of calls that may have lost a notification. -/
def slips (past : List (Occurrence K V)) : Nat := past.countP Occurrence.failsDraining

theorem slips_snoc (past : List (Occurrence K V)) (occurrence : Occurrence K V) :
    slips (past ++ [occurrence]) =
      slips past + if occurrence.failsDraining = true then 1 else 0 := by
  rw [slips, List.countP_append, List.countP_singleton]
  rfl

/-! ### A soft layer over a failing store -/

/-- The shape of a soft layer over a store, with a probe between them. -/
abbrev Shape.fragile : Shape .value := .soft (.probe .store)

/-- The machine of such a stack before anything has been done with it. -/
def fragileMachine (id : String) (hasLock : Bool) (window : Nat) :
    Machine K V (Shape.fragile.State K V) :=
  { layer := { window, delegate := { delegate := { id, hasLock } } } }

/-- Assembling a soft layer and a probe around a store gives this machine. -/
theorem assemble_fragile {id : String} (named : id ≠ "") (hasLock : Bool) {window : Nat}
    (positive : 0 < window) :
    Stack.assemble id hasLock [.soft window, .probe] .value =
      .ok (⟨Shape.fragile, (fragileMachine id hasLock window).layer⟩ : Stack K V .value) := by
  have store : Stack.assemble id hasLock [] .reference =
      .ok (⟨.store, { id, hasLock }⟩ : Stack K V .reference) := Stack.ofStore_eq named hasLock
  rw [Stack.assemble, Stack.assemble, store]
  exact Stack.withSoft_eq _ positive

/-- The probe fails calls before they take effect. -/
def fragileReady (layer : ProbeLayer (Store K (SoftReference K V))) : Prop :=
  FailsBefore layer.faults

/-- The references in the store. -/
def fragileTable (layer : ProbeLayer (Store K (SoftReference K V))) : Table K (SoftReference K V) :=
  layer.delegate.table

variable [DecidableEq K]

/-- At most so many notifications were lost as calls have failed that could drain. -/
def KeepsTrack (past : List (Occurrence K V)) (machine : Machine K V (Shape.fragile.State K V)) :
    Prop :=
  SoftLayer.Loses fragileReady fragileTable (slips past) machine.layer machine.memory

theorem keepsTrack_start (id : String) (hasLock : Bool) (window : Nat) :
    KeepsTrack ([] : List (Occurrence K V)) (fragileMachine id hasLock window) :=
  ⟨[], Nat.le_refl _, List.forall_mem_nil _, Table.distinct_empty, rfl, InStep.empty _⟩

theorem fragile_fallible :
    ((.probe .store : Shape .reference).cache : Cache K V _ _).Fallible
      Content.reference.handles fragileReady fragileTable :=
  ProbeLayer.fallible (reliable_store _) _

section Steps

variable {past : List (Occurrence K V)} {machine later : Machine K V (Shape.fragile.State K V)}

/-- What keeps the lost notifications is no slip. -/
theorem KeepsTrack.next {occurrence : Occurrence K V} (quiet : occurrence.failsDraining = false)
    (loses : SoftLayer.Loses fragileReady fragileTable (slips past) later.layer later.memory) :
    KeepsTrack (past ++ [occurrence]) later := by
  rwa [KeepsTrack, slips_snoc, quiet, if_neg Bool.false_ne_true, Nat.add_zero]

/-- A failed call that drains loses at most one notification. -/
theorem KeepsTrack.slip {occurrence : Occurrence K V} (fails : occurrence.failsDraining = true)
    (loses : SoftLayer.Loses fragileReady fragileTable (slips past + 1) later.layer later.memory) :
    KeepsTrack (past ++ [occurrence]) later := by
  rwa [KeepsTrack, slips_snoc, fails, if_pos rfl]

theorem keepsTrack_call (keeps : KeepsTrack past machine) (call : Call K (Shared V)) :
    (Shape.fragile.perform (.call call)).Ends machine
      (fun outcome => KeepsTrack (past ++ [⟨.call call, .ok outcome⟩]))
      fun cause => KeepsTrack (past ++ [⟨.call call, .error cause⟩]) := by
  simp only [Shape.perform, ends_map]
  cases call with
  | put key value =>
    simp only [Cache.call, ends_bind, ends_pure]
    exact (SoftLayer.put_loses fragile_fallible keeps key value).imp
      (fun _ _ next => KeepsTrack.next rfl next) fun _ _ next => KeepsTrack.slip rfl next
  | get key =>
    simp only [Cache.call, ends_bind, ends_pure]
    exact (SoftLayer.get_loses fragile_fallible keeps key).imp
      (fun _ _ next => KeepsTrack.next rfl next) fun _ _ next => KeepsTrack.next rfl next
  | remove key =>
    simp only [Cache.call, ends_bind, ends_pure]
    exact (SoftLayer.remove_loses fragile_fallible keeps key).imp
      (fun _ _ next => KeepsTrack.next rfl next) fun _ _ next => KeepsTrack.slip rfl next
  | clear =>
    simp only [Cache.call, ends_bind, ends_pure]
    exact (SoftLayer.clear_loses fragile_fallible keeps).imp
      (fun _ _ next => KeepsTrack.next rfl next) fun _ _ next => KeepsTrack.slip rfl next
  | length =>
    simp only [Cache.call, ends_bind, ends_pure]
    exact (SoftLayer.length_loses fragile_fallible keeps).imp
      (fun _ _ next => KeepsTrack.next rfl next.1) fun _ _ next => KeepsTrack.slip rfl next
  | isEmpty =>
    simp only [Cache.call, Cache.isEmpty, ends_bind, ends_pure]
    exact (SoftLayer.length_loses fragile_fallible keeps).imp
      (fun _ _ next => KeepsTrack.next rfl next.1) fun _ _ next => KeepsTrack.slip rfl next

/-- No capacity can be set. -/
theorem setCapacity_fragile (position capacity : Nat) :
    (Shape.fragile.setCapacity position capacity).Ends machine
      (fun _ later => later.layer = machine.layer ∧ later.memory = machine.memory)
      fun _ _ => False := by
  unfold Shape.setCapacity Shape.visit
  rw [ends_map]
  split
  · exact ⟨rfl, rfl⟩
  · rw [SoftLayer.below, ends_within]
    unfold Shape.visit
    split
    · exact ⟨rfl, rfl⟩
    · rw [ProbeLayer.below, ends_within]
      unfold Shape.visit
      split
      · exact ⟨rfl, rfl⟩
      · exact ⟨rfl, rfl⟩

omit [DecidableEq K] in
/-- A fault is added to the probe, or nothing happens. -/
theorem addFault_fragile (position : Nat) (fault : Fault) :
    (Shape.fragile.addFault position fault).Ends machine
      (fun _ later => later.memory = machine.memory ∧
        (later.layer = machine.layer ∨
          later.layer = { machine.layer with
            delegate := { machine.layer.delegate with
              faults := machine.layer.delegate.faults ++ [fault] } }))
      fun _ _ => False := by
  unfold Shape.addFault Shape.visit
  rw [ends_bind]
  split
  · exact ⟨rfl, Or.inl rfl⟩
  · rw [SoftLayer.below, ends_within]
    unfold Shape.visit
    split
    · exact ⟨rfl, Or.inr rfl⟩
    · rw [ProbeLayer.below, ends_within]
      unfold Shape.visit
      split
      · exact ⟨rfl, Or.inl rfl⟩
      · exact ⟨rfl, Or.inl rfl⟩

end Steps

theorem keepsTrack_perform (past : List (Occurrence K V))
    (machine : Machine K V (Shape.fragile.State K V)) (deed : Deed K V) (before : deed.FailsBefore)
    (keeps : KeepsTrack past machine) :
    (Shape.fragile.perform deed).Ends machine
      (fun outcome => KeepsTrack (past ++ [⟨deed, .ok outcome⟩]))
      fun cause => KeepsTrack (past ++ [⟨deed, .error cause⟩]) := by
  cases deed with
  | call call => exact keepsTrack_call keeps call
  | reclaim limit =>
    rw [Shape.perform, ends_map, Shape.reclaim, Shape.visitSoft, ends_map]
    exact (SoftLayer.reclaim_loses fragile_fallible keeps limit).imp
      (fun _ _ next => KeepsTrack.next rfl next) fun _ _ no => no.elim
  | reclaimAll =>
    rw [Shape.perform, ends_map, Shape.reclaimAll, Shape.visitSoft, ends_map, SoftLayer.reclaimAll,
      ends_bind, ends_layer]
    exact (SoftLayer.reclaim_loses fragile_fallible keeps _).imp
      (fun _ _ next => KeepsTrack.next rfl next) fun _ _ no => no.elim
  | forceReclaim key =>
    rw [Shape.perform, ends_map, Shape.forceReclaim, Shape.visitSoft, ends_map]
    exact (SoftLayer.forceReclaim_loses fragile_fallible keeps key).imp
      (fun _ _ next => KeepsTrack.next rfl next) fun _ _ no => no.elim
  | setCapacity position capacity =>
    rw [Shape.perform, ends_map]
    refine (setCapacity_fragile position capacity).imp (fun _ later next => ?_)
      fun _ _ no => no.elim
    refine KeepsTrack.next rfl ?_
    rw [next.1, next.2]
    exact keeps
  | setWindow window =>
    rw [Shape.perform, ends_map, Shape.setWindow, Shape.visitSoft, ends_map]
    obtain ⟨lost, few, lossy⟩ := keeps
    unfold SoftLayer.setWindow
    split
    · exact KeepsTrack.next rfl ⟨lost, few, lossy⟩
    · exact KeepsTrack.next rfl ⟨lost, few, lossy.same rfl lossy.ready rfl rfl⟩
  | addFault position fault =>
    rw [Shape.perform, ends_bind]
    refine (addFault_fragile position fault).imp (fun _ later next => ?_) fun _ _ no => no.elim
    refine KeepsTrack.next rfl ?_
    obtain ⟨lost, few, lossy⟩ := keeps
    obtain ⟨memory, layer | layer⟩ := next
    · rw [layer, memory]
      exact ⟨lost, few, lossy⟩
    · rw [layer, memory]
      refine ⟨lost, few, lossy.same rfl ?_ rfl rfl⟩
      refine List.forall_mem_append.mpr ⟨lossy.ready, ?_⟩
      exact List.forall_mem_singleton.mpr (before position fault rfl)
  | hold name value =>
    obtain ⟨lost, few, lossy⟩ := keeps
    exact KeepsTrack.next rfl ⟨lost, few, lossy.holding_values _⟩
  | release name =>
    obtain ⟨lost, few, lossy⟩ := keeps
    exact KeepsTrack.next rfl ⟨lost, few, lossy.holding_values _⟩

/-- Every run keeps track of what was reclaimed, up to what was lost. -/
theorem keepsTrack_run (id : String) (hasLock : Bool) (window : Nat) (deeds : List (Deed K V))
    (before : ∀ deed ∈ deeds, deed.FailsBefore) :
    KeepsTrack (Shape.fragile.run deeds (fragileMachine id hasLock window)).1
      (Shape.fragile.run deeds (fragileMachine id hasLock window)).2 :=
  Shape.run_induction KeepsTrack Deed.FailsBefore keepsTrack_perform deeds before []
    (fragileMachine id hasLock window) (keepsTrack_start id hasLock window)

/-- After every run, whatever calls of the store fail before they take effect: every stored key
whose value was reclaimed has a notification waiting, but for no more keys than calls that drain
have failed; and a count that succeeds next answers no less than the number of keys with a value,
and more by no more than so many. -/
theorem fragile_loses_few (id : String) (hasLock : Bool) (window : Nat) (deeds : List (Deed K V))
    (before : ∀ deed ∈ deeds, deed.FailsBefore) :
    let ended := Shape.fragile.run deeds (fragileMachine id hasLock window)
    let layer := ended.2.layer
    (∃ lost : List K, lost.length ≤ slips ended.1 ∧
      ∀ key reference, layer.delegate.delegate.table.find? key = some reference →
        ended.2.memory.isLive reference = false → key ∈ lost ∨ key ∈ layer.queue.pending) ∧
    ∀ number,
      ((Shape.fragile.perform (.call .length)).run ended.2).1 = .ok (.reply (.count number)) →
      ∃ keys, Enumerates keys (Shape.fragile.shows layer ended.2.memory) ∧
        keys.length ≤ number ∧ number ≤ keys.length + slips ended.1 := by
  intro ended layer
  have keeps : KeepsTrack ended.1 ended.2 := keepsTrack_run id hasLock window deeds before
  refine ⟨?_, fun number answered => ?_⟩
  · obtain ⟨lost, few, lossy⟩ := keeps
    refine ⟨lost, few, fun key reference found dead => ?_⟩
    exact List.mem_append.mp (lossy.inStep.notified key reference found dead)
  · have ends : Shape.fragile.cache.length.Ends ended.2
        (fun number _ => ∃ keys, Enumerates keys (Shape.fragile.shows layer ended.2.memory) ∧
          keys.length ≤ number ∧ number ≤ keys.length + slips ended.1)
        fun _ _ => True :=
      (SoftLayer.length_loses fragile_fallible keeps).imp (fun _ _ next => next.2)
        fun _ _ _ => trivial
    exact Shape.of_counted ends answered

/-! ### A lost notification -/

/-- One of two values is reclaimed, and the count that would remove its entry fails. -/
def failedDrain : List (Deed Nat String) :=
  [.call (.put 1 ⟨0, "one"⟩), .call (.put 2 ⟨1, "two"⟩), .forceReclaim 1,
    .addFault 1 { method := .get, error := .backend "pages" "store is down" }, .call .length]

/-- One call has failed, one notification is lost, and the count is too high by one. -/
theorem fragile_loses_few_failedDrain :
    Stack.assemble "pages" false [.soft 4, .probe] .value =
        .ok (⟨Shape.fragile, (fragileMachine "pages" false 4).layer⟩ : Stack Nat String .value) ∧
      (∀ deed ∈ failedDrain, deed.FailsBefore) ∧
      let ended := Shape.fragile.run failedDrain (fragileMachine "pages" false 4)
      slips ended.1 = 1 ∧
        ((Shape.fragile.perform (.call .length)).run ended.2).1 = .ok (.reply (.count 2)) ∧
        ∃ keys, Enumerates keys (Shape.fragile.shows ended.2.layer ended.2.memory) ∧
          2 ≤ keys.length + 1 := by
  have before : ∀ deed ∈ failedDrain, deed.FailsBefore := by decide
  have slipped :
      slips (Shape.fragile.run failedDrain (fragileMachine "pages" false 4)).1 = 1 := by
    decide +kernel
  have counted : ((Shape.fragile.perform (.call .length)).run
      (Shape.fragile.run failedDrain (fragileMachine "pages" false 4)).2).1 =
        .ok (.reply (.count 2)) := by
    decide +kernel
  obtain ⟨-, counts⟩ := fragile_loses_few "pages" false 4 failedDrain before
  obtain ⟨keys, enumerates, -, most⟩ := counts 2 counted
  refine ⟨assemble_fragile (by decide) false (by decide), before, slipped, counted,
    keys, enumerates, ?_⟩
  rwa [slipped] at most

/-- Only stored keys have a value. -/
theorem stored_of_fragile {K V : Type} [DecidableEq K] {layer : Shape.fragile.State K V}
    {memory : Memory K V} {keys : List K}
    (enumerates : Enumerates keys (Shape.fragile.shows layer memory)) {key : K}
    (member : key ∈ keys) :
    key ∈ layer.delegate.delegate.table.keys ∧
      (Shape.fragile.shows layer memory key).isSome = true := by
  have visible := (enumerates.mem key).mp member
  obtain ⟨reference, found, -⟩ := shown_isSome.mp visible
  exact ⟨Table.mem_keys.mpr ⟨reference, found⟩, visible⟩

/-- The machine after the failed count. -/
def forgetful : Machine Nat String (Shape.fragile.State Nat String) :=
  (Shape.fragile.run failedDrain (fragileMachine "pages" false 4)).2

/-- After the failed count the entry of the reclaimed value is still stored and nothing waits any
more. The next count succeeds and includes the entry, although only one key has a value. -/
theorem failedDrain_forgets :
    (∀ deed ∈ failedDrain, deed.FailsBefore) ∧
      (∃ reference, forgetful.layer.delegate.delegate.table.find? 1 = some reference ∧
        forgetful.memory.isLive reference = false) ∧
      1 ∉ forgetful.layer.queue.pending ∧
      ((Shape.fragile.perform (.call .length)).run forgetful).1 = .ok (.reply (.count 2)) ∧
      ∀ keys, Enumerates keys (Shape.fragile.shows forgetful.layer forgetful.memory) →
        keys.length ≤ 1 := by
  have stored : forgetful.layer.delegate.delegate.table.keys = [2, 1] := by decide +kernel
  have hidden : (Shape.fragile.shows forgetful.layer forgetful.memory 1).isSome = false := by
    decide +kernel
  refine ⟨by decide, ⟨⟨0, 1, ⟨0, "one"⟩⟩, by decide +kernel, by decide +kernel⟩,
    by decide +kernel, by decide +kernel, fun keys enumerates => ?_⟩
  have only : keys ⊆ [2] := by
    intro key member
    obtain ⟨listed, visible⟩ := stored_of_fragile enumerates member
    rw [stored, List.mem_cons, List.mem_singleton] at listed
    rcases listed with rfl | rfl
    · exact List.mem_singleton_self 2
    · rw [hidden] at visible
      cases visible
  exact (List.subperm_of_subset enumerates.nodup only).length_le

end LayeredCache
