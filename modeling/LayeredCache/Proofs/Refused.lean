/-
This file proves that a put of a soft layer that is refused below leaves nothing behind.

When the put is refused, the layer has drained its notifications and registered the new reference,
and the registration may have pruned the registry. A drain, even one that is cut short, takes away
entries that have lost their values and no others (`Weeded`). A prune takes away references that are
not held or not live, and nobody holds the new one. So the references that are held and live are
those that were so before, and whatever can be asked of the layer depends on these alone
(`Handles.Agree`).

Earlier calls may have failed in any way. A put is refused if the drain fails or if a probe below
fails it before it gets to the store.
-/

import LayeredCache.Proofs.Freshness
import LayeredCache.Proofs.Healing
import LayeredCache.Proofs.Leftovers
import LayeredCache.Proofs.Numbered

namespace LayeredCache

open LayeredCache.Action

variable {K V σ X : Type}

/-! ### Handles that agree -/

/-- The handles have the same plain pointers and the same live references. -/
structure Handles.Agree (memory : Memory K V) (one other : Handles K V) : Prop where
  values : one.values = other.values
  live : one.references.filter memory.isLive = other.references.filter memory.isLive

/-- How many strong handles to the value at an address there are: each plain pointer is one, and so
is each live reference, however many copies of it there are. -/
def Memory.strongHandles (memory : Memory K V) (handles : Handles K V) (address : Nat) : Nat :=
  handles.values.countP (·.address == address) +
    (((handles.references.filter memory.isLive).filter
      (·.referent.address == address)).map (·.number)).dedup.length

theorem Memory.isLive_of_number {memory : Memory K V} {one other : SoftReference K V}
    (same : one.number = other.number) : memory.isLive one = memory.isLive other := by
  rw [isLive, isLive, same]

/-- A sweep passes over a reference that was reclaimed, whether it is held or not. -/
theorem ReferenceQueue.sweep_dead {handles : Handles K V} {limit : Nat} {memory : Memory K V}
    {first : SoftReference K V} {rest : List (SoftReference K V)}
    (dead : memory.isLive first = false) :
    sweep handles limit memory (first :: rest) = sweep handles limit memory rest := by
  simp only [sweep, Memory.isSoftlyReachable, dead, Bool.false_and, Bool.and_false,
    Bool.false_eq_true, if_false, ite_self]

namespace Handles.Agree

variable {memory : Memory K V} {one other : Handles K V}

theorem append (agree : Agree memory one other) (more : Handles K V) :
    Agree memory (more ++ one) (more ++ other) where
  values := congrArg (more.values ++ ·) agree.values
  live := by
    show (more.references ++ one.references).filter _ =
      (more.references ++ other.references).filter _
    rw [List.filter_append, List.filter_append, agree.live]

theorem mem_iff (agree : Agree memory one other) {reference : SoftReference K V}
    (live : memory.isLive reference = true) :
    reference ∈ one.references ↔ reference ∈ other.references := by
  have listed := congrArg (reference ∈ ·) agree.live
  simpa only [List.mem_filter, live, and_true, eq_iff_iff] using listed

theorem reclaim (agree : Agree memory one other) (reference : SoftReference K V) :
    Agree (memory.reclaim reference) one other where
  values := agree.values
  live := filter_narrow_eq agree.live fun _ live =>
    Memory.isLive_iff.mpr fun before => Memory.isLive_iff.mp live (List.mem_cons_of_mem _ before)

theorem strongHandles_eq (agree : Agree memory one other) (address : Nat) :
    memory.strongHandles one address = memory.strongHandles other address := by
  rw [Memory.strongHandles, Memory.strongHandles, agree.values, agree.live]

theorem isCurrent_eq (agree : Agree memory one other) :
    ReferenceQueue.isCurrent memory one = ReferenceQueue.isCurrent memory other := by
  funext reference
  rw [Bool.eq_iff_iff]
  simp only [ReferenceQueue.isCurrent, Handles.holds, Bool.and_eq_true, List.any_eq_true,
    beq_iff_eq]
  refine and_congr_left fun live => exists_congr fun copy => and_congr_left fun same => ?_
  exact agree.mem_iff ((Memory.isLive_of_number same).trans live)

theorem isSoftlyReachable_eq (agree : Agree memory one other) (reference : SoftReference K V) :
    memory.isSoftlyReachable one reference = memory.isSoftlyReachable other reference := by
  rw [Memory.isSoftlyReachable, Memory.isSoftlyReachable, agree.values]
  refine congrArg₂ and rfl ?_
  rw [Bool.eq_iff_iff, List.all_eq_true, List.all_eq_true]
  refine forall_congr' fun copy => ?_
  cases live : memory.isLive copy with
  | true => rw [agree.mem_iff live]
  | false => simp only [Bool.not_false, Bool.or_true, implies_true]

/-- A sweep asks of the handles only what is live. -/
theorem sweep_eq (agree : Agree memory one other) (limit : Nat)
    (registry : List (SoftReference K V)) :
    ReferenceQueue.sweep one limit memory registry =
      ReferenceQueue.sweep other limit memory registry := by
  induction registry generalizing limit memory with
  | nil => rfl
  | cons first rest inductionHypothesis =>
    cases live : memory.isLive first with
    | false => rw [ReferenceQueue.sweep_dead live, ReferenceQueue.sweep_dead live,
        inductionHypothesis agree]
    | true =>
      have held : one.holds first = other.holds first := by
        simpa only [ReferenceQueue.isCurrent, live, Bool.and_true] using
          congrFun agree.isCurrent_eq first
      rw [ReferenceQueue.sweep, ReferenceQueue.sweep, held, agree.isSoftlyReachable_eq,
        inductionHypothesis agree, inductionHypothesis (agree.reclaim first)]

end Handles.Agree

/-! ### Queues in which a new reference was registered -/

namespace ReferenceQueue

/-- Which number is given next makes no difference to a sweep. -/
theorem sweep_renumbered (handles : Handles K V) (limit : Nat) (memory : Memory K V)
    (registry : List (SoftReference K V)) (nextNumber : Nat) :
    sweep handles limit { memory with nextNumber } registry =
      { sweep handles limit memory registry with
        memory := { (sweep handles limit memory registry).memory with nextNumber } } := by
  induction registry generalizing limit memory with
  | nil => rfl
  | cons first rest inductionHypothesis =>
    have reached : ({ memory with nextNumber } : Memory K V).isSoftlyReachable handles first =
      memory.isSoftlyReachable handles first := rfl
    have live : ({ memory with nextNumber } : Memory K V).isLive first = memory.isLive first := rfl
    have reclaimed : ({ memory with nextNumber } : Memory K V).reclaim first =
      { memory.reclaim first with nextNumber } := rfl
    simp only [sweep, reached, live, reclaimed, inductionHypothesis]
    split
    · rfl
    · split
      · rfl
      · split <;> rfl

/-- A registration adds nothing that is held already, and prunes nothing that is held and live. -/
theorem filter_register (queue : ReferenceQueue K V) {memory : Memory K V} {handles : Handles K V}
    (key : K) (value : Shared V)
    (unheld : handles.holds (memory.refer key value).1 = false) :
    (queue.register memory handles key value).2.1.registry.filter (isCurrent memory handles) =
      queue.registry.filter (isCurrent memory handles) := by
  have passed : ¬ isCurrent memory handles (memory.refer key value).1 = true := by
    rw [isCurrent, unheld, Bool.false_and]
    exact Bool.false_ne_true
  unfold register
  simp only [List.filter_append, List.filter_cons_of_neg passed, List.filter_nil, List.append_nil]
  split
  · exact filter_narrow (fun _ current => current) queue.registry
  · rfl

end ReferenceQueue

/-! ### Weeded tables -/

variable [DecidableEq K]

/-- An erasure of an item that is not chosen leaves the chosen ones. -/
theorem Table.Distinct.filter_erase {X : Type} {table : Table K X} (distinct : table.Distinct)
    {key : K} {item : X} (found : table.find? key = some item) {chosen : X → Bool}
    (passed : chosen item = false) :
    (table.erase key).items.filter chosen = table.items.filter chosen := by
  unfold Table.items Table.erase
  rw [List.filter_map, List.filter_map, List.filter_filter]
  refine congrArg _ (List.filter_congr fun entry listed => ?_)
  by_cases same : entry.1 = key
  · have stored : table.find? key = some entry.2 := distinct.find?_eq_some.mpr (same ▸ listed)
    obtain rfl : item = entry.2 := Option.some.inj (found.symm.trans stored)
    simp [passed]
  · simp [same]

/-- Entries are gone that have lost their values, and no others. -/
structure Weeded (memory : Memory K V) (before after : Table K (SoftReference K V)) : Prop where
  within : after.Within before.items
  live : after.items.filter memory.isLive = before.items.filter memory.isLive
  shown : shown after.find? memory = shown before.find? memory

namespace Weeded

variable {memory : Memory K V} {before middle after : Table K (SoftReference K V)}

theorem same (distinct : before.Distinct) (same : after = before) : Weeded memory before after := by
  subst same
  exact ⟨.self distinct, rfl, rfl⟩

theorem trans (first : Weeded memory before middle) (second : Weeded memory middle after) :
    Weeded memory before after where
  within := ⟨second.within.distinct, List.Subset.trans second.within.listed first.within.listed⟩
  live := second.live.trans first.live
  shown := second.shown.trans first.shown

theorem erase (distinct : before.Distinct) {key : K} {reference : SoftReference K V}
    (found : before.find? key = some reference) (dead : memory.isLive reference = false) :
    Weeded memory before (before.erase key) where
  within := (Table.Within.self distinct).erase key
  live := distinct.filter_erase found dead
  shown := by
    refine SoftLayer.shown_erase ?_
    rw [LayeredCache.shown, found, Option.bind_some, Memory.resolve, dead]
    rfl

end Weeded

/-! ### Drains that may be cut short -/

namespace SoftLayer

variable {delegate : Cache K V σ (SoftReference K V)} {table : σ → Table K (SoftReference K V)}
  {machine middle later : Machine K V (SoftLayer K V σ)}

/-- Notifications are gone, and entries that have lost their values, and nothing else. -/
structure Cleaned (table : σ → Table K (SoftReference K V))
    (machine later : Machine K V (SoftLayer K V σ)) : Prop where
  weeded : Weeded machine.memory (table machine.layer.delegate) (table later.layer.delegate)
  pending : later.layer.queue.pending <:+ machine.layer.queue.pending
  registry : later.layer.queue.registry = machine.layer.queue.registry
  ring : later.layer.ring = machine.layer.ring
  memory : later.memory = machine.memory

theorem Cleaned.trans (first : Cleaned table machine middle) (second : Cleaned table middle later) :
    Cleaned table machine later where
  weeded := first.weeded.trans (first.memory ▸ second.weeded)
  pending := second.pending.trans first.pending
  registry := second.registry.trans first.registry
  ring := second.ring.trans first.ring
  memory := second.memory.trans first.memory

variable (modest : delegate.Modest table)

include modest

theorem removeReclaimed_cleans (keys : List K) (removed : Nat)
    {machine : Machine K V (SoftLayer K V σ)} (waiting : machine.layer.queue.pending = keys)
    (distinct : (table machine.layer.delegate).Distinct) :
    (removeReclaimed delegate keys removed).Ends machine (fun _ => Cleaned table machine)
      fun _ => Cleaned table machine := by
  induction keys generalizing machine removed with
  | nil => exact ⟨.same distinct rfl, List.suffix_refl _, rfl, rfl, rfl⟩
  | cons key rest inductionHypothesis =>
    -- The notification is gone already when the delegate is asked, and stays so if that fails.
    have polled (inner : σ) (memory : Memory K V) (trace : List (Note K))
        (same : memory = machine.memory)
        (weeded : Weeded machine.memory (table machine.layer.delegate) (table inner)) :
        Cleaned table machine
          ⟨{ machine.layer with
              queue := { machine.layer.queue with pending := rest }
              delegate := inner }, memory, trace⟩ :=
      ⟨weeded, waiting ▸ List.suffix_cons key rest, rfl, rfl, same⟩
    have goOn (count : Nat) {middle : Machine K V (SoftLayer K V σ)}
        (left : middle.layer.queue.pending = rest) (cleaned : Cleaned table machine middle) :
        (removeReclaimed delegate rest count).Ends middle (fun _ => Cleaned table machine)
          fun _ => Cleaned table machine :=
      (inductionHypothesis count left cleaned.weeded.within.distinct).imp
        (fun _ _ => cleaned.trans) fun _ _ => cleaned.trans
    simp only [removeReclaimed, below, ends_bind, ends_modifyLayer, ends_within]
    refine (modest.get _ _ key).ends (fun found after next => ?_) fun _ after next => ?_
    · obtain ⟨memory, entries, answer⟩ := next
      have memory : after.memory = machine.memory := memory
      have entries : table after.layer = table machine.layer.delegate := entries
      have answer : found = (table machine.layer.delegate).find? key := answer
      have looked := polled after.layer after.memory after.trace memory (.same distinct entries)
      cases found with
      | none => exact goOn removed rfl looked
      | some reference =>
        simp only [ends_bind, ends_memory, around]
        split
        case isTrue => exact goOn removed rfl looked
        case isFalse dead =>
          have dead : machine.memory.isLive reference = false :=
            memory ▸ Bool.eq_false_iff.mpr dead
          have erases {last : σ} (erased : table last = (table after.layer).erase key) :
              Weeded machine.memory (table machine.layer.delegate) (table last) :=
            erased ▸ entries ▸ .erase distinct answer.symm dead
          rw [ends_bind, ends_within]
          refine (modest.remove _ _ key).ends (fun _ last next => ?_) fun _ last next => ?_
          · exact goOn (removed + 1) rfl
              (polled last.layer last.memory last.trace (Eq.trans next.1 memory) (erases next.2))
          · refine polled last.layer last.memory last.trace (Eq.trans next.1 memory) ?_
            exact next.2.elim (fun kept => .same distinct (Eq.trans kept entries)) erases
    · exact polled after.layer after.memory after.trace next.1 (.same distinct next.2)

theorem drain_cleans (distinct : (table machine.layer.delegate).Distinct) :
    (drain delegate).Ends machine (fun _ => Cleaned table machine)
      fun _ => Cleaned table machine := by
  simp only [drain, name, count, ends_bind, ends_layer]
  refine (removeReclaimed_cleans modest _ 0 rfl distinct).imp (fun removed later cleaned => ?_)
    fun _ _ cleaned => cleaned
  split
  · simp only [ends_bind, ends_layer, ends_pure, ends_report, ends_modifyLayer]
    exact ⟨cleaned.weeded, cleaned.pending, cleaned.registry, cleaned.ring, cleaned.memory⟩
  · exact cleaned

end SoftLayer

/-! ### Refused puts -/

omit [DecidableEq K] in
/-- A call that a probe fails before it takes effect, or that the delegate fails, does nothing. -/
theorem ProbeLayer.intercept_refused {α : Type} {position : Nat} {method : Method} {key : Option K}
    {action : Action K V σ α} {layer : ProbeLayer σ} {memory : Memory K V}
    {failed : σ → Memory K V → Prop}
    (refuses : (Fault.take method layer.faults).1.any (!·.after) = true ∨
      action.Leaves layer.delegate memory (fun _ _ _ => False) failed)
    (unchanged : failed layer.delegate memory) :
    (intercept position method key action).Leaves layer memory (fun _ _ _ => False)
      fun later => failed later.delegate := by
  intro trace
  simp only [intercept, below, fail, ends_bind, ends_updateLayer, ends_note]
  rcases refuses with before | refuses
  · split
    case h_1 none =>
      rw [none] at before
      cases before
    case h_2 fault taken =>
      rw [taken] at before
      rw [if_neg (by simpa using before)]
      simp only [ends_bind, ends_note, ends_throw]
      exact unchanged
  · split
    case h_1 =>
      rw [ends_within]
      exact refuses.ends (fun _ _ no => no) fun _ _ next => next
    case h_2 =>
      split
      · simp only [ends_bind, ends_within]
        exact refuses.ends (fun _ _ no => no.elim) fun _ _ next => next
      · simp only [ends_bind, ends_note, ends_throw]
        exact unchanged

namespace Shape

/-- A probe has a fault for the next put that fails it before it gets to the store. A soft layer has
other things to do first, so nothing is said of it. -/
def refusesPut : {content : Content} → (shape : Shape content) → shape.State K V → Bool
  | _, .store, _ => false
  | _, .lru delegate, layer => delegate.refusesPut layer.delegate
  | _, .probe delegate, layer =>
    (Fault.take .put layer.faults).1.any (!·.after) || delegate.refusesPut layer.delegate
  | _, .soft _, _ => false

/-- A put that does not get to the store fails and changes nothing that is stored. -/
theorem put_refused {content : Content} {shape : Shape content} {layer : shape.State K V}
    (refuses : shape.refusesPut layer = true) (memory : Memory K V) (key : K)
    (item : content.Item K V) :
    (shape.cache.put key item).Leaves layer memory (fun _ _ _ => False)
      fun later after => after = memory ∧ shape.table later = shape.table layer := by
  induction shape with
  | store => cases refuses
  | lru delegate inductionHypothesis =>
    exact LruLayer.put_keeps (fun _ _ _ no => no.elim) (inductionHypothesis refuses item)
  | probe delegate inductionHypothesis =>
    exact ProbeLayer.intercept_refused
      ((Bool.or_eq_true_iff.mp refuses).imp_right fun refuses => inductionHypothesis refuses item)
      ⟨rfl, rfl⟩
  | soft delegate => cases refuses

/-- A stack of references keeps alive what it stores. -/
theorem handles_eq : (shape : Shape .reference) → (layer : shape.State K V) →
    shape.cache.handles layer = ⟨(shape.table layer).items, []⟩
  | .store, _ => rfl
  | .lru delegate, layer => delegate.handles_eq layer.delegate
  | .probe delegate, layer => delegate.handles_eq layer.delegate

variable {delegate : Shape .reference} {layer next : SoftLayer K V (delegate.State K V)}
  {machine later : Machine K V (SoftLayer K V (delegate.State K V))}

/-- Entries that have lost their values make no difference to what is kept alive. -/
theorem agree_handles {memory : Memory K V}
    (weeded : Weeded memory (delegate.table layer.delegate) (delegate.table next.delegate))
    (ring : next.ring = layer.ring) :
    Handles.Agree memory (SoftLayer.handles delegate.cache next)
      (SoftLayer.handles delegate.cache layer) := by
  unfold SoftLayer.handles
  rw [handles_eq, handles_eq, ring]
  refine ⟨rfl, ?_⟩
  show ((delegate.table next.delegate).items ++ []).filter _ =
    ((delegate.table layer.delegate).items ++ []).filter _
  rw [List.append_nil, List.append_nil, weeded.live]

theorem agree_alive
    (weeded : Weeded machine.memory (delegate.table machine.layer.delegate)
      (delegate.table later.layer.delegate))
    (ring : later.layer.ring = machine.layer.ring)
    (held : later.memory.handles = machine.memory.handles) :
    Handles.Agree machine.memory (SoftLayer.alive delegate.cache later)
      (SoftLayer.alive delegate.cache machine) := by
  unfold SoftLayer.alive
  rw [held]
  exact (agree_handles weeded ring).append _

/-- Nobody holds a reference with the number that is given next. -/
theorem unheld_of_numbered
    (numbered : Numbered (delegate.table machine.layer.delegate) machine.memory) (key : K)
    (value : Shared V) :
    (SoftLayer.alive delegate.cache machine).holds (machine.memory.refer key value).1 = false := by
  rw [Handles.holds, SoftLayer.references_alive_of_unheld numbered.unheld, handles_eq,
    List.any_eq_false]
  intro reference listed same
  exact Nat.ne_of_lt (numbered.given reference listed) (beq_iff_eq.mp same)

/-- Notifications and entries that had lost their values may be gone. Of the registered references
those that are held and live are the same, nothing is reclaimed, and callers hold what they held. -/
structure Traceless (delegate : Shape .reference)
    (machine later : Machine K V (SoftLayer K V (delegate.State K V))) : Prop where
  weeded : Weeded machine.memory (delegate.table machine.layer.delegate)
    (delegate.table later.layer.delegate)
  ring : later.layer.ring = machine.layer.ring
  pending : later.layer.queue.pending <:+ machine.layer.queue.pending
  memory : later.memory = { machine.memory with nextNumber := later.memory.nextNumber }
  current :
    let chosen := ReferenceQueue.isCurrent machine.memory (SoftLayer.alive delegate.cache machine)
    later.layer.queue.registry.filter chosen = machine.layer.queue.registry.filter chosen

/-- A put whose drain fails, or that the delegate refuses after the drain, fails and leaves no
trace. -/
theorem put_traceless
    (numbered : Numbered (delegate.table machine.layer.delegate) machine.memory) (key : K)
    (value : Shared V)
    (refused :
      let drained := (SoftLayer.drain delegate.cache).run machine
      (∃ cause, drained.1 = .error cause) ∨ delegate.refusesPut drained.2.layer.delegate = true) :
    (SoftLayer.put delegate.cache key value).Ends machine (fun _ _ => False)
      fun _ => delegate.Traceless machine := by
  have cleans := SoftLayer.drain_cleans delegate.modest numbered.distinct
  rw [SoftLayer.put, ends_bind]
  rcases ran : (SoftLayer.drain delegate.cache).run machine with ⟨cause | _, drained⟩
  · have cleaned := (ends_of_error ran).mp cleans
    rw [ends_of_error ran]
    refine ⟨cleaned.weeded, cleaned.ring, cleaned.pending, ?_, by rw [cleaned.registry]⟩
    rw [cleaned.memory]
  · have cleaned := (ends_of_ok ran).mp cleans
    have refuses : delegate.refusesPut drained.layer.delegate = true := by
      rw [ran] at refused
      refine refused.resolve_left ?_
      rintro ⟨cause, same⟩
      cases same
    rw [ends_of_ok ran]
    simp only [SoftLayer.below, ends_bind, SoftLayer.ends_withQueue, ends_within]
    refine (put_refused refuses _ key _).ends (fun _ _ no => no) fun _ later next => ?_
    obtain ⟨same, entries⟩ := next
    have entries : delegate.table later.layer = delegate.table drained.layer.delegate := entries
    have same : later.memory = (drained.memory.refer key value).2 := same
    have left : Numbered (delegate.table drained.layer.delegate) drained.memory :=
      cleaned.memory ▸ numbered.within cleaned.weeded.within
    have agree := agree_alive cleaned.weeded cleaned.ring (congrArg _ cleaned.memory)
    refine ⟨?weeded, cleaned.ring, ?pending, ?memory, ?current⟩
    case weeded => exact entries ▸ cleaned.weeded
    case pending =>
      have kept := SoftLayer.register_keeps drained.layer.queue drained.memory
        (SoftLayer.alive delegate.cache drained) key value
      exact kept.2.1 ▸ cleaned.pending
    case memory =>
      show later.memory = { machine.memory with nextNumber := later.memory.nextNumber }
      rw [same, cleaned.memory]
      rfl
    case current =>
      rw [← agree.isCurrent_eq, ← cleaned.memory, ← cleaned.registry]
      exact drained.layer.queue.filter_register key value (unheld_of_numbered left key value)

namespace Traceless

variable (traceless : delegate.Traceless machine later)

include traceless

theorem agree : Handles.Agree machine.memory (SoftLayer.alive delegate.cache later)
    (SoftLayer.alive delegate.cache machine) :=
  agree_alive traceless.weeded traceless.ring (by rw [traceless.memory]; rfl)

theorem shows_eq : (Shape.soft delegate).shows later.layer later.memory =
    (Shape.soft delegate).shows machine.layer machine.memory := by
  rw [traceless.memory]
  exact traceless.weeded.shown

theorem registered_eq : SoftLayer.registered delegate.cache later =
    SoftLayer.registered delegate.cache machine := by
  show later.layer.queue.registry.countP
      (ReferenceQueue.isCurrent later.memory (SoftLayer.alive delegate.cache later)) =
    machine.layer.queue.registry.countP
      (ReferenceQueue.isCurrent machine.memory (SoftLayer.alive delegate.cache machine))
  rw [traceless.memory, List.countP_eq_length_filter, List.countP_eq_length_filter,
    ← traceless.current, ← traceless.agree.isCurrent_eq]
  rfl

theorem strongHandles_eq (address : Nat) :
    later.memory.strongHandles (SoftLayer.handles delegate.cache later.layer) address =
      machine.memory.strongHandles (SoftLayer.handles delegate.cache machine.layer) address := by
  rw [traceless.memory]
  exact (agree_handles traceless.weeded traceless.ring).strongHandles_eq address

/-- A sweep reclaims the same references. -/
theorem sweep_eq (limit : Nat) :
    (ReferenceQueue.sweep (SoftLayer.alive delegate.cache later) limit later.memory
        later.layer.queue.registry).reclaimed =
      (ReferenceQueue.sweep (SoftLayer.alive delegate.cache machine) limit machine.memory
        machine.layer.queue.registry).reclaimed := by
  rw [traceless.memory, ReferenceQueue.sweep_renumbered]
  show (ReferenceQueue.sweep (SoftLayer.alive delegate.cache later) limit machine.memory
    later.layer.queue.registry).reclaimed = _
  rw [traceless.agree.sweep_eq, ← ReferenceQueue.sweep_filter fun _ current => current,
    traceless.current, ReferenceQueue.sweep_filter fun _ current => current]

theorem reclaim_eq (limit : Nat) :
    let swept := ((Shape.soft delegate).perform (.reclaim limit)).run later
    let sweptBefore := ((Shape.soft delegate).perform (.reclaim limit)).run machine
    swept.1 = sweptBefore.1 ∧ swept.2.memory.reclaimed = sweptBefore.2.memory.reclaimed := by
  have answers (start : Machine K V (SoftLayer K V (delegate.State K V))) :
      (((Shape.soft delegate).perform (.reclaim limit)).run start).1 =
        .ok (.reclaimed (some (ReferenceQueue.sweep (SoftLayer.alive delegate.cache start) limit
          start.memory start.layer.queue.registry).reclaimed.length)) := rfl
  have reclaims (start : Machine K V (SoftLayer K V (delegate.State K V))) :
      (((Shape.soft delegate).perform (.reclaim limit)).run start).2.memory.reclaimed =
        ((ReferenceQueue.sweep (SoftLayer.alive delegate.cache start) limit start.memory
          start.layer.queue.registry).reclaimed.map (·.number)).reverse ++
            start.memory.reclaimed := by
    show (ReferenceQueue.sweep (SoftLayer.alive delegate.cache start) limit start.memory
      start.layer.queue.registry).memory.reclaimed = _
    rw [ReferenceQueue.memory_sweep, Memory.reclaimEach_eq]
  have same : later.memory.reclaimed = machine.memory.reclaimed := by rw [traceless.memory]
  refine ⟨?_, ?_⟩
  · rw [answers, answers, traceless.sweep_eq]
  · rw [reclaims, reclaims, traceless.sweep_eq, same]

end Traceless

/-! ### Look-ups after the faults -/

/-- The state with no faults left in its probes. -/
def calmed : {content : Content} → (shape : Shape content) → shape.State K V → shape.State K V
  | _, .store, bottom => bottom
  | _, .lru delegate, layer => { layer with delegate := delegate.calmed layer.delegate }
  | _, .probe delegate, layer =>
    { layer with faults := [], delegate := delegate.calmed layer.delegate }
  | _, .soft delegate, layer => { layer with delegate := delegate.calmed layer.delegate }

/-- No probe has a fault. -/
def Calm : {content : Content} → (shape : Shape content) → shape.State K V → Prop
  | _, .store, _ => True
  | _, .lru delegate, layer => delegate.Calm layer.delegate
  | _, .probe delegate, layer => layer.faults = [] ∧ delegate.Calm layer.delegate
  | _, .soft delegate, layer => delegate.Calm layer.delegate

omit [DecidableEq K] in
theorem calm_calmed {content : Content} (shape : Shape content) (layer : shape.State K V) :
    shape.Calm (shape.calmed layer) := by
  induction shape with
  | store => trivial
  | lru delegate inductionHypothesis => exact inductionHypothesis layer.delegate
  | probe delegate inductionHypothesis => exact ⟨rfl, inductionHypothesis layer.delegate⟩
  | soft delegate inductionHypothesis => exact inductionHypothesis layer.delegate

omit [DecidableEq K] in
theorem table_calmed : (shape : Shape .reference) → (layer : shape.State K V) →
    shape.table (shape.calmed layer) = shape.table layer
  | .store, _ => rfl
  | .lru delegate, layer => delegate.table_calmed layer.delegate
  | .probe delegate, layer => delegate.table_calmed layer.delegate

/-- No look-up of a calm stack fails. -/
theorem calm_get : (shape : Shape .reference) → {layer : shape.State K V} → shape.Calm layer →
    (memory : Memory K V) → (key : K) →
    (shape.cache.get key).Leaves layer memory (fun _ later _ => shape.Calm later) fun _ _ => False
  | .store, _, _, _, _ => fun _ => trivial
  | .lru delegate, _, calm, memory, key => LruLayer.get_leaves (delegate.calm_get calm memory key)
  | .probe delegate, _, calm, memory, key =>
    (ProbeLayer.intercept_passes (by rw [calm.1]; exact List.not_mem_nil)
      (delegate.calm_get calm.2 memory key)).imp
      (fun _ _ _ next => ⟨next.1.trans calm.1, next.2⟩) fun _ _ no => no.2

/-- No removal of a calm stack fails. -/
theorem calm_remove : (shape : Shape .reference) → {layer : shape.State K V} → shape.Calm layer →
    (memory : Memory K V) → (key : K) →
    (shape.cache.remove key).Leaves layer memory (fun _ _ _ => True) fun _ _ => False
  | .store, _, _, _, _ => fun _ => trivial
  | .lru delegate, _, calm, memory, key =>
    LruLayer.remove_leaves (delegate.calm_remove calm memory key)
  | .probe delegate, _, calm, memory, key =>
    (ProbeLayer.intercept_passes (by rw [calm.1]; exact List.not_mem_nil)
      (delegate.calm_remove calm.2 memory key)).imp (fun _ _ _ _ => trivial) fun _ _ no => no.2

/-- A look-up finds what is stored and keeps a stack calm, unless it meets a fault. -/
theorem get_unless_fault (shape : Shape .reference) (layer : shape.State K V) (memory : Memory K V)
    (key : K) :
    (shape.cache.get key).Leaves layer memory
      (fun found later after => after = memory ∧ found = (shape.table layer).find? key ∧
        (shape.Calm layer → shape.Calm later))
      fun _ _ => ¬ shape.Calm layer := by
  have answers := shape.modest.get layer memory key
  by_cases calm : shape.Calm layer
  · exact fun trace => ((answers trace).and (shape.calm_get calm memory key trace)).imp
      (fun _ _ next => ⟨next.1.1, next.1.2.2, fun _ => next.2⟩) fun _ _ no => no.2.elim
  · exact answers.imp (fun _ _ _ next => ⟨next.1, next.2.2, fun other => (calm other).elim⟩)
      fun _ _ _ => calm

/-- A look-up answers what is shown, unless it meets a fault. -/
theorem ends_lookUp (key : K) :
    ((Shape.soft delegate).perform (.call (.get key))).Ends machine
      (fun outcome _ => outcome =
        .reply (.item ((Shape.soft delegate).shows machine.layer machine.memory key)))
      fun _ _ => ¬ (Shape.soft delegate).Calm machine.layer := by
  rw [perform, ends_map, Cache.call, ends_bind]
  show (SoftLayer.get delegate.cache key).Ends machine _ _
  simp only [SoftLayer.get, SoftLayer.below, SoftLayer.count, ends_bind, ends_within, ends_pure]
  refine (delegate.get_unless_fault _ _ key).ends (fun found after next => ?_)
    fun _ _ stormy => stormy
  obtain ⟨same, answer, stays⟩ := next
  have same : after.memory = machine.memory := same
  have answer : found = (delegate.table machine.layer.delegate).find? key := answer
  have shown : (Shape.soft delegate).shows machine.layer machine.memory key =
      found.bind machine.memory.resolve := answer ▸ rfl
  have replies {value : Option (Shared V)} (same : found.bind machine.memory.resolve = value) :
      (.reply (.item value) : Outcome V) =
        .reply (.item ((Shape.soft delegate).shows machine.layer machine.memory key)) :=
    congrArg (fun found => Outcome.reply (.item found)) (same.symm.trans shown.symm)
  cases found with
  | none => exact replies rfl
  | some reference =>
    simp only [ends_bind, ends_memory, around, same]
    split
    case h_1 value resolved =>
      rw [ends_bind]
      exact SoftLayer.ends_pin fun _ _ _ => replies resolved
    case h_2 gone =>
      simp only [ends_bind, SoftLayer.name, ends_layer, ends_pure, ends_report, ends_within]
      by_cases calm : delegate.Calm machine.layer.delegate
      · exact (delegate.calm_remove (stays calm) machine.memory key _).imp
          (fun _ _ _ => replies gone) fun _ _ no => no.elim
      · exact ends_of_forall (fun _ _ => replies gone) fun _ _ => calm

theorem lookUp_eq_of_ok {key : K} {outcome : Outcome V}
    (answered : (Shape.soft delegate).lookUp machine key = .ok outcome) :
    outcome = .reply (.item ((Shape.soft delegate).shows machine.layer machine.memory key)) :=
  (ends_lookUp key).of_answer answered

/-- Once there are no faults a look-up answers what was shown before. -/
theorem lookUp_calmed (key : K) :
    let calmed := { machine with layer := (Shape.soft delegate).calmed machine.layer }
    (Shape.soft delegate).lookUp calmed key =
      .ok (.reply (.item ((Shape.soft delegate).shows machine.layer machine.memory key))) := by
  intro calmed
  have same : (Shape.soft delegate).shows calmed.layer calmed.memory =
      (Shape.soft delegate).shows machine.layer machine.memory := by
    show shown (delegate.table (delegate.calmed machine.layer.delegate)).find? machine.memory = _
    rw [table_calmed]
    rfl
  have calm : (Shape.soft delegate).Calm calmed.layer := calm_calmed _ _
  have ends : ((Shape.soft delegate).perform (.call (.get key))).Ends calmed _ _ := ends_lookUp key
  obtain ⟨outcome, later, ran, rfl⟩ := (ends.imp (fun _ _ next => next)
    fun _ _ stormy => stormy calm).run_eq
  rw [lookUp, ran, same]

end Shape

/-- However a soft layer over a stack of recency layers and probes has been used, and whatever has
failed before: if the drain of a put fails, or if the put is failed below before it gets to the
store, the put fails and the layer shows what it showed. A look-up that meets no further fault
answers this, and one that does not fail answers no differently. The number of registered references
and the ring are the same; notifications may have been worked through, but none is new; nothing is
reclaimed and callers hold what they held. The stack has as many strong handles to any value as
before, and a sweep that comes next does just what it would have done before. -/
theorem Stack.refused_put_traceless {id : String} {hasLock : Bool} {layers : List Layer}
    {inner : Stack K V .reference}
    (assembled : Stack.assemble id hasLock layers .reference = .ok inner) (window : Nat)
    (deeds : List (Deed K V)) (key : K) (value : Shared V) :
    let soft := Shape.soft inner.shape
    let machine := (soft.run deeds { layer := { window, delegate := inner.state } }).2
    let drained := (SoftLayer.drain inner.shape.cache).run machine
    let put := (soft.perform (.call (.put key value))).run machine
    (∃ cause, drained.1 = .error cause) ∨ inner.shape.refusesPut drained.2.layer.delegate = true →
      (∃ cause, put.1 = .error cause) ∧
      soft.shows put.2.layer put.2.memory = soft.shows machine.layer machine.memory ∧
      (∀ start ∈ [machine, put.2], ∀ other,
        let shown : Outcome V := .reply (.item (soft.shows machine.layer machine.memory other))
        soft.lookUp { start with layer := soft.calmed start.layer } other = .ok shown ∧
          ∀ outcome, soft.lookUp start other = .ok outcome → outcome = shown) ∧
      SoftLayer.registered inner.shape.cache put.2 =
        SoftLayer.registered inner.shape.cache machine ∧
      put.2.layer.ring = machine.layer.ring ∧
      put.2.layer.queue.pending <:+ machine.layer.queue.pending ∧
      put.2.memory = { machine.memory with nextNumber := put.2.memory.nextNumber } ∧
      (∀ address, put.2.memory.strongHandles (soft.cache.handles put.2.layer) address =
        machine.memory.strongHandles (soft.cache.handles machine.layer) address) ∧
      ∀ limit,
        let swept := (soft.perform (.reclaim limit)).run put.2
        let sweptBefore := (soft.perform (.reclaim limit)).run machine
        swept.1 = sweptBefore.1 ∧ swept.2.memory.reclaimed = sweptBefore.2.memory.reclaimed := by
  intro soft machine drained put refused
  have start : Numbered (inner.shape.table inner.state) ({} : Memory K V) := by
    rw [table_assemble assembled]
    exact ⟨Table.distinct_empty, List.forall_mem_nil _, rfl⟩
  have numbered : Numbered (inner.shape.table machine.layer.delegate) machine.memory :=
    Shape.run_numbered start deeds
  have ends : (soft.perform (.call (.put key value))).Ends machine (fun _ _ => False)
      fun _ => inner.shape.Traceless machine := by
    rw [Shape.perform, ends_map, Cache.call, ends_bind]
    exact (Shape.put_traceless numbered key value refused).imp (fun _ _ no => no.elim)
      fun _ _ traceless => traceless
  obtain ⟨cause, later, same, traceless⟩ := ends.run_eq_error
  have same : put = (.error cause, later) := same
  have shown : ∀ start ∈ [machine, later],
      soft.shows start.layer start.memory = soft.shows machine.layer machine.memory := by
    intro start listed
    rcases List.mem_pair.mp listed with rfl | rfl
    · rfl
    · exact traceless.shows_eq
  rw [same]
  refine ⟨⟨cause, rfl⟩, traceless.shows_eq, fun start listed other => ?_, traceless.registered_eq,
    traceless.ring, traceless.pending, traceless.memory, traceless.strongHandles_eq,
    traceless.reclaim_eq⟩
  rw [← shown start listed]
  exact ⟨Shape.lookUp_calmed other, fun _ => Shape.lookUp_eq_of_ok⟩

/-- A recency layer over a store, with a probe between them. -/
def brimming : Stack Nat String .reference :=
  ⟨.lru (.probe .store), { capacity := 2, delegate := { delegate := { id := "pages" } } }⟩

/-- One of two values is read, the other one is reclaimed by force, and the store will fail the next
put. -/
def spilling : List (Deed Nat String) :=
  [.call (.put 1 ⟨0, "one"⟩), .call (.put 2 ⟨1, "two"⟩), .call (.get 1), .forceReclaim 2,
    .addFault 1 { method := .put, error := .backend "pages" "store is full" }]

/-- The failed put has worked through the notification and removed its entry. The new value has no
strong handle, and the one that was read has its two, although a second reference was registered. -/
theorem refused_put_traceless_spilling :
    Stack.assemble "pages" false [.soft 1, .lru 2, .probe] .value =
        .ok (⟨.soft brimming.shape, { window := 1, delegate := brimming.state }⟩ :
          Stack Nat String .value) ∧
      let soft := Shape.soft brimming.shape
      let machine := (soft.run spilling { layer := { window := 1, delegate := brimming.state } }).2
      let put := (soft.perform (.call (.put 3 ⟨2, "three"⟩))).run machine
      put.1 = .error (.backend "pages" "store is full") ∧
        machine.layer.queue.pending = [2] ∧ put.2.layer.queue.pending = [] ∧
        (brimming.shape.table put.2.layer.delegate).keys = [1] ∧
        put.2.layer.queue.registry.length = 3 ∧
        SoftLayer.registered brimming.shape.cache put.2 = 1 ∧
        put.2.memory.strongHandles (soft.cache.handles put.2.layer) 2 = 0 ∧
        put.2.memory.strongHandles (soft.cache.handles put.2.layer) 0 = 2 := by
  have assembled : Stack.assemble "pages" false [.lru 2, .probe] .reference = .ok brimming := rfl
  have refuses : brimming.shape.refusesPut
      ((SoftLayer.drain brimming.shape.cache).run ((Shape.soft brimming.shape).run spilling
        { layer := { window := 1, delegate := brimming.state } }).2).2.layer.delegate = true := by
    decide +kernel
  obtain ⟨-, -, -, registered, -, -, -, handles, -⟩ :=
    Stack.refused_put_traceless assembled 1 spilling 3 ⟨2, "three"⟩ (Or.inr refuses)
  refine ⟨rfl, by decide +kernel, by decide +kernel, by decide +kernel, by decide +kernel,
    by decide +kernel, registered.trans ?_, (handles 2).trans ?_, (handles 0).trans ?_⟩
  · decide +kernel
  · decide +kernel
  · decide +kernel

end LayeredCache
