/-
This file proves what a soft layer keeps up when calls of its delegate may fail.

A drain takes a notification out of the queue before it asks the delegate about the key. If the
delegate fails then, the operation fails with it, and the notification is lost: nobody removes the
entry any more, unless its key is used again. `Lossy` lists the keys of lost notifications as a
ghost. Everything else is as in a sound layer, so an operation that fails adds at most one key to
the list, and a count is too high by at most as many entries as the list has keys.
-/

import LayeredCache.Proofs.Owing
import LayeredCache.Proofs.Reliable

namespace LayeredCache

open LayeredCache.Action

variable {K V σ X : Type} [DecidableEq K]

/-! ### Caches whose calls may fail -/

/-- As long as the cache is ready, every call changes the table as it is told to, except that a put
may evict, or fails and changes nothing. No call touches the memory. -/
structure Cache.Fallible (cache : Cache K V σ X) (handles : List X → Handles K V)
    (ready : σ → Prop) (table : σ → Table K X) : Prop where
  handles_eq : ∀ layer, cache.handles layer = handles (table layer).items
  put : ∀ layer memory key item, ready layer → (table layer).Distinct →
    (cache.put key item).Leaves layer memory
      (fun _ later after => ready later ∧ after = memory ∧ (table later).Distinct ∧
        Less (table later).find? (placed (table layer).find? key item))
      fun later after => ready later ∧ after = memory ∧ table later = table layer
  get : ∀ layer memory key, ready layer → (cache.get key).Leaves layer memory
    (fun found later after => ready later ∧ after = memory ∧ table later = table layer ∧
      found = (table layer).find? key)
    fun later after => ready later ∧ after = memory ∧ table later = table layer
  remove : ∀ layer memory key, ready layer → (cache.remove key).Leaves layer memory
    (fun _ later after => ready later ∧ after = memory ∧ table later = (table layer).erase key)
    fun later after => ready later ∧ after = memory ∧ table later = table layer
  clear : ∀ layer memory, ready layer → cache.clear.Leaves layer memory
    (fun _ later after => ready later ∧ after = memory ∧ table later = Table.empty)
    fun later after => ready later ∧ after = memory ∧ table later = table layer
  length : ∀ layer memory, ready layer → cache.length.Leaves layer memory
    (fun number later after => ready later ∧ after = memory ∧ table later = table layer ∧
      number = (table layer).size)
    fun later after => ready later ∧ after = memory ∧ table later = table layer

omit [DecidableEq K] in
/-- A call that cannot fail has its effect through a probe, or fails and has none. -/
theorem ProbeLayer.intercept_fallible {α : Type} {position : Nat} {method : Method} {key : Option K}
    {action : Action K V σ α} {layer : ProbeLayer σ} {memory : Memory K V}
    {done : α → σ → Memory K V → Prop} (table : σ → Table K X)
    (ready : FailsBefore layer.faults)
    (leaves : action.Leaves layer.delegate memory done fun _ _ => False) :
    (intercept position method key action).Leaves layer memory
      (fun value later after => FailsBefore later.faults ∧ done value later.delegate after)
      fun later after => FailsBefore later.faults ∧ after = memory ∧
        table later.delegate = table layer.delegate := by
  have unchanged : action.Leaves layer.delegate memory done fun later after =>
      after = memory ∧ table later = table layer.delegate :=
    leaves.imp (fun _ _ _ next => next) fun _ _ no => no.elim
  exact intercept_before ready ⟨rfl, rfl⟩ unchanged

/-- A probe makes a reliable cache fail, and is ready as long as it does so before the call. -/
theorem ProbeLayer.fallible {delegate : Cache K V σ X} {handles : List X → Handles K V}
    {table : σ → Table K X} (reliable : delegate.Reliable handles table) (position : Nat) :
    (ProbeLayer.cache position delegate).Fallible handles (fun layer => FailsBefore layer.faults)
      fun layer => table layer.delegate where
  handles_eq layer := reliable.handles_eq layer.delegate
  put layer memory key item ready distinct :=
    intercept_fallible table ready (reliable.put layer.delegate memory key item distinct)
  get layer memory key ready :=
    intercept_fallible table ready (reliable.get layer.delegate memory key)
  remove layer memory key ready :=
    intercept_fallible table ready (reliable.remove layer.delegate memory key)
  clear layer memory ready :=
    intercept_fallible table ready (reliable.clear layer.delegate memory)
  length layer memory ready :=
    intercept_fallible table ready (reliable.length layer.delegate memory)

/-! ### Lost notifications -/

namespace SoftLayer

/-- The layer would be sound if the notifications for the lost keys were still waiting, and the
delegate is ready. -/
structure Lossy (ready : σ → Prop) (table : σ → Table K (SoftReference K V)) (lost : List K)
    (layer : SoftLayer K V σ) (memory : Memory K V) : Prop where
  ready : ready layer.delegate
  distinct : (table layer.delegate).Distinct
  unheld : memory.references.items = []
  inStep : InStep (table layer.delegate).find? layer.queue.registry memory
    (lost ++ layer.queue.pending)

section Lossy

variable {delegate : Cache K V σ (SoftReference K V)} {ready : σ → Prop}
  {table : σ → Table K (SoftReference K V)} {lost : List K} {layer later : SoftLayer K V σ}
  {memory after : Memory K V} {machine : Machine K V (SoftLayer K V σ)}

/-- Nothing but the delegate, the registry and the notifications matters. -/
theorem Lossy.same (lossy : Lossy ready table lost layer memory) (queue : later.queue = layer.queue)
    (still : ready later.delegate) (kept : after = memory)
    (entries : table later.delegate = table layer.delegate) :
    Lossy ready table lost later after where
  ready := still
  distinct := entries ▸ lossy.distinct
  unheld := kept ▸ lossy.unheld
  inStep := by
    rw [queue, kept, entries]
    exact lossy.inStep

theorem Lossy.erase (lossy : Lossy ready table lost layer memory)
    (queue : later.queue = layer.queue) (still : ready later.delegate) (kept : after = memory)
    {key : K} (erased : table later.delegate = (table layer.delegate).erase key) :
    Lossy ready table lost later after where
  ready := still
  distinct := erased ▸ lossy.distinct.erase key
  unheld := kept ▸ lossy.unheld
  inStep := by
    rw [queue, kept, erased]
    refine lossy.inStep.less (Less.erase _ key) fun other reference found dead => ?_
    exact lossy.inStep.notified other reference (Less.erase _ key other reference found) dead

/-- Nor does it matter which values callers hold. -/
theorem Lossy.holding_values (lossy : Lossy ready table lost layer memory)
    (values : Table String (Shared V)) : Lossy ready table lost layer { memory with values } :=
  have inStep := lossy.inStep
  ⟨lossy.ready, lossy.distinct, lossy.unheld, inStep.keyed, inStep.numbered, inStep.notified,
    inStep.enrolled, inStep.unique, inStep.coherent, inStep.recent, inStep.past⟩

/-- What is alive while an operation runs holds exactly the stored references. -/
theorem Lossy.holding (fallible : delegate.Fallible Content.reference.handles ready table)
    (lossy : Lossy ready table lost machine.layer machine.memory) :
    Holding (alive delegate machine) (table machine.layer.delegate).find? :=
  holding_alive (fallible.handles_eq _) lossy.unheld lossy.distinct

section Notification

variable {key : K} {rest : List K} (lossy : Lossy ready table lost layer memory)
  (waiting : layer.queue.pending = key :: rest)
  (queue : later.queue = { layer.queue with pending := rest }) (still : ready later.delegate)
  (kept : after = memory)

include lossy waiting queue still kept

/-- A notification is lost if it is taken out and its entry stays. -/
theorem Lossy.forget (entries : table later.delegate = table layer.delegate) :
    Lossy ready table (key :: lost) later after where
  ready := still
  distinct := entries ▸ lossy.distinct
  unheld := kept ▸ lossy.unheld
  inStep := by
    have inStep := lossy.inStep
    rw [waiting] at inStep
    rw [entries, queue, kept]
    exact inStep.mono List.perm_middle.subset

/-- A notification may be dropped whose key needs none. -/
theorem Lossy.pass (entries : table later.delegate = table layer.delegate)
    (live : ∀ reference, (table layer.delegate).find? key = some reference →
      memory.isLive reference = true) : Lossy ready table lost later after where
  ready := still
  distinct := entries ▸ lossy.distinct
  unheld := kept ▸ lossy.unheld
  inStep := by
    have inStep := lossy.inStep
    rw [waiting] at inStep
    rw [entries, queue, kept]
    exact (inStep.mono List.perm_middle.subset).pass live

/-- A notification is worked through once its key is erased. -/
theorem Lossy.spend (erased : table later.delegate = (table layer.delegate).erase key) :
    Lossy ready table lost later after where
  ready := still
  distinct := erased ▸ lossy.distinct.erase key
  unheld := kept ▸ lossy.unheld
  inStep := by
    have inStep := lossy.inStep
    rw [waiting] at inStep
    rw [erased, queue, kept]
    exact (inStep.mono List.perm_middle.subset).erase

end Notification

end Lossy

/-! ### Drains -/

/-- A drain that ends well leaves no notification, loses none and takes away nothing that could be
returned. -/
structure Settled (ready : σ → Prop) (table : σ → Table K (SoftReference K V)) (lost : List K)
    (machine later : Machine K V (SoftLayer K V σ)) : Prop where
  lossy : Lossy ready table lost later.layer later.memory
  idle : later.layer.queue.pending = []
  same : shows table later.layer later.memory = shows table machine.layer machine.memory

/-- A drain that fails has lost one notification. -/
def Slipped (ready : σ → Prop) (table : σ → Table K (SoftReference K V)) (lost : List K)
    (later : Machine K V (SoftLayer K V σ)) : Prop :=
  ∃ key, Lossy ready table (key :: lost) later.layer later.memory

section Drains

variable {delegate : Cache K V σ (SoftReference K V)} {ready : σ → Prop}
  {table : σ → Table K (SoftReference K V)} {lost : List K}
  (fallible : delegate.Fallible Content.reference.handles ready table)

include fallible

theorem removeReclaimed_lossy (keys : List K) (removed : Nat)
    {machine : Machine K V (SoftLayer K V σ)} (waiting : machine.layer.queue.pending = keys)
    (lossy : Lossy ready table lost machine.layer machine.memory) :
    (removeReclaimed delegate keys removed).Ends machine
      (fun _ => Settled ready table lost machine) fun _ => Slipped ready table lost := by
  induction keys generalizing machine removed with
  | nil => exact ⟨lossy, waiting, rfl⟩
  | cons key rest inductionHypothesis =>
    -- The notification leaves the queue before the delegate is asked, so that each of the two calls
    -- loses it when it fails.
    simp only [removeReclaimed, below, ends_bind, ends_modifyLayer, ends_within]
    refine (fallible.get _ _ key lossy.ready).ends (fun found after next => ?_)
      fun _ after next => ?_
    · obtain ⟨still, memory, entries, answer⟩ := next
      have memory : after.memory = machine.memory := memory
      have entries : table after.layer = table machine.layer.delegate := entries
      have answer : found = (table machine.layer.delegate).find? key := answer
      have passed :
          (∀ reference, found = some reference → machine.memory.isLive reference = true) →
          (removeReclaimed delegate rest removed).Ends
            ⟨{ machine.layer with
                queue := { machine.layer.queue with pending := rest }
                delegate := after.layer }, after.memory, after.trace⟩
            (fun _ => Settled ready table lost machine) fun _ => Slipped ready table lost := by
        intro live
        refine (inductionHypothesis removed rfl ?_).imp (fun _ _ settled => ?_)
          fun _ _ slipped => slipped
        · exact lossy.pass waiting rfl still memory entries fun reference found =>
            live reference (answer.trans found)
        · exact ⟨settled.lossy, settled.idle,
            settled.same.trans (by simp only [shows, entries, memory])⟩
      cases found with
      | none => exact passed fun _ same => by cases same
      | some reference =>
        simp only [ends_bind, ends_memory, around]
        split
        case isTrue live =>
          refine passed fun other same => ?_
          rwa [← Option.some.inj same, ← memory]
        case isFalse dead =>
          rw [ends_bind, ends_within]
          refine (fallible.remove _ _ key still).ends (fun _ last next => ?_) fun _ last next => ?_
          · obtain ⟨still, kept, erased⟩ := next
            have kept : last.memory = machine.memory := Eq.trans kept memory
            have erased : table last.layer = (table machine.layer.delegate).erase key :=
              Eq.trans erased (congrArg (Table.erase · key) entries)
            refine (inductionHypothesis (removed + 1) rfl ?_).imp (fun _ _ settled => ?_)
              fun _ _ slipped => slipped
            · exact lossy.spend waiting rfl still kept erased
            · refine ⟨settled.lossy, settled.idle, settled.same.trans ?_⟩
              show shown (table last.layer).find? last.memory = _
              rw [erased, kept]
              refine shown_erase ?_
              rw [shown, ← answer, Option.bind_some, Memory.resolve, ← memory, if_neg dead]
          · obtain ⟨still, kept, same⟩ := next
            exact ⟨key, lossy.forget waiting rfl still (Eq.trans kept memory)
              (Eq.trans same entries)⟩
    · obtain ⟨still, memory, entries⟩ := next
      exact ⟨key, lossy.forget waiting rfl still memory entries⟩

/-- A drain works through all notifications, or fails and loses one. -/
theorem drain_lossy {machine : Machine K V (SoftLayer K V σ)}
    (lossy : Lossy ready table lost machine.layer machine.memory) :
    (drain delegate).Ends machine (fun _ => Settled ready table lost machine)
      fun _ => Slipped ready table lost := by
  simp only [drain, name, count, ends_bind, ends_layer]
  refine (removeReclaimed_lossy fallible _ 0 rfl lossy).imp (fun removed later settled => ?_)
    fun _ _ slipped => slipped
  split
  · simp only [ends_bind, ends_layer, ends_pure, ends_report, ends_modifyLayer]
    exact ⟨settled.lossy.same rfl settled.lossy.ready rfl rfl, settled.idle, settled.same⟩
  · exact settled

end Drains

/-! ### The operations -/

/-- At most so many notifications were lost. -/
def Loses (ready : σ → Prop) (table : σ → Table K (SoftReference K V)) (most : Nat)
    (layer : SoftLayer K V σ) (memory : Memory K V) : Prop :=
  ∃ lost : List K, lost.length ≤ most ∧ Lossy ready table lost layer memory

/-- What a table stores is shown or waits for its removal. -/
theorem size_of_inStep {table : Table K (SoftReference K V)} (distinct : table.Distinct)
    {registry : List (SoftReference K V)} {memory : Memory K V} {waiting : List K}
    (inStep : InStep table.find? registry memory waiting) :
    ∃ keys, Enumerates keys (shown table.find? memory) ∧ keys.length ≤ table.size ∧
      table.size ≤ keys.length + waiting.length := by
  have parts := table.keys.length_eq_length_filter_add fun key =>
    (shown table.find? memory key).isSome
  have missing : (table.keys.filter fun key =>
      !(shown table.find? memory key).isSome).length ≤ waiting.length := by
    refine (List.subperm_of_subset (distinct.filter _) fun key member => ?_).length_le
    obtain ⟨listed, hidden⟩ := List.mem_filter.mp member
    obtain ⟨reference, found⟩ := Table.mem_keys.mp listed
    refine inStep.notified key reference found (Bool.eq_false_iff.mpr fun live => ?_)
    rw [shown_isSome.mpr ⟨reference, found, live⟩] at hidden
    cases hidden
  rw [Table.keys_length] at parts
  refine ⟨table.keys.filter fun key => (shown table.find? memory key).isSome,
    ⟨distinct.filter _, fun key => ?_⟩, by omega, by omega⟩
  rw [List.mem_filter, and_iff_right_iff_imp]
  intro visible
  obtain ⟨reference, found, -⟩ := shown_isSome.mp visible
  exact Table.mem_keys.mpr ⟨reference, found⟩

section Operations

variable {delegate : Cache K V σ (SoftReference K V)} {ready : σ → Prop}
  {table : σ → Table K (SoftReference K V)} {lost : List K} {most : Nat}
  {layer later : SoftLayer K V σ} {memory : Memory K V} {machine : Machine K V (SoftLayer K V σ)}

theorem Loses.mono (loses : Loses ready table most layer memory) :
    Loses ready table (most + 1) layer memory := by
  obtain ⟨lost, few, lossy⟩ := loses
  exact ⟨lost, Nat.le_succ_of_le few, lossy⟩

theorem Slipped.loses {later : Machine K V (SoftLayer K V σ)}
    (slipped : Slipped ready table lost later) (few : lost.length ≤ most) :
    Loses ready table (most + 1) later.layer later.memory := by
  obtain ⟨key, lossy⟩ := slipped
  exact ⟨key :: lost, Nat.succ_le_succ few, lossy⟩

variable (fallible : delegate.Fallible Content.reference.handles ready table)
  (loses : Loses ready table most machine.layer machine.memory)

include fallible loses

theorem put_loses (key : K) (value : Shared V) :
    (put delegate key value).Ends machine
      (fun _ later => Loses ready table most later.layer later.memory)
      fun _ later => Loses ready table (most + 1) later.layer later.memory := by
  obtain ⟨lost, few, lossy⟩ := loses
  simp only [put, below, ends_bind, ends_withQueue, ends_within]
  refine (drain_lossy fallible lossy).imp (fun _ drained settled => ?_)
    fun _ _ slipped => slipped.loses few
  obtain ⟨lossy, idle, -⟩ := settled
  have inStep := lossy.inStep
  rw [idle, List.append_nil] at inStep
  have pending := (register_keeps drained.layer.queue drained.memory (alive delegate drained) key
    value).2.1.trans idle
  refine (fallible.put _ _ key _ lossy.ready lossy.distinct).ends (fun _ later next => ?_)
    fun _ later next => ?_
  · obtain ⟨still, same, distinct, less⟩ := next
    refine ⟨lost, few, still, distinct, ?_, ?_⟩
    · exact (congrArg (fun memory => memory.references.items) same).trans lossy.unheld
    · show InStep (table later.layer).find? _ later.memory (lost ++ _)
      rw [same, around, pending, List.append_nil]
      exact inStep.registerWith (lossy.holding fallible) (InStep.cases_of_less less)
  · obtain ⟨still, same, entries⟩ := next
    refine Loses.mono ⟨lost, few, still, entries ▸ lossy.distinct, ?_, ?_⟩
    · exact (congrArg (fun memory => memory.references.items) same).trans lossy.unheld
    · show InStep (table later.layer).find? _ later.memory (lost ++ _)
      rw [same, around, pending, List.append_nil, entries]
      exact inStep.registerWith (lossy.holding fallible) fun _ _ found => Or.inr found

/-- A look-up reads no notification, so it loses none. -/
theorem get_loses (key : K) :
    (get delegate key).Ends machine
      (fun _ later => Loses ready table most later.layer later.memory)
      fun _ later => Loses ready table most later.layer later.memory := by
  obtain ⟨lost, few, lossy⟩ := loses
  simp only [get, below, ends_bind, ends_within]
  refine (fallible.get _ _ key lossy.ready).ends (fun found after next => ?_) fun _ after next => ?_
  · obtain ⟨still, memory, entries, -⟩ := next
    cases found with
    | none =>
      simp only [ends_bind, count, ends_modifyLayer, ends_pure]
      exact ⟨lost, few, lossy.same rfl still memory entries⟩
    | some reference =>
      simp only [ends_bind, ends_memory, count]
      split
      case h_1 =>
        rw [ends_bind]
        exact ends_pin fun ring counters trace =>
          ⟨lost, few, lossy.same rfl still memory entries⟩
      case h_2 =>
        simp only [ends_bind, name, ends_layer, ends_pure, ends_report, ends_within]
        refine (fallible.remove _ _ key (by exact still)).ends (fun _ last next => ?_)
          fun _ last next => ?_
        · obtain ⟨still, kept, erased⟩ := next
          exact ⟨lost, few, lossy.erase rfl still (Eq.trans kept memory)
            (Eq.trans erased (congrArg (Table.erase · key) entries))⟩
        · obtain ⟨still, kept, unchanged⟩ := next
          exact ⟨lost, few, lossy.same rfl still (Eq.trans kept memory)
            (Eq.trans unchanged entries)⟩
  · obtain ⟨still, memory, entries⟩ := next
    exact ⟨lost, few, lossy.same rfl still memory entries⟩

theorem remove_loses (key : K) :
    (remove delegate key).Ends machine
      (fun _ later => Loses ready table most later.layer later.memory)
      fun _ later => Loses ready table (most + 1) later.layer later.memory := by
  obtain ⟨lost, few, lossy⟩ := loses
  simp only [remove, below, ends_bind, ends_within]
  refine (drain_lossy fallible lossy).imp (fun _ drained settled => ?_)
    fun _ _ slipped => slipped.loses few
  have lossy := settled.lossy
  refine (fallible.remove _ _ key lossy.ready).ends (fun found later next => ?_)
    fun _ later next => ?_
  · obtain ⟨still, kept, erased⟩ := next
    have left : Loses ready table most { drained.layer with delegate := later.layer }
        later.memory := ⟨lost, few, lossy.erase rfl still kept erased⟩
    cases found with
    | none => exact left
    | some reference => exact left
  · obtain ⟨still, kept, entries⟩ := next
    exact Loses.mono ⟨lost, few, lossy.same rfl still kept entries⟩

theorem clear_loses :
    (clear delegate).Ends machine
      (fun _ later => Loses ready table most later.layer later.memory)
      fun _ later => Loses ready table (most + 1) later.layer later.memory := by
  obtain ⟨lost, few, lossy⟩ := loses
  simp only [clear, below, ends_bind, ends_modifyLayer, ends_within]
  have unpinned : Lossy ready table lost { machine.layer with ring := [] } machine.memory :=
    lossy.same rfl lossy.ready rfl rfl
  refine (drain_lossy fallible unpinned).imp (fun _ drained settled => ?_)
    fun _ _ slipped => slipped.loses few
  have lossy := settled.lossy
  refine (fallible.clear _ _ lossy.ready).ends (fun _ later next => ?_) fun _ later next => ?_
  · obtain ⟨still, kept, empty⟩ := next
    have none : ∀ key, (table later.layer).find? key = none := fun key => by
      rw [empty, Table.find?_empty]
    refine ⟨lost, few, still, empty ▸ Table.distinct_empty, kept ▸ lossy.unheld, ?_⟩
    show InStep (table later.layer).find? _ later.memory _
    rw [kept]
    refine lossy.inStep.less (fun key reference found => ?_) fun key reference found => ?_
    · rw [none key] at found
      cases found
    · rw [none key] at found
      cases found
  · obtain ⟨still, kept, entries⟩ := next
    exact Loses.mono ⟨lost, few, lossy.same rfl still kept entries⟩

/-- A count is too high by no more than was lost. -/
theorem length_loses :
    (length delegate).Ends machine
      (fun number later => Loses ready table most later.layer later.memory ∧
        ∃ keys, Enumerates keys (shows table machine.layer machine.memory) ∧
          keys.length ≤ number ∧ number ≤ keys.length + most)
      fun _ later => Loses ready table (most + 1) later.layer later.memory := by
  obtain ⟨lost, few, lossy⟩ := loses
  simp only [length, below, ends_bind, ends_within]
  refine (drain_lossy fallible lossy).imp (fun _ drained settled => ?_)
    fun _ _ slipped => slipped.loses few
  have lossy := settled.lossy
  refine (fallible.length _ _ lossy.ready).ends (fun number later next => ?_) fun _ later next => ?_
  · obtain ⟨still, kept, entries, size⟩ := next
    have inStep := lossy.inStep
    rw [settled.idle, List.append_nil] at inStep
    obtain ⟨keys, enumerates, least, greatest⟩ := size_of_inStep lossy.distinct inStep
    refine ⟨⟨lost, few, lossy.same rfl still kept entries⟩, keys, settled.same ▸ enumerates,
      size ▸ least, ?_⟩
    rw [size]
    exact Nat.le_trans greatest (Nat.add_le_add_left few _)
  · obtain ⟨still, kept, entries⟩ := next
    exact Loses.mono ⟨lost, few, lossy.same rfl still kept entries⟩

/-! ### The memory manager's side -/

/-- Every value that is reclaimed is notified. -/
theorem reclaim_loses (limit : Nat) :
    (reclaim delegate limit).Ends machine
      (fun _ later => Loses ready table most later.layer later.memory) fun _ _ => False := by
  obtain ⟨lost, few, lossy⟩ := loses
  have inStep : InStep (table machine.layer.delegate).find?
      { machine.layer.queue with pending := lost ++ machine.layer.queue.pending }.registry
      machine.memory
      { machine.layer.queue with pending := lost ++ machine.layer.queue.pending }.pending :=
    lossy.inStep
  have swept := inStep.sweepAll limit (lossy.holding fallible)
  simp only [reclaim, ends_bind, ends_withQueue, ends_layer, ends_report, ends_pure]
  refine ⟨lost, few, lossy.ready, lossy.distinct, ?_, ?_⟩
  · exact (congrArg Table.items (ReferenceQueue.references_sweep _)).trans lossy.unheld
  · refine swept.mono fun key member => ?_
    rwa [ReferenceQueue.reclaim, List.append_assoc] at member

theorem forceReclaim_loses (key : K) :
    (forceReclaim delegate key).Ends machine
      (fun _ later => Loses ready table most later.layer later.memory) fun _ _ => False := by
  obtain ⟨lost, few, lossy⟩ := loses
  have inStep : InStep (table machine.layer.delegate).find?
      { machine.layer.queue with pending := lost ++ machine.layer.queue.pending }.registry
      machine.memory
      { machine.layer.queue with pending := lost ++ machine.layer.queue.pending }.pending :=
    lossy.inStep
  have forced := (inStep.forceReclaim key (lossy.holding fallible)).1
  simp only [forceReclaim, ends_withQueue]
  refine ⟨lost, few, lossy.ready, lossy.distinct, ?_, ?_⟩
  · exact (congrArg Table.items (ReferenceQueue.references_forceReclaim ..)).trans lossy.unheld
  · unfold ReferenceQueue.forceReclaim at forced ⊢
    split at forced
    case h_1 missing =>
      rw [missing]
      exact forced
    case h_2 chosen =>
      rw [chosen]
      exact forced.mono (List.append_assoc _ _ _ ▸ List.Subset.refl _)

end Operations

end SoftLayer

end LayeredCache
