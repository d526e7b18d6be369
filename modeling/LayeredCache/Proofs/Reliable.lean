/-
This file proves that a soft layer on a delegate that never fails keeps what it stores, its registry
and its notifications in step.

`Reliable` says that a cache does what it is told: it holds what its table lists, no operation fails
or touches the memory, and a put may evict other entries. On such a delegate every operation of a
soft layer ends well and keeps the layer sound, a drain leaves no notification and takes away
nothing that could be returned, and the count that follows it is the number of keys with a value.

What exactly a drain removes does not depend on the layer being sound: `Purges` says it of any
stored references and any notifications.
-/

import LayeredCache.Proofs.InStep

namespace LayeredCache

open LayeredCache.Action

variable {K V σ X : Type} [DecidableEq K]

/-! ### Reliable caches -/

/-- No operation fails or touches the memory, and each changes the table as it is told to, except
that a put may evict. -/
structure Cache.Reliable (cache : Cache K V σ X) (handles : List X → Handles K V)
    (table : σ → Table K X) : Prop where
  handles_eq : ∀ layer, cache.handles layer = handles (table layer).items
  put : ∀ layer memory key item, (table layer).Distinct →
    (cache.put key item).Leaves layer memory
      (fun _ later after => after = memory ∧ (table later).Distinct ∧
        Less (table later).find? (placed (table layer).find? key item))
      fun _ _ => False
  get : ∀ layer memory key, (cache.get key).Leaves layer memory
    (fun found later after => after = memory ∧ table later = table layer ∧
      found = (table layer).find? key)
    fun _ _ => False
  remove : ∀ layer memory key, (cache.remove key).Leaves layer memory
    (fun _ later after => after = memory ∧ table later = (table layer).erase key)
    fun _ _ => False
  clear : ∀ layer memory, cache.clear.Leaves layer memory
    (fun _ later after => after = memory ∧ table later = Table.empty)
    fun _ _ => False
  length : ∀ layer memory, cache.length.Leaves layer memory
    (fun number later after => after = memory ∧ table later = table layer ∧
      number = (table layer).size)
    fun _ _ => False

theorem reliable_store (handles : List X → Handles K V) :
    (Store.cache handles).Reliable handles fun store => store.table where
  handles_eq _ := rfl
  put store memory key item distinct trace := by
    refine ⟨rfl, distinct.insert key item, ?_⟩
    rw [← Table.find?_insert_eq]
    exact Less.refl _
  get _ _ _ _ := ⟨rfl, rfl, rfl⟩
  remove _ _ _ _ := ⟨rfl, rfl⟩
  clear _ _ _ := ⟨rfl, rfl⟩
  length _ _ _ := ⟨rfl, rfl, rfl⟩

/-- A recency layer is as reliable as its delegate. -/
theorem LruLayer.reliable {delegate : Cache K V σ X} {handles : List X → Handles K V}
    {table : σ → Table K X} (reliable : delegate.Reliable handles table) :
    (LruLayer.cache delegate).Reliable handles fun layer => table layer.delegate where
  handles_eq layer := reliable.handles_eq layer.delegate
  put layer memory key item distinct := by
    refine LruLayer.put_keeps (fun victim inner after kept => ?_)
      (reliable.put layer.delegate memory key item distinct)
    obtain ⟨same, distinct, less⟩ := kept
    refine (reliable.remove inner after victim).imp (fun _ later last next => ?_) fun _ _ no => no
    obtain ⟨rfl, erased⟩ := next
    refine ⟨same, erased ▸ distinct.erase victim, ?_⟩
    exact erased ▸ (Less.erase (table inner) victim).trans less
  get layer memory key := LruLayer.get_leaves (reliable.get layer.delegate memory key)
  remove layer memory key := LruLayer.remove_leaves (reliable.remove layer.delegate memory key)
  clear layer memory := LruLayer.clear_leaves (reliable.clear layer.delegate memory)
  length layer memory := LruLayer.length_leaves (reliable.length layer.delegate memory)

/-! ### Purges -/

/-- Of the entries under waiting keys, those whose values were reclaimed are removed, and no others.
Each removed key is listed once, however often it waits. -/
structure Purges (memory : Memory K V) (waiting removed : List K)
    (before after : Table K (SoftReference K V)) : Prop where
  nodup : removed.Nodup
  mem : ∀ key, key ∈ removed ↔ key ∈ waiting ∧
    ∃ reference, before.find? key = some reference ∧ memory.isLive reference = false
  find? : ∀ key, after.find? key = if key ∈ removed then none else before.find? key
  size : before.Distinct → after.Distinct ∧ after.size + removed.length = before.size

namespace Purges

variable {memory : Memory K V} {waiting removed : List K} {key : K}
  {before after : Table K (SoftReference K V)}

theorem nil (table : Table K (SoftReference K V)) : Purges memory [] [] table table where
  nodup := List.nodup_nil
  mem _ := by simp only [List.not_mem_nil, false_and]
  find? _ := (if_neg List.not_mem_nil).symm
  size distinct := ⟨distinct, rfl⟩

/-- A notification removes nothing if its key is not stored, or has a value again. -/
theorem pass (purges : Purges memory waiting removed before after)
    (live : ∀ reference, before.find? key = some reference → memory.isLive reference = true) :
    Purges memory (key :: waiting) removed before after where
  nodup := purges.nodup
  mem other := by
    rw [purges.mem, List.mem_cons]
    refine and_congr_left fun stale => ⟨Or.inr, fun waits => waits.resolve_left ?_⟩
    rintro rfl
    obtain ⟨reference, found, dead⟩ := stale
    rw [live reference found] at dead
    cases dead
  find? := purges.find?
  size := purges.size

/-- A key whose value was reclaimed is removed, so later notifications for it find nothing. -/
theorem spend {reference : SoftReference K V} (found : before.find? key = some reference)
    (dead : memory.isLive reference = false)
    (purges : Purges memory waiting removed (before.erase key) after) :
    Purges memory (key :: waiting) (key :: removed) before after where
  nodup := by
    refine List.nodup_cons.mpr ⟨fun again => ?_, purges.nodup⟩
    obtain ⟨-, other, found, -⟩ := (purges.mem key).mp again
    rw [Table.find?_erase_self] at found
    cases found
  mem other := by
    by_cases same : other = key
    · subst same
      exact iff_of_true List.mem_cons_self ⟨List.mem_cons_self, reference, found, dead⟩
    · rw [List.mem_cons, List.mem_cons, purges.mem, Table.find?_erase_other _ same,
        or_iff_right same, or_iff_right same]
  find? other := by
    rw [purges.find?, Table.find?_erase]
    by_cases same : other = key <;> simp [same]
  size distinct := by
    obtain ⟨kept, size⟩ := purges.size (distinct.erase key)
    have erased := distinct.size_erase found
    refine ⟨kept, ?_⟩
    rw [List.length_cons]
    omega

section Left

variable (purges : Purges memory waiting removed before after)

include purges

theorem less : Less after.find? before.find? := by
  intro key reference found
  rw [purges.find?] at found
  split at found
  case isTrue => cases found
  case isFalse => exact found

/-- A reference with a value stays, also if its key waits for an earlier one. -/
theorem find?_of_live (key : K) (reference : SoftReference K V)
    (found : before.find? key = some reference) (live : memory.isLive reference = true) :
    after.find? key = some reference := by
  rw [purges.find?, if_neg, found]
  intro stale
  obtain ⟨-, other, again, dead⟩ := (purges.mem key).mp stale
  rw [found] at again
  obtain rfl := Option.some.inj again
  rw [live] at dead
  cases dead

/-- No waiting key is left without a value. -/
theorem live_of_waiting {reference : SoftReference K V} (waits : key ∈ waiting)
    (found : after.find? key = some reference) : memory.isLive reference = true := by
  by_contra dead
  have stale := (purges.mem key).mpr
    ⟨waits, reference, purges.less key reference found, Bool.not_eq_true _ |>.mp dead⟩
  rw [purges.find?, if_pos stale] at found
  cases found

/-- What could be returned still can be. -/
theorem shown_eq : shown after.find? memory = shown before.find? memory := by
  funext key
  unfold shown
  rw [purges.find?]
  split
  case isTrue stale =>
    obtain ⟨-, reference, found, dead⟩ := (purges.mem key).mp stale
    rw [found, Option.bind_some, Memory.resolve, dead]
    rfl
  case isFalse => rfl

end Left

end Purges

/-! ### Sound soft layers -/

namespace SoftLayer

/-- What the layer stores fits its queue and the memory, and callers hold no reference. -/
structure Sound (table : σ → Table K (SoftReference K V)) (layer : SoftLayer K V σ)
    (memory : Memory K V) : Prop where
  distinct : (table layer.delegate).Distinct
  unheld : memory.references.items = []
  inStep : InStep (table layer.delegate).find? layer.queue.registry memory layer.queue.pending

/-- The values that the layer can return. -/
def shows (table : σ → Table K (SoftReference K V)) (layer : SoftLayer K V σ)
    (memory : Memory K V) : K → Option (Shared V) :=
  shown (table layer.delegate).find? memory

variable {delegate : Cache K V σ (SoftReference K V)} {table : σ → Table K (SoftReference K V)}
  {layer later : SoftLayer K V σ} {memory : Memory K V}
  {machine : Machine K V (SoftLayer K V σ)}

/-- Nothing but the delegate, the registry and the notifications matters. -/
theorem Sound.same (sound : Sound table layer memory) (queue : later.queue = layer.queue)
    (entries : table later.delegate = table layer.delegate) : Sound table later memory where
  distinct := entries ▸ sound.distinct
  unheld := sound.unheld
  inStep := by
    rw [queue, entries]
    exact sound.inStep

theorem Sound.erase (sound : Sound table layer memory) (queue : later.queue = layer.queue) {key : K}
    (erased : table later.delegate = (table layer.delegate).erase key) :
    Sound table later memory where
  distinct := erased ▸ sound.distinct.erase key
  unheld := sound.unheld
  inStep := by
    rw [queue, erased]
    refine sound.inStep.less (Less.erase _ key) fun other reference found dead => ?_
    exact sound.inStep.notified other reference (Less.erase _ key other reference found) dead

section Alive

variable {entries : Table K (SoftReference K V)}
  (listed : delegate.handles machine.layer.delegate = Content.reference.handles entries.items)
  (unheld : machine.memory.references.items = [])

include listed unheld

omit [DecidableEq K] in
/-- The references that are alive while an operation runs are those that are stored. -/
theorem references_alive : (alive delegate machine).references = entries.items := by
  rw [references_alive_of_unheld unheld, listed]
  rfl

/-- What is alive while an operation runs holds exactly the stored references. -/
theorem holding_alive (distinct : entries.Distinct) :
    Holding (alive delegate machine) entries.find? := by
  intro reference
  rw [Handles.holds, references_alive listed unheld, List.any_eq_true, exists_comm]
  refine exists_congr fun other => ?_
  rw [distinct.mem_items, beq_iff_eq, exists_and_right]

end Alive

theorem Sound.references_alive (reliable : delegate.Reliable Content.reference.handles table)
    (sound : Sound table machine.layer machine.memory) :
    (alive delegate machine).references = (table machine.layer.delegate).items :=
  SoftLayer.references_alive (reliable.handles_eq _) sound.unheld

theorem Sound.holding (reliable : delegate.Reliable Content.reference.handles table)
    (sound : Sound table machine.layer machine.memory) :
    Holding (alive delegate machine) (table machine.layer.delegate).find? :=
  holding_alive (reliable.handles_eq _) sound.unheld sound.distinct

/-! ### Drains -/

/-- The loop over notifications for the keys has removed what `Purges` says and counted it on, and
changes nothing else. -/
def Polled (table : σ → Table K (SoftReference K V)) (keys : List K) (count : Nat)
    (machine : Machine K V (SoftLayer K V σ)) (number : Nat)
    (later : Machine K V (SoftLayer K V σ)) : Prop :=
  ∃ removed,
    Purges machine.memory keys removed (table machine.layer.delegate)
      (table later.layer.delegate) ∧
    number = count + removed.length ∧ later.memory = machine.memory ∧
    later.layer =
      { machine.layer with
        queue := { machine.layer.queue with pending := [] }
        delegate := later.layer.delegate }

/-- A drain has worked through the notifications that waited and counted the purged entries. -/
structure Purged (table : σ → Table K (SoftReference K V)) (removed : List K)
    (machine later : Machine K V (SoftLayer K V σ)) : Prop where
  purges : Purges machine.memory machine.layer.queue.pending removed
    (table machine.layer.delegate) (table later.layer.delegate)
  memory : later.memory = machine.memory
  layer : later.layer =
    { machine.layer with
      queue := { machine.layer.queue with pending := [] }
      counters := machine.layer.counters.countPurged (UInt64.ofNat removed.length)
      delegate := later.layer.delegate }

/-- A drain leaves no notification and takes away nothing that could be returned. -/
structure Drained (table : σ → Table K (SoftReference K V))
    (machine later : Machine K V (SoftLayer K V σ)) : Prop where
  sound : Sound table later.layer later.memory
  idle : later.layer.queue.pending = []
  same : shows table later.layer later.memory = shows table machine.layer machine.memory

/-- Every reclaimed value of a sound layer is notified, so none of them is left. -/
theorem Purged.drained {later : Machine K V (SoftLayer K V σ)} {removed : List K}
    (purged : Purged table removed machine later)
    (sound : Sound table machine.layer machine.memory) : Drained table machine later := by
  obtain ⟨purges, memory, layer⟩ := purged
  have queue : later.layer.queue = { machine.layer.queue with pending := [] } :=
    congrArg SoftLayer.queue layer
  refine ⟨⟨(purges.size sound.distinct).1, memory ▸ sound.unheld, ?_⟩, by rw [queue], ?_⟩
  · rw [queue, memory]
    refine sound.inStep.less purges.less fun key reference found dead => ?_
    have waits := sound.inStep.notified key reference (purges.less key reference found) dead
    rw [purges.live_of_waiting waits found] at dead
    cases dead
  · rw [shows, memory]
    exact purges.shown_eq

/-- Erasing an entry that has lost its value takes nothing away. -/
theorem shown_erase {table : Table K (SoftReference K V)} {key : K}
    (hidden : shown table.find? memory key = none) :
    shown (table.erase key).find? memory = shown table.find? memory := by
  funext other
  by_cases same : other = key
  · rw [same, hidden, shown, Table.find?_erase_self]
    rfl
  · rw [shown, shown, Table.find?_erase_other table same]

omit [DecidableEq K] in
/-- Counting that nothing was purged changes nothing. -/
theorem countPurged_zero (counters : SoftCounters) :
    counters.countPurged (UInt64.ofNat 0) = counters := by
  rw [SoftCounters.countPurged, Counter.add, show UInt64.ofNat 0 = 0 from rfl, UInt64.add_zero]

section Exact

variable {fails : σ → Memory K V → Prop}
  (get : ∀ layer memory key, (delegate.get key).Leaves layer memory
    (fun found later after => after = memory ∧ table later = table layer ∧
      found = (table layer).find? key) fails)
  (remove : ∀ layer memory key, (delegate.remove key).Leaves layer memory
    (fun _ later after => after = memory ∧ table later = (table layer).erase key) fails)

include get remove

/-- The loop removes exactly what has to go and counts it on. Notifications that wait twice, or
whose entry was replaced or removed, are passed over. -/
theorem removeReclaimed_purges (keys : List K) (count : Nat)
    {machine : Machine K V (SoftLayer K V σ)} (waiting : machine.layer.queue.pending = keys) :
    (removeReclaimed delegate keys count).Ends machine (Polled table keys count machine)
      fun _ later => fails later.layer.delegate later.memory := by
  induction keys generalizing machine count with
  | nil =>
    refine ⟨[], .nil _, rfl, rfl, ?_⟩
    rw [← waiting]
  | cons key rest inductionHypothesis =>
    simp only [removeReclaimed, below, ends_bind, ends_modifyLayer, ends_within]
    refine (get _ _ key).ends (fun found after next => ?_) fun _ _ lost => lost
    obtain ⟨memory, entries, answer⟩ := next
    have memory : after.memory = machine.memory := memory
    have entries : table after.layer = table machine.layer.delegate := entries
    have answer : found = (table machine.layer.delegate).find? key := answer
    -- The loop goes on with the delegate that the look-up leaves.
    have passed : (∀ reference, found = some reference → machine.memory.isLive reference = true) →
        (removeReclaimed delegate rest count).Ends
          ⟨{ machine.layer with
              queue := { machine.layer.queue with pending := rest }
              delegate := after.layer }, after.memory, after.trace⟩
          (Polled table (key :: rest) count machine)
          fun _ later => fails later.layer.delegate later.memory := by
      intro live
      refine (inductionHypothesis count rfl).imp (fun _ later next => ?_) fun _ _ lost => lost
      obtain ⟨removed, purges, number, same, layer⟩ := next
      rw [memory, entries] at purges
      refine ⟨removed, purges.pass fun reference stored => ?_, number, same.trans memory, layer⟩
      exact live reference (answer.trans stored)
    cases found with
    | none => exact passed fun _ same => by cases same
    | some reference =>
      simp only [ends_bind, ends_memory, around]
      split
      case isTrue live =>
        refine passed fun other same => ?_
        rwa [← Option.some.inj same, ← memory]
      case isFalse dead =>
        rw [ends_bind, ends_within]
        refine (remove _ _ key).ends (fun _ last next => ?_) fun _ _ lost => lost
        obtain ⟨kept, erased⟩ := next
        have kept : last.memory = machine.memory := Eq.trans kept memory
        have erased : table last.layer = (table machine.layer.delegate).erase key :=
          Eq.trans erased (congrArg (Table.erase · key) entries)
        refine (inductionHypothesis (count + 1) rfl).imp (fun _ later next => ?_)
          fun _ _ lost => lost
        obtain ⟨removed, purges, number, same, layer⟩ := next
        have purges : Purges last.memory rest removed (table last.layer) _ := purges
        rw [kept, erased] at purges
        rw [memory, Bool.not_eq_true] at dead
        refine ⟨key :: removed, .spend answer.symm dead purges, ?_, Eq.trans same kept, layer⟩
        rw [number, List.length_cons]
        omega

/-- A drain does what its notifications ask for and counts it, unless the delegate fails. -/
theorem drain_purges (machine : Machine K V (SoftLayer K V σ)) :
    (drain delegate).Ends machine (fun _ later => ∃ removed, Purged table removed machine later)
      fun _ later => fails later.layer.delegate later.memory := by
  simp only [drain, name, count, ends_bind, ends_layer]
  refine (removeReclaimed_purges get remove _ 0 rfl).imp (fun number later next => ?_)
    fun _ _ lost => lost
  obtain ⟨removed, purges, rfl, memory, layer⟩ := next
  rw [Nat.zero_add]
  split
  case isTrue =>
    simp only [ends_bind, ends_layer, ends_pure, ends_report, ends_modifyLayer]
    refine ⟨removed, purges, memory, ?_⟩
    rw [layer]
  case isFalse none =>
    obtain rfl : removed = [] := List.length_eq_zero_iff.mp (Nat.eq_zero_of_not_pos none)
    refine ⟨[], purges, memory, layer.trans ?_⟩
    rw [List.length_nil, countPurged_zero]

end Exact

variable (reliable : delegate.Reliable Content.reference.handles table)

include reliable

/-- A drain of a sound layer works through all its notifications. -/
theorem drain_drained {machine : Machine K V (SoftLayer K V σ)}
    (sound : Sound table machine.layer machine.memory) :
    (drain delegate).Ends machine (fun _ => Drained table machine) fun _ _ => False := by
  refine (drain_purges reliable.get reliable.remove machine).imp (fun _ later next => ?_)
    fun _ _ no => no
  obtain ⟨removed, purged⟩ := next
  exact purged.drained sound

end SoftLayer

end LayeredCache
