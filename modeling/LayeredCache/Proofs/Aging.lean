/-
This file proves that the registry of a soft layer lists what the layer stores in the order in which
the keys were put last.

A put registers its reference behind all others, and nothing else registers any. Prunes and sweeps
leave references out without moving the others, and what is overwritten, evicted, removed or
reclaimed only makes the list of those that matter shorter. So it is enough to follow one order of
keys, in which a put moves its key to the end. `Ages` says this of the operations that a caller can
call and passes through the recency layers above the soft layer.
-/

import LayeredCache.Proofs.Counting

namespace LayeredCache

open LayeredCache.Action

variable {K V σ X : Type}

/-! ### The order of the last puts -/

/-- The keys after a put, if they stood in the order of their last puts before. -/
def renewed [DecidableEq K] (order : List K) (key : K) : List K := order.erase key ++ [key]

/-- The order after one more deed. -/
def Deed.renews [DecidableEq K] (order : List K) : Deed K V → List K
  | .call (.put key _) => renewed order key
  | _ => order

/-- The keys that were put, each once, in the order of their last puts. -/
def lastPuts [DecidableEq K] (deeds : List (Deed K V)) : List K := deeds.foldl Deed.renews []

/-- The registered references that are stored and live have their keys in this order. -/
def InOrder (order : List K) (stored : K → Option (SoftReference K V))
    (registry : List (SoftReference K V)) (memory : Memory K V) : Prop :=
  ∀ chosen : List (SoftReference K V), chosen.Sublist registry →
    (∀ reference ∈ chosen, stored reference.key = some reference ∧
      memory.isLive reference = true) →
    (chosen.map (·.key)).Sublist order

namespace InOrder

variable {order : List K} {stored later : K → Option (SoftReference K V)}
  {registry fewer : List (SoftReference K V)} {memory after : Memory K V}

theorem empty (stored : K → Option (SoftReference K V)) (memory : Memory K V) :
    InOrder [] stored [] memory := fun chosen sublist _ => by
  rw [List.sublist_nil.mp sublist]
  exact List.Sublist.refl _

/-- The order stays when references are left out, no longer stored or no longer live. -/
theorem fade (inOrder : InOrder order stored registry memory) (less : Less later stored)
    (sublist : fewer.Sublist registry)
    (live : ∀ reference, after.isLive reference = true → memory.isLive reference = true) :
    InOrder order later fewer after := by
  intro chosen among current
  refine inOrder chosen (among.trans sublist) fun reference member => ?_
  obtain ⟨found, alive⟩ := current reference member
  exact ⟨less reference.key reference found, live reference alive⟩

variable [DecidableEq K]

/-- A new reference goes behind all others, and none of these has its key any more. -/
theorem enroll (inOrder : InOrder order stored registry memory)
    (recent : ∀ reference ∈ registry, reference.number < memory.nextNumber)
    (sublist : fewer.Sublist registry) {key : K} {value : Shared V}
    (less : Less later (placed stored key (memory.refer key value).1)) :
    InOrder (renewed order key) later (fewer ++ [(memory.refer key value).1])
      (memory.refer key value).2 := by
  intro chosen among current
  obtain ⟨older, newest, rfl, inOlder, inNewest⟩ := List.sublist_append_iff.mp among
  -- The put has overwritten what had its key, so what is older and still stored has another one.
  have apart : ∀ reference ∈ older,
      reference.key ≠ key ∧ stored reference.key = some reference := by
    intro reference member
    have found := (current reference (List.mem_append_left _ member)).1
    have placed := less reference.key reference found
    unfold LayeredCache.placed at placed
    split at placed
    case isTrue =>
      have old := recent reference (sublist.subset (inOlder.subset member))
      rw [← Option.some.inj placed] at old
      exact absurd old (Nat.lt_irrefl _)
    case isFalse different => exact ⟨different, placed⟩
  have before : (older.map (·.key)).Sublist order := by
    refine inOrder older (inOlder.trans sublist) fun reference member => ?_
    exact ⟨(apart reference member).2, (current reference (List.mem_append_left _ member)).2⟩
  have kept : (older.map (·.key)).erase key = older.map (·.key) := by
    refine List.erase_of_not_mem fun member => ?_
    obtain ⟨reference, member, same⟩ := List.mem_map.mp member
    exact (apart reference member).1 same
  rw [List.map_append, renewed, ← kept]
  exact (before.erase key).append (inNewest.map (·.key))

/-- A registration may prune the registry first. -/
theorem register {queue : ReferenceQueue K V} (inOrder : InOrder order stored queue.registry memory)
    (recent : ∀ reference ∈ queue.registry, reference.number < memory.nextNumber)
    (handles : Handles K V) {key : K} {value : Shared V}
    (less : Less later (placed stored key (queue.register memory handles key value).1)) :
    InOrder (renewed order key) later (queue.register memory handles key value).2.1.registry
      (queue.register memory handles key value).2.2 := by
  unfold ReferenceQueue.register at less ⊢
  simp only at less ⊢
  split
  · exact inOrder.enroll recent List.filter_sublist less
  · exact inOrder.enroll recent (List.Sublist.refl _) less

end InOrder

/-! ### Caches that keep the order -/

variable [DecidableEq K]

theorem Less.of_same {table later : Table K X} (same : later = table) :
    Less later.find? table.find? := same ▸ Less.refl _

theorem Less.of_erased {table later : Table K X} {key : K} (erased : later = table.erase key) :
    Less later.find? table.find? := erased ▸ Less.erase table key

/-- No operation fails. A put makes its key the last one in the order of the last puts, and the
other operations leave this order alone. -/
structure Cache.Ages (cache : Cache K V σ X) (aged : List K → σ → Memory K V → Prop) : Prop where
  put : ∀ order layer memory key item, aged order layer memory →
    (cache.put key item).Leaves layer memory (fun _ => aged (renewed order key)) fun _ _ => False
  get : ∀ order layer memory key, aged order layer memory →
    (cache.get key).Leaves layer memory (fun _ => aged order) fun _ _ => False
  remove : ∀ order layer memory key, aged order layer memory →
    (cache.remove key).Leaves layer memory (fun _ => aged order) fun _ _ => False
  clear : ∀ order layer memory, aged order layer memory →
    cache.clear.Leaves layer memory (fun _ => aged order) fun _ _ => False
  length : ∀ order layer memory, aged order layer memory →
    cache.length.Leaves layer memory (fun _ => aged order) fun _ _ => False

/-- A recency layer adds removals to a put, which leave the order alone. -/
theorem LruLayer.ages {delegate : Cache K V σ X} {aged : List K → σ → Memory K V → Prop}
    (ages : delegate.Ages aged) :
    (LruLayer.cache delegate).Ages fun order layer => aged order layer.delegate where
  put order layer memory key item start :=
    LruLayer.put_keeps (fun victim inner after kept => ages.remove _ inner after victim kept)
      (ages.put order layer.delegate memory key item start)
  get order layer memory key start :=
    LruLayer.get_leaves (ages.get order layer.delegate memory key start)
  remove order layer memory key start :=
    LruLayer.remove_leaves (ages.remove order layer.delegate memory key start)
  clear order layer memory start :=
    LruLayer.clear_leaves (ages.clear order layer.delegate memory start)
  length order layer memory start :=
    LruLayer.length_leaves (ages.length order layer.delegate memory start)

/-! ### Soft layers -/

namespace SoftLayer

/-- The registry lists what the delegate stores in the order of the last puts. -/
def InOrder (table : σ → Table K (SoftReference K V)) (order : List K) (layer : SoftLayer K V σ)
    (memory : Memory K V) : Prop :=
  LayeredCache.InOrder order (table layer.delegate).find? layer.queue.registry memory

/-- Nothing new is stored, and the registry and the memory are as before. -/
structure Faded (table : σ → Table K (SoftReference K V))
    (machine later : Machine K V (SoftLayer K V σ)) : Prop where
  less : Less (table later.layer.delegate).find? (table machine.layer.delegate).find?
  registry : later.layer.queue.registry = machine.layer.queue.registry
  memory : later.memory = machine.memory

variable {delegate : Cache K V σ (SoftReference K V)} {table : σ → Table K (SoftReference K V)}
  {machine middle later : Machine K V (SoftLayer K V σ)} {order : List K}

theorem Faded.trans (first : Faded table machine middle) (second : Faded table middle later) :
    Faded table machine later :=
  ⟨second.less.trans first.less, second.registry.trans first.registry,
    second.memory.trans first.memory⟩

theorem Faded.inOrder (faded : Faded table machine later)
    (inOrder : InOrder table order machine.layer machine.memory) :
    InOrder table order later.layer later.memory := by
  unfold InOrder
  rw [faded.registry, faded.memory]
  exact inOrder.fade faded.less (List.Sublist.refl _) fun _ live => live

variable (reliable : delegate.Reliable Content.reference.handles table)

include reliable

theorem drain_faded (machine : Machine K V (SoftLayer K V σ)) :
    (drain delegate).Ends machine (fun _ => Faded table machine) fun _ _ => False := by
  refine (drain_purges reliable.get reliable.remove machine).imp (fun _ later next => ?_)
    fun _ _ no => no
  obtain ⟨removed, purged⟩ := next
  refine ⟨purged.purges.less, ?_, purged.memory⟩
  rw [purged.layer]

theorem get_faded (machine : Machine K V (SoftLayer K V σ)) (key : K) :
    (get delegate key).Ends machine (fun _ => Faded table machine) fun _ _ => False := by
  simp only [get, below, ends_bind, ends_within]
  refine (reliable.get _ _ key).ends (fun found after next => ?_) fun _ _ no => no
  obtain ⟨memory, entries, -⟩ := next
  have less : Less (table after.layer).find? (table machine.layer.delegate).find? :=
    Less.of_same entries
  cases found with
  | none =>
    simp only [ends_bind, count, ends_modifyLayer, ends_pure]
    exact ⟨less, rfl, memory⟩
  | some reference =>
    simp only [ends_bind, ends_memory, count]
    split
    case h_1 =>
      rw [ends_bind]
      exact ends_pin fun ring counters trace => ⟨less, rfl, memory⟩
    case h_2 =>
      simp only [ends_bind, name, ends_layer, ends_pure, ends_report, ends_within]
      refine (reliable.remove _ _ key).ends (fun _ last next => ?_) fun _ _ no => no
      obtain ⟨kept, erased⟩ := next
      exact ⟨(Less.of_erased erased).trans less, rfl, Eq.trans kept memory⟩

theorem remove_faded (machine : Machine K V (SoftLayer K V σ)) (key : K) :
    (remove delegate key).Ends machine (fun _ => Faded table machine) fun _ _ => False := by
  simp only [remove, below, ends_bind, ends_within]
  refine (drain_faded reliable machine).imp (fun _ drained faded => ?_) fun _ _ no => no
  refine (reliable.remove _ _ key).ends (fun found last next => ?_) fun _ _ no => no
  obtain ⟨memory, erased⟩ := next
  have kept : Faded table machine
      ⟨{ drained.layer with delegate := last.layer }, last.memory, last.trace⟩ :=
    faded.trans ⟨Less.of_erased erased, rfl, memory⟩
  cases found with
  | none => exact kept
  | some reference => exact kept

theorem clear_faded (machine : Machine K V (SoftLayer K V σ)) :
    (clear delegate).Ends machine (fun _ => Faded table machine) fun _ _ => False := by
  simp only [clear, below, ends_bind, ends_modifyLayer, ends_within]
  refine (drain_faded reliable _).imp (fun _ drained faded => ?_) fun _ _ no => no
  refine (reliable.clear _ _).ends (fun _ last next => ?_) fun _ _ no => no
  obtain ⟨memory, empty⟩ := next
  have unpinned : Faded table machine drained := ⟨faded.less, faded.registry, faded.memory⟩
  refine unpinned.trans ⟨?_, rfl, memory⟩
  show Less (table last.layer).find? _
  rw [empty]
  intro key reference found
  rw [Table.find?_empty] at found
  cases found

theorem length_faded (machine : Machine K V (SoftLayer K V σ)) :
    (length delegate).Ends machine (fun _ => Faded table machine) fun _ _ => False := by
  simp only [length, below, ends_bind, ends_within]
  refine (drain_faded reliable machine).imp (fun _ drained faded => ?_) fun _ _ no => no
  refine (reliable.length _ _).ends (fun number last next => ?_) fun _ _ no => no
  obtain ⟨memory, entries, -⟩ := next
  exact faded.trans ⟨Less.of_same entries, rfl, memory⟩

theorem put_inOrder (machine : Machine K V (SoftLayer K V σ)) (key : K) (value : Shared V)
    (sound : Sound table machine.layer machine.memory)
    (inOrder : InOrder table order machine.layer machine.memory) :
    (put delegate key value).Ends machine
      (fun _ later => InOrder table (renewed order key) later.layer later.memory)
      fun _ _ => False := by
  simp only [put, below, ends_bind, ends_withQueue, ends_within]
  refine ((drain_drained reliable sound).and (drain_faded reliable machine)).imp
    (fun _ middle next => ?_) fun _ _ no => no.1
  obtain ⟨drained, faded⟩ := next
  refine (reliable.put _ _ key _ drained.sound.distinct).ends (fun _ later next => ?_)
    fun _ _ no => no
  obtain ⟨same, -, less⟩ := next
  show LayeredCache.InOrder _ (table later.layer).find? _ later.memory
  rw [same]
  exact (faded.inOrder inOrder).register drained.sound.inStep.recent _ less

/-- The operations of a soft layer on a reliable delegate. -/
theorem ages : (SoftLayer.cache delegate).Ages fun order layer memory =>
    Sound table layer memory ∧ InOrder table order layer memory where
  put _ _ _ key value start _ :=
    (put_sound reliable key value start.1).and (put_inOrder reliable _ key value start.1 start.2)
      |>.imp (fun _ _ next => next) fun _ _ no => no.1
  get _ _ _ key start _ :=
    ((get_sound reliable key start.1).and (get_faded reliable _ key)).imp
      (fun _ _ next => ⟨next.1.1, next.2.inOrder start.2⟩) fun _ _ no => no.1
  remove _ _ _ key start _ :=
    ((remove_sound reliable key start.1).and (remove_faded reliable _ key)).imp
      (fun _ _ next => ⟨next.1, next.2.inOrder start.2⟩) fun _ _ no => no.1
  clear _ _ _ start _ :=
    ((clear_sound reliable start.1).and (clear_faded reliable _)).imp
      (fun _ _ next => ⟨next.1, next.2.inOrder start.2⟩) fun _ _ no => no.1
  length _ _ _ start _ :=
    ((length_sound reliable start.1).and (length_faded reliable _)).imp
      (fun _ _ next => ⟨next.1.1, next.2.inOrder start.2⟩) fun _ _ no => no.1

omit reliable

/-- A sweep moves no reference. -/
theorem reclaim_inOrder (limit : Nat) {machine : Machine K V (SoftLayer K V σ)}
    (inOrder : InOrder table order machine.layer machine.memory) :
    (reclaim delegate limit).Ends machine
      (fun _ later => InOrder table order later.layer later.memory) fun _ _ => False := by
  simp only [reclaim, ends_bind, ends_withQueue, ends_layer, ends_report, ends_pure]
  exact inOrder.fade (Less.refl _) (ReferenceQueue.kept_sublist _)
    fun _ live => ReferenceQueue.isLive_of_sweep _ live

theorem forceReclaim_inOrder (key : K) {machine : Machine K V (SoftLayer K V σ)}
    (inOrder : InOrder table order machine.layer machine.memory) :
    (forceReclaim delegate key).Ends machine
      (fun _ later => InOrder table order later.layer later.memory) fun _ _ => False := by
  rw [forceReclaim, ends_withQueue]
  unfold ReferenceQueue.forceReclaim
  split
  case h_1 => exact inOrder
  case h_2 reference _ =>
    refine inOrder.fade (Less.refl _) (List.Sublist.refl _) fun other live => ?_
    refine Memory.isLive_iff.mpr fun before => ?_
    exact Memory.isLive_iff.mp live (List.mem_cons_of_mem _ before)

end SoftLayer

/-! ### Stacks -/

namespace Shape

/-- The registry of the soft layer lists what it stores in the order of the last puts. -/
def InOrder (order : List K) : {content : Content} → (shape : Shape content) →
    shape.State K V → Memory K V → Prop
  | _, .store, _, _ => True
  | _, .lru delegate, layer, memory => delegate.InOrder order layer.delegate memory
  | _, .probe delegate, layer, memory => delegate.InOrder order layer.delegate memory
  | _, .soft delegate, layer, memory => SoftLayer.InOrder delegate.table order layer memory

variable {content : Content} {order : List K}

theorem ages {shape : Shape content} (plain : shape.Plain) (soft : shape.hasSoft = true) :
    (shape.cache : Cache K V (shape.State K V) (content.Item K V)).Ages fun order layer memory =>
      shape.Sound layer memory ∧ shape.InOrder order layer memory := by
  induction shape with
  | store => cases soft
  | lru delegate inductionHypothesis => exact LruLayer.ages (inductionHypothesis plain soft)
  | probe delegate => exact plain.elim
  | soft delegate => exact SoftLayer.ages (reliable plain (hasSoft_reference delegate))

section Kept

variable {shape : Shape content} {layer later : shape.State K V} {memory : Memory K V}

/-- Settings do not matter. -/
theorem InOrder.retuned (inOrder : shape.InOrder order layer memory)
    (retuned : shape.Retuned layer later) : shape.InOrder order later memory := by
  induction shape with
  | store => exact inOrder
  | lru delegate inductionHypothesis => exact inductionHypothesis inOrder retuned
  | probe delegate inductionHypothesis => exact inductionHypothesis inOrder retuned
  | soft delegate =>
    have inOrder : SoftLayer.InOrder delegate.table order layer memory := inOrder
    show LayeredCache.InOrder order (delegate.table later.delegate).find? later.queue.registry _
    rw [retuned.1, retuned.2.table]
    exact inOrder

/-- Nor does which values callers hold. -/
theorem InOrder.holding (inOrder : shape.InOrder order layer memory)
    (values : Table String (Shared V)) : shape.InOrder order layer { memory with values } := by
  induction shape with
  | store => exact inOrder
  | lru delegate inductionHypothesis => exact inductionHypothesis inOrder
  | probe delegate inductionHypothesis => exact inductionHypothesis inOrder
  | soft delegate => exact inOrder.fade (Less.refl _) (List.Sublist.refl _) fun _ live => live

end Kept

/-- What leaves the order alone in the soft layer does so in the whole stack. -/
theorem visitSoft_inOrder {α : Type} {shape : Shape content}
    {action : (delegate : Shape .reference) → Action K V (SoftLayer K V (delegate.State K V)) α}
    (each : ∀ (delegate : Shape .reference) machine,
      SoftLayer.InOrder delegate.table order machine.layer machine.memory →
      (action delegate).Ends machine
        (fun _ later => SoftLayer.InOrder delegate.table order later.layer later.memory)
        fun _ _ => False)
    {machine : Machine K V (shape.State K V)}
    (inOrder : shape.InOrder order machine.layer machine.memory) :
    (shape.visitSoft action).Ends machine
      (fun _ later => shape.InOrder order later.layer later.memory) fun _ _ => False := by
  induction shape with
  | store => trivial
  | lru delegate inductionHypothesis =>
    rw [visitSoft, LruLayer.below, ends_within]
    exact inductionHypothesis inOrder
  | probe delegate inductionHypothesis =>
    rw [visitSoft, ProbeLayer.below, ends_within]
    exact inductionHypothesis inOrder
  | soft delegate =>
    rw [visitSoft, ends_map]
    exact each delegate machine inOrder

/-! ### Runs -/

variable {shape : Shape .value} {machine : Machine K V (shape.State K V)}

/-- A deed that is no call leaves the order alone. -/
theorem inOrder_perform {deed : Deed K V} (silent : ∀ call, deed ≠ .call call)
    (inOrder : shape.InOrder order machine.layer machine.memory) :
    (shape.perform deed).Ends machine
      (fun _ later => shape.InOrder order later.layer later.memory) fun _ _ => False := by
  have retunes : shape.Retunes (shape.perform deed) →
      (shape.perform deed).Ends machine
        (fun _ later => shape.InOrder order later.layer later.memory) fun _ _ => False :=
    fun retunes => (retunes _ _).ends (fun _ _ next => next.1 ▸ inOrder.retuned next.2)
      fun _ _ no => no
  cases deed with
  | call call => exact absurd rfl (silent call)
  | reclaim limit =>
    rw [perform, ends_map]
    exact visitSoft_inOrder (fun _ _ start => SoftLayer.reclaim_inOrder limit start) inOrder
  | reclaimAll =>
    rw [perform, ends_map]
    refine visitSoft_inOrder (fun _ _ start => ?_) inOrder
    rw [SoftLayer.reclaimAll, ends_bind, ends_layer]
    exact SoftLayer.reclaim_inOrder _ start
  | forceReclaim key =>
    rw [perform, ends_map]
    exact visitSoft_inOrder (fun _ _ start => SoftLayer.forceReclaim_inOrder key start) inOrder
  | setCapacity position capacity => exact retunes (retunes_setCapacity shape position capacity)
  | setWindow window => exact retunes (retunes_setWindow shape window)
  | addFault position fault => exact retunes (retunes_addFault shape position fault)
  | hold name value => exact inOrder.holding _
  | release name => exact inOrder.holding _

variable (plain : shape.Plain) (soft : shape.hasSoft = true)

include plain soft

/-- Every deed leads from one order of the last puts to the next one. -/
theorem aged_perform (deed : Deed K V) (sound : shape.Sound machine.layer machine.memory)
    (inOrder : shape.InOrder order machine.layer machine.memory) :
    (shape.perform deed).Ends machine
      (fun _ later => shape.Sound later.layer later.memory ∧
        shape.InOrder (deed.renews order) later.layer later.memory)
      fun _ _ => False := by
  by_cases silent : ∀ call, deed ≠ .call call
  · have same : deed.renews order = order := by
      cases deed with
      | call call => exact absurd rfl (silent call)
      | _ => rfl
    rw [same]
    exact ((sound_perform plain soft sound deed).and (inOrder_perform silent inOrder)).imp
      (fun _ _ next => next) fun _ _ no => no.1
  · simp only [ne_eq, not_forall, not_not] at silent
    obtain ⟨call, rfl⟩ := silent
    have ages := ages (K := K) (V := V) plain soft
    rw [perform, ends_map]
    cases call with
    | put key value =>
      simp only [Cache.call, ends_bind, ends_pure]
      exact (ages.put order _ _ key value ⟨sound, inOrder⟩).ends (fun _ _ next => next)
        fun _ _ no => no
    | get key =>
      simp only [Cache.call, ends_bind, ends_pure]
      exact (ages.get order _ _ key ⟨sound, inOrder⟩).ends (fun _ _ next => next) fun _ _ no => no
    | remove key =>
      simp only [Cache.call, ends_bind, ends_pure]
      exact (ages.remove order _ _ key ⟨sound, inOrder⟩).ends (fun _ _ next => next)
        fun _ _ no => no
    | clear =>
      simp only [Cache.call, ends_bind, ends_pure]
      exact (ages.clear order _ _ ⟨sound, inOrder⟩).ends (fun _ _ next => next) fun _ _ no => no
    | length =>
      simp only [Cache.call, ends_bind, ends_pure]
      exact (ages.length order _ _ ⟨sound, inOrder⟩).ends (fun _ _ next => next) fun _ _ no => no
    | isEmpty =>
      simp only [Cache.call, Cache.isEmpty, ends_bind, ends_pure]
      exact (ages.length order _ _ ⟨sound, inOrder⟩).ends (fun _ _ next => next) fun _ _ no => no

omit plain soft in
/-- What has occurred is what was done. -/
theorem deeds_run (deeds : List (Deed K V)) (machine : Machine K V (shape.State K V)) :
    (shape.run deeds machine).1.map (·.deed) = deeds := by
  induction deeds generalizing machine with
  | nil => rfl
  | cons deed rest inductionHypothesis =>
    rw [run_cons, List.map_cons, inductionHypothesis]

/-- After a run the registry lists what is stored in the order of the last puts of the run. -/
theorem aged_run (deeds : List (Deed K V)) (sound : shape.Sound machine.layer machine.memory)
    (inOrder : shape.InOrder [] machine.layer machine.memory) :
    shape.Sound (shape.run deeds machine).2.layer (shape.run deeds machine).2.memory ∧
      shape.InOrder (lastPuts deeds) (shape.run deeds machine).2.layer
        (shape.run deeds machine).2.memory := by
  have aged := run_induction
    (fun past machine => shape.Sound machine.layer machine.memory ∧
      shape.InOrder (lastPuts (past.map (·.deed))) machine.layer machine.memory)
    (fun _ => True)
    (fun past machine deed _ aged => by
      simp only [List.map_append, List.map_singleton, lastPuts, List.foldl_append,
        List.foldl_cons, List.foldl_nil]
      exact (aged_perform plain soft deed aged.1 aged.2).imp (fun _ _ next => next)
        fun _ _ no => no.elim)
    deeds (fun _ _ => trivial) [] machine ⟨sound, inOrder⟩
  rwa [List.nil_append, deeds_run] at aged

end Shape

end LayeredCache
