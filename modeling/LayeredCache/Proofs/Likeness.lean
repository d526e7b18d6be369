/-
This file proves that stacks in alike states cannot be told apart, whatever is done to them.

Alike states agree in everything that answers depend on: what is stored, recency orders, what is
overdue, faults, rings, notifications, and the registered references that are held and live. They
may differ in counters, in thresholds and in what registries have left over. Every layer hands this
on: if its delegate is blind to the differences, so is the layer.

Below a soft layer it has to be known as well which references there can be, so that a reference
that the soft layer has given up is never held again, and that no operation touches the memory.
-/

import LayeredCache.Proofs.Building
import LayeredCache.Proofs.Distinct
import LayeredCache.Proofs.Leftovers
import LayeredCache.Proofs.Twins
import LayeredCache.Proofs.Usage

namespace LayeredCache

open LayeredCache.Action

variable {K V σ X α : Type}

/-! ### Caches -/

/-- No operation tells alike states apart, if items that are put are allowed. -/
structure Cache.Blind (cache : Cache K V σ X) (alike : σ → σ → Memory K V → Prop)
    (allowed : X → Prop) : Prop where
  id : ∀ {one other memory}, alike one other memory → cache.id one = cache.id other
  handles : ∀ {one other memory}, alike one other memory → cache.handles one = cache.handles other
  put : ∀ key item, allowed item → (cache.put key item).Blind alike
  get : ∀ key, (cache.get key).Blind alike
  remove : ∀ key, (cache.remove key).Blind alike
  clear : cache.clear.Blind alike
  length : cache.length.Blind alike

theorem Cache.Blind.call {cache : Cache K V σ X} {alike : σ → σ → Memory K V → Prop}
    (blind : cache.Blind alike fun _ => True) (call : Call K X) :
    (cache.call call).Blind alike := by
  cases call with
  | put key item => exact (blind.put key item trivial).bind fun _ => blind_pure _
  | get key => exact (blind.get key).bind fun _ => blind_pure _
  | remove key => exact (blind.remove key).bind fun _ => blind_pure _
  | clear => exact blind.clear.bind fun _ => blind_pure _
  | length => exact blind.length.bind fun _ => blind_pure _
  | isEmpty => exact (blind.length.bind fun _ => blind_pure _).bind fun _ => blind_pure _

/-! ### Stores -/

/-- The stores are the same, have only allowed items, and the memory is a proper one. -/
structure Store.Alike (allowed : X → Prop) (proper : Memory K V → Prop) (one other : Store K X)
    (memory : Memory K V) : Prop where
  same : one = other
  named : one.id ≠ ""
  items : ∀ item ∈ one.table.items, allowed item
  proper : proper memory

theorem blind_store [DecidableEq K] (handles : List X → Handles K V) (allowed : X → Prop)
    (proper : Memory K V → Prop) :
    (Store.cache handles).Blind (Store.Alike allowed proper) allowed where
  id alike := congrArg Store.id alike.same
  handles alike := congrArg (fun store : Store K X => handles store.table.items) alike.same
  put key item fits := by
    refine blind_modifyLayer ?_
    rintro one _ memory ⟨rfl, named, items, proper⟩
    refine ⟨rfl, named, fun found member => ?_, proper⟩
    rcases Table.mem_items_insert member with rfl | older
    · exact fits
    · exact items found older
  get key := by
    refine Blind.layer ?_ fun _ => blind_pure _
    rintro one _ memory ⟨rfl, -, -, -⟩
    rfl
  remove key := by
    refine blind_updateLayer ?_ ?_
    · rintro one _ memory ⟨rfl, -, -, -⟩
      rfl
    · rintro one _ memory ⟨rfl, named, items, proper⟩
      refine ⟨rfl, named, fun found member => items found ?_, proper⟩
      exact (Table.items_erase_sublist one.table key).subset member
  clear := by
    refine blind_modifyLayer ?_
    rintro one _ memory ⟨rfl, named, -, proper⟩
    exact ⟨rfl, named, fun _ member => absurd member List.not_mem_nil, proper⟩
  length := by
    refine Blind.layer ?_ fun _ => blind_pure _
    rintro one _ memory ⟨rfl, -, -, -⟩
    rfl

/-! ### Probes -/

namespace ProbeLayer

variable {inner : σ → σ → Memory K V → Prop}

/-- The probes have the same faults ahead of them and stand on alike states. -/
structure Alike (inner : σ → σ → Memory K V → Prop) (one other : ProbeLayer σ)
    (memory : Memory K V) : Prop where
  faults : one.faults = other.faults
  delegate : inner one.delegate other.delegate memory

theorem below_blind {action : Action K V σ α} (blind : action.Blind inner) :
    (below action).Blind (Alike inner) :=
  Blind.within fun _ _ _ alike =>
    ⟨inner, blind, alike.delegate, fun _ _ _ after => ⟨alike.faults, after⟩⟩

theorem intercept_blind {action : Action K V σ α} (blind : action.Blind inner) (position : Nat)
    (method : Method) (key : Option K) :
    (intercept position method key action).Blind (Alike inner) := by
  have failed (cause : CacheError) :
      (fail position cause : Action K V (ProbeLayer σ) α).Blind (Alike inner) :=
    (blind_note _).bind fun _ => blind_throw cause
  refine Blind.bind (blind_updateLayer (fun one other memory alike => ?_)
    fun one other memory alike => ?_) fun fault => (blind_note _).bind fun _ => ?_
  · exact congrArg (fun faults => (Fault.take method faults).1) alike.faults
  · exact ⟨congrArg (fun faults => (Fault.take method faults).2) alike.faults, alike.delegate⟩
  · cases fault with
    | none => exact below_blind blind
    | some fault =>
      dsimp only
      split
      · exact (below_blind blind).bind fun _ => failed fault.error
      · exact failed fault.error

theorem cache_blind {delegate : Cache K V σ X} {allowed : X → Prop}
    (blind : delegate.Blind inner allowed) (position : Nat) : (ProbeLayer.cache position delegate).Blind (Alike inner) allowed where
  id alike := blind.id alike.delegate
  handles alike := blind.handles alike.delegate
  put key item fits := intercept_blind (blind.put key item fits) position .put (some key)
  get key := intercept_blind (blind.get key) position .get (some key)
  remove key := intercept_blind (blind.remove key) position .remove (some key)
  clear := intercept_blind blind.clear position .clear none
  length := intercept_blind blind.length position .length none

theorem addFault_blind (fault : Fault) :
    (addFault fault : Action K V (ProbeLayer σ) Unit).Blind (Alike inner) :=
  blind_modifyLayer fun _ _ _ alike => ⟨congrArg (· ++ [fault]) alike.faults, alike.delegate⟩

end ProbeLayer

/-! ### Recency layers -/

namespace LruLayer

variable [DecidableEq K] {inner : σ → σ → Memory K V → Prop}

/-- The layers track the same keys, owe as many victims and have the same capacity, which is not
zero, and they stand on alike states. -/
structure Alike (inner : σ → σ → Memory K V → Prop) (one other : LruLayer K σ)
    (memory : Memory K V) : Prop where
  order : one.order = other.order
  capacity : one.capacity = other.capacity
  overdue : one.overdue = other.overdue
  positive : 0 < one.capacity
  delegate : inner one.delegate other.delegate memory

omit [DecidableEq K] in
theorem below_blind {action : Action K V σ α} (blind : action.Blind inner) :
    (below action : Action K V (LruLayer K σ) α).Blind (Alike inner) :=
  Blind.within fun _ _ _ alike =>
    ⟨inner, blind, alike.delegate, fun _ _ _ after =>
      ⟨alike.order, alike.capacity, alike.overdue, alike.positive, after⟩⟩

omit [DecidableEq K] in
theorem count_blind (step : LruCounters → LruCounters) :
    (count step : Action K V (LruLayer K σ) Unit).Blind (Alike inner) :=
  blind_modifyLayer fun _ _ _ alike =>
    ⟨alike.order, alike.capacity, alike.overdue, alike.positive, alike.delegate⟩

section Victims

variable {one other : LruLayer K σ} {memory : Memory K V}

/-- Alike layers pop the same victim for a key. -/
theorem Alike.track (alike : Alike inner one other memory) (key : K) :
    (track key one).1 = (track key other).1 ∧
      Alike inner (LruLayer.track key one).2 (LruLayer.track key other).2 memory := by
  obtain ⟨order, capacity, overdue, positive, below⟩ := alike
  unfold LruLayer.track
  simp only [← order, ← capacity]
  split
  · exact ⟨rfl, rfl, rfl, overdue, positive, below⟩
  · exact ⟨rfl, rfl, rfl, overdue, positive, below⟩

/-- Alike layers pop the same overdue victim. -/
theorem Alike.takeOverdue (alike : Alike inner one other memory) :
    (takeOverdue one).1 = (takeOverdue other).1 ∧
      Alike inner (LruLayer.takeOverdue one).2 (LruLayer.takeOverdue other).2 memory := by
  obtain ⟨order, capacity, overdue, positive, below⟩ := alike
  unfold LruLayer.takeOverdue
  rw [← order, ← capacity, ← overdue]
  split
  · exact ⟨rfl, order, capacity, overdue, positive, below⟩
  · split
    · exact ⟨rfl, rfl, rfl, rfl, positive, below⟩
    · split
      · exact ⟨rfl, rfl, rfl, rfl, positive, below⟩
      · exact ⟨rfl, rfl, rfl, rfl, positive, below⟩

end Victims

variable {delegate : Cache K V σ X} {allowed : X → Prop} (blind : delegate.Blind inner allowed)

include blind

theorem evict_blind (victim : K) : (evict delegate victim).Blind (Alike inner) := by
  refine (count_blind _).bind fun _ => Blind.layer (fun one other memory alike => ?_) fun _ => ?_
  · rw [blind.id alike.delegate]
  · refine (blind_report _).bind fun _ => Blind.tryCatch ?_ fun cause => ?_
    · exact (below_blind (blind.remove victim)).bind fun _ => blind_pure _
    · refine Blind.bind (blind_modifyLayer fun one other memory alike => ?_) fun _ => blind_throw _
      exact ⟨congrArg (fun order => (order.pushBack victim).2) alike.order, alike.capacity,
        congrArg (· + 1) alike.overdue, alike.positive, alike.delegate⟩

theorem settle_blind (rounds : Nat) : (settle delegate rounds).Blind (Alike inner) := by
  induction rounds with
  | zero => exact blind_pure ()
  | succ rounds inductionHypothesis =>
    refine Blind.bind (blind_updateLayer (fun _ _ _ alike => alike.takeOverdue.1)
      fun _ _ _ alike => alike.takeOverdue.2) fun victim => ?_
    cases victim with
    | none => exact blind_pure ()
    | some victim => exact (evict_blind blind victim).bind fun _ => inductionHypothesis

theorem put_blind {key : K} {item : X} (fits : allowed item) :
    (LruLayer.put delegate key item).Blind (Alike inner) := by
  refine (below_blind (blind.put key item fits)).bind fun _ => (count_blind _).bind fun _ => ?_
  refine Blind.bind (blind_updateLayer (fun _ _ _ alike => (alike.track key).1)
    fun _ _ _ alike => (alike.track key).2) fun victim => ?_
  have settled : (do settle delegate (← Action.layer).overdue :
      Action K V (LruLayer K σ) Unit).Blind (Alike inner) :=
    Blind.layer (fun _ _ _ alike => congrArg (settle delegate) alike.overdue)
      fun layer => settle_blind blind layer.overdue
  cases victim with
  | none => exact settled
  | some victim => exact (evict_blind blind victim).bind fun _ => settled

/-- A recency layer shows nothing of its counters. -/
theorem cache_blind : (LruLayer.cache delegate).Blind (Alike inner) allowed where
  id alike := blind.id alike.delegate
  handles alike := blind.handles alike.delegate
  put key item fits := put_blind blind fits
  get key := by
    refine Blind.bind (blind_updateLayer (fun one other memory alike => ?_)
      fun one other memory alike => ?_) fun _ => ?_
    · exact congrArg (fun order => (order.touch key).1) alike.order
    · exact ⟨congrArg (fun order => (order.touch key).2) alike.order, alike.capacity,
        alike.overdue, alike.positive, alike.delegate⟩
    · exact (count_blind _).bind fun _ => below_blind (blind.get key)
  remove key := by
    refine (below_blind (blind.remove key)).bind fun _ =>
      Blind.bind (blind_modifyLayer fun one other memory alike => ?_) fun _ =>
        (count_blind _).bind fun _ => blind_pure _
    exact ⟨congrArg (fun order => (order.erase key).2) alike.order, alike.capacity,
      alike.overdue, alike.positive, alike.delegate⟩
  clear := by
    refine (below_blind blind.clear).bind fun _ =>
      Blind.bind (blind_modifyLayer fun one other memory alike => ?_) fun _ => count_blind _
    exact ⟨congrArg RecencyOrder.clear alike.order, alike.capacity, rfl, alike.positive,
      alike.delegate⟩
  length := below_blind blind.length

omit [DecidableEq K] in
theorem setCapacity_blind (capacity : Nat) :
    (setCapacity delegate capacity).Blind (Alike inner) := by
  unfold setCapacity
  split
  case h_1 => exact blind_pure _
  case h_2 accepted =>
    refine Blind.layer (fun one other memory alike => ?_) fun _ => ?_
    · rw [blind.id alike.delegate, alike.capacity]
    · refine Blind.bind (blind_modifyLayer fun one other memory alike => ?_) fun _ =>
        (blind_report _).bind fun _ => blind_pure _
      exact ⟨alike.order, rfl, alike.overdue, checkCapacity_eq_ok.mp accepted, alike.delegate⟩

end LruLayer

/-! ### Soft layers -/

/-- The cache is blind to what states differ in that are alike, with references from a list alone,
in a certain memory. No operation changes the memory, and being alike depends on nothing else of the
list and the memory. -/
structure Cache.Contained (delegate : Cache K V σ (SoftReference K V))
    (inner : List (SoftReference K V) → Memory K V → σ → σ → Memory K V → Prop) : Prop where
  blind : ∀ held memory, delegate.Blind (inner held memory) (· ∈ held)
  still : ∀ {held memory one other later}, inner held memory one other later → later = memory
  within : ∀ {held memory one other later}, inner held memory one other later →
    (delegate.handles one).references ⊆ held
  move : ∀ {held memory one other} wider later, inner held memory one other memory →
    (delegate.handles one).references ⊆ wider → inner wider later one other later

namespace SoftLayer

variable {inner : List (SoftReference K V) → Memory K V → σ → σ → Memory K V → Prop}
  {held : List (SoftReference K V)}

/-- The layers pin the same values, have the same window, which is not zero, and alike queues, and
they stand on alike states. No caller holds a reference. -/
structure Alike (inner : List (SoftReference K V) → Memory K V → σ → σ → Memory K V → Prop)
    (held : List (SoftReference K V)) (one other : SoftLayer K V σ) (memory : Memory K V) :
    Prop where
  ring : one.ring = other.ring
  window : one.window = other.window
  positive : 0 < one.window
  unheld : memory.references.items = []
  queue : ReferenceQueue.Alike held one.queue other.queue memory
  delegate : inner held memory one.delegate other.delegate memory

theorem count_blind (step : SoftCounters → SoftCounters) :
    (count step : Action K V (SoftLayer K V σ) Unit).Blind (Alike inner held) :=
  blind_modifyLayer fun _ _ _ alike =>
    ⟨alike.ring, alike.window, alike.positive, alike.unheld, alike.queue, alike.delegate⟩

variable {delegate : Cache K V σ (SoftReference K V)} (contained : delegate.Contained inner)

include contained

theorem below_blind {action : Action K V σ α} (blind : ∀ memory, action.Blind (inner held memory)) :
    (below action).Blind (Alike inner held) := by
  refine Blind.within fun one other memory alike =>
    ⟨inner held memory, blind memory, alike.delegate, fun first second later after => ?_⟩
  obtain rfl := contained.still after
  exact ⟨alike.ring, alike.window, alike.positive, alike.unheld, alike.queue, after⟩

theorem name_blind : (name delegate).Blind (Alike inner held) :=
  Blind.layer (fun _ _ _ alike => congrArg pure ((contained.blind _ _).id alike.delegate))
    fun _ => blind_pure _

/-- The same entries are looked at and removed. -/
theorem removeReclaimed_blind (keys : List K) (removed : Nat) :
    (removeReclaimed delegate keys removed).Blind (Alike inner held) := by
  induction keys generalizing removed with
  | nil => exact blind_pure removed
  | cons key rest inductionHypothesis =>
    refine Blind.bind (blind_modifyLayer fun one other memory alike => ?_) fun _ =>
      (below_blind contained fun memory => (contained.blind held memory).get key).bind
        fun found => ?_
    · exact ⟨alike.ring, alike.window, alike.positive, alike.unheld, alike.queue.withPending rest,
        alike.delegate⟩
    · cases found with
      | none => exact inductionHypothesis removed
      | some reference =>
        refine Blind.memory fun memory => ?_
        split
        · exact inductionHypothesis removed
        · exact (below_blind contained fun memory => (contained.blind held memory).remove key).bind
            fun _ => inductionHypothesis (removed + 1)

theorem drain_blind : (drain delegate).Blind (Alike inner held) := by
  refine Blind.layer (fun one other memory alike => ?_) fun layer => ?_
  · rw [alike.queue.pending]
  · refine (removeReclaimed_blind contained _ 0).bind fun removed => ?_
    split
    · exact (name_blind contained).bind fun _ => (blind_report _).bind fun _ => count_blind _
    · exact blind_pure ()

theorem pin_blind (value : Shared V) : (pin delegate value).Blind (Alike inner held) := by
  refine Blind.layer (fun one other memory alike => ?_) fun layer => ?_
  · rw [alike.ring, alike.window]
  · refine Blind.bind (blind_modifyLayer fun one other memory alike => ?_) fun _ => ?_
    · exact ⟨rfl, alike.window, alike.positive, alike.unheld, alike.queue, alike.delegate⟩
    · dsimp only
      split
      · exact (name_blind contained).bind fun _ => (blind_report _).bind fun _ => count_blind _
      · exact count_blind _

/-! ### What is alive -/

section Alive

variable {one other : Machine K V (SoftLayer K V σ)} (twins : Twins (Alike inner held) one other)

include twins

theorem alive_eq : alive delegate other = alive delegate one := by
  unfold alive handles
  rw [twins.memory, twins.layer.ring, (contained.blind _ _).handles twins.layer.delegate]

/-- Whatever is alive is on the list. -/
theorem alive_subset : (alive delegate one).references ⊆ held := by
  rw [references_alive_of_unheld twins.layer.unheld]
  exact contained.within twins.layer.delegate

/-- It is enough if the list has what is alive. -/
theorem twins_alive : Twins (Alike inner (alive delegate one).references) one other := by
  have references : (alive delegate one).references = _ :=
    references_alive_of_unheld twins.layer.unheld
  refine ⟨twins.memory, twins.trace, twins.layer.ring, twins.layer.window, twins.layer.positive,
    twins.layer.unheld, twins.layer.queue.fewer (alive_subset contained twins), ?_⟩
  exact contained.move _ _ twins.layer.delegate (references ▸ List.Subset.refl _)

end Alive

/-! ### Changes of the queue -/

/-- The machine with another queue and another memory. -/
def requeued (machine : Machine K V (SoftLayer K V σ))
    (changed : ReferenceQueue K V × Memory K V) : Machine K V (SoftLayer K V σ) :=
  { machine with
    layer := { machine.layer with queue := changed.1 }
    memory := changed.2 }

omit contained in
theorem run_withQueue
    (change : ReferenceQueue K V → Memory K V → Handles K V → α × ReferenceQueue K V × Memory K V)
    (machine : Machine K V (SoftLayer K V σ)) :
    (withQueue delegate change).run machine =
      (.ok (change machine.layer.queue machine.memory (alive delegate machine)).1,
        requeued machine
          (change machine.layer.queue machine.memory (alive delegate machine)).2) := rfl

/-- Changes that leave alike queues and the same memory leave twins. -/
theorem requeued_twins {one other : Machine K V (SoftLayer K V σ)}
    (twins : Twins (Alike inner held) one other) {wider : List (SoftReference K V)}
    {first second : ReferenceQueue K V × Memory K V} (same : first.2 = second.2)
    (queue : ReferenceQueue.Alike wider first.1 second.1 first.2)
    (references : first.2.references = one.memory.references)
    (within : (delegate.handles one.layer.delegate).references ⊆ wider) :
    Twins (Alike inner wider) (requeued one first) (requeued other second) where
  memory := same
  trace := twins.trace
  layer := ⟨twins.layer.ring, twins.layer.window, twins.layer.positive,
    (congrArg Table.items references).trans twins.layer.unheld, queue,
    contained.move wider first.2 twins.layer.delegate within⟩

/-! ### Operations -/

/-- The same reference is registered and stored, and it is on the list from then on. -/
theorem enter_blind (key : K) (value : Shared V) :
    Action.Blind (fun one other memory => ∃ held, Alike inner held one other memory)
      (do
        let reference ← withQueue delegate fun queue memory alive =>
          queue.register memory alive key value
        below (delegate.put key reference)) := by
  rintro one other ⟨memory, trace, held, alike⟩
  have twins : Twins (Alike inner (alive delegate one).references) one other :=
    twins_alive contained ⟨memory, trace, alike⟩
  have made : Twins
      (Alike inner ((one.memory.refer key value).1 :: (alive delegate one).references))
      (requeued one (one.layer.queue.register one.memory (alive delegate one) key value).2)
      (requeued other (other.layer.queue.register one.memory (alive delegate one) key value).2) :=
    requeued_twins contained twins rfl (twins.layer.queue.register key value) rfl
      fun _ member => List.mem_cons_of_mem _ (contained.within twins.layer.delegate member)
  obtain ⟨same, later⟩ := below_blind contained
    (fun now => (contained.blind _ now).put key (one.memory.refer key value).1 List.mem_cons_self)
    _ _ made
  rw [run_bind, run_bind, run_withQueue, run_withQueue, alive_eq contained twins, ← memory]
  exact ⟨same, later.memory, later.trace, _, later.layer⟩

theorem get_blind (key : K) : (SoftLayer.get delegate key).Blind (Alike inner held) := by
  refine (below_blind contained fun memory => (contained.blind held memory).get key).bind
    fun found => ?_
  cases found with
  | none => exact (count_blind _).bind fun _ => blind_pure _
  | some reference =>
    refine Blind.memory fun memory => ?_
    split
    case h_1 value _ =>
      exact (pin_blind contained value).bind fun _ => (count_blind _).bind fun _ => blind_pure _
    case h_2 =>
      exact (name_blind contained).bind fun _ => (blind_report _).bind fun _ =>
        (below_blind contained fun memory => (contained.blind held memory).remove key).bind
          fun _ => (count_blind _).bind fun _ => blind_pure _

theorem remove_blind (key : K) : (SoftLayer.remove delegate key).Blind (Alike inner held) := by
  refine (drain_blind contained).bind fun _ =>
    (below_blind contained fun memory => (contained.blind held memory).remove key).bind
      fun found => ?_
  cases found with
  | none => exact blind_pure _
  | some reference => exact Blind.memory fun _ => blind_pure _

/-- A soft layer shows nothing of its counters, its threshold and what its registry has left
over. -/
theorem cache_blind : (SoftLayer.cache delegate).Blind
    (fun one other memory => ∃ held, Alike inner held one other memory) fun _ => True where
  id := fun ⟨held, alike⟩ => (contained.blind held _).id alike.delegate
  handles := by
    rintro one other memory ⟨held, alike⟩
    show handles delegate one = handles delegate other
    unfold handles
    rw [(contained.blind held memory).handles alike.delegate, alike.ring]
  put key value _ :=
    (Blind.exists fun _ => drain_blind contained).bind fun _ => enter_blind contained key value
  get key := Blind.exists fun _ => get_blind contained key
  remove key := Blind.exists fun _ => remove_blind contained key
  clear := Blind.exists fun held =>
    (blind_modifyLayer fun _ _ _ alike =>
      ⟨rfl, alike.window, alike.positive, alike.unheld, alike.queue, alike.delegate⟩).bind fun _ =>
        (drain_blind contained).bind fun _ =>
          below_blind contained fun memory => (contained.blind held memory).clear
  length := Blind.exists fun held => (drain_blind contained).bind fun _ =>
    below_blind contained fun memory => (contained.blind held memory).length

/-! ### The memory manager's side -/

/-- Sweeps that do the same leave twins, whatever limits they keep to. -/
theorem reclaim_twins {one other : Machine K V (SoftLayer K V σ)} {limit most : Nat}
    (twins : Twins (Alike inner held) one other)
    (same : one.layer.queue.reclaim one.memory (alive delegate one) limit =
      other.layer.queue.reclaim one.memory (alive delegate one) most) :
    ((reclaim delegate limit).run one).1 = ((reclaim delegate most).run other).1 ∧
      Twins (Alike inner held) ((reclaim delegate limit).run one).2
        ((reclaim delegate most).run other).2 := by
  have swept : Twins (Alike inner held)
      (requeued one (one.layer.queue.reclaim one.memory (alive delegate one) limit).2)
      (requeued other (one.layer.queue.reclaim one.memory (alive delegate one) limit).2) :=
    requeued_twins contained twins rfl
      (ReferenceQueue.alike_self (ReferenceQueue.numbered_reclaim twins.layer.queue.numbered _ _) _)
      (ReferenceQueue.references_sweep _) (contained.within twins.layer.delegate)
  unfold reclaim
  rw [run_bind, run_bind, run_withQueue, run_withQueue, alive_eq contained twins, ← twins.memory,
    ← same]
  exact (blind_report _).bind (fun _ => blind_pure _) _ _ swept

theorem reclaim_blind (limit : Nat) : (reclaim delegate limit).Blind (Alike inner held) :=
  fun _ _ twins => reclaim_twins contained twins
    (twins.layer.queue.reclaim_eq (alive_subset contained twins) limit)

theorem reclaimAll_blind : (reclaimAll delegate).Blind (Alike inner held) :=
  fun _ _ twins => reclaim_twins contained twins
    (twins.layer.queue.reclaimAll_eq (alive_subset contained twins))

theorem forceReclaim_blind [DecidableEq K] (key : K) :
    (forceReclaim delegate key).Blind (Alike inner held) := by
  intro one other twins
  obtain ⟨answer, memory, queue⟩ :=
    twins.layer.queue.forceReclaim (alive_subset contained twins) key
  unfold forceReclaim
  rw [run_withQueue, run_withQueue, alive_eq contained twins, ← twins.memory]
  exact ⟨congrArg Except.ok answer, requeued_twins contained twins memory queue
    (ReferenceQueue.references_forceReclaim _ _ key) (contained.within twins.layer.delegate)⟩

theorem registered_twins {one other : Machine K V (SoftLayer K V σ)}
    (twins : Twins (Alike inner held) one other) :
    registered delegate one = registered delegate other := by
  show one.layer.queue.registered one.memory (alive delegate one) =
    other.layer.queue.registered other.memory (alive delegate other)
  rw [alive_eq contained twins, ← twins.memory]
  exact twins.layer.queue.registered_eq (alive_subset contained twins)

theorem setWindow_blind (window : Nat) : (setWindow delegate window).Blind (Alike inner held) := by
  unfold setWindow
  split
  case h_1 => exact blind_pure _
  case h_2 accepted =>
    refine Blind.layer (fun one other memory alike => ?_) fun _ => ?_
    · rw [(contained.blind held memory).id alike.delegate, alike.window]
    · refine Blind.bind (blind_modifyLayer fun one other memory alike => ?_) fun _ =>
        (blind_report _).bind fun _ => blind_pure _
      exact ⟨alike.ring, rfl, checkWindow_eq_ok.mp accepted, alike.unheld, alike.queue,
        alike.delegate⟩

end SoftLayer

end LayeredCache
