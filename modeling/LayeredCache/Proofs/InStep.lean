/-
This file proves that what a soft layer stores, the registry of its references and its notifications
stay in step, as far as the queue and the memory go.

Every stored reference that has lost its value waits in a notification, every other one is
registered, and no number stands for two references. A registration, a sweep and a forced
reclamation keep this. It makes the references that can be resolved the registered ones that are
held and live, so both can be counted by the same keys.
-/

import LayeredCache.Proofs.Sweeps
import LayeredCache.Proofs.Views

namespace LayeredCache

variable {K V : Type}

/-! ### What is shown -/

/-- The values that can still be returned. -/
def shown (stored : K → Option (SoftReference K V)) (memory : Memory K V) (key : K) :
    Option (Shared V) :=
  (stored key).bind memory.resolve

theorem shown_isSome {stored : K → Option (SoftReference K V)} {memory : Memory K V} {key : K} :
    (shown stored memory key).isSome = true ↔
      ∃ reference, stored key = some reference ∧ memory.isLive reference = true := by
  unfold shown Memory.resolve
  cases stored key with
  | none => simp
  | some reference => cases live : memory.isLive reference <;> simp [live]

/-- The keys list, each once, what is shown. -/
structure Enumerates {X : Type} (keys : List K) (view : K → Option X) : Prop where
  nodup : keys.Nodup
  mem : ∀ key, key ∈ keys ↔ (view key).isSome = true

theorem Enumerates.length_eq {X : Type} {keys others : List K} {view : K → Option X}
    (enumerates : Enumerates keys view) (again : Enumerates others view) :
    keys.length = others.length := by
  refine ((List.perm_ext_iff_of_nodup enumerates.nodup again.nodup).mpr fun key => ?_).length_eq
  rw [enumerates.mem, again.mem]

/-! ### The invariant -/

/-- The stored references, the registry and the keys that wait in notifications fit together. -/
structure InStep (stored : K → Option (SoftReference K V)) (registry : List (SoftReference K V))
    (memory : Memory K V) (waiting : List K) : Prop where
  keyed : ∀ key reference, stored key = some reference → reference.key = key
  numbered : ∀ key other reference another, stored key = some reference →
    stored other = some another → reference.number = another.number → key = other
  notified : ∀ key reference, stored key = some reference → memory.isLive reference = false →
    key ∈ waiting
  enrolled : ∀ key reference, stored key = some reference → memory.isLive reference = true →
    reference ∈ registry
  unique : (registry.map (·.number)).Nodup
  coherent : ∀ key reference another, stored key = some reference → another ∈ registry →
    another.number = reference.number → another = reference
  recent : ∀ reference ∈ registry, reference.number < memory.nextNumber
  past : ∀ number ∈ memory.reclaimed, number < memory.nextNumber

/-- The handles hold copies of the stored references, and of no others. -/
def Holding (handles : Handles K V) (stored : K → Option (SoftReference K V)) : Prop :=
  ∀ reference, handles.holds reference = true ↔
    ∃ key other, stored key = some other ∧ other.number = reference.number

namespace InStep

variable {stored later : K → Option (SoftReference K V)} {registry : List (SoftReference K V)}
  {memory : Memory K V} {waiting : List K} {handles : Handles K V}

theorem empty (window : List K) : InStep (fun _ => none) [] ({} : Memory K V) window where
  keyed := nofun
  numbered := nofun
  notified := nofun
  enrolled := nofun
  unique := List.nodup_nil
  coherent := nofun
  recent := nofun
  past := nofun

theorem stored_lt (inStep : InStep stored registry memory waiting) {key : K}
    {reference : SoftReference K V} (found : stored key = some reference) :
    reference.number < memory.nextNumber := by
  cases live : memory.isLive reference with
  | true => exact inStep.recent reference (inStep.enrolled key reference found live)
  | false => exact inStep.past _ (Memory.isLive_eq_false.mp live)

/-- Fewer stored references need fewer notifications. -/
theorem less (inStep : InStep stored registry memory waiting) (less : Less later stored)
    {left : List K}
    (notified : ∀ key reference, later key = some reference → memory.isLive reference = false →
      key ∈ left) :
    InStep later registry memory left where
  keyed key reference found := inStep.keyed key reference (less key reference found)
  numbered key other reference another found again :=
    inStep.numbered key other reference another (less key _ found) (less other _ again)
  notified := notified
  enrolled key reference found := inStep.enrolled key reference (less key reference found)
  unique := inStep.unique
  coherent key reference another found :=
    inStep.coherent key reference another (less key reference found)
  recent := inStep.recent
  past := inStep.past

/-- More keys may wait than need to. -/
theorem mono (inStep : InStep stored registry memory waiting) {others : List K}
    (subset : waiting ⊆ others) : InStep stored registry memory others :=
  inStep.less (Less.refl stored) fun key reference found dead =>
    subset (inStep.notified key reference found dead)

/-- A registered reference that is held is a stored one. -/
theorem stored_of_current (inStep : InStep stored registry memory waiting)
    (holding : Holding handles stored) {reference : SoftReference K V}
    (member : reference ∈ registry)
    (current : ReferenceQueue.isCurrent memory handles reference = true) :
    stored reference.key = some reference ∧ memory.isLive reference = true := by
  obtain ⟨held, live⟩ := Bool.and_eq_true_iff.mp current
  obtain ⟨key, other, found, same⟩ := (holding reference).mp held
  obtain rfl := inStep.coherent key other reference found member same.symm
  rw [inStep.keyed key reference found]
  exact ⟨found, live⟩

/-- A stored reference that is live is registered and held. -/
theorem current_of_stored (inStep : InStep stored registry memory waiting)
    (holding : Holding handles stored) {key : K} {reference : SoftReference K V}
    (found : stored key = some reference) (live : memory.isLive reference = true) :
    reference ∈ registry ∧ ReferenceQueue.isCurrent memory handles reference = true := by
  refine ⟨inStep.enrolled key reference found live, Bool.and_eq_true_iff.mpr ⟨?_, live⟩⟩
  exact (holding reference).mpr ⟨key, reference, found, rfl⟩

/-- The keys of the registered references that are held and live are those that show a value. -/
theorem enumerates (inStep : InStep stored registry memory waiting)
    (holding : Holding handles stored) :
    Enumerates ((registry.filter (ReferenceQueue.isCurrent memory handles)).map (·.key))
      (shown stored memory) where
  nodup := by
    refine (inStep.unique.of_map.filter _).map_on fun one first other second same => ?_
    obtain ⟨member, current⟩ := List.mem_filter.mp first
    obtain ⟨member', current'⟩ := List.mem_filter.mp second
    have found := (inStep.stored_of_current holding member current).1
    rw [same, (inStep.stored_of_current holding member' current').1] at found
    exact (Option.some.inj found).symm
  mem key := by
    rw [shown_isSome, List.mem_map]
    constructor
    · rintro ⟨reference, member, rfl⟩
      obtain ⟨member, current⟩ := List.mem_filter.mp member
      exact ⟨reference, inStep.stored_of_current holding member current⟩
    · rintro ⟨reference, found, live⟩
      refine ⟨reference, List.mem_filter.mpr ?_, inStep.keyed key reference found⟩
      exact inStep.current_of_stored holding found live

/-- A registry may drop what is not stored or not live. -/
theorem prune (inStep : InStep stored registry memory waiting) {kept : List (SoftReference K V)}
    (fewer : kept.Sublist registry)
    (enrolled : ∀ key reference, stored key = some reference → memory.isLive reference = true →
      reference ∈ kept) :
    InStep stored kept memory waiting where
  keyed := inStep.keyed
  numbered := inStep.numbered
  notified := inStep.notified
  enrolled := enrolled
  unique := inStep.unique.sublist (fewer.map _)
  coherent key reference another found member :=
    inStep.coherent key reference another found (fewer.subset member)
  recent reference member := inStep.recent reference (fewer.subset member)
  past := inStep.past

/-! ### Notifications -/

/-- A notification is not needed if its key has a value again or is not stored any more. -/
theorem pass {key : K} {rest : List K} (inStep : InStep stored registry memory (key :: rest))
    (live : ∀ reference, stored key = some reference → memory.isLive reference = true) :
    InStep stored registry memory rest := by
  refine inStep.less (Less.refl stored) fun other reference found dead => ?_
  refine (List.mem_cons.mp (inStep.notified other reference found dead)).resolve_left ?_
  rintro rfl
  rw [live reference found] at dead
  cases dead

/-- A notification is not needed once its key was erased. -/
theorem erase [DecidableEq K] {table : Table K (SoftReference K V)} {key : K} {rest : List K}
    (inStep : InStep table.find? registry memory (key :: rest)) :
    InStep (table.erase key).find? registry memory rest := by
  refine inStep.less (Less.erase table key) fun other reference found dead => ?_
  rw [Table.find?_erase] at found
  split at found
  case isTrue => cases found
  case isFalse different =>
    have waits := inStep.notified other reference found dead
    exact (List.mem_cons.mp waits).resolve_left different

/-! ### Registrations -/

/-- A new reference may be stored in place of another one, or be registered only. -/
theorem enlist (inStep : InStep stored registry memory waiting) {key : K} {value : Shared V}
    (cases_of : ∀ other reference, later other = some reference →
      other = key ∧ reference = (memory.refer key value).1 ∨ stored other = some reference) :
    InStep later (registry ++ [(memory.refer key value).1]) (memory.refer key value).2 waiting := by
  have fresh : ∀ number ∈ memory.reclaimed, number ≠ (memory.refer key value).1.number :=
    fun number member => Nat.ne_of_lt (inStep.past number member)
  have below : ∀ other reference, stored other = some reference →
      reference.number ≠ (memory.refer key value).1.number :=
    fun other reference found => Nat.ne_of_lt (inStep.stored_lt found)
  refine ⟨?keyed, ?numbered, ?notified, ?enrolled, ?unique, ?coherent, ?recent, ?past⟩
  case keyed =>
    intro other reference found
    rcases cases_of other reference found with ⟨rfl, rfl⟩ | found
    · rfl
    · exact inStep.keyed other reference found
  case numbered =>
    intro one other reference another found again same
    rcases cases_of one reference found with ⟨rfl, rfl⟩ | found
    · rcases cases_of other another again with ⟨rfl, rfl⟩ | again
      · rfl
      · exact absurd same.symm (below other another again)
    · rcases cases_of other another again with ⟨rfl, rfl⟩ | again
      · exact absurd same (below one reference found)
      · exact inStep.numbered one other reference another found again same
  case notified =>
    intro other reference found dead
    have member := Memory.isLive_eq_false.mp dead
    rcases cases_of other reference found with ⟨rfl, rfl⟩ | found
    · exact absurd rfl (fresh _ member)
    · exact inStep.notified other reference found (Memory.isLive_eq_false.mpr member)
  case enrolled =>
    intro other reference found live
    rcases cases_of other reference found with ⟨rfl, rfl⟩ | found
    · exact List.mem_append_right _ List.mem_cons_self
    · exact List.mem_append_left _ (inStep.enrolled other reference found live)
  case unique =>
    rw [List.map_append, List.map_singleton, List.nodup_append_comm]
    refine List.nodup_cons.mpr ⟨fun member => ?_, inStep.unique⟩
    obtain ⟨reference, member, same⟩ := List.mem_map.mp member
    exact Nat.ne_of_lt (inStep.recent reference member) same
  case coherent =>
    intro other reference another found member same
    rcases cases_of other reference found with ⟨rfl, rfl⟩ | found
    · rcases List.mem_append.mp member with member | member
      · exact absurd same (Nat.ne_of_lt (inStep.recent another member))
      · exact List.mem_singleton.mp member
    · rcases List.mem_append.mp member with member | member
      · exact inStep.coherent other reference another found member same
      · rw [List.mem_singleton.mp member] at same
        exact absurd same.symm (below other reference found)
  case recent =>
    intro reference member
    rcases List.mem_append.mp member with member | member
    · exact Nat.lt_succ_of_lt (inStep.recent reference member)
    · rw [List.mem_singleton.mp member]
      exact Nat.lt_succ_self _
  case past => exact fun number member => Nat.lt_succ_of_lt (inStep.past number member)

/-- What is stored under a key is the reference that was placed there, or was stored before. -/
theorem cases_of_less [DecidableEq K] {key : K} {made : SoftReference K V}
    (less : Less later (placed stored key made)) (other : K) (reference : SoftReference K V)
    (found : later other = some reference) :
    other = key ∧ reference = made ∨ stored other = some reference := by
  have shown := less other reference found
  unfold placed at shown
  split at shown
  case isTrue same => exact Or.inl ⟨same, (Option.some.inj shown).symm⟩
  case isFalse => exact Or.inr shown

/-- A registration that first prunes its registry keeps every reference that is stored. -/
theorem registerWith {queue : ReferenceQueue K V}
    (inStep : InStep stored queue.registry memory waiting) (holding : Holding handles stored)
    {key : K} {value : Shared V}
    (cases_of : ∀ other reference, later other = some reference →
      other = key ∧ reference = (queue.register memory handles key value).1 ∨
        stored other = some reference) :
    InStep later (queue.register memory handles key value).2.1.registry
      (queue.register memory handles key value).2.2 waiting := by
  unfold ReferenceQueue.register at cases_of ⊢
  simp only at cases_of ⊢
  split
  · refine (inStep.prune List.filter_sublist fun key reference found live => ?_).enlist cases_of
    exact List.mem_filter.mpr (inStep.current_of_stored holding found live)
  · exact inStep.enlist cases_of

/-- Once no notification waits, a new reference may be registered and stored. -/
theorem register [DecidableEq K] {queue : ReferenceQueue K V}
    (inStep : InStep stored queue.registry memory queue.pending) (idle : queue.pending = [])
    (holding : Holding handles stored) {key : K} {value : Shared V}
    (less : Less later (placed stored key (queue.register memory handles key value).1)) :
    InStep later (queue.register memory handles key value).2.1.registry
      (queue.register memory handles key value).2.2
      (queue.register memory handles key value).2.1.pending := by
  rw [(SoftLayer.register_keeps queue memory handles key value).2.1]
  rw [idle] at inStep ⊢
  exact inStep.registerWith holding (cases_of_less less)

/-! ### Reclaiming -/

/-- A reclaimed value is missed until its notification is worked through. -/
theorem reclaim (inStep : InStep stored registry memory waiting) {reference : SoftReference K V}
    (member : reference ∈ registry) :
    InStep stored registry (memory.reclaim reference) (waiting ++ [reference.key]) where
  keyed := inStep.keyed
  numbered := inStep.numbered
  notified key other found dead := by
    rcases List.mem_cons.mp (Memory.isLive_eq_false.mp dead) with same | before
    · obtain rfl := inStep.coherent key other reference found member same.symm
      rw [inStep.keyed key reference found]
      exact List.mem_append_right _ List.mem_cons_self
    · have waits := inStep.notified key other found (Memory.isLive_eq_false.mpr before)
      exact List.mem_append_left _ waits
  enrolled key other found live := by
    refine inStep.enrolled key other found (Memory.isLive_iff.mpr fun before => ?_)
    exact Memory.isLive_iff.mp live (List.mem_cons_of_mem _ before)
  unique := inStep.unique
  coherent := inStep.coherent
  recent := inStep.recent
  past number reclaimed := by
    rcases List.mem_cons.mp reclaimed with rfl | before
    · exact inStep.recent reference member
    · exact inStep.past number before

/-- Every value that a sweep reclaims is notified. -/
theorem sweep (handles : Handles K V) (limit : Nat) {rest : List (SoftReference K V)}
    (registered : rest ⊆ registry) (inStep : InStep stored registry memory waiting) :
    InStep stored registry (ReferenceQueue.sweep handles limit memory rest).memory
      (waiting ++ (ReferenceQueue.sweep handles limit memory rest).reclaimed.map (·.key)) := by
  induction rest generalizing limit memory waiting with
  | nil => simpa [ReferenceQueue.sweep] using inStep
  | cons first rest inductionHypothesis =>
    obtain ⟨member, registered⟩ := List.cons_subset.mp registered
    rcases ReferenceQueue.sweep_cons handles limit memory first rest with
      ⟨-, same⟩ | ⟨-, same⟩ | ⟨-, same⟩
    · exact same ▸ inductionHypothesis limit registered inStep
    · rw [same, List.map_cons, List.append_cons]
      exact inductionHypothesis (limit - 1) registered (inStep.reclaim member)
    · exact same ▸ inductionHypothesis limit registered inStep

/-- A sweep over the whole registry keeps every reference that is stored and live. -/
theorem sweepAll {queue : ReferenceQueue K V} (limit : Nat) (holding : Holding handles stored)
    (inStep : InStep stored queue.registry memory queue.pending) :
    InStep stored (queue.reclaim memory handles limit).2.1.registry
      (queue.reclaim memory handles limit).2.2
      (queue.reclaim memory handles limit).2.1.pending := by
  have swept := inStep.sweep handles limit (List.Subset.refl queue.registry)
  refine swept.prune (ReferenceQueue.kept_sublist handles) ?_
  intro key reference found live
  refine ReferenceQueue.mem_kept handles (swept.enrolled key reference found live) ?_ live
  exact (holding reference).mpr ⟨key, reference, found, rfl⟩

/-! ### Forced reclamations -/

variable [DecidableEq K]

/-- A forced reclamation answers whether a value was shown, and then no longer shows it. -/
theorem forceReclaim {queue : ReferenceQueue K V} (key : K) (holding : Holding handles stored)
    (inStep : InStep stored queue.registry memory queue.pending) :
    InStep stored (queue.forceReclaim memory handles key).2.1.registry
        (queue.forceReclaim memory handles key).2.2
        (queue.forceReclaim memory handles key).2.1.pending ∧
      (queue.forceReclaim memory handles key).1 = (shown stored memory key).isSome ∧
      shown stored (queue.forceReclaim memory handles key).2.2 =
        fun other => if other = key then none else shown stored memory other := by
  unfold ReferenceQueue.forceReclaim
  split
  case h_1 missing =>
    have hidden : shown stored memory key = none := by
      refine Option.not_isSome_iff_eq_none.mp fun some => ?_
      obtain ⟨reference, found, live⟩ := shown_isSome.mp some
      obtain ⟨member, current⟩ := inStep.current_of_stored holding found live
      have passed := List.find?_eq_none.mp missing reference (List.mem_reverse.mpr member)
      simp [inStep.keyed key reference found, current] at passed
    refine ⟨inStep, by rw [hidden]; rfl, funext fun other => ?_⟩
    split
    case isTrue same => rw [same, hidden]
    case isFalse => rfl
  case h_2 reference chosen =>
    have member := List.mem_reverse.mp (List.mem_of_find?_eq_some chosen)
    have picked : (decide (reference.key = key) &&
        ReferenceQueue.isCurrent memory handles reference) = true := by
      simpa using List.find?_some chosen
    obtain ⟨same, current⟩ := Bool.and_eq_true_iff.mp picked
    obtain ⟨found, live⟩ := inStep.stored_of_current holding member current
    obtain rfl : reference.key = key := of_decide_eq_true same
    refine ⟨inStep.reclaim member, (shown_isSome.mpr ⟨reference, found, live⟩).symm, ?_⟩
    funext other
    split
    case isTrue same =>
      rw [same, shown, found, Option.bind_some, Memory.resolve, Memory.isLive_reclaim_self]
      rfl
    case isFalse different =>
      unfold shown
      refine Option.bind_congr fun another again => ?_
      have apart : another.number ≠ reference.number := fun same =>
        different (inStep.numbered other reference.key another reference again found same)
      rw [Memory.resolve, Memory.resolve, Memory.isLive_reclaim_other memory apart]

/-! ### Tables -/

/-- Once no notification waits, every key of the table shows a value. -/
theorem enumerates_keys {table : Table K (SoftReference K V)} (distinct : table.Distinct)
    (inStep : InStep table.find? registry memory []) :
    Enumerates table.keys (shown table.find? memory) where
  nodup := distinct
  mem key := by
    rw [Table.mem_keys, shown_isSome]
    refine exists_congr fun reference => ⟨fun found => ⟨found, ?_⟩, And.left⟩
    by_contra dead
    cases inStep.notified key reference found (Bool.not_eq_true _ |>.mp dead)

end InStep

end LayeredCache
