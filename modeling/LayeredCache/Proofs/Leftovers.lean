/-
This file proves that references which are no longer held make no difference to a reference queue.

A registry keeps such references until the next prune or sweep. Two queues are alike if they have
the same notifications and if, apart from such leftovers, they have the same references registered
in the same order. All answers look past the leftovers, so alike queues answer alike and stay alike,
wherever they stand with their thresholds. No leftover comes to life again, because a new reference
gets a number that was never given before.
-/

import LayeredCache.Proofs.Drains
import LayeredCache.Proofs.Sweeps

namespace LayeredCache

variable {K V X : Type}

/-! ### Narrower choices -/

/-- What passes the narrow choice is chosen also from what has passed the wide one. -/
theorem filter_narrow {narrow wide : X → Bool} (implies : ∀ item, narrow item = true →
    wide item = true) (items : List X) : (items.filter wide).filter narrow = items.filter narrow := by
  rw [List.filter_filter]
  refine List.filter_congr fun item _ => ?_
  cases passes : narrow item with
  | false => rw [Bool.false_and]
  | true => rw [implies item passes, Bool.and_true]

/-- Lists of which the wide choice is the same have the same narrow choice. -/
theorem filter_narrow_eq {narrow wide : X → Bool} {one other : List X}
    (same : one.filter wide = other.filter wide)
    (implies : ∀ item, narrow item = true → wide item = true) :
    one.filter narrow = other.filter narrow := by
  rw [← filter_narrow implies one, same, filter_narrow implies]

namespace ReferenceQueue

/-! ### Sweeps over what is current -/

section Sweeps

variable {handles : Handles K V} {limit : Nat} {memory : Memory K V}
  {registry : List (SoftReference K V)}

/-- What is current after a reclamation was so before. -/
theorem isCurrent_of_reclaim {reclaimed reference : SoftReference K V}
    (current : isCurrent (memory.reclaim reclaimed) handles reference = true) :
    isCurrent memory handles reference = true := by
  obtain ⟨held, live⟩ := Bool.and_eq_true_iff.mp current
  refine Bool.and_eq_true_iff.mpr ⟨held, Memory.isLive_iff.mpr fun before => ?_⟩
  exact Memory.isLive_iff.mp live (List.mem_cons_of_mem _ before)

/-- A sweep looks past references that are not held or not live. -/
theorem sweep_filter {chosen : SoftReference K V → Bool}
    (covers : ∀ reference, isCurrent memory handles reference = true → chosen reference = true) :
    sweep handles limit memory (registry.filter chosen) = sweep handles limit memory registry := by
  induction registry generalizing limit memory with
  | nil => rfl
  | cons first rest inductionHypothesis =>
    have reclaimed : ∀ reference,
        isCurrent (memory.reclaim first) handles reference = true → chosen reference = true :=
      fun reference current => covers reference (isCurrent_of_reclaim current)
    by_cases passes : chosen first = true
    · rw [List.filter_cons_of_pos passes]
      simp only [sweep, inductionHypothesis covers, inductionHypothesis reclaimed]
    · rw [List.filter_cons_of_neg passes, inductionHypothesis covers]
      rcases sweep_cons handles limit memory first rest with
        ⟨-, same⟩ | ⟨⟨held, -, reachable⟩, -⟩ | ⟨⟨held, live, -⟩, -⟩
      · exact same.symm
      · have current := isCurrent_of_isReclaimable handles
          (Bool.and_eq_true_iff.mpr ⟨held, reachable⟩)
        exact absurd (covers first current) passes
      · exact absurd (covers first (Bool.and_eq_true_iff.mpr ⟨held, live⟩)) passes

/-- Limits that the registry does not exceed are all the same to a sweep. -/
theorem sweep_enough {most : Nat} (enough : registry.length ≤ limit)
    (more : registry.length ≤ most) :
    sweep handles limit memory registry = sweep handles most memory registry := by
  induction registry generalizing limit most memory with
  | nil => rfl
  | cons first rest inductionHypothesis =>
    rw [List.length_cons] at enough more
    have left : 0 < limit := by omega
    have leftToo : 0 < most := by omega
    have same : sweep handles limit memory rest = sweep handles most memory rest :=
      inductionHypothesis (by omega) (by omega)
    have less : sweep handles (limit - 1) (memory.reclaim first) rest =
        sweep handles (most - 1) (memory.reclaim first) rest :=
      inductionHypothesis (by omega) (by omega)
    simp only [sweep, left, leftToo, same, less]

end Sweeps

/-! ### Alike queues -/

/-- What is current among some handles is current among more of them. -/
theorem isCurrent_of_subset {held : List (SoftReference K V)} {handles : Handles K V}
    {memory : Memory K V} (within : handles.references ⊆ held) {reference : SoftReference K V}
    (current : isCurrent memory handles reference = true) :
    isCurrent memory ⟨held, []⟩ reference = true := by
  obtain ⟨holds, live⟩ := Bool.and_eq_true_iff.mp current
  obtain ⟨copy, among, same⟩ := List.any_eq_true.mp holds
  exact Bool.and_eq_true_iff.mpr ⟨List.any_eq_true.mpr ⟨copy, within among, same⟩, live⟩

/-- The queues have the same notifications and, of the references that are held and live, the same
registered ones. No registered reference has a number that is still to be given. -/
structure Alike (held : List (SoftReference K V)) (one other : ReferenceQueue K V)
    (memory : Memory K V) : Prop where
  pending : one.pending = other.pending
  current : one.registry.filter (isCurrent memory ⟨held, []⟩) =
    other.registry.filter (isCurrent memory ⟨held, []⟩)
  numbered : ∀ reference ∈ one.registry, reference.number < memory.nextNumber
  numberedToo : ∀ reference ∈ other.registry, reference.number < memory.nextNumber

namespace Alike

variable {held : List (SoftReference K V)} {one other : ReferenceQueue K V} {memory : Memory K V}
  {handles : Handles K V}

/-- Queues stay alike when references are given up. -/
theorem fewer (alike : Alike held one other memory) {fewer : List (SoftReference K V)}
    (within : fewer ⊆ held) : Alike fewer one other memory :=
  ⟨alike.pending,
    filter_narrow_eq alike.current fun _ current =>
      isCurrent_of_subset (show (⟨fewer, []⟩ : Handles K V).references ⊆ held from within) current,
    alike.numbered, alike.numberedToo⟩

/-- Alike queues stay alike when the rest of their notifications is the same. -/
theorem withPending (alike : Alike held one other memory) (pending : List K) :
    Alike held { one with pending } { other with pending } memory :=
  ⟨rfl, alike.current, alike.numbered, alike.numberedToo⟩

/-- Queues are alike in every memory that has reclaimed and numbered the same references. -/
theorem elsewhere (alike : Alike held one other memory) {later : Memory K V}
    (reclaimed : later.reclaimed = memory.reclaimed)
    (nextNumber : later.nextNumber = memory.nextNumber) : Alike held one other later := by
  have same : isCurrent later (⟨held, []⟩ : Handles K V) = isCurrent memory ⟨held, []⟩ := by
    funext reference
    rw [isCurrent, isCurrent, Memory.isLive, Memory.isLive, reclaimed]
  exact ⟨alike.pending, same ▸ alike.current, nextNumber ▸ alike.numbered,
    nextNumber ▸ alike.numberedToo⟩

/-! ### Reclaiming -/

/-- Among alike queues a sweep makes no difference. -/
theorem sweep_eq (alike : Alike held one other memory) (within : handles.references ⊆ held)
    (limit : Nat) :
    sweep handles limit memory one.registry = sweep handles limit memory other.registry := by
  rw [← sweep_filter (fun _ => isCurrent_of_subset within), alike.current,
    sweep_filter fun _ => isCurrent_of_subset within]

/-- Nor does it if each queue is swept as far as it goes. -/
theorem sweepAll_eq (alike : Alike held one other memory) (within : handles.references ⊆ held) :
    sweep handles one.registry.length memory one.registry =
      sweep handles other.registry.length memory other.registry := by
  rw [sweep_enough (Nat.le_refl _) (Nat.le_max_left _ other.registry.length),
    alike.sweep_eq within, sweep_enough (Nat.le_max_right _ _) (Nat.le_refl _)]

theorem reclaim_eq (alike : Alike held one other memory) (within : handles.references ⊆ held)
    (limit : Nat) : one.reclaim memory handles limit = other.reclaim memory handles limit := by
  unfold reclaim
  rw [alike.sweep_eq within, alike.pending]

theorem reclaimAll_eq (alike : Alike held one other memory) (within : handles.references ⊆ held) :
    one.reclaimAll memory handles = other.reclaimAll memory handles := by
  unfold reclaimAll reclaim
  rw [alike.sweepAll_eq within, alike.pending]

end Alike

/-- A queue in which no reference has a number that is still to be given is alike to itself. -/
theorem alike_self {queue : ReferenceQueue K V} {memory : Memory K V}
    (numbered : ∀ reference ∈ queue.registry, reference.number < memory.nextNumber)
    (held : List (SoftReference K V)) : Alike held queue queue memory :=
  ⟨rfl, rfl, numbered, numbered⟩

/-- Where nothing is held nothing is current. -/
theorem isCurrent_of_unheld (memory : Memory K V) (handles : Handles K V)
    (unheld : handles.references = []) (reference : SoftReference K V) :
    ¬ isCurrent memory handles reference = true := by
  rw [isCurrent, Handles.holds, unheld, List.any_nil, Bool.false_and]
  exact Bool.false_ne_true

theorem registered_of_unheld (queue : ReferenceQueue K V) {memory : Memory K V}
    {handles : Handles K V} (unheld : handles.references = []) :
    queue.registered memory handles = 0 :=
  List.countP_eq_zero.mpr fun reference _ => isCurrent_of_unheld memory handles unheld reference

/-- Where nothing is held a queue without notifications is alike to an empty one. -/
theorem alike_empty {queue : ReferenceQueue K V} {memory : Memory K V} (idle : queue.pending = [])
    (numbered : ∀ reference ∈ queue.registry, reference.number < memory.nextNumber) :
    Alike [] queue .empty memory where
  pending := idle
  current := List.filter_eq_nil_iff.mpr fun reference _ =>
    isCurrent_of_unheld memory ⟨[], []⟩ rfl reference
  numbered := numbered
  numberedToo := List.forall_mem_nil _

/-- A sweep keeps to the references that were registered before. -/
theorem numbered_reclaim {queue : ReferenceQueue K V} {memory : Memory K V}
    (numbered : ∀ reference ∈ queue.registry, reference.number < memory.nextNumber)
    (handles : Handles K V) (limit : Nat) :
    ∀ reference ∈ (queue.reclaim memory handles limit).2.1.registry,
      reference.number < (queue.reclaim memory handles limit).2.2.nextNumber := by
  intro reference member
  have same : (queue.reclaim memory handles limit).2.2.nextNumber = memory.nextNumber := by
    show (sweep handles limit memory queue.registry).memory.nextNumber = _
    rw [memory_sweep, Memory.reclaimEach_eq]
  rw [same]
  exact numbered reference ((kept_sublist handles).subset member)

namespace Alike

variable {held : List (SoftReference K V)} {one other : ReferenceQueue K V} {memory : Memory K V}
  {handles : Handles K V}

/-- The latest reference of some kind is the same, if only current ones are of that kind. -/
theorem latest_eq (alike : Alike held one other memory) {chosen : SoftReference K V → Bool}
    (current : ∀ reference, chosen reference = true →
      isCurrent memory ⟨held, []⟩ reference = true) :
    one.registry.reverse.find? chosen = other.registry.reverse.find? chosen := by
  have narrowed : one.registry.filter chosen = other.registry.filter chosen :=
    filter_narrow_eq alike.current current
  rw [← List.head?_filter, ← List.head?_filter, List.filter_reverse, List.filter_reverse, narrowed]

/-- Alike queues reclaim the same reference by force, if any, and stay alike. -/
theorem forceReclaim [DecidableEq K] (alike : Alike held one other memory)
    (within : handles.references ⊆ held) (key : K) :
    (one.forceReclaim memory handles key).1 = (other.forceReclaim memory handles key).1 ∧
      (one.forceReclaim memory handles key).2.2 = (other.forceReclaim memory handles key).2.2 ∧
      Alike held (one.forceReclaim memory handles key).2.1
        (other.forceReclaim memory handles key).2.1
        (one.forceReclaim memory handles key).2.2 := by
  have latest : (one.registry.reverse.find? fun reference =>
        reference.key = key && isCurrent memory handles reference) =
      other.registry.reverse.find? fun reference =>
        reference.key = key && isCurrent memory handles reference :=
    alike.latest_eq fun _ chosen => isCurrent_of_subset within (Bool.and_eq_true_iff.mp chosen).2
  unfold ReferenceQueue.forceReclaim
  rw [latest]
  split
  case h_1 => exact ⟨rfl, rfl, alike⟩
  case h_2 reference _ =>
    exact ⟨rfl, rfl, congrArg (· ++ [reference.key]) alike.pending,
      filter_narrow_eq alike.current fun _ => isCurrent_of_reclaim, alike.numbered,
      alike.numberedToo⟩

theorem registered_eq (alike : Alike held one other memory) (within : handles.references ⊆ held) :
    one.registered memory handles = other.registered memory handles := by
  have narrowed : one.registry.filter (isCurrent memory handles) =
      other.registry.filter (isCurrent memory handles) :=
    filter_narrow_eq alike.current fun _ => isCurrent_of_subset within
  rw [registered, registered, List.countP_eq_length_filter, List.countP_eq_length_filter, narrowed]

end Alike

/-! ### Registering -/

/-- A reference that was made before is current after the next one was made if it was before. -/
theorem isCurrent_refer (held : List (SoftReference K V)) (memory : Memory K V) (key : K)
    (value : Shared V) {reference : SoftReference K V}
    (numbered : reference.number < memory.nextNumber) :
    isCurrent (memory.refer key value).2 ⟨(memory.refer key value).1 :: held, []⟩ reference =
      isCurrent memory ⟨held, []⟩ reference := by
  have apart : (memory.nextNumber == reference.number) = false :=
    beq_eq_false_iff_ne.mpr (by omega)
  show (((memory.nextNumber == reference.number) || _) && _) = _
  rw [apart, Bool.false_or]
  rfl

/-- Whether a registration prunes the queue makes no difference to what is current. -/
theorem register_current (queue : ReferenceQueue K V) (memory : Memory K V)
    (handles : Handles K V) (key : K) (value : Shared V)
    (numbered : ∀ reference ∈ queue.registry, reference.number < memory.nextNumber) :
    (queue.register memory handles key value).2.1.registry.filter
        (isCurrent (memory.refer key value).2
          ⟨(memory.refer key value).1 :: handles.references, []⟩) =
      queue.registry.filter (isCurrent memory handles) ++
        [(memory.refer key value).1].filter (isCurrent (memory.refer key value).2
          ⟨(memory.refer key value).1 :: handles.references, []⟩) := by
  have kept : queue.registry.filter (isCurrent (memory.refer key value).2
        ⟨(memory.refer key value).1 :: handles.references, []⟩) =
      queue.registry.filter (isCurrent memory handles) :=
    List.filter_congr fun reference member =>
      isCurrent_refer handles.references memory key value (numbered reference member)
  have pruned : (queue.registry.filter (isCurrent memory handles)).filter
        (isCurrent (memory.refer key value).2
          ⟨(memory.refer key value).1 :: handles.references, []⟩) =
      queue.registry.filter (isCurrent memory handles) := by
    refine List.filter_eq_self.mpr fun reference member => ?_
    obtain ⟨member, current⟩ := List.mem_filter.mp member
    exact (isCurrent_refer handles.references memory key value (numbered reference member)).trans
      current
  unfold register
  simp only [List.filter_append]
  split
  · exact congrArg (· ++ _) pruned
  · exact congrArg (· ++ _) kept

/-- A registration adds the reference with the number that is given next. -/
theorem numbered_register {queue : ReferenceQueue K V} {memory : Memory K V}
    (numbered : ∀ reference ∈ queue.registry, reference.number < memory.nextNumber)
    (handles : Handles K V) (key : K) (value : Shared V) :
    ∀ reference ∈ (queue.register memory handles key value).2.1.registry,
      reference.number < (memory.refer key value).2.nextNumber := by
  intro reference member
  have made : reference ∈ queue.registry ∨ reference = (memory.refer key value).1 := by
    unfold register at member
    simp only [List.mem_append, List.mem_singleton] at member
    refine member.imp_left fun member => ?_
    split at member
    · exact (List.mem_filter.mp member).1
    · exact member
  show reference.number < memory.nextNumber + 1
  rcases made with member | rfl
  · exact Nat.lt_succ_of_lt (numbered reference member)
  · exact Nat.lt_succ_self memory.nextNumber

/-- Registrations leave alike queues alike, also once the new reference is held. -/
theorem Alike.register {one other : ReferenceQueue K V} {memory : Memory K V}
    {handles : Handles K V} (alike : Alike handles.references one other memory) (key : K)
    (value : Shared V) :
    Alike ((memory.refer key value).1 :: handles.references)
      (one.register memory handles key value).2.1 (other.register memory handles key value).2.1
      (memory.refer key value).2 where
  pending := by
    rw [(SoftLayer.register_keeps one memory handles key value).2.1, alike.pending,
      (SoftLayer.register_keeps other memory handles key value).2.1]
  current := by
    rw [register_current one memory handles key value alike.numbered,
      register_current other memory handles key value alike.numberedToo]
    exact congrArg (· ++ _) alike.current
  numbered := numbered_register alike.numbered handles key value
  numberedToo := numbered_register alike.numberedToo handles key value

end ReferenceQueue

end LayeredCache
