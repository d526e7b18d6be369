/-
This file proves that a registry stays small and that pruning it costs little.

A registration prunes a registry that has reached its threshold, and a sweep always goes through all
of it. Both then set the threshold to at least twice what they have kept. So when a registration
prunes, at least half of the registry was registered since it was last gone through. Each
registration therefore has to pay for no more than two places, and what it has paid is spent once,
by the next prune or sweep. Drops and forced reclamations change neither the registry nor the
threshold, whatever they leave in it.
-/

import LayeredCache.Proofs.Successive

namespace LayeredCache

variable {K V : Type}

namespace ReferenceQueue

/-! ### Spending -/

/-- What a run of deeds has spent on prunes, and what it had to spend. -/
structure Spending where
  /-- How many references were registered. -/
  registrations : Nat := 0
  /-- How many references were held and live right after the last prune or sweep. -/
  kept : Nat := 0
  /-- The lengths of all registries that a registration has pruned, added up. -/
  pruned : Nat := 0
  deriving DecidableEq

namespace Spending

/-- The registry is gone through, and pays for its length. -/
def prune (spending : Spending) (queue : ReferenceQueue K V) (memory : Memory K V)
    (handles : Handles K V) : Spending :=
  { spending with
    kept := queue.registered memory handles
    pruned := spending.pruned + queue.registry.length }

/-- What a registration adds, which first prunes a registry that has reached its threshold. -/
def register (spending : Spending) (queue : ReferenceQueue K V) (memory : Memory K V)
    (handles : Handles K V) : Spending :=
  let spending :=
    if queue.registry.length ≥ queue.threshold then spending.prune queue memory handles
    else spending
  { spending with registrations := spending.registrations + 1 }

/-- What a sweep adds, by the queue that it leaves. -/
def sweep (spending : Spending) (queue : ReferenceQueue K V) (memory : Memory K V)
    (handles : Handles K V) : Spending :=
  { spending with kept := queue.registered memory handles }

/-- What a deed adds, by the states before and after it. -/
def add (spending : Spending) (before : QueueState K V (ReferenceQueue K V))
    (deed : QueueDeed K V) (after : QueueState K V (ReferenceQueue K V)) : Spending :=
  match deed with
  | .register .. => spending.register before.system before.memory before.memory.handles
  | .reclaim _ | .reclaimAll => spending.sweep after.system after.memory after.memory.handles
  | _ => spending

/-- What deeds add, one after the other. -/
def addAll [DecidableEq K] (spending : Spending) :
    List (QueueDeed K V) → QueueState K V (ReferenceQueue K V) → Spending
  | [], _ => spending
  | deed :: rest, state =>
    let after := (registrar.perform state deed).2
    (spending.add state deed after).addAll rest after

end Spending

/-! ### Registries in order -/

/-- After a prune or a sweep there is room for more. -/
theorem lt_thresholdFor (kept : Nat) : kept < thresholdFor kept := by
  unfold thresholdFor minThreshold
  omega

/-- The registry fits below the threshold, which is the one for what was last kept. Two places were
paid for each registration, and those for what the registry has grown by since then are left. -/
structure Tended (spending : Spending) (queue : ReferenceQueue K V) : Prop where
  grown : spending.kept ≤ queue.registry.length
  fits : queue.registry.length ≤ queue.threshold
  threshold : queue.threshold = thresholdFor spending.kept
  paid : spending.pruned + 2 * (queue.registry.length - spending.kept) ≤
    2 * spending.registrations

namespace Tended

variable {spending : Spending} {queue later : ReferenceQueue K V} {memory : Memory K V}
  {handles : Handles K V}

theorem empty : Tended {} (.empty : ReferenceQueue K V) where
  grown := Nat.le_refl 0
  fits := Nat.zero_le _
  threshold := rfl
  paid := Nat.le_refl 0

/-- A registry at its threshold is at least twice what was last kept, so at least half of it has
been paid for since then. -/
theorem prune (tended : Tended spending queue) (full : queue.registry.length ≥ queue.threshold) :
    Tended (spending.prune queue memory handles) (queue.prune memory handles) := by
  have length : (queue.prune memory handles).registry.length = queue.registered memory handles :=
    List.countP_eq_length_filter.symm
  have twice : 2 * spending.kept ≤ queue.registry.length := by
    have := tended.threshold ▸ full
    unfold thresholdFor at this
    omega
  have threshold : (queue.prune memory handles).threshold =
      thresholdFor (queue.registered memory handles) := congrArg thresholdFor length
  refine ⟨Nat.le_of_eq length.symm, ?_, threshold, ?_⟩
  · rw [length, threshold]
    exact Nat.le_of_lt (lt_thresholdFor _)
  · have paid := tended.paid
    show spending.pruned + queue.registry.length +
      2 * ((queue.prune memory handles).registry.length - queue.registered memory handles) ≤
        2 * spending.registrations
    omega

/-- A new reference pays for itself. -/
theorem enter (tended : Tended spending queue) (room : queue.registry.length < queue.threshold)
    (reference : SoftReference K V) :
    Tended { spending with registrations := spending.registrations + 1 }
      { queue with registry := queue.registry ++ [reference] } := by
  have length : (queue.registry ++ [reference]).length = queue.registry.length + 1 :=
    List.length_append
  obtain ⟨grown, -, threshold, paid⟩ := tended
  refine ⟨?_, ?_, threshold, ?_⟩
  · exact length ▸ Nat.le_succ_of_le grown
  · exact length ▸ room
  · show spending.pruned + 2 * ((queue.registry ++ [reference]).length - spending.kept) ≤
      2 * (spending.registrations + 1)
    omega

theorem register (tended : Tended spending queue) (key : K) (value : Shared V) :
    Tended (spending.register queue memory handles)
      (queue.register memory handles key value).2.1 := by
  unfold Spending.register ReferenceQueue.register
  split
  case isTrue full =>
    have pruned : Tended (spending.prune queue memory handles)
        (queue.prune (memory.refer key value).2 handles) := tended.prune full
    refine pruned.enter ?_ (memory.refer key value).1
    exact lt_thresholdFor _
  case isFalse room => exact tended.enter (Nat.lt_of_not_le room) (memory.refer key value).1

/-- A sweep has nothing to pay for, and leaves nothing that is paid for. -/
theorem reclaim (tended : Tended spending queue) (unique : (queue.registry.map (·.number)).Nodup)
    (limit : Nat) :
    let swept := queue.reclaim memory handles limit
    Tended (spending.sweep swept.2.1 swept.2.2 handles) swept.2.1 := by
  intro swept
  have length : swept.2.1.registered swept.2.2 handles = swept.2.1.registry.length :=
    registered_reclaim unique
  have threshold : swept.2.1.threshold = thresholdFor swept.2.1.registry.length := rfl
  refine ⟨Nat.le_of_eq length, ?_, threshold.trans (congrArg thresholdFor length.symm), ?_⟩
  · rw [threshold]
    exact Nat.le_of_lt (lt_thresholdFor _)
  · have paid := tended.paid
    show spending.pruned + 2 * (swept.2.1.registry.length - swept.2.1.registered swept.2.2 handles)
      ≤ 2 * spending.registrations
    omega

/-- Whoever leaves registry and threshold as they are has nothing to pay for. -/
theorem unchanged (tended : Tended spending queue) (registry : later.registry = queue.registry)
    (threshold : later.threshold = queue.threshold) : Tended spending later where
  grown := registry ▸ tended.grown
  fits := registry ▸ threshold ▸ tended.fits
  threshold := threshold ▸ tended.threshold
  paid := registry ▸ tended.paid

end Tended

/-! ### Deeds -/

/-- A sweep takes nothing from the hands of callers. -/
theorem handles_reclaim (queue : ReferenceQueue K V) (memory : Memory K V) (handles : Handles K V)
    (limit : Nat) : (queue.reclaim memory handles limit).2.2.handles = memory.handles := by
  show (ReferenceQueue.sweep handles limit memory queue.registry).memory.handles = _
  rw [memory_sweep, Memory.handles_reclaimEach]

section Deeds

variable [DecidableEq K] {spending : Spending} {state : QueueState K V (ReferenceQueue K V)}

/-- Every deed leaves the registry tended, if no two of its references have one number. -/
theorem perform_tended (tended : Tended spending state.system)
    (unique : (state.system.registry.map (·.number)).Nodup) (deed : QueueDeed K V) :
    let after := (registrar.perform state deed).2
    Tended (spending.add state deed after) after.system := by
  have swept : ∀ limit,
      let after := state.system.reclaim state.memory state.memory.handles limit
      Tended (spending.sweep after.2.1 after.2.2 after.2.2.handles) after.2.1 := by
    intro limit after
    rw [handles_reclaim]
    exact tended.reclaim unique limit
  cases deed with
  | register key value name => exact tended.register key value
  | reclaim limit => exact swept limit
  | reclaimAll => exact swept state.system.registry.length
  | forceReclaim key =>
    show Tended spending (state.system.forceReclaim state.memory state.memory.handles key).2.1
    unfold ReferenceQueue.forceReclaim
    split <;> exact tended.unchanged rfl rfl
  | poll =>
    show Tended spending state.system.poll.2
    unfold ReferenceQueue.poll
    split <;> exact tended.unchanged rfl rfl
  | clone name copy =>
    simp only [Registrar.perform]
    split <;> exact tended
  | get name hold =>
    simp only [Registrar.perform]
    split
    case h_1 => exact tended
    case h_2 => split <;> exact tended
  | drop | hold | release | registered | pending => exact tended

/-- So does every list of deeds, from a state that a ledger agrees with. -/
theorem run_tended {complete : QueueState K V (Ledger K V)} (tended : Tended spending state.system)
    (together : Ledger.Together state complete) (deeds : List (QueueDeed K V)) :
    Tended (spending.addAll deeds state) (registrar.run deeds state).2.system := by
  induction deeds generalizing spending state complete with
  | nil => exact tended
  | cons deed rest inductionHypothesis =>
    obtain ⟨-, later⟩ := Ledger.perform_together together deed
    exact inductionHypothesis (perform_tended tended together.2.unique_registry deed) later

end Deeds

/-- Whatever is done with a queue and with what callers hold, the registry is no longer than its
threshold, which is the larger one of 64 and twice the number of references that were held and live
when the registry was last gone through. The lengths of all registries that registrations have
pruned add up to no more than twice the number of registrations. -/
theorem pruning_pays [DecidableEq K] (deeds : List (QueueDeed K V)) :
    let queue := (registrar.run deeds ⟨.empty, {}⟩).2.system
    let spending := ({} : Spending).addAll deeds ⟨.empty, {}⟩
    queue.registry.length ≤ queue.threshold ∧ queue.threshold = max 64 (2 * spending.kept) ∧
      spending.pruned ≤ 2 * spending.registrations := by
  intro queue spending
  have start : Ledger.Together ⟨.empty, {}⟩ (⟨{}, {}⟩ : QueueState K V (Ledger K V)) :=
    ⟨rfl, Ledger.Agrees.empty⟩
  have tended : Tended spending queue := run_tended .empty start deeds
  exact ⟨tended.fits, tended.threshold, Nat.le_of_add_right_le tended.paid⟩

/-- The registry reaches its threshold with references that nobody keeps, and is pruned once. -/
example :
    let deeds : List (QueueDeed Nat Nat) := List.replicate 65 (.register 1 ⟨0, 1⟩ none)
    ({} : Spending).addAll deeds ⟨.empty, {}⟩ = ⟨65, 0, 64⟩ ∧
      (registrar.run deeds ⟨.empty, {}⟩).2.system.registry.length = 1 := by
  decide +kernel

end ReferenceQueue

end LayeredCache
