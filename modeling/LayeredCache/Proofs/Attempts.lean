/-
This file proves what exactly a put of a recency layer does to its delegate, whatever becomes of
the removals it asks for.

The victims of a put are the last keys of the recency order after the use, from the last one
backwards: as many as the put owes, but never more than stand above the capacity. They are removed
one at a time until one removal fails, so the put comes down to one round of removals
(`Cache.removeEach`) of a list that is known in advance. The first eviction and the rounds that
settle overdue victims are steps of the same kind: each pops the last key and asks for its removal,
and if that fails the key is tracked again (`evict_trims`).

Nothing is assumed about the delegate, which may also be changed by others between two calls.
-/

import LayeredCache.Proofs.Building
import LayeredCache.Proofs.Evictions
import LayeredCache.Proofs.Usage

namespace LayeredCache

open LayeredCache.Action

variable {K V σ X : Type}

/-! ### Removals one after the other -/

/-- What comes of removals that are asked for one after the other. -/
structure Removals (K V σ : Type) where
  /-- The number of removals that succeeded. -/
  succeeded : Nat
  /-- The error of the removal that failed, if one did. -/
  failure : Option CacheError
  /-- The machine that is left. -/
  machine : Machine K V σ

namespace Cache

variable {cache : Cache K V σ X} {victim : K} {rest : List K} {machine later : Machine K V σ}

/-- The machine on which the cache is asked to remove a victim: the removal has been reported. -/
def reported (cache : Cache K V σ X) (machine : Machine K V σ) : Machine K V σ :=
  { machine with trace := .event (.evicting (cache.id machine.layer)) :: machine.trace }

/-- Asks the cache to remove the keys in their order, each after a report, until one removal
fails. -/
def removeEach (cache : Cache K V σ X) : List K → Machine K V σ → Removals K V σ
  | [], machine => ⟨0, none, machine⟩
  | victim :: rest, machine =>
    match (cache.remove victim).run (cache.reported machine) with
    | (.error cause, later) => ⟨0, some cause, later⟩
    | (.ok _, later) =>
      let removals := cache.removeEach rest later
      { removals with succeeded := removals.succeeded + 1 }

theorem removeEach_error {cause : CacheError}
    (failed : (cache.remove victim).run (cache.reported machine) = (.error cause, later)) :
    cache.removeEach (victim :: rest) machine = ⟨0, some cause, later⟩ := by
  rw [removeEach, failed]

theorem removeEach_ok {removed : Option X}
    (done : (cache.remove victim).run (cache.reported machine) = (.ok removed, later)) :
    cache.removeEach (victim :: rest) machine =
      { cache.removeEach rest later with
        succeeded := (cache.removeEach rest later).succeeded + 1 } := by
  rw [removeEach, done]

/-- All removals succeed if none fails, and fewer if one does. -/
theorem succeeded_removeEach (victims : List K) (machine : Machine K V σ) :
    let removals := cache.removeEach victims machine
    removals.failure = none ∧ removals.succeeded = victims.length ∨
      ∃ cause, removals.failure = some cause ∧ removals.succeeded < victims.length := by
  induction victims generalizing machine with
  | nil => exact Or.inl ⟨rfl, rfl⟩
  | cons victim rest inductionHypothesis =>
    rcases ran : (cache.remove victim).run (cache.reported machine) with ⟨cause | _, later⟩
    · rw [removeEach_error ran]
      exact Or.inr ⟨cause, rfl, Nat.succ_pos _⟩
    · rw [removeEach_ok ran]
      rcases inductionHypothesis later with ⟨calm, all⟩ | ⟨cause, failed, fewer⟩
      · exact Or.inl ⟨calm, congrArg (· + 1) all⟩
      · exact Or.inr ⟨cause, failed, Nat.succ_lt_succ fewer⟩

end Cache

namespace LruLayer

variable [DecidableEq K] {delegate : Cache K V σ X} {machine : Machine K V (LruLayer K σ)}

/-! ### Trimming the recency order -/

/-- The last keys are no longer tracked, as many as removals have succeeded, and the delegate has
seen these removals and nothing else. -/
structure Trimmed (keys : List K) (capacity : Nat) (removals : Removals K V σ)
    (later : Machine K V (LruLayer K σ)) : Prop where
  below : inside (·.delegate) later = removals.machine
  order : later.layer.order.Represents (keys.take (keys.length - removals.succeeded))
  capacity : later.layer.capacity = capacity

/-- The action asks for the removal of the last keys, so many of them, and fails exactly if one of
the removals does. If it succeeds nothing is owed any longer; if it fails, every removal that has
succeeded has lowered what is owed by one. -/
def Trims (delegate : Cache K V σ X) (keys : List K) (owed due : Nat)
    (action : Action K V (LruLayer K σ) Unit) (machine : Machine K V (LruLayer K σ)) : Prop :=
  let removals := delegate.removeEach (keys.reverse.take due) (inside (·.delegate) machine)
  action.Ends machine
    (fun _ later => Trimmed keys machine.layer.capacity removals later ∧
      removals.failure = none ∧ later.layer.overdue = 0)
    fun cause later => Trimmed keys machine.layer.capacity removals later ∧
      removals.failure = some cause ∧ later.layer.overdue + removals.succeeded = owed

/-- Where nothing is due, no removal is asked for. -/
theorem trimmed_none {keys : List K} {capacity : Nat} {later : Machine K V (LruLayer K σ)}
    (order : later.layer.order.Represents keys) (still : later.layer.capacity = capacity)
    (same : inside (·.delegate) later = inside (·.delegate) machine) :
    Trimmed keys capacity (delegate.removeEach [] (inside (·.delegate) machine)) later := by
  refine ⟨same, ?_, still⟩
  show later.layer.order.Represents (keys.take (keys.length - 0))
  rwa [Nat.sub_zero, List.take_length]

/-- A popped victim is removed from the delegate, and the rest of the action trims the other keys;
or the removal fails, and the victim is back in its place. -/
theorem evict_trims {front : List K} {victim : K} {due : Nat}
    {next : Action K V (LruLayer K σ) Unit} (order : machine.layer.order.Represents front)
    (untracked : victim ∉ front)
    (rest : ∀ evicted : Machine K V (LruLayer K σ), evicted.layer.order.Represents front →
      evicted.layer.capacity = machine.layer.capacity →
      evicted.layer.overdue = machine.layer.overdue →
      Trims delegate front machine.layer.overdue due next evicted) :
    Trims delegate (front ++ [victim]) (machine.layer.overdue + 1) (due + 1)
      (evict delegate victim >>= fun _ => next) machine := by
  have backwards :
      (front ++ [victim]).reverse.take (due + 1) = victim :: front.reverse.take due := by
    rw [List.reverse_concat, List.take_succ_cons]
  unfold Trims
  rw [backwards, ends_bind, ends_evict]
  simp only [below, ends_within]
  rcases ran : (delegate.remove victim).run (inside (·.delegate) (evicting delegate machine)) with
    ⟨cause | _, later⟩
  · rw [ends_of_error ran, Cache.removeEach_error ran]
    obtain ⟨-, pushed⟩ := order.pushBack_untracked untracked
    refine ⟨⟨rfl, ?_, rfl⟩, rfl, rfl⟩
    rwa [Nat.sub_zero, List.take_length]
  · rw [ends_of_ok ran, Cache.removeEach_ok ran]
    -- What is left of all keys is what is left of the front, once the last key is gone.
    have shorter (removed : Nat) : (front ++ [victim]).take
        ((front ++ [victim]).length - (removed + 1)) = front.take (front.length - removed) := by
      rw [List.length_append, List.length_singleton, Nat.add_sub_add_right,
        List.take_append_of_le_length (Nat.sub_le _ _)]
    refine Ends.imp (rest (around _ (evicting delegate machine) later) order rfl rfl)
      (fun _ last next => ?_) fun cause last next => ?_
    · obtain ⟨trimmed, calm, settled⟩ := next
      exact ⟨⟨trimmed.below, shorter _ ▸ trimmed.order, trimmed.capacity⟩, calm, settled⟩
    · obtain ⟨trimmed, failed, owed⟩ := next
      exact ⟨⟨trimmed.below, shorter _ ▸ trimmed.order, trimmed.capacity⟩, failed,
        congrArg (· + 1) owed⟩

/-- Settling asks for the removal of the last keys, as many as are overdue and stand above the
capacity. -/
theorem settle_trims {keys : List K} {rounds : Nat} (order : machine.layer.order.Represents keys)
    (enough : machine.layer.overdue = rounds) :
    Trims delegate keys rounds (min rounds (keys.length - machine.layer.capacity))
      (settle delegate rounds) machine := by
  induction rounds generalizing machine keys with
  | zero =>
    rw [Nat.zero_min]
    exact ⟨trimmed_none order rfl rfl, rfl, enough⟩
  | succ rounds inductionHypothesis =>
    rcases takeOverdue_cases order with
      ⟨taken, fits⟩ | ⟨front, victim, later, rfl, overflows, -, taken, popped⟩
    · have none : min (rounds + 1) (keys.length - machine.layer.capacity) = 0 := by omega
      rw [none]
      unfold Trims
      simp only [settle, ends_bind, ends_updateLayer, taken, ends_pure, and_true]
      exact ⟨trimmed_none order rfl rfl, rfl⟩
    · have lowered : machine.layer.overdue - 1 = rounds := by omega
      have due : min (rounds + 1) ((front ++ [victim]).length - machine.layer.capacity) =
          min rounds (front.length - machine.layer.capacity) + 1 := by
        rw [List.length_append, List.length_singleton] at overflows ⊢
        omega
      rw [due]
      unfold Trims
      simp only [settle, ends_bind, ends_updateLayer, taken, lowered]
      rw [← ends_bind]
      exact evict_trims popped (untracked_of_nodup order.nodup)
        fun evicted popped capacity overdue => capacity ▸ inductionHypothesis popped overdue

/-- Making room for a key asks for the removal of the last keys after its use: of one and of those
that are overdue, as far as they stand above the capacity. -/
theorem makeRoom_trims {keys : List K} (order : machine.layer.order.Represents keys) (key : K) :
    Trims delegate (key :: keys.erase key) (machine.layer.overdue + 1)
      (min (1 + machine.layer.overdue)
        ((key :: keys.erase key).length - machine.layer.capacity))
      (makeRoom delegate key) machine := by
  rcases track_cases order key with
    ⟨later, tracked, used, fits⟩ |
      ⟨front, victim, later, same, untracked, above, -, tracked, popped⟩
  · have none : min (1 + machine.layer.overdue)
        ((key :: keys.erase key).length - machine.layer.capacity) = 0 := by omega
    have settled : min machine.layer.overdue
        ((key :: keys.erase key).length - machine.layer.capacity) = 0 := by omega
    have settles : Trims delegate (key :: keys.erase key) machine.layer.overdue
        (min machine.layer.overdue ((key :: keys.erase key).length - machine.layer.capacity))
        (settle delegate machine.layer.overdue)
        { machine with layer := { machine.layer with order := later } } := settle_trims used rfl
    rw [none]
    unfold Trims at settles ⊢
    rw [ends_makeRoom_none tracked]
    rw [settled] at settles
    refine Ends.imp settles (fun _ _ next => next) fun cause last next => ?_
    cases next.2.1
  · have due : min (1 + machine.layer.overdue)
          ((front ++ [victim]).length - machine.layer.capacity) =
        min machine.layer.overdue (front.length - machine.layer.capacity) + 1 := by
      rw [List.length_append, List.length_singleton]
      omega
    rw [same, due]
    have evicts : Trims delegate (front ++ [victim]) (machine.layer.overdue + 1)
        (min machine.layer.overdue (front.length - machine.layer.capacity) + 1)
        (evict delegate victim >>= fun _ => do settle delegate (← Action.layer).overdue)
        { machine with layer := { machine.layer with order := later } } := by
      refine evict_trims popped untracked fun evicted popped capacity overdue => ?_
      have settles : Trims delegate front machine.layer.overdue
          (min machine.layer.overdue (front.length - evicted.layer.capacity))
          (settle delegate machine.layer.overdue) evicted := settle_trims popped overdue
      rw [capacity] at settles
      unfold Trims at settles ⊢
      rw [ends_bind, ends_layer, overdue]
      exact settles
    unfold Trims at evicts ⊢
    rw [ends_makeRoom_some tracked]
    rwa [ends_bind] at evicts

/-- The machine on which a put makes room: the delegate has got the item. -/
def accepted (machine : Machine K V (LruLayer K σ)) (stored : Machine K V σ) :
    Machine K V (LruLayer K σ) where
  layer := { machine.layer with
    counters := machine.layer.counters.countPut, delegate := stored.layer }
  memory := stored.memory
  trace := stored.trace

theorem ends_put {key : K} {item : X} {done : Unit → Machine K V (LruLayer K σ) → Prop}
    {failed : CacheError → Machine K V (LruLayer K σ) → Prop} :
    (LruLayer.put delegate key item).Ends machine done failed ↔
      (delegate.put key item).Ends (inside (·.delegate) machine)
        (fun _ stored => (makeRoom delegate key).Ends (accepted machine stored) done failed)
        fun cause inner =>
          failed cause (around (fun layer delegate => { layer with delegate }) machine inner) := by
  simp only [put_eq, below, count, ends_bind, ends_within, ends_modifyLayer]
  rfl

/-! ### The loop that settles -/

/-- The loop that evicts overdue victims as long as there are any, without a bound on its rounds. It
ends on a machine where none is left, or with the error of an eviction. -/
inductive Settles (delegate : Cache K V σ X) :
    Machine K V (LruLayer K σ) → Except CacheError Unit × Machine K V (LruLayer K σ) → Prop
  | settled {machine : Machine K V (LruLayer K σ)} {layer : LruLayer K σ}
      (none : takeOverdue machine.layer = (none, layer)) :
      Settles delegate machine (.ok (), { machine with layer })
  | failed {machine last : Machine K V (LruLayer K σ)} {layer : LruLayer K σ} {victim : K}
      {cause : CacheError} (owed : takeOverdue machine.layer = (some victim, layer))
      (fails : (evict delegate victim).run { machine with layer } = (.error cause, last)) :
      Settles delegate machine (.error cause, last)
  | evicted {machine next : Machine K V (LruLayer K σ)} {layer : LruLayer K σ} {victim : K}
      {ended : Except CacheError Unit × Machine K V (LruLayer K σ)}
      (owed : takeOverdue machine.layer = (some victim, layer))
      (done : (evict delegate victim).run { machine with layer } = (.ok (), next))
      (rest : Settles delegate next ended) : Settles delegate machine ended

/-- A victim that is taken is owed no longer. -/
theorem overdue_of_takeOverdue {layer later : LruLayer K σ} {victim : K}
    (taken : takeOverdue layer = (some victim, later)) : later.overdue = layer.overdue - 1 := by
  unfold takeOverdue at taken
  split at taken
  case isTrue => cases taken
  case isFalse =>
    split at taken
    case isTrue => cases taken
    case isFalse =>
      split at taken
      case h_1 => cases taken
      case h_2 => exact (Prod.mk.inj taken).2 ▸ rfl

/-- An eviction that succeeds leaves the number of overdue victims as it is. -/
theorem overdue_of_evict {victim : K} {next : Machine K V (LruLayer K σ)}
    (done : (evict delegate victim).run machine = (.ok (), next)) :
    next.layer.overdue = machine.layer.overdue := by
  have ends : (evict delegate victim).Ends machine
      (fun _ later => later.layer.overdue = machine.layer.overdue) fun _ _ => True := by
    simp only [ends_evict, below, ends_within]
    exact ends_of_forall (fun _ _ => rfl) fun _ _ => trivial
  exact (ends_of_ok done).mp ends

/-- The number of overdue victims falls by one in every round, so the loop always ends, and it is
over after as many rounds as there were overdue victims. -/
theorem settles_of_overdue (rounds : Nat) (enough : machine.layer.overdue = rounds) :
    Settles delegate machine ((settle delegate rounds).run machine) := by
  induction rounds generalizing machine with
  | zero => exact .settled (if_pos enough)
  | succ rounds inductionHypothesis =>
    simp only [settle, run_bind, run_updateLayer]
    rcases taken : takeOverdue machine.layer with ⟨_ | victim, layer⟩
    · exact .settled taken
    · have lowered : layer.overdue = rounds := by
        rw [overdue_of_takeOverdue taken, enough, Nat.add_sub_cancel]
      simp only [run_bind]
      rcases ran : (evict delegate victim).run { machine with layer } with ⟨cause | _, next⟩
      · exact .failed taken ran
      · exact .evicted taken ran
          (inductionHypothesis ((overdue_of_evict ran).trans lowered))

/-! ### Machines that a layer can come to be in -/

/-- What can become of a layer over the delegate, step by step: calls, also such that fail, changes
of its settings, and whatever others do with the delegate or with what callers hold. -/
inductive Reached (delegate : Cache K V σ X) : Machine K V (LruLayer K σ) → Prop
  | created {capacity : Nat} {inner : σ} {layer : LruLayer K σ}
      (made : create capacity inner = .ok layer) (memory : Memory K V) (trace : List (Note K)) :
      Reached delegate ⟨layer, memory, trace⟩
  | called {machine : Machine K V (LruLayer K σ)} (reached : Reached delegate machine)
      (call : Call K X) : Reached delegate (((LruLayer.cache delegate).call call).run machine).2
  | resized {machine : Machine K V (LruLayer K σ)} (reached : Reached delegate machine)
      (capacity : Nat) : Reached delegate ((setCapacity delegate capacity).run machine).2
  | recounted {machine : Machine K V (LruLayer K σ)} (reached : Reached delegate machine) :
      Reached delegate ((resetCounters : Action K V (LruLayer K σ) Unit).run machine).2
  | elsewhere {machine : Machine K V (LruLayer K σ)} (reached : Reached delegate machine)
      (inner : σ) (memory : Memory K V) (trace : List (Note K)) :
      Reached delegate ⟨{ machine.layer with delegate := inner }, memory, trace⟩

/-- The layer may track keys, and tracks each of them once. -/
def Orderly (layer : LruLayer K σ) : Prop :=
  0 < layer.capacity ∧ ∃ keys, layer.order.Represents keys

/-- Trimming keeps the order of the keys that are left. -/
theorem Trims.orderly {keys : List K} {owed due : Nat}
    {action : Action K V (LruLayer K σ) Unit} (trims : Trims delegate keys owed due action machine)
    (positive : 0 < machine.layer.capacity) :
    action.Ends machine (fun _ later => Orderly later.layer)
      fun _ later => Orderly later.layer := by
  refine Ends.imp trims (fun _ _ next => ?_) fun _ _ next => ?_
  · exact ⟨next.1.capacity ▸ positive, _, next.1.order⟩
  · exact ⟨next.1.capacity ▸ positive, _, next.1.order⟩

/-- Calls keep the layer orderly, whatever the delegate does. -/
theorem call_orderly (orderly : Orderly machine.layer) (call : Call K X) :
    ((LruLayer.cache delegate).call call).Ends machine (fun _ later => Orderly later.layer)
      fun _ later => Orderly later.layer := by
  obtain ⟨positive, keys, order⟩ := id orderly
  cases call with
  | put key item =>
    simp only [Cache.call, LruLayer.cache, ends_bind, ends_pure, ends_put]
    refine ends_of_forall (fun _ stored => ?_) fun _ _ => orderly
    have order : (accepted machine stored).layer.order.Represents keys := order
    exact (makeRoom_trims order key).orderly positive
  | get key =>
    simp only [Cache.call, LruLayer.cache, LruLayer.get, below, count, ends_bind, ends_within,
      ends_modifyLayer, ends_updateLayer, ends_pure]
    exact ends_of_forall (fun _ _ => ⟨positive, _, (order.touch key).2⟩)
      fun _ _ => ⟨positive, _, (order.touch key).2⟩
  | remove key =>
    simp only [Cache.call, LruLayer.cache, LruLayer.remove, below, count, ends_bind, ends_within,
      ends_modifyLayer, ends_pure]
    exact ends_of_forall (fun _ _ => ⟨positive, _, (order.erase key).2⟩) fun _ _ => orderly
  | clear =>
    simp only [Cache.call, LruLayer.cache, LruLayer.clear, below, count, ends_bind, ends_within,
      ends_modifyLayer, ends_pure]
    exact ends_of_forall (fun _ _ => ⟨positive, _, RecencyOrder.Represents.empty⟩)
      fun _ _ => orderly
  | length =>
    simp only [Cache.call, LruLayer.cache, below, ends_bind, ends_within, ends_pure]
    exact ends_of_forall (fun _ _ => orderly) fun _ _ => orderly
  | isEmpty =>
    simp only [Cache.call, Cache.isEmpty, LruLayer.cache, below, ends_bind, ends_within, ends_pure]
    exact ends_of_forall (fun _ _ => orderly) fun _ _ => orderly

theorem setCapacity_orderly (orderly : Orderly machine.layer) {capacity : Nat} :
    (setCapacity delegate capacity).Ends machine (fun _ later => Orderly later.layer)
      fun _ later => Orderly later.layer := by
  unfold setCapacity
  split
  case h_1 => exact orderly
  case h_2 accepted => exact ⟨checkCapacity_eq_ok.mp accepted, orderly.2⟩

/-- Whatever has become of a layer, it tracks each key once and has room for one. -/
theorem Reached.orderly (reached : Reached delegate machine) : Orderly machine.layer := by
  induction reached with
  | @created capacity inner layer made =>
    unfold create at made
    rcases checked : checkCapacity capacity with _ | _
    · rw [checked] at made
      cases made
    · rw [checked] at made
      cases made
      exact ⟨checkCapacity_eq_ok.mp checked, [], RecencyOrder.Represents.empty⟩
  | called _ call inductionHypothesis => exact (call_orderly inductionHypothesis call).later
  | resized _ capacity inductionHypothesis => exact (setCapacity_orderly inductionHypothesis).later
  | recounted _ inductionHypothesis => exact inductionHypothesis
  | elsewhere _ _ _ _ inductionHypothesis => exact inductionHypothesis

/-! ### Puts -/

/-- The key that is used is none of the last keys, unless all of them are taken. -/
theorem used_notMem_last {keys : List K} (nodup : keys.Nodup) (key : K) {due : Nat}
    (fewer : due < (key :: keys.erase key).length) :
    key ∉ (key :: keys.erase key).reverse.take due := by
  rw [List.reverse_cons, List.take_append_of_le_length]
  · exact fun listed => nodup.not_mem_erase (List.mem_reverse.mp (List.mem_of_mem_take listed))
  · rw [List.length_reverse]
    exact Nat.lt_succ_iff.mp fewer

/-- The number of removals that succeed tells whether one fails. -/
theorem Trims.counted {keys : List K} {owed due : Nat} {action : Action K V (LruLayer K σ) Unit}
    (trims : Trims delegate keys owed due action machine) (enough : due ≤ keys.length) :
    let removals := delegate.removeEach (keys.reverse.take due) (inside (·.delegate) machine)
    action.Ends machine
      (fun _ later => Trimmed keys machine.layer.capacity removals later ∧
        removals.failure = none ∧ removals.succeeded = due ∧ later.layer.overdue = 0)
      fun cause later => Trimmed keys machine.layer.capacity removals later ∧
        removals.failure = some cause ∧ removals.succeeded < due ∧
        later.layer.overdue = owed - removals.succeeded := by
  intro removals
  have size : (keys.reverse.take due).length = due := by
    rw [List.length_take, List.length_reverse, Nat.min_eq_left enough]
  have counted : removals.failure = none ∧ removals.succeeded = due ∨
      ∃ cause, removals.failure = some cause ∧ removals.succeeded < due :=
    size ▸ Cache.succeeded_removeEach (keys.reverse.take due) (inside (·.delegate) machine)
  refine Ends.imp trims (fun _ later next => ?_) fun cause later next => ?_
  · obtain ⟨trimmed, calm, settled⟩ := next
    refine ⟨trimmed, calm, ?_, settled⟩
    rcases counted with ⟨-, all⟩ | ⟨_, failed, -⟩
    · exact all
    · cases calm.symm.trans failed
  · obtain ⟨trimmed, failed, owed⟩ := next
    refine ⟨trimmed, failed, ?_, Nat.eq_sub_of_add_eq owed⟩
    rcases counted with ⟨calm, -⟩ | ⟨_, -, short⟩
    · cases failed.symm.trans calm
    · exact short

/-- What exactly a put does that the delegate accepts, whatever has become of the layer before and
whatever becomes of the removals. If the keys fit the capacity after the use, no removal is asked
for, nothing is owed, and the put succeeds. Otherwise the last keys are due, one of them and those
that are overdue, as far as they stand above the capacity; their removals are asked for one after
the other, from the last key backwards, until one fails. The keys that were removed are no longer
tracked. If none failed the put succeeds and owes nothing; otherwise it fails with the error of
that removal and owes one more than before, less those that succeeded. The key itself is never due,
and the loop that settles always ends. -/
theorem put_evicts (reached : Reached delegate machine) {key : K} {item : X}
    {stored : Machine K V σ}
    (accepts : (delegate.put key item).run (inside (·.delegate) machine) = (.ok (), stored)) :
    let layer := machine.layer
    let used := key :: layer.order.toList.erase key
    let due := min (1 + layer.overdue) (used.length - layer.capacity)
    let removals := delegate.removeEach (used.reverse.take due) stored
    let ended := (LruLayer.put delegate key item).run machine
    (used.length ≤ layer.capacity →
      ended.1 = .ok () ∧ inside (·.delegate) ended.2 = stored ∧
        ended.2.layer.order.toList = used ∧ ended.2.layer.overdue = 0) ∧
    (layer.capacity < used.length →
      inside (·.delegate) ended.2 = removals.machine ∧
        ended.2.layer.order.toList = used.take (used.length - removals.succeeded) ∧
        (ended.1 = .ok () ↔ removals.succeeded = due) ∧
        (removals.succeeded = due → removals.failure = none ∧ ended.2.layer.overdue = 0) ∧
        (removals.succeeded ≠ due → removals.succeeded < due ∧
          ∃ cause, removals.failure = some cause ∧ ended.1 = .error cause ∧
            ended.2.layer.overdue = layer.overdue + 1 - removals.succeeded) ∧
        key ∉ used.reverse.take due) ∧
    ended.2.layer.capacity = layer.capacity ∧
    ∀ entered : Machine K V (LruLayer K σ),
      Settles delegate entered ((settle delegate entered.layer.overdue).run entered) := by
  intro layer used due removals ended
  obtain ⟨positive, keys, order⟩ := reached.orderly
  have positive : 0 < layer.capacity := positive
  have same : layer.order.toList = keys := order.toList
  have fewer : due < used.length := by
    have some : 0 < used.length := Nat.succ_pos _
    omega
  have undue : key ∉ used.reverse.take due := used_notMem_last (same ▸ order.nodup) key fewer
  have loop (entered : Machine K V (LruLayer K σ)) :
      Settles delegate entered ((settle delegate entered.layer.overdue).run entered) :=
    settles_of_overdue _ rfl
  have trims : Trims delegate used (layer.overdue + 1) due (makeRoom delegate key)
      (accepted machine stored) := by
    have order : (accepted machine stored).layer.order.Represents keys := order
    have trims : Trims delegate _ _ _ (makeRoom delegate key) _ := makeRoom_trims order key
    rwa [← same] at trims
  have ends := ends_put.mpr ((ends_of_ok accepts).mpr (trims.counted (Nat.le_of_lt fewer)))
  rcases ran : (LruLayer.put delegate key item).run machine with ⟨cause | _, last⟩
  · have seen : ended = (.error cause, last) := ran
    obtain ⟨trimmed, failed, short, owed⟩ := (ends_of_error ran).mp ends
    have short : removals.succeeded < due := short
    rw [seen]
    refine ⟨fun fits => ?_, fun _ => ⟨trimmed.below, trimmed.order.toList, ?_, ?_, ?_, undue⟩,
      trimmed.capacity, loop⟩
    · omega
    · exact iff_of_false (fun same => by cases same) (Nat.ne_of_lt short)
    · exact fun all => absurd all (Nat.ne_of_lt short)
    · exact fun _ => ⟨short, cause, failed, rfl, owed⟩
  · have seen : ended = (.ok (), last) := ran
    obtain ⟨trimmed, calm, all, settled⟩ := (ends_of_ok ran).mp ends
    have all : removals.succeeded = due := all
    rw [seen]
    refine ⟨fun fits => ?_, fun _ => ⟨trimmed.below, trimmed.order.toList, ?_, ?_, ?_, undue⟩,
      trimmed.capacity, loop⟩
    · have idle : due = 0 := by omega
      have untouched : removals = ⟨0, none, stored⟩ := by
        show delegate.removeEach (used.reverse.take due) stored = _
        rw [idle]
        rfl
      refine ⟨rfl, trimmed.below.trans (congrArg Removals.machine untouched), ?_, settled⟩
      have left : last.layer.order.toList = used.take (used.length - removals.succeeded) :=
        trimmed.order.toList
      rw [left, all, idle, Nat.sub_zero, List.take_length]
    · exact iff_of_true rfl all
    · exact fun _ => ⟨calm, settled⟩
    · exact fun other => absurd all other

/-- A store behind a probe. -/
def probed : Cache Nat String (ProbeLayer (Store Nat (Shared String))) (Shared String) :=
  (Shape.probe .store : Shape .value).cache

/-- The store is empty. Of the removals it is asked for, the first will fail and the third. -/
def stumbling : ProbeLayer (Store Nat (Shared String)) where
  faults := [{ method := .remove, error := .backend "pages" "store is down" },
    { method := .remove, skip := 1, error := .backend "pages" "store is slow" }]
  delegate := { id := "pages" }

/-- A layer that was made for three keys and got four. The removal of the victim has failed, and the
capacity was lowered since. -/
def indebted : Machine Nat String (LruLayer Nat (ProbeLayer (Store Nat (Shared String)))) :=
  let put (key : Nat) machine :=
    (((LruLayer.cache probed).call (.put key ⟨key, "page"⟩)).run machine).2
  let start := { layer := { capacity := 3, delegate := stumbling } }
  ((setCapacity probed 1).run (put 4 (put 3 (put 2 (put 1 start))))).2

/-- Two of five keys are due. The first of them is removed, and the other stays overdue. -/
theorem put_evicts_indebted :
    Reached probed indebted ∧
      (∃ stored, (probed.put 5 ⟨5, "page"⟩).run (inside (·.delegate) indebted) = (.ok (), stored)) ∧
      let ended := (LruLayer.put probed 5 ⟨5, "page"⟩).run indebted
      indebted.layer.order.toList = [4, 3, 2, 1] ∧ indebted.layer.overdue = 1 ∧
        ended.1 = .error (.backend "pages" "store is slow") ∧
        ended.2.layer.order.toList = [5, 4, 3, 2] ∧ ended.2.layer.overdue = 1 := by
  have made : (create 3 stumbling : Except _ (LruLayer Nat _)) =
      .ok { capacity := 3, delegate := stumbling } := rfl
  have reached : Reached probed indebted :=
    .resized (.called (.called (.called (.called (.created made {} []) _) _) _) _) 1
  have accepts : (probed.put 5 ⟨5, "page"⟩).run (inside (·.delegate) indebted) =
      (.ok (), ((probed.put 5 ⟨5, "page"⟩).run (inside (·.delegate) indebted)).2) :=
    Prod.ext (by decide +kernel) rfl
  obtain ⟨-, crowded, -⟩ := put_evicts reached accepts
  obtain ⟨-, order, -, -, fails, -⟩ := crowded (by decide +kernel)
  obtain ⟨-, cause, failure, failed, owed⟩ := fails (by decide +kernel)
  have slow : some cause = some (.backend "pages" "store is slow") :=
    failure.symm.trans (by decide +kernel)
  exact ⟨reached, ⟨_, accepts⟩, by decide +kernel, by decide +kernel,
    Option.some.inj slow ▸ failed, order.trans (by decide +kernel), owed.trans (by decide +kernel)⟩

end LruLayer

end LayeredCache
