/-
This file says what the parts of a recency layer do: which victim a put pops, how the removal of a
victim ends, and what the rounds that settle overdue victims amount to.

To the delegate a put of the layer is a put followed by removals, so whatever the delegate's put
establishes and its removals keep holds of the delegate after the layer's put.
-/

import LayeredCache.Layer.Lru
import LayeredCache.Proofs.Ending
import LayeredCache.Proofs.Order

namespace LayeredCache.LruLayer

open LayeredCache.Action

variable {K V σ X : Type} [DecidableEq K]

/-! ### Victims -/

section Victims

variable {layer : LruLayer K σ} {keys : List K}

/-- A use that the capacity allows for has no victim. -/
theorem track_fits (order : layer.order.Represents keys) {key : K}
    (fits : (key :: keys.erase key).length ≤ layer.capacity) :
    ∃ later, track key layer = (none, { layer with order := later }) ∧
      later.Represents (key :: keys.erase key) := by
  obtain ⟨-, used⟩ := order.use key
  refine ⟨(layer.order.use key).2, ?_, used⟩
  unfold track
  simp only [used.length]
  exact if_neg (by omega)

/-- A use that overflows the capacity pops the least recently used key. -/
theorem track_over (order : layer.order.Represents keys) {key : K}
    (overflows : layer.capacity < (key :: keys.erase key).length) :
    ∃ later, track key layer = ((key :: keys.erase key).getLast?, { layer with order := later }) ∧
      later.Represents (key :: keys.erase key).dropLast := by
  obtain ⟨-, used⟩ := order.use key
  obtain ⟨answer, popped⟩ := used.popBack
  refine ⟨(layer.order.use key).2.popBack.2, ?_, popped⟩
  rw [← answer]
  unfold track
  simp only [used.length]
  exact if_pos overflows

omit [DecidableEq K] in
/-- Of keys that are tracked once each, the last one is tracked only there. -/
theorem untracked_of_nodup {front : List K} {victim : K} (nodup : (front ++ [victim]).Nodup) :
    victim ∉ front :=
  ((List.nodup_concat front victim).mp (List.concat_eq_append ▸ nodup)).1

/-- A use fits the capacity, or pops a victim and leaves at least as many keys as the capacity, and
no more than there were. -/
theorem track_cases (order : layer.order.Represents keys) (key : K) :
    (∃ later, track key layer = (none, { layer with order := later }) ∧
      later.Represents (key :: keys.erase key) ∧
      (key :: keys.erase key).length ≤ layer.capacity) ∨
    ∃ front victim later, key :: keys.erase key = front ++ [victim] ∧ victim ∉ front ∧
      layer.capacity ≤ front.length ∧ front.length ≤ keys.length ∧
      track key layer = (some victim, { layer with order := later }) ∧
      later.Represents front := by
  by_cases fits : (key :: keys.erase key).length ≤ layer.capacity
  · obtain ⟨later, tracked, used⟩ := track_fits order fits
    exact Or.inl ⟨later, tracked, used, fits⟩
  · have overflows : layer.capacity < (key :: keys.erase key).length := Nat.not_le.mp fits
    obtain ⟨later, tracked, popped⟩ := track_over order overflows
    have nodup := (order.use key).2.nodup
    obtain ⟨front, victim, same⟩ : ∃ front victim, key :: keys.erase key = front ++ [victim] :=
      (List.eq_nil_or_concat' _).resolve_left (List.cons_ne_nil _ _)
    have length := congrArg List.length same
    rw [length, List.length_append, List.length_singleton] at overflows
    rw [List.length_cons, List.length_append, List.length_singleton, Nat.add_right_cancel_iff]
      at length
    rw [same, List.getLast?_concat] at tracked
    rw [same, List.dropLast_concat] at popped
    rw [same] at nodup
    exact Or.inr ⟨front, victim, later, same, untracked_of_nodup nodup,
      Nat.lt_succ_iff.mp overflows, length ▸ List.length_erase_le, tracked, popped⟩

/-- Nothing is owed any longer, or the least recently used key is popped and one victim fewer is. -/
theorem takeOverdue_cases (order : layer.order.Represents keys) :
    (takeOverdue layer = (none, { layer with overdue := 0 }) ∧
      (layer.overdue = 0 ∨ keys.length ≤ layer.capacity)) ∨
    ∃ front victim later, keys = front ++ [victim] ∧ layer.capacity < keys.length ∧
      0 < layer.overdue ∧
      takeOverdue layer =
        (some victim, { layer with order := later, overdue := layer.overdue - 1 }) ∧
      later.Represents front := by
  unfold takeOverdue
  rw [order.length]
  split
  case isTrue settled =>
    rw [← settled]
    exact Or.inl ⟨rfl, Or.inl rfl⟩
  case isFalse owed =>
    split
    case isTrue fits => exact Or.inl ⟨rfl, Or.inr fits⟩
    case isFalse overflows =>
      obtain ⟨answer, popped⟩ := order.popBack
      rcases List.eq_nil_or_concat' keys with rfl | ⟨front, victim, rfl⟩
      · exact absurd (Nat.zero_le _) overflows
      · rw [List.dropLast_concat] at popped
        rw [List.getLast?_concat] at answer
        refine Or.inr ⟨front, victim, _, rfl, Nat.not_le.mp overflows, Nat.pos_of_ne_zero owed,
          ?_, popped⟩
        split
        case h_1 same => rw [same] at answer; cases answer
        case h_2 same =>
          rw [same] at answer
          rw [Option.some.inj answer, same]

end Victims

/-! ### Evictions -/

section Evictions

variable {delegate : Cache K V σ X} {done : Unit → Machine K V (LruLayer K σ) → Prop}
  {failed : CacheError → Machine K V (LruLayer K σ) → Prop}

/-- The machine that the delegate removes a victim on. -/
def evicting (delegate : Cache K V σ X) (machine : Machine K V (LruLayer K σ)) :
    Machine K V (LruLayer K σ) :=
  { machine with
    layer := { machine.layer with counters := machine.layer.counters.countEviction }
    trace := .event (.evicting (delegate.id machine.layer.delegate)) :: machine.trace }

/-- An eviction ends as the delegate's removal does, except that a failure restores the victim. -/
theorem ends_evict {victim : K} {machine : Machine K V (LruLayer K σ)} :
    (evict delegate victim).Ends machine done failed ↔
      (below (delegate.remove victim)).Ends (evicting delegate machine) (fun _ => done ())
        fun cause later =>
          failed cause { later with layer := restore victim later.layer } := by
  simp only [evict, count, ends_bind, ends_modifyLayer, ends_layer, ends_report, ends_tryCatch,
    ends_throw, ends_pure]
  rfl

/-- Makes room for a key that the delegate has got: tracks it, evicts the victim if there is one,
and settles what is overdue. -/
def makeRoom (delegate : Cache K V σ X) (key : K) : Action K V (LruLayer K σ) Unit := do
  match ← Action.updateLayer (track key) with
  | none => pure ()
  | some victim => evict delegate victim
  settle delegate (← Action.layer).overdue

/-- A put is a put into the delegate that is then made room for. -/
theorem put_eq (delegate : Cache K V σ X) (key : K) (item : X) :
    LruLayer.put delegate key item = (do
      below (delegate.put key item)
      count LruCounters.countPut
      makeRoom delegate key) := rfl

theorem ends_makeRoom_none {key : K} {machine : Machine K V (LruLayer K σ)} {later : LruLayer K σ}
    (tracked : track key machine.layer = (none, later)) :
    (makeRoom delegate key).Ends machine done failed ↔
      (settle delegate later.overdue).Ends { machine with layer := later } done failed := by
  simp only [makeRoom, ends_bind, ends_updateLayer, tracked, ends_layer]

theorem ends_makeRoom_some {key victim : K} {machine : Machine K V (LruLayer K σ)}
    {later : LruLayer K σ} (tracked : track key machine.layer = (some victim, later)) :
    (makeRoom delegate key).Ends machine done failed ↔
      (evict delegate victim).Ends { machine with layer := later }
        (fun _ evicted => (settle delegate evicted.layer.overdue).Ends evicted done failed)
        failed := by
  simp only [makeRoom, ends_bind, ends_updateLayer, tracked, ends_layer]

end Evictions

/-! ### What the delegate keeps -/

section Keeps

theorem track_delegate (key : K) (layer : LruLayer K σ) :
    (track key layer).2.delegate = layer.delegate := by
  unfold track
  simp only
  split <;> rfl

theorem takeOverdue_delegate (layer : LruLayer K σ) :
    (takeOverdue layer).2.delegate = layer.delegate := by
  unfold takeOverdue
  split
  · rfl
  · split
    · rfl
    · split <;> rfl

variable {delegate : Cache K V σ X} {holds fails : σ → Memory K V → Prop}
  (remove : ∀ victim layer memory, holds layer memory →
    (delegate.remove victim).Leaves layer memory (fun _ => holds) fails)

include remove

/-- An eviction is a removal below. -/
theorem evict_keeps {machine : Machine K V (LruLayer K σ)} (victim : K)
    (start : holds machine.layer.delegate machine.memory) :
    (evict delegate victim).Ends machine (fun _ later => holds later.layer.delegate later.memory)
      fun _ later => fails later.layer.delegate later.memory := by
  simp only [ends_evict, below, ends_within]
  exact (remove victim _ _ start).ends (fun _ _ kept => kept) fun _ _ lost => lost

/-- Settling is a sequence of removals below. -/
theorem settle_keeps (rounds : Nat) {machine : Machine K V (LruLayer K σ)}
    (start : holds machine.layer.delegate machine.memory) :
    (settle delegate rounds).Ends machine
      (fun _ later => holds later.layer.delegate later.memory)
      fun _ later => fails later.layer.delegate later.memory := by
  induction rounds generalizing machine with
  | zero => exact start
  | succ rounds inductionHypothesis =>
    rw [← takeOverdue_delegate machine.layer] at start
    simp only [settle, ends_bind, ends_updateLayer]
    split
    case h_1 => exact start
    case h_2 victim _ =>
      rw [ends_bind]
      exact (evict_keeps remove victim start).imp (fun _ _ kept => inductionHypothesis kept)
        fun _ _ lost => lost

/-- Making room is a sequence of removals below. -/
theorem makeRoom_keeps (key : K) {machine : Machine K V (LruLayer K σ)}
    (start : holds machine.layer.delegate machine.memory) :
    (makeRoom delegate key).Ends machine
      (fun _ later => holds later.layer.delegate later.memory)
      fun _ later => fails later.layer.delegate later.memory := by
  rw [← track_delegate key machine.layer] at start
  rcases tracked : track key machine.layer with ⟨_ | victim, later⟩
  · rw [ends_makeRoom_none tracked]
    rw [tracked] at start
    exact settle_keeps remove _ start
  · rw [ends_makeRoom_some tracked]
    rw [tracked] at start
    exact Ends.imp (evict_keeps remove victim start) (fun _ _ kept => settle_keeps remove _ kept)
      fun _ _ lost => lost

/-- What a put below establishes and removals below keep holds after a put of the layer. -/
theorem put_keeps {layer : LruLayer K σ} {memory : Memory K V} {key : K} {item : X}
    (put : (delegate.put key item).Leaves layer.delegate memory (fun _ => holds) fails) :
    (LruLayer.put delegate key item).Leaves layer memory (fun _ later => holds later.delegate)
      fun later => fails later.delegate := by
  intro trace
  simp only [put_eq, below, count, ends_bind, ends_within, ends_modifyLayer]
  exact put.ends (fun _ _ kept => makeRoom_keeps remove key kept) fun _ _ lost => lost

end Keeps

/-! ### Operations that are passed on -/

section PassedOn

variable {delegate : Cache K V σ X} {layer : LruLayer K σ} {memory : Memory K V}
  {failed : σ → Memory K V → Prop}

/-- A look-up is a look-up below. -/
theorem get_leaves {key : K} {done : Option X → σ → Memory K V → Prop}
    (leaves : (delegate.get key).Leaves layer.delegate memory done failed) :
    (LruLayer.get delegate key).Leaves layer memory (fun found later => done found later.delegate)
      fun later => failed later.delegate := by
  intro trace
  simp only [LruLayer.get, below, count, ends_bind, ends_within, ends_modifyLayer,
    ends_updateLayer]
  exact leaves.ends (fun _ _ next => next) fun _ _ next => next

/-- A removal is a removal below. -/
theorem remove_leaves {key : K} {done : Option X → σ → Memory K V → Prop}
    (leaves : (delegate.remove key).Leaves layer.delegate memory done failed) :
    (LruLayer.remove delegate key).Leaves layer memory
      (fun found later => done found later.delegate) fun later => failed later.delegate := by
  intro trace
  simp only [LruLayer.remove, below, count, ends_bind, ends_within, ends_modifyLayer, ends_pure]
  exact leaves.ends (fun _ _ next => next) fun _ _ next => next

/-- A clear is a clear below. -/
theorem clear_leaves {done : Unit → σ → Memory K V → Prop}
    (leaves : delegate.clear.Leaves layer.delegate memory done failed) :
    (LruLayer.cache delegate).clear.Leaves layer memory
      (fun value later => done value later.delegate) fun later => failed later.delegate := by
  intro trace
  show (LruLayer.clear delegate).Ends _ _ _
  simp only [LruLayer.clear, below, count, ends_bind, ends_within, ends_modifyLayer]
  exact leaves.ends (fun _ _ next => next) fun _ _ next => next

/-- A count is a count below. -/
theorem length_leaves {done : Nat → σ → Memory K V → Prop}
    (leaves : delegate.length.Leaves layer.delegate memory done failed) :
    (LruLayer.cache delegate).length.Leaves layer memory
      (fun number later => done number later.delegate) fun later => failed later.delegate := by
  intro trace
  show (below delegate.length).Ends _ _ _
  simp only [below, ends_within]
  exact leaves.ends (fun _ _ next => next) fun _ _ next => next

end PassedOn

end LayeredCache.LruLayer
