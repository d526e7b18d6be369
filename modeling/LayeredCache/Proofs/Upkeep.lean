/-
This file says which keys a recency layer that owes nothing tracks after each of its operations, as
long as the operations below do not fail.

What the operations below establish is passed on: to them a put is a put that, if it overflows the
capacity, is followed by the removal of the key that was used longest ago. `Room` says this of the
keys alone, so it tells which entry a put takes away, whatever stands below the layer.
-/

import LayeredCache.Proofs.Follows
import LayeredCache.Proofs.Views

namespace LayeredCache

open LayeredCache.Action

variable {K V σ X : Type} [DecidableEq K]

/-! ### Making room -/

/-- The view without what it shows under the victim, if there is one. -/
def without (victim : Option K) (view : K → Option X) : K → Option X :=
  fun key => if victim = some key then none else view key

@[simp] theorem without_none (view : K → Option X) : without none view = view := rfl

theorem Table.find?_erase_eq (table : Table K X) (key : K) :
    (table.erase key).find? = without (some key) table.find? := by
  funext other
  rw [Table.find?_erase, without]
  simp only [Option.some.injEq, eq_comm]

omit [DecidableEq K] in
/-- What is shown after something was hidden was shown before. -/
theorem isSome_of_hidden {gone : Prop} [Decidable gone] {shown : Option X}
    (still : (if gone then none else shown).isSome = true) : ¬ gone ∧ shown.isSome = true := by
  split at still
  case isTrue => cases still
  case isFalse kept => exact ⟨kept, still⟩

omit [DecidableEq K] in
/-- The last of a list behind another key. -/
theorem getLast?_cons_iff {others : List K} {key other : K} (different : other ≠ key) :
    (key :: others).getLast? = some other ↔ others.getLast? = some other := by
  cases others with
  | nil => simp [different.symm]
  | cons first rest => rw [List.getLast?_cons_cons]

/-- The keys that are left and the victim, if there is one, once room is made for a key. -/
inductive Room (capacity : Nat) (keys : List K) (key : K) : List K → Option K → Prop
  | fits (fits : (key :: keys.erase key).length ≤ capacity) :
    Room capacity keys key (key :: keys.erase key) none
  | evicts (front : List K) (victim : K) (same : key :: keys.erase key = front ++ [victim])
      (overflows : capacity ≤ front.length) : Room capacity keys key front (some victim)

namespace Room

variable {capacity : Nat} {keys left : List K} {key : K} {victim : Option K}

theorem sublist (room : Room capacity keys key left victim) :
    left.Sublist (key :: keys.erase key) := by
  cases room with
  | fits => exact List.Sublist.refl _
  | evicts _ victim same =>
    rw [same]
    exact List.sublist_append_left left [victim]

/-- Room is made within the capacity if there was no more before. -/
theorem length_le (room : Room capacity keys key left victim) (few : keys.length ≤ capacity) :
    left.length ≤ capacity := by
  cases room with
  | fits fits => exact fits
  | evicts _ victim same =>
    have length := congrArg List.length same
    rw [List.length_append, List.length_singleton, List.length_cons, Nat.add_right_cancel_iff]
      at length
    exact length ▸ Nat.le_trans List.length_erase_le few

/-- What is left are all keys but the victim. -/
theorem mem_left (room : Room capacity keys key left victim) (nodup : keys.Nodup) (other : K) :
    other ∈ left ↔ victim ≠ some other ∧ (other = key ∨ other ∈ keys) := by
  have used : other ∈ key :: keys.erase key ↔ other = key ∨ other ∈ keys := by
    rw [List.mem_cons, nodup.mem_erase_iff]
    by_cases same : other = key <;> simp [same]
  cases room with
  | fits => simp [used]
  | evicts _ victim same =>
    have distinct : (left ++ [victim]).Nodup := same ▸ Recent.Tracking.used_nodup nodup key
    have gone := LruLayer.untracked_of_nodup distinct
    rw [← used, same, List.mem_append, List.mem_singleton, Ne, Option.some.injEq, eq_comm]
    by_cases again : other = victim
    · simp [again, gone]
    · simp [again]

/-- A put takes what is shown under another key away if the keys overflow the capacity and this one
is the last of them. -/
theorem lost_iff (room : Room capacity keys key left victim) {view : K → Option X} {item : X}
    {other : K} (different : other ≠ key) (visible : (view other).isSome = true) :
    (without victim (placed view key item) other).isSome = false ↔
      capacity < (keys.erase key).length + 1 ∧ (keys.erase key).getLast? = some other := by
  have shown : placed view key item other = view other := if_neg different
  have used : (key :: keys.erase key).length = (keys.erase key).length + 1 := List.length_cons
  rw [← getLast?_cons_iff different, ← used]
  cases room with
  | fits fits =>
    rw [without_none, shown, visible]
    exact iff_of_false Bool.noConfusion fun overflows => Nat.not_lt.mpr fits overflows.1
  | evicts _ victim same overflows =>
    have many : capacity < (left ++ [victim]).length := by
      rw [List.length_append, List.length_singleton]
      exact Nat.lt_succ_of_le overflows
    rw [same, List.getLast?_concat, without, shown]
    split
    case isTrue last => exact iff_of_true rfl ⟨many, last⟩
    case isFalse kept =>
      rw [visible]
      exact iff_of_false Bool.noConfusion fun lost => kept lost.2

end Room

/-! ### Recency layers -/

namespace LruLayer

variable {delegate : Cache K V σ X} {capacity : Nat} {keys : List K} {layer : LruLayer K σ}
  {memory : Memory K V}

section Puts

variable {key : K} {done : Option K → σ → Memory K V → Prop}
  (remove : ∀ victim inner after, done none inner after →
    (delegate.remove victim).Leaves inner after (fun _ => done (some victim)) fun _ _ => False)

include remove

theorem makeRoom_steady {machine : Machine K V (LruLayer K σ)}
    (steady : Steady capacity keys machine.layer)
    (start : done none machine.layer.delegate machine.memory) :
    (makeRoom delegate key).Ends machine
      (fun _ later => ∃ left victim, Room capacity keys key left victim ∧
        Steady capacity left later.layer ∧ done victim later.layer.delegate later.memory)
      fun _ _ => False := by
  have bound := steady.capacity
  have settled := steady.overdue
  rcases track_cases steady.order key with ⟨later, tracked, used, fits⟩ |
    ⟨front, victim, later, same, -, overflows, -, tracked, popped⟩
  · rw [ends_makeRoom_none tracked, settled]
    exact ⟨_, none, .fits (bound ▸ fits), ⟨bound, rfl, used⟩, start⟩
  · rw [ends_makeRoom_some tracked]
    simp only [ends_evict, below, ends_within]
    refine (remove victim _ _ start).ends (fun _ last evicted => ?_) fun _ _ no => no
    show (settle delegate machine.layer.overdue).Ends _ _ _
    rw [settled]
    exact ⟨front, some victim, .evicts front victim same (bound ▸ overflows), ⟨bound, rfl, popped⟩,
      evicted⟩

/-- A put is a put below, and a removal of the victim if there is one. -/
theorem put_steady {item : X} (steady : Steady capacity keys layer)
    (put : (delegate.put key item).Leaves layer.delegate memory (fun _ => done none)
      fun _ _ => False) :
    (LruLayer.put delegate key item).Leaves layer memory
      (fun _ later after => ∃ left victim, Room capacity keys key left victim ∧
        Steady capacity left later ∧ done victim later.delegate after)
      fun _ _ => False := by
  intro trace
  simp only [put_eq, below, count, ends_bind, ends_within, ends_modifyLayer]
  refine put.ends (fun _ inner start => ?_) fun _ _ no => no
  exact makeRoom_steady remove ⟨steady.capacity, steady.overdue, steady.order⟩ start

end Puts

section PassedOn

variable {key : K}

theorem get_steady {done : Option X → σ → Memory K V → Prop} (steady : Steady capacity keys layer)
    (get : (delegate.get key).Leaves layer.delegate memory done fun _ _ => False) :
    (LruLayer.get delegate key).Leaves layer memory
      (fun found later after =>
        Steady capacity (if key ∈ keys then key :: keys.erase key else keys) later ∧
          done found later.delegate after)
      fun _ _ => False := by
  intro trace
  simp only [LruLayer.get, below, count, ends_bind, ends_within, ends_modifyLayer,
    ends_updateLayer]
  obtain ⟨-, touched⟩ := steady.order.touch key
  exact get.ends (fun _ _ next => ⟨⟨steady.capacity, steady.overdue, touched⟩, next⟩)
    fun _ _ no => no

theorem remove_steady {done : Option X → σ → Memory K V → Prop}
    (steady : Steady capacity keys layer)
    (remove : (delegate.remove key).Leaves layer.delegate memory done fun _ _ => False) :
    (LruLayer.remove delegate key).Leaves layer memory
      (fun found later after => Steady capacity (keys.erase key) later ∧
        done found later.delegate after)
      fun _ _ => False := by
  intro trace
  simp only [LruLayer.remove, below, count, ends_bind, ends_within, ends_modifyLayer, ends_pure]
  obtain ⟨-, erased⟩ := steady.order.erase key
  exact remove.ends (fun _ _ next => ⟨⟨steady.capacity, steady.overdue, erased⟩, next⟩)
    fun _ _ no => no

theorem clear_steady {done : Unit → σ → Memory K V → Prop} (steady : Steady capacity keys layer)
    (clear : delegate.clear.Leaves layer.delegate memory done fun _ _ => False) :
    (LruLayer.clear delegate).Leaves layer memory
      (fun value later after => Steady capacity [] later ∧ done value later.delegate after)
      fun _ _ => False := by
  intro trace
  simp only [LruLayer.clear, below, count, ends_bind, ends_within, ends_modifyLayer]
  exact clear.ends
    (fun _ _ next => ⟨⟨steady.capacity, rfl, RecencyOrder.Represents.empty⟩, next⟩) fun _ _ no => no

theorem length_steady {done : Nat → σ → Memory K V → Prop} (steady : Steady capacity keys layer)
    (length : delegate.length.Leaves layer.delegate memory done fun _ _ => False) :
    (LruLayer.cache delegate).length.Leaves layer memory
      (fun number later after => Steady capacity keys later ∧ done number later.delegate after)
      fun _ _ => False := by
  intro trace
  show (below delegate.length).Ends _ _ _
  simp only [below, ends_within]
  exact length.ends
    (fun _ _ next => ⟨⟨steady.capacity, steady.overdue, steady.order⟩, next⟩) fun _ _ no => no

end PassedOn

end LruLayer

end LayeredCache
