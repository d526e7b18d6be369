/-
This file proves that a recency order owns as many slots as it has needed at once, and no more.

The vacant slots are exactly those on the free list, each of them once, so slots are vacant or hold
a tracked key (`Housed.size_eq`). A new key takes a vacant slot if there is one. The number of slots
therefore changes only when none is vacant afterwards, and then there are as many slots as tracked
keys. In other words, every operation but clearing sets the number of slots to the larger one of two
numbers: the slots before it and the keys tracked after it.

Along a run these maxima add up to the largest number of keys that were tracked at one moment since
the order was made or last cleared.
-/

import Mathlib.Data.List.Infix
import Mathlib.Order.Bounds.Basic
import LayeredCache.Proofs.KeyLists

namespace LayeredCache.RecencyOrder

variable {K : Type}

/-! ### Vacant and occupied slots -/

/-- Every slot is vacant or occupied, and each vacant one is on the free list once. -/
theorem Housed.size_eq {list : RecencyOrder K} {slots : List Nat} (housed : Housed list slots)
    (distinct : slots.Nodup) : list.free.length + slots.length = list.slots.size := by
  have apart : (list.free ++ slots).Nodup := by
    refine List.nodup_append.mpr ⟨housed.free, distinct, fun slot vacant other held same => ?_⟩
    exact ((housed.vacant slot).mp vacant).2 (same ▸ held)
  have every : ∀ slot, slot ∈ list.free ++ slots ↔ slot ∈ List.range list.slots.size := by
    intro slot
    have inside : slot ∈ slots → slot < list.slots.size := fun occupied =>
      lt_size_of_node? ((housed.occupied slot).mpr occupied)
    rw [List.mem_append, housed.vacant, List.mem_range]
    by_cases occupied : slot ∈ slots
    · simp [occupied, inside occupied]
    · simp [occupied]
  have permuted := (List.perm_ext_iff_of_nodup apart List.nodup_range).mpr every
  simpa using permuted.length_eq

theorem relinked_moveToFront (list : RecencyOrder K) (slot : Nat) :
    Relinked list (list.moveToFront slot) := by
  unfold moveToFront
  split
  · exact Relinked.refl list
  · exact (relinked_detach list slot).trans (relinked_attachFront _ slot)

/-- Giving up a node gives up no slot. -/
theorem size_vacate (list : RecencyOrder K) (slot : Nat) :
    (list.vacate slot).2.slots.size = list.slots.size := by
  have detached := (relinked_detach list slot).size
  unfold vacate
  dsimp only
  split
  · exact detached
  · exact Array.size_setIfInBounds.trans detached

variable [DecidableEq K]

/-- Every slot that is not vacant holds one tracked key. -/
theorem Represents.size_eq {list : RecencyOrder K} {keys : List K}
    (represents : Represents list keys) : list.free.length + list.length = list.slots.size := by
  obtain ⟨path, holds, rfl⟩ := id represents
  have sizes := holds.housed.size_eq holds.linked.distinct
  rwa [List.length_map, ← List.length_map (f := Prod.snd), ← represents.length] at sizes

/-! ### When slots are added -/

/-- From the first order to the second, slots are added only if none is vacant afterwards, and none
are taken away. -/
def AddsLast (before after : RecencyOrder K) : Prop :=
  after.slots.size = before.slots.size ∨
    before.slots.size ≤ after.slots.size ∧ after.free = []

omit [DecidableEq K] in
/-- A new slot is made only if no slot is vacant. -/
theorem addsLast_allocate (list : RecencyOrder K) (node : RecencyNode K) :
    AddsLast list (list.allocate node).2 := by
  unfold allocate
  split
  case h_1 => exact Or.inl Array.size_setIfInBounds
  case h_2 free =>
    refine Or.inr ⟨?_, free⟩
    rw [Array.size_push]
    exact Nat.le_succ _

omit [DecidableEq K] in
/-- What is relinked afterwards changes nothing about it. -/
theorem AddsLast.relinked {before middle after : RecencyOrder K} (adds : AddsLast before middle)
    (relinked : Relinked middle after) : AddsLast before after := by
  unfold AddsLast
  rwa [relinked.size, relinked.free]

theorem addsLast_perform (operation : Operation K) (list : RecencyOrder K)
    (kept : operation ≠ .clear) : AddsLast list (operation.perform list).2 := by
  cases operation with
  | use key =>
    show AddsLast list (list.use key).2
    unfold use
    split
    case h_1 slot _ => exact Or.inl (relinked_moveToFront list slot).size
    case h_2 =>
      have linked := relinked_attachFront (list.allocate { key }).2 (list.allocate { key }).1
      have adds := (addsLast_allocate list { key }).relinked linked
      exact adds
  | touch key =>
    show AddsLast list (list.touch key).2
    unfold touch
    split
    case h_1 slot _ => exact Or.inl (relinked_moveToFront list slot).size
    case h_2 => exact Or.inl rfl
  | pushBack key =>
    show AddsLast list (list.pushBack key).2
    unfold pushBack
    split
    case h_1 => exact Or.inl rfl
    case h_2 =>
      have linked := relinked_attachBack (list.allocate { key }).2 (list.allocate { key }).1
      have adds := (addsLast_allocate list { key }).relinked linked
      exact adds
  | popBack =>
    show AddsLast list list.popBack.2
    unfold popBack
    split
    case h_1 => exact Or.inl rfl
    case h_2 slot _ =>
      have size := size_vacate list slot
      split <;> rename_i vacated <;> rw [vacated] at size <;> exact Or.inl size
  | erase key =>
    show AddsLast list (list.erase key).2
    unfold erase
    split
    case h_1 => exact Or.inl rfl
    case h_2 slot _ => exact Or.inl (size_vacate _ slot)
  | clear => exact absurd rfl kept

/-- After an operation there are as many slots as before, or as tracked keys if these are more. -/
theorem Represents.size_perform {list : RecencyOrder K} {keys : List K}
    (represents : Represents list keys) {operation : Operation K} (kept : operation ≠ .clear) :
    (operation.perform list).2.slots.size =
      max (operation.perform list).2.length list.slots.size := by
  have sizes := (represents.perform operation).2.size_eq
  rcases addsLast_perform operation list kept with same | ⟨more, full⟩
  · omega
  · rw [full, List.length_nil] at sizes
    omega

/-! ### Runs -/

/-- What operations that are performed one after the other leave of the empty order. -/
def after (operations : List (Operation K)) : RecencyOrder K :=
  (performAll Operation.perform operations empty).2

theorem after_concat (operations : List (Operation K)) (operation : Operation K) :
    after (operations ++ [operation]) = (operation.perform (after operations)).2 := by
  have split : ∀ state : RecencyOrder K,
      (performAll Operation.perform (operations ++ [operation]) state).2 =
        (operation.perform (performAll Operation.perform operations state).2).2 := by
    induction operations with
    | nil => exact fun _ => rfl
    | cons first later inductionHypothesis => exact fun state => inductionHypothesis _
  exact split empty

theorem after_represents (operations : List (Operation K)) :
    ∃ keys, Represents (after operations) keys :=
  ⟨_, (Represents.empty.performAll operations).2⟩

/-- How many keys were tracked at the moments since the order was made or last cleared. -/
def trackedSince (operations : List (Operation K)) : Set Nat :=
  {tracked | ∃ earlier later, operations = earlier ++ later ∧ .clear ∉ later ∧
    tracked = (after earlier).length}

/-- The moments before the order is cleared do not count. -/
theorem trackedSince_clear (operations : List (Operation K)) :
    trackedSince (operations ++ [.clear]) = {0} := by
  refine Set.eq_singleton_iff_unique_mem.mpr ⟨?now, ?others⟩
  case now =>
    refine ⟨_, [], (List.append_nil _).symm, by simp, ?_⟩
    rw [after_concat]
    rfl
  case others =>
    rintro tracked ⟨earlier, later, same, kept, rfl⟩
    rcases List.eq_nil_or_concat later with rfl | ⟨rest, last, rfl⟩
    · rw [List.append_nil] at same
      rw [← same, after_concat]
      rfl
    · rw [List.concat_eq_append, ← List.append_assoc] at same
      obtain ⟨-, last⟩ := List.append_inj' same rfl
      exact absurd (by simp [List.singleton_inj.mp last]) kept

/-- An operation that does not clear the order adds one moment. -/
theorem trackedSince_concat (operations : List (Operation K)) {operation : Operation K}
    (kept : operation ≠ .clear) :
    trackedSince (operations ++ [operation]) =
      insert (after (operations ++ [operation])).length (trackedSince operations) := by
  ext tracked
  rw [Set.mem_insert_iff]
  constructor
  · rintro ⟨earlier, later, same, none, rfl⟩
    rcases List.eq_nil_or_concat later with rfl | ⟨rest, last, rfl⟩
    · rw [List.append_nil] at same
      exact Or.inl (same ▸ rfl)
    · rw [List.concat_eq_append] at same none
      rw [← List.append_assoc] at same
      obtain ⟨same, -⟩ := List.append_inj' same rfl
      exact Or.inr ⟨earlier, rest, same, fun member => none (by simp [member]), rfl⟩
  · rintro (rfl | ⟨earlier, later, rfl, none, rfl⟩)
    · exact ⟨_, [], (List.append_nil _).symm, by simp, rfl⟩
    · exact ⟨earlier, later ++ [operation], List.append_assoc _ _ _,
        by simp [none, kept.symm], rfl⟩

/-- There are as many slots as there were tracked keys at one moment, and never were there more. -/
theorem isGreatest_trackedSince (operations : List (Operation K)) :
    IsGreatest (trackedSince operations) (after operations).slots.size := by
  induction operations using List.reverseRecOn with
  | nil =>
    refine ⟨⟨[], [], rfl, by simp, rfl⟩, ?_⟩
    rintro tracked ⟨earlier, later, same, -, rfl⟩
    obtain ⟨rfl, -⟩ := List.append_eq_nil_iff.mp same.symm
    exact Nat.le_refl 0
  | append_singleton operations operation inductionHypothesis =>
    by_cases kept : operation = .clear
    · subst kept
      rw [trackedSince_clear, after_concat]
      exact isGreatest_singleton
    · obtain ⟨keys, represents⟩ := after_represents operations
      rw [trackedSince_concat operations kept, after_concat, represents.size_perform kept]
      exact inductionHypothesis.insert _

/-- Whatever is done to an empty order, it owns as many slots as the largest number of keys that
were tracked at one moment since it was made or last cleared. If it never tracks more than `bound`
keys at once, it therefore never owns more than `bound` slots, however long the run is. -/
theorem slots_recycled (operations : List (Operation K)) :
    IsGreatest (trackedSince operations) (after operations).slots.size ∧
      ∀ bound, (∀ earlier, earlier <+: operations → (after earlier).length ≤ bound) →
        ∀ earlier, earlier <+: operations → (after earlier).slots.size ≤ bound := by
  refine ⟨isGreatest_trackedSince operations, fun bound few earlier begins => ?_⟩
  obtain ⟨moment, later, rfl, -, same⟩ := (isGreatest_trackedSince earlier).1
  rw [same]
  exact few moment ((List.prefix_append moment later).trans begins)

/-- Six keys come and go through every way of giving one up, never more than two at once. Two slots
are enough, and after the order was cleared one is. -/
theorem slots_recycled_churning :
    let churned := [.use 1, .use 2, .erase 1, .pushBack 3, .popBack, .use 4, .touch 2, .popBack,
      .use 5]
    let cleared := churned ++ [.clear, .use 6]
    (∀ earlier, earlier <+: cleared → (after earlier).length ≤ 2) ∧
      (∀ earlier, earlier <+: cleared → (after earlier).slots.size ≤ 2) ∧
      (after churned).slots.size = 2 ∧ (after cleared).slots.size = 1 := by
  intro churned cleared
  have moments : ∀ earlier ∈ cleared.inits, (after earlier).length ≤ 2 := by decide +kernel
  have few : ∀ earlier, earlier <+: cleared → (after earlier).length ≤ 2 :=
    fun earlier begins => moments earlier ((List.mem_inits earlier cleared).mpr begins)
  exact ⟨few, (slots_recycled cleared).2 2 few, by decide +kernel, by decide +kernel⟩

end LayeredCache.RecencyOrder
