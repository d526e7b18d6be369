/-
This file proves what the links of a recency order say: followed from the front, they lead through
a path of slots without repetition, and every node on the path knows its two neighbours.

A path lists the slots with their keys from the front to the back. `Linked` ties it to the nodes by
one statement per way of splitting the path at a node, so a node's links are read off the two parts.
Taking a node out of the middle and putting one at either end then change the path as they would
change a list. A change of links never moves a key from its slot, which is what `Relinked` records.
-/

import Mathlib.Data.List.Nodup
import LayeredCache.Recency

namespace LayeredCache.RecencyOrder

variable {K : Type}

/-! ### Nodes after a change -/

@[simp] theorem node?_modifyNode (list : RecencyOrder K) (slot other : Nat)
    (change : RecencyNode K → RecencyNode K) :
    (list.modifyNode slot change).node? other =
      if slot = other then (list.node? other).map change else list.node? other := by
  unfold node? modifyNode
  rw [Array.getElem?_modify]
  by_cases same : slot = other
  · rw [if_pos same, if_pos same]
    cases list.slots[other]? <;> simp
  · rw [if_neg same, if_neg same]

/-- The ends of an order are not part of its nodes. -/
@[simp] theorem node?_ends (list : RecencyOrder K) (front back : Option Nat) (slot : Nat) :
    ({ list with front, back } : RecencyOrder K).node? slot = list.node? slot := rfl

/-- A detached node knows no neighbour, and its former neighbours know each other. -/
theorem node?_detach (list : RecencyOrder K) {slot : Nat} {node : RecencyNode K}
    (found : list.node? slot = some node) (other : Nat) :
    (list.detach slot).node? other =
      if other = slot then some { node with before := none, after := none }
      else (if node.after = some other then Option.map ({ · with before := node.before }) else id)
        ((if node.before = some other then Option.map ({ · with after := node.after }) else id)
          (list.node? other)) := by
  obtain ⟨key, before, after⟩ := node
  unfold detach
  rw [found]
  by_cases same : slot = other
  · subst same
    cases before <;> cases after <;> simp [found]
  · have different : other ≠ slot := Ne.symm same
    cases before <;> cases after <;> simp [same, different] <;> grind

theorem front_detach (list : RecencyOrder K) {slot : Nat} {node : RecencyNode K}
    (found : list.node? slot = some node) :
    (list.detach slot).front = if node.before = none then node.after else list.front := by
  obtain ⟨key, before, after⟩ := node
  unfold detach
  rw [found]
  cases before <;> cases after <;> rfl

theorem back_detach (list : RecencyOrder K) {slot : Nat} {node : RecencyNode K}
    (found : list.node? slot = some node) :
    (list.detach slot).back = if node.after = none then node.before else list.back := by
  obtain ⟨key, before, after⟩ := node
  unfold detach
  rw [found]
  cases before <;> cases after <;> rfl

/-- The node that is attached in front knows the old front, and the old front knows it. -/
theorem node?_attachFront (list : RecencyOrder K) (slot other : Nat) :
    (list.attachFront slot).node? other =
      (if list.front = some other then Option.map ({ · with before := some slot }) else id)
        (if slot = other then
          (list.node? other).map ({ · with before := none, after := list.front })
        else list.node? other) := by
  unfold attachFront
  cases list.front <;> simp
  split <;> rfl

/-- The node that is attached behind knows the old back, and the old back knows it. -/
theorem node?_attachBack (list : RecencyOrder K) (slot other : Nat) :
    (list.attachBack slot).node? other =
      (if list.back = some other then Option.map ({ · with after := some slot }) else id)
        (if slot = other then
          (list.node? other).map ({ · with before := list.back, after := none })
        else list.node? other) := by
  unfold attachBack
  cases list.back <;> simp
  split <;> rfl

@[simp] theorem front_attachFront (list : RecencyOrder K) (slot : Nat) :
    (list.attachFront slot).front = some slot := rfl

theorem back_attachFront (list : RecencyOrder K) (slot : Nat) :
    (list.attachFront slot).back = if list.front = none then some slot else list.back := by
  unfold attachFront
  cases list.front <;> rfl

@[simp] theorem back_attachBack (list : RecencyOrder K) (slot : Nat) :
    (list.attachBack slot).back = some slot := rfl

theorem front_attachBack (list : RecencyOrder K) (slot : Nat) :
    (list.attachBack slot).front = if list.back = none then some slot else list.front := by
  unfold attachBack
  cases list.back <;> rfl

/-! ### Paths -/

/-- The slot at the front of a path. -/
def firstSlot (path : List (Nat × K)) : Option Nat := path.head?.map Prod.fst

/-- The slot at the back of a path. -/
def lastSlot (path : List (Nat × K)) : Option Nat := path.getLast?.map Prod.fst

@[simp] theorem firstSlot_nil : firstSlot ([] : List (Nat × K)) = none := rfl

@[simp] theorem lastSlot_nil : lastSlot ([] : List (Nat × K)) = none := rfl

@[simp] theorem firstSlot_cons (entry : Nat × K) (rest : List (Nat × K)) :
    firstSlot (entry :: rest) = some entry.1 := rfl

@[simp] theorem lastSlot_cons (entry : Nat × K) (rest : List (Nat × K)) :
    lastSlot (entry :: rest) = (lastSlot rest).or (some entry.1) := by
  cases rest <;> simp [lastSlot, List.getLast?_cons]

@[simp] theorem firstSlot_append (newer older : List (Nat × K)) :
    firstSlot (newer ++ older) = (firstSlot newer).or (firstSlot older) := by
  cases newer <;> simp [firstSlot]

@[simp] theorem lastSlot_append (newer older : List (Nat × K)) :
    lastSlot (newer ++ older) = (lastSlot older).or (lastSlot newer) := by
  simp [lastSlot, List.getLast?_append, Option.map_or]

@[simp] theorem firstSlot_eq_none {path : List (Nat × K)} : firstSlot path = none ↔ path = [] := by
  simp [firstSlot]

@[simp] theorem lastSlot_eq_none {path : List (Nat × K)} : lastSlot path = none ↔ path = [] := by
  simp [lastSlot]

theorem firstSlot_mem {path : List (Nat × K)} {slot : Nat} (first : firstSlot path = some slot) :
    slot ∈ path.map Prod.fst := by
  cases path with
  | nil => cases first
  | cons entry rest => simp_all

theorem lastSlot_mem {path : List (Nat × K)} {slot : Nat} (last : lastSlot path = some slot) :
    slot ∈ path.map Prod.fst := by
  simp only [lastSlot, Option.map_eq_some_iff] at last
  obtain ⟨entry, isLast, rfl⟩ := last
  exact List.mem_map_of_mem (List.mem_of_getLast? isLast)

/-- A path has a front exactly if it has a back. -/
theorem lastSlot_of_firstSlot {path : List (Nat × K)} {slot : Nat}
    (first : firstSlot path = some slot) : ∃ other, lastSlot path = some other := by
  refine Option.ne_none_iff_exists'.mp fun last => ?_
  rw [lastSlot_eq_none.mp last] at first
  cases first

theorem firstSlot_of_lastSlot {path : List (Nat × K)} {slot : Nat}
    (last : lastSlot path = some slot) : ∃ other, firstSlot path = some other := by
  refine Option.ne_none_iff_exists'.mp fun first => ?_
  rw [firstSlot_eq_none.mp first] at last
  cases last

/-- An entry of two parts put together lies in one of them. -/
theorem append_eq_split {Entry : Type} {newer older front back : List Entry} {entry : Entry}
    (same : newer ++ older = front ++ entry :: back) :
    (∃ middle, newer = front ++ entry :: middle ∧ back = middle ++ older) ∨
      ∃ middle, front = newer ++ middle ∧ older = middle ++ entry :: back := by
  rcases List.append_eq_append_iff.mp same with ⟨middle, inFront, inOlder⟩ | ⟨middle, inNewer, rest⟩
  · exact Or.inr ⟨middle, inFront, inOlder⟩
  · cases middle with
    | nil => exact Or.inr ⟨[], by simpa using inNewer.symm, by simpa using rest.symm⟩
    | cons head middle =>
      rw [List.cons_append, List.cons.injEq] at rest
      exact Or.inl ⟨middle, by rw [inNewer, rest.1], rest.2⟩

/-- A slot of a path without repetition is on neither side of itself. -/
theorem slot_once {newer older : List (Nat × K)} {slot : Nat} {key : K}
    (distinct : ((newer ++ (slot, key) :: older).map Prod.fst).Nodup) :
    slot ∉ newer.map Prod.fst ∧ slot ∉ older.map Prod.fst := by
  rw [List.map_append, List.map_cons, List.nodup_append, List.nodup_cons] at distinct
  obtain ⟨-, ⟨notOlder, -⟩, apart⟩ := distinct
  exact ⟨fun member => apart _ member _ List.mem_cons_self rfl, notOlder⟩

/-! ### Linked paths -/

/-- The links of the order lead along the path. -/
structure Linked (list : RecencyOrder K) (path : List (Nat × K)) : Prop where
  node : ∀ {newer slot key older}, path = newer ++ (slot, key) :: older →
    list.node? slot = some ⟨key, lastSlot newer, firstSlot older⟩
  front : list.front = firstSlot path
  back : list.back = lastSlot path
  distinct : (path.map Prod.fst).Nodup

theorem Linked.empty : Linked ({} : RecencyOrder K) [] where
  node same := by simp at same
  front := rfl
  back := rfl
  distinct := List.nodup_nil

/-- Taking a node out of a path links its neighbours with each other. -/
theorem Linked.detach {list : RecencyOrder K} {newer older : List (Nat × K)} {slot : Nat} {key : K}
    (linked : Linked list (newer ++ (slot, key) :: older)) :
    Linked (list.detach slot) (newer ++ older) := by
  have found := linked.node rfl
  obtain ⟨notNewer, notOlder⟩ := slot_once linked.distinct
  constructor
  · intro front other otherKey back same
    rw [node?_detach list found]
    rcases append_eq_split same with ⟨middle, rfl, rfl⟩ | ⟨middle, rfl, rfl⟩
    -- The other node is in front of the one taken out: only its link to the back can change.
    · have whole : front ++ (other, otherKey) :: middle ++ (slot, key) :: older =
          front ++ (other, otherKey) :: (middle ++ (slot, key) :: older) := by simp
      obtain ⟨-, once⟩ := slot_once (whole ▸ linked.distinct)
      have different : other ≠ slot := fun same => notNewer (by simp [same])
      have notFirst : firstSlot older ≠ some other := fun first =>
        once (by simpa using Or.inr (Or.inr (by simpa using firstSlot_mem first)))
      have notLast : lastSlot middle ≠ some other := fun last =>
        once (by simpa using Or.inl (by simpa using lastSlot_mem last))
      rw [linked.node whole, if_neg different, if_neg notFirst]
      cases last : lastSlot middle with
      | none => simp [lastSlot_eq_none.mp last]
      | some final =>
        obtain ⟨start, first⟩ := firstSlot_of_lastSlot last
        have apart : final ≠ other := fun same => notLast (same ▸ last)
        simp [last, first, apart]
    · have whole : newer ++ (slot, key) :: (middle ++ (other, otherKey) :: back) =
          (newer ++ (slot, key) :: middle) ++ (other, otherKey) :: back := by simp
      obtain ⟨once, -⟩ := slot_once (whole ▸ linked.distinct)
      have different : other ≠ slot := fun same => notOlder (by simp [same])
      have notLast : lastSlot newer ≠ some other := fun last =>
        once (by simpa using Or.inl (by simpa using lastSlot_mem last))
      have notFirst : firstSlot middle ≠ some other := fun first =>
        once (by simpa using Or.inr (Or.inr (by simpa using firstSlot_mem first)))
      rw [linked.node whole, if_neg different, if_neg notLast]
      cases first : firstSlot middle with
      | none => simp [firstSlot_eq_none.mp first]
      | some start =>
        obtain ⟨final, last⟩ := lastSlot_of_firstSlot first
        have apart : start ≠ other := fun same => notFirst (same ▸ first)
        simp [last, first, apart]
  · rw [front_detach list found, linked.front]
    cases newer <;> simp
  · rw [back_detach list found, linked.back]
    cases older with
    | nil => simp
    | cons entry rest => cases last : lastSlot rest <;> simp [last]
  · exact linked.distinct.sublist (by simp)

/-- A node that is on no path becomes the front of one. -/
theorem Linked.attachFront {list : RecencyOrder K} {path : List (Nat × K)} {slot : Nat}
    {node : RecencyNode K} (linked : Linked list path) (found : list.node? slot = some node)
    (off : slot ∉ path.map Prod.fst) :
    Linked (list.attachFront slot) ((slot, node.key) :: path) := by
  constructor
  · intro front other otherKey back same
    rw [node?_attachFront, linked.front]
    cases front with
    | nil =>
      obtain ⟨⟨rfl, rfl⟩, rfl⟩ := List.cons.inj same |>.imp_left Prod.mk.inj
      have notFirst : firstSlot path ≠ some slot := fun first => off (firstSlot_mem first)
      simp [notFirst, found]
    | cons entry front =>
      rw [List.cons_append, List.cons.injEq] at same
      obtain ⟨rfl, rfl⟩ := same
      have different : slot ≠ other := fun same => off (by simp [same])
      obtain ⟨once, -⟩ := slot_once linked.distinct
      rw [linked.node rfl, if_neg different]
      cases first : firstSlot front with
      | none => simp [firstSlot_eq_none.mp first]
      | some start =>
        obtain ⟨final, last⟩ := lastSlot_of_firstSlot first
        have apart : start ≠ other := fun same => once (same ▸ firstSlot_mem first)
        simp [first, last, apart]
  · exact front_attachFront list slot
  · rw [back_attachFront, linked.front, linked.back, lastSlot_cons]
    cases first : firstSlot path with
    | none => simp [firstSlot_eq_none.mp first]
    | some start =>
      obtain ⟨final, last⟩ := lastSlot_of_firstSlot first
      simp [last]
  · rw [List.map_cons, List.nodup_cons]
    exact ⟨off, linked.distinct⟩

/-- A node that is on no path becomes the back of one. -/
theorem Linked.attachBack {list : RecencyOrder K} {path : List (Nat × K)} {slot : Nat}
    {node : RecencyNode K} (linked : Linked list path) (found : list.node? slot = some node)
    (off : slot ∉ path.map Prod.fst) :
    Linked (list.attachBack slot) (path ++ [(slot, node.key)]) := by
  constructor
  · intro front other otherKey back same
    rw [node?_attachBack, linked.back]
    rcases append_eq_split same with ⟨middle, rfl, rfl⟩ | ⟨middle, rfl, last⟩
    · have different : slot ≠ other := fun same => off (by simp [same])
      obtain ⟨-, once⟩ := slot_once linked.distinct
      rw [linked.node rfl, if_neg different]
      cases last : lastSlot middle with
      | none => simp [lastSlot_eq_none.mp last]
      | some final =>
        obtain ⟨start, first⟩ := firstSlot_of_lastSlot last
        have apart : final ≠ other := fun same => once (same ▸ lastSlot_mem last)
        simp [first, last, apart]
    · obtain ⟨rfl, ⟨⟨rfl, rfl⟩, rfl⟩⟩ : middle = [] ∧ (slot = other ∧ node.key = otherKey) ∧
          back = [] := by
        cases middle <;> simp_all
      have notLast : lastSlot path ≠ some slot := fun last => off (lastSlot_mem last)
      simp [notLast, found]
  · rw [front_attachBack, linked.back, linked.front, firstSlot_append]
    cases last : lastSlot path with
    | none => simp [lastSlot_eq_none.mp last]
    | some final =>
      obtain ⟨start, first⟩ := firstSlot_of_lastSlot last
      simp [first]
  · rw [back_attachBack, lastSlot_append]
    rfl
  · rw [List.map_append, List.nodup_append_comm]
    exact List.nodup_cons.mpr ⟨off, linked.distinct⟩

/-! ### What a change of links leaves alone -/

/-- The second order has other links at most: every slot holds the key it held. -/
structure Relinked (before after : RecencyOrder K) : Prop where
  index : after.index = before.index
  free : after.free = before.free
  size : after.slots.size = before.slots.size
  key : ∀ slot, (after.node? slot).map (·.key) = (before.node? slot).map (·.key)

theorem Relinked.trans {first second third : RecencyOrder K} (one : Relinked first second)
    (two : Relinked second third) : Relinked first third where
  index := two.index.trans one.index
  free := two.free.trans one.free
  size := two.size.trans one.size
  key slot := (two.key slot).trans (one.key slot)

/-- Setting the ends of an order relinks it. -/
theorem Relinked.ends {before after : RecencyOrder K} (relinked : Relinked before after)
    (front back : Option Nat) : Relinked before { after with front, back } :=
  ⟨relinked.index, relinked.free, relinked.size, relinked.key⟩

theorem Relinked.refl (list : RecencyOrder K) : Relinked list list :=
  ⟨rfl, rfl, rfl, fun _ => rfl⟩

/-- Changing the links of one node relinks the order. -/
theorem Relinked.modifyNode {before after : RecencyOrder K} (relinked : Relinked before after)
    (slot : Nat) (change : RecencyNode K → RecencyNode K)
    (same : ∀ node, (change node).key = node.key) :
    Relinked before (after.modifyNode slot change) := by
  refine relinked.trans ⟨rfl, rfl, Array.size_modify, fun other => ?_⟩
  rw [node?_modifyNode]
  split
  · cases after.node? other <;> simp [same]
  · rfl

theorem relinked_detach (list : RecencyOrder K) (slot : Nat) :
    Relinked list (list.detach slot) := by
  have kept := Relinked.refl list
  unfold detach
  cases list.node? slot with
  | none => exact kept
  | some node =>
    refine .modifyNode ?_ slot _ fun _ => rfl
    have skipped (before : Nat) :=
      kept.modifyNode before ({ · with after := node.after }) fun _ => rfl
    rcases node with ⟨key, _ | before, _ | after⟩
    · exact (kept.ends none list.back).ends none none
    · refine .modifyNode ?_ after _ fun _ => rfl
      exact kept.ends (some after) list.back
    · exact (skipped before).ends list.front (some before)
    · exact .modifyNode (skipped before) after _ fun _ => rfl

theorem relinked_attachFront (list : RecencyOrder K) (slot : Nat) :
    Relinked list (list.attachFront slot) := by
  have moved := (Relinked.refl list).modifyNode slot
    ({ · with before := none, after := list.front }) fun _ => rfl
  have met (old : Nat) := moved.modifyNode old ({ · with before := some slot }) fun _ => rfl
  unfold attachFront
  revert moved met
  cases list.front with
  | none => exact fun moved _ => moved.ends (some slot) (some slot)
  | some old => exact fun _ met => (met old).ends (some slot) list.back

theorem relinked_attachBack (list : RecencyOrder K) (slot : Nat) :
    Relinked list (list.attachBack slot) := by
  have moved := (Relinked.refl list).modifyNode slot
    ({ · with before := list.back, after := none }) fun _ => rfl
  have met (old : Nat) := moved.modifyNode old ({ · with after := some slot }) fun _ => rfl
  unfold attachBack
  revert moved met
  cases list.back with
  | none => exact fun moved _ => moved.ends (some slot) (some slot)
  | some old => exact fun _ met => (met old).ends list.front (some slot)

end LayeredCache.RecencyOrder
