/-
This file proves that a recency order is a list of keys without repetition, the most recently used
key first, and says what every operation does to that list.

`Holds` ties an order to a path of slots and keys: the links lead along the path, the slots off the
path are exactly the free ones, and the index knows the slot of every key on it. `Represents`
forgets the slots. Its lemmas, one for each operation, are all that the layers need to know about
orders.
-/

import Mathlib.Data.List.Induction
import Mathlib.Data.List.Perm.Subperm
import LayeredCache.Proofs.Distinct
import LayeredCache.Proofs.Links

namespace LayeredCache.RecencyOrder

variable {K : Type}

/-! ### Slots -/

/-- The listed slots are the occupied ones, and the free list has each other slot once. -/
structure Housed (list : RecencyOrder K) (slots : List Nat) : Prop where
  occupied : ∀ slot, (list.node? slot).isSome ↔ slot ∈ slots
  free : list.free.Nodup
  vacant : ∀ slot, slot ∈ list.free ↔ slot < list.slots.size ∧ slot ∉ slots

theorem Housed.empty : Housed ({} : RecencyOrder K) [] where
  occupied slot := by simp [node?]
  free := List.nodup_nil
  vacant slot := by simp

/-- Only which slots are listed matters. -/
theorem Housed.congr {list : RecencyOrder K} {slots others : List Nat} (housed : Housed list slots)
    (same : ∀ slot, slot ∈ others ↔ slot ∈ slots) : Housed list others where
  occupied slot := by rw [housed.occupied, same]
  free := housed.free
  vacant slot := by rw [housed.vacant, same]

theorem Housed.relinked {before after : RecencyOrder K} {slots : List Nat}
    (housed : Housed before slots) (relinked : Relinked before after) : Housed after slots where
  occupied slot := by
    rw [← housed.occupied, ← Option.isSome_map (f := (·.key)), relinked.key, Option.isSome_map]
  free := relinked.free ▸ housed.free
  vacant slot := by rw [relinked.free, relinked.size, housed.vacant]

theorem lt_size_of_node? {list : RecencyOrder K} {slot : Nat} (found : (list.node? slot).isSome) :
    slot < list.slots.size := by
  unfold node? at found
  by_contra outside
  rw [Array.getElem?_eq_none (by omega)] at found
  simp at found

/-- No more slots are occupied than there are. -/
theorem Housed.length_le {list : RecencyOrder K} {slots : List Nat} (housed : Housed list slots)
    (distinct : slots.Nodup) : slots.length ≤ list.slots.size := by
  have inside : slots ⊆ List.range list.slots.size := fun slot member =>
    List.mem_range.mpr (lt_size_of_node? ((housed.occupied slot).mpr member))
  simpa using (distinct.subperm inside).length_le

/-! ### Taking and giving up a slot -/

/-- An allocated slot was vacant, and nothing but this slot changes. -/
structure Allocated (before : RecencyOrder K) (node : RecencyNode K) (slot : Nat)
    (after : RecencyOrder K) : Prop where
  node : after.node? slot = some node
  other : ∀ other, other ≠ slot → after.node? other = before.node? other
  index : after.index = before.index
  front : after.front = before.front
  back : after.back = before.back

theorem Housed.allocate {list : RecencyOrder K} {slots : List Nat} (housed : Housed list slots)
    (node : RecencyNode K) :
    (list.allocate node).1 ∉ slots ∧
      Allocated list node (list.allocate node).1 (list.allocate node).2 ∧
      Housed (list.allocate node).2 ((list.allocate node).1 :: slots) := by
  unfold RecencyOrder.allocate
  split
  case h_1 slot rest free =>
    obtain ⟨inside, off⟩ := (housed.vacant slot).mp (by simp [free])
    have distinct := housed.free
    rw [free, List.nodup_cons] at distinct
    have kept : ∀ other, other ≠ slot →
        ({ list with slots := list.slots.setIfInBounds slot (some node), free := rest } :
          RecencyOrder K).node? other = list.node? other := by
      intro other different
      simp [node?, Array.getElem?_setIfInBounds_ne different.symm]
    have placed : ({ list with slots := list.slots.setIfInBounds slot (some node), free := rest } :
        RecencyOrder K).node? slot = some node := by
      simp [node?, inside]
    refine ⟨off, ⟨placed, kept, rfl, rfl, rfl⟩, fun other => ?_, distinct.2, fun other => ?_⟩
    · by_cases same : other = slot
      · simp [same, placed]
      · rw [kept other same, housed.occupied, List.mem_cons]
        simp [same]
    · have before := housed.vacant other
      rw [free, List.mem_cons] at before
      simp only [Array.size_setIfInBounds, List.mem_cons, not_or]
      by_cases same : other = slot
      · simp [same, distinct.1]
      · simpa [same] using before
  case h_2 free =>
    have off : list.slots.size ∉ slots := fun member =>
      absurd (lt_size_of_node? ((housed.occupied _).mpr member)) (by omega)
    have full : ∀ other, other < list.slots.size → other ∈ slots := by
      intro other inside
      by_contra outside
      have listed := (housed.vacant other).mpr ⟨inside, outside⟩
      rw [free] at listed
      cases listed
    have kept : ∀ other, other ≠ list.slots.size →
        ({ list with slots := list.slots.push (some node) } : RecencyOrder K).node? other =
          list.node? other := by
      intro other different
      simp [node?, Array.getElem?_push, different]
    have placed : ({ list with slots := list.slots.push (some node) } :
        RecencyOrder K).node? list.slots.size = some node := by
      simp [node?]
    refine ⟨off, ⟨placed, kept, rfl, rfl, rfl⟩, fun other => ?_, housed.free, fun other => ?_⟩
    · by_cases same : other = list.slots.size
      · simp [same, placed]
      · rw [kept other same, housed.occupied, List.mem_cons]
        simp [same]
    · simp only [free, List.not_mem_nil, Array.size_push, List.mem_cons, not_or, false_iff]
      rintro ⟨inside, different, outside⟩
      exact outside (full other (by omega))

/-- The links do not lead to a slot that was just allocated. -/
theorem Linked.allocated {before after : RecencyOrder K} {path : List (Nat × K)} {slot : Nat}
    {node : RecencyNode K} (linked : Linked before path) (off : slot ∉ path.map Prod.fst)
    (allocated : Allocated before node slot after) : Linked after path where
  node := by
    intro newer other key older same
    have different : other ≠ slot := by
      rintro rfl
      exact off (by simp [same])
    rw [allocated.other other different, linked.node same]
  front := allocated.front.trans linked.front
  back := allocated.back.trans linked.back
  distinct := linked.distinct

/-- Vacating a slot of a path answers its key and leaves the rest of the path. -/
theorem Linked.vacate {list : RecencyOrder K} {newer older : List (Nat × K)} {slot : Nat} {key : K}
    (linked : Linked list (newer ++ (slot, key) :: older))
    (housed : Housed list ((newer ++ (slot, key) :: older).map Prod.fst)) :
    (list.vacate slot).1 = some key ∧ (list.vacate slot).2.index = list.index ∧
      Linked (list.vacate slot).2 (newer ++ older) ∧
      Housed (list.vacate slot).2 ((newer ++ older).map Prod.fst) := by
  obtain ⟨notNewer, notOlder⟩ := slot_once linked.distinct
  have off : slot ∉ (newer ++ older).map Prod.fst := by
    rw [List.map_append, List.mem_append]
    exact fun member => member.elim notNewer notOlder
  have relinked := relinked_detach list slot
  have detached := linked.detach
  have rehoused := housed.relinked relinked
  have found : (list.detach slot).node? slot = some ⟨key, none, none⟩ := by
    rw [node?_detach list (linked.node rfl), if_pos rfl]
  have inside : slot < (list.detach slot).slots.size := lt_size_of_node? (by rw [found]; rfl)
  have result : list.vacate slot = (some key, { list.detach slot with
      slots := (list.detach slot).slots.setIfInBounds slot none
      free := slot :: (list.detach slot).free }) := by
    unfold RecencyOrder.vacate
    simp only [found]
  have emptied : (list.vacate slot).2.node? slot = none := by
    rw [result]
    simp [node?, inside]
  have kept : ∀ other, other ≠ slot →
      (list.vacate slot).2.node? other = (list.detach slot).node? other := by
    intro other different
    rw [result]
    simp [node?, Array.getElem?_setIfInBounds_ne different.symm]
  refine ⟨by rw [result], by rw [result]; exact relinked.index, ?_, ?_⟩
  · constructor
    · intro front other otherKey back same
      have different : other ≠ slot := by
        rintro rfl
        exact off (by simp [same])
      rw [kept other different, detached.node same]
    · rw [result]
      exact detached.front
    · rw [result]
      exact detached.back
    · exact detached.distinct
  · have listed (other : Nat) : other ∈ (newer ++ (slot, key) :: older).map Prod.fst ↔
        other = slot ∨ other ∈ (newer ++ older).map Prod.fst := by
      simp only [List.map_append, List.map_cons, List.mem_append, List.mem_cons]
      exact or_left_comm
    constructor
    · intro other
      by_cases same : other = slot
      · rw [same, emptied]
        simpa using off
      · rw [kept other same, rehoused.occupied, listed]
        simp [same]
    · rw [result]
      refine List.nodup_cons.mpr ⟨fun free => ?_, rehoused.free⟩
      exact ((rehoused.vacant slot).mp free).2 ((listed slot).mpr (Or.inl rfl))
    · intro other
      rw [result]
      have before := rehoused.vacant other
      rw [listed] at before
      simp only [List.mem_cons, before, Array.size_setIfInBounds]
      by_cases same : other = slot
      · subst same
        simpa [inside] using off
      · simp [same]

/-- A slot on the path holds the key it has there. -/
theorem Linked.key_of_mem {list : RecencyOrder K} {path : List (Nat × K)}
    (linked : Linked list path) {slot : Nat} {key : K} (listed : (slot, key) ∈ path) :
    (list.node? slot).map (·.key) = some key := by
  obtain ⟨newer, older, same⟩ := List.append_of_mem listed
  rw [linked.node same]
  rfl

/-- The links lead from any part of the path through the keys of the rest. -/
theorem Linked.keysFrom {list : RecencyOrder K} {path newer older : List (Nat × K)}
    (linked : Linked list path) (same : path = newer ++ older) {steps : Nat}
    (enough : older.length ≤ steps) :
    list.keysFrom steps (firstSlot older) = older.map Prod.snd := by
  induction older generalizing newer steps with
  | nil => cases steps <;> rfl
  | cons entry rest inductionHypothesis =>
    obtain ⟨slot, key⟩ := entry
    cases steps with
    | zero => simp at enough
    | succ steps =>
      have further : path = (newer ++ [(slot, key)]) ++ rest := by simpa using same
      rw [firstSlot_cons, RecencyOrder.keysFrom, linked.node same, List.map_cons]
      exact congrArg (key :: ·) (inductionHypothesis further (by simpa using enough))

/-- The links lead from any part of the path back through the keys of the rest. -/
theorem Linked.keysBefore {list : RecencyOrder K} {path newer older : List (Nat × K)}
    (linked : Linked list path) (same : path = newer ++ older) {steps : Nat}
    (enough : newer.length ≤ steps) :
    list.keysBefore steps (lastSlot newer) = (newer.map Prod.snd).reverse := by
  induction newer using List.reverseRecOn generalizing older steps with
  | nil => cases steps <;> rfl
  | append_singleton rest entry inductionHypothesis =>
    obtain ⟨slot, key⟩ := entry
    cases steps with
    | zero => simp at enough
    | succ steps =>
      have further : path = rest ++ (slot, key) :: older := by simpa using same
      have last : lastSlot (rest ++ [(slot, key)]) = some slot := by simp
      rw [last, RecencyOrder.keysBefore, linked.node further, List.map_append, List.reverse_append]
      exact congrArg (key :: ·) (inductionHypothesis further (by simpa using enough))

/-- Neither links nor slots depend on the index. -/
theorem Linked.withIndex {list : RecencyOrder K} {path : List (Nat × K)}
    (linked : Linked list path) (index : Table K Nat) : Linked { list with index } path :=
  ⟨linked.node, linked.front, linked.back, linked.distinct⟩

theorem Housed.withIndex {list : RecencyOrder K} {slots : List Nat} (housed : Housed list slots)
    (index : Table K Nat) : Housed { list with index } slots :=
  ⟨housed.occupied, housed.free, housed.vacant⟩

/-! ### The index -/

/-- The index knows the slot of every key on the path, and no other key. -/
structure Indexed (index : Table K Nat) [DecidableEq K] (path : List (Nat × K)) : Prop where
  distinct : index.Distinct
  find : ∀ key slot, index.find? key = some slot ↔ (slot, key) ∈ path

section Index

variable [DecidableEq K] {index : Table K Nat} {path others : List (Nat × K)}

theorem Indexed.empty : Indexed ({} : Table K Nat) [] where
  distinct := Table.distinct_empty
  find key slot := by simp [Table.find?]

/-- Only what is on the path matters. -/
theorem Indexed.congr (indexed : Indexed index path)
    (same : ∀ entry, entry ∈ others ↔ entry ∈ path) : Indexed index others where
  distinct := indexed.distinct
  find key slot := by rw [indexed.find, same]

theorem Indexed.find_none (indexed : Indexed index path) {key : K} :
    index.find? key = none ↔ key ∉ path.map Prod.snd := by
  constructor
  · intro missing member
    obtain ⟨⟨slot, _⟩, listed, rfl⟩ := List.mem_map.mp member
    rw [(indexed.find _ slot).mpr listed] at missing
    cases missing
  · intro missing
    refine Option.eq_none_iff_forall_ne_some.mpr fun slot found => missing ?_
    exact List.mem_map_of_mem ((indexed.find key slot).mp found)

/-- A path without repeated slots has no repeated keys, because a key has one slot. -/
theorem Indexed.keys_nodup (indexed : Indexed index path)
    (distinct : (path.map Prod.fst).Nodup) : (path.map Prod.snd).Nodup := by
  refine distinct.of_map.map_on fun one first other second same => ?_
  have found := (indexed.find one.2 one.1).mpr first
  rw [same, (indexed.find other.2 other.1).mpr second] at found
  exact Prod.ext (Option.some.inj found).symm same

theorem Indexed.size_eq (indexed : Indexed index path) (distinct : (path.map Prod.fst).Nodup) :
    index.size = path.length := by
  have same : ∀ key, key ∈ index.keys ↔ key ∈ path.map Prod.snd := fun key => by
    rw [← not_iff_not, ← Table.find?_eq_none, indexed.find_none]
  have permuted := (List.perm_ext_iff_of_nodup indexed.distinct
    (indexed.keys_nodup distinct)).mpr same
  simpa using permuted.length_eq

theorem Indexed.insert (indexed : Indexed index path) {slot : Nat} {key : K}
    (fresh : key ∉ path.map Prod.snd) : Indexed (index.insert key slot) ((slot, key) :: path) where
  distinct := indexed.distinct.insert key slot
  find other otherSlot := by
    rw [Table.find?_insert, List.mem_cons, Prod.mk.injEq]
    split
    case isTrue same =>
      have missing : (otherSlot, key) ∉ path := fun listed => fresh (List.mem_map_of_mem listed)
      simp [same, missing, eq_comm]
    case isFalse different =>
      simp [different, indexed.find]

theorem Indexed.erase {newer older : List (Nat × K)} {slot : Nat} {key : K}
    (indexed : Indexed index (newer ++ (slot, key) :: older))
    (distinct : ((newer ++ (slot, key) :: older).map Prod.fst).Nodup) :
    Indexed (index.erase key) (newer ++ older) where
  distinct := indexed.distinct.erase key
  find other otherSlot := by
    have keys := indexed.keys_nodup distinct
    rw [List.map_append, List.map_cons, List.nodup_middle, List.nodup_cons,
      ← List.map_append] at keys
    rw [Table.find?_erase]
    split
    case isTrue same =>
      subst same
      have fresh : other ∉ (newer ++ older).map Prod.snd := keys.1
      have missing : (otherSlot, other) ∉ newer ++ older := fun listed =>
        fresh (List.mem_map_of_mem listed)
      simpa using missing
    case isFalse different =>
      simp only [indexed.find, List.mem_append, List.mem_cons, Prod.mk.injEq, different, and_false,
        false_or]

end Index

/-! ### Orders of slots and keys -/

variable [DecidableEq K]

/-- Links, slots and index of the order agree on the path. -/
structure Holds (list : RecencyOrder K) (path : List (Nat × K)) : Prop where
  linked : Linked list path
  housed : Housed list (path.map Prod.fst)
  indexed : Indexed list.index path

section Path

variable {list : RecencyOrder K} {path newer older : List (Nat × K)} {slot : Nat} {key : K}

theorem Holds.empty : Holds (RecencyOrder.empty : RecencyOrder K) [] :=
  ⟨Linked.empty, Housed.empty, Indexed.empty⟩

/-- A node on the path moves to the front of the path. -/
theorem Holds.moveToFront (holds : Holds list (newer ++ (slot, key) :: older)) :
    Holds (list.moveToFront slot) ((slot, key) :: (newer ++ older)) := by
  obtain ⟨notNewer, notOlder⟩ := slot_once holds.linked.distinct
  have permuted : ∀ entry, entry ∈ (slot, key) :: (newer ++ older) ↔
      entry ∈ newer ++ (slot, key) :: older := fun entry => List.perm_middle.mem_iff.symm
  unfold RecencyOrder.moveToFront
  split
  case isTrue already =>
    rw [holds.linked.front] at already
    cases newer with
    | nil => exact holds
    | cons entry rest =>
      have same : entry.1 = slot := by simpa using already
      exact absurd (by simp [same]) notNewer
  case isFalse =>
    have off : slot ∉ (newer ++ older).map Prod.fst := by
      rw [List.map_append, List.mem_append]
      exact fun member => member.elim notNewer notOlder
    have found : (list.detach slot).node? slot = some ⟨key, none, none⟩ := by
      rw [node?_detach list (holds.linked.node rfl), if_pos rfl]
    have relinked := (relinked_detach list slot).trans (relinked_attachFront _ slot)
    constructor
    · exact holds.linked.detach.attachFront found off
    · refine (holds.housed.relinked relinked).congr fun other => ?_
      exact (List.perm_middle.map Prod.fst).mem_iff.symm
    · rw [relinked.index]
      exact holds.indexed.congr permuted

/-- A new key becomes the front of the path. -/
theorem Holds.use_fresh (holds : Holds list path) (fresh : key ∉ path.map Prod.snd) :
    (list.use key).1 = true ∧
      Holds (list.use key).2 (((list.allocate { key }).1, key) :: path) := by
  obtain ⟨off, allocated, housed⟩ := holds.housed.allocate { key }
  have relinked := relinked_attachFront (list.allocate { key }).2 (list.allocate { key }).1
  have linked := (holds.linked.allocated off allocated).attachFront allocated.node off
  have indexed : Indexed (list.index.insert key (list.allocate { key }).1)
      (((list.allocate { key }).1, key) :: path) := holds.indexed.insert fresh
  rw [← allocated.index, ← relinked.index] at indexed
  unfold RecencyOrder.use
  rw [holds.indexed.find_none.mpr fresh]
  exact ⟨rfl, linked.withIndex _, (housed.relinked relinked).withIndex _, indexed⟩

/-- A new key becomes the back of the path. -/
theorem Holds.pushBack_fresh (holds : Holds list path) (fresh : key ∉ path.map Prod.snd) :
    (list.pushBack key).1 = true ∧
      Holds (list.pushBack key).2 (path ++ [((list.allocate { key }).1, key)]) := by
  obtain ⟨off, allocated, housed⟩ := holds.housed.allocate { key }
  have relinked := relinked_attachBack (list.allocate { key }).2 (list.allocate { key }).1
  have linked := (holds.linked.allocated off allocated).attachBack allocated.node off
  have rehoused : Housed _ ((path ++ [((list.allocate { key }).1, key)]).map Prod.fst) :=
    (housed.relinked relinked).congr fun other => by simp [or_comm]
  have indexed : Indexed (list.index.insert key (list.allocate { key }).1)
      (path ++ [((list.allocate { key }).1, key)]) :=
    (holds.indexed.insert fresh).congr fun entry => by simp [or_comm]
  rw [← allocated.index, ← relinked.index] at indexed
  unfold RecencyOrder.pushBack
  rw [holds.indexed.find_none.mpr fresh]
  exact ⟨rfl, linked.withIndex _, rehoused.withIndex _, indexed⟩

/-- The last key leaves the path. -/
theorem Holds.popBack (holds : Holds list (newer ++ [(slot, key)])) :
    list.popBack.1 = some key ∧ Holds list.popBack.2 newer := by
  obtain ⟨answer, index, linked, housed⟩ := holds.linked.vacate holds.housed
  have erased := holds.indexed.erase holds.linked.distinct
  have back : list.back = some slot := by simp [holds.linked.back]
  have vacated : list.vacate slot = (some key, (list.vacate slot).2) := Prod.ext answer rfl
  rw [List.append_nil] at linked housed erased
  rw [← index] at erased
  unfold RecencyOrder.popBack
  rw [back]
  simp only
  rw [vacated]
  exact ⟨rfl, linked.withIndex _, housed.withIndex _, erased⟩

/-- A key leaves the path. -/
theorem Holds.erase_tracked (holds : Holds list (newer ++ (slot, key) :: older)) :
    (list.erase key).1 = true ∧ Holds (list.erase key).2 (newer ++ older) := by
  obtain ⟨-, index, linked, housed⟩ := (holds.linked.withIndex (list.index.erase key)).vacate
    (holds.housed.withIndex (list.index.erase key))
  have found : list.index.find? key = some slot := (holds.indexed.find key slot).mpr (by simp)
  unfold RecencyOrder.erase
  rw [found]
  refine ⟨rfl, linked, housed, ?_⟩
  rw [index]
  exact holds.indexed.erase holds.linked.distinct

theorem Holds.keys_nodup (holds : Holds list path) : (path.map Prod.snd).Nodup :=
  holds.indexed.keys_nodup holds.linked.distinct

theorem Holds.toList (holds : Holds list path) : list.toList = path.map Prod.snd := by
  have enough := holds.housed.length_le holds.linked.distinct
  rw [List.length_map] at enough
  have whole : path = [] ++ path := rfl
  rw [RecencyOrder.toList, holds.linked.front]
  exact holds.linked.keysFrom whole enough

end Path

/-! ### Orders of keys -/

/-- The order is the list of keys, the most recently used one first. -/
def Represents (list : RecencyOrder K) (keys : List K) : Prop :=
  ∃ path, Holds list path ∧ path.map Prod.snd = keys

/-- A key that is used anew if it is tracked does not change which keys are tracked. -/
theorem touched_perm (keys : List K) (key : K) :
    (if key ∈ keys then key :: keys.erase key else keys).Perm keys := by
  split
  case isTrue member => exact (List.perm_cons_erase member).symm
  case isFalse => exact List.Perm.refl _

namespace Represents

variable {list : RecencyOrder K} {keys : List K}

theorem empty : Represents (RecencyOrder.empty : RecencyOrder K) [] := ⟨[], Holds.empty, rfl⟩

theorem nodup (represents : Represents list keys) : keys.Nodup := by
  obtain ⟨path, holds, rfl⟩ := represents
  exact holds.keys_nodup

theorem toList (represents : Represents list keys) : list.toList = keys := by
  obtain ⟨path, holds, rfl⟩ := represents
  exact holds.toList

theorem length (represents : Represents list keys) : list.length = keys.length := by
  obtain ⟨path, holds, rfl⟩ := represents
  rw [RecencyOrder.length, holds.indexed.size_eq holds.linked.distinct, List.length_map]

/-- A tracked key splits the path at its slot. -/
theorem split (represents : Represents list keys) {key : K} (member : key ∈ keys) :
    ∃ newer slot older, Holds list (newer ++ (slot, key) :: older) ∧
      list.index.find? key = some slot ∧
      keys.erase key = (newer ++ older).map Prod.snd := by
  obtain ⟨path, holds, rfl⟩ := represents
  obtain ⟨⟨slot, other⟩, listed, same⟩ := List.mem_map.mp member
  obtain rfl : other = key := same
  obtain ⟨newer, older, rfl⟩ := List.append_of_mem listed
  have nodup := holds.keys_nodup
  rw [List.map_append, List.map_cons] at nodup
  have notNewer : other ∉ newer.map Prod.snd := fun listed =>
    (List.nodup_append.mp nodup).2.2 other listed other List.mem_cons_self rfl
  refine ⟨newer, slot, older, holds, (holds.indexed.find _ _).mpr (by simp), ?_⟩
  rw [List.map_append, List.map_cons, List.map_append, List.erase_append_right _ notNewer,
    List.erase_cons_head]

/-- An untracked key is not in the index. -/
theorem find_none (represents : Represents list keys) {key : K} (missing : key ∉ keys) :
    list.index.find? key = none := by
  obtain ⟨path, holds, rfl⟩ := represents
  exact holds.indexed.find_none.mpr missing

/-- Using a key makes it the first one, wherever it was. -/
theorem use (represents : Represents list keys) (key : K) :
    (list.use key).1 = decide (key ∉ keys) ∧
      Represents (list.use key).2 (key :: keys.erase key) := by
  by_cases member : key ∈ keys
  · obtain ⟨newer, slot, older, holds, found, erased⟩ := represents.split member
    unfold RecencyOrder.use
    rw [found, erased]
    exact ⟨by simp [member], _, holds.moveToFront, rfl⟩
  · rw [List.erase_of_not_mem member]
    obtain ⟨path, holds, rfl⟩ := represents
    obtain ⟨answer, used⟩ := holds.use_fresh member
    exact ⟨by simp [answer, member], _, used, rfl⟩

/-- Touching a key makes it the first one if it is tracked. -/
theorem touch (represents : Represents list keys) (key : K) :
    (list.touch key).1 = decide (key ∈ keys) ∧
      Represents (list.touch key).2 (if key ∈ keys then key :: keys.erase key else keys) := by
  unfold RecencyOrder.touch
  by_cases member : key ∈ keys
  · obtain ⟨newer, slot, older, holds, found, erased⟩ := represents.split member
    rw [found, if_pos member, erased]
    exact ⟨by simp [member], _, holds.moveToFront, rfl⟩
  · rw [represents.find_none member, if_neg member]
    exact ⟨by simp [member], represents⟩

/-- Pushing a key back makes it the last one if it is not tracked. -/
theorem pushBack (represents : Represents list keys) (key : K) :
    (list.pushBack key).1 = decide (key ∉ keys) ∧
      Represents (list.pushBack key).2 (if key ∈ keys then keys else keys ++ [key]) := by
  by_cases member : key ∈ keys
  · obtain ⟨newer, slot, older, holds, found, erased⟩ := represents.split member
    unfold RecencyOrder.pushBack
    rw [found, if_pos member]
    exact ⟨by simp [member], represents⟩
  · rw [if_neg member]
    obtain ⟨path, holds, rfl⟩ := represents
    obtain ⟨answer, pushed⟩ := holds.pushBack_fresh member
    exact ⟨by simp [answer, member], _, pushed, by simp⟩

theorem pushBack_untracked (represents : Represents list keys) {key : K} (untracked : key ∉ keys) :
    (list.pushBack key).1 = true ∧ Represents (list.pushBack key).2 (keys ++ [key]) := by
  obtain ⟨answer, pushed⟩ := represents.pushBack key
  rw [if_neg untracked] at pushed
  exact ⟨by simp [answer, untracked], pushed⟩

/-- Popping takes the last key, if there is one. -/
theorem popBack (represents : Represents list keys) :
    list.popBack.1 = keys.getLast? ∧ Represents list.popBack.2 keys.dropLast := by
  obtain ⟨path, holds, rfl⟩ := represents
  cases path using List.reverseRecOn with
  | nil =>
    unfold RecencyOrder.popBack
    rw [holds.linked.back]
    exact ⟨rfl, [], holds, rfl⟩
  | append_singleton newer entry =>
    obtain ⟨answer, popped⟩ := Holds.popBack holds
    exact ⟨by simp [answer], newer, popped, by simp⟩

/-- Erasing a key stops tracking it. -/
theorem erase (represents : Represents list keys) (key : K) :
    (list.erase key).1 = decide (key ∈ keys) ∧ Represents (list.erase key).2 (keys.erase key) := by
  by_cases member : key ∈ keys
  · obtain ⟨newer, slot, older, holds, found, erased⟩ := represents.split member
    obtain ⟨answer, without⟩ := holds.erase_tracked
    exact ⟨by simp [answer, member], _, without, erased.symm⟩
  · unfold RecencyOrder.erase
    rw [represents.find_none member, List.erase_of_not_mem member]
    exact ⟨by simp [member], represents⟩

end Represents

end LayeredCache.RecencyOrder
