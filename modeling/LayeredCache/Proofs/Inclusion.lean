/-
This file proves that a recency cache never loses by being larger: it has every key that a smaller
one has after the same calls, in the same order, and answers every hit of the smaller one alike.

The larger cache reorders keys that the smaller one has lost, and removals open holes in both, so
neither order begins like the other. What survives is that the smaller cache stands to the larger
one as a delegate with a bound stands to a recency layer on top of it, which `Recent.Tracking` says:
its keys are some of the others in their order, and the others are not too many. An eviction in one
cache or in both keeps this.
-/

import LayeredCache.Proofs.Collapse
import LayeredCache.Proofs.Views

namespace LayeredCache

variable {K V : Type} [DecidableEq K]

/-! ### Plain caches with different bounds -/

namespace Table

variable {X : Type} {table : Table K X}

theorem Distinct.keys_insert_eq (distinct : table.Distinct) (key : K) (item : X) :
    (table.insert key item).keys = key :: table.keys.erase key := by
  rw [keys_insert, Recent.Tracking.erase_eq_filter distinct]

theorem Distinct.keys_erase_eq (distinct : table.Distinct) (key : K) :
    (table.erase key).keys = table.keys.erase key := by
  rw [keys_erase, Recent.Tracking.erase_eq_filter distinct]

theorem Distinct.keys_touch (distinct : table.Distinct) (key : K) :
    (table.touch key).keys =
      if key ∈ table.keys then key :: table.keys.erase key else table.keys := by
  unfold Table.touch
  split
  case h_1 missing => rw [if_neg (find?_eq_none.mp missing)]
  case h_2 item found =>
    rw [if_pos (mem_keys.mpr ⟨item, found⟩), distinct.keys_insert_eq]

end Table

namespace Recent

variable {X : Type}

/-- The larger cache has the keys of the smaller one in their order, no more others than its bound
exceeds the other one by, and the same items under the keys of both. -/
structure Includes (fewer more : Nat) (small large : Table K X) : Prop where
  tracking : Tracking (some fewer) more large.keys small
  items : Less small.find? large.find?

/-- An item that is answered by the one is answered by the other. -/
def Confirms (one other : Reply X) : Prop :=
  ∀ item, one = .item (some item) → other = .item (some item)

namespace Includes

variable {fewer more : Nat} {small large : Table K X}

theorem empty : Includes fewer more (Table.empty : Table K X) Table.empty :=
  ⟨Tracking.empty, Less.refl _⟩

theorem distinct (includes : Includes fewer more small large) : large.Distinct :=
  includes.tracking.nodup

/-- The smaller cache may drop its last entry when the larger one does, and may do so alone when it
is full. -/
theorem put (includes : Includes fewer more small large) (ordered : fewer ≤ more) (key : K)
    (item : X) :
    Includes fewer more (reply (some fewer) small (.put key item)).2
      (reply (some more) large (.put key item)).2 := by
  have keys := includes.distinct.keys_insert_eq key item
  have size : (large.insert key item).size = (key :: large.keys.erase key).length := by
    rw [← Table.keys_length, keys]
  have tracking : Tracking (some fewer) more ((large.insert key item).cut (some more)).keys
      ((small.insert key item).cut (some fewer)) := by
    by_cases fits : (key :: large.keys.erase key).length ≤ more
    · obtain ⟨-, next⟩ := includes.tracking.put_fits key item fits
      rwa [Table.cut_of_le (size ▸ fits), keys]
    · have overflows := Nat.not_le.mp fits
      obtain ⟨-, -, -, next⟩ := includes.tracking.put_over key item overflows
      rw [tighten, Nat.min_eq_left ordered] at next
      rwa [Table.cut_of_lt (size ▸ overflows), Table.keys_dropLast, keys]
  refine ⟨tracking, fun other found shown => ?_⟩
  have kept : other ∈ ((small.insert key item).cut (some fewer)).keys :=
    Table.mem_keys.mpr ⟨found, shown⟩
  have inserted : Less (small.insert key item).find? (large.insert key item).find? := by
    rw [Table.find?_insert_eq, Table.find?_insert_eq]
    exact includes.items.placed key item
  rw [reply, (includes.tracking.distinct.insert key item).find?_cut kept] at shown
  rw [reply, (includes.distinct.insert key item).find?_cut (tracking.stored.subset kept)]
  exact inserted other found shown

theorem get (includes : Includes fewer more small large) (key : K) :
    Includes fewer more (small.touch key) (large.touch key) := by
  refine ⟨?_, fun other found shown => ?_⟩
  · rw [includes.distinct.keys_touch]
    exact includes.tracking.touch key
  · rw [Table.find?_touch] at shown ⊢
    exact includes.items other found shown

theorem remove (includes : Includes fewer more small large) (key : K) :
    Includes fewer more (small.erase key) (large.erase key) := by
  refine ⟨?_, fun other found shown => ?_⟩
  · rw [includes.distinct.keys_erase_eq]
    exact includes.tracking.erase key
  · rw [Table.find?_erase] at shown ⊢
    split at shown
    case isTrue => cases shown
    case isFalse different =>
      rw [if_neg different]
      exact includes.items other found shown

/-- One call. -/
theorem reply (includes : Includes fewer more small large) (ordered : fewer ≤ more)
    (call : Call K X) :
    Confirms (Recent.reply (some fewer) small call).1 (Recent.reply (some more) large call).1 ∧
      Includes fewer more (Recent.reply (some fewer) small call).2
        (Recent.reply (some more) large call).2 := by
  have hit : ∀ key, Confirms (.item (small.find? key)) (.item (large.find? key)) :=
    fun key found same => congrArg Reply.item (includes.items key found (Reply.item.inj same))
  cases call with
  | put key item => exact ⟨nofun, includes.put ordered key item⟩
  | get key => exact ⟨hit key, includes.get key⟩
  | remove key => exact ⟨hit key, includes.remove key⟩
  | clear => exact ⟨nofun, empty⟩
  | length => exact ⟨nofun, includes⟩
  | isEmpty => exact ⟨nofun, includes⟩

/-- Calls made one after the other. -/
theorem replies (includes : Includes fewer more small large) (ordered : fewer ≤ more)
    (calls : List (Call K X)) :
    List.Forall₂ Confirms (Recent.replies (some fewer) small calls).1
        (Recent.replies (some more) large calls).1 ∧
      Includes fewer more (Recent.replies (some fewer) small calls).2
        (Recent.replies (some more) large calls).2 := by
  induction calls generalizing small large with
  | nil => exact ⟨.nil, includes⟩
  | cons call rest inductionHypothesis =>
    obtain ⟨first, next⟩ := includes.reply ordered call
    obtain ⟨others, last⟩ := inductionHypothesis next
    exact ⟨.cons first others, last⟩

end Includes

end Recent

/-! ### Recency layers on stores -/

/-- The shape of a recency layer over a store. -/
abbrev Shape.bounded : Shape .value := .lru .store

/-- The machine of such a stack before anything has been done with it. -/
def boundedMachine (id : String) (hasLock : Bool) (capacity : Nat) :
    Machine K V (Shape.bounded.State K V) :=
  { layer := { capacity, delegate := { id, hasLock } } }

omit [DecidableEq K] in
/-- Assembling a recency layer around a store gives this machine. -/
theorem assemble_bounded {id : String} (named : id ≠ "") (hasLock : Bool) {capacity : Nat}
    (positive : 0 < capacity) :
    Stack.assemble id hasLock [.lru capacity] .value =
      .ok (⟨Shape.bounded, (boundedMachine id hasLock capacity).layer⟩ : Stack K V .value) := by
  have store : Stack.assemble id hasLock [] .value =
      .ok (⟨.store, { id, hasLock }⟩ : Stack K V .value) := Stack.ofStore_eq named hasLock
  rw [Stack.assemble, store]
  exact Stack.withLru_eq _ positive

/-- A recency layer over a store answers as the plain cache does, and tracks its keys in its
order. -/
theorem run_bounded (id : String) (hasLock : Bool) (capacity : Nat)
    (calls : List (Call K (Shared V))) :
    let ended := Shape.bounded.run (calls.map .call) (boundedMachine id hasLock capacity)
    let plain := Recent.replies (some capacity) Table.empty calls
    ended.1.map (·.result) = plain.1.map (fun answer => .ok (.reply answer)) ∧
      ended.2.layer.order.toList = plain.2.keys := by
  have follows : (Shape.bounded.cache : Cache K V _ _).Follows (some capacity)
      (LruLayer.Shows Store.Shows none capacity) := LruLayer.follows (follows_store _)
  let machine : Machine K V (Shape.bounded.State K V) := boundedMachine id hasLock capacity
  have start : Shown (LruLayer.Shows Store.Shows none capacity) Table.empty machine.layer
      machine.memory := by
    refine ⟨rfl, ⟨Table.distinct_empty, Table.distinct_empty, fun _ => rfl⟩, [], ?_,
      Recent.Tracking.empty⟩
    exact ⟨rfl, rfl, RecencyOrder.Represents.empty⟩
  obtain ⟨answers, -, -, keys, steady, tracking⟩ := run_follows follows calls start
  refine ⟨answers, steady.order.toList.trans ?_⟩
  exact (tracking.stored.eq_of_length_le (Table.keys_length _ ▸ tracking.stale)).symm

/-- After the same calls the larger of two recency caches tracks the keys of the smaller one in the
same order, and no more others than its capacity exceeds the other one by. Every value that a
look-up or a removal finds in the smaller cache is found in the larger one by the same call. -/
theorem bounded_includes {fewer more : Nat} (ordered : fewer ≤ more) (id other : String)
    (hasLock otherLock : Bool) (calls : List (Call K (Shared V))) :
    let small := Shape.bounded.run (calls.map .call) (boundedMachine id hasLock fewer)
    let large := Shape.bounded.run (calls.map .call) (boundedMachine other otherLock more)
    let tracked := small.2.layer.order.toList
    let alsoTracked := large.2.layer.order.toList
    tracked.Sublist alsoTracked ∧ alsoTracked.length ≤ tracked.length + (more - fewer) ∧
      List.Forall₂ (fun one other => ∀ value,
        one = .ok (.reply (.item (some value))) → other = .ok (.reply (.item (some value))))
        (small.1.map (·.result)) (large.1.map (·.result)) := by
  intro small large tracked alsoTracked
  obtain ⟨smallAnswers, smallKeys⟩ := run_bounded id hasLock fewer calls
  obtain ⟨largeAnswers, largeKeys⟩ := run_bounded other otherLock more calls
  have smallKeys : tracked = _ := smallKeys
  have largeKeys : alsoTracked = _ := largeKeys
  obtain ⟨confirmed, includes⟩ :=
    (Recent.Includes.empty (K := K) (X := Shared V)).replies ordered calls
  rw [smallKeys, largeKeys, smallAnswers, largeAnswers, List.forall₂_map_left_iff,
    List.forall₂_map_right_iff]
  refine ⟨includes.tracking.stored, ?_, confirmed.imp fun one other confirms value same => ?_⟩
  · rw [Table.keys_length (Recent.replies (some fewer) Table.empty calls).2]
    exact includes.tracking.stale
  · have found := confirms value (Outcome.reply.inj (Except.ok.inj same))
    rw [found]

/-- The third put costs the smaller cache a key that the larger one keeps and then makes its
first. -/
def reordered : List (Call Nat (Shared String)) :=
  [.put 1 ⟨0, "one"⟩, .put 2 ⟨1, "two"⟩, .put 3 ⟨2, "three"⟩, .get 1, .remove 3, .get 2]

/-- Once the key that was put last is removed, the two orders differ in the key that was lost. -/
theorem bounded_includes_reordered :
    Stack.assemble "few" false [.lru 2] .value =
        .ok (⟨Shape.bounded, (boundedMachine "few" false 2).layer⟩ : Stack Nat String .value) ∧
      Stack.assemble "many" true [.lru 3] .value =
        .ok (⟨Shape.bounded, (boundedMachine "many" true 3).layer⟩ : Stack Nat String .value) ∧
      2 ≤ 3 ∧
      let small := Shape.bounded.run (reordered.map .call) (boundedMachine "few" false 2)
      let large := Shape.bounded.run (reordered.map .call) (boundedMachine "many" true 3)
      small.2.layer.order.toList = [2] ∧ large.2.layer.order.toList = [2, 1] ∧
        large.2.layer.order.toList.length ≤ small.2.layer.order.toList.length + (3 - 2) ∧
        List.Forall₂ (fun one other => ∀ value,
          one = .ok (.reply (.item (some value))) → other = .ok (.reply (.item (some value))))
          (small.1.map (·.result)) (large.1.map (·.result)) ∧
        (small.1.map (·.result)).getLast? = some (.ok (.reply (.item (some ⟨1, "two"⟩)))) := by
  obtain ⟨-, few, hits⟩ := bounded_includes (by decide : 2 ≤ 3) "few" "many" false true reordered
  exact ⟨assemble_bounded (by decide) false (by decide),
    assemble_bounded (by decide) true (by decide), by decide, by decide +kernel,
    by decide +kernel, few, hits, by decide +kernel⟩

end LayeredCache
