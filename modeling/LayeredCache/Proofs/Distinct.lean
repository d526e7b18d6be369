/-
This file proves what tables say once no key has two entries: an entry is found exactly if it is
listed, and the size of a table counts the keys under which something is found.

Every table of the library starts empty and changes by `insert`, `erase` and `empty` only, so all of
them are distinct.
-/

import Mathlib.Data.List.Nodup
import LayeredCache.Table

namespace LayeredCache.Table

variable {K X : Type}

/-- No key has two entries. -/
def Distinct (table : Table K X) : Prop := table.keys.Nodup

@[simp] theorem keys_length (table : Table K X) : table.keys.length = table.size := by
  simp [keys, size]

theorem distinct_empty : (empty : Table K X).Distinct := List.nodup_nil

/-- The table with every item changed. -/
def mapItems {Y : Type} (change : X → Y) (table : Table K X) : Table K Y :=
  ⟨table.entries.map fun entry => (entry.1, change entry.2)⟩

@[simp] theorem size_mapItems {Y : Type} (change : X → Y) (table : Table K X) :
    (table.mapItems change).size = table.size := by
  simp [mapItems, size]

@[simp] theorem keys_mapItems {Y : Type} (change : X → Y) (table : Table K X) :
    (table.mapItems change).keys = table.keys := by
  simp [mapItems, keys, Function.comp_def]

variable [DecidableEq K]

@[simp] theorem keys_erase (table : Table K X) (key : K) :
    (table.erase key).keys = table.keys.filter (· ≠ key) := by
  simp only [keys, erase, List.filter_map]
  rfl

@[simp] theorem keys_insert (table : Table K X) (key : K) (item : X) :
    (table.insert key item).keys = key :: table.keys.filter (· ≠ key) := by
  rw [← keys_erase]
  rfl

theorem Distinct.erase {table : Table K X} (distinct : table.Distinct) (key : K) :
    (table.erase key).Distinct := by
  unfold Distinct
  rw [keys_erase]
  exact distinct.filter _

theorem Distinct.insert {table : Table K X} (distinct : table.Distinct) (key : K) (item : X) :
    (table.insert key item).Distinct := by
  unfold Distinct
  rw [keys_insert]
  exact List.nodup_cons.mpr ⟨by simp, distinct.filter _⟩

/-! ### Finding and listing -/

/-- What is found is listed. -/
theorem mem_entries_of_find? {table : Table K X} {key : K} {item : X}
    (found : table.find? key = some item) : (key, item) ∈ table.entries := by
  simp only [find?, Option.map_eq_some_iff] at found
  obtain ⟨⟨other, _⟩, listed, rfl⟩ := found
  have same : other = key := by simpa using List.find?_some listed
  exact same ▸ List.mem_of_find?_eq_some listed

/-- Nothing is found exactly under the keys that are not listed. -/
theorem find?_eq_none {table : Table K X} {key : K} :
    table.find? key = none ↔ key ∉ table.keys := by
  simp only [find?, keys, Option.map_eq_none_iff, List.find?_eq_none, decide_eq_true_eq,
    List.mem_map, not_exists, not_and]

/-- A key is listed exactly if something is found under it. -/
theorem mem_keys {table : Table K X} {key : K} :
    key ∈ table.keys ↔ ∃ item, table.find? key = some item := by
  rw [← Option.ne_none_iff_exists', Ne, find?_eq_none, not_not]

/-- What is listed is found, if no key has two entries. -/
theorem Distinct.find?_eq_some {table : Table K X} (distinct : table.Distinct) {key : K}
    {item : X} :
    table.find? key = some item ↔ (key, item) ∈ table.entries := by
  refine ⟨mem_entries_of_find?, fun listed => ?_⟩
  obtain ⟨other, found⟩ := mem_keys.mp (List.mem_map_of_mem listed)
  have same : (key, other) = (key, item) :=
    List.inj_on_of_nodup_map distinct (mem_entries_of_find? found) listed rfl
  rw [found, (Prod.mk.inj same).2]

theorem contains_iff {table : Table K X} {key : K} :
    table.contains key = true ↔ key ∈ table.keys := by
  rw [mem_keys, contains, Option.isSome_iff_exists]

/-- An item is listed exactly if it is found under some key. -/
theorem Distinct.mem_items {table : Table K X} (distinct : table.Distinct) {item : X} :
    item ∈ table.items ↔ ∃ key, table.find? key = some item := by
  simp only [items, List.mem_map, distinct.find?_eq_some, Prod.exists, exists_eq_right]

theorem mem_items_of_find? {table : Table K X} {key : K} {item : X}
    (found : table.find? key = some item) : item ∈ table.items :=
  List.mem_map_of_mem (f := Prod.snd) (mem_entries_of_find? found)

theorem items_erase_sublist (table : Table K X) (key : K) :
    (table.erase key).items.Sublist table.items :=
  List.filter_sublist.map Prod.snd

theorem mem_items_insert {table : Table K X} {key : K} {item other : X}
    (listed : other ∈ (table.insert key item).items) : other = item ∨ other ∈ table.items :=
  (List.mem_cons.mp listed).imp_right fun older => (items_erase_sublist table key).subset older

/-- An erasure takes one entry away if there is one. -/
theorem Distinct.size_erase {table : Table K X} (distinct : table.Distinct) {key : K} {item : X}
    (found : table.find? key = some item) : (table.erase key).size + 1 = table.size := by
  have erased : (table.erase key).keys = table.keys.erase key := by
    rw [keys_erase, List.Nodup.erase_eq_filter distinct]
    exact List.filter_congr fun other _ => by by_cases same : other = key <;> simp [same]
  rw [← keys_length, ← keys_length, erased, List.length_erase_add_one (mem_keys.mpr ⟨item, found⟩)]

/-- What an insertion and an erasure leave to be found. -/
theorem find?_insert (table : Table K X) (key other : K) (item : X) :
    (table.insert key item).find? other = if other = key then some item else table.find? other := by
  split
  case isTrue same => rw [same, find?_insert_self]
  case isFalse different => exact find?_insert_other table item different

theorem find?_erase (table : Table K X) (key other : K) :
    (table.erase key).find? other = if other = key then none else table.find? other := by
  split
  case isTrue same => rw [same, find?_erase_self]
  case isFalse different => exact find?_erase_other table different

/-! ### Changed items -/

section MapItems

variable {Y : Type} (change : X → Y) (table : Table K X)

@[simp] theorem find?_mapItems (key : K) :
    (table.mapItems change).find? key = (table.find? key).map change := by
  simp [mapItems, find?, List.find?_map, Function.comp_def]

theorem mapItems_erase (key : K) :
    (table.erase key).mapItems change = (table.mapItems change).erase key := by
  simp [mapItems, erase, List.filter_map, Function.comp_def]

theorem mapItems_insert (key : K) (item : X) :
    (table.insert key item).mapItems change = (table.mapItems change).insert key (change item) := by
  have erased := congrArg entries (mapItems_erase change table key)
  simp only [mapItems] at erased
  simp [mapItems, insert, erased]

end MapItems

end LayeredCache.Table
