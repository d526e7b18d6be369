/-
This file holds the plain recency cache: one table whose entries stand in order of use, and one
bound. It has no layers, no memory and no failures, and is what a stack of layers is compared with.

The second half is about the keys that a recency layer tracks above a delegate that behaves like a
plain cache with a bound of its own. The layer may track keys that the delegate no longer stores.
`Tracking` says that the stored keys stand among the tracked ones in the same order, and that there
are no more stale keys than the layer's capacity exceeds the bound by. Then a put overflows the
layer only while the delegate is full, and the victim is a key that is due to leave anyway.
-/

import Mathlib.Data.List.Induction
import LayeredCache.Proofs.Distinct
import LayeredCache.Proofs.Usage

namespace LayeredCache

/-! ### Tables in order of use -/

namespace Table

variable {K X Y : Type}

/-- The table without its last entry, if it has more entries than the bound allows. -/
def cut (bound : Option Nat) (table : Table K X) : Table K X :=
  match bound with
  | none => table
  | some most => if most < table.size then ⟨table.entries.dropLast⟩ else table

@[simp] theorem keys_dropLast (table : Table K X) :
    (⟨table.entries.dropLast⟩ : Table K X).keys = table.keys.dropLast := by
  simp [keys, List.map_dropLast]

theorem size_dropLast (table : Table K X) :
    (⟨table.entries.dropLast⟩ : Table K X).size = table.size - 1 := by
  simp [size]

/-- A table within the bound is not cut. -/
theorem cut_of_le {most : Nat} {table : Table K X} (fits : table.size ≤ most) :
    table.cut (some most) = table := if_neg (Nat.not_lt.mpr fits)

theorem cut_of_lt {most : Nat} {table : Table K X} (overflows : most < table.size) :
    table.cut (some most) = ⟨table.entries.dropLast⟩ := if_pos overflows

/-- Either the last entry is dropped, or the table is within the bound. -/
theorem cut_cases (bound : Option Nat) (table : Table K X) :
    table.cut bound = ⟨table.entries.dropLast⟩ ∨
      table.cut bound = table ∧ ∀ most, bound = some most → table.size ≤ most := by
  cases bound with
  | none => exact Or.inr ⟨rfl, fun _ same => by cases same⟩
  | some most =>
    by_cases overflows : most < table.size
    · exact Or.inl (cut_of_lt overflows)
    · have fits : table.size ≤ most := Nat.not_lt.mp overflows
      exact Or.inr ⟨cut_of_le fits, fun _ same => Option.some.inj same ▸ fits⟩

theorem keys_cut_sublist (bound : Option Nat) (table : Table K X) :
    (table.cut bound).keys.Sublist table.keys := by
  rcases cut_cases bound table with cut | ⟨cut, -⟩
  · rw [cut, keys_dropLast]
    exact List.dropLast_sublist _
  · rw [cut]

/-- A table with at most one entry too many keeps its first entries. -/
theorem cut_eq_take {most : Nat} {table : Table K X} (few : table.size ≤ most + 1) :
    table.cut (some most) = ⟨table.entries.take most⟩ := by
  have length : table.entries.length ≤ most + 1 := few
  by_cases overflows : most < table.entries.length
  · have rest : table.entries.length - 1 = most := by omega
    rw [cut_of_lt overflows, List.dropLast_eq_take, rest]
  · have fits : table.entries.length ≤ most := Nat.not_lt.mp overflows
    rw [cut_of_le fits, List.take_of_length_le fits]

theorem mapItems_cut (change : X → Y) (bound : Option Nat) (table : Table K X) :
    (table.cut bound).mapItems change = (table.mapItems change).cut bound := by
  unfold cut
  split
  case h_1 => rfl
  case h_2 most =>
    have same : (table.mapItems change).size = table.size := by simp [mapItems, size]
    rw [same]
    split
    case isTrue => simp [mapItems, List.map_dropLast]
    case isFalse => rfl

variable [DecidableEq K]

/-! ### Use -/

/-- The table with the entry of the key in front, if there is one. -/
def touch (table : Table K X) (key : K) : Table K X :=
  match table.find? key with
  | none => table
  | some item => table.insert key item

theorem mapItems_touch (change : X → Y) (table : Table K X) (key : K) :
    (table.touch key).mapItems change = (table.mapItems change).touch key := by
  unfold touch
  rw [find?_mapItems]
  cases table.find? key with
  | none => rfl
  | some item => exact mapItems_insert change table key item

theorem find?_touch (table : Table K X) (key other : K) :
    (table.touch key).find? other = table.find? other := by
  unfold touch
  split
  case h_1 => rfl
  case h_2 item found =>
    rw [find?_insert]
    split
    case isTrue same => rw [same, found]
    case isFalse => rfl

theorem Distinct.touch {table : Table K X} (distinct : table.Distinct) (key : K) :
    (table.touch key).Distinct := by
  unfold Table.touch
  split
  case h_1 => exact distinct
  case h_2 item _ => exact distinct.insert key item

/-- An entry that is not cut off is found as before. -/
theorem Distinct.find?_cut {table : Table K X} (distinct : table.Distinct) {bound : Option Nat}
    {key : K} (kept : key ∈ (table.cut bound).keys) :
    (table.cut bound).find? key = table.find? key := by
  obtain ⟨item, found⟩ := mem_keys.mp kept
  have listed : (key, item) ∈ table.entries := by
    have cut := mem_entries_of_find? found
    rcases cut_cases bound table with same | ⟨same, -⟩
    · rw [same] at cut
      exact (List.dropLast_sublist _).subset cut
    · rwa [same] at cut
  rw [found, distinct.find?_eq_some.mpr listed]

theorem erase_of_missing {table : Table K X} {key : K} (missing : key ∉ table.keys) :
    table.erase key = table := by
  obtain ⟨entries⟩ := table
  simp only [erase, Table.mk.injEq, List.filter_eq_self, decide_eq_true_eq]
  rintro entry listed rfl
  exact missing (List.mem_map_of_mem listed)

/-- Erasing the last key drops the last entry. -/
theorem Distinct.erase_last {table : Table K X} (distinct : table.Distinct) {front : List K}
    {last : K} (keys : table.keys = front ++ [last]) :
    table.erase last = ⟨table.entries.dropLast⟩ := by
  obtain ⟨entries⟩ := table
  cases entries using List.reverseRecOn with
  | nil => simp [Table.keys] at keys
  | append_singleton rest entry =>
    have same : rest.map Prod.fst = front ∧ entry.1 = last := by
      simpa [Table.keys] using keys
    obtain ⟨rfl, rfl⟩ := same
    have nodup : (rest.map Prod.fst ++ [entry.1]).Nodup := by
      simpa [Distinct, Table.keys] using distinct
    have missing : entry.1 ∉ (⟨rest⟩ : Table K X).keys := by
      rw [List.nodup_append] at nodup
      exact fun listed => nodup.2.2 _ listed _ (by simp) rfl
    have kept : rest.filter (fun other => other.1 ≠ entry.1) = rest :=
      congrArg Table.entries (erase_of_missing missing)
    simp only [Table.erase, List.filter_append, kept, List.dropLast_concat]
    simp

end Table

/-! ### The plain recency cache -/

namespace Recent

variable {K X : Type}

section Reference

variable [DecidableEq K]

/-- What a plain recency cache with the bound answers to a call, and the table it goes on with. -/
def reply (bound : Option Nat) (table : Table K X) : Call K X → Reply X × Table K X
  | .put key item => (.done, (table.insert key item).cut bound)
  | .get key => (.item (table.find? key), table.touch key)
  | .remove key => (.item (table.find? key), table.erase key)
  | .clear => (.done, Table.empty)
  | .length => (.count table.size, table)
  | .isEmpty => (.flag (table.size == 0), table)

/-- The answers to calls made one after the other, and the last table. -/
def replies (bound : Option Nat) : Table K X → List (Call K X) → List (Reply X) × Table K X
  | table, [] => ([], table)
  | table, call :: rest =>
    let (answer, next) := reply bound table call
    let (answers, last) := replies bound next rest
    (answer :: answers, last)

end Reference

/-! ### Keys tracked above a delegate with a bound -/

/-- The bound of a delegate together with the capacity of a recency layer on top of it. -/
def tighten (bound : Option Nat) (capacity : Nat) : Option Nat :=
  match bound with
  | none => some capacity
  | some most => some (min most capacity)

/-- How many stale keys a recency layer may track on top of a delegate with the bound. -/
def slack (bound : Option Nat) (capacity : Nat) : Nat :=
  match bound with
  | none => 0
  | some most => capacity - most

/-- The stored keys stand among the tracked ones in the same order, the capacity is kept, and few
enough tracked keys are stale. -/
structure Tracking (bound : Option Nat) (capacity : Nat) (keys : List K) (table : Table K X) :
    Prop where
  nodup : keys.Nodup
  stored : table.keys.Sublist keys
  fits : keys.length ≤ capacity
  stale : keys.length ≤ table.size + slack bound capacity

namespace Tracking

variable {bound : Option Nat} {capacity : Nat} {keys : List K} {table : Table K X}

theorem empty : Tracking bound capacity [] (Table.empty : Table K X) where
  nodup := List.nodup_nil
  stored := List.Sublist.refl _
  fits := Nat.zero_le _
  stale := Nat.zero_le _

theorem distinct (tracking : Tracking bound capacity keys table) : table.Distinct :=
  tracking.nodup.sublist tracking.stored

/-- What stands among keys still does without the last of both. -/
theorem dropLast_sublist {some front : List K} {last : K}
    (stands : some.Sublist (front ++ [last])) :
    some.dropLast.Sublist front := by
  obtain ⟨early, late, rfl, inFront, inLast⟩ := List.sublist_append_iff.mp stands
  rcases List.sublist_singleton.mp inLast with rfl | rfl
  · rw [List.append_nil]
    exact (List.dropLast_sublist early).trans inFront
  · rwa [List.dropLast_concat]

variable [DecidableEq K]

theorem erase_eq_filter (nodup : keys.Nodup) (key : K) :
    keys.erase key = keys.filter (· ≠ key) := by
  rw [nodup.erase_eq_filter]
  exact List.filter_congr fun other _ => by by_cases same : other = key <;> simp [same]

/-- The keys after a key was used: it comes first, and was somewhere before or is new. -/
theorem used_nodup (nodup : keys.Nodup) (key : K) : (key :: keys.erase key).Nodup :=
  List.nodup_cons.mpr ⟨nodup.not_mem_erase, nodup.erase key⟩

theorem length_used (keys : List K) (key : K) :
    (key :: keys.erase key).length = if key ∈ keys then keys.length else keys.length + 1 := by
  rw [List.length_cons, List.length_erase]
  split
  case isTrue member =>
    have positive := List.length_pos_of_mem member
    omega
  case isFalse => rfl

/-- An insertion grows the table by at least what the use grows the tracked keys by. -/
theorem insert_grows (tracking : Tracking bound capacity keys table) (key : K) (item : X) :
    (key :: keys.erase key).length + table.size ≤ (table.insert key item).size + keys.length := by
  have size : (table.insert key item).size = (key :: table.keys.erase key).length := by
    rw [← Table.keys_length, Table.keys_insert, erase_eq_filter tracking.distinct]
  rw [size, length_used, length_used, Table.keys_length]
  by_cases stored : key ∈ table.keys
  · simp [stored, tracking.stored.subset stored]
    omega
  · simp only [stored, if_false]
    split <;> omega

/-- The inserted keys stand among the used ones. -/
theorem insert_stored (tracking : Tracking bound capacity keys table) (key : K) (item : X) :
    (table.insert key item).keys.Sublist (key :: keys.erase key) := by
  rw [Table.keys_insert, erase_eq_filter tracking.nodup]
  exact (tracking.stored.filter _).cons_cons key

/-- A put that the layer's capacity allows for leaves the table that the tightened bound does. -/
theorem put_fits (tracking : Tracking bound capacity keys table) (key : K) (item : X)
    (fits : (key :: keys.erase key).length ≤ capacity) :
    (table.insert key item).cut bound = (table.insert key item).cut (tighten bound capacity) ∧
      Tracking bound capacity (key :: keys.erase key) ((table.insert key item).cut bound) := by
  have grows := tracking.insert_grows key item
  have stored := tracking.insert_stored key item
  have few := tracking.stale
  have size : (table.insert key item).size ≤ capacity := by
    rw [← Table.keys_length]
    exact Nat.le_trans stored.length_le fits
  cases bound with
  | none =>
    refine ⟨(Table.cut_of_le size).symm, used_nodup tracking.nodup key, stored, fits, ?_⟩
    simp only [slack, Table.cut] at few ⊢
    omega
  | some most =>
    simp only [slack] at few
    constructor
    · by_cases less : most ≤ capacity
      · rw [tighten, Nat.min_eq_left less]
      · rw [tighten, Nat.min_eq_right (by omega), Table.cut_of_le size, Table.cut_of_le (by omega)]
    · refine ⟨used_nodup tracking.nodup key, (Table.keys_cut_sublist _ _).trans stored, fits, ?_⟩
      simp only [slack]
      by_cases overflows : most < (table.insert key item).size
      · rw [Table.cut_of_lt overflows, Table.size_dropLast]
        omega
      · rw [Table.cut_of_le (by omega)]
        omega

/-- A put that overflows the capacity does so with a new key while the delegate is full. The
victim is the key that leaves the table with the tightened bound, or one that has left it. -/
theorem put_over (tracking : Tracking bound capacity keys table) (key : K) (item : X)
    (overflows : capacity < (key :: keys.erase key).length) :
    ∃ victim, (key :: keys.erase key).getLast? = some victim ∧
      ((table.insert key item).cut bound).erase victim =
        (table.insert key item).cut (tighten bound capacity) ∧
      Tracking bound capacity (key :: keys.erase key).dropLast
        ((table.insert key item).cut (tighten bound capacity)) := by
  have fits := tracking.fits
  have few := tracking.stale
  have grows := tracking.insert_grows key item
  have stored := tracking.insert_stored key item
  have nodup := used_nodup tracking.nodup key
  have size : (table.insert key item).size ≤ (key :: keys.erase key).length := by
    rw [← Table.keys_length]
    exact stored.length_le
  have used := length_used keys key
  have new : key ∉ keys := by
    intro member
    rw [if_pos member] at used
    omega
  rw [if_neg new] at used
  have dropped : (table.insert key item).cut (tighten bound capacity) =
      ⟨(table.insert key item).entries.dropLast⟩ := by
    cases bound with
    | none =>
      simp only [slack] at few
      exact Table.cut_of_lt (by omega)
    | some most =>
      simp only [slack] at few
      exact Table.cut_of_lt (by omega)
  obtain ⟨front, victim, same⟩ : ∃ front victim, key :: keys.erase key = front ++ [victim] :=
    (List.eq_nil_or_concat' _).resolve_left (List.cons_ne_nil _ _)
  rw [same] at stored nodup size grows used overflows ⊢
  rw [List.length_append, List.length_singleton] at size grows used overflows
  have apart := List.nodup_append.mp nodup
  have within : (⟨(table.insert key item).entries.dropLast⟩ : Table K X).keys.Sublist front := by
    rw [Table.keys_dropLast]
    exact dropLast_sublist stored
  rw [dropped, List.dropLast_concat]
  refine ⟨victim, List.getLast?_concat, ?_, apart.1, within, by omega, ?_⟩
  · -- Either the delegate has dropped the last key itself, or that is the victim.
    rcases Table.cut_cases bound (table.insert key item) with cut | ⟨cut, below⟩
    · rw [cut]
      refine Table.erase_of_missing fun member => ?_
      exact apart.2.2 victim (within.subset member) victim (List.mem_singleton_self _) rfl
    · rw [cut]
      refine (tracking.distinct.insert key item).erase_last (stored.eq_of_length ?_)
      rw [Table.keys_length, List.length_append, List.length_singleton]
      cases bound with
      | none =>
        simp only [slack] at few
        omega
      | some most =>
        simp only [slack] at few
        have above := below most rfl
        omega
  · rw [Table.size_dropLast]
    omega

/-- A look-up moves the key to the front of the tracked keys, and of the table if it is stored. -/
theorem touch (tracking : Tracking bound capacity keys table) (key : K) :
    Tracking bound capacity (if key ∈ keys then key :: keys.erase key else keys)
      (table.touch key) := by
  by_cases stored : key ∈ table.keys
  · obtain ⟨item, found⟩ := Table.mem_keys.mp stored
    have tracked := tracking.stored.subset stored
    have same := length_used keys key
    have grows := tracking.insert_grows key item
    have few := tracking.stale
    have fits := tracking.fits
    have moved : table.touch key = table.insert key item := by
      unfold Table.touch
      rw [found]
    rw [if_pos tracked] at same ⊢
    rw [moved]
    exact ⟨used_nodup tracking.nodup key, tracking.insert_stored key item, by omega, by omega⟩
  · have missing : table.touch key = table := by
      unfold Table.touch
      rw [Table.find?_eq_none.mpr stored]
    rw [missing]
    split
    case isFalse => exact tracking
    case isTrue tracked =>
      have same := length_used keys key
      rw [if_pos tracked] at same
      refine ⟨used_nodup tracking.nodup key, ?_, same ▸ tracking.fits, same ▸ tracking.stale⟩
      have kept : table.keys.erase key = table.keys := List.erase_of_not_mem stored
      exact (kept ▸ tracking.stored.erase key).cons key

/-- A removal takes the key out of the tracked keys and of the table. -/
theorem erase (tracking : Tracking bound capacity keys table) (key : K) :
    Tracking bound capacity (keys.erase key) (table.erase key) := by
  have few := tracking.stale
  have erased : (table.erase key).keys = table.keys.erase key := by
    rw [Table.keys_erase, erase_eq_filter tracking.distinct]
  have size := congrArg List.length erased
  rw [Table.keys_length, List.length_erase, Table.keys_length] at size
  refine ⟨tracking.nodup.erase key, ?_, ?_, ?_⟩
  · rw [erased]
    exact tracking.stored.erase key
  · exact Nat.le_trans List.length_erase_le tracking.fits
  · rw [size, List.length_erase]
    by_cases stored : key ∈ table.keys
    · rw [if_pos stored, if_pos (tracking.stored.subset stored)]
      omega
    · rw [if_neg stored]
      split <;> omega

end Tracking

end Recent

end LayeredCache
