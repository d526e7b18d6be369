/-
This file proves that every kind of layer answers like a plain recency cache as long as nothing is
reclaimed and nothing fails.

`Follows` says that a cache answers like a plain one, with a relation that shows for every state of
the cache the table that the plain cache has got to. A store follows the plain cache without a
bound; a recency layer follows the plain cache with the tightened bound if its delegate follows
some plain cache; a soft layer follows the same plain cache as its delegate, because no value is
ever missing. The relation of a recency layer contains the tracking of stale keys.
-/

import LayeredCache.Proofs.Drains
import LayeredCache.Proofs.Evictions
import LayeredCache.Proofs.Recent

namespace LayeredCache

open LayeredCache.Action

variable {K V σ X : Type} [DecidableEq K]

/-! ### Answering like a plain cache -/

/-- Nothing was reclaimed, and the state shows the table. -/
def Shown (shows : σ → Table K X → Prop) (table : Table K X) (layer : σ) (memory : Memory K V) :
    Prop :=
  memory.reclaimed = [] ∧ shows layer table

/-- No operation fails, and each answers as the plain cache with the bound does. The relation shows
which table the plain cache has got to. -/
structure Cache.Follows (cache : Cache K V σ X) (bound : Option Nat)
    (shows : σ → Table K X → Prop) : Prop where
  put : ∀ layer memory table key item, Shown shows table layer memory →
    (cache.put key item).Leaves layer memory
      (fun _ => Shown shows ((table.insert key item).cut bound)) fun _ _ => False
  get : ∀ layer memory table key, Shown shows table layer memory →
    (cache.get key).Leaves layer memory
      (fun found later memory => found = table.find? key ∧
        Shown shows (table.touch key) later memory)
      fun _ _ => False
  remove : ∀ layer memory table key, Shown shows table layer memory →
    (cache.remove key).Leaves layer memory
      (fun found later memory => found = table.find? key ∧
        Shown shows (table.erase key) later memory)
      fun _ _ => False
  clear : ∀ layer memory table, Shown shows table layer memory →
    cache.clear.Leaves layer memory (fun _ => Shown shows Table.empty) fun _ _ => False
  length : ∀ layer memory table, Shown shows table layer memory →
    cache.length.Leaves layer memory
      (fun number later memory => number = table.size ∧ Shown shows table later memory)
      fun _ _ => False

/-- One call. -/
theorem Cache.Follows.call {cache : Cache K V σ X} {bound : Option Nat}
    {shows : σ → Table K X → Prop} (follows : cache.Follows bound shows) {layer : σ}
    {memory : Memory K V} {table : Table K X} (shown : Shown shows table layer memory)
    (call : Call K X) :
    (cache.call call).Leaves layer memory
      (fun answer later memory => answer = (Recent.reply bound table call).1 ∧
        Shown shows (Recent.reply bound table call).2 later memory)
      fun _ _ => False := by
  intro trace
  cases call with
  | put key item =>
    simp only [Cache.call, ends_bind, ends_pure]
    exact (follows.put _ _ _ key item shown).ends (fun _ _ next => ⟨rfl, next⟩) fun _ _ no => no
  | get key =>
    simp only [Cache.call, ends_bind, ends_pure]
    refine (follows.get _ _ _ key shown).ends (fun _ _ next => ?_) fun _ _ no => no
    exact ⟨congrArg Reply.item next.1, next.2⟩
  | remove key =>
    simp only [Cache.call, ends_bind, ends_pure]
    refine (follows.remove _ _ _ key shown).ends (fun _ _ next => ?_) fun _ _ no => no
    exact ⟨congrArg Reply.item next.1, next.2⟩
  | clear =>
    simp only [Cache.call, ends_bind, ends_pure]
    exact (follows.clear _ _ _ shown).ends (fun _ _ next => ⟨rfl, next⟩) fun _ _ no => no
  | length =>
    simp only [Cache.call, ends_bind, ends_pure]
    refine (follows.length _ _ _ shown).ends (fun _ _ next => ?_) fun _ _ no => no
    exact ⟨congrArg Reply.count next.1, next.2⟩
  | isEmpty =>
    simp only [Cache.call, Cache.isEmpty, ends_bind, ends_pure]
    refine (follows.length _ _ _ shown).ends (fun number _ next => ?_) fun _ _ no => no
    exact ⟨congrArg (fun number => Reply.flag (number == 0)) next.1, next.2⟩

/-! ### The store -/

/-- The store and the table have the same entries, in whatever order. -/
structure Store.Shows (store : Store K X) (table : Table K X) : Prop where
  stored : store.table.Distinct
  distinct : table.Distinct
  same : ∀ key, store.table.find? key = table.find? key

theorem Store.Shows.mem_keys {store : Store K X} {table : Table K X} (shows : store.Shows table)
    (key : K) : key ∈ store.table.keys ↔ key ∈ table.keys := by
  rw [Table.mem_keys, Table.mem_keys, shows.same]

theorem Store.Shows.size {store : Store K X} {table : Table K X} (shows : store.Shows table) :
    store.table.size = table.size := by
  have permuted := (List.perm_ext_iff_of_nodup shows.stored shows.distinct).mpr shows.mem_keys
  simpa using permuted.length_eq

theorem follows_store (handles : List X → Handles K V) :
    (Store.cache handles).Follows none Store.Shows where
  put store memory table key item := by
    rintro ⟨calm, shows⟩ trace
    refine ⟨calm, shows.stored.insert key item, shows.distinct.insert key item, fun other => ?_⟩
    show (store.table.insert key item).find? other = (table.insert key item).find? other
    rw [Table.find?_insert, Table.find?_insert, shows.same]
  get store memory table key := by
    rintro ⟨calm, shows⟩ trace
    refine ⟨shows.same key, calm, shows.stored, shows.distinct.touch key, fun other => ?_⟩
    rw [Table.find?_touch]
    exact shows.same other
  remove store memory table key := by
    rintro ⟨calm, shows⟩ trace
    refine ⟨shows.same key, calm, shows.stored.erase key, shows.distinct.erase key, fun other => ?_⟩
    show (store.table.erase key).find? other = (table.erase key).find? other
    rw [Table.find?_erase, Table.find?_erase, shows.same]
  clear store memory table := by
    rintro ⟨calm, -⟩ trace
    exact ⟨calm, Table.distinct_empty, Table.distinct_empty, fun _ => rfl⟩
  length store memory table := by
    rintro ⟨calm, shows⟩ trace
    exact ⟨shows.size, calm, shows⟩

/-! ### Recency layers -/

namespace LruLayer

/-- Nothing is owed, and the layer tracks the keys up to the capacity. -/
structure Steady (capacity : Nat) (keys : List K) (layer : LruLayer K σ) : Prop where
  capacity : layer.capacity = capacity
  overdue : layer.overdue = 0
  order : layer.order.Represents keys

/-- The delegate shows the table, and the layer tracks its keys and few enough others. -/
def Shows (shows : σ → Table K X → Prop) (bound : Option Nat) (capacity : Nat)
    (layer : LruLayer K σ) (table : Table K X) : Prop :=
  shows layer.delegate table ∧
    ∃ keys, Steady capacity keys layer ∧ Recent.Tracking bound capacity keys table

variable {delegate : Cache K V σ X} {bound : Option Nat} {capacity : Nat}
  {shows : σ → Table K X → Prop}

/-- An eviction removes the victim from the table and leaves the tracked keys alone. -/
theorem evict_shown (follows : delegate.Follows bound shows) {victim : K} {keys : List K}
    {machine : Machine K V (LruLayer K σ)} {table : Table K X}
    (shown : Shown shows table machine.layer.delegate machine.memory)
    (steady : Steady capacity keys machine.layer) :
    (evict delegate victim).Ends machine
      (fun _ later => Shown shows (table.erase victim) later.layer.delegate later.memory ∧
        Steady capacity keys later.layer)
      fun _ _ => False := by
  simp only [ends_evict, below, ends_within]
  refine (follows.remove _ _ table victim shown).ends (fun _ _ next => ?_) fun _ _ no => no
  exact ⟨next.2, steady.capacity, steady.overdue, steady.order⟩

/-- The layer makes room for a key that the delegate has got. -/
theorem makeRoom_shown (follows : delegate.Follows bound shows) {key : K} {item : X}
    {keys : List K} {machine : Machine K V (LruLayer K σ)} {table : Table K X}
    (shown : Shown shows ((table.insert key item).cut bound) machine.layer.delegate machine.memory)
    (steady : Steady capacity keys machine.layer)
    (tracking : Recent.Tracking bound capacity keys table) :
    (makeRoom delegate key).Ends machine
      (fun _ later => Shown (Shows shows bound capacity)
        ((table.insert key item).cut (Recent.tighten bound capacity)) later.layer later.memory)
      fun _ _ => False := by
  by_cases fits : (key :: keys.erase key).length ≤ capacity
  · obtain ⟨same, next⟩ := tracking.put_fits key item fits
    obtain ⟨order, tracked, used⟩ := track_fits steady.order (steady.capacity.symm ▸ fits)
    rw [ends_makeRoom_none tracked, steady.overdue, ← same]
    exact ⟨shown.1, shown.2, _, ⟨steady.capacity, rfl, used⟩, next⟩
  · have overflows : capacity < (key :: keys.erase key).length := Nat.not_le.mp fits
    obtain ⟨victim, last, same, next⟩ := tracking.put_over key item overflows
    obtain ⟨order, tracked, popped⟩ := track_over steady.order (steady.capacity.symm ▸ overflows)
    rw [last] at tracked
    rw [ends_makeRoom_some tracked]
    have steady : Steady capacity (key :: keys.erase key).dropLast { machine.layer with order } :=
      ⟨steady.capacity, steady.overdue, popped⟩
    refine Ends.imp (evict_shown follows shown steady) (fun _ later evicted => ?_) fun _ _ no => no
    rw [evicted.2.overdue, ← same]
    rw [← same] at next
    exact ⟨evicted.1.1, evicted.1.2, _, evicted.2, next⟩

/-- A recency layer follows the plain cache with the tightened bound. -/
theorem follows (follows : delegate.Follows bound shows) :
    (LruLayer.cache delegate).Follows (Recent.tighten bound capacity)
      (Shows shows bound capacity) where
  put layer memory table key item := by
    rintro ⟨calm, inner, keys, steady, tracking⟩ trace
    show (LruLayer.put delegate key item).Ends _ _ _
    simp only [put_eq, below, count, ends_bind, ends_within, ends_modifyLayer]
    refine (follows.put _ _ table key item ⟨calm, inner⟩).ends (fun _ stored shown => ?_)
      fun _ _ no => no
    exact makeRoom_shown follows shown ⟨steady.capacity, steady.overdue, steady.order⟩ tracking
  get layer memory table key := by
    rintro ⟨calm, inner, keys, steady, tracking⟩ trace
    show (LruLayer.get delegate key).Ends _ _ _
    simp only [LruLayer.get, below, count, ends_bind, ends_within, ends_modifyLayer,
      ends_updateLayer]
    refine (follows.get _ _ table key ⟨calm, inner⟩).ends (fun _ later next => ?_) fun _ _ no => no
    obtain ⟨-, touched⟩ := steady.order.touch key
    exact ⟨next.1, next.2.1, next.2.2, _, ⟨steady.capacity, steady.overdue, touched⟩,
      tracking.touch key⟩
  remove layer memory table key := by
    rintro ⟨calm, inner, keys, steady, tracking⟩ trace
    show (LruLayer.remove delegate key).Ends _ _ _
    simp only [LruLayer.remove, below, count, ends_bind, ends_within, ends_modifyLayer, ends_pure]
    refine (follows.remove _ _ table key ⟨calm, inner⟩).ends (fun _ later next => ?_)
      fun _ _ no => no
    obtain ⟨-, erased⟩ := steady.order.erase key
    exact ⟨next.1, next.2.1, next.2.2, _, ⟨steady.capacity, steady.overdue, erased⟩,
      tracking.erase key⟩
  clear layer memory table := by
    rintro ⟨calm, inner, keys, steady, tracking⟩ trace
    show (LruLayer.clear delegate).Ends _ _ _
    simp only [LruLayer.clear, below, count, ends_bind, ends_within, ends_modifyLayer]
    refine (follows.clear _ _ table ⟨calm, inner⟩).ends (fun _ later next => ?_) fun _ _ no => no
    exact ⟨next.1, next.2, [], ⟨steady.capacity, rfl, RecencyOrder.Represents.empty⟩,
      Recent.Tracking.empty⟩
  length layer memory table := by
    rintro ⟨calm, inner, keys, steady, tracking⟩ trace
    show (below delegate.length).Ends _ _ _
    simp only [below, ends_within]
    refine (follows.length _ _ table ⟨calm, inner⟩).ends (fun _ later next => ?_) fun _ _ no => no
    exact ⟨next.1, next.2.1, next.2.2, keys, ⟨steady.capacity, steady.overdue, steady.order⟩,
      tracking⟩

end LruLayer

/-! ### Soft layers -/

namespace SoftLayer

/-- No notification waits, and the delegate shows references to the items of the table. -/
def Shows (shows : σ → Table K (SoftReference K V) → Prop) (layer : SoftLayer K V σ)
    (table : Table K (Shared V)) : Prop :=
  layer.queue.pending = [] ∧
    ∃ references, shows layer.delegate references ∧
      references.mapItems (fun reference => reference.referent) = table

variable {delegate : Cache K V σ (SoftReference K V)} {bound : Option Nat}
  {shows : σ → Table K (SoftReference K V) → Prop}

/-- A soft layer follows the same plain cache as its delegate. -/
theorem follows (follows : delegate.Follows bound shows) :
    (SoftLayer.cache delegate).Follows bound (Shows shows) where
  put layer memory table key value := by
    rintro ⟨calm, idle, references, shown, rfl⟩ trace
    obtain ⟨referent, pending, reclaimed⟩ := register_keeps layer.queue memory
      (alive delegate ⟨layer, memory, trace⟩) key value
    show (SoftLayer.put delegate key value).Ends _ _ _
    simp only [SoftLayer.put, below, ends_bind, ends_withQueue, ends_within]
    refine (ends_drain_idle idle).mpr ?_
    refine (follows.put _ _ references key _ ⟨reclaimed.trans calm, shown⟩).ends
      (fun _ later next => ?_) fun _ _ no => no
    refine ⟨next.1, pending.trans idle, _, next.2, ?_⟩
    rw [Table.mapItems_cut, Table.mapItems_insert, referent]
  get layer memory table key := by
    rintro ⟨calm, idle, references, shown, rfl⟩ trace
    show (SoftLayer.get delegate key).Ends _ _ _
    simp only [SoftLayer.get, below, ends_bind, ends_within]
    refine (follows.get _ _ references key ⟨calm, shown⟩).ends (fun _ later next => ?_)
      fun _ _ no => no
    obtain ⟨rfl, calm, shown⟩ := next
    rw [Table.find?_mapItems, ← Table.mapItems_touch]
    cases references.find? key with
    | none =>
      simp only [ends_bind, count, ends_modifyLayer, ends_pure]
      exact ⟨rfl, calm, idle, _, shown, rfl⟩
    | some reference =>
      simp only [ends_bind, ends_memory, around, resolve_calm calm, count, ends_modifyLayer,
        ends_pure]
      refine ends_pin fun ring counters trace => ?_
      exact ⟨rfl, calm, idle, _, shown, rfl⟩
  remove layer memory table key := by
    rintro ⟨calm, idle, references, shown, rfl⟩ trace
    show (SoftLayer.remove delegate key).Ends _ _ _
    simp only [SoftLayer.remove, below, ends_bind, ends_within]
    refine (ends_drain_idle idle).mpr ?_
    refine (follows.remove _ _ references key ⟨calm, shown⟩).ends (fun _ later next => ?_)
      fun _ _ no => no
    obtain ⟨rfl, calm, shown⟩ := next
    rw [Table.find?_mapItems, ← Table.mapItems_erase]
    cases references.find? key with
    | none => exact ⟨rfl, calm, idle, _, shown, rfl⟩
    | some reference =>
      simp only [ends_bind, ends_memory, around, resolve_calm calm, ends_pure]
      exact ⟨rfl, calm, idle, _, shown, rfl⟩
  clear layer memory table := by
    rintro ⟨calm, idle, references, shown, rfl⟩ trace
    show (SoftLayer.clear delegate).Ends _ _ _
    simp only [SoftLayer.clear, below, ends_bind, ends_modifyLayer, ends_within]
    refine (ends_drain_idle idle).mpr ?_
    refine (follows.clear _ _ references ⟨calm, shown⟩).ends (fun _ later next => ?_)
      fun _ _ no => no
    exact ⟨next.1, idle, Table.empty, next.2, rfl⟩
  length layer memory table := by
    rintro ⟨calm, idle, references, shown, rfl⟩ trace
    show (SoftLayer.length delegate).Ends _ _ _
    simp only [SoftLayer.length, below, ends_bind, ends_within]
    refine (ends_drain_idle idle).mpr ?_
    refine (follows.length _ _ references ⟨calm, shown⟩).ends (fun _ later next => ?_)
      fun _ _ no => no
    rw [Table.size_mapItems]
    exact ⟨next.1, next.2.1, idle, references, next.2.2, rfl⟩

end SoftLayer

end LayeredCache
