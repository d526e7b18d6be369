/-
This file proves what a recency layer keeps up when removals of its delegate may fail.

A call of an atomic delegate is either done or fails without effect. Above such a delegate the
tracked keys are always the stored ones, because a victim whose removal fails is tracked again, and
each tracked key above the largest capacity is paid for by an overdue victim. A put that succeeds
has settled all of them.

Only keys above the capacity are ever given up, so the lemmas take along any relation between
tracked keys and stored table that does not mind when such keys go (`Sheds`).
-/

import LayeredCache.Layer.Store
import LayeredCache.Layer.Probe
import LayeredCache.Proofs.Evictions

namespace LayeredCache

open LayeredCache.Action

variable {K V σ X : Type}

/-! ### Delegates whose calls fail before they do anything -/

/-- Every call has its whole effect on the shown table, or fails and has none. -/
structure Cache.Atomic [DecidableEq K] (cache : Cache K V σ X) (shows : σ → Table K X → Prop) :
    Prop where
  put : ∀ layer memory table key item, shows layer table →
    (cache.put key item).Leaves layer memory (fun _ later _ => shows later (table.insert key item))
      fun later _ => shows later table
  get : ∀ layer memory table key, shows layer table →
    (cache.get key).Leaves layer memory (fun _ later _ => shows later table)
      fun later _ => shows later table
  remove : ∀ layer memory table key, shows layer table →
    (cache.remove key).Leaves layer memory (fun _ later _ => shows later (table.erase key))
      fun later _ => shows later table
  clear : ∀ layer memory table, shows layer table →
    cache.clear.Leaves layer memory (fun _ later _ => shows later Table.empty)
      fun later _ => shows later table
  length : ∀ layer memory table, shows layer table →
    cache.length.Leaves layer memory (fun _ later _ => shows later table)
      fun later _ => shows later table

/-- All faults fail their calls before the delegate is called. -/
def FailsBefore (faults : List Fault) : Prop := ∀ fault ∈ faults, fault.after = false

theorem FailsBefore.take {faults : List Fault} (before : FailsBefore faults) (method : Method) :
    (∀ fault, (Fault.take method faults).1 = some fault → fault.after = false) ∧
      FailsBefore (Fault.take method faults).2 := by
  induction faults with
  | nil =>
    refine ⟨fun _ same => ?_, before⟩
    cases same
  | cons fault rest inductionHypothesis =>
    obtain ⟨first, others⟩ := List.forall_mem_cons.mp before
    obtain ⟨taken, left⟩ := inductionHypothesis others
    unfold Fault.take
    split
    · split
      · refine ⟨fun _ same => ?_, List.forall_mem_cons.mpr ⟨first, others⟩⟩
        cases same
      · exact ⟨fun _ same => Option.some.inj same ▸ first,
          List.forall_mem_cons.mpr ⟨first, others⟩⟩
    · exact ⟨taken, List.forall_mem_cons.mpr ⟨first, left⟩⟩

/-- A probe whose faults fail calls before they take effect notes a call and passes it on, or notes
the call and its error. -/
theorem ProbeLayer.ends_intercept {α : Type} {position : Nat} {method : Method} {key : Option K}
    {action : Action K V σ α} {machine : Machine K V (ProbeLayer σ)}
    {done : α → Machine K V (ProbeLayer σ) → Prop}
    {failed : CacheError → Machine K V (ProbeLayer σ) → Prop}
    (before : FailsBefore machine.layer.faults)
    (passes : ∀ faults, FailsBefore faults →
      (below action).Ends
        { machine with
          layer := { machine.layer with faults }
          trace := .call position method key false :: machine.trace } done failed)
    (fails : ∀ faults error, FailsBefore faults →
      failed error
        { machine with
          layer := { machine.layer with faults }
          trace := .raised position error :: .call position method key true :: machine.trace }) :
    (intercept position method key action).Ends machine done failed := by
  obtain ⟨taken, left⟩ := before.take method
  simp only [intercept, fail, ends_bind, ends_updateLayer, ends_note]
  split
  case h_1 same =>
    rw [same]
    exact passes _ left
  case h_2 fault same =>
    rw [taken fault same, if_neg Bool.false_ne_true, same]
    simp only [ends_bind, ends_note, ends_throw]
    exact fails _ fault.error left

/-- A call that a probe intercepts is passed on, or fails before the delegate is called. -/
theorem ProbeLayer.intercept_before {α : Type} {position : Nat} {method : Method} {key : Option K}
    {action : Action K V σ α} {layer : ProbeLayer σ} {memory : Memory K V}
    {done : α → σ → Memory K V → Prop} {failed : σ → Memory K V → Prop}
    (before : FailsBefore layer.faults) (unchanged : failed layer.delegate memory)
    (leaves : action.Leaves layer.delegate memory done failed) :
    (intercept position method key action).Leaves layer memory
      (fun value later memory => FailsBefore later.faults ∧ done value later.delegate memory)
      fun later memory => FailsBefore later.faults ∧ failed later.delegate memory := by
  intro trace
  refine ends_intercept before (fun _ left => ?_) fun _ _ left => ⟨left, unchanged⟩
  rw [below, ends_within]
  exact leaves.ends (fun _ _ next => ⟨left, next⟩) fun _ _ next => ⟨left, next⟩

/-! ### Tracked and stored keys -/

/-- The keys are those of the table, each once. -/
structure Matched (keys : List K) (table : Table K X) : Prop where
  nodup : keys.Nodup
  distinct : table.Distinct
  same : ∀ key, key ∈ keys ↔ key ∈ table.keys

theorem Matched.empty : Matched [] (Table.empty : Table K X) :=
  ⟨List.nodup_nil, Table.distinct_empty, fun _ => Iff.rfl⟩

theorem Matched.length {keys : List K} {table : Table K X} (matched : Matched keys table) :
    keys.length = table.size := by
  have permuted := (List.perm_ext_iff_of_nodup matched.nodup matched.distinct).mpr matched.same
  rw [permuted.length_eq, Table.keys_length]

variable [DecidableEq K]

theorem atomic_store (handles : List X → Handles K V) :
    (Store.cache handles).Atomic fun store table => store.table = table where
  put store memory table key item shown trace := by
    subst shown
    rfl
  get store memory table key shown trace := shown
  remove store memory table key shown trace := by
    subst shown
    rfl
  clear store memory table shown trace := rfl
  length store memory table shown trace := shown

theorem ProbeLayer.atomic {delegate : Cache K V σ X} {shows : σ → Table K X → Prop}
    (atomic : delegate.Atomic shows) (position : Nat) :
    (ProbeLayer.cache position delegate).Atomic fun layer table =>
      FailsBefore layer.faults ∧ shows layer.delegate table where
  put layer memory table key item shown :=
    intercept_before shown.1 shown.2 (atomic.put layer.delegate memory table key item shown.2)
  get layer memory table key shown :=
    intercept_before shown.1 shown.2 (atomic.get layer.delegate memory table key shown.2)
  remove layer memory table key shown :=
    intercept_before shown.1 shown.2 (atomic.remove layer.delegate memory table key shown.2)
  clear layer memory table shown :=
    intercept_before shown.1 shown.2 (atomic.clear layer.delegate memory table shown.2)
  length layer memory table shown :=
    intercept_before shown.1 shown.2 (atomic.length layer.delegate memory table shown.2)

namespace Matched

variable {keys : List K} {table : Table K X}

theorem insert (matched : Matched keys table) (key : K) (item : X) :
    Matched (key :: keys.erase key) (table.insert key item) where
  nodup := List.nodup_cons.mpr ⟨matched.nodup.not_mem_erase, matched.nodup.erase key⟩
  distinct := matched.distinct.insert key item
  same other := by
    rw [Table.keys_insert, List.mem_cons, List.mem_cons, matched.nodup.mem_erase_iff,
      List.mem_filter, matched.same]
    simp only [ne_eq, decide_not, Bool.not_eq_true', decide_eq_false_iff_not]
    rw [and_comm]

theorem erase (matched : Matched keys table) (key : K) :
    Matched (keys.erase key) (table.erase key) where
  nodup := matched.nodup.erase key
  distinct := matched.distinct.erase key
  same other := by
    rw [Table.keys_erase, matched.nodup.mem_erase_iff, List.mem_filter, matched.same]
    simp only [ne_eq, decide_not, Bool.not_eq_true', decide_eq_false_iff_not]
    rw [and_comm]

/-- Without its last key. -/
theorem erase_last {front : List K} {last : K} (matched : Matched (front ++ [last]) table) :
    last ∉ front ∧ Matched front (table.erase last) := by
  have gone := LruLayer.untracked_of_nodup matched.nodup
  have erased := matched.erase last
  rw [List.erase_append_right _ gone, List.erase_cons_head, List.append_nil] at erased
  exact ⟨gone, erased⟩

end Matched

/-! ### What is kept up -/

namespace LruLayer

/-- The tracked keys are the stored ones, and each of them above the bound is paid for by an overdue
victim. -/
structure Owing (shows : σ → Table K X → Prop) (most : Nat) (keys : List K) (table : Table K X)
    (layer : LruLayer K σ) : Prop where
  order : layer.order.Represents keys
  shown : shows layer.delegate table
  matched : Matched keys table
  bounded : keys.length ≤ most + layer.overdue
  capacity : layer.capacity ≤ most

/-- The delegate has got an item, and its key is yet to be tracked. -/
structure Stored (shows : σ → Table K X → Prop) (most : Nat) (keys : List K) (table : Table K X)
    (key : K) (item : X) (layer : LruLayer K σ) : Prop where
  order : layer.order.Represents keys
  shown : shows layer.delegate (table.insert key item)
  matched : Matched keys table
  bounded : keys.length ≤ most + layer.overdue
  capacity : layer.capacity ≤ most

/-- A victim was popped, and the delegate still has it. -/
structure Popped (shows : σ → Table K X → Prop) (most : Nat) (front : List K) (victim : K)
    (table : Table K X) (layer : LruLayer K σ) : Prop where
  order : layer.order.Represents front
  shown : shows layer.delegate table
  matched : Matched (front ++ [victim]) table
  bounded : front.length ≤ most + layer.overdue
  capacity : layer.capacity ≤ most

/-- The layer has the capacity and keeps up what it has to. -/
def Owes (shows : σ → Table K X → Prop) (most capacity : Nat) (layer : LruLayer K σ) : Prop :=
  layer.capacity = capacity ∧ ∃ keys table, Owing shows most keys table layer

/-- The layer keeps up what it has to, with keys and a table that are related. -/
def OwesSuch (relates : List K → Table K X → Prop) (shows : σ → Table K X → Prop)
    (most capacity : Nat) (layer : LruLayer K σ) : Prop :=
  layer.capacity = capacity ∧ ∃ keys table, Owing shows most keys table layer ∧ relates keys table

theorem OwesSuch.owes {relates : List K → Table K X → Prop} {shows : σ → Table K X → Prop}
    {most capacity : Nat} {layer : LruLayer K σ} (such : OwesSuch relates shows most capacity layer) :
    Owes shows most capacity layer :=
  such.imp_right fun ⟨keys, table, owing, _⟩ => ⟨keys, table, owing⟩

/-- Keys and table stay related when a key above the capacity is given up at the end. -/
def Sheds (capacity : Nat) (relates : List K → Table K X → Prop) : Prop :=
  ∀ front victim table, capacity ≤ front.length → victim ∉ front →
    relates (front ++ [victim]) table → relates front (table.erase victim)

/-- A change of the delegate alone that leaves its table keeps everything up. -/
theorem Owing.kept {shows : σ → Table K X → Prop} {most : Nat} {keys : List K} {table : Table K X}
    {layer later : LruLayer K σ} (owing : Owing shows most keys table layer)
    (order : later.order = layer.order) (overdue : later.overdue = layer.overdue)
    (capacity : later.capacity = layer.capacity) (shown : shows later.delegate table) :
    Owing shows most keys table later :=
  ⟨order ▸ owing.order, shown, owing.matched, overdue ▸ owing.bounded, capacity ▸ owing.capacity⟩

section Evictions

variable {delegate : Cache K V σ X} {shows : σ → Table K X → Prop} {most : Nat}
  {relates : List K → Table K X → Prop} {machine : Machine K V (LruLayer K σ)}

/-- A popped victim is removed from the delegate, or it is tracked again and counted as overdue. -/
theorem evict_owing (atomic : delegate.Atomic shows) {front : List K} {victim : K}
    {table : Table K X} (popped : Popped shows most front victim table machine.layer) :
    (evict delegate victim).Ends machine
      (fun _ later => Owing shows most front (table.erase victim) later.layer ∧
        later.layer.capacity = machine.layer.capacity ∧
        later.layer.overdue = machine.layer.overdue)
      fun _ later => Owing shows most (front ++ [victim]) table later.layer ∧
        later.layer.capacity = machine.layer.capacity := by
  obtain ⟨gone, erased⟩ := popped.matched.erase_last
  simp only [ends_evict, below, ends_within]
  refine (atomic.remove _ _ table victim popped.shown).ends (fun _ later shown => ?_)
    fun _ later shown => ?_
  · exact ⟨⟨popped.order, shown, erased, popped.bounded, popped.capacity⟩, rfl, rfl⟩
  · obtain ⟨-, pushed⟩ := popped.order.pushBack_untracked gone
    refine ⟨⟨pushed, shown, popped.matched, ?_, popped.capacity⟩, rfl⟩
    have bounded := popped.bounded
    rw [List.length_append, List.length_singleton]
    show _ ≤ most + (machine.layer.overdue + 1)
    omega

/-- Looking for an overdue victim finds nothing owed, or pops one above the capacity. -/
theorem takeOverdue_owing {layer : LruLayer K σ} {keys : List K} {table : Table K X}
    (owing : Owing shows most keys table layer) :
    (∃ later, takeOverdue layer = (none, later) ∧ Owing shows most keys table later ∧
      later.capacity = layer.capacity ∧ later.overdue = 0) ∨
    ∃ front victim later, takeOverdue layer = (some victim, later) ∧
      Popped shows most front victim table later ∧ keys = front ++ [victim] ∧
      layer.capacity ≤ front.length ∧ later.capacity = layer.capacity ∧
      later.overdue + 1 = layer.overdue := by
  have bounded := owing.bounded
  have capacity := owing.capacity
  rcases takeOverdue_cases owing.order with
    ⟨taken, settled⟩ | ⟨front, victim, order, rfl, overflows, owed, taken, popped⟩
  · have short : keys.length ≤ most + 0 := by omega
    exact Or.inl ⟨_, taken, ⟨owing.order, owing.shown, owing.matched, short, capacity⟩, rfl, rfl⟩
  · rw [List.length_append, List.length_singleton] at bounded overflows
    have short : front.length ≤ most + (layer.overdue - 1) := by omega
    exact Or.inr ⟨front, victim, _, taken, ⟨popped, owing.shown, owing.matched, short, capacity⟩,
      rfl, Nat.lt_succ_iff.mp overflows, rfl, Nat.sub_add_cancel owed⟩

/-- Tracking a key that the delegate has got fits the capacity, or pops a victim above it. -/
theorem track_owing {layer : LruLayer K σ} {keys : List K} {table : Table K X} {key : K} {item : X}
    (stored : Stored shows most keys table key item layer) :
    (∃ later, track key layer = (none, later) ∧
      Owing shows most (key :: keys.erase key) (table.insert key item) later ∧
      later.capacity = layer.capacity) ∨
    ∃ front victim later, track key layer = (some victim, later) ∧
      Popped shows most front victim (table.insert key item) later ∧
      key :: keys.erase key = front ++ [victim] ∧ layer.capacity ≤ front.length ∧
      later.capacity = layer.capacity := by
  have inserted := stored.matched.insert key item
  have bounded := stored.bounded
  have capacity := stored.capacity
  rcases track_cases stored.order key with
    ⟨later, tracked, used, fits⟩ | ⟨front, victim, later, same, -, above, shorter, tracked, popped⟩
  · have short : (key :: keys.erase key).length ≤ most + layer.overdue := by omega
    exact Or.inl ⟨_, tracked, ⟨used, stored.shown, inserted, short, capacity⟩, rfl⟩
  · rw [same] at inserted
    exact Or.inr ⟨front, victim, _, tracked,
      ⟨popped, stored.shown, inserted, Nat.le_trans shorter bounded, capacity⟩, same, above, rfl⟩

/-- Enough rounds settle everything that is overdue, or one of them fails. -/
theorem settle_owing (atomic : delegate.Atomic shows) {rounds : Nat} {keys : List K}
    {table : Table K X} (owing : Owing shows most keys table machine.layer)
    (enough : machine.layer.overdue ≤ rounds) (sheds : Sheds machine.layer.capacity relates)
    (related : relates keys table) :
    (settle delegate rounds).Ends machine
      (fun _ later => OwesSuch relates shows most machine.layer.capacity later.layer ∧
        later.layer.overdue = 0)
      fun _ later => OwesSuch relates shows most machine.layer.capacity later.layer := by
  induction rounds generalizing machine keys table with
  | zero => exact ⟨⟨rfl, keys, table, owing, related⟩, Nat.le_zero.mp enough⟩
  | succ rounds inductionHypothesis =>
    simp only [settle, ends_bind, ends_updateLayer]
    rcases takeOverdue_owing owing with ⟨later, taken, next, same, settled⟩ |
      ⟨front, victim, later, taken, popped, rfl, above, same, fewer⟩
    · rw [taken]
      exact ⟨⟨same, keys, table, next, related⟩, settled⟩
    · rw [taken, ← same]
      simp only [ends_bind]
      refine Ends.imp (evict_owing atomic popped) ?_ fun _ _ failed =>
        ⟨failed.2, _, table, failed.1, related⟩
      rintro _ last ⟨next, capacity, overdue⟩
      have shed := sheds front victim table above popped.matched.erase_last.1 related
      rw [← same, ← capacity] at sheds
      have ends := inductionHypothesis next (by rw [overdue]; show later.overdue ≤ _; omega) sheds
        shed
      rwa [capacity] at ends

/-- Making room for a key that the delegate has got settles everything that is overdue, or fails. -/
theorem makeRoom_owing (atomic : delegate.Atomic shows) {keys : List K} {table : Table K X}
    {key : K} {item : X} (stored : Stored shows most keys table key item machine.layer)
    (sheds : Sheds machine.layer.capacity relates)
    (related : relates (key :: keys.erase key) (table.insert key item)) :
    (makeRoom delegate key).Ends machine
      (fun _ later => OwesSuch relates shows most machine.layer.capacity later.layer ∧
        later.layer.overdue = 0)
      fun _ later => OwesSuch relates shows most machine.layer.capacity later.layer := by
  rcases track_owing stored with ⟨later, tracked, next, same⟩ |
    ⟨front, victim, later, tracked, popped, split, above, same⟩
  · rw [ends_makeRoom_none tracked, ← same]
    rw [← same] at sheds
    exact settle_owing atomic next (Nat.le_refl _) sheds related
  · rw [ends_makeRoom_some tracked, ← same]
    rw [split] at related
    refine Ends.imp (evict_owing atomic popped) ?_ fun _ _ failed =>
      ⟨failed.2, _, _, failed.1, related⟩
    rintro _ last ⟨next, capacity, -⟩
    have shed := sheds front victim _ above popped.matched.erase_last.1 related
    rw [← same, ← capacity] at sheds
    have ends := settle_owing atomic next (Nat.le_refl _) sheds shed
    rwa [capacity] at ends

end Evictions

/-! ### The operations -/

section Operations

variable {delegate : Cache K V σ X} {shows : σ → Table K X → Prop} {most capacity : Nat}
  {layer : LruLayer K σ}

/-- A put that the delegate accepts settles everything that is overdue, or it fails with the key
tracked. Whatever is related to tracking the new item stays related either way. -/
theorem put_owing (atomic : delegate.Atomic shows) {keys : List K} {table : Table K X}
    (owing : Owing shows most keys table layer) {relates : List K → Table K X → Prop}
    (sheds : Sheds layer.capacity relates) {memory : Memory K V} {key : K} {item : X}
    (related : relates (key :: keys.erase key) (table.insert key item))
    {refused : σ → Memory K V → Prop}
    (accepts : (delegate.put key item).Leaves layer.delegate memory
      (fun _ later _ => shows later (table.insert key item)) refused) :
    (LruLayer.put delegate key item).Leaves layer memory
      (fun _ later _ => OwesSuch relates shows most layer.capacity later ∧ later.overdue = 0)
      fun later memory => OwesSuch relates shows most layer.capacity later ∨
        ∃ inner, later = { layer with delegate := inner } ∧ refused inner memory := by
  intro trace
  simp only [put_eq, below, count, ends_bind, ends_within, ends_modifyLayer]
  refine accepts.ends (fun _ _ shown => ?_) fun _ _ no => Or.inr ⟨_, rfl, no⟩
  refine Ends.imp (makeRoom_owing atomic
    ⟨owing.order, shown, owing.matched, owing.bounded, owing.capacity⟩ sheds related)
    (fun _ _ next => next) fun _ _ next => Or.inl next

/-- A put that succeeds has settled everything that was overdue. -/
theorem put_owes (atomic : delegate.Atomic shows) (owes : Owes shows most capacity layer)
    (memory : Memory K V) (key : K) (item : X) :
    (LruLayer.put delegate key item).Leaves layer memory
      (fun _ later _ => Owes shows most capacity later ∧ later.overdue = 0)
      fun later _ => Owes shows most capacity later := by
  obtain ⟨rfl, keys, table, owing⟩ := owes
  have anything : Sheds layer.capacity fun (_ : List K) (_ : Table K X) => True :=
    fun _ _ _ _ _ _ => trivial
  refine (put_owing atomic owing anything trivial
    (atomic.put layer.delegate memory table key item owing.shown)).imp
    (fun _ _ _ next => next.imp_left OwesSuch.owes) fun later _ next => ?_
  rcases next with such | ⟨inner, rfl, shown⟩
  · exact such.owes
  · exact ⟨rfl, keys, table, owing.kept rfl rfl rfl shown⟩

theorem get_owes (atomic : delegate.Atomic shows) (owes : Owes shows most capacity layer)
    (memory : Memory K V) (key : K) :
    (LruLayer.get delegate key).Leaves layer memory
      (fun _ later _ => Owes shows most capacity later)
      fun later _ => Owes shows most capacity later := by
  intro trace
  obtain ⟨rfl, keys, table, owing⟩ := owes
  obtain ⟨-, touched⟩ := owing.order.touch key
  have permuted := RecencyOrder.touched_perm keys key
  have matched : Matched (if key ∈ keys then key :: keys.erase key else keys) table :=
    ⟨touched.nodup, owing.matched.distinct,
      fun other => permuted.mem_iff.trans (owing.matched.same other)⟩
  have bounded := permuted.length_eq ▸ owing.bounded
  simp only [LruLayer.get, below, count, ends_bind, ends_within, ends_modifyLayer,
    ends_updateLayer]
  refine (atomic.get _ _ table key owing.shown).ends (fun _ later shown => ?_)
    fun _ later shown => ?_
  · exact ⟨rfl, _, table, touched, shown, matched, bounded, owing.capacity⟩
  · exact ⟨rfl, _, table, touched, shown, matched, bounded, owing.capacity⟩

theorem remove_owes (atomic : delegate.Atomic shows) (owes : Owes shows most capacity layer)
    (memory : Memory K V) (key : K) :
    (LruLayer.remove delegate key).Leaves layer memory
      (fun _ later _ => Owes shows most capacity later)
      fun later _ => Owes shows most capacity later := by
  intro trace
  obtain ⟨rfl, keys, table, owing⟩ := owes
  simp only [LruLayer.remove, below, count, ends_bind, ends_within, ends_modifyLayer, ends_pure]
  refine (atomic.remove _ _ table key owing.shown).ends (fun _ later shown => ?_)
    fun _ later shown => ?_
  · obtain ⟨-, erased⟩ := owing.order.erase key
    have bounded : (keys.erase key).length ≤ most + layer.overdue :=
      Nat.le_trans List.length_erase_le owing.bounded
    exact ⟨rfl, _, _, erased, shown, owing.matched.erase key, bounded, owing.capacity⟩
  · exact ⟨rfl, keys, table, owing.kept rfl rfl rfl shown⟩

/-- A clear that succeeds leaves nothing, so only the capacity of the moment counts from then on. -/
theorem clear_owes (atomic : delegate.Atomic shows) (owes : Owes shows most capacity layer)
    (memory : Memory K V) :
    (LruLayer.clear delegate).Leaves layer memory
      (fun _ later _ => Owes shows capacity capacity later)
      fun later _ => Owes shows most capacity later := by
  intro trace
  obtain ⟨rfl, keys, table, owing⟩ := owes
  simp only [LruLayer.clear, below, count, ends_bind, ends_within, ends_modifyLayer]
  refine (atomic.clear _ _ table owing.shown).ends (fun _ later shown => ?_)
    fun _ later shown => ?_
  · exact ⟨rfl, [], Table.empty, RecencyOrder.Represents.empty, shown, Matched.empty,
      Nat.zero_le _, Nat.le_refl _⟩
  · exact ⟨rfl, keys, table, owing.kept rfl rfl rfl shown⟩

theorem length_owes (atomic : delegate.Atomic shows) (owes : Owes shows most capacity layer)
    (memory : Memory K V) :
    (below delegate.length : Action K V (LruLayer K σ) Nat).Leaves layer memory
      (fun _ later _ => Owes shows most capacity later)
      fun later _ => Owes shows most capacity later := by
  intro trace
  obtain ⟨rfl, keys, table, owing⟩ := owes
  simp only [below, ends_within]
  refine (atomic.length _ _ table owing.shown).ends (fun _ later shown => ?_)
    fun _ later shown => ?_
  · exact ⟨rfl, keys, table, owing.kept rfl rfl rfl shown⟩
  · exact ⟨rfl, keys, table, owing.kept rfl rfl rfl shown⟩

/-- A new capacity may raise the bound. -/
theorem Owes.setCapacity (owes : Owes shows most capacity layer) (raised : Nat) :
    Owes shows (max raised most) raised { layer with capacity := raised } := by
  obtain ⟨-, keys, table, owing⟩ := owes
  have bounded : keys.length ≤ max raised most + layer.overdue :=
    Nat.le_trans owing.bounded (Nat.add_le_add_right (Nat.le_max_right _ _) _)
  exact ⟨rfl, keys, table, owing.order, owing.shown, owing.matched, bounded, Nat.le_max_left _ _⟩

end Operations

end LruLayer

end LayeredCache
