/-
This file proves that every reclamation is accounted for exactly once.

A reclaimed value is missing from the store until its entry is taken away: a drain counts the entry
as purged, and a look-up that comes first counts a reclaimed miss. No other operation meets such an
entry, because each of them drains before it does anything else, and a notification whose entry is
gone counts nothing. So the number of reclamations is what the two counters say and what is missing.
-/

import Mathlib.Algebra.GroupWithZero.Nat
import LayeredCache.Proofs.Pressure

namespace LayeredCache

open LayeredCache.Action

variable {K V σ : Type}

/-! ### Missing values -/

/-- The number of references in the table whose values were reclaimed. -/
def missing (memory : Memory K V) (table : Table K (SoftReference K V)) : Nat :=
  table.items.countP fun reference => !memory.isLive reference

section Missing

variable [DecidableEq K] {memory : Memory K V} {table : Table K (SoftReference K V)}

/-- Each key of a table shows a value or misses one. -/
theorem exists_enumerates (memory : Memory K V) (distinct : table.Distinct) :
    ∃ keys, Enumerates keys (shown table.find? memory) ∧
      keys.length + missing memory table = table.size := by
  let live : K × SoftReference K V → Bool := fun entry => memory.isLive entry.2
  refine ⟨(table.entries.filter live).map Prod.fst, ⟨?_, fun key => ?_⟩, ?_⟩
  · exact List.Nodup.sublist (List.filter_sublist.map Prod.fst) distinct
  · rw [shown_isSome, List.mem_map]
    constructor
    · rintro ⟨⟨_, reference⟩, member, rfl⟩
      obtain ⟨member, live⟩ := List.mem_filter.mp member
      exact ⟨reference, distinct.find?_eq_some.mpr member, live⟩
    · rintro ⟨reference, found, live⟩
      exact ⟨(key, reference), List.mem_filter.mpr ⟨distinct.find?_eq_some.mp found, live⟩, rfl⟩
  · have dead : missing memory table = table.entries.countP fun entry => ¬ live entry := by
      rw [missing, Table.items, List.countP_map]
      exact List.countP_congr fun entry _ => by simp [live]
    rw [dead, List.length_map, ← List.countP_eq_length_filter, Table.size,
      ← List.length_eq_countP_add_countP live]

theorem length_add_missing (distinct : table.Distinct) {keys : List K}
    (enumerates : Enumerates keys (shown table.find? memory)) :
    keys.length + missing memory table = table.size := by
  obtain ⟨others, again, counted⟩ := exists_enumerates memory distinct
  rw [enumerates.length_eq again, counted]

/-- Once no notification waits, nothing is missing. -/
theorem InStep.missing_eq_zero {registry : List (SoftReference K V)} (distinct : table.Distinct)
    (inStep : InStep table.find? registry memory []) : missing memory table = 0 := by
  have counted := length_add_missing distinct (InStep.enumerates_keys distinct inStep)
  rw [Table.keys_length] at counted
  omega

/-- Erasing an entry that misses its value leaves one fewer of them. -/
theorem missing_erase (distinct : table.Distinct) {key : K} {reference : SoftReference K V}
    (found : table.find? key = some reference) (dead : memory.isLive reference = false) :
    missing memory (table.erase key) + 1 = missing memory table := by
  have hidden : shown table.find? memory key = none := by
    rw [shown, found, Option.bind_some, Memory.resolve, dead]
    rfl
  obtain ⟨keys, enumerates, before⟩ := exists_enumerates memory distinct
  rw [← SoftLayer.shown_erase hidden] at enumerates
  have after := length_add_missing (distinct.erase key) enumerates
  have size := distinct.size_erase found
  omega

/-- A purge takes away as many missing values as it removes keys. -/
theorem Purges.missing {after : Table K (SoftReference K V)} {waiting removed : List K}
    (purges : Purges memory waiting removed table after) (distinct : table.Distinct) :
    removed.length + LayeredCache.missing memory after = LayeredCache.missing memory table := by
  obtain ⟨kept, size⟩ := purges.size distinct
  obtain ⟨keys, enumerates, before⟩ := exists_enumerates memory distinct
  rw [← purges.shown_eq] at enumerates
  have left := length_add_missing kept enumerates
  omega

/-- Hiding values under some keys makes as many of them missing. -/
theorem missing_of_hidden {later : Memory K V} {taken : List K} (distinct : table.Distinct)
    (nodup : taken.Nodup) (visible : ∀ key ∈ taken, (shown table.find? memory key).isSome = true)
    (hidden : shown table.find? later = fun key =>
      if key ∈ taken then none else shown table.find? memory key) :
    missing later table = missing memory table + taken.length := by
  obtain ⟨before, enumerates, all⟩ := exists_enumerates memory distinct
  obtain ⟨after, left, rest⟩ := exists_enumerates later distinct
  rw [hidden] at left
  have fewer := enumerates.length_of_hidden left nodup visible
  omega

/-- Hiding the value under one key makes it missing if there is one. -/
theorem missing_of_hidden_key {later : Memory K V} {key : K} (distinct : table.Distinct)
    (hidden : shown table.find? later = fun other =>
      if other = key then none else shown table.find? memory other) :
    missing later table = missing memory table + (shown table.find? memory key).isSome.toNat := by
  cases visible : (shown table.find? memory key).isSome with
  | true =>
    have hides : shown table.find? later = fun other =>
        if other ∈ [key] then none else shown table.find? memory other := by
      simpa only [List.mem_singleton] using hidden
    exact missing_of_hidden distinct (List.nodup_singleton key)
      (List.forall_mem_singleton.mpr visible) hides
  | false =>
    have hides : shown table.find? later = fun other =>
        if other ∈ ([] : List K) then none else shown table.find? memory other := by
      rw [hidden]
      funext other
      simp only [List.not_mem_nil, if_false, ite_eq_right_iff]
      rintro rfl
      exact (Option.not_isSome_iff_eq_none.mp (visible ▸ Bool.false_ne_true)).symm
    exact missing_of_hidden distinct List.nodup_nil (List.forall_mem_nil _) hides

end Missing

/-! ### Counted reclamations -/

/-- The counters and the number of missing values account for the reclamations. The counters are
those of two numbers that may have passed their end. -/
def Accounted (reclamations : Nat) (counters : SoftCounters) (missing : Nat) : Prop :=
  ∃ purged misses, counters.purgedEntries = UInt64.ofNat purged ∧
    counters.reclaimedMisses = UInt64.ofNat misses ∧ reclamations = purged + misses + missing

namespace Accounted

variable {reclamations missing fewer : Nat} {counters later : SoftCounters}

theorem start : Accounted 0 {} 0 := ⟨0, 0, rfl, rfl, rfl⟩

/-- Other counters do not matter. -/
theorem same (accounted : Accounted reclamations counters missing)
    (purged : later.purgedEntries = counters.purgedEntries)
    (misses : later.reclaimedMisses = counters.reclaimedMisses) :
    Accounted reclamations later missing := by
  unfold Accounted
  rwa [purged, misses]

/-- New reclamations are missing at first. -/
theorem more (accounted : Accounted reclamations counters missing) (number : Nat) :
    Accounted (reclamations + number) counters (missing + number) := by
  obtain ⟨purged, misses, purgedEntries, reclaimedMisses, rfl⟩ := accounted
  exact ⟨purged, misses, purgedEntries, reclaimedMisses, Nat.add_assoc ..⟩

/-- What is purged is missing no longer. -/
theorem purge {number : Nat} (accounted : Accounted reclamations counters missing)
    (taken : number + fewer = missing) :
    Accounted reclamations (counters.countPurged (UInt64.ofNat number)) fewer := by
  obtain ⟨purged, misses, purgedEntries, reclaimedMisses, rfl⟩ := accounted
  refine ⟨purged + number, misses, ?_, reclaimedMisses, by omega⟩
  rw [UInt64.ofNat_add, ← purgedEntries]
  rfl

/-- Nor is what a look-up has found reclaimed. -/
theorem miss (accounted : Accounted reclamations counters missing) (taken : fewer + 1 = missing) :
    Accounted reclamations counters.countMiss.countReclaimedMiss fewer := by
  obtain ⟨purged, misses, purgedEntries, reclaimedMisses, rfl⟩ := accounted
  refine ⟨purged, misses + 1, purgedEntries, ?_, by omega⟩
  rw [UInt64.ofNat_add, ← reclaimedMisses]
  rfl

/-- As numbers of 64 bits the counters and what is missing add up to the reclamations. -/
theorem sum_eq (accounted : Accounted reclamations counters missing) :
    UInt64.ofNat reclamations =
      counters.purgedEntries + counters.reclaimedMisses + UInt64.ofNat missing := by
  obtain ⟨purged, misses, purgedEntries, reclaimedMisses, rfl⟩ := accounted
  rw [UInt64.ofNat_add, UInt64.ofNat_add, purgedEntries, reclaimedMisses]

/-- As long as the counters have not passed their end, this holds of the numbers. -/
theorem sum_toNat (accounted : Accounted reclamations counters missing)
    (few : reclamations < 2 ^ 64) :
    reclamations =
      counters.purgedEntries.toNat + counters.reclaimedMisses.toNat + missing := by
  obtain ⟨purged, misses, purgedEntries, reclaimedMisses, rfl⟩ := accounted
  have purgedFits : purged < UInt64.size := by
    rw [UInt64.size]
    omega
  have missesFit : misses < UInt64.size := by
    rw [UInt64.size]
    omega
  rw [purgedEntries, reclaimedMisses, UInt64.toNat_ofNat_of_lt' purgedFits,
    UInt64.toNat_ofNat_of_lt' missesFit]

end Accounted

variable [DecidableEq K]

/-! ### Soft layers -/

namespace SoftLayer

variable {delegate : Cache K V σ (SoftReference K V)} {table : σ → Table K (SoftReference K V)}
  {layer : SoftLayer K V σ} {memory : Memory K V} {machine : Machine K V (SoftLayer K V σ)}
  {reclamations : Nat}

/-- The counters of the layer and what is missing below it account for the reclamations. -/
def Accounts (table : σ → Table K (SoftReference K V)) (reclamations : Nat)
    (layer : SoftLayer K V σ) (memory : Memory K V) : Prop :=
  Accounted reclamations layer.counters (missing memory (table layer.delegate))

theorem Sound.missing_eq_zero (sound : Sound table layer memory)
    (idle : layer.queue.pending = []) : missing memory (table layer.delegate) = 0 :=
  InStep.missing_eq_zero sound.distinct (idle ▸ sound.inStep)

/-- An operation that ends without notifications misses nothing. -/
theorem accounts_of_idle {α : Type} {action : Action K V (SoftLayer K V σ) α}
    (keeps : action.Ends machine (fun _ later => Sound table later.layer later.memory)
      fun _ _ => False)
    (idle : action.Ends machine
      (fun _ later => later.layer.queue.pending = [] ∧
        Accounted reclamations later.layer.counters 0)
      fun _ _ => False) :
    action.Ends machine
      (fun _ later => Sound table later.layer later.memory ∧
        Accounts table reclamations later.layer later.memory)
      fun _ _ => False := by
  refine (keeps.and idle).imp (fun _ later next => ?_) fun _ _ no => no.1
  obtain ⟨sound, idle, accounted⟩ := next
  refine ⟨sound, ?_⟩
  unfold Accounts
  rwa [sound.missing_eq_zero idle]

section Calls

variable (reliable : delegate.Reliable Content.reference.handles table)

include reliable

/-- A drain accounts for what it removes, and then no notification waits and nothing is missing. -/
theorem drain_accounts (sound : Sound table machine.layer machine.memory)
    (accounts : Accounts table reclamations machine.layer machine.memory) :
    (drain delegate).Ends machine
      (fun _ later => Sound table later.layer later.memory ∧ later.layer.queue.pending = [] ∧
        Accounted reclamations later.layer.counters 0)
      fun _ _ => False := by
  refine (drain_purges reliable.get reliable.remove machine).imp (fun _ later next => ?_)
    fun _ _ no => no
  obtain ⟨removed, purged⟩ := next
  have drained := purged.drained sound
  refine ⟨drained.sound, drained.idle, ?_⟩
  have taken := purged.purges.missing sound.distinct
  rw [← purged.memory, drained.sound.missing_eq_zero drained.idle, purged.memory] at taken
  rw [purged.layer]
  exact accounts.purge taken

variable (sound : Sound table machine.layer machine.memory)
  (accounts : Accounts table reclamations machine.layer machine.memory)

include sound accounts

theorem put_accounts (key : K) (value : Shared V) :
    (put delegate key value).Ends machine
      (fun _ later => Sound table later.layer later.memory ∧
        Accounts table reclamations later.layer later.memory)
      fun _ _ => False := by
  refine accounts_of_idle (put_sound reliable key value sound) ?_
  simp only [put, below, ends_bind, ends_withQueue, ends_within]
  refine (drain_accounts reliable sound accounts).imp (fun _ drained next => ?_) fun _ _ no => no
  obtain ⟨sound, idle, accounted⟩ := next
  obtain ⟨-, pending, -⟩ :=
    register_keeps drained.layer.queue drained.memory (alive delegate drained) key value
  exact (reliable.put _ _ key _ sound.distinct).ends
    (fun _ _ _ => ⟨pending.trans idle, accounted⟩) fun _ _ no => no

theorem get_accounts (key : K) :
    (get delegate key).Ends machine
      (fun _ later => Accounts table reclamations later.layer later.memory) fun _ _ => False := by
  simp only [get, below, ends_bind, ends_within]
  refine (reliable.get _ _ key).ends (fun found later next => ?_) fun _ _ no => no
  obtain ⟨same, entries, answer⟩ := next
  have same : later.memory = machine.memory := same
  have entries : table later.layer = table machine.layer.delegate := entries
  have answer : found = (table machine.layer.delegate).find? key := answer
  have unmoved : missing later.memory (table later.layer) =
      missing machine.memory (table machine.layer.delegate) := by rw [same, entries]
  cases found with
  | none =>
    simp only [ends_bind, count, ends_modifyLayer, ends_pure, around]
    show Accounted _ _ (missing later.memory (table later.layer))
    exact unmoved ▸ accounts.same rfl rfl
  | some reference =>
    simp only [ends_bind, ends_memory, around, count]
    split
    case h_1 value resolved =>
      rw [ends_bind]
      refine ends_pin_counted fun trace => ?_
      show Accounted _ _ (missing later.memory (table later.layer))
      exact unmoved ▸ accounts.same rfl rfl
    case h_2 gone =>
      simp only [ends_bind, name, ends_layer, ends_pure, ends_report, ends_within]
      refine (reliable.remove _ _ key).ends (fun _ last next => ?_) fun _ _ no => no
      obtain ⟨kept, erased⟩ := next
      have kept : last.memory = machine.memory := Eq.trans kept same
      have erased : table last.layer = (table machine.layer.delegate).erase key :=
        Eq.trans erased (congrArg (Table.erase · key) entries)
      have dead : machine.memory.isLive reference = false := by
        by_contra live
        rw [same, Memory.resolve, if_pos (Bool.not_eq_false _ |>.mp live)] at gone
        cases gone
      refine Accounted.miss accounts ?_
      show missing last.memory (table last.layer) + 1 = _
      rw [kept, erased, missing_erase sound.distinct answer.symm dead]

theorem remove_accounts (key : K) :
    (remove delegate key).Ends machine
      (fun _ later => Sound table later.layer later.memory ∧
        Accounts table reclamations later.layer later.memory)
      fun _ _ => False := by
  refine accounts_of_idle (remove_sound reliable key sound) ?_
  simp only [remove, below, ends_bind, ends_within]
  refine (drain_accounts reliable sound accounts).imp (fun _ drained next => ?_) fun _ _ no => no
  refine (reliable.remove _ _ key).ends (fun found later _ => ?_) fun _ _ no => no
  cases found with
  | none => exact next.2
  | some reference => exact next.2

theorem clear_accounts :
    (clear delegate).Ends machine
      (fun _ later => Sound table later.layer later.memory ∧
        Accounts table reclamations later.layer later.memory)
      fun _ _ => False := by
  refine accounts_of_idle (clear_sound reliable sound) ?_
  simp only [clear, below, ends_bind, ends_modifyLayer, ends_within]
  let unpinned : Machine K V (SoftLayer K V σ) :=
    { machine with layer := { machine.layer with ring := [] } }
  have sound : Sound table unpinned.layer unpinned.memory := sound.same rfl rfl
  refine (drain_accounts reliable sound accounts).imp (fun _ drained next => ?_) fun _ _ no => no
  exact (reliable.clear _ _).ends (fun _ _ _ => next.2) fun _ _ no => no

theorem length_accounts :
    (length delegate).Ends machine
      (fun _ later => Sound table later.layer later.memory ∧
        Accounts table reclamations later.layer later.memory)
      fun _ _ => False := by
  refine accounts_of_idle ((length_sound reliable sound).imp (fun _ _ next => next.1)
    fun _ _ no => no) ?_
  simp only [length, below, ends_bind, ends_within]
  refine (drain_accounts reliable sound accounts).imp (fun _ drained next => ?_) fun _ _ no => no
  exact (reliable.length _ _).ends (fun _ _ _ => next.2) fun _ _ no => no

end Calls

/-- The operations of a soft layer on a reliable delegate account for what has been reclaimed. -/
theorem accounted_tallies (reliable : delegate.Reliable Content.reference.handles table) :
    (SoftLayer.cache delegate).Tallies
      (fun layer memory => Sound table layer memory ∧ Accounts table reclamations layer memory)
      (shows table) where
  put _ _ key value start _ := put_accounts reliable start.1 start.2 key value
  get _ _ key start _ :=
    ((get_sound reliable key start.1).and (get_accounts reliable start.1 start.2 key)).imp
      (fun _ _ next => ⟨⟨next.1.1, next.2⟩, next.1.2⟩) fun _ _ no => no.1
  remove _ _ key start _ := remove_accounts reliable start.1 start.2 key
  clear _ _ start _ := clear_accounts reliable start.1 start.2
  length _ _ start _ :=
    ((length_sound reliable start.1).and (length_accounts reliable start.1 start.2)).imp
      (fun _ _ next => ⟨next.2, next.1.2⟩) fun _ _ no => no.1

/-! ### The memory manager's side -/

section Reclaiming

variable (reliable : delegate.Reliable Content.reference.handles table)
  (sound : Sound table machine.layer machine.memory)
  (accounts : Accounts table reclamations machine.layer machine.memory)

include reliable sound accounts

/-- Every value that a reclamation takes is missing after it. -/
theorem reclaim_accounts (limit : Nat) :
    (reclaim delegate limit).Ends machine
      (fun number later => Sound table later.layer later.memory ∧
        Accounts table (reclamations + number) later.layer later.memory)
      fun _ _ => False := by
  have kept : (reclaim delegate limit).Ends machine
      (fun _ later => later.layer.counters = machine.layer.counters ∧
        later.layer.delegate = machine.layer.delegate)
      fun _ _ => False := by
    simp only [reclaim, ends_bind, ends_withQueue, ends_layer, ends_report, ends_pure, and_self]
  refine ((reclaim_sound reliable limit sound).and
    ((reclaim_takes reliable sound limit).and kept)).imp (fun number later next => ?_)
      fun _ _ no => no.1
  obtain ⟨later, ⟨rfl, hidden, -⟩, counters, delegate⟩ := next
  refine ⟨later, ?_⟩
  unfold shows at hidden
  rw [delegate] at hidden
  unfold Accounts
  rw [counters, delegate, missing_of_hidden sound.distinct ?_ ?_ hidden, List.length_map]
  · exact Accounted.more accounts _
  · exact (sound.nodup_loose reliable).sublist ((List.take_sublist _ _).map _)
  · intro key member
    obtain ⟨value, shown, -⟩ := (sound.mem_loose reliable key).mp
      (((List.take_sublist _ _).map _).subset member)
    exact Option.isSome_iff_exists.mpr ⟨value, shown⟩

/-- So is the value that a forced reclamation takes. -/
theorem forceReclaim_accounts (key : K) :
    (forceReclaim delegate key).Ends machine
      (fun answer later => Sound table later.layer later.memory ∧
        Accounts table (reclamations + answer.toNat) later.layer later.memory)
      fun _ _ => False := by
  have kept : (forceReclaim delegate key).Ends machine
      (fun _ later => later.layer.counters = machine.layer.counters ∧
        later.layer.delegate = machine.layer.delegate)
      fun _ _ => False := by
    simp only [forceReclaim, ends_withQueue, and_self]
  refine ((forceReclaim_sound reliable key sound).and kept).imp (fun answer later next => ?_)
    fun _ _ no => no.1
  obtain ⟨⟨later, answered, hidden⟩, counters, delegate⟩ := next
  refine ⟨later, ?_⟩
  unfold shows at hidden answered
  rw [delegate] at hidden
  unfold Accounts
  rw [counters, delegate]
  rw [missing_of_hidden_key sound.distinct hidden, ← answered]
  exact Accounted.more accounts _

end Reclaiming

end SoftLayer

/-! ### Stacks -/

namespace Shape

variable {content : Content} {reclamations : Nat}

/-- The counters of the soft layer. -/
def softCounters : {content : Content} → (shape : Shape content) → shape.State K V → SoftCounters
  | _, .store, _ => {}
  | _, .lru delegate, layer => delegate.softCounters layer.delegate
  | _, .probe delegate, layer => delegate.softCounters layer.delegate
  | _, .soft _, layer => layer.counters

/-- The number of stored references whose values were reclaimed. -/
def missing : {content : Content} → (shape : Shape content) → shape.State K V → Memory K V → Nat
  | _, .store, _, _ => 0
  | _, .lru delegate, layer, memory => delegate.missing layer.delegate memory
  | _, .probe delegate, layer, memory => delegate.missing layer.delegate memory
  | _, .soft delegate, layer, memory =>
    LayeredCache.missing memory (delegate.table layer.delegate)

/-- The stack is sound, and its counters and what is missing in it account for the reclamations. -/
def Accounts (reclamations : Nat) (shape : Shape content) (layer : shape.State K V)
    (memory : Memory K V) : Prop :=
  shape.Sound layer memory ∧
    Accounted reclamations (shape.softCounters layer) (shape.missing layer memory)

theorem accounted_tallies {shape : Shape content} (plain : shape.Plain)
    (soft : shape.hasSoft = true) :
    (shape.cache : Cache K V (shape.State K V) (content.Item K V)).Tallies
      (shape.Accounts reclamations) shape.shows := by
  induction shape with
  | store => cases soft
  | lru delegate inductionHypothesis => exact LruLayer.tallies (inductionHypothesis plain soft)
  | probe delegate => exact plain.elim
  | soft delegate => exact SoftLayer.accounted_tallies (reliable plain (hasSoft_reference delegate))

/-- What an action of the soft layer reclaims is accounted for in the whole stack. -/
theorem visitSoft_accounts {α : Type} {shape : Shape content}
    {action : (delegate : Shape .reference) → Action K V (SoftLayer K V (delegate.State K V)) α}
    (reclaimed : α → Nat)
    (each : ∀ (delegate : Shape .reference) machine, delegate.Plain →
      (Shape.soft delegate).Accounts reclamations machine.layer machine.memory →
      (action delegate).Ends machine
        (fun value later => (Shape.soft delegate).Accounts (reclamations + reclaimed value)
          later.layer later.memory)
        fun _ _ => False)
    (plain : shape.Plain) (soft : shape.hasSoft = true)
    {machine : Machine K V (shape.State K V)}
    (accounts : shape.Accounts reclamations machine.layer machine.memory) :
    (shape.visitSoft action).Ends machine
      (fun answer later => ∃ value, answer = some value ∧
        shape.Accounts (reclamations + reclaimed value) later.layer later.memory)
      fun _ _ => False := by
  induction shape with
  | store => cases soft
  | lru delegate inductionHypothesis =>
    rw [visitSoft, LruLayer.below, ends_within]
    exact inductionHypothesis plain soft accounts
  | probe delegate => exact plain.elim
  | soft delegate =>
    rw [visitSoft, ends_map]
    exact (each delegate machine plain accounts).imp (fun value _ next => ⟨value, rfl, next⟩)
      fun _ _ no => no

/-! ### Settings -/

section Settings

variable {shape : Shape content} {layer later : shape.State K V} {memory : Memory K V}

omit [DecidableEq K] in
/-- Settings do not matter. -/
theorem Retuned.missing_eq (retuned : shape.Retuned layer later) :
    shape.missing later memory = shape.missing layer memory := by
  induction shape with
  | store => rfl
  | lru delegate inductionHypothesis => exact inductionHypothesis retuned
  | probe delegate inductionHypothesis => exact inductionHypothesis retuned
  | soft delegate => exact congrArg (LayeredCache.missing memory) retuned.2.table

omit [DecidableEq K] in
/-- Nor does which values callers hold. -/
theorem missing_holding (values : Table String (Shared V)) :
    shape.missing layer { memory with values } = shape.missing layer memory := by
  induction shape with
  | store => rfl
  | lru delegate inductionHypothesis => exact inductionHypothesis
  | probe delegate inductionHypothesis => exact inductionHypothesis
  | soft delegate => rfl

/-- The action succeeds and leaves the counters of the soft layer alone. -/
def Uncounted {α : Type} (shape : Shape content) (action : Action K V (shape.State K V) α) : Prop :=
  ∀ machine, action.Ends machine
    (fun _ later => shape.softCounters later.layer = shape.softCounters machine.layer)
    fun _ _ => False

omit [DecidableEq K] in
theorem Uncounted.map {α β : Type} {action : Action K V (shape.State K V) α}
    (uncounted : shape.Uncounted action) (change : α → β) : shape.Uncounted (change <$> action) := by
  intro machine
  rw [ends_map]
  exact uncounted machine

omit [DecidableEq K] in
theorem uncounted_pure {α : Type} (value : α) :
    shape.Uncounted (pure value : Action K V (shape.State K V) α) := fun _ => rfl

omit [DecidableEq K] in
/-- A visit counts nothing if no part of the stack does. -/
theorem uncounted_visit {α : Type} {target : Nat}
    {action : {content : Content} → (part : Shape content) → Action K V (part.State K V) α}
    (uncounted : ∀ {content : Content} (part : Shape content), part.Uncounted (action part)) :
    shape.Uncounted (shape.visit target action) := by
  induction shape with
  | store =>
    unfold visit
    split
    · exact (uncounted .store).map some
    · exact uncounted_pure none
  | lru delegate inductionHypothesis =>
    unfold visit
    split
    · exact (uncounted (.lru delegate)).map some
    · intro machine
      rw [LruLayer.below, ends_within]
      exact inductionHypothesis _
  | probe delegate inductionHypothesis =>
    unfold visit
    split
    · exact (uncounted (.probe delegate)).map some
    · intro machine
      rw [ProbeLayer.below, ends_within]
      exact inductionHypothesis _
  | soft delegate inductionHypothesis =>
    unfold visit
    split
    · exact (uncounted (.soft delegate)).map some
    · intro machine
      rw [SoftLayer.below, ends_within]
      exact (inductionHypothesis _).imp (fun _ _ _ => rfl) fun _ _ no => no

theorem uncounted_setCapacity (shape : Shape .value) (position capacity : Nat) :
    shape.Uncounted (shape.perform (.setCapacity position capacity : Deed K V)) := by
  refine Uncounted.map (Uncounted.map (uncounted_visit fun part => ?_) _) _
  cases part with
  | lru delegate =>
    refine Uncounted.map (fun machine => ?_) _
    unfold LruLayer.setCapacity
    split <;> rfl
  | store => exact uncounted_pure _
  | probe delegate => exact uncounted_pure _
  | soft delegate => exact uncounted_pure _

omit [DecidableEq K] in
theorem uncounted_addFault (shape : Shape .value) (position : Nat) (fault : Fault) :
    shape.Uncounted (shape.addFault position fault : Action K V _ _) := by
  intro machine
  unfold Shape.addFault
  rw [ends_bind]
  refine uncounted_visit (fun part => ?_) machine
  cases part with
  | probe delegate => exact fun machine => rfl
  | store => exact uncounted_pure _
  | lru delegate => exact uncounted_pure _
  | soft delegate => exact uncounted_pure _

end Settings

end Shape

/-! ### Runs -/

/-- The number of values that were reclaimed. -/
def Outcome.reclamations : Outcome V → Nat
  | .reclaimed (some number) => number
  | .forced (some answer) => answer.toNat
  | .reclaimed none | .forced none | .reply _ | .settled _ | .done => 0

/-- The sum of what all reclamations have answered. -/
def reclamations (past : List (Occurrence K V)) : Nat :=
  (past.map fun occurrence =>
    match occurrence.result with
    | .ok outcome => outcome.reclamations
    | .error _ => 0).sum

omit [DecidableEq K] in
theorem reclamations_concat (past : List (Occurrence K V)) (deed : Deed K V)
    (outcome : Outcome V) :
    reclamations (past ++ [⟨deed, .ok outcome⟩]) = reclamations past + outcome.reclamations := by
  simp [reclamations]

namespace Shape

variable {shape : Shape .value} {number : Nat} {machine : Machine K V (shape.State K V)}

/-- What changes settings and reclaims nothing leaves the account as it is. -/
theorem Accounts.retuned {action : Action K V (shape.State K V) (Outcome V)}
    (accounts : shape.Accounts number machine.layer machine.memory)
    (retunes : shape.Retunes action) (uncounted : shape.Uncounted action)
    (silent : action.Ends machine (fun outcome _ => outcome.reclamations = 0) fun _ _ => True) :
    action.Ends machine
      (fun outcome later =>
        shape.Accounts (number + outcome.reclamations) later.layer later.memory)
      fun _ _ => False := by
  have retuned := (retunes machine.layer machine.memory).ends (fun _ _ next => next) fun _ _ no => no
  refine (retuned.and ((uncounted machine).and silent)).imp (fun outcome later next => ?_)
    fun _ _ no => no.1
  obtain ⟨⟨memory, retuned⟩, counters, none⟩ := next
  refine ⟨memory ▸ accounts.1.retuned retuned, ?_⟩
  rw [none, memory, counters, retuned.missing_eq]
  exact accounts.2

/-- Every deed is accounted for by the numbers that it answers. -/
theorem accounts_perform (plain : shape.Plain) (soft : shape.hasSoft = true) (deed : Deed K V)
    (accounts : shape.Accounts number machine.layer machine.memory) :
    (shape.perform deed).Ends machine
      (fun outcome later =>
        shape.Accounts (number + outcome.reclamations) later.layer later.memory)
      fun _ _ => False := by
  cases deed with
  | call call =>
    rw [perform, ends_map]
    exact (accounted_tallies plain soft).call accounts call
  | reclaim limit =>
    rw [perform, ends_map]
    refine (visitSoft_accounts id (fun delegate _ plain accounts => ?_) plain soft accounts).imp
      (fun _ _ next => ?_) fun _ _ no => no
    · exact SoftLayer.reclaim_accounts (reliable plain (hasSoft_reference delegate)) accounts.1
        accounts.2 limit
    · obtain ⟨_, rfl, next⟩ := next
      exact next
  | reclaimAll =>
    rw [perform, ends_map]
    refine (visitSoft_accounts id (fun delegate _ plain accounts => ?_) plain soft accounts).imp
      (fun _ _ next => ?_) fun _ _ no => no
    · simp only [SoftLayer.reclaimAll, ends_bind, ends_layer]
      exact SoftLayer.reclaim_accounts (reliable plain (hasSoft_reference delegate)) accounts.1
        accounts.2 _
    · obtain ⟨_, rfl, next⟩ := next
      exact next
  | forceReclaim key =>
    rw [perform, ends_map]
    refine (visitSoft_accounts Bool.toNat (fun delegate _ plain accounts => ?_) plain soft
      accounts).imp (fun _ _ next => ?_) fun _ _ no => no
    · exact SoftLayer.forceReclaim_accounts (reliable plain (hasSoft_reference delegate))
        accounts.1 accounts.2 key
    · obtain ⟨_, rfl, next⟩ := next
      exact next
  | setCapacity position capacity =>
    refine accounts.retuned (retunes_setCapacity shape position capacity)
      (uncounted_setCapacity shape position capacity) ?_
    rw [perform, ends_map]
    exact ends_of_forall (fun _ _ => rfl) fun _ _ => trivial
  | setWindow window =>
    rw [perform, ends_map]
    refine (visitSoft_accounts (fun _ => 0) (fun delegate machine _ accounts => ?_) plain soft
      accounts).imp (fun _ _ next => ?_) fun _ _ no => no
    · obtain ⟨sound, accounted⟩ := accounts
      have same : (SoftLayer.setWindow delegate.cache window).Ends machine
          (fun _ later => ∃ window, later.layer = { machine.layer with window } ∧
            later.memory = machine.memory) fun _ _ => False := by
        unfold SoftLayer.setWindow
        split
        · exact ⟨_, rfl, rfl⟩
        · exact ⟨_, rfl, rfl⟩
      refine same.imp (fun _ later next => ?_) fun _ _ no => no
      obtain ⟨window, layer, memory⟩ := next
      rw [layer, memory]
      exact ⟨SoftLayer.Sound.same sound rfl rfl, accounted⟩
    · obtain ⟨_, rfl, next⟩ := next
      exact next
  | addFault position fault =>
    refine accounts.retuned (retunes_addFault shape position fault) (fun machine => ?_) ?_
    · rw [perform, ends_bind]
      exact uncounted_addFault shape position fault machine
    · rw [perform, ends_bind]
      exact ends_of_forall (fun _ _ => rfl) fun _ _ => trivial
  | hold name value =>
    refine ⟨accounts.1.holding _, ?_⟩
    show Accounted _ _ (shape.missing _ { machine.memory with values := _ })
    rw [missing_holding]
    exact accounts.2
  | release name =>
    refine ⟨accounts.1.holding _, ?_⟩
    show Accounted _ _ (shape.missing _ { machine.memory with values := _ })
    rw [missing_holding]
    exact accounts.2

theorem accounts_run (plain : shape.Plain) (soft : shape.hasSoft = true) (deeds : List (Deed K V))
    (start : shape.Accounts 0 machine.layer machine.memory) :
    shape.Accounts (reclamations (shape.run deeds machine).1)
      (shape.run deeds machine).2.layer (shape.run deeds machine).2.memory :=
  run_induction
    (fun past machine => shape.Accounts (reclamations past) machine.layer machine.memory)
    (fun _ => True)
    (fun past _ deed _ accounts =>
      (accounts_perform plain soft deed accounts).imp
        (fun outcome _ next => reclamations_concat past deed outcome ▸ next) fun _ _ no => no.elim)
    deeds (fun _ _ => trivial) [] machine start

end Shape

/-! ### Built stacks -/

/-- A built stack has reclaimed nothing and counted nothing. -/
theorem Blueprint.accounts_of_build {blueprint : Blueprint} {stack : Stack K V .value}
    (built : blueprint.build = .ok stack) :
    stack.shape.Accounts 0 stack.machine.layer stack.machine.memory := by
  have handed : Handed fun {content : Content} (_ : List Policy) (stack : Stack K V content) =>
      stack.shape.table stack.state = Table.empty ∧
        Accounted 0 (stack.shape.softCounters stack.state) (stack.shape.missing stack.state {}) := by
    refine ⟨fun _ _ => ⟨rfl, Accounted.start⟩, fun _ _ _ _ holds => holds, ?_⟩
    rintro layers stack window - ⟨empty, -⟩
    refine ⟨congrArg (Table.mapItems _) empty, ?_⟩
    show Accounted 0 {} (missing {} (stack.shape.table stack.state))
    rw [empty]
    exact Accounted.start
  obtain ⟨other, same, -, accounted⟩ := build_of_accepted handed (accepted_of_build built)
  obtain rfl : stack = other := Except.ok.inj (built.symm.trans same)
  exact ⟨(sound_of_build built).2, accounted⟩

/-- However a built stack with a soft layer has been used: the numbers that its reclamations have
answered, a forced reclamation that succeeded being one, sum up to the entries that were purged, the
reclaimed misses and the stored references whose values were reclaimed. The two counters start again
at zero after 64 bits, so the sum is taken in 64 bits, and is exact as long as it fits. -/
theorem Blueprint.build_accounts {blueprint : Blueprint} {stack : Stack K V .value}
    (built : blueprint.build = .ok stack) (soft : stack.shape.hasSoft = true)
    (deeds : List (Deed K V)) :
    let ended := stack.shape.run deeds stack.machine
    let counters := stack.shape.softCounters ended.2.layer
    let missing := stack.shape.missing ended.2.layer ended.2.memory
    UInt64.ofNat (reclamations ended.1) =
        counters.purgedEntries + counters.reclaimedMisses + UInt64.ofNat missing ∧
      (reclamations ended.1 < 2 ^ 64 →
        reclamations ended.1 =
          counters.purgedEntries.toNat + counters.reclaimedMisses.toNat + missing) := by
  intro ended counters missing
  obtain ⟨-, accounted⟩ := Shape.accounts_run (sound_of_build built).1 soft deeds
    (accounts_of_build built)
  exact ⟨accounted.sum_eq, accounted.sum_toNat⟩

/-- Four values are reclaimed, one of which is asked for twice. A look-up finds the first one missing
and a put purges the second one. -/
def reclaimedFour : List (Deed Nat String) :=
  [.call (.put 1 ⟨0, "one"⟩), .call (.put 2 ⟨1, "two"⟩), .forceReclaim 2, .forceReclaim 2,
    .call (.get 2), .forceReclaim 1, .call (.put 3 ⟨2, "three"⟩), .call (.put 4 ⟨3, "four"⟩),
    .reclaimAll]

/-- The other two are still stored. -/
theorem build_accounts_between :
    Blueprint.build ⟨"pages", [.lru 2, .soft 1, .lru 3], false⟩ = .ok between ∧
      between.shape.hasSoft = true ∧
      let ended := between.shape.run reclaimedFour between.machine
      let counters := between.shape.softCounters ended.2.layer
      let missing := between.shape.missing ended.2.layer ended.2.memory
      reclamations ended.1 = 4 ∧ counters.purgedEntries = 1 ∧ counters.reclaimedMisses = 1 ∧
        missing = 2 ∧
        reclamations ended.1 =
          counters.purgedEntries.toNat + counters.reclaimedMisses.toNat + missing := by
  have built : Blueprint.build ⟨"pages", [.lru 2, .soft 1, .lru 3], false⟩ = .ok between := rfl
  have four : reclamations (between.shape.run reclaimedFour between.machine).1 = 4 := by
    decide +kernel
  obtain ⟨-, accounted⟩ := Blueprint.build_accounts built rfl reclaimedFour
  refine ⟨built, rfl, four, by decide +kernel, by decide +kernel, by decide +kernel, ?_⟩
  exact accounted (by omega)

end LayeredCache
