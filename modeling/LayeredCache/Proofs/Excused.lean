/-
This file proves what a recency layer keeps up when a put of its delegate may store the item and
fail nevertheless.

The delegate may be a recency layer itself, whose put has stored its item when the eviction fails
that follows. The outer layer takes an error of its delegate for a put that did nothing and does not
track the key. So the key of a failed put is excused until a put of it succeeds, and only the keys
that are excused can be stored without being tracked. Both layers keep up everything else: removals
have their effect or none, and a put that succeeds has settled what was overdue.
-/

import LayeredCache.Proofs.Owing

namespace LayeredCache

open LayeredCache.Action

variable {K V σ X : Type}

/-- Every operation leaves the stored keys covered up to excused ones. A put that succeeds excuses
its key no longer and leaves a cache that fits; a put that fails excuses its key and has changed
nothing, unless it may fail late. The other operations have their effect or none. -/
structure Cache.Excuses [DecidableEq K] (cache : Cache K V σ X) (late : Prop)
    (table : σ → Table K X) (covers : List K → σ → Prop) (fits : σ → Prop) : Prop where
  mono : ∀ excused more layer, excused ⊆ more → covers excused layer → covers more layer
  put : ∀ excused layer memory key item, covers excused layer →
    (cache.put key item).Leaves layer memory
      (fun _ later _ => covers (excused.filter (· ≠ key)) later ∧ fits later ∧
        (table later).keys ⊆ key :: (table layer).keys)
      fun later _ => covers (key :: excused) later ∧
        (table later = table layer ∨ late ∧ (table later).keys ⊆ key :: (table layer).keys)
  get : ∀ excused layer memory key, covers excused layer →
    (cache.get key).Leaves layer memory
      (fun _ later _ => covers excused later ∧ table later = table layer)
      fun later _ => covers excused later ∧ table later = table layer
  remove : ∀ excused layer memory key, covers excused layer →
    (cache.remove key).Leaves layer memory
      (fun _ later _ => covers excused later ∧ (fits layer → fits later) ∧
        table later = (table layer).erase key)
      fun later _ => covers excused later ∧ table later = table layer
  clear : ∀ excused layer memory, covers excused layer →
    cache.clear.Leaves layer memory
      (fun _ later _ => covers excused later ∧ table later = Table.empty)
      fun later _ => covers excused later ∧ table later = table layer
  length : ∀ excused layer memory, covers excused layer →
    cache.length.Leaves layer memory
      (fun number later _ => covers excused later ∧ table later = table layer ∧
        number = (table layer).size)
      fun later _ => covers excused later ∧ table later = table layer

variable [DecidableEq K]

/-- Nothing is to be shown of a cache that never covers its keys. -/
theorem Cache.Excuses.of_never {cache : Cache K V σ X} {late : Prop} {table : σ → Table K X}
    {covers : List K → σ → Prop} {fits : σ → Prop}
    (never : ∀ excused layer, ¬ covers excused layer) :
    cache.Excuses late table covers fits where
  mono _ _ _ _ covers := absurd covers (never _ _)
  put _ _ _ _ _ covers := absurd covers (never _ _)
  get _ _ _ _ covers := absurd covers (never _ _)
  remove _ _ _ _ covers := absurd covers (never _ _)
  clear _ _ _ covers := absurd covers (never _ _)
  length _ _ _ covers := absurd covers (never _ _)

theorem Table.keys_insert_subset (table : Table K X) (key : K) (item : X) :
    (table.insert key item).keys ⊆ key :: table.keys := by
  rw [Table.keys_insert]
  exact List.cons_subset_cons key (List.filter_subset_self _)

theorem excuses_store (handles : List X → Handles K V) (late : Prop) :
    (Store.cache handles).Excuses late Store.table (fun _ store => store.table.Distinct)
      fun _ => True where
  mono _ _ _ _ distinct := distinct
  put _ store _ key item distinct _ :=
    ⟨distinct.insert key item, trivial, store.table.keys_insert_subset key item⟩
  get _ _ _ _ distinct _ := ⟨distinct, rfl⟩
  remove _ _ _ key distinct _ := ⟨distinct.erase key, fun _ => trivial, rfl⟩
  clear _ _ _ _ _ := ⟨Table.distinct_empty, rfl⟩
  length _ _ _ distinct _ := ⟨distinct, rfl, rfl⟩

omit [DecidableEq K] in
/-- What a call of the delegate covers it covers through a probe, if that is no less than what was
covered before. -/
theorem ProbeLayer.intercept_covers {α : Type} {position : Nat} {method : Method} {key : Option K}
    {action : Action K V σ α} {layer : ProbeLayer σ} {memory : Memory K V}
    {covers failing : σ → Prop} {done : α → σ → Prop} {failed : σ → Prop}
    (before : FailsBefore layer.faults)
    (leaves : action.Leaves layer.delegate memory
      (fun value later _ => covers later ∧ done value later)
      fun later _ => failing later ∧ failed later)
    (unchanged : failing layer.delegate ∧ failed layer.delegate) :
    (intercept position method key action).Leaves layer memory
      (fun value later _ =>
        (FailsBefore later.faults ∧ covers later.delegate) ∧ done value later.delegate)
      fun later _ =>
        (FailsBefore later.faults ∧ failing later.delegate) ∧ failed later.delegate :=
  (intercept_before before unchanged leaves).imp
    (fun _ _ _ next => ⟨⟨next.1, next.2.1⟩, next.2.2⟩)
    fun _ _ next => ⟨⟨next.1, next.2.1⟩, next.2.2⟩

/-- A probe that fails calls before they take effect changes nothing of this. -/
theorem ProbeLayer.excuses {delegate : Cache K V σ X} {late : Prop} {table : σ → Table K X}
    {covers : List K → σ → Prop} {fits : σ → Prop}
    (excuses : delegate.Excuses late table covers fits) (position : Nat) :
    (ProbeLayer.cache position delegate).Excuses late (fun layer => table layer.delegate)
      (fun excused layer => FailsBefore layer.faults ∧ covers excused layer.delegate)
      fun layer => fits layer.delegate where
  mono excused more layer fewer covered :=
    ⟨covered.1, excuses.mono excused more layer.delegate fewer covered.2⟩
  put excused layer memory key item covered :=
    have unchanged := excuses.mono excused (key :: excused) _ (List.subset_cons_self _ _) covered.2
    intercept_covers covered.1 (excuses.put excused layer.delegate memory key item covered.2)
      ⟨unchanged, Or.inl rfl⟩
  get excused layer memory key covered :=
    intercept_covers covered.1 (excuses.get excused layer.delegate memory key covered.2)
      ⟨covered.2, rfl⟩
  remove excused layer memory key covered :=
    intercept_covers covered.1 (excuses.remove excused layer.delegate memory key covered.2)
      ⟨covered.2, rfl⟩
  clear excused layer memory covered :=
    intercept_covers covered.1 (excuses.clear excused layer.delegate memory covered.2)
      ⟨covered.2, rfl⟩
  length excused layer memory covered :=
    intercept_covers covered.1 (excuses.length excused layer.delegate memory covered.2)
      ⟨covered.2, rfl⟩

/-! ### The keys of a recency layer -/

namespace LruLayer

/-- Every stored key is tracked, is dealt with at the moment, or is excused because the delegate may
fail late. No more keys are tracked than the capacity and the overdue victims allow for. -/
structure Covering (late : Prop) (table : σ → Table K X) (covers : List K → σ → Prop)
    (capacity : Nat) (excused keys current : List K) (layer : LruLayer K σ) : Prop where
  order : layer.order.Represents keys
  tracked : ∀ key ∈ (table layer.delegate).keys, key ∈ keys ∨ key ∈ current ∨ late ∧ key ∈ excused
  bounded : keys.length ≤ capacity + layer.overdue
  capacity : layer.capacity = capacity
  delegate : covers excused layer.delegate

/-- Between two operations nothing is being dealt with. -/
def Covers (late : Prop) (table : σ → Table K X) (covers : List K → σ → Prop) (capacity : Nat)
    (excused : List K) (layer : LruLayer K σ) : Prop :=
  ∃ keys, Covering late table covers capacity excused keys [] layer

/-- Nothing is overdue. -/
def Fits (fits : σ → Prop) (layer : LruLayer K σ) : Prop :=
  layer.overdue = 0 ∧ fits layer.delegate

section Covering

variable {delegate : Cache K V σ X} {late : Prop} {table : σ → Table K X}
  {covers : List K → σ → Prop} {fits : σ → Prop} {capacity : Nat} {excused keys : List K}
  {layer : LruLayer K σ} {machine : Machine K V (LruLayer K σ)}

/-- A change of the delegate alone that leaves its table leaves the keys covered. -/
theorem Covering.kept {later : LruLayer K σ}
    (covering : Covering late table covers capacity excused keys [] layer)
    (order : later.order = layer.order) (overdue : later.overdue = layer.overdue)
    (same : later.capacity = layer.capacity) (delegate : covers excused later.delegate)
    (entries : table later.delegate = table layer.delegate) :
    Covers late table covers capacity excused later :=
  ⟨keys, order ▸ covering.order, entries ▸ covering.tracked, overdue ▸ covering.bounded,
    same.trans covering.capacity, delegate⟩

/-- A popped victim is removed from the delegate, or it is tracked again and counted as overdue. -/
theorem evict_covering (excuses : delegate.Excuses late table covers fits) {front : List K}
    {victim : K}
    (covering : Covering late table covers capacity excused front [victim] machine.layer)
    (gone : victim ∉ front) :
    (evict delegate victim).Ends machine
      (fun _ later => Covering late table covers capacity excused front [] later.layer ∧
        later.layer.overdue = machine.layer.overdue)
      fun _ later => Covers late table covers capacity excused later.layer := by
  simp only [ends_evict, below, ends_within]
  refine (excuses.remove excused _ _ victim covering.delegate).ends (fun _ later next => ?_)
    fun _ later next => ?_
  · obtain ⟨delegate, -, erased⟩ := next
    refine ⟨⟨covering.order, fun key stored => ?_, covering.bounded, covering.capacity, delegate⟩,
      rfl⟩
    have stored : key ∈ (table later.layer).keys := stored
    rw [erased, Table.keys_erase] at stored
    obtain ⟨stored, other⟩ := List.mem_filter.mp stored
    rcases covering.tracked key stored with tracked | same | excused
    · exact Or.inl tracked
    · exact absurd (List.mem_singleton.mp same) (of_decide_eq_true other)
    · exact Or.inr (Or.inr excused)
  · obtain ⟨delegate, entries⟩ := next
    obtain ⟨-, pushed⟩ := covering.order.pushBack_untracked gone
    refine ⟨front ++ [victim], pushed, fun key stored => ?_, ?_, covering.capacity, delegate⟩
    · rw [List.mem_append]
      have stored : key ∈ (table later.layer).keys := stored
      rw [entries] at stored
      rcases covering.tracked key stored with tracked | same | excused
      · exact Or.inl (Or.inl tracked)
      · exact Or.inl (Or.inr same)
      · exact Or.inr (Or.inr excused)
    · have bounded := covering.bounded
      rw [List.length_append, List.length_singleton]
      show _ ≤ capacity + (machine.layer.overdue + 1)
      omega

/-- Looking for an overdue victim finds nothing owed, or pops one. -/
theorem takeOverdue_covering
    (covering : Covering late table covers capacity excused keys [] layer) :
    (∃ later, takeOverdue layer = (none, later) ∧
      Covering late table covers capacity excused keys [] later ∧ later.overdue = 0) ∨
    ∃ front victim later, takeOverdue layer = (some victim, later) ∧ victim ∉ front ∧
      Covering late table covers capacity excused front [victim] later ∧
      later.overdue + 1 = layer.overdue := by
  have bounded := covering.bounded
  have same := covering.capacity
  rcases takeOverdue_cases covering.order with
    ⟨taken, settled⟩ | ⟨front, victim, order, rfl, overflows, owed, taken, popped⟩
  · have short : keys.length ≤ capacity + 0 := by omega
    exact Or.inl ⟨_, taken, ⟨covering.order, covering.tracked, short, same, covering.delegate⟩, rfl⟩
  · rw [List.length_append, List.length_singleton] at bounded
    have short : front.length ≤ capacity + (layer.overdue - 1) := by omega
    have gone := untracked_of_nodup covering.order.nodup
    refine Or.inr ⟨front, victim, _, taken, gone, ⟨popped, fun key stored => ?_, short, same,
      covering.delegate⟩, Nat.sub_add_cancel owed⟩
    rcases covering.tracked key stored with tracked | none | excused
    · exact (List.mem_append.mp tracked).imp_right Or.inl
    · cases none
    · exact Or.inr (Or.inr excused)

/-- Tracking a key that the delegate has got fits the capacity, or pops a victim. -/
theorem track_covering {key : K}
    (covering : Covering late table covers capacity excused keys [key] layer) :
    (∃ keys later, track key layer = (none, later) ∧
      Covering late table covers capacity excused keys [] later) ∨
    ∃ front victim later, track key layer = (some victim, later) ∧ victim ∉ front ∧
      Covering late table covers capacity excused front [victim] later := by
  have bounded := covering.bounded
  have same := covering.capacity
  have tracked : ∀ other ∈ (table layer.delegate).keys,
      other ∈ key :: keys.erase key ∨ late ∧ other ∈ excused := by
    intro other stored
    rw [List.mem_cons]
    rcases covering.tracked other stored with tracked | same | excused
    · by_cases same : other = key
      · exact Or.inl (Or.inl same)
      · exact Or.inl (Or.inr ((List.mem_erase_of_ne same).mpr tracked))
    · exact Or.inl (Or.inl (List.mem_singleton.mp same))
    · exact Or.inr excused
  rcases track_cases covering.order key with
    ⟨later, taken, used, fits⟩ | ⟨front, victim, later, split, gone, -, shorter, taken, popped⟩
  · have short : (key :: keys.erase key).length ≤ capacity + layer.overdue := by omega
    exact Or.inl ⟨_, _, taken, used, fun other stored => (tracked other stored).imp_right Or.inr,
      short, same, covering.delegate⟩
  · rw [split] at tracked
    refine Or.inr ⟨front, victim, _, taken, gone, popped, fun other stored => ?_,
      Nat.le_trans shorter bounded, same, covering.delegate⟩
    rcases tracked other stored with tracked | excused
    · exact (List.mem_append.mp tracked).imp_right Or.inl
    · exact Or.inr (Or.inr excused)

/-- Enough rounds settle everything that is overdue, or one of them fails. -/
theorem settle_covering (excuses : delegate.Excuses late table covers fits) {rounds : Nat}
    (covering : Covering late table covers capacity excused keys [] machine.layer)
    (enough : machine.layer.overdue ≤ rounds) :
    (settle delegate rounds).Ends machine
      (fun _ later => Covers late table covers capacity excused later.layer ∧
        later.layer.overdue = 0)
      fun _ later => Covers late table covers capacity excused later.layer := by
  induction rounds generalizing machine keys with
  | zero => exact ⟨⟨keys, covering⟩, Nat.le_zero.mp enough⟩
  | succ rounds inductionHypothesis =>
    simp only [settle, ends_bind, ends_updateLayer]
    rcases takeOverdue_covering covering with
      ⟨later, taken, next, settled⟩ | ⟨front, victim, later, taken, gone, popped, fewer⟩
    · rw [taken]
      exact ⟨⟨keys, next⟩, settled⟩
    · rw [taken]
      simp only [ends_bind]
      refine Ends.imp (evict_covering excuses popped gone) ?_ fun _ _ failed => failed
      rintro _ last ⟨next, overdue⟩
      exact inductionHypothesis next (by rw [overdue]; show later.overdue ≤ _; omega)

/-- Making room for a key that the delegate has got settles everything that is overdue, or fails. -/
theorem makeRoom_covering (excuses : delegate.Excuses late table covers fits) {key : K}
    (covering : Covering late table covers capacity excused keys [key] machine.layer) :
    (makeRoom delegate key).Ends machine
      (fun _ later => Covers late table covers capacity excused later.layer ∧
        later.layer.overdue = 0)
      fun _ later => Covers late table covers capacity excused later.layer := by
  rcases track_covering covering with
    ⟨keys, later, tracked, next⟩ | ⟨front, victim, later, tracked, gone, popped⟩
  · rw [ends_makeRoom_none tracked]
    exact settle_covering excuses next (Nat.le_refl _)
  · rw [ends_makeRoom_some tracked]
    exact Ends.imp (evict_covering excuses popped gone)
      (fun _ _ next => settle_covering excuses next.1 (Nat.le_refl _)) fun _ _ failed => failed

/-- A layer that covers its keys tracks them, but for excused ones if its delegate may fail late. -/
theorem Covers.tracks (covered : Covers late table covers capacity excused layer) {key : K}
    (stored : key ∈ (table layer.delegate).keys) :
    key ∈ layer.order.toList ∨ late ∧ key ∈ excused := by
  obtain ⟨keys, covering⟩ := covered
  rw [covering.order.toList]
  exact (covering.tracked key stored).imp_right fun known => known.resolve_left List.not_mem_nil

/-- Once nothing is overdue, there are no more keys than the capacity allows for and the excused
ones that are stored. -/
theorem Covers.size_le (covered : Covers late table covers capacity excused layer)
    (distinct : (table layer.delegate).Distinct) (settled : layer.overdue = 0) :
    (table layer.delegate).size ≤ capacity + excused.countP (table layer.delegate).contains ∧
      (¬ late → (table layer.delegate).size ≤ capacity) := by
  have bounded : layer.order.toList.length ≤ capacity := by
    obtain ⟨keys, covering⟩ := covered
    have bounded := covering.bounded
    rw [settled, Nat.add_zero] at bounded
    rwa [covering.order.toList]
  rw [← Table.keys_length]
  refine ⟨?_, fun early => ?_⟩
  · have among : (table layer.delegate).keys ⊆
        layer.order.toList ++ excused.filter (table layer.delegate).contains := fun key stored =>
      List.mem_append.mpr ((covered.tracks stored).imp_right fun known =>
        List.mem_filter.mpr ⟨known.2, Table.contains_iff.mpr stored⟩)
    have fewer := (List.subperm_of_subset distinct among).length_le
    rw [List.length_append, ← List.countP_eq_length_filter] at fewer
    exact Nat.le_trans fewer (Nat.add_le_add_right bounded _)
  · have among : (table layer.delegate).keys ⊆ layer.order.toList := fun key stored =>
      (covered.tracks stored).resolve_right fun known => early known.1
    exact Nat.le_trans (List.subperm_of_subset distinct among).length_le bounded

end Covering

/-! ### The operations -/

section Operations

variable {delegate : Cache K V σ X} {late : Prop} {table : σ → Table K X}
  {covers : List K → σ → Prop} {fits : σ → Prop} {capacity : Nat} {excused : List K}
  {layer : LruLayer K σ}

theorem Covers.mono (excuses : delegate.Excuses late table covers fits) {more : List K}
    (fewer : excused ⊆ more) (covered : Covers late table covers capacity excused layer) :
    Covers late table covers capacity more layer := by
  obtain ⟨keys, covering⟩ := covered
  refine ⟨keys, covering.order, fun key stored => ?_, covering.bounded, covering.capacity,
    excuses.mono excused more _ fewer covering.delegate⟩
  rcases covering.tracked key stored with tracked | none | ⟨may, member⟩
  · exact Or.inl tracked
  · exact Or.inr (Or.inl none)
  · exact Or.inr (Or.inr ⟨may, fewer member⟩)

/-- An action on the delegate that leaves its table and what is covered there leaves all keys
covered. -/
theorem below_covers {α : Type} {action : Action K V σ α} {machine : Machine K V (LruLayer K σ)}
    (covered : Covers late table covers capacity excused machine.layer)
    (ends : covers excused machine.layer.delegate → action.Ends (inside (·.delegate) machine)
      (fun _ later => covers excused later.layer ∧
        table later.layer = table machine.layer.delegate) fun _ _ => False) :
    (below action).Ends machine
      (fun _ later => Covers late table covers capacity excused later.layer ∧
        table later.layer.delegate = table machine.layer.delegate) fun _ _ => False := by
  obtain ⟨keys, covering⟩ := covered
  rw [below, ends_within]
  exact (ends covering.delegate).imp
    (fun _ _ next => ⟨covering.kept rfl rfl rfl next.1 next.2, next.2⟩) fun _ _ no => no

/-- A put that fails may have stored its item, and excuses its key. -/
theorem put_covers (excuses : delegate.Excuses late table covers fits)
    (covered : Covers late table covers capacity excused layer) (memory : Memory K V) (key : K)
    (item : X) :
    (LruLayer.put delegate key item).Leaves layer memory
      (fun _ later _ => Covers late table covers capacity (excused.filter (· ≠ key)) later ∧
        later.overdue = 0)
      fun later _ => Covers late table covers capacity (key :: excused) later := by
  intro trace
  obtain ⟨keys, covering⟩ := covered
  simp only [put_eq, below, count, ends_bind, ends_within, ends_modifyLayer]
  refine (excuses.put excused _ memory key item covering.delegate).ends (fun _ stored next => ?_)
    fun _ stored next => ?_
  · obtain ⟨delegate, -, grown⟩ := next
    -- The key is stored and not tracked until room is made for it; nothing excuses it any more.
    refine (makeRoom_covering excuses ⟨covering.order, fun other listed => ?_,
      covering.bounded, covering.capacity, delegate⟩).imp (fun _ _ next => next)
      fun _ later next => ?_
    · by_cases same : other = key
      · exact Or.inr (Or.inl (List.mem_singleton.mpr same))
      · have listed := (List.mem_cons.mp (grown listed)).resolve_left same
        rcases covering.tracked other listed with tracked | none | ⟨may, member⟩
        · exact Or.inl tracked
        · cases none
        · exact Or.inr (Or.inr ⟨may, List.mem_filter.mpr ⟨member, decide_eq_true same⟩⟩)
    · exact Covers.mono excuses (fun other member =>
        List.mem_cons_of_mem key (List.mem_of_mem_filter member)) next
  · obtain ⟨delegate, entries⟩ := next
    refine ⟨keys, covering.order, fun other listed => ?_, covering.bounded, covering.capacity,
      delegate⟩
    have listed : other ∈ (table stored.layer).keys := listed
    have earlier : other ∈ (table layer.delegate).keys → other ∈ keys ∨ other ∈ [] ∨
        late ∧ other ∈ key :: excused := fun listed =>
      (covering.tracked other listed).imp_right (Or.imp_right fun known =>
        ⟨known.1, List.mem_cons_of_mem key known.2⟩)
    -- The layer does nothing more, so the key stays untracked if the delegate has stored its item.
    rcases entries with same | ⟨may, grown⟩
    · exact earlier (same ▸ listed)
    · rcases List.mem_cons.mp (grown listed) with rfl | listed
      · exact Or.inr (Or.inr ⟨may, List.mem_cons_self⟩)
      · exact earlier listed

/-- A put below and the removals that follow add no key but that of the put. -/
theorem put_grows (excuses : delegate.Excuses late table covers fits)
    (covered : covers excused layer.delegate) (memory : Memory K V) (key : K) (item : X) :
    (LruLayer.put delegate key item).Leaves layer memory
      (fun _ later _ => fits later.delegate ∧
        (table later.delegate).keys ⊆ key :: (table layer.delegate).keys)
      fun later _ => (table later.delegate).keys ⊆ key :: (table layer.delegate).keys := by
  -- What a removal leaves is only known of a delegate that covers its keys.
  have remove : ∀ victim below memory,
      (covers (excused.filter (· ≠ key)) below ∧ fits below ∧
        (table below).keys ⊆ key :: (table layer.delegate).keys) →
      (delegate.remove victim).Leaves below memory
        (fun _ later _ => covers (excused.filter (· ≠ key)) later ∧ fits later ∧
          (table later).keys ⊆ key :: (table layer.delegate).keys)
        fun later _ => (table later).keys ⊆ key :: (table layer.delegate).keys := by
    rintro victim below memory ⟨covered, fitting, grown⟩
    refine (excuses.remove _ below memory victim covered).imp (fun _ later _ next => ?_)
      fun later _ next => ?_
    · obtain ⟨covered, still, erased⟩ := next
      refine ⟨covered, still fitting, ?_⟩
      rw [erased, Table.keys_erase]
      exact List.Subset.trans (List.filter_subset_self _) grown
    · rw [next.2]
      exact grown
  refine (put_keeps remove ((excuses.put excused _ memory key item covered).imp
    (fun _ _ _ next => next) fun later _ next => ?_)).imp (fun _ _ _ next => next.2)
    fun _ _ next => next
  rcases next.2 with same | ⟨-, grown⟩
  · rw [same]
    exact List.subset_cons_self key _
  · exact grown

theorem get_covers (excuses : delegate.Excuses late table covers fits)
    (covered : Covers late table covers capacity excused layer) (memory : Memory K V) (key : K) :
    (LruLayer.get delegate key).Leaves layer memory
      (fun _ later _ => Covers late table covers capacity excused later ∧
        table later.delegate = table layer.delegate)
      fun later _ => Covers late table covers capacity excused later ∧
        table later.delegate = table layer.delegate := by
  intro trace
  obtain ⟨keys, covering⟩ := covered
  obtain ⟨-, touched⟩ := covering.order.touch key
  have permuted := RecencyOrder.touched_perm keys key
  have bounded := permuted.length_eq ▸ covering.bounded
  have tracked := fun other (listed : other ∈ (table layer.delegate).keys) =>
    (covering.tracked other listed).imp_left permuted.mem_iff.mpr
  have passed : ∀ (below : σ) (counters : LruCounters), covers excused below →
      table below = table layer.delegate →
      Covers late table covers capacity excused
        { layer with order := (layer.order.touch key).2, counters, delegate := below } := by
    intro below counters covered same
    exact ⟨_, touched, same ▸ tracked, bounded, covering.capacity, covered⟩
  simp only [LruLayer.get, below, count, ends_bind, ends_within, ends_modifyLayer,
    ends_updateLayer]
  exact (excuses.get excused _ memory key covering.delegate).ends
    (fun _ _ next => ⟨passed _ _ next.1 next.2, next.2⟩)
    fun _ _ next => ⟨passed _ _ next.1 next.2, next.2⟩

theorem remove_covers (excuses : delegate.Excuses late table covers fits)
    (covered : Covers late table covers capacity excused layer) (memory : Memory K V) (key : K) :
    (LruLayer.remove delegate key).Leaves layer memory
      (fun _ later _ => Covers late table covers capacity excused later ∧
        (Fits fits layer → Fits fits later) ∧
        table later.delegate = (table layer.delegate).erase key)
      fun later _ => Covers late table covers capacity excused later ∧
        table later.delegate = table layer.delegate := by
  intro trace
  obtain ⟨keys, covering⟩ := covered
  simp only [LruLayer.remove, below, count, ends_bind, ends_within, ends_modifyLayer, ends_pure]
  refine (excuses.remove excused _ memory key covering.delegate).ends (fun _ later next => ?_)
    fun _ later next => ?_
  · obtain ⟨delegate, still, erased⟩ := next
    obtain ⟨-, order⟩ := covering.order.erase key
    have bounded : (keys.erase key).length ≤ capacity + layer.overdue :=
      Nat.le_trans List.length_erase_le covering.bounded
    refine ⟨⟨_, order, fun other listed => ?_, bounded, covering.capacity, delegate⟩,
      fun fitting => ⟨fitting.1, still fitting.2⟩, erased⟩
    have listed : other ∈ (table later.layer).keys := listed
    rw [erased, Table.keys_erase] at listed
    obtain ⟨listed, different⟩ := List.mem_filter.mp listed
    exact (covering.tracked other listed).imp_left
      (List.mem_erase_of_ne (of_decide_eq_true different)).mpr
  · exact ⟨covering.kept rfl rfl rfl next.1 next.2, next.2⟩

theorem clear_covers (excuses : delegate.Excuses late table covers fits)
    (covered : Covers late table covers capacity excused layer) (memory : Memory K V) :
    (LruLayer.clear delegate).Leaves layer memory
      (fun _ later _ => Covers late table covers capacity excused later ∧
        table later.delegate = Table.empty)
      fun later _ => Covers late table covers capacity excused later ∧
        table later.delegate = table layer.delegate := by
  intro trace
  obtain ⟨keys, covering⟩ := covered
  simp only [LruLayer.clear, below, count, ends_bind, ends_within, ends_modifyLayer]
  refine (excuses.clear excused _ memory covering.delegate).ends (fun _ later next => ?_)
    fun _ later next => ?_
  · obtain ⟨delegate, empty⟩ := next
    refine ⟨⟨[], RecencyOrder.Represents.empty, fun other listed => ?_, Nat.zero_le _,
      covering.capacity, delegate⟩, empty⟩
    have listed : other ∈ (table later.layer).keys := listed
    rw [empty] at listed
    cases listed
  · exact ⟨covering.kept rfl rfl rfl next.1 next.2, next.2⟩

/-- A recency layer hands on what its delegate keeps up, and may fail late itself. -/
theorem excuses (excuses : delegate.Excuses late table covers fits) (capacity : Nat) :
    (LruLayer.cache delegate).Excuses True (fun layer => table layer.delegate)
      (Covers late table covers capacity) (Fits fits) where
  mono _ _ _ fewer covered := covered.mono excuses fewer
  put excused layer memory key item covered trace := by
    obtain ⟨keys, covering⟩ := covered
    have grows := put_grows excuses covering.delegate memory key item
    refine ((put_covers excuses ⟨keys, covering⟩ memory key item trace).and (grows trace)).imp
      (fun _ _ next => ?_) fun _ _ next => ?_
    · exact ⟨next.1.1, ⟨next.1.2, next.2.1⟩, next.2.2⟩
    · exact ⟨next.1, Or.inr ⟨trivial, next.2⟩⟩
  get excused layer memory key covered := get_covers excuses covered memory key
  remove excused layer memory key covered := remove_covers excuses covered memory key
  clear excused layer memory covered := clear_covers excuses covered memory
  length excused layer memory covered := by
    obtain ⟨keys, covering⟩ := covered
    intro trace
    show (below delegate.length).Ends _ _ _
    simp only [below, ends_within]
    refine (excuses.length excused _ memory covering.delegate).ends (fun _ _ next => ?_)
      fun _ _ next => ?_
    · exact ⟨covering.kept rfl rfl rfl next.1 next.2.1, next.2⟩
    · exact ⟨covering.kept rfl rfl rfl next.1 next.2, next.2⟩

end Operations

end LruLayer

end LayeredCache
