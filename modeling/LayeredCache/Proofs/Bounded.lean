/-
This file proves that built stacks keep to the capacities of their recency layers while values are
reclaimed.

Entries leave the store behind a recency layer's back: layers further in evict, and a soft layer
removes entries whose values are gone. The layer then tracks keys that are stored no longer, which
does no harm. What it keeps up is that it tracks every stored key and no more keys than its
capacity: a put adds its own key and pops the victim that it removes from the store, and nothing
else adds a key below.
-/

import LayeredCache.Proofs.Collapse
import LayeredCache.Proofs.Counting
import LayeredCache.Proofs.Nested
import LayeredCache.Proofs.Views

namespace LayeredCache

open LayeredCache.Action

variable {K V σ X : Type}

/-! ### Caches that keep a property -/

/-- From a state of the kind no operation fails, and each leaves such a state. -/
structure Cache.Keeps (cache : Cache K V σ X) (table : σ → Table K X) (holds : σ → Prop) : Prop
    where
  put : ∀ layer memory key item, holds layer →
    (cache.put key item).Leaves layer memory (fun _ later _ => holds later) fun _ _ => False
  get : ∀ layer memory key, holds layer →
    (cache.get key).Leaves layer memory (fun _ later _ => holds later) fun _ _ => False
  remove : ∀ layer memory key, holds layer →
    (cache.remove key).Leaves layer memory (fun _ later _ => holds later) fun _ _ => False
  clear : ∀ layer memory, holds layer →
    cache.clear.Leaves layer memory (fun _ later _ => holds later) fun _ _ => False
  length : ∀ layer memory, holds layer →
    cache.length.Leaves layer memory
      (fun number later _ => holds later ∧ number = (table later).size) fun _ _ => False

/-- Every call keeps the property. -/
theorem Cache.Keeps.call {cache : Cache K V σ X} {table : σ → Table K X} {holds : σ → Prop}
    (keeps : cache.Keeps table holds) {machine : Machine K V σ} (kept : holds machine.layer)
    (call : Call K X) :
    (cache.call call).Ends machine (fun _ later => holds later.layer) fun _ _ => False := by
  cases call with
  | put key item =>
    simp only [Cache.call, ends_bind, ends_pure]
    exact (keeps.put _ _ key item kept).ends (fun _ _ next => next) fun _ _ no => no
  | get key =>
    simp only [Cache.call, ends_bind, ends_pure]
    exact (keeps.get _ _ key kept).ends (fun _ _ next => next) fun _ _ no => no
  | remove key =>
    simp only [Cache.call, ends_bind, ends_pure]
    exact (keeps.remove _ _ key kept).ends (fun _ _ next => next) fun _ _ no => no
  | clear =>
    simp only [Cache.call, ends_bind, ends_pure]
    exact (keeps.clear _ _ kept).ends (fun _ _ next => next) fun _ _ no => no
  | length =>
    simp only [Cache.call, ends_bind, ends_pure]
    exact (keeps.length _ _ kept).ends (fun _ _ next => next.1) fun _ _ no => no
  | isEmpty =>
    simp only [Cache.call, Cache.isEmpty, ends_bind, ends_pure]
    exact (keeps.length _ _ kept).ends (fun _ _ next => next.1) fun _ _ no => no

/-- Nothing is to be shown of a cache that is in no such state. -/
theorem Cache.Keeps.of_never {cache : Cache K V σ X} {table : σ → Table K X} {holds : σ → Prop}
    (never : ∀ layer, ¬ holds layer) : cache.Keeps table holds where
  put _ _ _ _ kept := absurd kept (never _)
  get _ _ _ kept := absurd kept (never _)
  remove _ _ _ kept := absurd kept (never _)
  clear _ _ kept := absurd kept (never _)
  length _ _ kept := absurd kept (never _)

/-! ### Soft layers -/

/-- A soft layer asks its delegate for nothing but what keeps the property. -/
theorem SoftLayer.keeps {delegate : Cache K V σ (SoftReference K V)}
    {table : σ → Table K (SoftReference K V)} {holds : σ → Prop}
    (keeps : delegate.Keeps table holds) :
    (SoftLayer.cache delegate).Keeps
      (fun layer => (table layer.delegate).mapItems fun reference => reference.referent)
      fun layer => holds layer.delegate := by
  let kind : σ → Memory K V → Prop := fun layer _ => holds layer
  have get : ∀ key layer memory, kind layer memory →
      (delegate.get key).Leaves layer memory (fun _ => kind) fun _ _ => False :=
    fun key layer memory kept => keeps.get layer memory key kept
  have remove : ∀ key layer memory, kind layer memory →
      (delegate.remove key).Leaves layer memory (fun _ => kind) fun _ _ => False :=
    fun key layer memory kept => keeps.remove layer memory key kept
  have drained {machine : Machine K V (SoftLayer K V σ)} (kept : holds machine.layer.delegate) :
      (drain delegate).Ends machine (fun _ later => holds later.layer.delegate)
        fun _ _ => False := drain_keeps get remove kept
  constructor
  case put =>
    intro layer memory key value kept trace
    show (SoftLayer.put delegate key value).Ends _ _ _
    simp only [SoftLayer.put, below, ends_bind, ends_withQueue, ends_within]
    refine (drained kept).imp (fun _ later kept => ?_) fun _ _ no => no
    exact (keeps.put _ _ key _ kept).ends (fun _ _ next => next) fun _ _ no => no
  case get =>
    intro layer memory key kept trace
    show (SoftLayer.get delegate key).Ends _ _ _
    simp only [SoftLayer.get, below, ends_bind, ends_within]
    refine (keeps.get _ _ key kept).ends (fun found later kept => ?_) fun _ _ no => no
    cases found with
    | none => exact kept
    | some reference =>
      simp only [ends_bind, ends_memory, around, count]
      split
      case h_1 value resolved =>
        rw [ends_bind]
        exact ends_pin fun ring counters trace => kept
      case h_2 =>
        simp only [ends_bind, name, ends_layer, ends_pure, ends_report, ends_within]
        exact (keeps.remove later.layer later.memory key kept _).imp (fun _ _ next => next)
          fun _ _ no => no
  case remove =>
    intro layer memory key kept trace
    show (SoftLayer.remove delegate key).Ends _ _ _
    simp only [SoftLayer.remove, below, ends_bind, ends_within]
    refine (drained kept).imp (fun _ later kept => ?_) fun _ _ no => no
    refine (keeps.remove _ _ key kept).ends (fun found _ next => ?_) fun _ _ no => no
    cases found with
    | none => exact next
    | some reference => exact next
  case clear =>
    intro layer memory kept trace
    show (SoftLayer.clear delegate).Ends _ _ _
    simp only [SoftLayer.clear, below, ends_bind, ends_modifyLayer, ends_within]
    refine (drained kept).imp (fun _ later kept => ?_) fun _ _ no => no
    exact (keeps.clear _ _ kept).ends (fun _ _ next => next) fun _ _ no => no
  case length =>
    intro layer memory kept trace
    show (SoftLayer.length delegate).Ends _ _ _
    simp only [SoftLayer.length, below, ends_bind, ends_within]
    refine (drained kept).imp (fun _ later kept => ?_) fun _ _ no => no
    refine (keeps.length _ _ kept).ends (fun _ _ next => ?_) fun _ _ no => no
    exact ⟨next.1, next.2.trans (Table.size_mapItems _ _).symm⟩

/-! ### Stores -/

variable [DecidableEq K]

theorem keeps_store (handles : List X → Handles K V) :
    (Store.cache handles).Keeps Store.table fun store => store.table.Distinct where
  put _ _ key item distinct _ := distinct.insert key item
  get _ _ _ distinct _ := distinct
  remove _ _ key distinct _ := distinct.erase key
  clear _ _ _ _ := Table.distinct_empty
  length _ _ distinct _ := ⟨distinct, rfl⟩

/-! ### Keys of tables that show less -/

theorem Table.keys_of_less {later earlier : Table K X} (less : Less later.find? earlier.find?) :
    later.keys ⊆ earlier.keys := fun key stored => by
  obtain ⟨item, found⟩ := Table.mem_keys.mp stored
  exact Table.mem_keys.mpr ⟨item, less key item found⟩

/-- What a table shows at most with one item placed it has under the item's key, or had before. -/
theorem Table.keys_of_placed {later earlier : Table K X} {key : K} {item : X}
    (less : Less later.find? (placed earlier.find? key item)) : later.keys ⊆ key :: earlier.keys := by
  rw [← find?_insert_eq] at less
  exact List.Subset.trans (keys_of_less less) (earlier.keys_insert_subset key item)

/-! ### Recency layers -/

namespace LruLayer

/-- The layer tracks every stored key, no more keys than its capacity, and owes nothing. -/
def Bounded (table : σ → Table K X) (holds : σ → Prop) (capacity : Nat) (layer : LruLayer K σ) :
    Prop :=
  holds layer.delegate ∧ ∃ keys, Steady capacity keys layer ∧ keys.length ≤ capacity ∧
    (table layer.delegate).keys ⊆ keys

variable {delegate : Cache K V σ X} {table : σ → Table K X} {holds : σ → Prop} {capacity : Nat}
  {machine : Machine K V (LruLayer K σ)}

/-- A removed victim is stored no longer, so the other keys are tracked still. -/
theorem evict_bounded (truthful : delegate.Truthful fun inner => (table inner).find?)
    (keeps : delegate.Keeps table holds) {front : List K} {victim : K}
    (kept : holds machine.layer.delegate) (steady : Steady capacity front machine.layer)
    (fits : front.length ≤ capacity)
    (tracked : (table machine.layer.delegate).keys ⊆ front ++ [victim]) :
    (evict delegate victim).Ends machine
      (fun _ later => Bounded table holds capacity later.layer) fun _ _ => False := by
  simp only [ends_evict, below, ends_within]
  refine ((keeps.remove machine.layer.delegate machine.memory victim kept _).and
    (truthful.remove machine.layer.delegate machine.memory victim _)).imp
    (fun _ later next => ?_) fun _ _ no => no.1
  obtain ⟨kept, less, -, gone⟩ := next
  refine ⟨kept, front, ⟨steady.capacity, steady.overdue, steady.order⟩, fits, fun key stored => ?_⟩
  rcases List.mem_append.mp (tracked (Table.keys_of_less less stored)) with member | same
  · exact member
  · obtain rfl := List.mem_singleton.mp same
    exact absurd stored (Table.find?_eq_none.mp gone)

/-- The layer makes room for a key that the delegate has got. -/
theorem makeRoom_bounded (truthful : delegate.Truthful fun inner => (table inner).find?)
    (keeps : delegate.Keeps table holds) {keys : List K} {key : K}
    (kept : holds machine.layer.delegate) (steady : Steady capacity keys machine.layer)
    (fits : keys.length ≤ capacity)
    (tracked : (table machine.layer.delegate).keys ⊆ key :: keys.erase key) :
    (makeRoom delegate key).Ends machine
      (fun _ later => Bounded table holds capacity later.layer) fun _ _ => False := by
  rcases track_cases steady.order key with
    ⟨order, taken, used, within⟩ | ⟨front, victim, order, split, -, -, shorter, taken, popped⟩
  · rw [ends_makeRoom_none taken, steady.overdue]
    exact ⟨kept, _, ⟨steady.capacity, rfl, used⟩, steady.capacity ▸ within, tracked⟩
  · rw [ends_makeRoom_some taken]
    rw [split] at tracked
    refine Ends.imp (evict_bounded truthful keeps kept
      ⟨steady.capacity, steady.overdue, popped⟩ (Nat.le_trans shorter fits) tracked)
      (fun _ later next => ?_) fun _ _ no => no
    obtain ⟨keys, after, -⟩ := next.2
    rw [after.overdue]
    exact next

/-- A recency layer stays bounded on a delegate that keeps a property. -/
theorem keeps (truthful : delegate.Truthful fun inner => (table inner).find?)
    (keeps : delegate.Keeps table holds) (capacity : Nat) :
    (LruLayer.cache delegate).Keeps (fun layer => table layer.delegate)
      (Bounded table holds capacity) where
  put layer memory key item := by
    rintro ⟨kept, keys, steady, fits, tracked⟩ trace
    show (LruLayer.put delegate key item).Ends _ _ _
    simp only [put_eq, below, count, ends_bind, ends_within, ends_modifyLayer]
    refine ((keeps.put layer.delegate memory key item kept trace).and
      (truthful.put layer.delegate memory key item trace)).imp (fun _ stored next => ?_)
      fun _ _ no => no.1
    obtain ⟨kept, less⟩ := next
    refine makeRoom_bounded truthful keeps kept
      ⟨steady.capacity, steady.overdue, steady.order⟩ fits fun other listed => ?_
    rcases List.mem_cons.mp (Table.keys_of_placed less listed) with same | member
    · exact same ▸ List.mem_cons_self
    · by_cases same : other = key
      · exact same ▸ List.mem_cons_self
      · exact List.mem_cons_of_mem key ((List.mem_erase_of_ne same).mpr (tracked member))
  get layer memory key := by
    rintro ⟨kept, keys, steady, fits, tracked⟩ trace
    show (LruLayer.get delegate key).Ends _ _ _
    simp only [LruLayer.get, below, count, ends_bind, ends_within, ends_modifyLayer,
      ends_updateLayer]
    refine ((keeps.get layer.delegate memory key kept trace).and
      (truthful.get layer.delegate memory key trace)).imp (fun _ later next => ?_)
      fun _ _ no => no.1
    obtain ⟨-, touched⟩ := steady.order.touch key
    have permuted := RecencyOrder.touched_perm keys key
    exact ⟨next.1, _, ⟨steady.capacity, steady.overdue, touched⟩, permuted.length_eq ▸ fits,
      fun other listed => permuted.mem_iff.mpr (tracked (Table.keys_of_less next.2.1 listed))⟩
  remove layer memory key := by
    rintro ⟨kept, keys, steady, fits, tracked⟩ trace
    show (LruLayer.remove delegate key).Ends _ _ _
    simp only [LruLayer.remove, below, count, ends_bind, ends_within, ends_modifyLayer, ends_pure]
    refine ((keeps.remove layer.delegate memory key kept trace).and
      (truthful.remove layer.delegate memory key trace)).imp (fun _ later next => ?_)
      fun _ _ no => no.1
    obtain ⟨kept, less, -, gone⟩ := next
    obtain ⟨-, erased⟩ := steady.order.erase key
    refine ⟨kept, _, ⟨steady.capacity, steady.overdue, erased⟩,
      Nat.le_trans List.length_erase_le fits, fun other listed => ?_⟩
    have different : other ≠ key := by
      rintro rfl
      exact Table.find?_eq_none.mp gone listed
    exact (List.mem_erase_of_ne different).mpr (tracked (Table.keys_of_less less listed))
  clear layer memory := by
    rintro ⟨kept, keys, steady, fits, tracked⟩ trace
    show (LruLayer.clear delegate).Ends _ _ _
    simp only [LruLayer.clear, below, count, ends_bind, ends_within, ends_modifyLayer]
    refine ((keeps.clear layer.delegate memory kept trace).and
      (truthful.clear layer.delegate memory trace)).imp (fun _ later next => ?_) fun _ _ no => no.1
    refine ⟨next.1, [], ⟨steady.capacity, rfl, RecencyOrder.Represents.empty⟩, Nat.zero_le _,
      fun other listed => ?_⟩
    exact absurd listed (Table.find?_eq_none.mp (next.2 other))
  length layer memory := by
    rintro ⟨kept, keys, steady, fits, tracked⟩ trace
    show (below delegate.length).Ends _ _ _
    simp only [below, ends_within]
    refine ((keeps.length layer.delegate memory kept trace).and
      (truthful.length layer.delegate memory trace)).imp (fun _ later next => ?_) fun _ _ no => no.1
    exact ⟨⟨next.1.1, keys, ⟨steady.capacity, steady.overdue, steady.order⟩, fits,
      fun other listed => tracked (Table.keys_of_less next.2 listed)⟩, next.1.2⟩

end LruLayer

/-! ### Stacks -/

namespace Shape

/-- The recency layers have the capacities and are bounded, and there is no probe. -/
def Bounded : {content : Content} → (shape : Shape content) → List Nat → shape.State K V → Prop
  | _, .store, [], bottom => bottom.table.Distinct
  | _, .store, _ :: _, _ => False
  | _, .lru _, [], _ => False
  | _, .lru delegate, capacity :: inner, layer =>
    LruLayer.Bounded delegate.table (delegate.Bounded inner) capacity layer
  | _, .probe _, _, _ => False
  | _, .soft delegate, capacities, layer => delegate.Bounded capacities layer.delegate

variable {content : Content} {shape : Shape content} {capacities : List Nat}
  {layer : shape.State K V}

theorem keeps (shape : Shape content) (capacities : List Nat) :
    (shape.cache : Cache K V (shape.State K V) (content.Item K V)).Keeps shape.table
      (shape.Bounded capacities) := by
  induction shape generalizing capacities with
  | store =>
    cases capacities with
    | nil => exact keeps_store _
    | cons => exact .of_never fun _ no => no
  | lru delegate inductionHypothesis =>
    cases capacities with
    | nil => exact .of_never fun _ no => no
    | cons capacity inner =>
      exact LruLayer.keeps delegate.truthful (inductionHypothesis inner) capacity
  | probe delegate => exact .of_never fun _ no => no
  | soft delegate inductionHypothesis => exact SoftLayer.keeps (inductionHypothesis capacities)

theorem Bounded.distinct (bounded : shape.Bounded capacities layer) :
    (shape.table layer).Distinct := by
  induction shape generalizing capacities with
  | store =>
    cases capacities with
    | nil => exact bounded
    | cons => exact bounded.elim
  | lru delegate inductionHypothesis =>
    cases capacities with
    | nil => exact bounded.elim
    | cons => exact inductionHypothesis bounded.1
  | probe delegate => exact bounded.elim
  | soft delegate inductionHypothesis =>
    unfold Table.Distinct
    rw [Shape.table, Table.keys_mapItems]
    exact inductionHypothesis bounded

/-- Every recency layer tracks all stored keys, and no more keys than its capacity. -/
theorem Bounded.tracks (bounded : shape.Bounded capacities layer) :
    List.Forall₂ (fun keys capacity => (shape.table layer).keys ⊆ keys ∧ keys.length ≤ capacity)
      (shape.tracked layer) capacities := by
  induction shape generalizing capacities with
  | store =>
    cases capacities with
    | nil => exact .nil
    | cons => exact bounded.elim
  | lru delegate inductionHypothesis =>
    cases capacities with
    | nil => exact bounded.elim
    | cons capacity inner =>
      obtain ⟨below, keys, steady, fits, tracked⟩ := bounded
      refine .cons ?_ (inductionHypothesis below)
      rw [steady.order.toList]
      exact ⟨tracked, fits⟩
  | probe delegate => exact bounded.elim
  | soft delegate inductionHypothesis =>
    rw [Shape.table, Table.keys_mapItems]
    exact inductionHypothesis bounded

/-- No more keys are stored than any of the capacities. -/
theorem Bounded.size_le (bounded : shape.Bounded capacities layer) {capacity : Nat}
    (listed : capacity ∈ capacities) : (shape.table layer).size ≤ capacity := by
  obtain ⟨index, inside, rfl⟩ := List.mem_iff_getElem.mp listed
  have length := bounded.tracks.length_eq
  obtain ⟨stored, fits⟩ := bounded.tracks.get (i := index) (by omega) inside
  rw [← Table.keys_length]
  exact Nat.le_trans (bounded.distinct.subperm stored).length_le fits

/-- What leaves the delegate of the soft layer alone leaves the stack bounded. -/
theorem visitSoft_bounded {α : Type}
    {action : (delegate : Shape .reference) → Action K V (SoftLayer K V (delegate.State K V)) α}
    (same : ∀ (delegate : Shape .reference)
      (machine : Machine K V (SoftLayer K V (delegate.State K V))),
      (action delegate).Ends machine
        (fun _ later => later.layer.delegate = machine.layer.delegate) fun _ _ => False)
    {machine : Machine K V (shape.State K V)} (bounded : shape.Bounded capacities machine.layer) :
    (shape.visitSoft action).Ends machine
      (fun _ later => shape.Bounded capacities later.layer ∧
        shape.table later.layer = shape.table machine.layer) fun _ _ => False := by
  induction shape generalizing capacities with
  | store => exact ⟨bounded, rfl⟩
  | lru delegate inductionHypothesis =>
    cases capacities with
    | nil => exact bounded.elim
    | cons capacity inner =>
      obtain ⟨below, keys, steady, fits, tracked⟩ := bounded
      rw [visitSoft, LruLayer.below, ends_within]
      refine (inductionHypothesis below).imp (fun _ later next => ⟨⟨next.1, keys, ?_, fits, ?_⟩, ?_⟩)
        fun _ _ no => no
      · exact ⟨steady.capacity, steady.overdue, steady.order⟩
      · exact next.2 ▸ tracked
      · exact next.2
  | probe delegate => exact bounded.elim
  | soft delegate =>
    rw [visitSoft, ends_map]
    refine (same delegate machine).imp (fun _ later next => ⟨?_, ?_⟩) fun _ _ no => no
    · show delegate.Bounded capacities later.layer.delegate
      exact next ▸ bounded
    · show (delegate.table later.layer.delegate).mapItems _ = _
      rw [next]
      rfl

end Shape

/-! ### Runs -/

/-- The deed uses the stack and changes no setting. -/
def Deed.isUse : Deed K V → Bool
  | .setCapacity _ _ | .setWindow _ | .addFault _ _ => false
  | .call _ | .reclaim _ | .reclaimAll | .forceReclaim _ | .hold _ _ | .release _ => true

namespace Shape

variable {shape : Shape .value} {capacities : List Nat} {machine : Machine K V (shape.State K V)}

theorem perform_bounded {deed : Deed K V} (use : deed.isUse)
    (bounded : shape.Bounded capacities machine.layer) :
    (shape.perform deed).Ends machine (fun _ later => shape.Bounded capacities later.layer)
      fun _ _ => False := by
  cases deed with
  | call call =>
    rw [perform, ends_map]
    exact (shape.keeps capacities).call bounded call
  | reclaim limit =>
    rw [perform, ends_map]
    refine (visitSoft_bounded (fun delegate machine => ?_) bounded).imp (fun _ _ next => next.1)
      fun _ _ no => no
    simp only [SoftLayer.reclaim, ends_bind, SoftLayer.ends_withQueue, ends_layer, ends_report,
      ends_pure]
  | reclaimAll =>
    rw [perform, ends_map]
    refine (visitSoft_bounded (fun delegate machine => ?_) bounded).imp (fun _ _ next => next.1)
      fun _ _ no => no
    simp only [SoftLayer.reclaimAll, SoftLayer.reclaim, ends_bind, SoftLayer.ends_withQueue,
      ends_layer, ends_report, ends_pure]
  | forceReclaim key =>
    rw [perform, ends_map]
    refine (visitSoft_bounded (fun delegate machine => ?_) bounded).imp (fun _ _ next => next.1)
      fun _ _ no => no
    simp only [SoftLayer.forceReclaim, SoftLayer.ends_withQueue]
  | setCapacity | setWindow | addFault => cases use
  | hold name value => exact bounded
  | release name => exact bounded

theorem run_bounded {deeds : List (Deed K V)} (uses : ∀ deed ∈ deeds, deed.isUse)
    (start : shape.Bounded capacities machine.layer) :
    shape.Bounded capacities (shape.run deeds machine).2.layer :=
  run_induction (fun _ machine => shape.Bounded capacities machine.layer) (fun deed => deed.isUse)
    (fun _ _ _ use bounded => (perform_bounded use bounded).imp (fun _ _ next => next)
      fun _ _ no => no.elim)
    deeds uses [] machine start

end Shape

/-! ### Built stacks -/

/-- The capacities of the recency layers, that of the outermost one first. -/
def Blueprint.capacities (blueprint : Blueprint) : List Nat :=
  (blueprint.layers.filterMap Policy.capacity?).reverse

/-- A built stack starts with the capacities of its blueprint and no key. -/
theorem Blueprint.bounded_of_build {blueprint : Blueprint} {stack : Stack K V .value}
    (built : blueprint.build = .ok stack) :
    stack.shape.Bounded blueprint.capacities stack.state := by
  have handed : Handed fun {content : Content} (layers : List Policy) (stack : Stack K V content) =>
      stack.shape.Bounded (layers.filterMap Policy.capacity?).reverse stack.state ∧
        stack.shape.table stack.state = Table.empty := by
    refine ⟨fun _ _ => ⟨Table.distinct_empty, rfl⟩, ?_, ?_⟩
    · rintro _ layers stack capacity - ⟨below, empty⟩
      rw [List.filterMap_append, List.reverse_append]
      refine ⟨⟨below, [], ⟨rfl, rfl, RecencyOrder.Represents.empty⟩, Nat.zero_le _, ?_⟩, empty⟩
      show (stack.shape.table stack.state).keys ⊆ []
      rw [empty]
      exact List.Subset.refl _
    · rintro layers stack window - ⟨below, empty⟩
      rw [List.filterMap_append, List.reverse_append]
      exact ⟨below, congrArg (Table.mapItems _) empty⟩
  obtain ⟨other, same, bounded, -⟩ := build_of_accepted handed (accepted_of_build built)
  obtain rfl : stack = other := Except.ok.inj (built.symm.trans same)
  exact bounded

/-- After every use of a built stack, reclamations among them, each recency layer tracks every
stored key and no more keys than its capacity. A count succeeds and answers at most the least of the
capacities. -/
theorem Blueprint.build_bounds {blueprint : Blueprint} {stack : Stack K V .value}
    (built : blueprint.build = .ok stack) (deeds : List (Deed K V))
    (uses : ∀ deed ∈ deeds, deed.isUse) :
    let ended := stack.shape.run deeds stack.machine
    List.Forall₂
        (fun keys capacity =>
          (stack.shape.table ended.2.layer).keys ⊆ keys ∧ keys.length ≤ capacity)
        (stack.shape.tracked ended.2.layer) blueprint.capacities ∧
      ∃ number, ((stack.shape.perform (.call .length)).run ended.2).1 = .ok (.reply (.count number)) ∧
        ∀ capacity ∈ blueprint.capacities, number ≤ capacity := by
  intro ended
  have bounded : stack.shape.Bounded blueprint.capacities ended.2.layer :=
    Shape.run_bounded uses (Blueprint.bounded_of_build built)
  refine ⟨bounded.tracks, ?_⟩
  have counts : (stack.shape.perform (.call .length)).Ends ended.2
      (fun outcome _ => ∃ number, outcome = .reply (.count number) ∧
        ∀ capacity ∈ blueprint.capacities, number ≤ capacity)
      fun _ _ => False := by
    simp only [Shape.perform, Cache.call, ends_map, ends_bind, ends_pure]
    refine ((stack.shape.keeps blueprint.capacities).length _ _ bounded).ends
      (fun number later next => ⟨number, rfl, fun capacity listed => ?_⟩) fun _ _ no => no
    exact next.2 ▸ next.1.size_le listed
  obtain ⟨outcome, later, same, number, rfl, least⟩ := counts.run_eq
  exact ⟨number, congrArg Prod.fst same, least⟩

/-- The inner recency layer evicts one of four keys, one value is reclaimed and found missing, and
all others are reclaimed. -/
def emptied : List (Deed Nat String) :=
  [.call (.put 1 ⟨0, "one"⟩), .call (.put 2 ⟨1, "two"⟩), .call (.put 3 ⟨2, "three"⟩),
    .forceReclaim 3, .call (.get 3), .call (.put 4 ⟨3, "four"⟩), .reclaimAll]

/-- The outer recency layer is left with a key that is stored no longer. -/
theorem build_bounds_between :
    Blueprint.build ⟨"pages", [.lru 2, .soft 1, .lru 3], false⟩ = .ok between ∧
      (∀ deed ∈ emptied, deed.isUse) ∧
      let ended := between.shape.run emptied between.machine
      between.shape.tracked ended.2.layer = [[4, 3, 2], [4, 2]] ∧
        List.Forall₂
          (fun keys capacity =>
            (between.shape.table ended.2.layer).keys ⊆ keys ∧ keys.length ≤ capacity)
          [[4, 3, 2], [4, 2]] [3, 2] := by
  have built : Blueprint.build ⟨"pages", [.lru 2, .soft 1, .lru 3], false⟩ = .ok between := rfl
  have uses : ∀ deed ∈ emptied, deed.isUse := by decide
  have tracked : between.shape.tracked (between.shape.run emptied between.machine).2.layer =
      [[4, 3, 2], [4, 2]] := by decide +kernel
  obtain ⟨bounds, -⟩ := Blueprint.build_bounds built emptied uses
  rw [tracked] at bounds
  exact ⟨built, uses, tracked, bounds⟩

end LayeredCache
