/-
This file says when a put into a recency layer above a soft layer takes another value away.

The recency layer hears nothing of the reclamations below it. It tracks a key until the key is
removed or evicted, and a look-up makes the key the first one even if its value is gone. So the keys
whose values were reclaimed count, too: a put takes away the value of the last tracked key if it has
one and the retrievable keys, the new one among them, and these others are too many.
-/

import LayeredCache.Proofs.Bounded
import LayeredCache.Proofs.Pressure
import LayeredCache.Proofs.Shows

namespace LayeredCache

open LayeredCache.Action

variable {K V : Type} [DecidableEq K]

/-! ### Reclamations in a run -/

/-- The deed reclaims values. -/
def Deed.reclaims : Deed K V → Bool
  | .reclaim _ | .reclaimAll | .forceReclaim _ => true
  | .call _ | .setCapacity _ _ | .setWindow _ | .addFault _ _ | .hold _ _ | .release _ => false

/-- One of the deeds reclaimed the value of the key, which was not put again. -/
def Shape.Reclaimed (shape : Shape .value) (deeds : List (Deed K V))
    (start : Machine K V (shape.State K V)) (key : K) : Prop :=
  ∃ past deed rest, deeds = past ++ deed :: rest ∧ deed.reclaims = true ∧
    shape.Retrievable (shape.run past start).2 key ∧
    ¬ shape.Retrievable (shape.run (past ++ [deed]) start).2 key ∧
    ∀ value, .call (.put key value) ∉ rest

/-- What was reclaimed stays reclaimed, except by a put. -/
theorem Shape.Reclaimed.concat {shape : Shape .value} {deeds : List (Deed K V)}
    {start : Machine K V (shape.State K V)} {key : K} (reclaimed : shape.Reclaimed deeds start key)
    {deed : Deed K V} (other : ∀ value, deed ≠ .call (.put key value)) :
    shape.Reclaimed (deeds ++ [deed]) start key := by
  obtain ⟨past, first, rest, rfl, reclaims, before, after, still⟩ := reclaimed
  refine ⟨past, first, rest ++ [deed], by simp, reclaims, before, after, fun value member => ?_⟩
  rcases List.mem_append.mp member with earlier | last
  · exact still value earlier
  · exact other value (List.mem_singleton.mp last).symm

theorem Shape.not_retrievable {shape : Shape .value} {machine : Machine K V (shape.State K V)}
    {key : K} (nothing : shape.lookUp machine key = .ok (.reply (.item none))) :
    ¬ shape.Retrievable machine key := by
  rintro ⟨value, found⟩
  rw [nothing] at found
  cases found

/-! ### A recency layer on a soft layer -/

/-- The shape of a recency layer over a soft layer over a store. -/
abbrev Shape.capped : Shape .value := .lru (.soft .store)

namespace Shape.capped

variable {capacity : Nat} {keys left : List K} {deed : Deed K V}
  {machine later : Machine K V (Shape.capped.State K V)}

/-- The soft layer and the store below the recency layer. -/
abbrev delegate : Cache K V ((Shape.soft .store : Shape .value).State K V) (Shared V) :=
  (Shape.soft .store : Shape .value).cache

theorem store_reliable : (Shape.store.cache : Cache K V _ _).Reliable Content.reference.handles
    (Shape.store : Shape .reference).table :=
  reliable_store _

/-- The values that the stack can return. -/
def view (machine : Machine K V (Shape.capped.State K V)) : K → Option (Shared V) :=
  Shape.capped.shows machine.layer machine.memory

/-- The delegate is sound and shows just the values of the view. -/
def Showing (view : K → Option (Shared V)) (layer : (Shape.soft .store : Shape .value).State K V)
    (memory : Memory K V) : Prop :=
  (Shape.soft .store : Shape .value).Sound layer memory ∧
    (Shape.soft .store : Shape .value).shows layer memory = view

section Showing

variable {shown : K → Option (Shared V)} {layer : (Shape.soft .store : Shape .value).State K V}
  {memory : Memory K V} (showing : Showing shown layer memory) (key : K)

include showing

theorem Showing.sound (trace : List (Note K)) :
    SoftLayer.Sound (Shape.store : Shape .reference).table (Machine.mk layer memory trace).layer
      (Machine.mk layer memory trace).memory := showing.1

theorem Showing.put (value : Shared V) :
    (delegate.put key value).Leaves layer memory (fun _ => Showing (placed shown key value))
      fun _ _ => False := by
  intro trace
  have stores : ∀ (layer : Store K (SoftReference K V)) (memory : Memory K V) item, True →
      ((Store.cache Content.reference.handles).put key item).Leaves layer memory
        (fun _ later _ => ∃ victim, victim = none ∧
          later.table.find? = without victim (placed layer.table.find? key item))
        fun _ _ => False :=
    fun layer _ item _ _ => ⟨none, rfl, Table.find?_insert_eq layer.table key item⟩
  refine (SoftLayer.put_shows store_reliable (showing.sound trace) key value ?_ stores).imp
    (fun _ later next => ?_) fun _ _ no => no
  · exact (SoftLayer.drain_drained store_reliable (showing.sound trace)).imp (fun _ _ _ => trivial)
      fun _ _ no => no
  · obtain ⟨sound, -, _, rfl, shows⟩ := next
    obtain ⟨-, rfl⟩ := showing
    exact ⟨sound, shows⟩

theorem Showing.get :
    (delegate.get key).Leaves layer memory (fun _ => Showing shown) fun _ _ => False := by
  intro trace
  refine (SoftLayer.get_shows store_reliable (showing.sound trace) key).imp
    (fun _ _ next => ?_) fun _ _ no => no
  exact ⟨next.1, next.2.2.2.trans showing.2⟩

theorem Showing.remove :
    (delegate.remove key).Leaves layer memory (fun _ => Showing (without (some key) shown))
      fun _ _ => False := by
  intro trace
  refine (SoftLayer.remove_shows store_reliable (showing.sound trace) key).imp
    (fun _ _ next => ?_) fun _ _ no => no
  exact ⟨next.1, next.2.2.trans (congrArg (without (some key)) showing.2)⟩

omit key

theorem Showing.clear :
    delegate.clear.Leaves layer memory (fun _ => Showing fun _ => none) fun _ _ => False := by
  intro trace
  exact (SoftLayer.clear_shows store_reliable (showing.sound trace)).imp
    (fun _ _ next => ⟨next.1, next.2.2⟩) fun _ _ no => no

theorem Showing.length :
    delegate.length.Leaves layer memory (fun _ => Showing shown) fun _ _ => False := by
  intro trace
  refine (SoftLayer.length_shows store_reliable (showing.sound trace)).imp
    (fun _ _ next => ?_) fun _ _ no => no
  exact ⟨next.1, next.2.2.trans showing.2⟩

end Showing

/-- The recency layer tracks the keys, which are not too many and contain all that have a value. -/
structure Capped (capacity : Nat) (keys : List K)
    (machine : Machine K V (Shape.capped.State K V)) : Prop where
  steady : LruLayer.Steady capacity keys machine.layer
  fits : keys.length ≤ capacity
  sound : Shape.capped.Sound machine.layer machine.memory
  tracked : ∀ key, (view machine key).isSome = true → key ∈ keys

theorem retrievable_iff (sound : Shape.capped.Sound machine.layer machine.memory) (key : K) :
    Shape.capped.Retrievable machine key ↔ (view machine key).isSome = true := by
  have plain : Shape.capped.Plain := trivial
  exact Shape.retrievable_iff plain rfl sound key

/-- What a deed does to the tracked keys. Those without a value were tracked before, and had no
value either unless the deed reclaims. -/
structure Upheld (capacity : Nat) (keys : List K) (machine : Machine K V (Shape.capped.State K V))
    (deed : Deed K V) (left : List K) (later : Machine K V (Shape.capped.State K V)) : Prop where
  still : Capped capacity left later
  stale : ∀ key ∈ left, view later key = none → key ∈ keys ∧
    (∀ value, deed ≠ .call (.put key value)) ∧ (deed.reclaims = false → view machine key = none)

/-- It keeps the stack capped to track no other keys and to show the same under those it tracks. -/
theorem Capped.upholds (capped : Capped capacity keys machine)
    (steady : LruLayer.Steady capacity left later.layer) (fewer : left.Subperm keys)
    (other : ∀ key value, deed ≠ .call (.put key value))
    {shown : K → Option (Shared V)} (showing : Showing shown later.layer.delegate later.memory)
    (tracked : ∀ key, (shown key).isSome = true → key ∈ left)
    (same : deed.reclaims = false → ∀ key ∈ left, shown key = view machine key) :
    Upheld capacity keys machine deed left later := by
  obtain ⟨sound, rfl⟩ := showing
  exact ⟨⟨steady, Nat.le_trans fewer.length_le capped.fits, sound, tracked⟩,
    fun key member gone => ⟨fewer.subset member, other key, fun keeps =>
      (same keeps key member).symm.trans gone⟩⟩

/-! ### Calls -/

section Calls

variable (capped : Capped capacity keys machine)

include capped

theorem Capped.showing : Showing (view machine) machine.layer.delegate machine.memory :=
  ⟨capped.sound, rfl⟩

/-- A put makes room for its key among the tracked ones. -/
theorem put_capped (key : K) (value : Shared V) :
    (Shape.capped.cache.put key value).Ends machine
      (fun _ later => ∃ left victim, Room capacity keys key left victim ∧
        LruLayer.Steady capacity left later.layer ∧
        Showing (without victim (placed (view machine) key value)) later.layer.delegate
          later.memory)
      fun _ _ => False := by
  let done : Option K → (Shape.soft .store : Shape .value).State K V → Memory K V → Prop :=
    fun victim => Showing (without victim (placed (view machine) key value))
  have put : (delegate.put key value).Leaves machine.layer.delegate machine.memory
      (fun _ => done none) fun _ _ => False := capped.showing.put key value
  have remove : ∀ victim inner after, done none inner after →
      (delegate.remove victim).Leaves inner after (fun _ => done (some victim))
        fun _ _ => False :=
    fun victim _ _ showing => Showing.remove showing victim
  exact LruLayer.put_steady remove capped.steady put machine.trace

theorem put_upholds (key : K) (value : Shared V) :
    (Shape.capped.cache.put key value).Ends machine
      (fun _ later => ∃ left, Upheld capacity keys machine (.call (.put key value)) left later)
      fun _ _ => False := by
  refine (put_capped capped key value).imp (fun _ later next => ?_) fun _ _ no => no
  obtain ⟨left, victim, room, steady, sound, shows⟩ := next
  have shows : view later = without victim (placed (view machine) key value) := shows
  have nodup : keys.Nodup := capped.steady.order.nodup
  refine ⟨left, ⟨steady, room.length_le capped.fits, sound, fun other shown => ?_⟩,
    fun other member gone => ?_⟩
  · rw [shows] at shown
    obtain ⟨kept, shown⟩ := isSome_of_hidden shown
    refine (room.mem_left nodup other).mpr ⟨kept, ?_⟩
    by_cases same : other = key
    · exact .inl same
    · rw [placed, if_neg same] at shown
      exact .inr (capped.tracked other shown)
  · obtain ⟨kept, used⟩ := (room.mem_left nodup other).mp member
    rw [shows, without, if_neg kept, placed] at gone
    split at gone
    case isTrue => cases gone
    case isFalse different =>
      refine ⟨used.resolve_left different, fun _ same => ?_, fun _ => gone⟩
      exact different (Call.put.inj (Deed.call.inj same)).1.symm

theorem get_upholds (key : K) :
    (Shape.capped.cache.get key).Ends machine
      (fun _ later => ∃ left, Upheld capacity keys machine (.call (.get key)) left later)
      fun _ _ => False := by
  refine (LruLayer.get_steady capped.steady (capped.showing.get key)).ends
    (fun _ later next => ?_) fun _ _ no => no
  have permuted := RecencyOrder.touched_perm keys key
  exact ⟨_, capped.upholds next.1 permuted.subperm (fun _ _ => nofun) next.2
    (fun other shown => permuted.mem_iff.mpr (capped.tracked other shown)) fun _ _ _ => rfl⟩

theorem remove_upholds (key : K) :
    (Shape.capped.cache.remove key).Ends machine
      (fun _ later => ∃ left, Upheld capacity keys machine (.call (.remove key)) left later)
      fun _ _ => False := by
  refine (LruLayer.remove_steady capped.steady (capped.showing.remove key)).ends
    (fun _ later next => ?_) fun _ _ no => no
  have nodup : keys.Nodup := capped.steady.order.nodup
  refine ⟨_, capped.upholds next.1 List.erase_sublist.subperm (fun _ _ => nofun) next.2
    (fun other shown => ?_) fun _ other member => ?_⟩
  · obtain ⟨different, shown⟩ := isSome_of_hidden shown
    exact nodup.mem_erase_iff.mpr
      ⟨fun same => different (congrArg some same.symm), capped.tracked other shown⟩
  · have different := (nodup.mem_erase_iff.mp member).1
    exact if_neg fun same => different (Option.some.inj same).symm

theorem clear_upholds :
    Shape.capped.cache.clear.Ends machine
      (fun _ later => ∃ left, Upheld capacity keys machine (.call .clear) left later)
      fun _ _ => False := by
  refine (LruLayer.clear_steady capped.steady capped.showing.clear).ends
    (fun _ later next => ?_) fun _ _ no => no
  exact ⟨[], capped.upholds next.1 List.nil_subperm (fun _ _ => nofun) next.2 (fun _ => nofun)
    fun _ _ member => nomatch member⟩

theorem length_upholds {request : Call K (Shared V)}
    (other : ∀ key value, request ≠ .put key value) :
    Shape.capped.cache.length.Ends machine
      (fun _ later => ∃ left, Upheld capacity keys machine (.call request) left later)
      fun _ _ => False := by
  refine (LruLayer.length_steady capped.steady capped.showing.length).ends
    (fun _ later next => ?_) fun _ _ no => no
  exact ⟨keys, capped.upholds next.1 (List.Subperm.refl keys)
    (fun key value same => other key value (Deed.call.inj same)) next.2 capped.tracked
    fun _ _ _ => rfl⟩

theorem call_upholds (request : Call K (Shared V)) :
    (Shape.capped.cache.call request).Ends machine
      (fun _ later => ∃ left, Upheld capacity keys machine (.call request) left later)
      fun _ _ => False := by
  cases request with
  | put key value =>
    simp only [Cache.call, ends_bind, ends_pure]
    exact put_upholds capped key value
  | get key =>
    simp only [Cache.call, ends_bind, ends_pure]
    exact get_upholds capped key
  | remove key =>
    simp only [Cache.call, ends_bind, ends_pure]
    exact remove_upholds capped key
  | clear =>
    simp only [Cache.call, ends_bind, ends_pure]
    exact clear_upholds capped
  | length =>
    simp only [Cache.call, ends_bind, ends_pure]
    refine length_upholds capped fun _ _ same => ?_
    cases same
  | isEmpty =>
    simp only [Cache.call, Cache.isEmpty, ends_bind, ends_pure]
    refine length_upholds capped fun _ _ same => ?_
    cases same

end Calls

/-! ### The other deeds -/

/-- A reclamation leaves the recency layer alone. -/
theorem Capped.hide (capped : Capped capacity keys machine) (reclaims : deed.reclaims = true)
    {shown : K → Option (Shared V)}
    {inner : Machine K V ((Shape.soft .store : Shape .value).State K V)}
    (showing : Showing shown inner.layer inner.memory)
    (less : ∀ key, (shown key).isSome = true → (view machine key).isSome = true) :
    Upheld capacity keys machine deed keys
      (around (fun layer delegate => { layer with delegate }) machine inner) := by
  obtain ⟨sound, rfl⟩ := showing
  have steady := capped.steady
  refine ⟨⟨⟨steady.capacity, steady.overdue, steady.order⟩, capped.fits, sound,
    fun key shown => capped.tracked key (less key shown)⟩, fun key member _ => ⟨member, ?_, ?_⟩⟩
  · rintro value rfl
    cases reclaims
  · rw [reclaims]
    nofun

/-- What changes nothing but the pointers that callers hold keeps the stack capped. -/
theorem Capped.holding (capped : Capped capacity keys machine)
    (other : ∀ key value, deed ≠ .call (.put key value)) (values : Table String (Shared V)) :
    Upheld capacity keys machine deed keys
      { machine with memory := { machine.memory with values } } :=
  capped.upholds capped.steady (List.Subperm.refl keys) other ⟨capped.sound.holding values, rfl⟩
    capped.tracked fun _ _ _ => rfl

theorem reclaim_upholds (capped : Capped capacity keys machine) (limit : Nat)
    (reclaims : deed.reclaims = true) :
    (SoftLayer.reclaim (Shape.store : Shape .reference).cache limit).Ends
      (inside (·.delegate) machine)
      (fun _ inner => Upheld capacity keys machine deed keys
        (around (fun layer delegate => { layer with delegate }) machine inner))
      fun _ _ => False := by
  have sound := capped.showing.sound machine.trace
  refine ((SoftLayer.reclaim_sound store_reliable limit sound).and
    (SoftLayer.reclaim_takes store_reliable sound limit)).imp (fun _ inner next => ?_)
    fun _ _ no => no.1
  obtain ⟨sound, -, shows, -⟩ := next
  exact capped.hide reclaims ⟨sound, shows⟩ fun key shown => (isSome_of_hidden shown).2

theorem forceReclaim_upholds (capped : Capped capacity keys machine) (key : K)
    (reclaims : deed.reclaims = true) :
    (SoftLayer.forceReclaim (Shape.store : Shape .reference).cache key).Ends
      (inside (·.delegate) machine)
      (fun _ inner => Upheld capacity keys machine deed keys
        (around (fun layer delegate => { layer with delegate }) machine inner))
      fun _ _ => False := by
  refine (SoftLayer.forceReclaim_sound store_reliable key (capped.showing.sound machine.trace)).imp
    (fun _ inner next => ?_) fun _ _ no => no
  obtain ⟨sound, -, shows⟩ := next
  exact capped.hide reclaims ⟨sound, shows⟩ fun key shown => (isSome_of_hidden shown).2

theorem perform_upholds (use : deed.isUse) (capped : Capped capacity keys machine) :
    (Shape.capped.perform deed).Ends machine
      (fun _ later => ∃ left, Upheld capacity keys machine deed left later)
      fun _ _ => False := by
  cases deed with
  | call request =>
    rw [perform, ends_map]
    exact call_upholds capped request
  | reclaim limit =>
    simp only [perform, Shape.reclaim, visitSoft, LruLayer.below, ends_map, ends_within]
    exact (reclaim_upholds capped limit rfl).imp (fun _ _ next => ⟨keys, next⟩) fun _ _ no => no
  | reclaimAll =>
    simp only [perform, Shape.reclaimAll, visitSoft, LruLayer.below, ends_map, ends_within,
      SoftLayer.reclaimAll, ends_bind, ends_layer]
    exact (reclaim_upholds capped _ rfl).imp (fun _ _ next => ⟨keys, next⟩) fun _ _ no => no
  | forceReclaim key =>
    simp only [perform, Shape.forceReclaim, visitSoft, LruLayer.below, ends_map, ends_within]
    exact (forceReclaim_upholds capped key rfl).imp (fun _ _ next => ⟨keys, next⟩) fun _ _ no => no
  | setCapacity | setWindow | addFault => cases use
  | hold name value =>
    refine ⟨keys, capped.holding (fun _ _ same => ?_) _⟩
    cases same
  | release name =>
    refine ⟨keys, capped.holding (fun _ _ same => ?_) _⟩
    cases same

/-- After every use the tracked keys without a value have been reclaimed. -/
theorem run_upholds {start : Machine K V (Shape.capped.State K V)}
    (empty : Capped capacity [] start) (deeds : List (Deed K V)) (uses : ∀ deed ∈ deeds, deed.isUse) :
    ∃ keys, Capped capacity keys (Shape.capped.run deeds start).2 ∧
      ∀ key ∈ keys, view (Shape.capped.run deeds start).2 key = none →
        Shape.capped.Reclaimed deeds start key := by
  -- From the end, since a reclamation shows in the states just before and just after one deed.
  induction deeds using List.reverseRecOn with
  | nil => exact ⟨[], empty, fun _ => nofun⟩
  | append_singleton past deed inductionHypothesis =>
    obtain ⟨before, last⟩ := List.forall_mem_append.mp uses
    obtain ⟨keys, capped, reclaimed⟩ := inductionHypothesis before
    have ends := perform_upholds (last deed (List.mem_singleton_self deed)) capped
    obtain ⟨_, later, same, left, upheld⟩ := ends.run_eq
    have next : (Shape.capped.run (past ++ [deed]) start).2 = later := by
      rw [Shape.run_concat, same]
    rw [next]
    refine ⟨left, upheld.still, fun key member gone => ?_⟩
    obtain ⟨tracked, other, kept⟩ := upheld.stale key member gone
    cases shown : view (Shape.capped.run past start).2 key with
    | none => exact (reclaimed key tracked shown).concat other
    | some value =>
      have reclaims : deed.reclaims = true := by
        by_contra keeps
        rw [kept (Bool.not_eq_true _ ▸ keeps)] at shown
        cases shown
      refine ⟨past, deed, [], rfl, reclaims, ?_, ?_, fun _ => nofun⟩
      · rw [retrievable_iff capped.sound, shown]
        rfl
      · rw [next, retrievable_iff upheld.still.sound, gone]
        exact Bool.false_ne_true

/-! ### Puts -/

/-- With one more live key the keys are divided into the live ones and the others. -/
theorem exists_live_dead (nodup : keys.Nodup) {live : K → Bool}
    (tracked : ∀ key, live key = true → key ∈ keys) (key : K) :
    ∃ lively dead : List K, lively.Nodup ∧ dead.Nodup ∧
      (∀ other, other ∈ lively ↔ other = key ∨ live other = true) ∧
      (∀ other, other ∈ dead ↔ (other ≠ key ∧ other ∈ keys) ∧ live other = false) ∧
      lively.length + dead.length = (keys.erase key).length + 1 := by
  have others : (keys.erase key).Nodup := nodup.erase key
  refine ⟨key :: (keys.erase key).filter live, (keys.erase key).filter fun other => !live other,
    ?_, others.filter _, fun other => ?_, fun other => ?_, ?_⟩
  · exact List.nodup_cons.mpr ⟨fun member => nodup.not_mem_erase (List.mem_of_mem_filter member),
      others.filter _⟩
  · rw [List.mem_cons, List.mem_filter, nodup.mem_erase_iff]
    constructor
    · exact Or.imp_right And.right
    · intro used
      by_cases same : other = key
      · exact .inl same
      · have alive := used.resolve_left same
        exact .inr ⟨⟨same, tracked other alive⟩, alive⟩
  · rw [List.mem_filter, nodup.mem_erase_iff, Bool.not_eq_true']
  · rw [List.length_cons, Nat.add_right_comm, ← List.length_eq_length_filter_add live]

/-- A put takes away the value of the last tracked key if the retrievable keys, the new one among
them, and the other tracked keys are too many. -/
theorem Capped.put (capped : Capped capacity keys machine) (key : K) (value : Shared V) :
    let put := (Shape.capped.perform (.call (.put key value))).run machine
    put.1 = .ok (.reply .done) ∧
      ∃ live dead : List K, live.Nodup ∧ dead.Nodup ∧
        (∀ other, other ∈ live ↔ other = key ∨ Shape.capped.Retrievable machine other) ∧
        (∀ other, other ∈ dead ↔
          (other ≠ key ∧ other ∈ keys) ∧ ¬ Shape.capped.Retrievable machine other) ∧
        ∀ other, other ≠ key → Shape.capped.Retrievable machine other →
          (¬ Shape.capped.Retrievable put.2 other ↔
            capacity < live.length + dead.length ∧ (keys.erase key).getLast? = some other) := by
  have ends : (Shape.capped.perform (.call (.put key value))).Ends machine
      (fun outcome later => outcome = .reply .done ∧ ∃ left victim,
        Room capacity keys key left victim ∧
        Showing (without victim (placed (view machine) key value)) later.layer.delegate
          later.memory)
      fun _ _ => False := by
    simp only [Shape.perform, Cache.call, ends_map, ends_bind, ends_pure]
    refine (put_capped capped key value).imp (fun _ _ next => ?_) fun _ _ no => no
    obtain ⟨left, victim, room, -, showing⟩ := next
    exact ⟨trivial, left, victim, room, showing⟩
  obtain ⟨_, later, same, rfl, left, victim, room, sound, shows⟩ := ends.run_eq
  have shows : view later = without victim (placed (view machine) key value) := shows
  have retrievable := retrievable_iff capped.sound
  obtain ⟨live, dead, once, others, lively, stale, number⟩ :=
    exists_live_dead capped.steady.order.nodup capped.tracked key
  rw [same]
  refine ⟨rfl, live, dead, once, others, fun other => ?_, fun other => ?_,
    fun other different found => ?_⟩
  · rw [lively, retrievable]
  · rw [stale, retrievable, Bool.not_eq_true]
  · have shown := (retrievable other).mp found
    rw [retrievable_iff sound, shows, Bool.not_eq_true, room.lost_iff different shown, number]

end Shape.capped

/-- The machine of such a stack before anything has been done with it. -/
def cappedMachine (id : String) (hasLock : Bool) (window capacity : Nat) :
    Machine K V (Shape.capped.State K V) :=
  { layer := { capacity, delegate := { window, delegate := { id, hasLock } } } }

omit [DecidableEq K] in
/-- Assembling a recency layer and a soft layer around a store gives this machine. -/
theorem assemble_capped {id : String} (named : id ≠ "") (hasLock : Bool) {window capacity : Nat}
    (pinning : 0 < window) (positive : 0 < capacity) :
    Stack.assemble id hasLock [.lru capacity, .soft window] .value =
      .ok (⟨Shape.capped, (cappedMachine id hasLock window capacity).layer⟩ :
        Stack K V .value) := by
  have store : Stack.assemble id hasLock [] .reference =
      .ok (⟨.store, { id, hasLock }⟩ : Stack K V .reference) := Stack.ofStore_eq named hasLock
  have soft : Stack.assemble id hasLock [.soft window] .value =
      .ok (⟨.soft .store, { window, delegate := { id, hasLock } }⟩ : Stack K V .value) := by
    rw [Stack.assemble, store]
    exact Stack.withSoft_eq _ pinning
  rw [Stack.assemble, soft]
  exact Stack.withLru_eq _ positive

/-- Without a key the stack is capped. -/
theorem capped_start (id : String) (hasLock : Bool) (window capacity : Nat) :
    Shape.capped.Capped capacity []
      (cappedMachine id hasLock window capacity : Machine K V (Shape.capped.State K V)) :=
  ⟨⟨rfl, rfl, RecencyOrder.Represents.empty⟩, Nat.zero_le _,
    ⟨Table.distinct_empty, rfl, InStep.empty []⟩, fun _ => nofun⟩

/-- However a recency layer over a soft layer has been used, reclamations among the uses. It tracks
no more keys than its capacity, all retrievable keys among them; the others were reclaimed and not
put again. A put takes away another retrievable key if and only if the retrievable keys, its own
among them, and the other keys that are tracked although they were reclaimed are more than the
capacity, and the key is the last of the tracked ones. -/
theorem capped_crowds (id : String) (hasLock : Bool) (window capacity : Nat)
    (deeds : List (Deed K V)) (uses : ∀ deed ∈ deeds, deed.isUse) :
    let start := cappedMachine id hasLock window capacity
    let ended := Shape.capped.run deeds start
    let tracked := ended.2.layer.order.toList
    tracked.Nodup ∧ tracked.length ≤ capacity ∧
      (∀ key, Shape.capped.Retrievable ended.2 key → key ∈ tracked) ∧
      (∀ key ∈ tracked, ¬ Shape.capped.Retrievable ended.2 key →
        Shape.capped.Reclaimed deeds start key) ∧
      ∀ key value,
        let put := (Shape.capped.perform (.call (.put key value))).run ended.2
        put.1 = .ok (.reply .done) ∧
          ∃ live dead : List K, live.Nodup ∧ dead.Nodup ∧
            (∀ other, other ∈ live ↔ other = key ∨ Shape.capped.Retrievable ended.2 other) ∧
            (∀ other, other ∈ dead ↔
              (other ≠ key ∧ other ∈ tracked) ∧ ¬ Shape.capped.Retrievable ended.2 other) ∧
            ∀ other, other ≠ key → Shape.capped.Retrievable ended.2 other →
              (¬ Shape.capped.Retrievable put.2 other ↔
                capacity < live.length + dead.length ∧
                  (tracked.erase key).getLast? = some other) := by
  intro start ended tracked
  obtain ⟨keys, capped, reclaimed⟩ := Shape.capped.run_upholds
    (capped_start id hasLock window capacity) deeds uses
  have capped : Shape.capped.Capped capacity keys ended.2 := capped
  have same : tracked = keys := capped.steady.order.toList
  have retrievable := Shape.capped.retrievable_iff capped.sound
  rw [same]
  refine ⟨capped.steady.order.nodup, capped.fits, fun key found => ?_, fun key member gone => ?_,
    capped.put⟩
  · exact capped.tracked key ((retrievable key).mp found)
  · rw [retrievable, Option.not_isSome_iff_eq_none] at gone
    exact reclaimed key member gone

/-- The later one of two values is reclaimed. -/
def reclaimedLater : List (Deed Nat String) :=
  [.call (.put 1 ⟨0, "one"⟩), .call (.put 2 ⟨1, "two"⟩), .forceReclaim 2]

/-- Both keys are still tracked, and a third one takes away the first. -/
theorem reclaimedLater_loses :
    (∀ deed ∈ reclaimedLater, deed.isUse) ∧
      let ended := Shape.capped.run reclaimedLater (cappedMachine "pages" false 4 2)
      let put := (Shape.capped.perform (.call (.put 3 ⟨2, "three"⟩))).run ended.2
      ended.2.layer.order.toList = [2, 1] ∧ Shape.capped.Retrievable ended.2 1 ∧
        ¬ Shape.capped.Retrievable ended.2 2 ∧ ¬ Shape.capped.Retrievable put.2 1 := by
  refine ⟨by decide, by decide +kernel, ⟨⟨0, "one"⟩, ?_⟩, Shape.not_retrievable ?_,
    Shape.not_retrievable ?_⟩
  · decide +kernel
  · decide +kernel
  · decide +kernel

/-- The reclaimed key counts, so a put takes away the other one. -/
theorem capped_crowds_reclaimed :
    Stack.assemble "pages" false [.lru 2, .soft 4] .value =
        .ok (⟨Shape.capped, (cappedMachine "pages" false 4 2).layer⟩ : Stack Nat String .value) ∧
      (∀ deed ∈ reclaimedLater, deed.isUse) ∧
      let start := cappedMachine "pages" false 4 2
      let ended := Shape.capped.run reclaimedLater start
      let put := (Shape.capped.perform (.call (.put 3 ⟨2, "three"⟩))).run ended.2
      Shape.capped.Reclaimed reclaimedLater start 2 ∧
        Shape.capped.Retrievable ended.2 1 ∧ ¬ Shape.capped.Retrievable put.2 1 ∧
        ∃ live dead : List Nat, live.Nodup ∧ dead.Nodup ∧
          (∀ other, other ∈ live ↔ other = 3 ∨ Shape.capped.Retrievable ended.2 other) ∧
          (∀ other, other ∈ dead ↔
            (other ≠ 3 ∧ other ∈ [2, 1]) ∧ ¬ Shape.capped.Retrievable ended.2 other) ∧
          2 < live.length + dead.length := by
  obtain ⟨uses, tracked, one, two, gone⟩ := reclaimedLater_loses
  obtain ⟨-, -, -, reclaimed, puts⟩ := capped_crowds "pages" false 4 2 reclaimedLater uses
  obtain ⟨-, live, dead, once, others, lively, stale, lost⟩ := puts 3 ⟨2, "three"⟩
  rw [tracked] at reclaimed stale
  exact ⟨assemble_capped (by decide) false (by decide) (by decide), uses,
    reclaimed 2 (by decide) two, one, gone, live, dead, once, others, lively, stale,
    ((lost 1 (by decide) one).mp gone).1⟩

/-- At this put the retrievable keys, the new one among them, are no more than the capacity. -/
theorem retrievable_lost_within_capacity :
    Stack.assemble "pages" false [.lru 2, .soft 4] .value =
        .ok (⟨Shape.capped, (cappedMachine "pages" false 4 2).layer⟩ : Stack Nat String .value) ∧
      (∀ deed ∈ reclaimedLater, deed.isUse) ∧
      let ended := Shape.capped.run reclaimedLater (cappedMachine "pages" false 4 2)
      let put := (Shape.capped.perform (.call (.put 3 ⟨2, "three"⟩))).run ended.2
      Shape.capped.Retrievable ended.2 1 ∧ ¬ Shape.capped.Retrievable put.2 1 ∧
        ∃ keys : List Nat, keys.Nodup ∧ keys.length ≤ 2 ∧
          ∀ key, key ∈ keys ↔ key = 3 ∨ Shape.capped.Retrievable ended.2 key := by
  obtain ⟨uses, tracked, one, two, gone⟩ := reclaimedLater_loses
  obtain ⟨keys, capped, -⟩ := Shape.capped.run_upholds
    (capped_start "pages" false 4 2) reclaimedLater uses
  rw [← capped.steady.order.toList, tracked] at capped
  refine ⟨assemble_capped (by decide) false (by decide) (by decide), uses, one, gone, [3, 1],
    by decide, Nat.le_refl _, fun key => ?_⟩
  rw [List.mem_pair]
  refine or_congr_right ⟨?_, fun found => ?_⟩
  · rintro rfl
    exact one
  · have shown := (Shape.capped.retrievable_iff capped.sound key).mp found
    rcases List.mem_pair.mp (capped.tracked key shown) with rfl | same
    · exact absurd found two
    · exact same

end LayeredCache
