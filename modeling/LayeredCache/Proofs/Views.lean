/-
This file proves that no layer makes up an item, whatever fails in the layers below.

The view of a state tells which item is stored under which key; through a soft layer the item is the
value that the stored reference was made for, reclaimed or not. `Truthful` bounds the view after
every operation by the view before it: a put may add its own item, even if it fails, and nothing
else adds anything. It also ties the answers to the views: an item that is returned was stored, and
a key that was cleared, removed or answered with nothing is stored no longer.
-/

import LayeredCache.Proofs.Drains
import LayeredCache.Proofs.Evictions
import LayeredCache.Proofs.Settings

namespace LayeredCache

open LayeredCache.Action

variable {K V σ X Y : Type}

/-! ### Intercepted calls -/

/-- A probe fails before the delegate is called, or afterwards, or not at all. -/
theorem ProbeLayer.intercept_leaves {α : Type} {position : Nat} {method : Method} {key : Option K}
    {action : Action K V σ α} {layer : ProbeLayer σ} {memory : Memory K V}
    {done : α → σ → Memory K V → Prop} {failed : σ → Memory K V → Prop}
    (before : failed layer.delegate memory)
    (leaves : action.Leaves layer.delegate memory done failed)
    (after : ∀ value later memory, done value later memory → failed later memory) :
    (intercept position method key action).Leaves layer memory
      (fun value later => done value later.delegate) fun later => failed later.delegate := by
  intro trace
  simp only [intercept, below, fail, ends_bind, ends_updateLayer, ends_note]
  split
  case h_1 =>
    rw [ends_within]
    exact leaves.ends (fun _ _ next => next) fun _ _ next => next
  case h_2 fault _ =>
    split
    case isTrue =>
      simp only [ends_bind, ends_within, ends_note, ends_throw]
      exact leaves.ends (fun _ _ next => after _ _ _ next) fun _ _ next => next
    case isFalse =>
      simp only [ends_bind, ends_note, ends_throw]
      exact before

/-! ### Views -/

/-- What the later view shows was shown before. -/
def Less (later earlier : K → Option X) : Prop :=
  ∀ key item, later key = some item → earlier key = some item

theorem Less.refl (view : K → Option X) : Less view view := fun _ _ shown => shown

theorem Less.trans {first second third : K → Option X} (one : Less third second)
    (other : Less second first) : Less third first :=
  fun key item shown => other key item (one key item shown)

/-- Changing all items changes both views alike. -/
theorem Less.map {later earlier : K → Option X} (less : Less later earlier) (change : X → Y) :
    Less (fun key => (later key).map change) fun key => (earlier key).map change := by
  intro key item shown
  obtain ⟨inner, found, rfl⟩ := Option.map_eq_some_iff.mp shown
  exact Option.map_eq_some_iff.mpr ⟨inner, less key inner found, rfl⟩

/-- The values that the stored references were made for. -/
def SoftLayer.view (inner : σ → K → Option (SoftReference K V)) (layer : SoftLayer K V σ)
    (key : K) : Option (Shared V) :=
  (inner layer.delegate key).map fun reference => reference.referent

theorem SoftLayer.view_of_found {inner : σ → K → Option (SoftReference K V)}
    {layer : SoftLayer K V σ} {key : K} {reference : SoftReference K V} {memory : Memory K V}
    {value : Shared V} (found : inner layer.delegate key = some reference)
    (resolved : memory.resolve reference = some value) : view inner layer key = some value := by
  rw [view, found, Option.map_some, referent_of_resolve resolved]

variable [DecidableEq K]

/-- The view with one more item. -/
def placed (view : K → Option X) (key : K) (item : X) : K → Option X :=
  fun other => if other = key then some item else view other

theorem placed_map (view : K → Option X) (key : K) (item : X) (change : X → Y) :
    (fun other => (placed view key item other).map change) =
      placed (fun other => (view other).map change) key (change item) := by
  funext other
  unfold placed
  split <;> rfl

theorem Less.placed {later earlier : K → Option X} (less : Less later earlier) (key : K)
    (item : X) :
    Less (placed later key item) (placed earlier key item) := by
  intro other found shown
  unfold LayeredCache.placed at shown ⊢
  split at shown
  case isTrue same => rwa [if_pos same]
  case isFalse different =>
    rw [if_neg different]
    exact less other found shown

theorem Table.find?_insert_eq (table : Table K X) (key : K) (item : X) :
    (table.insert key item).find? = placed table.find? key item :=
  funext fun other => Table.find?_insert table key other item

theorem Less.erase (table : Table K X) (key : K) : Less (table.erase key).find? table.find? := by
  intro other item shown
  rw [Table.find?_erase] at shown
  split at shown
  case isTrue => cases shown
  case isFalse => exact shown

/-! ### Truthful caches -/

/-- Every operation shows at most what was shown before and what it was given itself. -/
structure Cache.Truthful (cache : Cache K V σ X) (view : σ → K → Option X) : Prop where
  put : ∀ layer memory key item, (cache.put key item).Leaves layer memory
    (fun _ later _ => Less (view later) (placed (view layer) key item))
    fun later _ => Less (view later) (view layer) ∨
      Less (view later) (placed (view layer) key item)
  get : ∀ layer memory key, (cache.get key).Leaves layer memory
    (fun found later _ => Less (view later) (view layer) ∧
      (∀ item, found = some item → view layer key = some item) ∧
      (found = none → view later key = none))
    fun later _ => Less (view later) (view layer)
  remove : ∀ layer memory key, (cache.remove key).Leaves layer memory
    (fun found later _ => Less (view later) (view layer) ∧
      (∀ item, found = some item → view layer key = some item) ∧ view later key = none)
    fun later _ => Less (view later) (view layer)
  clear : ∀ layer memory, cache.clear.Leaves layer memory
    (fun _ later _ => ∀ key, view later key = none)
    fun later _ => Less (view later) (view layer)
  length : ∀ layer memory, cache.length.Leaves layer memory
    (fun _ later _ => Less (view later) (view layer))
    fun later _ => Less (view later) (view layer)

section Lasting

variable {cache : Cache K V σ X} {view : σ → K → Option X} {earlier : K → Option X}

/-- A look-up shows nothing new. -/
theorem Cache.Truthful.get_less (truthful : cache.Truthful view) (key : K) (layer : σ)
    (memory : Memory K V) (less : Less (view layer) earlier) :
    (cache.get key).Leaves layer memory (fun _ later _ => Less (view later) earlier)
      fun later _ => Less (view later) earlier :=
  (truthful.get layer memory key).imp (fun _ _ _ next => next.1.trans less)
    fun _ _ next => next.trans less

/-- A removal shows nothing new. -/
theorem Cache.Truthful.remove_less (truthful : cache.Truthful view) (key : K) (layer : σ)
    (memory : Memory K V) (less : Less (view layer) earlier) :
    (cache.remove key).Leaves layer memory (fun _ later _ => Less (view later) earlier)
      fun later _ => Less (view later) earlier :=
  (truthful.remove layer memory key).imp (fun _ _ _ next => next.1.trans less)
    fun _ _ next => next.trans less

end Lasting

/-! ### The store -/

theorem truthful_store (handles : List X → Handles K V) :
    (Store.cache handles).Truthful fun store => store.table.find? where
  put store memory key item trace := by
    show Less (store.table.insert key item).find? _
    rw [Table.find?_insert_eq]
    exact Less.refl _
  get store memory key trace := ⟨Less.refl _, fun _ same => same, fun same => same⟩
  remove store memory key trace :=
    ⟨Less.erase store.table key, fun _ same => same, Table.find?_erase_self _ key⟩
  clear store memory trace key := Table.find?_empty key
  length store memory trace := Less.refl _

/-! ### Recency layers -/

/-- A recency layer adds removals to a put, and nothing else that its delegate notices. -/
theorem LruLayer.truthful {delegate : Cache K V σ X} {view : σ → K → Option X}
    (truthful : delegate.Truthful view) :
    (LruLayer.cache delegate).Truthful fun layer => view layer.delegate where
  put layer memory key item := by
    have stored := truthful.put layer.delegate memory key item
    refine LruLayer.put_keeps (fun victim inner memory less => ?_) stored
    exact (truthful.remove_less victim inner memory less).imp (fun _ _ _ next => next)
      fun _ _ next => Or.inr next
  get layer memory key := LruLayer.get_leaves (truthful.get layer.delegate memory key)
  remove layer memory key := LruLayer.remove_leaves (truthful.remove layer.delegate memory key)
  clear layer memory := LruLayer.clear_leaves (truthful.clear layer.delegate memory)
  length layer memory := LruLayer.length_leaves (truthful.length layer.delegate memory)

/-! ### Probes -/

/-- A probe may report a call as failed that the delegate has done. -/
theorem ProbeLayer.truthful {delegate : Cache K V σ X} {view : σ → K → Option X}
    (truthful : delegate.Truthful view) (position : Nat) :
    (ProbeLayer.cache position delegate).Truthful fun layer => view layer.delegate where
  put layer memory key item :=
    intercept_leaves (Or.inl (Less.refl _)) (truthful.put layer.delegate memory key item)
      fun _ _ _ next => Or.inr next
  get layer memory key :=
    intercept_leaves (Less.refl _) (truthful.get layer.delegate memory key) fun _ _ _ next => next.1
  remove layer memory key :=
    intercept_leaves (Less.refl _) (truthful.remove layer.delegate memory key)
      fun _ _ _ next => next.1
  clear layer memory :=
    intercept_leaves (Less.refl _) (truthful.clear layer.delegate memory)
      fun _ _ _ cleared key item shown => by rw [cleared key] at shown; cases shown
  length layer memory :=
    intercept_leaves (Less.refl _) (truthful.length layer.delegate memory) fun _ _ _ next => next

/-! ### Soft layers -/

namespace SoftLayer

variable {delegate : Cache K V σ (SoftReference K V)} {inner : σ → K → Option (SoftReference K V)}

/-- A reference that is placed places its value. -/
theorem view_placed {earlier later : K → Option (SoftReference K V)} {key : K}
    {reference : SoftReference K V} {value : Shared V} (referent : reference.referent = value)
    (less : Less later (placed earlier key reference)) :
    Less (fun key => (later key).map fun reference => reference.referent)
      (placed (fun key => (earlier key).map fun reference => reference.referent) key value) := by
  have mapped := less.map fun reference => reference.referent
  rwa [placed_map, referent] at mapped

/-- A drain shows nothing new. -/
theorem drain_less (truthful : delegate.Truthful inner) {earlier : K → Option (SoftReference K V)}
    {machine : Machine K V (SoftLayer K V σ)} (less : Less (inner machine.layer.delegate) earlier) :
    (drain delegate).Ends machine (fun _ later => Less (inner later.layer.delegate) earlier)
      fun _ later => Less (inner later.layer.delegate) earlier :=
  drain_keeps truthful.get_less truthful.remove_less less

/-- A soft layer returns the values of references that its delegate returns, if it returns any. -/
theorem truthful (truthful : delegate.Truthful inner) :
    (SoftLayer.cache delegate).Truthful (view inner) where
  put layer memory key value trace := by
    show (SoftLayer.put delegate key value).Ends _ _ _
    simp only [SoftLayer.put, below, ends_bind, ends_withQueue, ends_within]
    refine (drain_less truthful (Less.refl _)).imp (fun _ drained less => ?_)
      fun _ _ less => Or.inl (less.map _)
    have referent := (register_keeps drained.layer.queue drained.memory (alive delegate drained)
      key value).1
    refine (truthful.put _ _ key _).ends (fun _ later stored => ?_) fun _ later stored => ?_
    · exact view_placed referent (stored.trans (less.placed key _))
    · refine stored.imp (fun kept => (kept.trans less).map _) fun stored => ?_
      exact view_placed referent (stored.trans (less.placed key _))
  get layer memory key trace := by
    show (SoftLayer.get delegate key).Ends _ _ _
    simp only [SoftLayer.get, below, ends_bind, ends_within]
    refine (truthful.get layer.delegate memory key).ends (fun found later next => ?_)
      fun _ _ less => less.map _
    obtain ⟨less, stored, missing⟩ := next
    cases found with
    | none =>
      simp only [ends_bind, count, ends_modifyLayer, ends_pure]
      refine ⟨less.map _, fun _ same => ?_, fun _ => Option.map_eq_none_iff.mpr (missing rfl)⟩
      cases same
    | some reference =>
      simp only [ends_bind, ends_memory, around, count]
      split
      case h_1 value resolved =>
        rw [ends_bind]
        refine ends_pin fun ring counters trace => ?_
        refine ⟨less.map _, fun _ same => ?_, fun same => ?_⟩
        · cases same
          exact view_of_found (stored reference rfl) resolved
        · cases same
      case h_2 =>
        simp only [ends_bind, name, ends_layer, ends_pure, ends_report, ends_within]
        refine (truthful.remove _ _ key).ends (fun _ last next => ?_)
          fun _ _ next => (next.trans less).map _
        refine ⟨(next.1.trans less).map _, fun _ same => ?_, fun _ => ?_⟩
        · cases same
        · exact Option.map_eq_none_iff.mpr next.2.2
  remove layer memory key trace := by
    show (SoftLayer.remove delegate key).Ends _ _ _
    simp only [SoftLayer.remove, below, ends_bind, ends_within]
    refine (drain_less truthful (Less.refl _)).imp (fun _ drained less => ?_)
      fun _ _ less => less.map _
    refine (truthful.remove drained.layer.delegate drained.memory key).ends
      (fun found later next => ?_) fun _ _ next => (next.trans less).map _
    obtain ⟨fewer, stored, missing⟩ := next
    have gone : view inner { drained.layer with delegate := later.layer } key = none :=
      Option.map_eq_none_iff.mpr missing
    cases found with
    | none =>
      refine ⟨(fewer.trans less).map _, fun _ same => ?_, gone⟩
      cases same
    | some reference =>
      simp only [ends_bind, ends_memory, around, ends_pure]
      refine ⟨(fewer.trans less).map _, fun value resolved => ?_, gone⟩
      exact view_of_found (less key _ (stored reference rfl)) resolved
  clear layer memory trace := by
    show (SoftLayer.clear delegate).Ends _ _ _
    simp only [SoftLayer.clear, below, ends_bind, ends_modifyLayer, ends_within]
    refine (drain_less truthful (Less.refl _)).imp (fun _ drained less => ?_)
      fun _ _ less => less.map _
    refine (truthful.clear drained.layer.delegate drained.memory).ends (fun _ later cleared => ?_)
      fun _ _ next => (next.trans less).map _
    exact fun key => Option.map_eq_none_iff.mpr (cleared key)
  length layer memory trace := by
    show (SoftLayer.length delegate).Ends _ _ _
    simp only [SoftLayer.length, below, ends_bind, ends_within]
    refine (drain_less truthful (Less.refl _)).imp (fun _ drained less => ?_)
      fun _ _ less => less.map _
    exact (truthful.length drained.layer.delegate drained.memory).ends
      (fun _ _ next => (next.trans less).map _) fun _ _ next => (next.trans less).map _

end SoftLayer

/-! ### Stacks -/

namespace Shape

/-- What the stack stores under the keys. -/
def view {content : Content} (shape : Shape content) (layer : shape.State K V) :
    K → Option (content.Item K V) :=
  (shape.table layer).find?

theorem view_soft (delegate : Shape .reference) (layer : (Shape.soft delegate).State K V) :
    (Shape.soft delegate).view layer = SoftLayer.view delegate.view layer :=
  funext fun key => Table.find?_mapItems _ _ key

theorem truthful {content : Content} (shape : Shape content) :
    (shape.cache : Cache K V (shape.State K V) (content.Item K V)).Truthful shape.view := by
  induction shape with
  | store => exact truthful_store _
  | lru delegate inductionHypothesis => exact LruLayer.truthful inductionHypothesis
  | probe delegate inductionHypothesis => exact ProbeLayer.truthful inductionHypothesis _
  | soft delegate inductionHypothesis =>
    have same : (Shape.soft delegate).view = SoftLayer.view (delegate.view (K := K) (V := V)) :=
      funext (view_soft delegate)
    rw [same]
    exact SoftLayer.truthful inductionHypothesis

/-- The action changes nothing that is stored. -/
def Unseen {α : Type} {content : Content} (shape : Shape content)
    (action : Action K V (shape.State K V) α) : Prop :=
  ∀ layer memory, action.Leaves layer memory (fun _ later _ => shape.view later = shape.view layer)
    fun later _ => shape.view later = shape.view layer

theorem Retunes.unseen {α : Type} {content : Content} {shape : Shape content}
    {action : Action K V (shape.State K V) α} (retunes : shape.Retunes action) :
    shape.Unseen action :=
  fun layer memory => (retunes layer memory).imp
    (fun _ _ _ next => congrArg Table.find? next.2.table) fun _ _ no => no.elim

/-- What the soft layer takes no notice of, the whole stack does not either. -/
theorem unseen_visitSoft {α β : Type} {content : Content} {shape : Shape content}
    {action : (delegate : Shape .reference) → Action K V (SoftLayer K V (delegate.State K V)) α}
    (unseen : ∀ delegate : Shape .reference, (Shape.soft delegate).Unseen (action delegate))
    (change : Option α → β) : shape.Unseen (change <$> shape.visitSoft action) := by
  intro layer memory trace
  rw [ends_map]
  induction shape with
  | store => rfl
  | lru delegate inductionHypothesis =>
    rw [visitSoft, LruLayer.below, ends_within]
    exact inductionHypothesis layer.delegate
  | probe delegate inductionHypothesis =>
    rw [visitSoft, ProbeLayer.below, ends_within]
    exact inductionHypothesis layer.delegate
  | soft delegate =>
    rw [visitSoft, ends_map]
    exact unseen delegate layer memory trace

/-- Only calls change what is stored. -/
theorem unseen_perform (shape : Shape .value) {deed : Deed K V}
    (silent : ∀ call, deed ≠ .call call) :
    shape.Unseen (shape.perform deed) := by
  cases deed with
  | call call => exact absurd rfl (silent call)
  | reclaim limit =>
    refine unseen_visitSoft (fun delegate layer memory trace => ?_) _
    simp only [SoftLayer.reclaim, ends_bind, SoftLayer.ends_withQueue, ends_layer, ends_report,
      ends_pure]
    rfl
  | reclaimAll =>
    refine unseen_visitSoft (fun delegate layer memory trace => ?_) _
    simp only [SoftLayer.reclaimAll, SoftLayer.reclaim, ends_bind, SoftLayer.ends_withQueue,
      ends_layer, ends_report, ends_pure]
    rfl
  | forceReclaim key =>
    refine unseen_visitSoft (fun delegate layer memory trace => ?_) _
    simp only [SoftLayer.forceReclaim, SoftLayer.ends_withQueue]
    rfl
  | setCapacity position capacity => exact (retunes_setCapacity shape position capacity).unseen
  | setWindow window => exact (retunes_setWindow shape window).unseen
  | addFault position fault => exact (retunes_addFault shape position fault).unseen
  | hold name value => exact fun _ _ _ => rfl
  | release name => exact fun _ _ _ => rfl

end Shape

end LayeredCache
