/-
This file says what a stack stores, and proves that changing the settings of single layers changes
nothing of it.

The table of a stack holds the values that can still be returned or have yet to be reclaimed, so
through a soft layer it has the values that the stored references were made for. `Retuned` relates
states that differ in settings, recency and counters alone.
-/

import LayeredCache.Proofs.Distinct
import LayeredCache.Proofs.Usage

namespace LayeredCache.Shape

open LayeredCache.Action

variable {K V α : Type}

/-- What the stack stores. -/
def table : {content : Content} → (shape : Shape content) → shape.State K V →
    Table K (content.Item K V)
  | _, .store, bottom => bottom.table
  | _, .lru delegate, layer => delegate.table layer.delegate
  | _, .probe delegate, layer => delegate.table layer.delegate
  | _, .soft delegate, layer =>
    (delegate.table layer.delegate).mapItems fun reference => reference.referent

/-- The later state has the same items, registered references and notifications. -/
def Retuned : {content : Content} → (shape : Shape content) → shape.State K V →
    shape.State K V → Prop
  | _, .store, layer, later => later = layer
  | _, .lru delegate, layer, later => delegate.Retuned layer.delegate later.delegate
  | _, .probe delegate, layer, later => delegate.Retuned layer.delegate later.delegate
  | _, .soft delegate, layer, later =>
    later.queue = layer.queue ∧ delegate.Retuned layer.delegate later.delegate

variable {content : Content} {shape : Shape content}

theorem Retuned.refl (layer : shape.State K V) : shape.Retuned layer layer := by
  induction shape with
  | store => rfl
  | lru delegate inductionHypothesis => exact inductionHypothesis layer.delegate
  | probe delegate inductionHypothesis => exact inductionHypothesis layer.delegate
  | soft delegate inductionHypothesis => exact ⟨rfl, inductionHypothesis layer.delegate⟩

theorem Retuned.table {layer later : shape.State K V} (retuned : shape.Retuned layer later) :
    shape.table later = shape.table layer := by
  induction shape with
  | store => exact congrArg Store.table retuned
  | lru delegate inductionHypothesis => exact inductionHypothesis retuned
  | probe delegate inductionHypothesis => exact inductionHypothesis retuned
  | soft delegate inductionHypothesis =>
    exact congrArg (Table.mapItems _) (inductionHypothesis retuned.2)

/-! ### Visits -/

/-- The action succeeds and changes settings alone. -/
def Retunes (shape : Shape content) (action : Action K V (shape.State K V) α) : Prop :=
  ∀ layer memory, action.Leaves layer memory
    (fun _ later after => after = memory ∧ shape.Retuned layer later) fun _ _ => False

theorem retunes_pure (value : α) : shape.Retunes (pure value : Action K V (shape.State K V) α) :=
  fun layer _ _ => ⟨rfl, Retuned.refl layer⟩

theorem Retunes.map {β : Type} {action : Action K V (shape.State K V) α}
    (retunes : shape.Retunes action) (change : α → β) : shape.Retunes (change <$> action) := by
  intro layer memory trace
  rw [ends_map]
  exact retunes layer memory trace

theorem Retunes.andThen {β : Type} {action : Action K V (shape.State K V) α}
    (retunes : shape.Retunes action) (value : β) :
    shape.Retunes (do
      let _ ← action
      return value) := by
  intro layer memory trace
  rw [ends_bind]
  exact retunes layer memory trace

/-- What retunes every part of a stack retunes the whole. -/
theorem retunes_visit {target : Nat}
    {action : {content : Content} → (part : Shape content) → Action K V (part.State K V) α}
    (retunes : ∀ {content : Content} (part : Shape content), part.Retunes (action part)) :
    shape.Retunes (shape.visit target action) := by
  induction shape with
  | store =>
    unfold visit
    split
    · exact (retunes .store).map some
    · exact retunes_pure none
  | lru delegate inductionHypothesis =>
    unfold visit
    split
    · exact (retunes (.lru delegate)).map some
    · intro layer memory trace
      rw [LruLayer.below, ends_within]
      exact inductionHypothesis layer.delegate memory trace
  | probe delegate inductionHypothesis =>
    unfold visit
    split
    · exact (retunes (.probe delegate)).map some
    · intro layer memory trace
      rw [ProbeLayer.below, ends_within]
      exact inductionHypothesis layer.delegate memory trace
  | soft delegate inductionHypothesis =>
    unfold visit
    split
    · exact (retunes (.soft delegate)).map some
    · intro layer memory trace
      rw [SoftLayer.below, ends_within]
      exact (inductionHypothesis layer.delegate memory trace).imp
        (fun _ _ next => ⟨next.1, rfl, next.2⟩) fun _ _ no => no

theorem retunes_visitSoft
    {action : (delegate : Shape .reference) → Action K V (SoftLayer K V (delegate.State K V)) α}
    (retunes : ∀ delegate : Shape .reference, (Shape.soft delegate).Retunes (action delegate)) :
    shape.Retunes (shape.visitSoft action) := by
  induction shape with
  | store => exact retunes_pure none
  | lru delegate inductionHypothesis =>
    intro layer memory trace
    rw [visitSoft, LruLayer.below, ends_within]
    exact inductionHypothesis layer.delegate memory trace
  | probe delegate inductionHypothesis =>
    intro layer memory trace
    rw [visitSoft, ProbeLayer.below, ends_within]
    exact inductionHypothesis layer.delegate memory trace
  | soft delegate => exact (retunes delegate).map some

/-! ### Settings -/

variable [DecidableEq K]

theorem retunes_setCapacity (shape : Shape .value) (position capacity : Nat) :
    shape.Retunes (shape.perform (.setCapacity position capacity : Deed K V)) := by
  refine Retunes.map (Retunes.map (retunes_visit fun part => ?_) _) _
  cases part with
  | lru delegate =>
    refine Retunes.map (fun layer memory trace => ?_) _
    unfold LruLayer.setCapacity
    split
    · exact ⟨rfl, Retuned.refl layer.delegate⟩
    · exact ⟨rfl, Retuned.refl layer.delegate⟩
  | store => exact retunes_pure _
  | probe delegate => exact retunes_pure _
  | soft delegate => exact retunes_pure _

theorem retunes_setWindow (shape : Shape .value) (window : Nat) :
    shape.Retunes (shape.perform (.setWindow window : Deed K V)) := by
  refine Retunes.map (retunes_visitSoft fun delegate layer memory trace => ?_) _
  unfold SoftLayer.setWindow
  split
  · exact ⟨rfl, rfl, Retuned.refl layer.delegate⟩
  · exact ⟨rfl, rfl, Retuned.refl layer.delegate⟩

theorem retunes_addFault (shape : Shape .value) (position : Nat) (fault : Fault) :
    shape.Retunes (shape.perform (.addFault position fault : Deed K V)) := by
  refine (Retunes.andThen (retunes_visit fun part => ?_) ()).andThen _
  cases part with
  | probe delegate => exact fun layer memory trace => ⟨rfl, Retuned.refl layer.delegate⟩
  | store => exact retunes_pure _
  | lru delegate => exact retunes_pure _
  | soft delegate => exact retunes_pure _

end LayeredCache.Shape
