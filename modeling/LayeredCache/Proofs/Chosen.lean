/-
This file proves that the construction builds what was chosen or names the first thing that is wrong
with it.

The check stops at its first complaint; `violations` lists what it would complain about if it never
stopped. That the stack is the one that the layers make when they are assembled one by one is
`build_eq`, where the check and the construction meet.
-/

import Mathlib.Data.List.Induction
import LayeredCache.Proofs.Renewal

namespace LayeredCache

/-! ### Choices -/

/-- A call that says something about the stack to be built. -/
inductive Choice where
  | lru (capacity : Nat)
  | soft (window : Nat)
  | lock (enabled : Bool)
  deriving DecidableEq, Inhabited

/-- The layer that is asked for, if one is. -/
def Choice.policy : Choice → Option Policy
  | .lru capacity => some (.lru capacity)
  | .soft window => some (.soft window)
  | .lock _ => none

/-- What is said about the lock, if anything is. -/
def Choice.locks : Choice → Option Bool
  | .lock enabled => some enabled
  | _ => none

namespace Blueprint

/-- The blueprint after one more call. -/
def choose (blueprint : Blueprint) : Choice → Blueprint
  | .lru capacity => blueprint.lru capacity
  | .soft window => blueprint.soft window
  | .lock enabled => blueprint.lock enabled

/-- The blueprint that the calls make, one after the other. -/
def chosen (id : String) (choices : List Choice) : Blueprint := choices.foldl choose (named id)

/-- The layers are those that were asked for, in this order, and the last word about the lock
counts. -/
theorem chosen_eq (id : String) (choices : List Choice) :
    chosen id choices =
      ⟨id, choices.filterMap Choice.policy,
        (choices.filterMap Choice.locks).getLast?.getD false⟩ := by
  induction choices using List.reverseRecOn with
  | nil => rfl
  | append_singleton choices choice inductionHypothesis =>
    have last : chosen id (choices ++ [choice]) = (chosen id choices).choose choice := by
      rw [chosen, List.foldl_append]
      rfl
    rw [last, inductionHypothesis, List.filterMap_append, List.filterMap_append]
    cases choice with
    | lru capacity => simp [choose, lru, Choice.policy, Choice.locks]
    | soft window => simp [choose, soft, Choice.policy, Choice.locks]
    | lock enabled => simp [choose, lock, Choice.policy, Choice.locks]

/-! ### Violations -/

/-- What is wrong with a layer above the others: a zero setting, and then a second soft layer. -/
def violationsOf (below : List Policy) : Policy → List ConfigError
  | .lru capacity => if capacity = 0 then [.zeroCapacity] else []
  | .soft window =>
    (if window = 0 then [.zeroWindow] else []) ++
      if below.any Policy.isSoft then [.secondSoftLayer] else []

/-- What is wrong with the layers above the others, in their order. -/
def violationsAbove (below : List Policy) : List Policy → List ConfigError
  | [] => []
  | policy :: rest => violationsOf below policy ++ violationsAbove (below ++ [policy]) rest

/-- All that is wrong with a blueprint: first its name, then its layers. -/
def violations (blueprint : Blueprint) : List ConfigError :=
  (if blueprint.id = "" then [.emptyId] else []) ++ violationsAbove [] blueprint.layers

/-- A failure names the first of the violations. -/
theorem error_eq_iff {α : Type} {first cause : ConfigError} {others : List ConfigError} :
    (.error first : Except ConfigError α) = .error cause ↔
      (first :: others).head? = some cause := by
  rw [List.head?_cons, Except.error.injEq, Option.some.injEq]

/-- The check of layers stops at the first violation. -/
theorem checkLayers_eq_error {index : Nat} {softAt : Option Nat} {below layers : List Policy}
    (agree : softAt.isSome = below.any Policy.isSoft) (cause : ConfigError) :
    checkLayers index softAt layers = .error cause ↔
      (violationsAbove below layers).head? = some cause := by
  induction layers generalizing index softAt below with
  | nil => exact iff_of_false nofun nofun
  | cons policy rest inductionHypothesis =>
    rw [violationsAbove]
    cases policy with
    | lru capacity =>
      rw [checkLayers, checkCapacity, violationsOf]
      split
      case isTrue => exact error_eq_iff
      case isFalse =>
        refine inductionHypothesis (agree.trans ?_)
        rw [List.any_append]
        exact (Bool.or_false _).symm
    | soft window =>
      rw [checkLayers, checkWindow, violationsOf, agree]
      split
      case isTrue => exact error_eq_iff
      case isFalse =>
        split
        case isTrue => exact error_eq_iff
        case isFalse =>
          refine inductionHypothesis ?_
          rw [List.any_append]
          exact (Bool.or_true _).symm

/-- So does the whole check. -/
theorem check_eq_error {blueprint : Blueprint} (cause : ConfigError) :
    blueprint.check = .error cause ↔ blueprint.violations.head? = some cause := by
  rw [check, checkId, violations]
  split
  case isTrue => exact error_eq_iff
  case isFalse => exact checkLayers_eq_error rfl cause

/-- A position without a soft layer is not among the violations. -/
theorem noSoftLayer_notMem_violations (blueprint : Blueprint) :
    .noSoftLayer ∉ blueprint.violations := by
  have layer : ∀ below policy, .noSoftLayer ∉ violationsOf below policy := by
    intro below policy
    cases policy with
    | lru capacity => simp [violationsOf]
    | soft window => simp [violationsOf]
  have layers : ∀ below rest, .noSoftLayer ∉ violationsAbove below rest := by
    intro below rest
    induction rest generalizing below with
    | nil => exact List.not_mem_nil
    | cons policy rest inductionHypothesis =>
      exact fun member => (List.mem_append.mp member).elim (layer below policy)
        (inductionHypothesis _)
  refine fun member => (List.mem_append.mp member).elim ?_ (layers [] blueprint.layers)
  split <;> simp

/-- No setting is zero if no layer is one with a zero setting. -/
theorem positive_iff {layers : List Policy} :
    (∀ policy ∈ layers, 0 < policy.setting) ↔ .lru 0 ∉ layers ∧ .soft 0 ∉ layers := by
  constructor
  · intro positive
    exact ⟨fun member => absurd (positive _ member) (Nat.lt_irrefl 0),
      fun member => absurd (positive _ member) (Nat.lt_irrefl 0)⟩
  · rintro ⟨bounded, pinning⟩ policy member
    refine Nat.pos_of_ne_zero fun zero => ?_
    cases policy with
    | lru capacity =>
      obtain rfl : capacity = 0 := zero
      exact bounded member
    | soft window =>
      obtain rfl : window = 0 := zero
      exact pinning member

variable {K V : Type}

/-- A blueprint is built if it is accepted. -/
theorem exists_build_iff {blueprint : Blueprint} :
    (∃ stack : Stack K V .value, blueprint.build = .ok stack) ↔ blueprint.Accepted := by
  refine ⟨fun ⟨stack, built⟩ => accepted_of_build built, fun accepted => ?_⟩
  have handed : Handed (K := K) (V := V) fun _ _ => True :=
    ⟨fun _ _ => trivial, fun _ _ _ _ _ => trivial, fun _ _ _ _ _ => trivial⟩
  obtain ⟨stack, built, -⟩ := build_of_accepted handed accepted
  exact ⟨stack, built⟩

/-- The construction fails as the check does, and in no other way. -/
theorem build_eq_error {blueprint : Blueprint} (cause : ConfigError) :
    (blueprint.build : Except ConfigError (Stack K V .value)) = .error cause ↔
      blueprint.check = .error cause := by
  cases checked : blueprint.check with
  | error other =>
    rw [build_eq, checked]
    show Except.error other = .error cause ↔ Except.error other = .error cause
    rw [Except.error.injEq, Except.error.injEq]
  | ok found =>
    obtain ⟨stack, built⟩ := exists_build_iff.mpr (check_eq_ok.mp checked).1
    rw [built]
    exact iff_of_false nofun nofun

end Blueprint

/-! ### What a stack is made of -/

section Stacks

variable {K V : Type}

theorem Stack.layers_of_assemble {id : String} {hasLock : Bool} {layers : List Layer}
    {content : Content} {stack : Stack K V content}
    (assembled : Stack.assemble id hasLock layers content = .ok stack) :
    stack.shape.layers stack.state = layers := by
  refine Stack.assemble_induction (fun layers stack => stack.shape.layers stack.state = layers)
    (fun _ _ _ => rfl) (fun _ _ capacity _ same => ?_) (fun _ _ same => ?_)
    (fun _ _ window _ same => ?_) assembled
  · rw [Shape.layers, same]
  · rw [Stack.withProbe, Shape.layers, same]
  · rw [Shape.layers, same]

/-- A stack has a soft layer if and only if one is among its layers. -/
theorem Shape.hasSoft_iff {content : Content} (shape : Shape content) (state : shape.State K V) :
    shape.hasSoft = true ↔ ∃ window, .soft window ∈ shape.layers state := by
  induction shape with
  | store => simp [hasSoft, layers]
  | lru delegate inductionHypothesis =>
    simpa [hasSoft, layers] using inductionHypothesis state.delegate
  | probe delegate inductionHypothesis =>
    simpa [hasSoft, layers] using inductionHypothesis state.delegate
  | soft delegate => exact iff_of_true rfl ⟨state.window, List.mem_cons_self⟩

/-- A stack without a soft layer gives no answer to who wants to reclaim values, any other one
does. -/
theorem Shape.reclaim_answers [DecidableEq K] {content : Content} (shape : Shape content)
    (limit : Nat) {machine : Machine K V (shape.State K V)} :
    (shape.reclaim limit).Ends machine (fun number _ => number.isSome = shape.hasSoft)
      fun _ _ => False := by
  unfold Shape.reclaim
  induction shape with
  | store => rfl
  | lru delegate inductionHypothesis =>
    rw [visitSoft, LruLayer.below, Action.ends_within]
    exact inductionHypothesis
  | probe delegate inductionHypothesis =>
    rw [visitSoft, ProbeLayer.below, Action.ends_within]
    exact inductionHypothesis
  | soft delegate =>
    simp only [visitSoft, SoftLayer.reclaim, Action.ends_map, Action.ends_bind,
      SoftLayer.ends_withQueue, Action.ends_layer, Action.ends_report, Action.ends_pure]
    rfl

end Stacks

/-! ### Building -/

open Blueprint (chosen violations)

/-- Whatever name and layers are chosen, the construction succeeds if and only if the name is not
empty, no setting is zero and at most one layer is soft; otherwise it fails with the first
violation, which is never that a soft layer was not found. The stack that is built is the one that
the chosen layers make when they are put around the store one after the other, so every run of the
one is a run of the other; no layer is left out or in another place, and values can be reclaimed if
and only if a soft layer was chosen. -/
theorem Blueprint.build_chosen {K V : Type} [DecidableEq K] (id : String) (choices : List Choice) :
    let layers := choices.filterMap Choice.policy
    let hasLock := (choices.filterMap Choice.locks).getLast?.getD false
    let built : Except ConfigError (Stack K V .value) := (chosen id choices).build
    ((∃ stack, built = .ok stack) ↔
        id ≠ "" ∧ .lru 0 ∉ layers ∧ .soft 0 ∉ layers ∧ layers.countP Policy.isSoft ≤ 1) ∧
      (∀ cause, built = .error cause ↔ (violations ⟨id, layers, hasLock⟩).head? = some cause) ∧
      built ≠ .error .noSoftLayer ∧
      ∀ stack, built = .ok stack →
        (∃ hand, Stack.assemble id hasLock (layers.reverse.map Policy.layer) .value = .ok hand ∧
          hand = stack ∧ ∀ deeds : List (Deed K V),
            (hand.shape.run deeds hand.machine).1 = (stack.shape.run deeds stack.machine).1) ∧
        stack.shape.layers stack.state = layers.reverse.map Policy.layer ∧
        (stack.shape.hasSoft = true ↔ ∃ window, .soft window ∈ layers) ∧
        ∀ limit (machine : Machine K V (stack.shape.State K V)), ∃ number later,
          (stack.shape.perform (.reclaim limit)).run machine = (.ok (.reclaimed number), later) ∧
            (number.isSome = true ↔ ∃ window, .soft window ∈ layers) := by
  intro layers hasLock built
  have same : chosen id choices = ⟨id, layers, hasLock⟩ := chosen_eq id choices
  have fails : ∀ cause, built = .error cause ↔
      (violations ⟨id, layers, hasLock⟩).head? = some cause := by
    intro cause
    rw [← same, ← check_eq_error]
    exact build_eq_error cause
  refine ⟨?_, fails, fun failed => ?_, fun stack done => ?_⟩
  · rw [exists_build_iff, same]
    constructor
    · rintro ⟨named, positive, single⟩
      exact ⟨named, (positive_iff.mp positive).1, (positive_iff.mp positive).2, single⟩
    · rintro ⟨named, bounded, pinning, single⟩
      exact ⟨named, positive_iff.mpr ⟨bounded, pinning⟩, single⟩
  · exact noSoftLayer_notMem_violations _ (List.mem_of_mem_head? ((fails _).mp failed))
  · have done : (chosen id choices).build = .ok stack := done
    rw [build_eq, same] at done
    obtain ⟨-, -, assembled⟩ := bind_eq_ok.mp done
    have made := Stack.layers_of_assemble assembled
    have soft : stack.shape.hasSoft = true ↔ ∃ window, .soft window ∈ layers := by
      rw [stack.shape.hasSoft_iff stack.state, made]
      refine exists_congr fun window => ?_
      rw [List.map_reverse, List.mem_reverse, List.mem_map]
      refine ⟨fun ⟨policy, member, layer⟩ => ?_, fun member => ⟨_, member, rfl⟩⟩
      cases policy with
      | lru capacity => cases layer
      | soft other =>
        cases layer
        exact member
    refine ⟨⟨stack, assembled, rfl, fun _ => rfl⟩, made, soft, fun limit machine => ?_⟩
    have answers : (stack.shape.perform (.reclaim limit)).Ends machine
        (fun outcome _ => ∃ number, outcome = .reclaimed number ∧
          number.isSome = stack.shape.hasSoft)
        fun _ _ => False := by
      rw [Shape.perform, Action.ends_map]
      exact (stack.shape.reclaim_answers limit).imp (fun number _ next => ⟨number, rfl, next⟩)
        fun _ _ no => no
    obtain ⟨_, later, ran, number, rfl, answered⟩ := answers.run_eq
    exact ⟨number, later, ran, answered ▸ soft⟩

end LayeredCache
