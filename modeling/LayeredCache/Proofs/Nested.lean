/-
This file proves what stacked recency layers keep up when calls of the store, or of any layer that
has a probe on top, fail before they take effect.

A put of an inner recency layer can store its item and fail after that, because the eviction that
follows fails. The layers above it take the error for a put that did nothing, so they do not track
the key. After every run each recency layer therefore tracks every stored key, except for keys whose
last put has failed; only the innermost recency layer tracks these too. Where a put that succeeds
leaves more keys than a capacity allows for, the keys beyond it are keys of failed puts. There can
really be such keys, and the last theorems show a short way to get one.
-/

import LayeredCache.Proofs.Building
import LayeredCache.Proofs.Excused
import LayeredCache.Proofs.Freshness
import LayeredCache.Proofs.Overdue
import LayeredCache.Proofs.Settings

namespace LayeredCache

open LayeredCache.Action

variable {K V : Type}

/-! ### Failed puts -/

section FailedPuts

variable [DecidableEq K]

/-- The keys whose last put has failed, after one more occurrence. -/
def failedAfter (keys : List K) : Occurrence K V → List K
  | ⟨.call (.put key _), .ok _⟩ => keys.filter (· ≠ key)
  | ⟨.call (.put key _), .error _⟩ => key :: keys.filter (· ≠ key)
  | _ => keys

/-- The keys whose last put has failed. -/
def failedPuts (past : List (Occurrence K V)) : List K := past.foldl failedAfter []

theorem failedPuts_snoc (past : List (Occurrence K V)) (occurrence : Occurrence K V) :
    failedPuts (past ++ [occurrence]) = failedAfter (failedPuts past) occurrence := by
  rw [failedPuts, List.foldl_append]
  rfl

end FailedPuts

/-! ### Stacks of recency layers and probes -/

/-- The capacity of a recency layer. -/
def Layer.capacity? : Layer → Option Nat
  | .lru capacity => some capacity
  | .soft _ | .probe => none

namespace Shape

/-- The keys that each recency layer tracks, those of the outermost one first. -/
def tracked : {content : Content} → (shape : Shape content) → shape.State K V → List (List K)
  | _, .store, _ => []
  | _, .lru delegate, layer => layer.order.toList :: delegate.tracked layer.delegate
  | _, .probe delegate, layer => delegate.tracked layer.delegate
  | _, .soft delegate, layer => delegate.tracked layer.delegate

variable [DecidableEq K]

/-- The recency layers have the capacities and cover the stored keys, all probes fail calls before
they take effect, and no layer is soft. -/
def Covers : {content : Content} → (shape : Shape content) → List Nat → List K →
    shape.State K V → Prop
  | _, .store, [], _, bottom => bottom.table.Distinct
  | _, .store, _ :: _, _, _ => False
  | _, .lru _, [], _, _ => False
  | _, .lru delegate, capacity :: inner, excused, layer =>
    LruLayer.Covers (inner ≠ []) delegate.table (delegate.Covers inner) capacity excused layer
  | _, .probe delegate, capacities, excused, layer =>
    FailsBefore layer.faults ∧ delegate.Covers capacities excused layer.delegate
  | _, .soft _, _, _, _ => False

/-- Nothing is overdue in any recency layer. -/
def Fits : {content : Content} → (shape : Shape content) → shape.State K V → Prop
  | _, .store, _ => True
  | _, .lru delegate, layer => LruLayer.Fits delegate.Fits layer
  | _, .probe delegate, layer => delegate.Fits layer.delegate
  | _, .soft delegate, layer => delegate.Fits layer.delegate

variable {content : Content} {shape : Shape content} {capacities : List Nat} {excused : List K}
  {layer : shape.State K V}

/-- A stack may fail a put late if it has a recency layer. -/
theorem excuses (shape : Shape content) (capacities : List Nat) :
    (shape.cache : Cache K V (shape.State K V) (content.Item K V)).Excuses (capacities ≠ [])
      shape.table (shape.Covers capacities) shape.Fits := by
  induction shape generalizing capacities with
  | store =>
    cases capacities with
    | nil => exact excuses_store _ _
    | cons => exact .of_never fun _ _ no => no
  | lru delegate inductionHypothesis =>
    cases capacities with
    | nil => exact .of_never fun _ _ no => no
    | cons capacity inner =>
      rw [eq_true (List.cons_ne_nil capacity inner)]
      exact LruLayer.excuses (inductionHypothesis inner) capacity
  | probe delegate inductionHypothesis =>
    exact ProbeLayer.excuses (inductionHypothesis capacities) _
  | soft delegate => exact .of_never fun _ _ no => no

theorem Covers.distinct (covered : shape.Covers capacities excused layer) :
    (shape.table layer).Distinct := by
  induction shape generalizing capacities with
  | store =>
    cases capacities with
    | nil => exact covered
    | cons => exact covered.elim
  | lru delegate inductionHypothesis =>
    cases capacities with
    | nil => exact covered.elim
    | cons =>
      obtain ⟨keys, covering⟩ := covered
      exact inductionHypothesis covering.delegate
  | probe delegate inductionHypothesis => exact inductionHypothesis covered.2
  | soft delegate => exact covered.elim

theorem Covers.length_tracked (covered : shape.Covers capacities excused layer) :
    (shape.tracked layer).length = capacities.length := by
  induction shape generalizing capacities with
  | store =>
    cases capacities with
    | nil => rfl
    | cons => exact covered.elim
  | lru delegate inductionHypothesis =>
    cases capacities with
    | nil => exact covered.elim
    | cons =>
      obtain ⟨keys, covering⟩ := covered
      exact congrArg Nat.succ (inductionHypothesis covering.delegate)
  | probe delegate inductionHypothesis => exact inductionHypothesis covered.2
  | soft delegate => exact covered.elim

/-- Every recency layer tracks every stored key but excused ones, and the innermost one tracks these
too. -/
theorem Covers.tracks (covered : shape.Covers capacities excused layer) {key : K}
    (stored : key ∈ (shape.table layer).keys) :
    (∀ keys ∈ shape.tracked layer, key ∈ keys ∨ key ∈ excused) ∧
      ∀ keys, (shape.tracked layer).getLast? = some keys → key ∈ keys := by
  induction shape generalizing capacities with
  | store => exact ⟨fun _ none => absurd none List.not_mem_nil, fun _ none => by cases none⟩
  | lru delegate inductionHypothesis =>
    cases capacities with
    | nil => exact covered.elim
    | cons capacity inner =>
      have here := LruLayer.Covers.tracks covered stored
      obtain ⟨_, covering⟩ := covered
      have length := Covers.length_tracked covering.delegate
      obtain ⟨below, innermost⟩ := inductionHypothesis covering.delegate stored
      refine ⟨List.forall_mem_cons.mpr ⟨here.imp_right And.right, below⟩, fun keys last => ?_⟩
      rw [tracked] at last
      cases rest : delegate.tracked layer.delegate with
      | nil =>
        -- No recency layer is below, so nothing fails late and no key is excused.
        rw [rest] at length last
        obtain rfl : inner = [] := List.eq_nil_of_length_eq_zero length.symm
        exact Option.some.inj last ▸ here.resolve_right fun known => known.1 rfl
      | cons =>
        rw [rest] at last
        exact innermost keys (rest ▸ last)
  | probe delegate inductionHypothesis => exact inductionHypothesis covered.2 stored
  | soft delegate => exact covered.elim

/-- Once nothing is overdue, only excused keys are stored beyond the capacities, and none beyond the
innermost capacity. -/
theorem Covers.size_le (covered : shape.Covers capacities excused layer)
    (fits : shape.Fits layer) :
    (∀ capacity ∈ capacities, (shape.table layer).size ≤
        capacity + excused.countP (shape.table layer).contains) ∧
      ∀ capacity, capacities.getLast? = some capacity → (shape.table layer).size ≤ capacity := by
  induction shape generalizing capacities with
  | store =>
    cases capacities with
    | nil => exact ⟨fun _ none => absurd none List.not_mem_nil, fun _ none => by cases none⟩
    | cons => exact covered.elim
  | lru delegate inductionHypothesis =>
    cases capacities with
    | nil => exact covered.elim
    | cons capacity inner =>
      have here := LruLayer.Covers.size_le covered covered.distinct fits.1
      obtain ⟨_, covering⟩ := covered
      obtain ⟨below, innermost⟩ := inductionHypothesis covering.delegate fits.2
      refine ⟨List.forall_mem_cons.mpr ⟨here.1, below⟩, fun last same => ?_⟩
      cases inner with
      | nil => exact Option.some.inj same ▸ here.2 (fun no => no rfl)
      | cons => exact innermost last same
  | probe delegate inductionHypothesis => exact inductionHypothesis covered.2 fits
  | soft delegate => exact covered.elim

/-! ### Steps -/

/-- An action on single layers that keeps what each of them covers keeps what the stack covers. -/
theorem visit_covers {α : Type} {target : Nat}
    {action : {content : Content} → (part : Shape content) → Action K V (part.State K V) α}
    (each : ∀ {content : Content} (part : Shape content) (capacities : List Nat)
      (machine : Machine K V (part.State K V)), part.Covers capacities excused machine.layer →
      (action part).Ends machine
        (fun _ later => part.Covers capacities excused later.layer ∧
          part.table later.layer = part.table machine.layer) fun _ _ => False)
    {machine : Machine K V (shape.State K V)}
    (covered : shape.Covers capacities excused machine.layer) :
    (shape.visit target action).Ends machine
      (fun _ later => shape.Covers capacities excused later.layer ∧
        shape.table later.layer = shape.table machine.layer) fun _ _ => False := by
  induction shape generalizing capacities with
  | store =>
    unfold visit
    split
    · rw [ends_map]
      exact each _ _ _ covered
    · exact ⟨covered, rfl⟩
  | lru delegate inductionHypothesis =>
    unfold visit
    split
    · rw [ends_map]
      exact each _ _ _ covered
    · cases capacities with
      | nil => exact covered.elim
      | cons => exact LruLayer.below_covers covered fun covered => inductionHypothesis covered
  | probe delegate inductionHypothesis =>
    unfold visit
    split
    · rw [ends_map]
      exact each _ _ _ covered
    · rw [ProbeLayer.below, ends_within]
      exact (inductionHypothesis covered.2).imp
        (fun _ _ next => ⟨⟨covered.1, next.1⟩, next.2⟩) fun _ _ no => no
  | soft delegate => exact covered.elim

/-- Where no layer is soft, nothing is done for one. -/
theorem visitSoft_covers {α : Type}
    {action : (delegate : Shape .reference) → Action K V (SoftLayer K V (delegate.State K V)) α}
    {machine : Machine K V (shape.State K V)}
    (covered : shape.Covers capacities excused machine.layer) :
    (shape.visitSoft action).Ends machine
      (fun _ later => shape.Covers capacities excused later.layer ∧
        shape.table later.layer = shape.table machine.layer) fun _ _ => False := by
  induction shape generalizing capacities with
  | store => exact ⟨covered, rfl⟩
  | lru delegate inductionHypothesis =>
    cases capacities with
    | nil => exact covered.elim
    | cons => exact LruLayer.below_covers covered fun covered => inductionHypothesis covered
  | probe delegate inductionHypothesis =>
    rw [visitSoft, ProbeLayer.below, ends_within]
    exact (inductionHypothesis covered.2).imp
      (fun _ _ next => ⟨⟨covered.1, next.1⟩, next.2⟩) fun _ _ no => no
  | soft delegate => exact covered.elim

end Shape

/-- The deed may change a capacity. -/
def Deed.setsCapacity : Deed K V → Bool
  | .setCapacity _ _ => true
  | _ => false

namespace Shape

variable [DecidableEq K] {shape : Shape .value} {capacities : List Nat} {excused : List K}
  {machine : Machine K V (shape.State K V)}

/-- What a probe covers it covers with one more fault, if that fails calls before they take
effect. -/
theorem addFault_covers {position : Nat} {fault : Fault} (before : fault.after = false)
    (covered : shape.Covers capacities excused machine.layer) :
    (shape.addFault position fault).Ends machine
      (fun _ later => shape.Covers capacities excused later.layer) fun _ _ => False := by
  unfold addFault
  rw [ends_bind]
  refine (visit_covers (fun part capacities machine covered => ?_) covered).imp
    (fun _ _ next => next.1) fun _ _ no => no
  cases part with
  | probe delegate =>
    refine ⟨⟨List.forall_mem_append.mpr ⟨covered.1, ?_⟩, covered.2⟩, rfl⟩
    exact List.forall_mem_singleton.mpr before
  | store => exact ⟨covered, rfl⟩
  | lru delegate => exact ⟨covered, rfl⟩
  | soft delegate => exact ⟨covered, rfl⟩

theorem call_covers (covered : shape.Covers capacities excused machine.layer)
    (call : Call K (Shared V)) :
    (shape.perform (.call call)).Ends machine
      (fun outcome later =>
        shape.Covers capacities (failedAfter excused ⟨.call call, .ok outcome⟩) later.layer)
      fun cause later =>
        shape.Covers capacities (failedAfter excused ⟨.call call, .error cause⟩) later.layer := by
  have excuses := shape.excuses (K := K) (V := V) capacities
  simp only [perform, ends_map]
  cases call with
  | put key value =>
    simp only [Cache.call, ends_bind, ends_pure]
    refine (excuses.put excused _ _ key value covered).ends (fun _ _ next => next.1)
      fun _ _ next => ?_
    refine excuses.mono _ _ _ (List.cons_subset.mpr ⟨List.mem_cons_self, fun other member => ?_⟩)
      next.1
    by_cases same : other = key
    · exact same ▸ List.mem_cons_self
    · exact List.mem_cons_of_mem key (List.mem_filter.mpr ⟨member, decide_eq_true same⟩)
  | get key =>
    simp only [Cache.call, ends_bind, ends_pure]
    exact (excuses.get excused _ _ key covered).ends (fun _ _ next => next.1)
      fun _ _ next => next.1
  | remove key =>
    simp only [Cache.call, ends_bind, ends_pure]
    exact (excuses.remove excused _ _ key covered).ends (fun _ _ next => next.1)
      fun _ _ next => next.1
  | clear =>
    simp only [Cache.call, ends_bind, ends_pure]
    exact (excuses.clear excused _ _ covered).ends (fun _ _ next => next.1)
      fun _ _ next => next.1
  | length =>
    simp only [Cache.call, ends_bind, ends_pure]
    exact (excuses.length excused _ _ covered).ends (fun _ _ next => next.1)
      fun _ _ next => next.1
  | isEmpty =>
    simp only [Cache.call, Cache.isEmpty, ends_bind, ends_pure]
    exact (excuses.length excused _ _ covered).ends (fun _ _ next => next.1)
      fun _ _ next => next.1

theorem perform_covers (deed : Deed K V) (before : deed.FailsBefore)
    (fixed : deed.setsCapacity = false)
    (covered : shape.Covers capacities excused machine.layer) :
    (shape.perform deed).Ends machine
      (fun outcome later =>
        shape.Covers capacities (failedAfter excused ⟨deed, .ok outcome⟩) later.layer)
      fun cause later =>
        shape.Covers capacities (failedAfter excused ⟨deed, .error cause⟩) later.layer := by
  cases deed with
  | call call => exact call_covers covered call
  | reclaim limit =>
    rw [perform, ends_map]
    exact (visitSoft_covers covered).imp (fun _ _ next => next.1) fun _ _ no => no.elim
  | reclaimAll =>
    rw [perform, ends_map]
    exact (visitSoft_covers covered).imp (fun _ _ next => next.1) fun _ _ no => no.elim
  | forceReclaim key =>
    rw [perform, ends_map]
    exact (visitSoft_covers covered).imp (fun _ _ next => next.1) fun _ _ no => no.elim
  | setCapacity position capacity => cases fixed
  | setWindow window =>
    rw [perform, ends_map]
    exact (visitSoft_covers covered).imp (fun _ _ next => next.1) fun _ _ no => no.elim
  | addFault position fault =>
    rw [perform, ends_bind]
    exact (addFault_covers (before position fault rfl) covered).imp (fun _ _ next => next)
      fun _ _ no => no.elim
  | hold name value => exact covered
  | release name => exact covered

/-- Every run leaves the stored keys covered, but for those whose last put has failed. -/
theorem run_covers (deeds : List (Deed K V)) (before : ∀ deed ∈ deeds, deed.FailsBefore)
    (fixed : ∀ deed ∈ deeds, deed.setsCapacity = false)
    (start : shape.Covers capacities [] machine.layer) :
    shape.Covers capacities (failedPuts (shape.run deeds machine).1)
      (shape.run deeds machine).2.layer := by
  refine Shape.run_induction
    (fun past machine => shape.Covers capacities (failedPuts past) machine.layer)
    (fun deed => deed.FailsBefore ∧ deed.setsCapacity = false)
    (fun past machine deed allowed covered => ?_) deeds
    (fun deed member => ⟨before deed member, fixed deed member⟩) [] machine start
  simp only [failedPuts_snoc]
  exact perform_covers deed allowed.1 allowed.2 covered

end Shape

section Stacks

variable [DecidableEq K] {id : String} {hasLock : Bool} {layers : List Layer}
  {stack : Stack K V .value}

/-- A stack without a soft layer starts with the capacities of its layers and no key. -/
theorem covers_assemble {content : Content} {stack : Stack K V content}
    (assembled : Stack.assemble id hasLock layers content = .ok stack)
    (hard : ∀ window, Layer.soft window ∉ layers) :
    stack.shape.Covers (layers.filterMap Layer.capacity?) [] stack.state := by
  refine Stack.assemble_induction
    (fun {_} layers stack => stack.shape.table stack.state = Table.empty →
      (∀ window, Layer.soft window ∉ layers) →
      stack.shape.Covers (layers.filterMap Layer.capacity?) [] stack.state)
    (fun id hasLock _ _ _ => ?_) (fun inner stack capacity _ covered empty hard => ?_)
    (fun inner stack covered empty hard => ?_) (fun inner stack window _ _ _ hard => ?_)
    assembled (table_assemble assembled) hard
  · show Table.Distinct (Table.empty : Table K _)
    exact Table.distinct_empty
  · have below := covered empty fun window member => hard window (List.mem_cons_of_mem _ member)
    refine ⟨[], RecencyOrder.Represents.empty, fun key stored => ?_, Nat.zero_le _, rfl, below⟩
    have empty : stack.shape.table stack.state = Table.empty := empty
    have stored : key ∈ (stack.shape.table stack.state).keys := stored
    rw [empty] at stored
    cases stored
  · exact ⟨List.forall_mem_nil _,
      covered empty fun window member => hard window (List.mem_cons_of_mem _ member)⟩
  · exact absurd List.mem_cons_self (hard window)

/-- After every run, whatever calls of the layers below probes fail before they take effect: every
recency layer tracks every stored key, except that it need not track the keys whose last put has
failed, and the innermost one tracks those too. A put that succeeds next leaves no more keys than
the innermost capacity, and at most as many more than any other capacity as keys are stored whose
last put has failed; a count that succeeds then answers the number of keys. -/
theorem Stack.assemble_tracks
    (assembled : Stack.assemble id hasLock layers .value = .ok stack)
    (hard : ∀ window, Layer.soft window ∉ layers) (deeds : List (Deed K V))
    (before : ∀ deed ∈ deeds, deed.FailsBefore)
    (fixed : ∀ deed ∈ deeds, deed.setsCapacity = false) :
    let ended := stack.shape.run deeds stack.machine
    let capacities := layers.filterMap Layer.capacity?
    (∀ key ∈ (stack.shape.table ended.2.layer).keys,
      (∀ keys ∈ stack.shape.tracked ended.2.layer, key ∈ keys ∨ key ∈ failedPuts ended.1) ∧
        ∀ keys, (stack.shape.tracked ended.2.layer).getLast? = some keys → key ∈ keys) ∧
    ∀ key value outcome,
      let put := (stack.shape.perform (.call (.put key value))).run ended.2
      let stored := stack.shape.table put.2.layer
      put.1 = .ok outcome →
        (∀ capacity ∈ capacities, stored.size ≤
          capacity + ((failedPuts ended.1).filter (· ≠ key)).countP stored.contains) ∧
        (∀ capacity, capacities.getLast? = some capacity → stored.size ≤ capacity) ∧
        ∀ number, ((stack.shape.perform (.call .length)).run put.2).1 =
          .ok (.reply (.count number)) → number = stored.size := by
  intro ended capacities
  have covered : stack.shape.Covers capacities (failedPuts ended.1) ended.2.layer :=
    Shape.run_covers deeds before fixed (covers_assemble assembled hard)
  have excuses := stack.shape.excuses (K := K) (V := V) capacities
  refine ⟨fun key stored => covered.tracks stored, ?_⟩
  intro key value outcome put stored answered
  have ends : (stack.shape.perform (.call (.put key value))).Ends ended.2
      (fun _ later => stack.shape.Covers capacities ((failedPuts ended.1).filter (· ≠ key))
        later.layer ∧ stack.shape.Fits later.layer)
      fun _ _ => True := by
    simp only [Shape.perform, Cache.call, ends_map, ends_bind, ends_pure]
    exact (excuses.put _ _ _ key value covered).ends (fun _ _ next => ⟨next.1, next.2.1⟩)
      fun _ _ _ => trivial
  obtain ⟨next, fits⟩ := ends.of_answer answered
  obtain ⟨all, innermost⟩ := next.size_le fits
  have counts : stack.shape.cache.length.Ends put.2 (fun number _ => number = stored.size)
      fun _ _ => True :=
    (excuses.length _ _ _ next).ends (fun _ _ next => next.2.2) fun _ _ _ => trivial
  exact ⟨all, innermost, fun number counted => Shape.of_counted counts counted⟩

end Stacks

/-! ### A key that is not tracked -/

/-- Two recency layers over a store, the outer one with the smaller capacity. -/
def twofold : Stack Nat String .value :=
  ⟨.lru (.lru (.probe .store)),
    { capacity := 1
      delegate := { capacity := 2, delegate := { delegate := { id := "pages" } } } }⟩

/-- Two puts whose evictions fail, the one in the outer recency layer and then in the inner one. -/
def lateFailures : List (Deed Nat String) :=
  [.addFault 1 { method := .remove, times := 2, error := .backend "pages" "store is down" },
    .call (.put 1 ⟨0, "one"⟩), .call (.put 2 ⟨1, "two"⟩), .call (.put 3 ⟨2, "three"⟩)]

/-- The machine after these puts. -/
def divided : Machine Nat String (twofold.shape.State Nat String) :=
  (twofold.shape.run lateFailures twofold.machine).2

/-- Both failed puts are excused, one of their keys stays stored after the next put, and so the size
is the outer capacity and one. -/
theorem assemble_tracks_lateFailures :
    Stack.assemble "pages" false [.lru 1, .lru 2, .probe] .value = .ok twofold ∧
      (∀ deed ∈ lateFailures, deed.FailsBefore) ∧
      let ended := twofold.shape.run lateFailures twofold.machine
      let put := (twofold.shape.perform (.call (.put 4 ⟨3, "four"⟩))).run ended.2
      failedPuts ended.1 = [3, 2] ∧ put.1 = .ok (.reply .done) ∧
        (twofold.shape.table put.2.layer).size ≤
          1 + ([3, 2].filter (· ≠ 4)).countP (twofold.shape.table put.2.layer).contains := by
  have assembled : Stack.assemble "pages" false [.lru 1, .lru 2, .probe] .value =
      .ok twofold := rfl
  have hard : ∀ window, Layer.soft window ∉ [.lru 1, .lru 2, .probe] := by simp
  have before : ∀ deed ∈ lateFailures, deed.FailsBefore := by decide
  have excused : failedPuts (twofold.shape.run lateFailures twofold.machine).1 = [3, 2] := by
    decide +kernel
  have succeeded : ((twofold.shape.perform (.call (.put 4 ⟨3, "four"⟩))).run
      (twofold.shape.run lateFailures twofold.machine).2).1 = .ok (.reply .done) := by
    decide +kernel
  obtain ⟨-, puts⟩ := Stack.assemble_tracks assembled hard lateFailures before (by decide)
  obtain ⟨fits, -⟩ := puts 4 ⟨3, "four"⟩ _ succeeded
  rw [excused] at fits
  exact ⟨assembled, before, excused, succeeded, fits 1 List.mem_cons_self⟩

/-- After the failed puts the outer recency layer does not track a stored key. The next put succeeds
and leaves two keys, although the outer capacity is one. -/
theorem lateFailures_untracked :
    Stack.assemble "pages" false [.lru 1, .lru 2, .probe] .value = .ok twofold ∧
      (∀ deed ∈ lateFailures, deed.FailsBefore ∧ deed.setsCapacity = false) ∧
      3 ∈ (twofold.shape.table divided.layer).keys ∧ 3 ∉ divided.layer.order.toList ∧
      let put := (twofold.shape.perform (.call (.put 4 ⟨3, "four"⟩))).run divided
      put.1 = .ok (.reply .done) ∧
        ((twofold.shape.perform (.call .length)).run put.2).1 = .ok (.reply (.count 2)) := by
  refine ⟨rfl, by decide, ?stored, ?untracked, ?succeeded, ?counted⟩
  case stored => decide +kernel
  case untracked => decide +kernel
  case succeeded => decide +kernel
  case counted => decide +kernel

end LayeredCache
