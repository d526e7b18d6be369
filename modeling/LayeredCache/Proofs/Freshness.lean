/-
This file proves that no stack returns a stale value: what a look-up or a removal returns was put
under its key, and nothing that a caller could rely on has ended it since.

The invariant ties the view of a state to what has occurred: every value in the view stands in the
past. A step of a run keeps it, because a layer shows at most what it showed before and what it was
given, and because whatever ends a value under a key also takes it out of the view.
-/

import LayeredCache.Proofs.Building
import LayeredCache.Proofs.Views

namespace LayeredCache

open LayeredCache.Action

variable {K V : Type}

/-! ### The past -/

/-- A call that ended with this outcome has put another value under the key or has left none. -/
def Call.Ended (key : K) (outcome : Outcome V) : Call K (Shared V) → Prop
  | .put other _ => other = key
  | .get other => other = key ∧ outcome = .reply (.item none)
  | .remove other => other = key
  | .clear => True
  | .length | .isEmpty => False

/-- A successful call has put another value under the key or has left none. -/
def Occurrence.Ended (key : K) (occurrence : Occurrence K V) : Prop :=
  ∃ call outcome, occurrence = ⟨.call call, .ok outcome⟩ ∧ call.Ended key outcome

/-- The value was put under the key, by a call that may have failed, and nothing has ended that
since. -/
def Stands (past : List (Occurrence K V)) (key : K) (value : Shared V) : Prop :=
  ∃ before result after, past = before ++ ⟨.call (.put key value), result⟩ :: after ∧
    ∀ occurrence ∈ after, ¬ occurrence.Ended key

theorem Stands.last (past : List (Occurrence K V)) (key : K) (value : Shared V)
    (result : Except CacheError (Outcome V)) :
    Stands (past ++ [⟨.call (.put key value), result⟩]) key value :=
  ⟨past, result, [], rfl, List.forall_mem_nil _⟩

theorem Stands.snoc {past : List (Occurrence K V)} {key : K} {value : Shared V}
    (stands : Stands past key value) {occurrence : Occurrence K V}
    (kept : ¬ occurrence.Ended key) : Stands (past ++ [occurrence]) key value := by
  obtain ⟨before, result, after, rfl, none⟩ := stands
  refine ⟨before, result, after ++ [occurrence], by simp, fun other member => ?_⟩
  rcases List.mem_append.mp member with member | member
  · exact none other member
  · rwa [List.mem_singleton.mp member]

/-- A failed call ends nothing, and neither does anything but a call. -/
theorem not_ended_error (deed : Deed K V) (cause : CacheError) (key : K) :
    ¬ Occurrence.Ended key ⟨deed, .error cause⟩ := by
  rintro ⟨call, outcome, same, -⟩
  cases same

theorem not_ended_silent {deed : Deed K V} (silent : ∀ call, deed ≠ .call call)
    (result : Except CacheError (Outcome V)) (key : K) : ¬ Occurrence.Ended key ⟨deed, result⟩ := by
  rintro ⟨call, outcome, same, -⟩
  cases same
  exact silent call rfl

theorem ended_call {call : Call K (Shared V)} {outcome : Outcome V} {key : K} :
    Occurrence.Ended key ⟨.call call, .ok outcome⟩ ↔ call.Ended key outcome := by
  constructor
  · rintro ⟨other, found, same, ended⟩
    cases same
    exact ended
  · exact fun ended => ⟨call, outcome, rfl, ended⟩

/-! ### The invariant -/

/-- Every value in the view stands in the past. -/
def Recorded (past : List (Occurrence K V)) (view : K → Option (Shared V)) : Prop :=
  ∀ key value, view key = some value → Stands past key value

section Invariant

variable {past : List (Occurrence K V)} {earlier later : K → Option (Shared V)}

/-- A view that shows nothing new is recorded after an occurrence that ends nothing in it. -/
theorem Recorded.less (recorded : Recorded past earlier) (less : Less later earlier)
    {occurrence : Occurrence K V}
    (kept : ∀ key value, later key = some value → ¬ occurrence.Ended key) :
    Recorded (past ++ [occurrence]) later :=
  fun key value shown => (recorded key value (less key value shown)).snoc (kept key value shown)

variable [DecidableEq K]

/-- A put, whether it fails or not, stands for its own value, and ends at most those under its
key. -/
theorem Recorded.placed (recorded : Recorded past earlier) {key : K} {value : Shared V}
    (less : Less later (placed earlier key value)) {result : Except CacheError (Outcome V)} :
    Recorded (past ++ [⟨.call (.put key value), result⟩]) later := by
  intro other found shown
  have before := less other found shown
  unfold LayeredCache.placed at before
  split at before
  case isTrue same =>
    cases before
    exact same ▸ Stands.last past key value result
  case isFalse different =>
    refine (recorded other found before).snoc ?_
    rintro ⟨call, outcome, same, ended⟩
    cases same
    exact different ended.symm

end Invariant

/-! ### Steps -/

/-- A stack that was just assembled stores nothing. -/
theorem table_assemble {id : String} {hasLock : Bool} {layers : List Layer} {content : Content}
    {stack : Stack K V content}
    (assembled : Stack.assemble id hasLock layers content = .ok stack) :
    stack.shape.table stack.state = Table.empty :=
  Stack.assemble_induction
    (fun {_} _ (stack : Stack K V _) => stack.shape.table stack.state = Table.empty)
    (fun _ _ _ => rfl) (fun _ _ _ _ empty => empty) (fun _ _ empty => empty)
    (fun _ _ _ _ empty => congrArg (Table.mapItems _) empty) assembled

variable [DecidableEq K] {shape : Shape .value}

theorem recorded_call (past : List (Occurrence K V)) (machine : Machine K V (shape.State K V))
    (call : Call K (Shared V)) (recorded : Recorded past (shape.view machine.layer)) :
    (shape.perform (.call call)).Ends machine
      (fun outcome later =>
        Recorded (past ++ [⟨.call call, .ok outcome⟩]) (shape.view later.layer))
      fun cause later =>
        Recorded (past ++ [⟨.call call, .error cause⟩]) (shape.view later.layer) := by
  have failed : ∀ (cause : CacheError) (later : Machine K V (shape.State K V)),
      Less (shape.view later.layer) (shape.view machine.layer) →
      Recorded (past ++ [⟨.call call, .error cause⟩]) (shape.view later.layer) :=
    fun cause later less => recorded.less less fun key _ _ => not_ended_error _ cause key
  have truthful := shape.truthful (K := K) (V := V)
  simp only [Shape.perform, ends_map]
  cases call with
  | put key value =>
    simp only [Cache.call, ends_bind, ends_pure]
    refine (truthful.put _ _ key value).ends (fun _ later less => recorded.placed less)
      fun cause later less => ?_
    exact less.elim (failed cause later) fun less => recorded.placed less
  | get key =>
    simp only [Cache.call, ends_bind, ends_pure]
    refine (truthful.get _ _ key).ends (fun found later next => ?_) failed
    refine recorded.less next.1 fun other value shown ended => ?_
    obtain ⟨rfl, same⟩ := ended_call.mp ended
    cases found with
    | none =>
      rw [next.2.2 rfl] at shown
      cases shown
    | some item => cases same
  | remove key =>
    simp only [Cache.call, ends_bind, ends_pure]
    refine (truthful.remove _ _ key).ends (fun found later next => ?_) failed
    refine recorded.less next.1 fun other value shown ended => ?_
    obtain rfl : key = other := ended_call.mp ended
    rw [next.2.2] at shown
    cases shown
  | clear =>
    simp only [Cache.call, ends_bind, ends_pure]
    refine (truthful.clear _ _).ends (fun _ later cleared key value shown => ?_) failed
    rw [cleared key] at shown
    cases shown
  | length =>
    simp only [Cache.call, ends_bind, ends_pure]
    exact (truthful.length _ _).ends
      (fun _ later less => recorded.less less fun _ _ _ ended => ended_call.mp ended) failed
  | isEmpty =>
    simp only [Cache.call, Cache.isEmpty, ends_bind, ends_pure]
    exact (truthful.length _ _).ends
      (fun _ later less => recorded.less less fun _ _ _ ended => ended_call.mp ended) failed

/-- Every deed keeps the values in the view recorded. -/
theorem recorded_perform (past : List (Occurrence K V)) (machine : Machine K V (shape.State K V))
    (deed : Deed K V) (recorded : Recorded past (shape.view machine.layer)) :
    (shape.perform deed).Ends machine
      (fun outcome later => Recorded (past ++ [⟨deed, .ok outcome⟩]) (shape.view later.layer))
      fun cause later => Recorded (past ++ [⟨deed, .error cause⟩]) (shape.view later.layer) := by
  by_cases silent : ∀ call, deed ≠ .call call
  · have kept : ∀ (result : Except CacheError (Outcome V)) (later : Machine K V (shape.State K V)),
        shape.view later.layer = shape.view machine.layer →
        Recorded (past ++ [⟨deed, result⟩]) (shape.view later.layer) := by
      intro result later same
      refine recorded.less (same ▸ Less.refl _) fun key _ _ => ?_
      exact not_ended_silent silent result key
    exact (Shape.unseen_perform shape silent _ _).ends (fun _ later same => kept _ later same)
      fun _ later same => kept _ later same
  · simp only [ne_eq, not_forall, not_not] at silent
    obtain ⟨call, rfl⟩ := silent
    exact recorded_call past machine call recorded

/-- After every run all values in the view stand in what has occurred. -/
theorem recorded_run (deeds : List (Deed K V)) {machine : Machine K V (shape.State K V)}
    (start : ∀ key, shape.view machine.layer key = none) :
    Recorded (shape.run deeds machine).1 (shape.view (shape.run deeds machine).2.layer) := by
  have recorded : Recorded [] (shape.view machine.layer) := fun key value shown => by
    rw [start key] at shown
    cases shown
  exact Shape.run_induction (fun past machine => Recorded past (shape.view machine.layer))
    (fun _ => True) (fun past machine deed _ => recorded_perform past machine deed) deeds
    (fun _ _ => trivial) [] machine recorded

/-! ### Stacks of any layers -/

/-- A value that is returned was in the view. -/
theorem view_of_returned {machine : Machine K V (shape.State K V)} {call : Call K (Shared V)}
    {key : K} {value : Shared V} (asked : call = .get key ∨ call = .remove key)
    (answered : ((shape.perform (.call call)).run machine).1 = .ok (.reply (.item (some value)))) :
    shape.view machine.layer key = some value := by
  have truthful := shape.truthful (K := K) (V := V)
  have ends : (shape.perform (.call call)).Ends machine
      (fun outcome _ => ∀ value, outcome = .reply (.item (some value)) →
        shape.view machine.layer key = some value)
      fun _ _ => True := by
    simp only [Shape.perform, ends_map]
    rcases asked with rfl | rfl
    · simp only [Cache.call, ends_bind, ends_pure]
      refine (truthful.get _ _ key).ends (fun found _ next value same => ?_) fun _ _ _ => trivial
      cases same
      exact next.2.1 value rfl
    · simp only [Cache.call, ends_bind, ends_pure]
      refine (truthful.remove _ _ key).ends (fun found _ next value same => ?_) fun _ _ _ => trivial
      cases same
      exact next.2.1 value rfl
  exact ends.of_answer answered value rfl

/-- Whatever is done with a stack of any layers, and whatever fails in it: a value that a look-up or
a removal returns is the very pointer of an earlier put under the key, and since that put no other
put under the key has succeeded, no removal of the key and no clear has succeeded, and no look-up
of the key has found nothing. -/
theorem Stack.returned_stands {id : String} {hasLock : Bool} {layers : List Layer}
    {stack : Stack K V .value} (assembled : Stack.assemble id hasLock layers .value = .ok stack)
    (deeds : List (Deed K V)) {call : Call K (Shared V)} {key : K} {value : Shared V}
    (asked : call = .get key ∨ call = .remove key)
    (answered : ((stack.shape.perform (.call call)).run
      (stack.shape.run deeds stack.machine).2).1 = .ok (.reply (.item (some value)))) :
    Stands (stack.shape.run deeds stack.machine).1 key value := by
  have start : ∀ key, stack.shape.view stack.machine.layer key = none := fun key => by
    rw [Shape.view, Stack.machine, table_assemble assembled, Table.find?_empty]
  exact recorded_run deeds start key value (view_of_returned asked answered)

/-- A stack with probes above and below its soft layer. -/
def flaky : Stack Nat String .value :=
  ⟨.lru (.probe (.soft (.probe .store))),
    { capacity := 1
      delegate := { delegate := { window := 1, delegate := { delegate := { id := "pages" } } } } }⟩

/-- A put that is done and then reported as failed. -/
def lostPut : List (Deed Nat String) :=
  [.addFault 3 { method := .put, after := true, error := .backend "pages" "lost" },
    .call (.put 1 ⟨0, "one"⟩)]

/-- The value of a put that was reported as failed is returned, and stands. -/
theorem returned_stands_flaky :
    Stack.assemble "pages" false [.lru 1, .probe, .soft 1, .probe] .value = .ok flaky ∧
      ((flaky.shape.perform (.call (.get 1))).run (flaky.shape.run lostPut flaky.machine).2).1 =
        .ok (.reply (.item (some ⟨0, "one"⟩))) ∧
      Stands (flaky.shape.run lostPut flaky.machine).1 1 ⟨0, "one"⟩ := by
  have assembled : Stack.assemble "pages" false [.lru 1, .probe, .soft 1, .probe] .value =
      .ok flaky := rfl
  exact ⟨assembled, rfl, Stack.returned_stands assembled lostPut (Or.inl rfl) rfl⟩

end LayeredCache
