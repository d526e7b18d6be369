/-
This file says how an action ends: with a value of which one statement holds, or with an error of
which another one holds, each together with the machine it leaves.

Both statements speak about the machine after the action, because what was done before an error
stays done. Each way of composing actions has a rule that turns a statement about the whole into
one about the parts, so that a layer's operation is taken apart down to the calls of its delegate.
-/

import LayeredCache.Cache

namespace LayeredCache.Action

variable {K V σ τ α β : Type}

/-- The action ends with a value and a machine for which `done` holds, or with an error and a
machine for which `failed` holds. -/
def Ends (action : Action K V σ α) (machine : Machine K V σ)
    (done : α → Machine K V σ → Prop) (failed : CacheError → Machine K V σ → Prop) : Prop :=
  match action.run machine with
  | (.ok value, later) => done value later
  | (.error error, later) => failed error later

section Rules

variable {machine : Machine K V σ} {done : α → Machine K V σ → Prop}
  {failed : CacheError → Machine K V σ → Prop}

/-- An action that ends well for one pair of statements does so for any that follow from them. -/
theorem Ends.imp {action : Action K V σ α} {done' : α → Machine K V σ → Prop}
    {failed' : CacheError → Machine K V σ → Prop} (ends : action.Ends machine done failed)
    (ok : ∀ value later, done value later → done' value later)
    (error : ∀ cause later, failed cause later → failed' cause later) :
    action.Ends machine done' failed' := by
  unfold Ends at ends ⊢
  split at ends
  case h_1 same => exact ok _ _ ends
  case h_2 same => exact error _ _ ends

/-- What holds of everything holds of what an action ends with. -/
theorem ends_of_forall {action : Action K V σ α} (ok : ∀ value later, done value later)
    (error : ∀ cause later, failed cause later) : action.Ends machine done failed := by
  unfold Ends
  split
  case h_1 => exact ok _ _
  case h_2 => exact error _ _

/-- What is known of an ending may be known from two sides. -/
theorem Ends.and {action : Action K V σ α} {done' : α → Machine K V σ → Prop}
    {failed' : CacheError → Machine K V σ → Prop} (ends : action.Ends machine done failed)
    (also : action.Ends machine done' failed') :
    action.Ends machine (fun value later => done value later ∧ done' value later)
      fun cause later => failed cause later ∧ failed' cause later := by
  unfold Ends at ends also ⊢
  split at ends
  case h_1 same =>
    rw [same] at also
    exact ⟨ends, also⟩
  case h_2 same =>
    rw [same] at also
    exact ⟨ends, also⟩

/-- Of an action that is seen to succeed, only what holds of its value matters. -/
theorem ends_of_ok {action : Action K V σ α} {value : α} {later : Machine K V σ}
    (run : action.run machine = (.ok value, later)) :
    action.Ends machine done failed ↔ done value later := by
  unfold Ends
  rw [run]

/-- Of an action that is seen to fail, only what holds of its error matters. -/
theorem ends_of_error {action : Action K V σ α} {cause : CacheError} {later : Machine K V σ}
    (run : action.run machine = (.error cause, later)) :
    action.Ends machine done failed ↔ failed cause later := by
  unfold Ends
  rw [run]

/-- An action that cannot fail has a value and a later machine. -/
theorem Ends.run_eq {action : Action K V σ α} (ends : action.Ends machine done fun _ _ => False) :
    ∃ value later, action.run machine = (.ok value, later) ∧ done value later := by
  unfold Ends at ends
  split at ends
  case h_1 value later same => exact ⟨value, later, same, ends⟩
  case h_2 => exact ends.elim

/-- An action that cannot succeed has an error and a later machine. -/
theorem Ends.run_eq_error {action : Action K V σ α}
    (ends : action.Ends machine (fun _ _ => False) failed) :
    ∃ cause later, action.run machine = (.error cause, later) ∧ failed cause later := by
  unfold Ends at ends
  split at ends
  case h_1 => exact ends.elim
  case h_2 cause later same => exact ⟨cause, later, same, ends⟩

/-- What holds of every ending holds of the one that is seen. -/
theorem Ends.of_run {action : Action K V σ α} (ends : action.Ends machine done failed) {value : α}
    {later : Machine K V σ} (run : action.run machine = (.ok value, later)) : done value later := by
  unfold Ends at ends
  rwa [run] at ends

theorem Ends.of_answer {action : Action K V σ α} (ends : action.Ends machine done failed)
    {value : α} (answered : (action.run machine).1 = .ok value) :
    done value (action.run machine).2 :=
  ends.of_run (Prod.ext answered rfl)

/-- What holds however the action ends holds of the machine that it leaves. -/
theorem Ends.later {action : Action K V σ α} {holds : Machine K V σ → Prop}
    (ends : action.Ends machine (fun _ => holds) fun _ => holds) :
    holds (action.run machine).2 := by
  unfold Ends at ends
  split at ends
  case h_1 same => rwa [same]
  case h_2 same => rwa [same]

/-- What is said of either way of ending holds of the result and the machine together. -/
theorem Ends.result {action : Action K V σ α}
    (holds : Except CacheError α → Machine K V σ → Prop)
    (ends : action.Ends machine (fun value => holds (.ok value))
      fun cause => holds (.error cause)) :
    holds (action.run machine).1 (action.run machine).2 := by
  unfold Ends at ends
  split at ends
  case h_1 same => rwa [same]
  case h_2 same => rwa [same]

@[simp] theorem ends_pure {value : α} :
    (pure value : Action K V σ α).Ends machine done failed ↔ done value machine := Iff.rfl

@[simp] theorem ends_throw {cause : CacheError} :
    (throw cause : Action K V σ α).Ends machine done failed ↔ failed cause machine := Iff.rfl

/-- A sequence ends as its second part does, unless the first part fails. -/
@[simp] theorem ends_bind {first : Action K V σ β} {next : β → Action K V σ α} :
    (first >>= next).Ends machine done failed ↔
      first.Ends machine (fun value later => (next value).Ends later done failed) failed := by
  unfold Ends
  rw [run_bind]
  rcases first.run machine with ⟨_ | _, _⟩ <;> rfl

@[simp] theorem ends_map {change : β → α} {action : Action K V σ β} :
    (change <$> action).Ends machine done failed ↔
      action.Ends machine (fun value => done (change value)) failed := by
  unfold Ends
  rw [run_map]
  rcases action.run machine with ⟨_ | _, _⟩ <;> rfl

/-- A handler takes over on the machine that the failure leaves. -/
@[simp] theorem ends_tryCatch {action : Action K V σ α}
    {handler : CacheError → Action K V σ α} :
    (tryCatch action handler).Ends machine done failed ↔
      action.Ends machine done fun cause later => (handler cause).Ends later done failed := by
  unfold Ends
  rw [run_tryCatch]
  rcases action.run machine with ⟨_ | _, _⟩ <;> rfl

end Rules

section Steps

variable {machine : Machine K V σ} {failed : CacheError → Machine K V σ → Prop}

@[simp] theorem ends_layer {done : σ → Machine K V σ → Prop} :
    (layer : Action K V σ σ).Ends machine done failed ↔ done machine.layer machine := Iff.rfl

@[simp] theorem ends_memory {done : Memory K V → Machine K V σ → Prop} :
    (memory : Action K V σ _).Ends machine done failed ↔ done machine.memory machine := Iff.rfl

@[simp] theorem ends_modifyLayer {change : σ → σ} {done : Unit → Machine K V σ → Prop} :
    (modifyLayer change : Action K V σ Unit).Ends machine done failed ↔
      done () { machine with layer := change machine.layer } := Iff.rfl

@[simp] theorem ends_updateLayer {change : σ → α × σ} {done : α → Machine K V σ → Prop} :
    (updateLayer change : Action K V σ α).Ends machine done failed ↔
      done (change machine.layer).1 { machine with layer := (change machine.layer).2 } := Iff.rfl

@[simp] theorem ends_note {entry : Note K} {done : Unit → Machine K V σ → Prop} :
    (note entry : Action K V σ Unit).Ends machine done failed ↔
      done () { machine with trace := entry :: machine.trace } := Iff.rfl

@[simp] theorem ends_report {event : Event} {done : Unit → Machine K V σ → Prop} :
    (report event : Action K V σ Unit).Ends machine done failed ↔
      done () { machine with trace := .event event :: machine.trace } := Iff.rfl

end Steps

/-- The machine that a part of the layer's state runs on. -/
def inside (part : τ → σ) (machine : Machine K V τ) : Machine K V σ :=
  ⟨part machine.layer, machine.memory, machine.trace⟩

/-- The machine around a part of the state, once the part has become another one. -/
def around (replace : τ → σ → τ) (machine : Machine K V τ) (inner : Machine K V σ) :
    Machine K V τ :=
  ⟨replace machine.layer inner.layer, inner.memory, inner.trace⟩

/-- An action on a part of the state ends as it does on the part alone. -/
@[simp] theorem ends_within {part : τ → σ} {replace : τ → σ → τ} {action : Action K V σ α}
    {machine : Machine K V τ} {done : α → Machine K V τ → Prop}
    {failed : CacheError → Machine K V τ → Prop} :
    (within part replace action).Ends machine done failed ↔
      action.Ends (inside part machine)
        (fun value inner => done value (around replace machine inner))
        fun cause inner => failed cause (around replace machine inner) := by
  have run : (within part replace action).run machine =
      ((action.run (inside part machine)).1,
        around replace machine (action.run (inside part machine)).2) := run_within ..
  unfold Ends
  rw [run]
  rcases action.run (inside part machine) with ⟨_ | _, _⟩ <;> rfl

/-! ### Endings whatever the trace -/

/-- From the state and the memory the action ends with a value, a state and a memory for which
`done` holds, or fails with a state and a memory for which `failed` holds, whatever the trace says
so far. -/
def Leaves (action : Action K V σ α) (layer : σ) (memory : Memory K V)
    (done : α → σ → Memory K V → Prop) (failed : σ → Memory K V → Prop) : Prop :=
  ∀ trace, action.Ends ⟨layer, memory, trace⟩
    (fun value later => done value later.layer later.memory)
    fun _ later => failed later.layer later.memory

section Leaves

variable {action : Action K V σ α} {layer : σ} {memory : Memory K V}
  {done : α → σ → Memory K V → Prop} {failed : σ → Memory K V → Prop}

/-- What an action leaves is what it ends with on any machine. -/
theorem Leaves.ends {machine : Machine K V σ}
    (leaves : action.Leaves machine.layer machine.memory done failed)
    {done' : α → Machine K V σ → Prop} {failed' : CacheError → Machine K V σ → Prop}
    (ok : ∀ value later, done value later.layer later.memory → done' value later)
    (error : ∀ cause later, failed later.layer later.memory → failed' cause later) :
    action.Ends machine done' failed' :=
  (leaves machine.trace).imp ok error

theorem Leaves.imp (leaves : action.Leaves layer memory done failed)
    {done' : α → σ → Memory K V → Prop} {failed' : σ → Memory K V → Prop}
    (ok : ∀ value later memory, done value later memory → done' value later memory)
    (error : ∀ later memory, failed later memory → failed' later memory) :
    action.Leaves layer memory done' failed' :=
  fun trace => (leaves trace).imp (fun _ _ => ok _ _ _) fun _ _ => error _ _

end Leaves

end LayeredCache.Action
