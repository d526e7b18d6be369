/-
This file says when an action cannot tell two machines apart.

Two machines are twins if they share the memory and the trace and their states are alike in a given
sense. An action is blind to what alike states differ in if it ends on twins with the same value or
the same error, and leaves twins. As with endings, there is a rule for each way of composing
actions, so that an operation is blind if its parts are.

A relation of this kind need not hold between a state and itself. Where it asks something of both
states, a state that is alike to itself has what is asked, and keeps it through every blind action.
-/

import LayeredCache.Proofs.Ending

namespace LayeredCache

variable {K V σ τ α β : Type}

/-- The machines share the memory and the trace, and their states are alike. -/
structure Twins (alike : σ → σ → Memory K V → Prop) (one other : Machine K V σ) : Prop where
  memory : one.memory = other.memory
  trace : one.trace = other.trace
  layer : alike one.layer other.layer one.memory

namespace Action

variable {alike : σ → σ → Memory K V → Prop}

/-- On twins the action ends in the same way and leaves twins. -/
def Blind (alike : σ → σ → Memory K V → Prop) (action : Action K V σ α) : Prop :=
  ∀ one other, Twins alike one other →
    (action.run one).1 = (action.run other).1 ∧
      Twins alike (action.run one).2 (action.run other).2

/-! ### Compositions -/

theorem blind_pure (value : α) : Blind alike (pure value : Action K V σ α) :=
  fun _ _ twins => ⟨rfl, twins⟩

theorem blind_throw (cause : CacheError) : Blind alike (throw cause : Action K V σ α) :=
  fun _ _ twins => ⟨rfl, twins⟩

/-- On twins a blind action has the same value, or the same error, and leaves twins. -/
theorem Blind.cases {action : Action K V σ α} (blind : Blind alike action)
    {one other : Machine K V σ} (twins : Twins alike one other) :
    (∃ value first second, action.run one = (.ok value, first) ∧
      action.run other = (.ok value, second) ∧ Twins alike first second) ∨
    ∃ cause first second, action.run one = (.error cause, first) ∧
      action.run other = (.error cause, second) ∧ Twins alike first second := by
  obtain ⟨same, later⟩ := blind one other twins
  rcases result : (action.run one).1 with cause | value
  · exact Or.inr ⟨cause, _, _, Prod.ext result rfl, Prod.ext (same ▸ result) rfl, later⟩
  · exact Or.inl ⟨value, _, _, Prod.ext result rfl, Prod.ext (same ▸ result) rfl, later⟩

/-- The second part runs on twins, and on the same value, if the first part does not fail. -/
theorem Blind.bind {first : Action K V σ β} {next : β → Action K V σ α}
    (blind : Blind alike first) (rest : ∀ value, Blind alike (next value)) :
    Blind alike (first >>= next) := by
  intro one other twins
  rw [run_bind, run_bind]
  rcases blind.cases twins with ⟨value, _, _, ran, too, later⟩ | ⟨cause, _, _, ran, too, later⟩
  · rw [ran, too]
    exact rest value _ _ later
  · rw [ran, too]
    exact ⟨rfl, later⟩

theorem Blind.map {action : Action K V σ β} (blind : Blind alike action) (change : β → α) :
    Blind alike (change <$> action) := by
  intro one other twins
  rw [run_map, run_map]
  rcases blind.cases twins with ⟨value, _, _, ran, too, later⟩ | ⟨cause, _, _, ran, too, later⟩
  · rw [ran, too]
    exact ⟨rfl, later⟩
  · rw [ran, too]
    exact ⟨rfl, later⟩

/-- The handler takes over on twins, and for the same error. -/
theorem Blind.tryCatch {action : Action K V σ α} {handler : CacheError → Action K V σ α}
    (blind : Blind alike action) (handled : ∀ cause, Blind alike (handler cause)) :
    Blind alike (tryCatch action handler) := by
  intro one other twins
  rw [run_tryCatch, run_tryCatch]
  rcases blind.cases twins with ⟨value, _, _, ran, too, later⟩ | ⟨cause, _, _, ran, too, later⟩
  · rw [ran, too]
    exact ⟨rfl, later⟩
  · rw [ran, too]
    exact handled cause _ _ later

/-! ### Steps -/

/-- An action may read from the state what alike states have in common. -/
theorem Blind.layer {next : σ → Action K V σ α}
    (same : ∀ one other memory, alike one other memory → next one = next other)
    (blind : ∀ layer, Blind alike (next layer)) : Blind alike (Action.layer >>= next) := by
  intro one other twins
  show ((next one.layer).run one).1 = ((next other.layer).run other).1 ∧
    Twins alike ((next one.layer).run one).2 ((next other.layer).run other).2
  rw [same _ _ _ twins.layer]
  exact blind other.layer one other twins

theorem Blind.memory {next : Memory K V → Action K V σ α}
    (blind : ∀ memory, Blind alike (next memory)) : Blind alike (Action.memory >>= next) := by
  intro one other twins
  show ((next one.memory).run one).1 = ((next other.memory).run other).1 ∧
    Twins alike ((next one.memory).run one).2 ((next other.memory).run other).2
  rw [twins.memory]
  exact blind other.memory one other twins

theorem blind_modifyLayer {change : σ → σ}
    (kept : ∀ one other memory, alike one other memory →
      alike (change one) (change other) memory) :
    Blind alike (modifyLayer change) :=
  fun _ _ twins => ⟨rfl, twins.memory, twins.trace, kept _ _ _ twins.layer⟩

theorem blind_updateLayer {change : σ → α × σ}
    (same : ∀ one other memory, alike one other memory → (change one).1 = (change other).1)
    (kept : ∀ one other memory, alike one other memory →
      alike (change one).2 (change other).2 memory) :
    Blind alike (updateLayer change) :=
  fun _ _ twins => ⟨congrArg Except.ok (same _ _ _ twins.layer), twins.memory, twins.trace,
    kept _ _ _ twins.layer⟩

theorem blind_note (entry : Note K) : Blind alike (note entry) :=
  fun _ _ twins => ⟨rfl, twins.memory, congrArg (entry :: ·) twins.trace, twins.layer⟩

theorem blind_report (event : Event) : Blind alike (report event) := blind_note (.event event)

/-- An action on a part of the state is blind if it is blind on the part alone, in some sense in
which the parts are alike and which makes the whole states alike again. -/
theorem Blind.within {part : τ → σ} {replace : τ → σ → τ} {action : Action K V σ α}
    {whole : τ → τ → Memory K V → Prop}
    (parts : ∀ one other memory, whole one other memory →
      ∃ alike, Blind alike action ∧ alike (part one) (part other) memory ∧
        ∀ first second later, alike first second later →
          whole (replace one first) (replace other second) later) :
    Blind whole (within part replace action) := by
  intro one other twins
  obtain ⟨alike, blind, start, back⟩ := parts _ _ _ twins.layer
  obtain ⟨same, later⟩ := blind (inside part one) (inside part other)
    ⟨twins.memory, twins.trace, start⟩
  exact ⟨same, later.memory, later.trace, back _ _ _ later.layer⟩

/-- What is blind to each of several likenesses is blind to their disjunction. -/
theorem Blind.exists {ι : Type} {likeness : ι → σ → σ → Memory K V → Prop}
    {action : Action K V σ α} (each : ∀ index, Blind (likeness index) action) :
    Blind (fun one other memory => ∃ index, likeness index one other memory) action := by
  rintro one other ⟨memory, trace, index, alike⟩
  obtain ⟨same, later⟩ := each index one other ⟨memory, trace, alike⟩
  exact ⟨same, later.memory, later.trace, index, later.layer⟩

end Action

end LayeredCache
