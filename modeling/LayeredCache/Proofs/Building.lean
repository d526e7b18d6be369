/-
This file says which blueprints are accepted and how their stacks come about.

A blueprint is accepted if it has a name, if no setting is zero, and if at most one of its layers is
soft. `build_of_accepted` is the induction over the construction: what holds of an empty store and
is handed on from a stack to the stack with one more layer holds of every stack that is built.
-/

import LayeredCache.Stack.Blueprint

namespace LayeredCache

/-! ### Accepted blueprints -/

/-- The capacity or the window of a layer. -/
def Policy.setting : Policy → Nat
  | .lru capacity => capacity
  | .soft window => window

/-- What a blueprint has to fulfil. -/
structure Blueprint.Accepted (blueprint : Blueprint) : Prop where
  named : blueprint.id ≠ ""
  positive : ∀ policy ∈ blueprint.layers, 0 < policy.setting
  single : blueprint.layers.countP Policy.isSoft ≤ 1

theorem bind_eq_ok {ε α β : Type} {first : Except ε α} {next : α → Except ε β} {value : β} :
    (first >>= next) = .ok value ↔ ∃ middle, first = .ok middle ∧ next middle = .ok value := by
  cases first with
  | error cause => simp [bind, Except.bind]
  | ok middle => simp [bind, Except.bind]

theorem ok_bind {ε α β : Type} (value : α) (next : α → Except ε β) :
    (Except.ok value >>= next) = next value := rfl

/-- What follows a check succeeds if the check passes and the rest succeeds. -/
theorem check_bind_eq_ok {ε α : Type} {check : Except ε Unit} {next : Unit → Except ε α}
    {value : α} :
    (check >>= next) = .ok value ↔ check = .ok () ∧ next () = .ok value := by
  cases check with
  | error cause => simp [bind, Except.bind]
  | ok => simp [bind, Except.bind]

theorem checkId_eq_ok {id : String} : checkId id = .ok () ↔ id ≠ "" := by
  unfold checkId
  split <;> simp [*]

theorem checkCapacity_eq_ok {capacity : Nat} : checkCapacity capacity = .ok () ↔ 0 < capacity := by
  unfold checkCapacity
  split <;> simp <;> omega

theorem checkWindow_eq_ok {window : Nat} : checkWindow window = .ok () ↔ 0 < window := by
  unfold checkWindow
  split <;> simp <;> omega

namespace Blueprint

theorem countP_lru (capacity : Nat) (rest : List Policy) :
    (Policy.lru capacity :: rest).countP Policy.isSoft = rest.countP Policy.isSoft :=
  List.countP_cons_of_neg (by simp [Policy.isSoft])

theorem countP_soft (window : Nat) (rest : List Policy) :
    (Policy.soft window :: rest).countP Policy.isSoft = rest.countP Policy.isSoft + 1 :=
  List.countP_cons_of_pos rfl

theorem findIdx?_lru (capacity : Nat) (rest : List Policy) :
    (Policy.lru capacity :: rest).findIdx? Policy.isSoft =
      (rest.findIdx? Policy.isSoft).map (· + 1) :=
  List.findIdx?_cons

theorem findIdx?_soft (window : Nat) (rest : List Policy) :
    (Policy.soft window :: rest).findIdx? Policy.isSoft = some 0 :=
  List.findIdx?_cons

theorem findIdx?_of_countP {layers : List Policy} (none : layers.countP Policy.isSoft = 0) :
    layers.findIdx? Policy.isSoft = .none :=
  List.findIdx?_eq_none_iff.mpr fun policy member =>
    Bool.eq_false_iff.mpr (List.countP_eq_zero.mp none policy member)

theorem countP_of_findIdx? {layers : List Policy} (none : layers.findIdx? Policy.isSoft = .none) :
    layers.countP Policy.isSoft = 0 :=
  List.countP_eq_zero.mpr fun policy member =>
    Bool.eq_false_iff.mp (List.findIdx?_eq_none_iff.mp none policy member)

/-- A single soft layer stands where it is found, and there is none on either side of it. -/
theorem exists_soft {layers : List Policy} (single : layers.countP Policy.isSoft ≤ 1) {index : Nat}
    (found : layers.findIdx? Policy.isSoft = some index) :
    ∃ window above, layers.drop index = .soft window :: above ∧
      (layers.take index).countP Policy.isSoft = 0 ∧ above.countP Policy.isSoft = 0 := by
  induction layers generalizing index with
  | nil => cases found
  | cons policy rest inductionHypothesis =>
    cases policy with
    | lru capacity =>
      rw [findIdx?_lru] at found
      obtain ⟨place, later, rfl⟩ := Option.map_eq_some_iff.mp found
      rw [countP_lru] at single
      obtain ⟨window, above, dropped, below, others⟩ := inductionHypothesis single later
      exact ⟨window, above, dropped, (countP_lru capacity _).trans below, others⟩
    | soft window =>
      rw [findIdx?_soft] at found
      cases found
      rw [countP_soft] at single
      exact ⟨window, rest, rfl, rfl, Nat.le_zero.mp (Nat.le_of_succ_le_succ single)⟩

/-- The check of layers passes if no setting is zero and at most one layer is soft, and finds the
soft one. -/
theorem checkLayers_eq_ok {index : Nat} {softAt found : Option Nat} {layers : List Policy} :
    checkLayers index softAt layers = .ok found ↔
      (∀ policy ∈ layers, 0 < policy.setting) ∧
        softAt.isSome.toNat + layers.countP Policy.isSoft ≤ 1 ∧
        found = (layers.findIdx? Policy.isSoft).elim softAt fun place => some (index + place) := by
  induction layers generalizing index softAt with
  | nil => cases softAt <;> simp [checkLayers, pure, Except.pure, eq_comm]
  | cons policy rest inductionHypothesis =>
    rw [List.forall_mem_cons]
    cases policy with
    | lru capacity =>
      rw [countP_lru, findIdx?_lru, and_assoc, checkLayers, check_bind_eq_ok, checkCapacity_eq_ok,
        inductionHypothesis, Option.elim_map]
      simp only [Nat.add_assoc, Nat.add_comm 1]
      rfl
    | soft window =>
      rw [countP_soft, findIdx?_soft, and_assoc, checkLayers, check_bind_eq_ok, checkWindow_eq_ok]
      refine and_congr Iff.rfl ?_
      cases softAt with
      | none =>
        show checkLayers (index + 1) (some index) rest = .ok found ↔ _
        rw [inductionHypothesis]
        refine and_congr Iff.rfl ?_
        rw [Option.isSome_some, Option.isSome_none, Bool.toNat_true, Bool.toNat_false,
          Nat.add_comm 1, Nat.zero_add]
        refine and_congr_right fun single => ?_
        rw [findIdx?_of_countP (Nat.le_zero.mp (Nat.le_of_succ_le_succ single))]
        rfl
      | some place =>
        rw [Option.isSome_some, if_pos rfl]
        refine iff_of_false nofun ?_
        rintro ⟨-, single, -⟩
        rw [Bool.toNat_true] at single
        omega

/-- The check passes exactly the accepted blueprints. -/
theorem check_eq_ok {blueprint : Blueprint} {found : Option Nat} :
    blueprint.check = .ok found ↔
      blueprint.Accepted ∧ found = blueprint.layers.findIdx? Policy.isSoft := by
  have place : (blueprint.layers.findIdx? Policy.isSoft).elim none (fun place => some (0 + place)) =
      blueprint.layers.findIdx? Policy.isSoft := by
    cases blueprint.layers.findIdx? Policy.isSoft with
    | none => rfl
    | some place => rw [Option.elim_some, Nat.zero_add]
  rw [check, check_bind_eq_ok, checkId_eq_ok, checkLayers_eq_ok, Option.isSome_none,
    Bool.toNat_false, Nat.zero_add, place]
  exact ⟨fun ⟨named, positive, single, same⟩ => ⟨⟨named, positive, single⟩, same⟩,
    fun ⟨accepted, same⟩ => ⟨accepted.named, accepted.positive, accepted.single, same⟩⟩

end Blueprint

/-! ### The construction -/

section Construction

variable {K V : Type} {content : Content}

theorem Stack.ofStore_eq {id : String} (named : id ≠ "") (hasLock : Bool) :
    Stack.ofStore id hasLock = (.ok ⟨.store, { id, hasLock }⟩ : Except _ (Stack K V content)) := by
  simp only [Stack.ofStore, Store.create, checkId_eq_ok.mpr named]
  rfl

theorem Stack.withLru_eq (stack : Stack K V content) {capacity : Nat} (positive : 0 < capacity) :
    stack.withLru capacity = .ok ⟨.lru stack.shape, { capacity, delegate := stack.state }⟩ := by
  simp only [Stack.withLru, LruLayer.create, checkCapacity_eq_ok.mpr positive]
  rfl

theorem Stack.withSoft_eq (stack : Stack K V .reference) {window : Nat} (positive : 0 < window) :
    stack.withSoft window = .ok ⟨.soft stack.shape, { window, delegate := stack.state }⟩ := by
  simp only [Stack.withSoft, SoftLayer.create, checkWindow_eq_ok.mpr positive]
  rfl

theorem Stack.eq_of_ofStore {id : String} {hasLock : Bool} {stack : Stack K V content}
    (made : Stack.ofStore id hasLock = .ok stack) :
    id ≠ "" ∧ stack = ⟨.store, { id, hasLock }⟩ := by
  by_cases named : id = ""
  · subst named
    cases made
  · rw [Stack.ofStore_eq named] at made
    exact ⟨named, (Except.ok.inj made).symm⟩

theorem Stack.eq_of_withLru {stack later : Stack K V content} {capacity : Nat}
    (made : stack.withLru capacity = .ok later) :
    0 < capacity ∧ later = ⟨.lru stack.shape, { capacity, delegate := stack.state }⟩ := by
  by_cases positive : 0 < capacity
  · rw [Stack.withLru_eq stack positive] at made
    exact ⟨positive, (Except.ok.inj made).symm⟩
  · obtain rfl : capacity = 0 := Nat.eq_zero_of_not_pos positive
    cases made

theorem Stack.eq_of_withSoft {stack : Stack K V .reference} {later : Stack K V .value}
    {window : Nat} (made : stack.withSoft window = .ok later) :
    0 < window ∧ later = ⟨.soft stack.shape, { window, delegate := stack.state }⟩ := by
  by_cases positive : 0 < window
  · rw [Stack.withSoft_eq stack positive] at made
    exact ⟨positive, (Except.ok.inj made).symm⟩
  · obtain rfl : window = 0 := Nat.eq_zero_of_not_pos positive
    cases made

/-- What holds of an empty store and is handed on to the stack with one more layer holds of every
stack that is assembled. -/
theorem Stack.assemble_induction
    (holds : {content : Content} → List Layer → Stack K V content → Prop)
    (store : ∀ {content : Content} (id : String) (hasLock : Bool), id ≠ "" →
      holds [] (⟨.store, { id, hasLock }⟩ : Stack K V content))
    (lru : ∀ {content : Content} (inner : List Layer) (stack : Stack K V content) (capacity : Nat),
      0 < capacity → holds inner stack → holds (.lru capacity :: inner)
        (⟨.lru stack.shape, { capacity, delegate := stack.state }⟩ : Stack K V content))
    (probe : ∀ {content : Content} (inner : List Layer) (stack : Stack K V content),
      holds inner stack → holds (.probe :: inner) stack.withProbe)
    (soft : ∀ (inner : List Layer) (stack : Stack K V .reference) (window : Nat),
      0 < window → holds inner stack → holds (.soft window :: inner)
        (⟨.soft stack.shape, { window, delegate := stack.state }⟩ : Stack K V .value))
    {id : String} {hasLock : Bool} {layers : List Layer} {stack : Stack K V content}
    (assembled : Stack.assemble id hasLock layers content = .ok stack) : holds layers stack := by
  induction layers generalizing content with
  | nil =>
    obtain ⟨named, rfl⟩ := Stack.eq_of_ofStore assembled
    exact store id hasLock named
  | cons layer inner inductionHypothesis =>
    cases layer with
    | lru capacity =>
      obtain ⟨below, same, made⟩ := bind_eq_ok.mp assembled
      obtain ⟨positive, rfl⟩ := Stack.eq_of_withLru made
      exact lru inner below capacity positive (inductionHypothesis same)
    | probe =>
      obtain ⟨below, same, made⟩ := bind_eq_ok.mp assembled
      rw [← Except.ok.inj made]
      exact probe inner below (inductionHypothesis same)
    | soft window =>
      cases content with
      | value =>
        obtain ⟨below, same, made⟩ := bind_eq_ok.mp assembled
        obtain ⟨positive, rfl⟩ := Stack.eq_of_withSoft made
        exact soft inner below window positive (inductionHypothesis same)
      | reference => cases assembled

namespace Blueprint

/-- A statement about stacks and the layers they are made of that holds of an empty store and is
handed on to the stack with one more layer. -/
structure Handed (holds : {content : Content} → List Policy → Stack K V content → Prop) :
    Prop where
  store : ∀ {content : Content} (id : String) (hasLock : Bool),
    holds [] (⟨.store, { id, hasLock }⟩ : Stack K V content)
  lru : ∀ {content : Content} (layers : List Policy) (stack : Stack K V content) (capacity : Nat),
    0 < capacity → holds layers stack →
    holds (layers ++ [.lru capacity])
      (⟨.lru stack.shape, { capacity, delegate := stack.state }⟩ : Stack K V content)
  soft : ∀ (layers : List Policy) (stack : Stack K V .reference) (window : Nat),
    0 < window → holds layers stack →
    holds (layers ++ [.soft window])
      (⟨.soft stack.shape, { window, delegate := stack.state }⟩ : Stack K V .value)

variable {holds : {content : Content} → List Policy → Stack K V content → Prop}

/-- Wrapping a stack goes on with assembling it, if there are only recency layers. -/
theorem wrap_assemble (id : String) (hasLock : Bool) (content : Content) {rest : List Policy}
    (plain : rest.countP Policy.isSoft = 0) (inner : List Layer) :
    (Stack.assemble id hasLock inner content >>= fun stack : Stack K V content => wrap stack rest) =
      Stack.assemble id hasLock (rest.reverse.map Policy.layer ++ inner) content := by
  induction rest generalizing inner with
  | nil => exact bind_pure _
  | cons policy rest inductionHypothesis =>
    cases policy with
    | lru capacity =>
      rw [List.reverse_cons, List.map_append, List.append_assoc]
      refine Eq.trans ?_ (inductionHypothesis (countP_lru capacity rest ▸ plain) _)
      show _ = (Stack.assemble id hasLock (.lru capacity :: inner) content >>= _)
      rw [Stack.assemble, bind_assoc]
      rfl
    | soft window =>
      rw [countP_soft] at plain
      cases plain

/-- The construction gives what assembling the layers gives, once the check has passed. -/
theorem build_eq (blueprint : Blueprint) :
    blueprint.build = (do
      let _ ← blueprint.check
      Stack.assemble blueprint.id blueprint.hasLock (blueprint.layers.reverse.map Policy.layer)
        .value : Except ConfigError (Stack K V .value)) := by
  unfold build
  cases checked : blueprint.check with
  | error cause => rfl
  | ok found =>
    obtain ⟨accepted, same⟩ := check_eq_ok.mp checked
    -- The two passes agree because the check finds the very soft layer that parts the others.
    cases found with
    | none =>
      have whole := wrap_assemble (K := K) (V := V) blueprint.id blueprint.hasLock .value
        (countP_of_findIdx? same.symm) []
      rwa [List.append_nil] at whole
    | some index =>
      obtain ⟨window, above, dropped, below, others⟩ := exists_soft accepted.single same.symm
      have reversed : blueprint.layers.reverse.map Policy.layer =
          above.reverse.map Policy.layer ++
            (.soft window :: ((blueprint.layers.take index).reverse.map Policy.layer ++ [])) := by
        conv => lhs; rw [← List.take_append_drop index blueprint.layers, dropped]
        simp [Policy.layer]
      rw [ok_bind, ok_bind, reversed, ← wrap_assemble _ _ _ others, Stack.assemble,
        ← wrap_assemble _ _ _ below, bind_assoc, bind_assoc]
      simp only [List.splitAt_eq, dropped]
      rfl

/-- Layers without a zero setting can be assembled, the outermost one first, and what is handed on
holds of the stack, if at most one of them is soft and none is where references are wanted. -/
theorem assemble_of_handed (handed : Handed holds) {id : String} (named : id ≠ "") (hasLock : Bool)
    (content : Content) {layers : List Policy} (positive : ∀ policy ∈ layers, 0 < policy.setting)
    (single : layers.countP Policy.isSoft ≤ if content = .value then 1 else 0) :
    ∃ stack : Stack K V content,
      Stack.assemble id hasLock (layers.map Policy.layer) content = .ok stack ∧
        holds layers.reverse stack := by
  induction layers generalizing content with
  | nil => exact ⟨_, Stack.ofStore_eq named hasLock, handed.store id hasLock⟩
  | cons policy inner inductionHypothesis =>
    obtain ⟨last, others⟩ := List.forall_mem_cons.mp positive
    rw [List.reverse_cons]
    cases policy with
    | lru capacity =>
      rw [countP_lru] at single
      obtain ⟨stack, same, result⟩ := inductionHypothesis content others single
      refine ⟨_, ?_, handed.lru inner.reverse stack capacity last result⟩
      exact bind_eq_ok.mpr ⟨stack, same, Stack.withLru_eq stack last⟩
    | soft window =>
      rw [countP_soft] at single
      cases content with
      | reference => cases single
      | value =>
        obtain ⟨stack, same, result⟩ := inductionHypothesis .reference others
          (Nat.le_of_succ_le_succ single)
        refine ⟨_, ?_, handed.soft inner.reverse stack window last result⟩
        exact bind_eq_ok.mpr ⟨stack, same, Stack.withSoft_eq stack last⟩

/-- An accepted blueprint is built, and what is handed on holds of the stack. -/
theorem build_of_accepted (handed : Handed holds) {blueprint : Blueprint}
    (accepted : blueprint.Accepted) :
    ∃ stack, blueprint.build = .ok stack ∧ holds blueprint.layers stack := by
  have positive : ∀ policy ∈ blueprint.layers.reverse, 0 < policy.setting :=
    fun policy member => accepted.positive policy (List.mem_reverse.mp member)
  have single : blueprint.layers.reverse.countP Policy.isSoft ≤ 1 := by
    rw [List.countP_reverse]
    exact accepted.single
  obtain ⟨stack, assembled, result⟩ := assemble_of_handed handed accepted.named blueprint.hasLock
    .value positive single
  rw [List.reverse_reverse] at result
  refine ⟨stack, ?_, result⟩
  rw [build_eq, check_eq_ok.mpr ⟨accepted, rfl⟩]
  exact assembled

/-- Only accepted blueprints are built. -/
theorem accepted_of_build {blueprint : Blueprint} {stack : Stack K V .value}
    (built : blueprint.build = .ok stack) : blueprint.Accepted := by
  rw [build_eq] at built
  obtain ⟨found, checked, -⟩ := bind_eq_ok.mp built
  exact (check_eq_ok.mp checked).1

end Blueprint

end Construction

end LayeredCache
