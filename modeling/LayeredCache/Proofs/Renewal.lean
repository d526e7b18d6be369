/-
This file proves that a successful clear makes a stack as good as new.

Earlier failures may have left anything behind: keys that are tracked but not stored, victims that
are overdue, notifications nobody has worked through, registered references that nothing holds any
longer. A clear that succeeds has emptied the store, the recency orders and the rings, owes nothing
and has worked through all notifications. What it leaves in registries nobody holds, so the state
is alike to that of a new stack with the same settings, and the two cannot be told apart.
-/

import LayeredCache.Proofs.Indiscernible
import LayeredCache.Proofs.Views

namespace LayeredCache

open LayeredCache.Action

variable {K V σ : Type}

/-! ### Drains -/

namespace SoftLayer

variable {delegate : Cache K V σ (SoftReference K V)}

/-- Working through notifications uses up all of them, unless the delegate fails, and leaves the
ring as it is. -/
theorem ends_removeReclaimed {machine : Machine K V (SoftLayer K V σ)} {keys : List K}
    (pending : machine.layer.queue.pending = keys) (removed : Nat) :
    (removeReclaimed delegate keys removed).Ends machine
      (fun _ later => later.layer.queue.pending = [] ∧ later.layer.ring = machine.layer.ring)
      fun _ _ => True := by
  induction keys generalizing machine removed with
  | nil => exact ⟨pending, rfl⟩
  | cons key rest inductionHypothesis =>
    simp only [removeReclaimed, below, ends_bind, ends_modifyLayer, ends_within]
    refine ends_of_forall (fun found later => ?_) fun _ _ => trivial
    cases found with
    | none => exact inductionHypothesis rfl removed
    | some reference =>
      simp only [ends_bind, ends_memory]
      split
      · exact inductionHypothesis rfl removed
      · rw [ends_bind, ends_within]
        exact ends_of_forall (fun _ later => inductionHypothesis rfl (removed + 1))
          fun _ _ => trivial

theorem ends_drain {machine : Machine K V (SoftLayer K V σ)} :
    (drain delegate).Ends machine
      (fun _ later => later.layer.queue.pending = [] ∧ later.layer.ring = machine.layer.ring)
      fun _ _ => True := by
  simp only [drain, name, count, ends_bind, ends_layer]
  refine (ends_removeReclaimed rfl 0).imp (fun removed later drained => ?_) fun _ _ _ => trivial
  split
  · simp only [ends_bind, ends_layer, ends_pure, ends_report, ends_modifyLayer]
    exact drained
  · exact drained

end SoftLayer

/-! ### Cleared stacks -/

namespace Shape

variable {content : Content} {shape : Shape content}

/-- The layers with their settings, the outermost one first. -/
def layers : {content : Content} → (shape : Shape content) → shape.State K V → List Layer
  | _, .store, _ => []
  | _, .lru delegate, layer => .lru layer.capacity :: delegate.layers layer.delegate
  | _, .probe delegate, layer => .probe :: delegate.layers layer.delegate
  | _, .soft delegate, layer => .soft layer.window :: delegate.layers layer.delegate

/-- The state with the faults that the probes have in another one. -/
def withFaults : {content : Content} → (shape : Shape content) → shape.State K V →
    shape.State K V → shape.State K V
  | _, .store, _, bottom => bottom
  | _, .lru delegate, source, layer =>
    { layer with delegate := delegate.withFaults source.delegate layer.delegate }
  | _, .probe delegate, source, layer =>
    { layer with
      faults := source.faults
      delegate := delegate.withFaults source.delegate layer.delegate }
  | _, .soft delegate, source, layer =>
    { layer with delegate := delegate.withFaults source.delegate layer.delegate }

/-- Nothing is stored, tracked, owed, pinned or notified. -/
def Cleared : {content : Content} → (shape : Shape content) → shape.State K V → Prop
  | _, .store, bottom => bottom.table = {}
  | _, .lru delegate, layer =>
    layer.order = {} ∧ layer.overdue = 0 ∧ delegate.Cleared layer.delegate
  | _, .probe delegate, layer => delegate.Cleared layer.delegate
  | _, .soft delegate, layer =>
    layer.ring = [] ∧ layer.queue.pending = [] ∧ delegate.Cleared layer.delegate

variable [DecidableEq K] {layer : shape.State K V} {memory : Memory K V}

/-- A clear that succeeds has cleared every layer. -/
theorem cleared_of_clear (shape : Shape content) (layer : shape.State K V) (memory : Memory K V) :
    shape.cache.clear.Leaves layer memory (fun _ later _ => shape.Cleared later)
      fun _ _ => True := by
  induction shape generalizing memory with
  | store => exact fun _ => rfl
  | lru delegate inductionHypothesis =>
    intro trace
    show (LruLayer.clear delegate.cache).Ends _ _ _
    simp only [LruLayer.clear, LruLayer.below, LruLayer.count, ends_bind, ends_within,
      ends_modifyLayer]
    exact (inductionHypothesis layer.delegate memory).ends
      (fun _ _ cleared => ⟨rfl, rfl, cleared⟩) fun _ _ _ => trivial
  | probe delegate inductionHypothesis =>
    exact ProbeLayer.intercept_leaves trivial (inductionHypothesis layer.delegate memory)
      fun _ _ _ _ => trivial
  | soft delegate inductionHypothesis =>
    intro trace
    show (SoftLayer.clear delegate.cache).Ends _ _ _
    simp only [SoftLayer.clear, SoftLayer.below, ends_bind, ends_modifyLayer, ends_within]
    refine SoftLayer.ends_drain.imp (fun _ drained next => ?_) fun _ _ _ => trivial
    exact (inductionHypothesis drained.layer.delegate drained.memory).ends
      (fun _ _ cleared => ⟨next.2, next.1, cleared⟩) fun _ _ _ => trivial

/-- A cleared stack keeps nothing alive. -/
theorem Cleared.handles (cleared : shape.Cleared layer) : shape.cache.handles layer = {} := by
  induction shape with
  | @store content =>
    have empty : layer.table = {} := cleared
    show content.handles layer.table.items = {}
    rw [empty]
    cases content with
    | value => rfl
    | reference => rfl
  | lru delegate inductionHypothesis => exact inductionHypothesis cleared.2.2
  | probe delegate inductionHypothesis => exact inductionHypothesis cleared
  | soft delegate inductionHypothesis =>
    show delegate.cache.handles layer.delegate ++ ⟨[], layer.ring⟩ = {}
    rw [inductionHypothesis cleared.2.2, cleared.1]
    rfl

/-! ### New stacks -/

variable {allowed : content.Item K V → Prop} {proper : Memory K V → Prop}

/-- A cleared stack shows nothing. -/
theorem Cleared.sights (cleared : shape.Cleared layer)
    (alike : shape.Alike allowed proper layer layer memory) :
    ∀ sight ∈ shape.sights layer memory, sight = .lru [] 0 ∨ sight = .soft [] 0 := by
  induction shape generalizing proper with
  | store => exact List.forall_mem_nil _
  | lru delegate inductionHypothesis =>
    obtain ⟨order, -, below⟩ := cleared
    refine List.forall_mem_cons.mpr ⟨Or.inl ?_, inductionHypothesis below alike.delegate⟩
    rw [order]
    rfl
  | probe delegate inductionHypothesis => exact inductionHypothesis cleared alike.delegate
  | soft delegate inductionHypothesis =>
    obtain ⟨ring, -, below⟩ := cleared
    obtain ⟨held, alike⟩ := alike
    refine List.forall_mem_cons.mpr ⟨Or.inr ?_, inductionHypothesis below alike.delegate⟩
    have none : SoftLayer.registered delegate.cache { layer, memory } = 0 := by
      refine ReferenceQueue.registered_of_unheld layer.queue
        ((SoftLayer.references_alive_of_unheld alike.unheld).trans ?_)
      exact congrArg Handles.references below.handles
    rw [ring, none]

/-- A new stack with the settings of a cleared one can be assembled, and with its faults it is in a
state that is alike to the cleared one. -/
theorem exists_renewed (alike : shape.Alike allowed proper layer layer memory)
    (cleared : shape.Cleared layer) :
    ∃ fresh, Stack.assemble (shape.cache.id layer) (shape.cache.hasLock layer)
        (shape.layers layer) content = .ok ⟨shape, fresh⟩ ∧
      shape.Alike allowed proper layer (shape.withFaults layer fresh) memory := by
  induction shape generalizing proper with
  | store =>
    refine ⟨_, Stack.ofStore_eq alike.named _, ⟨?_, alike.named, alike.items, alike.proper⟩⟩
    have empty : layer.table = {} := cleared
    show layer = { id := layer.id, hasLock := layer.hasLock }
    rw [← empty]
  | lru delegate inductionHypothesis =>
    obtain ⟨order, overdue, below⟩ := cleared
    obtain ⟨fresh, assembled, same⟩ := inductionHypothesis alike.delegate below
    refine ⟨{ capacity := layer.capacity, delegate := fresh }, ?_,
      order, rfl, overdue, alike.positive, same⟩
    exact bind_eq_ok.mpr ⟨_, assembled, Stack.withLru_eq _ alike.positive⟩
  | probe delegate inductionHypothesis =>
    obtain ⟨fresh, assembled, same⟩ := inductionHypothesis alike.delegate cleared
    exact ⟨{ delegate := fresh }, bind_eq_ok.mpr ⟨_, assembled, rfl⟩, rfl, same⟩
  | soft delegate inductionHypothesis =>
    obtain ⟨ring, pending, below⟩ := cleared
    obtain ⟨held, alike⟩ := alike
    -- Nothing is stored, so no reference has to be on the list.
    have alone := (contained_cache delegate).move [] memory alike.delegate
      (below.handles ▸ List.Subset.refl _)
    obtain ⟨fresh, assembled, same⟩ := inductionHypothesis alone below
    refine ⟨{ window := layer.window, delegate := fresh }, ?_, [], ring, rfl, alike.positive,
      alike.unheld, ReferenceQueue.alike_empty pending alike.queue.numbered, same⟩
    exact bind_eq_ok.mpr ⟨_, assembled, Stack.withSoft_eq _ alike.positive⟩

/-- A clear of a cleared stack changes nothing but faults and counters. -/
theorem clear_again (alike : shape.Alike allowed proper layer layer memory)
    (cleared : shape.Cleared layer) :
    shape.cache.clear.Leaves layer memory
      (fun _ later after => after = memory ∧
        shape.Alike allowed proper later (shape.withFaults later layer) memory)
      fun _ _ => True := by
  induction shape generalizing proper with
  | store =>
    have empty : layer.table = {} := cleared
    have same : { layer with table := Table.empty } = layer := by
      show { layer with table := {} } = layer
      rw [← empty]
    intro trace
    show memory = memory ∧ Store.Alike allowed proper { layer with table := Table.empty } layer
      memory
    rw [same]
    exact ⟨rfl, alike⟩
  | lru delegate inductionHypothesis =>
    obtain ⟨order, overdue, below⟩ := cleared
    intro trace
    show (LruLayer.clear delegate.cache).Ends _ _ _
    simp only [LruLayer.clear, LruLayer.below, LruLayer.count, ends_bind, ends_within,
      ends_modifyLayer]
    refine (inductionHypothesis alike.delegate below).ends (fun _ _ next => ?_)
      fun _ _ _ => trivial
    exact ⟨next.1, order.symm, rfl, overdue.symm, alike.positive, next.2⟩
  | probe delegate inductionHypothesis =>
    refine Leaves.imp (ProbeLayer.intercept_leaves trivial
      (inductionHypothesis alike.delegate cleared) fun _ _ _ _ => trivial)
      (fun _ _ _ next => ?_) fun _ _ _ => trivial
    exact ⟨next.1, rfl, next.2⟩
  | soft delegate inductionHypothesis =>
    obtain ⟨ring, pending, below⟩ := cleared
    obtain ⟨held, alike⟩ := alike
    intro trace
    show (SoftLayer.clear delegate.cache).Ends _ _ _
    simp only [SoftLayer.clear, SoftLayer.below, ends_bind, ends_modifyLayer, ends_within]
    rw [SoftLayer.ends_drain_idle pending]
    refine (inductionHypothesis alike.delegate below).ends (fun _ _ next => ?_)
      fun _ _ _ => trivial
    exact ⟨next.1, held, ring.symm, rfl, alike.positive, alike.unheld,
      ReferenceQueue.alike_self alike.queue.numbered held, next.2⟩

end Shape

/-! ### Clears -/

/-- Whatever has been done to a stack, a clear that succeeds makes it as good as new: it cannot be
told apart from a stack that is now assembled with the same name and layers and the settings they
have come to, and whose probes are left with the same faults. No layer shows anything any more, and
a second clear that succeeds changes nothing but what faults are left. -/
theorem Stack.clear_renews [DecidableEq K] {id : String} {hasLock : Bool} {layers : List Layer}
    {stack : Stack K V .value} (assembled : Stack.assemble id hasLock layers .value = .ok stack)
    (deeds : List (Deed K V))
    (answered : (stack.shape.cache.clear.run (stack.shape.run deeds stack.machine).2).1 = .ok ()) :
    let cleared := (stack.shape.cache.clear.run (stack.shape.run deeds stack.machine).2).2
    (∃ fresh, Stack.assemble (stack.shape.cache.id cleared.layer)
          (stack.shape.cache.hasLock cleared.layer) (stack.shape.layers cleared.layer) .value =
        .ok ⟨stack.shape, fresh⟩ ∧
      stack.shape.Indiscernible cleared
        { cleared with layer := stack.shape.withFaults cleared.layer fresh }) ∧
    (∀ sight ∈ stack.shape.sights cleared.layer cleared.memory,
      sight = .lru [] 0 ∨ sight = .soft [] 0) ∧
    let again := stack.shape.cache.clear.run cleared
    again.1 = .ok () → stack.shape.Indiscernible again.2
      { again.2 with layer := stack.shape.withFaults again.2.layer cleared.layer } := by
  intro cleared
  have start : stack.shape.Twinned stack.machine stack.machine :=
    ⟨rfl, rfl, Stack.alike_assemble assembled _ _ trivial rfl⟩
  have before : stack.shape.Twinned (stack.shape.run deeds stack.machine).2
      (stack.shape.run deeds stack.machine).2 := (Shape.run_twins start deeds).2
  have twins : stack.shape.Twinned cleared cleared :=
    ((stack.shape.blind_cache _ _).clear _ _ before).2
  have empty : stack.shape.Cleared cleared.layer :=
    (stack.shape.cleared_of_clear _ _ _).of_answer answered
  obtain ⟨fresh, made, same⟩ := Shape.exists_renewed twins.layer empty
  refine ⟨⟨fresh, made, ?_⟩, empty.sights twins.layer, fun answered => ?_⟩
  · exact Shape.Twinned.indiscernible ⟨rfl, rfl, same⟩
  · obtain ⟨memory, same⟩ := (Shape.clear_again twins.layer empty _).of_answer answered
    exact Shape.Twinned.indiscernible ⟨rfl, rfl, memory ▸ same⟩

/-- Recency layers outside and inside of a soft one, each over a probe. -/
def paved : Stack Nat String .value :=
  ⟨.lru (.probe (.soft (.lru (.probe .store)))),
    { capacity := 1
      delegate :=
        { delegate :=
            { window := 1
              delegate := { capacity := 2, delegate := { delegate := { id := "pages" } } } } } }⟩

/-- An eviction fails, two values are reclaimed by force, the drain after that fails, and a fault
for the clear after the next one is left. -/
def wear : List (Deed Nat String) :=
  [.addFault 4 { method := .remove, error := .backend "pages" "no eviction" },
    .call (.put 1 ⟨0, "one"⟩), .call (.get 1), .call (.put 2 ⟨1, "two"⟩), .forceReclaim 1,
    .forceReclaim 2, .addFault 1 { method := .get, error := .backend "pages" "no drain" },
    .call (.put 3 ⟨2, "three"⟩), .setCapacity 5 3,
    .addFault 1 { method := .clear, skip := 1, error := .backend "pages" "no clear" }]

/-- A victim is overdue, a value is pinned and a notification waits before the clear. -/
theorem clear_renews_paved :
    Stack.assemble "pages" false [.lru 1, .probe, .soft 1, .lru 2, .probe] .value = .ok paved ∧
      let worn := (paved.shape.run wear paved.machine).2
      let cleared := (paved.shape.cache.clear.run worn).2
      worn.layer.overdue = 1 ∧ worn.layer.delegate.delegate.queue.pending = [2] ∧
        paved.shape.sights worn.layer worn.memory =
          [.lru [2, 1] 2, .soft [⟨0, "one"⟩] 0, .lru [1, 2] 2] ∧
        (paved.shape.cache.clear.run worn).1 = .ok () ∧
        ∃ fresh, Stack.assemble "pages" false [.lru 3, .probe, .soft 1, .lru 2, .probe] .value =
            .ok ⟨paved.shape, fresh⟩ ∧
          paved.shape.Indiscernible cleared
            { cleared with layer := paved.shape.withFaults cleared.layer fresh } := by
  have assembled : Stack.assemble "pages" false [.lru 1, .probe, .soft 1, .lru 2, .probe] .value =
      .ok paved := rfl
  have answered : (paved.shape.cache.clear.run (paved.shape.run wear paved.machine).2).1 =
      .ok () := by decide +kernel
  have settings : paved.shape.layers
      (paved.shape.cache.clear.run (paved.shape.run wear paved.machine).2).2.layer =
        [.lru 3, .probe, .soft 1, .lru 2, .probe] := by decide +kernel
  have name : paved.shape.cache.id
      (paved.shape.cache.clear.run (paved.shape.run wear paved.machine).2).2.layer =
        "pages" := by decide +kernel
  have lock : paved.shape.cache.hasLock
      (paved.shape.cache.clear.run (paved.shape.run wear paved.machine).2).2.layer =
        false := by decide +kernel
  obtain ⟨⟨fresh, made, same⟩, -, -⟩ := Stack.clear_renews assembled wear answered
  rw [settings, name, lock] at made
  exact ⟨assembled, by decide +kernel, by decide +kernel, by decide +kernel, answered, fresh, made,
    same⟩

end LayeredCache
