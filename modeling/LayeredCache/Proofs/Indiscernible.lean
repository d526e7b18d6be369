/-
This file proves that stacks whose layers are alike cannot be told apart: every run on the one has
the results that it has on the other, and leaves states that are alike and show the same.

A stack that was just assembled is alike to itself. Being alike to itself says of a state what every
reachable state keeps up: capacities and windows are not zero, no registered reference has a number
that is still to be given, and no caller holds a reference.
-/

import LayeredCache.Proofs.Likeness

namespace LayeredCache

open LayeredCache.Action

variable {K V α : Type}

namespace Shape

variable [DecidableEq K] {content : Content} {shape : Shape content}

/-! ### Alike states -/

/-- The states are alike in every layer. The items of the store are allowed and the memory is a
proper one; below a soft layer this means references on a list and a certain memory. -/
def Alike : {content : Content} → (shape : Shape content) → (content.Item K V → Prop) →
    (Memory K V → Prop) → shape.State K V → shape.State K V → Memory K V → Prop
  | _, .store, allowed, proper => Store.Alike allowed proper
  | _, .lru delegate, allowed, proper => LruLayer.Alike (delegate.Alike allowed proper)
  | _, .probe delegate, allowed, proper => ProbeLayer.Alike (delegate.Alike allowed proper)
  | _, .soft delegate, _, _ => fun one other memory =>
    ∃ held, SoftLayer.Alike (fun held now => delegate.Alike (· ∈ held) (· = now)) held one other
      memory

variable {allowed : content.Item K V → Prop} {proper : Memory K V → Prop}
  {one other : shape.State K V} {memory : Memory K V}

section References

variable {fits : SoftReference K V → Prop}

omit [DecidableEq K] in
/-- Without a soft layer in the stack the memory is a proper one. -/
theorem proper_of_alike : (shape : Shape .reference) → {one other : shape.State K V} →
    shape.Alike fits proper one other memory → proper memory
  | .store, _, _, alike => alike.proper
  | .lru delegate, _, _, alike => proper_of_alike delegate alike.delegate
  | .probe delegate, _, _, alike => proper_of_alike delegate alike.delegate

/-- Nothing but allowed references is kept alive. -/
theorem fits_of_alike : (shape : Shape .reference) → {one other : shape.State K V} →
    shape.Alike fits proper one other memory →
    ∀ reference ∈ (shape.cache.handles one).references, fits reference
  | .store, _, _, alike => alike.items
  | .lru delegate, _, _, alike => fits_of_alike delegate alike.delegate
  | .probe delegate, _, _, alike => fits_of_alike delegate alike.delegate

/-- What is allowed and proper may be anything that what is there meets. -/
theorem alike_move {wider : SoftReference K V → Prop} {suits : Memory K V → Prop}
    {later : Memory K V} (suitable : suits later) :
    (shape : Shape .reference) → {one other : shape.State K V} →
    shape.Alike fits proper one other memory →
    (∀ reference ∈ (shape.cache.handles one).references, wider reference) →
    shape.Alike wider suits one other later
  | .store, _, _, alike, meets => ⟨alike.same, alike.named, meets, suitable⟩
  | .lru delegate, _, _, alike, meets =>
    ⟨alike.order, alike.capacity, alike.overdue, alike.positive,
      alike_move suitable delegate alike.delegate meets⟩
  | .probe delegate, _, _, alike, meets =>
    ⟨alike.faults, alike_move suitable delegate alike.delegate meets⟩

end References

/-- Without a soft layer a stack has only the references that it is given. -/
theorem contained (shape : Shape .reference)
    (blind : ∀ (allowed : SoftReference K V → Prop) (proper : Memory K V → Prop),
      (shape.cache : Cache K V (shape.State K V) (SoftReference K V)).Blind
        (shape.Alike allowed proper) allowed) :
    (shape.cache : Cache K V (shape.State K V) (SoftReference K V)).Contained
      fun held now => shape.Alike (· ∈ held) (· = now) where
  blind held memory := blind (· ∈ held) (· = memory)
  still alike := by
    have proper := proper_of_alike shape alike
    exact proper
  within alike _ := fits_of_alike shape alike _
  move _ later alike within := by
    refine alike_move ?_ shape alike fun _ member => within member
    exact rfl

/-- No call tells alike states apart. -/
theorem blind_cache (shape : Shape content) (allowed : content.Item K V → Prop)
    (proper : Memory K V → Prop) :
    (shape.cache : Cache K V (shape.State K V) (content.Item K V)).Blind
      (shape.Alike allowed proper) allowed := by
  induction shape generalizing proper with
  | store => exact blind_store _ allowed proper
  | lru delegate inductionHypothesis =>
    exact LruLayer.cache_blind (inductionHypothesis allowed proper)
  | probe delegate inductionHypothesis =>
    exact ProbeLayer.cache_blind (inductionHypothesis allowed proper) _
  | soft delegate inductionHypothesis =>
    have soft := SoftLayer.cache_blind (contained delegate inductionHypothesis)
    exact ⟨soft.id, soft.handles, fun key item _ => soft.put key item trivial, soft.get,
      soft.remove, soft.clear, soft.length⟩

/-- A stack below a soft layer has only the references that the soft layer gives it. -/
theorem contained_cache (shape : Shape .reference) :
    (shape.cache : Cache K V (shape.State K V) (SoftReference K V)).Contained
      fun held now => shape.Alike (· ∈ held) (· = now) :=
  contained shape (blind_cache shape)

/-! ### Single layers -/

/-- What is blind on every part of a stack is blind on the whole. -/
theorem blind_visit {target : Nat}
    {action : {content : Content} → (part : Shape content) → Action K V (part.State K V) α}
    (blind : ∀ {content : Content} (part : Shape content) allowed proper,
      (action part).Blind (part.Alike allowed proper)) (shape : Shape content)
    (allowed : content.Item K V → Prop) (proper : Memory K V → Prop) :
    (shape.visit target action).Blind (shape.Alike allowed proper) := by
  induction shape generalizing proper with
  | store =>
    unfold visit
    split
    · exact (blind .store allowed proper).map some
    · exact blind_pure none
  | lru delegate inductionHypothesis =>
    unfold visit
    split
    · exact (blind (.lru delegate) allowed proper).map some
    · exact LruLayer.below_blind (inductionHypothesis allowed proper)
  | probe delegate inductionHypothesis =>
    unfold visit
    split
    · exact (blind (.probe delegate) allowed proper).map some
    · exact ProbeLayer.below_blind (inductionHypothesis allowed proper)
  | soft delegate inductionHypothesis =>
    unfold visit
    split
    · exact (blind (.soft delegate) allowed proper).map some
    · exact Blind.exists fun held => SoftLayer.below_blind (contained_cache delegate)
        fun memory => inductionHypothesis (· ∈ held) (· = memory)

omit [DecidableEq K] in
/-- What is blind on every soft layer is blind on the whole stack. -/
theorem blind_visitSoft
    {action : (delegate : Shape .reference) → Action K V (SoftLayer K V (delegate.State K V)) α}
    (blind : ∀ (delegate : Shape .reference) held, (action delegate).Blind
      (SoftLayer.Alike (fun held now => delegate.Alike (· ∈ held) (· = now)) held))
    (shape : Shape content) (allowed : content.Item K V → Prop) (proper : Memory K V → Prop) :
    (shape.visitSoft action).Blind (shape.Alike allowed proper) := by
  induction shape generalizing proper with
  | store => exact blind_pure none
  | lru delegate inductionHypothesis =>
    exact LruLayer.below_blind (inductionHypothesis allowed proper)
  | probe delegate inductionHypothesis =>
    exact ProbeLayer.below_blind (inductionHypothesis allowed proper)
  | soft delegate => exact (Blind.exists (blind delegate)).map some

/-! ### Runs -/

/-- What callers hold makes no difference to whether states are alike. -/
theorem Alike.elsewhere {later : Memory K V} (alike : shape.Alike allowed proper one other memory)
    (suitable : proper later) (reclaimed : later.reclaimed = memory.reclaimed)
    (nextNumber : later.nextNumber = memory.nextNumber)
    (references : later.references = memory.references) :
    shape.Alike allowed proper one other later := by
  induction shape generalizing proper with
  | store => exact ⟨alike.same, alike.named, alike.items, suitable⟩
  | lru delegate inductionHypothesis =>
    exact ⟨alike.order, alike.capacity, alike.overdue, alike.positive,
      inductionHypothesis alike.delegate suitable⟩
  | probe delegate inductionHypothesis =>
    exact ⟨alike.faults, inductionHypothesis alike.delegate suitable⟩
  | soft delegate =>
    obtain ⟨held, alike⟩ := alike
    have contained := contained_cache (K := K) (V := V) delegate
    exact ⟨held, alike.ring, alike.window, alike.positive,
      (congrArg Table.items references).trans alike.unheld,
      alike.queue.elsewhere reclaimed nextNumber,
      contained.move held later alike.delegate (contained.within alike.delegate)⟩

/-- The machines run stacks in alike states. -/
abbrev Twinned (shape : Shape content) (one other : Machine K V (shape.State K V)) : Prop :=
  Twins (shape.Alike (fun _ => True) fun _ => True) one other

variable {shape : Shape .value}

/-- No deed tells twins apart. -/
theorem blind_perform (shape : Shape .value) (deed : Deed K V) :
    (shape.perform deed).Blind (shape.Alike (fun _ => True) fun _ => True) := by
  cases deed with
  | call call => exact ((blind_cache shape _ _).call call).map _
  | reclaim limit =>
    exact (blind_visitSoft (fun delegate _ =>
      SoftLayer.reclaim_blind (contained_cache delegate) limit) shape _ _).map _
  | reclaimAll =>
    exact (blind_visitSoft (fun delegate _ =>
      SoftLayer.reclaimAll_blind (contained_cache delegate)) shape _ _).map _
  | forceReclaim key =>
    exact (blind_visitSoft (fun delegate _ =>
      SoftLayer.forceReclaim_blind (contained_cache delegate) key) shape _ _).map _
  | setCapacity position capacity =>
    refine ((blind_visit (fun part allowed proper => ?_) shape _ _).map _).map _
    cases part with
    | lru delegate =>
      exact (LruLayer.setCapacity_blind (blind_cache delegate allowed proper) capacity).map some
    | store => exact blind_pure _
    | probe delegate => exact blind_pure _
    | soft delegate => exact blind_pure _
  | setWindow window =>
    exact (blind_visitSoft (fun delegate _ =>
      SoftLayer.setWindow_blind (contained_cache delegate) window) shape _ _).map _
  | addFault position fault =>
    refine Blind.bind (Blind.bind (blind_visit (fun part allowed proper => ?_) shape _ _) fun _ =>
      blind_pure _) fun _ => blind_pure _
    cases part with
    | probe delegate => exact ProbeLayer.addFault_blind fault
    | store => exact blind_pure _
    | lru delegate => exact blind_pure _
    | soft delegate => exact blind_pure _
  | hold name value =>
    intro one other twins
    exact ⟨rfl, congrArg (·.holdValue name value) twins.memory, twins.trace,
      twins.layer.elsewhere trivial rfl rfl rfl⟩
  | release name =>
    intro one other twins
    exact ⟨rfl, congrArg (·.releaseValue name) twins.memory, twins.trace,
      twins.layer.elsewhere trivial rfl rfl rfl⟩

/-- Runs on twins have the same results and leave twins. -/
theorem run_twins {one other : Machine K V (shape.State K V)} (twins : shape.Twinned one other)
    (deeds : List (Deed K V)) :
    (shape.run deeds one).1 = (shape.run deeds other).1 ∧
      shape.Twinned (shape.run deeds one).2 (shape.run deeds other).2 := by
  induction deeds generalizing one other with
  | nil => exact ⟨rfl, twins⟩
  | cons deed rest inductionHypothesis =>
    obtain ⟨same, later⟩ := blind_perform shape deed one other twins
    obtain ⟨others, final⟩ := inductionHypothesis later
    refine ⟨?_, final⟩
    rw [run_cons, run_cons, same, others]

end Shape

/-! ### What layers show -/

/-- What can be seen of a layer without changing it. -/
inductive Sight (K V : Type) where
  | lru (order : List K) (tracked : Nat)
  | soft (pinned : List (Shared V)) (registered : Nat)
  deriving DecidableEq

namespace Shape

variable [DecidableEq K] {content : Content}

/-- What can be seen of the recency layers and the soft layer, the outermost one first. -/
def sights : {content : Content} → (shape : Shape content) → shape.State K V → Memory K V →
    List (Sight K V)
  | _, .store, _, _ => []
  | _, .lru delegate, layer, memory =>
    .lru layer.order.toList layer.order.length :: delegate.sights layer.delegate memory
  | _, .probe delegate, layer, memory => delegate.sights layer.delegate memory
  | _, .soft delegate, layer, memory =>
    .soft layer.ring (SoftLayer.registered delegate.cache { layer, memory }) ::
      delegate.sights layer.delegate memory

/-- Alike states show the same. -/
theorem Alike.sights {shape : Shape content} {allowed : content.Item K V → Prop}
    {proper : Memory K V → Prop} {one other : shape.State K V} {memory : Memory K V}
    (alike : shape.Alike allowed proper one other memory) :
    shape.sights one memory = shape.sights other memory := by
  induction shape generalizing proper with
  | store => rfl
  | lru delegate inductionHypothesis =>
    unfold Shape.sights
    rw [alike.order, inductionHypothesis alike.delegate]
  | probe delegate inductionHypothesis => exact inductionHypothesis alike.delegate
  | soft delegate inductionHypothesis =>
    obtain ⟨held, alike⟩ := alike
    have twins : Twins _ (⟨one, memory, []⟩ : Machine K V _) ⟨other, memory, []⟩ :=
      ⟨rfl, rfl, alike⟩
    have registered := SoftLayer.registered_twins (contained_cache delegate) twins
    unfold Shape.sights
    rw [alike.ring, registered, inductionHypothesis alike.delegate]

/-- Whatever is done to the machines has the same results, leaves the same trace, and lets the
layers show the same. -/
def Indiscernible (shape : Shape .value) (one other : Machine K V (shape.State K V)) : Prop :=
  ∀ deeds : List (Deed K V),
    let first := shape.run deeds one
    let second := shape.run deeds other
    first.1 = second.1 ∧ first.2.trace = second.2.trace ∧
      shape.sights first.2.layer first.2.memory = shape.sights second.2.layer second.2.memory

theorem Twinned.indiscernible {shape : Shape .value} {one other : Machine K V (shape.State K V)}
    (twins : shape.Twinned one other) : shape.Indiscernible one other := by
  intro deeds
  obtain ⟨same, later⟩ := run_twins twins deeds
  exact ⟨same, later.trace, later.memory ▸ later.layer.sights⟩

end Shape

/-! ### Assembled stacks -/

/-- The state of a stack that was just assembled is alike to itself, in every memory of which
callers hold no reference. -/
theorem Stack.alike_assemble [DecidableEq K] {content : Content} {id : String} {hasLock : Bool}
    {layers : List Layer} {stack : Stack K V content}
    (assembled : Stack.assemble id hasLock layers content = .ok stack)
    (allowed : content.Item K V → Prop) (proper : Memory K V → Prop) {memory : Memory K V}
    (suitable : proper memory) (unheld : memory.references.items = []) :
    stack.shape.Alike allowed proper stack.state stack.state memory := by
  refine Stack.assemble_induction
    (fun {content} _ stack => ∀ (allowed : content.Item K V → Prop) (proper : Memory K V → Prop),
      proper memory → stack.shape.Alike allowed proper stack.state stack.state memory)
    (fun id hasLock named allowed proper suitable => ?_)
    (fun inner stack capacity positive alike allowed proper suitable => ?_)
    (fun inner stack alike allowed proper suitable => ?_)
    (fun inner stack window positive alike allowed proper suitable => ?_)
    assembled allowed proper suitable
  · exact ⟨rfl, named, List.forall_mem_nil _, suitable⟩
  · exact ⟨rfl, rfl, rfl, positive, alike allowed proper suitable⟩
  · exact ⟨rfl, alike allowed proper suitable⟩
  · exact ⟨[], rfl, rfl, positive, unheld, ReferenceQueue.alike_self (List.forall_mem_nil _) [],
      alike (· ∈ []) (· = memory) rfl⟩

end LayeredCache
