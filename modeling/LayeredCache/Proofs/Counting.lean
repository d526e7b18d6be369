/-
This file proves that the size of a stack with a soft layer is exact as long as nothing fails.

What a count answers, the number of registered references and the number of keys with a value are
the same number, because each of them is the length of a list that enumerates the keys with a value.
`Tallies` says this of the operations that a caller can call. It passes through the recency layers
above the soft layer, and so do the operations of the memory manager, which reach the soft layer
without touching the layers above it.
-/

import LayeredCache.Proofs.Building
import LayeredCache.Proofs.Reliable

namespace LayeredCache

open LayeredCache.Action

variable {K V σ X : Type} [DecidableEq K]

/-! ### Counting caches -/

/-- No operation fails in a sound state or makes it unsound, a look-up answers what is shown, and
the length is the number of keys under which something is shown. -/
structure Cache.Tallies (cache : Cache K V σ X) (sound : σ → Memory K V → Prop)
    (shows : σ → Memory K V → K → Option X) : Prop where
  put : ∀ layer memory key item, sound layer memory →
    (cache.put key item).Leaves layer memory (fun _ => sound) fun _ _ => False
  get : ∀ layer memory key, sound layer memory →
    (cache.get key).Leaves layer memory
      (fun found later after => sound later after ∧ found = shows layer memory key)
      fun _ _ => False
  remove : ∀ layer memory key, sound layer memory →
    (cache.remove key).Leaves layer memory (fun _ => sound) fun _ _ => False
  clear : ∀ layer memory, sound layer memory →
    cache.clear.Leaves layer memory (fun _ => sound) fun _ _ => False
  length : ∀ layer memory, sound layer memory →
    cache.length.Leaves layer memory
      (fun number later after => sound later after ∧
        ∃ keys, Enumerates keys (shows layer memory) ∧ number = keys.length)
      fun _ _ => False

/-- A recency layer counts what its delegate counts. -/
theorem LruLayer.tallies {delegate : Cache K V σ X} {sound : σ → Memory K V → Prop}
    {shows : σ → Memory K V → K → Option X} (tallies : delegate.Tallies sound shows) :
    (LruLayer.cache delegate).Tallies (fun layer => sound layer.delegate)
      fun layer => shows layer.delegate where
  put layer memory key item start :=
    LruLayer.put_keeps (fun victim inner after kept => tallies.remove inner after victim kept)
      (tallies.put layer.delegate memory key item start)
  get layer memory key start :=
    LruLayer.get_leaves (tallies.get layer.delegate memory key start)
  remove layer memory key start :=
    LruLayer.remove_leaves (tallies.remove layer.delegate memory key start)
  clear layer memory start := LruLayer.clear_leaves (tallies.clear layer.delegate memory start)
  length layer memory start := LruLayer.length_leaves (tallies.length layer.delegate memory start)

omit [DecidableEq K] in
/-- No call fails in a sound state or makes it unsound. -/
theorem Cache.Tallies.call {cache : Cache K V σ X} {sound : σ → Memory K V → Prop}
    {shows : σ → Memory K V → K → Option X} (tallies : cache.Tallies sound shows)
    {machine : Machine K V σ} (start : sound machine.layer machine.memory) (call : Call K X) :
    (cache.call call).Ends machine (fun _ later => sound later.layer later.memory)
      fun _ _ => False := by
  cases call with
  | put key item =>
    simp only [Cache.call, ends_bind, ends_pure]
    exact (tallies.put _ _ key item start).ends (fun _ _ next => next) fun _ _ no => no
  | get key =>
    simp only [Cache.call, ends_bind, ends_pure]
    exact (tallies.get _ _ key start).ends (fun _ _ next => next.1) fun _ _ no => no
  | remove key =>
    simp only [Cache.call, ends_bind, ends_pure]
    exact (tallies.remove _ _ key start).ends (fun _ _ next => next) fun _ _ no => no
  | clear =>
    simp only [Cache.call, ends_bind, ends_pure]
    exact (tallies.clear _ _ start).ends (fun _ _ next => next) fun _ _ no => no
  | length =>
    simp only [Cache.call, ends_bind, ends_pure]
    exact (tallies.length _ _ start).ends (fun _ _ next => next.1) fun _ _ no => no
  | isEmpty =>
    simp only [Cache.call, Cache.isEmpty, ends_bind, ends_pure]
    exact (tallies.length _ _ start).ends (fun _ _ next => next.1) fun _ _ no => no

/-! ### Soft layers -/

namespace SoftLayer

variable {delegate : Cache K V σ (SoftReference K V)} {table : σ → Table K (SoftReference K V)}
  (reliable : delegate.Reliable Content.reference.handles table)

include reliable

theorem put_sound {machine : Machine K V (SoftLayer K V σ)} (key : K) (value : Shared V)
    (sound : Sound table machine.layer machine.memory) :
    (put delegate key value).Ends machine (fun _ later => Sound table later.layer later.memory)
      fun _ _ => False := by
  simp only [put, below, ends_bind, ends_withQueue, ends_within]
  refine (drain_drained reliable sound).imp (fun _ drained next => ?_) fun _ _ no => no
  obtain ⟨sound, idle, -⟩ := next
  refine (reliable.put _ _ key _ sound.distinct).ends (fun _ later next => ?_) fun _ _ no => no
  obtain ⟨same, distinct, less⟩ := next
  refine ⟨distinct, ?_, ?_⟩
  · exact (congrArg (fun memory => memory.references.items) same).trans sound.unheld
  · show InStep (table later.layer).find? _ later.memory _
    rw [same]
    exact sound.inStep.register idle (sound.holding reliable) less

theorem get_sound {machine : Machine K V (SoftLayer K V σ)} (key : K)
    (sound : Sound table machine.layer machine.memory) :
    (get delegate key).Ends machine
      (fun found later => Sound table later.layer later.memory ∧
        found = shows table machine.layer machine.memory key)
      fun _ _ => False := by
  simp only [get, below, ends_bind, ends_within]
  refine (reliable.get _ _ key).ends (fun found later next => ?_) fun _ _ no => no
  obtain ⟨same, entries, answer⟩ := next
  have same : later.memory = machine.memory := same
  have entries : table later.layer = table machine.layer.delegate := entries
  have resolved : shows table machine.layer machine.memory key =
      found.bind machine.memory.resolve := by
    rw [answer]
    rfl
  cases found with
  | none =>
    simp only [ends_bind, count, ends_modifyLayer, ends_pure, around, same]
    exact ⟨sound.same rfl entries, resolved.symm⟩
  | some reference =>
    rw [Option.bind_some] at resolved
    simp only [ends_bind, ends_memory, around, count, same]
    split
    case h_1 value found =>
      rw [ends_bind]
      refine ends_pin fun ring counters trace => ⟨sound.same rfl entries, ?_⟩
      rw [resolved, found]
    case h_2 missing =>
      simp only [ends_bind, name, ends_layer, ends_pure, ends_report, ends_within]
      refine (reliable.remove _ _ key).ends (fun _ last next => ?_) fun _ _ no => no
      obtain ⟨kept, erased⟩ := next
      have kept : last.memory = machine.memory := kept
      refine ⟨?_, by rw [resolved, missing]⟩
      show Sound table _ last.memory
      rw [kept]
      exact sound.erase rfl (Eq.trans erased (congrArg (Table.erase · key) entries))

theorem remove_sound {machine : Machine K V (SoftLayer K V σ)} (key : K)
    (sound : Sound table machine.layer machine.memory) :
    (remove delegate key).Ends machine (fun _ later => Sound table later.layer later.memory)
      fun _ _ => False := by
  simp only [remove, below, ends_bind, ends_within]
  refine (drain_drained reliable sound).imp (fun _ drained next => ?_) fun _ _ no => no
  refine (reliable.remove _ _ key).ends (fun found later removed => ?_) fun _ _ no => no
  obtain ⟨same, erased⟩ := removed
  have same : later.memory = drained.memory := same
  have kept : Sound table { drained.layer with delegate := later.layer } later.memory := by
    rw [same]
    exact next.sound.erase rfl erased
  cases found with
  | none => exact kept
  | some reference => exact kept

theorem clear_sound {machine : Machine K V (SoftLayer K V σ)}
    (sound : Sound table machine.layer machine.memory) :
    (clear delegate).Ends machine (fun _ later => Sound table later.layer later.memory)
      fun _ _ => False := by
  simp only [clear, below, ends_bind, ends_modifyLayer, ends_within]
  have unpinned : Sound table { machine.layer with ring := [] } machine.memory :=
    sound.same rfl rfl
  refine (drain_drained reliable unpinned).imp (fun _ drained next => ?_) fun _ _ no => no
  refine (reliable.clear _ _).ends (fun _ later cleared => ?_) fun _ _ no => no
  obtain ⟨same, empty⟩ := cleared
  have same : later.memory = drained.memory := same
  show Sound table { drained.layer with delegate := later.layer } later.memory
  rw [same]
  refine ⟨empty ▸ Table.distinct_empty, next.sound.unheld, ?_⟩
  have none : ∀ key, (table later.layer).find? key = none := fun key => by
    rw [empty, Table.find?_empty]
  refine next.sound.inStep.less (fun key reference found => ?_) fun key reference found => ?_
  · rw [none key] at found
    cases found
  · rw [none key] at found
    cases found

theorem length_sound {machine : Machine K V (SoftLayer K V σ)}
    (sound : Sound table machine.layer machine.memory) :
    (length delegate).Ends machine
      (fun number later => Sound table later.layer later.memory ∧
        ∃ keys, Enumerates keys (shows table machine.layer machine.memory) ∧ number = keys.length)
      fun _ _ => False := by
  simp only [length, below, ends_bind, ends_within]
  refine (drain_drained reliable sound).imp (fun _ drained next => ?_) fun _ _ no => no
  refine (reliable.length _ _).ends (fun number later counted => ?_) fun _ _ no => no
  obtain ⟨same, entries, size⟩ := counted
  have same : later.memory = drained.memory := same
  refine ⟨?_, (table drained.layer.delegate).keys, ?_, ?_⟩
  · show Sound table { drained.layer with delegate := later.layer } later.memory
    rw [same]
    exact next.sound.same rfl entries
  · rw [← next.same]
    exact InStep.enumerates_keys next.sound.distinct (next.idle ▸ next.sound.inStep)
  · rw [Table.keys_length]
    exact size

/-- The operations of a soft layer on a reliable delegate. -/
theorem tallies : (SoftLayer.cache delegate).Tallies (Sound table) (shows table) where
  put _ _ key value sound _ := put_sound reliable key value sound
  get _ _ key sound _ := get_sound reliable key sound
  remove _ _ key sound _ := remove_sound reliable key sound
  clear _ _ sound _ := clear_sound reliable sound
  length _ _ sound _ := length_sound reliable sound

/-! ### The memory manager's side -/

theorem reclaim_sound {machine : Machine K V (SoftLayer K V σ)} (limit : Nat)
    (sound : Sound table machine.layer machine.memory) :
    (reclaim delegate limit).Ends machine (fun _ later => Sound table later.layer later.memory)
      fun _ _ => False := by
  simp only [reclaim, ends_bind, ends_withQueue, ends_layer, ends_report, ends_pure]
  refine ⟨sound.distinct, ?_, sound.inStep.sweepAll limit (sound.holding reliable)⟩
  exact (congrArg Table.items (ReferenceQueue.references_sweep _)).trans sound.unheld

theorem forceReclaim_sound {machine : Machine K V (SoftLayer K V σ)} (key : K)
    (sound : Sound table machine.layer machine.memory) :
    (forceReclaim delegate key).Ends machine
      (fun answer later => Sound table later.layer later.memory ∧
        answer = (shows table machine.layer machine.memory key).isSome ∧
        shows table later.layer later.memory = fun other =>
          if other = key then none else shows table machine.layer machine.memory other)
      fun _ _ => False := by
  obtain ⟨inStep, answer, hidden⟩ := sound.inStep.forceReclaim key (sound.holding reliable)
  simp only [forceReclaim, ends_withQueue]
  refine ⟨⟨sound.distinct, ?_, inStep⟩, answer, hidden⟩
  exact (congrArg Table.items (ReferenceQueue.references_forceReclaim ..)).trans sound.unheld

theorem registered_eq {machine : Machine K V (SoftLayer K V σ)}
    (sound : Sound table machine.layer machine.memory) :
    ∃ keys, Enumerates keys (shows table machine.layer machine.memory) ∧
      registered delegate machine = keys.length := by
  refine ⟨_, sound.inStep.enumerates (sound.holding reliable), ?_⟩
  rw [List.length_map, ← List.countP_eq_length_filter]
  rfl

end SoftLayer

/-! ### Stacks -/

namespace Shape

/-- No layer of the stack is a probe. -/
def Plain : {content : Content} → Shape content → Prop
  | _, .store => True
  | _, .lru delegate => delegate.Plain
  | _, .probe _ => False
  | _, .soft delegate => delegate.Plain

/-- No layer below a soft one is soft. -/
theorem hasSoft_reference : (shape : Shape .reference) → shape.hasSoft = false
  | .store => rfl
  | .lru delegate => hasSoft_reference delegate
  | .probe delegate => hasSoft_reference delegate

theorem reliable {content : Content} {shape : Shape content} (plain : shape.Plain)
    (hard : shape.hasSoft = false) :
    (shape.cache : Cache K V (shape.State K V) (content.Item K V)).Reliable content.handles
      shape.table := by
  induction shape with
  | store => exact reliable_store _
  | lru delegate inductionHypothesis => exact LruLayer.reliable (inductionHypothesis plain hard)
  | probe delegate => exact plain.elim
  | soft delegate => cases hard

/-- What the stack stores is distinct and, through a soft layer, fits its queue and the memory. -/
def Sound : {content : Content} → (shape : Shape content) → shape.State K V → Memory K V → Prop
  | _, .store, bottom, _ => bottom.table.Distinct
  | _, .lru delegate, layer, memory => delegate.Sound layer.delegate memory
  | _, .probe delegate, layer, memory => delegate.Sound layer.delegate memory
  | _, .soft delegate, layer, memory => SoftLayer.Sound delegate.table layer memory

/-- The items that the stack can return. -/
def shows : {content : Content} → (shape : Shape content) → shape.State K V → Memory K V → K →
    Option (content.Item K V)
  | _, .store, bottom, _ => bottom.table.find?
  | _, .lru delegate, layer, memory => delegate.shows layer.delegate memory
  | _, .probe delegate, layer, memory => delegate.shows layer.delegate memory
  | _, .soft delegate, layer, memory => SoftLayer.shows delegate.table layer memory

theorem tallies {content : Content} {shape : Shape content} (plain : shape.Plain)
    (soft : shape.hasSoft = true) :
    (shape.cache : Cache K V (shape.State K V) (content.Item K V)).Tallies shape.Sound
      shape.shows := by
  induction shape with
  | store => cases soft
  | lru delegate inductionHypothesis => exact LruLayer.tallies (inductionHypothesis plain soft)
  | probe delegate => exact plain.elim
  | soft delegate => exact SoftLayer.tallies (reliable plain (hasSoft_reference delegate))

/-- What an action does on a sound soft layer it does on the whole stack. -/
theorem visitSoft_sound {α : Type} {content : Content} {shape : Shape content}
    {action : (delegate : Shape .reference) → Action K V (SoftLayer K V (delegate.State K V)) α}
    (done : {X : Type} → α → (K → Option X) → (K → Option X) → Prop)
    (each : ∀ (delegate : Shape .reference) machine, delegate.Plain →
      (Shape.soft delegate).Sound machine.layer machine.memory →
      (action delegate).Ends machine
        (fun value later => (Shape.soft delegate).Sound later.layer later.memory ∧
          done value ((Shape.soft delegate).shows machine.layer machine.memory)
            ((Shape.soft delegate).shows later.layer later.memory))
        fun _ _ => False)
    (plain : shape.Plain) (soft : shape.hasSoft = true)
    {machine : Machine K V (shape.State K V)} (sound : shape.Sound machine.layer machine.memory) :
    (shape.visitSoft action).Ends machine
      (fun answer later => shape.Sound later.layer later.memory ∧ ∃ value, answer = some value ∧
        done value (shape.shows machine.layer machine.memory)
          (shape.shows later.layer later.memory))
      fun _ _ => False := by
  induction shape with
  | store => cases soft
  | lru delegate inductionHypothesis =>
    rw [visitSoft, LruLayer.below, ends_within]
    exact inductionHypothesis plain soft sound
  | probe delegate => exact plain.elim
  | soft delegate =>
    rw [visitSoft, ends_map]
    exact (each delegate machine plain sound).imp (fun value _ next => ⟨next.1, value, rfl, next.2⟩)
      fun _ _ no => no

section Kept

variable {content : Content} {shape : Shape content} {layer later : shape.State K V}
  {memory : Memory K V}

/-- Settings do not matter. -/
theorem Sound.retuned (sound : shape.Sound layer memory) (retuned : shape.Retuned layer later) :
    shape.Sound later memory := by
  induction shape with
  | store => exact retuned ▸ sound
  | lru delegate inductionHypothesis => exact inductionHypothesis sound retuned
  | probe delegate inductionHypothesis => exact inductionHypothesis sound retuned
  | soft delegate =>
    have sound : SoftLayer.Sound delegate.table layer memory := sound
    exact sound.same retuned.1 retuned.2.table

/-- Nor does which values callers hold. -/
theorem Sound.holding (sound : shape.Sound layer memory) (values : Table String (Shared V)) :
    shape.Sound layer { memory with values } := by
  induction shape with
  | store => exact sound
  | lru delegate inductionHypothesis => exact inductionHypothesis sound
  | probe delegate inductionHypothesis => exact inductionHypothesis sound
  | soft delegate =>
    obtain ⟨distinct, unheld, inStep⟩ := sound
    exact ⟨distinct, unheld, inStep.keyed, inStep.numbered, inStep.notified, inStep.enrolled,
      inStep.unique, inStep.coherent, inStep.recent, inStep.past⟩

end Kept

/-! ### Steps -/

variable {shape : Shape .value} (plain : shape.Plain) (soft : shape.hasSoft = true)
  {machine : Machine K V (shape.State K V)} (sound : shape.Sound machine.layer machine.memory)

include plain soft sound

/-- What a look-up answers. -/
theorem perform_get (key : K) :
    (shape.perform (.call (.get key))).Ends machine
      (fun outcome later => shape.Sound later.layer later.memory ∧
        outcome = .reply (.item (shape.shows machine.layer machine.memory key)))
      fun _ _ => False := by
  simp only [perform, Cache.call, ends_map, ends_bind, ends_pure]
  refine ((tallies plain soft).get _ _ key sound).ends (fun _ _ next => ?_) fun _ _ no => no
  exact ⟨next.1, congrArg (fun found => Outcome.reply (.item found)) next.2⟩

/-- What a count answers. -/
theorem perform_length :
    (shape.perform (.call .length)).Ends machine
      (fun outcome later => shape.Sound later.layer later.memory ∧
        ∃ keys, Enumerates keys (shape.shows machine.layer machine.memory) ∧
          outcome = .reply (.count keys.length))
      fun _ _ => False := by
  simp only [perform, Cache.call, ends_map, ends_bind, ends_pure]
  refine ((tallies plain soft).length _ _ sound).ends (fun _ _ next => ?_) fun _ _ no => no
  obtain ⟨sound, keys, enumerates, same⟩ := next
  exact ⟨sound, keys, enumerates, congrArg (fun number => Outcome.reply (.count number)) same⟩

/-- What a forced reclamation answers and takes away. -/
theorem perform_forceReclaim (key : K) :
    (shape.perform (.forceReclaim key)).Ends machine
      (fun outcome later => shape.Sound later.layer later.memory ∧
        outcome = .forced (some (shape.shows machine.layer machine.memory key).isSome) ∧
        shape.shows later.layer later.memory = fun other =>
          if other = key then none else shape.shows machine.layer machine.memory other)
      fun _ _ => False := by
  simp only [perform, ends_map, Shape.forceReclaim]
  refine (visitSoft_sound
    (fun answer before after => answer = (before key).isSome ∧
      after = fun other => if other = key then none else before other)
    (fun delegate _ plain sound => ?_) plain soft sound).imp (fun _ _ next => ?_) fun _ _ no => no
  · exact SoftLayer.forceReclaim_sound (reliable plain (hasSoft_reference delegate)) key sound
  · obtain ⟨sound, _, rfl, rfl, hidden⟩ := next
    exact ⟨sound, rfl, hidden⟩

theorem ends_registered :
    (shape.registered : Action K V (shape.State K V) _).Ends machine
      (fun answer _ => ∃ keys, Enumerates keys (shape.shows machine.layer machine.memory) ∧
        answer = some keys.length)
      fun _ _ => False := by
  refine (visitSoft_sound
    (fun number before _ => ∃ keys, Enumerates keys before ∧ number = keys.length)
    (fun delegate _ plain sound => ?_) plain soft sound).imp (fun _ _ next => ?_) fun _ _ no => no
  · have registered := SoftLayer.registered_eq (reliable plain (hasSoft_reference delegate)) sound
    exact ⟨sound, registered⟩
  · obtain ⟨-, _, rfl, keys, enumerates, rfl⟩ := next
    exact ⟨keys, enumerates, rfl⟩

/-- No deed fails on a sound stack or makes it unsound. -/
theorem sound_perform (deed : Deed K V) :
    (shape.perform deed).Ends machine (fun _ later => shape.Sound later.layer later.memory)
      fun _ _ => False := by
  cases deed with
  | call call =>
    rw [perform, ends_map]
    exact (tallies plain soft).call sound call
  | reclaim limit =>
    simp only [perform, ends_map, Shape.reclaim]
    refine (visitSoft_sound (fun _ _ _ => True) (fun delegate _ plain sound => ?_) plain soft
      sound).imp (fun _ _ next => next.1) fun _ _ no => no
    exact (SoftLayer.reclaim_sound (reliable plain (hasSoft_reference delegate)) limit sound).imp
      (fun _ _ next => ⟨next, trivial⟩) fun _ _ no => no
  | reclaimAll =>
    simp only [perform, ends_map, Shape.reclaimAll]
    refine (visitSoft_sound (fun _ _ _ => True) (fun delegate _ plain sound => ?_) plain soft
      sound).imp (fun _ _ next => next.1) fun _ _ no => no
    simp only [SoftLayer.reclaimAll, ends_bind, ends_layer]
    exact (SoftLayer.reclaim_sound (reliable plain (hasSoft_reference delegate)) _ sound).imp
      (fun _ _ next => ⟨next, trivial⟩) fun _ _ no => no
  | forceReclaim key =>
    exact (perform_forceReclaim plain soft sound key).imp (fun _ _ next => next.1) fun _ _ no => no
  | setCapacity position capacity =>
    exact (retunes_setCapacity shape position capacity _ _).ends
      (fun _ _ next => next.1 ▸ sound.retuned next.2) fun _ _ no => no
  | setWindow window =>
    exact (retunes_setWindow shape window _ _).ends
      (fun _ _ next => next.1 ▸ sound.retuned next.2) fun _ _ no => no
  | addFault position fault =>
    exact (retunes_addFault shape position fault _ _).ends
      (fun _ _ next => next.1 ▸ sound.retuned next.2) fun _ _ no => no
  | hold name value => exact sound.holding _
  | release name => exact sound.holding _

theorem sound_run (deeds : List (Deed K V)) :
    shape.Sound (shape.run deeds machine).2.layer (shape.run deeds machine).2.memory :=
  run_induction (fun _ machine => shape.Sound machine.layer machine.memory) (fun _ => True)
    (fun _ _ deed _ sound =>
      (sound_perform plain soft sound deed).imp (fun _ _ next => next) fun _ _ no => no.elim)
    deeds (fun _ _ => trivial) [] machine sound

end Shape

/-! ### Built stacks -/

/-- A built stack has no probe, and starts sound. -/
theorem Blueprint.sound_of_build {blueprint : Blueprint} {stack : Stack K V .value}
    (built : blueprint.build = .ok stack) :
    stack.shape.Plain ∧ stack.shape.Sound stack.machine.layer stack.machine.memory := by
  have handed : Handed fun {content : Content} (_ : List Policy) (stack : Stack K V content) =>
      stack.shape.Plain ∧ stack.shape.table stack.state = Table.empty ∧
        stack.shape.Sound stack.state {} := by
    refine ⟨fun _ _ => ⟨trivial, rfl, Table.distinct_empty⟩, fun _ _ _ _ holds => holds, ?_⟩
    rintro layers stack window - ⟨plain, empty, -⟩
    have none : (stack.shape.table stack.state).find? = fun _ => none := by
      rw [empty]
      rfl
    refine ⟨plain, congrArg (Table.mapItems _) empty, empty ▸ Table.distinct_empty, rfl, ?_⟩
    exact none ▸ InStep.empty []
  obtain ⟨other, same, plain, -, sound⟩ := build_of_accepted handed (accepted_of_build built)
  obtain rfl : stack = other := Except.ok.inj (built.symm.trans same)
  exact ⟨plain, sound⟩

/-- What a look-up of the key would answer. -/
def Shape.lookUp (shape : Shape .value) (machine : Machine K V (shape.State K V)) (key : K) :
    Except CacheError (Outcome V) :=
  ((shape.perform (.call (.get key))).run machine).1

/-- A look-up of the key would find a value. -/
def Shape.Retrievable (shape : Shape .value) (machine : Machine K V (shape.State K V)) (key : K) :
    Prop :=
  ∃ value, shape.lookUp machine key = .ok (.reply (.item (some value)))

section Retrievable

variable {shape : Shape .value} (plain : shape.Plain) (soft : shape.hasSoft = true)
  {machine : Machine K V (shape.State K V)} (sound : shape.Sound machine.layer machine.memory)

include plain soft sound

theorem Shape.lookUp_eq (key : K) :
    shape.lookUp machine key =
      .ok (.reply (.item (shape.shows machine.layer machine.memory key))) := by
  obtain ⟨_, _, same, -, rfl⟩ := (perform_get plain soft sound key).run_eq
  exact congrArg Prod.fst same

theorem Shape.retrievable_iff (key : K) :
    shape.Retrievable machine key ↔
      (shape.shows machine.layer machine.memory key).isSome = true := by
  unfold Retrievable
  rw [lookUp_eq plain soft sound, Option.isSome_iff_exists]
  refine exists_congr fun value => ⟨fun same => ?_, fun same => by rw [same]⟩
  exact Reply.item.inj (Outcome.reply.inj (Except.ok.inj same))

end Retrievable

/-- However a built stack with a soft layer has been used: what a count answers, the number of
registered references and the number of keys that a look-up would find a value under are the same
number. A forced reclamation answers whether a look-up would have found a value under its key; after
it a look-up finds nothing under this key and answers under every other key as before. -/
theorem Blueprint.build_counts {blueprint : Blueprint} {stack : Stack K V .value}
    (built : blueprint.build = .ok stack) (soft : stack.shape.hasSoft = true)
    (deeds : List (Deed K V)) :
    let machine := (stack.shape.run deeds stack.machine).2
    (∃ keys : List K, keys.Nodup ∧ (∀ key, key ∈ keys ↔ stack.shape.Retrievable machine key) ∧
      ((stack.shape.perform (.call .length)).run machine).1 = .ok (.reply (.count keys.length)) ∧
      (stack.shape.registered.run machine).1 = .ok (some keys.length)) ∧
    ∀ key, ∃ answer later,
      (stack.shape.perform (.forceReclaim key)).run machine = (.ok (.forced (some answer)), later) ∧
      (answer = true ↔ stack.shape.Retrievable machine key) ∧
      stack.shape.lookUp later key = .ok (.reply (.item none)) ∧
      ∀ other, other ≠ key → stack.shape.lookUp later other = stack.shape.lookUp machine other := by
  intro machine
  obtain ⟨plain, start⟩ := sound_of_build built
  have sound := Shape.sound_run plain soft start deeds
  refine ⟨?_, fun key => ?_⟩
  · obtain ⟨_, _, counted, -, keys, enumerates, rfl⟩ :=
      (Shape.perform_length plain soft sound).run_eq
    obtain ⟨_, _, registered, others, again, rfl⟩ := (Shape.ends_registered plain soft sound).run_eq
    refine ⟨keys, enumerates.nodup, fun key => ?_, congrArg Prod.fst counted, ?_⟩
    · rw [Shape.retrievable_iff plain soft sound]
      exact enumerates.mem key
    · rw [enumerates.length_eq again]
      exact congrArg Prod.fst registered
  · obtain ⟨_, later, forced, after, rfl, hidden⟩ :=
      (Shape.perform_forceReclaim plain soft sound key).run_eq
    refine ⟨_, later, forced, (Shape.retrievable_iff plain soft sound key).symm, ?_, ?_⟩
    · rw [Shape.lookUp_eq plain soft after, congrFun hidden key, if_pos rfl]
    · intro other different
      rw [Shape.lookUp_eq plain soft after, Shape.lookUp_eq plain soft sound, congrFun hidden other,
        if_neg different]

/-- A soft layer between two recency layers. -/
def between : Stack Nat String .value :=
  ⟨.lru (.soft (.lru .store)),
    { capacity := 3
      delegate := { window := 1, delegate := { capacity := 2, delegate := { id := "pages" } } } }⟩

/-- An eviction below the soft layer, and a key that is put anew while its notification waits. -/
def renewedPut : List (Deed Nat String) :=
  [.call (.put 1 ⟨0, "one"⟩), .call (.put 2 ⟨1, "two"⟩), .call (.put 3 ⟨2, "three"⟩),
    .forceReclaim 2, .call (.get 2), .call (.put 2 ⟨3, "again"⟩)]

/-- Two of the four registered references count, and two keys have a value. -/
theorem build_counts_between :
    Blueprint.build ⟨"pages", [.lru 2, .soft 1, .lru 3], false⟩ = .ok between ∧
      between.shape.hasSoft = true ∧
      let machine := (between.shape.run renewedPut between.machine).2
      machine.layer.delegate.queue.registry.length = 4 ∧
        (between.shape.registered.run machine).1 = .ok (some 2) ∧
        ∃ keys : List Nat, keys.Nodup ∧ keys.length = 2 ∧
          ∀ key, key ∈ keys ↔ between.shape.Retrievable machine key := by
  have built : Blueprint.build ⟨"pages", [.lru 2, .soft 1, .lru 3], false⟩ = .ok between := rfl
  obtain ⟨⟨keys, nodup, retrievable, counted, registered⟩, -⟩ :=
    Blueprint.build_counts built rfl renewedPut
  have two : (between.shape.registered.run
      (between.shape.run renewedPut between.machine).2).1 = .ok (some 2) := by decide +kernel
  refine ⟨built, rfl, by decide +kernel, two, keys, nodup, ?_, retrievable⟩
  exact Option.some.inj (Except.ok.inj (registered.symm.trans two))

end LayeredCache
