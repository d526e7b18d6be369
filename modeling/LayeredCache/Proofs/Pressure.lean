/-
This file proves which entries memory pressure takes from a stack with a soft layer.

A value is kept by more than its own entry if it is pinned, if a caller holds it or if it is found
under another key too. A reclamation takes the values that nothing else keeps, those first whose
keys were put longest ago, and as many as it is allowed to. Which values these are is settled before
the sweep starts, since no value that the sweep takes keeps any other one: it is enough to filter
the registry once.
-/

import LayeredCache.Proofs.Aging

namespace LayeredCache

open LayeredCache.Action
open ReferenceQueue (isCurrent isReclaimable Coherent)

variable {K V σ : Type}

/-! ### What keeps a value alive -/

/-- Something besides its own entry keeps the value under the key alive: it is pinned, a caller
holds it, or it is found under another key too. -/
def Kept (finds : K → Shared V → Prop) (pinned held : List (Shared V)) (key : K)
    (value : Shared V) : Prop :=
  (∃ pin ∈ pinned, pin.address = value.address) ∨
    (∃ pointer ∈ held, pointer.address = value.address) ∨
    ∃ other found, other ≠ key ∧ finds other found ∧ found.address = value.address

theorem not_kept_iff {finds : K → Shared V → Prop} {pinned held : List (Shared V)} {key : K}
    {value : Shared V} :
    ¬ Kept finds pinned held key value ↔
      (∀ pointer ∈ held ++ pinned, pointer.address ≠ value.address) ∧
        ∀ other found, other ≠ key → finds other found → found.address ≠ value.address := by
  unfold Kept
  push Not
  rw [List.forall_mem_append]
  exact ⟨fun ⟨pinned, held, others⟩ => ⟨⟨held, pinned⟩, others⟩,
    fun ⟨⟨held, pinned⟩, others⟩ => ⟨pinned, held, others⟩⟩

/-- A value is shown under a key if a live reference to it is stored there. -/
theorem shown_eq_some {stored : K → Option (SoftReference K V)} {memory : Memory K V} {key : K}
    {value : Shared V} :
    shown stored memory key = some value ↔
      ∃ reference, stored key = some reference ∧ memory.isLive reference = true ∧
        reference.referent = value := by
  unfold shown Memory.resolve
  rw [Option.bind_eq_some_iff]
  refine exists_congr fun reference => and_congr_right fun _ => ?_
  split
  case isTrue live => rw [Option.some.injEq, live, eq_self, true_and]
  case isFalse dead => simp [dead]

/-! ### What a reclamation hides -/

section Hiding

variable {stored : K → Option (SoftReference K V)} {registry chosen : List (SoftReference K V)}
  {memory : Memory K V} {waiting : List K}

/-- Reclaiming values of stored references hides these values and nothing else. -/
theorem InStep.shown_reclaimEach [DecidableEq K] (inStep : InStep stored registry memory waiting)
    (among : ∀ reference ∈ chosen, reference ∈ registry ∧ stored reference.key = some reference) :
    shown stored (memory.reclaimEach chosen) = fun key =>
      if key ∈ chosen.map (·.key) then none else shown stored memory key := by
  funext key
  refine Option.ext fun value => ?_
  split
  case isTrue taken =>
    obtain ⟨reference, member, same⟩ := List.mem_map.mp taken
    rw [← same, shown, (among reference member).2, Option.bind_some, Memory.resolve]
    have dead : (memory.reclaimEach chosen).isLive reference ≠ true := fun live =>
      (Memory.isLive_reclaimEach.mp live).2 reference member rfl
    rw [if_neg dead]
  case isFalse spared =>
    rw [shown_eq_some, shown_eq_some]
    refine exists_congr fun reference => and_congr_right fun found => and_congr_left fun _ => ?_
    rw [Memory.isLive_reclaimEach]
    refine and_iff_left fun other member same => spared ?_
    obtain rfl := inStep.coherent key reference other found (among other member).1 same
    exact List.mem_map.mpr ⟨other, member, inStep.keyed key other found⟩

/-- Hiding values makes a list of what is shown shorter by as many keys. -/
theorem Enumerates.length_of_hidden {X : Type} [DecidableEq K] {before after taken : List K}
    {view : K → Option X} (all : Enumerates before view)
    (left : Enumerates after fun key => if key ∈ taken then none else view key)
    (distinct : taken.Nodup) (hidden : ∀ key ∈ taken, (view key).isSome = true) :
    before.length = after.length + taken.length := by
  have both : Enumerates (after ++ taken) view := by
    refine ⟨List.nodup_append.mpr ⟨left.nodup, distinct, ?_⟩, fun key => ?_⟩
    · rintro key listed _ member rfl
      have visible := (left.mem key).mp listed
      rw [if_pos member] at visible
      cases visible
    · rw [List.mem_append, left.mem]
      by_cases member : key ∈ taken
      · simp [member, hidden key member]
      · simp [member]
  rw [all.length_eq both, List.length_append]

end Hiding

/-! ### Loose references -/

variable [DecidableEq K]

namespace SoftLayer

/-- The registered references whose values nothing else keeps alive. -/
def loose (delegate : Cache K V σ (SoftReference K V)) (machine : Machine K V (SoftLayer K V σ)) :
    List (SoftReference K V) :=
  machine.layer.queue.registry.filter (isReclaimable machine.memory (alive delegate machine))

section Loose

variable {delegate : Cache K V σ (SoftReference K V)} {table : σ → Table K (SoftReference K V)}
  {machine : Machine K V (SoftLayer K V σ)}
  (reliable : delegate.Reliable Content.reference.handles table)
  (sound : Sound table machine.layer machine.memory)

include reliable

/-- The values that are alive while an operation runs are those that callers hold and those that
are pinned. -/
theorem values_alive :
    (alive delegate machine).values = machine.memory.values.items ++ machine.layer.ring := by
  show machine.memory.values.items ++
    ((delegate.handles machine.layer.delegate).values ++ machine.layer.ring) = _
  rw [reliable.handles_eq]
  rfl

include sound

theorem Sound.mem_references_alive {reference : SoftReference K V} :
    reference ∈ (alive delegate machine).references ↔
      ∃ key, (table machine.layer.delegate).find? key = some reference := by
  rw [sound.references_alive reliable, sound.distinct.mem_items]

theorem Sound.coherent : Coherent (alive delegate machine) machine.layer.queue.registry := by
  intro one among other member same
  obtain ⟨key, found⟩ := (sound.mem_references_alive reliable).mp among
  exact (sound.inStep.coherent key one other found member same.symm).symm

/-- Loose references are registered, and stored under their keys. -/
theorem Sound.stored_of_loose {reference : SoftReference K V}
    (member : reference ∈ loose delegate machine) :
    reference ∈ machine.layer.queue.registry ∧
      (table machine.layer.delegate).find? reference.key = some reference := by
  obtain ⟨registered, reclaimable⟩ := List.mem_filter.mp member
  have current := ReferenceQueue.isCurrent_of_isReclaimable _ reclaimable
  exact ⟨registered, (sound.inStep.stored_of_current (sound.holding reliable) registered current).1⟩

theorem Sound.nodup_loose : ((loose delegate machine).map (·.key)).Nodup := by
  refine (sound.inStep.enumerates (sound.holding reliable)).nodup.sublist (List.Sublist.map _ ?_)
  exact List.monotone_filter_right _ fun reference reclaimable =>
    ReferenceQueue.isCurrent_of_isReclaimable _ reclaimable

theorem Sound.loose_sublist {order : List K}
    (inOrder : InOrder table order machine.layer machine.memory) :
    ((loose delegate machine).map (·.key)).Sublist order := by
  refine inOrder _ List.filter_sublist fun reference member => ?_
  obtain ⟨registered, reclaimable⟩ := List.mem_filter.mp member
  exact sound.inStep.stored_of_current (sound.holding reliable) registered
    (ReferenceQueue.isCurrent_of_isReclaimable _ reclaimable)

/-- A stored and live reference can be reclaimed exactly if nothing else keeps its value. -/
theorem Sound.isReclaimable_iff {key : K} {reference : SoftReference K V}
    (found : (table machine.layer.delegate).find? key = some reference)
    (live : machine.memory.isLive reference = true) :
    isReclaimable machine.memory (alive delegate machine) reference = true ↔
      ¬ Kept (fun key value => shows table machine.layer machine.memory key = some value)
        machine.layer.ring machine.memory.values.items key reference.referent := by
  have held : (alive delegate machine).holds reference = true :=
    (sound.holding reliable reference).mpr ⟨key, reference, found, rfl⟩
  rw [ReferenceQueue.isReclaimable_iff, not_kept_iff, values_alive reliable]
  refine (and_iff_right held).trans ((and_iff_right live).trans (and_congr_right fun _ => ?_))
  constructor
  -- Stored references are told apart by their numbers, and stand under one key each.
  · intro alone other value different shown
    obtain ⟨another, again, alive, rfl⟩ := shown_eq_some.mp shown
    refine alone another ((sound.mem_references_alive reliable).mpr ⟨other, again⟩) ?_ alive
    exact fun same => different (sound.inStep.numbered other key another reference again found same)
  · intro alone another among apart alive
    obtain ⟨other, again⟩ := (sound.mem_references_alive reliable).mp among
    refine alone other another.referent ?_ (shown_eq_some.mpr ⟨another, again, alive, rfl⟩)
    rintro rfl
    rw [found, Option.some.injEq] at again
    exact apart (congrArg SoftReference.number again.symm)

/-- The keys of the loose references are those whose value nothing else keeps. -/
theorem Sound.mem_loose (key : K) :
    key ∈ (loose delegate machine).map (·.key) ↔
      ∃ value, shows table machine.layer machine.memory key = some value ∧
        ¬ Kept (fun key value => shows table machine.layer machine.memory key = some value)
          machine.layer.ring machine.memory.values.items key value := by
  rw [List.mem_map]
  constructor
  · rintro ⟨reference, member, rfl⟩
    obtain ⟨registered, reclaimable⟩ := List.mem_filter.mp member
    have current := ReferenceQueue.isCurrent_of_isReclaimable _ reclaimable
    obtain ⟨found, live⟩ :=
      sound.inStep.stored_of_current (sound.holding reliable) registered current
    refine ⟨reference.referent, shown_eq_some.mpr ⟨reference, found, live, rfl⟩, ?_⟩
    exact (sound.isReclaimable_iff reliable found live).mp reclaimable
  · rintro ⟨value, shown, alone⟩
    obtain ⟨reference, found, live, rfl⟩ := shown_eq_some.mp shown
    refine ⟨reference, List.mem_filter.mpr ?_, sound.inStep.keyed key reference found⟩
    exact ⟨sound.inStep.enrolled key reference found live,
      (sound.isReclaimable_iff reliable found live).mpr alone⟩

/-! ### Reclaiming -/

/-- A sweep reclaims the loose values that come first. -/
theorem Sound.reclaimed_sweep (limit : Nat) :
    (ReferenceQueue.sweep (alive delegate machine) limit machine.memory
      machine.layer.queue.registry).reclaimed = (loose delegate machine).take limit :=
  ReferenceQueue.reclaimed_sweep (sound.coherent reliable) sound.inStep.unique

/-- A reclamation takes the loose values that come first, as many as it is allowed to. -/
theorem reclaim_takes (limit : Nat) :
    (reclaim delegate limit).Ends machine
      (fun number later => number = ((loose delegate machine).take limit).length ∧
        shows table later.layer later.memory = (fun key =>
          if key ∈ ((loose delegate machine).take limit).map (·.key) then none
          else shows table machine.layer machine.memory key) ∧
        later.layer.ring = machine.layer.ring)
      fun _ _ => False := by
  have chosen := sound.reclaimed_sweep reliable limit
  simp only [reclaim, ends_bind, ends_withQueue, ends_layer, ends_report, ends_pure]
  refine ⟨congrArg List.length chosen, ?_, trivial⟩
  show shown _ (ReferenceQueue.sweep _ limit machine.memory _).memory = _
  rw [ReferenceQueue.memory_sweep, chosen]
  exact sound.inStep.shown_reclaimEach fun reference member =>
    sound.stored_of_loose reliable (List.mem_of_mem_take member)

/-- It notifies their keys, and leaves the delegate alone. -/
theorem reclaim_notifies (limit : Nat) :
    (reclaim delegate limit).Ends machine
      (fun _ later => later.layer.queue.pending =
          machine.layer.queue.pending ++ ((loose delegate machine).take limit).map (·.key) ∧
        later.layer.delegate = machine.layer.delegate)
      fun _ _ => False := by
  simp only [reclaim, ends_bind, ends_withQueue, ends_layer, ends_report, ends_pure]
  rw [← sound.reclaimed_sweep reliable limit]
  exact ⟨rfl, trivial⟩

end Loose

end SoftLayer

/-! ### Stacks -/

namespace Shape

/-- The values that are pinned. -/
def ring : {content : Content} → (shape : Shape content) → shape.State K V → List (Shared V)
  | _, .store, _ => []
  | _, .lru delegate, layer => delegate.ring layer.delegate
  | _, .probe delegate, layer => delegate.ring layer.delegate
  | _, .soft _, layer => layer.ring

/-- The values under the keys were taken away, and neither what is shown under other keys nor what
is pinned has changed. -/
structure Took (shape : Shape .value) (machine later : Machine K V (shape.State K V))
    (taken : List K) : Prop where
  shows : shape.shows later.layer later.memory = fun key =>
    if key ∈ taken then none else shape.shows machine.layer machine.memory key
  ring : shape.ring later.layer = shape.ring machine.layer

/-- The keys, in the order in which a reclamation takes them, are those whose values nothing else
keeps alive. -/
structure Yields (shape : Shape .value) (machine : Machine K V (shape.State K V))
    (loose : List K) : Prop where
  nodup : loose.Nodup
  mem : ∀ key, key ∈ loose ↔
    ∃ value, shape.shows machine.layer machine.memory key = some value ∧
      ¬ Kept (fun key value => shape.shows machine.layer machine.memory key = some value)
        (shape.ring machine.layer) machine.memory.values.items key value
  reclaim : ∀ limit, (shape.reclaim limit).Ends machine
    (fun answer later => answer = some (loose.take limit).length ∧
      shape.Took machine later (loose.take limit))
    fun _ _ => False
  reclaimAll : shape.reclaimAll.Ends machine
    (fun answer later => answer = some loose.length ∧ shape.Took machine later loose)
    fun _ _ => False

theorem yields_soft {delegate : Shape .reference} (plain : delegate.Plain)
    {machine : Machine K V ((Shape.soft delegate).State K V)}
    (sound : SoftLayer.Sound delegate.table machine.layer machine.memory) :
    (Shape.soft delegate).Yields machine
      ((SoftLayer.loose delegate.cache machine).map (·.key)) := by
  have reliable := reliable (K := K) (V := V) plain (hasSoft_reference delegate)
  have reclaim : ∀ limit, ((Shape.soft delegate).reclaim limit).Ends machine
      (fun answer later =>
        answer = some (((SoftLayer.loose delegate.cache machine).map (·.key)).take limit).length ∧
        (Shape.soft delegate).Took machine later
          (((SoftLayer.loose delegate.cache machine).map (·.key)).take limit))
      fun _ _ => False := by
    intro limit
    rw [Shape.reclaim, visitSoft, ends_map, ← List.map_take]
    refine (SoftLayer.reclaim_takes reliable sound limit).imp (fun _ _ next => ?_) fun _ _ no => no
    exact ⟨congrArg some (next.1.trans (List.length_map _).symm), next.2.1, next.2.2⟩
  refine ⟨sound.nodup_loose reliable, sound.mem_loose reliable, reclaim, ?_⟩
  have whole := reclaim machine.layer.queue.registry.length
  rw [List.take_of_length_le] at whole
  · exact whole
  · rw [List.length_map]
    exact List.length_filter_le _ _

/-- What a reclamation takes is settled before it starts, and is taken in the order of the last
puts. -/
theorem yields {order : List K} : (shape : Shape .value) → shape.Plain → shape.hasSoft = true →
    (machine : Machine K V (shape.State K V)) → shape.Sound machine.layer machine.memory →
    shape.InOrder order machine.layer machine.memory →
    ∃ loose : List K, loose.Sublist order ∧ shape.Yields machine loose
  | .store, _, missing, _, _, _ => nomatch missing
  | .lru delegate, plain, below, machine, sound, inOrder => by
    obtain ⟨loose, sublist, yields⟩ := delegate.yields plain below
      ⟨machine.layer.delegate, machine.memory, machine.trace⟩ sound inOrder
    refine ⟨loose, sublist, yields.nodup, yields.mem, fun limit => ?_, ?_⟩
    · rw [Shape.reclaim, visitSoft, LruLayer.below, ends_within]
      exact (yields.reclaim limit).imp (fun _ _ next => ⟨next.1, next.2.shows, next.2.ring⟩)
        fun _ _ no => no
    · rw [Shape.reclaimAll, visitSoft, LruLayer.below, ends_within]
      exact yields.reclaimAll.imp (fun _ _ next => ⟨next.1, next.2.shows, next.2.ring⟩)
        fun _ _ no => no
  | .probe _, plain, _, _, _, _ => plain.elim
  | .soft delegate, plain, _, machine, sound, inOrder => by
    have plain : delegate.Plain := plain
    have sound : SoftLayer.Sound delegate.table machine.layer machine.memory := sound
    have sublist := sound.loose_sublist (reliable plain (hasSoft_reference delegate)) inOrder
    exact ⟨_, sublist, yields_soft plain sound⟩

/-! ### What callers see -/

/-- A look-up of the key would find the value. -/
def Finds (shape : Shape .value) (machine : Machine K V (shape.State K V)) (key : K)
    (value : Shared V) : Prop :=
  shape.lookUp machine key = .ok (.reply (.item (some value)))

/-- Something besides its own entry keeps the value alive that is found under the key. -/
def Keeps (shape : Shape .value) (machine : Machine K V (shape.State K V)) (key : K)
    (value : Shared V) : Prop :=
  Kept (shape.Finds machine) (shape.ring machine.layer) machine.memory.values.items key value

section Seen

variable {shape : Shape .value} (plain : shape.Plain) (soft : shape.hasSoft = true)
  {machine later : Machine K V (shape.State K V)}
  (sound : shape.Sound machine.layer machine.memory)

include plain soft sound

theorem finds_iff {key : K} {value : Shared V} :
    shape.Finds machine key value ↔
      shape.shows machine.layer machine.memory key = some value := by
  unfold Finds
  rw [lookUp_eq plain soft sound]
  exact ⟨fun same => Reply.item.inj (Outcome.reply.inj (Except.ok.inj same)),
    fun same => by rw [same]⟩

theorem keeps_iff {key : K} {value : Shared V} :
    shape.Keeps machine key value ↔
      Kept (fun key value => shape.shows machine.layer machine.memory key = some value)
        (shape.ring machine.layer) machine.memory.values.items key value := by
  have same : shape.Finds machine =
      fun key value => shape.shows machine.layer machine.memory key = some value :=
    funext fun _ => funext fun _ => propext (finds_iff plain soft sound)
  unfold Keeps
  rw [same]

/-- The keys that a reclamation takes, in the words of look-ups. -/
theorem Yields.mem_iff {loose : List K} (yields : shape.Yields machine loose) (key : K) :
    key ∈ loose ↔ ∃ value, shape.Finds machine key value ∧ ¬ shape.Keeps machine key value := by
  rw [yields.mem]
  refine exists_congr fun value => ?_
  rw [finds_iff plain soft sound, keeps_iff plain soft sound]

variable {taken : List K}

/-- A reclamation as a deed. -/
theorem perform_took (deed : Deed K V) {action : Action K V (shape.State K V) (Option Nat)}
    (same : shape.perform deed = .reclaimed <$> action)
    (takes : action.Ends machine
      (fun answer later => answer = some taken.length ∧ shape.Took machine later taken)
      fun _ _ => False) :
    ∃ later,
      (shape.perform deed).run machine = (.ok (.reclaimed (some taken.length)), later) ∧
        shape.Sound later.layer later.memory ∧ shape.Took machine later taken := by
  have ends : (shape.perform deed).Ends machine
      (fun outcome later => outcome = .reclaimed (some taken.length) ∧
        shape.Took machine later taken)
      fun _ _ => False := by
    rw [same, ends_map]
    exact takes.imp (fun _ _ next => ⟨congrArg Outcome.reclaimed next.1, next.2⟩) fun _ _ no => no
  obtain ⟨_, later, run, after, rfl, took⟩ :=
    (((sound_perform plain soft sound deed).and ends).imp (fun _ _ next => next)
      fun _ _ no => no.1).run_eq
  exact ⟨later, run, after, took⟩

variable (took : shape.Took machine later taken) (after : shape.Sound later.layer later.memory)

include took after

theorem Took.lookUp (key : K) :
    shape.lookUp later key =
      if key ∈ taken then .ok (.reply (.item none)) else shape.lookUp machine key := by
  rw [lookUp_eq plain soft after, lookUp_eq plain soft sound, took.shows]
  by_cases member : key ∈ taken
  · simp only [if_pos member]
  · simp only [if_neg member]

/-- Once all was taken that could be, values are found where something else keeps them. -/
theorem Took.finds (yields : shape.Yields machine taken) (key : K) (value : Shared V) :
    shape.Finds later key value ↔
      shape.Finds machine key value ∧ shape.Keeps machine key value := by
  have member := yields.mem_iff plain soft sound key
  rw [Finds, took.lookUp plain soft sound after]
  split
  case isTrue taken =>
    obtain ⟨other, found, alone⟩ := member.mp taken
    refine iff_of_false nofun fun ⟨again, kept⟩ => alone ?_
    have same := (finds_iff plain soft sound).mp found
    rw [(finds_iff plain soft sound).mp again] at same
    rwa [← Option.some.inj same]
  case isFalse spared =>
    refine (and_iff_left_of_imp fun found => ?_).symm
    by_contra alone
    exact spared (member.mpr ⟨value, found, alone⟩)

/-- A count answers as many less as values were taken. -/
theorem Took.length (distinct : taken.Nodup)
    (shown : ∀ key ∈ taken, (shape.shows machine.layer machine.memory key).isSome = true) :
    ∃ number, ((shape.perform (.call .length)).run machine).1 =
        .ok (.reply (.count (number + taken.length))) ∧
      ((shape.perform (.call .length)).run later).1 = .ok (.reply (.count number)) := by
  obtain ⟨_, _, counted, -, before, all, rfl⟩ := (perform_length plain soft sound).run_eq
  obtain ⟨_, _, recounted, -, rest, left, rfl⟩ := (perform_length plain soft after).run_eq
  rw [took.shows] at left
  refine ⟨rest.length, ?_, congrArg Prod.fst recounted⟩
  rw [← all.length_of_hidden left distinct shown]
  exact congrArg Prod.fst counted

end Seen

end Shape

/-! ### Built stacks -/

/-- A built stack has registered nothing yet. -/
theorem Blueprint.inOrder_of_build {blueprint : Blueprint} {stack : Stack K V .value}
    (built : blueprint.build = .ok stack) :
    stack.shape.InOrder [] stack.machine.layer stack.machine.memory := by
  have handed : Handed fun {content : Content} (_ : List Policy) (stack : Stack K V content) =>
      stack.shape.InOrder [] stack.state {} :=
    ⟨fun _ _ => trivial, fun _ _ _ _ holds => holds, fun _ _ _ _ _ => InOrder.empty _ _⟩
  obtain ⟨other, same, inOrder⟩ := build_of_accepted handed (accepted_of_build built)
  obtain rfl : stack = other := Except.ok.inj (built.symm.trans same)
  exact inOrder

/-- However a built stack with a soft layer has been used, memory pressure takes exactly the values
that nothing but their own entries keep alive, in the order of the last puts of their keys. A
reclamation with a limit takes the first of them, as many as the limit allows for, and answers their
number; afterwards a look-up finds nothing under their keys and answers under all other keys as
before, the same values are pinned, and a count answers so many less. A reclamation without a limit
takes all of them, so that values are found exactly where something else keeps them alive. -/
theorem Blueprint.build_reclaims {blueprint : Blueprint} {stack : Stack K V .value}
    (built : blueprint.build = .ok stack) (soft : stack.shape.hasSoft = true)
    (deeds : List (Deed K V)) :
    let machine := (stack.shape.run deeds stack.machine).2
    ∃ loose : List K, loose.Sublist (lastPuts deeds) ∧ loose.Nodup ∧
      (∀ key, key ∈ loose ↔
        ∃ value, stack.shape.Finds machine key value ∧ ¬ stack.shape.Keeps machine key value) ∧
      (∀ limit, ∃ later number,
        (stack.shape.perform (.reclaim limit)).run machine =
          (.ok (.reclaimed (some (min limit loose.length))), later) ∧
        (∀ key ∈ loose.take limit, stack.shape.lookUp later key = .ok (.reply (.item none))) ∧
        (∀ key, key ∉ loose.take limit →
          stack.shape.lookUp later key = stack.shape.lookUp machine key) ∧
        stack.shape.ring later.layer = stack.shape.ring machine.layer ∧
        ((stack.shape.perform (.call .length)).run machine).1 =
          .ok (.reply (.count (number + min limit loose.length))) ∧
        ((stack.shape.perform (.call .length)).run later).1 = .ok (.reply (.count number))) ∧
      ∃ later,
        (stack.shape.perform .reclaimAll).run machine =
          (.ok (.reclaimed (some loose.length)), later) ∧
        ∀ key value, stack.shape.Finds later key value ↔
          stack.shape.Finds machine key value ∧ stack.shape.Keeps machine key value := by
  intro machine
  obtain ⟨plain, start⟩ := sound_of_build built
  obtain ⟨sound, inOrder⟩ := Shape.aged_run plain soft deeds start (inOrder_of_build built)
  obtain ⟨loose, sublist, yields⟩ := Shape.yields stack.shape plain soft machine sound inOrder
  have shown : ∀ key ∈ loose,
      (stack.shape.shows machine.layer machine.memory key).isSome = true := by
    intro key member
    obtain ⟨value, found, -⟩ := (yields.mem key).mp member
    rw [found]
    rfl
  refine ⟨loose, sublist, yields.nodup, yields.mem_iff plain soft sound, fun limit => ?_, ?_⟩
  · obtain ⟨later, run, after, took⟩ :=
      Shape.perform_took plain soft sound (.reclaim limit) rfl (yields.reclaim limit)
    obtain ⟨number, before, counted⟩ := took.length plain soft sound after
      (yields.nodup.sublist (List.take_sublist _ _))
      fun key member => shown key (List.mem_of_mem_take member)
    rw [List.length_take] at run before
    refine ⟨later, number, run, fun key member => ?_, fun key spared => ?_, took.ring, before,
      counted⟩
    · rw [took.lookUp plain soft sound after, if_pos member]
    · rw [took.lookUp plain soft sound after, if_neg spared]
  · obtain ⟨later, run, after, took⟩ :=
      Shape.perform_took plain soft sound .reclaimAll rfl yields.reclaimAll
    exact ⟨later, run, took.finds plain soft sound after yields⟩

/-- A recency layer on a soft layer. -/
def crowded : Stack Nat String .value :=
  ⟨.lru (.soft .store),
    { capacity := 4, delegate := { window := 1, delegate := { id := "pages" } } }⟩

/-- The first key is put twice, one value is pinned and one is held. -/
def crowdedPuts : List (Deed Nat String) :=
  [.call (.put 1 ⟨0, "one"⟩), .call (.put 2 ⟨1, "two"⟩), .call (.put 3 ⟨2, "three"⟩),
    .call (.put 4 ⟨3, "four"⟩), .call (.put 1 ⟨4, "first"⟩), .call (.get 3),
    .hold "page" ⟨3, "four"⟩]

/-- Two values can be taken, and the one under the second key goes first. -/
theorem build_reclaims_crowded :
    Blueprint.build ⟨"pages", [.soft 1, .lru 4], false⟩ = .ok crowded ∧
      crowded.shape.hasSoft = true ∧ lastPuts crowdedPuts = [2, 3, 4, 1] ∧
      let machine := (crowded.shape.run crowdedPuts crowded.machine).2
      ∃ loose : List Nat, loose.Sublist [2, 3, 4, 1] ∧ loose.length = 2 ∧ 2 ∈ loose.take 1 ∧
        ∀ key, key ∈ loose ↔ ∃ value,
          crowded.shape.Finds machine key value ∧ ¬ crowded.shape.Keeps machine key value := by
  have built : Blueprint.build ⟨"pages", [.soft 1, .lru 4], false⟩ = .ok crowded := rfl
  obtain ⟨loose, sublist, -, mem, reclaim, later, all, -⟩ :=
    Blueprint.build_reclaims built rfl crowdedPuts
  refine ⟨built, rfl, rfl, loose, sublist, ?_, ?_, mem⟩
  · have two : ((crowded.shape.perform .reclaimAll).run
        (crowded.shape.run crowdedPuts crowded.machine).2).1 = .ok (.reclaimed (some 2)) := by
      decide +kernel
    rw [all] at two
    exact Option.some.inj (Outcome.reclaimed.inj (Except.ok.inj two))
  · obtain ⟨later, _, run, -, spared, -⟩ := reclaim 1
    by_contra missing
    have same := spared 2 missing
    have gone : crowded.shape.lookUp ((crowded.shape.perform (.reclaim 1)).run
        (crowded.shape.run crowdedPuts crowded.machine).2).2 2 = .ok (.reply (.item none)) := by
      decide +kernel
    have there : crowded.shape.lookUp (crowded.shape.run crowdedPuts crowded.machine).2 2 =
        .ok (.reply (.item (some ⟨1, "two"⟩))) := by
      decide +kernel
    rw [run] at gone
    rw [same, there] at gone
    cases gone

end LayeredCache
