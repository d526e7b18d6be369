/-
This file says what each operation of a soft layer does to the values that the layer can return, on
a delegate that never fails.

Drains and look-ups take away nothing that could be returned, since the entries they erase have lost
their values. So a put shows the new value and otherwise what was shown before, except for a victim
of the delegate, and a removal hides its key and nothing else.
-/

import LayeredCache.Proofs.Counting
import LayeredCache.Proofs.Upkeep

namespace LayeredCache

open LayeredCache.Action

variable {K V σ : Type} [DecidableEq K]

/-! ### Views -/

section Views

variable {stored : K → Option (SoftReference K V)} {memory : Memory K V}

theorem shown_without (victim : Option K) :
    shown (without victim stored) memory = without victim (shown stored memory) := by
  funext key
  unfold shown without
  split <;> rfl

omit [DecidableEq K] in
/-- Which numbers were reclaimed is all that matters of the memory. -/
theorem resolve_congr {later : Memory K V} (same : later.reclaimed = memory.reclaimed) :
    later.resolve = memory.resolve := by
  funext reference
  unfold Memory.resolve Memory.isLive
  rw [same]

/-- What is shown once a new reference is stored. -/
theorem InStep.shown_register {registry : List (SoftReference K V)} {waiting : List K}
    (inStep : InStep stored registry memory waiting) (queue : ReferenceQueue K V)
    (handles : Handles K V) (key : K) (value : Shared V) :
    shown (placed stored key (queue.register memory handles key value).1)
        (queue.register memory handles key value).2.2 =
      placed (shown stored memory) key value := by
  obtain ⟨referent, -, reclaimed⟩ := SoftLayer.register_keeps queue memory handles key value
  have resolve := resolve_congr reclaimed
  have fresh : memory.isLive (queue.register memory handles key value).1 = true :=
    Memory.isLive_iff.mpr fun reclaimed => Nat.lt_irrefl _ (inStep.past _ reclaimed)
  funext other
  unfold shown placed
  split
  case isTrue => rw [Option.bind_some, resolve, Memory.resolve, if_pos fresh, referent]
  case isFalse => rw [resolve]

end Views

/-! ### Operations -/

namespace SoftLayer

variable {delegate : Cache K V σ (SoftReference K V)} {table : σ → Table K (SoftReference K V)}
  (reliable : delegate.Reliable Content.reference.handles table)
  {machine : Machine K V (SoftLayer K V σ)} (sound : Sound table machine.layer machine.memory)

include reliable sound

/-- A put shows the new value, and takes away what the delegate evicts. -/
theorem put_shows (key : K) (value : Shared V) {kept : σ → Prop} {evicts : Option K → σ → Prop}
    (drained : (drain delegate).Ends machine (fun _ later => kept later.layer.delegate)
      fun _ _ => False)
    (put : ∀ layer memory item, kept layer →
      (delegate.put key item).Leaves layer memory
        (fun _ later _ => ∃ victim, evicts victim later ∧
          (table later).find? = without victim (placed (table layer).find? key item))
        fun _ _ => False) :
    (SoftLayer.put delegate key value).Ends machine
      (fun _ later => Sound table later.layer later.memory ∧ later.layer.queue.pending = [] ∧
        ∃ victim, evicts victim later.layer.delegate ∧
          shows table later.layer later.memory =
            without victim (placed (shows table machine.layer machine.memory) key value))
      fun _ _ => False := by
  have placed : (SoftLayer.put delegate key value).Ends machine
      (fun _ later => later.layer.queue.pending = [] ∧
        ∃ victim, evicts victim later.layer.delegate ∧
          shows table later.layer later.memory =
            without victim (placed (shows table machine.layer machine.memory) key value))
      fun _ _ => False := by
    simp only [SoftLayer.put, below, ends_bind, ends_withQueue, ends_within]
    refine ((drain_drained reliable sound).and drained).imp (fun _ middle next => ?_)
      fun _ _ no => no.1
    obtain ⟨⟨sound, idle, same⟩, kept⟩ := next
    obtain ⟨-, pending, -⟩ :=
      register_keeps middle.layer.queue middle.memory (alive delegate middle) key value
    refine ((reliable.put _ _ key _ sound.distinct _).and (put _ _ _ kept _)).imp
      (fun _ later next => ?_) fun _ _ no => no.1
    obtain ⟨⟨memory, -, -⟩, victim, evicted, entries⟩ := next
    refine ⟨pending.trans idle, victim, evicted, ?_⟩
    show shown (table later.layer).find? later.memory = _
    rw [memory, entries, shown_without, sound.inStep.shown_register, ← same]
    rfl
  exact ((put_sound reliable key value sound).and placed).imp (fun _ _ next => next)
    fun _ _ no => no.1

/-- A look-up answers what is shown, and changes nothing of it. -/
theorem get_shows (key : K) :
    (get delegate key).Ends machine
      (fun found later => Sound table later.layer later.memory ∧
        later.layer.queue = machine.layer.queue ∧
        found = shows table machine.layer machine.memory key ∧
        shows table later.layer later.memory = shows table machine.layer machine.memory)
      fun _ _ => False := by
  have unchanged : (get delegate key).Ends machine
      (fun _ later => later.layer.queue = machine.layer.queue ∧
        shows table later.layer later.memory = shows table machine.layer machine.memory)
      fun _ _ => False := by
    simp only [get, below, ends_bind, ends_within]
    refine (reliable.get _ _ key).ends (fun found later next => ?_) fun _ _ no => no
    obtain ⟨same, entries, answer⟩ := next
    have same : later.memory = machine.memory := same
    have entries : table later.layer = table machine.layer.delegate := entries
    have answer : found = (table machine.layer.delegate).find? key := answer
    have kept : shown (table later.layer).find? later.memory =
        shows table machine.layer machine.memory := by rw [same, entries, shows]
    cases found with
    | none =>
      simp only [ends_bind, count, ends_modifyLayer, ends_pure, around]
      exact ⟨trivial, kept⟩
    | some reference =>
      simp only [ends_bind, ends_memory, around, count]
      split
      case h_1 value resolved =>
        rw [ends_bind]
        exact ends_pin fun ring counters trace => ⟨rfl, kept⟩
      case h_2 gone =>
        simp only [ends_bind, name, ends_layer, ends_pure, ends_report, ends_within]
        refine (reliable.remove _ _ key).ends (fun _ last next => ?_) fun _ _ no => no
        obtain ⟨again, erased⟩ := next
        have again : last.memory = machine.memory := Eq.trans again same
        have erased : table last.layer = (table machine.layer.delegate).erase key :=
          Eq.trans erased (congrArg (Table.erase · key) entries)
        refine ⟨rfl, ?_⟩
        show shown (table last.layer).find? last.memory = _
        rw [again, erased, shown_erase]
        · rfl
        · rw [shown, ← answer, Option.bind_some, ← same, gone]
  exact ((get_sound reliable key sound).and unchanged).imp
    (fun _ _ next => ⟨next.1.1, next.2.1, next.1.2, next.2.2⟩) fun _ _ no => no.1

/-- A removal hides its key and nothing else. -/
theorem remove_shows (key : K) :
    (remove delegate key).Ends machine
      (fun _ later => Sound table later.layer later.memory ∧ later.layer.queue.pending = [] ∧
        shows table later.layer later.memory =
          without (some key) (shows table machine.layer machine.memory))
      fun _ _ => False := by
  have hidden : (remove delegate key).Ends machine
      (fun _ later => later.layer.queue.pending = [] ∧
        shows table later.layer later.memory =
          without (some key) (shows table machine.layer machine.memory))
      fun _ _ => False := by
    simp only [remove, below, ends_bind, ends_within]
    refine (drain_drained reliable sound).imp (fun _ drained next => ?_) fun _ _ no => no
    refine (reliable.remove _ _ key).ends (fun found later removed => ?_) fun _ _ no => no
    obtain ⟨same, erased⟩ := removed
    have same : later.memory = drained.memory := same
    have erased : table later.layer = (table drained.layer.delegate).erase key := erased
    have shown : shown (table later.layer).find? later.memory =
        without (some key) (shows table machine.layer machine.memory) := by
      rw [same, erased, Table.find?_erase_eq, shown_without, ← next.same]
      rfl
    cases found with
    | none => exact ⟨next.idle, shown⟩
    | some reference => exact ⟨next.idle, shown⟩
  exact ((remove_sound reliable key sound).and hidden).imp (fun _ _ next => next)
    fun _ _ no => no.1

/-- After a clear nothing is shown. -/
theorem clear_shows :
    (clear delegate).Ends machine
      (fun _ later => Sound table later.layer later.memory ∧ later.layer.queue.pending = [] ∧
        shows table later.layer later.memory = fun _ => none)
      fun _ _ => False := by
  have hidden : (clear delegate).Ends machine
      (fun _ later => later.layer.queue.pending = [] ∧
        shows table later.layer later.memory = fun _ => none)
      fun _ _ => False := by
    simp only [clear, below, ends_bind, ends_modifyLayer, ends_within]
    let unpinned : Machine K V (SoftLayer K V σ) :=
      { machine with layer := { machine.layer with ring := [] } }
    have sound : Sound table unpinned.layer unpinned.memory := sound.same rfl rfl
    refine (drain_drained reliable sound).imp (fun _ drained next => ?_) fun _ _ no => no
    refine (reliable.clear _ _).ends (fun _ later cleared => ?_) fun _ _ no => no
    have empty : table later.layer = Table.empty := cleared.2
    refine ⟨next.idle, ?_⟩
    show shown (table later.layer).find? later.memory = _
    rw [empty]
    rfl
  exact ((clear_sound reliable sound).and hidden).imp (fun _ _ next => next) fun _ _ no => no.1

/-- A count changes nothing of what is shown. -/
theorem length_shows :
    (length delegate).Ends machine
      (fun _ later => Sound table later.layer later.memory ∧ later.layer.queue.pending = [] ∧
        shows table later.layer later.memory = shows table machine.layer machine.memory)
      fun _ _ => False := by
  have unchanged : (length delegate).Ends machine
      (fun _ later => later.layer.queue.pending = [] ∧
        shows table later.layer later.memory = shows table machine.layer machine.memory)
      fun _ _ => False := by
    simp only [length, below, ends_bind, ends_within]
    refine (drain_drained reliable sound).imp (fun _ drained next => ?_) fun _ _ no => no
    refine (reliable.length _ _).ends (fun _ later counted => ?_) fun _ _ no => no
    obtain ⟨same, entries, -⟩ := counted
    have same : later.memory = drained.memory := same
    have entries : table later.layer = table drained.layer.delegate := entries
    refine ⟨next.idle, ?_⟩
    show shown (table later.layer).find? later.memory = _
    rw [same, entries, ← next.same]
    rfl
  exact ((length_sound reliable sound).and unchanged).imp (fun _ _ next => ⟨next.1.1, next.2⟩)
    fun _ _ no => no.1

end SoftLayer

end LayeredCache
