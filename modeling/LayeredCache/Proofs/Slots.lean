/-
This file proves that purged keys free their slots in a recency layer below a soft layer.

A drain looks every notified key up in the recency layer, which moves it to the front, and then
removes it, so the other keys keep their order. No key with a value is ever notified, because every
put drains first. So a drain leaves exactly the keys with a value, in the order of their last uses,
and a put has a victim only if these keys are too many.
-/

import LayeredCache.Proofs.Owing
import LayeredCache.Proofs.Pressure
import LayeredCache.Proofs.Shows

namespace LayeredCache

open LayeredCache.Action

variable {K V σ X : Type} [DecidableEq K]

/-! ### Last uses -/

/-- The order of the last uses after one more occurrence. -/
def Occurrence.uses (order : List K) : Occurrence K V → List K
  | ⟨.call (.put key _), .ok _⟩ => key :: order.erase key
  | ⟨.call (.get key), .ok (.reply (.item (some _)))⟩ => key :: order.erase key
  | _ => order

/-- The keys that were put or found, each once, in the order of their last uses, latest first. -/
def lastUses (past : List (Occurrence K V)) : List K := past.foldl Occurrence.uses []

theorem lastUses_concat (past : List (Occurrence K V)) (occurrence : Occurrence K V) :
    lastUses (past ++ [occurrence]) = occurrence.uses (lastUses past) := by
  rw [lastUses, List.foldl_append]
  rfl

/-- The call drains the notifications. -/
def Call.drains : Call K X → Bool
  | .get _ => false
  | .put _ _ | .remove _ | .clear | .length | .isEmpty => true

/-! ### Visible keys -/

/-- The keys under which something is shown. -/
def visible (view : K → Option X) (keys : List K) : List K :=
  keys.filter fun key => (view key).isSome

section Visible

variable {view later : K → Option X} {keys : List K} {key : K}

omit [DecidableEq K] in
theorem mem_visible : key ∈ visible view keys ↔ key ∈ keys ∧ (view key).isSome = true :=
  List.mem_filter

omit [DecidableEq K] in
theorem visible_eq_self (all : ∀ key ∈ keys, (view key).isSome = true) : visible view keys = keys :=
  List.filter_eq_self.mpr all

omit [DecidableEq K] in
theorem visible_sublist (less : ∀ key, (later key).isSome = true → (view key).isSome = true) :
    (visible later keys).Sublist (visible view keys) :=
  List.monotone_filter_right keys less

theorem visible_erase (nodup : keys.Nodup) (key : K) :
    visible view (keys.erase key) = (visible view keys).erase key := by
  unfold visible
  rw [Recent.Tracking.erase_eq_filter nodup, Recent.Tracking.erase_eq_filter (nodup.filter _),
    List.filter_filter, List.filter_filter]
  exact List.filter_congr fun other _ => Bool.and_comm _ _

/-- A key without a value leaves the visible keys alone, wherever it goes. -/
theorem visible_erase_hidden (nodup : keys.Nodup) (hidden : view key = none) :
    visible view (keys.erase key) = visible view keys := by
  rw [visible_erase nodup, List.erase_of_not_mem]
  rintro member
  have shown := (mem_visible.mp member).2
  rw [hidden] at shown
  cases shown

theorem visible_use (nodup : keys.Nodup) (shown : (view key).isSome = true) :
    visible view (key :: keys.erase key) = key :: (visible view keys).erase key := by
  rw [← visible_erase nodup]
  exact List.filter_cons_of_pos shown

end Visible

/-! ### A recency layer on a store -/

namespace LruLayer

/-- Nothing is owed, and the layer tracks the keys, which are those that the store has. -/
structure Slots (capacity : Nat) (keys : List K) (layer : LruLayer K (Store K X)) : Prop where
  steady : Steady capacity keys layer
  matched : Matched keys layer.delegate.table

namespace Slots

variable {handles : List X → Handles K V} {capacity : Nat} {keys : List K} {key : K}
  {layer : LruLayer K (Store K X)} {memory : Memory K V}

theorem nodup (slots : Slots capacity keys layer) : keys.Nodup := slots.matched.nodup

theorem tracked (slots : Slots capacity keys layer) {item : X}
    (found : layer.delegate.table.find? key = some item) : key ∈ keys :=
  (slots.matched.same key).mpr (Table.mem_keys.mpr ⟨item, found⟩)

theorem untracked (slots : Slots capacity keys layer)
    (missing : layer.delegate.table.find? key = none) : key ∉ keys := fun member =>
  Table.find?_eq_none.mp missing ((slots.matched.same key).mp member)

/-- A look-up makes the key the first one if it is tracked. -/
theorem get (slots : Slots capacity keys layer) (key : K) :
    ((LruLayer.cache (Store.cache handles)).get key).Leaves layer memory
      (fun found later after => after = memory ∧ later.delegate.table = layer.delegate.table ∧
        found = layer.delegate.table.find? key ∧
        Slots capacity (if key ∈ keys then key :: keys.erase key else keys) later)
      fun _ _ => False := by
  have below : ((Store.cache handles).get key).Leaves layer.delegate memory
      (fun found later after => after = memory ∧ later.table = layer.delegate.table ∧
        found = layer.delegate.table.find? key)
      fun _ _ => False := fun _ => ⟨rfl, rfl, rfl⟩
  refine (get_steady slots.steady below).imp (fun found later after next => ?_) fun _ _ no => no
  obtain ⟨steady, same, table, answer⟩ := next
  refine ⟨same, table, answer, steady, ?_⟩
  have permuted := RecencyOrder.touched_perm keys key
  exact table ▸ ⟨permuted.nodup_iff.mpr slots.nodup, slots.matched.distinct,
    fun other => permuted.mem_iff.trans (slots.matched.same other)⟩

theorem remove (slots : Slots capacity keys layer) (key : K) :
    ((LruLayer.cache (Store.cache handles)).remove key).Leaves layer memory
      (fun _ later after => after = memory ∧
        later.delegate.table = layer.delegate.table.erase key ∧
        Slots capacity (keys.erase key) later)
      fun _ _ => False := by
  have below : ((Store.cache handles).remove key).Leaves layer.delegate memory
      (fun _ later after => after = memory ∧ later.table = layer.delegate.table.erase key)
      fun _ _ => False := fun _ => ⟨rfl, rfl⟩
  refine (remove_steady slots.steady below).imp (fun _ later after next => ?_) fun _ _ no => no
  obtain ⟨steady, same, table⟩ := next
  exact ⟨same, table, steady, table ▸ slots.matched.erase key⟩

/-- A put makes room for its key. -/
theorem put (slots : Slots capacity keys layer) (key : K) (item : X) :
    ((LruLayer.cache (Store.cache handles)).put key item).Leaves layer memory
      (fun _ later _ => ∃ victim,
        (∃ left, Room capacity keys key left victim ∧ Slots capacity left later) ∧
        later.delegate.table.find? = without victim (placed layer.delegate.table.find? key item))
      fun _ _ => False := by
  let inserted := layer.delegate.table.insert key item
  let done : Option K → Store K X → Memory K V → Prop := fun victim later _ =>
    later.table = victim.elim inserted inserted.erase
  have put : ((Store.cache handles).put key item).Leaves layer.delegate memory
      (fun _ => done none) fun _ _ => False := fun _ => rfl
  have remove : ∀ victim inner after, done none inner after →
      ((Store.cache handles).remove victim).Leaves inner after (fun _ => done (some victim))
        fun _ _ => False := by
    intro victim inner after stored trace
    exact congrArg (Table.erase · victim) stored
  refine (put_steady remove slots.steady put).imp (fun _ later after next => ?_) fun _ _ no => no
  obtain ⟨left, victim, room, steady, table⟩ := next
  have table : later.delegate.table = victim.elim inserted inserted.erase := table
  have matched := slots.matched.insert key item
  refine ⟨victim, ⟨left, room, steady, ?_⟩, ?_⟩
  · rw [table]
    cases room with
    | fits => exact matched
    | evicts _ victim same =>
      rw [same] at matched
      exact matched.erase_last.2
  · rw [table, ← Table.find?_insert_eq]
    cases victim with
    | none => rfl
    | some victim => exact Table.find?_erase_eq inserted victim

theorem clear (slots : Slots capacity keys layer) :
    (LruLayer.cache (Store.cache handles)).clear.Leaves layer memory
      (fun _ later _ => Slots capacity [] later) fun _ _ => False := by
  have below : (Store.cache handles).clear.Leaves layer.delegate memory
      (fun _ later _ => later.table = Table.empty) fun _ _ => False := fun _ => rfl
  refine (clear_steady slots.steady below).imp (fun _ later after next => ?_) fun _ _ no => no
  exact ⟨next.1, next.2 ▸ Matched.empty⟩

theorem length (slots : Slots capacity keys layer) :
    (LruLayer.cache (Store.cache handles)).length.Leaves layer memory
      (fun _ later _ => Slots capacity keys later) fun _ _ => False := by
  have below : (Store.cache handles).length.Leaves layer.delegate memory
      (fun _ later _ => later.table = layer.delegate.table) fun _ _ => False := fun _ => rfl
  refine (length_steady slots.steady below).imp (fun _ later after next => ?_) fun _ _ no => no
  exact ⟨next.1, next.2 ▸ slots.matched⟩

end Slots

end LruLayer

/-! ### A soft layer on a recency layer -/

/-- The shape of a soft layer over a recency layer over a store. -/
abbrev Shape.softened : Shape .value := .soft (.lru .store)

namespace Shape.softened

variable {capacity : Nat} {keys order : List K} {machine : Machine K V (Shape.softened.State K V)}

/-- The recency layer and the store below the soft layer. -/
abbrev delegate : Cache K V ((Shape.lru .store : Shape .reference).State K V) (SoftReference K V) :=
  (Shape.lru .store : Shape .reference).cache

theorem delegate_reliable : (delegate : Cache K V _ _).Reliable Content.reference.handles
    (Shape.lru .store : Shape .reference).table :=
  LruLayer.reliable (reliable_store _)

/-- The values that the stack can return. -/
def view (machine : Machine K V (Shape.softened.State K V)) : K → Option (Shared V) :=
  Shape.softened.shows machine.layer machine.memory

/-- No key with a value is notified, and the recency layer tracks the stored keys, of which those
with a value stand in the order. -/
structure Slotted (order : List K) (capacity : Nat) (keys : List K)
    (machine : Machine K V (Shape.softened.State K V)) : Prop where
  positive : 0 < capacity
  slots : LruLayer.Slots capacity keys machine.layer.delegate
  sound : Shape.softened.Sound machine.layer machine.memory
  hidden : ∀ key ∈ machine.layer.queue.pending, view machine key = none
  ordered : (visible (view machine) keys).Sublist order

/-- Once no notification waits, exactly the keys with a value are tracked. -/
theorem mem_tracked (slots : LruLayer.Slots capacity keys machine.layer.delegate)
    (sound : Shape.softened.Sound machine.layer machine.memory)
    (idle : machine.layer.queue.pending = []) (key : K) :
    key ∈ keys ↔ (view machine key).isSome = true := by
  have sound : SoftLayer.Sound _ _ _ := sound
  exact (slots.matched.same key).trans
    ((InStep.enumerates_keys sound.distinct (idle ▸ sound.inStep)).mem key)

/-! ### Drains -/

/-- Working through notifications of keys without a value leaves the others in their order. -/
theorem removeReclaimed_slots {shows : K → Option (Shared V)} (waiting : List K) (removed : Nat)
    (hidden : ∀ key ∈ waiting, shows key = none)
    {machine : Machine K V (Shape.softened.State K V)} (same : view machine = shows)
    (slots : LruLayer.Slots capacity keys machine.layer.delegate) :
    (SoftLayer.removeReclaimed delegate waiting removed).Ends machine
      (fun _ later => ∃ left, LruLayer.Slots capacity left later.layer.delegate ∧
        visible shows left = visible shows keys)
      fun _ _ => False := by
  induction waiting generalizing machine removed keys with
  | nil => exact ⟨keys, slots, rfl⟩
  | cons key rest inductionHypothesis =>
    obtain ⟨gone, hidden⟩ := List.forall_mem_cons.mp hidden
    simp only [SoftLayer.removeReclaimed, SoftLayer.below, ends_bind, ends_modifyLayer, ends_within]
    refine (slots.get key).ends (fun found after next => ?_) fun _ _ no => no
    obtain ⟨memory, entries, answer, touched⟩ := next
    have memory : after.memory = machine.memory := memory
    have entries : after.layer.delegate.table = machine.layer.delegate.delegate.table := entries
    have answer : found = machine.layer.delegate.delegate.table.find? key := answer
    have kept : shown after.layer.delegate.table.find? after.memory = shows := by
      rw [memory, entries, ← same]
      rfl
    cases found with
    | none =>
      rw [if_neg (slots.untracked answer.symm)] at touched
      exact inductionHypothesis removed hidden kept touched
    | some reference =>
      have dead : machine.memory.isLive reference = false := by
        have gone : shown machine.layer.delegate.delegate.table.find? machine.memory key = none :=
          (congrFun same key).trans gone
        rw [shown, ← answer, Option.bind_some, Memory.resolve] at gone
        by_contra live
        rw [if_pos (Bool.not_eq_false _ |>.mp live)] at gone
        cases gone
      rw [if_pos (slots.tracked answer.symm)] at touched
      simp only [ends_bind, ends_memory, around]
      split
      case isTrue live =>
        rw [memory, dead] at live
        cases live
      case isFalse =>
        rw [ends_bind, ends_within]
        refine (touched.remove key).ends (fun _ last next => ?_) fun _ _ no => no
        obtain ⟨again, erased, freed⟩ := next
        rw [List.erase_cons_head] at freed
        have again : last.memory = after.memory := again
        have missing : shown after.layer.delegate.table.find? after.memory key = none := by
          rw [kept, gone]
        have still : shown last.layer.delegate.table.find? last.memory = shows := by
          rw [again, erased, SoftLayer.shown_erase missing, kept]
        refine (inductionHypothesis (removed + 1) hidden ?_ freed).imp (fun _ _ next => ?_)
          fun _ _ no => no
        · exact still
        · obtain ⟨left, freed, same⟩ := next
          exact ⟨left, freed, same.trans (visible_erase_hidden slots.nodup gone)⟩

/-- A drain leaves the keys with a value, in the order they had. -/
theorem drain_slots (slotted : Slotted order capacity keys machine) :
    (SoftLayer.drain delegate).Ends machine
      (fun _ later => SoftLayer.Drained (Shape.lru .store : Shape .reference).table machine later ∧
        LruLayer.Slots capacity (visible (view machine) keys) later.layer.delegate)
      fun _ _ => False := by
  have slots : (SoftLayer.drain delegate).Ends machine
      (fun _ later => ∃ left, LruLayer.Slots capacity left later.layer.delegate ∧
        visible (view machine) left = visible (view machine) keys)
      fun _ _ => False := by
    simp only [SoftLayer.drain, SoftLayer.name, SoftLayer.count, ends_bind, ends_layer]
    refine (removeReclaimed_slots _ 0 slotted.hidden rfl slotted.slots).imp
      (fun removed later next => ?_) fun _ _ no => no
    split
    · simp only [ends_bind, ends_layer, ends_pure, ends_report, ends_modifyLayer]
      exact next
    · exact next
  refine ((SoftLayer.drain_drained delegate_reliable slotted.sound).and slots).imp
    (fun _ later next => ?_) fun _ _ no => no.1
  obtain ⟨drained, left, slots, same⟩ := next
  have all : visible (view machine) left = left := visible_eq_self fun key member => by
    rw [← show view later = view machine from drained.same]
    exact (mem_tracked slots drained.sound drained.idle key).mp member
  exact ⟨drained, same ▸ all.symm ▸ slots⟩

/-! ### Calls -/

/-- Without notifications the keys with a value are all that are tracked. -/
theorem Slotted.of_idle (positive : 0 < capacity)
    (slots : LruLayer.Slots capacity keys machine.layer.delegate)
    (sound : Shape.softened.Sound machine.layer machine.memory)
    (idle : machine.layer.queue.pending = []) (ordered : keys.Sublist order) :
    Slotted order capacity keys machine where
  positive := positive
  slots := slots
  sound := sound
  hidden := by
    rw [idle]
    exact List.forall_mem_nil _
  ordered := List.filter_sublist.trans ordered

section Calls

variable (slotted : Slotted order capacity keys machine)

include slotted

/-- A put makes room for its key among the keys with a value. -/
theorem put_slots (key : K) (value : Shared V) :
    (Shape.softened.cache.put key value).Ends machine
      (fun _ later => Shape.softened.Sound later.layer later.memory ∧
        later.layer.queue.pending = [] ∧ ∃ left victim,
          Room capacity (visible (view machine) keys) key left victim ∧
          LruLayer.Slots capacity left later.layer.delegate ∧
          view later = without victim (placed (view machine) key value))
      fun _ _ => False := by
  have drained : (SoftLayer.drain delegate).Ends machine
      (fun _ later =>
        LruLayer.Slots capacity (visible (view machine) keys) later.layer.delegate)
      fun _ _ => False := (drain_slots slotted).imp (fun _ _ next => next.2) fun _ _ no => no
  refine (SoftLayer.put_shows delegate_reliable slotted.sound key value drained
    fun layer memory item slots => slots.put key item).imp (fun _ later next => ?_) fun _ _ no => no
  obtain ⟨sound, idle, victim, ⟨left, room, slots⟩, shows⟩ := next
  exact ⟨sound, idle, left, victim, room, slots, shows⟩

theorem put_slotted (key : K) (value : Shared V) :
    (Shape.softened.cache.put key value).Ends machine
      (fun _ later => later.layer.queue.pending = [] ∧
        ∃ keys, Slotted (key :: order.erase key) capacity keys later)
      fun _ _ => False := by
  refine (put_slots slotted key value).imp (fun _ later next => ?_) fun _ _ no => no
  obtain ⟨sound, idle, left, victim, room, slots, -⟩ := next
  refine ⟨idle, left, .of_idle slotted.positive slots sound idle ?_⟩
  exact room.sublist.trans ((slotted.ordered.erase key).cons_cons key)

/-- A look-up makes its key the first one if it finds a value, and stops tracking it if the value
was reclaimed. -/
theorem get_slots (key : K) :
    (Shape.softened.cache.get key).Ends machine
      (fun found later => ∃ left, LruLayer.Slots capacity left later.layer.delegate ∧
        visible (view machine) left =
          if found.isSome then key :: (visible (view machine) keys).erase key
          else visible (view machine) keys)
      fun _ _ => False := by
  have slots := slotted.slots
  show (SoftLayer.get delegate key).Ends _ _ _
  simp only [SoftLayer.get, SoftLayer.below, ends_bind, ends_within]
  refine (slots.get key).ends (fun found later next => ?_) fun _ _ no => no
  obtain ⟨same, entries, answer, touched⟩ := next
  have same : later.memory = machine.memory := same
  have answer : found = machine.layer.delegate.delegate.table.find? key := answer
  have resolved : view machine key = found.bind machine.memory.resolve := by
    rw [answer]
    rfl
  cases found with
  | none =>
    rw [if_neg (slots.untracked answer.symm)] at touched
    simp only [ends_bind, SoftLayer.count, ends_modifyLayer, ends_pure, around]
    exact ⟨keys, touched, rfl⟩
  | some reference =>
    rw [Option.bind_some] at resolved
    rw [if_pos (slots.tracked answer.symm)] at touched
    simp only [ends_bind, ends_memory, around, SoftLayer.count]
    split
    case h_1 value found =>
      rw [same, ← resolved] at found
      rw [ends_bind]
      refine SoftLayer.ends_pin fun ring counters trace => ⟨_, touched, ?_⟩
      exact visible_use slots.nodup (Option.isSome_iff_exists.mpr ⟨value, found⟩)
    case h_2 gone =>
      rw [same, ← resolved] at gone
      simp only [ends_bind, SoftLayer.name, ends_layer, ends_pure, ends_report, ends_within]
      refine (touched.remove key _).imp (fun _ last next => ?_) fun _ _ no => no
      obtain ⟨-, -, freed⟩ := next
      rw [List.erase_cons_head] at freed
      exact ⟨_, freed, visible_erase_hidden slots.nodup gone⟩

theorem get_slotted (key : K) :
    (Shape.softened.cache.get key).Ends machine
      (fun found later => ∃ keys,
        Slotted (if found.isSome then key :: order.erase key else order) capacity keys later)
      fun _ _ => False := by
  refine ((SoftLayer.get_shows delegate_reliable slotted.sound key).and
    (get_slots slotted key)).imp (fun found later next => ?_) fun _ _ no => no.1
  obtain ⟨⟨sound, queue, -, shows⟩, left, slots, uses⟩ := next
  have same : view later = view machine := shows
  refine ⟨left, slotted.positive, slots, sound, ?_, ?_⟩
  · rw [queue, same]
    exact slotted.hidden
  · rw [same, uses]
    split
    · exact (slotted.ordered.erase key).cons_cons key
    · exact slotted.ordered

theorem remove_slotted (key : K) :
    (Shape.softened.cache.remove key).Ends machine
      (fun _ later => later.layer.queue.pending = [] ∧ ∃ keys, Slotted order capacity keys later)
      fun _ _ => False := by
  have slots : (SoftLayer.remove delegate key).Ends machine
      (fun _ later => ∃ left, LruLayer.Slots capacity left later.layer.delegate ∧
        left.Sublist order)
      fun _ _ => False := by
    simp only [SoftLayer.remove, SoftLayer.below, ends_bind, ends_within]
    refine (drain_slots slotted).imp (fun _ drained next => ?_) fun _ _ no => no
    refine (next.2.remove key).ends (fun found _ next => ?_) fun _ _ no => no
    cases found with
    | none => exact ⟨_, next.2.2, List.erase_sublist.trans slotted.ordered⟩
    | some reference => exact ⟨_, next.2.2, List.erase_sublist.trans slotted.ordered⟩
  refine ((SoftLayer.remove_shows delegate_reliable slotted.sound key).and slots).imp
    (fun _ later next => ?_) fun _ _ no => no.1
  obtain ⟨⟨sound, idle, -⟩, left, slots, ordered⟩ := next
  exact ⟨idle, left, .of_idle slotted.positive slots sound idle ordered⟩

theorem clear_slotted :
    Shape.softened.cache.clear.Ends machine
      (fun _ later => later.layer.queue.pending = [] ∧ ∃ keys, Slotted order capacity keys later)
      fun _ _ => False := by
  have slots : (SoftLayer.clear delegate).Ends machine
      (fun _ later => LruLayer.Slots capacity [] later.layer.delegate)
      fun _ _ => False := by
    simp only [SoftLayer.clear, SoftLayer.below, ends_bind, ends_modifyLayer, ends_within]
    let unpinned : Machine K V (Shape.softened.State K V) :=
      { machine with layer := { machine.layer with ring := [] } }
    have slotted : Slotted order capacity keys unpinned :=
      ⟨slotted.positive, slotted.slots, slotted.sound.retuned ⟨rfl, rfl⟩, slotted.hidden,
        slotted.ordered⟩
    refine (drain_slots slotted).imp (fun _ drained next => ?_) fun _ _ no => no
    exact next.2.clear.ends (fun _ _ next => next) fun _ _ no => no
  refine ((SoftLayer.clear_shows delegate_reliable slotted.sound).and slots).imp
    (fun _ later next => ?_) fun _ _ no => no.1
  obtain ⟨⟨sound, idle, -⟩, slots⟩ := next
  exact ⟨idle, [], .of_idle slotted.positive slots sound idle (List.nil_sublist order)⟩

theorem length_slotted :
    Shape.softened.cache.length.Ends machine
      (fun _ later => later.layer.queue.pending = [] ∧ ∃ keys, Slotted order capacity keys later)
      fun _ _ => False := by
  have slots : (SoftLayer.length delegate).Ends machine
      (fun _ later =>
        LruLayer.Slots capacity (visible (view machine) keys) later.layer.delegate)
      fun _ _ => False := by
    simp only [SoftLayer.length, SoftLayer.below, ends_bind, ends_within]
    refine (drain_slots slotted).imp (fun _ drained next => ?_) fun _ _ no => no
    exact next.2.length.ends (fun _ _ next => next) fun _ _ no => no
  refine ((SoftLayer.length_shows delegate_reliable slotted.sound).and slots).imp
    (fun _ later next => ?_) fun _ _ no => no.1
  obtain ⟨⟨sound, idle, -⟩, slots⟩ := next
  exact ⟨idle, _, .of_idle slotted.positive slots sound idle slotted.ordered⟩

end Calls

/-! ### The other deeds -/

/-- Values may be hidden, as long as only keys without a value are notified. -/
theorem Slotted.hide (slotted : Slotted order capacity keys machine)
    {later : Machine K V (Shape.softened.State K V)}
    (sound : Shape.softened.Sound later.layer later.memory)
    (same : later.layer.delegate = machine.layer.delegate)
    (less : ∀ key, (view later key).isSome = true → (view machine key).isSome = true)
    (notified : ∀ key ∈ later.layer.queue.pending,
      key ∈ machine.layer.queue.pending ∨ view later key = none) :
    Slotted order capacity keys later where
  positive := slotted.positive
  slots := same ▸ slotted.slots
  sound := sound
  hidden key waits := by
    refine (notified key waits).elim (fun before => ?_) id
    refine Option.not_isSome_iff_eq_none.mp fun shown => ?_
    have shown := less key shown
    rw [slotted.hidden key before] at shown
    cases shown
  ordered := (visible_sublist less).trans slotted.ordered

theorem reclaim_slotted (slotted : Slotted order capacity keys machine) (limit : Nat) :
    (SoftLayer.reclaim delegate limit).Ends machine
      (fun _ later => Slotted order capacity keys later) fun _ _ => False := by
  have sound : SoftLayer.Sound _ _ _ := slotted.sound
  refine ((SoftLayer.reclaim_sound delegate_reliable limit sound).and
    ((SoftLayer.reclaim_takes delegate_reliable sound limit).and
      (SoftLayer.reclaim_notifies delegate_reliable sound limit))).imp
    (fun _ later next => ?_) fun _ _ no => no.1
  obtain ⟨sound, ⟨-, shows, -⟩, pending, same⟩ := next
  have shows : ∀ key, view later key = if key ∈ _ then none else view machine key :=
    congrFun shows
  refine slotted.hide sound same (fun key shown => ?_) fun key waits => ?_
  · rw [shows] at shown
    exact (isSome_of_hidden shown).2
  · rw [pending] at waits
    refine (List.mem_append.mp waits).imp_right fun taken => ?_
    rw [shows]
    exact if_pos taken

theorem forceReclaim_slotted (slotted : Slotted order capacity keys machine) (key : K) :
    (SoftLayer.forceReclaim delegate key).Ends machine
      (fun _ later => Slotted order capacity keys later) fun _ _ => False := by
  have notifies : (SoftLayer.forceReclaim delegate key).Ends machine
      (fun _ later => later.layer.delegate = machine.layer.delegate ∧
        ∀ other ∈ later.layer.queue.pending, other ∈ machine.layer.queue.pending ∨ other = key)
      fun _ _ => False := by
    simp only [SoftLayer.forceReclaim, SoftLayer.ends_withQueue, true_and]
    exact fun other waits => ReferenceQueue.mem_pending_forceReclaim _ waits
  refine ((SoftLayer.forceReclaim_sound delegate_reliable key slotted.sound).and notifies).imp
    (fun _ later next => ?_) fun _ _ no => no.1
  obtain ⟨⟨sound, -, shows⟩, same, notified⟩ := next
  have shows : ∀ other, view later other = if other = key then none else view machine other :=
    congrFun shows
  refine slotted.hide sound same (fun other shown => ?_) fun other waits => ?_
  · rw [shows] at shown
    exact (isSome_of_hidden shown).2
  · refine (notified other waits).imp_right fun same => ?_
    rw [shows]
    exact if_pos same

/-- Settings and the pointers that callers hold do not matter. -/
theorem Slotted.retune (slotted : Slotted order capacity keys machine)
    {later : Machine K V (Shape.softened.State K V)} {bound : Nat} (positive : 0 < bound)
    (slots : LruLayer.Slots bound keys later.layer.delegate)
    (retuned : Shape.softened.Retuned machine.layer later.layer) {values : Table String (Shared V)}
    (memory : later.memory = { machine.memory with values }) : Slotted order bound keys later := by
  have same : view later = view machine := by
    funext key
    show (later.layer.delegate.delegate.table.find? key).bind later.memory.resolve = _
    rw [show later.layer.delegate.delegate = _ from retuned.2, memory]
    rfl
  refine ⟨positive, slots, memory ▸ (slotted.sound.retuned retuned).holding values, ?_, ?_⟩
  · rw [retuned.1, same]
    exact slotted.hidden
  · rw [same]
    exact slotted.ordered

/-- A capacity that is not zero is set, or nothing happens. -/
theorem setCapacity_cases (position bound : Nat) :
    (Shape.softened.setCapacity position bound).Ends machine
      (fun _ later => later.memory = machine.memory ∧
        (later.layer = machine.layer ∨ 0 < bound ∧ later.layer = { machine.layer with
          delegate := { machine.layer.delegate with capacity := bound } }))
      fun _ _ => False := by
  unfold Shape.setCapacity Shape.visit
  rw [ends_map]
  split
  · exact ⟨rfl, Or.inl rfl⟩
  · rw [SoftLayer.below, ends_within]
    unfold Shape.visit
    split
    · rw [ends_map, ends_map]
      unfold LruLayer.setCapacity
      split
      case h_1 => exact ⟨rfl, Or.inl rfl⟩
      case h_2 accepted => exact ⟨rfl, Or.inr ⟨checkCapacity_eq_ok.mp accepted, rfl⟩⟩
    · rw [LruLayer.below, ends_within]
      unfold Shape.visit
      split
      · exact ⟨rfl, Or.inl rfl⟩
      · exact ⟨rfl, Or.inl rfl⟩

omit [DecidableEq K] in
/-- There is no probe that a fault could be added to. -/
theorem addFault_idle (position : Nat) (fault : Fault) :
    (Shape.softened.addFault position fault).Ends machine
      (fun _ later => later.memory = machine.memory ∧ later.layer = machine.layer)
      fun _ _ => False := by
  unfold Shape.addFault Shape.visit
  rw [ends_bind]
  split
  · exact ⟨rfl, rfl⟩
  · rw [SoftLayer.below, ends_within]
    unfold Shape.visit
    split
    · exact ⟨rfl, rfl⟩
    · rw [LruLayer.below, ends_within]
      unfold Shape.visit
      split
      · exact ⟨rfl, rfl⟩
      · exact ⟨rfl, rfl⟩

/-! ### Runs -/

/-- Every call keeps the keys with a value in the order of their last uses. -/
theorem call_slotted (slotted : Slotted order capacity keys machine) (call : Call K (Shared V)) :
    (Shape.softened.cache.call call).Ends machine
      (fun reply later => (call.drains = true → later.layer.queue.pending = []) ∧
        ∃ keys, Slotted (Occurrence.uses order ⟨.call call, .ok (.reply reply)⟩) capacity keys later)
      fun _ _ => False := by
  cases call with
  | put key value =>
    simp only [Cache.call, ends_bind, ends_pure]
    exact (put_slotted slotted key value).imp (fun _ _ next => ⟨fun _ => next.1, next.2⟩)
      fun _ _ no => no
  | get key =>
    simp only [Cache.call, ends_bind, ends_pure]
    refine (get_slotted slotted key).imp (fun found _ next => ⟨fun no => ?_, ?_⟩) fun _ _ no => no
    · cases no
    · cases found with
      | none => exact next
      | some value => exact next
  | remove key =>
    simp only [Cache.call, ends_bind, ends_pure]
    exact (remove_slotted slotted key).imp (fun _ _ next => ⟨fun _ => next.1, next.2⟩)
      fun _ _ no => no
  | clear =>
    simp only [Cache.call, ends_bind, ends_pure]
    exact (clear_slotted slotted).imp (fun _ _ next => ⟨fun _ => next.1, next.2⟩) fun _ _ no => no
  | length =>
    simp only [Cache.call, ends_bind, ends_pure]
    exact (length_slotted slotted).imp (fun _ _ next => ⟨fun _ => next.1, next.2⟩)
      fun _ _ no => no
  | isEmpty =>
    simp only [Cache.call, Cache.isEmpty, ends_bind, ends_pure]
    exact (length_slotted slotted).imp (fun _ _ next => ⟨fun _ => next.1, next.2⟩)
      fun _ _ no => no

theorem perform_slotted (slotted : Slotted order capacity keys machine) (deed : Deed K V) :
    (Shape.softened.perform deed).Ends machine
      (fun outcome later => ∃ capacity keys,
        Slotted (Occurrence.uses order ⟨deed, .ok outcome⟩) capacity keys later)
      fun _ _ => False := by
  cases deed with
  | call call =>
    rw [perform, ends_map]
    exact (call_slotted slotted call).imp (fun _ _ next => ⟨capacity, next.2⟩) fun _ _ no => no
  | reclaim limit =>
    rw [perform, ends_map, Shape.reclaim, visitSoft, ends_map]
    exact (reclaim_slotted slotted limit).imp (fun _ _ next => ⟨capacity, keys, next⟩)
      fun _ _ no => no
  | reclaimAll =>
    rw [perform, ends_map, Shape.reclaimAll, visitSoft, ends_map, SoftLayer.reclaimAll, ends_bind,
      ends_layer]
    exact (reclaim_slotted slotted _).imp (fun _ _ next => ⟨capacity, keys, next⟩)
      fun _ _ no => no
  | forceReclaim key =>
    rw [perform, ends_map, Shape.forceReclaim, visitSoft, ends_map]
    exact (forceReclaim_slotted slotted key).imp (fun _ _ next => ⟨capacity, keys, next⟩)
      fun _ _ no => no
  | setCapacity position bound =>
    rw [perform, ends_map]
    refine (setCapacity_cases position bound).imp (fun _ later next => ?_) fun _ _ no => no
    obtain ⟨memory, same | ⟨positive, same⟩⟩ := next
    · exact ⟨capacity, keys, slotted.retune slotted.positive (same ▸ slotted.slots)
        (same ▸ ⟨rfl, rfl⟩) memory⟩
    · refine ⟨bound, keys, slotted.retune positive ?_ (same ▸ ⟨rfl, rfl⟩) memory⟩
      obtain ⟨steady, matched⟩ := slotted.slots
      exact same ▸ ⟨⟨rfl, steady.overdue, steady.order⟩, matched⟩
  | setWindow window =>
    rw [perform, ends_map, Shape.setWindow, visitSoft, ends_map]
    unfold SoftLayer.setWindow
    split
    · exact ⟨capacity, keys, slotted⟩
    · exact ⟨capacity, keys, slotted.retune slotted.positive slotted.slots ⟨rfl, rfl⟩ rfl⟩
  | addFault position fault =>
    rw [perform, ends_bind]
    refine (addFault_idle position fault).imp (fun _ later next => ?_) fun _ _ no => no
    obtain ⟨memory, same⟩ := next
    exact ⟨capacity, keys, slotted.retune slotted.positive (same ▸ slotted.slots)
      (same ▸ ⟨rfl, rfl⟩) memory⟩
  | hold name value =>
    exact ⟨capacity, keys, slotted.retune slotted.positive slotted.slots ⟨rfl, rfl⟩ rfl⟩
  | release name =>
    exact ⟨capacity, keys, slotted.retune slotted.positive slotted.slots ⟨rfl, rfl⟩ rfl⟩

/-! ### What callers see -/

theorem retrievable_iff (sound : Shape.softened.Sound machine.layer machine.memory) (key : K) :
    Shape.softened.Retrievable machine key ↔ (view machine key).isSome = true := by
  have plain : Shape.softened.Plain := trivial
  exact Shape.retrievable_iff plain rfl sound key

/-- Once no notification waits, the retrievable keys are tracked in the order. -/
theorem Slotted.tracks (slotted : Slotted order capacity keys machine)
    (idle : machine.layer.queue.pending = []) :
    let tracked := machine.layer.delegate.order.toList
    tracked.Nodup ∧ tracked.Sublist order ∧
      ∀ key, key ∈ tracked ↔ Shape.softened.Retrievable machine key := by
  have represents := slotted.slots.steady.order
  have tracked := mem_tracked slotted.slots slotted.sound idle
  have all := visible_eq_self fun key member => (tracked key).mp member
  rw [represents.toList]
  refine ⟨represents.nodup, all ▸ slotted.ordered, fun key => ?_⟩
  rw [tracked, retrievable_iff slotted.sound]

/-- The tracked keys with a value are the retrievable ones. -/
theorem Slotted.mem_visible (slotted : Slotted order capacity keys machine) (key : K) :
    key ∈ visible (view machine) keys ↔ Shape.softened.Retrievable machine key := by
  rw [LayeredCache.mem_visible, retrievable_iff slotted.sound, and_iff_right_iff_imp]
  intro shown
  obtain ⟨reference, found, -⟩ := shown_isSome.mp shown
  exact slotted.slots.tracked found

/-- A put takes away the retrievable key that was used longest ago, if there are too many. -/
theorem Slotted.put (slotted : Slotted order capacity keys machine) (key : K) (value : Shared V) :
    let put := (Shape.softened.perform (.call (.put key value))).run machine
    ∃ others : List K, others.Nodup ∧ others.Sublist order ∧
      (∀ other, other ∈ others ↔ other ≠ key ∧ Shape.softened.Retrievable machine other) ∧
      put.1 = .ok (.reply .done) ∧
      ((∃ other, other ≠ key ∧ Shape.softened.Retrievable machine other ∧
        ¬ Shape.softened.Retrievable put.2 other) ↔ capacity < others.length + 1) ∧
      ∀ other, other ≠ key → Shape.softened.Retrievable machine other →
        (¬ Shape.softened.Retrievable put.2 other ↔
          capacity < others.length + 1 ∧ others.getLast? = some other) := by
  have ends : (Shape.softened.perform (.call (.put key value))).Ends machine
      (fun outcome later => outcome = .reply .done ∧
        Shape.softened.Sound later.layer later.memory ∧ ∃ left victim,
          Room capacity (visible (view machine) keys) key left victim ∧
          view later = without victim (placed (view machine) key value))
      fun _ _ => False := by
    simp only [Shape.perform, Cache.call, ends_map, ends_bind, ends_pure]
    refine (put_slots slotted key value).imp (fun _ _ next => ?_) fun _ _ no => no
    obtain ⟨sound, -, left, victim, room, -, shows⟩ := next
    exact ⟨trivial, sound, left, victim, room, shows⟩
  obtain ⟨_, later, same, rfl, sound, left, victim, room, shows⟩ := ends.run_eq
  have nodup : (visible (view machine) keys).Nodup := slotted.slots.nodup.filter _
  let others := (visible (view machine) keys).erase key
  have listed : ∀ other, other ∈ others ↔
      other ≠ key ∧ Shape.softened.Retrievable machine other := by
    intro other
    rw [nodup.mem_erase_iff, slotted.mem_visible]
  have lost : ∀ other, other ≠ key → Shape.softened.Retrievable machine other →
      (¬ Shape.softened.Retrievable later other ↔
        capacity < others.length + 1 ∧ others.getLast? = some other) := by
    intro other different retrievable
    have shown := (retrievable_iff slotted.sound other).mp retrievable
    rw [retrievable_iff sound, shows, Bool.not_eq_true, room.lost_iff different shown]
  rw [same]
  refine ⟨others, nodup.erase key, List.erase_sublist.trans slotted.ordered, listed, rfl, ?_, lost⟩
  constructor
  · rintro ⟨other, different, retrievable, gone⟩
    exact ((lost other different retrievable).mp gone).1
  · intro overflows
    have some : others ≠ [] := by
      intro none
      rw [none, List.length_nil] at overflows
      exact absurd slotted.positive (by omega)
    have last := List.getLast?_eq_some_getLast some
    obtain ⟨different, retrievable⟩ := (listed _).mp (List.getLast_mem some)
    exact ⟨_, different, retrievable, (lost _ different retrievable).mpr ⟨overflows, last⟩⟩

end Shape.softened

/-- The machine of such a stack before anything has been done with it. -/
def softenedMachine (id : String) (hasLock : Bool) (window capacity : Nat) :
    Machine K V (Shape.softened.State K V) :=
  { layer := { window, delegate := { capacity, delegate := { id, hasLock } } } }

omit [DecidableEq K] in
/-- Assembling a soft layer and a recency layer around a store gives this machine. -/
theorem assemble_softened {id : String} (named : id ≠ "") (hasLock : Bool) {window capacity : Nat}
    (pinning : 0 < window) (positive : 0 < capacity) :
    Stack.assemble id hasLock [.soft window, .lru capacity] .value =
      .ok (⟨Shape.softened, (softenedMachine id hasLock window capacity).layer⟩ :
        Stack K V .value) := by
  have store : Stack.assemble id hasLock [] .reference =
      .ok (⟨.store, { id, hasLock }⟩ : Stack K V .reference) := Stack.ofStore_eq named hasLock
  have bounded : Stack.assemble id hasLock [.lru capacity] .reference =
      .ok (⟨.lru .store, { capacity, delegate := { id, hasLock } }⟩ : Stack K V .reference) := by
    rw [Stack.assemble, store]
    exact Stack.withLru_eq _ positive
  rw [Stack.assemble, bounded]
  exact Stack.withSoft_eq _ pinning

open Shape.softened (Slotted)

/-- After every run the keys with a value are tracked in the order of their last uses. -/
theorem slotted_run (id : String) (hasLock : Bool) (window : Nat) {capacity : Nat}
    (positive : 0 < capacity) (deeds : List (Deed K V)) :
    let ended := Shape.softened.run deeds (softenedMachine id hasLock window capacity)
    ∃ bound keys, Slotted (lastUses ended.1) bound keys ended.2 := by
  refine Shape.run_induction
    (fun past machine => ∃ bound keys, Slotted (lastUses past) bound keys machine)
    (fun _ => True) (fun past machine deed _ slotted => ?_) deeds (fun _ _ => trivial) []
    (softenedMachine id hasLock window capacity) ⟨capacity, [], ?_⟩
  · obtain ⟨bound, keys, slotted⟩ := slotted
    refine (Shape.softened.perform_slotted slotted deed).imp (fun outcome _ next => ?_)
      fun _ _ no => no.elim
    rw [lastUses_concat]
    exact next
  · refine .of_idle positive ⟨⟨rfl, rfl, RecencyOrder.Represents.empty⟩, Matched.empty⟩ ?_ rfl
      (List.Sublist.refl _)
    exact ⟨Table.distinct_empty, rfl, InStep.empty []⟩

/-- However a soft layer over a recency layer has been used, with changes of the capacity and
reclamations in between. After a call that drains the notifications the recency layer tracks
exactly the retrievable keys, in the order of their last uses. A put takes away another retrievable
key if and only if the retrievable keys and its own are more than the capacity in effect; then it is
the one that was used longest ago, and no other. -/
theorem softened_frees_slots (id : String) (hasLock : Bool) (window : Nat) {capacity : Nat}
    (positive : 0 < capacity) (deeds : List (Deed K V)) :
    let ended := Shape.softened.run deeds (softenedMachine id hasLock window capacity)
    (∀ call : Call K (Shared V), call.drains = true →
      let next := (Shape.softened.perform (.call call)).run ended.2
      let tracked := next.2.layer.delegate.order.toList
      tracked.Nodup ∧ tracked.Sublist (lastUses (ended.1 ++ [⟨.call call, next.1⟩])) ∧
        ∀ key, key ∈ tracked ↔ Shape.softened.Retrievable next.2 key) ∧
    ∀ key value,
      let bound := ended.2.layer.delegate.capacity
      let put := (Shape.softened.perform (.call (.put key value))).run ended.2
      ∃ others : List K, others.Nodup ∧ others.Sublist (lastUses ended.1) ∧
        (∀ other, other ∈ others ↔ other ≠ key ∧ Shape.softened.Retrievable ended.2 other) ∧
        put.1 = .ok (.reply .done) ∧
        ((∃ other, other ≠ key ∧ Shape.softened.Retrievable ended.2 other ∧
          ¬ Shape.softened.Retrievable put.2 other) ↔ bound < others.length + 1) ∧
        ∀ other, other ≠ key → Shape.softened.Retrievable ended.2 other →
          (¬ Shape.softened.Retrievable put.2 other ↔
            bound < others.length + 1 ∧ others.getLast? = some other) := by
  intro ended
  obtain ⟨bound, keys, slotted⟩ := slotted_run id hasLock window positive deeds
  have slotted : Slotted (lastUses ended.1) bound keys ended.2 := slotted
  have capacity : ended.2.layer.delegate.capacity = bound := slotted.slots.steady.capacity
  refine ⟨fun call drains => ?_, fun key value => capacity ▸ slotted.put key value⟩
  have called : (Shape.softened.perform (.call call)).Ends ended.2
      (fun outcome later => later.layer.queue.pending = [] ∧ ∃ keys,
        Slotted (lastUses (ended.1 ++ [⟨.call call, .ok outcome⟩])) bound keys later)
      fun _ _ => False := by
    rw [Shape.perform, ends_map]
    refine (Shape.softened.call_slotted slotted call).imp (fun reply _ next => ?_)
      fun _ _ no => no
    rw [lastUses_concat]
    exact ⟨next.1 drains, next.2⟩
  obtain ⟨outcome, later, same, idle, left, slotted⟩ := called.run_eq
  rw [same]
  exact slotted.tracks idle

/-- One of three values is reclaimed, another one looked up, and the capacity lowered. -/
def lowered : List (Deed Nat String) :=
  [.call (.put 1 ⟨0, "one"⟩), .call (.put 2 ⟨1, "two"⟩), .call (.put 3 ⟨2, "three"⟩),
    .call (.get 1), .forceReclaim 2, .setCapacity 1 2]

/-- A count frees the slot of the reclaimed key, and the next put takes away the key that was used
longest ago. -/
theorem softened_frees_slots_lowered :
    Stack.assemble "pages" false [.soft 4, .lru 3] .value =
        .ok (⟨Shape.softened, (softenedMachine "pages" false 4 3).layer⟩ : Stack Nat String .value) ∧
      let ended := Shape.softened.run lowered (softenedMachine "pages" false 4 3)
      let counted := (Shape.softened.perform (.call .length)).run ended.2
      let put := (Shape.softened.perform (.call (.put 4 ⟨3, "four"⟩))).run ended.2
      ended.2.layer.delegate.order.toList = [1, 3, 2] ∧
        counted.2.layer.delegate.order.toList = [1, 3] ∧
        (∀ key, key ∈ counted.2.layer.delegate.order.toList ↔
          Shape.softened.Retrievable counted.2 key) ∧
        (∃ other, other ≠ 4 ∧ Shape.softened.Retrievable ended.2 other ∧
          ¬ Shape.softened.Retrievable put.2 other) ∧
        Shape.softened.lookUp put.2 3 = .ok (.reply (.item none)) := by
  obtain ⟨tracks, puts⟩ := softened_frees_slots "pages" false 4 (by decide : 0 < 3) lowered
  obtain ⟨-, -, kept⟩ := tracks .length rfl
  obtain ⟨others, -, -, listed, -, loses, -⟩ := puts 4 ⟨3, "four"⟩
  have retrievable : ∀ key ∈ [1, 3], Shape.softened.Retrievable
      (Shape.softened.run lowered (softenedMachine "pages" false 4 3)).2 key := by
    refine List.forall_mem_cons.mpr ⟨⟨⟨0, "one"⟩, ?_⟩, List.forall_mem_singleton.mpr
      ⟨⟨2, "three"⟩, ?_⟩⟩
    · decide +kernel
    · decide +kernel
  have both : [1, 3] ⊆ others := fun key member => (listed key).mpr
    ⟨fun same => absurd (same ▸ member) (by decide), retrievable key member⟩
  have two : 2 ≤ others.length := ((by decide : [1, 3].Nodup).subperm both).length_le
  have bound : (Shape.softened.run lowered
      (softenedMachine "pages" false 4 3)).2.layer.delegate.capacity = 2 := by
    decide +kernel
  refine ⟨assemble_softened (by decide) false (by decide) (by decide), ?_, ?_, kept, ?_, ?_⟩
  · decide +kernel
  · decide +kernel
  · exact loses.mpr (Nat.lt_succ_of_le (Nat.le_trans (Nat.le_of_eq bound) two))
  · decide +kernel

end LayeredCache
