/-
This file proves that a recency layer over a store evicts the key that was used longest ago, however
its capacity is raised and lowered.

The tracked keys are the stored ones in the order of their last uses, which `lastUse` counts as
times of the run. A put makes room after its own key has become the first one, so the key that goes
is the last of the others. A lowered capacity takes nothing away by itself; it makes every later put
evict one key, also a put of a stored key, until the keys fit again.
-/

import Mathlib.Data.List.DropRight
import LayeredCache.Proofs.Counting
import LayeredCache.Proofs.Inclusion
import LayeredCache.Proofs.Slots

namespace LayeredCache

open LayeredCache.Action

variable {K V : Type} [DecidableEq K]

/-! ### Times of last uses -/

omit [DecidableEq K] in
/-- The key that the occurrence uses, which is the one it puts or the one it finds a value under. -/
def Occurrence.used : Occurrence K V → Option K
  | ⟨.call (.put key _), .ok _⟩ => some key
  | ⟨.call (.get key), .ok (.reply (.item (some _)))⟩ => some key
  | _ => none

theorem Occurrence.uses_eq (occurrence : Occurrence K V) (order : List K) :
    occurrence.uses order = occurrence.used.elim order fun key => key :: order.erase key := by
  fun_cases Occurrence.used occurrence with
  | case1 => rfl
  | case2 => rfl
  | case3 other put found =>
    unfold uses
    split
    case h_1 => exact (put _ _ _ rfl).elim
    case h_2 => exact (found _ _ rfl).elim
    case h_3 => rfl

/-- When the key was last used: the number of occurrences up to its last use. It is zero if the key
was never used. -/
def lastUse (past : List (Occurrence K V)) (key : K) : Nat :=
  (past.rdropWhile fun occurrence => decide (occurrence.used ≠ some key)).length

theorem lastUse_concat (past : List (Occurrence K V)) (occurrence : Occurrence K V) (key : K) :
    lastUse (past ++ [occurrence]) key =
      if occurrence.used = some key then past.length + 1 else lastUse past key := by
  unfold lastUse
  rw [List.rdropWhile_concat]
  by_cases same : occurrence.used = some key
  · rw [if_neg (by simpa using same), if_pos same, List.length_append, List.length_singleton]
  · rw [if_pos (by simpa using same), if_neg same]

theorem lastUse_le (past : List (Occurrence K V)) (key : K) : lastUse past key ≤ past.length :=
  (List.rdropWhile_prefix _ past).length_le

/-- The keys in the order of their last uses have been used later the earlier they come. -/
theorem lastUses_pairwise (past : List (Occurrence K V)) :
    (lastUses past).Pairwise fun later earlier => lastUse past earlier < lastUse past later := by
  induction past using List.reverseRecOn with
  | nil => exact List.Pairwise.nil
  | append_singleton past occurrence inductionHypothesis =>
    simp only [lastUses_concat, Occurrence.uses_eq, lastUse_concat]
    cases occurrence.used with
    | none => simpa using inductionHypothesis
    | some key =>
      have nodup : (lastUses past).Nodup :=
        inductionHypothesis.imp fun lt => ne_of_apply_ne (lastUse past) (Nat.ne_of_gt lt)
      have others : ∀ other ∈ (lastUses past).erase key, some key ≠ some other :=
        fun other member same => (nodup.mem_erase_iff.mp member).1 (Option.some.inj same).symm
      refine List.pairwise_cons.mpr ⟨fun other member => ?_, ?_⟩
      · rw [if_neg (others other member), if_pos rfl]
        exact Nat.lt_succ_of_le (lastUse_le past other)
      · refine (inductionHypothesis.sublist List.erase_sublist).imp_of_mem ?_
        intro later earlier first second lt
        rwa [if_neg (others _ first), if_neg (others _ second)]

/-- A key among the last uses has been used. -/
theorem lastUse_pos {past : List (Occurrence K V)} {key : K} (member : key ∈ lastUses past) :
    0 < lastUse past key := by
  induction past using List.reverseRecOn with
  | nil => cases member
  | append_singleton past occurrence inductionHypothesis =>
    rw [lastUses_concat, Occurrence.uses_eq] at member
    rw [lastUse_concat]
    split
    case isTrue => exact Nat.succ_pos _
    case isFalse different =>
      refine inductionHypothesis ?_
      cases used : occurrence.used with
      | none => rwa [used] at member
      | some other =>
        rw [used] at member
        refine (List.mem_cons.mp member).elim (fun same => ?_) List.mem_of_mem_erase
        exact absurd (same ▸ used) different

omit [DecidableEq K] in
/-- The last of keys in falling order of their times is the one below all others. -/
theorem getLast?_eq_some_iff_of_pairwise {time : K → Nat} {keys : List K}
    (falling : keys.Pairwise fun later earlier => time earlier < time later) (key : K) :
    keys.getLast? = some key ↔
      key ∈ keys ∧ ∀ other ∈ keys, other ≠ key → time key < time other := by
  rcases List.eq_nil_or_concat' keys with rfl | ⟨front, last, rfl⟩
  · simp
  · obtain ⟨-, -, below⟩ := List.pairwise_append.mp falling
    have below : ∀ other ∈ front, time last < time other :=
      fun other member => below other member last (List.mem_singleton_self last)
    rw [List.getLast?_concat, Option.some.injEq]
    constructor
    · rintro rfl
      refine ⟨List.mem_append_right _ (List.mem_singleton_self _), fun other member different => ?_⟩
      exact below other ((List.mem_append.mp member).resolve_right
        fun same => different (List.mem_singleton.mp same))
    · rintro ⟨member, oldest⟩
      by_contra different
      have earlier := (List.mem_append.mp member).resolve_right
        fun same => different (List.mem_singleton.mp same).symm
      have later := oldest last (List.mem_append_right _ (List.mem_singleton_self _)) different
      exact Nat.lt_asymm later (below key earlier)

/-! ### What deeds may do -/

/-- The capacity in effect after the occurrence. Only the layer above the store has one, and zero
is refused. -/
def Occurrence.bounds (capacity : Nat) : Occurrence K V → Nat
  | ⟨.setCapacity position bound, _⟩ =>
    if position = 1 ∧ 0 < bound then bound else capacity
  | _ => capacity

/-- The capacity in effect after the past. -/
def boundAfter (initial : Nat) (past : List (Occurrence K V)) : Nat :=
  past.foldl Occurrence.bounds initial

omit [DecidableEq K] in
theorem boundAfter_concat (initial : Nat) (past : List (Occurrence K V))
    (occurrence : Occurrence K V) :
    boundAfter initial (past ++ [occurrence]) = occurrence.bounds (boundAfter initial past) := by
  rw [boundAfter, List.foldl_append]
  rfl

/-- The deed is none that may take a key away: no put, no clear and no removal of this key. -/
def Deed.spares (key : K) : Deed K V → Bool
  | .call (.put _ _) | .call .clear => false
  | .call (.remove other) => other ≠ key
  | _ => true

/-- Of the retrievable keys apart from one, the other key was used longest ago. -/
def Shape.Oldest (shape : Shape .value) (past : List (Occurrence K V))
    (machine : Machine K V (shape.State K V)) (apart other : K) : Prop :=
  other ≠ apart ∧ shape.Retrievable machine other ∧
    ∀ another, another ≠ apart → another ≠ other → shape.Retrievable machine another →
      lastUse past other < lastUse past another

namespace Shape.bounded

variable {capacity : Nat} {keys order : List K} {machine : Machine K V (Shape.bounded.State K V)}

/-- The layer tracks the stored keys, which stand in the order. -/
structure Ordered (order : List K) (capacity : Nat) (keys : List K)
    (layer : Shape.bounded.State K V) : Prop where
  positive : 0 < capacity
  slots : LruLayer.Slots capacity keys layer
  ordered : keys.Sublist order

/-- The retrievable keys are the stored ones. -/
theorem retrievable_iff (slots : LruLayer.Slots capacity keys machine.layer) (key : K) :
    Shape.bounded.Retrievable machine key ↔
      (machine.layer.delegate.table.find? key).isSome = true := by
  have answers : (Shape.bounded.perform (.call (.get key))).Ends machine
      (fun outcome _ =>
        outcome = .reply (.item (machine.layer.delegate.table.find? key)))
      fun _ _ => False := by
    simp only [Shape.perform, Cache.call, ends_map, ends_bind, ends_pure]
    refine (slots.get key).ends (fun found _ next => ?_) fun _ _ no => no
    rw [next.2.2.1]
  obtain ⟨_, _, same, rfl⟩ := answers.run_eq
  have looked : Shape.bounded.lookUp machine key =
      .ok (.reply (.item (machine.layer.delegate.table.find? key))) := congrArg Prod.fst same
  unfold Shape.Retrievable
  rw [looked, Option.isSome_iff_exists]
  refine exists_congr fun value => ⟨fun same => ?_, fun found => by rw [found]⟩
  exact Reply.item.inj (Outcome.reply.inj (Except.ok.inj same))

/-- The tracked keys are the retrievable ones. -/
theorem mem_iff_retrievable (slots : LruLayer.Slots capacity keys machine.layer) (key : K) :
    key ∈ keys ↔ Shape.bounded.Retrievable machine key := by
  rw [retrievable_iff slots, slots.matched.same, Table.mem_keys, Option.isSome_iff_exists]

/-! ### Calls -/

section Calls

variable (tracked : Ordered order capacity keys machine.layer)

include tracked

/-- A put makes room for its key. -/
theorem put_room (key : K) (value : Shared V) :
    (Shape.bounded.cache.put key value).Ends machine
      (fun _ later => ∃ left victim, Room capacity keys key left victim ∧
        later.layer.delegate.table.find? =
          without victim (placed machine.layer.delegate.table.find? key value) ∧
        Ordered (key :: order.erase key) capacity left later.layer)
      fun _ _ => False := by
  refine (tracked.slots.put key value).ends (fun _ later next => ?_) fun _ _ no => no
  obtain ⟨victim, ⟨left, room, slots⟩, stored⟩ := next
  exact ⟨left, victim, room, stored, tracked.positive, slots,
    room.sublist.trans ((tracked.ordered.erase key).cons_cons key)⟩

/-- A look-up makes its key the first one if it finds a value. -/
theorem get_ordered (key : K) :
    (Shape.bounded.cache.get key).Ends machine
      (fun found later => ∃ left,
        Ordered (if found.isSome then key :: order.erase key else order) capacity left later.layer ∧
          ∀ other ∈ keys, other ∈ left)
      fun _ _ => False := by
  refine (tracked.slots.get key).ends (fun found later next => ?_) fun _ _ no => no
  obtain ⟨-, -, answer, slots⟩ := next
  refine ⟨_, ⟨tracked.positive, slots, ?_⟩,
    fun other => (RecencyOrder.touched_perm keys key).mem_iff.mpr⟩
  cases found with
  | none =>
    rw [if_neg (tracked.slots.untracked answer.symm)]
    exact tracked.ordered
  | some value =>
    rw [if_pos (tracked.slots.tracked answer.symm)]
    exact (tracked.ordered.erase key).cons_cons key

/-- Every call keeps the tracked keys in the order of their last uses, and loses none that it
spares. -/
theorem call_ordered (call : Call K (Shared V)) :
    (Shape.bounded.cache.call call).Ends machine
      (fun reply later => ∃ left,
        Ordered (Occurrence.uses order ⟨.call call, .ok (.reply reply)⟩) capacity left later.layer ∧
          ∀ other ∈ keys, Deed.spares other (V := V) (.call call) = true → other ∈ left)
      fun _ _ => False := by
  cases call with
  | put key value =>
    simp only [Cache.call, ends_bind, ends_pure]
    refine (put_room tracked key value).imp (fun _ _ next => ?_) fun _ _ no => no
    obtain ⟨left, -, -, -, next⟩ := next
    exact ⟨left, next, fun _ _ no => Bool.noConfusion no⟩
  | get key =>
    simp only [Cache.call, ends_bind, ends_pure]
    refine (get_ordered tracked key).imp (fun found _ next => ?_) fun _ _ no => no
    obtain ⟨left, next, kept⟩ := next
    refine ⟨left, ?_, fun other member _ => kept other member⟩
    cases found with
    | none => exact next
    | some value => exact next
  | remove key =>
    simp only [Cache.call, ends_bind, ends_pure]
    refine (tracked.slots.remove key).ends
      (fun _ _ next => ⟨_, ⟨tracked.positive, next.2.2, ?_⟩, ?_⟩) fun _ _ no => no
    · exact List.erase_sublist.trans tracked.ordered
    · intro other member spared
      exact tracked.slots.nodup.mem_erase_iff.mpr ⟨(of_decide_eq_true spared).symm, member⟩
  | clear =>
    simp only [Cache.call, ends_bind, ends_pure]
    exact tracked.slots.clear.ends (fun _ _ slots => ⟨[], ⟨tracked.positive, slots,
      List.nil_sublist order⟩, fun _ _ no => Bool.noConfusion no⟩) fun _ _ no => no
  | length =>
    simp only [Cache.call, ends_bind, ends_pure]
    exact tracked.slots.length.ends (fun _ _ slots => ⟨keys, ⟨tracked.positive, slots,
      tracked.ordered⟩, fun _ member _ => member⟩) fun _ _ no => no
  | isEmpty =>
    simp only [Cache.call, Cache.isEmpty, ends_bind, ends_pure]
    exact tracked.slots.length.ends (fun _ _ slots => ⟨keys, ⟨tracked.positive, slots,
      tracked.ordered⟩, fun _ member _ => member⟩) fun _ _ no => no

end Calls

/-! ### The other deeds -/

omit [DecidableEq K] in
/-- There is no soft layer that could do anything. -/
theorem visitSoft_idle {α : Type} (action : (delegate : Shape .reference) →
      Action K V (SoftLayer K V (delegate.State K V)) α) :
    (Shape.bounded.visitSoft action).Ends machine
      (fun _ later => later.layer = machine.layer) fun _ _ => False := rfl

omit [DecidableEq K] in
/-- There is no probe that a fault could be added to. -/
theorem addFault_idle (position : Nat) (fault : Fault) :
    (Shape.bounded.addFault position fault).Ends machine
      (fun _ later => later.layer = machine.layer) fun _ _ => False := by
  unfold Shape.addFault Shape.visit
  rw [ends_bind]
  split
  · rfl
  · rw [LruLayer.below, ends_within]
    unfold Shape.visit
    split
    · rfl
    · rfl

/-- A capacity is set if it is meant for the recency layer and not zero. -/
theorem setCapacity_cases (position bound : Nat) :
    (Shape.bounded.setCapacity position bound).Ends machine
      (fun _ later => later.layer =
        if position = 1 ∧ 0 < bound then { machine.layer with capacity := bound }
        else machine.layer)
      fun _ _ => False := by
  unfold Shape.setCapacity Shape.visit
  rw [ends_map]
  split
  case isTrue recency =>
    rw [ends_map, ends_map]
    unfold LruLayer.setCapacity
    split
    case h_1 refused =>
      rw [if_neg]
      · rfl
      · rintro ⟨-, positive⟩
        rw [checkCapacity_eq_ok.mpr positive] at refused
        cases refused
    case h_2 accepted =>
      rw [if_pos ⟨recency, checkCapacity_eq_ok.mp accepted⟩]
      rfl
  case isFalse elsewhere =>
    rw [if_neg fun set => elsewhere set.1, LruLayer.below, ends_within]
    unfold Shape.visit
    split
    · rfl
    · rfl

theorem Ordered.rebound (tracked : Ordered order capacity keys machine.layer) {bound : Nat}
    (positive : 0 < bound) : Ordered order bound keys { machine.layer with capacity := bound } where
  positive := positive
  slots := ⟨⟨rfl, tracked.slots.steady.overdue, tracked.slots.steady.order⟩, tracked.slots.matched⟩
  ordered := tracked.ordered

/-- Every deed keeps the tracked keys in the order of their last uses, and loses none that it
spares. -/
theorem perform_ordered (tracked : Ordered order capacity keys machine.layer) (deed : Deed K V) :
    (Shape.bounded.perform deed).Ends machine
      (fun outcome later => ∃ left,
        Ordered (Occurrence.uses order ⟨deed, .ok outcome⟩)
          (Occurrence.bounds capacity ⟨deed, .ok outcome⟩) left later.layer ∧
          ∀ other ∈ keys, deed.spares other = true → other ∈ left)
      fun _ _ => False := by
  have idle : ∀ later : Machine K V (Shape.bounded.State K V), later.layer = machine.layer →
      ∃ left, Ordered order capacity left later.layer ∧
        ∀ other ∈ keys, deed.spares other = true → other ∈ left :=
    fun later same => ⟨keys, same ▸ tracked, fun _ member _ => member⟩
  cases deed with
  | call call =>
    rw [perform, ends_map]
    exact call_ordered tracked call
  | reclaim limit =>
    rw [perform, ends_map]
    exact (visitSoft_idle _).imp (fun _ => idle) fun _ _ no => no
  | reclaimAll =>
    rw [perform, ends_map]
    exact (visitSoft_idle _).imp (fun _ => idle) fun _ _ no => no
  | forceReclaim key =>
    rw [perform, ends_map]
    exact (visitSoft_idle _).imp (fun _ => idle) fun _ _ no => no
  | setCapacity position bound =>
    rw [perform, ends_map]
    refine (setCapacity_cases position bound).imp (fun outcome later same => ?_) fun _ _ no => no
    rw [Occurrence.bounds]
    split at same
    case isTrue set =>
      rw [if_pos set, same]
      exact ⟨keys, tracked.rebound set.2, fun _ member _ => member⟩
    case isFalse unset =>
      rw [if_neg unset]
      exact idle later same
  | setWindow window =>
    rw [perform, ends_map]
    exact (visitSoft_idle _).imp (fun _ => idle) fun _ _ no => no
  | addFault position fault =>
    rw [perform, ends_bind]
    exact (addFault_idle position fault).imp (fun _ => idle) fun _ _ no => no
  | hold name value => exact idle _ rfl
  | release name => exact idle _ rfl

/-! ### What callers see -/

/-- Room is never made by taking away the key that it is made for. -/
theorem key_mem_left {key : K} {left : List K} {victim : Option K} (positive : 0 < capacity)
    (room : Room capacity keys key left victim) : key ∈ left := by
  cases room with
  | fits => exact List.mem_cons_self
  | evicts _ victim same overflows =>
    cases left with
    | nil => exact absurd (Nat.lt_of_lt_of_le positive overflows) (Nat.lt_irrefl 0)
    | cons first rest =>
      rw [List.cons_append, List.cons.injEq] at same
      exact same.1 ▸ List.mem_cons_self

section Puts

variable {past : List (Occurrence K V)}
  (tracked : Ordered (lastUses past) capacity keys machine.layer)

include tracked

/-- The tracked keys have been used later the earlier they come. -/
theorem Ordered.falling :
    keys.Pairwise fun later earlier => lastUse past earlier < lastUse past later :=
  (lastUses_pairwise past).sublist tracked.ordered

/-- The last of the tracked keys other than the one that is put is the one of them that was used
longest ago. -/
theorem Ordered.last_iff (key other : K) :
    (keys.erase key).getLast? = some other ↔ Shape.bounded.Oldest past machine key other := by
  have mem : ∀ another, another ∈ keys.erase key ↔
      another ≠ key ∧ Shape.bounded.Retrievable machine another := fun another => by
    rw [tracked.slots.nodup.mem_erase_iff, mem_iff_retrievable tracked.slots]
  rw [getLast?_eq_some_iff_of_pairwise (tracked.falling.sublist List.erase_sublist), mem, and_assoc,
    Shape.Oldest]
  refine and_congr_right fun _ => and_congr_right fun _ => forall_congr' fun another => ?_
  rw [mem]
  exact ⟨fun oldest different apart retrievable => oldest ⟨different, retrievable⟩ apart,
    fun oldest ⟨different, retrievable⟩ apart => oldest different apart retrievable⟩

/-- A put does not fail, and makes room for its key. -/
theorem Ordered.put_run (key : K) (value : Shared V) :
    ∃ later left victim, (Shape.bounded.perform (.call (.put key value))).run machine =
        (.ok (.reply .done), later) ∧
      Room capacity keys key left victim ∧ LruLayer.Slots capacity left later.layer ∧
      later.layer.delegate.table.find? =
        without victim (placed machine.layer.delegate.table.find? key value) := by
  have ends : (Shape.bounded.perform (.call (.put key value))).Ends machine
      (fun outcome later => outcome = .reply .done ∧ ∃ left victim,
        Room capacity keys key left victim ∧
        later.layer.delegate.table.find? =
          without victim (placed machine.layer.delegate.table.find? key value) ∧
        Ordered (key :: (lastUses past).erase key) capacity left later.layer)
      fun _ _ => False := by
    simp only [Shape.perform, Cache.call, ends_map, ends_bind, ends_pure]
    exact (put_room tracked key value).imp (fun _ _ next => ⟨trivial, next⟩) fun _ _ no => no
  obtain ⟨_, later, same, rfl, left, victim, room, stored, after⟩ := ends.run_eq
  exact ⟨later, left, victim, same, room, after.slots, stored⟩

/-- What room takes away is the retrievable key that was used longest ago, if there are too many. -/
theorem Ordered.lost_iff {later : Machine K V (Shape.bounded.State K V)} {key : K}
    {value : Shared V} {left : List K} {victim : Option K}
    (room : Room capacity keys key left victim) (slots : LruLayer.Slots capacity left later.layer)
    (stored : later.layer.delegate.table.find? =
      without victim (placed machine.layer.delegate.table.find? key value)) (other : K) :
    (other ≠ key ∧ Shape.bounded.Retrievable machine other ∧
        ¬ Shape.bounded.Retrievable later other) ↔
      capacity < (keys.erase key).length + 1 ∧ Shape.bounded.Oldest past machine key other := by
  have gone : ∀ retrievable : Shape.bounded.Retrievable machine other, other ≠ key →
      (¬ Shape.bounded.Retrievable later other ↔
        capacity < (keys.erase key).length + 1 ∧ (keys.erase key).getLast? = some other) := by
    intro retrievable different
    rw [retrievable_iff slots, stored, Bool.not_eq_true]
    exact room.lost_iff different ((retrievable_iff tracked.slots other).mp retrievable)
  rw [← tracked.last_iff key other]
  constructor
  · rintro ⟨different, retrievable, lost⟩
    exact (gone retrievable different).mp lost
  · rintro ⟨many, last⟩
    obtain ⟨different, retrievable, -⟩ := (tracked.last_iff key other).mp last
    exact ⟨different, retrievable, (gone retrievable different).mpr ⟨many, last⟩⟩

/-- A put keeps its key, and takes away exactly the retrievable key that was used longest ago if
there are too many. -/
theorem Ordered.put (key : K) (value : Shared V) :
    let put := (Shape.bounded.perform (.call (.put key value))).run machine
    let overflows := capacity < (machine.layer.delegate.table.insert key value).size
    let lost := fun other => other ≠ key ∧ Shape.bounded.Retrievable machine other ∧
      ¬ Shape.bounded.Retrievable put.2 other
    put.1 = .ok (.reply .done) ∧ Shape.bounded.Retrievable put.2 key ∧
      ((∃! other, lost other) ↔ overflows) ∧
      ∀ other, lost other ↔ overflows ∧ Shape.bounded.Oldest past machine key other := by
  intro put overflows lost
  obtain ⟨later, left, victim, same, room, slots, stored⟩ := tracked.put_run key value
  have same : put = (.ok (.reply .done), later) := same
  have size : (machine.layer.delegate.table.insert key value).size =
      (keys.erase key).length + 1 := (tracked.slots.matched.insert key value).length.symm
  have lost_iff : ∀ other, lost other ↔
      overflows ∧ Shape.bounded.Oldest past machine key other := by
    intro other
    show _ ∧ _ ∧ ¬ Shape.bounded.Retrievable put.2 other ↔ capacity < _ ∧ _
    rw [same, size]
    exact tracked.lost_iff room slots stored other
  refine ⟨congrArg Prod.fst same, ?_, ⟨?_, fun many => ?_⟩, lost_iff⟩
  · rw [same, ← mem_iff_retrievable slots]
    exact key_mem_left tracked.positive room
  · rintro ⟨other, gone, -⟩
    exact ((lost_iff other).mp gone).1
  · have some : keys.erase key ≠ [] := by
      intro none
      have many : capacity < _ := many
      rw [size, none, List.length_nil] at many
      exact absurd tracked.positive (by omega)
    have last := List.getLast?_eq_some_getLast some
    have oldest := (tracked.last_iff key _).mp last
    refine ⟨_, (lost_iff _).mpr ⟨many, oldest⟩, fun other gone => ?_⟩
    have also := (tracked.last_iff key other).mpr ((lost_iff other).mp gone).2
    exact Option.some.inj (also.symm.trans last)

end Puts

end Shape.bounded

open Shape.bounded (Ordered)

/-- After every run the stored keys are tracked in the order of their last uses. -/
theorem ordered_run (id : String) (hasLock : Bool) {initial : Nat} (positive : 0 < initial)
    (deeds : List (Deed K V)) :
    let ended := Shape.bounded.run deeds (boundedMachine id hasLock initial)
    ∃ keys, Ordered (lastUses ended.1) (boundAfter initial ended.1) keys ended.2.layer := by
  refine Shape.run_induction
    (fun past machine => ∃ keys,
      Ordered (lastUses past) (boundAfter initial past) keys machine.layer)
    (fun _ => True) (fun past machine deed _ tracked => ?_) deeds (fun _ _ => trivial) []
    (boundedMachine id hasLock initial) ⟨[], positive, ?_, List.Sublist.refl _⟩
  · obtain ⟨keys, tracked⟩ := tracked
    refine (Shape.bounded.perform_ordered tracked deed).imp (fun outcome later next => ?_)
      fun _ _ no => no.elim
    obtain ⟨left, next, -⟩ := next
    rw [lastUses_concat, boundAfter_concat]
    exact ⟨left, next⟩
  · exact ⟨⟨rfl, rfl, RecencyOrder.Represents.empty⟩, Matched.empty⟩

/-- However a recency layer over a store has been used, with changes of the capacity at any time:
the tracked keys are the stored ones, which are the retrievable ones, each after those that were
used later. A put takes another key away if and only if the stored keys are more than the capacity
in effect once its own key is among them; then it is exactly one, the one that was used longest ago,
and never the key that is put. No deed but a put, a clear and a removal of the key itself takes a
key away. -/
theorem bounded_evicts_oldest (id : String) (hasLock : Bool) {initial : Nat}
    (positive : 0 < initial) (deeds : List (Deed K V)) :
    let ended := Shape.bounded.run deeds (boundedMachine id hasLock initial)
    let machine := ended.2
    let tracked := machine.layer.order.toList
    let stored := machine.layer.delegate.table
    ((tracked.Pairwise fun later earlier => lastUse ended.1 earlier < lastUse ended.1 later) ∧
      ∀ key, (key ∈ tracked ↔ key ∈ stored.keys) ∧
        (key ∈ tracked ↔ Shape.bounded.Retrievable machine key) ∧
        (key ∈ tracked → 0 < lastUse ended.1 key)) ∧
    (∀ key value,
      let put := (Shape.bounded.perform (.call (.put key value))).run machine
      let overflows := boundAfter initial ended.1 < (stored.insert key value).size
      let lost := fun other => other ≠ key ∧ Shape.bounded.Retrievable machine other ∧
        ¬ Shape.bounded.Retrievable put.2 other
      put.1 = .ok (.reply .done) ∧ Shape.bounded.Retrievable put.2 key ∧
        ((∃! other, lost other) ↔ overflows) ∧
        ∀ other, lost other ↔ overflows ∧ Shape.bounded.Oldest ended.1 machine key other) ∧
    ∀ (deed : Deed K V) (other : K), deed.spares other = true →
      Shape.bounded.Retrievable machine other →
        Shape.bounded.Retrievable ((Shape.bounded.perform deed).run machine).2 other := by
  intro ended machine tracked stored
  obtain ⟨keys, ordered⟩ := ordered_run id hasLock positive deeds
  have ordered : Ordered (lastUses ended.1) (boundAfter initial ended.1) keys machine.layer :=
    ordered
  have listed : tracked = keys := ordered.slots.steady.order.toList
  refine ⟨⟨listed ▸ ordered.falling, fun key => ?_⟩, ordered.put, fun deed other spared kept => ?_⟩
  · rw [listed]
    exact ⟨ordered.slots.matched.same key, Shape.bounded.mem_iff_retrievable ordered.slots key,
      fun member => lastUse_pos (ordered.ordered.subset member)⟩
  · have member := (Shape.bounded.mem_iff_retrievable ordered.slots other).mpr kept
    obtain ⟨_, later, same, left, next, sparing⟩ :=
      (Shape.bounded.perform_ordered ordered deed).run_eq
    rw [same]
    exact (Shape.bounded.mem_iff_retrievable next.slots other).mp (sparing other member spared)

/-- The capacity is lowered below the number of stored keys, after one of them was looked up. -/
def shrunk : List (Deed Nat String) :=
  [.call (.put 1 ⟨0, "one"⟩), .call (.put 2 ⟨1, "two"⟩), .call (.put 3 ⟨2, "three"⟩),
    .call (.get 1), .setCapacity 1 1, .setCapacity 1 0]

/-- Another put of a stored key then takes away one key, and keeps one more than the capacity. -/
theorem bounded_evicts_oldest_shrunk :
    Stack.assemble "pages" false [.lru 3] .value =
        .ok (⟨Shape.bounded, (boundedMachine "pages" false 3).layer⟩ : Stack Nat String .value) ∧
      0 < 3 ∧
      let ended := Shape.bounded.run shrunk (boundedMachine "pages" false 3)
      let put := (Shape.bounded.perform (.call (.put 1 ⟨3, "again"⟩))).run ended.2
      ended.2.layer.order.toList = [1, 3, 2] ∧ [1, 3, 2].map (lastUse ended.1) = [4, 3, 2] ∧
        boundAfter 3 ended.1 = 1 ∧ put.1 = .ok (.reply .done) ∧
        (∃! other, other ≠ 1 ∧ Shape.bounded.Retrievable ended.2 other ∧
          ¬ Shape.bounded.Retrievable put.2 other) ∧
        put.2.layer.order.toList = [1, 3] := by
  obtain ⟨-, puts, -⟩ := bounded_evicts_oldest "pages" false (by decide : 0 < 3) shrunk
  obtain ⟨done, -, loses, -⟩ := puts 1 ⟨3, "again"⟩
  refine ⟨assemble_bounded (by decide) false (by decide), by decide, ?_, ?_, ?_, done,
    loses.mpr ?_, ?_⟩
  · decide +kernel
  · decide +kernel
  · decide +kernel
  · decide +kernel
  · decide +kernel

end LayeredCache
