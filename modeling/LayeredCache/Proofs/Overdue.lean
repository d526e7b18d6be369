/-
This file proves what holds of a recency layer over a store whose calls may fail before they take
effect, after every run: the tracked keys are the stored ones, their number exceeds the largest
capacity by no more than the overdue victims, and a put that succeeds owes nothing.

It also proves that two cases of the code never occur. Nothing is taken off the number of overdue
victims when it is zero, and no victim is restored while it is tracked: a put that does whatever
it likes in these cases runs like the one of the layer.
-/

import LayeredCache.Proofs.Building
import LayeredCache.Proofs.Owing
import LayeredCache.Proofs.Usage

namespace LayeredCache

open LayeredCache.Action

variable {K V σ X : Type}

/-! ### Puts that may differ in impossible cases -/

namespace LruLayer

/-- Evicts a victim, restoring it with the given function if that fails. -/
def evictWith (restoring : K → LruLayer K σ → LruLayer K σ) (delegate : Cache K V σ X)
    (victim : K) :
    Action K V (LruLayer K σ) Unit := do
  count LruCounters.countEviction
  Action.report (.evicting (delegate.id (← Action.layer).delegate))
  try
    let _ ← below (delegate.remove victim)
  catch error =>
    Action.modifyLayer (restoring victim)
    throw error

/-- An eviction ends as the delegate's removal does, except for what it restores. -/
theorem run_evictWith {delegate : Cache K V σ X} {machine : Machine K V (LruLayer K σ)}
    (restoring : K → LruLayer K σ → LruLayer K σ) (victim : K) :
    (evictWith restoring delegate victim).run machine =
      match (delegate.remove victim).run (inside (·.delegate) (evicting delegate machine)) with
      | (.ok _, inner) =>
        (.ok (), around (fun layer delegate => { layer with delegate })
          (evicting delegate machine) inner)
      | (.error cause, inner) =>
        let failed := around (fun layer delegate => { layer with delegate })
          (evicting delegate machine) inner
        (.error cause, { failed with layer := restoring victim failed.layer }) := by
  simp only [evictWith, count, below, run_bind, run_modifyLayer, Action.report, run_note, run_layer,
    run_tryCatch, run_within]
  have start : inside (·.delegate) (evicting delegate machine) =
      ⟨machine.layer.delegate, machine.memory,
        .event (.evicting (delegate.id machine.layer.delegate)) :: machine.trace⟩ := rfl
  rw [start]
  generalize (delegate.remove victim).run _ = ended
  rcases ended with ⟨_ | _, _⟩
  · rfl
  · rfl

variable [DecidableEq K]

/-- Takes an overdue victim, lowering their number with the given function. -/
def takeOverdueWith (lower : Nat → Nat) (layer : LruLayer K σ) : Option K × LruLayer K σ :=
  if layer.overdue = 0 then (none, layer)
  else if layer.order.length ≤ layer.capacity then (none, { layer with overdue := 0 })
  else
    match layer.order.popBack with
    | (none, order) => (none, { layer with order })
    | (some victim, order) =>
      (some victim, { layer with order, overdue := lower layer.overdue })

/-- Settles overdue victims with the given functions. -/
def settleWith (lower : Nat → Nat) (restoring : K → LruLayer K σ → LruLayer K σ)
    (delegate : Cache K V σ X) : Nat → Action K V (LruLayer K σ) Unit
  | 0 => pure ()
  | rounds + 1 => do
    match ← Action.updateLayer (takeOverdueWith lower) with
    | none => pure ()
    | some victim =>
      evictWith restoring delegate victim
      settleWith lower restoring delegate rounds

/-- The put of the layer with the given functions in place of lowering by one and restoring. -/
def putWith (lower : Nat → Nat) (restoring : K → LruLayer K σ → LruLayer K σ)
    (delegate : Cache K V σ X) (key : K) (item : X) : Action K V (LruLayer K σ) Unit := do
  below (delegate.put key item)
  count LruCounters.countPut
  match ← Action.updateLayer (track key) with
  | none => pure ()
  | some victim => evictWith restoring delegate victim
  settleWith lower restoring delegate (← Action.layer).overdue

/-- The functions agree with the layer's own where something is overdue, and where the victim is
untracked. -/
structure Agrees (lower : Nat → Nat) (restoring : K → LruLayer K σ → LruLayer K σ) : Prop where
  lower : ∀ number, lower (number + 1) = number
  restoring : ∀ victim layer, (layer.order.pushBack victim).1 = true →
    restoring victim layer = restore victim layer

section Agrees

variable {lower : Nat → Nat} {restoring : K → LruLayer K σ → LruLayer K σ}
  {delegate : Cache K V σ X} {shows : σ → Table K X → Prop} {most : Nat}
  {machine : Machine K V (LruLayer K σ)}

/-- The number of overdue victims is lowered only where it is not zero. -/
theorem takeOverdueWith_eq (agrees : Agrees lower restoring) :
    takeOverdueWith lower = (takeOverdue : LruLayer K σ → _) := by
  funext layer
  unfold takeOverdueWith takeOverdue
  split
  case isTrue => rfl
  case isFalse owed =>
    obtain ⟨number, same⟩ := Nat.exists_eq_succ_of_ne_zero owed
    have lowered : lower layer.overdue = layer.overdue - 1 := by
      rw [same, Nat.succ_eq_add_one, agrees.lower, Nat.add_sub_cancel]
    exact lowered ▸ rfl

/-- A victim that is untracked is restored as the layer does it. -/
theorem evictWith_eq (agrees : Agrees lower restoring) (machine : Machine K V (LruLayer K σ))
    {victim : K} (untracked : (machine.layer.order.pushBack victim).1 = true) :
    (evictWith restoring delegate victim).run machine = (evict delegate victim).run machine := by
  have own : evict delegate victim = evictWith restore delegate victim := rfl
  rw [own, run_evictWith, run_evictWith]
  split
  case h_1 => rfl
  case h_2 =>
    dsimp only
    rw [agrees.restoring]
    exact untracked

theorem settleWith_eq (agrees : Agrees lower restoring) (atomic : delegate.Atomic shows)
    (rounds : Nat) {keys : List K} {table : Table K X}
    (owing : Owing shows most keys table machine.layer) :
    (settleWith lower restoring delegate rounds).run machine =
      (settle delegate rounds).run machine := by
  induction rounds generalizing machine keys table with
  | zero => rfl
  | succ rounds inductionHypothesis =>
    rw [settleWith, settle, takeOverdueWith_eq agrees]
    simp only [run_bind, run_updateLayer]
    rcases takeOverdue_owing owing with
      ⟨later, taken, -⟩ | ⟨front, victim, later, taken, popped, -⟩
    · rw [taken]
    · rw [taken]
      have untracked := popped.order.pushBack_untracked popped.matched.erase_last.1
      simp only [run_bind]
      rw [evictWith_eq agrees { machine with layer := later } untracked.1]
      rcases same : (evict delegate victim).run { machine with layer := later } with ⟨_ | _, last⟩
      · rfl
      · exact inductionHypothesis ((evict_owing atomic popped).of_run same).1

/-- A put that may differ where nothing is overdue and where a victim is tracked does not. -/
theorem putWith_eq (agrees : Agrees lower restoring) (atomic : delegate.Atomic shows)
    {capacity : Nat} (owes : Owes shows most capacity machine.layer) (key : K) (item : X) :
    (putWith lower restoring delegate key item).run machine =
      (LruLayer.put delegate key item).run machine := by
  obtain ⟨-, keys, table, owing⟩ := owes
  have ends : (below (delegate.put key item)).Ends machine
      (fun _ later => Stored shows most keys table key item later.layer) fun _ _ => True := by
    simp only [below, ends_within]
    refine (atomic.put _ _ table key item owing.shown).ends (fun _ later shown => ?_)
      fun _ _ _ => trivial
    exact ⟨owing.order, shown, owing.matched, owing.bounded, owing.capacity⟩
  unfold putWith LruLayer.put
  simp only [run_bind, count, run_modifyLayer, run_updateLayer]
  rcases ran : (below (delegate.put key item)).run machine with ⟨_ | _, later⟩
  · rfl
  · have stored := ends.of_run ran
    have counted : Stored shows most keys table key item
        { later.layer with counters := later.layer.counters.countPut } :=
      ⟨stored.order, stored.shown, stored.matched, stored.bounded, stored.capacity⟩
    dsimp only
    rcases track_owing counted with
      ⟨grown, tracked, next, -⟩ | ⟨front, victim, layer, tracked, popped, -⟩
    · rw [tracked]
      simp only [run_bind, run_layer]
      exact settleWith_eq agrees atomic _ next
    · rw [tracked]
      have untracked := popped.order.pushBack_untracked popped.matched.erase_last.1
      simp only [run_bind, run_layer]
      rw [evictWith_eq agrees { later with layer } untracked.1]
      rcases same : (evict delegate victim).run { later with layer } with ⟨_ | _, last⟩
      · rfl
      · exact settleWith_eq agrees atomic _ ((evict_owing atomic popped).of_run same).1

end Agrees

end LruLayer

/-! ### Capacities in effect -/

/-- The capacities in effect since the last successful clear, the latest first, after one more
occurrence. -/
def capacitiesAfter (capacities : List Nat) (occurrence : Occurrence K V) : List Nat :=
  match occurrence with
  | ⟨.setCapacity _ capacity, .ok (.settled (some (.ok ())))⟩ => capacity :: capacities
  | ⟨.call .clear, .ok _⟩ => capacities.take 1
  | _ => capacities

/-- The capacities that have been in effect since the construction or the last successful clear,
the latest first. -/
def capacities (initial : Nat) (past : List (Occurrence K V)) : List Nat :=
  past.foldl capacitiesAfter [initial]

/-- The largest of the capacities. -/
def greatest (capacities : List Nat) : Nat := capacities.foldr max 0

/-- If no capacity was ever lowered, the latest one is the largest. -/
theorem greatest_of_raised {current : Nat} {older : List Nat}
    (raised : (current :: older).Pairwise (· ≥ ·)) : greatest (current :: older) = current := by
  have least : greatest older ≤ current := by
    have all := (List.pairwise_cons.mp raised).1
    clear raised
    induction older with
    | nil => exact Nat.zero_le _
    | cons first rest inductionHypothesis =>
      obtain ⟨one, others⟩ := List.forall_mem_cons.mp all
      exact Nat.max_le.mpr ⟨one, inductionHypothesis others⟩
  exact Nat.max_eq_left least

theorem capacities_snoc (initial : Nat) (past : List (Occurrence K V))
    (occurrence : Occurrence K V) :
    capacities initial (past ++ [occurrence]) =
      capacitiesAfter (capacities initial past) occurrence := by
  rw [capacities, List.foldl_append]
  rfl

/-! ### Runs -/

/-- The shape of a recency layer over a store, with a probe between them. -/
abbrev Shape.watched : Shape .value := .lru (.probe .store)

/-- The machine of such a stack before anything has been done with it. -/
def watchedMachine (id : String) (hasLock : Bool) (capacity : Nat) :
    Machine K V (Shape.watched.State K V) :=
  { layer := { capacity, delegate := { delegate := { id, hasLock } } } }

/-- Assembling a recency layer and a probe around a store gives this machine. -/
theorem assemble_watched {id : String} (named : id ≠ "") (hasLock : Bool) {initial : Nat}
    (positive : 0 < initial) :
    Stack.assemble id hasLock [.lru initial, .probe] .value =
      .ok (⟨Shape.watched, (watchedMachine id hasLock initial).layer⟩ : Stack K V .value) := by
  have store : Stack.assemble id hasLock [] .value =
      .ok (⟨.store, { id, hasLock }⟩ : Stack K V .value) := Stack.ofStore_eq named hasLock
  rw [Stack.assemble, Stack.assemble, store]
  exact Stack.withLru_eq _ positive

/-- A fault is added to the probe, or nothing happens. -/
theorem addFault_watched {machine : Machine K V (Shape.watched.State K V)} (position : Nat)
    (fault : Fault) :
    (Shape.watched.addFault position fault).Ends machine
      (fun _ later => later.layer = machine.layer ∨
        later.layer = { machine.layer with
          delegate := { machine.layer.delegate with
            faults := machine.layer.delegate.faults ++ [fault] } })
      fun _ _ => False := by
  unfold Shape.addFault Shape.visit
  rw [ends_bind]
  split
  · exact Or.inl rfl
  · rw [LruLayer.below, ends_within]
    unfold Shape.visit
    split
    · exact Or.inr rfl
    · rw [ProbeLayer.below, ends_within]
      unfold Shape.visit
      split
      · exact Or.inl rfl
      · exact Or.inl rfl

variable [DecidableEq K]

/-- The table of the store, as long as the probe fails calls before they take effect. -/
def watchedShows (layer : ProbeLayer (Store K (Shared V))) (table : Table K (Shared V)) : Prop :=
  FailsBefore layer.faults ∧ layer.delegate.table = table

theorem watched_atomic :
    ((.probe .store : Shape .value).cache : Cache K V _ _).Atomic watchedShows :=
  ProbeLayer.atomic (atomic_store _) _

/-- The layer keeps up what it has to, for the capacities that the past has seen. -/
def KeepsUp (initial : Nat) (past : List (Occurrence K V))
    (machine : Machine K V (Shape.watched.State K V)) : Prop :=
  ∃ current older, capacities initial past = current :: older ∧
    LruLayer.Owes watchedShows (greatest (current :: older)) current machine.layer

theorem keepsUp_start (id : String) (hasLock : Bool) (initial : Nat) :
    KeepsUp initial ([] : List (Occurrence K V)) (watchedMachine id hasLock initial) := by
  refine ⟨initial, [], rfl, rfl, [], Table.empty, ?_⟩
  exact ⟨RecencyOrder.Represents.empty, ⟨List.forall_mem_nil _, rfl⟩, Matched.empty, Nat.zero_le _,
    Nat.le_max_left _ _⟩

/-- An occurrence that neither changes the capacity nor clears leaves the bound as it is. -/
theorem KeepsUp.next {initial current : Nat} {older : List Nat} {past : List (Occurrence K V)}
    (same : capacities initial past = current :: older) {occurrence : Occurrence K V}
    {later : Machine K V (Shape.watched.State K V)}
    (owes : LruLayer.Owes watchedShows (greatest (current :: older)) current later.layer)
    (silent : capacitiesAfter (current :: older) occurrence = current :: older) :
    KeepsUp initial (past ++ [occurrence]) later := by
  refine ⟨current, older, ?_, owes⟩
  rw [capacities_snoc, same, silent]

theorem keepsUp_call {initial : Nat} {past : List (Occurrence K V)}
    {machine : Machine K V (Shape.watched.State K V)} (keeps : KeepsUp initial past machine)
    (call : Call K (Shared V)) :
    (Shape.watched.perform (.call call)).Ends machine
      (fun outcome => KeepsUp initial (past ++ [⟨.call call, .ok outcome⟩]))
      fun cause => KeepsUp initial (past ++ [⟨.call call, .error cause⟩]) := by
  obtain ⟨current, older, same, owes⟩ := keeps
  simp only [Shape.perform, ends_map]
  cases call with
  | put key value =>
    simp only [Cache.call, ends_bind, ends_pure]
    exact (LruLayer.put_owes watched_atomic owes _ key value).ends
      (fun _ _ next => KeepsUp.next same next.1 rfl) fun _ _ next => KeepsUp.next same next rfl
  | get key =>
    simp only [Cache.call, ends_bind, ends_pure]
    exact (LruLayer.get_owes watched_atomic owes _ key).ends
      (fun _ _ next => KeepsUp.next same next rfl) fun _ _ next => KeepsUp.next same next rfl
  | remove key =>
    simp only [Cache.call, ends_bind, ends_pure]
    exact (LruLayer.remove_owes watched_atomic owes _ key).ends
      (fun _ _ next => KeepsUp.next same next rfl) fun _ _ next => KeepsUp.next same next rfl
  | clear =>
    simp only [Cache.call, ends_bind, ends_pure]
    refine (LruLayer.clear_owes watched_atomic owes _).ends (fun _ later next => ?_)
      fun _ _ next => KeepsUp.next same next rfl
    refine ⟨current, [], ?_, ?_⟩
    · rw [capacities_snoc, same]
      rfl
    · rw [greatest_of_raised (List.pairwise_singleton _ _)]
      exact next
  | length =>
    simp only [Cache.call, ends_bind, ends_pure]
    exact (LruLayer.length_owes watched_atomic owes _).ends
      (fun _ _ next => KeepsUp.next same next rfl) fun _ _ next => KeepsUp.next same next rfl
  | isEmpty =>
    simp only [Cache.call, Cache.isEmpty, ends_bind, ends_pure]
    exact (LruLayer.length_owes watched_atomic owes _).ends
      (fun _ _ next => KeepsUp.next same next rfl) fun _ _ next => KeepsUp.next same next rfl

/-- A new capacity is set, or nothing happens. -/
theorem setCapacity_watched {machine : Machine K V (Shape.watched.State K V)}
    (position capacity : Nat) :
    (Shape.watched.setCapacity position capacity).Ends machine
      (fun change later =>
        change = some (.ok ()) ∧ later.layer = { machine.layer with capacity } ∨
          change ≠ some (.ok ()) ∧ later.layer = machine.layer)
      fun _ _ => False := by
  unfold Shape.setCapacity Shape.visit
  rw [ends_map]
  split
  case isTrue =>
    rw [ends_map]
    unfold LruLayer.setCapacity
    rw [ends_map]
    split
    · refine Or.inr ⟨fun same => ?_, rfl⟩
      cases same
    · exact Or.inl ⟨rfl, rfl⟩
  case isFalse =>
    rw [LruLayer.below, ends_within]
    unfold Shape.visit
    split
    · refine Or.inr ⟨fun same => ?_, rfl⟩
      cases same
    · rw [ProbeLayer.below, ends_within]
      unfold Shape.visit
      split
      · refine Or.inr ⟨fun same => ?_, rfl⟩
        cases same
      · refine Or.inr ⟨fun same => ?_, rfl⟩
        cases same

/-- The deed makes no probe fail a call that the delegate has done. -/
def Deed.FailsBefore (deed : Deed K V) : Prop :=
  ∀ position fault, deed = .addFault position fault → fault.after = false

omit [DecidableEq K] in
theorem Deed.failsBefore_iff {deed : Deed K V} :
    deed.FailsBefore ↔ match deed with
      | .addFault _ fault => fault.after = false
      | _ => True := by
  cases deed <;> simp [FailsBefore]

instance (deed : Deed K V) : Decidable deed.FailsBefore :=
  match deed with
  | .addFault _ _ => decidable_of_iff _ Deed.failsBefore_iff.symm
  | .call _ | .reclaim _ | .reclaimAll | .forceReclaim _ | .setCapacity _ _ | .setWindow _
  | .hold _ _ | .release _ => .isTrue (Deed.failsBefore_iff.mpr trivial)

theorem keepsUp_perform {initial : Nat} (past : List (Occurrence K V))
    (machine : Machine K V (Shape.watched.State K V)) (deed : Deed K V) (before : deed.FailsBefore)
    (keeps : KeepsUp initial past machine) :
    (Shape.watched.perform deed).Ends machine
      (fun outcome => KeepsUp initial (past ++ [⟨deed, .ok outcome⟩]))
      fun cause => KeepsUp initial (past ++ [⟨deed, .error cause⟩]) := by
  have kept := keeps
  obtain ⟨current, older, same, owes⟩ := keeps
  cases deed with
  | call call => exact keepsUp_call kept call
  | reclaim limit => exact KeepsUp.next same owes rfl
  | reclaimAll => exact KeepsUp.next same owes rfl
  | forceReclaim key => exact KeepsUp.next same owes rfl
  | setCapacity position capacity =>
    rw [Shape.perform, ends_map]
    refine (setCapacity_watched position capacity).imp (fun change later next => ?_)
      fun _ _ no => no.elim
    rcases next with ⟨rfl, layer⟩ | ⟨refused, layer⟩
    · refine ⟨capacity, current :: older, ?_, ?_⟩
      · rw [capacities_snoc, same]
        rfl
      · rw [layer]
        exact owes.setCapacity capacity
    · refine KeepsUp.next same (layer ▸ owes) ?_
      rcases change with _ | _ | _
      · rfl
      · rfl
      · exact absurd rfl refused
  | setWindow window => exact KeepsUp.next same owes rfl
  | addFault position fault =>
    rw [Shape.perform, ends_bind]
    refine (addFault_watched position fault).imp (fun _ later next => ?_) fun _ _ no => no.elim
    refine KeepsUp.next same ?_ rfl
    rcases next with layer | layer
    · rw [layer]
      exact owes
    · rw [layer]
      obtain ⟨rfl, keys, table, owing⟩ := owes
      refine ⟨rfl, keys, table, owing.kept rfl rfl rfl ⟨?_, owing.shown.2⟩⟩
      refine List.forall_mem_append.mpr ⟨owing.shown.1, ?_⟩
      exact List.forall_mem_singleton.mpr (before position fault rfl)
  | hold name value => exact KeepsUp.next same owes rfl
  | release name => exact KeepsUp.next same owes rfl

/-- Every run keeps up what the layer has to. -/
theorem keepsUp_run (id : String) (hasLock : Bool) (initial : Nat) (deeds : List (Deed K V))
    (before : ∀ deed ∈ deeds, deed.FailsBefore) :
    KeepsUp initial (Shape.watched.run deeds (watchedMachine id hasLock initial)).1
      (Shape.watched.run deeds (watchedMachine id hasLock initial)).2 :=
  Shape.run_induction (KeepsUp initial) Deed.FailsBefore keepsUp_perform deeds before []
    (watchedMachine id hasLock initial) (keepsUp_start id hasLock initial)

/-- After every run, whatever calls of the store fail before they take effect: the tracked keys are
the stored ones, each tracked once; there are no more of them than the largest capacity in effect
since the last successful clear and the overdue victims; and a put that succeeds next owes nothing,
so that it leaves no more keys than the capacity if that was never lowered. The put never lowers
the number of overdue victims at zero and never restores a victim that is tracked: it runs the same
with any other behaviour in these cases. -/
theorem watched_keeps_up (id : String) (hasLock : Bool) (initial : Nat) (deeds : List (Deed K V))
    (before : ∀ deed ∈ deeds, deed.FailsBefore) :
    let ended := Shape.watched.run deeds (watchedMachine id hasLock initial)
    let since := capacities initial ended.1
    let layer := ended.2.layer
    layer.order.toList.Nodup ∧
      (∀ key, key ∈ layer.order.toList ↔ layer.delegate.delegate.contains key = true) ∧
      layer.order.length ≤ greatest since + layer.overdue ∧
      (∀ key value outcome,
        let put := (Shape.watched.perform (.call (.put key value))).run ended.2
        put.1 = .ok outcome →
          put.2.layer.overdue = 0 ∧
            (since.Pairwise (· ≥ ·) →
              put.2.layer.order.length ≤ put.2.layer.capacity ∧
                put.2.layer.delegate.delegate.table.size ≤ put.2.layer.capacity)) ∧
      ∀ lower restoring, LruLayer.Agrees lower restoring → ∀ key value,
        (LruLayer.putWith lower restoring (Shape.probe .store).cache key value).run ended.2 =
          (Shape.watched.cache.put key value).run ended.2 := by
  intro ended since layer
  obtain ⟨current, older, same, owes⟩ := keepsUp_run id hasLock initial deeds before
  have all := owes
  obtain ⟨-, keys, table, owing⟩ := owes
  have same : since = current :: older := same
  refine ⟨?_, fun key => ?_, ?_, ?_, ?_⟩
  · rw [owing.order.toList]
    exact owing.order.nodup
  · rw [owing.order.toList, Store.contains, Table.contains_iff, owing.shown.2]
    exact owing.matched.same key
  · rw [same, owing.order.length]
    exact owing.bounded
  · intro key value outcome put answered
    have ends : (Shape.watched.perform (.call (.put key value))).Ends ended.2
        (fun _ later =>
          LruLayer.Owes watchedShows (greatest (current :: older)) current later.layer ∧
            later.layer.overdue = 0)
        fun _ _ => True := by
      simp only [Shape.perform, Cache.call, ends_map, ends_bind, ends_pure]
      exact (LruLayer.put_owes watched_atomic all _ key value).ends (fun _ _ next => next)
        fun _ _ _ => trivial
    obtain ⟨⟨capacity, keys, table, owing⟩, settled⟩ := ends.of_answer answered
    refine ⟨settled, fun raised => ?_⟩
    have bounded := owing.bounded
    rw [same] at raised
    rw [greatest_of_raised raised, settled] at bounded
    rw [owing.order.length, capacity, owing.shown.2, ← owing.matched.length]
    exact ⟨bounded, bounded⟩
  · intro lower restoring agrees key value
    exact LruLayer.putWith_eq agrees watched_atomic all key value

/-- A put whose eviction fails. -/
def failedEviction : List (Deed Nat String) :=
  [.call (.put 1 ⟨0, "one"⟩),
    .addFault 1 { method := .remove, error := .backend "pages" "store is down" },
    .call (.put 2 ⟨1, "two"⟩)]

/-- The victim stays tracked and overdue, and the next put evicts it. -/
theorem watched_keeps_up_failedEviction :
    Stack.assemble "pages" false [.lru 1, .probe] .value =
        .ok (⟨Shape.watched, (watchedMachine "pages" false 1).layer⟩ : Stack Nat String .value) ∧
      (∀ deed ∈ failedEviction, deed.FailsBefore) ∧
      let ended := Shape.watched.run failedEviction (watchedMachine "pages" false 1)
      let next := (Shape.watched.perform (.call (.put 3 ⟨2, "three"⟩))).run ended.2
      ended.2.layer.order.toList = [2, 1] ∧ ended.2.layer.overdue = 1 ∧
        ended.2.layer.order.length ≤ greatest (capacities 1 ended.1) + ended.2.layer.overdue ∧
        next.1 = .ok (.reply .done) ∧ next.2.layer.overdue = 0 ∧
        next.2.layer.order.length ≤ next.2.layer.capacity := by
  have before : ∀ deed ∈ failedEviction, deed.FailsBefore := by
    intro deed member position fault same
    subst same
    simp only [failedEviction, List.mem_cons, Deed.addFault.injEq, List.not_mem_nil, reduceCtorEq,
      or_false, false_or] at member
    rw [member.2]
  obtain ⟨-, -, bounded, next, -⟩ := watched_keeps_up "pages" false 1 failedEviction before
  have succeeded : ((Shape.watched.perform (.call (.put 3 ⟨2, "three"⟩))).run
      (Shape.watched.run failedEviction (watchedMachine "pages" false 1)).2).1 =
        .ok (.reply .done) := by decide +kernel
  obtain ⟨settled, fits⟩ := next 3 ⟨2, "three"⟩ _ succeeded
  exact ⟨assemble_watched (by decide) false (by decide), before, rfl, rfl, bounded, succeeded,
    settled, (fits (by decide)).1⟩

end LayeredCache
