/-
This file proves that failed evictions heal. A recency layer over a store whose removals may fail
before they take effect is compared with the same layer over a store that never fails.

Both are compared with the plain recency cache. The keys of the plain cache are the first ones of
the tracked keys, as many as the capacity allows, and the store has the same items under them
(`Leads`). Behind them stand the victims that are overdue. A victim that is given up stood behind
the leading keys, so neither an eviction nor its failure moves them; and a put that succeeds leaves
nothing behind them.
-/

import LayeredCache.Proofs.Overdue
import LayeredCache.Proofs.Recent

namespace LayeredCache

open LayeredCache.Action

variable {K V σ X : Type}

/-! ### Probes that fail removals -/

/-- Taking a fault leaves the methods that faults are for as they are. -/
theorem Fault.take_methods (method : Method) (faults : List Fault) :
    (Fault.take method faults).2.map (·.method) = faults.map (·.method) := by
  induction faults with
  | nil => rfl
  | cons fault rest inductionHypothesis =>
    unfold Fault.take
    split
    · split <;> rfl
    · exact congrArg (fault.method :: ·) inductionHypothesis

/-- No fault applies to the calls of a method that none of them is for. -/
theorem Fault.take_others {method : Method} {faults : List Fault}
    (others : method ∉ faults.map (·.method)) : Fault.take method faults = (none, faults) := by
  induction faults with
  | nil => rfl
  | cons fault rest inductionHypothesis =>
    rw [List.map_cons, List.mem_cons, not_or] at others
    unfold Fault.take
    rw [if_neg fun same => others.1 same.1.symm, inductionHypothesis others.2]

namespace ProbeLayer

variable {α : Type} {position : Nat} {method : Method} {key : Option K} {action : Action K V σ α}
  {layer : ProbeLayer σ} {memory : Memory K V} {done : α → σ → Memory K V → Prop}
  {failed : σ → Memory K V → Prop}

/-- Whatever a call does, the methods that faults are for stay as they are. -/
theorem intercept_methods (leaves : action.Leaves layer.delegate memory done failed) :
    (intercept position method key action).Leaves layer memory
      (fun _ later _ => later.faults.map (·.method) = layer.faults.map (·.method))
      fun later _ => later.faults.map (·.method) = layer.faults.map (·.method) := by
  intro trace
  have same := Fault.take_methods method layer.faults
  simp only [intercept, below, fail, ends_bind, ends_updateLayer, ends_note]
  split
  case h_1 =>
    rw [ends_within]
    exact leaves.ends (fun _ _ _ => same) fun _ _ _ => same
  case h_2 =>
    split
    case isTrue =>
      simp only [ends_bind, ends_within, ends_note, ends_throw]
      exact leaves.ends (fun _ _ _ => same) fun _ _ _ => same
    case isFalse => exact same

/-- A probe passes on the calls of a method that none of its faults is for. -/
theorem intercept_passes (others : method ∉ layer.faults.map (·.method))
    (leaves : action.Leaves layer.delegate memory done failed) :
    (intercept position method key action).Leaves layer memory
      (fun value later memory => later.faults = layer.faults ∧ done value later.delegate memory)
      fun later memory => later.faults = layer.faults ∧ failed later.delegate memory := by
  intro trace
  simp only [intercept, below, fail, ends_bind, ends_updateLayer, ends_note,
    Fault.take_others others, ends_within]
  exact leaves.ends (fun _ _ next => ⟨rfl, next⟩) fun _ _ next => ⟨rfl, next⟩

end ProbeLayer

/-! ### Leading keys -/

/-- The first keys, as many as the capacity allows, are those of the plain cache in the same order,
and the table has the same items under them. -/
structure Leads [DecidableEq K] (capacity : Nat) (plain : Table K X) (keys : List K)
    (table : Table K X) : Prop where
  keys : keys.take capacity = plain.keys
  items : ∀ key ∈ plain.keys, table.find? key = plain.find? key

variable [DecidableEq K]

/-- Of the first keys without one key, it does not matter whether it is taken out before or after
the rest is left off. -/
theorem take_erase (keys : List K) (key : K) (most : Nat) :
    ((keys.take (most + 1)).erase key).take most = (keys.erase key).take most := by
  induction keys generalizing most with
  | nil => rfl
  | cons head rest inductionHypothesis =>
    rw [List.take_succ_cons, List.erase_cons, List.erase_cons]
    split
    case isTrue => rw [List.take_take, Nat.min_self]
    case isFalse =>
      cases most with
      | zero => rfl
      | succ most => rw [List.take_succ_cons, List.take_succ_cons, inductionHypothesis]

namespace Leads

variable {capacity : Nat} {plain table : Table K X} {keys : List K}

/-- A key that stands behind the leading ones can be given up. -/
theorem sheds (capacity : Nat) (plain : Table K X) :
    LruLayer.Sheds capacity (Leads capacity plain) := by
  intro front victim table above gone leads
  have same := leads.keys
  rw [List.take_append_of_le_length above] at same
  refine ⟨same, fun key leading => ?_⟩
  have different : key ≠ victim := by
    rintro rfl
    exact gone (List.mem_of_mem_take (same ▸ leading))
  rw [Table.find?_erase_other table different, leads.items key leading]

/-- The leading keys after a put are those of the plain cache after the put. -/
theorem put (leads : Leads capacity plain keys table) (nodup : keys.Nodup) (key : K) (item : X) :
    Leads capacity (Recent.reply (some capacity) plain (.put key item)).2 (key :: keys.erase key)
      (table.insert key item) := by
  have distinct : plain.Distinct := by
    unfold Table.Distinct
    rw [← leads.keys]
    exact nodup.sublist (List.take_sublist _ _)
  have inserted : (plain.insert key item).keys = key :: (keys.take capacity).erase key := by
    rw [Table.keys_insert, ← leads.keys, Recent.Tracking.erase_eq_filter]
    exact nodup.sublist (List.take_sublist _ _)
  have few : (plain.insert key item).size ≤ capacity + 1 := by
    rw [← Table.keys_length, inserted, List.length_cons]
    have short : ((keys.take capacity).erase key).length ≤ (keys.take capacity).length :=
      List.length_erase_le
    have taken : (keys.take capacity).length ≤ capacity := List.length_take_le _ _
    omega
  constructor
  · rw [Recent.reply, Table.cut_eq_take few]
    show _ = ((plain.insert key item).entries.take capacity).map Prod.fst
    rw [List.map_take]
    show _ = (plain.insert key item).keys.take capacity
    rw [inserted]
    cases capacity with
    | zero => rfl
    | succ most => rw [List.take_succ_cons, List.take_succ_cons, take_erase]
  · intro other leading
    have kept := (Table.keys_cut_sublist _ _).subset leading
    rw [Recent.reply, (distinct.insert key item).find?_cut leading, Table.find?_insert,
      Table.find?_insert]
    split
    case isTrue => rfl
    case isFalse different =>
      refine leads.items other ?_
      rw [Table.keys_insert, List.mem_cons, List.mem_filter] at kept
      exact (kept.resolve_left different).1

/-- Once no key stands behind the leading ones, keys and table are those of the plain cache. -/
theorem settled (leads : Leads capacity plain keys table) (matched : Matched keys table)
    (fits : keys.length ≤ capacity) :
    keys = plain.keys ∧ ∀ key, table.find? key = plain.find? key := by
  have same : keys = plain.keys := by
    rw [← leads.keys, List.take_of_length_le fits]
  refine ⟨same, fun key => ?_⟩
  by_cases leading : key ∈ plain.keys
  · exact leads.items key leading
  · have missing : key ∉ table.keys := fun stored =>
      leading (same ▸ (matched.same key).mpr stored)
    rw [Table.find?_eq_none.mpr missing, Table.find?_eq_none.mpr leading]

end Leads

/-! ### One put -/

/-- The layer has the capacity, only removals of the store fail, and what the plain cache holds
leads what the layer tracks. -/
structure Heals (capacity : Nat) (plain : Table K (Shared V)) (layer : Shape.watched.State K V) :
    Prop where
  removals : ∀ method ∈ layer.delegate.faults.map (·.method), method = .remove
  owes : LruLayer.OwesSuch (Leads capacity plain) watchedShows capacity capacity layer

variable {capacity : Nat} {plain : Table K (Shared V)} {layer : Shape.watched.State K V}

/-- If only removals fail, the store accepts every item. -/
theorem watched_accepts {layer : ProbeLayer (Store K (Shared V))} {table : Table K (Shared V)}
    (removals : ∀ method ∈ layer.faults.map (·.method), method = .remove)
    (shown : watchedShows layer table) (memory : Memory K V) (key : K) (value : Shared V) :
    ((Shape.probe .store : Shape .value).cache.put key value).Leaves layer memory
      (fun _ later _ => later.faults = layer.faults ∧ watchedShows later (table.insert key value))
      fun _ _ => False := by
  have others : Method.put ∉ layer.faults.map (·.method) := fun listed => by
    cases removals _ listed
  have stored : ((Store.cache (V := V) Content.value.handles).put key value).Leaves layer.delegate
      memory (fun _ later _ => later.table = table.insert key value) fun _ _ => False :=
    fun _ => shown.2 ▸ rfl
  exact (ProbeLayer.intercept_passes others stored).imp
    (fun _ _ _ next => ⟨next.1, next.1 ▸ shown.1, next.2⟩) fun _ _ no => no.2

/-- Whatever becomes of a removal, the methods that fail are the same. -/
theorem watched_remove_methods {methods : List Method} (victim : K)
    (layer : ProbeLayer (Store K (Shared V))) (memory : Memory K V)
    (same : layer.faults.map (·.method) = methods) :
    ((Shape.probe .store : Shape .value).cache.remove victim).Leaves layer memory
      (fun _ later _ => later.faults.map (·.method) = methods)
      fun later _ => later.faults.map (·.method) = methods := by
  subst same
  exact ProbeLayer.intercept_methods
    ((atomic_store (V := V) Content.value.handles).remove layer.delegate memory _ victim rfl)

/-- A removal that meets no fault succeeds. -/
theorem watched_remove_calm (victim : K) (layer : ProbeLayer (Store K (Shared V)))
    (memory : Memory K V) (calm : layer.faults = []) :
    ((Shape.probe .store : Shape .value).cache.remove victim).Leaves layer memory
      (fun _ later _ => later.faults = []) fun _ _ => False := by
  have removed : ((Store.cache (V := V) Content.value.handles).remove victim).Leaves layer.delegate
      memory (fun _ _ _ => True) fun _ _ => False := fun _ => trivial
  exact (ProbeLayer.intercept_passes (by simp [calm]) removed).imp
    (fun _ _ _ next => next.1.trans calm) fun _ _ no => no.2

/-- A put is a put of the plain cache, whether it fails or not, and owes nothing if it does not. -/
theorem Heals.put (heals : Heals capacity plain layer) (memory : Memory K V)
    (key : K) (value : Shared V) :
    (Shape.watched.cache.put key value).Leaves layer memory
      (fun _ later _ => Heals capacity (Recent.reply (some capacity) plain (.put key value)).2 later ∧
        later.overdue = 0)
      fun later _ => Heals capacity (Recent.reply (some capacity) plain (.put key value)).2 later := by
  intro trace
  obtain ⟨removals, rfl, keys, table, owing, leads⟩ := heals
  have accepts := watched_accepts removals owing.shown memory key value
  have owes := LruLayer.put_owing watched_atomic owing (Leads.sheds layer.capacity _)
    (leads.put owing.matched.nodup key value) (accepts.imp (fun _ _ _ next => next.2) fun _ _ no => no)
  have methods := LruLayer.put_keeps watched_remove_methods
    (accepts.imp (fun _ _ _ next => congrArg (List.map (·.method)) next.1) fun _ _ no => no.elim)
  refine ((owes trace).and (methods trace)).imp (fun _ later next => ?_) fun _ later next => ?_
  · exact ⟨⟨next.2 ▸ removals, next.1.1⟩, next.1.2⟩
  · rcases next.1 with such | ⟨_, _, no⟩
    · exact ⟨next.2 ▸ removals, such⟩
    · exact no.elim

/-- Once nothing is owed, the layer tracks and the store holds what the plain cache does. -/
theorem Heals.settled (heals : Heals capacity plain layer) (settled : layer.overdue = 0) :
    layer.order.toList = plain.keys ∧
      ∀ key, layer.delegate.delegate.table.find? key = plain.find? key := by
  obtain ⟨-, rfl, keys, table, owing, leads⟩ := heals
  have bounded := owing.bounded
  rw [settled] at bounded
  rw [owing.order.toList, owing.shown.2]
  exact leads.settled owing.matched bounded

/-- A put that meets no fault is a put of the plain cache and succeeds. -/
theorem Heals.put_calm (heals : Heals capacity plain layer) (calm : layer.delegate.faults = [])
    (memory : Memory K V) (key : K) (value : Shared V) :
    (Shape.watched.cache.put key value).Leaves layer memory
      (fun _ later _ => Heals capacity (Recent.reply (some capacity) plain (.put key value)).2 later ∧
        later.overdue = 0 ∧ later.delegate.faults = [])
      fun _ _ => False := by
  obtain ⟨keys, table, owing, -⟩ := heals.owes.2
  have accepts := watched_accepts heals.removals owing.shown memory key value
  have succeeds := LruLayer.put_keeps watched_remove_calm
    (accepts.imp (fun _ _ _ next => next.1.trans calm) fun _ _ no => no)
  exact fun trace => ((heals.put memory key value trace).and (succeeds trace)).imp
    (fun _ _ next => ⟨next.1.1, next.1.2, next.2⟩) fun _ _ no => no.2

/-- One more fault for removals leaves everything as it is. -/
theorem Heals.addFault (heals : Heals capacity plain layer) {fault : Fault}
    (removal : fault.method = .remove) (before : fault.after = false) :
    Heals capacity plain { layer with
      delegate := { layer.delegate with faults := layer.delegate.faults ++ [fault] } } := by
  obtain ⟨removals, rfl, keys, table, owing, leads⟩ := heals
  constructor
  · rw [List.map_append]
    exact List.forall_mem_append.mpr ⟨removals, List.forall_mem_singleton.mpr removal⟩
  · refine ⟨rfl, keys, table, owing.kept rfl rfl rfl ⟨?_, owing.shown.2⟩, leads⟩
    exact List.forall_mem_append.mpr ⟨owing.shown.1, List.forall_mem_singleton.mpr before⟩

/-! ### Runs -/

/-- The deed is a put. -/
def Deed.isPut : Deed K V → Bool
  | .call (.put _ _) => true
  | _ => false

/-- The deed makes a probe fail removals before they take effect. -/
def Deed.failsRemovals : Deed K V → Bool
  | .addFault _ fault => fault.method = .remove ∧ fault.after = false
  | _ => false

/-- The table of the plain cache after a deed. -/
def Deed.plainly (capacity : Nat) (plain : Table K (Shared V)) : Deed K V → Table K (Shared V)
  | .call request => (Recent.reply (some capacity) plain request).2
  | _ => plain

/-- The plain cache takes no notice of faults. -/
theorem Deed.plainly_fault {deed : Deed K V} (fault : deed.failsRemovals) :
    deed.plainly capacity plain = plain := by
  cases deed with
  | addFault => rfl
  | _ => cases fault

theorem Deed.plainly_filter {deeds : List (Deed K V)}
    (allowed : ∀ deed ∈ deeds, deed.isPut ∨ deed.failsRemovals) :
    (deeds.filter isPut).foldl (plainly capacity) plain = deeds.foldl (plainly capacity) plain := by
  induction deeds generalizing plain with
  | nil => rfl
  | cons deed rest inductionHypothesis =>
    obtain ⟨first, others⟩ := List.forall_mem_cons.mp allowed
    rw [List.filter_cons, List.foldl_cons]
    split
    case isTrue => exact inductionHypothesis others
    case isFalse other =>
      rw [inductionHypothesis others, plainly_fault (first.resolve_left other)]

section Machines

variable {machine : Machine K V (Shape.watched.State K V)}

theorem Heals.perform_put (heals : Heals capacity plain machine.layer) (key : K)
    (value : Shared V) :
    (Shape.watched.perform (.call (.put key value))).Ends machine
      (fun outcome later => outcome = .reply .done ∧
        Heals capacity (Deed.plainly capacity plain (.call (.put key value))) later.layer ∧
        later.layer.overdue = 0)
      fun _ later =>
        Heals capacity (Deed.plainly capacity plain (.call (.put key value))) later.layer := by
  simp only [Shape.perform, Cache.call, ends_map, ends_bind, ends_pure]
  exact (heals.put _ key value).ends (fun _ _ next => ⟨trivial, next⟩) fun _ _ next => next

theorem Heals.perform_put_calm (heals : Heals capacity plain machine.layer)
    (calm : machine.layer.delegate.faults = []) (key : K) (value : Shared V) :
    (Shape.watched.perform (.call (.put key value))).Ends machine
      (fun outcome later => outcome = .reply .done ∧
        Heals capacity (Deed.plainly capacity plain (.call (.put key value))) later.layer ∧
        later.layer.overdue = 0 ∧ later.layer.delegate.faults = [])
      fun _ _ => False := by
  simp only [Shape.perform, Cache.call, ends_map, ends_bind, ends_pure]
  exact (heals.put_calm calm _ key value).ends (fun _ _ next => ⟨trivial, next⟩) fun _ _ no => no

theorem Heals.perform (heals : Heals capacity plain machine.layer) {deed : Deed K V}
    (allowed : deed.isPut ∨ deed.failsRemovals) :
    (Shape.watched.perform deed).Ends machine
      (fun _ later => Heals capacity (deed.plainly capacity plain) later.layer)
      fun _ later => Heals capacity (deed.plainly capacity plain) later.layer := by
  rcases allowed with put | removals
  · cases deed with
    | call call =>
      cases call with
      | put key value =>
        exact (heals.perform_put key value).imp (fun _ _ next => next.2.1) fun _ _ next => next
      | _ => cases put
    | _ => cases put
  · rw [Deed.plainly_fault removals]
    cases deed with
    | addFault position fault =>
      have removal : fault.method = .remove ∧ fault.after = false := of_decide_eq_true removals
      rw [Shape.perform, ends_bind]
      refine (addFault_watched position fault).imp (fun _ later next => ?_) fun _ _ no => no.elim
      rw [ends_pure]
      rcases next with same | added
      · exact same ▸ heals
      · exact added ▸ heals.addFault removal.1 removal.2
    | _ => cases removals

/-- Every run of puts, whatever removals fail, is a run of the plain cache. -/
theorem Heals.run (heals : Heals capacity plain machine.layer) {deeds : List (Deed K V)}
    (allowed : ∀ deed ∈ deeds, deed.isPut ∨ deed.failsRemovals) :
    Heals capacity (deeds.foldl (Deed.plainly capacity) plain)
      (Shape.watched.run deeds machine).2.layer := by
  induction deeds generalizing plain machine with
  | nil => exact heals
  | cons deed rest inductionHypothesis =>
    obtain ⟨first, others⟩ := List.forall_mem_cons.mp allowed
    exact inductionHypothesis (heals.perform first).later others

/-- A run of puts without faults succeeds and never owes anything. -/
theorem Heals.run_calm (heals : Heals capacity plain machine.layer)
    (calm : machine.layer.delegate.faults = []) (settled : machine.layer.overdue = 0)
    {deeds : List (Deed K V)} (puts : ∀ deed ∈ deeds, deed.isPut) :
    (∀ occurrence ∈ (Shape.watched.run deeds machine).1, occurrence.result = .ok (.reply .done)) ∧
      (Shape.watched.run deeds machine).2.layer.delegate.faults = [] ∧
      (Shape.watched.run deeds machine).2.layer.overdue = 0 := by
  induction deeds generalizing plain machine with
  | nil => exact ⟨List.forall_mem_nil _, calm, settled⟩
  | cons deed rest inductionHypothesis =>
    obtain ⟨first, others⟩ := List.forall_mem_cons.mp puts
    cases deed with
    | call call =>
      cases call with
      | put key value =>
        obtain ⟨outcome, later, same, rfl, heals, settled, calm⟩ :=
          (heals.perform_put_calm calm key value).run_eq
        rw [Shape.run_cons, same]
        obtain ⟨answers, last⟩ := inductionHypothesis heals calm settled others
        exact ⟨List.forall_mem_cons.mpr ⟨rfl, answers⟩, last⟩
      | _ => cases first
    | _ => cases first

end Machines

/-- The machine before anything has been done with it. -/
theorem heals_start (id : String) (hasLock : Bool) (capacity : Nat) :
    Heals capacity Table.empty (watchedMachine id hasLock capacity : Machine K V _).layer where
  removals := List.forall_mem_nil _
  owes := ⟨rfl, [], Table.empty, ⟨RecencyOrder.Represents.empty, ⟨List.forall_mem_nil _, rfl⟩,
    Matched.empty, Nat.zero_le _, Nat.le_refl _⟩, List.take_nil, List.forall_mem_nil _⟩

/-- Failed evictions heal. Puts are done with a recency layer above a store whose removals may fail
before they take effect, in whatever calls, and with a copy that has no faults. The copy never
fails. After every put, whether it fails or not, the first tracked keys, as many as the capacity
allows, are those that the copy tracks, in the same order and with the same items; and after every
put that succeeds the two track the same keys in the same order and store the same items. -/
theorem watched_heals (id : String) (hasLock : Bool) (capacity : Nat) (deeds : List (Deed K V))
    (allowed : ∀ deed ∈ deeds, deed.isPut ∨ deed.failsRemovals) :
    let faulty := Shape.watched.run deeds (watchedMachine id hasLock capacity)
    let sound := Shape.watched.run (deeds.filter Deed.isPut) (watchedMachine id hasLock capacity)
    (∀ occurrence ∈ sound.1, occurrence.result = .ok (.reply .done)) ∧
      faulty.2.layer.order.toList.take capacity = sound.2.layer.order.toList ∧
      (∀ key ∈ sound.2.layer.order.toList,
        faulty.2.layer.delegate.delegate.table.find? key =
          sound.2.layer.delegate.delegate.table.find? key) ∧
      ∀ key value outcome,
        let put := Shape.watched.perform (.call (.put key value))
        (put.run faulty.2).1 = .ok outcome →
          (put.run sound.2).1 = .ok outcome ∧
            (put.run faulty.2).2.layer.order.toList = (put.run sound.2).2.layer.order.toList ∧
            ∀ other, (put.run faulty.2).2.layer.delegate.delegate.table.find? other =
              (put.run sound.2).2.layer.delegate.delegate.table.find? other := by
  intro faulty sound
  have start := heals_start (K := K) (V := V) id hasLock capacity
  have puts : ∀ deed ∈ deeds.filter Deed.isPut, deed.isPut := fun _ listed =>
    (List.mem_filter.mp listed).2
  have healing : Heals capacity (deeds.foldl (Deed.plainly capacity) Table.empty) faulty.2.layer :=
    start.run allowed
  have copied : Heals capacity (deeds.foldl (Deed.plainly capacity) Table.empty) sound.2.layer :=
    Deed.plainly_filter allowed ▸ start.run fun deed listed => Or.inl (puts deed listed)
  obtain ⟨answers, calm, settled⟩ := start.run_calm rfl rfl puts
  obtain ⟨tracked, stored⟩ := copied.settled settled
  refine ⟨answers, ?_, fun key leading => ?_, fun key value outcome => ?_⟩
  · obtain ⟨-, -, keys, table, owing, leads⟩ := healing
    rw [owing.order.toList, leads.keys]
    exact tracked.symm
  · obtain ⟨-, -, keys, table, owing, leads⟩ := healing
    rw [owing.shown.2, leads.items key (tracked ▸ leading)]
    exact (stored key).symm
  · intro put answered
    obtain ⟨rfl, next, settled⟩ := (healing.perform_put key value).of_answer answered
    obtain ⟨_, later, same, rfl, copy, copySettled, -⟩ :=
      (copied.perform_put_calm calm key value).run_eq
    obtain ⟨keys, items⟩ := next.settled settled
    obtain ⟨copyKeys, copyItems⟩ := copy.settled copySettled
    have same : put.run sound.2 = (.ok (.reply .done), later) := same
    rw [same]
    exact ⟨rfl, keys.trans copyKeys.symm, fun other => (items other).trans (copyItems other).symm⟩

/-- Two evictions in a row fail. The first of the two victims has been overwritten in between. -/
def failedTwice : List (Deed Nat String) :=
  [.call (.put 1 ⟨0, "one"⟩), .call (.put 2 ⟨1, "two"⟩),
    .addFault 1 { method := .remove, times := 2, error := .backend "pages" "store is down" },
    .call (.put 3 ⟨2, "three"⟩), .call (.put 1 ⟨3, "uno"⟩)]

/-- Two of the three tracked keys are those of the copy, and the next put leaves no other. -/
theorem watched_heals_failedTwice :
    (∀ deed ∈ failedTwice, deed.isPut ∨ deed.failsRemovals) ∧
      let faulty := Shape.watched.run failedTwice (watchedMachine "pages" false 2)
      let sound := Shape.watched.run (failedTwice.filter Deed.isPut)
        (watchedMachine "pages" false 2)
      let put := Shape.watched.perform (.call (.put 4 ⟨4, "four"⟩))
      faulty.2.layer.order.toList = [1, 3, 2] ∧
        faulty.2.layer.order.toList.take 2 = sound.2.layer.order.toList ∧
        (put.run faulty.2).1 = .ok (.reply .done) ∧
        (put.run faulty.2).2.layer.order.toList = (put.run sound.2).2.layer.order.toList := by
  have allowed : ∀ deed ∈ failedTwice, deed.isPut ∨ deed.failsRemovals := by decide
  obtain ⟨-, leading, -, next⟩ := watched_heals "pages" false 2 failedTwice allowed
  have succeeded : ((Shape.watched.perform (.call (.put 4 ⟨4, "four"⟩))).run
      (Shape.watched.run failedTwice (watchedMachine "pages" false 2)).2).1 =
        .ok (.reply .done) := by decide +kernel
  exact ⟨allowed, by decide +kernel, leading, succeeded, (next 4 ⟨4, "four"⟩ _ succeeded).2.1⟩

end LayeredCache
