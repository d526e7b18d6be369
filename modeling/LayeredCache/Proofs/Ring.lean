/-
This file proves that the values that were read, and the windows at those moments, determine the
ring of a soft layer.

A read puts its value in front of the ring and cuts the ring to the window that is in effect then.
The window can move between two reads, so what is left of the ring depends on all windows since the
values were read: each of them bounds the ring by itself and the reads that came after it. Nothing
else touches the ring but a clear, which empties it even if it fails afterwards. In particular
misses, reclaimed values, failures of the delegate, drains, sweeps and changes of the window do not.
-/

import LayeredCache.Proofs.Building
import LayeredCache.Proofs.Drains
import LayeredCache.Proofs.Usage

namespace LayeredCache.SoftLayer

open LayeredCache.Action

variable {K V σ α β : Type}

/-! ### Reads -/

/-- A look-up that returned a value, with the window that was in effect. -/
structure Read (V : Type) where
  value : Shared V
  window : Nat

/-- The number of values that the reads, latest first, leave in a ring that was empty before them:
no more than were read, and after each read no more than its window and the reads since. -/
def held (reads : List (Read V)) : Nat :=
  (reads.mapIdx fun age read => read.window + age).foldr min reads.length

theorem foldr_min_map_succ (bounds : List Nat) (number : Nat) :
    (bounds.map (· + 1)).foldr min (number + 1) = bounds.foldr min number + 1 := by
  induction bounds with
  | nil => rfl
  | cons bound bounds inductionHypothesis =>
    rw [List.map_cons, List.foldr_cons, List.foldr_cons, inductionHypothesis]
    omega

/-- A read adds one value and then cuts to its window. -/
theorem held_cons (read : Read V) (reads : List (Read V)) :
    held (read :: reads) = min read.window (held reads + 1) := by
  have older : (reads.mapIdx fun age read => read.window + (age + 1)) =
      (reads.mapIdx fun age read => read.window + age).map (· + 1) := by
    refine List.ext_getElem? fun age => ?_
    rw [List.getElem?_mapIdx, List.getElem?_map, List.getElem?_mapIdx, Option.map_map]
    rfl
  rw [held, List.mapIdx_cons, List.foldr_cons, List.length_cons, older, foldr_min_map_succ]
  rfl

theorem held_le_length (reads : List (Read V)) : held reads ≤ reads.length := by
  induction reads with
  | nil => exact Nat.le_refl _
  | cons read reads inductionHypothesis =>
    rw [held_cons, List.length_cons]
    omega

/-- Later reads add no more than themselves, whatever their windows are. -/
theorem held_append (newer reads : List (Read V)) :
    held (newer ++ reads) ≤ newer.length + held reads := by
  induction newer with
  | nil => exact Nat.le_add_left _ _
  | cons read newer inductionHypothesis =>
    rw [List.cons_append, held_cons, List.length_cons]
    omega

/-- While the window does not move, it alone bounds the ring. -/
theorem held_of_constant {reads : List (Read V)} {window : Nat}
    (constant : ∀ read ∈ reads, read.window = window) :
    held reads = min reads.length window := by
  induction reads with
  | nil => exact (Nat.zero_min window).symm
  | cons read reads inductionHypothesis =>
    obtain ⟨first, constant⟩ := List.forall_mem_cons.mp constant
    rw [held_cons, inductionHypothesis constant, first, List.length_cons]
    omega

/-- The ring after the reads. -/
def ringOf (reads : List (Read V)) : List (Shared V) := (reads.map Read.value).take (held reads)

theorem ringOf_cons (value : Shared V) (window : Nat) (reads : List (Read V)) :
    ringOf (⟨value, window⟩ :: reads) = (value :: ringOf reads).take window := by
  rw [ringOf, ringOf, held_cons, List.map_cons, ← List.take_succ_cons, List.take_take]

/-! ### What leaves the ring alone -/

/-- However the action ends, the ring is what it was. -/
def LeavesRing (action : Action K V (SoftLayer K V σ) α) : Prop :=
  ∀ machine, action.Ends machine (fun _ later => later.layer.ring = machine.layer.ring)
    fun _ later => later.layer.ring = machine.layer.ring

namespace LeavesRing

variable {delegate : Cache K V σ (SoftReference K V)}

theorem pure (value : α) : LeavesRing (pure value : Action K V (SoftLayer K V σ) α) := fun _ => rfl

theorem layer : LeavesRing (Action.layer : Action K V (SoftLayer K V σ) _) := fun _ => rfl

theorem memory : LeavesRing (Action.memory : Action K V (SoftLayer K V σ) _) := fun _ => rfl

theorem report (event : Event) :
    LeavesRing (Action.report event : Action K V (SoftLayer K V σ) Unit) := fun _ => rfl

theorem count (step : SoftCounters → SoftCounters) :
    LeavesRing (SoftLayer.count step : Action K V (SoftLayer K V σ) Unit) := fun _ => rfl

theorem bind {first : Action K V (SoftLayer K V σ) β}
    {next : β → Action K V (SoftLayer K V σ) α} (leaves : LeavesRing first)
    (onwards : ∀ value, LeavesRing (next value)) : LeavesRing (first >>= next) := by
  intro machine
  rw [ends_bind]
  refine (leaves machine).imp (fun value later same => ?_) fun _ _ same => same
  exact (onwards value later).imp (fun _ _ again => again.trans same)
    fun _ _ again => again.trans same

/-- What the delegate does, also when it fails, does not reach the ring. -/
theorem below (action : Action K V σ α) :
    LeavesRing (SoftLayer.below action : Action K V (SoftLayer K V σ) α) := by
  intro machine
  rw [SoftLayer.below, ends_within]
  exact ends_of_forall (fun _ _ => rfl) fun _ _ => rfl

theorem withQueue
    (change : ReferenceQueue K V → Memory K V → Handles K V → α × ReferenceQueue K V × Memory K V) :
    LeavesRing (SoftLayer.withQueue delegate change) := fun _ => rfl

theorem removeReclaimed (keys : List K) (removed : Nat) :
    LeavesRing (SoftLayer.removeReclaimed delegate keys removed) := by
  induction keys generalizing removed with
  | nil => exact pure removed
  | cons key rest inductionHypothesis =>
    have polled : LeavesRing (modifyLayer fun layer : SoftLayer K V σ =>
        { layer with queue := { layer.queue with pending := rest } }) := fun _ => rfl
    refine polled.bind fun _ => (below _).bind fun found => ?_
    cases found with
    | none => exact inductionHypothesis removed
    | some reference =>
      refine memory.bind fun memory => ?_
      split
      · exact inductionHypothesis removed
      · exact (below _).bind fun _ => inductionHypothesis (removed + 1)

theorem drain : LeavesRing (SoftLayer.drain delegate) := by
  refine layer.bind fun soft => (removeReclaimed soft.queue.pending 0).bind fun removed => ?_
  split
  · exact (layer.bind fun _ => pure _).bind fun _ => (report _).bind fun _ => count _
  · exact pure ()

theorem put (key : K) (value : Shared V) : LeavesRing (SoftLayer.put delegate key value) :=
  drain.bind fun _ => (withQueue _).bind fun _ => below _

theorem remove (key : K) : LeavesRing (SoftLayer.remove delegate key) := by
  refine drain.bind fun _ => (below _).bind fun found => ?_
  cases found with
  | none => exact pure none
  | some reference => exact memory.bind fun _ => pure _

theorem length : LeavesRing (SoftLayer.length delegate) := drain.bind fun _ => below _

theorem reclaim (limit : Nat) : LeavesRing (SoftLayer.reclaim delegate limit) :=
  (withQueue _).bind fun _ => layer.bind fun _ => (report _).bind fun _ => pure _

theorem reclaimAll : LeavesRing (SoftLayer.reclaimAll delegate) := layer.bind fun _ => reclaim _

/-- A new window does not cut the ring, and cannot fill it. -/
theorem setWindow (window : Nat) : LeavesRing (SoftLayer.setWindow delegate window) := by
  unfold SoftLayer.setWindow
  split
  case h_1 => exact pure _
  case h_2 =>
    have changed : LeavesRing (modifyLayer fun layer : SoftLayer K V σ => { layer with window }) :=
      fun _ => rfl
    exact layer.bind fun _ => changed.bind fun _ => (report _).bind fun _ => pure _

end LeavesRing

/-! ### Look-ups and clears -/

variable {delegate : Cache K V σ (SoftReference K V)} {machine : Machine K V (SoftLayer K V σ)}

/-- A look-up that returns a value pins it. Any other one leaves the ring alone. -/
theorem ends_get_ring (key : K) :
    (get delegate key).Ends machine
      (fun found later => later.layer.ring =
        match found with
        | some value => (value :: machine.layer.ring).take machine.layer.window
        | none => machine.layer.ring)
      fun _ later => later.layer.ring = machine.layer.ring := by
  simp only [get, below, ends_bind, ends_within]
  refine ends_of_forall (fun found after => ?_) fun _ _ => rfl
  cases found with
  | none => rfl
  | some reference =>
    simp only [ends_bind, ends_memory]
    split
    case h_1 =>
      rw [ends_bind]
      exact ends_pin_counted fun _ => rfl
    case h_2 =>
      simp only [name, count, ends_bind, ends_layer, ends_pure, ends_report, ends_within,
        ends_modifyLayer]
      exact ends_of_forall (fun _ _ => rfl) fun _ _ => rfl

/-- A clear empties the ring before it does anything that may fail. -/
theorem ends_clear_ring :
    (clear delegate).Ends machine (fun _ later => later.layer.ring = [])
      fun _ later => later.layer.ring = [] := by
  rw [clear, ends_bind, ends_modifyLayer]
  exact LeavesRing.drain.bind (fun _ => .below _) _

/-! ### Histories -/

/-- The reads after a call, given those before it, what the call answered and the window. -/
def readsAfter (call : Call K (Shared V)) (result : Except CacheError (Reply (Shared V)))
    (window : Nat) (reads : List (Read V)) : List (Read V) :=
  match call with
  | .get _ =>
    match result with
    | .ok (.item (some value)) => ⟨value, window⟩ :: reads
    | _ => reads
  | .clear => []
  | .put _ _ | .remove _ | .length | .isEmpty => reads

/-- A call changes the ring as it changes the reads, whatever the delegate does. -/
theorem call_ring {reads : List (Read V)} (same : machine.layer.ring = ringOf reads)
    (call : Call K (Shared V)) :
    let ended := ((SoftLayer.cache delegate).call call).run machine
    ended.2.layer.ring = ringOf (readsAfter call ended.1 machine.layer.window reads) := by
  cases call with
  | put key value =>
    exact (((LeavesRing.put key value).bind fun _ => .pure _) machine).later.trans same
  | get key =>
    have pinned : ((SoftLayer.cache delegate).call (.get key)).Ends machine
        (fun reply later => later.layer.ring =
          ringOf (readsAfter (.get key) (.ok reply) machine.layer.window reads))
        fun cause later => later.layer.ring =
          ringOf (readsAfter (.get key) (.error cause) machine.layer.window reads) := by
      simp only [Cache.call, ends_bind, ends_pure]
      refine (ends_get_ring key).imp (fun found later next => ?_) fun _ _ next => next.trans same
      cases found with
      | none => exact next.trans same
      | some value =>
        refine next.trans ?_
        rw [same]
        exact (ringOf_cons value machine.layer.window reads).symm
    rcases ran : ((SoftLayer.cache delegate).call (.get key)).run machine with ⟨_ | _, later⟩
    · exact (ends_of_error ran).mp pinned
    · exact (ends_of_ok ran).mp pinned
  | remove key => exact (((LeavesRing.remove key).bind fun _ => .pure _) machine).later.trans same
  | clear =>
    have emptied : ((SoftLayer.cache delegate).call .clear).Ends machine
        (fun _ later => later.layer.ring = []) fun _ later => later.layer.ring = [] := by
      simp only [Cache.call, ends_bind, ends_pure]
      exact ends_clear_ring
    exact emptied.later
  | length => exact ((LeavesRing.length.bind fun _ => .pure _) machine).later.trans same
  | isEmpty =>
    have leaves : LeavesRing ((SoftLayer.cache delegate).call .isEmpty) :=
      (LeavesRing.length.bind fun _ => .pure _).bind fun _ => .pure _
    exact (leaves machine).later.trans same

/-- What can become of a layer over the delegate, step by step, with the reads since it was created
or last cleared: calls, also such that fail, changes of its window and its counters, reclamations,
and whatever others do with the delegate or with what callers hold. -/
inductive History [DecidableEq K] (delegate : Cache K V σ (SoftReference K V)) :
    List (Read V) → Machine K V (SoftLayer K V σ) → Prop
  | created {window : Nat} {inner : σ} {layer : SoftLayer K V σ}
      (made : create window inner = .ok layer) (memory : Memory K V) (trace : List (Note K)) :
      History delegate [] ⟨layer, memory, trace⟩
  | called {reads : List (Read V)} {machine : Machine K V (SoftLayer K V σ)}
      (history : History delegate reads machine) (call : Call K (Shared V)) :
      History delegate
        (readsAfter call (((SoftLayer.cache delegate).call call).run machine).1
          machine.layer.window reads)
        (((SoftLayer.cache delegate).call call).run machine).2
  | rewindowed {reads : List (Read V)} {machine : Machine K V (SoftLayer K V σ)}
      (history : History delegate reads machine) (window : Nat) :
      History delegate reads ((setWindow delegate window).run machine).2
  | reclaimed {reads : List (Read V)} {machine : Machine K V (SoftLayer K V σ)}
      (history : History delegate reads machine) (limit : Nat) :
      History delegate reads ((reclaim delegate limit).run machine).2
  | reclaimedAll {reads : List (Read V)} {machine : Machine K V (SoftLayer K V σ)}
      (history : History delegate reads machine) :
      History delegate reads ((reclaimAll delegate).run machine).2
  | forced {reads : List (Read V)} {machine : Machine K V (SoftLayer K V σ)}
      (history : History delegate reads machine) (key : K) :
      History delegate reads ((forceReclaim delegate key).run machine).2
  | recounted {reads : List (Read V)} {machine : Machine K V (SoftLayer K V σ)}
      (history : History delegate reads machine) :
      History delegate reads ((resetCounters : Action K V (SoftLayer K V σ) Unit).run machine).2
  | elsewhere {reads : List (Read V)} {machine : Machine K V (SoftLayer K V σ)}
      (history : History delegate reads machine) (inner : σ) (memory : Memory K V)
      (trace : List (Note K)) :
      History delegate reads ⟨{ machine.layer with delegate := inner }, memory, trace⟩

namespace History

variable [DecidableEq K] {reads : List (Read V)}

/-- The reads determine the ring. -/
theorem ring_eq (history : History delegate reads machine) :
    machine.layer.ring = ringOf reads := by
  induction history with
  | created made memory trace =>
    obtain rfl := Except.ok.inj (check_bind_eq_ok.mp made).2
    rfl
  | called history call inductionHypothesis => exact call_ring inductionHypothesis call
  | rewindowed history window inductionHypothesis =>
    exact (LeavesRing.setWindow window _).later.trans inductionHypothesis
  | reclaimed history limit inductionHypothesis =>
    exact (LeavesRing.reclaim limit _).later.trans inductionHypothesis
  | reclaimedAll history inductionHypothesis =>
    exact (LeavesRing.reclaimAll _).later.trans inductionHypothesis
  | forced history key inductionHypothesis =>
    exact (LeavesRing.withQueue (fun queue memory alive => queue.forceReclaim memory alive key)
      _).later.trans inductionHypothesis
  | recounted history inductionHypothesis => exact inductionHypothesis
  | elsewhere history inner memory trace inductionHypothesis => exact inductionHypothesis

/-- In every history the ring holds the values that were read, the latest first and each as often as
it was read, as far back as the windows have left them. While the window does not move, these are as
many as it says. A new window cuts nothing; the next look-up that returns a value cuts to it. And of
what was read before, no later history shows more than the ring has now, so a window that is raised
brings nothing back. -/
theorem ring_of_reads (history : History delegate reads machine) :
    machine.layer.ring = (reads.map Read.value).take (held reads) ∧
    machine.layer.ring.length = held reads ∧
    (∀ window, (∀ read ∈ reads, read.window = window) →
      machine.layer.ring = (reads.map Read.value).take window) ∧
    (∀ window, ((setWindow delegate window).run machine).2.layer.ring = machine.layer.ring) ∧
    (∀ key value later, (get delegate key).run machine = (.ok (some value), later) →
      later.layer.ring = (value :: machine.layer.ring).take machine.layer.window) ∧
    ∀ newer later, History delegate (newer ++ reads) later →
      later.layer.ring.drop newer.length <+: machine.layer.ring := by
  have same := history.ring_eq
  refine ⟨same, ?_, fun window constant => ?_, fun window => (LeavesRing.setWindow window _).later,
    fun key value later ran => (ends_of_ok ran).mp (ends_get_ring key),
    fun newer later onwards => ?_⟩
  · rw [same, ringOf, List.length_take, List.length_map, Nat.min_eq_left (held_le_length reads)]
  · rw [same, ringOf, held_of_constant constant, Nat.min_comm, ← List.length_map Read.value,
      ← List.take_eq_take_min]
  · have left : held (newer ++ reads) - newer.length ≤ held reads := by
      have := held_append newer reads
      omega
    have older : ((newer ++ reads).map Read.value).drop newer.length = reads.map Read.value := by
      rw [List.map_append, List.drop_left' (List.length_map _)]
    rw [same, onwards.ring_eq, ringOf, List.drop_take, older]
    exact List.take_prefix_take_left left

/-- A store behind a probe. -/
def screen : Cache Nat String (ProbeLayer (Store Nat (SoftReference Nat String)))
    (SoftReference Nat String) :=
  ProbeLayer.cache 1 (Store.cache Content.reference.handles)

/-- The probe fails the first clear and the fifth look-up. -/
def screened : SoftLayer Nat String (ProbeLayer (Store Nat (SoftReference Nat String))) where
  window := 3
  delegate :=
    { faults :=
        [{ method := .clear, error := .backend "pages" "no clear" },
          { method := .get, skip := 4, error := .backend "pages" "no look-up" }]
      delegate := { id := "pages" } }

/-- The clear fails, but empties the ring of what was read before. Three values are then read with a
window of three. The window is one while a look-up fails, two for the next read and four for the
last one, which leaves two values that were read twice and the last one of the three. -/
theorem ring_of_reads_screened :
    ∃ reads machine, History screen reads machine ∧
      reads.map (fun read => (read.value.value, read.window)) =
        [("two", 4), ("one", 2), ("three", 3), ("two", 3), ("one", 3)] ∧
      machine.layer.ring = [⟨2, "two"⟩, ⟨1, "one"⟩, ⟨3, "three"⟩] := by
  have made : create 3 screened.delegate = .ok screened := rfl
  have created : History screen [] ⟨screened, {}, []⟩ := .created made {} []
  have cleared := ((created.called (.put 9 ⟨9, "nine"⟩)).called (.get 9)).called .clear
  have stored := ((cleared.called (.put 1 ⟨1, "one"⟩)).called (.put 2 ⟨2, "two"⟩)).called
    (.put 3 ⟨3, "three"⟩)
  have read := ((stored.called (.get 1)).called (.get 2)).called (.get 3)
  have failed := (read.rewindowed 1).called (.get 1)
  have again := (((failed.rewindowed 2).called (.get 1)).rewindowed 4).called (.get 2)
  have last := (again.forced 3).called (.get 3)
  refine ⟨_, _, last, by decide +kernel, ?_⟩
  rw [(ring_of_reads last).1]
  decide +kernel

end History

end LayeredCache.SoftLayer
