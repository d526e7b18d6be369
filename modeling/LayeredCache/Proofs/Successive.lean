/-
This file proves that two sweeps in succession do what one sweep does with both their limits.

A sweep reclaims the first of the references that could be reclaimed when it started. Whether a
reference can be reclaimed depends on what else keeps its value alive, and no reclamation changes
that for another reference that can be reclaimed. So the first sweep leaves for the second one what
lies beyond its limit, and the second one takes the first of these. Both drop what is no longer held
or live, and what they keep is what is held and live at the end.

As every reference that was held and live is either reclaimed or kept, the count of a sweep is what
the number of registered references goes down by.
-/

import LayeredCache.Proofs.Delivery
import LayeredCache.Proofs.Leftovers

namespace LayeredCache

variable {K V : Type}

namespace ReferenceQueue

variable {handles : Handles K V} {memory : Memory K V} {registry : List (SoftReference K V)}
  {queue : ReferenceQueue K V} {limit : Nat}

/-! ### States of a registry -/

/-- No two registered references have one number, and a reference that is held and has the number of
a registered one is a copy of it. -/
structure Numbered (handles : Handles K V) (registry : List (SoftReference K V)) : Prop where
  unique : (registry.map (·.number)).Nodup
  coherent : Coherent handles registry

theorem Numbered.sublist (numbered : Numbered handles registry)
    {fewer : List (SoftReference K V)} (sublist : fewer.Sublist registry) :
    Numbered handles fewer where
  unique := numbered.unique.sublist (sublist.map _)
  coherent one among other member := numbered.coherent one among other (sublist.subset member)

/-- Whatever is done with a queue and with what callers hold, it comes to such a state. -/
theorem run_numbered [DecidableEq K] (deeds : List (QueueDeed K V)) :
    let ended := registrar.run deeds ⟨.empty, {}⟩
    Numbered ended.2.memory.handles ended.2.system.registry := by
  obtain ⟨ledger, agrees, -⟩ := Ledger.exists_keeps deeds
  exact ⟨agrees.unique_registry, agrees.coherent⟩

/-! ### What is left to reclaim -/

/-- Reclaiming some values brings no other value closer to being reclaimed, nor does it save one. -/
theorem isReclaimable_reclaimEach (coherent : Coherent handles registry)
    {chosen : List (SoftReference K V)} (within : chosen ⊆ registry)
    (distinct : (chosen.map (·.number)).Nodup)
    (each : ∀ one ∈ chosen, isReclaimable memory handles one = true)
    {reference : SoftReference K V} (member : reference ∈ registry)
    (apart : reference.number ∉ chosen.map (·.number)) :
    isReclaimable (memory.reclaimEach chosen) handles reference =
      isReclaimable memory handles reference := by
  induction chosen generalizing memory with
  | nil => rfl
  | cons first rest inductionHypothesis =>
    obtain ⟨firstMember, within⟩ := List.cons_subset.mp within
    obtain ⟨fresh, distinct⟩ := List.nodup_cons.mp distinct
    obtain ⟨different, apart⟩ := not_or.mp (mt List.mem_cons.mpr apart)
    have taken := each first List.mem_cons_self
    have others : ∀ one ∈ rest, isReclaimable (memory.reclaim first) handles one = true := by
      intro one among
      have again : one.number ≠ first.number := fun same =>
        fresh (List.mem_map.mpr ⟨one, among, same⟩)
      rw [isReclaimable_reclaim coherent firstMember (within among) again taken]
      exact each one (List.mem_cons_of_mem first among)
    exact (inductionHypothesis within distinct others apart).trans
      (isReclaimable_reclaim coherent firstMember member different taken)

/-- What a sweep leaves to be reclaimed is what lies beyond its limit. -/
theorem reclaimable_sweep (numbered : Numbered handles registry) :
    registry.filter (isReclaimable (sweep handles limit memory registry).memory handles) =
      (registry.filter (isReclaimable memory handles)).drop limit := by
  let all := registry.filter (isReclaimable memory handles)
  let after := isReclaimable (memory.reclaimEach (all.take limit)) handles
  have unique : ((all.take limit ++ all.drop limit).map (·.number)).Nodup := by
    rw [List.take_append_drop]
    exact numbered.unique.sublist (List.filter_sublist.map _)
  rw [List.map_append] at unique
  obtain ⟨distinct, -, apart⟩ := List.nodup_append.mp unique
  have other : ∀ reference ∈ registry, reference.number ∉ (all.take limit).map (·.number) →
      after reference = isReclaimable memory handles reference := fun reference member apart =>
    isReclaimable_reclaimEach numbered.coherent
      (fun one among => (List.mem_filter.mp (List.mem_of_mem_take among)).1) distinct
      (fun one among => (List.mem_filter.mp (List.mem_of_mem_take among)).2) member apart
  have struck : ∀ reference : SoftReference K V,
      reference.number ∈ (all.take limit).map (·.number) → ¬ after reference = true := by
    intro reference among reclaimable
    obtain ⟨one, among, same⟩ := List.mem_map.mp among
    obtain ⟨-, live, -⟩ := (isReclaimable_iff handles).mp reclaimable
    exact (Memory.isLive_reclaimEach.mp live).2 one among same
  -- A reference that could not be reclaimed before the sweep cannot be reclaimed after it either,
  -- so only `all` has to be gone through.
  have narrowed : registry.filter after = all.filter after := by
    rw [List.filter_filter]
    refine List.filter_congr fun reference member => ?_
    by_cases among : reference.number ∈ (all.take limit).map (·.number)
    · rw [Bool.eq_false_iff.mpr (struck reference among), Bool.false_and]
    · rw [other reference member among, Bool.and_self]
  have taken : (all.take limit).filter after = [] :=
    List.filter_eq_nil_iff.mpr fun reference among =>
      struck reference (List.mem_map_of_mem among)
  have left : (all.drop limit).filter after = all.drop limit := by
    refine List.filter_eq_self.mpr fun reference member => ?_
    obtain ⟨registered, reclaimable⟩ := List.mem_filter.mp (List.mem_of_mem_drop member)
    refine (other reference registered fun among => ?_).trans reclaimable
    exact apart _ among _ (List.mem_map_of_mem member) rfl
  rw [memory_sweep, reclaimed_sweep numbered.coherent numbered.unique]
  calc registry.filter after
    _ = all.filter after := narrowed
    _ = (all.take limit ++ all.drop limit).filter after := by rw [List.take_append_drop]
    _ = all.drop limit := by rw [List.filter_append, taken, left, List.nil_append]

theorem reclaimable_kept (numbered : Numbered handles registry) :
    (sweep handles limit memory registry).kept.filter
        (isReclaimable (sweep handles limit memory registry).memory handles) =
      (registry.filter (isReclaimable memory handles)).drop limit := by
  rw [kept_sweep numbered.unique, filter_narrow fun _ => isCurrent_of_isReclaimable handles]
  exact reclaimable_sweep numbered

/-! ### Two sweeps -/

/-- A sweep over what another sweep has kept goes on where this one has stopped. -/
theorem sweep_sweep (numbered : Numbered handles registry) (memory : Memory K V) (a b : Nat) :
    let first := sweep handles a memory registry
    let second := sweep handles b first.memory first.kept
    let single := sweep handles (a + b) memory registry
    first.reclaimed ++ second.reclaimed = single.reclaimed ∧ second.kept = single.kept ∧
      second.memory = single.memory := by
  intro first second single
  have kept : first.kept = registry.filter (isCurrent first.memory handles) :=
    kept_sweep numbered.unique
  have fewer := numbered.sublist (kept_sublist handles : first.kept.Sublist registry)
  have reclaimed : first.reclaimed ++ second.reclaimed = single.reclaimed := by
    show _ ++ (sweep handles b first.memory first.kept).reclaimed = _
    rw [reclaimed_sweep fewer.coherent fewer.unique, reclaimable_kept numbered,
      reclaimed_sweep numbered.coherent numbered.unique,
      reclaimed_sweep numbered.coherent numbered.unique, List.take_add]
  have last : second.memory = single.memory := by
    calc second.memory
      _ = first.memory.reclaimEach second.reclaimed := memory_sweep
      _ = (memory.reclaimEach first.reclaimed).reclaimEach second.reclaimed :=
        congrArg (Memory.reclaimEach · second.reclaimed) memory_sweep
      _ = memory.reclaimEach (first.reclaimed ++ second.reclaimed) := List.foldl_append.symm
      _ = memory.reclaimEach single.reclaimed := by rw [reclaimed]
      _ = single.memory := memory_sweep.symm
  refine ⟨reclaimed, ?_, last⟩
  calc second.kept
    _ = first.kept.filter (isCurrent second.memory handles) := kept_sweep fewer.unique
    _ = registry.filter (isCurrent second.memory handles) := by
      rw [kept]
      refine filter_narrow (fun reference current => ?_) registry
      obtain ⟨held, live⟩ := Bool.and_eq_true_iff.mp current
      exact Bool.and_eq_true_iff.mpr ⟨held, isLive_of_sweep handles live⟩
    _ = registry.filter (isCurrent single.memory handles) := by rw [last]
    _ = single.kept := (kept_sweep numbered.unique).symm

/-- The second of two sweeps leaves the queue and the memory that one sweep with the sum of their
limits leaves, and both together count as many. -/
theorem reclaim_reclaim (numbered : Numbered handles queue.registry) (a b : Nat) :
    let first := queue.reclaim memory handles a
    let second := first.2.1.reclaim first.2.2 handles b
    let single := queue.reclaim memory handles (a + b)
    first.1 + second.1 = single.1 ∧ second.2 = single.2 := by
  obtain ⟨reclaimed, kept, last⟩ := sweep_sweep numbered memory a b
  intro first second single
  have pending : second.2.1.pending = single.2.1.pending := by
    show queue.pending ++ _ ++ _ = queue.pending ++ _
    rw [List.append_assoc, ← List.map_append]
    exact congrArg (fun references => queue.pending ++ references.map (·.key)) reclaimed
  have threshold : second.2.1.threshold = single.2.1.threshold :=
    congrArg (fun references : List (SoftReference K V) => thresholdFor references.length) kept
  have left : second.2.1 = single.2.1 :=
    (ReferenceQueue.mk.injEq ..).mpr ⟨pending, kept, threshold⟩
  refine ⟨?_, Prod.ext left last⟩
  exact List.length_append.symm.trans (congrArg List.length reclaimed)

/-- A limit above all that a registry can have in it is as good as no limit. -/
theorem sweep_min {most : Nat} (enough : registry.length ≤ most) :
    sweep handles (min limit most) memory registry = sweep handles limit memory registry := by
  rcases Nat.le_total limit most with less | more
  · rw [Nat.min_eq_left less]
  · rw [Nat.min_eq_right more]
    exact sweep_enough enough (Nat.le_trans enough more)

/-! ### Counts -/

/-- What is held and live is either reclaimed or kept. -/
theorem length_sweep (distinct : (registry.map (·.number)).Nodup) :
    (sweep handles limit memory registry).reclaimed.length +
        (sweep handles limit memory registry).kept.length =
      registry.countP (isCurrent memory handles) := by
  induction registry generalizing limit memory with
  | nil => rfl
  | cons first rest inductionHypothesis =>
    obtain ⟨fresh, distinct⟩ := List.nodup_cons.mp distinct
    rcases sweep_cons handles limit memory first rest with
      ⟨dropped, same⟩ | ⟨⟨held, -, reachable⟩, same⟩ | ⟨⟨held, live, -⟩, same⟩
    · rw [same, List.countP_cons_of_neg, inductionHypothesis distinct]
      intro current
      obtain ⟨held, live⟩ := Bool.and_eq_true_iff.mp current
      rw [dropped held] at live
      cases live
    · have current := isCurrent_of_isReclaimable handles
        (Bool.and_eq_true_iff.mpr ⟨held, reachable⟩)
      have others : rest.countP (isCurrent (memory.reclaim first) handles) =
          rest.countP (isCurrent memory handles) := by
        refine List.countP_congr fun reference member => ?_
        have different : reference.number ≠ first.number := fun again =>
          fresh (List.mem_map.mpr ⟨reference, member, again⟩)
        rw [isCurrent, isCurrent, Memory.isLive_reclaim_other _ different]
      rw [same, List.countP_cons_of_pos current, ← others, ← inductionHypothesis distinct,
        List.length_cons, Nat.add_right_comm]
    · have current : isCurrent memory handles first = true :=
        Bool.and_eq_true_iff.mpr ⟨held, live⟩
      rw [same, List.countP_cons_of_pos current, ← inductionHypothesis distinct,
        List.length_cons, Nat.add_assoc]

/-- After a sweep the registry has nothing in it but what is held and live. -/
theorem registered_reclaim (unique : (queue.registry.map (·.number)).Nodup) :
    (queue.reclaim memory handles limit).2.1.registered
        (queue.reclaim memory handles limit).2.2 handles =
      (queue.reclaim memory handles limit).2.1.registry.length := by
  show (sweep handles limit memory queue.registry).kept.countP
    (isCurrent (sweep handles limit memory queue.registry).memory handles) =
      (sweep handles limit memory queue.registry).kept.length
  rw [kept_sweep unique, List.countP_filter, List.countP_eq_length_filter]
  simp only [Bool.and_self]

/-- Whatever is done with a queue and with what callers hold, its references stay numbered. From
every state with numbered references, whatever else is held, two sweeps count as many in total and
leave the same queue and the same memory as one sweep with the sum of their limits, cut off at
`most` if the registry is no longer than that. The count of a sweep is what it takes from the number
of registered references. To reclaim all is to sweep with a limit like `most`, and to do it again
finds nothing more. -/
theorem sweeps_compose [DecidableEq K] :
    (∀ deeds : List (QueueDeed K V),
      let ended := registrar.run deeds ⟨.empty, {}⟩
      Numbered ended.2.memory.handles ended.2.system.registry) ∧
      ∀ (queue : ReferenceQueue K V) (memory : Memory K V) (handles : Handles K V),
        Numbered handles queue.registry →
          (∀ a b most, queue.registry.length ≤ most →
            let first := queue.reclaim memory handles a
            let second := first.2.1.reclaim first.2.2 handles b
            let single := queue.reclaim memory handles (min (a + b) most)
            first.1 + second.1 = single.1 ∧ second.2 = single.2) ∧
          (∀ limit,
            let swept := queue.reclaim memory handles limit
            swept.1 + swept.2.1.registered swept.2.2 handles =
              queue.registered memory handles) ∧
          (∀ most, queue.registry.length ≤ most →
            queue.reclaimAll memory handles = queue.reclaim memory handles most) ∧
          let all := queue.reclaimAll memory handles
          (all.2.1.reclaimAll all.2.2 handles).1 = 0 := by
  refine ⟨run_numbered, fun queue memory handles numbered =>
    ⟨fun a b most enough => ?_, fun limit => ?_, fun most enough => ?_, ?_⟩⟩
  · have whole : queue.reclaim memory handles (min (a + b) most) =
        queue.reclaim memory handles (a + b) := by
      unfold reclaim
      rw [sweep_min enough]
    rw [whole]
    exact reclaim_reclaim numbered a b
  · intro swept
    rw [registered_reclaim numbered.unique]
    exact length_sweep numbered.unique
  · unfold reclaimAll reclaim
    rw [sweep_enough (Nat.le_refl _) enough]
  · let swept := sweep handles queue.registry.length memory queue.registry
    have fewer := numbered.sublist (kept_sublist handles : swept.kept.Sublist queue.registry)
    have none : (queue.registry.filter (isReclaimable memory handles)).drop
        queue.registry.length = [] :=
      List.drop_eq_nil_of_le (List.length_filter_le _ _)
    show (sweep handles swept.kept.length swept.memory swept.kept).reclaimed.length = 0
    rw [reclaimed_sweep fewer.coherent fewer.unique, reclaimable_kept numbered, none,
      List.take_nil, List.length_nil]

/-- Registrations of which one is dropped at once, two share a value and one has its value held, and
then two sweeps. -/
theorem sweeps_compose_twice :
    let deeds : List (QueueDeed Nat String) :=
      [.register 1 ⟨0, "a"⟩ (some "one"), .register 2 ⟨1, "b"⟩ none,
        .register 3 ⟨2, "c"⟩ (some "three"), .register 4 ⟨2, "c"⟩ (some "four"),
        .register 5 ⟨3, "d"⟩ (some "five"), .hold "pin" ⟨3, "d"⟩,
        .register 6 ⟨4, "e"⟩ (some "six"), .register 7 ⟨5, "f"⟩ (some "seven")]
    let ended := (registrar.run deeds ⟨.empty, {}⟩).2
    let handles := ended.memory.handles
    let most := 18446744073709551615
    let first := ended.system.reclaim ended.memory handles 1
    let second := first.2.1.reclaim first.2.2 handles 1
    (first.1 = 1 ∧ first.2.1.pending = [1] ∧ second.1 = 1 ∧ second.2.1.pending = [1, 6]) ∧
      ended.system.registry.length ≤ most ∧
      second.2 = (ended.system.reclaim ended.memory handles (min (1 + 1) most)).2 := by
  intro deeds ended handles most first second
  have enough : ended.system.registry.length ≤ most := by decide
  have ⟨numbered, composes⟩ := sweeps_compose (K := Nat) (V := String)
  have ⟨two, _⟩ := composes ended.system ended.memory handles (numbered deeds)
  exact ⟨⟨rfl, rfl, rfl, rfl⟩, enough, (two 1 1 _ enough).2⟩

end ReferenceQueue

end LayeredCache
