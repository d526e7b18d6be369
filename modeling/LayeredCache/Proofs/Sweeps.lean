/-
This file says what a sweep does: which references it drops, reclaims and keeps.

`sweep_cons` is the step, for the reference that the sweep comes to. From it follows by induction
what a sweep over a whole registry leaves: no reference becomes live again, and every reference that
is held and stays live stays registered, in its order.

A sweep looks at each reference in the memory that its own earlier reclamations have left. That
makes no difference: a value is reclaimed only if nothing else has it, so no other value comes
closer to being reclaimed. A sweep therefore reclaims the first of the references that could be
reclaimed when it started, which `reclaimed_sweep` says.
-/

import LayeredCache.ReferenceQueue

namespace LayeredCache

variable {K V : Type}

/-! ### Live references -/

theorem Memory.isLive_iff {memory : Memory K V} {reference : SoftReference K V} :
    memory.isLive reference = true ↔ reference.number ∉ memory.reclaimed := by
  simp [isLive]

theorem Memory.isLive_eq_false {memory : Memory K V} {reference : SoftReference K V} :
    memory.isLive reference = false ↔ reference.number ∈ memory.reclaimed := by
  simp [isLive]

/-- Takes the values away from the references, one after the other. -/
def Memory.reclaimEach (memory : Memory K V) (references : List (SoftReference K V)) :
    Memory K V :=
  references.foldl reclaim memory

/-- Nothing changes but what is reclaimed. -/
theorem Memory.reclaimEach_eq (memory : Memory K V) (references : List (SoftReference K V)) :
    memory.reclaimEach references =
      { memory with reclaimed := (references.map (·.number)).reverse ++ memory.reclaimed } := by
  induction references generalizing memory with
  | nil => rfl
  | cons first rest inductionHypothesis =>
    rw [List.map_cons, List.reverse_cons, List.append_assoc]
    exact inductionHypothesis (memory.reclaim first)

@[simp] theorem Memory.handles_reclaimEach (memory : Memory K V)
    (references : List (SoftReference K V)) :
    (memory.reclaimEach references).handles = memory.handles := by
  rw [reclaimEach_eq]
  rfl

theorem Memory.isLive_reclaimEach {memory : Memory K V} {references : List (SoftReference K V)}
    {reference : SoftReference K V} :
    (memory.reclaimEach references).isLive reference = true ↔
      memory.isLive reference = true ∧
        ∀ other ∈ references, other.number ≠ reference.number := by
  rw [isLive_iff, isLive_iff, reclaimEach_eq, List.mem_append, not_or, List.mem_reverse,
    and_comm]
  simp only [List.mem_map, not_exists, not_and, ne_eq]

/-! ### Sweeps -/

namespace ReferenceQueue

variable (handles : Handles K V)

/-- What a sweep does with a reference: it drops one that is not held or not live, and of the others
it reclaims the value or keeps the reference. -/
theorem sweep_cons (limit : Nat) (memory : Memory K V) (first : SoftReference K V)
    (rest : List (SoftReference K V)) :
    (handles.holds first = true → memory.isLive first = false) ∧
        sweep handles limit memory (first :: rest) = sweep handles limit memory rest ∨
      (handles.holds first = true ∧ 0 < limit ∧ memory.isSoftlyReachable handles first = true) ∧
        sweep handles limit memory (first :: rest) =
          { sweep handles (limit - 1) (memory.reclaim first) rest with
            reclaimed :=
              first :: (sweep handles (limit - 1) (memory.reclaim first) rest).reclaimed } ∨
      (handles.holds first = true ∧ memory.isLive first = true ∧
          (0 < limit → memory.isSoftlyReachable handles first = false)) ∧
        sweep handles limit memory (first :: rest) =
          { sweep handles limit memory rest with
            kept := first :: (sweep handles limit memory rest).kept } := by
  rw [sweep]
  split
  case isTrue dropped =>
    refine Or.inl ⟨fun held => ?_, rfl⟩
    simp [held] at dropped
  case isFalse held =>
    have held : handles.holds first = true := by simpa using held
    split
    case isTrue chosen =>
      obtain ⟨left, reachable⟩ := Bool.and_eq_true_iff.mp chosen
      exact Or.inr (Or.inl ⟨⟨held, of_decide_eq_true left, reachable⟩, rfl⟩)
    case isFalse passed =>
      have spared : 0 < limit → memory.isSoftlyReachable handles first = false := fun left => by
        simpa [left] using passed
      split
      case isTrue live => exact Or.inr (Or.inr ⟨⟨held, live, spared⟩, rfl⟩)
      case isFalse dead => exact Or.inl ⟨fun _ => Bool.not_eq_true _ |>.mp dead, rfl⟩

variable {limit : Nat} {memory : Memory K V} {rest : List (SoftReference K V)}
  {reference : SoftReference K V}

/-- A sweep revives nothing. -/
theorem isLive_of_sweep (live : (sweep handles limit memory rest).memory.isLive reference = true) :
    memory.isLive reference = true := by
  induction rest generalizing limit memory with
  | nil => exact live
  | cons first rest inductionHypothesis =>
    rcases sweep_cons handles limit memory first rest with
      ⟨-, same⟩ | ⟨-, same⟩ | ⟨-, same⟩
    · exact inductionHypothesis (same ▸ live)
    · rw [same] at live
      have earlier : (memory.reclaim first).isLive reference = true := inductionHypothesis live
      refine Memory.isLive_iff.mpr fun before => ?_
      exact Memory.isLive_iff.mp earlier (List.mem_cons_of_mem _ before)
    · rw [same] at live
      exact inductionHypothesis live

theorem references_sweep :
    (sweep handles limit memory rest).memory.references = memory.references := by
  induction rest generalizing limit memory with
  | nil => rfl
  | cons first rest inductionHypothesis =>
    rcases sweep_cons handles limit memory first rest with
      ⟨-, same⟩ | ⟨-, same⟩ | ⟨-, same⟩
    · rw [same, inductionHypothesis]
    · rw [same, inductionHypothesis]
      rfl
    · rw [same, inductionHypothesis]

theorem references_forceReclaim [DecidableEq K] (queue : ReferenceQueue K V) (key : K) :
    (queue.forceReclaim memory handles key).2.2.references = memory.references := by
  unfold forceReclaim
  split <;> rfl

/-- A forced reclamation notifies no other key. -/
theorem mem_pending_forceReclaim [DecidableEq K] {queue : ReferenceQueue K V} {key other : K}
    (member : other ∈ (queue.forceReclaim memory handles key).2.1.pending) :
    other ∈ queue.pending ∨ other = key := by
  unfold forceReclaim at member
  split at member
  case h_1 => exact Or.inl member
  case h_2 reference chosen =>
    refine (List.mem_append.mp member).imp_right fun last => ?_
    have picked := List.find?_some chosen
    rw [List.mem_singleton.mp last]
    exact of_decide_eq_true (Bool.and_eq_true_iff.mp picked).1

theorem kept_sublist : (sweep handles limit memory rest).kept.Sublist rest := by
  induction rest generalizing limit memory with
  | nil => exact List.Sublist.refl _
  | cons first rest inductionHypothesis =>
    rcases sweep_cons handles limit memory first rest with
      ⟨-, same⟩ | ⟨-, same⟩ | ⟨-, same⟩
    · rw [same]
      exact inductionHypothesis.cons first
    · rw [same]
      exact inductionHypothesis.cons first
    · rw [same]
      exact inductionHypothesis.cons_cons first

theorem reclaimed_sublist : (sweep handles limit memory rest).reclaimed.Sublist rest := by
  induction rest generalizing limit memory with
  | nil => exact List.Sublist.refl _
  | cons first rest inductionHypothesis =>
    rcases sweep_cons handles limit memory first rest with
      ⟨-, same⟩ | ⟨-, same⟩ | ⟨-, same⟩
    · rw [same]
      exact inductionHypothesis.cons first
    · rw [same]
      exact inductionHypothesis.cons_cons first
    · rw [same]
      exact inductionHypothesis.cons first

/-- A sweep drops no reference that is held and still live afterwards. -/
theorem mem_kept (member : reference ∈ rest) (held : handles.holds reference = true)
    (live : (sweep handles limit memory rest).memory.isLive reference = true) :
    reference ∈ (sweep handles limit memory rest).kept := by
  induction rest generalizing limit memory with
  | nil => cases member
  | cons first rest inductionHypothesis =>
    have later : reference ≠ first → reference ∈ rest := fun different =>
      (List.mem_cons.mp member).resolve_left different
    rcases sweep_cons handles limit memory first rest with
      ⟨dropped, same⟩ | ⟨-, same⟩ | ⟨-, same⟩
    · rw [same] at live ⊢
      refine inductionHypothesis (later ?_) live
      rintro rfl
      have before := isLive_of_sweep handles live
      rw [dropped held] at before
      cases before
    · rw [same] at live ⊢
      refine inductionHypothesis (later ?_) live
      rintro rfl
      have before := isLive_of_sweep handles live
      rw [Memory.isLive_reclaim_self] at before
      cases before
    · rw [same] at live ⊢
      by_cases again : reference = first
      · exact again ▸ List.mem_cons_self
      · exact List.mem_cons_of_mem _ (inductionHypothesis (later again) live)

/-! ### The closed form -/

/-- A sweep may reclaim the value of the reference. -/
def isReclaimable (memory : Memory K V) (handles : Handles K V) (reference : SoftReference K V) :
    Bool :=
  handles.holds reference && memory.isSoftlyReachable handles reference

/-- A reference can be reclaimed if it is held and live and nothing else has its value: no plain
pointer, and no other live reference. -/
theorem isReclaimable_iff :
    isReclaimable memory handles reference = true ↔
      handles.holds reference = true ∧ memory.isLive reference = true ∧
        (∀ value ∈ handles.values, value.address ≠ reference.referent.address) ∧
        ∀ other ∈ handles.references, other.number ≠ reference.number →
          memory.isLive other = true → other.referent.address ≠ reference.referent.address := by
  simp only [isReclaimable, Memory.isSoftlyReachable, Bool.and_eq_true, List.all_eq_true,
    bne_iff_ne, Bool.or_eq_true, beq_iff_eq, Bool.not_eq_true', and_assoc, or_assoc]
  refine and_congr_right fun _ => and_congr_right fun _ => and_congr_right fun _ => ?_
  refine forall₂_congr fun other _ => ?_
  by_cases same : other.number = reference.number
  · simp [same]
  · cases live : memory.isLive other with
    | true => simp [same]
    | false => simp

theorem isCurrent_of_isReclaimable (reclaimable : isReclaimable memory handles reference = true) :
    isCurrent memory handles reference = true := by
  obtain ⟨held, live, -⟩ := (isReclaimable_iff handles).mp reclaimable
  exact Bool.and_eq_true_iff.mpr ⟨held, live⟩

/-- A reference that is held and a registered one of the same number are copies of each other. -/
def Coherent (registry : List (SoftReference K V)) : Prop :=
  ∀ one ∈ handles.references, ∀ other ∈ registry, one.number = other.number → one = other

variable {handles}

/-- Reclaiming one value brings no other value closer to being reclaimed: were the second reference
the last but one to have the first one's value, the first one could not have been reclaimed. -/
theorem isReclaimable_reclaim {registry : List (SoftReference K V)}
    (coherent : Coherent handles registry) {first : SoftReference K V}
    (firstMember : first ∈ registry)
    (member : reference ∈ registry) (different : reference.number ≠ first.number)
    (chosen : isReclaimable memory handles first = true) :
    isReclaimable (memory.reclaim first) handles reference =
      isReclaimable memory handles reference := by
  obtain ⟨-, firstLive, -, alone⟩ := (isReclaimable_iff handles).mp chosen
  rw [Bool.eq_iff_iff, isReclaimable_iff, isReclaimable_iff,
    Memory.isLive_reclaim_other _ different]
  refine and_congr_right fun held => and_congr_right fun live => and_congr_right fun _ => ?_
  refine forall₂_congr fun other among => forall_congr' fun apart => ?_
  by_cases again : other.number = first.number
  · obtain rfl := coherent other among first firstMember again
    obtain ⟨copy, copyAmong, same⟩ := List.any_eq_true.mp held
    obtain rfl := coherent copy copyAmong reference member (beq_iff_eq.mp same)
    have elsewhere := alone copy copyAmong different live
    simp [firstLive, elsewhere.symm]
  · rw [Memory.isLive_reclaim_other _ again]

/-- A sweep reclaims nothing but what it says. -/
theorem memory_sweep :
    (sweep handles limit memory rest).memory =
      memory.reclaimEach (sweep handles limit memory rest).reclaimed := by
  induction rest generalizing limit memory with
  | nil => rfl
  | cons first rest inductionHypothesis =>
    rcases sweep_cons handles limit memory first rest with
      ⟨-, same⟩ | ⟨-, same⟩ | ⟨-, same⟩
    · rw [same, inductionHypothesis]
    · rw [same]
      exact inductionHypothesis
    · rw [same]
      exact inductionHypothesis

/-- A sweep reclaims the first `limit` references that could be reclaimed when it started. -/
theorem reclaimed_sweep (coherent : Coherent handles rest)
    (distinct : (rest.map (·.number)).Nodup) :
    (sweep handles limit memory rest).reclaimed =
      (rest.filter (isReclaimable memory handles)).take limit := by
  induction rest generalizing limit memory with
  | nil => simp [sweep]
  | cons first rest inductionHypothesis =>
    have others : Coherent handles rest := fun one among other member =>
      coherent one among other (List.mem_cons_of_mem first member)
    obtain ⟨fresh, distinct⟩ := List.nodup_cons.mp distinct
    rcases sweep_cons handles limit memory first rest with
      ⟨dropped, same⟩ | ⟨⟨held, left, reachable⟩, same⟩ | ⟨⟨held, live, spared⟩, same⟩
    · have passed : isReclaimable memory handles first ≠ true := fun chosen => by
        obtain ⟨held, live, -⟩ := (isReclaimable_iff handles).mp chosen
        rw [dropped held] at live
        cases live
      rw [same, inductionHypothesis others distinct, List.filter_cons_of_neg passed]
    · have chosen : isReclaimable memory handles first = true := by
        rw [isReclaimable, held, reachable]
        rfl
      obtain ⟨less, rfl⟩ := Nat.exists_eq_add_of_lt left
      rw [same, List.filter_cons_of_pos chosen, Nat.zero_add, List.take_succ_cons]
      refine congrArg (first :: ·) ((inductionHypothesis others distinct).trans ?_)
      refine congrArg (List.take less) (List.filter_congr fun reference member => ?_)
      refine isReclaimable_reclaim coherent List.mem_cons_self (List.mem_cons_of_mem first member)
        (fun again => fresh ?_) chosen
      exact List.mem_map.mpr ⟨reference, member, again⟩
    · rw [same]
      refine (inductionHypothesis others distinct).trans ?_
      rcases Nat.eq_zero_or_pos limit with rfl | left
      · rw [List.take_zero, List.take_zero]
      · have passed : isReclaimable memory handles first ≠ true := by
          rw [isReclaimable, spared left, Bool.and_false]
          exact Bool.false_ne_true
        rw [List.filter_cons_of_neg passed]

/-- A sweep keeps the references that are held and live when it has ended. -/
theorem kept_sweep (distinct : (rest.map (·.number)).Nodup) :
    (sweep handles limit memory rest).kept =
      rest.filter (isCurrent (sweep handles limit memory rest).memory handles) := by
  induction rest generalizing limit memory with
  | nil => rfl
  | cons first rest inductionHypothesis =>
    obtain ⟨fresh, distinct⟩ := List.nodup_cons.mp distinct
    rcases sweep_cons handles limit memory first rest with
      ⟨dropped, same⟩ | ⟨-, same⟩ | ⟨⟨held, live, -⟩, same⟩
    · rw [same, List.filter_cons_of_neg]
      · exact inductionHypothesis distinct
      · intro current
        obtain ⟨held, live⟩ := Bool.and_eq_true_iff.mp current
        have before := isLive_of_sweep handles live
        rw [dropped held] at before
        cases before
    · rw [same, List.filter_cons_of_neg]
      · exact inductionHypothesis distinct
      · intro current
        have before := isLive_of_sweep handles (Bool.and_eq_true_iff.mp current).2
        rw [Memory.isLive_reclaim_self] at before
        cases before
    · rw [same, List.filter_cons_of_pos]
      · exact congrArg (first :: ·) (inductionHypothesis distinct)
      · refine Bool.and_eq_true_iff.mpr ⟨held, ?_⟩
        show (sweep handles limit memory rest).memory.isLive first = true
        rw [memory_sweep, Memory.isLive_reclaimEach]
        refine ⟨live, fun other chosen again => fresh ?_⟩
        exact List.mem_map.mpr ⟨other, (reclaimed_sublist handles).subset chosen, again⟩

end ReferenceQueue

end LayeredCache
