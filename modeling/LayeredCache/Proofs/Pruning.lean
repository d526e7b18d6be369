/-
This file proves that nobody can tell a reference queue from a ledger: what the queue drops from its
registry is missed by no answer.

The registry is the ledger with some references left out, and `Agrees` says that none of those left
out can be held and live. A reference that is dead or reclaimed stays so, whatever is done, so what
was dropped rightly once stays dropped rightly. All answers look only at references that are held
and live, and these are the same in both lists, in the same order.
-/

import LayeredCache.Proofs.Distinct
import LayeredCache.Proofs.Ledger

namespace LayeredCache

variable {K V : Type}

/-! ### What is left out -/

/-- A list without some of its elements has the same ones among those that are never left out. -/
theorem filter_eq_of_sublist {X : Type} {fewer all : List X} {chosen : X → Bool}
    (sublist : fewer.Sublist all) (distinct : all.Nodup)
    (kept : ∀ item ∈ all, chosen item = true → item ∈ fewer) :
    fewer.filter chosen = all.filter chosen := by
  have permuted : (fewer.filter chosen).Perm (all.filter chosen) := by
    refine (List.perm_ext_iff_of_nodup ((distinct.sublist sublist).filter _)
      (distinct.filter _)).mpr fun item => ?_
    rw [List.mem_filter, List.mem_filter]
    exact ⟨fun ⟨member, passes⟩ => ⟨sublist.subset member, passes⟩,
      fun ⟨member, passes⟩ => ⟨kept item member passes, passes⟩⟩
  exact (sublist.filter chosen).eq_of_length permuted.length_eq

namespace Ledger

open ReferenceQueue (isCurrent isReclaimable Coherent)

/-- The queue has what the ledger has, apart from references that are dropped by everyone or
reclaimed; and every reference that a caller holds was entered. -/
structure Agrees (queue : ReferenceQueue K V) (ledger : Ledger K V) (memory : Memory K V) :
    Prop where
  pending : queue.pending = ledger.pending
  sublist : queue.registry.Sublist ledger.entries
  current : ∀ reference ∈ ledger.entries, isCurrent memory memory.handles reference = true →
    reference ∈ queue.registry
  unique : (ledger.entries.map (·.number)).Nodup
  recent : ∀ reference ∈ ledger.entries, reference.number < memory.nextNumber
  held : ∀ reference ∈ memory.references.items, reference ∈ ledger.entries

namespace Agrees

variable {queue later : ReferenceQueue K V} {ledger : Ledger K V} {memory after : Memory K V}

theorem empty : Agrees (.empty : ReferenceQueue K V) {} {} where
  pending := rfl
  sublist := List.Sublist.refl _
  current := nofun
  unique := List.nodup_nil
  recent := nofun
  held := nofun

/-- Both lists have the same references of any kind that is held and live. -/
theorem filter_eq (agrees : Agrees queue ledger memory) {chosen : SoftReference K V → Bool}
    (needed : ∀ reference, chosen reference = true →
      isCurrent memory memory.handles reference = true) :
    queue.registry.filter chosen = ledger.entries.filter chosen :=
  filter_eq_of_sublist agrees.sublist agrees.unique.of_map fun reference member passes =>
    agrees.current reference member (needed reference passes)

theorem filter_reclaimable (agrees : Agrees queue ledger memory) :
    queue.registry.filter (isReclaimable memory memory.handles) =
      ledger.reclaimable memory memory.handles :=
  agrees.filter_eq fun _ chosen => ReferenceQueue.isCurrent_of_isReclaimable _ chosen

theorem unique_registry (agrees : Agrees queue ledger memory) :
    (queue.registry.map (·.number)).Nodup :=
  agrees.unique.sublist (agrees.sublist.map _)

/-- Held references are copies of entered ones. -/
theorem coherent (agrees : Agrees queue ledger memory) :
    Coherent memory.handles queue.registry := fun one among _ member same =>
  List.inj_on_of_nodup_map agrees.unique (agrees.held one among) (agrees.sublist.subset member) same

/-- Dropping from the registry what is not held and live makes no difference, if nothing has come
to be held or live meanwhile. -/
theorem fewer (agrees : Agrees queue ledger memory) {others : List K}
    (pending : later.pending = others) (sublist : later.registry.Sublist queue.registry)
    (kept : ∀ reference ∈ queue.registry, isCurrent after after.handles reference = true →
      reference ∈ later.registry)
    (held : ∀ reference ∈ after.references.items, reference ∈ memory.references.items)
    (live : ∀ reference, after.isLive reference = true → memory.isLive reference = true)
    (next : after.nextNumber = memory.nextNumber) :
    Agrees later { ledger with pending := others } after where
  pending := pending
  sublist := sublist.trans agrees.sublist
  current reference member current := by
    refine kept reference (agrees.current reference member ?_) current
    obtain ⟨holds, alive⟩ := Bool.and_eq_true_iff.mp current
    obtain ⟨copy, among, same⟩ := List.any_eq_true.mp holds
    exact Bool.and_eq_true_iff.mpr
      ⟨List.any_eq_true.mpr ⟨copy, held copy among, same⟩, live reference alive⟩
  unique := agrees.unique
  recent := next ▸ agrees.recent
  held reference among := agrees.held reference (held reference among)

/-- Callers may let go of what they hold, copy it and hold other pointers. -/
theorem holding (agrees : Agrees queue ledger memory)
    (held : ∀ reference ∈ after.references.items, reference ∈ memory.references.items)
    (reclaimed : after.reclaimed = memory.reclaimed) (next : after.nextNumber = memory.nextNumber) :
    Agrees queue ledger after :=
  agrees.fewer agrees.pending (List.Sublist.refl _) (fun _ member _ => member) held
    (fun reference live => by rwa [Memory.isLive, reclaimed] at live) next

/-- A new reference is entered in both lists, whether a caller keeps it or not. -/
theorem enter (agrees : Agrees queue ledger memory) {made : SoftReference K V}
    (number : made.number = memory.nextNumber)
    (held : ∀ reference ∈ after.references.items,
      reference = made ∨ reference ∈ memory.references.items)
    (reclaimed : after.reclaimed = memory.reclaimed)
    (next : after.nextNumber = memory.nextNumber + 1) :
    Agrees { queue with registry := queue.registry ++ [made] }
      { ledger with entries := ledger.entries ++ [made] } after where
  pending := agrees.pending
  sublist := agrees.sublist.append (List.Sublist.refl _)
  current reference member current := by
    refine List.mem_append.mpr ((List.mem_append.mp member).imp_left fun member => ?_)
    refine agrees.current reference member ?_
    obtain ⟨holds, alive⟩ := Bool.and_eq_true_iff.mp current
    obtain ⟨copy, among, same⟩ := List.any_eq_true.mp holds
    rw [Memory.isLive, reclaimed] at alive
    refine Bool.and_eq_true_iff.mpr ⟨List.any_eq_true.mpr ⟨copy, ?_, same⟩, alive⟩
    -- A copy of an older reference is not the new one, which has a number of its own.
    refine (held copy among).resolve_left fun fresh => ?_
    rw [fresh, number, beq_iff_eq] at same
    exact Nat.ne_of_gt (agrees.recent reference member) same
  unique := by
    rw [List.map_append, List.map_singleton, List.nodup_append_comm]
    refine List.nodup_cons.mpr ⟨fun member => ?_, agrees.unique⟩
    obtain ⟨reference, member, same⟩ := List.mem_map.mp member
    exact Nat.ne_of_lt (agrees.recent reference member) (same.trans number)
  recent reference member := by
    rw [next]
    rcases List.mem_append.mp member with member | member
    · exact Nat.lt_succ_of_lt (agrees.recent reference member)
    · rw [List.mem_singleton.mp member, number]
      exact Nat.lt_succ_self _
  held reference among := by
    rcases held reference among with rfl | older
    · exact List.mem_append_right _ List.mem_cons_self
    · exact List.mem_append_left _ (agrees.held reference older)

/-- A registry that is pruned still agrees. -/
theorem prune (agrees : Agrees queue ledger memory) :
    Agrees (queue.prune memory memory.handles) ledger memory :=
  agrees.fewer agrees.pending List.filter_sublist
    (fun _ member current => List.mem_filter.mpr ⟨member, current⟩) (fun _ among => among)
    (fun _ live => live) rfl

/-- The values of the same references may be reclaimed on both sides. -/
theorem strike (agrees : Agrees queue ledger memory) {chosen : List (SoftReference K V)}
    (pending : later.pending = queue.pending ++ chosen.map (·.key))
    (sublist : later.registry.Sublist queue.registry)
    (kept : ∀ reference ∈ queue.registry,
      isCurrent (memory.reclaimEach chosen) memory.handles reference = true →
      reference ∈ later.registry) :
    Agrees later (ledger.strike memory chosen).1 (ledger.strike memory chosen).2 := by
  refine agrees.fewer (pending.trans (agrees.pending ▸ rfl)) sublist ?_ ?_ ?_ ?_
  · intro reference member current
    exact kept reference member (Memory.handles_reclaimEach memory chosen ▸ current)
  · intro reference among
    show reference ∈ memory.handles.references
    rw [← Memory.handles_reclaimEach memory chosen]
    exact among
  · exact fun reference live => (Memory.isLive_reclaimEach.mp live).1
  · show (memory.reclaimEach chosen).nextNumber = _
    rw [Memory.reclaimEach_eq]

end Agrees

/-! ### Changes -/

/-- Both changes answer the same, leave the same memory and agree afterwards. -/
def Alike {α : Type} (real : α × ReferenceQueue K V × Memory K V)
    (complete : α × Ledger K V × Memory K V) : Prop :=
  real.1 = complete.1 ∧ real.2.2 = complete.2.2 ∧ Agrees real.2.1 complete.2.1 complete.2.2

section Changes

variable {queue : ReferenceQueue K V} {ledger : Ledger K V} {memory : Memory K V}
  (agrees : Agrees queue ledger memory)

include agrees

/-- A sweep reclaims what a ledger does, and drops what is of no use any more. -/
theorem alike_reclaim (limit : Nat) :
    Alike (queue.reclaim memory memory.handles limit)
      (ledger.reclaim memory memory.handles limit) := by
  have chosen : (ReferenceQueue.sweep memory.handles limit memory queue.registry).reclaimed =
      (ledger.reclaimable memory memory.handles).take limit := by
    rw [ReferenceQueue.reclaimed_sweep agrees.coherent agrees.unique_registry,
      agrees.filter_reclaimable]
  have swept : (ReferenceQueue.sweep memory.handles limit memory queue.registry).memory =
      memory.reclaimEach ((ledger.reclaimable memory memory.handles).take limit) := by
    rw [ReferenceQueue.memory_sweep, chosen]
  refine ⟨congrArg List.length chosen, swept, agrees.strike ?_ ?_ ?_⟩
  · exact congrArg (fun reclaimed => queue.pending ++ reclaimed.map (·.key)) chosen
  · exact ReferenceQueue.kept_sublist _
  · intro reference member current
    rw [← swept] at current
    show reference ∈ (ReferenceQueue.sweep memory.handles limit memory queue.registry).kept
    rw [ReferenceQueue.kept_sweep agrees.unique_registry]
    exact List.mem_filter.mpr ⟨member, current⟩

/-- A sweep without a limit reclaims all that a ledger does. -/
theorem alike_reclaimAll :
    Alike (queue.reclaimAll memory memory.handles) (ledger.reclaimAll memory memory.handles) := by
  have whole : (ledger.reclaimable memory memory.handles).take queue.registry.length =
      ledger.reclaimable memory memory.handles := by
    refine List.take_of_length_le ?_
    rw [← agrees.filter_reclaimable]
    exact List.length_filter_le _ _
  have alike := alike_reclaim agrees queue.registry.length
  unfold Ledger.reclaim at alike
  rwa [whole] at alike

/-- A registration prunes at most what is of no use any more. -/
theorem register_agrees (key : K) (value : Shared V) {after : Memory K V}
    (held : ∀ reference ∈ after.references.items,
      reference = (memory.refer key value).1 ∨ reference ∈ memory.references.items)
    (reclaimed : after.reclaimed = memory.reclaimed)
    (next : after.nextNumber = memory.nextNumber + 1) :
    Agrees (queue.register memory memory.handles key value).2.1
      (ledger.register memory key value).2.1 after := by
  unfold ReferenceQueue.register
  simp only
  split
  · exact agrees.prune.enter rfl held reclaimed next
  · exact agrees.enter rfl held reclaimed next

theorem registered_eq : queue.registered memory memory.handles =
    ledger.registered memory memory.handles := by
  unfold ReferenceQueue.registered Ledger.registered
  rw [List.countP_eq_length_filter, agrees.filter_eq fun _ current => current]

/-- Notifications are polled in the order in which they came. -/
theorem poll_agrees :
    queue.poll.1 = ledger.poll.1 ∧ Agrees queue.poll.2 ledger.poll.2 memory := by
  have popped : ∀ rest,
      Agrees { queue with pending := rest } { ledger with pending := rest } memory :=
    fun rest => agrees.fewer rfl (List.Sublist.refl _) (fun _ member _ => member)
      (fun _ among => among) (fun _ live => live) rfl
  obtain ⟨pending, registry, threshold⟩ := queue
  obtain ⟨entries, notified⟩ := ledger
  obtain rfl : pending = notified := agrees.pending
  cases pending with
  | nil => exact ⟨rfl, popped []⟩
  | cons key rest => exact ⟨rfl, popped rest⟩

variable [DecidableEq K]

/-- A forced reclamation finds the same reference on both sides. -/
theorem alike_forceReclaim (key : K) :
    Alike (queue.forceReclaim memory memory.handles key)
      (ledger.forceReclaim memory memory.handles key) := by
  have same : (queue.registry.filter fun reference =>
        reference.key = key && isCurrent memory memory.handles reference) =
      ledger.entries.filter fun reference =>
        reference.key = key && isCurrent memory memory.handles reference :=
    agrees.filter_eq fun _ chosen => (Bool.and_eq_true_iff.mp chosen).2
  unfold ReferenceQueue.forceReclaim Ledger.forceReclaim
  rw [← same, ← List.head?_filter, List.filter_reverse, List.head?_reverse]
  simp only
  cases (queue.registry.filter _).getLast? with
  | none =>
    have pending : queue.pending = queue.pending ++ [] := (List.append_nil _).symm
    exact ⟨rfl, rfl, agrees.strike pending (List.Sublist.refl _) fun _ member _ => member⟩
  | some reference =>
    exact ⟨rfl, rfl, agrees.strike rfl (List.Sublist.refl _) fun _ member _ => member⟩

end Changes

/-! ### Deeds -/

section Deeds

/-- The queue and the ledger agree, and callers hold the same. -/
def Together (real : QueueState K V (ReferenceQueue K V)) (complete : QueueState K V (Ledger K V)) :
    Prop :=
  real.memory = complete.memory ∧ Agrees real.system complete.system complete.memory

variable {real : QueueState K V (ReferenceQueue K V)} {complete : QueueState K V (Ledger K V)}

/-- Changes that are alike give the same reply. -/
theorem Alike.together {α : Type} {changed : α × ReferenceQueue K V × Memory K V}
    {entered : α × Ledger K V × Memory K V} (alike : Alike changed entered)
    (reply : α → QueueReply K V) :
    (Registrar.change reply changed).1 = (Registrar.change reply entered).1 ∧
      Together (Registrar.change reply changed).2 (Registrar.change reply entered).2 :=
  ⟨congrArg reply alike.1, alike.2⟩

variable [DecidableEq K]

/-- A deed is answered alike, and queue and ledger still agree. -/
theorem perform_together (together : Together real complete) (deed : QueueDeed K V) :
    (ReferenceQueue.registrar.perform real deed).1 = (registrar.perform complete deed).1 ∧
      Together (ReferenceQueue.registrar.perform real deed).2
        (registrar.perform complete deed).2 := by
  obtain ⟨queue, memory⟩ := real
  obtain ⟨ledger, _⟩ := complete
  obtain ⟨rfl, agrees⟩ := together
  dsimp only at agrees
  cases deed with
  | register key value name =>
    refine ⟨rfl, rfl, register_agrees agrees key value ?_ ?_ ?_⟩
    · intro reference among
      cases name with
      | none => exact Or.inr among
      | some name => exact Table.mem_items_insert among
    · cases name <;> rfl
    · cases name <;> rfl
  | clone name copy =>
    simp only [Registrar.perform]
    split
    case h_1 => exact ⟨rfl, rfl, agrees⟩
    case h_2 reference found =>
      refine ⟨rfl, rfl, agrees.holding (fun other among => ?_) rfl rfl⟩
      rcases Table.mem_items_insert among with rfl | older
      · exact Table.mem_items_of_find? found
      · exact older
  | drop name =>
    refine ⟨rfl, rfl, agrees.holding (fun reference among => ?_) rfl rfl⟩
    exact (Table.items_erase_sublist _ name).subset among
  | hold name value => exact ⟨rfl, rfl, agrees.holding (fun _ among => among) rfl rfl⟩
  | release name => exact ⟨rfl, rfl, agrees.holding (fun _ among => among) rfl rfl⟩
  | get name hold =>
    simp only [Registrar.perform]
    split
    case h_1 => exact ⟨rfl, rfl, agrees⟩
    case h_2 =>
      split
      · exact ⟨rfl, rfl, agrees.holding (fun _ among => among) rfl rfl⟩
      · exact ⟨rfl, rfl, agrees⟩
  | reclaim limit => exact (alike_reclaim agrees limit).together .count
  | reclaimAll => exact (alike_reclaimAll agrees).together .count
  | forceReclaim key => exact (alike_forceReclaim agrees key).together .flag
  | registered =>
    exact ⟨congrArg QueueReply.count (registered_eq agrees), rfl, agrees⟩
  | poll =>
    obtain ⟨answer, polled⟩ := poll_agrees agrees
    exact ⟨congrArg QueueReply.key answer, rfl, polled⟩
  | pending =>
    exact ⟨congrArg (fun waiting : List K => QueueReply.count waiting.length) agrees.pending, rfl,
      agrees⟩

/-- So is every list of deeds. -/
theorem run_together (together : Together real complete) (deeds : List (QueueDeed K V)) :
    (ReferenceQueue.registrar.run deeds real).1 = (registrar.run deeds complete).1 ∧
      Together (ReferenceQueue.registrar.run deeds real).2 (registrar.run deeds complete).2 := by
  induction deeds generalizing real complete with
  | nil => exact ⟨rfl, together⟩
  | cons deed rest inductionHypothesis =>
    obtain ⟨reply, next⟩ := perform_together together deed
    obtain ⟨replies, final⟩ := inductionHypothesis next
    rw [Registrar.run_cons, Registrar.run_cons, reply, replies]
    exact ⟨rfl, final⟩

end Deeds

end Ledger

/-- Whatever is done with a queue and with what callers hold, every answer is that of a ledger,
which keeps all registrations for ever and prunes nothing, and callers end up holding the same. At
the end the registry has no reference twice, and of those ever registered it has all that are held
and live. -/
theorem ReferenceQueue.pruning_unseen [DecidableEq K] (deeds : List (QueueDeed K V)) :
    let real := registrar.run deeds ⟨.empty, {}⟩
    let complete := Ledger.registrar.run deeds ⟨{}, {}⟩
    real.1 = complete.1 ∧ real.2.memory = complete.2.memory ∧
      (real.2.system.registry.map (·.number)).Nodup ∧
      real.2.system.registry.Sublist complete.2.system.entries ∧
      ∀ reference ∈ complete.2.system.entries,
        isCurrent real.2.memory real.2.memory.handles reference = true →
          reference ∈ real.2.system.registry := by
  intro real complete
  have start : Ledger.Together ⟨.empty, {}⟩ (⟨{}, {}⟩ : QueueState K V (Ledger K V)) :=
    ⟨rfl, Ledger.Agrees.empty⟩
  obtain ⟨replies, memory, agrees⟩ := Ledger.run_together start deeds
  have memory : real.2.memory = complete.2.memory := memory
  exact ⟨replies, memory, agrees.unique_registry, agrees.sublist,
    fun reference member current => agrees.current reference member (memory ▸ current)⟩

end LayeredCache
