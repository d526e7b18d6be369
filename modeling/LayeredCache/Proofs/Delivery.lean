/-
This file proves that notifications are delivered once and in order, and what becomes of a reference
and its copies.

A roll says from the deeds alone which references were registered and which of them a name stands
for. All is proved of a ledger, where a sweep and a forced reclamation are the same thing: a
`strike` of some references that are held and live. A reference that was struck is not live, so none
is struck twice, and each strike appends its numbers and its keys to two lists that go in step. The
queue then inherits everything, because it cannot be told from the ledger.
-/

import Mathlib.Logic.Function.Basic
import LayeredCache.Proofs.Pruning

namespace LayeredCache

variable {K V σ : Type}

/-! ### Rolls -/

/-- What the deeds alone tell about references. -/
structure Roll (K V : Type) where
  /-- The keys and the pointers that were registered, in this order. -/
  made : List (K × Shared V) := []
  /-- The place in this order of the reference that a name stands for. -/
  named : String → Option Nat := fun _ => none

/-- The roll after one more deed. -/
def Roll.after (roll : Roll K V) : QueueDeed K V → Roll K V
  | .register key value name =>
    { made := roll.made ++ [(key, value)]
      named := name.elim roll.named fun name =>
        Function.update roll.named name (some roll.made.length) }
  | .clone name copy =>
    { roll with
      named := (roll.named name).elim roll.named fun place =>
        Function.update roll.named copy (some place) }
  | .drop name => { roll with named := Function.update roll.named name none }
  | _ => roll

/-- The roll of the deeds, done in this order. -/
def rollOf (deeds : List (QueueDeed K V)) : Roll K V := deeds.foldl Roll.after {}

/-- The key that a reply hands to a poller. -/
def QueueReply.polled : QueueReply K V → Option K
  | .key found => found
  | _ => none

/-- How many values the deed has reclaimed, going by its reply. Only a sweep and a forced
reclamation reclaim any. -/
def QueueDeed.struck : QueueDeed K V → QueueReply K V → Nat
  | .reclaim _, .count number | .reclaimAll, .count number => number
  | .forceReclaim _, .flag answer => answer.toNat
  | _, _ => 0

theorem Registrar.run_append (registrar : Registrar K V σ) (deeds more : List (QueueDeed K V))
    (state : QueueState K V σ) :
    (registrar.run (deeds ++ more) state).2 =
      (registrar.run more (registrar.run deeds state).2).2 := by
  induction deeds generalizing state with
  | nil => rfl
  | cons deed rest inductionHypothesis => exact inductionHypothesis _

/-- A look-up through a name answers what its reference resolves to. -/
theorem Registrar.perform_get (registrar : Registrar K V σ) (state : QueueState K V σ)
    (name : String) (hold : Option String) :
    (registrar.perform state (.get name hold)).1 =
      (state.memory.references.find? name).elim .unknown fun reference =>
        .value (state.memory.resolve reference) := by
  simp only [perform]
  cases state.memory.references.find? name with
  | none => rfl
  | some reference =>
    simp only [Option.elim_some]
    split
    case h_1 found => rw [found]
    case h_2 => rfl

/-- The last item alone is part of a list. -/
theorem getLast?_toList_sublist {X : Type} (list : List X) :
    list.getLast?.toList.Sublist list := by
  cases last : list.getLast? with
  | none => exact List.nil_sublist list
  | some item => exact List.singleton_sublist.mpr (List.mem_of_getLast? last)

namespace Ledger

open ReferenceQueue (isCurrent)

/-! ### The books -/

/-- The entries and the names are those of the roll, no value was reclaimed twice, and the keys that
were polled and those that wait are the keys of the reclaimed references. -/
structure Keeps (roll : Roll K V) (polled : List K) (state : QueueState K V (Ledger K V)) :
    Prop where
  next : state.memory.nextNumber = roll.made.length
  entries : ∀ reference ∈ state.system.entries,
    roll.made[reference.number]? = some (reference.key, reference.referent)
  named : ∀ name, (state.memory.references.find? name).map (·.number) = roll.named name
  once : state.memory.reclaimed.Nodup
  notified : (polled ++ state.system.pending).map some =
    state.memory.reclaimed.reverse.map fun number => roll.made[number]?.map Prod.fst

namespace Keeps

variable {roll : Roll K V} {polled : List K} {ledger : Ledger K V} {memory after : Memory K V}

theorem empty : Keeps ({} : Roll K V) [] ⟨{}, {}⟩ where
  next := rfl
  entries := nofun
  named _ := rfl
  once := List.nodup_nil
  notified := rfl

/-- Values of held and live references may be reclaimed, each once. -/
theorem strike (keeps : Keeps roll polled ⟨ledger, memory⟩)
    (unique : (ledger.entries.map (·.number)).Nodup) {chosen : List (SoftReference K V)}
    (sublist : chosen.Sublist (ledger.entries.filter (isCurrent memory memory.handles))) :
    Keeps roll polled ⟨(ledger.strike memory chosen).1, (ledger.strike memory chosen).2⟩ := by
  have entered : chosen.Sublist ledger.entries := sublist.trans List.filter_sublist
  have keys : chosen.map (fun reference => some reference.key) =
      chosen.map fun reference => roll.made[reference.number]?.map Prod.fst := by
    refine List.map_congr_left fun reference member => ?_
    rw [keeps.entries reference (entered.subset member)]
    rfl
  have fresh : ∀ reference ∈ chosen, reference.number ∉ memory.reclaimed := fun reference member =>
    Memory.isLive_iff.mp (Bool.and_eq_true_iff.mp (List.mem_filter.mp (sublist.subset member)).2).2
  rw [Ledger.strike, Memory.reclaimEach_eq]
  refine ⟨keeps.next, keeps.entries, keeps.named, ?_, ?_⟩
  · refine List.nodup_append'.mpr ⟨List.nodup_reverse.mpr (unique.sublist (entered.map _)),
      keeps.once, fun number struck reclaimed => ?_⟩
    obtain ⟨reference, member, rfl⟩ := List.mem_map.mp (List.mem_reverse.mp struck)
    exact fresh reference member reclaimed
  · have notified : List.map some (polled ++ ledger.pending) = _ := keeps.notified
    show List.map some (polled ++ (ledger.pending ++ chosen.map (·.key))) =
      List.map _ (List.reverse (List.reverse _ ++ memory.reclaimed))
    rw [← List.append_assoc, List.map_append, notified, List.reverse_append, List.reverse_reverse,
      List.map_append, List.map_map, List.map_map]
    exact congrArg _ keys

/-- What callers hold may change, as long as the names stand for what the roll says. -/
theorem holding (keeps : Keeps roll polled ⟨ledger, memory⟩) {named : String → Option Nat}
    (names : ∀ name, (after.references.find? name).map (·.number) = named name)
    (next : after.nextNumber = memory.nextNumber) (reclaimed : after.reclaimed = memory.reclaimed) :
    Keeps { roll with named } polled ⟨ledger, after⟩ where
  next := next.trans keeps.next
  entries := keeps.entries
  named := names
  once := reclaimed ▸ keeps.once
  notified := reclaimed ▸ keeps.notified

end Keeps

/-! ### Deeds -/

section Names

variable {references : Table String (SoftReference K V)} {named : String → Option Nat}
  (names : ∀ name, (references.find? name).map (·.number) = named name)

include names

/-- The names after one of them came to stand for another reference. -/
theorem named_insert (name : String) (reference : SoftReference K V) (other : String) :
    ((references.insert name reference).find? other).map (·.number) =
      Function.update named name (some reference.number) other := by
  rw [Table.find?_insert, Function.update_apply, ← names]
  split <;> rfl

/-- The names after one of them came to stand for nothing. -/
theorem named_erase (name other : String) :
    ((references.erase name).find? other).map (·.number) =
      Function.update named name none other := by
  rw [Table.find?_erase, Function.update_apply, ← names]
  split <;> rfl

end Names

section Deeds

variable [DecidableEq K] {roll : Roll K V} {polled : List K}
  {state : QueueState K V (Ledger K V)}

omit [DecidableEq K] in
/-- A reclaimed reference is on the roll. -/
theorem Keeps.reclaimed_lt (keeps : Keeps roll polled state) {number : Nat}
    (reclaimed : number ∈ state.memory.reclaimed) : number < roll.made.length := by
  have listed : roll.made[number]?.map Prod.fst ∈ (polled ++ state.system.pending).map some :=
    keeps.notified ▸ List.mem_map_of_mem (List.mem_reverse.mpr reclaimed)
  obtain ⟨key, -, same⟩ := List.mem_map.mp listed
  obtain ⟨made, found, -⟩ := Option.map_eq_some_iff.mp same.symm
  exact (List.getElem?_eq_some_iff.mp found).1

omit [DecidableEq K] in
/-- A reply that hands out no key leaves the polled ones as they are. -/
theorem Keeps.silent (keeps : Keeps roll polled state) {reply : QueueReply K V}
    (silent : reply.polled = none) : Keeps roll (polled ++ reply.polled.toList) state := by
  rw [silent, Option.toList_none, List.append_nil]
  exact keeps

/-- A registration takes the next place on the roll. -/
theorem Keeps.register (keeps : Keeps roll polled state) (key : K) (value : Shared V)
    (name : Option String) :
    Keeps (roll.after (.register key value name)) polled
      (registrar.perform state (.register key value name)).2 := by
  have old : ∀ number < roll.made.length,
      (roll.made ++ [(key, value)])[number]? = roll.made[number]? :=
    fun number lt => List.getElem?_append_left lt
  let made : SoftReference K V := ⟨state.memory.nextNumber, key, value⟩
  have entries : ∀ reference ∈ state.system.entries ++ [made],
      (roll.made ++ [(key, value)])[reference.number]? =
        some (reference.key, reference.referent) := by
    intro reference member
    rcases List.mem_append.mp member with older | new
    · have found := keeps.entries reference older
      rw [old _ (List.getElem?_eq_some_iff.mp found).1, found]
    · rw [List.mem_singleton.mp new, show made.number = roll.made.length from keeps.next,
        List.getElem?_concat_length]
  have next : state.memory.nextNumber + 1 = (roll.made ++ [(key, value)]).length := by
    rw [keeps.next, List.length_append, List.length_singleton]
  have notified : (polled ++ state.system.pending).map some =
      state.memory.reclaimed.reverse.map fun number =>
        (roll.made ++ [(key, value)])[number]?.map Prod.fst := by
    refine keeps.notified.trans (List.map_congr_left fun number reclaimed => ?_)
    rw [old number (keeps.reclaimed_lt (List.mem_reverse.mp reclaimed))]
  cases name with
  | none => exact ⟨next, entries, keeps.named, keeps.once, notified⟩
  | some name =>
    refine ⟨next, entries, fun other => ?_, keeps.once, notified⟩
    exact (named_insert keeps.named name made other).trans
      (congrArg (fun number => Function.update roll.named name (some number) other) keeps.next)

/-- A copy stands for what its original stands for. -/
theorem Keeps.clone (keeps : Keeps roll polled state) (name copy : String) :
    Keeps (roll.after (.clone name copy))
      (polled ++ (registrar.perform state (.clone name copy)).1.polled.toList)
      (registrar.perform state (.clone name copy)).2 := by
  have same := keeps.named name
  simp only [Registrar.perform, Roll.after]
  cases found : state.memory.references.find? name with
  | none =>
    rw [← same, found]
    exact keeps.silent rfl
  | some reference =>
    rw [← same, found]
    refine Keeps.silent ?_ rfl
    exact keeps.holding (named_insert keeps.named copy reference) rfl rfl

/-- Every deed keeps the books. -/
theorem perform_keeps (unique : (state.system.entries.map (·.number)).Nodup)
    (keeps : Keeps roll polled state) (deed : QueueDeed K V) :
    Keeps (roll.after deed) (polled ++ (registrar.perform state deed).1.polled.toList)
      (registrar.perform state deed).2 := by
  have reclaimable : (state.system.reclaimable state.memory state.memory.handles).Sublist
      (state.system.entries.filter (isCurrent state.memory state.memory.handles)) :=
    List.monotone_filter_right _ fun _ => ReferenceQueue.isCurrent_of_isReclaimable _
  cases deed with
  | register key value name => exact (keeps.register key value name).silent rfl
  | clone name copy => exact keeps.clone name copy
  | drop name =>
    refine Keeps.silent ?_ rfl
    exact keeps.holding (named_erase keeps.named name) rfl rfl
  | hold name value =>
    refine Keeps.silent ?_ rfl
    exact keeps.holding keeps.named rfl rfl
  | release name =>
    refine Keeps.silent ?_ rfl
    exact keeps.holding keeps.named rfl rfl
  | get name hold =>
    simp only [Registrar.perform]
    split
    case h_1 => exact keeps.silent rfl
    case h_2 =>
      split
      · refine Keeps.silent ?_ rfl
        exact keeps.holding keeps.named rfl rfl
      · exact keeps.silent rfl
  | reclaim limit =>
    exact (keeps.strike unique ((List.take_sublist limit _).trans reclaimable)).silent rfl
  | reclaimAll => exact (keeps.strike unique reclaimable).silent rfl
  | forceReclaim key =>
    have chosen : (state.system.entries.filter fun reference =>
        reference.key = key && isCurrent state.memory state.memory.handles reference).Sublist
          (state.system.entries.filter (isCurrent state.memory state.memory.handles)) :=
      List.monotone_filter_right _ fun _ chosen => (Bool.and_eq_true_iff.mp chosen).2
    exact (keeps.strike unique ((getLast?_toList_sublist _).trans chosen)).silent rfl
  | registered => exact keeps.silent rfl
  | poll =>
    have moved : ∀ waiting : List K, polled ++ waiting.head?.toList ++ waiting.tail =
        polled ++ waiting := by
      intro waiting
      cases waiting <;> simp
    exact ⟨keeps.next, keeps.entries, keeps.named, keeps.once,
      (congrArg _ (moved _)).trans keeps.notified⟩
  | pending => exact keeps.silent rfl

/-- Every list of deeds keeps them, for a queue that has been in step with the ledger. -/
theorem run_keeps {real : QueueState K V (ReferenceQueue K V)} (together : Together real state)
    (keeps : Keeps roll polled state) (deeds : List (QueueDeed K V)) :
    Keeps (deeds.foldl Roll.after roll)
      (polled ++ (registrar.run deeds state).1.filterMap QueueReply.polled)
      (registrar.run deeds state).2 := by
  induction deeds generalizing real state roll polled with
  | nil =>
    rw [show (registrar.run [] state).1.filterMap QueueReply.polled = [] from rfl, List.append_nil]
    exact keeps
  | cons deed rest inductionHypothesis =>
    have next := inductionHypothesis (perform_together together deed).2
      (perform_keeps together.2.unique keeps deed)
    have replies : ∀ (reply : QueueReply K V) others,
        (reply :: others).filterMap QueueReply.polled =
          reply.polled.toList ++ others.filterMap QueueReply.polled := by
      intro reply others
      rw [List.filterMap_cons]
      cases reply.polled <;> rfl
    rw [Registrar.run_cons, replies, ← List.append_assoc]
    exact next

/-- What is reclaimed stays reclaimed, and as many more are reclaimed as the reply says. -/
theorem perform_reclaimed (state : QueueState K V (Ledger K V)) (deed : QueueDeed K V) :
    ∃ struck : List Nat, (registrar.perform state deed).2.memory.reclaimed =
        struck.reverse ++ state.memory.reclaimed ∧
      struck.length = deed.struck (registrar.perform state deed).1 := by
  have strike : ∀ chosen : List (SoftReference K V), (state.memory.reclaimEach chosen).reclaimed =
      (chosen.map (·.number)).reverse ++ state.memory.reclaimed := by
    intro chosen
    rw [Memory.reclaimEach_eq]
  cases deed with
  | register key value name => cases name <;> exact ⟨[], rfl, rfl⟩
  | clone name copy =>
    simp only [Registrar.perform]
    split <;> exact ⟨[], rfl, rfl⟩
  | get name hold =>
    simp only [Registrar.perform]
    split
    case h_1 => exact ⟨[], rfl, rfl⟩
    case h_2 => split <;> exact ⟨[], rfl, rfl⟩
  | reclaim limit => exact ⟨_, strike _, List.length_map _⟩
  | reclaimAll => exact ⟨_, strike _, List.length_map _⟩
  | forceReclaim key =>
    have single : ∀ found : Option (SoftReference K V),
        found.toList.length = found.isSome.toNat := by
      intro found
      cases found <;> rfl
    exact ⟨_, strike _, (List.length_map _).trans (single _)⟩
  | drop | hold | release | registered | poll | pending => exact ⟨[], rfl, rfl⟩

theorem run_reclaimed (state : QueueState K V (Ledger K V)) (deeds : List (QueueDeed K V)) :
    state.memory.reclaimed <:+ (registrar.run deeds state).2.memory.reclaimed := by
  induction deeds generalizing state with
  | nil => exact List.suffix_rfl
  | cons deed rest inductionHypothesis =>
    obtain ⟨struck, more, -⟩ := perform_reclaimed state deed
    exact (more ▸ List.suffix_append _ _).trans (inductionHypothesis _)

/-- After every list of deeds there is a ledger that agrees with the queue and keeps the books. -/
theorem exists_keeps (deeds : List (QueueDeed K V)) :
    let ended := ReferenceQueue.registrar.run deeds ⟨.empty, {}⟩
    ∃ ledger, Agrees ended.2.system ledger ended.2.memory ∧
      Keeps (rollOf deeds) (ended.1.filterMap QueueReply.polled) ⟨ledger, ended.2.memory⟩ := by
  intro ended
  have start : Together ⟨.empty, {}⟩ (⟨{}, {}⟩ : QueueState K V (Ledger K V)) :=
    ⟨rfl, Agrees.empty⟩
  obtain ⟨replies, memory, agrees⟩ := run_together start deeds
  have keeps := run_keeps start Keeps.empty deeds
  have replies : ended.1 = _ := replies
  have memory : ended.2.memory = _ := memory
  rw [replies, memory]
  exact ⟨_, agrees, keeps⟩

end Deeds

end Ledger

/-- Whatever is done with a queue and with what callers hold. The keys that were polled, followed by
those that wait, are the keys of the reclaimed references in the order in which they were reclaimed;
no reference is reclaimed twice, what is reclaimed stays so, and every deed reclaims as many as it
says. A new reference has the next place on the roll. A name stands for a reference on the roll, and
a look-up through it finds nothing if this was reclaimed, and otherwise the pointer it was
registered with. -/
theorem ReferenceQueue.notifies_once [DecidableEq K] (deeds : List (QueueDeed K V)) :
    let ended := registrar.run deeds ⟨.empty, {}⟩
    let roll := rollOf deeds
    let reclaimed := ended.2.memory.reclaimed.reverse
    ((ended.1.filterMap QueueReply.polled ++ ended.2.system.pending).map some =
        reclaimed.map fun number => roll.made[number]?.map Prod.fst) ∧
      reclaimed.Nodup ∧
      (∀ more, reclaimed <+:
        (registrar.run (deeds ++ more) ⟨.empty, {}⟩).2.memory.reclaimed.reverse) ∧
      (∀ deed : QueueDeed K V, ∃ struck,
        (registrar.perform ended.2 deed).2.memory.reclaimed.reverse = reclaimed ++ struck ∧
          struck.length = deed.struck (registrar.perform ended.2 deed).1) ∧
      (∀ key value name, (registrar.perform ended.2 (.register key value name)).1 =
        .registered ⟨roll.made.length, key, value⟩) ∧
      ∀ name hold,
        match roll.named name with
        | none => (registrar.perform ended.2 (.get name hold)).1 = .unknown
        | some number => ∃ key value, roll.made[number]? = some (key, value) ∧
          (registrar.perform ended.2 (.get name hold)).1 =
            .value (if number ∈ reclaimed then none else some value) := by
  intro ended roll reclaimed
  obtain ⟨ledger, agrees, keeps⟩ := Ledger.exists_keeps deeds
  have agrees : Ledger.Agrees ended.2.system ledger ended.2.memory := agrees
  have keeps : Ledger.Keeps roll (ended.1.filterMap QueueReply.polled)
      ⟨ledger, ended.2.memory⟩ := keeps
  have together : Ledger.Together ended.2 ⟨ledger, ended.2.memory⟩ := ⟨rfl, agrees⟩
  refine ⟨agrees.pending ▸ keeps.notified, List.nodup_reverse.mpr keeps.once, fun more => ?_,
    fun deed => ?_, fun key value name => ?_, fun name hold => ?_⟩
  · have later := (Ledger.run_together together more).2.1
    rw [Registrar.run_append, List.reverse_prefix]
    exact later ▸ Ledger.run_reclaimed ⟨ledger, ended.2.memory⟩ more
  · obtain ⟨reply, later, -⟩ := Ledger.perform_together together deed
    obtain ⟨struck, more, count⟩ := Ledger.perform_reclaimed ⟨ledger, ended.2.memory⟩ deed
    rw [reply, later, more, List.reverse_append, List.reverse_reverse]
    exact ⟨struck, rfl, count⟩
  · exact congrArg (fun number => QueueReply.registered ⟨number, key, value⟩) keeps.next
  · have named := keeps.named name
    rw [Registrar.perform_get, ← named]
    cases found : ended.2.memory.references.find? name with
    | none => rfl
    | some reference =>
      have entered := agrees.held reference (Table.mem_items_of_find? found)
      refine ⟨reference.key, reference.referent, keeps.entries reference entered, ?_⟩
      refine congrArg QueueReply.value ?_
      rw [Memory.resolve]
      by_cases struck : reference.number ∈ ended.2.memory.reclaimed
      · rw [if_pos (List.mem_reverse.mpr struck),
          if_neg fun live => Memory.isLive_iff.mp live struck]
      · rw [if_neg fun member => struck (List.mem_reverse.mp member),
          if_pos (Memory.isLive_iff.mpr struck)]

end LayeredCache
