/-
This file proves what holds of the references below a soft layer after every run, whichever calls
have failed, and whether they failed before they took effect or afterwards: no key has two entries,
every stored reference has a number that was given to it, and no caller holds a reference. So the
number that is given next is the number of nothing that is stored.

`Modest` says how far a call can go that fails. It may have had its effect or not, and a put may
have stored its item before the eviction failed that followed; but no call touches the memory or
stores anything else.
-/

import LayeredCache.Proofs.CutShort

namespace LayeredCache

open LayeredCache.Action

variable {K V σ X : Type}

/-! ### Tables that are listed -/

/-- No key has two entries, and every item is listed. -/
structure Table.Within (items : List X) (table : Table K X) : Prop where
  distinct : table.Distinct
  listed : table.items ⊆ items

namespace Table.Within

variable {items : List X} {table : Table K X}

theorem self (distinct : table.Distinct) : table.Within table.items :=
  ⟨distinct, List.Subset.refl _⟩

theorem empty (items : List X) : (Table.empty : Table K X).Within items :=
  ⟨distinct_empty, List.nil_subset items⟩

theorem cons (within : table.Within items) (item : X) : table.Within (item :: items) :=
  ⟨within.distinct, List.Subset.trans within.listed (List.subset_cons_self item items)⟩

variable [DecidableEq K]

theorem erase (within : table.Within items) (key : K) : (table.erase key).Within items :=
  ⟨within.distinct.erase key,
    List.Subset.trans (items_erase_sublist table key).subset within.listed⟩

theorem insert (distinct : table.Distinct) (key : K) (item : X) :
    (table.insert key item).Within (item :: table.items) :=
  ⟨distinct.insert key item, fun _ listed => List.mem_cons.mpr (mem_items_insert listed)⟩

end Table.Within

/-! ### Numbered references -/

/-- No key has two entries, every stored reference has a number that was given, and no caller holds
a reference. -/
structure Numbered (table : Table K (SoftReference K V)) (memory : Memory K V) : Prop where
  distinct : table.Distinct
  given : ∀ reference ∈ table.items, reference.number < memory.nextNumber
  unheld : memory.references.items = []

namespace Numbered

variable {table later : Table K (SoftReference K V)} {memory after : Memory K V}

theorem within (numbered : Numbered table memory) (within : later.Within table.items) :
    Numbered later memory :=
  ⟨within.distinct, fun reference listed => numbered.given reference (within.listed listed),
    numbered.unheld⟩

theorem erase [DecidableEq K] (numbered : Numbered table memory) (key : K) :
    Numbered (table.erase key) memory :=
  numbered.within ((Table.Within.self numbered.distinct).erase key)

/-- The reference that is made next may be stored. -/
theorem refer (numbered : Numbered table memory) {key : K} {value : Shared V}
    (within : later.Within ((memory.refer key value).1 :: table.items)) :
    Numbered later (memory.refer key value).2 where
  distinct := within.distinct
  given reference listed := by
    show reference.number < memory.nextNumber + 1
    rcases List.mem_cons.mp (within.listed listed) with rfl | older
    · exact Nat.lt_succ_self memory.nextNumber
    · exact Nat.lt_succ_of_lt (numbered.given reference older)
  unheld := numbered.unheld

/-- What is reclaimed and which values callers hold makes no difference. -/
theorem elsewhere (numbered : Numbered table memory)
    (nextNumber : after.nextNumber = memory.nextNumber)
    (references : after.references = memory.references) : Numbered table after :=
  ⟨numbered.distinct, nextNumber ▸ numbered.given, references ▸ numbered.unheld⟩

end Numbered

/-! ### Caches whose calls may fail at any time -/

variable [DecidableEq K]

/-- A call that succeeds changes the table as it is told to, and one that fails does so or changes
nothing. A put may evict in any case. No call touches the memory. -/
structure Cache.Modest (cache : Cache K V σ X) (table : σ → Table K X) : Prop where
  put : ∀ layer memory key item, (table layer).Distinct →
    (cache.put key item).Leaves layer memory
      (fun _ later after => after = memory ∧ (table later).Within (item :: (table layer).items))
      fun later after => after = memory ∧ (table later).Within (item :: (table layer).items)
  get : ∀ layer memory key, (cache.get key).Leaves layer memory
    (fun found later after => after = memory ∧ table later = table layer ∧
      found = (table layer).find? key)
    fun later after => after = memory ∧ table later = table layer
  remove : ∀ layer memory key, (cache.remove key).Leaves layer memory
    (fun _ later after => after = memory ∧ table later = (table layer).erase key)
    fun later after => after = memory ∧
      (table later = table layer ∨ table later = (table layer).erase key)
  clear : ∀ layer memory, cache.clear.Leaves layer memory
    (fun _ later after => after = memory ∧ table later = Table.empty)
    fun later after => after = memory ∧ (table later = table layer ∨ table later = Table.empty)
  length : ∀ layer memory, cache.length.Leaves layer memory
    (fun _ later after => after = memory ∧ table later = table layer)
    fun later after => after = memory ∧ table later = table layer

theorem modest_store (handles : List X → Handles K V) :
    (Store.cache handles).Modest fun store => store.table where
  put _ _ key item distinct _ := ⟨rfl, .insert distinct key item⟩
  get _ _ _ _ := ⟨rfl, rfl, rfl⟩
  remove _ _ _ _ := ⟨rfl, rfl⟩
  clear _ _ _ := ⟨rfl, rfl⟩
  length _ _ _ := ⟨rfl, rfl⟩

/-- A recency layer adds removals to a put, and nothing else that its delegate notices. -/
theorem LruLayer.modest {delegate : Cache K V σ X} {table : σ → Table K X}
    (modest : delegate.Modest table) :
    (LruLayer.cache delegate).Modest fun layer => table layer.delegate where
  put layer memory key item distinct := by
    refine LruLayer.put_keeps (fun victim inner after kept => ?_)
      (modest.put layer.delegate memory key item distinct)
    obtain ⟨same, within⟩ := kept
    refine (modest.remove inner after victim).imp (fun _ _ _ next => ?_) fun _ _ next => ?_
    · obtain ⟨rfl, erased⟩ := next
      exact ⟨same, erased ▸ within.erase victim⟩
    · obtain ⟨rfl, kept | erased⟩ := next
      · exact ⟨same, kept ▸ within⟩
      · exact ⟨same, erased ▸ within.erase victim⟩
  get layer memory key := LruLayer.get_leaves (modest.get layer.delegate memory key)
  remove layer memory key := LruLayer.remove_leaves (modest.remove layer.delegate memory key)
  clear layer memory := LruLayer.clear_leaves (modest.clear layer.delegate memory)
  length layer memory := LruLayer.length_leaves (modest.length layer.delegate memory)

/-- A probe makes calls fail before or after they take effect. -/
theorem ProbeLayer.modest {delegate : Cache K V σ X} {table : σ → Table K X}
    (modest : delegate.Modest table) (position : Nat) :
    (ProbeLayer.cache position delegate).Modest fun layer => table layer.delegate where
  put layer memory key item distinct :=
    intercept_leaves ⟨rfl, (Table.Within.self distinct).cons item⟩
      (modest.put layer.delegate memory key item distinct) fun _ _ _ next => next
  get layer memory key :=
    intercept_leaves ⟨rfl, rfl⟩ (modest.get layer.delegate memory key)
      fun _ _ _ next => ⟨next.1, next.2.1⟩
  remove layer memory key :=
    intercept_leaves ⟨rfl, Or.inl rfl⟩ (modest.remove layer.delegate memory key)
      fun _ _ _ next => ⟨next.1, Or.inr next.2⟩
  clear layer memory :=
    intercept_leaves ⟨rfl, Or.inl rfl⟩ (modest.clear layer.delegate memory)
      fun _ _ _ next => ⟨next.1, Or.inr next.2⟩
  length layer memory :=
    intercept_leaves ⟨rfl, rfl⟩ (modest.length layer.delegate memory) fun _ _ _ next => next

theorem Shape.modest : (shape : Shape .reference) →
    (shape.cache : Cache K V (shape.State K V) (SoftReference K V)).Modest shape.table
  | .store => modest_store _
  | .lru delegate => LruLayer.modest delegate.modest
  | .probe delegate => ProbeLayer.modest delegate.modest _

/-! ### Steps -/

namespace SoftLayer

variable {delegate : Cache K V σ (SoftReference K V)} {table : σ → Table K (SoftReference K V)}
  {machine : Machine K V (SoftLayer K V σ)}

/-- However the action ends, the stored references are numbered. -/
def Numbers {α : Type} (table : σ → Table K (SoftReference K V))
    (action : Action K V (SoftLayer K V σ) α) (machine : Machine K V (SoftLayer K V σ)) : Prop :=
  action.Ends machine (fun _ later => Numbered (table later.layer.delegate) later.memory)
    fun _ later => Numbered (table later.layer.delegate) later.memory

section Calls

variable (modest : delegate.Modest table)

include modest

theorem get_numbered (key : K) (layer : σ) (memory : Memory K V)
    (numbered : Numbered (table layer) memory) :
    (delegate.get key).Leaves layer memory (fun _ later after => Numbered (table later) after)
      fun later after => Numbered (table later) after := by
  refine (modest.get layer memory key).imp (fun _ _ _ next => ?_) fun _ _ next => ?_
  · exact next.1 ▸ next.2.1 ▸ numbered
  · exact next.1 ▸ next.2 ▸ numbered

theorem remove_numbered (key : K) (layer : σ) (memory : Memory K V)
    (numbered : Numbered (table layer) memory) :
    (delegate.remove key).Leaves layer memory (fun _ later after => Numbered (table later) after)
      fun later after => Numbered (table later) after := by
  refine (modest.remove layer memory key).imp (fun _ _ _ next => ?_) fun _ _ next => ?_
  · obtain ⟨rfl, erased⟩ := next
    exact erased ▸ numbered.erase key
  · obtain ⟨rfl, kept | erased⟩ := next
    · exact kept ▸ numbered
    · exact erased ▸ numbered.erase key

variable (numbered : Numbered (table machine.layer.delegate) machine.memory)

include numbered

theorem drain_numbered : Numbers table (drain delegate) machine :=
  drain_keeps (get_numbered modest) (remove_numbered modest) numbered

theorem opening_numbered (call : Call K (Shared V)) :
    Numbers table (opening delegate call) machine := by
  cases call with
  | get key => exact numbered
  | clear =>
    unfold Numbers
    simp only [opening, ends_bind, ends_modifyLayer]
    exact drain_numbered modest numbered
  | put | remove | length | isEmpty => exact drain_numbered modest numbered

theorem closing_numbered (call : Call K (Shared V)) :
    Numbers table (closing delegate call) machine := by
  unfold Numbers
  cases call with
  | put key value =>
    simp only [closing, below, ends_bind, ends_withQueue, ends_within, ends_pure]
    refine (modest.put _ _ key _ numbered.distinct).ends (fun _ later next => ?_)
      fun _ later next => ?_
    · exact next.1 ▸ numbered.refer next.2
    · exact next.1 ▸ numbered.refer next.2
  | get key =>
    simp only [closing, get, below, ends_bind, ends_within]
    refine (get_numbered modest key _ _ numbered).ends (fun found later next => ?_)
      fun _ _ next => next
    cases found with
    | none => exact next
    | some reference =>
      simp only [ends_bind, ends_memory, around, count]
      split
      case h_1 value resolved =>
        rw [ends_bind]
        exact ends_pin fun _ _ _ => next
      case h_2 =>
        simp only [ends_bind, name, ends_layer, ends_pure, ends_report, ends_within]
        exact (remove_numbered modest key later.layer later.memory next _).imp
          (fun _ _ last => last) fun _ _ last => last
  | remove key =>
    simp only [closing, below, ends_bind, ends_within]
    refine (remove_numbered modest key _ _ numbered).ends (fun found later next => ?_)
      fun _ _ next => next
    cases found with
    | none => exact next
    | some reference => exact next
  | clear =>
    simp only [closing, below, ends_bind, ends_within, ends_pure]
    refine (modest.clear _ _).ends (fun _ later next => ?_) fun _ later next => ?_
    · exact next.1 ▸ numbered.within (next.2 ▸ .empty _)
    · obtain ⟨same, kept | cleared⟩ := next
      · exact same ▸ kept ▸ numbered
      · exact same ▸ numbered.within (cleared ▸ .empty _)
  | length | isEmpty =>
    simp only [closing, below, ends_bind, ends_within, ends_pure]
    refine (modest.length _ _).ends (fun _ later next => ?_) fun _ later next => ?_
    · exact next.1 ▸ next.2 ▸ numbered
    · exact next.1 ▸ next.2 ▸ numbered

end Calls

end SoftLayer

/-! ### Runs -/

/-- A forced reclamation gives no number. -/
theorem ReferenceQueue.nextNumber_forceReclaim {handles : Handles K V} {memory : Memory K V}
    (queue : ReferenceQueue K V) (key : K) :
    (queue.forceReclaim memory handles key).2.2.nextNumber = memory.nextNumber := by
  unfold forceReclaim
  split <;> rfl

namespace Shape

variable {delegate : Shape .reference}
  {machine : Machine K V (SoftLayer K V (delegate.State K V))}

/-- Whatever is done and however it ends, the stored references stay numbered. -/
theorem perform_numbered
    (numbered : Numbered (delegate.table machine.layer.delegate) machine.memory)
    (deed : Deed K V) :
    SoftLayer.Numbers delegate.table ((Shape.soft delegate).perform deed) machine := by
  have retuned {action : Action K V ((Shape.soft delegate).State K V) (Outcome V)}
      (retunes : (Shape.soft delegate).Retunes action) :
      SoftLayer.Numbers delegate.table action machine := by
    refine (retunes _ _).ends (fun _ later next => ?_) fun _ _ no => no.elim
    rw [next.1, Retuned.table next.2.2]
    exact numbered
  have swept (limit : Nat) :
      Numbered (delegate.table machine.layer.delegate)
        (ReferenceQueue.sweep (SoftLayer.alive delegate.cache machine) limit machine.memory
          machine.layer.queue.registry).memory := by
    rw [ReferenceQueue.memory_sweep, Memory.reclaimEach_eq]
    exact numbered.elsewhere rfl rfl
  cases deed with
  | call call =>
    rw [SoftLayer.Numbers, perform, ends_map]
    show ((SoftLayer.cache delegate.cache).call call).Ends machine _ _
    rw [SoftLayer.call_eq, ends_bind]
    exact (SoftLayer.opening_numbered delegate.modest numbered call).imp
      (fun _ _ opened => SoftLayer.closing_numbered delegate.modest opened call)
      fun _ _ kept => kept
  | reclaim limit => exact swept limit
  | reclaimAll => exact swept _
  | forceReclaim key =>
    exact numbered.elsewhere (ReferenceQueue.nextNumber_forceReclaim _ key)
      (ReferenceQueue.references_forceReclaim _ _ key)
  | setCapacity position capacity => exact retuned (retunes_setCapacity _ position capacity)
  | setWindow window => exact retuned (retunes_setWindow _ window)
  | addFault position fault => exact retuned (retunes_addFault _ position fault)
  | hold name value => exact numbered.elsewhere rfl rfl
  | release name => exact numbered.elsewhere rfl rfl

/-- After every run the stored references are numbered, whichever calls have failed. -/
theorem run_numbered
    (start : Numbered (delegate.table machine.layer.delegate) machine.memory)
    (deeds : List (Deed K V)) :
    let ended := ((Shape.soft delegate).run deeds machine).2
    Numbered (delegate.table ended.layer.delegate) ended.memory :=
  run_induction
    (fun _ (machine : Machine K V ((Shape.soft delegate).State K V)) =>
      Numbered (delegate.table machine.layer.delegate) machine.memory)
    (fun _ => True) (fun _ _ deed _ numbered => perform_numbered numbered deed) deeds
    (fun _ _ => trivial) [] machine start

end Shape

end LayeredCache
