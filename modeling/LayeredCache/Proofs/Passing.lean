/-
This file proves that a stack passes errors on unchanged and stops at once.

Only probes raise errors, and they note it. A call returns an error if and only if one was raised
during it. Then it is this one, no other was raised, and nothing at all happened after it, no call
of a delegate by any layer in particular.

A trace shows only the calls that probes receive. So the stack is compared with an observed one, in
which every layer notes its calls as probes do. The observed stack does just what the stack does:
whatever it leaves out of the trace, it leaves out nothing else. Each layer hands both facts on, so
they are proved together, in one relation between an action and the observed one.
-/

import LayeredCache.Proofs.Usage

namespace LayeredCache

open LayeredCache.Action

variable {K V σ τ X α β : Type}

/-! ### Traces -/

/-- The entry says that an error was raised. -/
def Note.isRaised : Note K → Bool
  | .raised _ _ => true
  | .call _ _ _ _ | .event _ => false

/-- The entry is no call of a layer that is not a probe. -/
def Note.isKept (probes : Nat → Bool) : Note K → Bool
  | .call position _ _ _ => probes position
  | .raised _ _ | .event _ => true

/-- No entry says that an error was raised. -/
def Calm (notes : List (Note K)) : Prop := ∀ note ∈ notes, note.isRaised = false

theorem calm_nil : Calm ([] : List (Note K)) := List.forall_mem_nil _

theorem Calm.append {late early : List (Note K)} (last : Calm late) (first : Calm early) :
    Calm (late ++ early) := List.forall_mem_append.mpr ⟨last, first⟩

theorem Calm.singleton {note : Note K} (quiet : note.isRaised = false) : Calm [note] :=
  List.forall_mem_singleton.mpr quiet

/-- The entries, latest first, tell how the result came about: nothing was raised before a value,
and an error is what was raised last, and was raised first. -/
def Tells (notes : List (Note K)) : Except CacheError α → Prop
  | .ok _ => Calm notes
  | .error cause => ∃ position early, notes = .raised position cause :: early ∧ Calm early

/-- No error is in what is calm. -/
theorem Calm.not_mem {notes : List (Note K)} (calm : Calm notes) (position : Nat)
    (cause : CacheError) : .raised position cause ∉ notes := by
  intro member
  cases calm _ member

theorem Tells.append {late early : List (Note K)} {result : Except CacheError α}
    (tells : Tells late result) (calm : Calm early) : Tells (late ++ early) result := by
  cases result with
  | ok value => exact Calm.append tells calm
  | error cause =>
    obtain ⟨position, middle, rfl, quiet⟩ := tells
    exact ⟨position, middle ++ early, rfl, quiet.append calm⟩

/-- An error is returned if and only if one was raised. -/
theorem Tells.failed_iff {notes : List (Note K)} {result : Except CacheError α}
    (tells : Tells notes result) :
    (∃ cause, result = .error cause) ↔ ∃ position cause, .raised position cause ∈ notes := by
  cases result with
  | ok value =>
    refine iff_of_false ?_ fun raised => ?_
    · rintro ⟨cause, same⟩
      cases same
    · obtain ⟨position, cause, member⟩ := raised
      exact Calm.not_mem tells position cause member
  | error cause =>
    obtain ⟨position, early, rfl, -⟩ := tells
    exact iff_of_true ⟨cause, rfl⟩ ⟨position, cause, List.mem_cons_self⟩

/-! ### Actions -/

namespace Action

/-- The observed action does what the plain one does, and notes calls of layers that are no probes
in addition. What it notes tells how the result came about. -/
def Mirrors (probes : Nat → Bool) (plain observed : Action K V σ α) : Prop :=
  ∀ layer memory trace other, ∃ result later after notes,
    plain.run ⟨layer, memory, trace⟩ =
      (result, ⟨later, after, notes.filter (Note.isKept probes) ++ trace⟩) ∧
    observed.run ⟨layer, memory, other⟩ = (result, ⟨later, after, notes ++ other⟩) ∧
    Tells notes result

variable {probes : Nat → Bool}

/-- An action that cannot fail and notes nothing mirrors itself. -/
theorem mirrors_silent {action : Action K V σ α} (value : σ → Memory K V → α)
    (change : σ → Memory K V → σ × Memory K V)
    (silent : ∀ layer memory trace, action.run ⟨layer, memory, trace⟩ =
      (.ok (value layer memory), ⟨(change layer memory).1, (change layer memory).2, trace⟩)) :
    Mirrors probes action action :=
  fun layer memory trace other =>
    ⟨_, _, _, [], silent layer memory trace, silent layer memory other, calm_nil⟩

theorem mirrors_pure (value : α) :
    Mirrors probes (pure value : Action K V σ α) (pure value) :=
  mirrors_silent (fun _ _ => value) Prod.mk fun _ _ _ => rfl

theorem mirrors_layer : Mirrors probes (layer : Action K V σ σ) layer :=
  mirrors_silent (fun layer _ => layer) Prod.mk fun _ _ _ => rfl

theorem mirrors_memory : Mirrors probes (memory : Action K V σ (Memory K V)) memory :=
  mirrors_silent (fun _ memory => memory) Prod.mk fun _ _ _ => rfl

theorem mirrors_modifyLayer (change : σ → σ) :
    Mirrors probes (modifyLayer change : Action K V σ Unit) (modifyLayer change) :=
  mirrors_silent (fun _ _ => ()) (fun layer memory => (change layer, memory)) fun _ _ _ => rfl

theorem mirrors_updateLayer (change : σ → α × σ) :
    Mirrors probes (updateLayer change : Action K V σ α) (updateLayer change) :=
  mirrors_silent (fun layer _ => (change layer).1) (fun layer memory => ((change layer).2, memory))
    fun _ _ _ => rfl

theorem mirrors_note {entry : Note K} (kept : entry.isKept probes = true)
    (quiet : entry.isRaised = false) :
    Mirrors probes (note entry : Action K V σ Unit) (note entry) := by
  intro layer memory trace other
  refine ⟨.ok (), layer, memory, [entry], ?_, rfl, Calm.singleton quiet⟩
  rw [List.filter_cons_of_pos kept]
  rfl

theorem mirrors_report (event : Event) :
    Mirrors probes (report event : Action K V σ Unit) (report event) :=
  mirrors_note rfl rfl

/-- The second part runs on what the first one leaves, unless that one fails. -/
theorem Mirrors.bind {plain observed : Action K V σ β} {next observedNext : β → Action K V σ α}
    (mirrors : Mirrors probes plain observed)
    (rest : ∀ value, Mirrors probes (next value) (observedNext value)) :
    Mirrors probes (plain >>= next) (observed >>= observedNext) := by
  intro layer memory trace other
  obtain ⟨result, middle, between, early, ran, too, tells⟩ := mirrors layer memory trace other
  rw [run_bind, run_bind, ran, too]
  cases result with
  | error cause => exact ⟨.error cause, middle, between, early, rfl, rfl, tells⟩
  | ok value =>
    obtain ⟨result, later, after, late, ran, too, told⟩ := rest value middle between
      (early.filter (Note.isKept probes) ++ trace) (early ++ other)
    refine ⟨result, later, after, late ++ early, ran.trans ?_, too.trans ?_, told.append tells⟩
    · rw [List.filter_append, List.append_assoc]
    · rw [List.append_assoc]

theorem Mirrors.within {plain observed : Action K V σ α} (mirrors : Mirrors probes plain observed)
    (part : τ → σ) (replace : τ → σ → τ) :
    Mirrors probes (within part replace plain) (within part replace observed) := by
  intro layer memory trace other
  obtain ⟨result, later, after, notes, ran, too, tells⟩ := mirrors (part layer) memory trace other
  refine ⟨result, replace layer later, after, notes, ?_, ?_, tells⟩
  · rw [run_within, ran]
  · rw [run_within, too]

/-- A handler that passes the error on may clean up, but must not note anything. -/
theorem Mirrors.tryCatch {plain observed : Action K V σ α}
    {handler : CacheError → Action K V σ α} (mirrors : Mirrors probes plain observed)
    (clean : σ → σ) (passes : ∀ cause layer memory trace,
      (handler cause).run ⟨layer, memory, trace⟩ = (.error cause, ⟨clean layer, memory, trace⟩)) :
    Mirrors probes (tryCatch plain handler) (tryCatch observed handler) := by
  intro layer memory trace other
  obtain ⟨result, later, after, notes, ran, too, tells⟩ := mirrors layer memory trace other
  rw [run_tryCatch, run_tryCatch, ran, too]
  cases result with
  | ok value => exact ⟨.ok value, later, after, notes, rfl, rfl, tells⟩
  | error cause =>
    exact ⟨.error cause, clean later, after, notes, passes .., passes .., tells⟩

end Action

/-! ### Caches -/

/-- Every operation of the observed cache mirrors that of the plain one. -/
structure Cache.Mirrors (probes : Nat → Bool) (plain observed : Cache K V σ X) : Prop where
  id : observed.id = plain.id
  handles : observed.handles = plain.handles
  put : ∀ key item, (plain.put key item).Mirrors probes (observed.put key item)
  get : ∀ key, (plain.get key).Mirrors probes (observed.get key)
  remove : ∀ key, (plain.remove key).Mirrors probes (observed.remove key)
  clear : plain.clear.Mirrors probes observed.clear
  length : plain.length.Mirrors probes observed.length

/-- The cache notes every call that it receives, under its position in the stack. -/
def Cache.noted (position : Nat) (cache : Cache K V σ X) : Cache K V σ X where
  id := cache.id
  hasLock := cache.hasLock
  handles := cache.handles
  put key item := do
    note (.call position .put (some key) false)
    cache.put key item
  get key := do
    note (.call position .get (some key) false)
    cache.get key
  remove key := do
    note (.call position .remove (some key) false)
    cache.remove key
  clear := do
    note (.call position .clear none false)
    cache.clear
  length := do
    note (.call position .length none false)
    cache.length

variable {probes : Nat → Bool}

/-- A call may be noted first if it is not kept. -/
theorem Action.Mirrors.noted {plain observed : Action K V σ α}
    (mirrors : plain.Mirrors probes observed) {position : Nat} (hidden : probes position = false)
    (method : Method) (key : Option K) :
    plain.Mirrors probes (do
      note (.call position method key false)
      observed) := by
  intro layer memory trace other
  let call : Note K := .call position method key false
  obtain ⟨result, later, after, notes, ran, too, tells⟩ :=
    mirrors layer memory trace (call :: other)
  have dropped : ¬ call.isKept probes = true := Bool.eq_false_iff.mp hidden
  refine ⟨result, later, after, notes ++ [call], ran.trans ?_, ?_,
    tells.append (Calm.singleton rfl)⟩
  · rw [List.filter_append, List.filter_cons_of_neg dropped, List.filter_nil, List.append_nil]
  · rw [run_bind, run_note, List.append_assoc]
    exact too

theorem Cache.Mirrors.noted {plain observed : Cache K V σ X}
    (mirrors : plain.Mirrors probes observed) {position : Nat} (hidden : probes position = false) :
    plain.Mirrors probes (observed.noted position) where
  id := mirrors.id
  handles := mirrors.handles
  put key item := (mirrors.put key item).noted hidden .put (some key)
  get key := (mirrors.get key).noted hidden .get (some key)
  remove key := (mirrors.remove key).noted hidden .remove (some key)
  clear := mirrors.clear.noted hidden .clear none
  length := mirrors.length.noted hidden .length none

theorem Cache.Mirrors.call {plain observed : Cache K V σ X}
    (mirrors : plain.Mirrors probes observed) (call : Call K X) :
    (plain.call call).Mirrors probes (observed.call call) := by
  cases call with
  | put key item => exact (mirrors.put key item).bind fun _ => mirrors_pure _
  | get key => exact (mirrors.get key).bind fun _ => mirrors_pure _
  | remove key => exact (mirrors.remove key).bind fun _ => mirrors_pure _
  | clear => exact mirrors.clear.bind fun _ => mirrors_pure _
  | length => exact mirrors.length.bind fun _ => mirrors_pure _
  | isEmpty => exact (mirrors.length.bind fun _ => mirrors_pure _).bind fun _ => mirrors_pure _

/-! ### Layers -/

theorem mirrors_store [DecidableEq K] (handles : List X → Handles K V) :
    (Store.cache handles).Mirrors probes (Store.cache handles) where
  id := rfl
  handles := rfl
  put key item := mirrors_modifyLayer fun store : Store K X =>
    { store with table := store.table.insert key item }
  get _ := mirrors_layer.bind fun _ => mirrors_pure _
  remove key := mirrors_updateLayer fun store : Store K X =>
    (store.table.find? key, { store with table := store.table.erase key })
  clear := mirrors_modifyLayer fun store : Store K X => { store with table := Table.empty }
  length := mirrors_layer.bind fun _ => mirrors_pure _

namespace ProbeLayer

theorem below_mirrors {plain observed : Action K V σ α} (mirrors : plain.Mirrors probes observed) :
    (below plain).Mirrors probes (below observed) :=
  mirrors.within _ _

/-- Raising an error notes it and does nothing else. -/
theorem fail_mirrors (position : Nat) (cause : CacheError) :
    (fail position cause : Action K V (ProbeLayer σ) α).Mirrors probes (fail position cause) :=
  fun layer memory _ _ =>
    ⟨.error cause, layer, memory, [.raised position cause], rfl, rfl, position, [], rfl, calm_nil⟩

theorem intercept_mirrors {plain observed : Action K V σ α}
    (mirrors : plain.Mirrors probes observed) {position : Nat} (probe : probes position = true)
    (method : Method) (key : Option K) :
    (intercept position method key plain).Mirrors probes
      (intercept position method key observed) := by
  refine (mirrors_updateLayer _).bind fun fault => ?_
  have kept : Note.isKept probes (.call position method key fault.isSome) = true := probe
  refine (mirrors_note kept rfl).bind fun _ => ?_
  cases fault with
  | none => exact below_mirrors mirrors
  | some fault =>
    dsimp only
    split
    · exact (below_mirrors mirrors).bind fun _ => fail_mirrors position fault.error
    · exact fail_mirrors position fault.error

theorem cache_mirrors {plain observed : Cache K V σ X} (mirrors : plain.Mirrors probes observed)
    {position : Nat} (probe : probes position = true) :
    (ProbeLayer.cache position plain).Mirrors probes (ProbeLayer.cache position observed) where
  id := congrArg (fun name (layer : ProbeLayer σ) => name layer.delegate) mirrors.id
  handles := congrArg (fun handles (layer : ProbeLayer σ) => handles layer.delegate) mirrors.handles
  put key item := intercept_mirrors (mirrors.put key item) probe .put (some key)
  get key := intercept_mirrors (mirrors.get key) probe .get (some key)
  remove key := intercept_mirrors (mirrors.remove key) probe .remove (some key)
  clear := intercept_mirrors mirrors.clear probe .clear none
  length := intercept_mirrors mirrors.length probe .length none

end ProbeLayer

namespace LruLayer

theorem below_mirrors {plain observed : Action K V σ α} (mirrors : plain.Mirrors probes observed) :
    (below plain : Action K V (LruLayer K σ) α).Mirrors probes (below observed) :=
  mirrors.within _ _

theorem count_mirrors (step : LruCounters → LruCounters) :
    (count step : Action K V (LruLayer K σ) Unit).Mirrors probes (count step) :=
  mirrors_modifyLayer _

variable [DecidableEq K] {plain observed : Cache K V σ X} (mirrors : plain.Mirrors probes observed)

include mirrors

/-- A failed eviction restores its victim and passes the error on. -/
theorem evict_mirrors (victim : K) :
    (evict plain victim).Mirrors probes (evict observed victim) := by
  unfold evict
  rw [mirrors.id]
  refine (count_mirrors _).bind fun _ => mirrors_layer.bind fun _ =>
    (mirrors_report _).bind fun _ => Mirrors.tryCatch ?_ (restore victim) fun _ _ _ _ => rfl
  exact (below_mirrors (mirrors.remove victim)).bind fun _ => mirrors_pure _

theorem settle_mirrors (rounds : Nat) :
    (settle plain rounds).Mirrors probes (settle observed rounds) := by
  induction rounds with
  | zero => exact mirrors_pure ()
  | succ rounds inductionHypothesis =>
    refine (mirrors_updateLayer _).bind fun victim => ?_
    cases victim with
    | none => exact mirrors_pure ()
    | some victim => exact (evict_mirrors mirrors victim).bind fun _ => inductionHypothesis

theorem put_mirrors (key : K) (item : X) :
    (LruLayer.put plain key item).Mirrors probes (LruLayer.put observed key item) := by
  refine (below_mirrors (mirrors.put key item)).bind fun _ => (count_mirrors _).bind fun _ =>
    (mirrors_updateLayer _).bind fun victim => ?_
  have settled : (do settle plain (← Action.layer).overdue).Mirrors probes
      (do settle observed (← Action.layer).overdue) :=
    mirrors_layer.bind fun layer => settle_mirrors mirrors layer.overdue
  cases victim with
  | none => exact settled
  | some victim => exact (evict_mirrors mirrors victim).bind fun _ => settled

theorem cache_mirrors : (LruLayer.cache plain).Mirrors probes (LruLayer.cache observed) where
  id := congrArg (fun name (layer : LruLayer K σ) => name layer.delegate) mirrors.id
  handles := congrArg (fun handles (layer : LruLayer K σ) => handles layer.delegate) mirrors.handles
  put := put_mirrors mirrors
  get key := (mirrors_updateLayer _).bind fun _ => (count_mirrors _).bind fun _ =>
    below_mirrors (mirrors.get key)
  remove key := (below_mirrors (mirrors.remove key)).bind fun _ =>
    (mirrors_modifyLayer _).bind fun _ => (count_mirrors _).bind fun _ => mirrors_pure _
  clear := (below_mirrors mirrors.clear).bind fun _ => (mirrors_modifyLayer _).bind fun _ =>
    count_mirrors _
  length := below_mirrors mirrors.length

end LruLayer

namespace SoftLayer

theorem below_mirrors {plain observed : Action K V σ α} (mirrors : plain.Mirrors probes observed) :
    (below plain : Action K V (SoftLayer K V σ) α).Mirrors probes (below observed) :=
  mirrors.within _ _

theorem count_mirrors (step : SoftCounters → SoftCounters) :
    (count step : Action K V (SoftLayer K V σ) Unit).Mirrors probes (count step) :=
  mirrors_modifyLayer _

variable {plain observed : Cache K V σ (SoftReference K V)}
  (mirrors : plain.Mirrors probes observed)

include mirrors

theorem name_mirrors : (name plain).Mirrors probes (name observed) := by
  unfold name
  rw [mirrors.id]
  exact mirrors_layer.bind fun _ => mirrors_pure _

theorem withQueue_mirrors
    (change : ReferenceQueue K V → Memory K V → Handles K V →
      α × ReferenceQueue K V × Memory K V) :
    (withQueue plain change).Mirrors probes (withQueue observed change) := by
  have same : withQueue observed change = withQueue plain change := by
    unfold withQueue handles
    rw [mirrors.handles]
  rw [same]
  let answer (layer : SoftLayer K V σ) (memory : Memory K V) :=
    change layer.queue memory (memory.handles ++ handles plain layer)
  exact mirrors_silent (fun layer memory => (answer layer memory).1)
    (fun layer memory =>
      ({ layer with queue := (answer layer memory).2.1 }, (answer layer memory).2.2))
    fun _ _ _ => rfl

theorem removeReclaimed_mirrors (waiting : List K) (removed : Nat) :
    (removeReclaimed plain waiting removed).Mirrors probes
      (removeReclaimed observed waiting removed) := by
  induction waiting generalizing removed with
  | nil => exact mirrors_pure removed
  | cons key rest inductionHypothesis =>
    refine (mirrors_modifyLayer _).bind fun _ =>
      (below_mirrors (mirrors.get key)).bind fun found => ?_
    cases found with
    | none => exact inductionHypothesis removed
    | some reference =>
      refine mirrors_memory.bind fun memory => ?_
      split
      · exact inductionHypothesis removed
      · exact (below_mirrors (mirrors.remove key)).bind fun _ => inductionHypothesis (removed + 1)

theorem drain_mirrors : (drain plain).Mirrors probes (drain observed) := by
  refine mirrors_layer.bind fun layer =>
    (removeReclaimed_mirrors mirrors layer.queue.pending 0).bind fun removed => ?_
  split
  · exact (name_mirrors mirrors).bind fun name => (mirrors_report _).bind fun _ => count_mirrors _
  · exact mirrors_pure ()

theorem pin_mirrors (value : Shared V) : (pin plain value).Mirrors probes (pin observed value) := by
  refine mirrors_layer.bind fun layer => (mirrors_modifyLayer _).bind fun _ => ?_
  dsimp only
  split
  · exact (name_mirrors mirrors).bind fun _ => (mirrors_report _).bind fun _ => count_mirrors _
  · exact (mirrors_pure ()).bind fun _ => count_mirrors _

theorem get_mirrors (key : K) : (get plain key).Mirrors probes (get observed key) := by
  refine (below_mirrors (mirrors.get key)).bind fun found => ?_
  cases found with
  | none => exact (count_mirrors _).bind fun _ => mirrors_pure none
  | some reference =>
    refine mirrors_memory.bind fun memory => ?_
    split
    · exact (pin_mirrors mirrors _).bind fun _ => (count_mirrors _).bind fun _ => mirrors_pure _
    · exact (name_mirrors mirrors).bind fun _ => (mirrors_report _).bind fun _ =>
        (below_mirrors (mirrors.remove key)).bind fun _ => (count_mirrors _).bind fun _ =>
          mirrors_pure none

theorem remove_mirrors (key : K) : (remove plain key).Mirrors probes (remove observed key) := by
  refine (drain_mirrors mirrors).bind fun _ =>
    (below_mirrors (mirrors.remove key)).bind fun found => ?_
  cases found with
  | none => exact mirrors_pure none
  | some reference => exact mirrors_memory.bind fun _ => mirrors_pure _

theorem cache_mirrors : (SoftLayer.cache plain).Mirrors probes (SoftLayer.cache observed) where
  id := congrArg (fun name (layer : SoftLayer K V σ) => name layer.delegate) mirrors.id
  handles := by
    funext layer
    show observed.handles layer.delegate ++ _ = plain.handles layer.delegate ++ _
    rw [mirrors.handles]
  put key value := (drain_mirrors mirrors).bind fun _ => (withQueue_mirrors mirrors _).bind
    fun reference => below_mirrors (mirrors.put key reference)
  get := get_mirrors mirrors
  remove := remove_mirrors mirrors
  clear := (mirrors_modifyLayer _).bind fun _ => (drain_mirrors mirrors).bind fun _ =>
    below_mirrors mirrors.clear
  length := (drain_mirrors mirrors).bind fun _ => below_mirrors mirrors.length

end SoftLayer

/-! ### Stacks -/

namespace Shape

/-- The layer at the position is a probe. -/
def isProbe (position : Nat) : {content : Content} → Shape content → Bool
  | _, .store => false
  | _, .probe delegate =>
    if position = delegate.position + 1 then true else delegate.isProbe position
  | _, .lru delegate | _, .soft delegate =>
    if position = delegate.position + 1 then false else delegate.isProbe position

/-- What the outermost layer is says nothing about those below it. -/
theorem isProbe_below {position top : Nat} (below : position ≤ top) {outermost others : Bool} :
    (if position = top + 1 then outermost else others) = others :=
  if_neg (Nat.ne_of_lt (Nat.lt_succ_of_le below))

variable [DecidableEq K]

/-- The stack in which every layer notes the calls that it receives, as probes do anyway. -/
def observed : {content : Content} → (shape : Shape content) →
    Cache K V (shape.State K V) (content.Item K V)
  | content, .store => (Store.cache content.handles).noted 0
  | _, .lru delegate => (LruLayer.cache delegate.observed).noted (delegate.position + 1)
  | _, .probe delegate => ProbeLayer.cache (delegate.position + 1) delegate.observed
  | _, .soft delegate => (SoftLayer.cache delegate.observed).noted (delegate.position + 1)

theorem observed_mirrors {content : Content} (shape : Shape content)
    (known : ∀ position ≤ shape.position, probes position = shape.isProbe position) :
    (shape.cache : Cache K V _ (content.Item K V)).Mirrors probes shape.observed := by
  induction shape with
  | store => exact (mirrors_store _).noted (known 0 (Nat.le_refl 0))
  | lru delegate inductionHypothesis =>
    refine (LruLayer.cache_mirrors (inductionHypothesis fun position below => ?_)).noted ?_
    · exact (known position (Nat.le_succ_of_le below)).trans (isProbe_below below)
    · exact (known _ (Nat.le_refl _)).trans (if_pos rfl)
  | probe delegate inductionHypothesis =>
    refine ProbeLayer.cache_mirrors (inductionHypothesis fun position below => ?_) ?_
    · exact (known position (Nat.le_succ_of_le below)).trans (isProbe_below below)
    · exact (known _ (Nat.le_refl _)).trans (if_pos rfl)
  | soft delegate inductionHypothesis =>
    refine (SoftLayer.cache_mirrors (inductionHypothesis fun position below => ?_)).noted ?_
    · exact (known position (Nat.le_succ_of_le below)).trans (isProbe_below below)
    · exact (known _ (Nat.le_refl _)).trans (if_pos rfl)

/-- Whatever has been done with a stack, a call of it does what it does when every layer notes the
calls that it receives. What is noted then, latest first, shows an error raised by a layer if and
only if the call returns an error. This is the error that was raised first, and nothing was noted
after it: no layer was called any more. -/
theorem errors_pass {content : Content} (shape : Shape content)
    (machine : Machine K V (shape.State K V)) (call : Call K (content.Item K V)) :
    let ended := (shape.cache.call call).run machine
    ∃ notes : List (Note K),
      (shape.observed.call call).run machine =
        (ended.1, ⟨ended.2.layer, ended.2.memory, notes ++ machine.trace⟩) ∧
      ended.2.trace = notes.filter (Note.isKept (isProbe · shape)) ++ machine.trace ∧
      ((∃ cause, ended.1 = .error cause) ↔ ∃ position cause, .raised position cause ∈ notes) ∧
      ∀ cause, ended.1 = .error cause → ∃ position early,
        notes = .raised position cause :: early ∧
          ∀ position cause, .raised position cause ∉ early := by
  have mirrors : (shape.cache.call call).Mirrors (isProbe · shape) (shape.observed.call call) :=
    (shape.observed_mirrors fun _ _ => rfl).call call
  obtain ⟨result, later, after, notes, ran, too, tells⟩ :=
    mirrors machine.layer machine.memory machine.trace machine.trace
  rw [ran]
  refine ⟨notes, too, rfl, tells.failed_iff, ?_⟩
  rintro cause rfl
  obtain ⟨position, early, same, calm⟩ := tells
  exact ⟨position, early, same, calm.not_mem⟩

/-- The eviction that follows a put fails. -/
example :
    let evicting : Shape .value := .lru (.probe .store)
    let start : Machine Nat String (evicting.State Nat String) :=
      { layer := { capacity := 1, delegate := { delegate := { id := "pages" } } } }
    let ready := (evicting.run [.call (.put 1 ⟨0, "one"⟩),
      .addFault 1 { method := .remove, error := .backend "probe" "injected" }] start).2
    let put : Call Nat (Shared String) := .put 2 ⟨1, "two"⟩
    let ended := (evicting.observed.call put).run { ready with trace := [] }
    ended.1 = .error (.backend "probe" "injected") ∧
      ended.2.trace = [.raised 1 (.backend "probe" "injected"), .call 1 .remove (some 1) true,
        .event (.evicting "pages"), .call 0 .put (some 2) false, .call 1 .put (some 2) false,
        .call 2 .put (some 2) false] := by
  decide +kernel

end Shape

end LayeredCache
