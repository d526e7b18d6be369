/-
This file proves that a stack from which nothing is reclaimed collapses: it answers every sequence
of calls as one plain recency cache does, whose bound is the least capacity of its recency layers.

What the layers do is known from `Follows`; here the bounds are gathered along the construction of
the stack, and a call is repeated along a run.
-/

import LayeredCache.Proofs.Building
import LayeredCache.Proofs.Follows
import LayeredCache.Proofs.Settings

namespace LayeredCache

variable {K V : Type} [DecidableEq K]

/-! ### Bounds -/

/-- The capacity of a recency layer. -/
def Policy.capacity? : Policy → Option Nat
  | .lru capacity => some capacity
  | .soft _ => none

/-- The least capacity of the recency layers, if there are any. -/
def Blueprint.bound (layers : List Policy) : Option Nat :=
  (layers.filterMap Policy.capacity?).min?

theorem Blueprint.bound_lru (layers : List Policy) (capacity : Nat) :
    bound (layers ++ [.lru capacity]) = Recent.tighten (bound layers) capacity := by
  unfold bound
  rw [List.filterMap_append]
  show (layers.filterMap Policy.capacity? ++ [capacity]).min? = _
  cases layers.filterMap Policy.capacity? with
  | nil => rfl
  | cons first rest =>
    rw [List.cons_append, List.min?_cons', List.min?_cons', List.foldl_concat]
    rfl

theorem Blueprint.bound_soft (layers : List Policy) (window : Nat) :
    bound (layers ++ [.soft window]) = bound layers := by
  unfold bound
  rw [List.filterMap_append]
  exact congrArg List.min? (List.append_nil _)

/-! ### Stacks -/

/-- From its first state on the stack follows the plain cache with the bound, and it stores what the
plain cache does. -/
def Stack.Collapses {content : Content} (stack : Stack K V content) (bound : Option Nat) : Prop :=
  ∃ shows, stack.shape.cache.Follows bound shows ∧ shows stack.state Table.empty ∧
    ∀ state table, shows state table → ∀ key, (stack.shape.table state).find? key = table.find? key

/-- One more layer tightens the bound by its capacity. -/
theorem collapses_handed :
    Blueprint.Handed fun {_} layers (stack : Stack K V _) =>
      stack.Collapses (Blueprint.bound layers) where
  store id hasLock :=
    ⟨Store.Shows, follows_store _, ⟨Table.distinct_empty, Table.distinct_empty, fun _ => rfl⟩,
      fun _ _ shown => shown.same⟩
  lru layers stack capacity _ := by
    rintro ⟨shows, follows, start, stored⟩
    rw [Blueprint.bound_lru]
    refine ⟨LruLayer.Shows shows _ capacity, LruLayer.follows follows, ?_, fun _ _ shown => ?_⟩
    · exact ⟨start, [], ⟨rfl, rfl, RecencyOrder.Represents.empty⟩, Recent.Tracking.empty⟩
    · exact stored _ _ shown.1
  soft layers stack window _ := by
    rintro ⟨shows, follows, start, stored⟩
    rw [Blueprint.bound_soft]
    refine ⟨SoftLayer.Shows shows, SoftLayer.follows follows, ⟨rfl, Table.empty, start, rfl⟩, ?_⟩
    rintro layer _ ⟨-, references, shown, rfl⟩ key
    rw [Shape.table, Table.find?_mapItems, Table.find?_mapItems, stored _ _ shown]

/-! ### Runs -/

/-- Calls made one after the other are answered as the plain cache answers them. -/
theorem run_follows {shape : Shape .value} {bound : Option Nat}
    {shows : shape.State K V → Table K (Shared V) → Prop}
    (follows : shape.cache.Follows bound shows)
    (calls : List (Call K (Shared V))) {table : Table K (Shared V)}
    {machine : Machine K V (shape.State K V)}
    (shown : Shown shows table machine.layer machine.memory) :
    (shape.run (calls.map .call) machine).1.map (·.result) =
        (Recent.replies bound table calls).1.map (fun answer => .ok (.reply answer)) ∧
      Shown shows (Recent.replies bound table calls).2
        (shape.run (calls.map .call) machine).2.layer
        (shape.run (calls.map .call) machine).2.memory := by
  induction calls generalizing table machine with
  | nil => exact ⟨rfl, shown⟩
  | cons call rest inductionHypothesis =>
    have one : (shape.perform (.call call)).Ends machine
        (fun outcome later => outcome = .reply (Recent.reply bound table call).1 ∧
          Shown shows (Recent.reply bound table call).2 later.layer later.memory)
        fun _ _ => False := by
      simp only [Shape.perform, Action.ends_map]
      refine (follows.call shown call).ends (fun _ _ next => ?_) fun _ _ no => no
      exact ⟨congrArg Outcome.reply next.1, next.2⟩
    obtain ⟨outcome, later, same, rfl, next⟩ := one.run_eq
    obtain ⟨answers, last⟩ := inductionHypothesis next
    rw [List.map_cons, Shape.run_cons, same]
    exact ⟨congrArg (_ :: ·) answers, last⟩

/-- The plain cache takes no notice of the removal of a key that it does not have. -/
theorem replies_remove_missing {X : Type} {bound : Option Nat} {table : Table K X} {key : K}
    (missing : key ∉ table.keys) (later : List (Call K X)) :
    Recent.replies bound table (.remove key :: later) =
      (.item none :: (Recent.replies bound table later).1,
        (Recent.replies bound table later).2) := by
  simp only [Recent.replies, Recent.reply, Table.find?_eq_none.mpr missing,
    Table.erase_of_missing missing]

/-- Every accepted blueprint is built, and the stack answers every sequence of calls as one plain
cache does, whose bound is the least capacity of the recency layers. The stack stores what the plain
cache does, so no stale key of an outer layer costs another key its place; and removing a key that
is stored no longer, which is what outer layers do with stale keys, changes no later answer. -/
theorem Blueprint.build_collapses (blueprint : Blueprint) (accepted : blueprint.Accepted) :
    ∃ stack : Stack K V .value, blueprint.build = .ok stack ∧
      ∀ calls : List (Call K (Shared V)),
        let plain := Recent.replies (bound blueprint.layers) Table.empty calls
        let final := stack.shape.run (calls.map .call) stack.machine
        final.1.map (·.result) = plain.1.map (fun answer => .ok (.reply answer)) ∧
          (∀ key, (stack.shape.table final.2.layer).find? key = plain.2.find? key) ∧
          ∀ key, key ∉ plain.2.keys → ∀ later : List (Call K (Shared V)),
            (stack.shape.run ((.remove key :: later).map .call) final.2).1.map (·.result) =
              .ok (.reply (.item none)) ::
                (stack.shape.run (later.map .call) final.2).1.map (·.result) := by
  obtain ⟨stack, built, shows, follows, start, stored⟩ :=
    build_of_accepted (collapses_handed (K := K) (V := V)) accepted
  have begins : Shown shows Table.empty stack.machine.layer stack.machine.memory := ⟨rfl, start⟩
  refine ⟨stack, built, fun calls => ?_⟩
  obtain ⟨answers, last⟩ := run_follows follows calls begins
  refine ⟨answers, stored _ _ last.2, fun key missing later => ?_⟩
  obtain ⟨withRemoval, -⟩ := run_follows follows (.remove key :: later) last
  obtain ⟨without, -⟩ := run_follows follows later last
  rw [withRemoval, without, replies_remove_missing missing]
  rfl

/-- Two recency layers around a soft one and a third one inside: the least capacity decides. -/
theorem build_collapses_pages :
    Blueprint.Accepted ⟨"pages", [.lru 4, .soft 1, .lru 2, .lru 3], false⟩ ∧
      ∃ stack : Stack Nat String .value,
        Blueprint.build ⟨"pages", [.lru 4, .soft 1, .lru 2, .lru 3], false⟩ = .ok stack ∧
          (stack.shape.run ([.put 1 ⟨0, "one"⟩, .put 2 ⟨1, "two"⟩, .get 1, .put 3 ⟨2, "three"⟩,
              .get 2, .get 1, .length].map .call) stack.machine).1.map (·.result) =
            [.ok (.reply .done), .ok (.reply .done), .ok (.reply (.item (some ⟨0, "one"⟩))),
              .ok (.reply .done), .ok (.reply (.item none)),
              .ok (.reply (.item (some ⟨0, "one"⟩))), .ok (.reply (.count 2))] := by
  have accepted : Blueprint.Accepted ⟨"pages", [.lru 4, .soft 1, .lru 2, .lru 3], false⟩ :=
    ⟨by decide, by decide, by decide⟩
  obtain ⟨stack, built, answers⟩ :=
    Blueprint.build_collapses (K := Nat) (V := String) _ accepted
  exact ⟨accepted, stack, built, (answers _).1.trans rfl⟩

end LayeredCache
