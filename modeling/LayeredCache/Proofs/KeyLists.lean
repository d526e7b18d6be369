/-
This file proves that a recency order, whatever is done to it, is a list of keys without repetition.

Every operation has a meaning on plain lists that takes one line. An order and a list that start
empty are put through the same operations: they give the same answers, and at every moment links,
index, slots and free list of the order all tell of the keys on the list and of nothing else.

Room that is set aside in advance for keys to come holds no key, so an order that is made with such
room is the empty order too.
-/

import LayeredCache.Proofs.Order

namespace LayeredCache.RecencyOrder

variable {K : Type}

/-! ### Operations and what they mean for a list -/

/-- What can be done to an order. -/
inductive Operation (K : Type) where
  | use (key : K)
  | touch (key : K)
  | pushBack (key : K)
  | popBack
  | erase (key : K)
  | clear
  deriving DecidableEq, Inhabited

/-- What an operation answers: a flag, a key if there is one, or nothing. -/
inductive Answer (K : Type) where
  | flag (flag : Bool)
  | key (key? : Option K)
  | nothing
  deriving DecidableEq, Inhabited

variable [DecidableEq K]

/-- The operation on an order. -/
def Operation.perform (operation : Operation K) (list : RecencyOrder K) :
    Answer K × RecencyOrder K :=
  match operation with
  | .use key => (.flag (list.use key).1, (list.use key).2)
  | .touch key => (.flag (list.touch key).1, (list.touch key).2)
  | .pushBack key => (.flag (list.pushBack key).1, (list.pushBack key).2)
  | .popBack => (.key list.popBack.1, list.popBack.2)
  | .erase key => (.flag (list.erase key).1, (list.erase key).2)
  | .clear => (.nothing, list.clear)

/-- The operation on a list of keys, the most recently used one first. -/
def Operation.onKeys (operation : Operation K) (keys : List K) : Answer K × List K :=
  match operation with
  | .use key => (.flag (key ∉ keys), key :: keys.erase key)
  | .touch key => (.flag (key ∈ keys), if key ∈ keys then key :: keys.erase key else keys)
  | .pushBack key => (.flag (key ∉ keys), if key ∈ keys then keys else keys ++ [key])
  | .popBack => (.key keys.getLast?, keys.dropLast)
  | .erase key => (.flag (key ∈ keys), keys.erase key)
  | .clear => (.nothing, [])

/-- The answers to operations that are performed one after the other, and what they leave. -/
def performAll {State : Type} (perform : Operation K → State → Answer K × State) :
    List (Operation K) → State → List (Answer K) × State
  | [], state => ([], state)
  | operation :: later, state =>
    let rest := performAll perform later (perform operation state).2
    ((perform operation state).1 :: rest.1, rest.2)

/-! ### One operation, and all of them -/

/-- Every operation answers what it answers for the list, and leaves the list it leaves there. -/
theorem Represents.perform {list : RecencyOrder K} {keys : List K} (represents : Represents list keys)
    (operation : Operation K) :
    (operation.perform list).1 = (operation.onKeys keys).1 ∧
      Represents (operation.perform list).2 (operation.onKeys keys).2 := by
  cases operation with
  | use key => exact (represents.use key).imp_left (congrArg Answer.flag)
  | touch key => exact (represents.touch key).imp_left (congrArg Answer.flag)
  | pushBack key => exact (represents.pushBack key).imp_left (congrArg Answer.flag)
  | popBack => exact represents.popBack.imp_left (congrArg Answer.key)
  | erase key => exact (represents.erase key).imp_left (congrArg Answer.flag)
  | clear => exact ⟨rfl, Represents.empty⟩

theorem Represents.performAll {list : RecencyOrder K} {keys : List K}
    (represents : Represents list keys) (operations : List (Operation K)) :
    (performAll Operation.perform operations list).1 =
        (performAll Operation.onKeys operations keys).1 ∧
      Represents (performAll Operation.perform operations list).2
        (performAll Operation.onKeys operations keys).2 := by
  induction operations generalizing list keys with
  | nil => exact ⟨rfl, represents⟩
  | cons operation later inductionHypothesis =>
    obtain ⟨answer, next⟩ := represents.perform operation
    obtain ⟨answers, last⟩ := inductionHypothesis next
    exact ⟨congrArg₂ List.cons answer answers, last⟩

/-! ### What the parts of an order tell -/

/-- Links, index, slots and free list of the order tell of the keys on the list, and of nothing
else. -/
structure Consistent (list : RecencyOrder K) (keys : List K) : Prop where
  nodup : keys.Nodup
  /-- The links end after the last key, in both directions. -/
  forward : ∀ steps, keys.length ≤ steps → list.keysFrom steps list.front = keys
  backward : ∀ steps, keys.length ≤ steps → list.keysBefore steps list.back = keys.reverse
  toList : list.toList = keys
  length : list.length = keys.length
  indexed : ∀ key, key ∈ keys ↔ ∃ slot, list.index.find? key = some slot
  /-- Index and slots agree on which key is where, so that no two keys share a slot. -/
  placed : ∀ key slot,
    list.index.find? key = some slot ↔ (list.node? slot).map (·.key) = some key
  apart : ∀ key other slot,
    list.index.find? key = some slot → list.index.find? other = some slot → key = other
  /-- The free list has every vacant slot once, and nothing else. -/
  free : list.free.Nodup
  vacant : ∀ slot, slot ∈ list.free ↔ slot < list.slots.size ∧ list.node? slot = none
  /-- The slot that a new node goes to exists: the node is there afterwards. -/
  written : ∀ node, (list.allocate node).2.node? (list.allocate node).1 = some node

theorem Represents.consistent {list : RecencyOrder K} {keys : List K}
    (represents : Represents list keys) : Consistent list keys := by
  obtain ⟨path, holds, rfl⟩ := id represents
  have placed : ∀ key slot,
      list.index.find? key = some slot ↔ (list.node? slot).map (·.key) = some key := by
    intro key slot
    rw [holds.indexed.find]
    refine ⟨holds.linked.key_of_mem, fun held => ?_⟩
    have occupied : (list.node? slot).isSome := by
      rw [← Option.isSome_map (f := (·.key)), held]
      rfl
    obtain ⟨⟨_, other⟩, listed, rfl⟩ := List.mem_map.mp ((holds.housed.occupied slot).mp occupied)
    have same : some other = some key := (holds.linked.key_of_mem listed).symm.trans held
    exact Option.some.inj same ▸ listed
  refine ⟨represents.nodup, fun steps enough => ?_, fun steps enough => ?_, represents.toList,
    represents.length, fun key => ?_, placed, fun key other slot first second => ?_,
    holds.housed.free, fun slot => ?_, fun node => (holds.housed.allocate node).2.1.node⟩
  · rw [holds.linked.front]
    exact holds.linked.keysFrom (List.nil_append path).symm (by simpa using enough)
  · rw [holds.linked.back]
    exact holds.linked.keysBefore (List.append_nil path).symm (by simpa using enough)
  · rw [← Option.ne_none_iff_exists', Ne, holds.indexed.find_none, not_not]
  · exact Option.some.inj (((placed key slot).mp first).symm.trans ((placed other slot).mp second))
  · rw [holds.housed.vacant, ← holds.housed.occupied, Bool.not_eq_true, Option.isSome_eq_false_iff,
      Option.isNone_iff_eq_none]

/-- Whatever is done to an empty order, it answers what a list of keys answers, and its links, index,
slots and free list are those of the list that is left. -/
theorem performAll_consistent (operations : List (Operation K)) :
    (performAll Operation.perform operations empty).1 =
        (performAll Operation.onKeys operations []).1 ∧
      Consistent (performAll Operation.perform operations empty).2
        (performAll Operation.onKeys operations []).2 :=
  (Represents.empty.performAll operations).imp_right Represents.consistent

/-- The third key moves into the slot that the first one gave up. -/
example : (performAll Operation.perform
    [.use 1, .use 2, .erase 1, .pushBack 3, .touch 3, .popBack] empty).1 =
    [.flag true, .flag true, .flag true, .flag true, .flag true, .key (some 2)] := by decide

end LayeredCache.RecencyOrder
