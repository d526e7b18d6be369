/-
This file proves that composite keys are the same exactly if they have the same parts, whichever
calls have made them.

Before two keys have their parts compared, three numbers are: the running hash code, the checksum
and the count. Each of them depends on the list of parts alone, because every way of making a key
appends its parts one by one (`keyBy_eq`). Keys with the same parts therefore agree in all three,
and no key is refused by the cheap comparison that has the right parts.

The parts are compared too, so it does not matter which parts share a fingerprint. To say this, the
lemmas let the fingerprint be any function, also a constant one.
-/

import LayeredCache.Key.Composite

namespace LayeredCache.Key

/-! ### Keys for any fingerprint -/

namespace Composite

/-- The key with one more part at its end, if parts had these fingerprints. -/
def appendBy (fingerprint : Part → UInt64) (key : Composite) (part : Part) : Composite where
  hashcode := key.hashcode * multiplier + fingerprint part * UInt64.ofNat (key.count + 1)
  checksum := key.checksum + fingerprint part
  count := key.count + 1
  parts := key.parts ++ [part]

/-- The key with more parts at its end, in their order, if parts had these fingerprints. -/
def appendAllBy (fingerprint : Part → UInt64) (key : Composite) (parts : List Part) : Composite :=
  parts.foldl (appendBy fingerprint) key

theorem appendBy_fingerprint : appendBy Part.fingerprint = append := rfl

theorem appendAllBy_fingerprint : appendAllBy Part.fingerprint = appendAll := rfl

variable {fingerprint : Part → UInt64}

theorem appendAllBy_append (key : Composite) (first second : List Part) :
    (key.appendAllBy fingerprint first).appendAllBy fingerprint second =
      key.appendAllBy fingerprint (first ++ second) :=
  List.foldl_append.symm

/-- Appended parts stand behind those that the key had. -/
theorem parts_appendAllBy (key : Composite) (parts : List Part) :
    (key.appendAllBy fingerprint parts).parts = key.parts ++ parts := by
  induction parts generalizing key with
  | nil => exact (List.append_nil key.parts).symm
  | cons part rest inductionHypothesis =>
    show ((key.appendBy fingerprint part).appendAllBy fingerprint rest).parts = _
    rw [inductionHypothesis]
    exact List.append_assoc key.parts [part] rest

end Composite

/-! ### Ways of making a key -/

/-- How a key is made. Values are turned into parts when they are appended. -/
inductive Making : Type 1 where
  /-- A key without parts. -/
  | empty
  | ofParts (parts : List Part)
  /-- A key of values of one type. -/
  | collect {α : Type} [ToPart α] (values : List α)
  /-- A value is appended to a key. -/
  | append {α : Type} [ToPart α] (making : Making) (value : α)
  /-- Values of one type are appended to a key, in their order. -/
  | appendAll {α : Type} [ToPart α] (making : Making) (values : List α)

namespace Making

/-- All parts that go into the key, in the order of the calls. -/
def parts : Making → List Part
  | .empty => []
  | .ofParts parts => parts
  | @collect _ _ values => values.map toPart
  | @append _ _ making value => making.parts ++ [toPart value]
  | @appendAll _ _ making values => making.parts ++ values.map toPart

/-- The key that is made. -/
def key : Making → Composite
  | .empty => .empty
  | .ofParts parts => .ofParts parts
  | @collect _ _ values => .ofParts (values.map toPart)
  | @append _ _ making value => making.key.append (toPart value)
  | @appendAll _ _ making values => making.key.appendAll (values.map toPart)

/-- The key that would be made if parts had these fingerprints. -/
def keyBy (fingerprint : Part → UInt64) : Making → Composite
  | .empty => .empty
  | .ofParts parts => Composite.empty.appendAllBy fingerprint parts
  | @collect _ _ values => Composite.empty.appendAllBy fingerprint (values.map toPart)
  | @append _ _ making value => (making.keyBy fingerprint).appendBy fingerprint (toPart value)
  | @appendAll _ _ making values =>
    (making.keyBy fingerprint).appendAllBy fingerprint (values.map toPart)

/-- The key that is made is the one for the fingerprints that parts have. -/
theorem keyBy_fingerprint (making : Making) : making.keyBy Part.fingerprint = making.key := by
  induction making with
  | empty => rfl
  | ofParts parts => rfl
  | collect values => rfl
  | append making value inductionHypothesis =>
    rw [keyBy, key, inductionHypothesis, Composite.appendBy_fingerprint]
  | appendAll making values inductionHypothesis =>
    rw [keyBy, key, inductionHypothesis, Composite.appendAllBy_fingerprint]

variable {fingerprint : Part → UInt64}

/-- Whichever calls make a key, its parts are appended one by one to the key without parts. -/
theorem keyBy_eq (making : Making) :
    making.keyBy fingerprint = Composite.empty.appendAllBy fingerprint making.parts := by
  induction making with
  | empty => rfl
  | ofParts parts => rfl
  | collect values => rfl
  | append making value inductionHypothesis =>
    rw [keyBy, parts, inductionHypothesis, ← Composite.appendAllBy_append]
    rfl
  | appendAll making values inductionHypothesis =>
    rw [keyBy, parts, inductionHypothesis, Composite.appendAllBy_append]

theorem parts_keyBy (making : Making) : (making.keyBy fingerprint).parts = making.parts := by
  rw [keyBy_eq, Composite.parts_appendAllBy]
  exact List.nil_append making.parts

/-- Whatever fingerprints parts have, and whichever calls have made two keys: the keys have the
parts that they were given; they are the same exactly if their parts are, and then they have one
hash code and give a hash table the same words; and keys that were given the same parts agree in
everything, however the parts were spread over the calls. The keys that are made are those for one
choice of the fingerprints. -/
theorem same_iff_parts (fingerprint : Part → UInt64) (first second : Making) :
    let a := first.keyBy fingerprint
    let b := second.keyBy fingerprint
    first.keyBy Part.fingerprint = first.key ∧
      a.parts = first.parts ∧
      ((a == b) = true ↔ a.parts = b.parts) ∧
      ((a == b) = true → a.hashcode = b.hashcode ∧ a.words = b.words) ∧
      (first.parts = second.parts → a = b) := by
  intro a b
  have split : first.parts = second.parts → a = b := fun same => by
    show first.keyBy fingerprint = second.keyBy fingerprint
    rw [keyBy_eq, keyBy_eq, same]
  refine ⟨keyBy_fingerprint first, parts_keyBy first, ⟨fun same => ?_, fun same => ?_⟩,
    fun same => ?_, split⟩
  · rw [eq_of_beq same]
  · rw [parts_keyBy, parts_keyBy] at same
    rw [split same]
    exact beq_self_eq_true b
  · rw [eq_of_beq same]
    exact ⟨rfl, rfl⟩

/-- A text and an absent number, in two calls and in one. -/
example : (append (append empty "user") (none : Option Int64)).parts =
    (collect [Part.text "user", Part.null]).parts := rfl

end Making

end LayeredCache.Key
