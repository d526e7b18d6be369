/-
This file holds finite tables: at most one item under a key.

A table is looked at through `find?` alone. The lemmas say what a look-up finds after each change.
-/

namespace LayeredCache

/-- A finite table, latest insertion first. -/
structure Table (K X : Type) where
  entries : List (K × X) := []
  deriving DecidableEq, Inhabited

namespace Table

variable {K X : Type} [DecidableEq K]

/-- The table with nothing under any key. -/
def empty : Table K X := ⟨[]⟩

/-- The item under the key. -/
def find? (table : Table K X) (key : K) : Option X :=
  (table.entries.find? fun entry => entry.1 = key).map Prod.snd

/-- Some item is under the key. -/
def contains (table : Table K X) (key : K) : Bool := (table.find? key).isSome

/-- The table with nothing under the key. -/
def erase (table : Table K X) (key : K) : Table K X :=
  ⟨table.entries.filter fun entry => entry.1 ≠ key⟩

/-- The table with the item, and no other, under the key. -/
def insert (table : Table K X) (key : K) (item : X) : Table K X :=
  ⟨(key, item) :: (table.erase key).entries⟩

/-- The number of keys with an item. -/
def size (table : Table K X) : Nat := table.entries.length

/-- The keys with an item. -/
def keys (table : Table K X) : List K := table.entries.map Prod.fst

/-- The items under all keys. -/
def items (table : Table K X) : List X := table.entries.map Prod.snd

/-! ### What a look-up finds -/

@[simp] theorem find?_empty (key : K) : (empty : Table K X).find? key = none := rfl

@[simp] theorem find?_erase_self (table : Table K X) (key : K) :
    (table.erase key).find? key = none := by
  simp [find?, erase, List.find?_eq_none]

theorem find?_erase_other (table : Table K X) {key other : K} (different : other ≠ key) :
    (table.erase key).find? other = table.find? other := by
  simp only [find?, erase]
  induction table.entries with
  | nil => rfl
  | cons entry rest inductionHypothesis =>
    by_cases same : entry.1 = key
    · simp [List.find?_cons, same] at inductionHypothesis ⊢
      simpa [different.symm] using inductionHypothesis
    · by_cases found : entry.1 = other
      · simp [found, different]
      · simpa [List.filter_cons, List.find?_cons, same, found] using inductionHypothesis

@[simp] theorem find?_insert_self (table : Table K X) (key : K) (item : X) :
    (table.insert key item).find? key = some item := by
  simp [find?, insert]

theorem find?_insert_other (table : Table K X) {key other : K} (item : X)
    (different : other ≠ key) :
    (table.insert key item).find? other = table.find? other := by
  rw [← find?_erase_other table different]
  simp [find?, insert, different.symm]

end Table

end LayeredCache
