/-
This file says where the values come from that callers hand over: they are new, or a caller holds
them under a name. It also holds the ranges of integers that batches of requests run through.
-/

import LayeredCache.Memory

namespace LayeredCache.Session

/-- Where a value comes from. -/
inductive Supply (V : Type) where
  | fresh (value : V)
  | held (name : String)
  deriving DecidableEq, Inhabited

/-- The pointer to the supplied value, if there is such a value. A new value gets a pointer of its
own. -/
def Supply.take {K V : Type} (supply : Supply V) (memory : Memory K V) :
    Option (Shared V) × Memory K V :=
  match supply with
  | .fresh value =>
    let (pointer, memory) := memory.share value
    (some pointer, memory)
  | .held name => (memory.values.find? name, memory)

/-- The integers from the first to just before the last one. -/
def integers (first last : Int) : List Int :=
  (List.range (last - first).toNat).map fun (offset : Nat) => first + offset

end LayeredCache.Session
