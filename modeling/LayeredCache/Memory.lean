/-
This file holds the memory that layers and callers share: values behind pointers, soft references
to them, and what callers keep.

A pointer is a value with an address; two pointers are the same pointer if their addresses agree.
A soft reference keeps its value until the value is reclaimed, and whether that has happened is
known to the memory alone, so all copies of a reference agree about it. What keeps a value or a
reference alive is never counted: it is read off the handles that exist at the moment.
-/

import LayeredCache.Table
import LayeredCache.Text.Record

namespace LayeredCache

/-- A value behind a pointer. -/
structure Shared (V : Type) where
  address : Nat
  value : V
  deriving DecidableEq, Inhabited

/-- A reference to a value that a memory manager may reclaim. Copies carry the same number. -/
structure SoftReference (K V : Type) where
  number : Nat
  /-- The key that is reported when the value is reclaimed. -/
  key : K
  /-- The value the reference was made for. -/
  referent : Shared V
  deriving DecidableEq, Inhabited

/-- What keeps values alive: references, each of which keeps its value until that is reclaimed,
and plain pointers. -/
structure Handles (K V : Type) where
  references : List (SoftReference K V) := []
  values : List (Shared V) := []
  deriving DecidableEq, Inhabited

namespace Handles

variable {K V : Type}

/-- The handles of both. -/
def append (a b : Handles K V) : Handles K V :=
  ⟨a.references ++ b.references, a.values ++ b.values⟩

instance : Append (Handles K V) := ⟨append⟩

/-- Some copy of the reference exists. -/
def holds (handles : Handles K V) (reference : SoftReference K V) : Bool :=
  handles.references.any fun other => other.number == reference.number

end Handles

/-- The memory: the fresh names, the reclaimed references, and what callers hold by name. -/
structure Memory (K V : Type) where
  nextAddress : Nat := 0
  nextNumber : Nat := 0
  /-- The numbers of the references whose value was reclaimed. -/
  reclaimed : List Nat := []
  /-- The pointers that callers hold. -/
  values : Table String (Shared V) := {}
  /-- The references that callers hold. -/
  references : Table String (SoftReference K V) := {}
  deriving DecidableEq, Inhabited

namespace Memory

variable {K V : Type}

/-- Puts a value behind a pointer that nothing else has. -/
def share (memory : Memory K V) (value : V) : Shared V × Memory K V :=
  (⟨memory.nextAddress, value⟩, { memory with nextAddress := memory.nextAddress + 1 })

/-- Makes a new reference to the value. -/
def refer (memory : Memory K V) (key : K) (referent : Shared V) :
    SoftReference K V × Memory K V :=
  (⟨memory.nextNumber, key, referent⟩, { memory with nextNumber := memory.nextNumber + 1 })

/-- The value of the reference was not reclaimed. -/
def isLive (memory : Memory K V) (reference : SoftReference K V) : Bool :=
  !memory.reclaimed.contains reference.number

/-- The value of the reference, unless it was reclaimed. -/
def resolve (memory : Memory K V) (reference : SoftReference K V) : Option (Shared V) :=
  if memory.isLive reference then some reference.referent else none

/-- Takes the value away from the reference and all its copies. -/
def reclaim (memory : Memory K V) (reference : SoftReference K V) : Memory K V :=
  { memory with reclaimed := reference.number :: memory.reclaimed }

/-- What callers hold. -/
def handles (memory : Memory K V) : Handles K V :=
  ⟨memory.references.items, memory.values.items⟩

/-- The reference is the only thing that keeps its value alive: no pointer to the value exists,
and no other live reference has it. -/
def isSoftlyReachable (memory : Memory K V) (handles : Handles K V)
    (reference : SoftReference K V) : Bool :=
  memory.isLive reference &&
  handles.values.all (fun value => value.address != reference.referent.address) &&
  handles.references.all (fun other =>
    other.number == reference.number ||
    other.referent.address != reference.referent.address || !memory.isLive other)

/-- The reference as a record. `keyText` writes the key. -/
def describe (memory : Memory K V) (keyText : K → String) (reference : SoftReference K V) :
    String :=
  Text.record "SoftReference"
    [("key", keyText reference.key), ("reclaimed", Text.truth (!memory.isLive reference))]

/-! ### What callers hold -/

/-- A caller holds the pointer under the name, in place of what the name stood for. -/
def holdValue (memory : Memory K V) (name : String) (value : Shared V) : Memory K V :=
  { memory with values := memory.values.insert name value }

/-- A caller holds the reference under the name, in place of what the name stood for. -/
def holdReference (memory : Memory K V) (name : String) (reference : SoftReference K V) :
    Memory K V :=
  { memory with references := memory.references.insert name reference }

/-- The caller lets the named pointer go. -/
def releaseValue (memory : Memory K V) (name : String) : Memory K V :=
  { memory with values := memory.values.erase name }

/-- The caller lets the named reference go. -/
def releaseReference (memory : Memory K V) (name : String) : Memory K V :=
  { memory with references := memory.references.erase name }

/-! ### Reclaiming -/

/-- A reference whose value was just reclaimed is no longer live. -/
@[simp] theorem isLive_reclaim_self (memory : Memory K V) (reference : SoftReference K V) :
    (memory.reclaim reference).isLive reference = false := by
  simp [isLive, reclaim]

/-- Reclaiming one value leaves the references of other numbers as they were. -/
theorem isLive_reclaim_other (memory : Memory K V) {reference other : SoftReference K V}
    (different : other.number ≠ reference.number) :
    (memory.reclaim reference).isLive other = memory.isLive other := by
  simp [isLive, reclaim, different]

end Memory

end LayeredCache
