/-
This file holds composite keys: lists of parts together with a running hash code, a checksum and
a count.

Appending a part adds its fingerprint to the checksum, and to the hash code its fingerprint times
the position of the part, after the hash code was multiplied by 37. The hash code therefore
depends on the order of the parts, the checksum does not. Two keys are compared by these three
numbers first and by their parts only if all three agree.
-/

import LayeredCache.Key.Fingerprint

namespace LayeredCache.Key

/-- A cache key of any number of parts, with what the fold over its parts has computed. -/
structure Composite where
  hashcode : UInt64
  checksum : UInt64
  count : Nat
  parts : List Part

namespace Composite

/-- The factor that the hash code takes at every part. -/
def multiplier : UInt64 := 37

/-- The hash code of the key without parts. -/
def seed : UInt64 := 17

/-- The key without parts. -/
def empty : Composite := ⟨seed, 0, 0, []⟩

instance : Inhabited Composite := ⟨empty⟩

/-- The key with one more part at its end. -/
def append (key : Composite) (part : Part) : Composite :=
  let base := part.fingerprint
  let count := key.count + 1
  { hashcode := key.hashcode * multiplier + base * UInt64.ofNat count
    checksum := key.checksum + base
    count := count
    parts := key.parts ++ [part] }

/-- The key with more parts at its end, in their order. -/
def appendAll (key : Composite) (parts : List Part) : Composite := parts.foldl append key

/-- The key that has exactly these parts. -/
def ofParts (parts : List Part) : Composite := empty.appendAll parts

/-- The hash codes that the key takes while the parts are appended one by one. -/
def hashcodes (key : Composite) : List Part → List UInt64
  | [] => []
  | part :: rest => (key.append part).hashcode :: (key.append part).hashcodes rest

/-- The keys agree in hash code, checksum, count and parts. The cheap numbers are compared
first, so that most unequal keys never have their parts compared. -/
def same (a b : Composite) : Bool :=
  a.hashcode == b.hashcode && a.checksum == b.checksum && a.count == b.count && a.parts == b.parts

instance : BEq Composite := ⟨same⟩

theorem same_iff (a b : Composite) : same a b = true ↔ a = b := by
  cases a; cases b
  simp [same, and_assoc]

instance : LawfulBEq Composite where
  eq_of_beq h := (same_iff _ _).1 h
  rfl := (same_iff _ _).2 rfl

instance : DecidableEq Composite := fun a b => decidable_of_iff _ (same_iff a b)

/-- The words by which a hash table tells composite keys apart: the hash code alone. -/
def words (key : Composite) : List UInt64 := [key.hashcode]

/-- The text of a key: hash code, checksum and the parts, with a colon between neighbours. -/
def display (key : Composite) : String :=
  ":".intercalate
    (toString key.hashcode.toNat :: toString key.checksum.toNat :: key.parts.map Part.display)

end Composite

end LayeredCache.Key
