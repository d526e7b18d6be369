/-
This file holds the parts a cache key is made of, the values that can stand for a part, and the
two texts of a part: the one a key displays and the one that also names the kind of the part.
-/

import LayeredCache.Text.Quoted
import LayeredCache.Text.Record

namespace LayeredCache.Key

/-- One typed part of a cache key. Parts of different kinds are different, whatever they hold. -/
inductive Part where
  /-- The absent value. -/
  | null
  | flag (value : Bool)
  /-- A signed integer. -/
  | int (value : Int64)
  /-- An unsigned integer. -/
  | word (value : UInt64)
  | text (value : String)
  | bytes (value : List UInt8)
  deriving DecidableEq, Inhabited

/-- The types whose values can stand for a part of a key. -/
class ToPart (α : Type) where
  /-- The part that the value stands for. -/
  toPart : α → Part

export ToPart (toPart)

instance : ToPart Part := ⟨id⟩
instance : ToPart Bool := ⟨.flag⟩
instance : ToPart Int32 := ⟨fun n => .int n.toInt64⟩
instance : ToPart Int64 := ⟨.int⟩
instance : ToPart UInt32 := ⟨fun n => .word n.toUInt64⟩
instance : ToPart UInt64 := ⟨.word⟩
instance : ToPart String := ⟨.text⟩
instance : ToPart (List UInt8) := ⟨.bytes⟩

/-- A missing value stands for the null part. -/
instance {α : Type} [ToPart α] : ToPart (Option α) :=
  ⟨fun value => value.elim .null toPart⟩

namespace Part

/-- The decimal numbers of the bytes between square brackets. -/
def bytesText (value : List UInt8) : String :=
  Text.listing (value.map fun b => toString b.toNat)

/-- The text of a part inside a key: its value without its kind. -/
def display : Part → String
  | .null => "null"
  | .flag value => Text.truth value
  | .int value => toString value.toInt
  | .word value => toString value.toNat
  | .text value => value
  | .bytes value => bytesText value

/-- The text of a part with its kind. -/
def describe : Part → String
  | .null => "Null"
  | .flag value => Text.applied "Bool" (Text.truth value)
  | .int value => Text.applied "Int" (toString value.toInt)
  | .word value => Text.applied "UInt" (toString value.toNat)
  | .text value => Text.applied "Str" (Text.quote value)
  | .bytes value => Text.applied "Bytes" (bytesText value)

end Part

end LayeredCache.Key
