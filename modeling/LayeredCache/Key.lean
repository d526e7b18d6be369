/-
This file holds the keys that caches and recency orders are addressed by: a single part or a
composite key, and their compact JSON text.
-/

import LayeredCache.Key.Composite
import LayeredCache.Json.Text

namespace LayeredCache

/-- A cache key: one part, or a composite of parts. The two never are equal. -/
inductive Key where
  | single (part : Key.Part)
  | composite (key : Key.Composite)
  deriving DecidableEq, Inhabited

namespace Key

/-- The largest integer that every reader of JSON keeps exact. -/
def exactLimit : Nat := 9007199254740991

/-- A part as JSON. An integer that some reader would round is written as a decimal text, and the
kinds that JSON lacks are objects of one member. -/
def Part.json : Part → String
  | .null => "null"
  | .flag value => Json.boolean value
  | .int value =>
    let number := toString value.toInt
    if value.toInt.natAbs ≤ exactLimit then number else Json.object [("int", Json.string number)]
  | .word value => Json.object [("uint", Json.string (toString value.toNat))]
  | .text value => Json.string value
  | .bytes value => Json.object [("bytes", Json.array (value.map fun b => toString b.toNat))]

/-- A key as JSON: its part, or the array of its parts. -/
def json : Key → String
  | .single part => part.json
  | .composite key => Json.array (key.parts.map Part.json)

/-- The key of a single part. -/
def ofPart (part : Part) : Key := .single part

/-- The composite key of the parts. -/
def ofParts (parts : List Part) : Key := .composite (Composite.ofParts parts)

end Key

end LayeredCache
