/-
This file writes texts, whole numbers and lists as compact JSON.

Inside a JSON string only the quote, the backslash and the control characters below U+0020 are
escaped, five of them by a letter and the others by four hexadecimal digits.
-/

namespace LayeredCache.Json

/-- The hexadecimal digit of a number below sixteen. -/
def hexDigit (n : Nat) : Char := Nat.digitChar (n % 16)

/-- The character as it stands inside a JSON string. -/
def escape (c : Char) : List Char :=
  if c = '"' then ['\\', '"']
  else if c = '\\' then ['\\', '\\']
  else if c = '\n' then ['\\', 'n']
  else if c = '\r' then ['\\', 'r']
  else if c = '\t' then ['\\', 't']
  else if c.toNat = 0x08 then ['\\', 'b']
  else if c.toNat = 0x0c then ['\\', 'f']
  else if c.toNat < 0x20 then ['\\', 'u', '0', '0', hexDigit (c.toNat / 16), hexDigit c.toNat]
  else [c]

/-- The text as a JSON string. -/
def string (text : String) : String :=
  String.ofList ('"' :: text.toList.flatMap escape ++ ['"'])

/-- The items as a JSON array. -/
def array (items : List String) : String := "[" ++ ",".intercalate items ++ "]"

/-- The members as a JSON object, in their order. -/
def object (members : List (String × String)) : String :=
  "\x7b" ++ ",".intercalate (members.map fun m => string m.1 ++ ":" ++ m.2) ++ "\x7d"

/-- The truth value as a JSON literal. -/
def boolean (b : Bool) : String := if b then "true" else "false"

end LayeredCache.Json
