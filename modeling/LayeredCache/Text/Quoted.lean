/-
This file writes a text between double quotes, so that every character of it can be seen.

The quote, the backslash and the four control characters with a short name are written with a
backslash, every other hidden character by its code point in hexadecimal, and all else as it is.
-/

import LayeredCache.Text.Hidden

namespace LayeredCache.Text

/-- The number in lower-case hexadecimal, without leading zeros. -/
def hexadecimal (n : Nat) : List Char := Nat.toDigits 16 n

/-- The character as it stands inside double quotes. -/
def escape (c : Char) : List Char :=
  if c = '"' then ['\\', '"']
  else if c = '\\' then ['\\', '\\']
  else if c = '\n' then ['\\', 'n']
  else if c = '\t' then ['\\', 't']
  else if c = '\r' then ['\\', 'r']
  else if c = Char.ofNat 0 then ['\\', '0']
  else if isHidden c then ['\\', 'u', Char.ofNat 0x7b] ++ hexadecimal c.toNat ++ [Char.ofNat 0x7d]
  else [c]

/-- The text between double quotes. -/
def quote (text : String) : String :=
  String.ofList ('"' :: text.toList.flatMap escape ++ ['"'])

end LayeredCache.Text
