/-
This file reads JSON texts into trees.

The reader follows the grammar strictly: no comments, no trailing commas, no leading zeros, four
blank characters, and no control character inside a string. It looks at structure alone. The
characters of a string and the digits of a number are kept as they are written, and only who needs
their value decodes them: so an escape that stands for half a character is no mistake in a part of
a document that nobody reads.
-/

namespace LayeredCache.Json

/-- A JSON value with its strings and numbers as they are written. -/
inductive Tree where
  | null
  | boolean (value : Bool)
  | number (written : List Char)
  | string (written : List Char)
  | array (items : List Tree)
  | object (members : List (List Char × Tree))
  deriving Inhabited

/-! ### The leaves of the grammar -/

/-- The four characters that may stand between the parts of a document. -/
def isBlank (c : Char) : Bool := c = ' ' || c = '\t' || c = '\n' || c = '\r'

/-- A hexadecimal digit of either case. -/
def isHexadecimal (c : Char) : Bool :=
  c.isDigit || ('a' ≤ c && c ≤ 'f') || ('A' ≤ c && c ≤ 'F')

/-- The text without the blanks in front. -/
def skipBlanks (text : List Char) : List Char := text.dropWhile isBlank

/-- The text behind the given characters, if it starts with them. -/
def expect (characters text : List Char) : Option (List Char) :=
  if characters.isPrefixOf text then some (text.drop characters.length) else none

/-- Splits digits off the front of the text. There must be at least one. -/
def digits (text : List Char) : Option (List Char × List Char) :=
  let found := text.takeWhile Char.isDigit
  if found.isEmpty then none else some (found, text.dropWhile Char.isDigit)

/-- Splits the digits of a whole number off the front: a single zero, or digits that start with
another one. -/
def wholeDigits : List Char → Option (List Char × List Char)
  | '0' :: rest => some (['0'], rest)
  | text => digits text

/-- Splits a sign off the front, if one of the given signs is there. -/
def sign (signs : List Char) : List Char → List Char × List Char
  | [] => ([], [])
  | c :: rest => if signs.contains c then ([c], rest) else ([], c :: rest)

/-- Splits a decimal point and digits off the front, if a point is there. -/
def fraction : List Char → Option (List Char × List Char)
  | '.' :: rest => do
    let (places, rest) ← digits rest
    return ('.' :: places, rest)
  | text => some ([], text)

/-- Splits an exponent off the front, if its mark is there. -/
def exponent : List Char → Option (List Char × List Char)
  | [] => some ([], [])
  | c :: rest =>
    if c = 'e' || c = 'E' then do
      let (signed, rest) := sign ['+', '-'] rest
      let (places, rest) ← digits rest
      return (c :: signed ++ places, rest)
    else some ([], c :: rest)

/-- Splits a number off the front. -/
def number (text : List Char) : Option (List Char × List Char) := do
  let (signed, text) := sign ['-'] text
  let (whole, text) ← wholeDigits text
  let (places, text) ← fraction text
  let (scale, text) ← exponent text
  return (signed ++ whole ++ places ++ scale, text)

/-- Splits the inside of a string and its closing quote off the front. -/
def stringBody : List Char → Option (List Char × List Char)
  | [] => none
  | '"' :: rest => some ([], rest)
  | '\\' :: 'u' :: a :: b :: c :: d :: rest =>
    if [a, b, c, d].all isHexadecimal then do
      let (inside, rest) ← stringBody rest
      return ('\\' :: 'u' :: a :: b :: c :: d :: inside, rest)
    else none
  | '\\' :: c :: rest =>
    if ['"', '\\', '/', 'b', 'f', 'n', 'r', 't'].contains c then do
      let (inside, rest) ← stringBody rest
      return ('\\' :: c :: inside, rest)
    else none
  | c :: rest =>
    if c = '\\' || c.toNat < 0x20 then none
    else do
      let (inside, rest) ← stringBody rest
      return (c :: inside, rest)

/-! ### Values -/

mutual

/-- Splits a value off the front. `depth` bounds the nesting of the calls. -/
def value (depth : Nat) (text : List Char) : Option (Tree × List Char) :=
  match depth with
  | 0 => none
  | depth + 1 =>
    match skipBlanks text with
    | [] => none
    | '"' :: rest => do
      let (inside, rest) ← stringBody rest
      return (.string inside, rest)
    | '[' :: rest =>
      match skipBlanks rest with
      | ']' :: rest => some (.array [], rest)
      | rest => do
        let (items, rest) ← itemsOf depth rest
        return (.array items, rest)
    | '\x7b' :: rest =>
      match skipBlanks rest with
      | '\x7d' :: rest => some (.object [], rest)
      | rest => do
        let (members, rest) ← membersOf depth rest
        return (.object members, rest)
    | 'n' :: rest => (expect ['u', 'l', 'l'] rest).map (.null, ·)
    | 't' :: rest => (expect ['r', 'u', 'e'] rest).map (.boolean true, ·)
    | 'f' :: rest => (expect ['a', 'l', 's', 'e'] rest).map (.boolean false, ·)
    | text => (number text).map fun (written, rest) => (.number written, rest)

/-- Splits the items of an array and its closing bracket off the front. -/
def itemsOf (depth : Nat) (text : List Char) : Option (List Tree × List Char) :=
  match depth with
  | 0 => none
  | depth + 1 => do
    let (item, rest) ← value depth text
    match skipBlanks rest with
    | ',' :: rest =>
      let (items, rest) ← itemsOf depth rest
      return (item :: items, rest)
    | ']' :: rest => return ([item], rest)
    | _ => none

/-- Splits the members of an object and its closing brace off the front. -/
def membersOf (depth : Nat) (text : List Char) : Option (List (List Char × Tree) × List Char) :=
  match depth with
  | 0 => none
  | depth + 1 =>
    match skipBlanks text with
    | '"' :: rest => do
      let (name, rest) ← stringBody rest
      let rest ← expect [':'] (skipBlanks rest)
      let (item, rest) ← value depth rest
      match skipBlanks rest with
      | ',' :: rest =>
        let (members, rest) ← membersOf depth rest
        return ((name, item) :: members, rest)
      | '\x7d' :: rest => return ([(name, item)], rest)
      | _ => none
    | _ => none

end

/-- Reads a whole text. Between two nested calls a character is used up at the latest with the
second one, so twice the length of the text is deep enough. -/
def Tree.read? (text : String) : Option Tree :=
  let characters := text.toList
  match value (2 * characters.length + 2) characters with
  | some (tree, rest) => if (skipBlanks rest).isEmpty then some tree else none
  | none => none

/-! ### Decoding -/

/-- The number that hexadecimal digits write. -/
def hexadecimalValue (text : List Char) : Nat :=
  text.foldl (fun value c => 16 * value + digitValue c) 0
where
  /-- The value of one digit. -/
  digitValue (c : Char) : Nat :=
    if c.isDigit then c.toNat - '0'.toNat
    else if 'a' ≤ c && c ≤ 'f' then c.toNat - 'a'.toNat + 10
    else c.toNat - 'A'.toNat + 10

/-- The character that an escaped letter stands for. -/
def escapedLetter (c : Char) : Char :=
  match c with
  | 'b' => '\x08'
  | 'f' => '\x0c'
  | 'n' => '\n'
  | 'r' => '\r'
  | 't' => '\t'
  | other => other

/-- The unit opens a pair of units that stand for one character together. -/
def opensPair (unit : Nat) : Bool := 0xd800 ≤ unit && unit < 0xdc00

/-- The unit closes such a pair. -/
def closesPair (unit : Nat) : Bool := 0xdc00 ≤ unit && unit < 0xe000

/-- The character that a pair of units stands for. -/
def pairedCharacter (high low : Nat) : Char :=
  Char.ofNat (0x10000 + (high - 0xd800) * 0x400 + (low - 0xdc00))

/-- The text that the inside of a string stands for. There is none if a unit of a pair stands
alone. -/
def decodeString : List Char → Option (List Char)
  | [] => some []
  | '\\' :: 'u' :: a :: b :: c :: d :: '\\' :: 'u' :: e :: f :: g :: h :: rest =>
    let first := hexadecimalValue [a, b, c, d]
    let second := hexadecimalValue [e, f, g, h]
    if opensPair first then
      if closesPair second then (decodeString rest).map (pairedCharacter first second :: ·)
      else none
    else if closesPair first then none
    else (decodeString ('\\' :: 'u' :: e :: f :: g :: h :: rest)).map (Char.ofNat first :: ·)
  | '\\' :: 'u' :: a :: b :: c :: d :: rest =>
    let first := hexadecimalValue [a, b, c, d]
    if opensPair first || closesPair first then none
    else (decodeString rest).map (Char.ofNat first :: ·)
  | '\\' :: c :: rest => (decodeString rest).map (escapedLetter c :: ·)
  | c :: rest => (decodeString rest).map (c :: ·)

/-- The text of a string, if the tree is one. -/
def Tree.text? : Tree → Option String
  | .string written => (decodeString written).map String.ofList
  | _ => none

/-- The least number that does not fit into 64 bits. -/
def wordLimit : Nat := 18446744073709551616

/-- The number, if the tree is one that is written without sign, fraction and exponent and fits
into 64 bits. -/
def Tree.word? : Tree → Option Nat
  | .number written =>
    if written.all Char.isDigit then
      let value := written.foldl (fun value c => 10 * value + (c.toNat - '0'.toNat)) 0
      if value < wordLimit then some value else none
    else none
  | _ => none

/-- The truth value, if the tree is one. -/
def Tree.boolean? : Tree → Option Bool
  | .boolean value => some value
  | _ => none

/-- The value that the tree may leave out by being null. -/
def Tree.orNull? {α : Type} (read : Tree → Option α) : Tree → Option (Option α)
  | .null => some none
  | tree => (read tree).map some

end LayeredCache.Json
