/-
This file lays out named values on one line: a record with its fields, a record that shows only
some of them, and a list.
-/

namespace LayeredCache.Text

/-- The items with a comma and a space between neighbours. -/
def commaSeparated (items : List String) : String := ", ".intercalate items

/-- The items between square brackets. -/
def listing (items : List String) : String := "[" ++ commaSeparated items ++ "]"

/-- A field of a record: its name, a colon and the text of its value. -/
def field (name value : String) : String := name ++ ": " ++ value

/-- A record with all its fields. A record without fields is its name alone. -/
def record (name : String) (fields : List (String × String)) : String :=
  match fields with
  | [] => name
  | _ => name ++ " \x7b " ++ commaSeparated (fields.map fun f => field f.1 f.2) ++ " \x7d"

/-- A record that shows only some of its fields. -/
def openRecord (name : String) (fields : List (String × String)) : String :=
  name ++ " \x7b " ++ commaSeparated (fields.map (fun f => field f.1 f.2) ++ [".."]) ++ " \x7d"

/-- A value with one unnamed part. -/
def applied (name part : String) : String := name ++ "(" ++ part ++ ")"

/-- The text of a truth value. -/
def truth (b : Bool) : String := if b then "true" else "false"

end LayeredCache.Text
