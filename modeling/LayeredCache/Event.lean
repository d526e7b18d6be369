/-
This file holds the events that layers report while they work, with the level, the message and
the fields of each.
-/

namespace LayeredCache

/-- How much attention an event asks for. -/
inductive Level where
  | trace
  | debug
  deriving DecidableEq, Inhabited

/-- Something worth reporting that a layer did. -/
inductive Event where
  /-- A recency layer is about to remove its least recently used entry. -/
  | evicting (cache : String)
  /-- The capacity of a recency layer was changed. -/
  | capacityChanged (cache : String) (previous capacity : Nat)
  /-- The number of recent values that a soft layer keeps alive was changed. -/
  | windowChanged (cache : String) (previous window : Nat)
  /-- A soft layer removed entries whose values were reclaimed. -/
  | purged (cache : String) (entries : Nat)
  /-- A soft layer let go of more than one recent value at once. -/
  | windowShrank (cache : String) (trimmed window : Nat)
  /-- A lookup found an entry whose value was reclaimed. -/
  | foundReclaimed (cache : String)
  /-- A sweep over the registered references has ended. -/
  | swept (reclaimed remaining : Nat)
  /-- A stack was built. -/
  | built (cache : String) (layers : Nat)
  deriving DecidableEq, Inhabited

namespace Event

/-- The value of a field of an event. -/
inductive Field where
  | text (value : String)
  | number (value : Nat)
  deriving DecidableEq, Inhabited

/-- The level that an event is reported at. -/
def level : Event → Level
  | purged .. | windowShrank .. | swept .. => .trace
  | evicting .. | capacityChanged .. | windowChanged .. | foundReclaimed .. | built .. => .debug

/-- The wording of an event. -/
def message : Event → String
  | evicting .. => "evicting least recently used entry"
  | capacityChanged .. => "lru capacity changed"
  | windowChanged .. => "hard link window changed"
  | purged .. => "purged reclaimed entries"
  | windowShrank .. => "hard link window shrank"
  | foundReclaimed .. => "cached value was reclaimed"
  | swept .. => "reclaim sweep"
  | built .. => "built cache stack"

/-- The named values that an event carries, in their order. -/
def fields : Event → List (String × Field)
  | evicting cache => [("cache", .text cache)]
  | capacityChanged cache previous capacity =>
    [("cache", .text cache), ("previous", .number previous), ("capacity", .number capacity)]
  | windowChanged cache previous window =>
    [("cache", .text cache), ("previous", .number previous), ("hard_links", .number window)]
  | purged cache entries => [("cache", .text cache), ("purged", .number entries)]
  | windowShrank cache trimmed window =>
    [("cache", .text cache), ("trimmed", .number trimmed), ("limit", .number window)]
  | foundReclaimed cache => [("cache", .text cache)]
  | swept reclaimed remaining =>
    [("reclaimed", .number reclaimed), ("remaining", .number remaining)]
  | built cache layers => [("cache", .text cache), ("layers", .number layers)]

end Event

end LayeredCache
