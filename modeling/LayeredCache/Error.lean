/-
This file holds what can go wrong: a configuration that no stack can have, and a layer that fails
while it works. Each error is a cause; `message` and `describe` give its wording.
-/

import LayeredCache.Text.Quoted
import LayeredCache.Text.Record

namespace LayeredCache

/-- Why a cache, a layer or a stack cannot be configured as asked. -/
inductive ConfigError where
  /-- The cache would have no name. -/
  | emptyId
  /-- A recency layer could hold no key at all. -/
  | zeroCapacity
  /-- A soft layer could keep no recent value alive. -/
  | zeroWindow
  /-- A second layer of the stack would hold soft references. -/
  | secondSoftLayer
  /-- A soft layer was looked for where there is none. -/
  | noSoftLayer
  /-- A cause that only its message describes. -/
  | other (message : String)
  deriving DecidableEq, Inhabited

/-- The wording of a configuration error. -/
def ConfigError.message : ConfigError → String
  | .emptyId => "cache id must not be empty"
  | .zeroCapacity => "lru capacity must be greater than zero"
  | .zeroWindow => "hard link window must be greater than zero"
  | .secondSoftLayer => "a stack may contain at most one soft layer"
  | .noSoftLayer => "soft layer position is out of range"
  | .other message => message

/-- The error as a record of its message. -/
def ConfigError.describe (e : ConfigError) : String :=
  Text.applied "ConfigError" (Text.quote e.message)

/-- How a cache operation fails. -/
inductive CacheError where
  /-- The operation met a configuration error. -/
  | config (cause : ConfigError)
  /-- The cache named `id` failed to do its work. -/
  | backend (id message : String)
  deriving DecidableEq, Inhabited

/-- The wording of a failed operation. -/
def CacheError.message : CacheError → String
  | .config cause => cause.message
  | .backend id message => "cache `" ++ id ++ "`: " ++ message

/-- The error as a record of its parts. -/
def CacheError.describe : CacheError → String
  | .config cause => Text.applied "Config" cause.describe
  | .backend id message =>
    Text.record "Backend" [("id", Text.quote id), ("message", Text.quote message)]

/-- Only the empty text is no name for a cache. -/
def checkId (id : String) : Except ConfigError Unit :=
  if id = "" then .error .emptyId else .ok ()

/-- A recency layer holds at least one key. -/
def checkCapacity (capacity : Nat) : Except ConfigError Unit :=
  if capacity = 0 then .error .zeroCapacity else .ok ()

/-- A soft layer keeps at least one recent value alive. -/
def checkWindow (window : Nat) : Except ConfigError Unit :=
  if window = 0 then .error .zeroWindow else .ok ()

end LayeredCache
