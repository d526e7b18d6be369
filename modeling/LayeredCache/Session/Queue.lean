/-
This file runs requests against one reference queue and the memory manager's side of it, the way
a caller with names for references and values does.

The queue can be dropped while the memory manager's side goes on. Nobody can register or poll any
more then, and the keys of references that are reclaimed later are reported to nobody.
-/

import LayeredCache.Event
import LayeredCache.ReferenceQueue
import LayeredCache.Session.Supply
import LayeredCache.Text.Quoted

namespace LayeredCache.Session

/-- A request to a queue, or to what the caller holds. -/
inductive QueueRequest where
  /-- Registers a reference. Names, where given, keep the reference and the value. -/
  | register (key : String) (supply : Supply String) (reference hold : Option String)
  /-- Registers a reference for each integer from the first to just before the last one. Key and
  name are the stem followed by the integer, the value is the text of the integer. -/
  | registerMany (stem : String) (first last : Int) (keep : Bool)
  | drop (reference : String)
  | dropMany (stem : String) (first last : Int)
  /-- Lets go of a value. -/
  | release (name : String)
  | clone (reference copy : String)
  | get (reference : String) (hold : Option String)
  | key (reference : String)
  | isReclaimed (reference : String)
  | describe (reference : String)
  /-- Asks whether two names stand for copies of one reference. -/
  | same (first second : String)
  | poll
  /-- Polls until nothing is left. -/
  | drain
  | reclaim (limit : Nat)
  | reclaimAll
  | forceReclaim (key : String)
  | dropQueue
  deriving DecidableEq, Inhabited

/-- The answer to a request. -/
inductive QueueAnswer where
  | done
  | flag (value : Bool)
  | count (value : Nat)
  | text (value : Option String)
  | texts (values : List String)
  /-- The queue was dropped. -/
  | queueDropped
  /-- A name stands for nothing. -/
  | unknown
  deriving DecidableEq, Inhabited

/-- What is reported about a request: its answer, and the events meanwhile. -/
structure QueueReport where
  answer : QueueAnswer
  events : List Event := []
  deriving DecidableEq, Inhabited

/-- A queue in use. -/
structure QueueSession where
  queue : ReferenceQueue String String := .empty
  memory : Memory String String := {}
  /-- The queue itself is gone, only the memory manager's side is left. -/
  dropped : Bool := false
  deriving DecidableEq, Inhabited

namespace QueueSession

/-! ### Registering and polling -/

/-- Registers a reference. It is held only after the registration, and what its name stood for
before is held until then. -/
def register (session : QueueSession) (key : String) (value : Shared String)
    (name : Option String) : QueueSession :=
  let (reference, queue, memory) :=
    session.queue.register session.memory session.memory.handles key value
  { session with
    queue
    memory := name.elim memory fun name => memory.holdReference name reference }

/-- Registers a reference to a supplied value and holds the value, if a name is given for it. -/
def registerSupplied (session : QueueSession) (key : String) (supply : Supply String)
    (name hold : Option String) : QueueAnswer × QueueSession :=
  let (value, memory) := supply.take session.memory
  match value with
  | none => (.unknown, session)
  | some value =>
    let session := { session with memory }.register key value name
    let memory := hold.elim session.memory fun name => session.memory.holdValue name value
    (.done, { session with memory })

/-- Registers references to the texts of integers. -/
def registerMany (session : QueueSession) (stem : String) (keep : Bool)
    (numbers : List Int) : QueueSession :=
  numbers.foldl (fun session number =>
    let key := stem ++ toString number
    let name := if keep then some key else none
    (session.registerSupplied key (.fresh (toString number)) name none).2) session

/-- Answers a request that only a queue which was not dropped can fulfil. -/
def queueRequest (session : QueueSession) : QueueRequest → QueueAnswer × QueueSession
  | .register key supply reference hold => session.registerSupplied key supply reference hold
  | .registerMany stem first last keep =>
    (.done, session.registerMany stem keep (integers first last))
  | .poll =>
    let (key, queue) := session.queue.poll
    (.text key, { session with queue })
  | .drain =>
    (.texts session.queue.pending, { session with queue := { session.queue with pending := [] } })
  | _ => (.unknown, session)

/-! ### Holding -/

/-- Lets go of a reference. The answer tells whether the name stood for one. -/
def dropReference (session : QueueSession) (name : String) : Bool × QueueSession :=
  (session.memory.references.contains name,
    { session with memory := session.memory.releaseReference name })

/-- Lets go of several references and counts those that existed. -/
def dropReferences (session : QueueSession) : List String → Nat × QueueSession
  | [] => (0, session)
  | name :: rest =>
    let (existed, session) := session.dropReference name
    let (count, session) := session.dropReferences rest
    (existed.toNat + count, session)

/-- The answer that is computed from a named reference. -/
def look (session : QueueSession) (name : String)
    (answer : SoftReference String String → QueueAnswer) : QueueAnswer :=
  (session.memory.references.find? name).elim .unknown answer

/-- Answers a request about what the caller holds. -/
def holderRequest (session : QueueSession) : QueueRequest → QueueAnswer × QueueSession
  | .drop reference =>
    let (existed, session) := session.dropReference reference
    (.flag existed, session)
  | .dropMany stem first last =>
    let names := (integers first last).map fun number => stem ++ toString number
    let (count, session) := session.dropReferences names
    (.count count, session)
  | .release name =>
    (.flag (session.memory.values.contains name),
      { session with memory := session.memory.releaseValue name })
  | .clone reference copy =>
    match session.memory.references.find? reference with
    | none => (.unknown, session)
    | some found =>
      (.done, { session with memory := session.memory.holdReference copy found })
  | .get reference hold =>
    let value := (session.memory.references.find? reference).bind session.memory.resolve
    let answer := session.look reference fun _ => .text (value.map (·.value))
    match value, hold with
    | some value, some name =>
      (answer, { session with memory := session.memory.holdValue name value })
    | _, _ => (answer, session)
  | .key reference => (session.look reference fun found => .text (some found.key), session)
  | .isReclaimed reference =>
    (session.look reference fun found => .flag (!session.memory.isLive found), session)
  | .describe reference =>
    (session.look reference fun found =>
      .text (some (session.memory.describe Text.quote found)), session)
  | .same first second =>
    (session.look first fun a =>
      session.look second fun b => .flag (a.number == b.number), session)
  | _ => (.unknown, session)

/-! ### Reclaiming -/

/-- Runs a change of the registry. What is reported is lost if the queue is gone. -/
def withRegistry {α : Type} (session : QueueSession)
    (change : ReferenceQueue String String → Memory String String → Handles String String →
      α × ReferenceQueue String String × Memory String String) : α × QueueSession :=
  let (answer, queue, memory) := change session.queue session.memory session.memory.handles
  let queue := if session.dropped then { queue with pending := [] } else queue
  (answer, { session with queue, memory })

/-- Sweeps, and tells what the sweep reports. -/
def reclaim (session : QueueSession) (limit : Nat) : QueueReport × QueueSession :=
  let (reclaimed, session) := session.withRegistry (·.reclaim · · limit)
  (⟨.count reclaimed, [.swept reclaimed session.queue.registry.length]⟩, session)

/-- Answers a request. -/
def perform (session : QueueSession) (request : QueueRequest) : QueueReport × QueueSession :=
  match request with
  | .register .. | .registerMany .. | .poll | .drain =>
    if session.dropped then (⟨.queueDropped, []⟩, session)
    else
      let (answer, session) := session.queueRequest request
      (⟨answer, []⟩, session)
  | .reclaim limit => session.reclaim limit
  | .reclaimAll => session.reclaim session.queue.registry.length
  | .forceReclaim key =>
    let (found, session) := session.withRegistry (·.forceReclaim · · key)
    (⟨.flag found, []⟩, session)
  | .dropQueue =>
    (⟨.flag (!session.dropped), []⟩,
      { session with dropped := true, queue := { session.queue with pending := [] } })
  | request =>
    let (answer, session) := session.holderRequest request
    (⟨answer, []⟩, session)

/-! ### Views -/

/-- The number of registered references that are held and not reclaimed. -/
def registered (session : QueueSession) : Nat :=
  session.queue.registered session.memory session.memory.handles

/-- The number of waiting notifications, unless the queue is gone. -/
def pending (session : QueueSession) : Option Nat :=
  if session.dropped then none else some session.queue.pending.length

/-- The queue as a record, unless it is gone. -/
def describe (session : QueueSession) : Option String :=
  if session.dropped then none else some session.queue.describe

end QueueSession

end LayeredCache.Session
