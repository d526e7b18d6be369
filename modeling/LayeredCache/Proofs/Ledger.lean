/-
This file says what callers and a memory manager can do with a reference queue, and keeps a ledger
of registrations to compare the queue with.

A ledger never forgets: it lists every registration there ever was, oldest first, and goes through
the whole list for each answer. What it reclaims is said in one line for the state in which it is
asked, where a queue sweeps. `Registrar` is what the two have in common, so that one run of deeds is
defined for both.
-/

import LayeredCache.Proofs.Sweeps

namespace LayeredCache

variable {K V σ : Type}

/-! ### Registrars -/

/-- Something that hands out references, reclaims their values and reports the keys of those that it
reclaimed. -/
structure Registrar (K V σ : Type) where
  /-- Makes and registers a reference, which is not yet among the handles. -/
  register : σ → Memory K V → Handles K V → K → Shared V → SoftReference K V × σ × Memory K V
  /-- Takes the next reported key. -/
  poll : σ → Option K × σ
  /-- The number of keys that wait to be polled. -/
  pending : σ → Nat
  /-- Reclaims at most so many values that only their references keep alive, and counts them. -/
  reclaim : σ → Memory K V → Handles K V → Nat → Nat × σ × Memory K V
  /-- Reclaims all values that only their references keep alive, and counts them. -/
  reclaimAll : σ → Memory K V → Handles K V → Nat × σ × Memory K V
  /-- Reclaims the value of the latest reference with the key, and tells whether there is one. -/
  forceReclaim : σ → Memory K V → Handles K V → K → Bool × σ × Memory K V
  /-- The number of references that are held and not reclaimed. -/
  registered : σ → Memory K V → Handles K V → Nat

/-- A reference queue as a registrar. -/
def ReferenceQueue.registrar [DecidableEq K] : Registrar K V (ReferenceQueue K V) where
  register := register
  poll := poll
  pending queue := queue.pending.length
  reclaim := reclaim
  reclaimAll := reclaimAll
  forceReclaim := forceReclaim
  registered := registered

/-! ### Ledgers -/

/-- Every registration there ever was, and the keys of reclaimed references that nobody has polled
yet. -/
structure Ledger (K V : Type) where
  /-- The references in the order of their registration. -/
  entries : List (SoftReference K V) := []
  /-- The keys of reclaimed references, the first reclaimed one first. -/
  pending : List K := []

namespace Ledger

open ReferenceQueue (isCurrent isReclaimable)

/-- Enters a new reference behind all others. -/
def register (ledger : Ledger K V) (memory : Memory K V) (key : K) (referent : Shared V) :
    SoftReference K V × Ledger K V × Memory K V :=
  let (reference, memory) := memory.refer key referent
  (reference, { ledger with entries := ledger.entries ++ [reference] }, memory)

/-- Takes the oldest notification. -/
def poll (ledger : Ledger K V) : Option K × Ledger K V :=
  (ledger.pending.head?, { ledger with pending := ledger.pending.tail })

/-- Reclaims the values of the references, which stay entered, and notifies of each. -/
def strike (ledger : Ledger K V) (memory : Memory K V) (chosen : List (SoftReference K V)) :
    Ledger K V × Memory K V :=
  ({ ledger with pending := ledger.pending ++ chosen.map (·.key) }, memory.reclaimEach chosen)

/-- The entered references that are held and live and that alone keep their values alive. -/
def reclaimable (ledger : Ledger K V) (memory : Memory K V) (handles : Handles K V) :
    List (SoftReference K V) :=
  ledger.entries.filter (isReclaimable memory handles)

/-- Reclaims the first `limit` references that can be reclaimed. -/
def reclaim (ledger : Ledger K V) (memory : Memory K V) (handles : Handles K V) (limit : Nat) :
    Nat × Ledger K V × Memory K V :=
  let chosen := (ledger.reclaimable memory handles).take limit
  (chosen.length, ledger.strike memory chosen)

/-- Reclaims all references that can be reclaimed. -/
def reclaimAll (ledger : Ledger K V) (memory : Memory K V) (handles : Handles K V) :
    Nat × Ledger K V × Memory K V :=
  let chosen := ledger.reclaimable memory handles
  (chosen.length, ledger.strike memory chosen)

/-- Reclaims the last entered reference with the key that is held and live, if there is one. -/
def forceReclaim [DecidableEq K] (ledger : Ledger K V) (memory : Memory K V)
    (handles : Handles K V) (key : K) : Bool × Ledger K V × Memory K V :=
  let chosen := ledger.entries.filter fun reference =>
    reference.key = key && isCurrent memory handles reference
  (chosen.getLast?.isSome, ledger.strike memory chosen.getLast?.toList)

/-- The number of entered references that are held and live. -/
def registered (ledger : Ledger K V) (memory : Memory K V) (handles : Handles K V) : Nat :=
  (ledger.entries.filter (isCurrent memory handles)).length

/-- A ledger as a registrar. -/
def registrar [DecidableEq K] : Registrar K V (Ledger K V) where
  register ledger memory _ := ledger.register memory
  poll := poll
  pending ledger := ledger.pending.length
  reclaim := reclaim
  reclaimAll := reclaimAll
  forceReclaim := forceReclaim
  registered := registered

end Ledger

/-! ### Deeds -/

/-- Something that is done with a registrar or with what callers hold. -/
inductive QueueDeed (K V : Type) where
  /-- A caller registers a reference, and keeps it under a name or drops it at once. -/
  | register (key : K) (value : Shared V) (name : Option String)
  /-- A caller copies a named reference. -/
  | clone (name copy : String)
  /-- A caller drops a named reference. -/
  | drop (name : String)
  /-- A caller keeps a pointer under a name. -/
  | hold (name : String) (value : Shared V)
  | release (name : String)
  /-- A caller resolves a named reference, and may keep the value under a name. -/
  | get (name : String) (hold : Option String)
  | reclaim (limit : Nat)
  | reclaimAll
  | forceReclaim (key : K)
  | registered
  | poll
  | pending
  deriving DecidableEq, Inhabited

/-- What comes of a deed. -/
inductive QueueReply (K V : Type) where
  | done
  /-- The name stands for no reference. -/
  | unknown
  | registered (reference : SoftReference K V)
  | value (found : Option (Shared V))
  | key (found : Option K)
  | count (number : Nat)
  | flag (answer : Bool)
  deriving DecidableEq, Inhabited

/-- A registrar in use. -/
structure QueueState (K V σ : Type) where
  system : σ
  memory : Memory K V := {}

namespace Registrar

/-- What a change answers, as a reply, and the state after it. -/
def change {α : Type} (reply : α → QueueReply K V) (changed : α × σ × Memory K V) :
    QueueReply K V × QueueState K V σ :=
  (reply changed.1, ⟨changed.2.1, changed.2.2⟩)

/-- Does a deed. -/
def perform (registrar : Registrar K V σ) (state : QueueState K V σ) :
    QueueDeed K V → QueueReply K V × QueueState K V σ
  | .register key value name =>
    let (reference, system, memory) :=
      registrar.register state.system state.memory state.memory.handles key value
    (.registered reference,
      ⟨system, name.elim memory fun name => memory.holdReference name reference⟩)
  | .clone name copy =>
    match state.memory.references.find? name with
    | none => (.unknown, state)
    | some reference =>
      (.done, { state with memory := state.memory.holdReference copy reference })
  | .drop name => (.done, { state with memory := state.memory.releaseReference name })
  | .hold name value => (.done, { state with memory := state.memory.holdValue name value })
  | .release name => (.done, { state with memory := state.memory.releaseValue name })
  | .get name hold =>
    match state.memory.references.find? name with
    | none => (.unknown, state)
    | some reference =>
      match state.memory.resolve reference, hold with
      | some value, some name =>
        (.value (some value), { state with memory := state.memory.holdValue name value })
      | found, _ => (.value found, state)
  | .reclaim limit =>
    change .count (registrar.reclaim state.system state.memory state.memory.handles limit)
  | .reclaimAll =>
    change .count (registrar.reclaimAll state.system state.memory state.memory.handles)
  | .forceReclaim key =>
    change .flag (registrar.forceReclaim state.system state.memory state.memory.handles key)
  | .registered =>
    (.count (registrar.registered state.system state.memory state.memory.handles), state)
  | .poll =>
    let (key, system) := registrar.poll state.system
    (.key key, { state with system })
  | .pending => (.count (registrar.pending state.system), state)

/-- Does deeds one after the other. -/
def run (registrar : Registrar K V σ) :
    List (QueueDeed K V) → QueueState K V σ → List (QueueReply K V) × QueueState K V σ
  | [], state => ([], state)
  | deed :: rest, state =>
    let (reply, later) := registrar.perform state deed
    let (replies, final) := registrar.run rest later
    (reply :: replies, final)

theorem run_cons (registrar : Registrar K V σ) (deed : QueueDeed K V) (rest : List (QueueDeed K V))
    (state : QueueState K V σ) :
    registrar.run (deed :: rest) state =
      ((registrar.perform state deed).1 :: (registrar.run rest (registrar.perform state deed).2).1,
        (registrar.run rest (registrar.perform state deed).2).2) := rfl

end Registrar

end LayeredCache
