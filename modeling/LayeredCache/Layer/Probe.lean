/-
This file holds the probe: a layer that passes every call on to its delegate, notes it in the
trace, and fails where it was told to.

A fault names a method, how many calls it lets through first and how many it then fails, and
whether a failing call still reaches the delegate. If it does, an error of the delegate wins over
the one of the fault.
-/

import LayeredCache.Cache

namespace LayeredCache

/-- Calls that a probe fails. -/
structure Fault where
  method : Method
  /-- The number of calls that still fail. -/
  times : Nat := 1
  /-- The number of calls that go through first. -/
  skip : Nat := 0
  /-- The call fails only once the delegate has done it. -/
  after : Bool := false
  error : CacheError
  deriving DecidableEq, Inhabited

/-- A layer that records and fails calls. -/
structure ProbeLayer (σ : Type) where
  faults : List Fault := []
  delegate : σ
  deriving DecidableEq, Inhabited

/-- The fault that applies to a call of the method, and the faults for the calls after it. The
first fault of the method that still has calls to fail decides; while it lets calls through, no
fault applies. -/
def Fault.take (method : Method) : List Fault → Option Fault × List Fault
  | [] => (none, [])
  | fault :: rest =>
    if fault.method = method ∧ 0 < fault.times then
      if 0 < fault.skip then (none, { fault with skip := fault.skip - 1 } :: rest)
      else (some fault, { fault with times := fault.times - 1 } :: rest)
    else
      let (taken, rest) := Fault.take method rest
      (taken, fault :: rest)

namespace ProbeLayer

variable {K V σ X : Type}

/-- Runs an action of the delegate. -/
def below {α : Type} (action : Action K V σ α) : Action K V (ProbeLayer σ) α :=
  Action.within (·.delegate) (fun layer delegate => { layer with delegate }) action

/-- Notes the error and fails with it. -/
def fail {α : Type} (position : Nat) (error : CacheError) : Action K V (ProbeLayer σ) α := do
  Action.note (.raised position error)
  throw error

/-- Notes a call and passes it on, unless a fault applies to it. -/
def intercept {α : Type} (position : Nat) (method : Method) (key : Option K)
    (action : Action K V σ α) : Action K V (ProbeLayer σ) α := do
  let fault ← Action.updateLayer fun layer =>
    let (fault, faults) := Fault.take method layer.faults
    (fault, { layer with faults })
  Action.note (.call position method key fault.isSome)
  match fault with
  | none => below action
  | some fault =>
    if fault.after then
      let _ ← below action
    fail position fault.error

/-- The cache that a probe makes of its delegate. `position` is the place in the stack under
which the probe notes its calls. -/
def cache (position : Nat) (delegate : Cache K V σ X) : Cache K V (ProbeLayer σ) X where
  id layer := delegate.id layer.delegate
  hasLock layer := delegate.hasLock layer.delegate
  handles layer := delegate.handles layer.delegate
  put key item := intercept position .put (some key) (delegate.put key item)
  get key := intercept position .get (some key) (delegate.get key)
  remove key := intercept position .remove (some key) (delegate.remove key)
  clear := intercept position .clear none delegate.clear
  length := intercept position .length none delegate.length

/-- Adds a fault behind those the probe already has. -/
def addFault (fault : Fault) : Action K V (ProbeLayer σ) Unit :=
  Action.modifyLayer fun layer => { layer with faults := layer.faults ++ [fault] }

end ProbeLayer

end LayeredCache
