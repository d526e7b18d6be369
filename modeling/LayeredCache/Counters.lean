/-
This file holds the counters of the layers: a 64-bit counter that wraps around, the counters of a
recency layer and of a soft layer with the events that move them, and their snapshots.
-/

namespace LayeredCache

/-- A counter of 64 bits. After its largest value it starts again at zero. -/
abbrev Counter := UInt64

namespace Counter

/-- The counter moved on by one. -/
def increment (counter : Counter) : Counter := counter + 1

/-- The counter moved on by `amount`. -/
def add (counter : Counter) (amount : UInt64) : Counter := counter + amount

end Counter

/-! ### The recency layer -/

/-- What a recency layer counts. -/
structure LruCounters where
  getCalls : Counter := 0
  /-- The lookups whose key was tracked. -/
  touchFound : Counter := 0
  /-- The insertions that reached the delegate. -/
  putCalls : Counter := 0
  /-- The victims a removal was attempted for. -/
  evictions : Counter := 0
  removeCalls : Counter := 0
  clearCalls : Counter := 0
  deriving DecidableEq, Inhabited

namespace LruCounters

/-- Counts a lookup, and whether its key was tracked. -/
def countGet (counters : LruCounters) (touched : Bool) : LruCounters :=
  { counters with
    getCalls := counters.getCalls.increment
    touchFound := if touched then counters.touchFound.increment else counters.touchFound }

/-- Counts an insertion that reached the delegate. -/
def countPut (counters : LruCounters) : LruCounters :=
  { counters with putCalls := counters.putCalls.increment }

/-- Counts a victim. -/
def countEviction (counters : LruCounters) : LruCounters :=
  { counters with evictions := counters.evictions.increment }

/-- Counts a removal. -/
def countRemove (counters : LruCounters) : LruCounters :=
  { counters with removeCalls := counters.removeCalls.increment }

/-- Counts a clearing. -/
def countClear (counters : LruCounters) : LruCounters :=
  { counters with clearCalls := counters.clearCalls.increment }

end LruCounters

/-- The counters of a recency layer with its two gauges. -/
structure LruSnapshot where
  counters : LruCounters
  trackedKeys : Nat
  capacity : Nat
  deriving DecidableEq, Inhabited

/-! ### The soft layer -/

/-- What a soft layer counts. -/
structure SoftCounters where
  getCalls : Counter := 0
  getHits : Counter := 0
  getMisses : Counter := 0
  /-- The misses that found a reference whose value was reclaimed. -/
  reclaimedMisses : Counter := 0
  /-- The entries removed because a notification named them. -/
  purgedEntries : Counter := 0
  /-- The values that were put into the ring of recent reads. -/
  pins : Counter := 0
  deriving DecidableEq, Inhabited

namespace SoftCounters

/-- Counts a lookup that found a value. -/
def countHit (counters : SoftCounters) : SoftCounters :=
  { counters with
    getCalls := counters.getCalls.increment
    getHits := counters.getHits.increment }

/-- Counts a lookup that found no value. -/
def countMiss (counters : SoftCounters) : SoftCounters :=
  { counters with
    getCalls := counters.getCalls.increment
    getMisses := counters.getMisses.increment }

/-- Counts, on top of the miss itself, that the value had been reclaimed. -/
def countReclaimedMiss (counters : SoftCounters) : SoftCounters :=
  { counters with reclaimedMisses := counters.reclaimedMisses.increment }

/-- Counts entries that were removed because a notification named them. -/
def countPurged (counters : SoftCounters) (entries : UInt64) : SoftCounters :=
  { counters with purgedEntries := counters.purgedEntries.add entries }

/-- Counts a value that was put into the ring. -/
def countPin (counters : SoftCounters) : SoftCounters :=
  { counters with pins := counters.pins.increment }

end SoftCounters

/-- The counters of a soft layer with its two gauges. -/
structure SoftSnapshot where
  counters : SoftCounters
  hardLinks : Nat
  hardLinkLimit : Nat
  deriving DecidableEq, Inhabited

/-- The fraction of the lookups that found a value; zero if there was no lookup. -/
def hitRatio (hits calls : Counter) : Float :=
  if calls = 0 then 0 else hits.toFloat / calls.toFloat

/-- The fraction of the lookups that found a value since the counters were last reset. -/
def SoftSnapshot.hitRatio (snapshot : SoftSnapshot) : Float :=
  LayeredCache.hitRatio snapshot.counters.getHits snapshot.counters.getCalls

end LayeredCache
