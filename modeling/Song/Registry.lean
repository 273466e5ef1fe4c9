import Mathlib.Data.Multiset.Filter
import Song.Error
import Song.Lib.Map

/-!
# The registry of services (`registry.hpp`, `registry.cpp`: `MemoryRegistry`)

A map from names to services, each with the time of its last heartbeat. A service is stale when
that is longer ago than the expiry time. Some operations look for that and drop the entry, others
do not look. Every operation is given the reading of the clock at which it runs; times are in the
ticks of `steady_clock`.
-/

namespace Song

structure ServiceInfo where
  name : Str := []
  host : Str := []
  port : UInt16 := 0
  deriving DecidableEq

def ServiceInfo.isValid (info : ServiceInfo) : Bool :=
  !info.name.isEmpty && !info.host.isEmpty && info.port != 0

namespace MemoryRegistry

structure Entry where
  info : ServiceInfo
  lastHeartbeat : Int
  deriving DecidableEq

end MemoryRegistry

structure MemoryRegistry where
  services : Map Str MemoryRegistry.Entry
  expiryTime : Int

namespace MemoryRegistry

def stale (r : MemoryRegistry) (now : Int) (entry : Entry) : Bool :=
  decide (r.expiryTime < now - entry.lastHeartbeat)

/-! ## Operations -/

def registerService (now : Int) (info : ServiceInfo) (r : MemoryRegistry) :
    Bool × MemoryRegistry :=
  if !info.isValid then (false, r)
  else if (r.services.lookup info.name).isSome then (false, r)
  else (true, { r with services := r.services.insert info.name ⟨info, now⟩ })

def unregisterService (name : Str) (r : MemoryRegistry) : Bool × MemoryRegistry :=
  ((r.services.lookup name).isSome, { r with services := r.services.erase name })

def discover (now : Int) (name : Str) (r : MemoryRegistry) : ServiceInfo × MemoryRegistry :=
  match r.services.lookup name with
  | none => ({}, r)
  | some entry =>
    if r.stale now entry then ({}, { r with services := r.services.erase name })
    else (entry.info, r)

def cleanupStale (now : Int) (r : MemoryRegistry) : MemoryRegistry :=
  { r with services := r.services.filter fun entry => !r.stale now entry }

/-- What is left after a clean-up, in the order of the `unordered_map`, which is left open. -/
def listAll (now : Int) (r : MemoryRegistry) : Multiset ServiceInfo × MemoryRegistry :=
  (((r.cleanupStale now).services.entries.map fun e => e.2.info : List ServiceInfo),
    r.cleanupStale now)

def heartbeat (now : Int) (name : Str) (r : MemoryRegistry) : Bool × MemoryRegistry :=
  match r.services.lookup name with
  | none => (false, r)
  | some entry =>
    (true, { r with services := r.services.insert name { entry with lastHeartbeat := now } })

/-! ## Runs -/

inductive Operation where
  | registerService (info : ServiceInfo)
  | unregisterService (name : Str)
  | discover (name : Str)
  | listAll
  | heartbeat (name : Str)

inductive Result where
  | answer (b : Bool)
  | found (info : ServiceInfo)
  | all (services : Multiset ServiceInfo)
  deriving DecidableEq

def Operation.run (now : Int) : Operation → MemoryRegistry → Result × MemoryRegistry
  | .registerService info, r => (r.registerService now info).map .answer id
  | .unregisterService name, r => (r.unregisterService name).map .answer id
  | .discover name, r => (r.discover now name).map .found id
  | .listAll, r => (r.listAll now).map .all id
  | .heartbeat name, r => (r.heartbeat now name).map .answer id

/-- An operation of the history, or a call of `cleanup_stale`. -/
inductive Call where
  | operation (op : Operation)
  | cleanupStale

def Call.operation? : Call → Option Operation
  | operation op => some op
  | cleanupStale => none

/-- The results of the operations of a history, each at its reading of the clock. -/
def results : MemoryRegistry → List (Int × Call) → List Result
  | _, [] => []
  | r, (now, .operation op) :: calls =>
    (op.run now r).1 :: results (op.run now r).2 calls
  | r, (now, .cleanupStale) :: calls => results (r.cleanupStale now) calls

end MemoryRegistry

end Song
