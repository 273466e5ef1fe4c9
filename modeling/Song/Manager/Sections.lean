import Song.Manager
import Song.Lib.Serial

/-!
# The sections of a manager's operations (`manager.cpp`)

`ServiceManager` locks its mutex for a section of an operation at a time. `stop`,
`restart`, `replace` and `connect` are one section each; `start` and
`check_and_restart` read the entry in one section, spawn with the mutex unlocked and
write back in another. The operations on one local service take their sections and
spawns in any order, and a child may exit between any two of them (`Interleaved.step`);
`Slot.perform` is an operation whose sections nothing comes between.
-/

namespace Song

/-- A `ServiceProcess` in the manager's hands: what it was spawned from, and whether its child
still runs. -/
structure Child where
  executable : Str
  running : Bool
  deriving DecidableEq

/-- The entry of a local service. -/
structure Slot where
  executable : Str
  process : Option Child
  autoRestart : Bool
  restartCount : Int
  maxRestarts : Int
  deriving DecidableEq

inductive SlotOp where
  | start
  | stop
  | restart
  | replace (newExecutable : Str)
  | connect
  | checkAndRestart
  deriving DecidableEq

/-- An operation, and whether its spawn succeeds should it come to one. -/
structure SlotCall where
  op : SlotOp
  spawns : Bool
  deriving DecidableEq

/-- Where an operation is between two sections. -/
inductive Phase where
  | waiting
  /-- Has read the executable that it will spawn. -/
  | spawning (executable : Str)
  | spawned (child : Child)
  /-- The spawn threw into the handler of `check_and_restart`. -/
  | failed
  | done
  deriving DecidableEq

/-! ## Sections -/

namespace Slot

/-- `entry->process && entry->process->alive()`. -/
def alive (slot : Slot) : Bool := slot.process.any (·.running)

/-- The child of the installed process exits. -/
def exited (slot : Slot) : Slot :=
  { slot with process := slot.process.map fun child => { child with running := false } }

/-- `entry->process.reset()`. -/
def reset (slot : Slot) : Slot := { slot with process := none }

/-- `entry->process = std::move(process)`. -/
def install (slot : Slot) (child : Child) : Slot := { slot with process := some child }

/-- `entry->process = make_unique<ServiceProcess>(spawn(entry->executable))`. -/
def spawnInto (slot : Slot) (ok : Bool) : Slot :=
  if ok then slot.install ⟨slot.executable, true⟩ else slot

def needsRestart (slot : Slot) : Bool :=
  slot.autoRestart && slot.process.any (!·.running) &&
    !(decide (0 < slot.maxRestarts) && decide (slot.maxRestarts ≤ slot.restartCount))

/-- The first section of an operation, and where it leaves it. -/
def begin (c : SlotCall) (slot : Slot) : Slot × Phase :=
  match c.op with
  | .start => if slot.alive then (slot, .done) else (slot, .spawning slot.executable)
  | .stop => (slot.reset, .done)
  | .restart => (slot.reset.spawnInto c.spawns, .done)
  | .replace newExecutable =>
    ({ slot.reset with executable := newExecutable }.spawnInto c.spawns, .done)
  | .connect => if slot.alive then (slot, .done) else (slot.spawnInto c.spawns, .done)
  | .checkAndRestart =>
    if slot.needsRestart then
      ({ slot with restartCount := slot.restartCount + 1 }, .spawning slot.executable)
    else (slot, .done)

end Slot

/-- The spawn of `start` or `check_and_restart`; what it throws leaves `start`. -/
def SlotCall.spawn (c : SlotCall) (executable : Str) : Phase :=
  if c.spawns then .spawned ⟨executable, true⟩
  else if c.op = .checkAndRestart then .failed else .done

/-- What an operation does next; none when it has returned. -/
def Slot.advance (c : SlotCall) (slot : Slot) : Phase → Option (Slot × Phase)
  | .waiting => some (slot.begin c)
  | .spawning executable => some (slot, c.spawn executable)
  | .spawned child => some (slot.install child, .done)
  | .failed => some (slot.reset, .done)
  | .done => none

/-- What an operation does from a phase on when nothing comes in between. -/
def Slot.finish (c : SlotCall) (slot : Slot) : Phase → Slot
  | .spawning executable => 
    match c.spawn executable with
    | .spawned child => slot.install child
    | .failed => slot.reset
    | _ => slot
  | .spawned child => slot.install child
  | .failed => slot.reset
  | .waiting | .done => slot

/-- An operation whose sections nothing comes between. -/
def Slot.perform (c : SlotCall) (slot : Slot) : Slot :=
  (slot.begin c).1.finish c (slot.begin c).2

/-- A child may exit at any moment. -/
def Slot.Idle (slot slot' : Slot) : Prop := slot' = slot.exited

/-! ## Interleavings -/

/-- A call of an operation. -/
structure Ongoing where
  call : SlotCall
  phase : Phase
  /-- A `stop` has returned since it began; the code keeps no such record. -/
  stopped : Bool
  deriving DecidableEq

def SlotCall.ongoing (c : SlotCall) : Ongoing := ⟨c, .waiting, false⟩

/-- A service, and the calls of operations on it by any threads. -/
structure Interleaved where
  slot : Slot
  calls : List Ongoing
  deriving DecidableEq

inductive SlotEvent where
  /-- Call `i` takes its next section or spawn. -/
  | acts (i : Nat)
  /-- The child of the installed process exits. -/
  | exits
  /-- The child of a process that call `i` has not installed yet exits. -/
  | exitsEarly (i : Nat)
  deriving DecidableEq

namespace Interleaved

def create (slot : Slot) (calls : List SlotCall) : Interleaved :=
  ⟨slot, calls.map SlotCall.ongoing⟩

/-- What the return of `stop` means for the calls that have begun. -/
def noteStop (o : Ongoing) (calls : List Ongoing) : List Ongoing :=
  if o.call.op = .stop then calls.map fun other => { other with stopped := true } else calls

def step (s : Interleaved) : SlotEvent → Option Interleaved
  | .exits => some { s with slot := s.slot.exited }
  | .exitsEarly i =>
    match s.calls[i]? with
    | some ⟨call, .spawned child, stopped⟩ =>
      some { s with calls := s.calls.set i ⟨call, .spawned { child with running := false }, stopped⟩ }
    | _ => none
  | .acts i =>
    match s.calls[i]? with
    | none => none
    | some o =>
      match s.slot.advance o.call o.phase with
      | none => none
      | some (slot, phase) =>
        let stopped := if o.phase = .waiting then false else o.stopped
        some ⟨slot, (noteStop o s.calls).set i ⟨o.call, phase, stopped⟩⟩

end Interleaved

end Song
