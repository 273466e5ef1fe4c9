import Song.Handshake
import Song.Lib.Run

/-!
# The service manager (`manager.hpp`, `manager.cpp`)

The manager keeps its services and, for the local ones that run, the processes
it spawned (`heap`: the objects at their addresses). What an operation meets
outside is an `Outside`: which processes run, what launching an executable or
dialling a host gives and what is then received from it, and what discovery
finds. A function that returns an object by value may move it on the way out;
`returnMoves` is how many times.
-/

namespace Song

variable {κ : Type}

/-! ## The outside -/

/-- A launched executable: its process, its pipes, and what is received from it first. -/
structure Launched where
  pid : Int
  toService : Pipe
  fromService : Pipe
  received : Received

/-- A TCP connection: what is received on it first, and how sends end. -/
structure Dialled where
  transport : TransportPtr
  connected : Bool
  received : Received
  send : Bytes → Option Exn

structure Outside where
  running : Int → Bool
  launch : Str → Except Exn Launched
  dial : Str → UInt16 → Except Exn Dialled
  /-- `discover_one` by name and type, if mDNS is available. -/
  mdns : Option (Str → Str → Except Exn (Option (Str × UInt16)))
  /-- `discover` of a connected registry client; an invalid result is `none`. -/
  registry : Option (Str → Except Exn (Option (Str × UInt16)))
  returnMoves : Nat

/-! ## The manager's state -/

structure ServiceEntry where
  name : Str
  executable : Str
  host : Str
  port : UInt16
  serviceType : Str
  isRemote : Bool
  isDiscoverable : Bool
  version : UInt32
  process : Option ProcPtr
  autoRestart : Bool
  restartCount : Int
  maxRestarts : Int

structure Manager where
  services : List ServiceEntry
  heap : ProcPtr → ServiceProcess
  nextPtr : ProcPtr
  registryHost : Str
  registryPort : UInt16

namespace Manager

def empty : Manager := ⟨[], fun _ => .create (-1) .closed .closed, 0, [], 0⟩

def findService (m : Manager) (name : Str) : Option ServiceEntry :=
  m.services.find? fun entry => entry.name = name

/-- Change the entry that `find_service` finds. -/
def updateFirst (name : Str) (f : ServiceEntry → ServiceEntry) :
    List ServiceEntry → List ServiceEntry
  | [] => []
  | entry :: entries =>
    if entry.name = name then f entry :: entries else entry :: updateFirst name f entries

def hasRegistry (m : Manager) : Bool := !m.registryHost.isEmpty && m.registryPort ≠ 0

end Manager

abbrev Mgr (α : Type) := EStateM Exn Manager α

/-! ## Operations -/

def ServiceProcess.alive (o : Outside) (proc : ServiceProcess) : Bool :=
  if proc.pid ≤ 0 then false else o.running proc.pid

/-- Launch, shake hands, and return by value. -/
def ServiceProcess.spawn (o : Outside) (executable : Str) : Except Exn ServiceProcess :=
  match o.launch executable with
  | .error e => .error e
  | .ok launched =>
    match (initHandshake launched.received).run
        (.create launched.pid launched.toService launched.fromService) with
    | .ok _ proc => .ok (proc.moved o.returnMoves)
    | .error e _ => .error e

namespace ServiceManager

open Manager

def notFound (name : Str) : Exn := .serviceError (lit "Service not found: " ++ name)

def getService (name : Str) : Mgr ServiceEntry := do
  match (← get).findService name with
  | none => throw (notFound name)
  | some entry => return entry

/-- The entry of a local service; `verb` and `hint` make the text of the refusal. -/
def getLocalService (verb hint : Str) (name : Str) : Mgr ServiceEntry := do
  let entry ← getService name
  if entry.isRemote then
    throw (.serviceError (lit "Cannot " ++ verb ++ lit " remote service: " ++ name ++ hint))
  else if entry.isDiscoverable then
    throw (.serviceError (lit "Cannot " ++ verb ++ lit " discoverable service: " ++ name ++ hint))
  else return entry

def modifyService (name : Str) (f : ServiceEntry → ServiceEntry) : Mgr Unit :=
  modify fun m => { m with services := updateFirst name f m.services }

/-- `entry->process = make_unique<ServiceProcess>(spawn(executable))`. -/
def spawnInto (o : Outside) (name executable : Str) : Mgr ProcPtr := fun m =>
  match ServiceProcess.spawn o executable with
  | .error e => .error e m
  | .ok proc => .ok m.nextPtr { m with
      services := updateFirst name (fun entry => { entry with process := some m.nextPtr }) m.services
      heap := fun p => if p = m.nextPtr then proc.moveConstruct.1 else m.heap p
      nextPtr := m.nextPtr + 1 }

/-- `entry->process->terminate()` and `reset()`. -/
def resetProcess (name : Str) : Mgr Unit :=
  modifyService name fun entry => { entry with process := none }

def register (entry : ServiceEntry) : Mgr Unit :=
  modify fun m => { m with services := m.services ++ [entry] }

def checkUnregistered (name : Str) : Mgr Unit := do
  match (← get).findService name with
  | some _ => throw (.serviceError (lit "Service '" ++ name ++ lit "' is already registered"))
  | none => pure ()

def registerService (name executable : Str) (version : UInt32) : Mgr Unit := do
  checkUnregistered name
  register ⟨name, executable, [], 0, [], false, false, version, none, false, 0, 5⟩

def registerRemoteService (name host : Str) (port : UInt16) (version : UInt32) : Mgr Unit := do
  checkUnregistered name
  register ⟨name, [], host, port, [], true, false, version, none, false, 0, 5⟩

/-- No check for a registered name here. -/
def registerDiscoverableService (name serviceType : Str) (version : UInt32) : Mgr Unit :=
  register ⟨name, [], [], 0, serviceType, false, true, version, none, false, 0, 5⟩

/-- The process of an entry, if it is there and alive. -/
def aliveProcess (o : Outside) (entry : ServiceEntry) (m : Manager) : Option ProcPtr :=
  entry.process.filter fun p => (m.heap p).alive o

def start (o : Outside) (name : Str) : Mgr ProcPtr := do
  let entry ← getLocalService (lit "start") (lit " (use connect() instead)") name
  match aliveProcess o entry (← get) with
  | some p => return p
  | none => spawnInto o name entry.executable

def stop (name : Str) : Mgr Unit := do
  let _ ← getLocalService (lit "stop") [] name
  resetProcess name

def restart (o : Outside) (name : Str) : Mgr Unit := do
  let entry ← getLocalService (lit "restart") [] name
  resetProcess name
  let _ ← spawnInto o name entry.executable

def replace (o : Outside) (name newExecutable : Str) : Mgr Unit := do
  let _ ← getLocalService (lit "replace") [] name
  resetProcess name
  modifyService name fun entry => { entry with executable := newExecutable }
  let _ ← spawnInto o name newExecutable

def setAutoRestart (name : Str) (enable : Bool) : Mgr Unit := do
  let _ ← getLocalService (lit "set auto-restart for") [] name
  modifyService name fun entry => { entry with autoRestart := enable }

def setMaxRestarts (name : Str) (maxRestarts : Int) : Mgr Unit := do
  let _ ← getLocalService (lit "set max-restarts for") [] name
  modifyService name fun entry => { entry with maxRestarts }

def resetRestartCount (name : Str) : Mgr Unit := do
  let _ ← getService name
  modifyService name fun entry => { entry with restartCount := 0 }

def setRegistry (host : Str) (port : UInt16) : Mgr Unit :=
  modify fun m => { m with registryHost := host, registryPort := port }

/-- The monitor restarts this service: it should run, does not, and has restarts left. -/
def needsRestart (o : Outside) (m : Manager) (entry : ServiceEntry) : Bool :=
  !entry.isRemote && !entry.isDiscoverable && entry.autoRestart &&
    entry.process.any (fun p => !(m.heap p).alive o) &&
    !(decide (0 < entry.maxRestarts) && decide (entry.maxRestarts ≤ entry.restartCount))

/-- Spawn again what is to be restarted; what a spawn throws resets the process. -/
def restartEach (o : Outside) : List ServiceEntry → Mgr Unit
  | [] => pure ()
  | entry :: entries => do
    Eff.catchIf Exn.isStd (do let _ ← spawnInto o entry.name entry.executable)
      fun _ => resetProcess entry.name
    restartEach o entries

/-- `restart_count++` for each service to be restarted. -/
def countRestarts (o : Outside) (m : Manager) : Manager :=
  { m with
    services := m.services.map fun entry =>
      if needsRestart o m entry then { entry with restartCount := entry.restartCount + 1 }
      else entry }

def checkAndRestart (o : Outside) : Mgr Unit := do
  let m ← get
  modify (countRestarts o)
  restartEach o (m.services.filter (needsRestart o m))

/-! ## Connecting -/

/-- A connection over TCP, after its handshake. -/
def connectTcp (o : Outside) (host : Str) (port : UInt16) : Mgr (ServiceConnection κ) := do
  let tcp ← MonadExcept.ofExcept (o.dial host port)
  match (ServiceConnection.initHandshake tcp.connected tcp.received tcp.send).run
      (.ofTransport tcp.transport) with
  | .ok _ conn => return (fun other => (ServiceConnection.moveConstruct other).1)^[o.returnMoves] conn
  | .error e _ => throw e

def discoverOne (o : Outside) (name serviceType : Str) : Mgr (Option (Str × UInt16)) :=
  match o.mdns with
  | some discover => MonadExcept.ofExcept (discover name serviceType)
  | none => pure none

def discoverRegistry (o : Outside) (name : Str) : Mgr (Option (Str × UInt16)) :=
  match o.registry with
  | some discover => MonadExcept.ofExcept (discover name)
  | none => pure none

/-- Where a discoverable service is: mDNS first, then the registry. -/
def locate (o : Outside) (name serviceType : Str) : Mgr (Str × UInt16) := do
  let found ← discoverOne o name serviceType
  let place : Str × UInt16 := found.getD ([], 0)
  if place.2 = 0 ∧ (← get).hasRegistry = true then
    return (← discoverRegistry o name).getD place
  else return place

def connect (o : Outside) (name : Str) : Mgr (ServiceConnection κ) := do
  let entry ← getService name
  if entry.isRemote then connectTcp o entry.host entry.port
  else if entry.isDiscoverable then
    let place ← locate o name entry.serviceType
    if place.2 = 0 then
      if o.mdns.isNone ∧ (← get).hasRegistry = false then
        throw (.serviceError
          (lit "Service discovery not available: no mDNS and no registry configured"))
      else throw (notFound name)
    else connectTcp o place.1 place.2
  else
    match aliveProcess o entry (← get) with
    | some p => return .ofProcess p
    | none =>
      let p ← spawnInto o name entry.executable
      return .ofProcess p

/-! ## Runs of a manager -/

inductive Operation where
  | registerService (name executable : Str) (version : UInt32)
  | registerRemoteService (name host : Str) (port : UInt16) (version : UInt32)
  | registerDiscoverableService (name serviceType : Str) (version : UInt32)
  | start (name : Str)
  | stop (name : Str)
  | restart (name : Str)
  | replace (name newExecutable : Str)
  | setAutoRestart (name : Str) (enable : Bool)
  | setMaxRestarts (name : Str) (maxRestarts : Int)
  | resetRestartCount (name : Str)
  | setRegistry (host : Str) (port : UInt16)
  | checkAndRestart
  | connect (name : Str)

/-- An operation, its result dropped. -/
def Operation.run (o : Outside) : Operation → Mgr Unit
  | .registerService name executable version =>
    ServiceManager.registerService name executable version
  | .registerRemoteService name host port version =>
    ServiceManager.registerRemoteService name host port version
  | .registerDiscoverableService name serviceType version =>
    ServiceManager.registerDiscoverableService name serviceType version
  | .start name => do let _ ← ServiceManager.start o name
  | .stop name => ServiceManager.stop name
  | .restart name => ServiceManager.restart o name
  | .replace name newExecutable => ServiceManager.replace o name newExecutable
  | .setAutoRestart name enable => ServiceManager.setAutoRestart name enable
  | .setMaxRestarts name maxRestarts => ServiceManager.setMaxRestarts name maxRestarts
  | .resetRestartCount name => ServiceManager.resetRestartCount name
  | .setRegistry host port => ServiceManager.setRegistry host port
  | .checkAndRestart => ServiceManager.checkAndRestart o
  | .connect name => do let _ ← (ServiceManager.connect o name : Mgr (ServiceConnection Unit))

/-- An operation changes the manager also when it throws. -/
def step (m : Manager) (l : Outside × Operation) : Option Manager :=
  some (Eff.after (l.2.run l.1) m)

end ServiceManager

end Song
