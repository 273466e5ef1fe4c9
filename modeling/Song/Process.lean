import Song.Handshake
import Song.Lib.Custody

/-!
# Child processes (`process.cpp`, `manager.cpp`)

The `ServiceProcess` objects of a program, the children they were spawned with, and
the entry of a `ServiceManager`. `Surroundings` decides what each fork gives and when each
child exits, counted in system calls, so a child may exit between any two of them.
The log records, for the object that makes a system call, the child that its pid came
from: `used` is a signal, `ended` a `waitpid` that reaped.
-/

namespace Song

/-- What the operating system decides. -/
structure Surroundings where
  /-- The object that `spawn` builds around the `n`-th fork. -/
  launch : Nat → ServiceProcess
  launch_pid : ∀ n, 0 < (launch n).pid
  /-- When the child exits by itself, if ever. -/
  exitsAt : Nat → Option Nat

/-- A `ServiceProcess`, and the fork that its pid comes from. -/
structure ProcessObject where
  proc : ServiceProcess
  child : Nat

structure World where
  /-- System calls made so far. -/
  clock : Nat
  forks : Nat
  /-- The children that have not been reaped. -/
  children : List Nat
  /-- The children that a `SIGKILL` has reached. -/
  killed : List Nat
  objects : ProcPtr → Option ProcessObject
  nextPtr : ProcPtr
  /-- `entry->process`. -/
  entry : Option ProcPtr
  log : List Custody.Entry

inductive Waited where
  | running
  | reaped
  | noChild
  deriving DecidableEq

namespace World

def empty : World := ⟨0, 0, [], [], fun _ => none, 0, none, []⟩

variable (sys : Surroundings)

/-! ## System calls -/

/-- The child with this pid. -/
def findChild (w : World) (pid : Int) : Option Nat :=
  w.children.find? fun n => (sys.launch n).pid = pid

def exited (w : World) (n : Nat) : Bool :=
  w.killed.contains n || (sys.exitsAt n).any fun t => decide (t ≤ w.clock)

/-- `waitpid(pid_, &status, WNOHANG)`. -/
def waitpid (obj : ProcessObject) (w : World) : Waited × World :=
  match w.findChild sys obj.proc.pid with
  | none => (.noChild, { w with clock := w.clock + 1 })
  | some n =>
    if w.exited sys n then
      (.reaped, { w with
        clock := w.clock + 1
        children := w.children.erase n
        log := w.log ++ [.ended obj.child] })
    else (.running, { w with clock := w.clock + 1 })

/-- `kill(pid_, SIGTERM)`. -/
def killTerm (obj : ProcessObject) (w : World) : World :=
  { w with clock := w.clock + 1, log := w.log ++ [.used obj.child] }

/-- `kill(pid_, SIGKILL)`. -/
def killKill (obj : ProcessObject) (w : World) : World :=
  { w with
    clock := w.clock + 1
    killed := (w.findChild sys obj.proc.pid).toList ++ w.killed
    log := w.log ++ [.used obj.child] }

/-- The fork of `spawn`, and the object built around it. -/
def fork (w : World) : World :=
  { w with
    clock := w.clock + 1
    forks := w.forks + 1
    children := w.forks :: w.children
    objects := Function.update w.objects w.nextPtr (some ⟨sys.launch w.forks, w.forks⟩)
    nextPtr := w.nextPtr + 1 }

/-! ## `ServiceProcess` -/

def setObject (p : ProcPtr) (proc : ServiceProcess) (child : Nat) (w : World) : World :=
  { w with objects := Function.update w.objects p (some ⟨proc, child⟩) }

def alive (p : ProcPtr) (w : World) : Bool × World :=
  match w.objects p with
  | none => (false, w)
  | some obj =>
    if obj.proc.pid ≤ 0 then (false, w)
    else
      match w.waitpid sys obj with
      | (.running, w) => (true, w)
      | (.reaped, w) | (.noChild, w) => (false, w)

def available (p : ProcPtr) (w : World) : Bool × World :=
  match w.objects p with
  | none => (false, w)
  | some obj =>
    if !obj.proc.reusable || decide (obj.proc.pid ≤ 0) then (false, w) else w.alive sys p

def setReusable (p : ProcPtr) (r : Bool) (w : World) : World :=
  match w.objects p with
  | none => w
  | some obj => w.setObject p { obj.proc with reusable := r } obj.child

/-- The loop of `terminate`: whether one of the next `n` calls of `waitpid` reaps the child. -/
def waitExit (obj : ProcessObject) : Nat → World → Bool × World
  | 0, w => (false, w)
  | n + 1, w =>
    match w.waitpid sys obj with
    | (.reaped, w) => (true, w)
    | (.running, w) | (.noChild, w) => waitExit obj n w

def terminate (p : ProcPtr) (w : World) : World :=
  match w.objects p with
  | none => w
  | some obj =>
    if obj.proc.pid ≤ 0 then w
    else
      match waitExit sys obj 10 (w.killTerm obj) with
      | (true, w) => w.setObject p { obj.proc with pid := -1 } obj.child
      | (false, w) =>
        ((w.killKill sys obj).waitpid sys obj).2.setObject p { obj.proc with pid := -1 } obj.child

/-- The destructor. -/
def destroy (p : ProcPtr) (w : World) : World :=
  let w := w.terminate sys p
  { w with objects := Function.update w.objects p none }

/-- The move constructor, into a new object. -/
def moveConstruct (p : ProcPtr) (w : World) : World :=
  match w.objects p with
  | none => w
  | some other =>
    ({ w with nextPtr := w.nextPtr + 1 }.setObject p other.proc.moveConstruct.2
      other.child).setObject w.nextPtr other.proc.moveConstruct.1 other.child

/-- The move assignment, from `q` to `p`. -/
def moveAssign (p q : ProcPtr) (w : World) : World :=
  if p = q then w
  else
    match w.objects p, w.objects q with
    | some this, some other =>
      ((w.terminate sys p).setObject q (this.proc.moveAssign other.proc).2 other.child).setObject p
        (this.proc.moveAssign other.proc).1 other.child
    | _, _ => w

/-- When the handshake throws, the object is destroyed. -/
def spawn (ok : Bool) (w : World) : Option ProcPtr × World :=
  if ok then (some w.nextPtr, w.fork sys) else (none, (w.fork sys).destroy sys w.nextPtr)

/-! ## The entry of a manager -/

/-- `entry->process = std::move(process)`: what the entry held is destroyed. -/
def install (p : ProcPtr) (w : World) : World :=
  match w.entry with
  | none => { w with entry := some p }
  | some q => { w with entry := some p }.destroy sys q

/-- `entry->process.reset()`. -/
def reset (w : World) : World :=
  match w.entry with
  | none => w
  | some q => { w with entry := none }.destroy sys q

def spawnInto (ok : Bool) (w : World) : World :=
  match w.spawn sys ok with
  | (some p, w) => w.install sys p
  | (none, w) => w

def start (ok : Bool) (w : World) : World :=
  match w.entry with
  | none => w.spawnInto sys ok
  | some p =>
    match w.alive sys p with
    | (true, w) => w
    | (false, w) => w.spawnInto sys ok

def stop (w : World) : World :=
  match w.entry with
  | none => w
  | some p => (w.terminate sys p).reset sys

def restart (ok : Bool) (w : World) : World := (w.stop sys).spawnInto sys ok

/-- The executable that changes is part of the surroundings. -/
def replace (ok : Bool) (w : World) : World := (w.stop sys).spawnInto sys ok

def connect (ok : Bool) (w : World) : World :=
  match w.entry with
  | none => w.spawnInto sys ok
  | some p =>
    match w.alive sys p with
    | (true, w) => w
    | (false, w) => w.spawnInto sys ok

def isAlive (w : World) : Bool × World :=
  match w.entry with
  | none => (false, w)
  | some p => w.alive sys p

/-- With what the entry says of restarts: whether it is to be restarted, and whether no restart
is left. -/
def checkAndRestart (autoRestart exhausted ok : Bool) (w : World) : World :=
  if !autoRestart then w
  else
    match w.entry with
    | none => w
    | some p =>
      match w.alive sys p with
      | (true, w) => w
      | (false, w) =>
        if exhausted then w
        else
          match w.spawn sys ok with
          | (some q, w) => w.install sys q
          | (none, w) => w.reset sys

/-- The manager's destructor, and then its members'. -/
def destroyManager (w : World) : World :=
  match w.entry with
  | none => w
  | some p => (w.terminate sys p).reset sys

/-! ## Runs -/

inductive Operation where
  | spawn (ok : Bool)
  | alive (p : ProcPtr)
  | available (p : ProcPtr)
  | setReusable (p : ProcPtr) (r : Bool)
  | terminate (p : ProcPtr)
  | moveConstruct (p : ProcPtr)
  | moveAssign (p q : ProcPtr)
  | destroy (p : ProcPtr)
  | start (ok : Bool)
  | stop
  | restart (ok : Bool)
  | replace (ok : Bool)
  | connect (ok : Bool)
  | isAlive
  | checkAndRestart (autoRestart exhausted ok : Bool)
  | destroyManager
  deriving DecidableEq

def perform : Operation → World → World
  | .spawn ok, w => (w.spawn sys ok).2
  | .alive p, w => (w.alive sys p).2
  | .available p, w => (w.available sys p).2
  | .setReusable p r, w => w.setReusable p r
  | .terminate p, w => w.terminate sys p
  | .moveConstruct p, w => w.moveConstruct p
  | .moveAssign p q, w => w.moveAssign sys p q
  | .destroy p, w => w.destroy sys p
  | .start ok, w => w.start sys ok
  | .stop, w => w.stop sys
  | .restart ok, w => w.restart sys ok
  | .replace ok, w => w.replace sys ok
  | .connect ok, w => w.connect sys ok
  | .isAlive, w => (w.isAlive sys).2
  | .checkAndRestart autoRestart exhausted ok, w => w.checkAndRestart sys autoRestart exhausted ok
  | .destroyManager, w => w.destroyManager sys

/-- Nobody but the entry destroys the object it owns. -/
def step (w : World) (op : Operation) : Option World :=
  match op with
  | .destroy p => if w.entry = some p then none else some (w.destroy sys p)
  | op => some (w.perform sys op)

end World

end Song
