import Mathlib.Data.Finset.Basic
import Song.Subscription
import Song.Object

/-!
# The serving side: plugged-in callbacks, state, sends (`runtime.hpp`)

`Env` is what does not change while a `ServiceRuntime` serves: the registered
dispatchers, stream dispatchers and factories, the virtual functions of the
objects, and how each send and each write on a file descriptor ends. `Rt` is
what changes. `Srv` is a piece of the runtime's code: it runs on `Rt` and may
throw, the effects up to the throw staying.

A callback is a function of the request and of the implementations' own state
`σ`; what it does to the runtime on the way is data it returns (`Ran`): the
notifications it pushed. A stream dispatcher also talks to its `StreamWriter`,
so it is a tree of writer calls that sees how each of them ended (`StreamRun`).
-/

namespace Song

/-- Where a reply goes: a transport, or the descriptor of the pipe path. -/
inductive Port where
  | transport (tp : TransportPtr)
  | fd (n : Int)
  deriving DecidableEq, Repr

/-- One call of `SubscriptionRegistry::notify`. -/
structure Push where
  typeId : UInt32
  objectId : Int32
  propertyId : UInt16
  value : Bytes

/-- One call of `Object::notify_property`. -/
structure Note where
  propertyId : UInt16
  value : Bytes

/-- A callback's run: the state it leaves, what it pushed, its value or exception. -/
structure Ran (τ ν α : Type) where
  state : τ
  pushed : List ν
  out : Except Exn α

def Ran.throw {τ ν α : Type} (s : τ) (e : Exn) : Ran τ ν α := ⟨s, [], .error e⟩

/-- Go on where the first run returned. -/
def Ran.next {τ ν α β : Type} (r : Ran τ ν α) (f : α → τ → Ran τ ν β) : Ran τ ν β :=
  match r.out with
  | .ok a => { f a r.state with pushed := r.pushed ++ (f a r.state).pushed }
  | .error e => { r with out := .error e }

/-- A stream dispatcher's run. `next` is given the exception the writer call threw. -/
inductive StreamRun (σ : Type) where
  | write (chunk : Bytes) (next : Option Exn → StreamRun σ)
  | finish (next : Option Exn → StreamRun σ)
  | push (p : Push) (next : StreamRun σ)
  | returns (user : σ)
  | throws (user : σ) (e : Exn)

structure Env (σ ω : Type) where
  dispatchers : Map UInt16 (UInt16 → Buffer → σ → Ran σ Push Bytes)
  streamDispatchers : Map UInt16 (UInt16 → Buffer → σ → StreamRun σ)
  /-- A factory may return null. -/
  factories : Map UInt32 (UInt16 → Buffer → σ → Ran σ Push (Option ω))
  propGet : UInt16 → ω × σ → Ran (ω × σ) Note Bytes
  propSet : UInt16 → Buffer → ω × σ → Ran (ω × σ) Note Bytes
  dispatch : UInt16 → Buffer → ω × σ → Ran (ω × σ) Note Bytes
  methods : List MethodDescriptor
  localCapabilities : UInt32
  /-- How a `Transport::send` ends, from the number of sends and writes before it. -/
  sendOutcome : TransportPtr → Nat → Option Exn
  /-- Whether a `write_all` gets every byte out. -/
  writeOutcome : Nat → Bool

structure Rt (σ ω : Type) where
  registry : ObjectRegistry ω
  subs : SubscriptionRegistry
  user : σ
  tracked : IdSet
  subscriptions : Finset SubscriptionKey
  /-- The ids `release_connection_objects` has released, in order. -/
  cleanedUp : List Int32
  attempts : Nat
  /-- What was put on each port, in order. -/
  sent : List (Port × Bytes)

/-- A runtime with nothing registered, on a transport whose sends succeed. -/
def bareEnv : Env Unit Unit where
  dispatchers := ∅
  streamDispatchers := ∅
  factories := ∅
  propGet := fun _ s => ⟨s, [], .ok []⟩
  propSet := fun _ _ s => ⟨s, [], .ok []⟩
  dispatch := fun _ _ s => ⟨s, [], .ok []⟩
  methods := []
  localCapabilities := 0
  sendOutcome := fun _ _ => none
  writeOutcome := fun _ => true

def bareRt : Rt Unit Unit := ⟨.empty, ⟨∅⟩, (), .empty, ∅, [], 0, []⟩

abbrev Srv (σ ω α : Type) := EStateM Exn (Rt σ ω) α

variable {σ ω α : Type}

/-- `catch (const std::exception& e)`. -/
def catchStd (x : Srv σ ω α) (handler : Exn → Srv σ ω α) : Srv σ ω α :=
  Eff.catchIf Exn.isStd x handler

/-- `try { x } catch (...) {}`. -/
def quietly (x : Srv σ ω Unit) : Srv σ ω Unit := fun s =>
  match x.run s with
  | .ok _ s' => .ok () s'
  | .error _ s' => .ok () s'

theorem quietly_run (x : Srv σ ω Unit) (s : Rt σ ω) :
    (quietly x).run s = .ok () (Eff.after x s) := by
  unfold quietly Eff.after
  simp only [EStateM.run]
  cases x s with
  | ok _ s' => rfl
  | error _ s' => rfl

def ofExcept (x : Except Exn α) : Srv σ ω α := fun s =>
  match x with
  | .ok a => .ok a s
  | .error e => .error e s

theorem ofExcept_ok_bind {β : Type} (a : α) (f : α → Srv σ ω β) :
    (ofExcept (.ok a) >>= f) = f a := rfl

section
variable (env : Env σ ω)

/-! ## Sends -/

/-- `Transport::send`. -/
def transportSend (tp : TransportPtr) (msg : Bytes) : Srv σ ω Unit := fun s =>
  match env.sendOutcome tp s.attempts with
  | none => .ok () { s with attempts := s.attempts + 1, sent := s.sent ++ [(.transport tp, msg)] }
  | some e => .error e { s with attempts := s.attempts + 1 }

def writeAll (fd : Int) (msg : Bytes) : Srv σ ω Bool := fun s =>
  if env.writeOutcome s.attempts then
    .ok true { s with attempts := s.attempts + 1, sent := s.sent ++ [(.fd fd, msg)] }
  else .ok false { s with attempts := s.attempts + 1 }

/-- A reply: a send on a transport, or a `write_all` whose result is not looked at. -/
def reply (port : Port) (msg : Bytes) : Srv σ ω Unit :=
  match port with
  | .transport tp => transportSend env tp msg
  | .fd n => do
    let _ ← writeAll env n msg
    pure ()

/-- The send loop of `notify`, which swallows what each send throws. -/
def sendEach (msg : Bytes) : List TransportPtr → Srv σ ω Unit
  | [] => pure ()
  | tp :: tps => do
    quietly (transportSend env tp msg)
    sendEach msg tps

/-- `SubscriptionRegistry::notify`. -/
def notify (p : Push) : Srv σ ω Unit := fun s =>
  (sendEach env (createPropertyNotifyMessage p.typeId p.objectId p.propertyId p.value)
    (s.subs.targets p.objectId p.propertyId)).run s

def notifyAll : List Push → Srv σ ω Unit
  | [] => pure ()
  | p :: ps => do
    notify env p
    notifyAll ps

/-- `Object::notify_property`; without a subscription registry nothing reaches a transport. -/
def Obj.push (obj : Obj ω) (note : Note) : Option Push :=
  if obj.subRegistry then some ⟨obj.typeId, obj.objectId, note.propertyId, note.value⟩ else none

/-! ## Callbacks -/

/-- Run a dispatcher or a factory. -/
def runCallback (f : σ → Ran σ Push α) : Srv σ ω α := fun s =>
  let ran := f s.user
  (do
    notifyAll env ran.pushed
    ofExcept ran.out).run { s with user := ran.state }

/-- Run a virtual function of a registered object. -/
def runVirtual (objectId : Int32) (obj : Obj ω) (f : ω × σ → Ran (ω × σ) Note α) :
    Srv σ ω α := fun s =>
  let ran := f (obj.data, s.user)
  (do
    notifyAll env (ran.pushed.filterMap obj.push)
    ofExcept ran.out).run { s with
      registry := s.registry.put objectId { obj with data := ran.state.1 }, user := ran.state.2 }

end

/-! ## What sends and callbacks leave alone -/

/-- Only the sends and the implementations' own state are not as they were. -/
def Aside (s s' : Rt σ ω) : Prop :=
  s' = { s with user := s'.user, attempts := s'.attempts, sent := s'.sent }

namespace Aside

variable {env : Env σ ω}

theorem refl (s : Rt σ ω) : Aside s s := rfl

theorem trans {s s' s'' : Rt σ ω} (h : Aside s s') (h' : Aside s' s'') : Aside s s'' := by
  unfold Aside at h h' ⊢
  rw [h', h]

theorem bind {β : Type} {x : Srv σ ω α} {f : α → Srv σ ω β} (hx : Eff.Within Aside x)
    (hf : ∀ a, Eff.Within Aside (f a)) : Eff.Within Aside (x >>= f) :=
  Eff.Within.bind (fun h h' => h.trans h') hx hf

theorem ofExcept (x : Except Exn α) : Eff.Within Aside (ofExcept x : Srv σ ω α) := by
  cases x with
  | ok a => exact fun _ => rfl
  | error e => exact fun _ => rfl

theorem transportSend (tp : TransportPtr) (msg : Bytes) :
    Eff.Within Aside (transportSend env tp msg) := by
  intro s
  unfold Eff.Ends Song.transportSend
  simp only [EStateM.run]
  cases env.sendOutcome tp s.attempts with
  | none => rfl
  | some e => rfl

theorem writeAll (fd : Int) (msg : Bytes) : Eff.Within Aside (writeAll env fd msg) := by
  intro s
  unfold Eff.Ends Song.writeAll
  simp only [EStateM.run]
  cases env.writeOutcome s.attempts with
  | true => rfl
  | false => rfl

theorem reply (port : Port) (msg : Bytes) : Eff.Within Aside (reply env port msg) := by
  cases port with
  | transport tp => exact transportSend tp msg
  | fd n => exact bind (writeAll n msg) fun _ => .pure refl _

theorem sendEach (msg : Bytes) (tps : List TransportPtr) :
    Eff.Within Aside (sendEach env msg tps) := by
  induction tps with
  | nil => exact .pure refl _
  | cons tp tps ih =>
    refine bind (fun s => ?_) fun _ => ih
    exact .of_ok (quietly_run _ s) ((transportSend tp msg).after s)

theorem notify (p : Push) : Eff.Within Aside (notify env p) :=
  fun s => sendEach _ _ s

theorem notifyAll (ps : List Push) : Eff.Within Aside (notifyAll env ps) := by
  induction ps with
  | nil => exact .pure refl _
  | cons p ps ih => exact bind (notify p) fun _ => ih

theorem runCallback (f : σ → Ran σ Push α) : Eff.Within Aside (runCallback env f) := by
  intro s
  have hs : Aside s { s with user := (f s.user).state } := rfl
  have hn : Eff.Within Aside (Song.notifyAll env (f s.user).pushed) := notifyAll _
  have h := bind hn (fun _ => ofExcept (f s.user).out) { s with user := (f s.user).state }
  exact h.mono (fun _ _ h' => hs.trans h') fun _ _ h' => hs.trans h'

end Aside

end Song
