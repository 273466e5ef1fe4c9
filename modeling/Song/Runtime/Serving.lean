import Song.Runtime.Message

/-!
# The serving loops (`runtime.cpp`: `run_tcp`, `run_tcp_discoverable`, `run_tcp_multi`)

A loop takes the outcomes of `accept` one after the other. Each connection has the
outcome of the transport wrapper and, when it has a transport, a client: the
messages its `receive` returns and how they end. `run_tcp_multi` gives each client
a thread, and the steps of the threads come between those of the loop in any order
(`Turn`). The three put their `try` around different steps: `serving_iff` says which
failures make an exception leave which loop.
-/

namespace Song

variable {σ ω : Type} (env : Env σ ω)

/-- A client on its wrapped transport. -/
structure Client where
  transport : TransportPtr
  msgs : List Bytes
  /-- The exception its last `receive` throws; with none it returns `false`. -/
  last : Option Exn

/-- How a call of `TcpListener::accept` ends, and then the wrapper. -/
inductive Accepted where
  | connection (wrapped : Except Exn Client)
  /-- A null pointer. -/
  | timeout
  | failed (e : Exn)

/-- `try { wrap_transport; client_loop } catch (...) {}`. -/
def serveClient (wrapped : Except Exn Client) : Srv σ ω Unit :=
  quietly do
    let client ← ofExcept wrapped
    clientLoop env client.transport client.msgs client.last

/-- `run_tcp`; at the end of the list it waits in `accept`. -/
def runTcp : List Accepted → Srv σ ω Unit
  | [] => pure ()
  | .failed e :: _ => throw e
  | .timeout :: rest => runTcp rest
  | .connection wrapped :: rest => do
    serveClient env wrapped
    runTcp rest

/-- The loop of `run_tcp_discoverable`, with what it finds in the stop flag in front of each
`accept`: whether it still serves. -/
def runTcpDiscoverable : List (Bool × Accepted) → Srv σ ω Bool
  | [] => return true
  | (true, _) :: _ => return false
  | (false, .failed _) :: rest => runTcpDiscoverable rest
  | (false, .timeout) :: rest => runTcpDiscoverable rest
  | (false, .connection wrapped) :: rest => do
    serveClient env wrapped
    runTcpDiscoverable rest

/-! ## A thread for each client -/

/-- A thread of `run_tcp_multi`: its client and the locals of its `client_loop`. -/
structure ClientThread where
  client : Client
  /-- The init confirmation has been sent. -/
  started : Bool
  tracked : IdSet
  subscriptions : Finset SubscriptionKey
  cleanedUp : List Int32

def ClientThread.create (client : Client) : ClientThread := ⟨client, false, .empty, ∅, []⟩

/-- The runtime and the threads that have not ended. -/
structure Multi (σ ω : Type) where
  rt : Rt σ ω
  threads : List ClientThread

/-- What `client_loop` does next in a thread; none when it has returned. -/
def threadStep (t : ClientThread) : Srv σ ω (Option ClientThread) := do
  modify fun s => { s with
    tracked := t.tracked, subscriptions := t.subscriptions, cleanedUp := t.cleanedUp }
  if !t.started then
    sendInitConfirmationTransport env t.client.transport
    return some { t with started := true }
  else
    match t.client.msgs, t.client.last with
    | [], none => do
      disconnect t.client.transport
      return none
    | [], some e => throw e
    | msg :: msgs, _ => do
      match ← clientStep env msg t.client.transport with
      | .leave => return none
      | .stay =>
        let s ← get
        return some { t with
          client := { t.client with msgs := msgs }
          tracked := s.tracked, subscriptions := s.subscriptions, cleanedUp := s.cleanedUp }

/-- A step of thread `i` under the `catch (...)` of its function. -/
def runThread (i : Nat) : EStateM Exn (Multi σ ω) Unit := fun m =>
  match m.threads[i]? with
  | none => .ok () m
  | some t =>
    match (threadStep env t).run m.rt with
    | .ok (some t') rt => .ok () ⟨rt, m.threads.set i t'⟩
    | .ok none rt => .ok () ⟨rt, m.threads.eraseIdx i⟩
    | .error _ rt => .ok () ⟨rt, m.threads.eraseIdx i⟩

/-- What happens next: an `accept` of the loop ends, or a thread takes a step. -/
inductive Turn where
  | accept (accepted : Accepted)
  | thread (i : Nat)

/-- `run_tcp_multi`; the wrapper runs in the loop itself. -/
def runTcpMulti : List Turn → EStateM Exn (Multi σ ω) Unit
  | [] => pure ()
  | .accept (.failed e) :: _ => throw e
  | .accept .timeout :: rest => runTcpMulti rest
  | .accept (.connection (.error e)) :: _ => throw e
  | .accept (.connection (.ok client)) :: rest => do
    modify fun m => { m with threads := m.threads ++ [.create client] }
    runTcpMulti rest
  | .thread i :: rest => do
    runThread env i
    runTcpMulti rest

/-! ## Which failures leave the loops -/

/-- `accept` threw. -/
def Accepted.Failed : Accepted → Prop
  | failed _ => True
  | connection _ | timeout => False

/-- `accept` or the wrapper threw. -/
def Turn.Failed : Turn → Prop
  | accept (.failed _) | accept (.connection (.error _)) => True
  | accept .timeout | accept (.connection (.ok _)) | thread _ => False

variable {env}

theorem returns_bind_quietly {x : Srv σ ω Unit} {k : Srv σ ω Unit} {s : Rt σ ω} :
    Eff.Returns (do quietly x; k) s ↔ Eff.Returns k (Eff.after x s) := by
  rw [Eff.Returns.bind_iff]
  exact ⟨fun h => h.ok (quietly_run x s), fun h => Eff.Ends.of_ok (quietly_run x s) h⟩

theorem returns_runTcp (as : List Accepted) (s : Rt σ ω) :
    Eff.Returns (runTcp env as) s ↔ ∀ a ∈ as, ¬ a.Failed := by
  induction as generalizing s with
  | nil => exact ⟨fun _ a ha => (by cases ha), fun _ => .of_ok rfl⟩
  | cons a as ih =>
    rw [List.forall_mem_cons]
    cases a with
    | failed e =>
      exact ⟨fun h => absurd h (Eff.Returns.not_of_error rfl), fun h => absurd trivial h.1⟩
    | timeout => exact (ih s).trans ⟨fun h => ⟨id, h⟩, fun h => h.2⟩
    | connection wrapped =>
      rw [runTcp, serveClient, returns_bind_quietly, ih]
      exact ⟨fun h => ⟨id, h⟩, fun h => h.2⟩

/-- Until the stop flag is set the discoverable loop serves on. -/
theorem runTcpDiscoverable_run (turns : List (Bool × Accepted)) (s : Rt σ ω) :
    ∃ s', (runTcpDiscoverable env turns).run s = .ok (turns.all fun t => !t.1) s' := by
  induction turns generalizing s with
  | nil => exact ⟨s, rfl⟩
  | cons t turns ih =>
    obtain ⟨stop, accepted⟩ := t
    cases stop with
    | true => exact ⟨s, rfl⟩
    | false =>
      cases accepted with
      | failed e => exact ih s
      | timeout => exact ih s
      | connection wrapped =>
        obtain ⟨s', hs'⟩ := ih (Eff.after (do
          let client ← ofExcept wrapped
          clientLoop env client.transport client.msgs client.last) s)
        exact ⟨s', (Eff.run_bind_ok (quietly_run _ s)).trans hs'⟩

theorem runThread_run (env : Env σ ω) (i : Nat) (m : Multi σ ω) :
    ∃ m', (runThread env i).run m = .ok () m' := by
  simp only [EStateM.run, runThread]
  cases m.threads[i]? with
  | none => exact ⟨m, rfl⟩
  | some t =>
    simp only
    cases threadStep env t m.rt with
    | ok next rt =>
      cases next with
      | none => exact ⟨_, rfl⟩
      | some t' => exact ⟨_, rfl⟩
    | error e rt => exact ⟨_, rfl⟩

theorem returns_runTcpMulti (turns : List Turn) (m : Multi σ ω) :
    Eff.Returns (runTcpMulti env turns) m ↔ ∀ t ∈ turns, ¬ t.Failed := by
  induction turns generalizing m with
  | nil => exact ⟨fun _ a ha => (by cases ha), fun _ => .of_ok rfl⟩
  | cons t turns ih =>
    rw [List.forall_mem_cons]
    cases t with
    | thread i =>
      obtain ⟨m', hm'⟩ := runThread_run env i m
      rw [runTcpMulti, Eff.Returns.bind_iff]
      refine Iff.trans ⟨fun h => h.ok hm', fun h => Eff.Ends.of_ok hm' h⟩ ((ih m').trans ?_)
      exact ⟨fun h => ⟨id, h⟩, fun h => h.2⟩
    | accept accepted =>
      cases accepted with
      | failed e =>
        exact ⟨fun h => absurd h (Eff.Returns.not_of_error rfl), fun h => absurd trivial h.1⟩
      | timeout => exact (ih m).trans ⟨fun h => ⟨id, h⟩, fun h => h.2⟩
      | connection wrapped =>
        cases wrapped with
        | error e =>
          exact ⟨fun h => absurd h (Eff.Returns.not_of_error rfl), fun h => absurd trivial h.1⟩
        | ok client =>
          rw [runTcpMulti, Eff.Returns.bind_iff]
          exact (ih _).trans ⟨fun h => ⟨id, h⟩, fun h => h.2⟩

/-- What `TcpListener::accept` throws when the client has gone before it is accepted. -/
def acceptAborted : Exn :=
  .serviceError (lit "TcpListener: accept failed: Software caused connection abort")

def handshakeFailed : Exn := .securityError (lit "handshake failed")

end Song
