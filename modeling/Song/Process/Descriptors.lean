import Song.Lib.Holdings
import Song.Error

/-!
# File descriptors (`pipe.cpp`, `transport.cpp`, `tls.cpp`, `process.cpp`)

Pipes, transports, listeners and service processes hold file descriptors, -1 standing for none.
What they ask of the kernel fails now and then, and an exception destroys what it leaves behind.
For each function there is what its objects hold before and after it, exceptions included.
-/

namespace Song.Descriptors

open Holdings (Store Open Turns Sure onThrow)

abbrev Sys (α : Type) := EStateM Exn (Store Nat) α

/-- The number of a new descriptor: the lowest that is free. -/
def lowest (opened : List Nat) : Nat :=
  ((List.range (opened.length + 1)).find? fun n => n ∉ opened).getD 0

def openFd : Sys Int := do
  let fd ← Holdings.openNew lowest
  return fd

/-- `if (fd >= 0) { ::close(fd); … }` -/
def closeFd (fd : Int) : Sys Unit := if 0 ≤ fd then Holdings.close fd.toNat else pure ()

/-- `… fd = -1;` -/
def closed (fd : Int) : Int := if 0 ≤ fd then -1 else fd

/-- The descriptor that is held, if it is one. -/
def held (fd : Int) : List Nat := if 0 ≤ fd then [fd.toNat] else []

/-! ## Pipes -/

structure Pipe where
  readFd : Int
  writeFd : Int

namespace Pipe

/-- A default one, or one that was moved from. -/
def none : Pipe := ⟨-1, -1⟩

def fds (p : Pipe) : List Nat := held p.readFd ++ held p.writeFd

/-- `close_read`: the call, and the pipe after it. -/
def closeRead (p : Pipe) : Sys Unit := closeFd p.readFd

def readClosed (p : Pipe) : Pipe := { p with readFd := Descriptors.closed p.readFd }

def closeWrite (p : Pipe) : Sys Unit := closeFd p.writeFd

def writeClosed (p : Pipe) : Pipe := { p with writeFd := Descriptors.closed p.writeFd }

def close (p : Pipe) : Sys Unit := do
  p.closeRead
  p.readClosed.closeWrite

def closed (p : Pipe) : Pipe := p.readClosed.writeClosed

/-- The destructor. -/
def destroy (p : Pipe) : Sys Unit := p.close

/-- `operator=`: this pipe and the other one after it. -/
def moveAssign (p other : Pipe) : Sys (Pipe × Pipe) := do
  p.close
  return (other, none)

/-- `operator=` of what has two pipes: they and the other's after it. -/
def moveBoth (p other : Pipe × Pipe) : Sys ((Pipe × Pipe) × (Pipe × Pipe)) := do
  let fst ← p.1.moveAssign other.1
  let snd ← p.2.moveAssign other.2
  return ((fst.1, snd.1), (fst.2, snd.2))

/-- The destructor of what has two pipes: the members, in reverse. -/
def destroyBoth (p : Pipe × Pipe) : Sys Unit := do
  p.2.destroy
  p.1.destroy

def createPair (fails : Bool) : Sys (Pipe × Pipe) := do
  if fails then throw (.runtimeError (lit "Failed to create pipe"))
  else
    let read ← openFd
    let write ← openFd
    return (⟨read, -1⟩, ⟨-1, write⟩)

end Pipe

structure PipeTransport where
  toPeer : Pipe
  fromPeer : Pipe

namespace PipeTransport

def fds (t : PipeTransport) : List Nat := t.toPeer.fds ++ t.fromPeer.fds

def moveAssign (t other : PipeTransport) : Sys (PipeTransport × PipeTransport) := do
  let r ← Pipe.moveBoth (t.toPeer, t.fromPeer) (other.toPeer, other.fromPeer)
  return (⟨r.1.1, r.1.2⟩, ⟨r.2.1, r.2.2⟩)

def close (t : PipeTransport) : Sys Unit := do
  t.toPeer.close
  t.fromPeer.close

def closed (t : PipeTransport) : PipeTransport := ⟨t.toPeer.closed, t.fromPeer.closed⟩

def destroy (t : PipeTransport) : Sys Unit := Pipe.destroyBoth (t.toPeer, t.fromPeer)

end PipeTransport

/-! ## Sockets -/

structure TcpTransport where
  sock : Int
  peerAddr : Str
  peerPort : UInt16

/-- How `connect` ends, with the text of the error where there is one. -/
inductive ConnectEnd where
  | unresolved (err : Str)
  | noSocket (err : Str)
  | timedOut
  | pollFailed (err : Str)
  | noOption (err : Str)
  | failed (err : Str)
  | connected

namespace TcpTransport

def none : TcpTransport := ⟨-1, [], 0⟩

def fds (t : TcpTransport) : List Nat := held t.sock

def close (t : TcpTransport) : Sys Unit := closeFd t.sock

def closed (t : TcpTransport) : TcpTransport := ⟨Descriptors.closed t.sock, [], 0⟩

def destroy (t : TcpTransport) : Sys Unit := t.close

/-- What was moved from keeps its address, which is unspecified. -/
def moveAssign (t other : TcpTransport) : Sys (TcpTransport × TcpTransport) := do
  t.close
  return (other, { other with sock := -1, peerPort := 0 })

/-- The text of what goes wrong with an open socket. -/
def connectFailure (host : Str) (port : UInt16) : ConnectEnd → Option Str
  | .timedOut => some (lit "TcpTransport: connection timeout to " ++ host ++ lit ":" ++
      toStr port.toNat)
  | .pollFailed err => some (lit "TcpTransport: poll failed: " ++ err)
  | .noOption err => some (lit "TcpTransport: getsockopt failed: " ++ err)
  | .failed err => some (lit "TcpTransport: connection failed to " ++ host ++ lit ":" ++
      toStr port.toNat ++ lit ": " ++ err)
  | _ => .none

/-- From the socket on. -/
def connectSocket (host : Str) (port : UInt16) (failure : Option Str) :
    Sys (TcpTransport × Except Exn Unit) := do
  let sock ← openFd
  match failure with
  | some text =>
    close ⟨sock, [], 0⟩
    return (closed ⟨sock, [], 0⟩, .error (.serviceError text))
  | .none => return (⟨sock, host, port⟩, .ok ())

/-- `connect`: the transport after it, and what it throws. -/
def connect (t : TcpTransport) (host : Str) (port : UInt16) (how : ConnectEnd) :
    Sys (TcpTransport × Except Exn Unit) := do
  t.close
  match how with
  | .unresolved err =>
    return (t.closed, .error (.serviceError (lit "TcpTransport: failed to resolve host '" ++
      host ++ lit "': " ++ err)))
  | .noSocket err =>
    return ({ t.closed with sock := -1 },
      .error (.serviceError (lit "TcpTransport: failed to create socket: " ++ err)))
  | how => connectSocket host port (connectFailure host port how)

end TcpTransport

structure TcpListener where
  sock : Int
  port : UInt16

inductive ListenEnd where
  | noSocket (err : Str)
  | badAddress
  | notBound (err : Str)
  | noName (err : Str)
  | notListening (err : Str)
  /-- With the port that the kernel gave, where none was asked for. -/
  | listening (given : UInt16)

inductive AcceptEnd where
  | timedOut
  | pollFailed (err : Str)
  | failed (err : Str)
  | accepted (peerAddr : Str) (peerPort : UInt16)

namespace TcpListener

def none : TcpListener := ⟨-1, 0⟩

def fds (l : TcpListener) : List Nat := held l.sock

def close (l : TcpListener) : Sys Unit := closeFd l.sock

def closed (l : TcpListener) : TcpListener := ⟨Descriptors.closed l.sock, 0⟩

def destroy (l : TcpListener) : Sys Unit := l.close

def moveAssign (l other : TcpListener) : Sys (TcpListener × TcpListener) := do
  l.close
  return (other, none)

def listenFailure (port : UInt16) (bindAddress : Str) : ListenEnd → Option Str
  | .badAddress => some (lit "TcpListener: invalid bind address '" ++ bindAddress ++ lit "'")
  | .notBound err => some (lit "TcpListener: failed to bind to port " ++ toStr port.toNat ++
      lit ": " ++ err)
  | .noName err => some (lit "TcpListener: getsockname failed: " ++ err)
  | .notListening err => some (lit "TcpListener: failed to listen: " ++ err)
  | _ => .none

/-- What `getsockname` tells. -/
def given : ListenEnd → UInt16
  | .listening port => port
  | _ => 0

/-- From the socket on. -/
def listenSocket (port : UInt16) (failure : Option Str) :
    Sys (TcpListener × Except Exn Unit) := do
  let sock ← openFd
  match failure with
  | some text =>
    close ⟨sock, 0⟩
    return (closed ⟨sock, 0⟩, .error (.serviceError text))
  | .none => return (⟨sock, port⟩, .ok ())

def listen (l : TcpListener) (port : UInt16) (bindAddress : Str) (how : ListenEnd) :
    Sys (TcpListener × Except Exn Unit) := do
  l.close
  match how with
  | .noSocket err =>
    return ({ l.closed with sock := -1 },
      .error (.serviceError (lit "TcpListener: failed to create socket: " ++ err)))
  | how =>
    listenSocket (if port = 0 then given how else port) (listenFailure port bindAddress how)

/-- The transport of the connection, or nothing after a timeout. -/
def accept (l : TcpListener) (how : AcceptEnd) : Sys (Option TcpTransport) := do
  if l.sock < 0 then throw (.serviceError (lit "TcpListener: not listening"))
  else
    match how with
    | .timedOut => return .none
    | .pollFailed err => throw (.serviceError (lit "TcpListener: poll failed: " ++ err))
    | .failed err => throw (.serviceError (lit "TcpListener: accept failed: " ++ err))
    | .accepted peerAddr peerPort =>
      let sock ← openFd
      return some ⟨sock, peerAddr, peerPort⟩

end TcpListener

/-- A TLS transport; without its `Impl`, after a move, it has no socket. -/
structure TlsTransport where
  sock : Int

namespace TlsTransport

def none : TlsTransport := ⟨-1⟩

def fds (t : TlsTransport) : List Nat := held t.sock

def close (t : TlsTransport) : Sys Unit := closeFd t.sock

def closed (t : TlsTransport) : TlsTransport := ⟨Descriptors.closed t.sock⟩

/-- The destructor of `Impl`. -/
def destroy (t : TlsTransport) : Sys Unit := closeFd t.sock

def moveAssign (t other : TlsTransport) : Sys (TlsTransport × TlsTransport) := do
  t.destroy
  return (other, none)

/-- From a socket; if that goes wrong the socket is closed. -/
def ofSocket (sock : Int) (failure : Option Str) : Sys TlsTransport :=
  match failure with
  | .none => return ⟨sock⟩
  | some text => do
    closeFd sock
    throw (.securityError text)

end TlsTransport

/-- How `TlsListener::accept` goes on behind the listener's own `accept`. -/
structure TlsAccept where
  /-- `dup` fails. -/
  notDuplicated : Option Str
  notConfigured : Option Str
  notShaken : Option Str

/-- It is not moved. -/
structure TlsListener where
  inner : TcpListener
  /-- Whether `config_` is set. -/
  configured : Bool

namespace TlsListener

def none : TlsListener := ⟨.none, false⟩

def fds (l : TlsListener) : List Nat := l.inner.fds

def close (l : TlsListener) : Sys Unit := l.inner.close

def closed (l : TlsListener) : TlsListener := ⟨l.inner.closed, false⟩

def destroy (l : TlsListener) : Sys Unit := l.close

/-- The configuration is set also where `listen` of the inner listener throws. -/
def listen (l : TlsListener) (port : UInt16) (how : ListenEnd) :
    Sys (TlsListener × Except Exn Unit) := do
  let r ← l.inner.listen port [] how
  return (⟨r.1, true⟩, r.2)

/-- The socket goes from a TCP to a TLS transport. -/
def accept (l : TlsListener) (how : AcceptEnd) (next : TlsAccept) : Sys (Option TlsTransport) := do
  if l.configured then
    match ← l.inner.accept how with
    | .none => return .none
    | some tcp =>
      match next.notDuplicated with
      | some err =>
        tcp.destroy
        throw (.serviceError (lit "TlsListener: dup() failed: " ++ err))
      | .none =>
        let sock ← openFd
        tcp.close
        let tls ← TlsTransport.ofSocket sock next.notConfigured
        match next.notShaken with
        | some text =>
          tls.destroy
          throw (.securityError text)
        | .none => return some tls
  else throw (.serviceError (lit "TlsListener: not configured"))

end TlsListener

/-! ## Service processes -/

/-- A service process, of which the pipes count here. -/
structure ServiceProcess where
  toService : Pipe
  fromService : Pipe

inductive SpawnEnd where
  | noFirstPipe
  | noSecondPipe
  | noFork
  /-- `init_handshake` throws. -/
  | noHandshake (e : Exn)
  | spawned

namespace ServiceProcess

def fds (p : ServiceProcess) : List Nat := p.toService.fds ++ p.fromService.fds

def destroy (p : ServiceProcess) : Sys Unit := Pipe.destroyBoth (p.toService, p.fromService)

def moveAssign (p other : ServiceProcess) : Sys (ServiceProcess × ServiceProcess) := do
  let r ← Pipe.moveBoth (p.toService, p.fromService) (other.toService, other.fromService)
  return (⟨r.1.1, r.1.2⟩, ⟨r.2.1, r.2.2⟩)

/-- What the parent does; a pipe that was closed or moved from has nothing left to destroy. -/
def spawn (how : SpawnEnd) : Sys ServiceProcess := do
  let first ← Pipe.createPair (how matches .noFirstPipe)
  let second ← onThrow (Pipe.createPair (how matches .noSecondPipe)) (Pipe.destroyBoth first)
  match how with
  | .noFork =>
    Pipe.destroyBoth second
    Pipe.destroyBoth first
    throw (.serviceError (lit "Failed to fork service process"))
  | _ =>
    second.1.close
    first.2.close
    let proc : ServiceProcess := ⟨second.2, first.1⟩
    match how with
    | .noHandshake e =>
      proc.destroy
      throw e
    | _ => return proc

end ServiceProcess

/-! ## Who holds what -/

theorem lowest_free (l : List Nat) : lowest l ∉ l := by
  obtain ⟨n, hn, hl⟩ : ∃ n ∈ List.range (l.length + 1), n ∉ l := by
    by_contra hno
    have hsub : List.range (l.length + 1) ⊆ l := fun n hn => by
      by_contra hl
      exact hno ⟨n, hn, hl⟩
    have hle := (List.subperm_of_subset List.nodup_range hsub).length_le
    rw [List.length_range] at hle
    omega
  unfold lowest
  cases h : (List.range (l.length + 1)).find? fun n => n ∉ l with
  | none => exact absurd (List.find?_eq_none.mp h n hn) (by simpa using hl)
  | some m => simpa using List.find?_some h

@[simp] theorem held_natCast (n : Nat) : held n = [n] := rfl

@[simp] theorem held_none : held (-1) = [] := rfl

@[simp] theorem held_closed (fd : Int) : held (closed fd) = [] := by
  unfold closed
  split
  · rfl
  · next h => exact if_neg h

theorem sure_openFd : Sure [] openFd held :=
  Sure.bind (Holdings.sure_openNew lowest_free) fun n => Sure.pure _ (List.Perm.refl [n])

theorem sure_closeFd (fd : Int) : Sure (held fd) (closeFd fd) fun _ => [] := by
  unfold held closeFd
  split
  · exact Holdings.sure_close _
  · exact Sure.pure () (List.Perm.refl [])

theorem swap_middle {α : Type} (a b c d : List α) :
    ((a ++ b) ++ (c ++ d)).Perm ((a ++ c) ++ (b ++ d)) := by
  rw [List.append_assoc, List.append_assoc]
  exact List.Perm.append_left a (by
    rw [← List.append_assoc, ← List.append_assoc]
    exact List.perm_append_comm.append_right d)

namespace Pipe

variable (p other : Pipe)

@[simp] theorem fds_none : none.fds = [] := rfl

@[simp] theorem fds_closed : p.closed.fds = [] := by
  simp [closed, readClosed, writeClosed, fds]

theorem sure_close : Sure p.fds p.close fun _ => [] :=
  Sure.seq (sure_closeFd p.readFd) (List.Perm.refl _) fun _ => sure_closeFd p.writeFd

theorem sure_closeRead : Sure p.fds p.closeRead fun _ => p.readClosed.fds := by
  refine ((sure_closeFd p.readFd).frame (held p.writeFd)).mono (List.Perm.refl _) fun _ => ?_
  simp [readClosed, fds]

theorem sure_closeWrite : Sure p.fds p.closeWrite fun _ => p.writeClosed.fds := by
  refine ((sure_closeFd p.writeFd).frame (held p.readFd)).mono List.perm_append_comm fun _ => ?_
  simp [writeClosed, fds]

theorem sure_moveAssign :
    Sure (p.fds ++ other.fds) (p.moveAssign other) fun r => r.1.fds ++ r.2.fds :=
  Sure.seq p.sure_close (List.Perm.refl _) fun _ => Sure.pure _ (by simp)

theorem sure_destroyBoth (p : Pipe × Pipe) :
    Sure (p.1.fds ++ p.2.fds) (destroyBoth p) fun _ => [] :=
  Sure.seq p.2.sure_close List.perm_append_comm fun _ => p.1.sure_close

theorem sure_moveBoth (p other : Pipe × Pipe) :
    Sure ((p.1.fds ++ p.2.fds) ++ (other.1.fds ++ other.2.fds)) (moveBoth p other)
      fun r => (r.1.1.fds ++ r.1.2.fds) ++ (r.2.1.fds ++ r.2.2.fds) := by
  refine Sure.seq (p.1.sure_moveAssign other.1) (swap_middle _ _ _ _) fun a => ?_
  refine Sure.seq (p.2.sure_moveAssign other.2) List.perm_append_comm fun b => Sure.pure _ ?_
  exact List.perm_append_comm.trans (swap_middle _ _ _ _)

theorem turns_createPair (fails : Bool) :
    Turns [] (createPair fails) (fun r => r.1.fds ++ r.2.fds) fun _ => [] := by
  unfold createPair
  split
  · exact Turns.throw _ (List.Perm.refl [])
  · refine sure_openFd.step (List.Perm.refl []) fun read => ?_
    refine sure_openFd.step (List.Perm.refl _) fun write => Turns.pure _ ?_
    simpa [fds] using List.perm_append_comm

end Pipe

namespace PipeTransport

variable (t other : PipeTransport)

theorem sure_close : Sure t.fds t.close fun _ => t.closed.fds :=
  Sure.seq t.toPeer.sure_close (List.Perm.refl _) fun _ =>
    t.fromPeer.sure_close.mono (List.Perm.refl _) fun _ => by simp [closed, fds]

theorem sure_destroy : Sure t.fds t.destroy fun _ => [] :=
  Pipe.sure_destroyBoth (t.toPeer, t.fromPeer)

theorem sure_moveAssign :
    Sure (t.fds ++ other.fds) (t.moveAssign other) fun r => r.1.fds ++ r.2.fds :=
  Sure.bind (Pipe.sure_moveBoth (t.toPeer, t.fromPeer) (other.toPeer, other.fromPeer)) fun _ =>
    Sure.pure _ (List.Perm.refl _)

end PipeTransport

namespace TcpTransport

variable (t other : TcpTransport)

@[simp] theorem fds_closed : t.closed.fds = [] := held_closed t.sock

theorem sure_close : Sure t.fds t.close fun _ => [] := sure_closeFd t.sock

theorem sure_moveAssign :
    Sure (t.fds ++ other.fds) (t.moveAssign other) fun r => r.1.fds ++ r.2.fds :=
  Sure.seq t.sure_close (List.Perm.refl _) fun _ => Sure.pure _ (by simp [fds])

theorem sure_connectSocket (host : Str) (port : UInt16) (failure : Option Str) :
    Sure [] (connectSocket host port failure) fun r => r.1.fds := by
  refine Sure.bind sure_openFd fun sock => ?_
  cases failure with
  | none => exact Sure.pure _ (List.Perm.refl _)
  | some text =>
    exact Sure.bind (sure_close ⟨sock, [], 0⟩) fun _ => Sure.pure _ (by simp)

theorem sure_connect (host : Str) (port : UInt16) (how : ConnectEnd) :
    Sure t.fds (t.connect host port how) fun r => r.1.fds := by
  refine Sure.bind t.sure_close fun _ => ?_
  cases how with
  | unresolved err => exact Sure.pure _ (by simp)
  | noSocket err => exact Sure.pure _ (by simp [fds])
  | timedOut => exact sure_connectSocket host port _
  | pollFailed err => exact sure_connectSocket host port _
  | noOption err => exact sure_connectSocket host port _
  | failed err => exact sure_connectSocket host port _
  | connected => exact sure_connectSocket host port _

end TcpTransport

namespace TcpListener

variable (l other : TcpListener)

@[simp] theorem fds_closed : l.closed.fds = [] := held_closed l.sock

theorem sure_close : Sure l.fds l.close fun _ => [] := sure_closeFd l.sock

theorem sure_moveAssign :
    Sure (l.fds ++ other.fds) (l.moveAssign other) fun r => r.1.fds ++ r.2.fds :=
  Sure.seq l.sure_close (List.Perm.refl _) fun _ => Sure.pure _ (by simp [fds, none])

theorem sure_listenSocket (port : UInt16) (failure : Option Str) :
    Sure [] (listenSocket port failure) fun r => r.1.fds := by
  refine Sure.bind sure_openFd fun sock => ?_
  cases failure with
  | none => exact Sure.pure _ (List.Perm.refl _)
  | some text => exact Sure.bind (sure_close ⟨sock, 0⟩) fun _ => Sure.pure _ (by simp)

theorem sure_listen (port : UInt16) (bindAddress : Str) (how : ListenEnd) :
    Sure l.fds (l.listen port bindAddress how) fun r => r.1.fds := by
  refine Sure.bind l.sure_close fun _ => ?_
  cases how with
  | noSocket err => exact Sure.pure _ (by simp [fds])
  | badAddress => exact sure_listenSocket _ _
  | notBound err => exact sure_listenSocket _ _
  | noName err => exact sure_listenSocket _ _
  | notListening err => exact sure_listenSocket _ _
  | listening port => exact sure_listenSocket _ _

theorem turns_accept (how : AcceptEnd) :
    Turns [] (l.accept how) (fun t => t.elim [] TcpTransport.fds) fun _ => [] := by
  unfold accept
  split
  · exact Turns.throw _ (List.Perm.refl [])
  · cases how with
    | timedOut => exact Turns.pure _ (List.Perm.refl [])
    | pollFailed err => exact Turns.throw _ (List.Perm.refl [])
    | failed err => exact Turns.throw _ (List.Perm.refl [])
    | accepted peerAddr peerPort =>
      exact sure_openFd.step (List.Perm.refl []) fun sock => Turns.pure _ (by simp [TcpTransport.fds])

end TcpListener

namespace TlsTransport

variable (t other : TlsTransport)

@[simp] theorem fds_closed : t.closed.fds = [] := held_closed t.sock

theorem sure_close : Sure t.fds t.close fun _ => [] := sure_closeFd t.sock

theorem sure_moveAssign :
    Sure (t.fds ++ other.fds) (t.moveAssign other) fun r => r.1.fds ++ r.2.fds :=
  Sure.seq t.sure_close (List.Perm.refl _) fun _ => Sure.pure _ (by simp [fds, none])

theorem turns_ofSocket (sock : Int) (failure : Option Str) :
    Turns (held sock) (ofSocket sock failure) fds fun _ => [] := by
  cases failure with
  | none => exact Turns.pure _ (List.Perm.refl _)
  | some text =>
    exact (sure_closeFd sock).turns.bind fun _ => Turns.throw _ (List.Perm.refl [])

end TlsTransport

namespace TlsListener

variable (l : TlsListener)

@[simp] theorem fds_closed : l.closed.fds = [] := held_closed l.inner.sock

theorem sure_close : Sure l.fds l.close fun _ => [] := l.inner.sure_close

theorem sure_listen (port : UInt16) (how : ListenEnd) :
    Sure l.fds (l.listen port how) fun r => r.1.fds :=
  Sure.bind (l.inner.sure_listen port [] how) fun _ => Sure.pure _ (List.Perm.refl _)

theorem turns_accept (how : AcceptEnd) (next : TlsAccept) :
    Turns [] (l.accept how next) (fun t => t.elim [] TlsTransport.fds) fun _ => [] := by
  unfold accept
  split
  · refine (l.inner.turns_accept how).bind fun tcp => ?_
    cases tcp with
    | none => exact Turns.pure _ (List.Perm.refl [])
    | some tcp =>
      cases next.notDuplicated with
      | some err =>
        dsimp only
        exact tcp.sure_close.turns.bind fun _ => Turns.throw _ (List.Perm.refl [])
      | none =>
        dsimp only
        refine sure_openFd.step (List.Perm.refl _) fun sock => ?_
        refine tcp.sure_close.step List.perm_append_comm fun _ => ?_
        refine (TlsTransport.turns_ofSocket sock _).bind fun tls => ?_
        cases next.notShaken with
        | some text =>
          dsimp only
          exact tls.sure_close.turns.bind fun _ => Turns.throw _ (List.Perm.refl [])
        | none =>
          dsimp only
          exact Turns.pure _ (List.Perm.refl _)
  · exact Turns.throw _ (List.Perm.refl [])

end TlsListener

namespace ServiceProcess

variable (p other : ServiceProcess)

theorem sure_destroy : Sure p.fds p.destroy fun _ => [] :=
  Pipe.sure_destroyBoth (p.toService, p.fromService)

theorem sure_moveAssign :
    Sure (p.fds ++ other.fds) (p.moveAssign other) fun r => r.1.fds ++ r.2.fds :=
  Sure.bind (Pipe.sure_moveBoth (p.toService, p.fromService) (other.toService, other.fromService))
    fun _ => Sure.pure _ (List.Perm.refl _)

theorem turns_spawn (how : SpawnEnd) : Turns [] (spawn how) fds fun _ => [] := by
  refine (Pipe.turns_createPair _).bind fun first => ?_
  have hsecond := ((Pipe.turns_createPair (how matches .noSecondPipe)).frame
    (first.1.fds ++ first.2.fds)).onThrow fun _ => (Pipe.sure_destroyBoth first).turns
  refine hsecond.bind fun second => ?_
  -- the parent's ends, and then the child's
  have hsort : ((second.1.fds ++ second.2.fds) ++ (first.1.fds ++ first.2.fds)).Perm
      (second.1.fds ++ (first.2.fds ++ (second.2.fds ++ first.1.fds))) := by
    rw [List.append_assoc]
    refine List.Perm.append_left _ ?_
    rw [← List.append_assoc]
    exact List.perm_append_comm
  have hspawned : Turns ((second.1.fds ++ second.2.fds) ++ (first.1.fds ++ first.2.fds)) (do
      second.1.close
      first.2.close
      return ⟨second.2, first.1⟩) fds fun _ => [] :=
    second.1.sure_close.step hsort fun _ =>
      first.2.sure_close.step (List.Perm.refl _) fun _ => Turns.pure _ (List.Perm.refl _)
  cases how with
  | noFirstPipe => exact hspawned
  | noSecondPipe => exact hspawned
  | noFork =>
    refine (Pipe.sure_destroyBoth second).step (List.Perm.refl _) fun _ => ?_
    refine (Pipe.sure_destroyBoth first).turns.bind fun _ => ?_
    exact Turns.throw _ (List.Perm.refl [])
  | noHandshake e =>
    refine second.1.sure_close.step hsort fun _ => ?_
    refine first.2.sure_close.step (List.Perm.refl _) fun _ => ?_
    refine (sure_destroy ⟨second.2, first.1⟩).turns.bind fun _ => ?_
    exact Turns.throw _ (List.Perm.refl [])
  | spawned => exact hspawned

end ServiceProcess

end Song.Descriptors
