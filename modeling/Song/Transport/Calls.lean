import Song.Transport
import Song.Lib.Feed

/-!
# Transports call by call (`transport.cpp`, `process.cpp`, `pipe.cpp`)

`Inbound` is the receiving end of a TCP transport, of a pipe transport or of a
service process: the pieces in which the stream arrives and the caller's message.
The TCP transport calls `recv` until the 16 bytes of a header are there, the two
pipe receivers call `read` once (`receivePipe`); the payload is read in a loop by
all three (`receivePayload`). `Outbound` is the sending end.
-/

namespace Song

open Feed (Arrival)

/-! ## Sending -/

structure Outbound where
  connected : Bool
  /-- What the calls have put on the stream. -/
  written : Bytes

/-- A transport that has just been connected. -/
def Outbound.opened : Outbound := ⟨true, []⟩

/-- How a call of `::send` ends. -/
inductive SendCall where
  | interrupted
  /-- One byte and `more` further ones, or all there are. -/
  | takes (more : Nat)
  | takesNothing
  | failed (err : Str)

/-- The call does not make `send` give up. -/
def SendCall.Proceeds : SendCall → Prop
  | interrupted | takes _ => True
  | takesNothing | failed _ => False

namespace TcpTransport

/-- The loop of `send` on the bytes from the offset on; calls not listed take all there is. -/
def sendRest : List SendCall → Bytes → EStateM Exn Outbound Unit
  | _, [] => pure ()
  | [], b :: bs => modify fun s => { s with written := s.written ++ b :: bs }
  | .interrupted :: calls, b :: bs => sendRest calls (b :: bs)
  | .takes more :: calls, b :: bs => do
    modify fun s => { s with written := s.written ++ b :: bs.take more }
    sendRest calls (bs.drop more)
  | .takesNothing :: _, _ :: _ =>
    throw (.serviceError (lit "TcpTransport: connection closed"))
  | .failed err :: _, _ :: _ =>
    throw (.serviceError (lit "TcpTransport: send failed: " ++ err))

def send (calls : List SendCall) (msg : Buffer) : EStateM Exn Outbound Unit := do
  if (← get).connected then sendRest calls msg.data
  else throw (.serviceError (lit "TcpTransport: not connected"))

/-- Messages sent one after the other. -/
def sendEach : List (List SendCall × Buffer) → EStateM Exn Outbound Unit
  | [] => pure ()
  | (calls, msg) :: sends => do
    send calls msg
    sendEach sends

theorem sendRest_run {calls : List SendCall} (h : ∀ c ∈ calls, c.Proceeds) (rest : Bytes)
    (s : Outbound) :
    (sendRest calls rest).run s = .ok () { s with written := s.written ++ rest } := by
  induction calls generalizing rest s with
  | nil =>
    cases rest with
    | nil => rw [List.append_nil]; rfl
    | cons b bs => rfl
  | cons c calls ih =>
    obtain ⟨hc, hcalls⟩ := List.forall_mem_cons.mp h
    cases rest with
    | nil => rw [List.append_nil]; rfl
    | cons b bs =>
      cases c with
      | interrupted => exact ih hcalls _ _
      | takes more =>
        have hrun := ih hcalls (bs.drop more) { s with written := s.written ++ b :: bs.take more }
        rw [List.append_assoc, List.cons_append, List.take_append_drop] at hrun
        exact hrun
      | takesNothing => exact hc.elim
      | failed err => exact hc.elim

/-- However the calls split them, the messages go on the stream one after the other. -/
theorem sendEach_run {sends : List (List SendCall × Buffer)}
    (h : ∀ x ∈ sends, ∀ c ∈ x.1, c.Proceeds) {s : Outbound} (hs : s.connected = true) :
    (sendEach sends).run s =
      .ok () { s with written := s.written ++ sends.flatMap fun x => x.2.data } := by
  induction sends generalizing s with
  | nil => rw [List.flatMap_nil, List.append_nil]; rfl
  | cons x sends ih =>
    obtain ⟨calls, msg⟩ := x
    obtain ⟨hx, hsends⟩ := List.forall_mem_cons.mp h
    have hsend : (send calls msg).run s =
        .ok () { s with written := s.written ++ msg.data } := by
      have hget : (get : EStateM Exn Outbound Outbound).run s = .ok s s := rfl
      rw [send, Eff.run_bind_ok hget, if_pos hs]
      exact sendRest_run hx msg.data s
    have hrest := ih hsends (s := { s with written := s.written ++ msg.data }) hs
    rw [sendEach, Eff.run_bind_ok hsend, hrest, List.flatMap_cons, List.append_assoc]

theorem sendRest_ok {calls : List SendCall} {rest : Bytes} {s s' : Outbound}
    (h : (sendRest calls rest).run s = .ok () s') :
    s' = { s with written := s.written ++ rest } := by
  induction calls generalizing rest s with
  | nil =>
    cases rest with
    | nil => cases h; rw [List.append_nil]
    | cons b bs => cases h; rfl
  | cons c calls ih =>
    cases rest with
    | nil => cases h; rw [List.append_nil]
    | cons b bs =>
      cases c with
      | interrupted => exact ih h
      | takes more =>
        have hrest := ih (s := { s with written := s.written ++ b :: bs.take more }) h
        rw [List.append_assoc, List.cons_append, List.take_append_drop] at hrest
        exact hrest
      | takesNothing => cases h
      | failed err => cases h

/-- When no send throws, all of the messages are on the stream. -/
theorem sendEach_ok {sends : List (List SendCall × Buffer)} {s s' : Outbound}
    (h : (sendEach sends).run s = .ok () s') :
    s' = { s with written := s.written ++ sends.flatMap fun x => x.2.data } := by
  induction sends generalizing s with
  | nil => cases h; rw [List.flatMap_nil, List.append_nil]
  | cons x sends ih =>
    obtain ⟨calls, msg⟩ := x
    rw [sendEach] at h
    obtain ⟨_, s₁, hsend, hrest⟩ := Eff.run_bind_ok_iff.mp h
    have hget : (get : EStateM Exn Outbound Outbound).run s = .ok s s := rfl
    rw [send, Eff.run_bind_ok hget] at hsend
    split at hsend
    · rw [sendRest_ok hsend] at hrest
      rw [ih hrest, List.flatMap_cons, List.append_assoc]
    · cases hsend

end TcpTransport

/-! ## Receiving -/

structure Inbound where
  connected : Bool
  arrivals : List (Arrival UInt8)
  /-- What reading fails with behind all that arrives; with none the peer has closed. -/
  failure : Option Str
  /-- The `Buffer&` of the call. -/
  msg : Buffer

/-- How `receive` waits: `timeout_ms < 0` does not, else it is how `poll` ends. -/
inductive Wait where
  | forever
  | timedOut
  | failed (err : Str)
  | ready (pollin pollerr : Bool)

/-- The wait ends with something to read. -/
def Wait.Ready : Wait → Prop
  | forever => True
  | timedOut | failed _ => False
  | ready pollin pollerr => pollerr = true → pollin = true

abbrev Recv (α : Type) := EStateM Exn Inbound α

namespace Inbound

/-- The reading loops. -/
def readUpTo (len : Nat) : Recv Bytes := fun s =>
  .ok (Feed.readUpTo len s.arrivals).1 { s with arrivals := (Feed.readUpTo len s.arrivals).2 }

/-- `Pipe::read`. -/
def readOnce (len : Nat) : Recv Bytes := fun s =>
  .ok (Feed.read len s.arrivals).1 { s with arrivals := (Feed.read len s.arrivals).2 }

/-- Why nothing more was read. An error is reported once. -/
def ending : Recv (Option Str) := fun s => .ok s.failure { s with failure := none }

/-- Run a decoder on the message. -/
def onMsg {α : Type} (d : Dec α) : Recv α := fun s =>
  match d.run s.msg with
  | .ok a b => .ok a { s with msg := b }
  | .error e b => .error e { s with msg := b }

end Inbound

open Inbound

/-- What a receiver throws for a payload. -/
structure PayloadExns where
  tooLarge : Exn
  failed : Exn
  closed : Exn

/-- `msg.reset_read(); return true;` -/
def received : Recv Bool := do
  modify fun s => { s with msg := s.msg.resetRead }
  return true

/-- The payload of the announced size, and the end of `receive`. -/
def receiveBody (exns : PayloadExns) (size : Nat) : Recv Bool :=
  if size = 0 then received
  else if kMaxPayloadSize < size then throw exns.tooLarge
  else do
    let payload ← readUpTo size
    if payload.length < size then
      match ← ending with
      | none => throw exns.closed
      | some _ => throw exns.failed
    else
      modify fun s => { s with msg := s.msg.write payload }
      received

/-- From the header to the end of `receive`. -/
def receivePayload (exns : PayloadExns) (header : Bytes) : Recv Bool := do
  modify fun s => { s with msg := (s.msg.write header).resetRead }
  let hdr ← onMsg decodeHeader
  receiveBody exns hdr.payloadSize.toNat

namespace TcpTransport

def payloadExns : PayloadExns where
  tooLarge := .protocolError (lit "TcpTransport: payload size exceeds maximum")
  failed := .serviceError (lit "TcpTransport: failed to read payload")
  closed := .serviceError (lit "TcpTransport: connection closed during payload read")

/-- The wait, and whether to read after it. -/
def poll : Wait → Recv Bool
  | .forever => pure true
  | .timedOut => throw (.serviceError (lit "TcpTransport: read timeout"))
  | .failed err => throw (.serviceError (lit "TcpTransport: poll failed: " ++ err))
  | .ready pollin pollerr => pure (!(pollerr && !pollin))

/-- What follows the wait. -/
def receiveMessage : Recv Bool := do
  modify fun s => { s with msg := .empty }
  let header ← readUpTo 16
  if header.length < 16 then
    match ← ending with
    | none => return false
    | some err => throw (.serviceError (lit "TcpTransport: recv failed: " ++ err))
  else receivePayload payloadExns header

def receive (wait : Wait) : Recv Bool := do
  if (← get).connected then
    match ← poll wait with
    | true => receiveMessage
    | false => return false
  else return false

end TcpTransport

/-- What a pipe receiver throws. -/
structure PipeExns extends PayloadExns where
  timedOut : Exn
  readFailed : Str → Exn
  incomplete : Exn

/-- What follows the wait of a pipe receiver. -/
def receivePipeMessage (exns : PipeExns) : Recv Bool := do
  let header ← readOnce 16
  if header = [] then
    match ← ending with
    | none => return false
    | some err => throw (exns.readFailed err)
  else if header.length ≠ 16 then throw exns.incomplete
  else receivePayload exns.toPayloadExns header

/-- `PipeTransport::receive` and `ServiceProcess::receive`. -/
def receivePipe (exns : PipeExns) (wait : Wait) : Recv Bool := do
  if (← get).connected then
    modify fun s => { s with msg := .empty }
    match wait with
    | .timedOut => throw exns.timedOut
    | .failed err => throw (exns.readFailed err)
    | .forever | .ready _ _ => receivePipeMessage exns
  else return false

namespace PipeTransport

def exns : PipeExns where
  tooLarge := .protocolError (lit "PipeTransport: payload size exceeds maximum")
  failed := .serviceError (lit "PipeTransport: failed to read payload")
  closed := .serviceError (lit "PipeTransport: pipe closed during payload read")
  timedOut := .serviceError (lit "PipeTransport: read timeout")
  readFailed err := .serviceError (lit "PipeTransport: read failed: " ++ err)
  incomplete := .protocolError (lit "PipeTransport: incomplete header received")

def receive (wait : Wait) : Recv Bool := receivePipe exns wait

end PipeTransport

namespace ServiceProcess

def exns : PipeExns where
  tooLarge := .protocolError (lit "Payload size exceeds maximum")
  failed := .serviceError (lit "Failed to read payload from service")
  closed := .serviceError (lit "Failed to read payload from service")
  timedOut := .serviceError (lit "Failed to read header from service")
  readFailed _ := .serviceError (lit "Failed to read header from service")
  incomplete := .protocolError (lit "Incomplete header received")

def receive (wait : Wait) : Recv Bool := receivePipe exns wait

end ServiceProcess

/-- Successive calls, each with its wait and a buffer of the caller's: how each ends, and
the buffer then. -/
def receiveEach (receive : Wait → Recv Bool) :
    List (Wait × Buffer) → Inbound → List (Except Exn Bool × Buffer)
  | [], _ => []
  | (wait, msg) :: calls, s =>
    match (receive wait).run { s with msg := msg } with
    | .ok b s' => (.ok b, s'.msg) :: receiveEach receive calls s'
    | .error e s' => (.error e, s'.msg) :: receiveEach receive calls s'

end Song
