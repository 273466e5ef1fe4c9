import Song.Connection.Reply
import Song.Transport.Framing

/-!
# Polling for notifications (`process.cpp`: `poll_notifications`)

A poll receives once, and a receive that waits in vain throws, on each of the receivers. So of
the notifications that are pending one is dispatched, and with none pending the poll throws.
-/

namespace Song

variable {κ α : Type}

/-! ## A poll -/

/-- The receiving end under a connection, and the connection. -/
structure Polled (κ : Type) where
  inbound : Inbound
  conn : Conn κ

/-- `proc_`, or what kind of transport `transport_` is. -/
inductive Receiver where
  | process
  | pipe
  | tcp
  deriving DecidableEq

def Receiver.receive : Receiver → Wait → Recv Bool
  | process => ServiceProcess.receive
  | pipe => PipeTransport.receive
  | tcp => TcpTransport.receive

/-- `Buffer msg;`, and the receive into it. -/
def Receiver.receiveFresh (receiver : Receiver) (wait : Wait) : Recv Bool := do
  modify fun s => { s with msg := .empty }
  receiver.receive wait

/-- What a receiver throws when its wait is in vain. -/
def Receiver.timedOut : Receiver → Exn
  | process => .serviceError (lit "Failed to read header from service")
  | pipe => .serviceError (lit "PipeTransport: read timeout")
  | tcp => .serviceError (lit "TcpTransport: read timeout")

namespace ServiceConnection

def onInbound (x : Recv α) : EStateM Exn (Polled κ) α := fun s =>
  match x.run s.inbound with
  | .ok a inbound => .ok a { s with inbound }
  | .error e inbound => .error e { s with inbound }

def onConn (x : Cli κ α) : EStateM Exn (Polled κ) α := fun s =>
  match x.run s.conn with
  | .ok a conn => .ok a { s with conn }
  | .error e conn => .error e { s with conn }

/-- A message that was received; the header is not validated. -/
def dispatchReceived (msg : Buffer) : Cli κ Unit :=
  decodeThen decodeHeader msg.resetRead fun hdr msg =>
    if hdr.type = .propNotify then dispatchNotification msg else pure ()

/-- Without a process and a transport nothing is received. -/
def pollNotifications (receiver : Option Receiver) (wait : Wait) : EStateM Exn (Polled κ) Unit := do
  let received ← match receiver with
    | some receiver => onInbound (receiver.receiveFresh wait)
    | none => pure false
  if received then
    onConn (dispatchReceived (← get).inbound.msg)
  else pure ()

end ServiceConnection

/-! ## What is pending -/

/-- A notification as it is on the wire. -/
structure PendingNote where
  frame : Frame
  key : SubscriptionKey
  value : Bytes
  fits : frame.Fits
  isNotify : frame.hdr.type = .propNotify
  payload : ∃ typeId reserved, frame.payload = propertyPayload typeId key reserved value

namespace Polled

/-- These notifications have arrived, and nothing else; the peer keeps the stream open. -/
def pending (notes : List PendingNote) (s : Polled κ) : Polled κ :=
  { s with inbound :=
      ⟨true, Feed.putBack (notes.flatMap fun n => n.frame.bytes) [], none, s.inbound.msg⟩ }

/-- How a wait of 0 ms ends on an open stream: whatever has arrived can be read. -/
def waitZero (s : Polled κ) : Wait :=
  if Feed.data s.inbound.arrivals = [] then .timedOut else .ready true false

end Polled

/-- The invocations that these notifications cause. -/
def Conn.invocations (c : Conn κ) (notes : List PendingNote) : List (κ × Bytes) :=
  notes.filterMap fun n => c.invocation (n.key, n.value)

namespace ServiceConnection

theorem onInbound_ok {x : Recv α} {s : Polled κ} {a : α} {inbound : Inbound}
    (h : x.run s.inbound = .ok a inbound) : (onInbound x).run s = .ok a { s with inbound } := by
  simp only [EStateM.run] at h ⊢
  simp only [onInbound, EStateM.run, h]

theorem onInbound_error {x : Recv α} {s : Polled κ} {e : Exn} {inbound : Inbound}
    (h : x.run s.inbound = .error e inbound) :
    (onInbound x).run s = .error e { s with inbound } := by
  simp only [EStateM.run] at h ⊢
  simp only [onInbound, EStateM.run, h]

theorem onConn_ok {x : Cli κ α} {s : Polled κ} {a : α} {conn : Conn κ}
    (h : x.run s.conn = .ok a conn) : (onConn x).run s = .ok a { s with conn } := by
  simp only [EStateM.run] at h ⊢
  simp only [onConn, EStateM.run, h]

/-! ## What a receiver does -/

theorem receivePipe_timedOut (exns : PipeExns) {s : Inbound} (hs : s.connected = true) :
    (receivePipe exns .timedOut).run s = .error exns.timedOut { s with msg := .empty } := by
  have hget : (get : Recv Inbound).run s = .ok s s := rfl
  rw [receivePipe, Eff.run_bind_ok hget, if_pos hs]
  rfl

theorem receive_timedOut (receiver : Receiver) {s : Inbound} (hs : s.connected = true) :
    ∃ s', (receiver.receive .timedOut).run s = .error receiver.timedOut s' := by
  cases receiver with
  | process => exact ⟨_, receivePipe_timedOut ServiceProcess.exns hs⟩
  | pipe => exact ⟨_, receivePipe_timedOut PipeTransport.exns hs⟩
  | tcp =>
    have hget : (get : Recv Inbound).run s = .ok s s := rfl
    refine ⟨s, ?_⟩
    rw [Receiver.receive, TcpTransport.receive, Eff.run_bind_ok hget, if_pos hs]
    rfl

/-- No piece ends before what has arrived does. -/
theorem not_cutAt_putBack {xs : Bytes} {n : Nat} (hn : 0 < n) (hlt : n < xs.length) :
    ¬ Feed.CutAt (Feed.putBack xs []) n := by
  cases xs with
  | nil => exact absurd hlt (Nat.not_lt_zero n)
  | cons a as =>
    rw [Feed.putBack, Feed.cutAt_piece hn]
    rintro ⟨hle, -⟩
    rw [List.length_cons] at hlt
    omega

/-- A receiver returns the first message of those that have arrived. -/
theorem receive_first (receiver : Receiver) {s : Inbound} (hs : s.connected = true) {f : Frame}
    (hf : f.Fits) {rest : Bytes} (harr : s.arrivals = Feed.putBack (f.bytes ++ rest) []) :
    ∃ arrivals, (receiver.receive (.ready true false)).run { s with msg := .empty } =
        .ok true { s with arrivals, msg := .ofBytes f.bytes } ∧ Feed.data arrivals = rest := by
  have hready : (Wait.ready true false).Ready := fun _ => rfl
  have hdata : Feed.data s.arrivals = f.bytes ++ rest := by
    rw [harr, Feed.data_putBack]
    exact List.append_nil _
  have hcut : ∀ n, 0 < n → n < 16 → ¬ Feed.CutAt s.arrivals n := by
    intro n hn hlt
    rw [harr]
    refine not_cutAt_putBack hn ?_
    rw [List.length_append, f.length_bytes]
    omega
  have hpipe : ∀ exns : PipeExns, ∃ arrivals,
      (receivePipe exns (.ready true false)).run { s with msg := .empty } =
        .ok true { s with arrivals, msg := .ofBytes f.bytes } ∧ Feed.data arrivals = rest := by
    intro exns
    obtain ⟨arrivals, hrun, hrest, -⟩ := receivePipeMessage_whole exns
      (s := { s with msg := .empty }) rfl hf hdata hcut
    exact ⟨arrivals, (receivePipe_run exns (s := { s with msg := .empty }) hready hs).trans hrun,
      hrest⟩
  cases receiver with
  | process => exact hpipe ServiceProcess.exns
  | pipe => exact hpipe PipeTransport.exns
  | tcp =>
    obtain ⟨arrivals, hrun, hrest⟩ := TcpTransport.receiveMessage_frame
      (s := { s with msg := .empty }) hf hdata
    exact ⟨arrivals, (TcpTransport.receive_run (s := { s with msg := .empty }) hready hs).trans hrun,
      hrest⟩

/-! ## A poll of 0 ms -/

theorem dispatchReceived_note (note : PendingNote) (c : Conn κ) :
    (dispatchReceived (.ofBytes note.frame.bytes)).run c =
      .ok () (c.notified [(note.key, note.value)]) := by
  obtain ⟨typeId, reserved, hp⟩ := note.payload
  have hd : decodeHeader.run (Buffer.ofBytes note.frame.bytes).resetRead = _ :=
    note.frame.decodeHeader_bytes
  rw [dispatchReceived, decodeThen_ok hd, if_pos note.isNotify, hp]
  exact dispatchNotification_run _ _ _ _ _ c

theorem flatMap_bytes_eq_nil {notes : List PendingNote} :
    notes.flatMap (fun n => n.frame.bytes) = [] ↔ notes = [] := by
  cases notes with
  | nil => exact iff_of_true rfl rfl
  | cons n notes =>
    refine iff_of_false (fun h => ?_) (List.cons_ne_nil _ _)
    have hlen := congrArg List.length h
    rw [List.flatMap_cons, List.length_append, n.frame.length_bytes, List.length_nil] at hlen
    omega

theorem waitZero_pending (notes : List PendingNote) (s : Polled κ) :
    (s.pending notes).waitZero = if notes = [] then .timedOut else .ready true false := by
  have hdata : Feed.data (s.pending notes).inbound.arrivals =
      notes.flatMap fun n => n.frame.bytes := by
    rw [Polled.pending, Feed.data_putBack]
    exact List.append_nil _
  rw [Polled.waitZero, hdata]
  simp only [flatMap_bytes_eq_nil]

/-- With none pending, the poll throws what the receiver throws. -/
theorem poll_none (receiver : Receiver) (s : Polled κ) :
    ∃ s', (pollNotifications (some receiver) (s.pending []).waitZero).run (s.pending []) =
      .error receiver.timedOut s' := by
  rw [waitZero_pending, if_pos rfl]
  obtain ⟨inbound, hrun⟩ := receive_timedOut receiver
    (s := { (s.pending []).inbound with msg := .empty }) rfl
  exact ⟨_, Eff.run_bind_error (onInbound_error hrun)⟩

/-- Of those pending, the poll dispatches the first. -/
theorem poll_first (receiver : Receiver) (s : Polled κ) (note : PendingNote) (notes : List PendingNote) :
    ∃ s', (pollNotifications (some receiver) (s.pending (note :: notes)).waitZero).run
        (s.pending (note :: notes)) = .ok () s' ∧
      s'.conn = s.conn.notified [(note.key, note.value)] ∧
      Feed.data s'.inbound.arrivals = notes.flatMap fun n => n.frame.bytes := by
  rw [waitZero_pending, if_neg (List.cons_ne_nil _ _)]
  obtain ⟨arrivals, hrun, hrest⟩ := receive_first receiver
    (s := (s.pending (note :: notes)).inbound) rfl note.fits rfl
  have hreceive : (receiver.receiveFresh (.ready true false)).run
      (s.pending (note :: notes)).inbound =
        .ok true { (s.pending (note :: notes)).inbound with
          arrivals, msg := .ofBytes note.frame.bytes } := hrun
  refine ⟨⟨{ (s.pending (note :: notes)).inbound with arrivals, msg := .ofBytes note.frame.bytes },
    s.conn.notified [(note.key, note.value)]⟩, ?_, rfl, hrest⟩
  rw [pollNotifications, Eff.run_bind_ok (onInbound_ok hreceive)]
  exact onConn_ok (dispatchReceived_note note s.conn)

/-- A poll of 0 ms returns after it invoked the callbacks of all that is pending exactly if
something is pending and none but the first of it has a callback. -/
theorem pollNotifications_dispatches_iff (receiver : Receiver) (s : Polled κ)
    (notes : List PendingNote) :
    (∃ s', (pollNotifications (some receiver) (s.pending notes).waitZero).run (s.pending notes) =
          .ok () s' ∧ s'.conn.invoked = s.conn.invoked ++ s.conn.invocations notes) ↔
      notes ≠ [] ∧ ∀ n ∈ notes.tail, s.conn.propCallbacks.lookup n.key = none := by
  cases notes with
  | nil =>
    obtain ⟨s', hrun⟩ := poll_none receiver s
    refine iff_of_false ?_ (fun h => h.1 rfl)
    rintro ⟨s'', hrun', -⟩
    cases hrun.symm.trans hrun'
  | cons note notes =>
    obtain ⟨s', hrun, hconn, -⟩ := poll_first receiver s note notes
    have hinvoked : s'.conn.invoked = s.conn.invoked ++ s.conn.invocations [note] := by
      rw [hconn]
      rfl
    have hsplit : s.conn.invocations (note :: notes) =
        s.conn.invocations [note] ++ s.conn.invocations notes := List.filterMap_append (l := [note])
    have hnil : s.conn.invocations notes = [] ↔
        ∀ n ∈ notes, s.conn.propCallbacks.lookup n.key = none := by
      rw [Conn.invocations, List.filterMap_eq_nil_iff]
      exact forall₂_congr fun n _ => Option.map_eq_none_iff
    rw [List.tail_cons, ← hnil, and_iff_right (List.cons_ne_nil _ _)]
    constructor
    · rintro ⟨s'', hrun', hall⟩
      cases hrun.symm.trans hrun'
      rw [hinvoked, hsplit, ← List.append_assoc] at hall
      exact (List.self_eq_append_right.mp hall)
    · intro h
      refine ⟨s', hrun, ?_⟩
      rw [hinvoked, hsplit, h, List.append_nil]

/-- Nothing is pending. -/
theorem poll_idle_throws : ¬ ∀ (receiver : Receiver) (s : Polled Unit) (notes : List PendingNote),
    ∃ s', (pollNotifications (some receiver) (s.pending notes).waitZero).run (s.pending notes) =
      .ok () s' ∧ s'.conn.invoked = s.conn.invoked ++ s.conn.invocations notes := by
  intro h
  obtain ⟨s', hrun, -⟩ := h .tcp ⟨.opened [], ⟨0, ∅, [], 0, [], [], []⟩⟩ []
  obtain ⟨s'', hthrows⟩ := poll_none .tcp (⟨.opened [], ⟨0, ∅, [], 0, [], [], []⟩⟩ : Polled Unit)
  cases hthrows.symm.trans hrun

end ServiceConnection

end Song
