import Song.Connection.Reply
import Song.Lib.Run

/-!
# A connection over time

`Sys` is a client's connection with everything around it: the requests on their
way to the service (`inbox`, first in first out), the frames on their way back
(`conn.incoming`), the operation that waits for its reply, the answers given so
far and the operations that are over. The client does one thing at a time;
between any two of its steps the service may answer its oldest request, or push
notifications. What the service puts into an answer is on the label
(`Label.answer`); `Complete` says what an answer is.

A two-way operation waits with `recv_reply`, one message at a time, until it is
over; a receive times out between two messages.
-/

namespace Song

/-! ## What an operation makes of its reply -/

/-- What a two-way operation returns. -/
inductive Value where
  | bytes (b : Bytes)
  | ref (r : ObjectRef)
  deriving DecidableEq

/-- The end of an operation, from the buffer `recv_reply` gave it. -/
def Op.finish (op : Op) (response : Buffer) : Except Exn Value :=
  match (expectResult op).run response with
  | .error e _ => .error e
  | .ok _ rest =>
    match op with
    | .createObject _ _ _ =>
      match decodeObjectRef.run rest with
      | .ok ref _ => .ok (.ref ref)
      | .error e _ => .error e
    | _ => .ok (.bytes (rest.data.drop 16))

/-! ## The system -/

/-- How a service is to answer: not at all, with one reply, or with frames of its own. -/
inductive AnswerKind where
  | none
  | one
  | many
  deriving DecidableEq

structure Request where
  kind : AnswerKind
  seq : UInt32
  message : Bytes
  deriving DecidableEq

/-- What the client waits for: the reply of an operation, or the frames of a stream. -/
inductive Waiting where
  | op (op : Op)
  | stream

/-- A request that is waited for, with what was unread and unanswered when it was sent. -/
structure Pending where
  waiting : Waiting
  request : Request
  unread : List Bytes
  unanswered : List Request

/-- A two-way operation that is over. -/
structure Done where
  op : Op
  pending : Pending
  timedOut : Bool
  outcome : Except Exn Value

structure Sys (κ : Type) where
  conn : Conn κ
  inbox : List Request
  pending : Option Pending
  answered : List (Request × List Bytes)
  done : List Done
  onewaySent : Bool

inductive Label where
  | ask (op : Op)
  | oneway (serviceId methodId : UInt16) (args : Bytes)
  | release (typeId : UInt32) (objectId : Int32)
  | stream (serviceId methodId : UInt16) (args : Bytes)
  /-- Take the next message; `chunk` is how `on_chunk` ends if the message is a chunk. -/
  | receive (chunk : Option Exn)
  | timeout
  | answer (frames : List Bytes)
  | push (frames : List Bytes)

namespace Sys

variable {κ : Type}

/-- A connection after its handshake: no request made, nothing under way. -/
def init (propCallbacks : Map SubscriptionKey κ) : Sys κ where
  conn := ⟨1, propCallbacks, [], 0, [], [], []⟩
  inbox := []
  pending := none
  answered := []
  done := []
  onewaySent := false

/-- The transport is connected and its sends succeed; `dry` is how a receive times out. -/
def openLink (dry : Option Exn) : Link := ⟨.transport, true, fun _ => none, dry⟩

/-- The exception an operation ends with when its receive times out. -/
def timeoutExn (dry : Option Exn) : Exn :=
  dry.getD (.serviceError (lit "Service died or timed out"))

/-- A message is taken off the transport, `rest` stays. -/
def took (s : Sys κ) (rest : List Bytes) : Sys κ :=
  { s with conn := { s.conn with incoming := rest } }

section
variable (dry : Option Exn)

/-- The client sends a request that is to be answered as `kind` says. -/
def sendRequest (s : Sys κ) (kind : AnswerKind) (message : UInt32 → Bytes) :
    Option (Request × Sys κ) :=
  match (request (openLink dry) message).run s.conn with
  | .ok seq conn =>
    some (⟨kind, seq, message seq⟩, { s with conn, inbox := s.inbox ++ [⟨kind, seq, message seq⟩] })
  | .error _ _ => none

/-- The waiting operation is over. -/
def finishOp (s : Sys κ) (op : Op) (p : Pending) (timedOut : Bool)
    (outcome : Except Exn Value) : Sys κ :=
  { s with pending := none, done := s.done ++ [⟨op, p, timedOut, outcome⟩] }

/-- One iteration of `recv_reply` for a waiting operation. -/
def receiveOp (s : Sys κ) (op : Op) (p : Pending) (msg : Bytes) : Sys κ :=
  match (recvReplyBody p.request.seq msg).run s.conn with
  | .ok none conn => { s with conn }
  | .ok (some response) conn => { s with conn }.finishOp op p false (op.finish response)
  | .error e conn => { s with conn }.finishOp op p false (.error e)

/-- One iteration of the loop of `call_streaming`. -/
def receiveStream (s : Sys κ) (p : Pending) (chunk : Option Exn) (msg : Bytes) : Sys κ :=
  match (streamBody p.request.seq (fun _ => chunk) msg).run s.conn with
  | .ok none conn => { s with conn }
  | .ok (some _) conn => { s with conn, pending := none }
  | .error _ conn => { s with conn, pending := none }

def step (s : Sys κ) : Label → Option (Sys κ)
  | .ask op =>
    match s.pending with
    | some _ => none
    | none => (s.sendRequest dry .one op.message).map fun sent =>
        { sent.2 with pending := some ⟨.op op, sent.1, s.conn.incoming, s.inbox⟩ }
  | .oneway serviceId methodId args =>
    match s.pending with
    | some _ => none
    | none => (s.sendRequest dry .many fun seq =>
        createCallMessage seq serviceId methodId args).map fun sent =>
          { sent.2 with onewaySent := true }
  | .release typeId objectId =>
    match s.pending with
    | some _ => none
    | none =>
      if objectId = 0 then some s
      else some { s with
        conn := Eff.after (ServiceConnection.releaseObject (openLink dry) typeId objectId) s.conn
        inbox := s.inbox ++ [⟨.none, 0, createObjectReleaseMessage typeId objectId⟩] }
  | .stream serviceId methodId args =>
    match s.pending with
    | some _ => none
    | none => (s.sendRequest dry .many fun seq =>
        createCallMessage seq serviceId methodId args).map fun sent =>
          { sent.2 with pending := some ⟨.stream, sent.1, s.conn.incoming, s.inbox⟩ }
  | .receive chunk =>
    match s.pending, s.conn.incoming with
    | some p, msg :: rest =>
      match p.waiting with
      | .op op => some ((s.took rest).receiveOp op p msg)
      | .stream => some ((s.took rest).receiveStream p chunk msg)
    | _, _ => none
  | .timeout =>
    match s.pending with
    | none => none
    | some p =>
      match p.waiting with
      | .op op => some (s.finishOp op p true (.error (timeoutExn dry)))
      | .stream => some { s with pending := none }
  | .answer frames =>
    match s.inbox with
    | [] => none
    | r :: rest => some { s with
        conn := { s.conn with incoming := s.conn.incoming ++ frames }
        inbox := rest
        answered := s.answered ++ [(r, frames)] }
  | .push frames =>
    some { s with conn := { s.conn with incoming := s.conn.incoming ++ frames } }

end

variable {dry : Option Exn} {s s' : Sys κ}

/-! ## What each step does -/

theorem sendRequest_eq (dry : Option Exn) (s : Sys κ) (kind : AnswerKind)
    (message : UInt32 → Bytes) :
    s.sendRequest dry kind message =
      some (⟨kind, s.conn.nextSeq, message s.conn.nextSeq⟩,
        { s with
          conn := s.conn.requested message
          inbox := s.inbox ++ [⟨kind, s.conn.nextSeq, message s.conn.nextSeq⟩] }) := by
  have hready : (openLink dry).Ready s.conn := ⟨Channel.noConfusion, rfl, rfl⟩
  unfold sendRequest
  rw [request_ok hready]

/-- The request of an operation asked now. -/
def opRequest (s : Sys κ) (op : Op) : Request := ⟨.one, s.conn.nextSeq, op.message s.conn.nextSeq⟩

/-- The state after an operation is asked. -/
def asked (s : Sys κ) (op : Op) : Sys κ :=
  { s with
    conn := s.conn.requested op.message
    inbox := s.inbox ++ [s.opRequest op]
    pending := some ⟨.op op, s.opRequest op, s.conn.incoming, s.inbox⟩ }

/-- The request of a one-way call or a stream made now. -/
def callRequest (s : Sys κ) (serviceId methodId : UInt16) (args : Bytes) : Request :=
  ⟨.many, s.conn.nextSeq, createCallMessage s.conn.nextSeq serviceId methodId args⟩

/-- The state after the request of a one-way call or a stream. -/
def called (s : Sys κ) (serviceId methodId : UInt16) (args : Bytes) : Sys κ :=
  { s with
    conn := s.conn.requested fun seq => createCallMessage seq serviceId methodId args
    inbox := s.inbox ++ [s.callRequest serviceId methodId args] }

theorem step_ask {op : Op} (h : s.step dry (.ask op) = some s') :
    s.pending = none ∧ s' = s.asked op := by
  unfold step at h
  simp only at h
  cases hp : s.pending with
  | some p => rw [hp] at h; cases h
  | none =>
    rw [hp, sendRequest_eq] at h
    cases h
    exact ⟨rfl, rfl⟩

theorem step_oneway {serviceId methodId : UInt16} {args : Bytes}
    (h : s.step dry (.oneway serviceId methodId args) = some s') :
    s.pending = none ∧ s' = { s.called serviceId methodId args with onewaySent := true } := by
  unfold step at h
  simp only at h
  cases hp : s.pending with
  | some p => rw [hp] at h; cases h
  | none =>
    rw [hp, sendRequest_eq] at h
    cases h
    refine ⟨rfl, ?_⟩
    rw [called, hp]
    rfl

theorem step_stream {serviceId methodId : UInt16} {args : Bytes}
    (h : s.step dry (.stream serviceId methodId args) = some s') :
    s.pending = none ∧ s' = { s.called serviceId methodId args with
      pending := some ⟨.stream, s.callRequest serviceId methodId args, s.conn.incoming,
        s.inbox⟩ } := by
  unfold step at h
  simp only at h
  cases hp : s.pending with
  | some p => rw [hp] at h; cases h
  | none =>
    rw [hp, sendRequest_eq] at h
    cases h
    exact ⟨rfl, rfl⟩

/-- A release reaches the inbox at most, and leaves the messages alone. -/
theorem step_release {typeId : UInt32} {objectId : Int32}
    (h : s.step dry (.release typeId objectId) = some s') :
    s.pending = none ∧ (s' = s ∨ ∃ conn, conn.incoming = s.conn.incoming ∧
      conn.nextSeq = s.conn.nextSeq ∧ s' = { s with
        conn
        inbox := s.inbox ++ [⟨.none, 0, createObjectReleaseMessage typeId objectId⟩] }) := by
  unfold step at h
  simp only at h
  cases hp : s.pending with
  | some p => rw [hp] at h; cases h
  | none =>
    rw [hp] at h
    by_cases h0 : objectId = 0
    · simp only [h0, ↓reduceIte] at h
      cases h
      exact ⟨rfl, .inl rfl⟩
    · simp only [h0, ↓reduceIte] at h
      cases h
      refine ⟨rfl, .inr ⟨_, ?_, ?_, rfl⟩⟩
      · simp only [ServiceConnection.releaseObject, Eff.after, EStateM.run, h0, ↓reduceIte]
        rfl
      · simp only [ServiceConnection.releaseObject, Eff.after, EStateM.run, h0, ↓reduceIte]
        rfl

theorem step_receive {chunk : Option Exn} (h : s.step dry (.receive chunk) = some s') :
    ∃ p msg rest, s.pending = some p ∧ s.conn.incoming = msg :: rest ∧
      ((∃ op, p.waiting = .op op ∧
          s' = (s.took rest).receiveOp op p msg) ∨
        (p.waiting = .stream ∧ s' = (s.took rest).receiveStream p chunk msg)) := by
  unfold step at h
  simp only at h
  cases hp : s.pending with
  | none => rw [hp] at h; cases h
  | some p =>
    cases hin : s.conn.incoming with
    | nil => rw [hp, hin] at h; cases h
    | cons msg rest =>
      rw [hp, hin] at h
      simp only at h
      cases hw : p.waiting with
      | op op =>
        rw [hw] at h
        cases h
        exact ⟨p, msg, rest, rfl, rfl, .inl ⟨op, hw, rfl⟩⟩
      | stream =>
        rw [hw] at h
        cases h
        exact ⟨p, msg, rest, rfl, rfl, .inr ⟨hw, rfl⟩⟩

theorem step_timeout (h : s.step dry .timeout = some s') :
    ∃ p, s.pending = some p ∧
      ((∃ op, p.waiting = .op op ∧ s' = s.finishOp op p true (.error (timeoutExn dry))) ∨
        p.waiting = .stream ∧ s' = { s with pending := none }) := by
  unfold step at h
  simp only at h
  cases hp : s.pending with
  | none => rw [hp] at h; cases h
  | some p =>
    rw [hp] at h
    simp only at h
    cases hw : p.waiting with
    | op op =>
      rw [hw] at h
      cases h
      exact ⟨p, rfl, .inl ⟨op, hw, rfl⟩⟩
    | stream =>
      rw [hw] at h
      cases h
      exact ⟨p, rfl, .inr ⟨hw, rfl⟩⟩

theorem step_answer {frames : List Bytes} (h : s.step dry (.answer frames) = some s') :
    ∃ r rest, s.inbox = r :: rest ∧ s' = { s with
      conn := { s.conn with incoming := s.conn.incoming ++ frames }
      inbox := rest
      answered := s.answered ++ [(r, frames)] } := by
  unfold step at h
  simp only at h
  cases hi : s.inbox with
  | nil => rw [hi] at h; cases h
  | cons r rest =>
    rw [hi] at h
    cases h
    exact ⟨r, rest, rfl, rfl⟩

theorem step_push {frames : List Bytes} (h : s.step dry (.push frames) = some s') :
    s' = { s with conn := { s.conn with incoming := s.conn.incoming ++ frames } } := by
  unfold step at h
  cases h
  rfl

end Sys

/-! ## Answers -/

/-- A well-formed notification of some property. -/
def IsNote (msg : Bytes) : Prop := ∃ key value, IsNotify msg key value

/-- A valid frame of another kind that carries the sequence id `seq`. -/
def IsOwn (seq : UInt32) (msg : Bytes) : Prop :=
  ∃ f : Frame, msg = f.bytes ∧ f.IsAnswer ∧ f.hdr.sequenceId = seq

/-- A reply to the request `seq`: a result or an error. -/
def IsReplyFrame (seq : UInt32) (msg : Bytes) : Prop :=
  ∃ f : Frame, msg = f.bytes ∧ f.Valid ∧ (f.hdr.type = .result ∨ f.hdr.type = .error) ∧
    f.hdr.sequenceId = seq

theorem IsReplyFrame.isOwn {seq : UInt32} {msg : Bytes} (h : IsReplyFrame seq msg) :
    IsOwn seq msg := by
  obtain ⟨f, hf, hv, ht, hs⟩ := h
  refine ⟨f, hf, ⟨hv, ?_⟩, hs⟩
  rcases ht with ht | ht
  · rw [ht]; decide
  · rw [ht]; decide

theorem IsOwn.not_isNote {seq : UInt32} {msg : Bytes} (h : IsOwn seq msg) : ¬ IsNote msg := by
  obtain ⟨f, rfl, hf, -⟩ := h
  rintro ⟨key, value, g, hg, -, ht, -⟩
  rw [Frame.bytes_inj hg] at hf
  exact hf.2 ht

/-- What an operation makes of a reply is never the mismatch of `recv_reply`. -/
theorem Op.finish_ne_seqMismatch (op : Op) {seq : UInt32} {msg : Bytes}
    (h : IsReplyFrame seq msg) : op.finish (.ofBytes msg) ≠ .error seqMismatch := by
  obtain ⟨f, rfl, hv, ht, -⟩ := h
  unfold Op.finish
  rcases expectResult_run hv op with ⟨-, he⟩ | ⟨hne, e, b, he, hm⟩
  · rw [he]
    cases op with
    | createObject typeId constructorId args =>
      have hd := Fixed.decodeObjectRef.ends (.cut (encodeHeader f.hdr) f.payload)
      simp only
      cases hr : decodeObjectRef.run (.cut (encodeHeader f.hdr) f.payload) with
      | ok ref b => exact fun h => by cases h
      | error e b =>
        intro h
        exact underflow_ne_seqMismatch (hd.error hr) (Except.error.inj h)
    | _ => exact fun h => by cases h
  · rw [he]
    intro h
    exact hm (ht.resolve_left hne) (Except.error.inj h)

/-- The answer to `r`, notifications allowed anywhere in it: nothing, exactly one reply, or at
least one frame, all of them the request's own. -/
def Complete (r : Request) (frames : List Bytes) : Prop :=
  match r.kind with
  | .none => ∀ m ∈ frames, IsNote m
  | .one => ∃ pre m post, frames = pre ++ m :: post ∧ (∀ x ∈ pre, IsNote x) ∧
      (∀ x ∈ post, IsNote x) ∧ IsReplyFrame r.seq m
  | .many => (∀ m ∈ frames, IsNote m ∨ IsOwn r.seq m) ∧ ∃ m ∈ frames, IsOwn r.seq m

end Song
