import Song.PyConnection

/-!
# Calls over Python's connection (`ServiceConnection.call`)

A call sends its message in as many pieces as the socket takes, and reads one frame. Where that is
the frame of a result or of an error under the call's sequence id, the call returns its payload
or raises its text, and nothing of it is left for the next call (`response_result`,
`response_error`). What the socket does is told by two lists: how the calls of `send` end, and the
pieces that `recv` meets.
-/

namespace Song.PyConnection

open Compiler (PyError PyDec Val pyRead pyDecodeU32 pyDecodePrim validUtf8)
open PyWire (headerSize)

/-- How a call of `send` on the socket ends. -/
inductive Sent where
  | took (n : Nat)
  | failed (msg : Str)

/-- The connection with what `call` uses of it. -/
structure Caller extends ServiceConnection where
  sequenceId : Nat
  /-- How the next calls of `send` end; those behind them take all they are given. -/
  sends : List Sent
  written : Bytes

/-- The exceptions of `call`. -/
inductive CallError where
  | connection (e : ConnError)
  | serviceError (message : Val) (code : Nat)

abbrev Calling (α : Type) := EStateM CallError Caller α

/-- What is done with the connection alone. -/
def onConnection {α : Type} (x : Py α) : Calling α := fun c =>
  match x.run c.toServiceConnection with
  | .ok a conn => .ok a { c with toServiceConnection := conn }
  | .error e conn => .error (.connection e) { c with toServiceConnection := conn }

/-! ## Sending -/

inductive SendEnd where
  | sent
  /-- `send` took nothing. -/
  | broken
  | failed (msg : Str)

/-- The loop of `_send_all`: what was taken, the sends left, and how it ended. -/
def sendRest : List Sent → Bytes → Bytes × List Sent × SendEnd
  | sends, [] => ([], sends, .sent)
  | [], data => (data, [], .sent)
  | .failed msg :: sends, _ => ([], sends, .failed msg)
  | .took n :: sends, data =>
    if n = 0 then ([], sends, .broken)
    else
      let rest := sendRest sends (data.drop n)
      (data.take n ++ rest.1, rest.2)

def sendAll (data : Bytes) : Calling Unit := fun c =>
  let r := sendRest c.sends data
  let c' := { c with written := c.written ++ r.1, sends := r.2.1 }
  match r.2.2 with
  | .sent => .ok () c'
  | .broken => .error (.connection (.connectionError (lit "Socket connection broken"))) c'
  | .failed msg =>
    .error (.connection (.connectionError (lit "Send failed: " ++ msg)))
      { c' with connected := false }

/-- The first half of `call`: number the call and send its message. -/
def request (serviceId methodId : Int) (request : Bytes) : Calling Nat := do
  let c ← get
  if c.isConnected = false then
    throw (.connection (.connectionError (lit "Not connected to service")))
  else
    let seqId := c.sequenceId + 1
    modify fun c => { c with sequenceId := seqId }
    let message ← onConnection (raise ((PyWire.createCallMessage seqId serviceId methodId
      request).mapError .decoding))
    sendAll message
    return seqId

/-! ## Receiving -/

/-- What becomes of the payload of the reply. -/
def settle (msgType : PyWire.MsgType) (payload : Bytes) : Calling Buffer :=
  match msgType with
  | .result => return .ofBytes payload
  | .error => do
    let decoded ← onConnection (raise (decode PyWire.decodeErrorMessage (.ofBytes payload)))
    throw (.serviceError decoded.1.2 decoded.1.1)
  | _ => throw (.connection (.protocolError (lit "Unexpected response type: " ++
      toStr msgType.value)))

/-- The second half of `call`: read the reply. -/
def response (seqId : Nat) : Calling Buffer := do
  let headerData ← onConnection (recvExact headerSize)
  let header ← onConnection (raise ((PyWire.decodeHeader headerData).mapError .ofHeader))
  if header.sequenceId ≠ seqId then
    throw (.connection (.protocolError (lit "Sequence ID mismatch: expected " ++ toStr seqId ++
      lit ", got " ++ toStr header.sequenceId)))
  else
    let payload ← onConnection (if header.payloadSize > 0 then recvExact header.payloadSize
      else pure [])
    settle header.msgType payload

def call (serviceId methodId : Int) (req : Bytes) : Calling Buffer := do
  let seqId ← request serviceId methodId req
  response seqId

/-! ## A call that is sent -/

/-- Every send takes something. -/
def Takes (sends : List Sent) : Prop := ∀ x ∈ sends, ∃ n, x = .took (n + 1)

theorem Takes.tail {x : Sent} {sends : List Sent} (h : Takes (x :: sends)) : Takes sends :=
  fun y hy => h y (List.mem_cons_of_mem _ hy)

theorem sendRest_takes {sends : List Sent} (h : Takes sends) (data : Bytes) :
    ∃ left, sendRest sends data = (data, left, .sent) ∧ Takes left := by
  induction sends generalizing data with
  | nil =>
    refine ⟨[], ?_, h⟩
    cases data <;> rfl
  | cons x sends ih =>
    cases data with
    | nil => exact ⟨x :: sends, rfl, h⟩
    | cons b data =>
      obtain ⟨n, rfl⟩ := h x List.mem_cons_self
      obtain ⟨left, hrest, hleft⟩ := ih h.tail ((b :: data).drop (n + 1))
      refine ⟨left, ?_, hleft⟩
      simp only [sendRest, hrest]
      rw [if_neg n.succ_ne_zero, List.take_append_drop]

theorem onConnection_ok {α : Type} {x : Py α} {c : Caller} {a : α} {conn : ServiceConnection}
    (h : x.run c.toServiceConnection = .ok a conn) :
    (onConnection x).run c = .ok a { c with toServiceConnection := conn } := by
  simp only [EStateM.run] at h ⊢
  unfold onConnection
  simp only [EStateM.run, h]

theorem raise_ok {α : Type} {x : Except ConnError α} {a : α} (h : x = .ok a) (c : Caller) :
    (onConnection (raise x)).run c = .ok a c := by
  subst h
  rfl

theorem raise_error {α : Type} {x : Except ConnError α} {e : ConnError} (h : x = .error e)
    (c : Caller) : (onConnection (raise x)).run c = .error (.connection e) c := by
  subst h
  rfl

theorem sendAll_takes {c : Caller} (h : Takes c.sends) (data : Bytes) :
    ∃ left, Takes left ∧ (sendAll data).run c =
      .ok () { c with written := c.written ++ data, sends := left } := by
  obtain ⟨left, hrest, hleft⟩ := sendRest_takes h data
  refine ⟨left, hleft, ?_⟩
  simp only [EStateM.run, sendAll, hrest]

/-- The connection is open, nothing is on its way to it, and what it sends is taken. -/
structure Caller.Ready (c : Caller) : Prop where
  connected : c.connected = true
  socket : ∃ s, c.socket = some s ∧ Feed.data s.arrivals = []
  takes : Takes c.sends

/-- The call has its number and its message is sent, in whatever pieces. -/
theorem request_run {c : Caller} (h : c.Ready) {seq : UInt32} (hseq : c.sequenceId + 1 = seq.toNat)
    (serviceId methodId : UInt16) {req : Bytes} (hreq : req.length ≤ kMaxPayloadSize) :
    ∃ left, Takes left ∧ (request serviceId.toNat methodId.toNat req).run c =
      .ok seq.toNat { c with
        sequenceId := seq.toNat
        sends := left
        written := c.written ++ createCallMessage seq serviceId methodId req } := by
  obtain ⟨s, hs, -⟩ := h.socket
  let c₁ : Caller := { c with sequenceId := c.sequenceId + 1 }
  have htakes : Takes c₁.sends := h.takes
  obtain ⟨left, hleft, hsent⟩ :=
    sendAll_takes htakes (createCallMessage seq serviceId methodId req)
  refine ⟨left, hleft, ?_⟩
  have hopen : c.isConnected = true := isConnected_of hs h.connected
  have hmsg := (PyWire.createCallMessage_eq seq serviceId methodId hreq).1
  rw [← hseq] at hmsg
  have hbuilt : (PyWire.createCallMessage (c.sequenceId + 1 : Nat) serviceId.toNat methodId.toNat
      req).mapError ConnError.decoding = .ok (createCallMessage seq serviceId methodId req) := by
    rw [hmsg]
    rfl
  unfold request
  have hget : (get : Calling Caller).run c = .ok c c := rfl
  have hmodify : (modify fun c => { c with sequenceId := c₁.sequenceId } : Calling Unit).run c =
      .ok () c₁ := rfl
  rw [Eff.run_bind_ok hget, if_neg (by rw [hopen]; exact Bool.noConfusion)]
  refine (Eff.run_bind_ok hmodify).trans ?_
  refine (Eff.run_bind_ok (raise_ok hbuilt c₁)).trans ((Eff.run_bind_ok hsent).trans ?_)
  rw [← hseq]
  rfl

/-! ## A reply that is there -/

/-- The bytes that `recv` will meet. -/
def Caller.Holds (c : Caller) (bytes : Bytes) : Prop :=
  ∃ s, c.socket = some s ∧ Feed.data s.arrivals = bytes

theorem receive_run {c : Caller} {n : Nat} {bytes : Bytes} (h : c.Holds bytes)
    (hn : n ≤ bytes.length) :
    ∃ s, Feed.data s.arrivals = bytes.drop n ∧ (onConnection (recvExact n)).run c =
      .ok (bytes.take n) { c with socket := some s } := by
  obtain ⟨s, hs, rfl⟩ := h
  obtain ⟨arrivals, hdata, hrun⟩ := recvExact_ok hs hn
  exact ⟨{ s with arrivals }, hdata, onConnection_ok hrun⟩

/-- The frame under the call's number is read, and its payload settles the call. -/
theorem response_run {c : Caller} {type : MsgType} {msgType : PyWire.MsgType}
    (ht : type.code.toNat = msgType.value) {seq : UInt32} {payload : Bytes}
    (hsize : payload.length ≤ PyWire.maxPayloadSize)
    (h : c.Holds (createMessage type seq payload)) :
    ∃ s, Feed.data s.arrivals = [] ∧ (response seq.toNat).run c =
      (settle msgType payload).run { c with socket := some s } := by
  obtain ⟨hmsg, hdrop⟩ := PyWire.decodeHeader_createMessage ht seq hsize
  have hlen : headerSize ≤ (createMessage type seq payload).length := by
    have hbytes : createMessage type seq payload = (message type seq payload).bytes := rfl
    rw [hbytes, Frame.length_bytes]
    exact Nat.le_add_right 16 _
  obtain ⟨s₁, hs₁, hrun₁⟩ := receive_run h hlen
  let c₁ : Caller := { c with socket := some s₁ }
  have hheader : (PyWire.decodeHeader ((createMessage type seq payload).take headerSize)).mapError
      ConnError.ofHeader = .ok ⟨PyWire.magic, msgType, 0, seq.toNat, payload.length⟩ := by
    show (PyWire.decodeHeader ((createMessage type seq payload).take 16)).mapError _ = _
    rw [hmsg]
    rfl
  have hholds : c₁.Holds payload := ⟨s₁, rfl, hs₁.trans hdrop⟩
  obtain ⟨s₂, hs₂, hrun₂⟩ : ∃ s, Feed.data s.arrivals = [] ∧
      (onConnection (if payload.length > 0 then recvExact payload.length else pure [])).run c₁ =
        .ok payload { c with socket := some s } := by
    by_cases hpos : payload.length > 0
    · obtain ⟨s, hs, hrun⟩ := receive_run hholds (Nat.le_refl _)
      refine ⟨s, ?_, ?_⟩
      · rw [hs, List.drop_length]
      · rw [if_pos hpos, hrun, List.take_length]
    · obtain rfl : payload = [] := List.eq_nil_of_length_eq_zero (by omega)
      exact ⟨s₁, hs₁.trans hdrop, by rw [if_neg hpos]; rfl⟩
  refine ⟨s₂, hs₂, ?_⟩
  unfold response
  rw [Eff.run_bind_ok hrun₁, Eff.run_bind_ok (raise_ok hheader c₁), if_neg fun hne => hne rfl,
    Eff.run_bind_ok hrun₂]

/-- A result is returned. -/
theorem response_result {c : Caller} {seq : UInt32} {w : Bytes}
    (h : c.Holds (createResultMessage seq w)) (hw : w.length ≤ kMaxPayloadSize) :
    ∃ s, Feed.data s.arrivals = [] ∧ (response seq.toNat).run c =
      .ok (.ofBytes w) { c with socket := some s } := by
  have hsize : w.length ≤ PyWire.maxPayloadSize := by
    simp only [kMaxPayloadSize] at hw
    simp only [PyWire.maxPayloadSize]
    omega
  obtain ⟨s, hs, hrun⟩ := @response_run c .result .result rfl seq w hsize h
  exact ⟨s, hs, hrun⟩

theorem decodeErrorMessage_run (code : UInt16) {text : Str} (h : text.length ≤ kMaxStringSize) :
    ∃ b, PyWire.decodeErrorMessage.run
        (.ofBytes (encodeU16 code ++ (encodeU32 (UInt32.ofNat text.length) ++ text))) =
      if validUtf8 text then .ok (code.toNat, .string text) b else .error .unicodeError b := by
  have hcount : text.length < 2 ^ 32 := by
    simp only [kMaxStringSize] at h
    omega
  have hcode := PyWire.reads_decodeU16 code [] (encodeU32 (UInt32.ofNat text.length) ++ text)
  have hlen := Compiler.reads_pyDecodeU32 hcount ([] ++ encodeU16 code) text
  have htext := Compiler.reads_pyRead (w := text) rfl
    ([] ++ encodeU16 code ++ Compiler.encodeCount text.length) []
  rw [List.append_nil] at htext
  rw [Buffer.ofBytes_eq_cut, PyWire.decodeErrorMessage, Eff.run_bind_ok hcode]
  unfold pyDecodePrim
  refine ⟨.cut ([] ++ encodeU16 code ++ Compiler.encodeCount text.length ++ text) [], ?_⟩
  by_cases hu : validUtf8 text = true
  · rw [if_pos hu]
    refine Eff.run_bind_ok ((Eff.run_bind_ok hlen).trans ((Eff.run_bind_ok htext).trans ?_))
    rw [if_pos hu]
    rfl
  · rw [if_neg hu]
    refine Eff.run_bind_error ((Eff.run_bind_ok hlen).trans ((Eff.run_bind_ok htext).trans ?_))
    rw [if_neg hu]
    rfl

/-- An error's text and code are raised, if the text is one. -/
theorem response_error {c : Caller} {seq : UInt32} {code : ErrorCode} {text : Str} {m : Bytes}
    (hm : createErrorMessage seq code text = .ok m) (h : c.Holds m)
    (htext : text.length ≤ kMaxStringSize) :
    ∃ s, Feed.data s.arrivals = [] ∧ (response seq.toNat).run c =
      .error (if validUtf8 text then .serviceError (.string text) code.toU16.toNat
        else .connection (.decoding .unicodeError)) { c with socket := some s } := by
  rw [createErrorMessage_ok seq code htext] at hm
  cases hm
  have hsize : (encodeU16 code.toU16 ++ (encodeU32 (UInt32.ofNat text.length) ++ text)).length ≤
      PyWire.maxPayloadSize := by
    simp only [kMaxStringSize] at htext
    simp only [List.length_append, length_encodeU16, length_encodeU32, PyWire.maxPayloadSize]
    omega
  obtain ⟨s, hs, hrun⟩ := @response_run c .error .error rfl seq _ hsize h
  refine ⟨s, hs, hrun.trans ?_⟩
  obtain ⟨b, hdecode⟩ := decodeErrorMessage_run code.toU16 htext
  unfold settle
  by_cases hu : validUtf8 text = true
  · rw [if_pos hu] at hdecode ⊢
    have hread : decode PyWire.decodeErrorMessage (.ofBytes (encodeU16 code.toU16 ++
        (encodeU32 (UInt32.ofNat text.length) ++ text))) =
          .ok ((code.toU16.toNat, .string text), b) := by
      rw [decode, hdecode]
    exact (Eff.run_bind_ok (raise_ok hread _)).trans rfl
  · rw [if_neg hu] at hdecode ⊢
    refine Eff.run_bind_error (raise_error ?_ _)
    rw [decode, hdecode]

end Song.PyConnection
