import Song.Transport.Calls

/-!
# Messages out of pieces (`transport.cpp`, `process.cpp`)

What a `receive` returns is a matter of the bytes that arrive and of the pieces
they arrive in. A TCP transport returns the messages that were sent however the
stream is cut (`tcp_receives_sent`). A pipe receiver does exactly if no piece ends
inside a header (`pipe_receives_iff`): it calls `read` once for a header, and takes
a part of it for the whole.
-/

namespace Song

open Feed (Arrival data CutAt)
open Inbound

/-- The header announces the payload, and the payload is not too large. -/
def Frame.Fits (f : Frame) : Prop :=
  f.hdr.payloadSize.toNat = f.payload.length ∧ f.payload.length ≤ kMaxPayloadSize

instance (f : Frame) : Decidable f.Fits := inferInstanceAs (Decidable (_ ∧ _))

/-- A header and the payload it announces. -/
def WellFormed (msg : Bytes) : Prop := ∃ f : Frame, f.Fits ∧ msg = f.bytes

variable {s : Inbound}

/-! ## The payload -/

section
variable (exns : PayloadExns) {size : Nat}

theorem receiveBody_ok (hmax : size ≤ kMaxPayloadSize) (hlen : size ≤ (data s.arrivals).length) :
    (receiveBody exns size).run s = .ok true
      { s with
        arrivals := (Feed.readUpTo size s.arrivals).2
        msg := .ofBytes (s.msg.data ++ (data s.arrivals).take size) } := by
  unfold receiveBody
  by_cases h0 : size = 0
  · subst h0
    rw [if_pos rfl, List.take_zero, List.append_nil, Feed.readUpTo_zero]
    rfl
  · have hread : (readUpTo size).run s = .ok ((data s.arrivals).take size)
        { s with arrivals := (Feed.readUpTo size s.arrivals).2 } := by
      rw [← Feed.readUpTo_fst]
      rfl
    have hfull : ¬ ((data s.arrivals).take size).length < size := by
      rw [List.length_take]
      omega
    rw [if_neg h0, if_neg (by omega), Eff.run_bind_ok hread, if_neg hfull]
    rfl

theorem receiveBody_refused (h : kMaxPayloadSize < size) :
    (receiveBody exns size).run s = .error exns.tooLarge s := by
  have h0 : size ≠ 0 := by omega
  rw [receiveBody, if_neg h0, if_pos h]
  rfl

theorem receiveBody_short (hmax : size ≤ kMaxPayloadSize)
    (hlen : (data s.arrivals).length < size) :
    (receiveBody exns size).run s = .error (s.failure.elim exns.closed fun _ => exns.failed)
      { s with arrivals := (Feed.readUpTo size s.arrivals).2, failure := none } := by
  have hread : (readUpTo size).run s = .ok ((data s.arrivals).take size)
      { s with arrivals := (Feed.readUpTo size s.arrivals).2 } := by
    rw [← Feed.readUpTo_fst]
    rfl
  have hpart : ((data s.arrivals).take size).length < size := by
    rw [List.length_take]
    omega
  have h0 : size ≠ 0 := by omega
  have hend : ending.run { s with arrivals := (Feed.readUpTo size s.arrivals).2 } =
      .ok s.failure { s with arrivals := (Feed.readUpTo size s.arrivals).2, failure := none } := rfl
  rw [receiveBody, if_neg h0, if_neg (by omega), Eff.run_bind_ok hread, if_pos hpart,
    Eff.run_bind_ok hend]
  cases s.failure with
  | none => rfl
  | some err => rfl

/-- Behind a header the size is the announced one and the message holds the header. -/
theorem receivePayload_run (hdr : Header) (hmsg : s.msg = .empty) :
    (receivePayload exns (encodeHeader hdr)).run s =
      (receiveBody exns hdr.payloadSize.toNat).run { s with msg := .cut (encodeHeader hdr) [] } := by
  have hset : (modify fun s => { s with msg := (s.msg.write (encodeHeader hdr)).resetRead } :
      Recv PUnit).run s = .ok ⟨⟩ { s with msg := .ofBytes (encodeHeader hdr) } := by
    show EStateM.Result.ok _ { s with msg := (s.msg.write (encodeHeader hdr)).resetRead } = _
    rw [hmsg]
    rfl
  have hd := decodeHeader_cut hdr [] []
  rw [List.append_nil, ← Buffer.ofBytes_eq_cut, List.nil_append] at hd
  have hmsg' : (onMsg decodeHeader).run { s with msg := .ofBytes (encodeHeader hdr) } =
      .ok hdr { s with msg := .cut (encodeHeader hdr) [] } := by
    simp only [EStateM.run, onMsg] at hd ⊢
    rw [hd]
  rw [receivePayload, Eff.run_bind_ok hset, Eff.run_bind_ok hmsg']

end

/-! ## A TCP transport -/

namespace TcpTransport

theorem receive_run {wait : Wait} (hw : wait.Ready) (hs : s.connected = true) :
    (receive wait).run s = receiveMessage.run s := by
  have hget : (get : Recv Inbound).run s = .ok s s := rfl
  have hpoll : (poll wait).run s = .ok true s := by
    cases wait with
    | forever => rfl
    | timedOut => exact hw.elim
    | failed err => exact hw.elim
    | ready pollin pollerr =>
      cases pollerr with
      | false => rfl
      | true => rw [hw rfl]; rfl
  rw [receive, Eff.run_bind_ok hget, if_pos hs, Eff.run_bind_ok hpoll]

theorem receiveMessage_short (h : (data s.arrivals).length < 16) :
    receiveMessage.run s =
      (match s.failure with
        | none => pure false
        | some err => throw (.serviceError (lit "TcpTransport: recv failed: " ++ err)) :
          Recv Bool).run
        { s with arrivals := (Feed.readUpTo 16 s.arrivals).2, failure := none, msg := .empty } := by
  have hset : (modify fun s => { s with msg := .empty } : Recv PUnit).run s =
      .ok ⟨⟩ { s with msg := .empty } := rfl
  have hread : (readUpTo 16).run { s with msg := .empty } = .ok (data s.arrivals)
      { s with arrivals := (Feed.readUpTo 16 s.arrivals).2, msg := .empty } := by
    have htake : (Feed.readUpTo 16 s.arrivals).1 = data s.arrivals := by
      rw [Feed.readUpTo_fst, List.take_of_length_le (by omega)]
    rw [← htake]
    rfl
  rw [receiveMessage, Eff.run_bind_ok hset, Eff.run_bind_ok hread, if_pos h]
  rfl

theorem receiveMessage_header {hdr : Header} {rest : Bytes}
    (h : data s.arrivals = encodeHeader hdr ++ rest) :
    receiveMessage.run s =
      (receiveBody payloadExns hdr.payloadSize.toNat).run
        { s with
          arrivals := (Feed.readUpTo 16 s.arrivals).2
          msg := .cut (encodeHeader hdr) [] } := by
  have hset : (modify fun s => { s with msg := .empty } : Recv PUnit).run s =
      .ok ⟨⟩ { s with msg := .empty } := rfl
  have hread : (readUpTo 16).run { s with msg := .empty } = .ok (encodeHeader hdr)
      { s with arrivals := (Feed.readUpTo 16 s.arrivals).2, msg := .empty } := by
    have htake : (Feed.readUpTo 16 s.arrivals).1 = encodeHeader hdr := by
      rw [Feed.readUpTo_fst, h, List.take_left' (length_encodeHeader _)]
    rw [← htake]
    rfl
  have hfull : ¬ (encodeHeader hdr).length < 16 := by rw [length_encodeHeader]; omega
  rw [receiveMessage, Eff.run_bind_ok hset, Eff.run_bind_ok hread, if_neg hfull,
    receivePayload_run _ _ rfl]

/-- A message at the front of the stream is returned, whatever the pieces. -/
theorem receiveMessage_frame {f : Frame} (hf : f.Fits) {rest : Bytes}
    (h : data s.arrivals = f.bytes ++ rest) :
    ∃ arrivals, receiveMessage.run s =
      .ok true { s with arrivals := arrivals, msg := .ofBytes f.bytes } ∧ data arrivals = rest := by
  obtain ⟨hsize, hmax⟩ := hf
  have hd : data (Feed.readUpTo 16 s.arrivals).2 = f.payload ++ rest := by
    rw [Feed.data_readUpTo, h, Frame.bytes, List.append_assoc,
      List.drop_left' (length_encodeHeader _)]
  rw [receiveMessage_header (h.trans (List.append_assoc _ _ _)), hsize]
  have hbody := receiveBody_ok (s := { s with
      arrivals := (Feed.readUpTo 16 s.arrivals).2
      msg := .cut (encodeHeader f.hdr) [] }) payloadExns hmax
    (by rw [hd, List.length_append]; omega)
  rw [hbody]
  refine ⟨(Feed.readUpTo f.payload.length (Feed.readUpTo 16 s.arrivals).2).2, ?_, ?_⟩
  · simp only [hd, List.take_left, Buffer.cut_data, List.append_nil]
    rfl
  · rw [Feed.data_readUpTo, hd, List.drop_left]

/-- The end of the stream is `false`. -/
theorem receiveMessage_end (h : data s.arrivals = []) (hs : s.failure = none) :
    ∃ arrivals, receiveMessage.run s =
      .ok false { s with arrivals := arrivals, msg := .empty } ∧ data arrivals = [] := by
  refine ⟨(Feed.readUpTo 16 s.arrivals).2, ?_, by rw [Feed.data_readUpTo, h]; rfl⟩
  rw [receiveMessage_short (by rw [h]; decide), hs]
  show EStateM.Result.ok false _ = _
  rw [← hs]

/-- Call by call the transport does what `StreamTransport.receive` does on the bytes. -/
theorem receive_refines {wait : Wait} (hw : wait.Ready) (hs : s.connected = true)
    (hfail : s.failure = none) :
    match StreamTransport.tcp.receive (data s.arrivals) with
    | .ok none => ∃ s', (receive wait).run s = .ok false s'
    | .ok (some (m, rest)) => ∃ s', (receive wait).run s = .ok true s' ∧
        s'.msg = .ofBytes m ∧ data s'.arrivals = rest
    | .error e => ∃ s', (receive wait).run s = .error e s' := by
  rw [receive_run hw hs]
  by_cases hshort : (data s.arrivals).length < 16
  · have hstream : StreamTransport.tcp.receive (data s.arrivals) = .ok none := by
      unfold StreamTransport.receive
      split
      · rfl
      · rfl
    rw [hstream, receiveMessage_short hshort, hfail]
    exact ⟨_, rfl⟩
  · obtain ⟨f, hf⟩ := exists_frame (show 16 ≤ (data s.arrivals).length by omega)
    have hlen := f.length_bytes
    have hsnd : data (Feed.readUpTo 16 s.arrivals).2 = f.payload := by
      rw [Feed.data_readUpTo, hf, f.drop_bytes]
    have hstream : StreamTransport.tcp.receive f.bytes =
        StreamTransport.tcp.receivePayload (encodeHeader f.hdr) f.payload f.hdr := by
      have hne : f.bytes ≠ [] := by
        intro hnil
        rw [hnil] at hlen
        simp only [List.length_nil] at hlen
        omega
      have htake : f.bytes.take 16 = encodeHeader f.hdr := by
        rw [Frame.bytes, List.take_left' (length_encodeHeader _)]
      have hd := decodeHeader_cut f.hdr [] []
      rw [List.append_nil, ← Buffer.ofBytes_eq_cut] at hd
      rw [StreamTransport.receive, if_neg hne, if_neg (by omega), htake, f.drop_bytes, hd]
    rw [receiveMessage_header hf, hf, hstream]
    simp only [StreamTransport.receivePayload]
    by_cases hmax : kMaxPayloadSize < f.hdr.payloadSize.toNat
    · rw [if_pos hmax, receiveBody_refused _ hmax]
      exact ⟨_, rfl⟩
    · rw [if_neg hmax]
      by_cases hpart : f.payload.length < f.hdr.payloadSize.toNat
      · rw [if_pos hpart, receiveBody_short _ (by omega) (by simp only [hsnd]; exact hpart)]
        simp only [hfail]
        exact ⟨_, rfl⟩
      · rw [if_neg hpart, receiveBody_ok _ (by omega) (by simp only [hsnd]; omega)]
        refine ⟨_, rfl, ?_, ?_⟩
        · simp only [hsnd, Buffer.cut_data, List.append_nil]
        · rw [Feed.data_readUpTo]
          simp only [hsnd]

end TcpTransport

/-! ## Successive calls -/

section
variable {receive : Wait → Recv Bool} {wait : Wait} {msg : Buffer} {calls : List (Wait × Buffer)}

theorem receiveEach_msg (s : Inbound) (b : Buffer) :
    receiveEach receive calls { s with msg := b } = receiveEach receive calls s := by
  cases calls <;> rfl

theorem receiveEach_ok {b : Bool} {s' : Inbound}
    (h : (receive wait).run { s with msg := msg } = .ok b s') :
    receiveEach receive ((wait, msg) :: calls) s = (.ok b, s'.msg) :: receiveEach receive calls s' := by
  simp only [receiveEach, h]

theorem receiveEach_error {e : Exn} {s' : Inbound}
    (h : (receive wait).run { s with msg := msg } = .error e s') :
    receiveEach receive ((wait, msg) :: calls) s =
      (.error e, s'.msg) :: receiveEach receive calls s' := by
  simp only [receiveEach, h]

end

/-- A call that returned this message. -/
def returned (msg : Bytes) : Except Exn Bool × Buffer := (.ok true, .ofBytes msg)

namespace TcpTransport

/-- Each of the first calls returns the next message, and the stream goes on behind the last. -/
theorem receiveEach_frames (frames : List Frame) (calls more : List (Wait × Buffer))
    (rest : Bytes) (hf : ∀ f ∈ frames, f.Fits) (hlen : calls.length = frames.length)
    (hw : ∀ c ∈ calls, c.1.Ready) (hs : s.connected = true)
    (hd : data s.arrivals = frames.flatMap Frame.bytes ++ rest) :
    ∃ arrivals, data arrivals = rest ∧
      receiveEach receive (calls ++ more) s =
        frames.map (fun f => returned f.bytes) ++
          receiveEach receive more { s with arrivals := arrivals } := by
  induction frames generalizing s calls with
  | nil =>
    obtain rfl := List.length_eq_zero_iff.mp hlen
    exact ⟨s.arrivals, hd, rfl⟩
  | cons f frames ih =>
    obtain ⟨hfit, hfs⟩ := List.forall_mem_cons.mp hf
    match calls, hlen with
    | (wait, msg) :: calls, hlen =>
      obtain ⟨hwait, hws⟩ := List.forall_mem_cons.mp hw
      rw [List.flatMap_cons, List.append_assoc] at hd
      obtain ⟨arrivals, hrun, hrest⟩ :=
        receiveMessage_frame (s := { s with msg := msg }) hfit hd
      rw [← receive_run (s := { s with msg := msg }) hwait hs] at hrun
      obtain ⟨arrivals', hd', heq⟩ := ih (s := { s with
        arrivals := arrivals, msg := .ofBytes f.bytes }) calls hfs (Nat.succ.inj hlen) hws hs hrest
      refine ⟨arrivals', hd', ?_⟩
      rw [List.cons_append, receiveEach_ok hrun, heq]
      rw [← receiveEach_msg { s with arrivals := arrivals' } (.ofBytes f.bytes)]
      rfl

/-- Every call at the end of the stream returns `false`. -/
theorem receiveEach_end {calls : List (Wait × Buffer)} (hw : ∀ c ∈ calls, c.1.Ready) (hs : s.connected = true)
    (hfail : s.failure = none) (hd : data s.arrivals = []) :
    receiveEach receive calls s = calls.map fun _ => (.ok false, .empty) := by
  induction calls generalizing s with
  | nil => rfl
  | cons c calls ih =>
    obtain ⟨wait, msg⟩ := c
    obtain ⟨hwait, hws⟩ := List.forall_mem_cons.mp hw
    obtain ⟨arrivals, hrun, hrest⟩ :=
      receiveMessage_end (s := { s with msg := msg }) hd hfail
    rw [← receive_run (s := { s with msg := msg }) hwait hs] at hrun
    have hcalls := ih (s := { s with arrivals := arrivals, msg := .empty }) hws hs hfail hrest
    rw [receiveEach_ok hrun, hcalls]
    rfl

end TcpTransport

theorem exists_frames (msgs : List Bytes) (h : ∀ m ∈ msgs, WellFormed m) :
    ∃ frames : List Frame, (∀ f ∈ frames, f.Fits) ∧ msgs = frames.map Frame.bytes := by
  induction msgs with
  | nil => exact ⟨[], fun f hf => (by cases hf), rfl⟩
  | cons m msgs ih =>
    obtain ⟨⟨f, hf, rfl⟩, hms⟩ := List.forall_mem_cons.mp h
    obtain ⟨frames, hfs, rfl⟩ := ih hms
    exact ⟨f :: frames, List.forall_mem_cons.mpr ⟨hf, hfs⟩, rfl⟩

/-- The receiving end of a connected transport, behind which the peer closes. -/
def Inbound.opened (arrivals : List (Arrival UInt8)) : Inbound := ⟨true, arrivals, none, .empty⟩

/-- Well-formed messages, each sent in any number of partial writes, arrive cut into any
pieces: the calls return them in order, and `false` at the end of the stream. -/
theorem tcp_receives_sent (sends : List (List SendCall × Buffer))
    (hmsgs : ∀ x ∈ sends, WellFormed x.2.data) (hcalls : ∀ x ∈ sends, ∀ c ∈ x.1, c.Proceeds) :
    ∃ out, (TcpTransport.sendEach sends).run .opened = .ok () out ∧
      ∀ (arrivals : List (Arrival UInt8)) (calls more : List (Wait × Buffer)),
        data arrivals = out.written → calls.length = sends.length →
        (∀ c ∈ calls ++ more, c.1.Ready) →
        receiveEach TcpTransport.receive (calls ++ more) (.opened arrivals) =
          (sends.map fun x => returned x.2.data) ++ more.map fun _ => (.ok false, .empty) := by
  refine ⟨_, TcpTransport.sendEach_run hcalls rfl, fun arrivals calls more hd hlen hw => ?_⟩
  obtain ⟨frames, hf, heq⟩ := exists_frames (sends.map fun x => x.2.data) (by
    intro m hm
    obtain ⟨x, hx, rfl⟩ := List.mem_map.mp hm
    exact hmsgs x hx)
  have hflat : (sends.flatMap fun x => x.2.data) = frames.flatMap Frame.bytes := by
    rw [List.flatMap_def, heq, ← List.flatMap_def]
  have hret : (sends.map fun x => returned x.2.data) = frames.map fun f => returned f.bytes := by
    have := congrArg (List.map returned) heq
    rwa [List.map_map, List.map_map] at this
  have hcount : sends.length = frames.length := by
    have := congrArg List.length heq
    rwa [List.length_map, List.length_map] at this
  obtain ⟨hw, hwm⟩ := List.forall_mem_append.mp hw
  obtain ⟨arrivals', hd', hrun⟩ := TcpTransport.receiveEach_frames (s := .opened arrivals)
    frames calls more [] hf (hlen.trans hcount) hw rfl
    (by rw [List.append_nil, ← hflat]; exact hd)
  rw [hrun, hret, TcpTransport.receiveEach_end hwm rfl rfl hd']

/-- Two results, the first written in three calls. -/
def twoResults : List (List SendCall × Buffer) :=
  [([.takes 2, .interrupted, .takes 12], .ofBytes (createResultMessage 1 [7])),
    ([], .ofBytes (createResultMessage 2 []))]

/-- They arrive in three pieces, each of which ends inside a header. -/
def threePieces : List (Arrival UInt8) :=
  [.piece 71 [78, 79], .interrupted, .piece 83 [0, 3, 0, 0, 1, 0, 0, 0, 1, 0, 0, 0, 7, 71],
    .piece 78 [79, 83, 0, 3, 0, 0, 0, 0, 0, 0, 2, 0, 0, 0]]

theorem wellFormed_createMessage (type : MsgType) (seq : UInt32) {payload : Bytes}
    (h : payload.length ≤ kMaxPayloadSize) : WellFormed (createMessage type seq payload) := by
  refine ⟨message type seq payload, ⟨?_, h⟩, rfl⟩
  simp only [kMaxPayloadSize] at h
  simp only [message, UInt32.toNat_ofNat']
  omega

theorem tcp_receives_sent_twoResults :
    ∃ out, (TcpTransport.sendEach twoResults).run .opened = .ok () out ∧
      receiveEach TcpTransport.receive
          [(.forever, .empty), (.ready true false, .empty), (.forever, .empty)]
          (.opened threePieces) =
        [returned (createResultMessage 1 [7]), returned (createResultMessage 2 []),
          (.ok false, .empty)] := by
  obtain ⟨out, hrun, hret⟩ := tcp_receives_sent twoResults
    (List.forall_mem_cons.mpr ⟨wellFormed_createMessage _ _ (by decide),
      List.forall_mem_singleton.mpr (wellFormed_createMessage _ _ (by decide))⟩)
    (List.forall_mem_cons.mpr ⟨by simp [SendCall.Proceeds],
      List.forall_mem_singleton.mpr (by simp)⟩)
  refine ⟨out, hrun, hret threePieces [(.forever, .empty), (.ready true false, .empty)]
    [(.forever, .empty)] ?_ rfl (by simp [Wait.Ready])⟩
  have hout : (TcpTransport.sendEach twoResults).run .opened =
      .ok () ⟨true, createResultMessage 1 [7] ++ createResultMessage 2 []⟩ := rfl
  rw [hout] at hrun
  cases hrun
  rfl

/-! ## A pipe receiver -/

section
variable (exns : PipeExns)

theorem receivePipe_run {wait : Wait} (hw : wait.Ready) (hs : s.connected = true) :
    (receivePipe exns wait).run s = (receivePipeMessage exns).run { s with msg := .empty } := by
  have hget : (get : Recv Inbound).run s = .ok s s := rfl
  have hset : (modify fun s => { s with msg := .empty } : Recv PUnit).run s =
      .ok ⟨⟩ { s with msg := .empty } := rfl
  unfold receivePipe
  rw [Eff.run_bind_ok hget, if_pos hs, Eff.run_bind_ok hset]
  cases wait with
  | forever => rfl
  | timedOut => exact hw.elim
  | failed err => exact hw.elim
  | ready pollin pollerr => rfl

/-- A message whose header arrives in one piece is returned; the later pieces end where they
did. -/
theorem receivePipeMessage_whole (hmsg : s.msg = .empty) {f : Frame} (hf : f.Fits) {rest : Bytes}
    (h : data s.arrivals = f.bytes ++ rest) (hcut : ∀ n, 0 < n → n < 16 → ¬ CutAt s.arrivals n) :
    ∃ arrivals, (receivePipeMessage exns).run s =
        .ok true { s with arrivals := arrivals, msg := .ofBytes f.bytes } ∧
      data arrivals = rest ∧
      ∀ n, 0 < n → (CutAt arrivals n ↔ CutAt s.arrivals (f.bytes.length + n)) := by
  obtain ⟨hsize, hmax⟩ := hf
  have hlen : (data s.arrivals).length = 16 + f.payload.length + rest.length := by
    rw [h, List.length_append, f.length_bytes]
  -- one call for the header is the whole loop
  have hfull : (Feed.read 16 s.arrivals).1.length = 16 :=
    (Feed.length_read_iff (by omega)).mpr hcut
  have hne : (Feed.read 16 s.arrivals).1 ≠ [] := by
    intro hnil
    rw [hnil] at hfull
    cases hfull
  have hloop : Feed.readUpTo 16 s.arrivals = Feed.read 16 s.arrivals := by
    rw [Feed.readUpTo_succ, if_neg hne, hfull]
    simp only [Nat.reduceAdd, Nat.sub_self, Feed.readUpTo_zero, List.append_nil]
  have hfst : (Feed.read 16 s.arrivals).1 = encodeHeader f.hdr := by
    rw [← hloop, Feed.readUpTo_fst, h, Frame.bytes, List.append_assoc,
      List.take_left' (length_encodeHeader _)]
  have hsnd : data (Feed.readUpTo 16 s.arrivals).2 = f.payload ++ rest := by
    rw [Feed.data_readUpTo, h, Frame.bytes, List.append_assoc,
      List.drop_left' (length_encodeHeader _)]
  have hread : (readOnce 16).run s = .ok (encodeHeader f.hdr)
      { s with arrivals := (Feed.readUpTo 16 s.arrivals).2 } := by
    rw [hloop, ← hfst]
    rfl
  have hpayload := receivePayload_run (s := { s with
      arrivals := (Feed.readUpTo 16 s.arrivals).2 }) exns.toPayloadExns f.hdr hmsg
  have hbody := receiveBody_ok (s := { s with
      arrivals := (Feed.readUpTo 16 s.arrivals).2
      msg := .cut (encodeHeader f.hdr) [] }) exns.toPayloadExns hmax
    (by rw [hsnd, List.length_append]; omega)
  have hne' : encodeHeader f.hdr ≠ [] := hfst ▸ hne
  have h16 : ¬ (encodeHeader f.hdr).length ≠ 16 := by rw [length_encodeHeader]; omega
  refine ⟨(Feed.readUpTo f.payload.length (Feed.readUpTo 16 s.arrivals).2).2, ?_, ?_, ?_⟩
  · rw [receivePipeMessage, Eff.run_bind_ok hread, if_neg hne', if_neg h16, hpayload, hsize,
      hbody]
    simp only [hsnd, List.take_left, Buffer.cut_data, List.append_nil]
    rfl
  · rw [Feed.data_readUpTo, hsnd, List.drop_left]
  · intro n hn
    rw [Feed.cutAt_readUpTo (by rw [hsnd, List.length_append]; omega) hn,
      Feed.cutAt_readUpTo (by omega) (by omega), f.length_bytes, Nat.add_assoc]

/-- A part of a header is refused. -/
theorem receivePipeMessage_part (hlen : 16 ≤ (data s.arrivals).length) {n : Nat} (hn : 0 < n)
    (hlt : n < 16) (hcut : CutAt s.arrivals n) :
    ∃ s', (receivePipeMessage exns).run s = .error exns.incomplete s' := by
  have hpart : (Feed.read 16 s.arrivals).1.length ≠ 16 := fun hfull =>
    (Feed.length_read_iff hlen).mp hfull n hn hlt hcut
  have hne : (Feed.read 16 s.arrivals).1 ≠ [] := by
    intro hnil
    rw [(Feed.read_nil_iff (by decide) _).mp hnil] at hlen
    cases hlen
  have hread : (readOnce 16).run s = .ok (Feed.read 16 s.arrivals).1
      { s with arrivals := (Feed.read 16 s.arrivals).2 } := rfl
  exact ⟨{ s with arrivals := (Feed.read 16 s.arrivals).2 }, by
    rw [receivePipeMessage, Eff.run_bind_ok hread, if_neg hne, if_pos hpart]
    rfl⟩

end

/-- No piece ends inside the header of a message; `cut n` says that one ends behind the
first `n` bytes. -/
def HeadersWhole : (Nat → Prop) → List Bytes → Prop
  | _, [] => True
  | cut, m :: msgs =>
    (∀ n, 0 < n → n < 16 → ¬ cut n) ∧ HeadersWhole (fun n => cut (m.length + n)) msgs

theorem headersWhole_congr {cut cut' : Nat → Prop} (h : ∀ n, 0 < n → (cut n ↔ cut' n))
    (msgs : List Bytes) : HeadersWhole cut msgs ↔ HeadersWhole cut' msgs := by
  induction msgs generalizing cut cut' with
  | nil => exact Iff.rfl
  | cons m msgs ih =>
    refine and_congr ?_ (ih fun n hn => h _ (by omega))
    exact forall_congr' fun n => imp_congr_right fun hn => by rw [h n hn]

theorem receivePipe_returns_iff (exns : PipeExns) {frames : List Frame}
    (hf : ∀ f ∈ frames, f.Fits) {calls : List (Wait × Buffer)}
    (hlen : calls.length = frames.length) (hw : ∀ c ∈ calls, c.1.Ready)
    (hs : s.connected = true) {rest : Bytes}
    (hd : data s.arrivals = frames.flatMap Frame.bytes ++ rest) :
    receiveEach (receivePipe exns) calls s = frames.map (fun f => returned f.bytes) ↔
      HeadersWhole (CutAt s.arrivals) (frames.map Frame.bytes) := by
  induction frames generalizing s calls with
  | nil =>
    obtain rfl := List.length_eq_zero_iff.mp hlen
    exact ⟨fun _ => trivial, fun _ => rfl⟩
  | cons f frames ih =>
    obtain ⟨hfit, hfs⟩ := List.forall_mem_cons.mp hf
    match calls, hlen with
    | (wait, msg) :: calls, hlen =>
      obtain ⟨hwait, hws⟩ := List.forall_mem_cons.mp hw
      rw [List.flatMap_cons, List.append_assoc] at hd
      by_cases hcut : ∀ n, 0 < n → n < 16 → ¬ CutAt s.arrivals n
      · obtain ⟨arrivals, hrun, hrest, hcuts⟩ :=
          receivePipeMessage_whole (s := { s with msg := .empty }) exns rfl hfit hd hcut
        have hcall := receivePipe_run (s := { s with msg := msg }) exns hwait hs
        have hmore := ih (s := { s with arrivals := arrivals, msg := .ofBytes f.bytes })
          hfs (Nat.succ.inj hlen) hws hs hrest
        rw [receiveEach_ok (hcall.trans hrun), List.map_cons, List.map_cons]
        refine Iff.trans ?_ (hmore.trans ?_)
        · exact ⟨fun h => (List.cons.inj h).2, fun h => congrArg _ h⟩
        · rw [HeadersWhole, headersWhole_congr hcuts]
          exact ⟨fun h => ⟨hcut, h⟩, fun h => h.2⟩
      · refine ⟨fun h => ?_, fun h => absurd h.1 hcut⟩
        obtain ⟨n, hn, hlt, hc⟩ : ∃ n, 0 < n ∧ n < 16 ∧ CutAt s.arrivals n := by
          by_contra hno
          exact hcut fun n hn hlt hc => hno ⟨n, hn, hlt, hc⟩
        have hmin : 16 ≤ (data s.arrivals).length := by
          rw [hd, List.length_append, f.length_bytes]
          omega
        obtain ⟨s', hrun⟩ :=
          receivePipeMessage_part (s := { s with msg := .empty }) exns hmin hn hlt hc
        have hcall := receivePipe_run (s := { s with msg := msg }) exns hwait hs
        rw [receiveEach_error (hcall.trans hrun)] at h
        injection h with hhead
        cases hhead

/-- Well-formed messages written to a pipe: a receiver returns exactly them if and only if no
piece that `read` returns ends inside a header. -/
theorem pipe_receives_iff (msgs : List Bytes) (hmsgs : ∀ m ∈ msgs, WellFormed m)
    (arrivals : List (Arrival UInt8)) (hd : data arrivals = msgs.flatten)
    (calls : List (Wait × Buffer)) (hlen : calls.length = msgs.length)
    (hw : ∀ c ∈ calls, c.1.Ready) :
    (receiveEach PipeTransport.receive calls (.opened arrivals) = msgs.map returned ↔
        HeadersWhole (CutAt arrivals) msgs) ∧
      (receiveEach ServiceProcess.receive calls (.opened arrivals) = msgs.map returned ↔
        HeadersWhole (CutAt arrivals) msgs) := by
  obtain ⟨frames, hf, rfl⟩ := exists_frames msgs hmsgs
  rw [List.length_map] at hlen
  rw [List.map_map]
  have hd' : data (Inbound.opened arrivals).arrivals = frames.flatMap Frame.bytes ++ [] := by
    rw [List.append_nil, List.flatMap_def]
    exact hd
  exact ⟨receivePipe_returns_iff PipeTransport.exns hf hlen hw rfl hd',
    receivePipe_returns_iff ServiceProcess.exns hf hlen hw rfl hd'⟩

/-- A message that arrives in one piece. -/
def wholeMessage : List (Arrival UInt8) :=
  [.piece 71 [78, 79, 83, 0, 3, 0, 0, 0, 0, 0, 0, 2, 0, 0, 0]]

theorem pipe_receives_wholeMessage :
    (receiveEach PipeTransport.receive [(.forever, .empty)] (.opened wholeMessage) =
        [createResultMessage 2 []].map returned ↔
        HeadersWhole (CutAt wholeMessage) [createResultMessage 2 []]) ∧
      (receiveEach ServiceProcess.receive [(.forever, .empty)] (.opened wholeMessage) =
        [createResultMessage 2 []].map returned ↔
        HeadersWhole (CutAt wholeMessage) [createResultMessage 2 []]) :=
  pipe_receives_iff [createResultMessage 2 []]
    (List.forall_mem_singleton.mpr (wellFormed_createMessage _ _ (by decide)))
    wholeMessage rfl [(.forever, .empty)] rfl (List.forall_mem_singleton.mpr trivial)

/-- A header of which three bytes are there first. -/
def splitHeader : List (Arrival UInt8) :=
  [.piece 71 [78, 79], .piece 83 [0, 3, 0, 0, 0, 0, 0, 0, 2, 0, 0, 0]]

/-- Both receivers throw instead of returning the message. -/
theorem pipe_splitHeader_not_received :
    WellFormed (createResultMessage 2 []) ∧ data splitHeader = createResultMessage 2 [] ∧
      receiveEach PipeTransport.receive [(.forever, .empty)] (.opened splitHeader) ≠
        [returned (createResultMessage 2 [])] ∧
      receiveEach ServiceProcess.receive [(.forever, .empty)] (.opened splitHeader) ≠
        [returned (createResultMessage 2 [])] := by
  refine ⟨wellFormed_createMessage _ _ (by decide), rfl, ?_, ?_⟩
  · intro h
    injection h with hhead
    cases hhead
  · intro h
    injection h with hhead
    cases hhead

end Song
