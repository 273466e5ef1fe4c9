import Song.Connection.Reply
import Song.Lib.List

/-!
# Streams on a connection that also carries notifications

`call_streaming` has a loop of its own, which compares the sequence id of every
frame with its request's. A property notification carries sequence id 0 and no
stream type, so the first one among the chunks ends the call with a protocol
error; without one, the chunks are handed out in order.
-/

namespace Song

variable {κ : Type}

/-- What a connection carries between a streaming request and its terminator: a chunk or a
notification that fits a message. -/
inductive StreamItem where
  | chunk (bs : Bytes) (h : bs.length ≤ kMaxPayloadSize)
  | notify (typeId : UInt32) (key : SubscriptionKey) (value : Bytes)
      (h : 12 + value.length ≤ kMaxPayloadSize)

namespace StreamItem

def message (seq : UInt32) : StreamItem → Bytes
  | chunk bs _ => createStreamMessage seq bs
  | notify typeId key value _ =>
    createPropertyNotifyMessage typeId key.objectId key.propertyId value

def isChunk : StreamItem → Bool
  | chunk _ _ => true
  | notify _ _ _ _ => false

def chunk? : StreamItem → Option Bytes
  | chunk bs _ => some bs
  | notify _ _ _ _ => none

def notify? : StreamItem → Option (SubscriptionKey × Bytes)
  | chunk _ _ => none
  | notify _ key value _ => some (key, value)

end StreamItem

/-- The terminator of a stream. -/
inductive StreamLast where
  | streamEnd
  | error (code : UInt16) (text : Str) (h : text.length ≤ kMaxStringSize)

def StreamLast.message (seq : UInt32) : StreamLast → Bytes
  | streamEnd => createStreamEndMessage seq
  | error code text _ => createMessage .error seq
      (encodeU16 code ++ (encodeU32 (UInt32.ofNat text.length) ++ text))

/-! ## One iteration -/

variable {seq : UInt32} {onChunk : StreamChunkHandler}

theorem payloadSize_toNat {payload : Bytes} (h : payload.length ≤ kMaxPayloadSize)
    (type : MsgType) (seq : UInt32) :
    (message type seq payload).hdr.payloadSize.toNat = payload.length := by
  simp only [kMaxPayloadSize] at h
  show (UInt32.ofNat payload.length).toNat = payload.length
  rw [UInt32.toNat_ofNat']
  omega

/-- The loop body on a built message. -/
theorem streamBody_message {payload : Bytes} (h : payload.length ≤ kMaxPayloadSize)
    (type : MsgType) (seq' : UInt32) :
    (streamBody seq onChunk (createMessage type seq' payload) : Cli κ (Option Unit)) =
      if seq' ≠ seq then throw (.protocolError (lit "Sequence ID mismatch in stream"))
      else if type = .stream then do
        handChunk onChunk payload
        return none
      else if type = .streamEnd then return some ()
      else if type = .error then
        decodeThen (throwServiceError (lit "Service error (code "))
          (.cut (encodeHeader (message type seq' payload).hdr) payload) fun _ _ => return none
      else throw (.protocolError (lit "Unexpected message type during streaming")) := by
  have hd := (message type seq' payload).decodeHeaderValidated_bytes (message_valid type seq' h)
  have hchunk : ((createMessage type seq' payload).drop 16).take
      (message type seq' payload).hdr.payloadSize.toNat = payload := by
    rw [payloadSize_toNat h]
    show List.take payload.length (List.drop 16 (message type seq' payload).bytes) = payload
    rw [Frame.drop_bytes]
    exact List.take_length
  have hb : (streamBody seq onChunk (createMessage type seq' payload) : Cli κ (Option Unit)) = _ :=
    decodeThen_ok hd
  rw [hb, hchunk]
  rfl

theorem streamBody_chunk (honChunk : ∀ chunks, onChunk chunks = none) {bs : Bytes}
    (h : bs.length ≤ kMaxPayloadSize) (c : Conn κ) :
    (streamBody seq onChunk (createStreamMessage seq bs)).run c =
      .ok none { c with handed := c.handed ++ [bs] } := by
  have hh : (handChunk onChunk bs).run c = .ok () { c with handed := c.handed ++ [bs] } := by
    simp only [EStateM.run, handChunk, honChunk]
  rw [createStreamMessage, streamBody_message h, if_neg (not_not_intro rfl), if_pos rfl]
  exact Eff.run_bind_ok hh

theorem streamBody_end (c : Conn κ) :
    (streamBody seq onChunk (createStreamEndMessage seq)).run c = .ok (some ()) c := by
  rw [createStreamEndMessage, streamBody_message (Nat.zero_le _), if_neg (not_not_intro rfl),
    if_neg (by decide), if_pos rfl]
  rfl

/-- What a client throws for an error reply to a stream. -/
def streamError (code : UInt16) (text : Str) : Exn :=
  .serviceError (lit "Service error (code " ++ toStr code.toNat ++ lit "): " ++ text)

theorem throwServiceError_run (errorText : Str) (pre : Bytes) (code : UInt16) {text : Str}
    (h : text.length ≤ kMaxStringSize) :
    ∃ b, (throwServiceError errorText).run (.cut pre
        (encodeU16 code ++ (encodeU32 (UInt32.ofNat text.length) ++ text))) =
      .error (.serviceError (errorText ++ toStr code.toNat ++ lit "): " ++ text)) b := by
  have hs : decodeString.run (.cut (pre ++ encodeU16 code)
      (encodeU32 (UInt32.ofNat text.length) ++ (text ++ []))) = _ := decodeString_cut h
  rw [List.append_nil] at hs
  rw [throwServiceError, Eff.run_bind_ok (decodeU16_cut code), Eff.run_bind_ok hs]
  exact ⟨_, rfl⟩

theorem streamBody_error (code : UInt16) {text : Str} (h : text.length ≤ kMaxStringSize)
    (c : Conn κ) :
    (streamBody seq onChunk ((StreamLast.error code text h).message seq)).run c =
      .error (streamError code text) c := by
  have hlen : (encodeU16 code ++ (encodeU32 (UInt32.ofNat text.length) ++ text)).length ≤
      kMaxPayloadSize := by
    simp only [kMaxStringSize] at h
    simp only [List.length_append, length_encodeU16, length_encodeU32, kMaxPayloadSize]
    omega
  obtain ⟨b, hb⟩ := throwServiceError_run (lit "Service error (code ")
    (encodeHeader (message .error seq (encodeU16 code ++ (encodeU32 (UInt32.ofNat text.length) ++
      text))).hdr) code h
  rw [StreamLast.message, streamBody_message hlen, if_neg (not_not_intro rfl),
    if_neg (by decide), if_neg (by decide), if_pos rfl, decodeThen_error hb]
  rfl

/-- A notification ends the stream, whatever its sequence id compares to. -/
theorem streamBody_notify (typeId : UInt32) (key : SubscriptionKey) {value : Bytes}
    (h : 12 + value.length ≤ kMaxPayloadSize) (c : Conn κ) :
    ∃ text, (streamBody seq onChunk ((StreamItem.notify typeId key value h).message seq)).run c =
      .error (.protocolError text) c := by
  have hlen : (encodePropertySet typeId key.objectId key.propertyId value).length ≤
      kMaxPayloadSize := by
    simp only [encodePropertySet, List.length_append, length_encodeU32, length_encodeI32,
      length_encodeU16]
    omega
  rw [StreamItem.message, createPropertyNotifyMessage, streamBody_message hlen]
  by_cases hs : (0 : UInt32) = seq
  · rw [if_neg (not_not_intro hs), if_neg (by decide), if_neg (by decide), if_neg (by decide)]
    exact ⟨_, rfl⟩
  · rw [if_pos hs]
    exact ⟨_, rfl⟩

/-! ## The loop -/

/-- The connection once these items are taken off it, and `rest` is incoming. -/
def Conn.streamed (c : Conn κ) (items : List StreamItem) (rest : List Bytes) : Conn κ :=
  { c with
    incoming := rest
    handed := c.handed ++ items.filterMap StreamItem.chunk?
    invoked := c.invoked ++ (items.filterMap StreamItem.notify?).filterMap fun n =>
      (c.propCallbacks.lookup n.1).map fun callback => (callback, n.2) }

/-- The chunks in front are handed out, and the loop goes on behind them. -/
theorem receiveLoop_chunks {dry : Exn} (honChunk : ∀ chunks, onChunk chunks = none)
    {items : List StreamItem} (h : ∀ item ∈ items, item.isChunk = true) (rest : List Bytes)
    {c : Conn κ} (hc : c.incoming = items.map (·.message seq) ++ rest) :
    (receiveLoop dry (streamBody seq onChunk) (items.map (·.message seq) ++ rest)).run c =
      (receiveLoop dry (streamBody seq onChunk) rest).run (c.streamed items rest) := by
  induction items generalizing c with
  | nil =>
    have hn : c.streamed [] rest = c := by
      rw [List.map_nil, List.nil_append] at hc
      simp only [Conn.streamed, List.filterMap_nil, List.append_nil, ← hc]
    rw [hn]
    rfl
  | cons item items ih =>
    cases item with
    | notify typeId key value hv => cases h _ List.mem_cons_self
    | chunk bs hbs =>
      have hb : (streamBody seq onChunk (createStreamMessage seq bs)).run
          { c with incoming := items.map (·.message seq) ++ rest } = .ok none
            { c with incoming := items.map (·.message seq) ++ rest, handed := c.handed ++ [bs] } :=
        streamBody_chunk honChunk hbs _
      rw [List.map_cons, List.cons_append]
      refine (receiveLoop_none hb).trans ?_
      refine (ih (fun item hi => h item (List.mem_cons_of_mem _ hi)) rfl).trans ?_
      simp only [Conn.streamed, StreamItem.chunk?, StreamItem.notify?, List.filterMap_cons,
        List.append_assoc, List.singleton_append]

/-- The loop throws a protocol error at the first notification. -/
theorem receiveLoop_notify {dry : Exn} (honChunk : ∀ chunks, onChunk chunks = none)
    {pre : List StreamItem} (hpre : ∀ item ∈ pre, item.isChunk = true) (typeId : UInt32)
    (key : SubscriptionKey) {value : Bytes} (hv : 12 + value.length ≤ kMaxPayloadSize)
    (rest : List Bytes) {c : Conn κ}
    (hc : c.incoming = pre.map (·.message seq) ++
      (StreamItem.notify typeId key value hv).message seq :: rest) :
    ∃ text c', (receiveLoop dry (streamBody seq onChunk) c.incoming).run c =
      .error (.protocolError text) c' := by
  rw [hc, receiveLoop_chunks honChunk hpre _ hc]
  have ht : ∃ text, (streamBody seq onChunk
      ((StreamItem.notify typeId key value hv).message seq)).run (c.streamed pre rest) =
        .error (.protocolError text) (c.streamed pre rest) := streamBody_notify typeId key hv _
  obtain ⟨text, ht⟩ := ht
  exact ⟨text, c.streamed pre rest, receiveLoop_error ht⟩

/-- How a stream is to end: with the request's sequence id, or with the service's error. -/
def StreamLast.result (seq : UInt32) (c : Conn κ) : StreamLast → EStateM.Result Exn (Conn κ) UInt32
  | .streamEnd => .ok seq c
  | .error code text _ => .error (streamError code text) c

theorem receiveLoop_last {dry : Exn} (last : StreamLast) (rest : List Bytes) (c : Conn κ) :
    ((do
      receiveLoop dry (streamBody seq onChunk) (last.message seq :: rest)
      return seq : Cli κ UInt32).run c) = last.result seq { c with incoming := rest } := by
  cases last with
  | streamEnd => exact Eff.run_bind_ok (receiveLoop_some (streamBody_end _))
  | error code text h => exact Eff.run_bind_error (receiveLoop_error (streamBody_error code h _))

/-- `call_streaming` demultiplexes: it hands out the chunks, delivers the notifications and
ends as the terminator says, nothing behind the terminator read. -/
def Demuxed (link : Link) (serviceId methodId : UInt16) (args : Bytes)
    (onChunk : StreamChunkHandler) (chunkTimeoutMs : Int) (c : Conn κ) (items : List StreamItem)
    (last : StreamLast) (rest : List Bytes) : Prop :=
  (ServiceConnection.callStreaming link serviceId methodId args onChunk chunkTimeoutMs).run c =
    last.result c.nextSeq ((c.requested fun seq =>
      createCallMessage seq serviceId methodId args).streamed items rest)

theorem callStreaming_run {link : Link} {c : Conn κ} (h : link.Ready c)
    (serviceId methodId : UInt16) (args : Bytes) (onChunk : StreamChunkHandler)
    (chunkTimeoutMs : Int) :
    (ServiceConnection.callStreaming link serviceId methodId args onChunk chunkTimeoutMs).run c =
      (do
        receiveLoop (streamDry link chunkTimeoutMs) (streamBody c.nextSeq onChunk) c.incoming
        return c.nextSeq : Cli κ UInt32).run
        (c.requested fun seq => createCallMessage seq serviceId methodId args) := by
  have hg : (get : Cli κ (Conn κ)).run (c.requested fun seq =>
      createCallMessage seq serviceId methodId args) = .ok _ _ := rfl
  rw [ServiceConnection.callStreaming, Eff.run_bind_ok (request_ok h _), Eff.run_bind_ok hg]
  rfl

/-- `call_streaming` demultiplexes a stream exactly when no notification is among its frames. -/
theorem callStreaming_demuxed_iff (link : Link) (serviceId methodId : UInt16) (args : Bytes)
    (onChunk : StreamChunkHandler) (chunkTimeoutMs : Int) (c : Conn κ) (items : List StreamItem)
    (last : StreamLast) (rest : List Bytes) (hready : link.Ready c)
    (honChunk : ∀ chunks, onChunk chunks = none)
    (hin : c.incoming = items.map (·.message c.nextSeq) ++ last.message c.nextSeq :: rest) :
    Demuxed link serviceId methodId args onChunk chunkTimeoutMs c items last rest ↔
      ∀ item ∈ items, item.isChunk = true := by
  unfold Demuxed
  rw [callStreaming_run hready, hin]
  constructor
  · intro h
    rcases items.forall_or_first (·.isChunk = true) with hall | ⟨pre, item, post, rfl, hpre, hitem⟩
    · exact hall
    cases item with
    | chunk bs hbs => exact absurd rfl hitem
    | notify typeId key value hv =>
      have hin' : (c.requested fun seq => createCallMessage seq serviceId methodId args).incoming =
          pre.map (·.message c.nextSeq) ++
            ((StreamItem.notify typeId key value hv).message c.nextSeq ::
              (post.map (·.message c.nextSeq) ++ last.message c.nextSeq :: rest)) := by
        show c.incoming = _
        rw [hin, List.map_append, List.map_cons, List.append_assoc, List.cons_append]
      obtain ⟨text, c', he⟩ : ∃ text c', (receiveLoop (streamDry link chunkTimeoutMs)
          (streamBody c.nextSeq onChunk) c.incoming).run
            (c.requested fun seq => createCallMessage seq serviceId methodId args) =
          .error (.protocolError text) c' := receiveLoop_notify honChunk hpre typeId key hv _ hin'
      -- a protocol error is neither a return nor the service's error
      rw [← hin, Eff.run_bind_error he] at h
      cases last with
      | streamEnd => cases h
      | error code text h' => cases h
  · intro h
    have hin' : (c.requested fun seq => createCallMessage seq serviceId methodId args).incoming =
        items.map (·.message c.nextSeq) ++ last.message c.nextSeq :: rest := hin
    refine (Eff.run_bind_congr (receiveLoop_chunks honChunk h _ hin')).trans ?_
    exact receiveLoop_last last rest _

/-- A transport on which everything works. -/
def plainLink : Link := ⟨.transport, true, fun _ => none, none⟩

/-- A new connection with a callback on property 3 of object -1, and these messages waiting. -/
def subscribedConn (incoming : List Bytes) : Conn Unit :=
  ⟨1, AList.insert ⟨-1, 3⟩ () ∅, incoming, 0, [], [], []⟩

/-- Two chunks and a `stream_end`. -/
theorem callStreaming_demuxed_two_chunks :
    Demuxed plainLink 7 1 [] (fun _ => none) 5000
      (subscribedConn [createStreamMessage 1 [1], createStreamMessage 1 [2],
        createStreamEndMessage 1])
      [.chunk [1] (by decide), .chunk [2] (by decide)] .streamEnd [] :=
  (callStreaming_demuxed_iff plainLink 7 1 [] (fun _ => none) 5000 _ _ .streamEnd []
    ⟨by decide, rfl, rfl⟩ (fun _ => rfl) rfl).mpr (by decide)

/-- A notification between two chunks fails the stream. -/
theorem callStreaming_notify_not_demuxed :
    ¬ Demuxed plainLink 7 1 [] (fun _ => none) 5000
      (subscribedConn [createStreamMessage 1 [1], createPropertyNotifyMessage 1 (-1) 3 [9],
        createStreamMessage 1 [2], createStreamEndMessage 1])
      [.chunk [1] (by decide), .notify 1 ⟨-1, 3⟩ [9] (by decide), .chunk [2] (by decide)]
      .streamEnd [] := by
  intro h
  exact absurd (Eff.Returns.of_ok h) (by decide +kernel)

end Song
