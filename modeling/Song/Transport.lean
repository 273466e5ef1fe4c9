import Song.Wire

/-!
# Stream transports (`transport.cpp`, `tls.cpp`)

A pipe, a TCP or a TLS transport is one end of a byte stream: `sent` is what a
`send` puts on it, `receive` takes one message from the bytes that arrive before
the stream ends. The three differ in the texts of their exceptions, in what they
do with part of a header, and in that TLS stamps a flag on what it sends.
-/

namespace Song

inductive StreamTransport where
  | pipe
  | tcp
  | tls
  deriving DecidableEq, Repr

namespace StreamTransport

/-- What the texts of its exceptions start with. -/
def name : StreamTransport → Str
  | pipe => lit "PipeTransport"
  | tcp => lit "TcpTransport"
  | tls => lit "TlsTransport"

/-- The end of the stream in the middle of a payload. -/
def payloadClosed : StreamTransport → Exn
  | pipe => .serviceError (lit "PipeTransport: pipe closed during payload read")
  | tcp => .serviceError (lit "TcpTransport: connection closed during payload read")
  | tls => .serviceError (lit "TlsTransport: connection closed during payload read")

/-- The end of the stream in the middle of a header: only a pipe tells it from a disconnect. -/
def headerClosed : StreamTransport → Except Exn (Option (Bytes × Bytes))
  | pipe => .error (.protocolError (lit "PipeTransport: incomplete header received"))
  | tcp => .ok none
  | tls => .ok none

/-- Set the encrypted flag in byte 4 of a message. -/
def stampEncrypted (msg : Bytes) : Bytes :=
  if 16 ≤ msg.length then
    Words.overwrite 4 [(msg.drop 4).headD 0 ||| MsgFlags.encrypted.code] msg
  else msg

/-- The bytes a `send` puts on the stream. -/
def sent : StreamTransport → Bytes → Bytes
  | pipe, msg => msg
  | tcp, msg => msg
  | tls, msg => stampEncrypted msg

/-- The payload behind a received header. -/
def receivePayload (kind : StreamTransport) (header stream : Bytes) (hdr : Header) :
    Except Exn (Option (Bytes × Bytes)) :=
  let size := hdr.payloadSize.toNat
  if kMaxPayloadSize < size then
    .error (.protocolError (kind.name ++ lit ": payload size exceeds maximum"))
  else if stream.length < size then .error kind.payloadClosed
  else .ok (some (header ++ stream.take size, stream.drop size))

/-- Take a message off the stream: it and what is left, or `none` for `false`. -/
def receive (kind : StreamTransport) (stream : Bytes) : Except Exn (Option (Bytes × Bytes)) :=
  if stream = [] then .ok none
  else if stream.length < 16 then kind.headerClosed
  else
    match decodeHeader.run (.ofBytes (stream.take 16)) with
    | .ok hdr _ => kind.receivePayload (stream.take 16) (stream.drop 16) hdr
    | .error e _ => .error e

/-! ## What is sent is received -/

/-- The frame with the encrypted flag set. -/
def stampFrame (f : Frame) : Frame :=
  { f with hdr := { f.hdr with flags := ⟨f.hdr.flags.code ||| MsgFlags.encrypted.code⟩ } }

/-- The frame as it arrives. -/
def delivered : StreamTransport → Frame → Frame
  | pipe, f => f
  | tcp, f => f
  | tls, f => stampFrame f

theorem stampEncrypted_bytes (f : Frame) : stampEncrypted f.bytes = (stampFrame f).bytes := by
  have hlen : 16 ≤ f.bytes.length := by rw [f.length_bytes]; omega
  have hmagic : (encodeU32 f.hdr.magic).length = 4 := length_encodeU32 _
  have hbytes : f.bytes = encodeU32 f.hdr.magic ++ [f.hdr.flags.code] ++
      (encodeU8 f.hdr.type.code ++ (encodeU16 f.hdr.reserved ++ (encodeU32 f.hdr.payloadSize ++
        encodeU32 f.hdr.sequenceId)) ++ f.payload) := by
    simp only [Frame.bytes, encodeHeader, encodeU8, List.append_assoc]
  have hget : (f.bytes.drop 4).headD 0 = f.hdr.flags.code := by
    rw [hbytes, List.append_assoc, List.drop_left' hmagic]
    rfl
  rw [stampEncrypted, if_pos hlen, hget, hbytes, ← hmagic,
    Words.overwrite_append _ [f.hdr.flags.code] [f.hdr.flags.code ||| MsgFlags.encrypted.code] _ rfl]
  simp only [stampFrame, Frame.bytes, encodeHeader, encodeU8, List.append_assoc]

theorem sent_bytes (kind : StreamTransport) (f : Frame) :
    kind.sent f.bytes = (kind.delivered f).bytes := by
  cases kind with
  | pipe => rfl
  | tcp => rfl
  | tls => exact stampEncrypted_bytes f

theorem receive_bytes (kind : StreamTransport) {f : Frame}
    (hsize : f.hdr.payloadSize.toNat = f.payload.length) (hmax : f.payload.length ≤ kMaxPayloadSize)
    (rest : Bytes) : kind.receive (f.bytes ++ rest) = .ok (some (f.bytes, rest)) := by
  have htake : (f.bytes ++ rest).take 16 = encodeHeader f.hdr := by
    rw [Frame.bytes, List.append_assoc, List.take_left' (length_encodeHeader _)]
  have hdrop : (f.bytes ++ rest).drop 16 = f.payload ++ rest := by
    rw [Frame.bytes, List.append_assoc, List.drop_left' (length_encodeHeader _)]
  have hlen : (f.bytes ++ rest).length = 16 + f.payload.length + rest.length := by
    rw [List.length_append, f.length_bytes]
  have hne : f.bytes ++ rest ≠ [] := by
    intro h
    rw [h] at hlen
    simp only [List.length_nil] at hlen
    omega
  have hd := decodeHeader_cut f.hdr [] []
  rw [List.append_nil, ← Buffer.ofBytes_eq_cut] at hd
  rw [receive, if_neg hne, if_neg (by omega), htake, hd, hdrop]
  simp only [receivePayload, hsize]
  rw [if_neg (by omega), if_neg (by rw [List.length_append]; omega), List.take_left,
    List.drop_left]
  rfl

end StreamTransport

end Song
