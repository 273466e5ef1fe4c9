import Song.Handshake
import Song.Buffer.Primitives

/-!
# What is built is decoded (`wire.cpp`)

`Outgoing` is a call of one of the `create_*` functions with its arguments. The receiver reads
the header and, by the type in it, a head: the ids and texts in front of the payload
(`decodeHead`). What is behind the head, the body, it hands on as it is. A message that was built
is decoded to what it was built from (`decodes_build`).
-/

namespace Song

open Cursor (Reads)

/-! ## Heads -/

/-- What is in front of a payload. -/
inductive Head where
  | none
  | init (init : InitMessage) (methods : List MethodDescriptor)
  | call (serviceId methodId : UInt16)
  | error (code : UInt16) (text : Str)
  | create (hdr : ObjectCreateHeader)
  | release (hdr : ObjectReleaseHeader)
  | property (hdr : PropertyHeader)
  | objectCall (hdr : ObjectMethodHeader)
  deriving DecidableEq

/-- The init message with its methods. -/
def decodeInitHead : Dec Head := do
  let init ← decodeInit
  let methods ← decodeMethods init.methodCount.toNat
  return .init init methods

def decodeInitAckHead : Dec Head := do
  let init ← decodeInit
  return .init init []

def decodeCallHead : Dec Head := do
  let (serviceId, methodId) ← decodeMethodCallHeader
  return .call serviceId methodId

/-- What `throwServiceError` decodes. -/
def decodeErrorHead : Dec Head := do
  let code ← decodeU16
  let text ← decodeString
  return .error code text

/-- The decoder that the receiver of a message of this type uses on its payload. -/
def decodeHead (type : MsgType) : Dec Head :=
  if type = .init then decodeInitHead
  else if type = .initAck then decodeInitAckHead
  else if type = .call then decodeCallHead
  else if type = .error then decodeErrorHead
  else if type = .create then do return .create (← decodeObjectCreateHeader)
  else if type = .release then do return .release (← decodeObjectReleaseHeader)
  else if type = .objectCall then do return .objectCall (← decodeObjectMethodHeader)
  else if type ∈ [.propGet, .propSet, .propSubscribe, .propUnsubscribe, .propNotify] then do
    return .property (← decodePropertyHeader)
  else return .none

/-! ## Messages and their arguments -/

inductive Outgoing where
  | init (first current : UInt16) (capabilities : UInt32) (methods : List MethodDescriptor)
  | initAck (first current : UInt16) (capabilities : UInt32)
  | call (seq : UInt32) (serviceId methodId : UInt16) (args : Bytes)
  | result (seq : UInt32) (result : Bytes)
  | error (seq : UInt32) (code : ErrorCode) (text : Str)
  | shutdown
  | stream (seq : UInt32) (chunk : Bytes)
  | streamEnd (seq : UInt32)
  | create (seq typeId : UInt32) (constructorId : UInt16) (args : Bytes)
  | release (typeId : UInt32) (objectId : Int32)
  | propGet (seq typeId : UInt32) (objectId : Int32) (propertyId : UInt16)
  | propSet (seq typeId : UInt32) (objectId : Int32) (propertyId : UInt16) (value : Bytes)
  | objectCall (seq typeId : UInt32) (objectId : Int32) (methodId : UInt16) (args : Bytes)
  | propSubscribe (typeId : UInt32) (objectId : Int32) (propertyId : UInt16)
  | propUnsubscribe (typeId : UInt32) (objectId : Int32) (propertyId : UInt16)
  | propNotify (typeId : UInt32) (objectId : Int32) (propertyId : UInt16) (value : Bytes)

namespace Outgoing

/-- The message that the `create_*` function builds. -/
def build : Outgoing → Except Exn Bytes
  | init first current caps methods => .ok (createInitMessage first current caps methods)
  | initAck first current caps => .ok (createInitAckMessage first current caps)
  | call seq serviceId methodId args => .ok (createCallMessage seq serviceId methodId args)
  | result seq bytes => .ok (createResultMessage seq bytes)
  | error seq code text => createErrorMessage seq code text
  | shutdown => .ok createShutdownMessage
  | stream seq chunk => .ok (createStreamMessage seq chunk)
  | streamEnd seq => .ok (createStreamEndMessage seq)
  | create seq typeId ctor args => .ok (createObjectCreateMessage seq typeId ctor args)
  | release typeId objectId => .ok (createObjectReleaseMessage typeId objectId)
  | propGet seq typeId objectId prop => .ok (createPropertyGetMessage seq typeId objectId prop)
  | propSet seq typeId objectId prop value =>
    .ok (createPropertySetMessage seq typeId objectId prop value)
  | objectCall seq typeId objectId method args =>
    .ok (createObjectMethodMessage seq typeId objectId method args)
  | propSubscribe typeId objectId prop =>
    .ok (createPropertySubscribeMessage typeId objectId prop)
  | propUnsubscribe typeId objectId prop =>
    .ok (createPropertyUnsubscribeMessage typeId objectId prop)
  | propNotify typeId objectId prop value =>
    .ok (createPropertyNotifyMessage typeId objectId prop value)

def type : Outgoing → MsgType
  | init _ _ _ _ => .init
  | initAck _ _ _ => .initAck
  | call _ _ _ _ => .call
  | result _ _ => .result
  | error _ _ _ => .error
  | shutdown => .shutdown
  | stream _ _ => .stream
  | streamEnd _ => .streamEnd
  | create _ _ _ _ => .create
  | release _ _ => .release
  | propGet _ _ _ _ => .propGet
  | propSet _ _ _ _ _ => .propSet
  | objectCall _ _ _ _ _ => .objectCall
  | propSubscribe _ _ _ => .propSubscribe
  | propUnsubscribe _ _ _ => .propUnsubscribe
  | propNotify _ _ _ _ => .propNotify

/-- The sequence id that was given; 0 where none is. -/
def sequenceId : Outgoing → UInt32
  | call seq _ _ _ | result seq _ | error seq _ _ | stream seq _ | streamEnd seq
  | create seq _ _ _ | propGet seq _ _ _ | propSet seq _ _ _ _ | objectCall seq _ _ _ _ => seq
  | _ => 0

/-- The ids and texts that were given. -/
def head : Outgoing → Head
  | init first current caps methods =>
    .init ⟨kMagic, first, current, caps, UInt32.ofNat methods.length⟩ methods
  | initAck first current caps => .init ⟨kMagic, first, current, caps, 0⟩ []
  | call _ serviceId methodId _ => .call serviceId methodId
  | error _ code text => .error code.toU16 text
  | create _ typeId ctor _ => .create ⟨typeId, ctor, 0⟩
  | release typeId objectId => .release ⟨typeId, objectId⟩
  | propGet _ typeId objectId prop | propSet _ typeId objectId prop _
  | propSubscribe typeId objectId prop | propUnsubscribe typeId objectId prop
  | propNotify typeId objectId prop _ => .property ⟨typeId, objectId, prop, 0⟩
  | objectCall _ typeId objectId method _ => .objectCall ⟨typeId, objectId, method, 0⟩
  | result _ _ | shutdown | stream _ _ | streamEnd _ => .none

/-- The argument or value bytes that were given. -/
def body : Outgoing → Bytes
  | call _ _ _ bytes | result _ bytes | stream _ bytes | create _ _ _ bytes
  | propSet _ _ _ _ bytes | objectCall _ _ _ _ bytes | propNotify _ _ _ bytes => bytes
  | _ => []

/-- What is put in front of the body. -/
def front : Outgoing → Bytes
  | init first current caps methods =>
    encodeInit ⟨kMagic, first, current, caps, UInt32.ofNat methods.length⟩ ++
      methods.flatMap encodeMethodDescriptor
  | initAck first current caps => encodeInit ⟨kMagic, first, current, caps, 0⟩
  | call _ serviceId methodId _ => encodeMethodCall serviceId methodId []
  | error _ code text => encodeU16 code.toU16 ++ (encodeU32 (UInt32.ofNat text.length) ++ text)
  | create _ typeId ctor _ => encodeObjectCreate typeId ctor []
  | release typeId objectId => encodeObjectRelease typeId objectId
  | propGet _ typeId objectId prop | propSet _ typeId objectId prop _
  | propSubscribe typeId objectId prop | propUnsubscribe typeId objectId prop
  | propNotify typeId objectId prop _ => encodePropertyGet typeId objectId prop
  | objectCall _ typeId objectId method _ => encodeObjectMethod typeId objectId method []
  | result _ _ | shutdown | stream _ _ | streamEnd _ => []

/-- The payload is at most the largest, and an error's text at most 1 MiB. -/
def Fits (m : Outgoing) : Prop :=
  (m.front ++ m.body).length ≤ kMaxPayloadSize ∧
    match m with
    | error _ _ text => text.length ≤ kMaxStringSize
    | _ => True

instance (m : Outgoing) : Decidable m.Fits := by
  unfold Fits
  cases m <;> infer_instance

variable {m : Outgoing}

/-- Every builder puts the front and the body behind a header. -/
theorem build_eq (h : m.Fits) :
    m.build = .ok (message m.type m.sequenceId (m.front ++ m.body)).bytes := by
  cases m with
  | error seq code text =>
    have hbody : body (.error seq code text) = [] := rfl
    rw [build, createErrorMessage_ok seq code h.2, hbody, List.append_nil]
    rfl
  | _ => simp [build, type, sequenceId, front, body, createInitMessage, createInitAckMessage,
      createCallMessage, createResultMessage, createShutdownMessage, createStreamMessage,
      createStreamEndMessage, createObjectCreateMessage, createObjectReleaseMessage,
      createPropertyGetMessage, createPropertySetMessage, createObjectMethodMessage,
      createPropertySubscribeMessage, createPropertyUnsubscribeMessage,
      createPropertyNotifyMessage, createMessage, encodeMethodCall, encodeObjectCreate,
      encodePropertyGet, encodePropertySet, encodeObjectMethod]

end Outgoing

/-! ## Reading a head -/

/-- `decodeInit` reads an init payload with the magic. -/
theorem reads_decodeInit {init : InitMessage} (h : init.magic = kMagic) :
    Reads Buffer.cut decodeInit (encodeInit init) init := by
  obtain ⟨magic, first, current, caps, count⟩ := init
  obtain rfl : magic = kMagic := h
  exact (reads_decodeU32 kMagic).bind ((reads_decodeU16 first).bind ((reads_decodeU16 current).bind
    ((reads_decodeU32 caps).bind ((reads_decodeU32 count).map _))))

theorem reads_decodeMethods (methods : List MethodDescriptor) :
    Reads Buffer.cut (decodeMethods methods.length) (methods.flatMap encodeMethodDescriptor)
      methods := by
  induction methods with
  | nil => exact .pure []
  | cons desc methods ih =>
    have hd : Reads Buffer.cut decodeMethodDescriptor (encodeMethodDescriptor desc) desc :=
      (reads_decodeU16 desc.serviceId).bind ((reads_decodeU16 desc.methodId).bind
        ((reads_decodeU16 desc.flags.code).bind ((reads_decodeU16 desc.reserved).map _)))
    exact hd.bind (ih.map _)

/-- The properties' messages all have the same front. -/
theorem reads_decodeProperty (typeId : UInt32) (objectId : Int32) (prop : UInt16) :
    Reads Buffer.cut decodePropertyHeader (encodePropertyGet typeId objectId prop)
      ⟨typeId, objectId, prop, 0⟩ :=
  (reads_decodeU32 typeId).bind ((reads_decodeI32 objectId).bind
    ((reads_decodeU16 prop).bind ((reads_decodeU16 0).map _)))

theorem reads_decodeCall (serviceId methodId : UInt16) :
    Reads Buffer.cut decodeMethodCallHeader (encodeMethodCall serviceId methodId [])
      (serviceId, methodId) := by
  rw [encodeMethodCall, List.append_nil]
  exact (reads_decodeU16 serviceId).bind ((reads_decodeU16 methodId).map _)

theorem reads_decodeObjectCreate (typeId : UInt32) (ctor : UInt16) :
    Reads Buffer.cut decodeObjectCreateHeader (encodeObjectCreate typeId ctor [])
      ⟨typeId, ctor, 0⟩ := by
  rw [encodeObjectCreate, List.append_nil]
  exact (reads_decodeU32 typeId).bind ((reads_decodeU16 ctor).bind ((reads_decodeU16 0).map _))

theorem reads_decodeObjectRelease (typeId : UInt32) (objectId : Int32) :
    Reads Buffer.cut decodeObjectReleaseHeader (encodeObjectRelease typeId objectId)
      ⟨typeId, objectId⟩ :=
  (reads_decodeU32 typeId).bind ((reads_decodeI32 objectId).map _)

theorem reads_decodeObjectMethod (typeId : UInt32) (objectId : Int32) (method : UInt16) :
    Reads Buffer.cut decodeObjectMethodHeader (encodeObjectMethod typeId objectId method [])
      ⟨typeId, objectId, method, 0⟩ := by
  rw [encodeObjectMethod, List.append_nil]
  exact (reads_decodeU32 typeId).bind ((reads_decodeI32 objectId).bind
    ((reads_decodeU16 method).bind ((reads_decodeU16 0).map _)))

theorem reads_decodeErrorHead (code : UInt16) {text : Str} (h : text.length ≤ kMaxStringSize) :
    Reads Buffer.cut decodeErrorHead
      (encodeU16 code ++ (encodeU32 (UInt32.ofNat text.length) ++ text)) (.error code text) := by
  have ht : encodeString text = .ok (encodeU32 (UInt32.ofNat text.length) ++ text) := by
    rw [encodeString, if_neg (by omega)]
  exact (reads_decodeU16 code).bind ((reads_decodeString ht).map _)

namespace Outgoing

variable {m : Outgoing}

theorem reads_decodeHead (h : m.Fits) : Reads Buffer.cut (decodeHead m.type) m.front m.head := by
  cases m with
  | init first current caps methods =>
    have hcount : (UInt32.ofNat methods.length).toNat = methods.length := by
      have hlen := h.1
      simp only [front, body, List.length_append, length_encodeInit, length_encodeMethods,
        kMaxPayloadSize] at hlen
      rw [UInt32.toNat_ofNat']
      omega
    have hm := reads_decodeMethods methods
    rw [← hcount] at hm
    exact (reads_decodeInit rfl).bind (hm.map _)
  | initAck first current caps => exact (reads_decodeInit rfl).map _
  | call seq serviceId methodId args =>
    have hc := (reads_decodeCall serviceId methodId).map fun ids => Head.call ids.1 ids.2
    exact hc
  | error seq code text => exact reads_decodeErrorHead code.toU16 h.2
  | create seq typeId ctor args => exact (reads_decodeObjectCreate typeId ctor).map _
  | release typeId objectId => exact (reads_decodeObjectRelease typeId objectId).map _
  | objectCall seq typeId objectId method args =>
    exact (reads_decodeObjectMethod typeId objectId method).map _
  | propGet seq typeId objectId prop => exact (reads_decodeProperty typeId objectId prop).map _
  | propSet seq typeId objectId prop value =>
    exact (reads_decodeProperty typeId objectId prop).map _
  | propSubscribe typeId objectId prop => exact (reads_decodeProperty typeId objectId prop).map _
  | propUnsubscribe typeId objectId prop => exact (reads_decodeProperty typeId objectId prop).map _
  | propNotify typeId objectId prop value =>
    exact (reads_decodeProperty typeId objectId prop).map _
  | result _ _ => exact .pure _
  | shutdown => exact .pure _
  | stream _ _ => exact .pure _
  | streamEnd _ => exact .pure _

/-- What is built is decoded: the header has the kind, the sequence id and the size of what
follows, and from a buffer with that to be read the receiver's decoder of the kind takes the ids
that were given and leaves the bytes that were given. -/
theorem decodes_build (h : m.Fits) :
    ∃ bytes hdr payload, m.build = .ok bytes ∧
      decodeHeaderValidated.run (.ofBytes bytes) = .ok hdr payload ∧
      hdr.type = m.type ∧ hdr.sequenceId = m.sequenceId ∧
      hdr.payloadSize.toNat = payload.remaining ∧
      ∀ received : Buffer, received.unread = payload.unread →
        ∃ rest, (decodeHead hdr.type).run received = .ok m.head rest ∧ rest.unread = m.body := by
  have hvalid := message_valid m.type m.sequenceId h.1
  refine ⟨_, _, _, build_eq h, Frame.decodeHeaderValidated_bytes hvalid, rfl, rfl, ?_, ?_⟩
  · have hlen := h.1
    simp only [kMaxPayloadSize] at hlen
    rw [Buffer.cut_remaining]
    show (UInt32.ofNat _).toNat = (m.front ++ m.body).length
    rw [UInt32.toNat_ofNat']
    omega
  · intro received hr
    rw [Buffer.cut_unread] at hr
    have hreads := reads_decodeHead h (received.data.take received.readPos) m.body
    have hcut := received.eq_cut
    rw [hr] at hcut
    exact ⟨_, by rw [hcut]; exact hreads, Buffer.cut_unread _ _⟩

/-- A notification of one byte. -/
theorem decodes_build_notify :
    ∃ bytes hdr payload, (propNotify 1 (-1) 2 [7]).build = .ok bytes ∧
      decodeHeaderValidated.run (.ofBytes bytes) = .ok hdr payload ∧
      hdr.type = .propNotify ∧ hdr.sequenceId = 0 ∧
      hdr.payloadSize.toNat = payload.remaining ∧
      ∀ received : Buffer, received.unread = payload.unread →
        ∃ rest, (decodeHead hdr.type).run received = .ok (.property ⟨1, -1, 2, 0⟩) rest ∧
          rest.unread = [7] :=
  decodes_build (m := propNotify 1 (-1) 2 [7]) (by decide)

end Outgoing

end Song
