import Song.Buffer

/-!
# Wire messages (`wire.hpp`, `wire.cpp`)

A message is a 16-byte header and a payload. `Frame` is the pair and
`Frame.bytes` what goes on the wire; every byte string of at least 16 bytes is
a frame's (`exists_frame`). The `create_*` builders all put a payload behind a
header with the magic, no flags and the payload's size (`createMessage`).
-/

namespace Song

def kMagic : UInt32 := 0x534F4E47

def makeVersion (major minor : UInt8) : UInt16 := major.toUInt16 <<< 8 ||| minor.toUInt16

def kCurrentVersion : UInt16 := makeVersion 1 1

def kFirstVersion : UInt16 := makeVersion 1 0

def kMaxPayloadSize : Nat := 16 * 1024 * 1024

/-- `enum class MsgType : u8`. Any byte can arrive in a header, so the type is
the byte and the enumerators are values of it. -/
structure MsgType where
  code : UInt8
  deriving DecidableEq, Repr

namespace MsgType

def init : MsgType := ⟨0x01⟩
def call : MsgType := ⟨0x02⟩
def result : MsgType := ⟨0x03⟩
def error : MsgType := ⟨0x04⟩
def stream : MsgType := ⟨0x05⟩
def streamEnd : MsgType := ⟨0x06⟩
def shutdown : MsgType := ⟨0x08⟩
def create : MsgType := ⟨0x09⟩
def release : MsgType := ⟨0x0A⟩
def propGet : MsgType := ⟨0x0B⟩
def propSet : MsgType := ⟨0x0C⟩
def initAck : MsgType := ⟨0x0D⟩
def propSubscribe : MsgType := ⟨0x0E⟩
def propUnsubscribe : MsgType := ⟨0x0F⟩
def propNotify : MsgType := ⟨0x10⟩
def objectCall : MsgType := ⟨0x11⟩

end MsgType

/-- `enum class MsgFlags : u8`. -/
structure MsgFlags where
  code : UInt8
  deriving DecidableEq, Repr

namespace MsgFlags

def none : MsgFlags := ⟨0x00⟩

/-- Set by the TLS transport. -/
def encrypted : MsgFlags := ⟨0x02⟩

end MsgFlags

structure Header where
  magic : UInt32
  flags : MsgFlags
  type : MsgType
  reserved : UInt16
  payloadSize : UInt32
  sequenceId : UInt32
  deriving DecidableEq, Repr

def encodeHeader (hdr : Header) : Bytes :=
  encodeU32 hdr.magic ++ (encodeU8 hdr.flags.code ++ (encodeU8 hdr.type.code ++
    (encodeU16 hdr.reserved ++ (encodeU32 hdr.payloadSize ++ encodeU32 hdr.sequenceId))))

def decodeHeader : Dec Header := do
  let magic ← decodeU32
  let flags ← decodeU8
  let type ← decodeU8
  let reserved ← decodeU16
  let payloadSize ← decodeU32
  let sequenceId ← decodeU32
  return { magic, flags := ⟨flags⟩, type := ⟨type⟩, reserved, payloadSize, sequenceId }

def decodeHeaderValidated : Dec Header := do
  let hdr ← decodeHeader
  if hdr.magic ≠ kMagic then
    throw (.protocolError (lit "Invalid magic number in message header"))
  if hdr.payloadSize.toNat > kMaxPayloadSize then
    throw (.protocolError (lit "Payload size exceeds maximum"))
  return hdr

@[simp] theorem length_encodeHeader (hdr : Header) : (encodeHeader hdr).length = 16 := by
  simp [encodeHeader]

theorem decodeHeader_cut (hdr : Header) (pre rest : Bytes) :
    decodeHeader.run (.cut pre (encodeHeader hdr ++ rest)) =
      .ok hdr (.cut (pre ++ encodeHeader hdr) rest) := by
  simp only [decodeHeader, encodeHeader, List.append_assoc]
  rw [Eff.run_bind_ok (decodeU32_cut _), Eff.run_bind_ok (decodeU8_cut _),
    Eff.run_bind_ok (decodeU8_cut _), Eff.run_bind_ok (decodeU16_cut _),
    Eff.run_bind_ok (decodeU32_cut _), Eff.run_bind_ok (decodeU32_cut _)]
  simp [List.append_assoc]

theorem Fixed.decodeHeader : Fixed decodeHeader 16 :=
  Fixed.decodeU32.bind fun _ => (Fixed.decodeU8.bind fun _ => (Fixed.decodeU8.bind fun _ =>
    (Fixed.decodeU16.bind fun _ => (Fixed.decodeU32.bind fun _ => (Fixed.decodeU32.bind fun _ =>
      Fixed.pure _)))))

/-! ## Frames -/

structure Frame where
  hdr : Header
  payload : Bytes
  deriving DecidableEq

namespace Frame

def bytes (f : Frame) : Bytes := encodeHeader f.hdr ++ f.payload

/-- What `decode_header_validated` checks. -/
def Valid (f : Frame) : Prop :=
  f.hdr.magic = kMagic ∧ f.hdr.payloadSize.toNat ≤ kMaxPayloadSize

instance (f : Frame) : Decidable f.Valid := inferInstanceAs (Decidable (_ ∧ _))

theorem length_bytes (f : Frame) : f.bytes.length = 16 + f.payload.length := by
  simp [bytes]

theorem bytes_inj {f g : Frame} (h : f.bytes = g.bytes) : f = g := by
  have hf := decodeHeader_cut f.hdr [] f.payload
  have hg := decodeHeader_cut g.hdr [] g.payload
  rw [show encodeHeader f.hdr ++ f.payload = encodeHeader g.hdr ++ g.payload from h, hg] at hf
  have hh : g.hdr = f.hdr := by injection hf
  obtain ⟨fh, fp⟩ := f
  obtain ⟨gh, gp⟩ := g
  simp only at hh
  subst hh
  have hp : fp = gp := List.append_cancel_left h
  rw [hp]

@[simp] theorem drop_bytes (f : Frame) : f.bytes.drop 16 = f.payload := by
  rw [bytes, List.drop_left' (length_encodeHeader _)]

theorem decodeHeader_bytes (f : Frame) :
    decodeHeader.run (.ofBytes f.bytes) = .ok f.hdr (.cut (encodeHeader f.hdr) f.payload) := by
  rw [Buffer.ofBytes_eq_cut, bytes, decodeHeader_cut, List.nil_append]

theorem decodeHeaderValidated_bytes {f : Frame} (h : f.Valid) :
    decodeHeaderValidated.run (.ofBytes f.bytes) =
      .ok f.hdr (.cut (encodeHeader f.hdr) f.payload) := by
  have hs : ¬ kMaxPayloadSize < f.hdr.payloadSize.toNat := by have := h.2; omega
  rw [decodeHeaderValidated, Eff.run_bind_ok (decodeHeader_bytes f)]
  simp [h.1, hs]

theorem decodeHeaderValidated_invalid {f : Frame} (h : ¬ f.Valid) :
    ∃ e, decodeHeaderValidated.run (.ofBytes f.bytes) =
      .error e (.cut (encodeHeader f.hdr) f.payload) := by
  rw [decodeHeaderValidated, Eff.run_bind_ok (decodeHeader_bytes f)]
  by_cases hm : f.hdr.magic = kMagic
  · have hs : kMaxPayloadSize < f.hdr.payloadSize.toNat := by
      by_contra hle
      exact h ⟨hm, by omega⟩
    refine ⟨.protocolError (lit "Payload size exceeds maximum"), ?_⟩
    rw [if_neg (fun hne => hne hm)]
    dsimp only
    rw [if_pos hs]
    rfl
  · exact ⟨.protocolError (lit "Invalid magic number in message header"), by simp [hm]⟩

end Frame

theorem exists_frame {bs : Bytes} (h : 16 ≤ bs.length) : ∃ f : Frame, bs = f.bytes := by
  obtain ⟨w, rest, rfl, hw⟩ : ∃ w rest, bs = w ++ rest ∧ w.length = 16 :=
    ⟨bs.take 16, bs.drop 16, (List.take_append_drop 16 bs).symm, by simp; omega⟩
  obtain ⟨magic, w1, rfl⟩ := exists_encodeU32 (show 4 ≤ w.length by omega)
  simp only [List.length_append, length_encodeU32] at hw
  match w1, hw with
  | flags :: type :: w2, hw =>
    simp only [List.length_cons] at hw
    obtain ⟨reserved, w3, rfl⟩ := exists_encodeU16 (show 2 ≤ w2.length by omega)
    simp only [List.length_append, length_encodeU16] at hw
    obtain ⟨payloadSize, w4, rfl⟩ := exists_encodeU32 (show 4 ≤ w3.length by omega)
    simp only [List.length_append, length_encodeU32] at hw
    obtain ⟨sequenceId, w5, rfl⟩ := exists_encodeU32 (show 4 ≤ w4.length by omega)
    simp only [List.length_append, length_encodeU32] at hw
    have h5 : w5 = [] := List.length_eq_zero_iff.mp (by omega)
    subst h5
    exact ⟨⟨⟨magic, ⟨flags⟩, ⟨type⟩, reserved, payloadSize, sequenceId⟩, rest⟩, by
      simp [Frame.bytes, encodeHeader, encodeU8]⟩

theorem exists_encodeHeader {w : Bytes} (h : w.length = 16) : ∃ hdr, w = encodeHeader hdr := by
  obtain ⟨f, rfl⟩ := exists_frame (show 16 ≤ w.length by omega)
  have hnil : f.payload = [] := by
    rw [f.length_bytes] at h
    exact List.length_eq_zero_iff.mp (by omega)
  exact ⟨f.hdr, by rw [Frame.bytes, hnil, List.append_nil]⟩

/-- The frame every `create_*` function builds. -/
def message (type : MsgType) (sequenceId : UInt32) (payload : Bytes) : Frame where
  hdr := { magic := kMagic, flags := .none, type, reserved := 0,
           payloadSize := UInt32.ofNat payload.length, sequenceId }
  payload := payload

def createMessage (type : MsgType) (sequenceId : UInt32) (payload : Bytes) : Bytes :=
  (message type sequenceId payload).bytes

theorem message_valid {payload : Bytes} (type : MsgType) (seq : UInt32)
    (h : payload.length ≤ kMaxPayloadSize) : (message type seq payload).Valid := by
  refine ⟨rfl, ?_⟩
  simp only [kMaxPayloadSize] at h ⊢
  simp only [message, UInt32.toNat_ofNat']
  omega

/-! ## The init message -/

structure MethodFlags where
  code : UInt16
  deriving DecidableEq, Repr

structure MethodDescriptor where
  serviceId : UInt16
  methodId : UInt16
  flags : MethodFlags
  reserved : UInt16
  deriving DecidableEq, Repr

structure InitMessage where
  magic : UInt32
  firstVersion : UInt16
  currentVersion : UInt16
  capabilities : UInt32
  methodCount : UInt32
  deriving DecidableEq, Repr

def encodeInit (msg : InitMessage) : Bytes :=
  encodeU32 msg.magic ++ (encodeU16 msg.firstVersion ++ (encodeU16 msg.currentVersion ++
    (encodeU32 msg.capabilities ++ encodeU32 msg.methodCount)))

def decodeInit : Dec InitMessage := do
  let magic ← decodeU32
  if magic ≠ kMagic then
    throw (.protocolError (lit "Invalid magic in init message"))
  let firstVersion ← decodeU16
  let currentVersion ← decodeU16
  let capabilities ← decodeU32
  let methodCount ← decodeU32
  return { magic, firstVersion, currentVersion, capabilities, methodCount }

def encodeMethodDescriptor (desc : MethodDescriptor) : Bytes :=
  encodeU16 desc.serviceId ++ (encodeU16 desc.methodId ++
    (encodeU16 desc.flags.code ++ encodeU16 desc.reserved))

def decodeMethodDescriptor : Dec MethodDescriptor := do
  let serviceId ← decodeU16
  let methodId ← decodeU16
  let flags ← decodeU16
  let reserved ← decodeU16
  return { serviceId, methodId, flags := ⟨flags⟩, reserved }

@[simp] theorem length_encodeInit (msg : InitMessage) : (encodeInit msg).length = 16 := by
  simp [encodeInit]

@[simp] theorem length_encodeMethodDescriptor (desc : MethodDescriptor) :
    (encodeMethodDescriptor desc).length = 8 := by
  simp [encodeMethodDescriptor]

theorem length_encodeMethods (methods : List MethodDescriptor) :
    (methods.flatMap encodeMethodDescriptor).length = 8 * methods.length := by
  induction methods with
  | nil => rfl
  | cons desc methods ih =>
    rw [List.flatMap_cons, List.length_append, ih, length_encodeMethodDescriptor, List.length_cons]
    omega

def createInitMessage (firstVersion currentVersion : UInt16) (capabilities : UInt32)
    (methods : List MethodDescriptor) : Bytes :=
  createMessage .init 0 (encodeInit ⟨kMagic, firstVersion, currentVersion, capabilities,
    UInt32.ofNat methods.length⟩ ++ methods.flatMap encodeMethodDescriptor)

def createInitAckMessage (firstVersion currentVersion : UInt16) (capabilities : UInt32) : Bytes :=
  createMessage .initAck 0 (encodeInit ⟨kMagic, firstVersion, currentVersion, capabilities, 0⟩)

/-! ## Payload headers -/

def encodeMethodCall (serviceId methodId : UInt16) (args : Bytes) : Bytes :=
  encodeU16 serviceId ++ (encodeU16 methodId ++ args)

def decodeMethodCallHeader : Dec (UInt16 × UInt16) := do
  let serviceId ← decodeU16
  let methodId ← decodeU16
  return (serviceId, methodId)

structure ObjectRef where
  typeId : UInt32
  objectId : Int32
  deriving DecidableEq, Repr

def encodeObjectRef (ref : ObjectRef) : Bytes :=
  encodeU32 ref.typeId ++ encodeI32 ref.objectId

def decodeObjectRef : Dec ObjectRef := do
  let typeId ← decodeU32
  let objectId ← decodeI32
  return { typeId, objectId }

structure ObjectCreateHeader where
  typeId : UInt32
  constructorId : UInt16
  reserved : UInt16
  deriving DecidableEq, Repr

def encodeObjectCreate (typeId : UInt32) (constructorId : UInt16) (args : Bytes) : Bytes :=
  encodeU32 typeId ++ (encodeU16 constructorId ++ (encodeU16 0 ++ args))

def decodeObjectCreateHeader : Dec ObjectCreateHeader := do
  let typeId ← decodeU32
  let constructorId ← decodeU16
  let reserved ← decodeU16
  return { typeId, constructorId, reserved }

structure ObjectReleaseHeader where
  typeId : UInt32
  objectId : Int32
  deriving DecidableEq, Repr

def encodeObjectRelease (typeId : UInt32) (objectId : Int32) : Bytes :=
  encodeU32 typeId ++ encodeI32 objectId

def decodeObjectReleaseHeader : Dec ObjectReleaseHeader := do
  let typeId ← decodeU32
  let objectId ← decodeI32
  return { typeId, objectId }

structure PropertyHeader where
  typeId : UInt32
  objectId : Int32
  propertyId : UInt16
  reserved : UInt16
  deriving DecidableEq, Repr

def encodePropertyGet (typeId : UInt32) (objectId : Int32) (propertyId : UInt16) : Bytes :=
  encodeU32 typeId ++ (encodeI32 objectId ++ (encodeU16 propertyId ++ encodeU16 0))

def encodePropertySet (typeId : UInt32) (objectId : Int32) (propertyId : UInt16)
    (value : Bytes) : Bytes :=
  encodeU32 typeId ++ (encodeI32 objectId ++ (encodeU16 propertyId ++ (encodeU16 0 ++ value)))

def decodePropertyHeader : Dec PropertyHeader := do
  let typeId ← decodeU32
  let objectId ← decodeI32
  let propertyId ← decodeU16
  let reserved ← decodeU16
  return { typeId, objectId, propertyId, reserved }

structure ObjectMethodHeader where
  typeId : UInt32
  objectId : Int32
  methodId : UInt16
  reserved : UInt16
  deriving DecidableEq, Repr

def encodeObjectMethod (typeId : UInt32) (objectId : Int32) (methodId : UInt16)
    (args : Bytes) : Bytes :=
  encodeU32 typeId ++ (encodeI32 objectId ++ (encodeU16 methodId ++ (encodeU16 0 ++ args)))

def decodeObjectMethodHeader : Dec ObjectMethodHeader := do
  let typeId ← decodeU32
  let objectId ← decodeI32
  let methodId ← decodeU16
  let reserved ← decodeU16
  return { typeId, objectId, methodId, reserved }

namespace Fixed

theorem decodeMethodDescriptor : Fixed decodeMethodDescriptor 8 :=
  decodeU16.bind fun _ => (decodeU16.bind fun _ => (decodeU16.bind fun _ =>
    (decodeU16.bind fun _ => pure _)))

theorem decodeMethodCallHeader : Fixed decodeMethodCallHeader 4 :=
  decodeU16.bind fun _ => (decodeU16.bind fun _ => pure _)

theorem decodeObjectRef : Fixed decodeObjectRef 8 :=
  decodeU32.bind fun _ => (decodeI32.bind fun _ => pure _)

theorem decodeObjectCreateHeader : Fixed decodeObjectCreateHeader 8 :=
  decodeU32.bind fun _ => (decodeU16.bind fun _ => (decodeU16.bind fun _ => pure _))

theorem decodeObjectReleaseHeader : Fixed decodeObjectReleaseHeader 8 :=
  decodeU32.bind fun _ => (decodeI32.bind fun _ => pure _)

theorem decodePropertyHeader : Fixed decodePropertyHeader 12 :=
  decodeU32.bind fun _ => (decodeI32.bind fun _ => (decodeU16.bind fun _ =>
    (decodeU16.bind fun _ => pure _)))

theorem decodeObjectMethodHeader : Fixed decodeObjectMethodHeader 12 :=
  decodeU32.bind fun _ => (decodeI32.bind fun _ => (decodeU16.bind fun _ =>
    (decodeU16.bind fun _ => pure _)))

end Fixed

section
variable (pre : Bytes)

theorem decodeInit_cut (msg : InitMessage) (hmagic : msg.magic = kMagic) (rest : Bytes) :
    ∃ pre', decodeInit.run (.cut pre (encodeInit msg ++ rest)) = .ok msg (.cut pre' rest) := by
  simp only [decodeInit, encodeInit, List.append_assoc]
  rw [Eff.run_bind_ok (decodeU32_cut _)]
  simp only [hmagic, ne_eq, not_true_eq_false, ↓reduceIte]
  rw [Eff.run_bind_ok (decodeU16_cut _), Eff.run_bind_ok (decodeU16_cut _),
    Eff.run_bind_ok (decodeU32_cut _), Eff.run_bind_ok (decodeU32_cut _), ← hmagic]
  exact ⟨_, rfl⟩

theorem decodeMethodDescriptor_cut (desc : MethodDescriptor) (rest : Bytes) :
    ∃ pre', decodeMethodDescriptor.run (.cut pre (encodeMethodDescriptor desc ++ rest)) =
      .ok desc (.cut pre' rest) := by
  simp only [decodeMethodDescriptor, encodeMethodDescriptor, List.append_assoc]
  rw [Eff.run_bind_ok (decodeU16_cut _), Eff.run_bind_ok (decodeU16_cut _),
    Eff.run_bind_ok (decodeU16_cut _), Eff.run_bind_ok (decodeU16_cut _)]
  exact ⟨_, rfl⟩

theorem decodeMethodCallHeader_cut (serviceId methodId : UInt16) (args : Bytes) :
    ∃ pre', decodeMethodCallHeader.run (.cut pre (encodeMethodCall serviceId methodId args)) =
      .ok (serviceId, methodId) (.cut pre' args) := by
  rw [decodeMethodCallHeader, encodeMethodCall, Eff.run_bind_ok (decodeU16_cut _),
    Eff.run_bind_ok (decodeU16_cut _)]
  exact ⟨_, rfl⟩

theorem decodeObjectCreateHeader_cut (typeId : UInt32) (constructorId : UInt16) (args : Bytes) :
    ∃ pre', decodeObjectCreateHeader.run
        (.cut pre (encodeObjectCreate typeId constructorId args)) =
      .ok ⟨typeId, constructorId, 0⟩ (.cut pre' args) := by
  rw [decodeObjectCreateHeader, encodeObjectCreate, Eff.run_bind_ok (decodeU32_cut _),
    Eff.run_bind_ok (decodeU16_cut _), Eff.run_bind_ok (decodeU16_cut _)]
  exact ⟨_, rfl⟩

theorem decodeObjectReleaseHeader_cut (typeId : UInt32) (objectId : Int32) :
    ∃ b, decodeObjectReleaseHeader.run (.cut pre (encodeObjectRelease typeId objectId)) =
      .ok ⟨typeId, objectId⟩ b := by
  have e : encodeObjectRelease typeId objectId =
      encodeU32 typeId ++ (encodeI32 objectId ++ []) := by simp [encodeObjectRelease]
  rw [decodeObjectReleaseHeader, e, Eff.run_bind_ok (decodeU32_cut _),
    Eff.run_bind_ok (decodeI32_cut _)]
  exact ⟨_, rfl⟩

theorem decodePropertyHeader_cut (hdr : PropertyHeader) (value : Bytes) :
    ∃ pre', decodePropertyHeader.run (.cut pre (encodeU32 hdr.typeId ++ (encodeI32 hdr.objectId ++
        (encodeU16 hdr.propertyId ++ (encodeU16 hdr.reserved ++ value))))) =
      .ok hdr (.cut pre' value) := by
  rw [decodePropertyHeader, Eff.run_bind_ok (decodeU32_cut _), Eff.run_bind_ok (decodeI32_cut _),
    Eff.run_bind_ok (decodeU16_cut _), Eff.run_bind_ok (decodeU16_cut _)]
  exact ⟨_, rfl⟩

theorem decodeObjectMethodHeader_cut (typeId : UInt32) (objectId : Int32) (methodId : UInt16)
    (args : Bytes) :
    ∃ pre', decodeObjectMethodHeader.run
        (.cut pre (encodeObjectMethod typeId objectId methodId args)) =
      .ok ⟨typeId, objectId, methodId, 0⟩ (.cut pre' args) := by
  rw [decodeObjectMethodHeader, encodeObjectMethod, Eff.run_bind_ok (decodeU32_cut _),
    Eff.run_bind_ok (decodeI32_cut _), Eff.run_bind_ok (decodeU16_cut _),
    Eff.run_bind_ok (decodeU16_cut _)]
  exact ⟨_, rfl⟩

end

/-! ## Messages -/

def createCallMessage (seq : UInt32) (serviceId methodId : UInt16) (args : Bytes) : Bytes :=
  createMessage .call seq (encodeMethodCall serviceId methodId args)

def createResultMessage (seq : UInt32) (result : Bytes) : Bytes :=
  createMessage .result seq result

/-- `encode_string` refuses a text over 1 MiB, so this builder can throw. -/
def createErrorMessage (seq : UInt32) (code : ErrorCode) (msg : Str) : Except Exn Bytes := do
  let text ← encodeString msg
  return createMessage .error seq (encodeU16 code.toU16 ++ text)

theorem createErrorMessage_ok (seq : UInt32) (code : ErrorCode) {text : Str}
    (h : text.length ≤ kMaxStringSize) :
    createErrorMessage seq code text = .ok (createMessage .error seq
      (encodeU16 code.toU16 ++ (encodeU32 (UInt32.ofNat text.length) ++ text))) := by
  have hs : encodeString text = .ok (encodeU32 (UInt32.ofNat text.length) ++ text) := by
    rw [encodeString, if_neg (by omega)]
  rw [createErrorMessage, hs]; rfl

theorem createErrorMessage_error (seq : UInt32) (code : ErrorCode) {text : Str}
    (h : kMaxStringSize < text.length) :
    createErrorMessage seq code text =
      .error (.runtimeError (lit "String too large to encode")) := by
  have hs : encodeString text = .error (.runtimeError (lit "String too large to encode")) := by
    rw [encodeString, if_pos h]
  rw [createErrorMessage, hs]; rfl

def createShutdownMessage : Bytes :=
  createMessage .shutdown 0 []

def createStreamMessage (seq : UInt32) (chunk : Bytes) : Bytes :=
  createMessage .stream seq chunk

def createStreamEndMessage (seq : UInt32) : Bytes :=
  createMessage .streamEnd seq []

def createObjectCreateMessage (seq typeId : UInt32) (constructorId : UInt16)
    (args : Bytes) : Bytes :=
  createMessage .create seq (encodeObjectCreate typeId constructorId args)

def createObjectReleaseMessage (typeId : UInt32) (objectId : Int32) : Bytes :=
  createMessage .release 0 (encodeObjectRelease typeId objectId)

def createPropertyGetMessage (seq typeId : UInt32) (objectId : Int32)
    (propertyId : UInt16) : Bytes :=
  createMessage .propGet seq (encodePropertyGet typeId objectId propertyId)

def createPropertySetMessage (seq typeId : UInt32) (objectId : Int32) (propertyId : UInt16)
    (value : Bytes) : Bytes :=
  createMessage .propSet seq (encodePropertySet typeId objectId propertyId value)

def createObjectMethodMessage (seq typeId : UInt32) (objectId : Int32) (methodId : UInt16)
    (args : Bytes) : Bytes :=
  createMessage .objectCall seq (encodeObjectMethod typeId objectId methodId args)

def createPropertySubscribeMessage (typeId : UInt32) (objectId : Int32)
    (propertyId : UInt16) : Bytes :=
  createMessage .propSubscribe 0 (encodePropertyGet typeId objectId propertyId)

def createPropertyUnsubscribeMessage (typeId : UInt32) (objectId : Int32)
    (propertyId : UInt16) : Bytes :=
  createMessage .propUnsubscribe 0 (encodePropertyGet typeId objectId propertyId)

def createPropertyNotifyMessage (typeId : UInt32) (objectId : Int32) (propertyId : UInt16)
    (value : Bytes) : Bytes :=
  createMessage .propNotify 0 (encodePropertySet typeId objectId propertyId value)

end Song
