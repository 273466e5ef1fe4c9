import Song.Compiler.PythonCodec
import Song.Wire

/-!
# Python's wire module (`wire.py`)

The client library for Python has its own header codec and builders of messages. `struct.pack`
and `struct.unpack` of the formats it uses write and read little-endian words, and `pack` raises
where a number does not fit; a Python number is an integer without bounds, a number that was
unpacked a natural one. A `str` is its UTF-8 bytes.
-/

namespace Song.PyWire

open Compiler (PyError PyDec pyRead pyEncodePrim pyDecodePrim validUtf8)

def magic : Nat := 0x534F4E47

def headerSize : Nat := 16

def maxPayloadSize : Nat := 64 * 1024 * 1024

/-- `MsgType`, an `IntEnum`. -/
inductive MsgType where
  | init | call | result | error | stream | streamEnd | ping | shutdown | create | release
  | propGet | propSet
  deriving DecidableEq, Repr

namespace MsgType

def value : MsgType → Nat
  | init => 0x01
  | call => 0x02
  | result => 0x03
  | error => 0x04
  | stream => 0x05
  | streamEnd => 0x06
  | ping => 0x07
  | shutdown => 0x08
  | create => 0x09
  | release => 0x0A
  | propGet => 0x0B
  | propSet => 0x0C

def all : List MsgType :=
  [init, call, result, error, stream, streamEnd, ping, shutdown, create, release, propGet, propSet]

/-- `MsgType(value)`, if there is such a member. -/
def ofValue? (value : Nat) : Option MsgType := all.find? (·.value == value)

end MsgType

structure Header where
  magic : Nat
  msgType : MsgType
  flags : Nat
  sequenceId : Nat
  payloadSize : Nat
  deriving DecidableEq, Repr

/-- The exceptions of `decode_header`. -/
inductive HeaderError where
  | protocolError (msg : Str)
  /-- What an `IntEnum` raises for a number that is none of its members. -/
  | valueError (msg : Str)
  deriving DecidableEq, Repr

/-! ## Words -/

/-- `struct.pack` of one unsigned word of `n` bytes. -/
def pack (n : Nat) (v : Int) : Except PyError Bytes :=
  if 0 ≤ v ∧ v < 256 ^ n then .ok (leBytes n v.toNat) else .error .structError

/-- `struct.unpack` of the word of `n` bytes at an offset. -/
def unpackAt (off n : Nat) (data : Bytes) : Nat := leNat ((data.drop off).take n)

/-- `:08X`. -/
def hex08 (n : Nat) : Str :=
  let digits := (Nat.toDigits 16 n).map fun c => UInt8.ofNat c.toUpper.toNat
  List.replicate (8 - digits.length) 48 ++ digits

/-! ## Headers -/

def encodeHeader (msgType : MsgType) (flags sequenceId payloadSize : Int) : Except PyError Bytes := do
  let w₁ ← pack 4 magic
  let w₂ ← pack 1 flags
  let w₃ ← pack 1 msgType.value
  let w₄ ← pack 2 0
  let w₅ ← pack 4 payloadSize
  let w₆ ← pack 4 sequenceId
  return w₁ ++ w₂ ++ w₃ ++ w₄ ++ w₅ ++ w₆

def decodeHeader (data : Bytes) : Except HeaderError Header :=
  if data.length ≠ headerSize then
    .error (.protocolError (lit "Header must be " ++ toStr headerSize ++ lit " bytes, got " ++
      toStr data.length))
  else
    let found := unpackAt 0 4 data
    let flags := unpackAt 4 1 data
    let msgType := unpackAt 5 1 data
    let payloadSize := unpackAt 8 4 data
    let sequenceId := unpackAt 12 4 data
    if found ≠ magic then
      .error (.protocolError (lit "Invalid magic number: 0x" ++ hex08 found))
    else if payloadSize > maxPayloadSize then
      .error (.protocolError (lit "Payload size " ++ toStr payloadSize ++ lit " exceeds maximum " ++
        toStr maxPayloadSize))
    else
      match MsgType.ofValue? msgType with
      | none => .error (.valueError (toStr msgType ++ lit " is not a valid MsgType"))
      | some msgType => .ok { magic := found, msgType, flags, sequenceId, payloadSize }

/-! ## Messages -/

def createCallMessage (sequenceId serviceId methodId : Int) (payload : Bytes) :
    Except PyError Bytes := do
  let service ← pack 2 serviceId
  let method ← pack 2 methodId
  let fullPayload := service ++ method ++ payload
  let header ← encodeHeader .call 0 sequenceId fullPayload.length
  return header ++ fullPayload

def decodeU16 : PyDec Nat := do
  return leNat (← pyRead 2)

def decodeMethodCallHeader : PyDec (Nat × Nat) := do
  let serviceId ← decodeU16
  let methodId ← decodeU16
  return (serviceId, methodId)

def createResultMessage (sequenceId : Int) (payload : Bytes) : Except PyError Bytes := do
  let header ← encodeHeader .result 0 sequenceId payload.length
  return header ++ payload

def createErrorMessage (sequenceId errorCode : Int) (message : Str) : Except PyError Bytes := do
  let code ← pack 2 errorCode
  let text ← pyEncodePrim .string (.string message)
  let payload := code ++ text
  let header ← encodeHeader .error 0 sequenceId payload.length
  return header ++ payload

def decodeErrorMessage : PyDec (Nat × Compiler.Val) := do
  let errorCode ← decodeU16
  let errorMessage ← pyDecodePrim .string
  return (errorCode, errorMessage)

/-! ## Headers of both sides -/

theorem MsgType.ofValue?_eq_some {n : Nat} {t : MsgType} : ofValue? n = some t ↔ t.value = n := by
  constructor
  · intro h
    exact beq_iff_eq.mp (List.find?_some (p := fun t : MsgType => t.value == n) h)
  · rintro rfl
    cases t <;> rfl

theorem MsgType.value_range (t : MsgType) : 1 ≤ t.value ∧ t.value ≤ 12 := by
  cases t <;> decide

theorem MsgType.exists_value {n : Nat} (h : 1 ≤ n ∧ n ≤ 12) : ∃ t : MsgType, t.value = n := by
  obtain ⟨h₁, h₂⟩ := h
  have ht : ∀ n ∈ List.range 13, 1 ≤ n → ∃ t ∈ MsgType.all, t.value = n := by decide
  obtain ⟨t, -, ht⟩ := ht n (List.mem_range.mpr (by omega)) h₁
  exact ⟨t, ht⟩

section
variable (hdr : Song.Header)

theorem leNat_encodeU32 (v : UInt32) : leNat (encodeU32 v) = v.toNat :=
  Words.leNat_leBytes v.toNat_lt

theorem leNat_encodeU16 (v : UInt16) : leNat (encodeU16 v) = v.toNat :=
  Words.leNat_leBytes v.toNat_lt

/-- The word that `w` is, wherever it stands. -/
theorem unpackAt_word {pre w rest : Bytes} {off n : Nat} (hoff : pre.length = off)
    (hn : w.length = n) : unpackAt off n (pre ++ (w ++ rest)) = leNat w := by
  rw [unpackAt, List.drop_left' hoff, List.take_left' hn]

theorem unpackAt_magic : unpackAt 0 4 (Song.encodeHeader hdr) = hdr.magic.toNat := by
  rw [← leNat_encodeU32, Song.encodeHeader, ← List.nil_append (_ ++ _)]
  exact unpackAt_word rfl (length_encodeU32 _)

theorem unpackAt_flags : unpackAt 4 1 (Song.encodeHeader hdr) = hdr.flags.code.toNat := by
  have h : leNat (encodeU8 hdr.flags.code) = hdr.flags.code.toNat := by simp [encodeU8, leNat]
  rw [← h, Song.encodeHeader]
  exact unpackAt_word (length_encodeU32 _) (length_encodeU8 _)

theorem unpackAt_type : unpackAt 5 1 (Song.encodeHeader hdr) = hdr.type.code.toNat := by
  have h : leNat (encodeU8 hdr.type.code) = hdr.type.code.toNat := by simp [encodeU8, leNat]
  rw [← h, Song.encodeHeader, ← List.append_assoc]
  exact unpackAt_word (by simp) (length_encodeU8 _)

theorem unpackAt_payloadSize :
    unpackAt 8 4 (Song.encodeHeader hdr) = hdr.payloadSize.toNat := by
  rw [← leNat_encodeU32, Song.encodeHeader, ← List.append_assoc, ← List.append_assoc,
    ← List.append_assoc]
  exact unpackAt_word (by simp) (length_encodeU32 _)

theorem unpackAt_sequenceId :
    unpackAt 12 4 (Song.encodeHeader hdr) = hdr.sequenceId.toNat := by
  rw [← leNat_encodeU32, Song.encodeHeader, ← List.append_assoc, ← List.append_assoc,
    ← List.append_assoc, ← List.append_assoc, ← List.append_nil (encodeU32 hdr.sequenceId)]
  rw [unpackAt_word (by simp) (length_encodeU32 _), List.append_nil]

end

/-- What Python makes of 16 bytes is what C++ makes of them, a refusal being a `ProtocolError`. -/
def Agrees (data : Bytes) : Prop :=
  match decodeHeader data, decodeHeaderValidated.run (.ofBytes data) with
  | .ok py, .ok cpp _ =>
    py.msgType.value = cpp.type.code.toNat ∧ py.flags = cpp.flags.code.toNat ∧
      py.sequenceId = cpp.sequenceId.toNat ∧ py.payloadSize = cpp.payloadSize.toNat
  | .error (.protocolError _), .error _ _ => True
  | _, _ => False

theorem decodeHeader_encodeHeader (hdr : Song.Header) :
    decodeHeader (Song.encodeHeader hdr) =
      if hdr.magic.toNat ≠ magic then
        .error (.protocolError (lit "Invalid magic number: 0x" ++ hex08 hdr.magic.toNat))
      else if hdr.payloadSize.toNat > maxPayloadSize then
        .error (.protocolError (lit "Payload size " ++ toStr hdr.payloadSize.toNat ++
          lit " exceeds maximum " ++ toStr maxPayloadSize))
      else
        match MsgType.ofValue? hdr.type.code.toNat with
        | none => .error (.valueError (toStr hdr.type.code.toNat ++ lit " is not a valid MsgType"))
        | some msgType => .ok ⟨hdr.magic.toNat, msgType, hdr.flags.code.toNat,
            hdr.sequenceId.toNat, hdr.payloadSize.toNat⟩ := by
  have hlen : ¬ (Song.encodeHeader hdr).length ≠ headerSize := fun h => h (length_encodeHeader hdr)
  rw [decodeHeader, if_neg hlen]
  simp only [unpackAt_magic, unpackAt_flags, unpackAt_type, unpackAt_payloadSize,
    unpackAt_sequenceId]

theorem decodeHeaderValidated_encodeHeader (hdr : Song.Header) :
    if hdr.magic = kMagic ∧ hdr.payloadSize.toNat ≤ kMaxPayloadSize then
      decodeHeaderValidated.run (.ofBytes (Song.encodeHeader hdr)) =
        .ok hdr (.cut (Song.encodeHeader hdr) [])
    else
      ∃ e, decodeHeaderValidated.run (.ofBytes (Song.encodeHeader hdr)) =
        .error e (.cut (Song.encodeHeader hdr) []) := by
  have hbytes : (Frame.mk hdr []).bytes = Song.encodeHeader hdr := List.append_nil _
  split
  · next h =>
    have hv := Frame.decodeHeaderValidated_bytes (f := ⟨hdr, []⟩) h
    rwa [hbytes] at hv
  · next h =>
    have hv := Frame.decodeHeaderValidated_invalid (f := ⟨hdr, []⟩) h
    rwa [hbytes] at hv

/-- The two decoders agree where the magic is wrong, where the payload is over Python's limit, and
where it is within C++'s and the type is one that Python has. -/
theorem agrees_iff (data : Bytes) (h : data.length = 16) :
    Agrees data ↔ unpackAt 0 4 data ≠ magic ∨ maxPayloadSize < unpackAt 8 4 data ∨
      unpackAt 8 4 data ≤ kMaxPayloadSize ∧ 1 ≤ unpackAt 5 1 data ∧ unpackAt 5 1 data ≤ 12 := by
  obtain ⟨hdr, rfl⟩ := exists_encodeHeader h
  have hmagic : hdr.magic.toNat = magic ↔ hdr.magic = kMagic :=
    ⟨fun h => UInt32.toNat_inj.mp h, fun h => congrArg UInt32.toNat h⟩
  have hlimits : kMaxPayloadSize < maxPayloadSize := by decide
  have hcpp := decodeHeaderValidated_encodeHeader hdr
  rw [unpackAt_magic, unpackAt_payloadSize, unpackAt_type, Agrees, decodeHeader_encodeHeader]
  by_cases hm : hdr.magic.toNat = magic
  · by_cases hbig : maxPayloadSize < hdr.payloadSize.toNat
    · rw [if_neg (by omega)] at hcpp
      obtain ⟨e, he⟩ := hcpp
      rw [he, if_neg (not_not_intro hm), if_pos hbig]
      exact iff_of_true trivial (.inr (.inl hbig))
    · rw [if_neg (not_not_intro hm), if_neg hbig]
      by_cases hfits : hdr.payloadSize.toNat ≤ kMaxPayloadSize
      · rw [if_pos ⟨hmagic.mp hm, hfits⟩] at hcpp
        rw [hcpp]
        cases ht : MsgType.ofValue? hdr.type.code.toNat with
        | none =>
          refine iff_of_false (fun h => h) ?_
          rintro (h | h | ⟨-, h⟩)
          · exact h hm
          · exact hbig h
          · obtain ⟨t, hv⟩ := MsgType.exists_value h
            rw [MsgType.ofValue?_eq_some.mpr hv] at ht
            cases ht
        | some t =>
          have hv := MsgType.ofValue?_eq_some.mp ht
          have hr := t.value_range
          rw [hv] at hr
          exact iff_of_true ⟨hv, rfl, rfl, rfl⟩ (.inr (.inr ⟨hfits, hr⟩))
      · -- C++ refuses what Python takes
        rw [if_neg fun h => hfits h.2] at hcpp
        obtain ⟨e, he⟩ := hcpp
        rw [he]
        refine iff_of_false ?_ ?_
        · cases MsgType.ofValue? hdr.type.code.toNat <;> exact fun h => h
        · rintro (h | h | ⟨h, -⟩)
          · exact h hm
          · exact hbig h
          · exact hfits h
  · rw [if_neg fun h => hm (hmagic.mpr h.1)] at hcpp
    obtain ⟨e, he⟩ := hcpp
    rw [he, if_pos hm]
    exact iff_of_true trivial (.inl hm)

/-- The header of a notification without a payload. -/
def notifyHeader : Bytes := Song.encodeHeader (message .propNotify 0 []).hdr

theorem agrees_iff_notifyHeader : Agrees notifyHeader ↔
    unpackAt 0 4 notifyHeader ≠ magic ∨ maxPayloadSize < unpackAt 8 4 notifyHeader ∨
      unpackAt 8 4 notifyHeader ≤ kMaxPayloadSize ∧ 1 ≤ unpackAt 5 1 notifyHeader ∧
        unpackAt 5 1 notifyHeader ≤ 12 :=
  agrees_iff notifyHeader (by decide)

/-- Python has no such type, and its enum does not raise a `ProtocolError`. -/
theorem not_agrees_notifyHeader : ¬ ∀ data : Bytes, data.length = 16 → Agrees data := by
  intro h
  have ha := h notifyHeader (by decide)
  have hpy : decodeHeader notifyHeader = .error (.valueError (lit "16 is not a valid MsgType")) := by
    decide +kernel
  rw [Agrees, hpy] at ha
  exact ha

/-! ## Messages of both sides -/

theorem ok_bind {α β : Type} (a : α) (f : α → Except PyError β) : (Except.ok a >>= f) = f a := rfl

theorem pack_u16 (v : UInt16) : pack 2 v.toNat = .ok (encodeU16 v) := by
  have hlt := v.toNat_lt
  rw [pack, if_pos ⟨Int.natCast_nonneg _, by norm_num; omega⟩]
  rfl

theorem pack_u32 (v : UInt32) : pack 4 v.toNat = .ok (encodeU32 v) := by
  have hlt := v.toNat_lt
  rw [pack, if_pos ⟨Int.natCast_nonneg _, by norm_num; omega⟩]
  rfl

/-- Both sides put the same header in front of a payload. -/
theorem encodeHeader_eq {type : Song.MsgType} {msgType : MsgType} {payload : Bytes}
    (ht : type.code.toNat = msgType.value) (seq : UInt32) (hp : payload.length < 2 ^ 32) :
    encodeHeader msgType 0 seq.toNat payload.length =
      .ok (Song.encodeHeader (message type seq payload).hdr) := by
  have hmagic : pack 4 magic = .ok (encodeU32 kMagic) := pack_u32 kMagic
  have hflags : pack 1 0 = .ok (encodeU8 MsgFlags.none.code) := rfl
  have htype : pack 1 msgType.value = .ok (encodeU8 type.code) := by
    have hv : type.code = UInt8.ofNat msgType.value := by rw [← ht, UInt8.ofNat_toNat]
    rw [hv]
    cases msgType <;> rfl
  have hreserved : pack 2 0 = .ok (encodeU16 0) := pack_u16 0
  have hsize : pack 4 payload.length = .ok (encodeU32 (UInt32.ofNat payload.length)) := by
    rw [← pack_u32, UInt32.toNat_ofNat', Nat.mod_eq_of_lt hp]
  rw [encodeHeader, hmagic, hflags, htype, hreserved, hsize, pack_u32]
  show Except.ok _ = Except.ok _
  simp only [Song.encodeHeader, message, List.append_assoc]

/-- C++'s `create_error_message` for any code: an `ErrorCode` holds every `u16`. -/
def createErrorMessageOf (seq : UInt32) (code : UInt16) (text : Str) : Except Exn Bytes := do
  let text ← encodeString text
  return createMessage .error seq (encodeU16 code ++ text)

theorem createErrorMessage_eq_of (seq : UInt32) (code : ErrorCode) (text : Str) :
    Song.createErrorMessage seq code text = createErrorMessageOf seq code.toU16 text := rfl

section
variable {type : Song.MsgType} {msgType : MsgType} {payload : Bytes}

/-- The message behind that header. -/
theorem createMessage_eq (ht : type.code.toNat = msgType.value) (seq : UInt32)
    (hp : payload.length ≤ maxPayloadSize) :
    (encodeHeader msgType 0 seq.toNat payload.length >>= fun header => pure (header ++ payload)) =
      Except.ok (createMessage type seq payload) := by
  have hlt : payload.length < 2 ^ 32 := by
    simp only [maxPayloadSize] at hp
    omega
  rw [encodeHeader_eq ht seq hlt]
  rfl

/-- Python reads the header of a message that C++ built. -/
theorem decodeHeader_createMessage (ht : type.code.toNat = msgType.value) (seq : UInt32)
    (hp : payload.length ≤ maxPayloadSize) :
    decodeHeader ((createMessage type seq payload).take 16) =
        .ok ⟨magic, msgType, 0, seq.toNat, payload.length⟩ ∧
      (createMessage type seq payload).drop 16 = payload := by
  have hsize : (UInt32.ofNat payload.length).toNat = payload.length := by
    simp only [maxPayloadSize] at hp
    rw [UInt32.toNat_ofNat']
    omega
  have htake : (createMessage type seq payload).take 16 =
      Song.encodeHeader (message type seq payload).hdr := List.take_left' (length_encodeHeader _)
  refine ⟨?_, Frame.drop_bytes _⟩
  rw [htake, decodeHeader_encodeHeader]
  simp only [message, hsize, ht]
  rw [if_neg (fun h => h rfl), if_neg (by omega), MsgType.ofValue?_eq_some.mpr rfl]
  rfl

end

theorem reads_decodeU16 (v : UInt16) :
    Cursor.Reads Buffer.cut decodeU16 (encodeU16 v) v.toNat := by
  have h := (Compiler.reads_pyRead (length_encodeU16 v)).map leNat
  rwa [leNat_encodeU16] at h

/-- What Python reads of a message that C++ built: its header, and by `d` from a buffer of the
payload a value, with `left` unread. -/
def Recovers {α : Type} (msg : Bytes) (msgType : MsgType) (seq : UInt32) (d : PyDec α) (a : α)
    (left : Bytes) : Prop :=
  decodeHeader (msg.take 16) = .ok ⟨magic, msgType, 0, seq.toNat, (msg.drop 16).length⟩ ∧
    ∃ b, d.run (.ofBytes (msg.drop 16)) = .ok a b ∧ b.unread = left

theorem recovers_createMessage {α : Type} {type : Song.MsgType} {msgType : MsgType}
    {front left : Bytes} {d : PyDec α} {a : α} (ht : type.code.toNat = msgType.value)
    (seq : UInt32) (hp : (front ++ left).length ≤ maxPayloadSize)
    (hd : Cursor.Reads Buffer.cut d front a) :
    Recovers (createMessage type seq (front ++ left)) msgType seq d a left := by
  obtain ⟨hh, hdrop⟩ := decodeHeader_createMessage ht seq hp
  rw [Recovers, hdrop, hh]
  refine ⟨rfl, .cut ([] ++ front) left, ?_, Buffer.cut_unread _ _⟩
  rw [Buffer.ofBytes_eq_cut]
  exact hd [] left

section
variable (seq : UInt32)

theorem createCallMessage_eq (serviceId methodId : UInt16) {payload : Bytes}
    (h : payload.length ≤ kMaxPayloadSize) :
    createCallMessage seq.toNat serviceId.toNat methodId.toNat payload =
        .ok (Song.createCallMessage seq serviceId methodId payload) ∧
      Recovers (Song.createCallMessage seq serviceId methodId payload) .call seq
        decodeMethodCallHeader (serviceId.toNat, methodId.toNat) payload := by
  have hids : Cursor.Reads Buffer.cut decodeMethodCallHeader
      (encodeU16 serviceId ++ encodeU16 methodId) (serviceId.toNat, methodId.toNat) :=
    (reads_decodeU16 serviceId).bind ((reads_decodeU16 methodId).map _)
  have hlen : (encodeU16 serviceId ++ encodeU16 methodId ++ payload).length ≤ maxPayloadSize := by
    simp only [kMaxPayloadSize] at h
    simp only [List.length_append, length_encodeU16, maxPayloadSize]
    omega
  rw [Song.createCallMessage, encodeMethodCall, ← List.append_assoc]
  refine ⟨?_, recovers_createMessage rfl seq hlen hids⟩
  rw [createCallMessage, pack_u16, ok_bind, pack_u16, ok_bind]
  exact @createMessage_eq .call .call _ rfl seq hlen

theorem createResultMessage_eq {payload : Bytes} (h : payload.length ≤ kMaxPayloadSize) :
    createResultMessage seq.toNat payload = .ok (Song.createResultMessage seq payload) ∧
      Recovers (Song.createResultMessage seq payload) .result seq (pure ()) () payload := by
  have hlen : payload.length ≤ maxPayloadSize := by
    simp only [kMaxPayloadSize] at h
    simp only [maxPayloadSize]
    omega
  refine ⟨@createMessage_eq .result .result _ rfl seq hlen, ?_⟩
  exact @recovers_createMessage _ _ _ [] payload _ () rfl seq hlen (.pure ())

theorem createErrorMessage_eq (code : UInt16) {text : Str} (hu : validUtf8 text = true)
    (h : text.length ≤ kMaxStringSize) :
    ∃ msg, createErrorMessageOf seq code text = .ok msg ∧
      createErrorMessage seq.toNat code.toNat text = .ok msg ∧
      Recovers msg .error seq decodeErrorMessage (code.toNat, .string text) [] := by
  have hcpp : encodeString text = .ok (encodeU32 (UInt32.ofNat text.length) ++ text) := by
    rw [encodeString, if_neg (Nat.not_lt.mpr h)]
  have hpy : pyEncodePrim .string (.string text) =
      .ok (encodeU32 (UInt32.ofNat text.length) ++ text) := by
    simp only [kMaxStringSize] at h
    simp only [pyEncodePrim, hu, ↓reduceIte]
    rw [if_neg (by omega)]
    rfl
  have hd : Cursor.Reads Buffer.cut decodeErrorMessage
      (encodeU16 code ++ (encodeU32 (UInt32.ofNat text.length) ++ text))
      (code.toNat, .string text) :=
    (reads_decodeU16 code).bind ((Compiler.reads_pyDecodePrim hpy).map _)
  have hlen : (encodeU16 code ++ (encodeU32 (UInt32.ofNat text.length) ++ text)).length ≤
      maxPayloadSize := by
    simp only [kMaxStringSize] at h
    simp only [List.length_append, length_encodeU16, length_encodeU32, maxPayloadSize]
    omega
  refine ⟨createMessage .error seq (encodeU16 code ++
    (encodeU32 (UInt32.ofNat text.length) ++ text)), ?_, ?_, ?_⟩
  · rw [createErrorMessageOf, hcpp]
    rfl
  · rw [createErrorMessage, pack_u16, ok_bind, hpy, ok_bind]
    exact @createMessage_eq .error .error _ rfl seq hlen
  · have hr := @recovers_createMessage _ .error .error _ [] _ _ rfl seq (by simpa using hlen) hd
    rwa [List.append_nil] at hr

end

/-- Both sides build the same call, result and error messages, and Python recovers from them what
they were built from. -/
theorem messages_eq (seq : UInt32) (serviceId methodId code : UInt16) (payload : Bytes) (text : Str)
    (hp : payload.length ≤ kMaxPayloadSize) (hu : validUtf8 text = true)
    (ht : text.length ≤ kMaxStringSize) :
    (createCallMessage seq.toNat serviceId.toNat methodId.toNat payload =
        .ok (Song.createCallMessage seq serviceId methodId payload) ∧
      Recovers (Song.createCallMessage seq serviceId methodId payload) .call seq
        decodeMethodCallHeader (serviceId.toNat, methodId.toNat) payload) ∧
    (createResultMessage seq.toNat payload = .ok (Song.createResultMessage seq payload) ∧
      Recovers (Song.createResultMessage seq payload) .result seq (pure ()) () payload) ∧
    ∃ msg, createErrorMessageOf seq code text = .ok msg ∧
      createErrorMessage seq.toNat code.toNat text = .ok msg ∧
      Recovers msg .error seq decodeErrorMessage (code.toNat, .string text) [] :=
  ⟨createCallMessage_eq seq serviceId methodId hp, createResultMessage_eq seq hp,
    createErrorMessage_eq seq code hu ht⟩

/-- A call, a result and an error at once. -/
theorem messages_eq_hello :
    (createCallMessage (7 : UInt32).toNat (1 : UInt16).toNat (2 : UInt16).toNat [8, 9] =
        .ok (Song.createCallMessage 7 1 2 [8, 9]) ∧
      Recovers (Song.createCallMessage 7 1 2 [8, 9]) .call 7
        decodeMethodCallHeader ((1 : UInt16).toNat, (2 : UInt16).toNat) [8, 9]) ∧
    (createResultMessage (7 : UInt32).toNat [8, 9] = .ok (Song.createResultMessage 7 [8, 9]) ∧
      Recovers (Song.createResultMessage 7 [8, 9]) .result 7 (pure ()) () [8, 9]) ∧
    ∃ msg, createErrorMessageOf 7 300 (lit "gone") = .ok msg ∧
      createErrorMessage (7 : UInt32).toNat (300 : UInt16).toNat (lit "gone") = .ok msg ∧
      Recovers msg .error 7 decodeErrorMessage ((300 : UInt16).toNat, .string (lit "gone")) [] :=
  messages_eq 7 1 2 300 [8, 9] (lit "gone") (by decide) (by decide +kernel) (by decide)

end Song.PyWire
