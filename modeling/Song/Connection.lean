import Song.Subscription

/-!
# A client's connection (`process.hpp`, `process.cpp`: `ServiceConnection`)

`Conn` is what the operations of a connection change: the next sequence id, the
property callbacks, the messages waiting to be received, and logs of what was
sent, which callbacks were invoked and which chunks were handed out. `Link` is
what they rely on: the process or transport underneath, and how its sends and a
receive without a message end. A callback is known by its name (`κ`): it returns
normally and leaves the connection alone.

The two-way operations differ in their request and in the texts of their errors
(`Op`); each is `twoWay` on its own `Op`.
-/

namespace Song

/-- What the connection was built on: `proc_`, `transport_`, or neither. -/
inductive Channel where
  | process
  | transport
  | none
  deriving DecidableEq

structure Link where
  channel : Channel
  /-- `proc_->alive()` or `transport_->is_connected()`. -/
  up : Bool
  /-- How a send ends, from the number of sends before it. -/
  sendOutcome : Nat → Option Exn
  /-- How a receive ends when no message comes: `false` (`none`), or an exception. -/
  dry : Option Exn

structure Conn (κ : Type) where
  nextSeq : UInt32
  propCallbacks : Map SubscriptionKey κ
  incoming : List Bytes
  attempts : Nat
  sent : List Bytes
  invoked : List (κ × Bytes)
  /-- The chunks given to `on_chunk`. -/
  handed : List Bytes

abbrev Cli (κ α : Type) := EStateM Exn (Conn κ) α

/-- A two-way operation, with its arguments. -/
inductive Op where
  | call (serviceId methodId : UInt16) (args : Bytes)
  | createObject (typeId : UInt32) (constructorId : UInt16) (args : Bytes)
  | getProperty (typeId : UInt32) (objectId : Int32) (propertyId : UInt16)
  | setProperty (typeId : UInt32) (objectId : Int32) (propertyId : UInt16) (value : Bytes)
  | callObject (typeId : UInt32) (objectId : Int32) (methodId : UInt16) (args : Bytes)
  deriving DecidableEq

namespace Op

/-- The request. -/
def message : Op → UInt32 → Bytes
  | .call serviceId methodId args, seq => createCallMessage seq serviceId methodId args
  | .createObject typeId constructorId args, seq =>
    createObjectCreateMessage seq typeId constructorId args
  | .getProperty typeId objectId propertyId, seq =>
    createPropertyGetMessage seq typeId objectId propertyId
  | .setProperty typeId objectId propertyId value, seq =>
    createPropertySetMessage seq typeId objectId propertyId value
  | .callObject typeId objectId methodId args, seq =>
    createObjectMethodMessage seq typeId objectId methodId args

/-- What the text of a service error starts with. -/
def errorText : Op → Str
  | .call _ _ _ => lit "Service error (code "
  | .createObject _ _ _ => lit "Object creation error (code "
  | .getProperty _ _ _ => lit "Property get error (code "
  | .setProperty _ _ _ _ => lit "Property set error (code "
  | .callObject _ _ _ _ => lit "Object method error (code "

def unexpectedText : Op → Str
  | .call _ _ _ => lit "Unexpected message type in response"
  | .createObject _ _ _ => lit "Unexpected message type in object creation response"
  | .getProperty _ _ _ => lit "Unexpected message type in property get response"
  | .setProperty _ _ _ _ => lit "Unexpected message type in property set response"
  | .callObject _ _ _ _ => lit "Unexpected message type in object method response"

end Op

/-- Decode the payload of an error message and throw what it says. -/
def throwServiceError (errorText : Str) : Dec Unit := do
  let code ← decodeU16
  let msg ← decodeString
  throw (.serviceError (errorText ++ toStr code.toNat ++ lit "): " ++ msg))

/-- What an operation does with its reply: past the header of a result, else a throw. -/
def expectResult (op : Op) : Dec Unit := do
  let hdr ← decodeHeaderValidated
  if hdr.type = .error then throwServiceError op.errorText
  else if hdr.type ≠ .result then throw (.protocolError op.unexpectedText)
  else pure ()

def seqMismatch : Exn := .protocolError (lit "Sequence ID mismatch")

variable {κ α : Type}

/-- The message a loop is working on is no longer incoming. -/
def takeIncoming (rest : List Bytes) : Cli κ Unit := modify fun c => { c with incoming := rest }

/-- The `for (;;)` of a receiving loop: one message after the other until `body` returns. -/
def receiveLoop (dry : Exn) (body : Bytes → Cli κ (Option α)) : List Bytes → Cli κ α
  | [] => throw dry
  | msg :: msgs => do
    takeIncoming msgs
    match ← body msg with
    | some a => pure a
    | none => receiveLoop dry body msgs

/-- Invoke the property's callback, if there is one, with what is left of the message. -/
def invokeCallback (propHdr : PropertyHeader) (value : Buffer) : Cli κ Unit := fun c =>
  match c.propCallbacks.lookup ⟨propHdr.objectId, propHdr.propertyId⟩ with
  | none => .ok () c
  | some callback => .ok () { c with invoked := c.invoked ++ [(callback, value.unread)] }

def dispatchNotification (msg : Buffer) : Cli κ Unit :=
  decodeThen decodePropertyHeader msg invokeCallback

/-- One iteration of `recv_reply`. -/
def recvReplyBody (seq : UInt32) (msg : Bytes) : Cli κ (Option Buffer) :=
  decodeThen decodeHeaderValidated (.ofBytes msg) fun hdr response =>
    if hdr.type = .propNotify then do
      dispatchNotification response
      return none
    else if hdr.sequenceId ≠ seq then throw seqMismatch
    else return some response.resetRead

section
variable (link : Link)

/-- Whether the connection can be used at all. -/
def checkLink : Cli κ Unit :=
  match link.channel with
  | .process => if link.up then pure () else throw (.serviceError (lit "Service not running"))
  | .transport =>
    if link.up then pure () else throw (.serviceError (lit "Transport not connected"))
  | .none => throw (.serviceError (lit "ServiceConnection: no transport or process"))

/-- `next_seq_++`. -/
def takeSeq : Cli κ UInt32 := fun c => .ok c.nextSeq { c with nextSeq := c.nextSeq + 1 }

def sendMessage (msg : Bytes) : Cli κ Unit := fun c =>
  match link.sendOutcome c.attempts with
  | none => .ok () { c with attempts := c.attempts + 1, sent := c.sent ++ [msg] }
  | some e => .error e { c with attempts := c.attempts + 1 }

/-- How every request starts: checks, a sequence id, the send. -/
def request (message : UInt32 → Bytes) : Cli κ UInt32 := do
  checkLink link
  let seq ← takeSeq
  sendMessage link (message seq)
  return seq

def recvReply (seq : UInt32) : Cli κ Buffer := fun c =>
  (receiveLoop (link.dry.getD (.serviceError (lit "Service died or timed out")))
    (recvReplyBody seq) c.incoming).run c

/-- A request and its reply, left behind the reply's header. -/
def twoWay (op : Op) : Cli κ Buffer := do
  let seq ← request link op.message
  let response ← recvReply link seq
  decodeThen (expectResult op) response fun _ rest => pure rest

/-! ## Streams -/

/-- `on_chunk`: how it ends, from the chunks handed to it so far. -/
abbrev StreamChunkHandler := List Bytes → Option Exn

def handChunk (onChunk : StreamChunkHandler) (chunk : Bytes) : Cli κ Unit := fun c =>
  match onChunk (c.handed ++ [chunk]) with
  | none => .ok () { c with handed := c.handed ++ [chunk] }
  | some e => .error e { c with handed := c.handed ++ [chunk] }

/-- One iteration of the loop of `call_streaming`. -/
def streamBody (seq : UInt32) (onChunk : StreamChunkHandler) (msg : Bytes) :
    Cli κ (Option Unit) :=
  decodeThen decodeHeaderValidated (.ofBytes msg) fun hdr response =>
    if hdr.sequenceId ≠ seq then
      throw (.protocolError (lit "Sequence ID mismatch in stream"))
    else if hdr.type = .stream then do
      handChunk onChunk ((msg.drop 16).take hdr.payloadSize.toNat)
      return none
    else if hdr.type = .streamEnd then return some ()
    else if hdr.type = .error then
      decodeThen (throwServiceError (lit "Service error (code ")) response fun _ _ => return none
    else throw (.protocolError (lit "Unexpected message type during streaming"))

/-- How a receive without a message ends a stream; only a `std::exception` is wrapped. -/
def streamDry (chunkTimeoutMs : Int) : Exn :=
  match link.dry with
  | none => .serviceError (lit "Service died or timed out during streaming (chunk timeout " ++
      toStr chunkTimeoutMs ++ lit " ms)")
  | some e =>
    if e.isStd then
      .serviceError (lit "Streaming receive failed (chunk timeout " ++ toStr chunkTimeoutMs ++
        lit " ms): " ++ e.what)
    else e

/-! ## The operations -/

namespace ServiceConnection

def call (serviceId methodId : UInt16) (args : Bytes) : Cli κ Bytes := do
  let response ← twoWay link (.call serviceId methodId args)
  return response.data.drop 16

def createObject (typeId : UInt32) (constructorId : UInt16) (args : Bytes) :
    Cli κ ObjectRef := do
  let response ← twoWay link (.createObject typeId constructorId args)
  decodeThen decodeObjectRef response fun ref _ => pure ref

def getProperty (typeId : UInt32) (objectId : Int32) (propertyId : UInt16) : Cli κ Bytes := do
  let response ← twoWay link (.getProperty typeId objectId propertyId)
  return response.data.drop 16

def setProperty (typeId : UInt32) (objectId : Int32) (propertyId : UInt16) (value : Bytes) :
    Cli κ Bytes := do
  let response ← twoWay link (.setProperty typeId objectId propertyId value)
  return response.data.drop 16

def callObject (typeId : UInt32) (objectId : Int32) (methodId : UInt16) (args : Bytes) :
    Cli κ Bytes := do
  let response ← twoWay link (.callObject typeId objectId methodId args)
  return response.data.drop 16

def callOneway (serviceId methodId : UInt16) (args : Bytes) : Cli κ Unit := do
  let _ ← request link fun seq => createCallMessage seq serviceId methodId args
  return ()

/-- Null references are not released, and what a send throws is dropped. -/
def releaseObject (typeId : UInt32) (objectId : Int32) : Cli κ Unit := fun c =>
  if objectId = 0 then .ok () c
  else if link.channel ≠ .none ∧ link.up then
    .ok () (Eff.after (sendMessage link (createObjectReleaseMessage typeId objectId)) c)
  else .ok () c

def callStreaming (serviceId methodId : UInt16) (args : Bytes) (onChunk : StreamChunkHandler)
    (chunkTimeoutMs : Int) : Cli κ UInt32 := do
  let seq ← request link fun seq => createCallMessage seq serviceId methodId args
  let c ← get
  receiveLoop (streamDry link chunkTimeoutMs) (streamBody seq onChunk) c.incoming
  return seq

end ServiceConnection

end

end Song
