import Song.Stream

/-!
# Handling messages (`runtime.cpp`: `handle_message`, `handle_message_fd`, `client_loop`)

`handleMessage` dispatches one message of a transport's client and
`handleMessageFd` one message of the pipe path; the branches they have in common
are one handler each, on the `Port` of the reply. `clientLoop` is the loop of
one connection: `send_init_confirmation_transport`, then one message after the
other until a return path, each of which releases the connection's objects and
subscriptions first. `transport.receive` is a list of messages and how it ends:
`none` for `false` (disconnect), or the exception it throws.
-/

namespace Song

variable {σ ω : Type} (env : Env σ ω)

/-- `create_error_message` and the send of it. -/
def sendError (port : Port) (seq : UInt32) (code : ErrorCode) (text : Str) :
    Srv σ ω Unit := do
  let msg ← ofExcept (createErrorMessage seq code text)
  reply env port msg

/-- A stream call: the writer outlives the dispatcher and is destroyed on every way out. -/
def handleStreamCall (seq : UInt32) (port : Port) (run : σ → StreamRun σ) : Srv σ ω Unit :=
    fun s =>
  match runStream env (run s.user) (.create port seq) s with
  | (none, writer, s') => (writer.destroy env).run s'
  | (some e, writer, s') =>
    -- `catch (const std::exception&)`: abort, so that the error reply ends the stream
    if e.isStd then (sendError env port seq .unknownMethod e.what).run s'
    else match (writer.destroy env).run s' with
      | .ok _ s'' => .error e s''
      | .error _ s'' => .error e s''

section
variable {env} {seq : UInt32} {port : Port} {run : σ → StreamRun σ} {s s' : Rt σ ω}
  {writer : StreamWriter} {e : Exn}

theorem handleStreamCall_returned
    (h : runStream env (run s.user) (.create port seq) s = (none, writer, s')) :
    (handleStreamCall env seq port run).run s = (writer.destroy env).run s' := by
  simp only [EStateM.run, handleStreamCall, h]

theorem handleStreamCall_threw
    (h : runStream env (run s.user) (.create port seq) s = (some e, writer, s'))
    (he : e.isStd = true) :
    (handleStreamCall env seq port run).run s =
      (sendError env port seq .unknownMethod e.what).run s' := by
  simp only [EStateM.run, handleStreamCall, h, he, ↓reduceIte]

theorem handleStreamCall_foreign
    (h : runStream env (run s.user) (.create port seq) s = (some e, writer, s'))
    (he : ¬ e.isStd = true) :
    (handleStreamCall env seq port run).run s =
      .error e (Eff.after (writer.destroy env) s') := by
  simp only [EStateM.run, handleStreamCall, h, he, Bool.false_eq_true, ↓reduceIte, Eff.after]
  cases writer.destroy env s' with
  | ok _ s'' => rfl
  | error _ s'' => rfl

end

/-- What the call branch runs under its `try`. -/
def callBody (seq : UInt32) (port : Port) (dispatcher : σ → Ran σ Push Bytes) :
    Srv σ ω Unit := do
  let response ← runCallback env dispatcher
  reply env port (createResultMessage seq response)

def handleCall (hdr : Header) (payload : Buffer) (port : Port) : Srv σ ω Unit :=
  decodeThen decodeMethodCallHeader payload fun ids args =>
    match env.streamDispatchers.lookup ids.1 with
    | some dispatcher => handleStreamCall env hdr.sequenceId port (dispatcher ids.2 args)
    | none =>
      match env.dispatchers.lookup ids.1 with
      | none => sendError env port hdr.sequenceId .unknownService (lit "Unknown service ID")
      | some dispatcher =>
        catchStd (callBody env hdr.sequenceId port (dispatcher ids.2 args)) fun e =>
          sendError env port hdr.sequenceId .unknownMethod e.what

/-! ## What a service call leaves alone -/

namespace Aside

variable {env}

theorem sendError (port : Port) (seq : UInt32) (code : ErrorCode) (text : Str) :
    Eff.Within Aside (sendError env port seq code text) :=
  bind (ofExcept _) fun _ => reply port _

theorem tryReport {port : Port} {seq : UInt32} {code : ErrorCode} {body : Srv σ ω Unit}
    (hb : Eff.Within Aside body) :
    Eff.Within Aside (catchStd body fun e => Song.sendError env port seq code e.what) :=
  Eff.Within.catchIf (fun h h' => h.trans h') hb fun _ => sendError port seq code _

theorem callBody (seq : UInt32) (port : Port) (dispatcher : σ → Ran σ Push Bytes) :
    Eff.Within Aside (callBody env seq port dispatcher) :=
  bind (runCallback dispatcher) fun _ => reply port _

theorem write (w : StreamWriter) (chunk : Bytes) : Eff.Within Aside (w.write env chunk) := by
  unfold StreamWriter.write
  split
  · exact .throw refl _
  · split
    · exact transportSend _ _
    · split
      · refine bind (writeAll _ _) fun written => ?_
        cases written with
        | true => exact .pure refl ()
        | false => exact .throw refl _
      · exact .pure refl ()

theorem sendEnd (w : StreamWriter) : Eff.Within Aside (w.sendEnd env) := by
  unfold StreamWriter.sendEnd
  split
  · exact transportSend _ _
  · split
    · exact bind (writeAll _ _) fun _ => .pure refl ()
    · exact .pure refl ()

theorem finish (w : StreamWriter) : Eff.Within Aside (w.finish env).2 := by
  unfold StreamWriter.finish
  split
  · exact .pure refl ()
  · exact sendEnd w

theorem destroy (w : StreamWriter) : Eff.Within Aside (w.destroy env) := by
  unfold StreamWriter.destroy
  split
  · exact .pure refl ()
  · exact fun s => .of_ok (quietly_run _ s) ((sendEnd w).after s)

theorem runStream (run : StreamRun σ) (w : StreamWriter) (s : Rt σ ω) :
    Aside s (runStream env run w s).2.2 := by
  induction run generalizing w s with
  | write chunk next ih =>
    unfold Song.runStream
    split
    · next h => exact ((write w chunk).ok h).trans (ih _ _ _)
    · next h => exact ((write w chunk).error h).trans (ih _ _ _)
  | finish next ih =>
    unfold Song.runStream
    split
    · next h => exact ((finish w).ok h).trans (ih _ _ _)
    · next h => exact ((finish w).error h).trans (ih _ _ _)
  | push p next ih =>
    unfold Song.runStream
    split
    · next h => exact ((notify p).ok h).trans (ih _ _)
    · next h => exact ((notify p).error h).trans (ih _ _)
  | returns user => rfl
  | throws user e => rfl

theorem handleStreamCall (seq : UInt32) (port : Port) (run : σ → StreamRun σ) :
    Eff.Within Aside (handleStreamCall env seq port run) := by
  intro s
  have hk : Aside s (Song.runStream env (run s.user) (.create port seq) s).2.2 := runStream _ _ s
  rcases h : Song.runStream env (run s.user) (.create port seq) s with ⟨_ | e, writer, s'⟩
  · rw [h] at hk
    have hd : Eff.Within Aside (writer.destroy env) := destroy writer
    replace hd := (hd s').mono (fun _ _ h => hk.trans h) fun _ _ h => hk.trans h
    unfold Eff.Ends at hd ⊢
    rw [handleStreamCall_returned h]
    exact hd
  · rw [h] at hk
    by_cases he : e.isStd = true
    · have hd : Eff.Within Aside (Song.sendError env port seq .unknownMethod e.what) :=
        sendError port seq _ _
      replace hd := (hd s').mono (fun _ _ h => hk.trans h) fun _ _ h => hk.trans h
      unfold Eff.Ends at hd ⊢
      rw [handleStreamCall_threw h he]
      exact hd
    · exact .of_error (handleStreamCall_foreign h he) (hk.trans ((destroy writer).after s'))

theorem handleCall (hdr : Header) (payload : Buffer) (port : Port) :
    Eff.Within Aside (handleCall env hdr payload port) := by
  refine within_decodeThen refl fun ids args => ?_
  split
  · exact handleStreamCall _ _ _
  · split
    · exact sendError _ _ _ _
    · exact tryReport (callBody _ _ _)

end Aside

/-! ## Objects -/

/-- The end of `create_object`: number the factory's object and register it. -/
def registerObject (typeId : UInt32) (data : ω) : Srv σ ω Int32 := fun s =>
  .ok (s.registry.add typeId data).1 { s with registry := (s.registry.add typeId data).2 }

/-- `ObjectRegistry::create_object`. -/
def createObject (typeId : UInt32) (constructorId : UInt16) (args : Buffer) : Srv σ ω Int32 :=
  match env.factories.lookup typeId with
  | none => throw (.serviceError (lit "Unknown type ID: " ++ toStr typeId.toNat))
  | some factory => do
    match ← runCallback env (factory constructorId args) with
    | none => throw (.serviceError (lit "Factory returned null for type ID: " ++ toStr typeId.toNat))
    | some data => registerObject typeId data

/-- What the create branch runs under its `try`. -/
def createBody (seq : UInt32) (port : Port) (createHdr : ObjectCreateHeader)
    (args : Buffer) : Srv σ ω Unit := do
  let objectId ← createObject env createHdr.typeId createHdr.constructorId args
  modify fun s => { s with tracked := s.tracked.insert objectId }
  reply env port (createResultMessage seq (encodeObjectRef ⟨createHdr.typeId, objectId⟩))

def handleCreate (hdr : Header) (payload : Buffer) (port : Port) : Srv σ ω Unit :=
  decodeThen decodeObjectCreateHeader payload fun createHdr args =>
    catchStd (createBody env hdr.sequenceId port createHdr args) fun e =>
      sendError env port hdr.sequenceId .objectCreationFailed e.what

/-- No response for a release. -/
def handleRelease (payload : Buffer) : Srv σ ω Unit :=
  decodeThen decodeObjectReleaseHeader payload fun releaseHdr _ =>
    modify fun s => { s with
      registry := s.registry.release releaseHdr.objectId,
      tracked := s.tracked.erase releaseHdr.objectId }

/-- What the three object branches run under their `try`: look the object up, run one
of its virtual functions, reply. -/
def objectBody (seq : UInt32) (port : Port) (objectId : Int32)
    (f : ω × σ → Ran (ω × σ) Note Bytes) : Srv σ ω Unit := fun s =>
  match s.registry.get objectId with
  | none => (sendError env port seq .objectNotFound (lit "Object not found")).run s
  | some obj =>
    (do
      let response ← runVirtual env objectId obj f
      reply env port (createResultMessage seq response)).run s

/-- The `try` and its handler; `code` is what an exception is reported as. -/
def handleObject (seq : UInt32) (port : Port) (code : ErrorCode) (objectId : Int32)
    (f : ω × σ → Ran (ω × σ) Note Bytes) : Srv σ ω Unit :=
  catchStd (objectBody env seq port objectId f) fun e => sendError env port seq code e.what

def handlePropGet (hdr : Header) (payload : Buffer) (port : Port) : Srv σ ω Unit :=
  decodeThen decodePropertyHeader payload fun propHdr _ =>
    handleObject env hdr.sequenceId port .propertyError propHdr.objectId
      (env.propGet propHdr.propertyId)

def handlePropSet (hdr : Header) (payload : Buffer) (port : Port) : Srv σ ω Unit :=
  decodeThen decodePropertyHeader payload fun propHdr value =>
    handleObject env hdr.sequenceId port .propertyError propHdr.objectId
      (env.propSet propHdr.propertyId value)

def handleObjectCall (hdr : Header) (payload : Buffer) (port : Port) : Srv σ ω Unit :=
  decodeThen decodeObjectMethodHeader payload fun methodHdr args =>
    handleObject env hdr.sequenceId port .unknownMethod methodHdr.objectId
      (env.dispatch methodHdr.methodId args)

def handleSubscribe (payload : Buffer) (tp : TransportPtr) : Srv σ ω Unit :=
  decodeThen decodePropertyHeader payload fun propHdr _ =>
    modify fun s => { s with
      subscriptions := insert ⟨propHdr.objectId, propHdr.propertyId⟩ s.subscriptions,
      subs := s.subs.subscribe tp propHdr.objectId propHdr.propertyId tp,
      registry := match s.registry.get propHdr.objectId with
        | none => s.registry
        | some obj => s.registry.put propHdr.objectId { obj with subRegistry := true } }

def handleUnsubscribe (payload : Buffer) (tp : TransportPtr) : Srv σ ω Unit :=
  decodeThen decodePropertyHeader payload fun propHdr _ =>
    modify fun s => { s with
      subscriptions := s.subscriptions.erase ⟨propHdr.objectId, propHdr.propertyId⟩,
      subs := s.subs.unsubscribe tp propHdr.objectId propHdr.propertyId }

def handleMessage (hdr : Header) (payload : Buffer) (tp : TransportPtr) : Srv σ ω Unit :=
  if hdr.type = .propSubscribe then handleSubscribe payload tp
  else if hdr.type = .propUnsubscribe then handleUnsubscribe payload tp
  else if hdr.type = .call then handleCall env hdr payload (.transport tp)
  else if hdr.type = .create then handleCreate env hdr payload (.transport tp)
  else if hdr.type = .release then handleRelease payload
  else if hdr.type = .propGet then handlePropGet env hdr payload (.transport tp)
  else if hdr.type = .propSet then handlePropSet env hdr payload (.transport tp)
  else if hdr.type = .objectCall then handleObjectCall env hdr payload (.transport tp)
  else pure ()

/-- A subscription on the pipe path is only logged. -/
def handleMessageFd (hdr : Header) (payload : Buffer) (fd : Int) : Srv σ ω Unit :=
  if hdr.type = .call then handleCall env hdr payload (.fd fd)
  else if hdr.type = .create then handleCreate env hdr payload (.fd fd)
  else if hdr.type = .release then handleRelease payload
  else if hdr.type = .propGet then handlePropGet env hdr payload (.fd fd)
  else if hdr.type = .propSet then handlePropSet env hdr payload (.fd fd)
  else if hdr.type = .objectCall then handleObjectCall env hdr payload (.fd fd)
  else pure ()

/-! ## Frames of the handlers -/

/-- A transitive relation that says nothing of what `Aside` allows to change. -/
structure IsFrame (R : Rt σ ω → Rt σ ω → Prop) : Prop where
  aside : ∀ {s s'}, Aside s s' → R s s'
  trans : ∀ {s s' s''}, R s s' → R s' s'' → R s s''

namespace IsFrame

variable {env} {α : Type} {R : Rt σ ω → Rt σ ω → Prop} (h : IsFrame R)
include h

theorem refl (s : Rt σ ω) : R s s := h.aside (.refl s)

theorem within {x : Srv σ ω α} (hx : Eff.Within Aside x) : Eff.Within R x :=
  hx.mono fun _ _ => h.aside

theorem tryReport {port : Port} {seq : UInt32} {code : ErrorCode} {body : Srv σ ω Unit}
    (hb : Eff.Within R body) :
    Eff.Within R (catchStd body fun e => sendError env port seq code e.what) :=
  Eff.Within.catchIf (R := R) h.trans hb fun _ => h.within (Aside.sendError port seq code _)

theorem runVirtual {s : Rt σ ω} {objectId : Int32} {obj : Obj ω}
    {f : ω × σ → Ran (ω × σ) Note Bytes}
    (hput : R s { s with
      registry := s.registry.put objectId { obj with data := (f (obj.data, s.user)).state.1 }
      user := (f (obj.data, s.user)).state.2 }) :
    Eff.Ends (runVirtual env objectId obj f) s (fun _ => R s) fun _ => R s := by
  have hrest : Eff.Within Aside (do
      notifyAll env ((f (obj.data, s.user)).pushed.filterMap obj.push)
      ofExcept (f (obj.data, s.user)).out) :=
    Aside.bind (Aside.notifyAll _) fun _ => Aside.ofExcept _
  exact (h.within hrest _).mono (fun _ _ => h.trans hput) fun _ _ => h.trans hput

/-- What is left to look at of an object's branch is the object that is put back. -/
theorem handleObject {objectId : Int32} {f : ω × σ → Ran (ω × σ) Note Bytes}
    (hput : ∀ s obj, s.registry.get objectId = some obj → R s { s with
      registry := s.registry.put objectId { obj with data := (f (obj.data, s.user)).state.1 }
      user := (f (obj.data, s.user)).state.2 })
    (seq : UInt32) (port : Port) (code : ErrorCode) :
    Eff.Within R (handleObject env seq port code objectId f) := by
  refine h.tryReport fun s => ?_
  unfold Eff.Ends objectBody
  simp only [EStateM.run]
  cases hobj : s.registry.get objectId with
  | none => exact h.within (Aside.sendError port seq _ _) s
  | some obj =>
    refine Eff.Ends.bind ((h.runVirtual (hput s obj hobj)).mono (fun response s' hs => ?_)
      fun _ _ hs => hs)
    exact (h.within (Aside.reply port _) s').mono (fun _ _ => h.trans hs) fun _ _ => h.trans hs

theorem createBody (hadd : ∀ s typeId data, R s { s with
      registry := (s.registry.add typeId data).2 })
    (htrack : ∀ s id, R s { s with tracked := s.tracked.insert id })
    (seq : UInt32) (port : Port) (createHdr : ObjectCreateHeader) (args : Buffer) :
    Eff.Within R (createBody env seq port createHdr args) := by
  refine Eff.Within.bind (R := R) h.trans ?_ fun id =>
    Eff.Within.bind (R := R) h.trans (Eff.Within.modify fun s => htrack s id) fun _ =>
      h.within (Aside.reply port _)
  unfold createObject
  split
  · exact Eff.Within.throw h.refl _
  · refine Eff.Within.bind (R := R) h.trans (h.within (Aside.runCallback _)) fun made => ?_
    split
    · exact Eff.Within.throw h.refl _
    · exact fun s => hadd s _ _

end IsFrame

/-! ## The loop of a connection -/

/-- `ServiceRuntime::capabilities`. -/
def capabilities : UInt32 :=
  env.localCapabilities ||| (if env.streamDispatchers.keys.isEmpty then 0 else 0x00000001) |||
    (if env.factories.keys.isEmpty then 0 else 0x00000010)

def sendInitConfirmationTransport (tp : TransportPtr) : Srv σ ω Unit :=
  quietly (transportSend env tp
    (createInitMessage kFirstVersion kCurrentVersion (capabilities env) env.methods))

/-- One `object_registry_.release` of `release_connection_objects`. -/
def Rt.releaseTracked (s : Rt σ ω) (id : Int32) : Rt σ ω :=
  { s with registry := s.registry.release id, cleanedUp := s.cleanedUp ++ [id] }

def Rt.releaseConnectionObjects (s : Rt σ ω) : Rt σ ω :=
  { s.tracked.ids.foldl Rt.releaseTracked s with tracked := .empty }

/-- What each return path of `client_loop` does first. -/
def disconnect (tp : TransportPtr) : Srv σ ω Unit := do
  modify Rt.releaseConnectionObjects
  modify fun s => { s with subs := s.subs.unsubscribeAll tp }

/-- Whether the loop goes on after a message. -/
inductive Next where
  | leave
  | stay
  deriving DecidableEq

/-- One iteration on a received message. -/
def clientStep (msg : Bytes) (tp : TransportPtr) : Srv σ ω Next :=
  decodeThen decodeHeader (.ofBytes msg) fun hdr payload =>
    if hdr.magic ≠ kMagic then do
      disconnect tp
      return .leave
    else if hdr.type = .shutdown then do
      disconnect tp
      return .leave
    else if hdr.type = .initAck then return .stay
    else do
      handleMessage env hdr payload tp
      return .stay

/-- The `for (;;)` of `client_loop` on the messages `receive` delivers. -/
def clientMessages (tp : TransportPtr) (last : Option Exn) : List Bytes → Srv σ ω Unit
  | [] =>
    match last with
    | none => disconnect tp
    | some e => throw e
  | msg :: msgs => do
    match ← clientStep env msg tp with
    | .leave => pure ()
    | .stay => clientMessages tp last msgs

def clientLoop (tp : TransportPtr) (msgs : List Bytes) (last : Option Exn) : Srv σ ω Unit := do
  sendInitConfirmationTransport env tp
  -- `tracked_objects` and `subscriptions` are locals of the loop
  modify fun s => { s with tracked := .empty, subscriptions := ∅, cleanedUp := [] }
  clientMessages env tp last msgs

end Song
