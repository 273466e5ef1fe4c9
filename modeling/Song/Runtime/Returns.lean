import Song.Runtime.Message

/-!
# Which messages `handle_message` returns from

A message that is too short for its payload header throws from the decoder, in
front of every `try`. Behind the header an exception is caught and reported to
the client, and the report itself can throw: its text may be too long to encode
and its send may fail. `HandlersOk` is the condition that none of this happens,
and it is exact (`returns_handleMessage`).
-/

namespace Song

variable {σ ω α β : Type} (env : Env σ ω)

/-! ## Which messages are handled without an exception -/

/-- The payload bytes the header of a message of this type takes. -/
def payloadHeaderSize (type : MsgType) : Nat :=
  if type = .propSubscribe then 12
  else if type = .propUnsubscribe then 12
  else if type = .call then 4
  else if type = .create then 8
  else if type = .release then 8
  else if type = .propGet then 12
  else if type = .propSet then 12
  else if type = .objectCall then 12
  else 0

/-- What `payload` decodes to, when it does, satisfies `P`. -/
def Decoded (d : Dec β) (payload : Buffer) (P : β → Buffer → Prop) : Prop :=
  ∀ b rest, d.run payload = .ok b rest → P b rest

/-- A reply at this point goes out without an exception; on a descriptor it always does. -/
def ReplyOk (port : Port) (s : Rt σ ω) : Prop :=
  match port with
  | .transport tp => env.sendOutcome tp s.attempts = none
  | .fd _ => True

/-- An error reply with this text can be built and sent. -/
def ErrorSendOk (port : Port) (text : Str) (s : Rt σ ω) : Prop :=
  text.length ≤ kMaxStringSize ∧ ReplyOk env port s

/-- A `catch (const std::exception&)` takes `e` and gets its report out. -/
def Reportable (port : Port) (e : Exn) (s : Rt σ ω) : Prop :=
  e.isStd = true ∧ ErrorSendOk env port e.what s

/-- Caught by `catch (const std::exception&)`, with a text that can be encoded. -/
def Exn.Reported (e : Exn) : Prop := e.isStd = true ∧ e.what.length ≤ kMaxStringSize

/-- The exception a `try` body ends with, if any, is reportable. -/
def TryOk (port : Port) (body : Srv σ ω Unit) (s : Rt σ ω) : Prop :=
  Eff.Ends body s (fun _ _ => True) (Reportable env port)

def StreamOk (port : Port) (run : Option Exn × StreamWriter × Rt σ ω) : Prop :=
  ∀ e, run.1 = some e → Reportable env port e run.2.2

def CallOk (seq : UInt32) (port : Port) (ids : UInt16 × UInt16) (args : Buffer)
    (s : Rt σ ω) : Prop :=
  match env.streamDispatchers.lookup ids.1 with
  | some dispatcher =>
    StreamOk env port (runStream env (dispatcher ids.2 args s.user) (.create port seq) s)
  | none =>
    match env.dispatchers.lookup ids.1 with
    | none => ErrorSendOk env port (lit "Unknown service ID") s
    | some dispatcher => TryOk env port (callBody env seq port (dispatcher ids.2 args)) s

/-- Whatever goes wrong behind the decoded header is reported to the client. -/
def HandlersOk (hdr : Header) (payload : Buffer) (port : Port) (s : Rt σ ω) : Prop :=
  if hdr.type = .propSubscribe then True
  else if hdr.type = .propUnsubscribe then True
  else if hdr.type = .call then
    Decoded decodeMethodCallHeader payload fun ids args => CallOk env hdr.sequenceId port ids args s
  else if hdr.type = .create then
    Decoded decodeObjectCreateHeader payload fun createHdr args =>
      TryOk env port (createBody env hdr.sequenceId port createHdr args) s
  else if hdr.type = .release then True
  else if hdr.type = .propGet then
    Decoded decodePropertyHeader payload fun propHdr _ =>
      TryOk env port (objectBody env hdr.sequenceId port propHdr.objectId
        (env.propGet propHdr.propertyId)) s
  else if hdr.type = .propSet then
    Decoded decodePropertyHeader payload fun propHdr value =>
      TryOk env port (objectBody env hdr.sequenceId port propHdr.objectId
        (env.propSet propHdr.propertyId value)) s
  else if hdr.type = .objectCall then
    Decoded decodeObjectMethodHeader payload fun methodHdr args =>
      TryOk env port (objectBody env hdr.sequenceId port methodHdr.objectId
        (env.dispatch methodHdr.methodId args)) s
  else True

theorem length_toStr_le (n : UInt32) : (toStr n.toNat).length ≤ 10 := by
  have h : (Nat.repr n.toNat).length ≤ 10 := Nat.length_repr_le_iff (by decide) |>.mpr (by
    have := n.toNat_lt
    omega)
  rw [toStr, lit, List.length_map]
  exact h

/-- The texts of `ObjectRegistry::create_object` can be reported. -/
theorem reported_typeId {text : Str} (h : text.length ≤ 100) (typeId : UInt32) :
    (Exn.serviceError (text ++ toStr typeId.toNat)).Reported := by
  refine ⟨rfl, ?_⟩
  have := length_toStr_le typeId
  simp only [Exn.what, List.length_append, kMaxStringSize]
  omega

/-! ## The condition is exact for each handler -/

variable {env} {s : Rt σ ω}

theorem returns_transportSend {tp : TransportPtr} {msg : Bytes} :
    Eff.Returns (transportSend env tp msg) s ↔ env.sendOutcome tp s.attempts = none := by
  cases h : env.sendOutcome tp s.attempts with
  | none => exact ⟨fun _ => rfl, fun _ => .of_ok (by simp only [EStateM.run, transportSend, h]; rfl)⟩
  | some e =>
    refine ⟨fun hr => ?_, fun hn => by cases hn⟩
    exact absurd hr (Eff.Returns.not_of_error (by simp only [EStateM.run, transportSend, h]; rfl))

theorem writeAll_run (fd : Int) (msg : Bytes) (s : Rt σ ω) :
    (writeAll env fd msg).run s = .ok (env.writeOutcome s.attempts)
      (Eff.after (writeAll env fd msg) s) := by
  unfold Eff.after
  simp only [EStateM.run, writeAll]
  cases env.writeOutcome s.attempts with
  | true => rfl
  | false => rfl

theorem returns_reply {port : Port} {msg : Bytes} :
    Eff.Returns (reply env port msg) s ↔ ReplyOk env port s := by
  cases port with
  | transport tp => exact returns_transportSend
  | fd n => exact ⟨fun _ => trivial, fun _ => .of_ok (Eff.run_bind_ok (writeAll_run n msg s))⟩

theorem returns_sendError {port : Port} {seq : UInt32} {code : ErrorCode} {text : Str} :
    Eff.Returns (sendError env port seq code text) s ↔ ErrorSendOk env port text s := by
  unfold sendError ErrorSendOk
  by_cases h : text.length ≤ kMaxStringSize
  · rw [createErrorMessage_ok seq code h, Eff.Returns.bind_iff]
    exact ⟨fun hr => ⟨h, returns_reply.mp hr⟩, fun hr => returns_reply.mpr hr.2⟩
  · rw [createErrorMessage_error seq code (by omega), Eff.Returns.bind_iff]
    exact ⟨fun hr => absurd hr id, fun hr => absurd hr.1 h⟩

theorem returns_tryReport {port : Port} {seq : UInt32} {code : ErrorCode}
    {body : Srv σ ω Unit} :
    Eff.Returns (catchStd body fun e => sendError env port seq code e.what) s ↔
      TryOk env port body s := by
  rw [catchStd, Eff.Returns.catchIf_iff]
  constructor
  · exact fun h => h.mono (fun _ _ _ => trivial) fun _ _ he => ⟨he.1, returns_sendError.mp he.2⟩
  · exact fun h => h.mono (fun _ _ _ => trivial) fun _ _ he => ⟨he.1, returns_sendError.mpr he.2⟩

theorem returns_decodeThen {d : Dec β} {n : Nat} (hd : Fixed d n) {pre payload : Bytes}
    {k : β → Buffer → Srv σ ω α} :
    Eff.Returns (decodeThen d (.cut pre payload) k) s ↔
      n ≤ payload.length ∧ Decoded d (.cut pre payload) fun b rest => Eff.Returns (k b rest) s := by
  by_cases hn : n ≤ payload.length
  · obtain ⟨b, hb⟩ := hd.takes (payload.take n) (by simp; omega)
    have hrun := hb pre (payload.drop n)
    rw [List.take_append_drop] at hrun
    have hk : Eff.Returns (decodeThen d (.cut pre payload) k) s ↔
        Eff.Returns (k b (.cut (pre ++ payload.take n) (payload.drop n))) s := by
      unfold Eff.Returns Eff.Ends
      simp only [EStateM.run, decodeThen] at hrun ⊢
      rw [hrun]
    rw [hk]
    constructor
    · intro h
      refine ⟨hn, fun b' rest' h' => ?_⟩
      rw [hrun] at h'
      cases h'
      exact h
    · exact fun h => h.2 _ _ hrun
  · obtain ⟨b, hb⟩ := hd.short pre payload (by omega)
    refine ⟨fun h => ?_, fun h => absurd h.1 hn⟩
    have he : (decodeThen d (.cut pre payload) k).run s = .error underflow s := by
      simp only [EStateM.run, decodeThen] at hb ⊢
      rw [hb]
    exact absurd h (Eff.Returns.not_of_error he)

theorem returns_handleStreamCall {seq : UInt32} {port : Port} {run : σ → StreamRun σ} :
    Eff.Returns (handleStreamCall env seq port run) s ↔
      StreamOk env port (runStream env (run s.user) (.create port seq) s) := by
  rcases hr : runStream env (run s.user) (.create port seq) s with ⟨_ | e, writer, s'⟩
  · obtain ⟨a, s'', ha⟩ := (writer.returns_destroy env s').exists_ok
    refine ⟨fun _ e he => (by cases he), fun _ => ?_⟩
    exact .of_ok ((handleStreamCall_returned hr).trans ha)
  · have hok : StreamOk env port (some e, writer, s') ↔ Reportable env port e s' :=
      ⟨fun h => h e rfl, fun h e' he' => (Option.some.inj he') ▸ h⟩
    rw [hok]
    by_cases he : e.isStd = true
    · have hrun : Eff.Returns (handleStreamCall env seq port run) s ↔
          Eff.Returns (sendError env port seq .unknownMethod e.what) s' := by
        unfold Eff.Returns Eff.Ends
        rw [handleStreamCall_threw hr he]
      rw [hrun, returns_sendError]
      exact ⟨fun h => ⟨he, h⟩, fun h => h.2⟩
    · refine ⟨fun h => ?_, fun h => absurd h.1 he⟩
      exact absurd h (Eff.Returns.not_of_error (handleStreamCall_foreign hr he))

theorem Decoded.congr {d : Dec β} {payload : Buffer} {P P' : β → Buffer → Prop}
    (h : ∀ b rest, P b rest ↔ P' b rest) : Decoded d payload P ↔ Decoded d payload P' :=
  forall_congr' fun b => forall_congr' fun rest => imp_congr_right fun _ => h b rest

theorem returns_handleCall {hdr : Header} {pre payload : Bytes} {port : Port} :
    Eff.Returns (handleCall env hdr (.cut pre payload) port) s ↔
      4 ≤ payload.length ∧ Decoded decodeMethodCallHeader (.cut pre payload) fun ids args =>
        CallOk env hdr.sequenceId port ids args s := by
  rw [handleCall, returns_decodeThen Fixed.decodeMethodCallHeader]
  refine and_congr_right fun _ => Decoded.congr fun ids args => ?_
  unfold CallOk
  cases env.streamDispatchers.lookup ids.1 with
  | some dispatcher => exact returns_handleStreamCall
  | none =>
    cases env.dispatchers.lookup ids.1 with
    | none => exact returns_sendError
    | some dispatcher => exact returns_tryReport

theorem returns_handleCreate {hdr : Header} {pre payload : Bytes} {port : Port} :
    Eff.Returns (handleCreate env hdr (.cut pre payload) port) s ↔
      8 ≤ payload.length ∧ Decoded decodeObjectCreateHeader (.cut pre payload) fun createHdr args =>
        TryOk env port (createBody env hdr.sequenceId port createHdr args) s := by
  rw [handleCreate, returns_decodeThen Fixed.decodeObjectCreateHeader]
  exact and_congr_right fun _ => Decoded.congr fun _ _ => returns_tryReport

/-- A handler that only updates the state returns once its header is decoded. -/
theorem returns_decodeThen_modify {d : Dec β} {n : Nat} (hd : Fixed d n) {pre payload : Bytes}
    {f : β → Buffer → Rt σ ω → Rt σ ω} :
    Eff.Returns (decodeThen d (.cut pre payload) fun b rest => modify (f b rest)) s ↔
      n ≤ payload.length ∧ True := by
  rw [returns_decodeThen hd]
  exact and_congr_right fun _ => ⟨fun _ => trivial, fun _ b rest _ => .of_ok rfl⟩

theorem returns_handleObject {d : Dec β} {n : Nat} (hd : Fixed d n) {pre payload : Bytes}
    {seq : UInt32} {port : Port} {code : ErrorCode} {objectId : β → Int32}
    {f : β → Buffer → ω × σ → Ran (ω × σ) Note Bytes} :
    Eff.Returns (decodeThen d (.cut pre payload) fun b rest =>
        handleObject env seq port code (objectId b) (f b rest)) s ↔
      n ≤ payload.length ∧ Decoded d (.cut pre payload) fun b rest =>
        TryOk env port (objectBody env seq port (objectId b) (f b rest)) s := by
  rw [returns_decodeThen hd]
  exact and_congr_right fun _ => Decoded.congr fun _ _ => returns_tryReport

/-- `handle_message` returns exactly when the payload header is whole and the failures
behind it are reported. -/
theorem returns_handleMessage {hdr : Header} {pre payload : Bytes} {tp : TransportPtr} :
    Eff.Returns (handleMessage env hdr (.cut pre payload) tp) s ↔
      payloadHeaderSize hdr.type ≤ payload.length ∧
        HandlersOk env hdr (.cut pre payload) (.transport tp) s := by
  unfold handleMessage payloadHeaderSize HandlersOk
  split
  · exact returns_decodeThen_modify Fixed.decodePropertyHeader
  split
  · exact returns_decodeThen_modify Fixed.decodePropertyHeader
  split
  · exact returns_handleCall
  split
  · exact returns_handleCreate
  split
  · exact returns_decodeThen_modify Fixed.decodeObjectReleaseHeader
  split
  · exact returns_handleObject Fixed.decodePropertyHeader
  split
  · exact returns_handleObject Fixed.decodePropertyHeader
  split
  · exact returns_handleObject Fixed.decodeObjectMethodHeader
  · exact ⟨fun _ => ⟨Nat.zero_le _, trivial⟩, fun _ => .of_ok rfl⟩

/-- The payload bytes that `handle_message_fd` decodes: it only logs a subscription. -/
def payloadHeaderSizeFd (type : MsgType) : Nat :=
  if type = .propSubscribe ∨ type = .propUnsubscribe then 0 else payloadHeaderSize type

/-- The same for `handle_message_fd`. -/
theorem returns_handleMessageFd {hdr : Header} {pre payload : Bytes} {n : Int} :
    Eff.Returns (handleMessageFd env hdr (.cut pre payload) n) s ↔
      payloadHeaderSizeFd hdr.type ≤ payload.length ∧
        HandlersOk env hdr (.cut pre payload) (.fd n) s := by
  unfold handleMessageFd payloadHeaderSizeFd payloadHeaderSize HandlersOk
  by_cases hsub : hdr.type = .propSubscribe
  · rw [hsub]
    exact ⟨fun _ => ⟨Nat.zero_le _, trivial⟩, fun _ => .of_ok rfl⟩
  by_cases hunsub : hdr.type = .propUnsubscribe
  · rw [hunsub]
    exact ⟨fun _ => ⟨Nat.zero_le _, trivial⟩, fun _ => .of_ok rfl⟩
  have hneither : ¬ (hdr.type = .propSubscribe ∨ hdr.type = .propUnsubscribe) :=
    fun h => h.elim hsub hunsub
  rw [if_neg hneither, if_neg hsub, if_neg hunsub, if_neg hsub, if_neg hunsub]
  split
  · exact returns_handleCall
  split
  · exact returns_handleCreate
  split
  · exact returns_decodeThen_modify Fixed.decodeObjectReleaseHeader
  split
  · exact returns_handleObject Fixed.decodePropertyHeader
  split
  · exact returns_handleObject Fixed.decodePropertyHeader
  split
  · exact returns_handleObject Fixed.decodeObjectMethodHeader
  · exact ⟨fun _ => ⟨Nat.zero_le _, trivial⟩, fun _ => .of_ok rfl⟩

end Song
