import Song.Runtime.Cleanup
import Song.Runtime.StreamReply
import Song.Session

/-!
# What the runtime answers to a two-way operation

Handling the request of a two-way operation puts on the client's transport the
notifications its callback pushed and then one reply, a result or an error with
the request's sequence id. That is so when the sends on this transport succeed,
the request does not go to a stream dispatcher, and its callback behaves: what
it returns and pushes fits in a message, and what it throws can be reported.
-/

namespace Song

variable {σ ω α τ ν : Type} {env : Env σ ω} {tp : TransportPtr} {s s' s'' : Rt σ ω}

/-! ## Callbacks that behave -/

/-- What the callback pushed and returned fits in a message, what it threw is reported. -/
structure Ran.Behaves (ran : Ran τ ν α) (pushSize : ν → Nat) (size : α → Nat) : Prop where
  pushed : ∀ p ∈ ran.pushed, 12 + pushSize p ≤ kMaxPayloadSize
  value : ∀ a, ran.out = .ok a → size a ≤ kMaxPayloadSize
  thrown : ∀ e, ran.out = .error e → e.Reported

abbrev DispatcherBehaves (ran : Ran σ Push Bytes) : Prop :=
  ran.Behaves (·.value.length) List.length

abbrev FactoryBehaves (ran : Ran σ Push (Option ω)) : Prop :=
  ran.Behaves (·.value.length) fun _ => 0

abbrev VirtualBehaves (ran : Ran (ω × σ) Note Bytes) : Prop :=
  ran.Behaves (·.value.length) List.length

/-- The object is unknown, or its virtual function behaves. -/
def ObjectBehaves (s : Rt σ ω) (objectId : Int32) (f : ω × σ → Ran (ω × σ) Note Bytes) : Prop :=
  ∀ obj, s.registry.get objectId = some obj → VirtualBehaves (f (obj.data, s.user))

variable (env) in
/-- The callback that this request reaches behaves, and no stream dispatcher takes it. -/
def CallbackBehaves (hdr : Header) (payload : Buffer) (s : Rt σ ω) : Prop :=
  if hdr.type = .call then
    Decoded decodeMethodCallHeader payload fun ids args =>
      env.streamDispatchers.lookup ids.1 = none ∧
        ∀ dispatcher, env.dispatchers.lookup ids.1 = some dispatcher →
          DispatcherBehaves (dispatcher ids.2 args s.user)
  else if hdr.type = .create then
    Decoded decodeObjectCreateHeader payload fun createHdr args =>
      ∀ factory, env.factories.lookup createHdr.typeId = some factory →
        FactoryBehaves (factory createHdr.constructorId args s.user)
  else if hdr.type = .propGet then
    Decoded decodePropertyHeader payload fun propHdr _ =>
      ObjectBehaves s propHdr.objectId (env.propGet propHdr.propertyId)
  else if hdr.type = .propSet then
    Decoded decodePropertyHeader payload fun propHdr value =>
      ObjectBehaves s propHdr.objectId (env.propSet propHdr.propertyId value)
  else if hdr.type = .objectCall then
    Decoded decodeObjectMethodHeader payload fun methodHdr args =>
      ObjectBehaves s methodHdr.objectId (env.dispatch methodHdr.methodId args)
  else True

/-! ## What is sent -/

/-- From `s` to `s'` nothing but notifications was sent, on whatever transport. -/
def Notes (s s' : Rt σ ω) : Prop := ∃ new, s'.sent = s.sent ++ new ∧ ∀ x ∈ new, IsNote x.2

/-- From `s` to `s'` notifications were sent, and then one reply to `seq` on `tp`. -/
def Answers (tp : TransportPtr) (seq : UInt32) (s s' : Rt σ ω) : Prop :=
  ∃ s₁ m, Notes s s₁ ∧ IsReplyFrame seq m ∧ s'.sent = s₁.sent ++ [(.transport tp, m)]

/-- What reaches the client of `tp` from `s` to `s'`. -/
def arrived (tp : TransportPtr) (s s' : Rt σ ω) : List Bytes :=
  ((s'.sent.drop s.sent.length).filter fun x => x.1 = .transport tp).map (·.2)

theorem arrived_eq {new : List (Port × Bytes)} (h : s'.sent = s.sent ++ new) :
    arrived tp s s' = (new.filter fun x => x.1 = .transport tp).map (·.2) := by
  rw [arrived, h, List.drop_left]

namespace Notes

theorem of_sent (h : s'.sent = s.sent) : Notes s s' :=
  ⟨[], by rw [h, List.append_nil], fun x hx => by cases hx⟩

theorem refl (s : Rt σ ω) : Notes s s := of_sent rfl

theorem trans (h : Notes s s') (h' : Notes s' s'') : Notes s s'' := by
  obtain ⟨new, hs, hn⟩ := h
  obtain ⟨new', hs', hn'⟩ := h'
  refine ⟨new ++ new', by rw [hs', hs, List.append_assoc], fun x hx => ?_⟩
  rcases List.mem_append.mp hx with hx | hx
  · exact hn x hx
  · exact hn' x hx

theorem arrived (h : Notes s s') : ∀ m ∈ arrived tp s s', IsNote m := by
  obtain ⟨new, hs, hn⟩ := h
  rw [arrived_eq hs]
  intro m hm
  obtain ⟨x, hx, rfl⟩ := List.mem_map.mp hm
  exact hn x (List.mem_filter.mp hx).1

end Notes

namespace Answers

variable {seq : UInt32}

theorem after (h : Notes s s') (h' : Answers tp seq s' s'') : Answers tp seq s s'' := by
  obtain ⟨s₁, m, hn, hm, hs⟩ := h'
  exact ⟨s₁, m, h.trans hn, hm, hs⟩

theorem put {m : Bytes} (h : IsReplyFrame seq m) (s : Rt σ ω) :
    Answers tp seq s (s.put (.transport tp) m) :=
  ⟨s, m, .refl s, h, rfl⟩

/-- The client sees notifications and then the reply. -/
theorem arrived (h : Answers tp seq s s') :
    ∃ pre m, arrived tp s s' = pre ++ [m] ∧ (∀ x ∈ pre, IsNote x) ∧ IsReplyFrame seq m := by
  obtain ⟨s₁, m, ⟨new, hs₁, hn⟩, hm, hs⟩ := h
  rw [hs₁, List.append_assoc] at hs
  refine ⟨(new.filter fun x => x.1 = .transport tp).map (·.2), m, ?_, fun x hx => ?_, hm⟩
  · rw [arrived_eq hs, List.filter_append, List.map_append]
    simp
  · obtain ⟨y, hy, rfl⟩ := List.mem_map.mp hx
    exact hn y (List.mem_filter.mp hy).1

end Answers

/-! ## Callbacks and their notifications -/

theorem isNote_notify (typeId : UInt32) (objectId : Int32) (propertyId : UInt16) {value : Bytes}
    (h : 12 + value.length ≤ kMaxPayloadSize) :
    IsNote (createPropertyNotifyMessage typeId objectId propertyId value) := by
  have hlen : (encodePropertySet typeId objectId propertyId value).length ≤ kMaxPayloadSize := by
    simp only [encodePropertySet, List.length_append, length_encodeU32, length_encodeI32,
      length_encodeU16]
    omega
  exact ⟨⟨objectId, propertyId⟩, value, message .propNotify 0 _, rfl, message_valid _ _ hlen, rfl,
    typeId, 0, rfl⟩

/-- It returns, and sends notifications at most. -/
def SendsNotes (x : Srv σ ω Unit) : Prop :=
  ∀ s, Eff.Ends x s (fun _ => Notes s) fun _ _ => False

namespace SendsNotes

theorem pure : SendsNotes (pure () : Srv σ ω Unit) := fun s => Eff.Ends.pure (.refl s)

theorem bind {x : Srv σ ω Unit} {f : Unit → Srv σ ω Unit} (hx : SendsNotes x)
    (hf : ∀ a, SendsNotes (f a)) : SendsNotes (x >>= f) := by
  intro s
  refine Eff.Ends.bind ((hx s).mono (fun a s' h => ?_) fun _ _ h => h)
  exact (hf a s').mono (fun _ _ h' => h.trans h') fun _ _ h' => h'

/-- Whether or not the send succeeds. -/
theorem quietly_transportSend (t : TransportPtr) {msg : Bytes} (h : IsNote msg) :
    SendsNotes (quietly (transportSend env t msg)) := by
  intro s
  refine .of_ok (quietly_run _ s) ?_
  unfold Eff.after transportSend
  simp only [EStateM.run]
  cases env.sendOutcome t s.attempts with
  | none =>
    exact ⟨[(.transport t, msg)], rfl, fun x hx => by rw [List.mem_singleton.mp hx]; exact h⟩
  | some e => exact .of_sent rfl

theorem notify {p : Push} (h : 12 + p.value.length ≤ kMaxPayloadSize) :
    SendsNotes (notify env p) := by
  have heach : ∀ tps, SendsNotes (sendEach env
      (createPropertyNotifyMessage p.typeId p.objectId p.propertyId p.value) tps) := by
    intro tps
    induction tps with
    | nil => exact .pure
    | cons t tps ih =>
      exact (quietly_transportSend t (isNote_notify _ _ _ h)).bind fun _ => ih
  exact fun s => heach _ s

theorem notifyAll {ps : List Push} (h : ∀ p ∈ ps, 12 + p.value.length ≤ kMaxPayloadSize) :
    SendsNotes (notifyAll env ps) := by
  induction ps with
  | nil => exact .pure
  | cons p ps ih =>
    obtain ⟨hp, hps⟩ := List.forall_mem_cons.mp h
    exact (notify hp).bind fun _ => ih hps

/-- Behind such a piece of code an outcome is passed on. -/
theorem ofExcept {x : Srv σ ω Unit} (hx : SendsNotes x) {out : Except Exn α} {Q : α → Prop}
    {E : Exn → Prop} (hq : ∀ a, out = .ok a → Q a) (he : ∀ e, out = .error e → E e)
    (s : Rt σ ω) :
    Eff.Ends (x >>= fun _ => ofExcept out) s (fun a s' => Notes s s' ∧ Q a)
      (fun e s' => Notes s s' ∧ E e) := by
  refine Eff.Ends.bind ((hx s).mono (fun _ s' h => ?_) fun _ _ h => h.elim)
  cases out with
  | ok a => exact ⟨h, hq a rfl⟩
  | error e => exact ⟨h, he e rfl⟩

end SendsNotes

/-- A dispatcher or a factory that behaves: notifications, then what it returned or threw. -/
theorem runCallback_ends {f : σ → Ran σ Push α} {size : α → Nat}
    (h : (f s.user).Behaves (·.value.length) size) :
    Eff.Ends (runCallback env f) s (fun a s' => Notes s s' ∧ size a ≤ kMaxPayloadSize)
      (fun e s' => Notes s s' ∧ e.Reported) :=
  (SendsNotes.notifyAll h.pushed).ofExcept h.value h.thrown { s with user := (f s.user).state }

theorem runVirtual_ends (objectId : Int32) {obj : Obj ω} {f : ω × σ → Ran (ω × σ) Note Bytes}
    (h : VirtualBehaves (f (obj.data, s.user))) :
    Eff.Ends (runVirtual env objectId obj f) s
      (fun a s' => Notes s s' ∧ a.length ≤ kMaxPayloadSize)
      (fun e s' => Notes s s' ∧ e.Reported) := by
  have hpushed : ∀ p ∈ (f (obj.data, s.user)).pushed.filterMap obj.push,
      12 + p.value.length ≤ kMaxPayloadSize := by
    intro p hp
    obtain ⟨note, hn, hpush⟩ := List.mem_filterMap.mp hp
    unfold Obj.push at hpush
    split at hpush
    · cases hpush
      exact h.pushed note hn
    · cases hpush
  exact (SendsNotes.notifyAll hpushed).ofExcept h.value h.thrown _

/-! ## Replies -/

section
variable {seq : UInt32}

theorem isReplyFrame_result (seq : UInt32) {b : Bytes} (h : b.length ≤ kMaxPayloadSize) :
    IsReplyFrame seq (createResultMessage seq b) :=
  ⟨message .result seq b, rfl, message_valid _ _ h, .inl rfl, rfl⟩

theorem reply_answers (hok : SendsOk env (.transport tp)) {m : Bytes} (h : IsReplyFrame seq m)
    (s : Rt σ ω) (E : Exn → Rt σ ω → Prop) :
    Eff.Ends (reply env (.transport tp) m) s (fun _ => Answers tp seq s) E :=
  .of_ok (reply_ok hok m s) (.put h s)

theorem sendError_answers (hok : SendsOk env (.transport tp)) (seq : UInt32) (code : ErrorCode)
    {text : Str} (h : text.length ≤ kMaxStringSize) (s : Rt σ ω) (E : Exn → Rt σ ω → Prop) :
    Eff.Ends (sendError env (.transport tp) seq code text) s (fun _ => Answers tp seq s) E := by
  have hlen : (encodeU16 code.toU16 ++ (encodeU32 (UInt32.ofNat text.length) ++ text)).length ≤
      kMaxPayloadSize := by
    simp only [kMaxStringSize] at h
    simp only [List.length_append, length_encodeU16, length_encodeU32, kMaxPayloadSize]
    omega
  unfold sendError
  rw [createErrorMessage_ok seq code h, ofExcept_ok_bind]
  exact reply_answers hok ⟨_, rfl, message_valid .error seq hlen, .inr rfl, rfl⟩ s E

/-- A `try` body that answers or throws what its handler can report answers. -/
theorem tryReport_answers (hok : SendsOk env (.transport tp)) {code : ErrorCode}
    {body : Srv σ ω Unit} (h : Eff.Ends body s (fun _ => Answers tp seq s)
      fun e s' => Notes s s' ∧ e.Reported) :
    Eff.Ends (catchStd body fun e => sendError env (.transport tp) seq code e.what) s
      (fun _ => Answers tp seq s) fun _ _ => False := by
  refine Eff.Ends.catchIf (h.mono (fun _ _ h => h) fun e s' he => ?_)
  obtain ⟨hn, hstd, hlen⟩ := he
  rw [if_pos hstd]
  exact (sendError_answers hok seq code hlen s' _).mono (fun _ _ ha => ha.after hn) fun _ _ h => h

/-- A value and the reply with it. -/
theorem valueReply_answers (hok : SendsOk env (.transport tp)) {x : Srv σ ω Bytes}
    (h : Eff.Ends x s (fun a s' => Notes s s' ∧ a.length ≤ kMaxPayloadSize)
      fun e s' => Notes s s' ∧ e.Reported) :
    Eff.Ends (x >>= fun response => reply env (.transport tp) (createResultMessage seq response)) s
      (fun _ => Answers tp seq s) fun e s' => Notes s s' ∧ e.Reported := by
  refine Eff.Ends.bind (h.mono (fun a s' ha => ?_) fun _ _ he => he)
  exact (reply_answers hok (isReplyFrame_result seq ha.2) s' _).mono
    (fun _ _ h' => h'.after ha.1) fun _ _ h' => h'

/-! ## The handlers -/

theorem callBody_answers (hok : SendsOk env (.transport tp)) {dispatcher : σ → Ran σ Push Bytes}
    (h : DispatcherBehaves (dispatcher s.user)) :
    Eff.Ends (callBody env seq (.transport tp) dispatcher) s (fun _ => Answers tp seq s)
      fun e s' => Notes s s' ∧ e.Reported :=
  valueReply_answers hok (runCallback_ends h)

theorem objectBody_answers (hok : SendsOk env (.transport tp)) {objectId : Int32}
    {f : ω × σ → Ran (ω × σ) Note Bytes} (h : ObjectBehaves s objectId f) :
    Eff.Ends (objectBody env seq (.transport tp) objectId f) s (fun _ => Answers tp seq s)
      fun e s' => Notes s s' ∧ e.Reported := by
  cases hg : s.registry.get objectId with
  | none =>
    have htext : (lit "Object not found").length ≤ kMaxStringSize := by decide
    have hs := sendError_answers hok seq .objectNotFound htext s fun e s' =>
      Notes s s' ∧ e.Reported
    unfold Eff.Ends objectBody at *
    simpa only [EStateM.run, hg] using hs
  | some obj =>
    have hs : Eff.Ends (do
        let response ← runVirtual env objectId obj f
        reply env (.transport tp) (createResultMessage seq response)) s
        (fun _ => Answers tp seq s) fun e s' => Notes s s' ∧ e.Reported :=
      valueReply_answers hok (runVirtual_ends objectId (h obj hg))
    unfold Eff.Ends objectBody at *
    simpa only [EStateM.run, hg] using hs

theorem createObject_ends {typeId : UInt32} {constructorId : UInt16} {args : Buffer}
    (h : ∀ factory, env.factories.lookup typeId = some factory →
      FactoryBehaves (factory constructorId args s.user)) :
    Eff.Ends (createObject env typeId constructorId args) s (fun _ => Notes s)
      fun e s' => Notes s s' ∧ e.Reported := by
  unfold createObject
  cases hf : env.factories.lookup typeId with
  | none => exact Eff.Ends.throw ⟨.refl s, reported_typeId (by decide) typeId⟩
  | some factory =>
    refine Eff.Ends.bind ((runCallback_ends (h factory hf)).mono (fun made s' hm => ?_)
      fun _ _ he => he)
    cases made with
    | none => exact Eff.Ends.throw ⟨hm.1, reported_typeId (by decide) typeId⟩
    | some data => exact .of_ok rfl (hm.1.trans (.of_sent rfl))

theorem createBody_answers (hok : SendsOk env (.transport tp)) {createHdr : ObjectCreateHeader}
    {args : Buffer} (h : ∀ factory, env.factories.lookup createHdr.typeId = some factory →
      FactoryBehaves (factory createHdr.constructorId args s.user)) :
    Eff.Ends (createBody env seq (.transport tp) createHdr args) s (fun _ => Answers tp seq s)
      fun e s' => Notes s s' ∧ e.Reported := by
  refine Eff.Ends.bind ((createObject_ends h).mono (fun objectId s' hn => ?_) fun _ _ he => he)
  have hlen : (encodeObjectRef ⟨createHdr.typeId, objectId⟩).length ≤ kMaxPayloadSize := by
    rw [encodeObjectRef, List.length_append, length_encodeU32, length_encodeI32]
    decide
  refine Eff.Ends.bind (.of_ok rfl ?_)
  exact (reply_answers hok (isReplyFrame_result seq hlen) _ _).mono
    (fun _ _ ha => ha.after (hn.trans (.of_sent rfl))) fun _ _ he => he

/-- A handler that answers once its header is decoded. -/
theorem decodeThen_answers {β : Type} {d : Dec β} {payload rest : Buffer} {b : β}
    {k : β → Buffer → Srv σ ω Unit} (hd : d.run payload = .ok b rest)
    (h : Eff.Ends (k b rest) s (fun _ => Answers tp seq s) fun _ _ => False) :
    Eff.Ends (decodeThen d payload k) s (fun _ => Answers tp seq s) fun _ _ => False := by
  rw [decodeThen_ok hd]
  exact h

theorem handleCall_answers (hok : SendsOk env (.transport tp)) {hdr : Header}
    {serviceId methodId : UInt16} {payload rest : Buffer}
    (hd : decodeMethodCallHeader.run payload = .ok (serviceId, methodId) rest)
    (hstream : env.streamDispatchers.lookup serviceId = none)
    (h : ∀ dispatcher, env.dispatchers.lookup serviceId = some dispatcher →
      DispatcherBehaves (dispatcher methodId rest s.user)) :
    Eff.Ends (handleCall env hdr payload (.transport tp)) s
      (fun _ => Answers tp hdr.sequenceId s) fun _ _ => False := by
  refine decodeThen_answers hd ?_
  simp only [hstream]
  cases hl : env.dispatchers.lookup serviceId with
  | none =>
    have htext : (lit "Unknown service ID").length ≤ kMaxStringSize := by decide
    exact sendError_answers hok _ _ htext s _
  | some dispatcher => exact tryReport_answers hok (callBody_answers hok (h dispatcher hl))

/-- The request of an operation, as a frame. -/
def Op.frame (seq : UInt32) : Op → Frame
  | .call serviceId methodId args => Song.message .call seq (encodeMethodCall serviceId methodId args)
  | .createObject typeId constructorId args =>
    Song.message .create seq (encodeObjectCreate typeId constructorId args)
  | .getProperty typeId objectId propertyId =>
    Song.message .propGet seq (encodePropertyGet typeId objectId propertyId)
  | .setProperty typeId objectId propertyId value =>
    Song.message .propSet seq (encodePropertySet typeId objectId propertyId value)
  | .callObject typeId objectId methodId args =>
    Song.message .objectCall seq (encodeObjectMethod typeId objectId methodId args)

theorem Op.message_eq (op : Op) (seq : UInt32) : op.message seq = (op.frame seq).bytes := by
  cases op <;> rfl

/-- What is left of a frame's bytes behind the header. -/
def Frame.body (f : Frame) : Buffer := .cut (encodeHeader f.hdr) f.payload

theorem Op.decode_setProperty (typeId : UInt32) (objectId : Int32) (propertyId : UInt16)
    (value : Bytes) (seq : UInt32) :
    ∃ pre, decodePropertyHeader.run
        ((Op.setProperty typeId objectId propertyId value).frame seq).body =
      .ok ⟨typeId, objectId, propertyId, 0⟩ (.cut pre value) :=
  decodePropertyHeader_cut _ ⟨typeId, objectId, propertyId, 0⟩ value

theorem Op.decode_getProperty (typeId : UInt32) (objectId : Int32) (propertyId : UInt16)
    (seq : UInt32) :
    ∃ pre, decodePropertyHeader.run ((Op.getProperty typeId objectId propertyId).frame seq).body =
      .ok ⟨typeId, objectId, propertyId, 0⟩ (.cut pre []) := by
  have he : encodePropertyGet typeId objectId propertyId =
      encodePropertySet typeId objectId propertyId [] := by
    simp only [encodePropertyGet, encodePropertySet, List.append_nil]
  obtain ⟨pre', hd⟩ := decodePropertyHeader_cut
    (encodeHeader ((Op.getProperty typeId objectId propertyId).frame seq).hdr)
    ⟨typeId, objectId, propertyId, 0⟩ []
  exact ⟨pre', (congrArg (fun p => decodePropertyHeader.run (.cut _ p)) he).trans hd⟩

/-- `handle_message` answers the request of a two-way operation whose callback behaves. -/
theorem handleMessage_answers (hok : SendsOk env (.transport tp)) (op : Op)
    (h : CallbackBehaves env (op.frame seq).hdr (op.frame seq).body s) :
    Eff.Ends (handleMessage env (op.frame seq).hdr (op.frame seq).body tp) s
      (fun _ => Answers tp seq s) fun _ _ => False := by
  cases op with
  | call serviceId methodId args =>
    obtain ⟨pre', hd⟩ := decodeMethodCallHeader_cut
      (encodeHeader (Op.frame seq (.call serviceId methodId args)).hdr) serviceId methodId args
    obtain ⟨hstream, hb⟩ := h (serviceId, methodId) _ hd
    exact handleCall_answers hok hd hstream hb
  | createObject typeId constructorId args =>
    let f := (Op.createObject typeId constructorId args).frame seq
    obtain ⟨pre', hd⟩ := decodeObjectCreateHeader_cut (encodeHeader f.hdr) typeId constructorId args
    have hm : Eff.Ends (handleCreate env f.hdr f.body (.transport tp)) s
        (fun _ => Answers tp seq s) fun _ _ => False :=
      decodeThen_answers hd (tryReport_answers hok (createBody_answers hok (h _ _ hd)))
    exact hm
  | getProperty typeId objectId propertyId =>
    let f := (Op.getProperty typeId objectId propertyId).frame seq
    obtain ⟨pre', hd⟩ := Op.decode_getProperty typeId objectId propertyId seq
    have hm : Eff.Ends (handlePropGet env f.hdr f.body (.transport tp)) s
        (fun _ => Answers tp seq s) fun _ _ => False :=
      decodeThen_answers hd (tryReport_answers hok (objectBody_answers hok (h _ _ hd)))
    exact hm
  | setProperty typeId objectId propertyId value =>
    let f := (Op.setProperty typeId objectId propertyId value).frame seq
    obtain ⟨pre', hd⟩ := Op.decode_setProperty typeId objectId propertyId value seq
    have hm : Eff.Ends (handlePropSet env f.hdr f.body (.transport tp)) s
        (fun _ => Answers tp seq s) fun _ _ => False :=
      decodeThen_answers hd (tryReport_answers hok (objectBody_answers hok (h _ _ hd)))
    exact hm
  | callObject typeId objectId methodId args =>
    let f := (Op.callObject typeId objectId methodId args).frame seq
    obtain ⟨pre', hd⟩ := decodeObjectMethodHeader_cut (encodeHeader f.hdr) typeId objectId
      methodId args
    have hm : Eff.Ends (handleObjectCall env f.hdr f.body (.transport tp)) s
        (fun _ => Answers tp seq s) fun _ _ => False :=
      decodeThen_answers hd (tryReport_answers hok (objectBody_answers hok (h _ _ hd)))
    exact hm

/-- The connection's loop answers it and goes on. -/
theorem clientStep_answers (hok : SendsOk env (.transport tp)) (op : Op)
    (h : CallbackBehaves env (op.frame seq).hdr (op.frame seq).body s) :
    ∃ s', (clientStep env (op.message seq) tp).run s = .ok .stay s' ∧ Answers tp seq s s' := by
  have hstay : ¬ (op.frame seq).hdr.Leaves ∧ (op.frame seq).hdr.type ≠ .initAck := by
    cases op <;> exact ⟨by rintro (hm | ht); exacts [hm rfl, by cases ht], by intro ht; cases ht⟩
  rw [op.message_eq, clientStep_stays hstay.1, if_neg hstay.2]
  have hm := handleMessage_answers hok op h
  cases hr : (handleMessage env (op.frame seq).hdr (op.frame seq).body tp).run s with
  | ok a s' => exact ⟨s', by rw [← Frame.body, hr], hm.ok hr⟩
  | error e s' => exact (hm.error hr).elim

/-! ## Releases -/

theorem clientStep_release_run (env : Env σ ω) (tp : TransportPtr) (typeId : UInt32)
    (objectId : Int32) (s : Rt σ ω) :
    (clientStep env (createObjectReleaseMessage typeId objectId) tp).run s = .ok .stay { s with
      registry := s.registry.release objectId
      tracked := s.tracked.erase objectId } := by
  let f := Song.message .release 0 (encodeObjectRelease typeId objectId)
  have hstay : ¬ f.hdr.Leaves := by
    rintro (hm | ht)
    · exact hm rfl
    · cases ht
  obtain ⟨b, hd⟩ : ∃ b, decodeObjectReleaseHeader.run f.body = .ok ⟨typeId, objectId⟩ b :=
    decodeObjectReleaseHeader_cut (encodeHeader f.hdr) typeId objectId
  have hm : (handleMessage env f.hdr f.body tp).run s = .ok () { s with
      registry := s.registry.release objectId
      tracked := s.tracked.erase objectId } := by
    have hr : handleMessage env f.hdr f.body tp = handleRelease f.body := rfl
    rw [hr, handleRelease, decodeThen_ok hd]
    rfl
  have hb : createObjectReleaseMessage typeId objectId = f.bytes := rfl
  rw [hb, clientStep_stays hstay, if_neg (by intro ht; cases ht), ← Frame.body, hm]

/-- A release is handled and nothing is sent. -/
theorem clientStep_release (env : Env σ ω) (tp : TransportPtr) (typeId : UInt32)
    (objectId : Int32) (s : Rt σ ω) :
    ∃ s', (clientStep env (createObjectReleaseMessage typeId objectId) tp).run s = .ok .stay s' ∧
      s'.sent = s.sent :=
  ⟨_, clientStep_release_run env tp typeId objectId s, rfl⟩

end

end Song
