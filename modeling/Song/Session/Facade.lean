import Song.Lib.Remote
import Song.Session.Served
import Song.Connection.Streaming
import Song.Runtime.Pipe

/-!
# What a client sees of a service

A client uses something of a service over a connection that the runtime serves, while other clients
use the service too and notifications arrive. `Facade` says what it can ask for, what an operation
does to the part of the runtime it sees, and what it makes of the reply. Where the runtime does what
a facade says (`Facade.Served`), it is for the client something called from afar (`Remote.step`), in
every run.
-/

namespace Song

/-! ## What is on the wire -/

section
variable {σ ω : Type} {env : Env σ ω} {tp : TransportPtr} {rt rt' : Rt σ ω} {seq : UInt32}

/-- The client sees notifications and then the message that was put last. -/
theorem arrived_put (h : Notes rt rt') (tp : TransportPtr) (m : Bytes) :
    ∃ pre, arrived tp rt (rt'.put (.transport tp) m) = pre ++ [m] ∧ ∀ x ∈ pre, IsNote x := by
  obtain ⟨new, hs, hn⟩ := h
  have hs : (rt'.put (.transport tp) m).sent = rt.sent ++ (new ++ [(.transport tp, m)]) := by
    rw [Rt.put_sent, hs, List.append_assoc]
  refine ⟨(new.filter fun x => x.1 = .transport tp).map (·.2), ?_, fun x hx => ?_⟩
  · rw [arrived_eq hs, List.filter_append, List.map_append]
    simp
  · obtain ⟨y, hy, rfl⟩ := List.mem_map.mp hx
    exact hn y (List.mem_filter.mp hy).1

/-- The loop handles the request of an operation and goes on. -/
theorem clientStep_handled {op : Op}
    (h : (handleMessage env (op.frame seq).hdr (op.frame seq).body tp).run rt = .ok () rt') :
    (clientStep env (op.message seq) tp).run rt = .ok .stay rt' := by
  have hstay : ¬ (op.frame seq).hdr.Leaves ∧ (op.frame seq).hdr.type ≠ .initAck := by
    cases op <;> exact ⟨by rintro (hm | ht); exacts [hm rfl, by cases ht], by intro ht; cases ht⟩
  rw [op.message_eq, clientStep_stays hstay.1, if_neg hstay.2, ← Frame.body, h]

/-- The user state is left alone. -/
def SameUser (rt rt' : Rt σ ω) : Prop := rt'.user = rt.user

theorem SameUser.trans {a b c : Rt σ ω} (h : SameUser a b) (h' : SameUser b c) : SameUser a c :=
  Eq.trans h' h

theorem sameUser_sendEach (env : Env σ ω) (msg : Bytes) (tps : List TransportPtr) :
    Eff.Within SameUser (sendEach env msg tps) := by
  induction tps with
  | nil => exact Eff.Within.pure (R := SameUser) (fun _ => rfl) ()
  | cons t tps ih =>
    refine Eff.Within.bind (R := SameUser) SameUser.trans
      (fun s => .of_ok (quietly_run _ s) ?_) fun _ => ih
    unfold Eff.after transportSend
    simp only [EStateM.run]
    cases env.sendOutcome t s.attempts with
    | none => rfl
    | some e => rfl

theorem sameUser_notifyAll (env : Env σ ω) (ps : List Push) :
    Eff.Within SameUser (notifyAll env ps) := by
  induction ps with
  | nil => exact Eff.Within.pure (R := SameUser) (fun _ => rfl) ()
  | cons p ps ih =>
    exact Eff.Within.bind (R := SameUser) SameUser.trans (fun s => sameUser_sendEach env _ _ s)
      fun _ => ih

/-- A callback runs, its notifications go out, and what it returned or threw is passed on. -/
theorem runCallback_passes (env : Env σ ω) {α : Type} (f : σ → Ran σ Push α)
    (h : ∀ p ∈ (f rt.user).pushed, 12 + p.value.length ≤ kMaxPayloadSize) :
    ∃ s', Notes rt s' ∧ s'.user = (f rt.user).state ∧ s'.registry = rt.registry ∧
      (runCallback env f).run rt = (ofExcept (f rt.user).out).run s' := by
  obtain ⟨s', hs'⟩ := notifyAll_run env (f rt.user).pushed { rt with user := (f rt.user).state }
  have hsends : SendsNotes (notifyAll env (f rt.user).pushed) := .notifyAll h
  have hnotes := (hsends _).ok hs'
  have huser := (sameUser_notifyAll env (f rt.user).pushed _).ok hs'
  have haside : Aside { rt with user := (f rt.user).state } s' :=
    (Aside.notifyAll (f rt.user).pushed _).ok hs'
  exact ⟨s', hnotes, huser, by rw [haside], Eff.run_bind_ok hs'⟩

/-- An object's function has run and its notifications have gone out. -/
theorem ranOn_passes (env : Env σ ω) (objectId : Int32) (obj : Obj ω) (state : ω × σ)
    {notes : List Note} (h : ∀ note ∈ notes, 12 + note.value.length ≤ kMaxPayloadSize)
    (rt : Rt σ ω) :
    Notes rt (ranOn env objectId obj state notes rt) ∧
      (ranOn env objectId obj state notes rt).user = state.2 ∧
      (ranOn env objectId obj state notes rt).registry =
        rt.registry.put objectId { obj with data := state.1 } := by
  have hsends : SendsNotes (notifyAll env (notes.filterMap obj.push)) := by
    refine .notifyAll fun p hp => ?_
    obtain ⟨note, hnote, hpush⟩ := List.mem_filterMap.mp hp
    unfold Obj.push at hpush
    split at hpush
    · cases hpush
      exact h note hnote
    · cases hpush
  let rt₁ : Rt σ ω := { rt with
    registry := rt.registry.put objectId { obj with data := state.1 }
    user := state.2 }
  obtain ⟨s₁, hs₁⟩ := notifyAll_run env (notes.filterMap obj.push) rt₁
  have hran : ranOn env objectId obj state notes rt = s₁ := Eff.after_ok hs₁
  have hnotes : Notes rt₁ s₁ := (hsends rt₁).ok hs₁
  have huser : SameUser rt₁ s₁ := (sameUser_notifyAll env _ rt₁).ok hs₁
  have haside : Aside rt₁ s₁ := (Aside.notifyAll _ rt₁).ok hs₁
  rw [hran]
  exact ⟨hnotes, huser, by rw [haside]⟩

end

/-! ## Replies -/

/-- What is in the result of an operation. -/
def Op.Reads (op : Op) (b : Bytes) (v : Value) : Prop :=
  match op with
  | .createObject _ _ _ => ∃ ref, b = encodeObjectRef ref ∧ v = .ref ref
  | _ => v = .bytes b

/-- What an operation throws for an error reply. -/
def Op.failed (op : Op) (code : ErrorCode) (text : Str) : Exn :=
  .serviceError (op.errorText ++ toStr code.toU16.toNat ++ lit "): " ++ text)

theorem decodeObjectRef_cut (pre : Bytes) (ref : ObjectRef) :
    ∃ rest, decodeObjectRef.run (.cut pre (encodeObjectRef ref)) = .ok ref rest := by
  have hid : decodeI32.run (.cut (pre ++ encodeU32 ref.typeId) (encodeI32 ref.objectId ++ [])) =
      _ := decodeI32_cut _
  rw [List.append_nil] at hid
  rw [decodeObjectRef, encodeObjectRef, Eff.run_bind_ok (decodeU32_cut _), Eff.run_bind_ok hid]
  exact ⟨_, rfl⟩

theorem finish_result {op : Op} {b : Bytes} {v : Value} (hv : op.Reads b v)
    (h : b.length ≤ kMaxPayloadSize) (seq : UInt32) :
    op.finish (.ofBytes (createResultMessage seq b)) = .ok v := by
  have hvalid : (message .result seq b).Valid := message_valid _ _ h
  have hb : createResultMessage seq b = (message .result seq b).bytes := rfl
  have hpay : (message .result seq b).payload = b := rfl
  rcases expectResult_run hvalid op with ⟨-, he⟩ | ⟨hne, -⟩
  · rw [hb, Op.finish, he]
    dsimp only
    cases op with
    | createObject typeId constructorId args =>
      obtain ⟨ref, rfl, rfl⟩ := hv
      obtain ⟨rest, hdecode⟩ := decodeObjectRef_cut (encodeHeader (message .result seq
        (encodeObjectRef ref)).hdr) ref
      rw [hpay, hdecode]
    | _ =>
      rw [hv]
      exact congrArg (fun x => Except.ok (Value.bytes x)) (List.drop_left' (length_encodeHeader _))
  · exact absurd rfl hne

theorem finish_error (op : Op) (seq : UInt32) (code : ErrorCode) {text : Str}
    (h : text.length ≤ kMaxStringSize) {m : Bytes} (hm : createErrorMessage seq code text = .ok m) :
    op.finish (.ofBytes m) = .error (op.failed code text) := by
  rw [createErrorMessage_ok seq code h] at hm
  cases hm
  have hlen : (encodeU16 code.toU16 ++ (encodeU32 (UInt32.ofNat text.length) ++ text)).length ≤
      kMaxPayloadSize := by
    simp only [kMaxStringSize] at h
    simp only [List.length_append, length_encodeU16, length_encodeU32, kMaxPayloadSize]
    omega
  let f := message .error seq
    (encodeU16 code.toU16 ++ (encodeU32 (UInt32.ofNat text.length) ++ text))
  have hv : f.Valid := message_valid _ _ hlen
  obtain ⟨b, hb⟩ := throwServiceError_run op.errorText (encodeHeader f.hdr) code.toU16 h
  have hexpect : (expectResult op).run (.ofBytes f.bytes) = .error (op.failed code text) b := by
    rw [expectResult, Eff.run_bind_ok (f.decodeHeaderValidated_bytes hv)]
    have herr : f.hdr.type = .error := rfl
    rw [if_pos herr]
    exact hb
  show Op.finish _ (.ofBytes f.bytes) = _
  rw [Op.finish, hexpect]

section
variable {σ ω : Type} {env : Env σ ω} {tp : TransportPtr} {rt : Rt σ ω} {seq : UInt32}

theorem isReplyFrame_error (seq : UInt32) {code : ErrorCode} {text : Str} {m : Bytes}
    (h : text.length ≤ kMaxStringSize) (hm : createErrorMessage seq code text = .ok m) :
    IsReplyFrame seq m := by
  rw [createErrorMessage_ok seq code h] at hm
  cases hm
  refine ⟨_, rfl, message_valid .error seq ?_, .inr rfl, rfl⟩
  simp only [kMaxStringSize] at h
  simp only [List.length_append, length_encodeU16, length_encodeU32, kMaxPayloadSize]
  omega

theorem sendError_run (hok : SendsOk env (.transport tp)) (seq : UInt32) (code : ErrorCode)
    {text : Str} (h : text.length ≤ kMaxStringSize) (rt : Rt σ ω) :
    ∃ m, (sendError env (.transport tp) seq code text).run rt = .ok () (rt.put (.transport tp) m) ∧
      IsReplyFrame seq m ∧ ∀ op : Op, op.finish (.ofBytes m) = .error (op.failed code text) := by
  have hm := createErrorMessage_ok seq code h
  refine ⟨_, ?_, isReplyFrame_error seq h hm, fun op => finish_error op seq code h hm⟩
  rw [sendError, hm, ofExcept_ok_bind]
  exact reply_ok hok _ rt

/-- What a `try` body returns or throws is put on the client's transport. -/
theorem tryReply_sends (hok : SendsOk env (.transport tp)) {x : Srv σ ω Bytes}
    {out : Except Exn Bytes} {s' : Rt σ ω} (hx : x.run rt = (ofExcept out).run s')
    (hthrown : ∀ e, out = .error e → e.Reported) (seq : UInt32) (code : ErrorCode) :
    ∃ m, (catchStd (do
        let response ← x
        reply env (.transport tp) (createResultMessage seq response))
          fun e => sendError env (.transport tp) seq code e.what).run rt =
        .ok () (s'.put (.transport tp) m) ∧
      (∀ b, out = .ok b → m = createResultMessage seq b) ∧
      ∀ e, out = .error e → createErrorMessage seq code e.what = .ok m := by
  cases out with
  | ok b =>
    refine ⟨_, Eff.run_catchIf_ok ((Eff.run_bind_ok hx).trans (reply_ok hok _ s')), ?_,
      fun _ he => by cases he⟩
    intro b' hb
    cases hb
    rfl
  | error e =>
    obtain ⟨hstd, htext⟩ := hthrown e rfl
    obtain ⟨m, hm⟩ : ∃ m, createErrorMessage seq code e.what = .ok m :=
      ⟨_, createErrorMessage_ok seq code htext⟩
    refine ⟨m, ?_, fun _ hb => (by cases hb), fun e' he => ?_⟩
    · refine (Eff.run_catchIf_error (Eff.run_bind_error hx)).trans ?_
      rw [if_pos hstd, sendError, hm, ofExcept_ok_bind]
      exact reply_ok hok _ s'
    · cases he
      exact hm

/-- And the operation reads it there. -/
theorem tryReply_run (hok : SendsOk env (.transport tp)) {x : Srv σ ω Bytes}
    {out : Except Exn Bytes} {s' : Rt σ ω} (hx : x.run rt = (ofExcept out).run s')
    (hsmall : ∀ b, out = .ok b → b.length ≤ kMaxPayloadSize)
    (hthrown : ∀ e, out = .error e → e.Reported) (seq : UInt32) (code : ErrorCode) :
    ∃ m, (catchStd (do
        let response ← x
        reply env (.transport tp) (createResultMessage seq response))
          fun e => sendError env (.transport tp) seq code e.what).run rt =
        .ok () (s'.put (.transport tp) m) ∧ IsReplyFrame seq m ∧
      (∀ op b v, out = .ok b → Op.Reads op b v → op.finish (.ofBytes m) = .ok v) ∧
      ∀ op e, out = .error e → Op.finish op (.ofBytes m) = .error (op.failed code e.what) := by
  obtain ⟨m, hrun, hresult, herror⟩ := tryReply_sends hok hx hthrown seq code
  refine ⟨m, hrun, ?_, fun op b v hb hv => ?_, fun op e he => ?_⟩
  · cases out with
    | ok b =>
      rw [hresult b rfl]
      exact isReplyFrame_result seq (hsmall b rfl)
    | error e => exact isReplyFrame_error seq (hthrown e rfl).2 (herror e rfl)
  · rw [hresult b hb]
    exact finish_result hv (hsmall b hb) seq
  · exact finish_error op seq code (hthrown e he).2 (herror e he)

end

def NetLabel.IsElsewhere {σ ω : Type} : NetLabel σ ω → Prop
  | .elsewhere _ => True
  | _ => False

/-- What the client sends: an operation, or the release of an object. -/
def NetLabel.request? {σ ω : Type} : NetLabel σ ω → Option (Op ⊕ Int32)
  | .ask op => some (.inl op)
  | .release _ objectId => if objectId = 0 then none else some (.inr objectId)
  | _ => none

/-! ## Facades -/

/-- What a client sees of a runtime: calls `ι` with answers `ρ`, on a part `α` of its state. -/
structure Facade (σ ω α ι ρ : Type) where
  view : Rt σ ω → α
  /-- The call is one that a client can make, by this operation. -/
  asks : ι → Op → Prop
  /-- What becomes of a call, from what the operation returned or threw. -/
  reads : ι → Except Exn Value → ρ
  /-- What the call runs pushes, returns and throws what can be sent. -/
  behaves : ι → Rt σ ω → Prop
  call : ι → α → α × ρ
  /-- The object is one that the client can release. -/
  releases : UInt32 → Int32 → Prop
  release : Int32 → α → α

namespace Facade

variable {κ σ ω α ι ρ : Type} (F : Facade σ ω α ι ρ)

/-- The runtime does what the facade says. -/
structure Served (env : Env σ ω) (tp : TransportPtr) : Prop where
  call : ∀ {i op} (seq : UInt32) (rt : Rt σ ω), F.asks i op → F.behaves i rt →
    ∃ rt' pre m, (clientStep env (op.message seq) tp).run rt = .ok .stay rt' ∧
      F.view rt' = (F.call i (F.view rt)).1 ∧ arrived tp rt rt' = pre ++ [m] ∧
      (∀ x ∈ pre, IsNote x) ∧ IsReplyFrame seq m ∧
      F.reads i (op.finish (.ofBytes m)) = (F.call i (F.view rt)).2
  release : ∀ typeId objectId (rt : Rt σ ω), F.releases typeId objectId →
    ∃ rt', (clientStep env (createObjectReleaseMessage typeId objectId) tp).run rt =
        .ok .stay rt' ∧
      F.view rt' = F.release objectId (F.view rt) ∧ ∀ m ∈ arrived tp rt rt', IsNote m

/-- The client uses the facade and nothing else, what is called behaves, and notifications are what
reaches the client besides. -/
def Proper (tp : TransportPtr) (t : Net κ σ ω) : NetLabel σ ω → Prop
  | .ask op => ∃ i, F.asks i op
  | .oneway _ _ _ => False
  | .release typeId objectId => F.releases typeId objectId
  | .receive => True
  | .serve => ∀ i op r rest, F.asks i op → t.sys.inbox = r :: rest →
      r.message = op.message r.seq → F.behaves i t.rt
  | .elsewhere rt => ∀ m ∈ arrived tp t.rt rt, IsNote m

/-- How the answer of a call is found in what the connection made of it. -/
def Tells (d : Done) (x : ι × ρ) : Prop := F.asks x.1 d.op ∧ F.reads x.1 d.outcome = x.2

/-- The request of a call is an operation that makes it. -/
def Requests : Op ⊕ Int32 → ι ⊕ Int32 → Prop
  | .inl op, .inl i => F.asks i op
  | .inr id, .inr id' => id = id'
  | _, _ => False

/-- The releases before the runtime. -/
def Posts (inbox : List Request) (posted : List Int32) : Prop :=
  List.Forall₂ (fun r id => ∃ typeId, F.releases typeId id ∧
    r.message = createObjectReleaseMessage typeId id) inbox posted

/-- Where the call that is waited for is: nowhere, before the runtime, or on its way back. -/
inductive Waits (sys : Sys κ) : List Int32 → Option (ι × Option ρ) → Prop
  | idle {posted : List Int32} : sys.pending = none → F.Posts sys.inbox posted →
    (∀ m ∈ sys.conn.incoming, IsNote m) → Waits sys posted none
  | sent {i : ι} {op : Op} {p : Pending} {before : List Request} {posted : List Int32} :
    F.asks i op → sys.pending = some p → p.waiting = .op op →
    p.request.message = op.message p.request.seq → sys.inbox = before ++ [p.request] →
    F.Posts before posted → (∀ m ∈ sys.conn.incoming, IsNote m) →
    Waits sys posted (some (i, none))
  | back {i : ι} {op : Op} {p : Pending} {m : Bytes} {before behind : List Bytes} :
    F.asks i op → sys.pending = some p → p.waiting = .op op → sys.inbox = [] →
    sys.conn.incoming = before ++ m :: behind → (∀ x ∈ before, IsNote x) →
    (∀ x ∈ behind, IsNote x) → IsReplyFrame p.request.seq m →
    Waits sys [] (some (i, some (F.reads i (op.finish (.ofBytes m)))))

/-- The connection and the runtime are in a state of the calls from afar. -/
structure Mirrored (t : Net κ σ ω) (a : Remote.State α ι Int32 ρ) : Prop where
  own : a.own = F.view t.rt
  told : List.Forall₂ F.Tells t.sys.done a.told
  waits : F.Waits t.sys a.posted a.pending
  serving : t.serving = true

variable {F} {env : Env σ ω} {tp : TransportPtr} {t t' : Net κ σ ω} {a : Remote.State α ι Int32 ρ}

/-! ## Steps of the client -/

theorem Mirrored.ask (h : F.Mirrored t a) {i : ι} {op : Op} (hi : F.asks i op)
    (hp : t.sys.pending = none) :
    ∃ a', Remote.step F.call F.release a (.call i) = some a' ∧
      F.Mirrored { t with sys := t.sys.asked op } a' := by
  obtain ⟨own, posted, pending, told⟩ := a
  obtain ⟨hown, htold, hwaits, hserving⟩ := h
  cases hwaits with
  | idle _ hposts hnotes =>
    exact ⟨_, rfl, hown, htold, .sent hi rfl rfl rfl rfl hposts hnotes, hserving⟩
  | sent _ hsome => cases hp.symm.trans hsome
  | back _ hsome => cases hp.symm.trans hsome

/-- A release is on its way, unless the reference is null. -/
theorem Mirrored.release (h : F.Mirrored t a) {typeId : UInt32} {objectId : Int32}
    (hi : F.releases typeId objectId) {sys : Sys κ}
    (hs : t.sys.step none (.release typeId objectId) = some sys) :
    (objectId = 0 ∧ F.Mirrored { t with sys } a) ∨
      (objectId ≠ 0 ∧ ∃ a', Remote.step F.call F.release a (.post objectId) = some a' ∧
        F.Mirrored { t with sys } a') := by
  unfold Sys.step at hs
  dsimp only at hs
  cases hp : t.sys.pending with
  | some p =>
    rw [hp] at hs
    cases hs
  | none =>
    rw [hp] at hs
    dsimp only at hs
    by_cases hzero : objectId = 0
    · rw [if_pos hzero] at hs
      cases hs
      exact .inl ⟨hzero, h⟩
    · rw [if_neg hzero] at hs
      cases hs
      refine .inr ⟨hzero, ?_⟩
      have hin : (Eff.after (ServiceConnection.releaseObject (Sys.openLink none) typeId objectId)
          t.sys.conn).incoming = t.sys.conn.incoming := by
        simp only [ServiceConnection.releaseObject, Eff.after, EStateM.run, if_neg hzero]
        rfl
      obtain ⟨own, posted, pending, told⟩ := a
      obtain ⟨hown, htold, hwaits, hserving⟩ := h
      cases hwaits with
      | idle _ hposts hnotes =>
        refine ⟨_, rfl, hown, htold, .idle rfl ?_ ?_, hserving⟩
        · exact List.rel_append hposts (.cons ⟨typeId, hi, rfl⟩ .nil)
        · exact fun m hm => hnotes m (hin ▸ hm)
      | sent _ hsome => cases hp.symm.trans hsome
      | back _ hsome => cases hp.symm.trans hsome

/-- A notification is delivered, or the answer. -/
theorem Mirrored.receive (h : F.Mirrored t a) {p : Pending} {op : Op} {msg : Bytes}
    {rest : List Bytes} (hp : t.sys.pending = some p) (hw : p.waiting = .op op)
    (hin : t.sys.conn.incoming = msg :: rest) :
    F.Mirrored { t with sys := (t.sys.took rest).receiveOp op p msg } a ∨
      ∃ a', Remote.step F.call F.release a .tell = some a' ∧
        F.Mirrored { t with sys := (t.sys.took rest).receiveOp op p msg } a' := by
  obtain ⟨own, posted, pending, told⟩ := a
  obtain ⟨hown, htold, hwaits, hserving⟩ := h
  cases hwaits with
  | idle hnone => cases hnone.symm.trans hp
  | sent hi hsome hw' hmsg hinbox hposts hnotes =>
    left
    rw [hin] at hnotes
    obtain ⟨hnote, hnotes⟩ := List.forall_mem_cons.mp hnotes
    obtain ⟨conn, hconn, -, he⟩ := Sys.receiveOp_note op p hnote (t.sys.took rest)
    rw [he]
    exact ⟨hown, htold, .sent hi hsome hw' hmsg hinbox hposts (by rw [hconn]; exact hnotes),
      hserving⟩
  | @back i op' p' m before behind hi hsome hw' hinbox hincoming hbefore hbehind hreply =>
    cases hsome.symm.trans hp
    cases hw'.symm.trans hw
    rw [hin] at hincoming
    cases before with
    | nil =>
      right
      cases hincoming
      rw [Sys.receiveOp_own hreply.isOwn]
      refine ⟨_, rfl, hown, List.rel_append htold (.cons ⟨hi, rfl⟩ .nil), .idle rfl ?_ hbehind,
        hserving⟩
      show F.Posts t.sys.inbox []
      rw [hinbox]
      exact .nil
    | cons x before =>
      left
      cases hincoming
      obtain ⟨hnote, hbefore⟩ := List.forall_mem_cons.mp hbefore
      obtain ⟨conn, hconn, -, he⟩ := Sys.receiveOp_note op p hnote (t.sys.took _)
      rw [he]
      exact ⟨hown, htold, .back hi hsome hw' hinbox (by rw [hconn]; rfl) hbefore hbehind hreply,
        hserving⟩

/-! ## Steps of the runtime -/

theorem Waits.push {sys : Sys κ} {posted : List Int32} {x : Option (ι × Option ρ)}
    (h : F.Waits sys posted x) {new : List Bytes} (hnew : ∀ m ∈ new, IsNote m) :
    F.Waits { sys with conn := { sys.conn with incoming := sys.conn.incoming ++ new } }
      posted x := by
  cases h with
  | idle hnone hposts hnotes =>
    exact .idle hnone hposts (List.forall_mem_append.mpr ⟨hnotes, hnew⟩)
  | sent hi hsome hw hmsg hinbox hposts hnotes =>
    exact .sent hi hsome hw hmsg hinbox hposts (List.forall_mem_append.mpr ⟨hnotes, hnew⟩)
  | @back i op p m before behind hi hsome hw hinbox hincoming hbefore hbehind hreply =>
    have hincoming' : sys.conn.incoming ++ new = before ++ m :: (behind ++ new) := by
      rw [hincoming, List.append_assoc]
      rfl
    exact .back hi hsome hw hinbox hincoming' hbefore
      (List.forall_mem_append.mpr ⟨hbehind, hnew⟩) hreply

/-- The runtime takes the oldest request: a release, or the call that is waited for. -/
theorem Mirrored.serve (h : F.Mirrored t a) (hserved : F.Served env tp)
    (hl : F.Proper tp t .serve) (hs : t.step env tp .serve = some t') :
    ∃ a', Remote.step F.call F.release a .run = some a' ∧ F.Mirrored t' a' := by
  obtain ⟨own, posted, pending, told⟩ := a
  obtain ⟨hown, htold, hwaits, -⟩ := h
  dsimp only at hown htold hwaits
  obtain ⟨r, rest, hinbox, hstep, hstay⟩ := Net.step_serve hs
  obtain ⟨r', rest', hcons, hsys⟩ := Sys.step_answer hstep
  cases hcons.symm.trans hinbox
  -- a release is the oldest request
  have hpost : ∀ {id : Int32}, (∃ typeId, F.releases typeId id ∧
      r.message = createObjectReleaseMessage typeId id) → F.view t'.rt = F.release id own ∧
        (∀ m ∈ arrived tp t.rt t'.rt, IsNote m) ∧ t'.serving = true := by
    rintro id ⟨typeId, hi, hmsg⟩
    obtain ⟨rt', hrun, hview, hnotes⟩ := hserved.release typeId id t.rt hi
    rw [← hmsg] at hrun
    obtain ⟨hrt, hserving⟩ := hstay rt' hrun
    rw [hrt, hown]
    exact ⟨hview, hnotes, hserving⟩
  cases hwaits with
  | idle hnone hposts hnotes =>
    rw [hinbox] at hposts
    cases hposts with
    | @cons _ id _ rest' hone hrest =>
      obtain ⟨hview, hnew, hserving⟩ := hpost hone
      refine ⟨_, rfl, hview.symm, ?_, ?_, hserving⟩
      · rw [hsys]
        exact htold
      · rw [hsys]
        exact .idle hnone hrest (List.forall_mem_append.mpr ⟨hnotes, hnew⟩)
  | @sent i op p before _ hi hsome hw hmsg hinbox' hposts hnotes =>
    cases hposts with
    | @cons b id bs rest' hone hrest =>
      cases hinbox'.symm.trans hinbox
      obtain ⟨hview, hnew, hserving⟩ := hpost hone
      refine ⟨_, rfl, hview.symm, ?_, ?_, hserving⟩
      · rw [hsys]
        exact htold
      · rw [hsys]
        exact .sent hi hsome hw hmsg rfl hrest (List.forall_mem_append.mpr ⟨hnotes, hnew⟩)
    | nil =>
      cases hinbox'.symm.trans hinbox
      obtain ⟨rt', pre, m, hrun, hview, harr, hpre, hreply, hresult⟩ :=
        hserved.call p.request.seq t.rt hi (hl i op _ _ hi hinbox' hmsg)
      rw [← hmsg] at hrun
      obtain ⟨hrt, hserving⟩ := hstay rt' hrun
      rw [← hown] at hview hresult
      refine ⟨_, rfl, ?_, ?_, ?_, hserving⟩
      · rw [hrt]
        exact hview.symm
      · rw [hsys]
        exact htold
      · show F.Waits t'.sys [] (some (i, some (F.call i own).2))
        rw [← hresult, hsys, hrt, harr]
        have hincoming : t.sys.conn.incoming ++ (pre ++ [m]) =
            (t.sys.conn.incoming ++ pre) ++ m :: [] := (List.append_assoc _ _ _).symm
        exact .back hi hsome hw rfl hincoming (List.forall_mem_append.mpr ⟨hnotes, hpre⟩)
          (fun _ hx => by cases hx) hreply
  | back _ _ _ hempty => cases hempty.symm.trans hinbox

theorem Waits.op {sys : Sys κ} {posted : List Int32} {x : Option (ι × Option ρ)} {p : Pending}
    (h : F.Waits sys posted x) (hp : sys.pending = some p) : ∃ op, p.waiting = .op op := by
  cases h with
  | idle hnone => cases hnone.symm.trans hp
  | sent _ hsome hw =>
    cases hsome.symm.trans hp
    exact ⟨_, hw⟩
  | back _ hsome hw =>
    cases hsome.symm.trans hp
    exact ⟨_, hw⟩

/-! ## Runs -/

/-- A step is a step of the calls from afar, or none. -/
theorem Mirrored.step (h : F.Mirrored t a) (hserved : F.Served env tp) {l : NetLabel σ ω}
    (hl : F.Proper tp t l) (hs : t.step env tp l = some t') :
    (l.request? = none ∧ F.Mirrored t' a) ∨
      ∃ l' a', Remote.step F.call F.release a l' = some a' ∧ F.Mirrored t' a' ∧
        (l'.IsOthers → l.IsElsewhere) ∧
        List.Forall₂ F.Requests l.request?.toList l'.request?.toList := by
  cases l with
  | ask op =>
    obtain ⟨i, hi⟩ := hl
    obtain ⟨sys, hstep, rfl⟩ := Option.map_eq_some_iff.mp hs
    obtain ⟨hp, rfl⟩ := Sys.step_ask hstep
    obtain ⟨a', hstep', h'⟩ := h.ask hi hp
    exact .inr ⟨_, a', hstep', h', fun hc => hc.elim, .cons hi .nil⟩
  | oneway serviceId methodId args => exact hl.elim
  | release typeId objectId =>
    obtain ⟨sys, hstep, rfl⟩ := Option.map_eq_some_iff.mp hs
    rcases h.release hl hstep with ⟨hzero, h'⟩ | ⟨hne, a', hstep', h'⟩
    · exact .inl ⟨if_pos hzero, h'⟩
    · refine .inr ⟨_, a', hstep', h', fun hc => hc.elim, ?_⟩
      rw [NetLabel.request?, if_neg hne]
      exact .cons rfl .nil
  | receive =>
    obtain ⟨sys, hstep, rfl⟩ := Option.map_eq_some_iff.mp hs
    obtain ⟨p, msg, rest, hp, hin, ⟨op, hw, rfl⟩ | ⟨hw, rfl⟩⟩ := Sys.step_receive hstep
    · rcases h.receive hp hw hin with h' | ⟨a', hstep', h'⟩
      · exact .inl ⟨rfl, h'⟩
      · exact .inr ⟨_, a', hstep', h', fun hc => hc.elim, .nil⟩
    · obtain ⟨op, hw'⟩ := h.waits.op hp
      cases hw.symm.trans hw'
  | serve =>
    obtain ⟨a', hstep', h'⟩ := h.serve hserved hl hs
    exact .inr ⟨_, a', hstep', h', fun hc => hc.elim, .nil⟩
  | elsewhere rt =>
    obtain ⟨sys, hstep, rfl⟩ := Net.step_elsewhere hs
    obtain rfl := Sys.step_push hstep
    exact .inr ⟨.others (F.view rt), _, rfl, ⟨rfl, h.told, h.waits.push hl, h.serving⟩,
      fun _ => trivial, .nil⟩

theorem filterMap_concat {α β : Type} (f : α → Option β) (xs : List α) (x : α) :
    (xs ++ [x]).filterMap f = xs.filterMap f ++ (f x).toList := by
  rw [List.filterMap_append]
  cases h : f x <;> simp [h]

variable (F) in
/-- What happened between `rt` and `t` is for the client a run of something called from afar. -/
structure Afar (rt : Rt σ ω) (ls : List (NetLabel σ ω)) (t : Net κ σ ω)
    (as : List (Remote.Label α ι Int32)) (a : Remote.State α ι Int32 ρ) : Prop where
  run : Lts.Run (Remote.step F.call F.release) (fun _ _ => True) (.start (F.view rt)) as a
  /-- The requests are those that the client made. -/
  requests : List.Forall₂ F.Requests (ls.filterMap NetLabel.request?)
    (as.filterMap Remote.Label.request?)
  own : a.own = F.view t.rt
  told : List.Forall₂ F.Tells t.sys.done a.told
  /-- If nothing happens elsewhere, it is told what requests in turn return. -/
  inTurn : (∀ l ∈ ls, ¬ l.IsElsewhere) → a.told <+:
    (Remote.inTurn F.call F.release (F.view rt) (as.filterMap Remote.Label.request?)).2

/-- So is every run in which the client uses the facade. -/
theorem Served.refines (hserved : F.Served env tp) {propCallbacks : Map SubscriptionKey κ}
    {rt : Rt σ ω} {ls : List (NetLabel σ ω)}
    (h : Lts.Run (Net.step env tp) (F.Proper tp) (.init propCallbacks rt) ls t) :
    ∃ as a, F.Afar rt ls t as a := by
  obtain ⟨as, a, hrun, hmirrored, hrequests, hundisturbed⟩ : ∃ as a,
      Lts.Run (Remote.step F.call F.release) (fun _ _ => True) (.start (F.view rt)) as a ∧
        F.Mirrored t a ∧ List.Forall₂ F.Requests (ls.filterMap NetLabel.request?)
          (as.filterMap Remote.Label.request?) ∧
        ((∀ l ∈ ls, ¬ l.IsElsewhere) → ∀ l ∈ as, ¬ l.IsOthers) := by
    refine h.induction (fun ls t => ∃ as a,
      Lts.Run (Remote.step F.call F.release) (fun _ _ => True) (.start (F.view rt)) as a ∧
        F.Mirrored t a ∧ List.Forall₂ F.Requests (ls.filterMap NetLabel.request?)
          (as.filterMap Remote.Label.request?) ∧
        ((∀ l ∈ ls, ¬ l.IsElsewhere) → ∀ l ∈ as, ¬ l.IsOthers)) ?_ ?_
    · exact ⟨[], _, .nil, ⟨rfl, .nil, .idle rfl .nil (fun _ hm => by cases hm), rfl⟩, .nil,
        fun _ _ hl => by cases hl⟩
    · rintro ls t l t' ⟨as, a, hrun, hmirrored, hrequests, hothers⟩ hl hs
      rcases hmirrored.step hserved hl hs with ⟨hnone, h'⟩ | ⟨l', a', hstep, h', hl', hreq⟩
      · refine ⟨as, a, hrun, h', ?_, fun hls => hothers (List.forall_mem_append.mp hls).1⟩
        rw [filterMap_concat, hnone]
        exact (List.append_nil _).symm ▸ hrequests
      · refine ⟨as ++ [l'], a', hrun.snoc trivial hstep, h', ?_, fun hls => ?_⟩
        · rw [filterMap_concat, filterMap_concat]
          exact List.rel_append hrequests hreq
        · obtain ⟨hls, hlast⟩ := List.forall_mem_append.mp hls
          refine List.forall_mem_append.mpr ⟨hothers hls, fun x hx => ?_⟩
          rw [List.mem_singleton.mp hx]
          exact fun hc => hlast l (List.mem_singleton_self l) (hl' hc)
  exact ⟨as, a, hrun, hrequests, hmirrored.own, hmirrored.told,
    fun hls => Remote.told_inTurn hrun (hundisturbed hls)⟩

end Facade

end Song
