import Song.Compiler.Portable
import Song.Compiler.Remote
import Song.PyConnection.Call
import Song.Subscription.Fanout

/-!
# A service behind its Python proxy

A Python program calls the methods of a C++ service through the proxy that is generated for Python.
Nothing but the replies reaches its connection, which has subscribed to nothing, and each reply
comes in whatever pieces. Where the two languages agree on the ids and on the values, the service is
for the program the implementation itself, called from afar (`py_proxy_refines`).
-/

namespace Song.Compiler.PyProxy

open PyConnection (Caller CallError)

/-! ## The generated proxy -/

/-- What a method of the proxy raises. -/
inductive Raised where
  | code (e : PyError)
  | call (e : CallError)

section
variable (s : ServiceDef) (ns : Namespace) (depth : Nat)

/-- What is written into `req`. -/
def encodeArgs (ps : List Param) (vs : List Val) : Except PyError Bytes :=
  if ps.length = vs.length then
    Cursor.each (fun q => pyEncodeVal ns inEncoder depth (pyEncodeCall q.1.type) q.2) (ps.zip vs)
  else .error .typeError

/-- What is passed to `conn.call`. A name that stands for no id cannot be packed. -/
def request (m : Method) (args : List Val) : Except PyError (UInt16 × UInt16 × Bytes) := do
  let req ← encodeArgs ns depth m.params args
  match Python.sentPair ns s m with
  | some ids => return (ids.1, ids.2, req)
  | none => throw .structError

/-- What is returned of `resp`. -/
def resultOf (m : Method) (resp : Buffer) : Except PyError (Option Val) :=
  if m.isVoid then .ok none
  else
    match (pyDecodeVal ns inDecoder depth (pyDecodeCall m.returnType)).run resp with
    | .ok v _ => .ok (some v)
    | .error e _ => .error e

end

/-! ## Program, connection and runtime -/

structure Net (σ ω : Type) where
  caller : Caller
  rt : Rt σ ω
  told : List (Invocation × Except Raised (Option Val))

inductive Label (σ ω : Type) where
  /-- A call of a method, and the pieces in which the bytes behind it come. -/
  | call (i : Invocation) (pieces : List (Feed.Arrival UInt8))
  | elsewhere (rt : Rt σ ω)

def Label.IsElsewhere {σ ω : Type} : Label σ ω → Prop
  | .elsewhere _ => True
  | _ => False

def Label.call? {σ ω : Type} : Label σ ω → Option Invocation
  | .call i _ => some i
  | _ => none

section
variable {σ ω : Type} (s : ServiceDef) (ns : Namespace) (depth : Nat) (env : Env σ ω)
  (tp : TransportPtr)

def Net.tell (t : Net σ ω) (i : Invocation) (r : Except Raised (Option Val)) : Net σ ω :=
  { t with told := t.told ++ [(i, r)] }

/-- More comes in on the socket. -/
def meet (c : Caller) (pieces : List (Feed.Arrival UInt8)) : Caller :=
  { c with socket := c.socket.map fun s => { s with arrivals := s.arrivals ++ pieces } }

/-- The method reads its reply and returns or raises. -/
def Net.answer (t : Net σ ω) (i : Invocation) (seqId : Nat) : Net σ ω :=
  match (PyConnection.response seqId).run t.caller with
  | .ok resp c => { t with caller := c }.tell i ((resultOf ns depth i.method resp).mapError .code)
  | .error e c => { t with caller := c }.tell i (.error (.call e))

/-- A call whose message is sent is served before its reply is read. -/
def Net.step (t : Net σ ω) : Label σ ω → Option (Net σ ω)
  | .elsewhere rt => some { t with rt }
  | .call i pieces =>
    match request s ns depth i.method i.args with
    | .error e => some (t.tell i (.error (.code e)))
    | .ok r =>
      match (PyConnection.request r.1.toNat r.2.1.toNat r.2.2).run t.caller with
      | .error e c => some ({ t with caller := c }.tell i (.error (.call e)))
      | .ok seqId c =>
        match (clientStep env (c.written.drop t.caller.written.length) tp).run t.rt with
        | .ok .stay rt =>
          if Feed.data pieces = (arrived tp t.rt rt).flatten then
            some (Net.answer ns depth { t with caller := meet c pieces, rt } i seqId)
          else none
        | _ => none

end

/-! ## What the program is told -/

section
variable {σ : Type} (impl : ServiceImpl σ)

/-- What the program is told of a method that returned or threw. -/
def told (m : Method) : Except Exn (Option Val) → Except Raised (Option Val)
  | .ok v => .ok (if m.isVoid then none else v)
  | .error e =>
    .error (.call (if validUtf8 e.what then .serviceError (.string e.what) 3
      else .connection (.decoding .unicodeError)))

def direct (i : Invocation) (user : σ) : σ × Except Raised (Option Val) :=
  ((impl.method i.pos i.args user).state, told i.method (impl.method i.pos i.args user).out)

end

/-- The generated code of both languages is there, and the ids are the same. -/
structure Shared (s : ServiceDef) (layout : Cpp.Layout) (ns : Namespace) : Prop where
  ids : ∀ m ∈ s.methods, ∃ ids, Python.sentPair ns s m = some ids ∧
    Cpp.dispatchPair layout ns s m = some ids
  loads : PyLoads ns
  builds : ∀ m ∈ s.methods, ¬ m.isVoid → CppBuilds ns m.returnType

section
variable {σ ω : Type} (s : ServiceDef) (ns : Namespace) (depth : Nat) (impl : ServiceImpl σ)
  (tp : TransportPtr)

/-- The arguments are values on which the two codecs agree. -/
structure Sends (i : Invocation) : Prop where
  call : i.Of s ns depth
  agrees : List.Forall₂ (fun p v => Agrees ns p.type v) i.method.params i.args
  encodes : ∃ req, encodeArgs ns depth i.method.params i.args = .ok req ∧
    req.length ≤ kMaxPayloadSize

/-- So is what the method returns. -/
structure Behaves (i : Invocation) (user : σ) : Prop where
  sent : Compiler.Behaves ns depth impl i user
  agrees : ∀ v, (impl.method i.pos i.args user).out = .ok (some v) → ¬ i.method.isVoid →
    Agrees ns i.method.returnType v ∧ v.Utf8

/-- The transport is in no subscription. -/
def Unsubscribed (rt : Rt σ ω) : Prop :=
  ∀ objectId propertyId, tp ∉ rt.subs.targets objectId propertyId

/-- The program calls what there is, not yet 2³² times, and nothing else reaches it. -/
def Proper (t : Net σ ω) : Label σ ω → Prop
  | .call i _ => Sends s ns depth i ∧ t.caller.sequenceId + 1 < 2 ^ 32 ∧
      Behaves ns depth impl i t.rt.user
  | .elsewhere rt => Unsubscribed tp rt ∧ arrived tp t.rt rt = []

end

/-! ## What the runtime sends -/

section
variable {σ ω : Type} {env : Env σ ω} {tp : TransportPtr} {rt rt' : Rt σ ω}

/-- Nothing was sent to the transport, and it is still in no subscription. -/
def Silent (tp : TransportPtr) (rt rt' : Rt σ ω) : Prop :=
  rt'.subs = rt.subs ∧ ∃ new, rt'.sent = rt.sent ++ new ∧ ∀ x ∈ new, x.1 ≠ .transport tp

theorem Silent.trans {a b c : Rt σ ω} (h : Silent tp a b) (h' : Silent tp b c) :
    Silent tp a c := by
  obtain ⟨hsubs, new, hsent, hnew⟩ := h
  obtain ⟨hsubs', new', hsent', hnew'⟩ := h'
  refine ⟨hsubs'.trans hsubs, new ++ new', ?_, List.forall_mem_append.mpr ⟨hnew, hnew'⟩⟩
  rw [hsent', hsent, List.append_assoc]

theorem Silent.unsubscribed (h : Silent tp rt rt') (hun : Unsubscribed tp rt) :
    Unsubscribed tp rt' := by
  unfold Unsubscribed
  rw [h.1]
  exact hun

/-- Behind that, what arrives is the message that is put last. -/
theorem Silent.arrived_put (h : Silent tp rt rt') (m : Bytes) :
    arrived tp rt (rt'.put (.transport tp) m) = [m] := by
  obtain ⟨-, new, hsent, hnew⟩ := h
  have hs : (rt'.put (.transport tp) m).sent = rt.sent ++ (new ++ [(.transport tp, m)]) := by
    rw [Rt.put_sent, hsent, List.append_assoc]
  have hnone : new.filter (fun x => x.1 = .transport tp) = [] :=
    List.filter_eq_nil_iff.mpr fun x hx => by simpa using hnew x hx
  rw [arrived_eq hs, List.filter_append, hnone]
  simp

theorem delivered_ne {msg : Bytes} {tps : List TransportPtr} (h : tp ∉ tps) (n : Nat) :
    ∀ x ∈ delivered env msg n tps, x.1 ≠ .transport tp := by
  induction tps generalizing n with
  | nil => exact fun _ hx => by cases hx
  | cons t tps ih =>
    obtain ⟨ht, htps⟩ := not_or.mp (fun hmem => h (List.mem_cons.mpr hmem))
    refine List.forall_mem_append.mpr ⟨fun x hx => ?_, ih htps (n + 1)⟩
    cases hsend : env.sendOutcome t n with
    | some e =>
      rw [hsend] at hx
      cases hx
    | none =>
      rw [hsend] at hx
      cases List.mem_singleton.mp hx
      rintro heq
      cases heq
      exact ht rfl

theorem notifyAll_silent (hun : Unsubscribed tp rt) (ps : List Push) :
    ∃ rt', (notifyAll env ps).run rt = .ok () rt' ∧ Silent tp rt rt' ∧ rt'.user = rt.user := by
  induction ps generalizing rt with
  | nil => exact ⟨rt, rfl, ⟨rfl, [], (List.append_nil _).symm, fun _ hx => by cases hx⟩, rfl⟩
  | cons p ps ih =>
    have hone : (notify env p).run rt = _ := sendEach_run _ _ rt
    have hsilent : Silent tp rt (Eff.after (notify env p) rt) := by
      rw [Eff.after_ok hone]
      exact ⟨rfl, _, rfl, delivered_ne (hun p.objectId p.propertyId) _⟩
    rw [Eff.after_ok hone] at hsilent
    obtain ⟨rt', hrun, hrest, huser⟩ := ih (hsilent.unsubscribed hun)
    exact ⟨rt', (Eff.run_bind_ok hone).trans hrun, hsilent.trans hrest, huser⟩

theorem runCallback_silent {α : Type} (f : σ → Ran σ Push α) (hun : Unsubscribed tp rt) :
    ∃ rt', Silent tp rt rt' ∧ rt'.user = (f rt.user).state ∧
      (runCallback env f).run rt = (ofExcept (f rt.user).out).run rt' := by
  have hun' : Unsubscribed tp { rt with user := (f rt.user).state } := hun
  obtain ⟨rt', hrun, hsilent, huser⟩ := notifyAll_silent hun' (f rt.user).pushed
  exact ⟨rt', hsilent, huser, Eff.run_bind_ok hrun⟩

end

/-! ## A call -/

section
variable {σ ω : Type} {s : ServiceDef} {layout : Cpp.Layout} {ns : Namespace} {depth : Nat}
  {impl : ServiceImpl σ} {env : Env σ ω} {tp : TransportPtr} {rt : Rt σ ω} {i : Invocation}

/-- What Python encodes of the arguments is what C++ encodes. -/
theorem encodeArgs_agree {ps : List Param} {vs : List Val} (hloads : PyLoads ns)
    (hfit : FitsAll ns depth ps vs) (hagree : List.Forall₂ (fun p v => Agrees ns p.type v) ps vs)
    {req : Bytes} (h : encodeArgs ns depth ps vs = .ok req) :
    Compiler.encodeArgs ns ps vs = .ok req := by
  have hlen : ps.length = vs.length := hfit.length_eq
  rw [encodeArgs, if_pos hlen] at h
  have hfields : (ps.map Param.field).length = vs.length := by rw [List.length_map, hlen]
  rw [Compiler.encodeArgs, encodeFields_eq hfields, List.zip_map_left, Cursor.each_map]
  refine congrArg (Except.mapError Fault.exn) (Cursor.each_imp (fun q hq w hw => ?_) h)
  have hdepth : q.2.depth ≤ depth := (List.forall₂_zip hfit hq).depth
  exact ((List.forall₂_zip hagree hq).1 hloads depth hdepth w hw).2.1

/-- So what the proxy passes to `call` is what the C++ proxy sends. -/
theorem request_agree (hshared : Shared s layout ns) (hi : Sends s ns depth i) :
    ∃ serviceId methodId req, request s ns depth i.method i.args =
        .ok (serviceId, methodId, req) ∧ req.length ≤ kMaxPayloadSize ∧
      i.op s layout ns = .ok (.call serviceId methodId req) := by
  obtain ⟨req, hreq, hlen⟩ := hi.encodes
  obtain ⟨ids, hpy, hcpp⟩ := hshared.ids i.method (List.mem_of_getElem? hi.call.method)
  have hargs := encodeArgs_agree hshared.loads hi.call.args hi.agrees hreq
  refine ⟨ids.1, ids.2, req, ?_, hlen, ?_⟩
  · simp only [request, hreq, hpy]
    rfl
  · obtain ⟨hservice, hmethod, -⟩ := Cpp.dispatchPair_eq_some_iff.mp hcpp
    have hs : s.serviceId layout ns i.method.isStream = some ids.1 := hservice
    have hm : s.methodId layout ns i.method = some ids.2 := hmethod
    rw [Invocation.op, ServiceDef.request, hargs, hs, hm]
    rfl

/-- The method runs once, and nothing but its reply is sent. -/
theorem serve_alone (hreg : s.Registered layout ns depth impl env)
    (hok : SendsOk env (.transport tp)) (hun : Unsubscribed tp rt) (hi : i.Of s ns depth) {op : Op}
    (hop : i.op s layout ns = .ok op) (hb : Compiler.Behaves ns depth impl i rt.user)
    (seq : UInt32) :
    ∃ rt' m, (clientStep env (op.message seq) tp).run rt = .ok .stay rt' ∧
      rt'.user = (impl.method i.pos i.args rt.user).state ∧ Unsubscribed tp rt' ∧
      arrived tp rt rt' = [m] ∧
      (∀ w, (ServiceDef.serve ns impl i.method i.pos i.args rt.user).out = .ok w →
        m = createResultMessage seq w) ∧
      ∀ e, (ServiceDef.serve ns impl i.method i.pos i.args rt.user).out = .error e →
        createErrorMessage seq .unknownMethod e.what = .ok m := by
  obtain ⟨rt', hsilent, huser, hcallback⟩ := @runCallback_silent _ _ env tp rt _
    (ServiceDef.serve ns impl i.method i.pos i.args) hun
  have hthrown : ∀ e, (ServiceDef.serve ns impl i.method i.pos i.args rt.user).out = .error e →
      e.Reported := by
    intro e he
    rcases hb.response with ⟨v, w, -, hw, -⟩ | ⟨e', -, he', hreported⟩
    · cases hw.symm.trans he
    · cases he'.symm.trans he
      exact hreported
  obtain ⟨m, hrun, hresult, herror⟩ := tryReply_sends hok hcallback hthrown seq .unknownMethod
  refine ⟨rt'.put (.transport tp) m, m,
    clientStep_handled ((hreg.handleMessage hi hop rt).trans hrun),
    huser.trans (ServiceDef.serve_next rt.user).1, hsilent.unsubscribed hun,
    hsilent.arrived_put m, hresult, herror⟩

/-- What was returned is what is read of the response. -/
theorem resultOf_sent (hshared : Shared s layout ns) (hm : i.method ∈ s.methods) {user : σ}
    (hb : Behaves ns depth impl i user) {v : Option Val} {w : Bytes}
    (hv : (impl.method i.pos i.args user).out = .ok v)
    (hsent : i.method.isVoid ∨ ∃ x, v = some x ∧ Fits ns depth i.method.returnType x ∧
      encodeAs ns i.method.returnType x = .ok w) :
    resultOf ns depth i.method (.ofBytes w) = .ok (if i.method.isVoid then none else v) := by
  rw [resultOf]
  by_cases hvoid : i.method.isVoid
  · rw [if_pos hvoid, if_pos hvoid]
  · obtain ⟨x, rfl, hfit, hx⟩ := hsent.resolve_left hvoid
    obtain ⟨hagree, hutf8⟩ := hb.agrees x hv hvoid
    have hencode : encodeVal ns (encodeCall i.method.returnType) x = .ok w := by
      unfold encodeAs at hx
      cases hval : encodeVal ns (encodeCall i.method.returnType) x with
      | error e =>
        rw [hval] at hx
        cases hx
      | ok w' =>
        rw [hval] at hx
        cases hx
        rfl
    have hread := (hagree.2 (hshared.builds _ hm hvoid) hutf8 w hencode).2 depth hfit.depth [] []
    rw [List.append_nil, ← Buffer.ofBytes_eq_cut] at hread
    rw [if_neg hvoid, if_neg hvoid, hread]

/-- The reply is read, and the program is told what the method returned or threw. -/
theorem Net.answer_reply (hshared : Shared s layout ns) (hm : i.method ∈ s.methods) {user : σ}
    (hb : Behaves ns depth impl i user) {t : Net σ ω} {seq : UInt32} {m : Bytes}
    (hholds : t.caller.Holds m)
    (hresult : ∀ w, (ServiceDef.serve ns impl i.method i.pos i.args user).out = .ok w →
      m = createResultMessage seq w)
    (herror : ∀ e, (ServiceDef.serve ns impl i.method i.pos i.args user).out = .error e →
      createErrorMessage seq .unknownMethod e.what = .ok m) :
    ∃ sock, Feed.data sock.arrivals = [] ∧ Net.answer ns depth t i seq.toNat =
      Net.tell { t with caller := { t.caller with socket := some sock } } i
        (direct impl i user).2 := by
  rcases hb.sent.response with ⟨v, w, hv, hw, hlen, hsent⟩ | ⟨e, hthrown, he, hreported⟩
  · rw [hresult w hw] at hholds
    obtain ⟨sock, hempty, hrun⟩ := PyConnection.response_result hholds hlen
    refine ⟨sock, hempty, ?_⟩
    rw [Net.answer, hrun, direct, hv]
    exact congrArg (fun r => Net.tell _ i (r.mapError .code)) (resultOf_sent hshared hm hb hv hsent)
  · obtain ⟨sock, hempty, hrun⟩ := PyConnection.response_error (herror e he) hholds hreported.2
    refine ⟨sock, hempty, ?_⟩
    rw [Net.answer, hrun, direct, hthrown]
    rfl

/-- A call runs the method once and is told of it, whatever the pieces its reply comes in. -/
theorem Net.step_call (hreg : s.Registered layout ns depth impl env)
    (hok : SendsOk env (.transport tp)) (hshared : Shared s layout ns) {t t' : Net σ ω}
    (hready : t.caller.Ready) (hun : Unsubscribed tp t.rt) {pieces : List (Feed.Arrival UInt8)}
    (hl : Proper s ns depth impl tp t (.call i pieces))
    (hs : t.step s ns depth env tp (.call i pieces) = some t') :
    t'.rt.user = (direct impl i t.rt.user).1 ∧
      t'.told = t.told ++ [(i, (direct impl i t.rt.user).2)] ∧ t'.caller.Ready ∧
      Unsubscribed tp t'.rt := by
  obtain ⟨hi, hseq, hb⟩ := hl
  obtain ⟨serviceId, methodId, req, hreq, hlen, hop⟩ := request_agree hshared hi
  let seq : UInt32 := .ofNat (t.caller.sequenceId + 1)
  have hnumber : t.caller.sequenceId + 1 = seq.toNat :=
    (UInt32.toNat_ofNat_of_lt' hseq).symm
  obtain ⟨left, hleft, hsend⟩ := PyConnection.request_run hready hnumber serviceId methodId hlen
  obtain ⟨rt', m, hserve, huser, hun', harr, hresult, herror⟩ :=
    serve_alone hreg hok hun hi.call hop hb.sent seq
  have hmessage : (Op.call serviceId methodId req).message seq =
      createCallMessage seq serviceId methodId req := rfl
  rw [hmessage] at hserve
  simp only [Net.step, hreq, hsend, List.drop_left, hserve] at hs
  split at hs
  case isFalse => cases hs
  case isTrue hdata =>
    cases hs
    rw [harr, List.flatten_singleton] at hdata
    obtain ⟨sock₀, hsock₀, hempty₀⟩ := hready.socket
    let u : Net σ ω :=
      { caller := meet { t.caller with
          sequenceId := seq.toNat
          sends := left
          written := t.caller.written ++ createCallMessage seq serviceId methodId req } pieces
        rt := rt'
        told := t.told }
    have hholds : u.caller.Holds m := by
      refine ⟨_, congrArg (Option.map _) hsock₀, ?_⟩
      rw [Feed.data_append, hempty₀, hdata, List.nil_append]
    obtain ⟨sock, hempty, hanswer⟩ := Net.answer_reply hshared
      (List.mem_of_getElem? hi.call.method) hb hholds hresult herror
    have hu : Net.answer ns depth u i seq.toNat = _ := hanswer
    rw [hu]
    exact ⟨huser, rfl, ⟨hready.connected, ⟨sock, rfl, hempty⟩, hleft⟩, hun'⟩

/-! ## Runs -/

/-- The calls from afar behind what happens. -/
def Label.afar : Label σ ω → List (Remote.Label σ Invocation Empty)
  | .call i _ => [.call i, .run, .tell]
  | .elsewhere rt => [.others rt.user]

theorem Label.afar_undisturbed {ls : List (Label σ ω)} (h : ∀ l ∈ ls, ¬ l.IsElsewhere) :
    ∀ a ∈ ls.flatMap Label.afar, ¬ a.IsOthers := by
  intro a ha
  obtain ⟨l, hl, hal⟩ := List.mem_flatMap.mp ha
  cases l with
  | call i pieces =>
    simp only [Label.afar, List.mem_cons, List.not_mem_nil, or_false] at hal
    rcases hal with rfl | rfl | rfl <;> exact id
  | elsewhere rt => exact absurd trivial (h _ hl)

end

/-! ### A meter -/

open Meter

theorem builds_u8 : CppBuilds meterNs Dimmer.u8 :=
  ⟨⟨PrimitiveType.noConfusion, rfl⟩, fun _ hs => by cases hs⟩

theorem loads_meter : PyLoads meterNs := fun _ hs => by cases hs

theorem agrees_u8 (b : UInt8) : Agrees meterNs Dimmer.u8 (.u8 b) := by
  have hfits : CppFits meterNs Dimmer.u8 (.u8 b) :=
    ⟨0, by simp [HasType, BaseHas, PrimitiveType.Has, Dimmer.u8]⟩
  have hportable : Portable meterNs Dimmer.u8 (.u8 b) :=
    ⟨fun _ _ _ => ⟨builds_u8, hfits, trivial⟩,
      fun _ _ _ => ⟨loads_meter, trivial, trivial, trivial⟩⟩
  have htyped : PyTyped meterNs Dimmer.u8 := by
    intro u hu
    cases hu with
    | refl => exact PrimitiveType.noConfusion
    | field hb _ _ _ => cases hb
  have hapart : meterNs.NamesApart := by
    unfold Namespace.NamesApart Apart
    decide
  exact hportable.agrees htyped hapart (Dimmer.fits_u8 _ b).typed

theorem shared_meter : Shared meter .single meterNs where
  ids m hm := by
    cases List.mem_singleton.mp hm
    exact ⟨(1, 1), by decide +kernel, by decide +kernel⟩
  loads := loads_meter
  builds m hm _ := by
    cases List.mem_singleton.mp hm
    exact builds_u8

/-- A connection on which nothing was called, and whose socket takes little at a time. -/
def dialled : Caller where
  host := lit "localhost"
  port := 9000
  socket := some ⟨[], .closed⟩
  connected := true
  sequenceId := 0
  sends := [.took 16, .took 1]
  written := []

theorem ready_dialled : dialled.Ready where
  connected := rfl
  socket := ⟨_, rfl, rfl⟩
  takes := fun x hx => by
    simp only [dialled, List.mem_cons, List.not_mem_nil, or_false] at hx
    rcases hx with rfl | rfl
    · exact ⟨15, rfl⟩
    · exact ⟨0, rfl⟩

/-- The program calls `add(2)`, when the sum is 40, and the reply comes in two pieces. -/
def addTwo : Label UInt8 Unit :=
  .call ⟨add, 0, [.u8 2]⟩ [.piece 71 [78, 79, 83, 0, 3, 0], .interrupted,
    .piece 0 [1, 0, 0, 0, 1, 0, 0, 0, 42]]

theorem proper_addTwo :
    Proper meter meterNs 1 meterImpl 2 ⟨dialled, meterRt, []⟩ addTwo := by
  have hcall : (⟨add, 0, [.u8 2]⟩ : Invocation).Of meter meterNs 1 :=
    ⟨rfl, rfl, .cons (Dimmer.fits_u8 _ _) .nil⟩
  refine ⟨⟨hcall, .cons (agrees_u8 2) .nil, [2], rfl, ?_⟩, by decide, behaves_meter hcall 40, ?_⟩
  · exact Nat.le_trans (Nat.le_refl 1) (by decide)
  · intro v hv _
    cases hv
    exact ⟨agrees_u8 42, trivial⟩

end Song.Compiler.PyProxy
