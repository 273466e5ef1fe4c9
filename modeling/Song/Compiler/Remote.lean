import Song.Compiler.ClassProperties
import Song.Compiler.ServiceCalls
import Song.Session.Facade

/-!
# A service behind its proxy

A client calls the methods of a service through the generated proxy, over a connection that the
runtime serves, while other clients use the same service and notifications arrive. Seen through
the proxy the service is the implementation itself, called from afar (`Remote.step`): each call
runs the method once, on the arguments the proxy was given, and the client is told what it
returned, or what it threw.
-/

namespace Song

namespace Compiler

/-! ## Calls of the service -/

/-- A method with the arguments it is called with. -/
structure Invocation where
  method : Method
  pos : Nat
  args : List Val

section
variable {σ : Type} (s : ServiceDef) (layout : Cpp.Layout) (ns : Namespace) (depth : Nat)
  (impl : ServiceImpl σ)

/-- It is one that a program with the proxy can make. -/
structure Invocation.Of (i : Invocation) : Prop where
  method : s.methods[i.pos]? = some i.method
  unary : i.method.isStream = false
  args : FitsAll ns depth i.method.params i.args

/-- What the proxy asks the connection for. -/
def Invocation.op (i : Invocation) : Except Exn Op :=
  (s.request layout ns i.method i.args).map fun r => .call r.1 r.2.1 r.2.2

/-- What the proxy's method returns or throws. -/
def proxied (m : Method) : Except Exn Value → Except Exn (Option Val)
  | .ok (.bytes b) => ServiceDef.resultOf ns depth m b
  | .ok (.ref _) => .error Fault.illFormed.exn
  | .error e => .error e

/-- What a client is told of a method that returned or threw. -/
def told (m : Method) : Except Exn (Option Val) → Except Exn (Option Val)
  | .ok v => .ok (if m.isVoid then none else v)
  | .error e => .error (.serviceError (lit "Service error (code 3): " ++ e.what))

/-- Call the implementation itself. -/
def direct (i : Invocation) (user : σ) : σ × Except Exn (Option Val) :=
  ((impl.method i.pos i.args user).state, told i.method (impl.method i.pos i.args user).out)

/-- What it pushes, returns and throws can be sent. -/
structure Behaves (i : Invocation) (user : σ) : Prop where
  pushed : ∀ p ∈ (impl.method i.pos i.args user).pushed, 12 + p.value.length ≤ kMaxPayloadSize
  returned : ∀ v, (impl.method i.pos i.args user).out = .ok v → i.method.isVoid ∨
    ∃ x w, v = some x ∧ Fits ns depth i.method.returnType x ∧
      encodeAs ns i.method.returnType x = .ok w ∧ w.length ≤ kMaxPayloadSize
  thrown : ∀ e, (impl.method i.pos i.args user).out = .error e → e.Reported

end

section
variable {σ ω : Type} {s : ServiceDef} {layout : Cpp.Layout} {ns : Namespace} {depth : Nat}
  {impl : ServiceImpl σ} {env : Env σ ω} {tp : TransportPtr} {rt : Rt σ ω} {seq : UInt32}
  {i : Invocation}

/-- The runtime has the service's dispatchers. -/
structure ServiceDef.Registered (s : ServiceDef) (layout : Cpp.Layout) (ns : Namespace)
    (depth : Nat) (impl : ServiceImpl σ) (env : Env σ ω) : Prop where
  program : s.IsProgram layout ns
  supported : s.Supported ns
  plain : ∀ id, s.serviceId layout ns false = some id → env.streamDispatchers.lookup id = none ∧
    env.dispatchers.lookup id = some (s.dispatch layout ns depth impl)
  streams : ∀ id, s.serviceId layout ns true = some id →
    env.streamDispatchers.lookup id = some (s.dispatchStream layout ns depth impl)

/-- The dispatcher returns what the method's result is sent as, or throws what the method threw. -/
theorem Behaves.response {user : σ} (hb : Behaves ns depth impl i user) :
    (∃ v w, (impl.method i.pos i.args user).out = .ok v ∧
        (ServiceDef.serve ns impl i.method i.pos i.args user).out = .ok w ∧
        w.length ≤ kMaxPayloadSize ∧ (i.method.isVoid ∨ ∃ x, v = some x ∧
          Fits ns depth i.method.returnType x ∧ encodeAs ns i.method.returnType x = .ok w)) ∨
      ∃ e, (impl.method i.pos i.args user).out = .error e ∧
        (ServiceDef.serve ns impl i.method i.pos i.args user).out = .error e ∧ e.Reported := by
  unfold ServiceDef.serve Ran.next
  cases hout : (impl.method i.pos i.args user).out with
  | error e => exact .inr ⟨e, rfl, rfl, hb.thrown e hout⟩
  | ok v =>
    dsimp only
    by_cases hvoid : i.method.isVoid
    · exact .inl ⟨v, [], rfl, if_pos hvoid, Nat.zero_le _, .inl hvoid⟩
    · obtain ⟨x, w, rfl, hfit, hw, hlen⟩ := (hb.returned v hout).resolve_left hvoid
      refine .inl ⟨some x, w, rfl, ?_, hlen, .inr ⟨x, rfl, hfit, hw⟩⟩
      rw [if_neg hvoid]
      exact hw

theorem ServiceDef.serve_next (user : σ) :
    (serve ns impl i.method i.pos i.args user).state = (impl.method i.pos i.args user).state ∧
      (serve ns impl i.method i.pos i.args user).pushed =
        (impl.method i.pos i.args user).pushed := by
  unfold serve Ran.next
  cases (impl.method i.pos i.args user).out with
  | error e => exact ⟨rfl, rfl⟩
  | ok v => exact ⟨rfl, List.append_nil _⟩

/-- What `handle_message` does with the call. -/
theorem ServiceDef.Registered.handleMessage (hreg : s.Registered layout ns depth impl env)
    (hi : i.Of s ns depth) {op : Op} (hop : i.op s layout ns = .ok op) (rt : Rt σ ω) :
    (Song.handleMessage env (op.frame seq).hdr (op.frame seq).body tp).run rt =
      (catchStd (callBody env seq (.transport tp)
          (ServiceDef.serve ns impl i.method i.pos i.args))
        fun e => sendError env (.transport tp) seq .unknownMethod e.what).run rt := by
  obtain ⟨serviceId, methodId, w, hreq, hid, hrun, -⟩ :=
    hreg.program.dispatch_request impl hreg.supported hi.method hi.args
  rw [hi.unary] at hid
  obtain ⟨hnostream, hdisp⟩ := hreg.plain serviceId hid
  rw [Invocation.op, hreq] at hop
  cases hop
  let f := Op.frame seq (.call serviceId methodId w)
  obtain ⟨pre, hd⟩ := decodeMethodCallHeader_cut (encodeHeader f.hdr) serviceId methodId w
  have hm : Song.handleMessage env f.hdr f.body tp = Song.handleCall env f.hdr
      (.cut (encodeHeader f.hdr) (encodeMethodCall serviceId methodId w)) (.transport tp) := rfl
  have hfun : (s.dispatch layout ns depth impl methodId (.cut pre w)) =
      ServiceDef.serve ns impl i.method i.pos i.args := funext fun user => hrun hi.unary pre user
  show (Song.handleMessage env f.hdr f.body tp).run rt = _
  rw [hm, Song.handleCall, decodeThen_ok hd]
  simp only [hnostream, hdisp]
  rw [hfun]
  rfl

theorem Invocation.op_call {op : Op} (hop : i.op s layout ns = .ok op) :
    ∃ serviceId methodId args, op = .call serviceId methodId args := by
  unfold Invocation.op at hop
  obtain ⟨r, -, rfl⟩ := Eff.map_ok_iff.mp hop
  exact ⟨r.1, r.2.1, r.2.2, rfl⟩

/-- The method runs once, and one message tells the client of it. -/
theorem ServiceDef.Registered.serve (hreg : s.Registered layout ns depth impl env)
    (hok : SendsOk env (.transport tp)) (hi : i.Of s ns depth) {op : Op}
    (hop : i.op s layout ns = .ok op) (hb : Behaves ns depth impl i rt.user) :
    ∃ rt' pre m, (clientStep env (op.message seq) tp).run rt = .ok .stay rt' ∧
      rt'.user = (direct impl i rt.user).1 ∧ arrived tp rt rt' = pre ++ [m] ∧
      (∀ x ∈ pre, IsNote x) ∧ IsReplyFrame seq m ∧
      proxied ns depth i.method (op.finish (.ofBytes m)) = (direct impl i rt.user).2 := by
  obtain ⟨hstate, hpushed⟩ := @ServiceDef.serve_next σ ns impl i rt.user
  obtain ⟨s', hnotes, huser, -, hcallback⟩ := runCallback_passes env
    (ServiceDef.serve ns impl i.method i.pos i.args) (by rw [hpushed]; exact hb.pushed)
  have hrun : ∃ m, (catchStd (callBody env seq (.transport tp)
        (ServiceDef.serve ns impl i.method i.pos i.args))
      fun e => sendError env (.transport tp) seq .unknownMethod e.what).run rt =
        .ok () (s'.put (.transport tp) m) ∧ IsReplyFrame seq m ∧
      proxied ns depth i.method (op.finish (.ofBytes m)) = (direct impl i rt.user).2 := by
    obtain ⟨serviceId, methodId, args, rfl⟩ := Invocation.op_call hop
    rcases hb.response with ⟨v, w, hv, hw, hlen, hsent⟩ | ⟨e, hthrown, he, hreported⟩
    · rw [hw] at hcallback
      obtain ⟨m, hrun, hreply, hfinish, -⟩ := tryReply_run hok hcallback
        (fun b hb => by cases hb; exact hlen) (fun _ he => by cases he) seq .unknownMethod
      refine ⟨m, hrun, hreply, ?_⟩
      rw [hfinish (.call serviceId methodId args) w (.bytes w) rfl rfl, direct, hv]
      show ServiceDef.resultOf ns depth i.method w = .ok (if i.method.isVoid then none else v)
      rw [ServiceDef.resultOf]
      rcases hsent with hvoid | ⟨x, rfl, hfit, hx⟩
      · rw [if_pos hvoid, if_pos hvoid]
      · by_cases hvoid : i.method.isVoid
        · rw [if_pos hvoid, if_pos hvoid]
        · obtain ⟨w', hcarry⟩ :=
            hfit.carries (hreg.supported.results _ (List.mem_of_getElem? hi.method) hvoid)
          cases hx.symm.trans hcarry.1
          rw [if_neg hvoid, if_neg hvoid, ServiceDef.valueOf_encoded hcarry]
          rfl
    · rw [he] at hcallback
      obtain ⟨m, hrun, hreply, -, hfinish⟩ := tryReply_run hok hcallback
        (fun _ hb => by cases hb) (fun _ he => by cases he; exact hreported) seq .unknownMethod
      refine ⟨m, hrun, hreply, ?_⟩
      rw [hfinish (.call serviceId methodId args) e rfl, direct, hthrown]
      rfl
  obtain ⟨m, hrun, hreply, hresult⟩ := hrun
  obtain ⟨pre, harr, hpre⟩ := arrived_put hnotes tp m
  exact ⟨_, pre, m, clientStep_handled ((hreg.handleMessage hi hop rt).trans hrun),
    huser.trans hstate, harr, hpre, hreply, hresult⟩

end

/-! ## Runs -/

section
variable {κ σ ω : Type} {s : ServiceDef} {layout : Cpp.Layout} {ns : Namespace} {depth : Nat}
  {impl : ServiceImpl σ} {env : Env σ ω} {tp : TransportPtr}

/-- A service, as the users of its proxy see it. -/
def ServiceDef.facade (s : ServiceDef) (layout : Cpp.Layout) (ns : Namespace) (depth : Nat)
    (impl : ServiceImpl σ) : Facade σ ω σ Invocation (Except Exn (Option Val)) where
  view := Rt.user
  asks i op := i.Of s ns depth ∧ i.op s layout ns = .ok op
  reads i := proxied ns depth i.method
  behaves i rt := Behaves ns depth impl i rt.user
  call := direct impl
  releases _ _ := False
  release _ user := user

theorem ServiceDef.Registered.served (hreg : s.Registered layout ns depth impl env)
    (hok : SendsOk env (.transport tp)) :
    (s.facade layout ns depth impl : Facade σ ω σ _ _).Served env tp where
  call seq rt := by
    rintro ⟨hi, hop⟩ hb
    exact hreg.serve hok hi hop hb
  release _ _ _ h := h.elim

/-- In every run in which the client uses the proxy, it is told what the calls from afar tell: each
call has run the method once, on its arguments. If nothing happens elsewhere, that is what calls
of the implementation in turn return. -/
theorem proxy_refines (hreg : s.Registered layout ns depth impl env)
    (hok : SendsOk env (.transport tp)) (propCallbacks : Map SubscriptionKey κ) (rt : Rt σ ω)
    (ls : List (NetLabel σ ω)) (t : Net κ σ ω)
    (h : Lts.Run (Net.step env tp) ((s.facade layout ns depth impl).Proper tp)
      (.init propCallbacks rt) ls t) :
    ∃ as a, (s.facade layout ns depth impl).Afar rt ls t as a :=
  (hreg.served hok).refines h

end

/-! ### A meter -/

namespace Meter

/-- `u8 add(u8 by)` -/
def add : Method where
  name := lit "add"
  params := [{ name := lit "by", type := Dimmer.u8 }]
  returnType := Dimmer.u8

def meter : ServiceDef := { name := lit "Meter", methods := [add] }

def meterNs : Namespace := { services := [meter] }

/-- The sum so far, which is returned. -/
def meterImpl : ServiceImpl UInt8 where
  method _ args sum :=
    match args with
    | [.u8 by'] => ⟨sum + by', [], .ok (some (.u8 (sum + by')))⟩
    | _ => .throw sum (.runtimeError [])
  stream _ _ sum := .returns sum

def meterEnv : Env UInt8 Unit where
  dispatchers := (∅ : Map _ _).insert 1 (meter.dispatch .single meterNs 1 meterImpl)
  streamDispatchers := ∅
  factories := ∅
  propGet _ s := .throw s (.runtimeError [])
  propSet _ _ s := .throw s (.runtimeError [])
  dispatch _ _ s := .throw s (.runtimeError [])
  methods := []
  localCapabilities := 0
  sendOutcome _ _ := none
  writeOutcome _ := true

def meterRt : Rt UInt8 Unit := ⟨.empty, ⟨∅⟩, 40, .empty, ∅, [], 0, []⟩

theorem registered_meter : meter.Registered .single meterNs 1 meterImpl meterEnv where
  program := by decide +kernel
  supported := by constructor <;> simp [meter, add, Dimmer.compilable_u8]
  plain id hid := by
    have hone : meter.serviceId .single meterNs false = some 1 := by decide +kernel
    cases hone.symm.trans hid
    exact ⟨rfl, AList.lookup_insert _⟩
  streams id hid := by
    have hnone : meter.serviceId .single meterNs true = none := by decide +kernel
    cases hnone.symm.trans hid

theorem u8_of_fits {v : Val} (h : Fits meterNs 1 Dimmer.u8 v) : ∃ b, v = .u8 b := by
  have ht := h.typed
  cases v <;> simp [HasType, BaseHas, PrimitiveType.Has, Dimmer.u8] at ht ⊢

theorem behaves_meter {i : Invocation} (hi : i.Of meter meterNs 1) (sum : UInt8) :
    Behaves meterNs 1 meterImpl i sum := by
  obtain ⟨method, pos, args⟩ := i
  obtain ⟨hm, -, hargs⟩ := hi
  cases pos with
  | zero =>
    cases hm
    cases hargs with
    | cons hfit hargs =>
      cases hargs
      obtain ⟨b, rfl⟩ := u8_of_fits hfit
      refine ⟨fun _ hp => (by cases hp), fun v hv => .inr ?_, fun _ he => by cases he⟩
      cases hv
      have hlen : ([sum + b] : Bytes).length ≤ kMaxPayloadSize :=
        Nat.le_trans (Nat.le_refl 1) (by decide)
      exact ⟨_, [sum + b], rfl, Dimmer.fits_u8 _ _, rfl, hlen⟩
  | succ n => cases hm

/-- `add(2)`, when the sum is 40. -/
theorem proxy_refines_add :
    ∃ t, Lts.follow (Net.step meterEnv 2) (Net.init (∅ : Map SubscriptionKey Unit) meterRt)
        [.ask (.call 1 1 [2]), .serve, .receive] = some t ∧
      t.sys.done.map (·.outcome) = [.ok (.bytes [42])] ∧
      ∃ as a, (meter.facade .single meterNs 1 meterImpl).Afar meterRt
        [.ask (.call 1 1 [2]), .serve, .receive] t as a := by
  have h : (Lts.follow (Net.step meterEnv 2) (Net.init (∅ : Map SubscriptionKey Unit) meterRt)
      [.ask (.call 1 1 [2]), .serve, .receive]).map (fun t => t.sys.done.map (·.outcome)) =
        some [.ok (.bytes [42])] := by decide +kernel
  obtain ⟨t, ht, hdone⟩ := Option.map_eq_some_iff.mp h
  refine ⟨t, ht, hdone, ?_⟩
  have hi : (⟨add, 0, [.u8 2]⟩ : Invocation).Of meter meterNs 1 :=
    ⟨rfl, rfl, .cons (Dimmer.fits_u8 _ _) .nil⟩
  have hop : (⟨add, 0, [.u8 2]⟩ : Invocation).op meter .single meterNs = .ok (.call 1 1 [2]) := by
    rfl
  have hrun : Lts.Run (Net.step meterEnv 2) ((meter.facade .single meterNs 1 meterImpl).Proper 2)
      (.init ∅ meterRt) _ t := Lts.Run.nil.follow (fun l hl u => by
    simp only [List.mem_cons, List.not_mem_nil, or_false] at hl
    rcases hl with rfl | rfl | rfl
    · exact ⟨_, hi, hop⟩
    · exact fun i _ _ _ hi _ _ => behaves_meter hi.1 _
    · trivial) ht
  exact proxy_refines registered_meter (fun _ => rfl) ∅ meterRt _ t hrun

end Meter

end Compiler

end Song
