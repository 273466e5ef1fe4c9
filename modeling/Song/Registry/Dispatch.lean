import Song.Buffer.Primitives
import Song.Registry
import Song.Registry.Client
import Song.Transport

/-!
# The registry over a connection (`registry.cpp`: `RegistryClient`, `dispatch_Registry`)

Every operation of the registry is written down four times: the client's method encodes a request
and decodes a reply, the dispatcher decodes the request and encodes the reply. Here a client is
connected to a server that runs the dispatcher, so that an operation of the client's is one of the
implementation's.
-/

namespace Song

open Cursor (Reads)

namespace ServiceInfo

def encode (info : ServiceInfo) : Except Exn Bytes := do
  let name ← encodeString info.name
  let host ← encodeString info.host
  return name ++ (host ++ encodeU16 info.port)

def decode : Dec ServiceInfo := do
  let name ← decodeString
  let host ← decodeString
  let port ← decodeU16
  return ⟨name, host, port⟩

end ServiceInfo

def kMethodRegister : UInt16 := 1
def kMethodUnregister : UInt16 := 2
def kMethodDiscover : UInt16 := 3
def kMethodListAll : UInt16 := 4
def kMethodHeartbeat : UInt16 := 5

/-! ## The server's side -/

/-- An implementation of the registry, on a state of its own. -/
structure IRegistry (σ : Type) where
  registerService : ServiceInfo → EStateM Exn σ Bool
  unregisterService : Str → EStateM Exn σ Bool
  discover : Str → EStateM Exn σ ServiceInfo
  listAll : EStateM Exn σ (List ServiceInfo)
  heartbeat : Str → EStateM Exn σ Bool

def encodeAnswer (result : Bool) : Except Exn Bytes := .ok (encodeU8 (if result then 1 else 0))

def encodeServices (services : List ServiceInfo) : Except Exn Bytes := do
  let infos ← Cursor.each ServiceInfo.encode services
  return encodeU32 (UInt32.ofNat services.length) ++ infos

section
variable {α β σ : Type} (impl : IRegistry σ)

/-- A case of the dispatcher: decode the arguments, run the operation, encode its result. -/
def handle (decode : Dec α) (operation : α → EStateM Exn σ β) (encode : β → Except Exn Bytes)
    (request : Buffer) : EStateM Exn σ Bytes :=
  decodeThen decode request fun args _ => do
    let result ← operation args
    MonadExcept.ofExcept (encode result)

/-- The response payload. -/
def dispatchRegistry (methodId : UInt16) : Buffer → EStateM Exn σ Bytes :=
  if methodId = kMethodRegister then
    handle ServiceInfo.decode impl.registerService encodeAnswer
  else if methodId = kMethodUnregister then
    handle decodeString impl.unregisterService encodeAnswer
  else if methodId = kMethodDiscover then
    handle decodeString impl.discover ServiceInfo.encode
  else if methodId = kMethodListAll then
    handle (pure ()) (fun _ => impl.listAll) encodeServices
  else if methodId = kMethodHeartbeat then
    handle decodeString impl.heartbeat encodeAnswer
  else fun _ => throw (.protocolError (lit "Unknown registry method: " ++ toStr methodId.toNat))

/-- What a TCP connection delivers of the bytes that were sent. -/
def overTcp (sent : Bytes) : Received :=
  (StreamTransport.tcp.receive sent).map (Option.map Prod.fst)

/-- A turn of a server's loop: what it sends back. Where it does not get to a result it sends
nothing, and an exception ends the connection. -/
def serve (sent : Bytes) (s : σ) : Option Bytes × σ :=
  match overTcp sent with
  | .error _ | .ok none => (none, s)
  | .ok (some msg) =>
    match decodeHeader.run (.ofBytes msg) with
    | .error _ _ => (none, s)
    | .ok hdr rest =>
      if hdr.type ≠ .call then (none, s)
      else
        match decodeMethodCallHeader.run rest with
        | .error _ _ => (none, s)
        | .ok (serviceId, methodId) request =>
          if serviceId ≠ RegistryClient.kServiceRegistry then (none, s)
          else
            match (dispatchRegistry impl methodId request).run s with
            | .ok response s' => (some (createResultMessage hdr.sequenceId response), s')
            | .error _ s' => (none, s')

end

/-! ## The client's side -/

namespace RegistryClient

def decodeAnswer : Dec Bool := do
  return (← decodeU8) != 0

def decodeServices : Dec (List ServiceInfo) := do
  let count ← decodeU32
  Cursor.many count.toNat ServiceInfo.decode

section
variable {α τ : Type} (call : UInt16 → Bytes → EStateM Exn τ (Option Bytes))

/-- Encode the request, call, and decode the response; `failed` is returned when `call` is
false. -/
def ask (methodId : UInt16) (request : Except Exn Bytes) (failed : α) (decode : Dec α) :
    EStateM Exn τ α := do
  let request ← MonadExcept.ofExcept request
  match ← call methodId request with
  | none => return failed
  | some response => decodeThen decode (.ofBytes response) fun result _ => return result

def registerService (info : ServiceInfo) : EStateM Exn τ Bool :=
  ask call kMethodRegister info.encode false decodeAnswer

def unregisterService (name : Str) : EStateM Exn τ Bool :=
  ask call kMethodUnregister (encodeString name) false decodeAnswer

def discover (name : Str) : EStateM Exn τ ServiceInfo :=
  ask call kMethodDiscover (encodeString name) {} ServiceInfo.decode

def listAll : EStateM Exn τ (List ServiceInfo) :=
  ask call kMethodListAll (.ok []) [] decodeServices

def heartbeat (name : Str) : EStateM Exn τ Bool :=
  ask call kMethodHeartbeat (encodeString name) false decodeAnswer

end

/-- A peer that can be reached, takes the request and answers this. -/
def answering (reply : Option Bytes) : RegistryPeer :=
  ⟨none, fun _ => none, fun _ => match reply with
    | none => .ok none
    | some bytes => overTcp bytes⟩

instance (c : RegistryClient) (peer : RegistryPeer) : Decidable (c.CanCall peer) :=
  inferInstanceAs (Decidable (_ ∨ _))

/-- A call of a client that is connected to a server, or can be: the server gets the request, and
the client what the server answers. -/
def callServed {σ : Type} (impl : IRegistry σ) (methodId : UInt16) (args : Bytes) :
    EStateM Exn (RegistryClient × σ) (Option Bytes) := fun (c, s) =>
  let (reply, s') := serve impl (c.request methodId args) s
  -- Without a connection nothing is sent.
  let s' := if c.CanCall (answering reply) then s' else s
  match (call (answering reply) methodId args).run c with
  | .ok response c' => .ok response (c', s')
  | .error e c' => .error e (c', s')

end RegistryClient

/-! ## Operations -/

namespace MemoryRegistry.Operation

/-- What the operation returns. -/
def Answer : Operation → Type
  | registerService _ | unregisterService _ | heartbeat _ => Bool
  | discover _ => ServiceInfo
  | listAll => List ServiceInfo

/-- On an implementation. -/
def perform {σ : Type} (impl : IRegistry σ) : (op : Operation) → EStateM Exn σ op.Answer
  | registerService info => impl.registerService info
  | unregisterService name => impl.unregisterService name
  | discover name => impl.discover name
  | listAll => impl.listAll
  | heartbeat name => impl.heartbeat name

/-- With the method of a client. -/
def request {τ : Type} (call : UInt16 → Bytes → EStateM Exn τ (Option Bytes)) :
    (op : Operation) → EStateM Exn τ op.Answer
  | registerService info => RegistryClient.registerService call info
  | unregisterService name => RegistryClient.unregisterService call name
  | discover name => RegistryClient.discover call name
  | listAll => RegistryClient.listAll call
  | heartbeat name => RegistryClient.heartbeat call name

/-- Its strings can be encoded. -/
def Short : Operation → Prop
  | registerService info => info.name.length ≤ kMaxStringSize ∧ info.host.length ≤ kMaxStringSize
  | unregisterService name | discover name | heartbeat name => name.length ≤ kMaxStringSize
  | listAll => True

def methodId : Operation → UInt16
  | registerService _ => kMethodRegister
  | unregisterService _ => kMethodUnregister
  | discover _ => kMethodDiscover
  | listAll => kMethodListAll
  | heartbeat _ => kMethodHeartbeat

def encodeRequest : Operation → Except Exn Bytes
  | registerService info => info.encode
  | unregisterService name | discover name | heartbeat name => encodeString name
  | listAll => .ok []

def encodeReply : (op : Operation) → op.Answer → Except Exn Bytes
  | registerService _, result | unregisterService _, result | heartbeat _, result =>
    encodeAnswer result
  | discover _, info => info.encode
  | listAll, services => encodeServices services

end MemoryRegistry.Operation

/-! ## What is encoded is decoded -/

theorem encodeString_ok {s : Str} (h : s.length ≤ kMaxStringSize) :
    encodeString s = .ok (encodeU32 (UInt32.ofNat s.length) ++ s) := by
  rw [encodeString, if_neg (by omega)]

theorem ServiceInfo.encode_ok_iff {info : ServiceInfo} {w : Bytes} :
    info.encode = .ok w ↔ ∃ name host, encodeString info.name = .ok name ∧
      encodeString info.host = .ok host ∧ w = name ++ (host ++ encodeU16 info.port) := by
  rw [encode]
  cases hname : encodeString info.name with
  | error e => exact iff_of_false (fun h => by cases h) fun ⟨_, _, h, _⟩ => by cases h
  | ok name =>
    cases hhost : encodeString info.host with
    | error e => exact iff_of_false (fun h => by cases h) fun ⟨_, _, _, h, _⟩ => by cases h
    | ok host =>
      constructor
      · intro h
        cases h
        exact ⟨name, host, rfl, rfl, rfl⟩
      · rintro ⟨_, _, hn, hh, rfl⟩
        cases hn
        cases hh
        rfl

theorem ServiceInfo.reads_decode {info : ServiceInfo} {w : Bytes} (h : info.encode = .ok w) :
    Reads Buffer.cut decode w info := by
  obtain ⟨name, host, hname, hhost, rfl⟩ := encode_ok_iff.mp h
  exact (reads_decodeString hname).bind ((reads_decodeString hhost).bind
    ((reads_decodeU16 info.port).map fun port => (⟨info.name, info.host, port⟩ : ServiceInfo)))

theorem reads_decodeAnswer {result : Bool} {w : Bytes} (h : encodeAnswer result = .ok w) :
    Reads Buffer.cut RegistryClient.decodeAnswer w result := by
  cases h
  have hreads := (reads_decodeU8 (if result then 1 else 0)).map (· != 0)
  cases result <;> exact hreads

theorem encodeServices_ok_iff {services : List ServiceInfo} {w : Bytes} :
    encodeServices services = .ok w ↔ ∃ infos,
      Cursor.each ServiceInfo.encode services = .ok infos ∧
        w = encodeU32 (UInt32.ofNat services.length) ++ infos := by
  rw [encodeServices]
  cases hinfos : Cursor.each ServiceInfo.encode services with
  | error e => exact iff_of_false (fun h => by cases h) fun ⟨_, h, _⟩ => by cases h
  | ok infos =>
    constructor
    · intro h
      cases h
      exact ⟨infos, rfl, rfl⟩
    · rintro ⟨_, hw, rfl⟩
      cases hw
      rfl

/-- A service takes ten bytes at least. -/
theorem length_each_encode {services : List ServiceInfo} {infos : Bytes}
    (h : Cursor.each ServiceInfo.encode services = .ok infos) : services.length ≤ infos.length := by
  induction services generalizing infos with
  | nil => exact Nat.zero_le _
  | cons info services ih =>
    obtain ⟨w, ws, hw, hws, rfl⟩ := Cursor.each_cons_ok_iff.mp h
    obtain ⟨name, host, -, -, rfl⟩ := ServiceInfo.encode_ok_iff.mp hw
    have hle := ih hws
    simp only [List.length_cons, List.length_append, length_encodeU16]
    omega

/-- The count is that of the services when the reply fits one message. -/
theorem reads_decodeServices {services : List ServiceInfo} {w : Bytes}
    (h : encodeServices services = .ok w) (hmax : w.length ≤ kMaxPayloadSize) :
    Reads Buffer.cut RegistryClient.decodeServices w services := by
  obtain ⟨infos, hinfos, rfl⟩ := encodeServices_ok_iff.mp h
  have hle := length_each_encode hinfos
  simp only [List.length_append, kMaxPayloadSize] at hmax
  refine (reads_decodeU32 (UInt32.ofNat services.length)).bind ?_
  rw [toNat_count (by omega)]
  exact .many (fun info _ _ hw => ServiceInfo.reads_decode hw) hinfos

/-! ## The dispatcher -/

section
variable {α β σ : Type}

theorem handle_cut {decode : Dec α} {operation : α → EStateM Exn σ β}
    {encode : β → Except Exn Bytes} {args : α} {w : Bytes} (h : Reads Buffer.cut decode w args)
    (pre : Bytes) : handle decode operation encode (.cut pre w) = (do
      let result ← operation args
      MonadExcept.ofExcept (encode result)) := by
  have hrun := h pre []
  rw [List.append_nil] at hrun
  rw [handle, decodeThen_ok hrun]

/-- On the payload of its request, the dispatcher performs the operation. -/
theorem dispatchRegistry_request (impl : IRegistry σ) {op : MemoryRegistry.Operation} {w : Bytes}
    (h : op.encodeRequest = .ok w) (pre : Bytes) :
    dispatchRegistry impl op.methodId (.cut pre w) = (do
      let result ← op.perform impl
      MonadExcept.ofExcept (op.encodeReply result)) := by
  cases op with
  | registerService info => exact handle_cut (ServiceInfo.reads_decode h) pre
  | unregisterService name => exact handle_cut (reads_decodeString h) pre
  | discover name => exact handle_cut (reads_decodeString h) pre
  | listAll =>
    cases h
    have hcase : handle (pure ()) (fun _ => impl.listAll) encodeServices (.cut pre []) = _ :=
      handle_cut (.pure ()) pre
    exact hcase
  | heartbeat name => exact handle_cut (reads_decodeString h) pre

end

/-! ## The connection -/

/-- A message of a size that is allowed comes through. -/
theorem overTcp_message (type : MsgType) (seq : UInt32) {payload : Bytes}
    (h : payload.length ≤ kMaxPayloadSize) :
    overTcp (createMessage type seq payload) = .ok (some (createMessage type seq payload)) := by
  have hsize : (message type seq payload).hdr.payloadSize.toNat = payload.length := by
    simp only [kMaxPayloadSize] at h
    exact toNat_count (by omega)
  have hreceive := StreamTransport.receive_bytes .tcp hsize h []
  rw [List.append_nil] at hreceive
  rw [overTcp, createMessage, hreceive]
  rfl

theorem MemoryRegistry.Operation.Short.encodeRequest {op : Operation} (h : op.Short) :
    ∃ w, op.encodeRequest = .ok w ∧ w.length + 4 ≤ kMaxPayloadSize := by
  have hstring : ∀ {s : Str}, s.length ≤ kMaxStringSize →
      ∃ w, encodeString s = .ok w ∧ w.length ≤ 4 + kMaxStringSize := fun {s} hs => by
    refine ⟨_, encodeString_ok hs, ?_⟩
    rw [List.length_append, length_encodeU32]
    omega
  have hname : ∀ {s : Str}, s.length ≤ kMaxStringSize →
      ∃ w, encodeString s = .ok w ∧ w.length + 4 ≤ kMaxPayloadSize := fun hs => by
    obtain ⟨w, hw, hlength⟩ := hstring hs
    simp only [kMaxStringSize, kMaxPayloadSize] at hlength ⊢
    exact ⟨w, hw, by omega⟩
  cases op with
  | registerService info =>
    obtain ⟨name, hname, hlname⟩ := hstring h.1
    obtain ⟨host, hhost, hlhost⟩ := hstring h.2
    refine ⟨_, ServiceInfo.encode_ok_iff.mpr ⟨name, host, hname, hhost, rfl⟩, ?_⟩
    simp only [List.length_append, length_encodeU16, kMaxStringSize, kMaxPayloadSize] at hlname hlhost ⊢
    omega
  | unregisterService name => exact hname h
  | discover name => exact hname h
  | listAll => exact ⟨[], rfl, by decide⟩
  | heartbeat name => exact hname h

section
variable {σ : Type} {impl : IRegistry σ} {c : RegistryClient} {methodId : UInt16} {args : Bytes}

/-- The server runs the dispatcher on the payload behind the ids. -/
theorem serve_request (h : args.length + 4 ≤ kMaxPayloadSize) (s : σ) :
    ∃ pre, serve impl (c.request methodId args) s =
      match (dispatchRegistry impl methodId (.cut pre args)).run s with
      | .ok response s' => (some (createResultMessage (c.sequenceId + 1) response), s')
      | .error _ s' => (none, s') := by
  let payload := encodeMethodCall RegistryClient.kServiceRegistry methodId args
  have hlength : payload.length ≤ kMaxPayloadSize := by
    simp only [payload, encodeMethodCall, List.length_append, length_encodeU16]
    omega
  have hover := overTcp_message .call (c.sequenceId + 1) hlength
  have hheader := (message .call (c.sequenceId + 1) payload).decodeHeader_bytes
  obtain ⟨pre, hids⟩ := @decodeMethodCallHeader_cut
    (encodeHeader (message .call (c.sequenceId + 1) payload).hdr)
    RegistryClient.kServiceRegistry methodId args
  have hids' : decodeMethodCallHeader.run
      (.cut (encodeHeader (message .call (c.sequenceId + 1) payload).hdr)
        (message .call (c.sequenceId + 1) payload).payload) = _ := hids
  refine ⟨pre, ?_⟩
  rw [serve, RegistryClient.request, createCallMessage, hover]
  dsimp only
  rw [createMessage, hheader]
  dsimp only
  rw [if_neg (fun h => h rfl), hids']
  dsimp only
  rw [if_neg (fun h => h rfl)]
  rfl

namespace RegistryClient

theorem callServed_run (hcan : c.CanCall (answering none)) {s s' : σ} {reply : Option Bytes}
    (hserve : serve impl (c.request methodId args) s = (reply, s')) :
    (callServed impl methodId args).run (c, s) =
      match (call (answering reply) methodId args).run c with
      | .ok response c' => .ok response (c', s')
      | .error e c' => .error e (c', s') := by
  have hcan' : c.CanCall (answering reply) := hcan
  simp only [EStateM.run, callServed, hserve, if_pos hcan']

/-- The call leaves the server as it is when it has served the request. -/
theorem after_callServed (hcan : c.CanCall (answering none)) (s : σ) :
    (Eff.after (callServed impl methodId args) (c, s)).2 =
      (serve impl (c.request methodId args) s).2 := by
  cases hserve : serve impl (c.request methodId args) s with
  | mk reply s' =>
    have hrun := callServed_run hcan hserve
    cases hcall : (call (answering reply) methodId args).run c with
    | ok response c' =>
      rw [hcall] at hrun
      rw [Eff.after_ok hrun]
    | error e c' =>
      rw [hcall] at hrun
      rw [Eff.after_error hrun]

theorem callServed_answered (hcan : c.CanCall (answering none)) {s s' : σ} {response : Bytes}
    (hserve : serve impl (c.request methodId args) s =
      (some (createResultMessage (c.sequenceId + 1) response), s'))
    (hmax : response.length ≤ kMaxPayloadSize) :
    ∃ c', (callServed impl methodId args).run (c, s) = .ok (some response) (c', s') := by
  have hanswers : c.Answers (answering (some (createResultMessage (c.sequenceId + 1) response)))
      methodId args response :=
    ⟨hcan, rfl, hmax, overTcp_message .result (c.sequenceId + 1) hmax⟩
  obtain ⟨c', hcall⟩ := call_answered hanswers
  refine ⟨c', ?_⟩
  rw [callServed_run hcan hserve, hcall]

end RegistryClient

end

namespace RegistryClient

variable {α τ : Type} {call : UInt16 → Bytes → EStateM Exn τ (Option Bytes)}
  {methodId : UInt16} {request : Except Exn Bytes} {failed : α} {decode : Dec α} {w : Bytes}

/-- What the response is made into. -/
def receive (failed : α) (decode : Dec α) : Option Bytes → EStateM Exn τ α
  | none => return failed
  | some response => decodeThen decode (.ofBytes response) fun result _ => return result

theorem ask_ok (w : Bytes) : ask call methodId (.ok w) failed decode =
    call methodId w >>= receive failed decode := rfl

theorem ask_answered (hrequest : request = .ok w) {t t' : τ} {response : Bytes}
    (hcall : (call methodId w).run t = .ok (some response) t') {result : α}
    (hreads : Reads Buffer.cut decode response result) :
    (ask call methodId request failed decode).run t = .ok result t' := by
  have hdecode := hreads [] []
  rw [List.append_nil, ← Buffer.ofBytes_eq_cut] at hdecode
  rw [hrequest, ask_ok, Eff.run_bind_ok hcall, receive, decodeThen_ok hdecode]
  rfl

/-- Decoding the response changes nothing outside. -/
theorem after_ask (hrequest : request = .ok w) (t : τ) :
    Eff.after (ask call methodId request failed decode) t = Eff.after (call methodId w) t := by
  rw [hrequest, ask_ok]
  cases hcall : (call methodId w).run t with
  | error e t' => rw [Eff.after_error (Eff.run_bind_error hcall), Eff.after_error hcall]
  | ok received t' =>
    rw [Eff.after_congr (Eff.run_bind_ok hcall), Eff.after_ok hcall]
    cases received with
    | none => rfl
    | some response =>
      rw [receive]
      cases hdecode : decode.run (.ofBytes response) with
      | ok result rest =>
        rw [decodeThen_ok hdecode]
        rfl
      | error e rest =>
        rw [decodeThen_error hdecode]
        rfl

end RegistryClient

/-! ## Operations over the connection -/

namespace MemoryRegistry.Operation

section
variable {τ : Type} {call : UInt16 → Bytes → EStateM Exn τ (Option Bytes)} {op : Operation}
  {w : Bytes}

theorem request_answered (hrequest : op.encodeRequest = .ok w) {t t' : τ} {response : Bytes}
    (hcall : (call op.methodId w).run t = .ok (some response) t') {result : op.Answer}
    (hreply : op.encodeReply result = .ok response) (hmax : response.length ≤ kMaxPayloadSize) :
    (op.request call).run t = .ok result t' := by
  cases op with
  | registerService info =>
    exact RegistryClient.ask_answered hrequest hcall (reads_decodeAnswer hreply)
  | unregisterService name =>
    exact RegistryClient.ask_answered hrequest hcall (reads_decodeAnswer hreply)
  | discover name =>
    exact RegistryClient.ask_answered hrequest hcall (ServiceInfo.reads_decode hreply)
  | listAll =>
    exact RegistryClient.ask_answered hrequest hcall (reads_decodeServices hreply hmax)
  | heartbeat name =>
    exact RegistryClient.ask_answered hrequest hcall (reads_decodeAnswer hreply)

theorem after_request (hrequest : op.encodeRequest = .ok w) (t : τ) :
    Eff.after (op.request call) t = Eff.after (call op.methodId w) t := by
  cases op <;> exact RegistryClient.after_ask hrequest t

end

/-- A registry that keeps what it is told, and forgets nothing. -/
def keeper : IRegistry (List ServiceInfo) where
  registerService info := modifyGet fun s => (true, info :: s)
  unregisterService _ := return false
  discover name := return ((← get).find? (·.name == name)).getD {}
  listAll := get
  heartbeat name := return (← get).any (·.name == name)

end MemoryRegistry.Operation

end Song
