import Song.Transport.Framing
import Song.Lib.Patience

/-!
# TLS call by call (`tls.cpp`)

A TLS transport sends and receives through a session of the TLS library, of which the model has how
its calls end. A wait that is too long ends a read wherever it is: in front of a message that is a
read timeout and the next call waits on; in a header the bytes that were read are gone, and in a
payload the transport is disconnected. So all that was sent is received exactly if no such wait
comes inside a message (`tls_delivers_iff`).
-/

namespace Song

namespace TlsTransport

open Patience (Arrival data delay LateAt)

inductive SslError where
  | timeout
  | closeNotify
  | other (code : Int)

/-- How reading ends behind all that arrives. -/
inductive Ending where
  /-- A read returns 0. -/
  | zero
  | closeNotify
  | failed (code : Int)

/-- The transport, the bytes it has written and those that will arrive. -/
structure Tls where
  connected : Bool
  handshakeDone : Bool
  written : Bytes
  arrivals : List (Arrival UInt8)
  ending : Ending
  /-- The `Buffer&` of `receive`. -/
  msg : Buffer

abbrev Call (α : Type) := EStateM Exn Tls α

def Tls.isConnected (s : Tls) : Bool := s.connected && s.handshakeDone

def disconnect : Call Unit := modify fun s => { s with connected := false }

section
variable (text : SslError → Str)

/-! ## Handshake and sending -/

/-- How a call of `mbedtls_ssl_handshake` ends. -/
inductive Shake where
  | want
  | failed (e : SslError)

/-- The loop of `handshake`; a call that is not listed completes it. -/
def shake : List Shake → Option SslError
  | [] => none
  | .want :: calls => shake calls
  | .failed e :: _ => some e

def handshake (calls : List Shake) : Call Unit := do
  if (← get).connected then
    match shake calls with
    | none => modify fun s => { s with handshakeDone := true }
    | some e =>
      disconnect
      throw (.securityError (lit "TLS handshake failed: " ++ text e))
  else throw (.securityError (lit "TLS handshake: not connected"))

/-- How a call of `mbedtls_ssl_write` ends. -/
inductive Write where
  | want
  | took (n : Nat)
  | failed (e : SslError)

def Write.Proceeds : Write → Prop
  | want | took _ => True
  | failed _ => False

/-- The loop of `send` on the bytes from the offset on; calls not listed take all there is. -/
def sendRest : List Write → Bytes → Call Unit
  | _, [] => pure ()
  | [], b :: bs => modify fun s => { s with written := s.written ++ b :: bs }
  | .want :: calls, b :: bs => sendRest calls (b :: bs)
  | .took n :: calls, b :: bs => do
    modify fun s => { s with written := s.written ++ (b :: bs).take n }
    sendRest calls ((b :: bs).drop n)
  | .failed e :: _, _ :: _ => do
    disconnect
    throw (.serviceError (lit "TlsTransport: write failed: " ++ text e))

def send (calls : List Write) (msg : Bytes) : Call Unit := do
  if (← get).isConnected then sendRest text calls (StreamTransport.stampEncrypted msg)
  else throw (.serviceError (lit "TlsTransport: not connected or handshake incomplete"))

/-- Messages sent one after the other. -/
def sendEach : List (List Write × Bytes) → Call Unit
  | [] => pure ()
  | (calls, msg) :: sends => do
    send text calls msg
    sendEach sends

/-! ## Receiving -/

/-- `mbedtls_ssl_conf_read_timeout`, where 0 is no timeout. -/
def patience (timeoutMs : Int) : Option Nat := if 0 < timeoutMs then some timeoutMs.toNat else none

def readTimeout : Exn := .serviceError (lit "TlsTransport: read timeout")

/-- The loop that reads a header: it, or nothing where the peer is gone. -/
def readHeader (timeoutMs : Int) : Call (Option Bytes) := fun s =>
  let r := Patience.readUpTo (patience timeoutMs) 16 s.arrivals
  let s' := { s with arrivals := r.2.1 }
  match r.2.2, s.ending with
  | .enough, _ => .ok (some r.1) s'
  | .late, _ => .error readTimeout s'
  | .ended, .failed code =>
    .error (.serviceError (lit "TlsTransport: read failed: " ++ text (.other code)))
      { s' with connected := false }
  | .ended, _ => .ok none { s' with connected := false }

def payloadFailed (e : SslError) : Exn :=
  .serviceError (lit "TlsTransport: payload read failed: " ++ text e)

/-- The loop that reads a payload. -/
def readPayload (timeoutMs : Int) (size : Nat) : Call Bytes := fun s =>
  let r := Patience.readUpTo (patience timeoutMs) size s.arrivals
  let s' := { s with arrivals := r.2.1 }
  match r.2.2, s.ending with
  | .enough, _ => .ok r.1 s'
  | .late, _ => .error (payloadFailed text .timeout) { s' with connected := false }
  | .ended, .zero =>
    .error (.serviceError (lit "TlsTransport: connection closed during payload read")) s'
  | .ended, .closeNotify =>
    .error (payloadFailed text .closeNotify) { s' with connected := false }
  | .ended, .failed code =>
    .error (payloadFailed text (.other code)) { s' with connected := false }

/-- Run a decoder on the message. -/
def onMsg {α : Type} (d : Dec α) : Call α := fun s =>
  match d.run s.msg with
  | .ok a b => .ok a { s with msg := b }
  | .error e b => .error e { s with msg := b }

/-- The payload of the announced size. -/
def receivePayload (timeoutMs : Int) (size : Nat) : Call Unit := do
  if size = 0 then return ()
  else if kMaxPayloadSize < size then
    throw (.protocolError (lit "TlsTransport: payload size exceeds maximum"))
  else
    let payload ← readPayload text timeoutMs size
    modify fun s => { s with msg := s.msg.write payload }

/-- From the header to the end of `receive`. -/
def receiveBody (timeoutMs : Int) (header : Bytes) : Call Bool := do
  modify fun s => { s with msg := (s.msg.write header).resetRead }
  let hdr ← onMsg decodeHeader
  receivePayload text timeoutMs hdr.payloadSize.toNat
  modify fun s => { s with msg := s.msg.resetRead }
  return true

def receive (timeoutMs : Int) : Call Bool := do
  if (← get).isConnected then
    modify fun s => { s with msg := .empty }
    match ← readHeader text timeoutMs with
    | none => return false
    | some header => receiveBody text timeoutMs header
  else return false

/-- The messages that so many calls return. -/
def received (timeoutMs : Int) : Nat → Tls → List Bytes
  | 0, _ => []
  | n + 1, s =>
    match (receive text timeoutMs).run s with
    | .ok true s' => s'.msg.data :: received timeoutMs n s'
    | .ok false s' => received timeoutMs n s'
    | .error _ s' => received timeoutMs n s'

end

/-! ## Sending -/

section
variable {text : SslError → Str} {s : Tls}

/-- After a handshake the transport is connected. -/
theorem handshake_connected {calls : List Shake} (h : s.connected = true)
    (hcalls : shake calls = none) :
    (handshake text calls).run s = .ok () { s with handshakeDone := true } := by
  unfold handshake
  rw [Eff.run_get_bind, if_pos h, hcalls]
  rfl

theorem sendRest_run {calls : List Write} (h : ∀ c ∈ calls, c.Proceeds) (rest : Bytes) (s : Tls) :
    (sendRest text calls rest).run s = .ok () { s with written := s.written ++ rest } := by
  induction calls generalizing rest s with
  | nil =>
    cases rest with
    | nil => rw [List.append_nil]; rfl
    | cons b bs => rfl
  | cons c calls ih =>
    obtain ⟨hc, hcalls⟩ := List.forall_mem_cons.mp h
    cases rest with
    | nil => rw [List.append_nil]; rfl
    | cons b bs =>
      cases c with
      | want => exact ih hcalls _ _
      | took n =>
        have hrun := ih hcalls ((b :: bs).drop n)
          { s with written := s.written ++ (b :: bs).take n }
        rw [List.append_assoc, List.take_append_drop] at hrun
        exact hrun
      | failed e => exact hc.elim

/-- However the calls split them, the messages go on the stream, stamped, one after the other. -/
theorem sendEach_run {sends : List (List Write × Bytes)} (h : ∀ x ∈ sends, ∀ c ∈ x.1, c.Proceeds)
    (hs : s.isConnected = true) :
    (sendEach text sends).run s = .ok () { s with
      written := s.written ++ sends.flatMap fun x => StreamTransport.stampEncrypted x.2 } := by
  induction sends generalizing s with
  | nil => rw [List.flatMap_nil, List.append_nil]; rfl
  | cons x sends ih =>
    obtain ⟨calls, msg⟩ := x
    obtain ⟨hx, hsends⟩ := List.forall_mem_cons.mp h
    let s' : Tls := { s with written := s.written ++ StreamTransport.stampEncrypted msg }
    have hsend : (send text calls msg).run s = .ok () s' := by
      unfold send
      rw [Eff.run_get_bind, if_pos hs]
      exact sendRest_run hx _ s
    have hrest := ih (s := s') hsends hs
    rw [sendEach, Eff.run_bind_ok hsend, hrest, List.flatMap_cons]
    simp only [s', List.append_assoc]

end

/-! ## What a call loses -/

section
variable (text : SslError → Str) (timeoutMs : Int) {s : Tls}

/-- No more is left than before. -/
def Shrinks (s s' : Tls) : Prop := (data s'.arrivals).length ≤ (data s.arrivals).length

theorem readHeader_keeps (s : Tls) : Eff.Ends (readHeader text timeoutMs) s
    (fun r s' => s'.msg = s.msg ∧ Shrinks s s' ∧ ∀ header, r = some header →
      header.length = 16 ∧ 16 + (data s'.arrivals).length = (data s.arrivals).length)
    fun _ s' => Shrinks s s' := by
  have hlen := Patience.length_readUpTo (patience timeoutMs) 16 s.arrivals
  have hless : (data (Patience.readUpTo (patience timeoutMs) 16 s.arrivals).2.1).length ≤
      (data s.arrivals).length := by omega
  unfold Eff.Ends
  simp only [EStateM.run, readHeader]
  cases hend : (Patience.readUpTo (patience timeoutMs) 16 s.arrivals).2.2 with
  | enough =>
    have hfull := Patience.length_of_enough hend
    refine ⟨rfl, hless, fun header hheader => ?_⟩
    cases hheader
    rw [hfull] at hlen
    exact ⟨hfull, hlen⟩
  | late => exact hless
  | ended =>
    cases s.ending with
    | zero => exact ⟨rfl, hless, fun _ h => by cases h⟩
    | closeNotify => exact ⟨rfl, hless, fun _ h => by cases h⟩
    | failed code => exact hless

theorem readPayload_keeps (size : Nat) (s : Tls) : Eff.Ends (readPayload text timeoutMs size) s
    (fun payload s' => s'.msg = s.msg ∧
      payload.length + (data s'.arrivals).length = (data s.arrivals).length)
    fun _ s' => Shrinks s s' := by
  have hlen := Patience.length_readUpTo (patience timeoutMs) size s.arrivals
  have hless : (data (Patience.readUpTo (patience timeoutMs) size s.arrivals).2.1).length ≤
      (data s.arrivals).length := by omega
  unfold Eff.Ends
  simp only [EStateM.run, readPayload]
  cases (Patience.readUpTo (patience timeoutMs) size s.arrivals).2.2 with
  | enough => exact ⟨rfl, hlen⟩
  | late => exact hless
  | ended =>
    cases s.ending with
    | zero => exact hless
    | closeNotify => exact hless
    | failed code => exact hless

theorem receivePayload_keeps (size : Nat) (s : Tls) :
    Eff.Ends (receivePayload text timeoutMs size) s
      (fun _ s' => s'.msg.data.length + (data s'.arrivals).length =
        s.msg.data.length + (data s.arrivals).length)
      fun _ s' => Shrinks s s' := by
  unfold receivePayload
  split
  · exact Eff.Ends.pure rfl
  · split
    · exact Eff.Ends.throw (Nat.le_refl _)
    · refine .bind ((readPayload_keeps text timeoutMs size s).mono ?_ fun _ _ h => h)
      rintro payload s' ⟨hmsg, hlen⟩
      show (s'.msg.data ++ payload).length + (data s'.arrivals).length = _
      rw [List.length_append, hmsg]
      omega

/-- Behind a header the size is the announced one and the message holds the header. -/
theorem receiveBody_run (hdr : Header) (hmsg : s.msg = .empty) :
    (receiveBody text timeoutMs (encodeHeader hdr)).run s =
      (do
        receivePayload text timeoutMs hdr.payloadSize.toNat
        modify fun s => { s with msg := s.msg.resetRead }
        return true : Call Bool).run { s with msg := .cut (encodeHeader hdr) [] } := by
  have hset : (modify fun s => { s with msg := (s.msg.write (encodeHeader hdr)).resetRead } :
      Call PUnit).run s = .ok ⟨⟩ { s with msg := .ofBytes (encodeHeader hdr) } := by
    show EStateM.Result.ok _ { s with msg := (s.msg.write (encodeHeader hdr)).resetRead } = _
    rw [hmsg]
    rfl
  have hd := decodeHeader_cut hdr [] []
  rw [List.append_nil, ← Buffer.ofBytes_eq_cut, List.nil_append] at hd
  have hmsg' : (onMsg decodeHeader).run { s with msg := .ofBytes (encodeHeader hdr) } =
      .ok hdr { s with msg := .cut (encodeHeader hdr) [] } := by
    simp only [EStateM.run, onMsg] at hd ⊢
    rw [hd]
  rw [receiveBody, Eff.run_bind_ok hset, Eff.run_bind_ok hmsg']

theorem receiveBody_keeps {header : Bytes} (hheader : header.length = 16) (hmsg : s.msg = .empty) :
    Eff.Ends (receiveBody text timeoutMs header) s
      (fun b s' => b = true ∧
        s'.msg.data.length + (data s'.arrivals).length = 16 + (data s.arrivals).length)
      fun _ s' => Shrinks s s' := by
  obtain ⟨hdr, rfl⟩ := exists_encodeHeader hheader
  unfold Eff.Ends
  rw [receiveBody_run text timeoutMs hdr hmsg]
  refine Eff.Ends.bind ((receivePayload_keeps text timeoutMs hdr.payloadSize.toNat _).mono ?_
    fun _ _ h => h)
  intro _ s' hlen
  refine ⟨rfl, hlen.trans ?_⟩
  simp only [Buffer.cut_data, List.append_nil, hheader]

theorem receive_connected (h : s.isConnected = true) : (receive text timeoutMs).run s =
    (do
      match ← readHeader text timeoutMs with
      | none => return false
      | some header => receiveBody text timeoutMs header : Call Bool).run
        { s with msg := .empty } := by
  unfold receive
  rw [Eff.run_get_bind, if_pos h]
  rfl

theorem receive_closed (h : s.isConnected = false) :
    (receive text timeoutMs).run s = .ok false s := by
  unfold receive
  rw [Eff.run_get_bind, if_neg (by rw [h]; exact Bool.noConfusion)]
  rfl

/-- What is returned and what is left is no more than was there. -/
theorem receive_keeps (s : Tls) : Eff.Ends (receive text timeoutMs) s
    (fun b s' => Shrinks s s' ∧ (b = true →
      s'.msg.data.length + (data s'.arrivals).length ≤ (data s.arrivals).length))
    fun _ s' => Shrinks s s' := by
  cases hs : s.isConnected with
  | false => exact .of_ok (receive_closed text timeoutMs hs) ⟨Nat.le_refl _, fun h => by cases h⟩
  | true =>
    unfold Eff.Ends
    rw [receive_connected text timeoutMs hs]
    refine Eff.Ends.bind ((readHeader_keeps text timeoutMs { s with msg := .empty }).mono ?_
      fun _ _ h => h)
    rintro r s' ⟨hmsg, hless, hheader⟩
    cases r with
    | none => exact Eff.Ends.pure ⟨hless, fun h => by cases h⟩
    | some header =>
      obtain ⟨hlen, hsum⟩ := hheader header rfl
      refine (receiveBody_keeps text timeoutMs hlen hmsg).mono ?_ fun _ s'' h => h.trans hless
      rintro b s'' ⟨-, hrest⟩
      have hall : s''.msg.data.length + (data s''.arrivals).length = (data s.arrivals).length :=
        hrest.trans hsum
      refine ⟨?_, fun _ => Nat.le_of_eq hall⟩
      unfold Shrinks
      omega

/-- However often it is called, no more is returned than was there. -/
theorem length_received (n : Nat) (s : Tls) :
    (received text timeoutMs n s).flatten.length ≤ (data s.arrivals).length := by
  induction n generalizing s with
  | zero => exact Nat.zero_le _
  | succ n ih =>
    have hkeeps := receive_keeps text timeoutMs s
    rw [received]
    cases hrun : (receive text timeoutMs).run s with
    | ok b s' =>
      obtain ⟨hless, hsum⟩ := hkeeps.ok hrun
      have hrest := ih s'
      cases b with
      | false => exact hrest.trans hless
      | true =>
        have := hsum rfl
        simp only [List.flatten_cons, List.length_append]
        omega
    | error e s' => exact (ih s').trans (hkeeps.error hrun)

theorem received_closed (n : Nat) (h : s.isConnected = false) :
    received text timeoutMs n s = [] := by
  induction n with
  | zero => rfl
  | succ n ih =>
    rw [received, receive_closed text timeoutMs h]
    exact ih

/-! ## What a call returns -/

theorem readHeader_late {w : Bytes} {arrivals : List (Arrival UInt8)}
    (h : Patience.readUpTo (patience timeoutMs) 16 s.arrivals = (w, arrivals, .late)) :
    (readHeader text timeoutMs).run s = .error readTimeout { s with arrivals } := by
  simp only [EStateM.run, readHeader, h]

theorem readHeader_enough {w : Bytes} {arrivals : List (Arrival UInt8)}
    (h : Patience.readUpTo (patience timeoutMs) 16 s.arrivals = (w, arrivals, .enough)) :
    (readHeader text timeoutMs).run s = .ok (some w) { s with arrivals } := by
  simp only [EStateM.run, readHeader, h]

theorem readPayload_late {size : Nat} {w : Bytes} {arrivals : List (Arrival UInt8)}
    (h : Patience.readUpTo (patience timeoutMs) size s.arrivals = (w, arrivals, .late)) :
    (readPayload text timeoutMs size).run s =
      .error (payloadFailed text .timeout) { s with arrivals, connected := false } := by
  simp only [EStateM.run, readPayload, h]

theorem readPayload_enough {size : Nat} {w : Bytes} {arrivals : List (Arrival UInt8)}
    (h : Patience.readUpTo (patience timeoutMs) size s.arrivals = (w, arrivals, .enough)) :
    (readPayload text timeoutMs size).run s = .ok w { s with arrivals } := by
  simp only [EStateM.run, readPayload, h]

/-- A read that is late in front of a message is a timeout, and nothing is lost. -/
theorem receive_wait (hs : s.isConnected = true) {t : Nat} (ht : 0 < t)
    (hpatience : patience timeoutMs = some t) (h : LateAt (some t) s.arrivals 0) :
    ∃ arrivals, (receive text timeoutMs).run s =
        .error readTimeout { s with arrivals, msg := .empty } ∧
      data arrivals = data s.arrivals ∧ delay arrivals < delay s.arrivals ∧
      ∀ n, 0 < n → (LateAt (some t) arrivals n ↔ LateAt (some t) s.arrivals n) := by
  obtain ⟨arrivals, hread, hrest⟩ := @Patience.readUpTo_wait _ s.arrivals 15 t ht h
  refine ⟨arrivals, ?_, hrest⟩
  rw [← hpatience] at hread
  rw [receive_connected text timeoutMs hs]
  exact Eff.run_bind_error (@readHeader_late text timeoutMs { s with msg := .empty } _ _ hread)

/-- When the header is there, the rest of the call is about the payload. -/
theorem receive_header (hs : s.isConnected = true) {f : Frame} {rest : Bytes}
    (hd : data s.arrivals = f.bytes ++ rest)
    (h : ∀ n < 16, ¬ LateAt (patience timeoutMs) s.arrivals n) :
    ∃ arrivals, data arrivals = f.payload ++ rest ∧
      (∀ n, LateAt (patience timeoutMs) arrivals n ↔
        LateAt (patience timeoutMs) s.arrivals (16 + n)) ∧
      (receive text timeoutMs).run s =
        (do
          receivePayload text timeoutMs f.hdr.payloadSize.toNat
          modify fun s => { s with msg := s.msg.resetRead }
          return true : Call Bool).run
            { s with arrivals, msg := .cut (encodeHeader f.hdr) [] } := by
  have hbytes : data s.arrivals = encodeHeader f.hdr ++ (f.payload ++ rest) := by
    rw [hd, Frame.bytes, List.append_assoc]
  have hlen : 16 ≤ (data s.arrivals).length := by
    rw [hbytes, List.length_append, length_encodeHeader]
    omega
  obtain ⟨arrivals, hread, hdata, hpauses⟩ := Patience.readUpTo_whole hlen h
  rw [hbytes, List.take_left' (length_encodeHeader _)] at hread
  rw [hbytes, List.drop_left' (length_encodeHeader _)] at hdata
  refine ⟨arrivals, hdata, hpauses, ?_⟩
  rw [receive_connected text timeoutMs hs]
  refine (Eff.run_bind_ok
    (@readHeader_enough text timeoutMs { s with msg := .empty } _ _ hread)).trans ?_
  exact @receiveBody_run text timeoutMs { s with arrivals, msg := .empty } f.hdr rfl

/-- Where no read is late, a message in front is returned whole. -/
theorem receive_whole (hs : s.isConnected = true) {f : Frame} (hf : f.Fits) {rest : Bytes}
    (hd : data s.arrivals = f.bytes ++ rest)
    (h : ∀ n < f.bytes.length, ¬ LateAt (patience timeoutMs) s.arrivals n) :
    ∃ arrivals, (receive text timeoutMs).run s =
        .ok true { s with arrivals, msg := .ofBytes f.bytes } ∧ data arrivals = rest ∧
      ∀ n, LateAt (patience timeoutMs) arrivals n ↔
        LateAt (patience timeoutMs) s.arrivals (f.bytes.length + n) := by
  obtain ⟨hsize, hmax⟩ := hf
  rw [f.length_bytes] at h ⊢
  obtain ⟨arrivals, hdata, hpauses, hrun⟩ :=
    receive_header text timeoutMs hs hd fun n hn => h n (by omega)
  rw [hrun, hsize]
  by_cases hzero : f.payload.length = 0
  · have hnil := List.eq_nil_of_length_eq_zero hzero
    rw [hnil] at hdata ⊢
    refine ⟨arrivals, ?_, hdata, hpauses⟩
    have hbytes : f.bytes = encodeHeader f.hdr := by rw [Frame.bytes, hnil, List.append_nil]
    rw [hbytes]
    rfl
  · have hlen : f.payload.length ≤ (data arrivals).length := by
      rw [hdata, List.length_append]
      omega
    obtain ⟨arrivals', hread, hdata', hpauses'⟩ := Patience.readUpTo_whole hlen fun n hn hl =>
      h (16 + n) (by omega) ((hpauses n).mp hl)
    rw [hdata, List.take_left] at hread
    rw [hdata, List.drop_left] at hdata'
    refine ⟨arrivals', ?_, hdata', fun n => ?_⟩
    · have hpayload : (receivePayload text timeoutMs f.payload.length).run
          { s with arrivals, msg := .cut (encodeHeader f.hdr) [] } = .ok () { s with
            arrivals := arrivals'
            msg := Buffer.write (.cut (encodeHeader f.hdr) []) f.payload } := by
        unfold receivePayload
        rw [if_neg hzero, if_neg (by omega)]
        exact Eff.run_bind_ok (@readPayload_enough text timeoutMs
          { s with arrivals, msg := .cut (encodeHeader f.hdr) [] } _ _ _ hread)
      rw [Eff.run_bind_ok hpayload]
      have hmsg : (Buffer.write (.cut (encodeHeader f.hdr) []) f.payload).resetRead =
          .ofBytes f.bytes := by
        rw [Frame.bytes]
        simp [Buffer.write, Buffer.resetRead, Buffer.cut, Buffer.ofBytes]
      rw [← hmsg]
      rfl
    · rw [hpauses', hpauses, Nat.add_assoc]

/-- A read that is late inside a message loses bytes or disconnects the transport. -/
theorem receive_late (hs : s.isConnected = true) {f : Frame} (hf : f.Fits) {rest : Bytes}
    (hd : data s.arrivals = f.bytes ++ rest) {n : Nat} (hlt : n < f.bytes.length)
    (h : LateAt (patience timeoutMs) s.arrivals n)
    (hzero : ¬ LateAt (patience timeoutMs) s.arrivals 0) :
    ∃ e s', (receive text timeoutMs).run s = .error e s' ∧
      (s'.isConnected = false ∨ (data s'.arrivals).length < (data s.arrivals).length) := by
  obtain ⟨hsize, hmax⟩ := hf
  obtain ⟨m, hm, hlate, hfirst⟩ := h.first
  have hpos : 0 < m := Nat.pos_of_ne_zero fun h0 => hzero (h0 ▸ hlate)
  rw [f.length_bytes] at hlt
  by_cases hheader : m < 16
  · obtain ⟨arrivals, hread, hdata⟩ := Patience.readUpTo_late hheader hlate hfirst
    refine ⟨readTimeout, { s with arrivals, msg := .empty }, ?_, .inr ?_⟩
    · rw [receive_connected text timeoutMs hs]
      exact Eff.run_bind_error
        (@readHeader_late text timeoutMs { s with msg := .empty } _ _ hread)
    · have hle := hlate.le
      simp only [hdata, List.length_drop]
      omega
  · obtain ⟨arrivals, hdata, hpauses, hrun⟩ :=
      receive_header text timeoutMs hs hd fun k hk => hfirst k (by omega)
    have hlate' : LateAt (patience timeoutMs) arrivals (m - 16) :=
      (hpauses _).mpr (by rwa [show 16 + (m - 16) = m by omega])
    obtain ⟨arrivals', hread, -⟩ := @Patience.readUpTo_late _ (patience timeoutMs) arrivals
      f.payload.length _ (by omega) hlate' fun k hk hl =>
        hfirst (16 + k) (by omega) ((hpauses k).mp hl)
    refine ⟨payloadFailed text .timeout, { s with
      connected := false
      arrivals := arrivals'
      msg := .cut (encodeHeader f.hdr) [] }, ?_, .inl rfl⟩
    rw [hrun, hsize]
    unfold receivePayload
    rw [if_neg (by omega), if_neg (by omega)]
    exact Eff.run_bind_error (Eff.run_bind_error (@readPayload_late text timeoutMs
      { s with arrivals, msg := .cut (encodeHeader f.hdr) [] } _ _ _ hread))

/-! ## All that was sent -/

/-- A message ends after the first `n` bytes, or the first one starts there. -/
def Boundary (msgs : List Bytes) (n : Nat) : Prop := ∃ k, n = (msgs.take k).flatten.length

theorem boundary_zero (msgs : List Bytes) : Boundary msgs 0 := ⟨0, rfl⟩

theorem boundary_cons {m : Bytes} {msgs : List Bytes} {n : Nat} :
    Boundary (m :: msgs) n ↔ n = 0 ∨ m.length ≤ n ∧ Boundary msgs (n - m.length) := by
  constructor
  · rintro ⟨k, rfl⟩
    cases k with
    | zero => exact .inl rfl
    | succ k =>
      simp only [List.take_succ_cons, List.flatten_cons, List.length_append]
      exact .inr ⟨by omega, k, by omega⟩
  · rintro (rfl | ⟨hle, k, hk⟩)
    · exact boundary_zero _
    · refine ⟨k + 1, ?_⟩
      simp only [List.take_succ_cons, List.flatten_cons, List.length_append]
      omega

theorem patience_pos {t : Nat} (h : patience timeoutMs = some t) : 0 < t := by
  unfold patience at h
  split at h
  · cases h
    omega
  · cases h

/-- A call that throws returns nothing. -/
theorem received_error {e : Exn} {s' : Tls} (h : (receive text timeoutMs).run s = .error e s')
    {m : Bytes} {msgs : List Bytes} : (∃ n, received text timeoutMs n s = m :: msgs) ↔
      ∃ n, received text timeoutMs n s' = m :: msgs := by
  have hnext : ∀ n, received text timeoutMs (n + 1) s = received text timeoutMs n s' := by
    intro n
    rw [received, h]
  constructor
  · rintro ⟨n, hn⟩
    cases n with
    | zero => cases hn
    | succ n => exact ⟨n, (hnext n).symm.trans hn⟩
  · rintro ⟨n, hn⟩
    exact ⟨n + 1, (hnext n).trans hn⟩

theorem received_ok {s' : Tls} (h : (receive text timeoutMs).run s = .ok true s')
    {msgs : List Bytes} : (∃ n, received text timeoutMs n s = s'.msg.data :: msgs) ↔
      ∃ n, received text timeoutMs n s' = msgs := by
  have hnext : ∀ n, received text timeoutMs (n + 1) s =
      s'.msg.data :: received text timeoutMs n s' := by
    intro n
    rw [received, h]
  constructor
  · rintro ⟨n, hn⟩
    cases n with
    | zero => cases hn
    | succ n => exact ⟨n, (List.cons.inj ((hnext n).symm.trans hn)).2⟩
  · rintro ⟨n, hn⟩
    exact ⟨n + 1, by rw [hnext, hn]⟩

/-- What is lost is not received. -/
theorem not_received_late (hs : s.isConnected = true) {f : Frame} (hf : f.Fits)
    {msgs : List Bytes} (hd : data s.arrivals = f.bytes ++ msgs.flatten) {n : Nat}
    (hlt : n < f.bytes.length) (h : LateAt (patience timeoutMs) s.arrivals n)
    (hzero : ¬ LateAt (patience timeoutMs) s.arrivals 0) :
    ¬ ∃ n, received text timeoutMs n s = f.bytes :: msgs := by
  obtain ⟨e, s', hrun, hlost⟩ := receive_late text timeoutMs hs hf hd hlt h hzero
  rw [received_error text timeoutMs hrun]
  rintro ⟨k, hk⟩
  rcases hlost with hclosed | hless
  · cases (received_closed text timeoutMs k hclosed).symm.trans hk
  · have hle := length_received text timeoutMs k s'
    have hall := congrArg List.length hd
    rw [hk, List.flatten_cons] at hle
    omega

theorem received_iff {frames : List Frame} (hf : ∀ f ∈ frames, f.Fits) (hs : s.isConnected = true)
    (hd : data s.arrivals = (frames.map Frame.bytes).flatten) :
    (∃ n, received text timeoutMs n s = frames.map Frame.bytes) ↔
      ∀ n, LateAt (patience timeoutMs) s.arrivals n → Boundary (frames.map Frame.bytes) n := by
  induction frames generalizing s with
  | nil =>
    refine iff_of_true ⟨0, rfl⟩ fun n hn => ?_
    have hle := hn.le
    rw [hd] at hle
    obtain rfl : n = 0 := Nat.le_zero.mp hle
    exact boundary_zero _
  | cons f frames ih =>
    obtain ⟨hfit, hfs⟩ := List.forall_mem_cons.mp hf
    have hlen : 0 < f.bytes.length := by
      rw [f.length_bytes]
      omega
    -- the pauses in front of the message get shorter with each call
    induction hdelay : delay s.arrivals using Nat.strongRecOn generalizing s with
    | _ ms wait =>
      by_cases hzero : LateAt (patience timeoutMs) s.arrivals 0
      · obtain ⟨t, hpatience⟩ : ∃ t, patience timeoutMs = some t := by
          obtain ⟨-, ms', -, -, ⟨t, ht, -⟩, -⟩ := hzero
          exact ⟨t, ht⟩
        obtain ⟨arrivals, hrun, hdata, hless, hpauses⟩ := receive_wait text timeoutMs hs
          (patience_pos timeoutMs hpatience) hpatience (hpatience ▸ hzero)
        rw [← hpatience] at hpauses
        have hlater := wait (s := { s with arrivals, msg := .empty }) _ (hdelay ▸ hless) hs
          (hdata.trans hd) rfl
        refine (received_error text timeoutMs hrun).trans (hlater.trans ?_)
        refine forall_congr' fun n => ?_
        by_cases hn : n = 0
        · subst hn
          exact iff_of_true (fun _ => boundary_zero _) fun _ => boundary_zero _
        · rw [hpauses n (Nat.pos_of_ne_zero hn)]
      · by_cases hwhole : ∀ n < f.bytes.length, ¬ LateAt (patience timeoutMs) s.arrivals n
        · obtain ⟨arrivals, hrun, hdata, hpauses⟩ :=
            receive_whole text timeoutMs hs hfit hd hwhole
          have hmore := ih (s := { s with arrivals, msg := .ofBytes f.bytes }) hfs hs hdata
          refine (received_ok text timeoutMs hrun).trans (hmore.trans ?_)
          refine ⟨fun h n hn => boundary_cons.mpr (.inr ?_), fun h n hn => ?_⟩
          · have hle : f.bytes.length ≤ n := Nat.le_of_not_lt fun hlt => hwhole n hlt hn
            refine ⟨hle, h _ ((hpauses _).mpr ?_)⟩
            rwa [Nat.add_sub_cancel' hle]
          · rcases boundary_cons.mp (h _ ((hpauses n).mp hn)) with hzero' | ⟨-, hb⟩
            · omega
            · rwa [Nat.add_sub_cancel_left] at hb
        · obtain ⟨n, hlt, hn⟩ : ∃ n < f.bytes.length, LateAt (patience timeoutMs) s.arrivals n := by
            by_contra hno
            exact hwhole fun n hn hl => hno ⟨n, hn, hl⟩
          refine iff_of_false (not_received_late text timeoutMs hs hfit hd hlt hn hzero) fun h => ?_
          rcases boundary_cons.mp (h n hn) with rfl | ⟨hle, -⟩
          · exact hzero hn
          · omega

theorem wellFormed_stamped {msg : Bytes} (h : WellFormed msg) :
    WellFormed (StreamTransport.stampEncrypted msg) := by
  obtain ⟨f, hf, rfl⟩ := h
  exact ⟨StreamTransport.stampFrame f, hf, StreamTransport.stampEncrypted_bytes f⟩

/-- Messages sent over one transport, however the writes split them, and read from another with one
timeout, however they are cut: the calls return them all, each once, in order and marked as
encrypted, if and only if no wait of that length comes inside a message. -/
theorem tls_delivers_iff {sends : List (List Write × Bytes)}
    (hcalls : ∀ x ∈ sends, ∀ c ∈ x.1, c.Proceeds) (hmsgs : ∀ x ∈ sends, WellFormed x.2)
    {sender receiver : Tls} (hsender : sender.isConnected = true)
    (hreceiver : receiver.isConnected = true) :
    ∃ msgs, msgs = sends.map (fun x => StreamTransport.stampEncrypted x.2) ∧
      (sendEach text sends).run sender =
        .ok () { sender with written := sender.written ++ msgs.flatten } ∧
      (data receiver.arrivals = msgs.flatten →
        ((∃ n, received text timeoutMs n receiver = msgs) ↔
          ∀ n, LateAt (patience timeoutMs) receiver.arrivals n → Boundary msgs n)) := by
  refine ⟨_, rfl, ?_, fun hd => ?_⟩
  · rw [sendEach_run hcalls hsender, List.flatMap_def]
  · obtain ⟨frames, hf, heq⟩ := exists_frames
      (sends.map fun x => StreamTransport.stampEncrypted x.2) (by
        intro m hm
        obtain ⟨x, hx, rfl⟩ := List.mem_map.mp hm
        exact wellFormed_stamped (hmsgs x hx))
    rw [heq] at hd ⊢
    exact received_iff text timeoutMs hf hreceiver hd

end

/-- A transport that has written nothing, and what arrives at it. -/
def opened (arrivals : List (Arrival UInt8)) : Tls := ⟨true, true, [], arrivals, .zero, .empty⟩

/-- A result that is waited for, and that comes in two pieces with a short pause between them. -/
def slowResult : List (Arrival UInt8) :=
  [.pause 100, .piece 71 [78, 79], .pause 30, .piece 83 [2, 3, 0, 0, 1, 0, 0, 0, 1, 0, 0, 0, 7]]

theorem tls_delivers_slowResult :
    ∃ n, received (fun _ => []) 40 n (opened slowResult) =
      [StreamTransport.stampEncrypted (createResultMessage 1 [7])] := by
  obtain ⟨msgs, rfl, -, h⟩ := @tls_delivers_iff (fun _ => []) 40
    [([.took 2, .want], createResultMessage 1 [7])]
    (by simp [Write.Proceeds]) (List.forall_mem_singleton.mpr
      (wellFormed_createMessage _ _ (by decide))) (opened []) (opened slowResult) rfl rfl
  refine (h rfl).mpr fun n hn => ?_
  rcases Patience.lateAt_pause.mp hn with ⟨-, rfl⟩ | hn
  · exact boundary_zero _
  · obtain ⟨-, hn⟩ := Patience.lateAt_piece.mp hn
    rcases Patience.lateAt_pause.mp hn with ⟨hlate, -⟩ | hn
    · exact absurd hlate (by decide)
    · exact absurd (Patience.lateAt_piece.mp hn).2 Patience.lateAt_nil

-- With less patience the header is lost between the pieces.
example : received (fun _ => []) 20 9 (opened slowResult) = [] := by decide +kernel

end TlsTransport

end Song
