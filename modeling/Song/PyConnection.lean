import Song.PyWire
import Song.Lib.Feed

/-!
# Python's connection (`connection.py`)

`ServiceConnection.connect` opens a socket and reads the service's init message from it. What
`recv` returns is a feed of pieces, cut anywhere; behind the last one it returns nothing, times
out or raises. Only a `socket.error` is caught, and the exceptions of the handshake are none, so
`Settles`, that an exception leaves the connection unconnected and a return means an init message
with versions that overlap, depends on where the handshake fails (`settles_iff`).
-/

namespace Song.PyConnection

open Compiler (PyError PyDec pyRead pyDecodeU32)
open PyWire (HeaderError headerSize hex08 unpackAt)

/-- `(major << 8) | minor`. -/
def makeVersion (major minor : Nat) : Nat := (major <<< 8) ||| minor

def firstVersion : Nat := makeVersion 1 0

def currentVersion : Nat := makeVersion 1 0

/-- How `recv` ends once all pieces were received. -/
inductive Ending where
  /-- It returns no bytes. -/
  | closed
  | timeout
  /-- Another `socket.error`. -/
  | failed (msg : Str)
  deriving DecidableEq, Repr

structure Socket where
  arrivals : List (Feed.Arrival UInt8)
  ending : Ending

/-- What waits at the address: a refusal, or a peer that sends and then ends. -/
structure Server where
  refusal : Option Str
  arrivals : List (Feed.Arrival UInt8)
  ending : Ending

/-- The exceptions of `connect`. -/
inductive ConnError where
  | socketError (msg : Str)
  | connectionError (msg : Str)
  | versionMismatchError (msg : Str)
  | protocolError (msg : Str)
  | valueError (msg : Str)
  | decoding (e : PyError)
  deriving DecidableEq, Repr

namespace ConnError

/-- Caught by `except socket.error`. -/
def isSocketError : ConnError → Bool
  | socketError _ => true
  | _ => false

def ofHeader : HeaderError → ConnError
  | .protocolError msg => protocolError msg
  | .valueError msg => valueError msg

end ConnError

structure ServiceConnection where
  host : Str
  port : Int
  socket : Option Socket
  connected : Bool

namespace ServiceConnection

def isConnected (c : ServiceConnection) : Bool := c.connected && c.socket.isSome

end ServiceConnection

abbrev Py (α : Type) := EStateM ConnError ServiceConnection α

/-! ## The handshake -/

/-- `_recv_exact`: what one of its calls of `recv` raises ends it, `Feed.readUpTo` are the others. -/
def recvExact (length : Nat) : Py Bytes := fun c =>
  match c.socket with
  | none => .error (.decoding .attributeError) c
  | some s =>
    let (received, arrivals) := Feed.readUpTo length s.arrivals
    let c' := { c with socket := some { s with arrivals } }
    if received.length = length then .ok received c'
    else
      match s.ending with
      | .closed => .error (.connectionError (lit "Connection closed by service"))
          { c' with connected := false }
      | .timeout => .error (.connectionError (lit "Receive timeout")) c'
      | .failed msg => .error (.connectionError (lit "Receive failed: " ++ msg))
          { c' with connected := false }

/-- A decoder of `Buffer` and the buffer it leaves. -/
def decode {α : Type} (d : PyDec α) (buf : Buffer) : Except ConnError (α × Buffer) :=
  match d.run buf with
  | .ok a buf' => .ok (a, buf')
  | .error e _ => .error (.decoding e)

/-- What `_init_handshake` does with the payload. -/
def checkInit (payloadData : Bytes) : Except ConnError Unit := do
  let buf := Buffer.ofBytes payloadData
  let (initMagic, buf) ← decode pyDecodeU32 buf
  if initMagic ≠ PyWire.magic then
    throw (.protocolError (lit "Invalid magic in init payload: 0x" ++ hex08 initMagic))
  else
    let (first, buf) ← decode PyWire.decodeU16 buf
    let (current, buf) ← decode PyWire.decodeU16 buf
    let (_, buf) ← decode pyDecodeU32 buf
    let (_, _) ← decode pyDecodeU32 buf
    if currentVersion < first then
      throw (.versionMismatchError (lit "Client version " ++ toStr currentVersion ++
        lit " too old, service requires at least " ++ toStr first))
    else if firstVersion > current then
      throw (.versionMismatchError (lit "Service version " ++ toStr current ++
        lit " too old, client requires at least " ++ toStr firstVersion))
    else return ()

/-- Go on with the value, or raise. -/
def raise {α : Type} : Except ConnError α → Py α
  | .ok a => pure a
  | .error e => throw e

/-- What `_init_handshake` does with the header. -/
def checkHeader (header : PyWire.Header) : Py Unit := do
  if header.msgType ≠ .init then
    throw (.protocolError (lit "Expected init message, got " ++ toStr header.msgType.value))
  else if header.payloadSize > 0 then
    let payloadData ← recvExact header.payloadSize
    raise (checkInit payloadData)
  else return ()

def initHandshake : Py Unit := do
  let headerData ← recvExact headerSize
  let header ← raise ((PyWire.decodeHeader headerData).mapError .ofHeader)
  checkHeader header

/-- `socket.connect`, on the socket just created. -/
def openSocket (server : Server) : Py Unit := fun c =>
  let c := { c with socket := some ⟨server.arrivals, server.ending⟩ }
  match server.refusal with
  | some msg => .error (.socketError msg) c
  | none => .ok () c

/-- The `try` block of `connect`. -/
def attempt (server : Server) : Py Unit := do
  openSocket server
  modify fun c => { c with connected := true }
  initHandshake

/-- `except socket.error as e`. -/
def giveUp (e : ConnError) : Py Unit := do
  modify fun c => { c with connected := false }
  let c ← get
  throw (.connectionError (lit "Failed to connect to " ++ c.host ++ lit ":" ++ toStr c.port ++
    lit ": " ++ (match e with | .socketError msg => msg | _ => [])))

def connect (server : Server) : Py Unit :=
  Eff.catchIf ConnError.isSocketError (attempt server) giveUp

/-! ## Reading -/

section

variable {c : ServiceConnection} {s : Socket} {n : Nat}

theorem recvExact_ok (hs : c.socket = some s) (h : n ≤ (Feed.data s.arrivals).length) :
    ∃ arrivals, Feed.data arrivals = (Feed.data s.arrivals).drop n ∧
      (recvExact n).run c = .ok ((Feed.data s.arrivals).take n)
        { c with socket := some { s with arrivals } } := by
  refine ⟨(Feed.readUpTo n s.arrivals).2, Feed.data_readUpTo _ _, ?_⟩
  have hlen : (Feed.readUpTo n s.arrivals).1.length = n := by
    rw [Feed.length_readUpTo]
    exact Nat.min_eq_left h
  simp only [EStateM.run, recvExact, hs]
  rw [if_pos hlen, Feed.readUpTo_fst]

theorem recvExact_short (hs : c.socket = some s) (h : (Feed.data s.arrivals).length < n) :
    ∃ e c', (recvExact n).run c = .error e c' ∧ e.isSocketError = false ∧
      c'.isConnected = (decide (s.ending = .timeout) && c.connected) := by
  have hlen : (Feed.readUpTo n s.arrivals).1.length ≠ n := by
    rw [Feed.length_readUpTo]
    omega
  simp only [EStateM.run, recvExact, hs]
  rw [if_neg hlen]
  cases he : s.ending with
  | closed => exact ⟨_, _, rfl, rfl, rfl⟩
  | timeout => exact ⟨_, _, rfl, rfl, by simp [ServiceConnection.isConnected]⟩
  | failed msg => exact ⟨_, _, rfl, rfl, rfl⟩

end

/-- A buffer of the payload of which `k` bytes are read. -/
def readTo (p : Bytes) (k : Nat) : Buffer := .cut (p.take k) (p.drop k)

section

variable {p : Bytes} {d : PyDec Nat} {n k : Nat}

theorem decode_word (hd : d = do return leNat (← pyRead n)) (h : k + n ≤ p.length) :
    decode d (readTo p k) = .ok (unpackAt k n p, readTo p (k + n)) := by
  subst hd
  have hl : ((p.drop k).take n).length = n := by
    rw [List.length_take, List.length_drop]
    omega
  have hto : Buffer.cut (p.take k ++ (p.drop k).take n) ((p.drop k).drop n) =
      readTo p (k + n) := by
    rw [readTo, List.take_add, List.drop_drop]
  have hr := (Compiler.reads_pyRead hl).map leNat (p.take k) ((p.drop k).drop n)
  rw [List.take_append_drop, hto] at hr
  unfold decode
  rw [readTo, hr]
  rfl

theorem decode_word_short (hd : d = do return leNat (← pyRead n)) (hn : 0 < n)
    (h : p.length < k + n) : ∃ e, decode d (readTo p k) = .error e := by
  subst hd
  have hpos : (readTo p k).readPos = min k p.length := by
    rw [readTo, Buffer.cut_readPos, List.length_take]
  have hdata : (readTo p k).data = p := by
    rw [readTo, Buffer.cut_data, List.take_append_drop]
  have hc : ¬ (readTo p k).readPos + n ≤ (readTo p k).data.length := by
    rw [hpos, hdata]
    omega
  have hread : ∃ e, (pyRead n).run (readTo p k) = .error e (readTo p k) := ⟨_, dif_neg hc⟩
  obtain ⟨e, he⟩ := hread
  refine ⟨.decoding e, ?_⟩
  unfold decode
  rw [Eff.run_bind_error he]

/-- A decoder of a word goes on exactly where the word is there. -/
theorem decode_bind_ok_iff {β : Type} (hd : d = do return leNat (← pyRead n)) (hn : 0 < n)
    {f : Nat × Buffer → Except ConnError β} {b : β} :
    (decode d (readTo p k) >>= f) = .ok b ↔
      k + n ≤ p.length ∧ f (unpackAt k n p, readTo p (k + n)) = .ok b := by
  by_cases h : k + n ≤ p.length
  · rw [decode_word hd h]
    exact ⟨fun hf => ⟨h, hf⟩, fun hf => hf.2⟩
  · obtain ⟨e, he⟩ := decode_word_short hd hn (Nat.lt_of_not_le h)
    rw [he]
    exact iff_of_false (fun hf => by cases hf) fun hf => h hf.1

end

/-- An init payload with versions among which there is one of the client's. -/
def Overlaps (payload : Bytes) : Prop :=
  16 ≤ payload.length ∧ unpackAt 0 4 payload = PyWire.magic ∧
    unpackAt 4 2 payload ≤ currentVersion ∧ firstVersion ≤ unpackAt 6 2 payload

instance (payload : Bytes) : Decidable (Overlaps payload) :=
  inferInstanceAs (Decidable (_ ∧ _))

theorem ite_throw_ok_iff {β : Type} {q : Prop} [Decidable q] {e : ConnError}
    {x : Except ConnError β} {b : β} :
    (if q then throw e else x) = .ok b ↔ ¬ q ∧ x = .ok b := by
  by_cases h : q
  · rw [if_pos h]
    exact iff_of_false (fun hf => by cases hf) fun hf => hf.1 h
  · rw [if_neg h]
    exact ⟨fun hf => ⟨h, hf⟩, fun hf => hf.2⟩

theorem checkInit_ok_iff (p : Bytes) : checkInit p = .ok () ↔ Overlaps p := by
  have h32 : pyDecodeU32 = do return leNat (← pyRead 4) := rfl
  have h16 : PyWire.decodeU16 = do return leNat (← pyRead 2) := rfl
  have h0 : Buffer.ofBytes p = readTo p 0 := rfl
  simp only [checkInit, Overlaps, h0, decode_bind_ok_iff h32 (Nat.succ_pos 3),
    decode_bind_ok_iff h16 (Nat.succ_pos 1), ite_throw_ok_iff, Nat.not_lt, ne_eq, not_not, gt_iff_lt]
  constructor
  · rintro ⟨_, hm, _, _, _, h16, hf, hc, _⟩
    exact ⟨h16, hm, hf, hc⟩
  · rintro ⟨hl, hm, hf, hc⟩
    exact ⟨by omega, hm, by omega, by omega, by omega, by omega, hf, hc, rfl⟩

/-! ## The whole handshake -/

/-- The header and what follows it are an init message of which `Overlaps` holds. -/
def IsInit (header : PyWire.Header) (rest : Bytes) : Prop :=
  header.msgType = .init ∧ header.payloadSize ≤ rest.length ∧
    Overlaps (rest.take header.payloadSize)

/-- The bytes start with an init message with versions that overlap. -/
def SendsInit (bytes : Bytes) : Prop :=
  ∃ header, PyWire.decodeHeader (bytes.take headerSize) = .ok header ∧
    IsInit header (bytes.drop headerSize)

/-- The bytes end inside the header, or inside the payload that the header of an init message
announces. -/
def BreaksOff (bytes : Bytes) : Prop :=
  bytes.length < headerSize ∨
    ∃ header, PyWire.decodeHeader (bytes.take headerSize) = .ok header ∧ header.msgType = .init ∧
      (bytes.drop headerSize).length < header.payloadSize

section

variable {c : ServiceConnection} {s : Socket}

/-- An exception of `x` leaves the connection unconnected; where `x` returns, `Q` holds. -/
def Closes (x : Py Unit) (c : ServiceConnection) (Q : Prop) : Prop :=
  Eff.Ends x c (fun _ _ => Q) fun _ c' => c'.isConnected = false

theorem closes_of_ok {x : Py Unit} {c' : ServiceConnection} {Q : Prop}
    (h : x.run c = .ok () c') : Closes x c Q ↔ Q := by
  unfold Closes Eff.Ends
  rw [h]

theorem closes_of_error {x : Py Unit} {e : ConnError} {c' : ServiceConnection} {Q : Prop}
    (h : x.run c = .error e c') : Closes x c Q ↔ c'.isConnected = false := by
  unfold Closes Eff.Ends
  rw [h]

theorem isConnected_of (hs : c.socket = some s) (hc : c.connected = true) :
    c.isConnected = true := by
  rw [ServiceConnection.isConnected, hs, hc]
  rfl

theorem isConnected_socket (c : ServiceConnection) (s : Socket) :
    { c with socket := some s }.isConnected = c.connected := Bool.and_true _

theorem closes_checkHeader (hs : c.socket = some s) (hc : c.connected = true)
    (header : PyWire.Header) :
    Closes (checkHeader header) c (IsInit header (Feed.data s.arrivals)) ↔
      IsInit header (Feed.data s.arrivals) ∨ header.msgType = .init ∧
        (Feed.data s.arrivals).length < header.payloadSize ∧ s.ending ≠ .timeout := by
  by_cases ht : header.msgType ≠ .init
  · have hrun : (checkHeader header).run c = .error (.protocolError
        (lit "Expected init message, got " ++ toStr header.msgType.value)) c := by
      rw [checkHeader, if_pos ht]
      rfl
    rw [closes_of_error hrun, isConnected_of hs hc]
    refine iff_of_false (fun h => by cases h) ?_
    rintro (h | h)
    · exact ht h.1
    · exact ht h.1
  rw [not_not] at ht
  by_cases hp : header.payloadSize > 0
  · have hcode : checkHeader header = (do
        let payloadData ← recvExact header.payloadSize
        raise (checkInit payloadData)) := by
      rw [checkHeader, if_neg (not_not_intro ht), if_pos hp]
    rw [hcode]
    rcases Nat.lt_or_ge (Feed.data s.arrivals).length header.payloadSize with hlen | hlen
    · obtain ⟨e, c', hread, _, hc'⟩ := recvExact_short hs hlen
      rw [closes_of_error (Eff.run_bind_error hread), hc', hc, Bool.and_true, decide_eq_false_iff_not]
      exact ⟨fun h => .inr ⟨ht, hlen, h⟩, fun h => h.elim (fun h => absurd h.2.1 (by omega))
        fun h => h.2.2⟩
    · obtain ⟨arrivals, _, hread⟩ := recvExact_ok hs hlen
      have hinit := checkInit_ok_iff ((Feed.data s.arrivals).take header.payloadSize)
      cases hx : checkInit ((Feed.data s.arrivals).take header.payloadSize) with
      | ok u =>
        have hrun := Eff.run_bind_ok (f := fun p => raise (checkInit p)) hread
        rw [hx] at hrun
        rw [closes_of_ok hrun]
        exact iff_of_true ⟨ht, hlen, hinit.mp hx⟩ (.inl ⟨ht, hlen, hinit.mp hx⟩)
      | error e =>
        have hrun := Eff.run_bind_ok (f := fun p => raise (checkInit p)) hread
        rw [hx] at hrun hinit
        rw [closes_of_error hrun]
        refine iff_of_false (fun h => ?_) ?_
        · rw [isConnected_socket, hc] at h
          cases h
        · rintro (h | h)
          · cases hinit.mpr h.2.2
          · omega
  · -- a header without a payload is taken for a handshake
    have hrun : (checkHeader header).run c = .ok () c := by
      rw [checkHeader, if_neg (not_not_intro ht), if_neg hp]
      rfl
    rw [closes_of_ok hrun]
    exact ⟨.inl, fun h => h.elim id fun h => absurd h.2.1 (by omega)⟩

theorem closes_initHandshake (hs : c.socket = some s) (hc : c.connected = true) :
    Closes initHandshake c (SendsInit (Feed.data s.arrivals)) ↔
      SendsInit (Feed.data s.arrivals) ∨
        BreaksOff (Feed.data s.arrivals) ∧ s.ending ≠ .timeout := by
  rcases Nat.lt_or_ge (Feed.data s.arrivals).length headerSize with hlen | hlen
  · obtain ⟨e, c', hread, _, hc'⟩ := recvExact_short hs hlen
    have hno : ¬ SendsInit (Feed.data s.arrivals) := by
      rintro ⟨header, hd, _⟩
      have hshort : ((Feed.data s.arrivals).take headerSize).length ≠ headerSize := by
        rw [List.length_take]
        omega
      rw [PyWire.decodeHeader, if_pos hshort] at hd
      cases hd
    rw [initHandshake, closes_of_error (Eff.run_bind_error hread), hc', hc, Bool.and_true,
      decide_eq_false_iff_not]
    exact ⟨fun h => .inr ⟨.inl hlen, h⟩, fun h => h.elim (fun h => absurd h hno) fun h => h.2⟩
  · obtain ⟨arrivals, hdrop, hread⟩ := recvExact_ok hs hlen
    cases hd : PyWire.decodeHeader ((Feed.data s.arrivals).take headerSize) with
    | error x =>
      have hrun : initHandshake.run c =
          .error (.ofHeader x) { c with socket := some { s with arrivals } } := by
        rw [initHandshake, Eff.run_bind_ok hread, hd]
        rfl
      rw [closes_of_error hrun, isConnected_socket, hc]
      refine iff_of_false (fun h => by cases h) ?_
      rintro (⟨_, h, _⟩ | ⟨h | ⟨_, h, _⟩, _⟩)
      · rw [hd] at h
        cases h
      · omega
      · rw [hd] at h
        cases h
    | ok header =>
      have hrun : initHandshake.run c =
          (checkHeader header).run { c with socket := some { s with arrivals } } := by
        rw [initHandshake, Eff.run_bind_ok hread, hd]
        rfl
      have hsends : SendsInit (Feed.data s.arrivals) ↔ IsInit header (Feed.data arrivals) := by
        rw [hdrop]
        constructor
        · rintro ⟨header', hd', h⟩
          rw [hd] at hd'
          cases hd'
          exact h
        · exact fun h => ⟨header, hd, h⟩
      have hbreaks : BreaksOff (Feed.data s.arrivals) ↔ header.msgType = .init ∧
          (Feed.data arrivals).length < header.payloadSize := by
        rw [hdrop]
        refine ⟨fun h => ?_, fun h => .inr ⟨header, hd, h⟩⟩
        rcases h with h | ⟨header', hd', h⟩
        · omega
        · rw [hd] at hd'
          cases hd'
          exact h
      have hcloses : Closes initHandshake c (SendsInit (Feed.data s.arrivals)) ↔
          Closes (checkHeader header) { c with socket := some { s with arrivals } }
            (IsInit header (Feed.data arrivals)) := by
        simp only [Closes, Eff.Ends, hrun, hsends]
      rw [hcloses, hsends, hbreaks, and_assoc]
      exact @closes_checkHeader { c with socket := some { s with arrivals } }
        { s with arrivals } rfl hc header

end

/-! ## What is caught -/

/-- No exception of `x` is a `socket.error`. -/
def Uncaught {α : Type} (x : Except ConnError α) : Prop :=
  ∀ e, x = .error e → e.isSocketError = false

theorem Uncaught.bind {α β : Type} {x : Except ConnError α} {f : α → Except ConnError β}
    (hx : Uncaught x) (hf : ∀ a, Uncaught (f a)) : Uncaught (x >>= f) := by
  intro e he
  cases x with
  | ok a => exact hf a e he
  | error e' =>
    obtain rfl : e' = e := Except.error.inj he
    exact hx e' rfl

theorem Uncaught.throw {α : Type} {e : ConnError} (h : e.isSocketError = false) :
    Uncaught (throw e : Except ConnError α) := by
  intro e' he
  cases he
  exact h

theorem uncaught_decode {α : Type} (d : PyDec α) (buf : Buffer) : Uncaught (decode d buf) := by
  intro e he
  unfold decode at he
  cases hd : d.run buf with
  | ok a buf' =>
    rw [hd] at he
    cases he
  | error e' buf' =>
    rw [hd] at he
    cases he
    rfl

theorem uncaught_checkInit (p : Bytes) : Uncaught (checkInit p) := by
  unfold checkInit
  refine .bind (uncaught_decode _ _) fun ⟨initMagic, buf⟩ => ?_
  dsimp only
  split
  · exact .throw rfl
  refine .bind (uncaught_decode _ _) fun ⟨first, buf⟩ => ?_
  refine .bind (uncaught_decode _ _) fun ⟨current, buf⟩ => ?_
  refine .bind (uncaught_decode _ _) fun ⟨_, buf⟩ => ?_
  refine .bind (uncaught_decode _ _) fun ⟨_, _⟩ => ?_
  dsimp only
  split
  · exact .throw rfl
  split
  · exact .throw rfl
  · intro e he
    cases he

theorem uncaught_header (x : Except HeaderError PyWire.Header) :
    Uncaught (x.mapError ConnError.ofHeader) := by
  intro e he
  cases x with
  | ok header => cases he
  | error e' =>
    cases he
    cases e' <;> rfl

/-- No exception of `x` goes to the handler. -/
def Escapes {α : Type} (x : Py α) : Prop :=
  ∀ c, Eff.Ends x c (fun _ _ => True) fun e _ => e.isSocketError = false

theorem Escapes.bind {α β : Type} {x : Py α} {f : α → Py β} (hx : Escapes x)
    (hf : ∀ a, Escapes (f a)) : Escapes (x >>= f) :=
  fun c => .bind ((hx c).mono (fun a c' _ => hf a c') fun _ _ h => h)

theorem escapes_raise {α : Type} {x : Except ConnError α} (h : Uncaught x) :
    Escapes (raise x) := by
  intro c
  cases x with
  | ok a => exact trivial
  | error e => exact h e rfl

theorem escapes_recvExact (n : Nat) : Escapes (recvExact n) := by
  intro c
  cases hs : c.socket with
  | none =>
    have hrun : (recvExact n).run c = .error (.decoding .attributeError) c := by
      simp only [EStateM.run, recvExact, hs]
    exact .of_error hrun rfl
  | some s =>
    rcases Nat.lt_or_ge (Feed.data s.arrivals).length n with hlen | hlen
    · obtain ⟨e, c', hread, he, _⟩ := recvExact_short hs hlen
      exact .of_error hread he
    · obtain ⟨arrivals, _, hread⟩ := recvExact_ok hs hlen
      exact .of_ok hread trivial

theorem escapes_initHandshake : Escapes initHandshake := by
  unfold initHandshake checkHeader
  refine .bind (escapes_recvExact _) fun headerData => ?_
  refine .bind (escapes_raise (uncaught_header _)) fun header => ?_
  split
  · exact fun _ => rfl
  split
  · exact .bind (escapes_recvExact _) fun p => escapes_raise (uncaught_checkInit p)
  · exact fun _ => trivial

/-! ## `connect` -/

/-- The bytes the server sends. -/
def Server.bytes (server : Server) : Bytes := Feed.data server.arrivals

/-- The connection once the server has accepted it. -/
def accepted (server : Server) (c : ServiceConnection) : ServiceConnection :=
  { c with socket := some ⟨server.arrivals, server.ending⟩, connected := true }

theorem closes_connect_refused {server : Server} {msg : Str} (h : server.refusal = some msg)
    (c : ServiceConnection) (Q : Prop) : Closes (connect server) c Q := by
  have hopen : (openSocket server).run c = .error (.socketError msg)
      { c with socket := some ⟨server.arrivals, server.ending⟩ } := by
    simp only [EStateM.run, openSocket, h]
  have hbody : (attempt server).run c = .error (.socketError msg)
      { c with socket := some ⟨server.arrivals, server.ending⟩ } := Eff.run_bind_error hopen
  have hrun : (connect server).run c = _ := Eff.run_catchIf_error hbody
  rw [closes_of_error hrun]
  rfl

theorem closes_connect_accepted {server : Server} (h : server.refusal = none)
    (c : ServiceConnection) (Q : Prop) :
    Closes (connect server) c Q ↔ Closes initHandshake (accepted server c) Q := by
  have hopen : (openSocket server).run c =
      .ok () { c with socket := some ⟨server.arrivals, server.ending⟩ } := by
    simp only [EStateM.run, openSocket, h]
  have hbody : (attempt server).run c = initHandshake.run (accepted server c) :=
    Eff.run_bind_ok hopen
  have hesc := escapes_initHandshake (accepted server c)
  cases hx : initHandshake.run (accepted server c) with
  | ok u c' =>
    rw [closes_of_ok hx, connect, closes_of_ok (Eff.run_catchIf_ok (hbody.trans hx))]
  | error e c' =>
    have hrun : (connect server).run c = _ := Eff.run_catchIf_error (hbody.trans hx)
    rw [hesc.error hx, if_neg (by decide)] at hrun
    rw [closes_of_error hx, closes_of_error hrun]

/-- An exception of `connect` leaves the connection unconnected, and `connect` returns only
behind an init message with versions that overlap. -/
def Settles (server : Server) (c : ServiceConnection) : Prop :=
  Closes (connect server) c (SendsInit server.bytes)

/-- That is so for a server that refuses, one that sends such an init message, and one that
closes or breaks the connection inside an init message, without first letting `recv` time out. -/
theorem settles_iff (server : Server) (c : ServiceConnection) :
    Settles server c ↔ server.refusal ≠ none ∨ SendsInit server.bytes ∨
      BreaksOff server.bytes ∧ server.ending ≠ .timeout := by
  cases h : server.refusal with
  | some msg =>
    exact iff_of_true (closes_connect_refused h c _) (.inl fun h => by cases h)
  | none =>
    have hinit := @closes_initHandshake (accepted server c) ⟨server.arrivals, server.ending⟩ rfl rfl
    rw [Settles, closes_connect_accepted h]
    refine hinit.trans ⟨.inr, fun h => h.elim (fun h => absurd rfl h) id⟩

/-- A service that asks for version 2.0 at least. -/
def newerServer : Server where
  refusal := none
  arrivals := Feed.putBack ([0x47, 0x4E, 0x4F, 0x53, 0, 1, 0, 0, 16, 0, 0, 0, 0, 0, 0, 0] ++
    [0x47, 0x4E, 0x4F, 0x53, 0, 2, 0, 2, 0, 0, 0, 0, 0, 0, 0, 0]) []
  ending := .closed

def fresh : ServiceConnection := ⟨lit "127.0.0.1", 9000, none, false⟩

theorem not_settles_newerServer : ¬ ∀ (server : Server) (c : ServiceConnection),
    server.refusal = none → Settles server c := by
  intro h
  have hx : (match (connect newerServer).run fresh with
      | .ok _ _ => false
      | .error e c' => e == .versionMismatchError
          (lit "Client version 256 too old, service requires at least 512") && c'.isConnected) =
        true := by
    decide +kernel
  have hs := h newerServer fresh rfl
  unfold Settles at hs
  cases hr : (connect newerServer).run fresh with
  | ok u c' =>
    rw [hr] at hx
    cases hx
  | error e c' =>
    rw [closes_of_error hr] at hs
    rw [hr] at hx
    have hc : c'.isConnected = true := (Bool.and_eq_true_iff.mp hx).2
    rw [hs] at hc
    cases hc

end Song.PyConnection
