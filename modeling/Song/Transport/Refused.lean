import Mathlib.Data.List.Forall2
import Song.Transport.Framing
import Song.Lib.List

/-!
# What follows a refused payload (`transport.cpp`, `wire.cpp`)

The `create_*` functions build messages of any size (`Creation`), and `receive`
refuses a payload over `kMaxPayloadSize` but leaves it on the stream. As long as no
payload is so large, whatever is received was sent, whichever calls throw and
wherever the stream breaks off; and of the sizes for which that is so for all
contents there are no others (`onlySent_iff`): zeros behind a refused header are
messages of their own.
-/

namespace Song

open Feed (Arrival data)
open Inbound

/-! ## The builders -/

/-- A call of one of the `create_*` functions. -/
inductive Creation where
  | init (firstVersion currentVersion : UInt16) (capabilities : UInt32)
      (methods : List MethodDescriptor)
  | initAck (firstVersion currentVersion : UInt16) (capabilities : UInt32)
  | call (seq : UInt32) (serviceId methodId : UInt16) (args : Bytes)
  | result (seq : UInt32) (result : Bytes)
  /-- A longer text makes the function throw. -/
  | error (seq : UInt32) (code : ErrorCode) (msg : Str) (h : msg.length ≤ kMaxStringSize)
  | shutdown
  | stream (seq : UInt32) (chunk : Bytes)
  | streamEnd (seq : UInt32)
  | objectCreate (seq typeId : UInt32) (constructorId : UInt16) (args : Bytes)
  | objectRelease (typeId : UInt32) (objectId : Int32)
  | propertyGet (seq typeId : UInt32) (objectId : Int32) (propertyId : UInt16)
  | propertySet (seq typeId : UInt32) (objectId : Int32) (propertyId : UInt16) (value : Bytes)
  | objectMethod (seq typeId : UInt32) (objectId : Int32) (methodId : UInt16) (args : Bytes)
  | propertySubscribe (typeId : UInt32) (objectId : Int32) (propertyId : UInt16)
  | propertyUnsubscribe (typeId : UInt32) (objectId : Int32) (propertyId : UInt16)
  | propertyNotify (typeId : UInt32) (objectId : Int32) (propertyId : UInt16) (value : Bytes)

namespace Creation

/-- What the function returns. -/
def build : Creation → Except Exn Bytes
  | init first current caps methods => .ok (createInitMessage first current caps methods)
  | initAck first current caps => .ok (createInitAckMessage first current caps)
  | call seq serviceId methodId args => .ok (createCallMessage seq serviceId methodId args)
  | result seq res => .ok (createResultMessage seq res)
  | error seq code msg _ => createErrorMessage seq code msg
  | shutdown => .ok createShutdownMessage
  | stream seq chunk => .ok (createStreamMessage seq chunk)
  | streamEnd seq => .ok (createStreamEndMessage seq)
  | objectCreate seq typeId ctor args => .ok (createObjectCreateMessage seq typeId ctor args)
  | objectRelease typeId id => .ok (createObjectReleaseMessage typeId id)
  | propertyGet seq typeId id prop => .ok (createPropertyGetMessage seq typeId id prop)
  | propertySet seq typeId id prop value =>
    .ok (createPropertySetMessage seq typeId id prop value)
  | objectMethod seq typeId id method args =>
    .ok (createObjectMethodMessage seq typeId id method args)
  | propertySubscribe typeId id prop => .ok (createPropertySubscribeMessage typeId id prop)
  | propertyUnsubscribe typeId id prop => .ok (createPropertyUnsubscribeMessage typeId id prop)
  | propertyNotify typeId id prop value =>
    .ok (createPropertyNotifyMessage typeId id prop value)

def type : Creation → MsgType
  | init .. => .init
  | initAck .. => .initAck
  | call .. => .call
  | result .. => .result
  | error .. => .error
  | shutdown => .shutdown
  | stream .. => .stream
  | streamEnd _ => .streamEnd
  | objectCreate .. => .create
  | objectRelease .. => .release
  | propertyGet .. => .propGet
  | propertySet .. => .propSet
  | objectMethod .. => .objectCall
  | propertySubscribe .. => .propSubscribe
  | propertyUnsubscribe .. => .propUnsubscribe
  | propertyNotify .. => .propNotify

def sequenceId : Creation → UInt32
  | call seq .. | result seq _ | error seq .. | stream seq _ | streamEnd seq
  | objectCreate seq .. | propertyGet seq .. | propertySet seq .. | objectMethod seq .. => seq
  | init .. | initAck .. | shutdown | objectRelease .. | propertySubscribe ..
  | propertyUnsubscribe .. | propertyNotify .. => 0

def payload : Creation → Bytes
  | init first current caps methods =>
    encodeInit ⟨kMagic, first, current, caps, UInt32.ofNat methods.length⟩ ++
      methods.flatMap encodeMethodDescriptor
  | initAck first current caps => encodeInit ⟨kMagic, first, current, caps, 0⟩
  | call _ serviceId methodId args => encodeMethodCall serviceId methodId args
  | result _ res => res
  | error _ code msg _ => encodeU16 code.toU16 ++ (encodeU32 (UInt32.ofNat msg.length) ++ msg)
  | shutdown => []
  | stream _ chunk => chunk
  | streamEnd _ => []
  | objectCreate _ typeId ctor args => encodeObjectCreate typeId ctor args
  | objectRelease typeId id => encodeObjectRelease typeId id
  | propertyGet _ typeId id prop => encodePropertyGet typeId id prop
  | propertySet _ typeId id prop value => encodePropertySet typeId id prop value
  | objectMethod _ typeId id method args => encodeObjectMethod typeId id method args
  | propertySubscribe typeId id prop => encodePropertyGet typeId id prop
  | propertyUnsubscribe typeId id prop => encodePropertyGet typeId id prop
  | propertyNotify typeId id prop value => encodePropertySet typeId id prop value

def frame (c : Creation) : Frame := message c.type c.sequenceId c.payload

/-- The message it builds. -/
def msg (c : Creation) : Bytes := c.frame.bytes

theorem build_eq (c : Creation) : c.build = .ok c.msg := by
  cases c with
  | error seq code msg h => exact createErrorMessage_ok seq code h
  | _ => rfl

/-- The same function, with arguments of the same size. -/
def SameSize (c c' : Creation) : Prop :=
  c.type = c'.type ∧ c.payload.length = c'.payload.length

theorem SameSize.refl (c : Creation) : c.SameSize c := ⟨rfl, rfl⟩

theorem frame_fits {c : Creation} (h : c.payload.length ≤ kMaxPayloadSize) : c.frame.Fits := by
  refine ⟨?_, h⟩
  simp only [kMaxPayloadSize] at h
  simp only [frame, message, UInt32.toNat_ofNat']
  omega

end Creation

/-! ## While every payload is small enough -/

/-- The stream goes on with some of the frames, and may break off. -/
def Behind (frames : List Frame) (s : Inbound) : Prop :=
  ∃ rest, rest ⊆ frames ∧ data s.arrivals <+: rest.flatMap Frame.bytes

/-- Nothing has been returned, or one of the frames. -/
def FromFrames (frames : List Frame) (b : Bool) (s : Inbound) : Prop :=
  b = true → ∃ f ∈ frames, s.msg = .ofBytes f.bytes

section
variable {frames : List Frame} {s : Inbound}

theorem Behind.of_data_nil (h : data s.arrivals = []) : Behind frames s :=
  ⟨[], List.nil_subset _, by rw [h]; exact List.nil_prefix⟩

theorem receiveMessage_behind (hf : ∀ f ∈ frames, f.Fits) (h : Behind frames s) :
    Eff.Ends TcpTransport.receiveMessage s
      (fun b s' => FromFrames frames b s' ∧ Behind frames s') (fun _ s' => Behind frames s') := by
  obtain ⟨rest, hrest, hd⟩ := h
  by_cases hshort : (data s.arrivals).length < 16
  · have hend : data (Feed.readUpTo 16 s.arrivals).2 = [] := by
      rw [Feed.data_readUpTo, List.drop_eq_nil_of_le (by omega)]
    unfold Eff.Ends
    rw [TcpTransport.receiveMessage_short hshort]
    cases s.failure with
    | none => exact ⟨fun hb => (by cases hb), .of_data_nil hend⟩
    | some err => exact .of_data_nil hend
  · cases rest with
    | nil =>
      rw [List.flatMap_nil, List.prefix_nil] at hd
      rw [hd] at hshort
      exact absurd (by decide) hshort
    | cons f rest =>
      obtain ⟨hmem, hrest⟩ := List.cons_subset.mp hrest
      obtain ⟨hsize, hmax⟩ := hf f hmem
      rw [List.flatMap_cons] at hd
      rcases Nat.lt_or_ge (data s.arrivals).length f.bytes.length with hlt | hge
      · -- the stream breaks off inside the payload
        have hpre : data s.arrivals <+: encodeHeader f.hdr ++ f.payload :=
          List.prefix_of_prefix_length_le hd (List.prefix_append _ _) (Nat.le_of_lt hlt)
        obtain ⟨part, hpart⟩ : encodeHeader f.hdr <+: data s.arrivals :=
          List.prefix_of_prefix_length_le (List.prefix_append _ _) hpre
            (by rw [length_encodeHeader]; omega)
        have hlen : part.length < f.hdr.payloadSize.toNat := by
          rw [← hpart, f.length_bytes, List.length_append, length_encodeHeader] at hlt
          omega
        have hsnd : data (Feed.readUpTo 16 s.arrivals).2 = part := by
          rw [Feed.data_readUpTo, ← hpart, List.drop_left' (length_encodeHeader _)]
        refine Eff.Ends.of_error ((TcpTransport.receiveMessage_header hpart.symm).trans
          (receiveBody_short _ (by omega) (by simp only [hsnd]; exact hlen))) ?_
        refine .of_data_nil ?_
        rw [Feed.data_readUpTo]
        simp only [hsnd]
        exact List.drop_eq_nil_of_le (by omega)
      · obtain ⟨rest', hrest'⟩ : f.bytes <+: data s.arrivals :=
          List.prefix_of_prefix_length_le (List.prefix_append _ _) hd hge
        rw [← hrest', List.prefix_append_right_inj] at hd
        obtain ⟨arrivals, hrun, hdata⟩ :=
          TcpTransport.receiveMessage_frame ⟨hsize, hmax⟩ hrest'.symm
        exact Eff.Ends.of_ok hrun ⟨fun _ => ⟨f, hmem, rfl⟩, rest, hrest, by rw [hdata]; exact hd⟩

/-- One call, whatever its wait: it returns one of the frames or none, and the stream goes on
with frames. -/
theorem receive_behind (hf : ∀ f ∈ frames, f.Fits) (wait : Wait) (h : Behind frames s) :
    Eff.Ends (TcpTransport.receive wait) s
      (fun b s' => FromFrames frames b s' ∧ Behind frames s') (fun _ s' => Behind frames s') := by
  have hidle : FromFrames frames false s ∧ Behind frames s := ⟨fun hb => (by cases hb), h⟩
  by_cases hs : s.connected = true
  · by_cases hw : wait.Ready
    · unfold Eff.Ends
      rw [TcpTransport.receive_run hw hs]
      exact receiveMessage_behind hf h
    · have hget : (get : Recv Inbound).run s = .ok s s := rfl
      unfold TcpTransport.receive Eff.Ends
      rw [Eff.run_bind_ok hget, if_pos hs]
      cases wait with
      | forever => exact absurd trivial hw
      | timedOut => exact h
      | failed err => exact h
      | ready pollin pollerr =>
        cases pollin with
        | true => exact absurd (fun _ => rfl) hw
        | false =>
          cases pollerr with
          | true => exact hidle
          | false => exact absurd (fun hp => (by cases hp)) hw
  · have hget : (get : Recv Inbound).run s = .ok s s := rfl
    unfold TcpTransport.receive Eff.Ends
    rw [Eff.run_bind_ok hget, if_neg hs]
    exact hidle

theorem receiveEach_behind (hf : ∀ f ∈ frames, f.Fits) (calls : List (Wait × Buffer))
    (h : Behind frames s) :
    ∀ r ∈ receiveEach TcpTransport.receive calls s,
      r.1 = .ok true → ∃ f ∈ frames, r.2 = .ofBytes f.bytes := by
  induction calls generalizing s with
  | nil => exact fun r hr => (by cases hr)
  | cons c calls ih =>
    obtain ⟨wait, msg⟩ := c
    have hcall := receive_behind (s := { s with msg := msg }) hf wait h
    cases hrun : (TcpTransport.receive wait).run { s with msg := msg } with
    | ok b s' =>
      obtain ⟨hb, hs'⟩ := hcall.ok hrun
      rw [receiveEach_ok hrun]
      refine List.forall_mem_cons.mpr ⟨fun hr => hb ?_, ih hs'⟩
      injection hr
    | error e s' =>
      rw [receiveEach_error hrun]
      exact List.forall_mem_cons.mpr ⟨fun hr => (by cases hr), ih (hcall.error hrun)⟩

end

/-- Whatever part of what these sends put on the stream arrives, in whatever pieces, and
whatever the calls do: a message that a call returns is one of those sent. -/
def OnlySent (msgs : List Bytes) : Prop :=
  ∀ sends : List (List SendCall × Buffer), (sends.map fun x => x.2.data) = msgs →
    ∀ out, (TcpTransport.sendEach sends).run .opened = .ok () out →
    ∀ (arrivals : List (Arrival UInt8)) (failure : Option Str) (calls : List (Wait × Buffer)),
      data arrivals <+: out.written →
      ∀ r ∈ receiveEach TcpTransport.receive calls ⟨true, arrivals, failure, .empty⟩,
        r.1 = .ok true → r.2.data ∈ msgs

theorem onlySent_of_small {cs : List Creation} (h : ∀ c ∈ cs, c.payload.length ≤ kMaxPayloadSize) :
    OnlySent (cs.map Creation.msg) := by
  intro sends hsends out hout arrivals failure calls hd r hr hok
  have hf : ∀ f ∈ cs.map Creation.frame, f.Fits := by
    intro f hf
    obtain ⟨c, hc, rfl⟩ := List.mem_map.mp hf
    exact Creation.frame_fits (h c hc)
  have hwritten : out.written = (cs.map Creation.frame).flatMap Frame.bytes := by
    rw [TcpTransport.sendEach_ok hout, List.flatMap_def, hsends, List.flatMap_def, List.map_map]
    rfl
  rw [hwritten] at hd
  obtain ⟨f, hf, hr2⟩ := receiveEach_behind hf calls
    (s := ⟨true, arrivals, failure, .empty⟩) ⟨_, fun _ h => h, hd⟩ r hr hok
  obtain ⟨c, hc, rfl⟩ := List.mem_map.mp hf
  rw [hr2]
  exact List.mem_map_of_mem hc

/-! ## Zeros behind a header -/

/-- Sixteen zero bytes are a message. -/
def zeroFrame : Frame := ⟨⟨0, ⟨0⟩, ⟨0⟩, 0, 0, 0⟩, []⟩

theorem zeroFrame_fits : zeroFrame.Fits := ⟨rfl, Nat.zero_le _⟩

theorem zeroFrame_bytes : zeroFrame.bytes = List.replicate 16 0 := by decide

/-- Sixteen bytes whose last eight are zero are a message. -/
theorem exists_blankFrame {v : Bytes} (h : v.length = 8) :
    ∃ f : Frame, f.Fits ∧ f.bytes = v ++ List.replicate 8 0 := by
  obtain ⟨hdr, hhdr⟩ := exists_encodeHeader
    (show (v ++ List.replicate 8 0).length = 16 by rw [List.length_append, h]; rfl)
  have htail : encodeU32 hdr.payloadSize ++ encodeU32 hdr.sequenceId = List.replicate 8 0 := by
    have h8 := congrArg (List.drop 8) hhdr
    rw [← h, List.drop_left, h] at h8
    rw [h8, encodeHeader]
    rfl
  have hzero : encodeU32 hdr.payloadSize = encodeU32 0 := by
    have h4 := congrArg (List.take 4) htail
    rw [List.take_left' (length_encodeU32 _)] at h4
    rw [h4]
    decide
  have hsize : hdr.payloadSize = 0 := by
    have h1 : decodeU32.run (.cut [] (encodeU32 hdr.payloadSize ++ [])) =
        .ok hdr.payloadSize (.cut ([] ++ encodeU32 hdr.payloadSize) []) := decodeU32_cut _
    rw [hzero, decodeU32_cut] at h1
    injection h1 with h1
    exact h1.symm
  exact ⟨⟨hdr, []⟩, ⟨by rw [hsize]; rfl, Nat.zero_le _⟩, by
    rw [Frame.bytes, List.append_nil, hhdr]⟩

/-- The stream goes on with a message and then with sixteen zeros. -/
def Blank (stream : Bytes) : Prop :=
  ∃ f : Frame, f.Fits ∧ ∃ rest, stream = f.bytes ++ (List.replicate 16 0 ++ rest)

theorem blank_zeros {n : Nat} (h : 32 ≤ n) (rest : Bytes) :
    Blank (List.replicate n 0 ++ rest) := by
  refine ⟨zeroFrame, zeroFrame_fits, List.replicate (n - 32) 0 ++ rest, ?_⟩
  rw [zeroFrame_bytes, ← List.append_assoc, ← List.append_assoc, ← List.replicate_add,
    ← List.replicate_add, show 16 + 16 + (n - 32) = n by omega]

theorem blank_eight {v : Bytes} (hv : v.length = 8) {n : Nat} (h : 24 ≤ n) (rest : Bytes) :
    Blank (v ++ List.replicate n 0 ++ rest) := by
  obtain ⟨f, hf, hbytes⟩ := exists_blankFrame hv
  refine ⟨f, hf, List.replicate (n - 24) 0 ++ rest, ?_⟩
  rw [hbytes, List.append_assoc, List.append_assoc, ← List.append_assoc (List.replicate 16 0),
    ← List.append_assoc (List.replicate 8 0), ← List.append_assoc (List.replicate 8 0),
    ← List.replicate_add, ← List.replicate_add, show 8 + 16 + (n - 24) = n by omega]

/-- The payload of an init message with no versions and no capabilities is a header. -/
theorem blank_init (count : UInt32) {n : Nat} (h : 16 ≤ n) (rest : Bytes) :
    Blank (encodeInit ⟨kMagic, 0, 0, 0, count⟩ ++ List.replicate n 0 ++ rest) := by
  refine ⟨⟨⟨kMagic, ⟨0⟩, ⟨0⟩, 0, 0, count⟩, []⟩, ⟨rfl, Nat.zero_le _⟩,
    List.replicate (n - 16) 0 ++ rest, ?_⟩
  have hbytes : Frame.bytes ⟨⟨kMagic, ⟨0⟩, ⟨0⟩, 0, 0, count⟩, []⟩ =
      encodeInit ⟨kMagic, 0, 0, 0, count⟩ := by
    have hzero : encodeU16 0 = encodeU8 0 ++ encodeU8 0 := by decide
    rw [Frame.bytes, List.append_nil]
    simp only [encodeHeader, encodeInit, hzero, List.append_assoc]
  rw [hbytes, List.append_assoc, ← List.append_assoc (List.replicate 16 0), ← List.replicate_add,
    show 16 + (n - 16) = n by omega]

theorem drop_zeros_blank {n k : Nat} (hn : kMaxPayloadSize < n)
    (hk : k = 0 ∨ k = n % 2 ^ 32 ∧ k ≤ kMaxPayloadSize) (rest : Bytes) :
    Blank ((List.replicate n 0).drop k ++ rest) := by
  rw [List.drop_replicate]
  simp only [kMaxPayloadSize] at hn hk
  exact blank_zeros (by omega) rest

theorem drop_init_blank (count : UInt32) {m k : Nat} (hn : kMaxPayloadSize < 16 + 8 * m)
    (hk : k = 0 ∨ k = (16 + 8 * m) % 2 ^ 32 ∧ k ≤ kMaxPayloadSize) (rest : Bytes) :
    Blank ((encodeInit ⟨kMagic, 0, 0, 0, count⟩ ++ List.replicate (8 * m) 0).drop k ++ rest) := by
  simp only [kMaxPayloadSize] at hn hk
  rcases (show k = 0 ∨ k = 8 ∨ 16 ≤ k by omega) with rfl | rfl | hge
  · rw [List.drop_zero]
    exact blank_init count (by omega) rest
  · rw [List.drop_append_of_le_length (by rw [length_encodeInit]; omega)]
    exact blank_eight (by rw [List.length_drop, length_encodeInit]) (by omega) rest
  · rw [List.drop_append, List.drop_eq_nil_of_le (by rw [length_encodeInit]; exact hge),
      List.nil_append, length_encodeInit, List.drop_replicate]
    exact blank_zeros (by omega) rest

/-! ## A payload that is too large -/

namespace Creation

/-- What may be left of a payload behind the call that meets its header leaves a message that
nobody sent. -/
def LeavesBlank (c : Creation) : Prop :=
  ∀ k, k = 0 ∨ k = c.payload.length % 2 ^ 32 ∧ k ≤ kMaxPayloadSize →
    ∀ rest, Blank (c.payload.drop k ++ rest)

/-- A payload of as many zeros is one. -/
theorem zeroed {c : Creation} (c' : Creation) {k n : Nat} (h : kMaxPayloadSize < c.payload.length)
    (htype : c.type = c'.type) (hlen : c.payload.length = k + n)
    (hp : c'.payload = List.replicate k 0 ++ List.replicate n 0) :
    c.SameSize c' ∧ c'.LeavesBlank := by
  rw [← List.replicate_add, ← hlen] at hp
  have hlen' : c'.payload.length = c.payload.length := by rw [hp, List.length_replicate]
  refine ⟨⟨htype, hlen'.symm⟩, fun k hk rest => ?_⟩
  rw [hlen'] at hk
  rw [hp]
  exact drop_zeros_blank h hk rest

theorem encodeMethodDescriptor_zeros (n : Nat) :
    (List.replicate n (⟨0, 0, ⟨0⟩, 0⟩ : MethodDescriptor)).flatMap encodeMethodDescriptor =
      List.replicate (8 * n) 0 := by
  induction n with
  | zero => rfl
  | succ n ih =>
    rw [List.replicate_succ, List.flatMap_cons, ih, Nat.mul_succ, Nat.add_comm,
      List.replicate_add]
    rfl

/-- Among the messages of the size of an oversized one there is one with a blank payload. -/
theorem exists_leavesBlank (c : Creation) (h : kMaxPayloadSize < c.payload.length) :
    ∃ c', c.SameSize c' ∧ c'.LeavesBlank := by
  have hshort : ∀ n : Nat, c.payload.length ≤ n → ¬ kMaxPayloadSize ≥ n := by
    intro n h1 h2
    omega
  cases c with
  | init first current caps methods =>
    have hlen : (init first current caps methods).payload.length = 16 + 8 * methods.length := by
      rw [payload, List.length_append, length_encodeInit, length_encodeMethods]
    have hp : (init 0 0 0 (List.replicate methods.length ⟨0, 0, ⟨0⟩, 0⟩)).payload =
        encodeInit ⟨kMagic, 0, 0, 0, UInt32.ofNat methods.length⟩ ++
          List.replicate (8 * methods.length) 0 := by
      rw [payload, encodeMethodDescriptor_zeros, List.length_replicate]
    refine ⟨init 0 0 0 (List.replicate methods.length ⟨0, 0, ⟨0⟩, 0⟩), ⟨rfl, ?_⟩,
      fun k hk rest => ?_⟩
    · rw [hlen, hp, List.length_append, length_encodeInit, List.length_replicate]
    · rw [hp] at hk ⊢
      rw [List.length_append, length_encodeInit, List.length_replicate] at hk
      exact drop_init_blank _ (hlen ▸ h) hk rest
  | initAck first current caps => exact (hshort 16 (by simp [payload]) (by decide)).elim
  | call seq serviceId methodId args =>
    exact ⟨call seq 0 0 (List.replicate args.length 0),
      zeroed _ (k := 4) h rfl (by simp [payload, encodeMethodCall]; omega) rfl⟩
  | result seq res =>
    exact ⟨result seq (List.replicate res.length 0),
      zeroed _ (k := 0) h rfl (by simp [payload]) rfl⟩
  | error seq code msg hmsg =>
    refine (hshort (6 + msg.length) ?_ ?_).elim
    · simp only [payload, List.length_append, length_encodeU16, length_encodeU32]
      omega
    · simp only [kMaxStringSize] at hmsg
      simp only [kMaxPayloadSize]
      omega
  | shutdown => exact (hshort 0 (by simp [payload]) (by decide)).elim
  | stream seq chunk =>
    exact ⟨stream seq (List.replicate chunk.length 0),
      zeroed _ (k := 0) h rfl (by simp [payload]) rfl⟩
  | streamEnd seq => exact (hshort 0 (by simp [payload]) (by decide)).elim
  | objectCreate seq typeId ctor args =>
    exact ⟨objectCreate seq 0 0 (List.replicate args.length 0),
      zeroed _ (k := 8) h rfl (by simp [payload, encodeObjectCreate]; omega) rfl⟩
  | objectRelease typeId id =>
    exact (hshort 8 (by simp [payload, encodeObjectRelease]) (by decide)).elim
  | propertyGet seq typeId id prop =>
    exact (hshort 12 (by simp [payload, encodePropertyGet]) (by decide)).elim
  | propertySet seq typeId id prop value =>
    exact ⟨propertySet seq 0 0 0 (List.replicate value.length 0),
      zeroed _ (k := 12) h rfl (by simp [payload, encodePropertySet]; omega) rfl⟩
  | objectMethod seq typeId id method args =>
    exact ⟨objectMethod seq 0 0 0 (List.replicate args.length 0),
      zeroed _ (k := 12) h rfl (by simp [payload, encodeObjectMethod]; omega) rfl⟩
  | propertySubscribe typeId id prop =>
    exact (hshort 12 (by simp [payload, encodePropertyGet]) (by decide)).elim
  | propertyUnsubscribe typeId id prop =>
    exact (hshort 12 (by simp [payload, encodePropertyGet]) (by decide)).elim
  | propertyNotify typeId id prop value =>
    exact ⟨propertyNotify 0 0 0 (List.replicate value.length 0),
      zeroed _ (k := 12) h rfl (by simp [payload, encodePropertySet]; omega) rfl⟩

/-- The message starts with the magic. -/
theorem msg_ne_zeros (c : Creation) : c.msg ≠ List.replicate 16 0 := by
  intro h
  have hmagic := congrArg (List.take 4) h
  rw [msg, Frame.bytes, encodeHeader, List.append_assoc,
    List.take_left' (length_encodeU32 _)] at hmagic
  have hne : encodeU32 kMagic ≠ (List.replicate 16 0).take 4 := by decide
  exact hne hmagic

end Creation

section
variable {s : Inbound}

/-- The call that meets the header leaves the payload if it is refused, else all but its size
modulo `2 ^ 32`. -/
theorem receive_large (c : Creation) (calls : List (Wait × Buffer)) (hs : s.connected = true)
    {rest : Bytes}
    (hd : data s.arrivals = c.msg ++ rest) :
    ∃ k, (k = 0 ∨ k = c.payload.length % 2 ^ 32 ∧ k ≤ kMaxPayloadSize) ∧ ∃ s' r,
      receiveEach TcpTransport.receive ((.forever, .empty) :: calls) s =
        r :: receiveEach TcpTransport.receive calls s' ∧
      s'.connected = true ∧ data s'.arrivals = c.payload.drop k ++ rest := by
  have hsize : c.frame.hdr.payloadSize.toNat = c.payload.length % 2 ^ 32 := by
    simp only [Creation.frame, message, UInt32.toNat_ofNat']
  have hrun := TcpTransport.receive_run (s := { s with msg := .empty })
    (show Wait.forever.Ready from trivial) hs
  rcases Nat.lt_or_ge kMaxPayloadSize (c.payload.length % 2 ^ 32) with hbig | hle
  · have hrefused : (TcpTransport.receive .forever).run { s with msg := .empty } =
        .error TcpTransport.payloadExns.tooLarge { s with
          arrivals := (Feed.readUpTo 16 s.arrivals).2
          msg := .cut (encodeHeader c.frame.hdr) [] } := by
      have hheader := TcpTransport.receiveMessage_header (s := { s with msg := .empty })
        (hd.trans (List.append_assoc _ _ _))
      rw [hrun, hheader, receiveBody_refused _ (by rw [hsize]; exact hbig)]
    refine ⟨0, .inl rfl, _, _, receiveEach_error hrefused, hs, ?_⟩
    · rw [Feed.data_readUpTo, hd, Creation.msg, Frame.bytes, List.append_assoc,
        List.drop_left' (length_encodeHeader _), List.drop_zero]
      rfl
  · -- the announced size is not the payload's, and so much of it is returned
    have hd' : data s.arrivals =
        (⟨c.frame.hdr, c.payload.take (c.payload.length % 2 ^ 32)⟩ : Frame).bytes ++
          (c.payload.drop (c.payload.length % 2 ^ 32) ++ rest) := by
      rw [hd, Frame.bytes, List.append_assoc, ← List.append_assoc (List.take _ _),
        List.take_append_drop, Creation.msg, Frame.bytes, List.append_assoc]
      rfl
    have hlen : (c.payload.take (c.payload.length % 2 ^ 32)).length =
        c.payload.length % 2 ^ 32 := by
      rw [List.length_take]
      exact Nat.min_eq_left (Nat.mod_le _ _)
    have hfits : (⟨c.frame.hdr, c.payload.take (c.payload.length % 2 ^ 32)⟩ : Frame).Fits :=
      ⟨hsize.trans hlen.symm, Nat.le_trans (Nat.le_of_eq hlen) hle⟩
    obtain ⟨arrivals, hframe, hrest⟩ := TcpTransport.receiveMessage_frame
      (s := { s with msg := .empty }) hfits hd'
    exact ⟨_, .inr ⟨rfl, hle⟩, _, _, receiveEach_ok (hrun.trans hframe), hs, hrest⟩

end

/-- One message with a blank payload makes a call return sixteen zeros. -/
theorem not_onlySent (pre post : List Creation) {c : Creation}
    (hpre : ∀ c ∈ pre, c.payload.length ≤ kMaxPayloadSize) (hblank : c.LeavesBlank) :
    ¬ OnlySent ((pre ++ c :: post).map Creation.msg) := by
  intro h
  let sends : List (List SendCall × Buffer) :=
    ((pre ++ c :: post).map Creation.msg).map fun m => ([], .ofBytes m)
  have hsends : (sends.map fun x => x.2.data) = (pre ++ c :: post).map Creation.msg := by
    rw [List.map_map]
    exact List.map_id _
  have hproceeds : ∀ x ∈ sends, ∀ c ∈ x.1, c.Proceeds := by
    intro x hx
    obtain ⟨m, -, rfl⟩ := List.mem_map.mp hx
    exact fun c hc => (by cases hc)
  have hsent := TcpTransport.sendEach_run (s := .opened) hproceeds rfl
  let wire : Bytes := sends.flatMap fun x => x.2.data
  have hwire : wire = (pre.map Creation.frame).flatMap Frame.bytes ++
      (c.msg ++ post.flatMap Creation.msg) := by
    show (sends.flatMap fun x => x.2.data) = _
    rw [List.flatMap_def, hsends, List.map_append, List.map_cons, List.flatten_append,
      List.flatten_cons, List.flatMap_def, List.flatMap_def, List.map_map]
    rfl
  let call : Wait × Buffer := (.forever, .empty)
  have hready : ∀ n, ∀ x ∈ List.replicate n call, x.1.Ready := by
    intro n x hx
    rw [List.eq_of_mem_replicate hx]
    trivial
  -- the messages in front, the oversized one, and two more calls
  obtain ⟨arrivals, hd, hfront⟩ := TcpTransport.receiveEach_frames
    (s := .opened (Feed.putBack wire [])) (pre.map Creation.frame)
    (List.replicate pre.length call) (call :: [call, call])
    (c.msg ++ post.flatMap Creation.msg) (by
      intro f hf
      obtain ⟨c, hc, rfl⟩ := List.mem_map.mp hf
      exact Creation.frame_fits (hpre c hc))
    (by rw [List.length_replicate, List.length_map]) (hready _) rfl
    (by
      show data (Feed.putBack wire []) = _
      rw [Feed.data_putBack, hwire]
      exact List.append_nil _)
  obtain ⟨k, hk, s', r, hlarge, hs', hd'⟩ := receive_large c [call, call]
    (s := { Inbound.opened (Feed.putBack wire []) with arrivals := arrivals }) rfl hd
  obtain ⟨f, hf, rest, heq⟩ := hblank k hk (post.flatMap Creation.msg)
  obtain ⟨arrivals', -, hback⟩ := TcpTransport.receiveEach_frames (s := s')
    [f, zeroFrame] [call, call] [] rest
    (List.forall_mem_cons.mpr ⟨hf, List.forall_mem_singleton.mpr zeroFrame_fits⟩) rfl
    (hready 2) hs' (by
      rw [hd', heq, List.flatMap_cons, List.flatMap_cons, List.flatMap_nil, List.append_nil,
        zeroFrame_bytes, List.append_assoc])
  have hmem := h sends hsends _ hsent (Feed.putBack wire []) none
    (List.replicate pre.length call ++ call :: [call, call])
    (by
      show data (Feed.putBack wire []) <+: [] ++ wire
      rw [Feed.data_putBack]
      exact ⟨[], by rw [List.append_nil]; exact List.append_nil _⟩)
    (returned zeroFrame.bytes)
    (by
      show _ ∈ receiveEach _ _ (.opened (Feed.putBack wire []))
      rw [hfront, hlarge]
      refine List.mem_append_right _ (List.mem_cons_of_mem _ ?_)
      rw [List.append_nil] at hback
      rw [hback]
      simp) rfl
  obtain ⟨c', -, hc'⟩ := List.mem_map.mp hmem
  exact c'.msg_ne_zeros (hc'.trans zeroFrame_bytes)

/-- Messages of these sizes are received as sent, whatever their contents, if and only if no
payload is over the limit. -/
theorem onlySent_iff (cs : List Creation) :
    (∀ cs', List.Forall₂ Creation.SameSize cs cs' → OnlySent (cs'.map Creation.msg)) ↔
      ∀ c ∈ cs, c.payload.length ≤ kMaxPayloadSize := by
  constructor
  · intro h
    rcases List.forall_or_first (fun c : Creation => c.payload.length ≤ kMaxPayloadSize) cs with
      hsmall | ⟨pre, c, post, rfl, hpre, hc⟩
    · exact hsmall
    · have hlarge : kMaxPayloadSize < c.payload.length := by omega
      obtain ⟨c', hsame, hblank⟩ := c.exists_leavesBlank hlarge
      have hrefl : ∀ l : List Creation, List.Forall₂ Creation.SameSize l l := fun l =>
        List.forall₂_same.mpr fun c _ => .refl c
      exact absurd (h (pre ++ c' :: post) (List.rel_append (hrefl pre) (.cons hsame (hrefl post))))
        (not_onlySent pre post hpre hblank)
  · intro h cs' hcs
    refine onlySent_of_small ?_
    induction hcs with
    | nil => exact fun c hc => (by cases hc)
    | cons hsame _ ih =>
      obtain ⟨hc, hcs⟩ := List.forall_mem_cons.mp h
      exact List.forall_mem_cons.mpr ⟨hsame.2 ▸ hc, ih hcs⟩

theorem not_onlySent_zeros {n : Nat} (h : kMaxPayloadSize < n) :
    ¬ OnlySent ([Creation.result 1 (List.replicate n 0)].map Creation.msg) := by
  have hlen : (Creation.result 1 (List.replicate n 0)).payload.length = n := List.length_replicate
  have hblank := (Creation.zeroed (c := .result 1 (List.replicate n 0))
    (.result 1 (List.replicate n 0)) (k := 0) (n := n) (by rw [hlen]; exact h) rfl
    (by rw [hlen, Nat.zero_add]) rfl).2
  exact not_onlySent [] [] (fun c hc => (by cases hc)) hblank

/-- Behind the refused header of a result of zeros a call returns a message of zeros. -/
theorem not_onlySent_largeResult : ¬ ∀ cs : List Creation, OnlySent (cs.map Creation.msg) :=
  fun h => not_onlySent_zeros (Nat.lt_succ_self kMaxPayloadSize) (h _)

end Song
