import Song.Connection

/-!
# The reply of a two-way operation

`recv_reply` delivers well-formed notifications until a frame of another kind
comes, and takes that frame if it is valid and carries the request's sequence
id. So an operation returns exactly when the messages start with a run of
notifications followed by its own result.
-/

namespace Song

variable {κ α : Type}

/-! ## Messages as a connection sees them -/

/-- A property header and what follows it. -/
def propertyPayload (typeId : UInt32) (key : SubscriptionKey) (reserved : UInt16)
    (value : Bytes) : Bytes :=
  encodeU32 typeId ++ (encodeI32 key.objectId ++ (encodeU16 key.propertyId ++
    (encodeU16 reserved ++ value)))

/-- A well-formed `MSG_PROP_NOTIFY` for `key`. -/
def IsNotify (msg : Bytes) (key : SubscriptionKey) (value : Bytes) : Prop :=
  ∃ f : Frame, msg = f.bytes ∧ f.Valid ∧ f.hdr.type = .propNotify ∧
    ∃ typeId reserved, f.payload = propertyPayload typeId key reserved value

/-- A valid frame that is not a notification: what `recv_reply` compares with its request. -/
def Frame.IsAnswer (f : Frame) : Prop := f.Valid ∧ f.hdr.type ≠ .propNotify

theorem exists_propertyPayload {payload : Bytes} (h : 12 ≤ payload.length) :
    ∃ typeId key reserved value, payload = propertyPayload typeId key reserved value := by
  obtain ⟨typeId, w, rfl⟩ := exists_encodeU32 (show 4 ≤ payload.length by omega)
  simp only [List.length_append, length_encodeU32] at h
  obtain ⟨objectId, w, rfl⟩ := exists_encodeI32 (show 4 ≤ w.length by omega)
  simp only [List.length_append, length_encodeI32] at h
  obtain ⟨propertyId, w, rfl⟩ := exists_encodeU16 (show 2 ≤ w.length by omega)
  simp only [List.length_append, length_encodeU16] at h
  obtain ⟨reserved, value, rfl⟩ := exists_encodeU16 (show 2 ≤ w.length by omega)
  exact ⟨typeId, ⟨objectId, propertyId⟩, reserved, value, rfl⟩

/-! ## Notifications -/

/-- The invocation a notification causes, if its property has a callback. -/
def Conn.invocation (c : Conn κ) (n : SubscriptionKey × Bytes) : Option (κ × Bytes) :=
  (c.propCallbacks.lookup n.1).map fun callback => (callback, n.2)

/-- The connection after these notifications. -/
def Conn.notified (c : Conn κ) (ns : List (SubscriptionKey × Bytes)) : Conn κ :=
  { c with invoked := c.invoked ++ ns.filterMap c.invocation }

@[simp] theorem Conn.notified_nil (c : Conn κ) : c.notified [] = c := by
  simp [Conn.notified]

theorem Conn.notified_notified (c : Conn κ) (ms ns : List (SubscriptionKey × Bytes)) :
    (c.notified ms).notified ns = c.notified (ms ++ ns) := by
  show { c with invoked := c.invoked ++ ms.filterMap c.invocation ++ ns.filterMap c.invocation } =
    { c with invoked := c.invoked ++ (ms ++ ns).filterMap c.invocation }
  rw [List.filterMap_append, List.append_assoc]

theorem dispatchNotification_run (pre : Bytes) (typeId : UInt32) (key : SubscriptionKey)
    (reserved : UInt16) (value : Bytes) (c : Conn κ) :
    (dispatchNotification (.cut pre (propertyPayload typeId key reserved value))).run c =
      .ok () (c.notified [(key, value)]) := by
  obtain ⟨pre', h⟩ : ∃ pre', decodePropertyHeader.run
      (.cut pre (propertyPayload typeId key reserved value)) =
        .ok ⟨typeId, key.objectId, key.propertyId, reserved⟩ (.cut pre' value) :=
    decodePropertyHeader_cut pre ⟨typeId, key.objectId, key.propertyId, reserved⟩ value
  unfold dispatchNotification
  rw [decodeThen_ok h]
  simp only [EStateM.run, invokeCallback, Buffer.cut_unread, Conn.notified, Conn.invocation, List.filterMap_cons,
    List.filterMap_nil]
  cases c.propCallbacks.lookup key with
  | none => simp
  | some callback => simp

theorem dispatchNotification_short {payload : Bytes} (h : payload.length < 12) (pre : Bytes)
    (c : Conn κ) :
    (dispatchNotification (.cut pre payload)).run c = .error underflow c := by
  obtain ⟨b, hb⟩ := Fixed.decodePropertyHeader.short pre payload h
  unfold dispatchNotification
  rw [decodeThen_error hb]
  rfl

/-! ## One iteration of `recv_reply` -/

theorem recvReplyBody_notify {msg : Bytes} {key : SubscriptionKey} {value : Bytes}
    (h : IsNotify msg key value) (seq : UInt32) (c : Conn κ) :
    (recvReplyBody seq msg).run c = .ok none (c.notified [(key, value)]) := by
  obtain ⟨f, rfl, hv, ht, typeId, reserved, hp⟩ := h
  unfold recvReplyBody
  rw [decodeThen_ok (f.decodeHeaderValidated_bytes hv), if_pos ht, hp]
  exact Eff.run_bind_ok (dispatchNotification_run _ _ _ _ _ c)

theorem recvReplyBody_own {f : Frame} (h : f.IsAnswer) (c : Conn κ) :
    (recvReplyBody f.hdr.sequenceId f.bytes).run c = .ok (some (.ofBytes f.bytes)) c := by
  unfold recvReplyBody
  rw [decodeThen_ok (f.decodeHeaderValidated_bytes h.1), if_neg h.2, if_neg (by simp)]
  rfl

theorem recvReplyBody_other {f : Frame} (h : f.IsAnswer) {seq : UInt32}
    (hs : f.hdr.sequenceId ≠ seq) (c : Conn κ) :
    (recvReplyBody seq f.bytes).run c = .error seqMismatch c := by
  unfold recvReplyBody
  rw [decodeThen_ok (f.decodeHeaderValidated_bytes h.1), if_neg h.2, if_pos hs]
  rfl

/-- A message is a notification, an answer, or one `recv_reply` throws on. -/
theorem message_cases (msg : Bytes) :
    (∃ key value, IsNotify msg key value) ∨ (∃ f : Frame, msg = f.bytes ∧ f.IsAnswer) ∨
      ∀ (seq : UInt32) (c : Conn κ), ∃ e, (recvReplyBody seq msg).run c = .error e c := by
  rcases Nat.lt_or_ge msg.length 16 with hl | hl
  · right; right
    intro seq c
    obtain ⟨b, hb⟩ := Fixed.decodeHeader.short [] msg hl
    have hd : decodeHeaderValidated.run (.ofBytes msg) = .error underflow b :=
      Eff.run_bind_error hb
    refine ⟨underflow, ?_⟩
    rw [recvReplyBody, decodeThen_error hd]
    rfl
  obtain ⟨f, rfl⟩ := exists_frame hl
  by_cases hv : f.Valid
  · by_cases ht : f.hdr.type = .propNotify
    · by_cases hp : f.payload.length < 12
      · right; right
        intro seq c
        refine ⟨underflow, ?_⟩
        unfold recvReplyBody
        rw [decodeThen_ok (f.decodeHeaderValidated_bytes hv), if_pos ht]
        exact Eff.run_bind_error (dispatchNotification_short hp _ c)
      · left
        obtain ⟨typeId, key, reserved, value, h⟩ :=
          exists_propertyPayload (show 12 ≤ f.payload.length by omega)
        exact ⟨key, value, f, rfl, hv, ht, typeId, reserved, h⟩
    · right; left
      exact ⟨f, rfl, hv, ht⟩
  · right; right
    intro seq c
    obtain ⟨e, he⟩ := f.decodeHeaderValidated_invalid hv
    refine ⟨e, ?_⟩
    rw [recvReplyBody, decodeThen_error he]
    rfl

/-! ## The loop -/

theorem receiveLoop_none {dry : Exn} {body : Bytes → Cli κ (Option α)} {msg : Bytes}
    {msgs : List Bytes} {c c' : Conn κ}
    (h : (body msg).run { c with incoming := msgs } = .ok none c') :
    (receiveLoop dry body (msg :: msgs)).run c = (receiveLoop dry body msgs).run c' := by
  have ht : (takeIncoming msgs : Cli κ Unit).run c = .ok () { c with incoming := msgs } := rfl
  rw [receiveLoop, Eff.run_bind_ok ht, Eff.run_bind_ok h]

theorem receiveLoop_some {dry : Exn} {body : Bytes → Cli κ (Option α)} {msg : Bytes}
    {msgs : List Bytes} {c c' : Conn κ} {a : α}
    (h : (body msg).run { c with incoming := msgs } = .ok (some a) c') :
    (receiveLoop dry body (msg :: msgs)).run c = .ok a c' := by
  have ht : (takeIncoming msgs : Cli κ Unit).run c = .ok () { c with incoming := msgs } := rfl
  rw [receiveLoop, Eff.run_bind_ok ht, Eff.run_bind_ok h]
  rfl

theorem receiveLoop_error {dry : Exn} {body : Bytes → Cli κ (Option α)} {msg : Bytes}
    {msgs : List Bytes} {c c' : Conn κ} {e : Exn}
    (h : (body msg).run { c with incoming := msgs } = .error e c') :
    (receiveLoop dry body (msg :: msgs)).run c = .error e c' := by
  have ht : (takeIncoming msgs : Cli κ Unit).run c = .ok () { c with incoming := msgs } := rfl
  rw [receiveLoop, Eff.run_bind_ok ht, Eff.run_bind_error h]

/-- `msgs` are well-formed notifications, carrying `ns`. -/
abbrev Notifies (msgs : List Bytes) (ns : List (SubscriptionKey × Bytes)) : Prop :=
  List.Forall₂ (fun msg n => IsNotify msg n.1 n.2) msgs ns

/-- The connection once `ns` are delivered and `rest` is still incoming. -/
def Conn.advanced (c : Conn κ) (ns : List (SubscriptionKey × Bytes)) (rest : List Bytes) :
    Conn κ :=
  { c.notified ns with incoming := rest }

theorem Conn.advanced_nil {c : Conn κ} {rest : List Bytes} (h : c.incoming = rest) :
    c.advanced [] rest = c := by
  rw [Conn.advanced, Conn.notified_nil, ← h]

theorem Conn.advanced_advanced (c : Conn κ) (ms ns : List (SubscriptionKey × Bytes))
    (rest rest' : List Bytes) :
    (c.advanced ms rest).advanced ns rest' = c.advanced (ms ++ ns) rest' := by
  have h := congrArg (fun d : Conn κ => { d with incoming := rest' }) (c.notified_notified ms ns)
  exact h

/-- The notifications in front are delivered, and the loop goes on behind them. -/
theorem recvReply_notifies {dry : Exn} {seq : UInt32} {msgs rest : List Bytes}
    {ns : List (SubscriptionKey × Bytes)} (h : Notifies msgs ns) {c : Conn κ}
    (hc : c.incoming = msgs ++ rest) :
    (receiveLoop dry (recvReplyBody seq) (msgs ++ rest)).run c =
      (receiveLoop dry (recvReplyBody seq) rest).run (c.advanced ns rest) := by
  induction h generalizing c with
  | nil =>
    rw [List.nil_append] at hc
    rw [Conn.advanced_nil hc]
    rfl
  | @cons msg n msgs ns hn _ ih =>
    have hb : (recvReplyBody seq msg).run { c with incoming := msgs ++ rest } =
        .ok none (c.advanced [n] (msgs ++ rest)) := recvReplyBody_notify hn seq _
    rw [List.cons_append, receiveLoop_none hb, ih rfl, Conn.advanced_advanced]
    rfl

/-- Every list of messages starts with a run of notifications. -/
theorem exists_notifies (incoming : List Bytes) :
    ∃ msgs ns tail, incoming = msgs ++ tail ∧ Notifies msgs ns ∧
      ∀ msg ∈ tail.head?, ¬ ∃ key value, IsNotify msg key value := by
  induction incoming with
  | nil => exact ⟨[], [], [], rfl, .nil, fun msg h => by cases h⟩
  | cons msg incoming ih =>
    by_cases hm : ∃ key value, IsNotify msg key value
    · obtain ⟨key, value, hn⟩ := hm
      obtain ⟨msgs, ns, tail, rfl, h, ht⟩ := ih
      exact ⟨msg :: msgs, (key, value) :: ns, tail, rfl, .cons hn h, ht⟩
    · refine ⟨[], [], msg :: incoming, rfl, .nil, fun m hm' => ?_⟩
      cases hm'
      exact hm

/-- `recv_reply` returns exactly when its answer follows a run of notifications. -/
theorem recvReply_ok_iff (link : Link) (seq : UInt32) (c c' : Conn κ) (response : Buffer) :
    (recvReply link seq).run c = .ok response c' ↔
      ∃ msgs ns f rest, c.incoming = msgs ++ Frame.bytes f :: rest ∧ Notifies msgs ns ∧
        f.IsAnswer ∧ f.hdr.sequenceId = seq ∧ response = .ofBytes f.bytes ∧
        c' = c.advanced ns rest := by
  constructor
  · intro h
    obtain ⟨msgs, ns, tail, hin, hns, htail⟩ := exists_notifies c.incoming
    have hrun : (recvReply link seq).run c = (receiveLoop
        (link.dry.getD (.serviceError (lit "Service died or timed out"))) (recvReplyBody seq)
          tail).run (c.advanced ns tail) := by
      show (receiveLoop _ (recvReplyBody seq) c.incoming).run c = _
      rw [hin, recvReply_notifies hns hin]
    rw [hrun] at h
    cases tail with
    | nil => cases h
    | cons msg rest =>
      rcases message_cases msg with ⟨key, value, hn⟩ | ⟨f, rfl, hf⟩ | hbad
      · exact absurd ⟨key, value, hn⟩ (htail msg rfl)
      · by_cases hs : f.hdr.sequenceId = seq
        · subst hs
          rw [receiveLoop_some (recvReplyBody_own hf _)] at h
          cases h
          exact ⟨msgs, ns, f, rest, hin, hns, hf, rfl, rfl, rfl⟩
        · rw [receiveLoop_error (recvReplyBody_other hf hs _)] at h
          cases h
      · obtain ⟨e, he⟩ := hbad seq { c.advanced ns (msg :: rest) with incoming := rest }
        rw [receiveLoop_error he] at h
        cases h
  · rintro ⟨msgs, ns, f, rest, hin, hns, hf, rfl, rfl, rfl⟩
    show (receiveLoop _ (recvReplyBody _) c.incoming).run c = _
    rw [hin, recvReply_notifies hns hin]
    exact receiveLoop_some (recvReplyBody_own hf _)

/-! ## The request -/

/-- A request can be sent: the process or transport is there and up, and takes the message. -/
def Link.Ready (link : Link) (c : Conn κ) : Prop :=
  link.channel ≠ .none ∧ link.up = true ∧ link.sendOutcome c.attempts = none

/-- The connection once the request is sent. -/
def Conn.requested (c : Conn κ) (message : UInt32 → Bytes) : Conn κ :=
  { c with nextSeq := c.nextSeq + 1, attempts := c.attempts + 1,
           sent := c.sent ++ [message c.nextSeq] }

theorem checkLink_ok {link : Link} (hch : link.channel ≠ .none) (hup : link.up = true)
    (c : Conn κ) : (checkLink link : Cli κ Unit).run c = .ok () c := by
  unfold checkLink
  cases hl : link.channel with
  | process => simp only [hup, ↓reduceIte]; rfl
  | transport => simp only [hup, ↓reduceIte]; rfl
  | none => exact absurd hl hch

theorem checkLink_error {link : Link} (h : ¬ (link.channel ≠ .none ∧ link.up = true))
    (c : Conn κ) : ∃ e, (checkLink link : Cli κ Unit).run c = .error e c := by
  unfold checkLink
  cases hl : link.channel with
  | process =>
    have hup : ¬ link.up = true := fun hup => h ⟨by rw [hl]; exact Channel.noConfusion, hup⟩
    simp only [hup, Bool.false_eq_true, ↓reduceIte]
    exact ⟨_, rfl⟩
  | transport =>
    have hup : ¬ link.up = true := fun hup => h ⟨by rw [hl]; exact Channel.noConfusion, hup⟩
    simp only [hup, Bool.false_eq_true, ↓reduceIte]
    exact ⟨_, rfl⟩
  | none => exact ⟨_, rfl⟩

theorem request_ok {link : Link} {c : Conn κ} (h : link.Ready c) (message : UInt32 → Bytes) :
    (request link message).run c = .ok c.nextSeq (c.requested message) := by
  have hs : (sendMessage link (message c.nextSeq)).run { c with nextSeq := c.nextSeq + 1 } =
      .ok () (c.requested message) := by
    simp only [EStateM.run, sendMessage, h.2.2]
    rfl
  have ht : (takeSeq : Cli κ UInt32).run c = .ok c.nextSeq { c with nextSeq := c.nextSeq + 1 } :=
    rfl
  rw [request, Eff.run_bind_ok (checkLink_ok h.1 h.2.1 c), Eff.run_bind_ok ht,
    Eff.run_bind_ok hs]
  rfl

theorem request_error {link : Link} {c : Conn κ} (h : ¬ link.Ready c)
    (message : UInt32 → Bytes) : ∃ e c', (request link message).run c = .error e c' := by
  by_cases hl : link.channel ≠ .none ∧ link.up = true
  · cases hso : link.sendOutcome c.attempts with
    | none => exact absurd ⟨hl.1, hl.2, hso⟩ h
    | some e =>
      have hs : (sendMessage link (message c.nextSeq)).run { c with nextSeq := c.nextSeq + 1 } =
          .error e { c with nextSeq := c.nextSeq + 1, attempts := c.attempts + 1 } := by
        simp only [EStateM.run, sendMessage, hso]
      have ht : (takeSeq : Cli κ UInt32).run c =
          .ok c.nextSeq { c with nextSeq := c.nextSeq + 1 } := rfl
      refine ⟨e, { c with nextSeq := c.nextSeq + 1, attempts := c.attempts + 1 }, ?_⟩
      rw [request, Eff.run_bind_ok (checkLink_ok hl.1 hl.2 c), Eff.run_bind_ok ht]
      exact Eff.run_bind_error hs
  · obtain ⟨e, he⟩ := checkLink_error hl c
    exact ⟨e, c, Eff.run_bind_error he⟩

/-! ## Two-way operations -/

theorem underflow_ne_seqMismatch {e : Exn} (h : e = underflow) : e ≠ seqMismatch := by
  rw [h]
  exact Exn.noConfusion

theorem decodeString_ends (b : Buffer) :
    Eff.Ends decodeString b (fun _ _ => True) fun e _ => e ≠ seqMismatch := by
  refine .bind ((Fixed.decodeU32.ends b).mono (fun len b' _ => ?_)
    fun e _ he => underflow_ne_seqMismatch he)
  split
  · exact .bind (.throw Exn.noConfusion)
  · exact .bind (.pure (((Fixed.read _).ends b').mono (fun _ _ h => h)
      fun e _ he => underflow_ne_seqMismatch he))

/-- Decoding an error message throws in any case, and never the mismatch of `recv_reply`. -/
theorem throwServiceError_ends (errorText : Str) (b : Buffer) :
    Eff.Ends (throwServiceError errorText) b (fun _ _ => False) fun e _ => e ≠ seqMismatch := by
  refine .bind ((Fixed.decodeU16.ends b).mono (fun code b' _ => ?_)
    fun e _ he => underflow_ne_seqMismatch he)
  exact .bind ((decodeString_ends b').mono (fun _ _ _ => .throw Exn.noConfusion)
    fun _ _ he => he)

theorem throwServiceError_throws (errorText : Str) (b : Buffer) :
    ∃ e b', (throwServiceError errorText).run b = .error e b' ∧ e ≠ seqMismatch := by
  have h := throwServiceError_ends errorText b
  cases hr : (throwServiceError errorText).run b with
  | ok a b' => exact (h.ok hr).elim
  | error e b' => exact ⟨e, b', rfl, h.error hr⟩

theorem expectResult_run {f : Frame} (hv : f.Valid) (op : Op) :
    (f.hdr.type = .result ∧ (expectResult op).run (.ofBytes f.bytes) =
        .ok () (.cut (encodeHeader f.hdr) f.payload)) ∨
      f.hdr.type ≠ .result ∧ ∃ e b, (expectResult op).run (.ofBytes f.bytes) = .error e b ∧
        (f.hdr.type = .error → e ≠ seqMismatch) := by
  rw [expectResult, Eff.run_bind_ok (f.decodeHeaderValidated_bytes hv)]
  by_cases he : f.hdr.type = .error
  · right
    refine ⟨by rw [he]; decide, ?_⟩
    rw [if_pos he]
    obtain ⟨e, b, hr, hne⟩ := throwServiceError_throws op.errorText
      (.cut (encodeHeader f.hdr) f.payload)
    exact ⟨e, b, hr, fun _ => hne⟩
  · rw [if_neg he]
    by_cases hr : f.hdr.type = .result
    · left
      refine ⟨hr, ?_⟩
      rw [if_neg (not_not_intro hr)]
      rfl
    · right
      refine ⟨hr, ?_⟩
      rw [if_pos hr]
      exact ⟨_, _, rfl, fun ht => absurd ht he⟩

theorem twoWay_ok_iff (link : Link) (op : Op) (c c' : Conn κ) (response : Buffer) :
    (twoWay link op).run c = .ok response c' ↔
      link.Ready c ∧ ∃ msgs ns f rest, c.incoming = msgs ++ Frame.bytes f :: rest ∧
        Notifies msgs ns ∧ f.Valid ∧ f.hdr.type = .result ∧ f.hdr.sequenceId = c.nextSeq ∧
        response = .cut (encodeHeader f.hdr) f.payload ∧
        c' = (c.requested op.message).advanced ns rest := by
  by_cases hr : link.Ready c
  · have hreq : (twoWay link op).run c = (do
        let response ← recvReply link c.nextSeq
        decodeThen (expectResult op) response fun _ rest => pure rest : Cli κ Buffer).run
          (c.requested op.message) := by
      rw [twoWay, Eff.run_bind_ok (request_ok hr op.message)]
    rw [hreq]
    constructor
    · intro h
      refine ⟨hr, ?_⟩
      cases hrecv : (recvReply link c.nextSeq).run (c.requested op.message) with
      | error e d =>
        rw [Eff.run_bind_error hrecv] at h
        cases h
      | ok r d =>
        obtain ⟨msgs, ns, f, rest, hin, hns, hf, hs, rfl, rfl⟩ :=
          (recvReply_ok_iff link _ _ _ _).mp hrecv
        rw [Eff.run_bind_ok hrecv] at h
        rcases expectResult_run hf.1 op with ⟨ht, he⟩ | ⟨-, e, b, he, -⟩
        · rw [decodeThen_ok he] at h
          cases h
          exact ⟨msgs, ns, f, rest, hin, hns, hf.1, ht, hs, rfl, rfl⟩
        · rw [decodeThen_error he] at h
          cases h
    · rintro ⟨-, msgs, ns, f, rest, hin, hns, hv, ht, hs, rfl, rfl⟩
      have hf : f.IsAnswer := ⟨hv, by rw [ht]; decide⟩
      have hrecv := (recvReply_ok_iff link c.nextSeq (c.requested op.message) _ _).mpr
        ⟨msgs, ns, f, rest, hin, hns, hf, hs, rfl, rfl⟩
      rw [Eff.run_bind_ok hrecv]
      rcases expectResult_run hv op with ⟨-, he⟩ | ⟨hn, -⟩
      · rw [decodeThen_ok he]
        rfl
      · exact absurd ht hn
  · obtain ⟨e, d, he⟩ := request_error hr op.message
    have hrun : (twoWay link op).run c = .error e d := Eff.run_bind_error he
    rw [hrun]
    exact ⟨fun h => (by cases h), fun h => absurd h.1 hr⟩

/-- The operations that return their reply's payload. -/
inductive BytesOp where
  | call (serviceId methodId : UInt16) (args : Bytes)
  | getProperty (typeId : UInt32) (objectId : Int32) (propertyId : UInt16)
  | setProperty (typeId : UInt32) (objectId : Int32) (propertyId : UInt16) (value : Bytes)
  | callObject (typeId : UInt32) (objectId : Int32) (methodId : UInt16) (args : Bytes)

namespace BytesOp

def toOp : BytesOp → Op
  | call serviceId methodId args => .call serviceId methodId args
  | getProperty typeId objectId propertyId => .getProperty typeId objectId propertyId
  | setProperty typeId objectId propertyId value => .setProperty typeId objectId propertyId value
  | callObject typeId objectId methodId args => .callObject typeId objectId methodId args

def run (link : Link) : BytesOp → Cli κ Bytes
  | call serviceId methodId args => ServiceConnection.call link serviceId methodId args
  | getProperty typeId objectId propertyId =>
    ServiceConnection.getProperty link typeId objectId propertyId
  | setProperty typeId objectId propertyId value =>
    ServiceConnection.setProperty link typeId objectId propertyId value
  | callObject typeId objectId methodId args =>
    ServiceConnection.callObject link typeId objectId methodId args

theorem run_eq (link : Link) (op : BytesOp) :
    (op.run link : Cli κ Bytes) = do
      let response ← twoWay link op.toOp
      return response.data.drop 16 := by
  cases op with
  | call serviceId methodId args => rfl
  | getProperty typeId objectId propertyId => rfl
  | setProperty typeId objectId propertyId value => rfl
  | callObject typeId objectId methodId args => rfl

end BytesOp

/-- The result of request `seq`, with payload `b`. -/
def IsReply (seq : UInt32) (b msg : Bytes) : Prop :=
  ∃ f : Frame, msg = f.bytes ∧ f.Valid ∧ f.hdr.type = .result ∧ f.hdr.sequenceId = seq ∧
    f.payload = b

/-- The request goes out and, behind a run of notifications, the messages hold its result `b`;
`c'` is the connection with the notifications delivered and nothing behind the result read. -/
def Replied (link : Link) (op : BytesOp) (c : Conn κ) (b : Bytes) (c' : Conn κ) : Prop :=
  link.Ready c ∧ ∃ msgs ns reply rest, c.incoming = msgs ++ reply :: rest ∧ Notifies msgs ns ∧
    IsReply c.nextSeq b reply ∧
    c' = { c with
      nextSeq := c.nextSeq + 1
      attempts := c.attempts + 1
      sent := c.sent ++ [op.toOp.message c.nextSeq]
      incoming := rest
      invoked := c.invoked ++ ns.filterMap fun n =>
        (c.propCallbacks.lookup n.1).map fun callback => (callback, n.2) }

theorem bytesOp_ok_iff (link : Link) (op : BytesOp) (c c' : Conn κ) (b : Bytes) :
    (op.run link).run c = .ok b c' ↔ Replied link op c b c' := by
  rw [BytesOp.run_eq]
  constructor
  · intro h
    cases ht : (twoWay link op.toOp).run c with
    | error e d =>
      rw [Eff.run_bind_error ht] at h
      cases h
    | ok response d =>
      obtain ⟨hr, msgs, ns, f, rest, hin, hns, hv, hty, hs, rfl, rfl⟩ :=
        (twoWay_ok_iff link op.toOp c d response).mp ht
      rw [Eff.run_bind_ok ht] at h
      cases h
      refine ⟨hr, msgs, ns, f.bytes, rest, hin, hns, ⟨f, rfl, hv, hty, hs, ?_⟩, rfl⟩
      exact f.drop_bytes.symm
  · rintro ⟨hr, msgs, ns, reply, rest, hin, hns, ⟨f, rfl, hv, hty, hs, rfl⟩, rfl⟩
    have ht := (twoWay_ok_iff link op.toOp c _ _).mpr
      ⟨hr, msgs, ns, f, rest, hin, hns, hv, hty, hs, rfl, rfl⟩
    rw [Eff.run_bind_ok ht]
    exact congrArg (fun w => EStateM.Result.ok w _) f.drop_bytes

/-- The operations return exactly the payload of their own result behind the notifications,
and throw on every other sequence of messages. -/
theorem bytesOp_replied (link : Link) (op : BytesOp) (c : Conn κ) :
    (∀ b c', (op.run link).run c = .ok b c' ↔ Replied link op c b c') ∧
      ((¬ ∃ b c', Replied link op c b c') → ∃ e c', (op.run link).run c = .error e c') := by
  refine ⟨fun b c' => bytesOp_ok_iff link op c c' b, fun h => ?_⟩
  cases hr : (op.run link).run c with
  | ok b c' => exact absurd ⟨b, c', (bytesOp_ok_iff link op c c' b).mp hr⟩ h
  | error e c' => exact ⟨e, c', rfl⟩

end Song
