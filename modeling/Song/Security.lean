import Song.Transport

/-!
# Message authentication (`security.hpp`, `security.cpp`)

`SecureTransport` decorates a stream transport: it sends a message with an
8-byte tag behind the payload and the payload size patched, and on receipt takes
the tag off again and verifies it. The MAC is a parameter. The tag is computed
over the message as it is given to `send`, so it verifies exactly when the inner
transport delivers a message with the same MAC.
-/

namespace Song

def kHmacTagSize : Nat := 8

structure HmacTag where
  bytes : Bytes
  length_eq : bytes.length = kHmacTagSize

/-- `compute_hmac`: a tag from a key and the bytes of a message. -/
abbrev Mac := Bytes → Bytes → HmacTag

/-- `verify_hmac`, whose loop collects the differences of all bytes. -/
def verifyHmac (mac : Mac) (key msg tag : Bytes) : Bool :=
  ((mac key msg).bytes.zip tag).foldl (fun result b => result ||| (b.1 ^^^ b.2)) (0 : UInt8) = 0

inductive SecurityLevel where
  | none
  | sharedSecret
  | tls
  deriving DecidableEq, Repr

structure SecurityConfig where
  key : Bytes
  level : SecurityLevel

namespace SecurityConfig

/-- The constructor from a shared secret. -/
def ofKey (key : Bytes) : SecurityConfig := ⟨key, .sharedSecret⟩

def isEnabled (config : SecurityConfig) : Bool := config.level ≠ .none

end SecurityConfig

/-- The `u32` at this offset of raw wire bytes. -/
def peekU32 (off : Nat) (bytes : Bytes) : UInt32 :=
  UInt32.ofNat (Words.leNat ((bytes.drop off).take 4))

namespace SecureTransport

variable (mac : Mac) (config : SecurityConfig) (kind : StreamTransport)

/-- What a `send` puts on the inner transport's stream. -/
def send (msg : Bytes) : Except Exn Bytes :=
  if config.isEnabled then
    let tag := mac config.key msg
    let payloadSize := peekU32 8 msg
    if kMaxPayloadSize - kHmacTagSize < payloadSize.toNat then
      .error (.securityError (lit "payload too large for HMAC authentication"))
    else
      let header := Words.overwrite 8 (encodeU32 (payloadSize + UInt32.ofNat kHmacTagSize))
        (msg.take 16)
      .ok (kind.sent (header ++ (msg.drop 16).take payloadSize.toNat ++ tag.bytes))
  else .ok (kind.sent msg)

/-- Take the tag off a received message and verify it. -/
def openMessage (secureMsg : Bytes) : Except Exn Bytes :=
  let extPayloadSize := peekU32 8 secureMsg
  if extPayloadSize.toNat < kHmacTagSize then
    .error (.securityError (lit "message payload too short for HMAC verification"))
  else
    let origPayloadSize := extPayloadSize - UInt32.ofNat kHmacTagSize
    let receivedTag := (secureMsg.drop (16 + origPayloadSize.toNat)).take kHmacTagSize
    let msg := Words.overwrite 8 (encodeU32 origPayloadSize)
      (secureMsg.take (16 + origPayloadSize).toNat)
    if verifyHmac mac config.key msg receivedTag then .ok msg
    else .error (.securityError (lit "HMAC verification failed - message may be tampered"))

/-- Take a message off the inner transport's stream: it and what is left, or `none` for
`false`. -/
def receive (stream : Bytes) : Except Exn (Option (Bytes × Bytes)) :=
  match kind.receive stream with
  | .error e => .error e
  | .ok none => .ok none
  | .ok (some (secureMsg, rest)) =>
    if config.isEnabled then
      match openMessage mac config secureMsg with
      | .ok msg => .ok (some (msg, rest))
      | .error e => .error e
    else .ok (some (secureMsg, rest))

end SecureTransport

/-! ## Verification -/

theorem or_foldl_xor_eq_zero_iff (as bs : Bytes) (h : as.length = bs.length) (result : UInt8) :
    (as.zip bs).foldl (fun result b => result ||| (b.1 ^^^ b.2)) result = 0 ↔
      result = 0 ∧ as = bs := by
  induction as generalizing bs result with
  | nil =>
    rw [List.length_nil] at h
    rw [List.length_eq_zero_iff.mp h.symm]
    exact ⟨fun hr => ⟨hr, rfl⟩, fun hr => hr.1⟩
  | cons a as ih =>
    cases bs with
    | nil => cases h
    | cons b bs =>
      rw [List.zip_cons_cons, List.foldl_cons, ih bs (by simpa using h), List.cons.injEq]
      rw [UInt8.or_eq_zero_iff, UInt8.xor_eq_zero_iff, and_assoc]

theorem verifyHmac_iff (mac : Mac) (key msg : Bytes) (tag : HmacTag) :
    verifyHmac mac key msg tag.bytes = true ↔ mac key msg = tag := by
  have hlen : (mac key msg).bytes.length = tag.bytes.length := by
    rw [(mac key msg).length_eq, tag.length_eq]
  unfold verifyHmac
  rw [decide_eq_true_eq, or_foldl_xor_eq_zero_iff _ _ hlen]
  constructor
  · rintro ⟨-, h⟩
    cases hm : mac key msg
    cases tag
    rw [hm] at h
    simp only at h
    subst h
    rfl
  · rintro rfl
    exact ⟨rfl, rfl⟩

/-! ## Frames with a tag -/

/-- The frame with a tag behind its payload. -/
def sealFrame (f : Frame) (tag : HmacTag) : Frame where
  hdr := { f.hdr with payloadSize := f.hdr.payloadSize + UInt32.ofNat kHmacTagSize }
  payload := f.payload ++ tag.bytes

/-- A header up to its payload size. -/
def headerFront (hdr : Header) : Bytes :=
  encodeU32 hdr.magic ++ (encodeU8 hdr.flags.code ++ (encodeU8 hdr.type.code ++
    encodeU16 hdr.reserved))

theorem length_headerFront (hdr : Header) : (headerFront hdr).length = 8 := by
  simp [headerFront]

theorem encodeHeader_eq (hdr : Header) : encodeHeader hdr =
    headerFront hdr ++ encodeU32 hdr.payloadSize ++ encodeU32 hdr.sequenceId := by
  simp only [encodeHeader, headerFront, List.append_assoc]

theorem peekU32_header (hdr : Header) (rest : Bytes) :
    peekU32 8 (encodeHeader hdr ++ rest) = hdr.payloadSize := by
  have hv : Words.leNat (Words.leBytes 4 hdr.payloadSize.toNat) = hdr.payloadSize.toNat :=
    Words.leNat_leBytes hdr.payloadSize.toNat_lt
  rw [peekU32, encodeHeader_eq, List.append_assoc, List.append_assoc,
    List.drop_left' (length_headerFront hdr), List.take_left' (length_encodeU32 _), encodeU32, hv,
    UInt32.ofNat_toNat]

theorem overwrite_header (hdr : Header) (size : UInt32) (rest : Bytes) :
    Words.overwrite 8 (encodeU32 size) (encodeHeader hdr ++ rest) =
      encodeHeader { hdr with payloadSize := size } ++ rest := by
  have hlen : (encodeU32 hdr.payloadSize).length = (encodeU32 size).length := by
    rw [length_encodeU32, length_encodeU32]
  have h := Words.overwrite_append (headerFront hdr) (encodeU32 hdr.payloadSize) (encodeU32 size)
    (encodeU32 hdr.sequenceId ++ rest) hlen
  rw [length_headerFront] at h
  rw [encodeHeader_eq, encodeHeader_eq, List.append_assoc _ (encodeU32 hdr.sequenceId) rest, h]
  simp only [headerFront, List.append_assoc]

theorem delivered_sealFrame (kind : StreamTransport) (f : Frame) (tag : HmacTag) :
    kind.delivered (sealFrame f tag) = sealFrame (kind.delivered f) tag := by
  cases kind <;> rfl

/-- The message states its own size, and fits with a tag. -/
structure Frame.Sealable (f : Frame) : Prop where
  size : f.hdr.payloadSize.toNat = f.payload.length
  fits : f.payload.length + kHmacTagSize ≤ kMaxPayloadSize

namespace Frame.Sealable

variable {f : Frame} (h : f.Sealable)

include h

theorem delivered (kind : StreamTransport) : (kind.delivered f).Sealable := by
  cases kind <;> exact ⟨h.size, h.fits⟩

theorem sealed_toNat : (f.hdr.payloadSize + UInt32.ofNat kHmacTagSize).toNat =
    f.payload.length + kHmacTagSize := by
  have := h.fits
  have hs := h.size
  simp only [kMaxPayloadSize] at this
  rw [UInt32.toNat_add, UInt32.toNat_ofNat', hs]
  simp only [kHmacTagSize] at this ⊢
  omega

theorem sealed_size (tag : HmacTag) :
    (sealFrame f tag).hdr.payloadSize.toNat = (sealFrame f tag).payload.length := by
  rw [sealFrame, h.sealed_toNat, List.length_append, tag.length_eq]

end Frame.Sealable

namespace SecureTransport

variable (mac : Mac) (key : Bytes) (kind : StreamTransport) {f : Frame}

/-- A send puts the frame with its tag on the stream. -/
theorem send_bytes (h : f.Sealable) : send mac (.ofKey key) kind f.bytes =
    .ok (kind.sent (sealFrame f (mac key f.bytes)).bytes) := by
  have hpeek : peekU32 8 f.bytes = f.hdr.payloadSize := peekU32_header f.hdr f.payload
  have hfits : ¬ kMaxPayloadSize - kHmacTagSize < f.payload.length := by
    have := h.fits
    omega
  have htake : f.bytes.take 16 = encodeHeader f.hdr := List.take_left' (length_encodeHeader _)
  have hover := overwrite_header f.hdr (f.hdr.payloadSize + UInt32.ofNat kHmacTagSize) []
  rw [List.append_nil, List.append_nil] at hover
  have henabled : (SecurityConfig.ofKey key).isEnabled = true := rfl
  simp only [send, henabled, ↓reduceIte, hpeek, h.size, hfits, htake, f.drop_bytes, hover,
    List.take_length]
  rw [List.append_assoc]
  rfl

/-- Opening a frame with a tag verifies the tag of the frame without it. -/
theorem openMessage_bytes (h : f.Sealable) (tag : HmacTag) :
    openMessage mac (.ofKey key) (sealFrame f tag).bytes =
      if verifyHmac mac key f.bytes tag.bytes then .ok f.bytes
      else .error (.securityError (lit "HMAC verification failed - message may be tampered")) := by
  have hpeek : peekU32 8 (sealFrame f tag).bytes =
      f.hdr.payloadSize + UInt32.ofNat kHmacTagSize := peekU32_header _ _
  have horig : f.hdr.payloadSize + UInt32.ofNat kHmacTagSize - UInt32.ofNat kHmacTagSize =
      f.hdr.payloadSize := by
    rw [UInt32.add_sub_cancel]
  have hshort : ¬ (f.hdr.payloadSize + UInt32.ofNat kHmacTagSize).toNat < kHmacTagSize := by
    rw [h.sealed_toNat]
    omega
  have hsum : (16 + f.hdr.payloadSize).toNat = 16 + f.payload.length := by
    have := h.fits
    have hs := h.size
    simp only [kMaxPayloadSize] at this
    rw [UInt32.toNat_add, hs]
    simp only [UInt32.reduceToNat]
    omega
  have hfront : (encodeHeader (sealFrame f tag).hdr ++ f.payload).length = 16 + f.payload.length := by
    rw [List.length_append, length_encodeHeader]
  have hbytes : (sealFrame f tag).bytes =
      encodeHeader (sealFrame f tag).hdr ++ f.payload ++ tag.bytes := by
    rw [Frame.bytes, sealFrame, List.append_assoc]
  have htag : ((sealFrame f tag).bytes.drop (16 + f.payload.length)).take kHmacTagSize =
      tag.bytes := by
    rw [hbytes, List.drop_left' hfront, ← tag.length_eq, List.take_length]
  have hmsg : Words.overwrite 8 (encodeU32 f.hdr.payloadSize)
      ((sealFrame f tag).bytes.take (16 + f.payload.length)) = f.bytes := by
    rw [hbytes, List.take_left' hfront, overwrite_header]
    rfl
  simp only [openMessage, hpeek, horig, hshort, ↓reduceIte, hsum, h.size, htag, hmsg]
  rfl

/-- A message as it should come out at the far side. -/
def Unchanged (f g : Frame) : Prop :=
  g.hdr.type = f.hdr.type ∧ g.hdr.sequenceId = f.hdr.sequenceId ∧
    g.hdr.payloadSize = f.hdr.payloadSize ∧ g.payload = f.payload

/-- Sent on one side, the message is received unchanged on the other. -/
def Transparent (f : Frame) (rest : Bytes) : Prop :=
  ∃ wire g, send mac (.ofKey key) kind f.bytes = .ok wire ∧
    receive mac (.ofKey key) kind (wire ++ rest) = .ok (some (Frame.bytes g, rest)) ∧ Unchanged f g

theorem receive_sent (h : f.Sealable) (tag : HmacTag) (rest : Bytes) :
    receive mac (.ofKey key) kind (kind.sent (sealFrame f tag).bytes ++ rest) =
      if verifyHmac mac key (kind.delivered f).bytes tag.bytes then
        .ok (some ((kind.delivered f).bytes, rest))
      else .error (.securityError (lit "HMAC verification failed - message may be tampered")) := by
  have hd := h.delivered kind
  have hmax : (sealFrame (kind.delivered f) tag).payload.length ≤ kMaxPayloadSize := by
    rw [sealFrame, List.length_append, tag.length_eq]
    exact hd.fits
  have henabled : (SecurityConfig.ofKey key).isEnabled = true := rfl
  rw [receive, StreamTransport.sent_bytes, delivered_sealFrame,
    kind.receive_bytes (hd.sealed_size tag) hmax]
  simp only [henabled, ↓reduceIte, openMessage_bytes mac key hd tag]
  cases verifyHmac mac key (kind.delivered f).bytes tag.bytes with
  | true => rfl
  | false => rfl

/-- Pipes and TCP deliver a message as it is sent, TLS one that has the flag already. -/
theorem sent_bytes_eq_iff (f : Frame) : kind.sent f.bytes = f.bytes ↔
    (kind = .tls → f.hdr.flags.code ||| MsgFlags.encrypted.code = f.hdr.flags.code) := by
  rw [StreamTransport.sent_bytes]
  cases kind with
  | pipe => exact ⟨fun _ h => (by cases h), fun _ => rfl⟩
  | tcp => exact ⟨fun _ h => (by cases h), fun _ => rfl⟩
  | tls =>
    refine ⟨fun h _ => ?_, fun h => ?_⟩
    · exact congrArg (fun f : Frame => f.hdr.flags.code) (Frame.bytes_inj h)
    · rw [StreamTransport.delivered, StreamTransport.stampFrame, h rfl]

/-- The decorator is transparent exactly when the message, as the inner transport delivers it,
has the MAC it had when it was sent. -/
theorem transparent_iff (f : Frame) (h : f.Sealable) (rest : Bytes) :
    Transparent mac key kind f rest ↔ mac key (kind.sent f.bytes) = mac key f.bytes := by
  have hv := verifyHmac_iff mac key (kind.delivered f).bytes (mac key f.bytes)
  rw [StreamTransport.sent_bytes, ← hv]
  have hr := receive_sent mac key kind h (mac key f.bytes) rest
  constructor
  · rintro ⟨wire, g, hs, hg, -⟩
    rw [send_bytes mac key kind h] at hs
    cases hs
    rw [hr] at hg
    by_contra hver
    rw [if_neg hver] at hg
    cases hg
  · intro hver
    rw [if_pos hver] at hr
    refine ⟨_, kind.delivered f, send_bytes mac key kind h, hr, ?_⟩
    cases kind <;> exact ⟨rfl, rfl, rfl, rfl⟩

/-- A MAC that every byte counts in: eight times the sum of them all. -/
def sumMac : Mac := fun key msg =>
  ⟨List.replicate kHmacTagSize ((key ++ msg).foldl (· + ·) 0), List.length_replicate⟩

/-- Call 1, with two bytes of arguments. -/
def someCall : Frame := message .call 1 (encodeMethodCall 7 1 [8, 9])

theorem transparent_someCall_tcp :
    Transparent sumMac [1] .tcp someCall [] ↔
      sumMac [1] (StreamTransport.tcp.sent someCall.bytes) = sumMac [1] someCall.bytes :=
  transparent_iff sumMac [1] .tcp someCall ⟨by decide, by decide⟩ []

/-- Over TLS the flag is stamped behind the tag's back, and verification fails. -/
theorem not_transparent_tls :
    ¬ ∀ (mac : Mac) (key : Bytes) (kind : StreamTransport) (f : Frame), f.Sealable →
      ∀ rest, Transparent mac key kind f rest := by
  intro h
  have hs : someCall.Sealable := ⟨by decide, by decide⟩
  obtain ⟨wire, g, hsent, hg, -⟩ := h sumMac [1] .tls someCall hs []
  rw [send_bytes sumMac [1] .tls hs] at hsent
  cases hsent
  have hver : verifyHmac sumMac [1] (StreamTransport.tls.delivered someCall).bytes
      (sumMac [1] someCall.bytes).bytes = false := by decide +kernel
  rw [receive_sent sumMac [1] .tls hs, hver] at hg
  cases hg

/-! ## What is accepted -/

/-- A message as the wire has it: its payload size is that of the bytes behind its header. -/
def Whole (msg : Bytes) : Prop := msg.length = 16 + (peekU32 8 msg).toNat

theorem whole_bytes (f : Frame) : Whole f.bytes ↔ f.hdr.payloadSize.toNat = f.payload.length := by
  have hpeek : peekU32 8 f.bytes = f.hdr.payloadSize := peekU32_header f.hdr f.payload
  rw [Whole, hpeek, f.length_bytes, Nat.add_left_cancel_iff, eq_comm]

theorem exists_whole {msg : Bytes} (h : Whole msg) :
    ∃ f : Frame, msg = f.bytes ∧ f.hdr.payloadSize.toNat = f.payload.length := by
  have hlen : 16 ≤ msg.length := by
    rw [h]
    exact Nat.le_add_right 16 _
  obtain ⟨f, rfl⟩ := exists_frame hlen
  exact ⟨f, rfl, (whole_bytes f).mp h⟩

section
variable (config : SecurityConfig)

/-- What a `send` hands to its inner transport. -/
def sealMessage (msg : Bytes) : Except Exn Bytes :=
  let tag := mac config.key msg
  let payloadSize := peekU32 8 msg
  if kMaxPayloadSize - kHmacTagSize < payloadSize.toNat then
    .error (.securityError (lit "payload too large for HMAC authentication"))
  else
    let header := Words.overwrite 8 (encodeU32 (payloadSize + UInt32.ofNat kHmacTagSize))
      (msg.take 16)
    .ok (header ++ (msg.drop 16).take payloadSize.toNat ++ tag.bytes)

theorem sealMessage_bytes (h : f.Sealable) :
    sealMessage mac config f.bytes = .ok (sealFrame f (mac config.key f.bytes)).bytes := by
  have hpeek : peekU32 8 f.bytes = f.hdr.payloadSize := peekU32_header f.hdr f.payload
  have hfits : ¬ kMaxPayloadSize - kHmacTagSize < f.payload.length := by
    have := h.fits
    omega
  have htake : f.bytes.take 16 = encodeHeader f.hdr := List.take_left' (length_encodeHeader _)
  have hover := overwrite_header f.hdr (f.hdr.payloadSize + UInt32.ofNat kHmacTagSize) []
  rw [List.append_nil, List.append_nil] at hover
  simp only [sealMessage, hpeek, h.size, hfits, ↓reduceIte, htake, f.drop_bytes, hover,
    List.take_length]
  rw [List.append_assoc]
  rfl

/-- Only what has room for a tag is handed on. -/
theorem sealMessage_ok {msg wire : Bytes} (hw : Whole msg)
    (h : sealMessage mac config msg = .ok wire) :
    ∃ f : Frame, msg = f.bytes ∧ f.Sealable ∧
      wire = (sealFrame f (mac config.key f.bytes)).bytes := by
  obtain ⟨f, rfl, hsize⟩ := exists_whole hw
  have hpeek : peekU32 8 f.bytes = f.hdr.payloadSize := peekU32_header f.hdr f.payload
  have hseal : f.Sealable := by
    refine ⟨hsize, ?_⟩
    by_contra hbig
    have hfits : kMaxPayloadSize - kHmacTagSize < f.hdr.payloadSize.toNat := by
      rw [hsize]
      simp only [kMaxPayloadSize, kHmacTagSize] at hbig ⊢
      omega
    simp only [sealMessage, hpeek, hfits, ↓reduceIte] at h
    cases h
  rw [sealMessage_bytes mac config hseal] at h
  cases h
  exact ⟨f, rfl, hseal, rfl⟩

end

/-- A frame with room for a tag has one. -/
theorem exists_sealFrame {f : Frame} (hsize : f.hdr.payloadSize.toNat = f.payload.length)
    (hmax : f.payload.length ≤ kMaxPayloadSize) (htag : kHmacTagSize ≤ f.payload.length) :
    ∃ (g : Frame) (tag : HmacTag), g.Sealable ∧ f = sealFrame g tag := by
  obtain ⟨hdr, payload⟩ := f
  dsimp only at hsize hmax htag
  have hlen : (payload.drop (payload.length - kHmacTagSize)).length = kHmacTagSize := by
    rw [List.length_drop]
    omega
  have htake : (payload.take (payload.length - kHmacTagSize)).length =
      payload.length - kHmacTagSize := List.length_take_of_le (Nat.sub_le _ _)
  have hsub : (hdr.payloadSize - UInt32.ofNat kHmacTagSize).toNat =
      payload.length - kHmacTagSize := by
    rw [UInt32.toNat_sub_of_le _ _ ?_, hsize]
    · rfl
    · rw [UInt32.le_iff_toNat_le, hsize]
      exact htag
  refine ⟨⟨{ hdr with payloadSize := hdr.payloadSize - UInt32.ofNat kHmacTagSize },
    payload.take (payload.length - kHmacTagSize)⟩, ⟨_, hlen⟩, ⟨?_, ?_⟩, ?_⟩
  · rw [htake]
    exact hsub
  · rw [htake]
    omega
  · simp only [sealFrame, List.take_append_drop, UInt32.sub_add_cancel]

theorem sealFrame_inj {f g : Frame} {tag tag' : HmacTag} (h : sealFrame f tag = sealFrame g tag') :
    f = g ∧ tag = tag' := by
  obtain ⟨hdr, payload⟩ := f
  obtain ⟨hdr', payload'⟩ := g
  obtain ⟨bytes, hlen⟩ := tag
  obtain ⟨bytes', hlen'⟩ := tag'
  simp only [sealFrame, Frame.mk.injEq, Header.mk.injEq] at h
  obtain ⟨⟨hm, hf, ht, hr, hp, hs⟩, hpay⟩ := h
  obtain ⟨rfl, rfl⟩ := List.append_inj' hpay (hlen.trans hlen'.symm)
  have hp' : hdr.payloadSize = hdr'.payloadSize := by
    rwa [UInt32.add_left_inj] at hp
  refine ⟨?_, rfl⟩
  cases hdr
  cases hdr'
  simp_all

/-- With security enabled a delivered frame is accepted, as the message `m`, exactly when it is
what a `send` with that key hands on for `m`; any other is refused. -/
theorem receive_iff_sealed (config : SecurityConfig) (henabled : config.isEnabled = true)
    {frame : Bytes} (hw : Whole frame) (hmax : frame.length ≤ 16 + kMaxPayloadSize)
    (rest : Bytes) :
    (∀ m, receive mac config kind (frame ++ rest) = .ok (some (m, rest)) ↔
      Whole m ∧ sealMessage mac config m = .ok frame) ∧
    ((¬ ∃ m, Whole m ∧ sealMessage mac config m = .ok frame) →
      ∃ text, receive mac config kind (frame ++ rest) = .error (.securityError text)) := by
  obtain ⟨f, rfl, hsize⟩ := exists_whole hw
  have hfits : f.payload.length ≤ kMaxPayloadSize := by
    rw [f.length_bytes] at hmax
    omega
  have hreceive : receive mac config kind (f.bytes ++ rest) =
      match openMessage mac config f.bytes with
      | .ok msg => .ok (some (msg, rest))
      | .error e => .error e := by
    rw [receive, kind.receive_bytes hsize hfits]
    simp only [henabled, ↓reduceIte]
  rw [hreceive]
  by_cases htag : kHmacTagSize ≤ f.payload.length
  · obtain ⟨g, tag, hg, rfl⟩ := exists_sealFrame hsize hfits htag
    have hopen : openMessage mac config (sealFrame g tag).bytes = _ :=
      openMessage_bytes mac config.key hg tag
    have hsealed : ∀ m, Whole m ∧ sealMessage mac config m = .ok (sealFrame g tag).bytes ↔
        mac config.key g.bytes = tag ∧ g.bytes = m := by
      intro m
      constructor
      · rintro ⟨hm, hs⟩
        obtain ⟨k, rfl, -, hk⟩ := sealMessage_ok mac config hm hs
        obtain ⟨rfl, rfl⟩ := sealFrame_inj (Frame.bytes_inj hk)
        exact ⟨rfl, rfl⟩
      · rintro ⟨rfl, rfl⟩
        exact ⟨(whole_bytes g).mpr hg.size, sealMessage_bytes mac config hg⟩
    rw [hopen]
    by_cases hv : mac config.key g.bytes = tag
    · rw [if_pos ((verifyHmac_iff mac config.key g.bytes tag).mpr hv)]
      refine ⟨fun m => ?_, fun h => absurd ⟨g.bytes, (hsealed _).mpr ⟨hv, rfl⟩⟩ h⟩
      rw [hsealed, and_iff_right hv]
      simp
    · rw [if_neg fun h => hv ((verifyHmac_iff mac config.key g.bytes tag).mp h)]
      refine ⟨fun m => ?_, fun _ => ⟨_, rfl⟩⟩
      rw [hsealed]
      exact ⟨fun h => (by cases h), fun h => absurd h.1 hv⟩
  · -- too short for a tag, which every sealed frame has
    have hopen : openMessage mac config f.bytes =
        .error (.securityError (lit "message payload too short for HMAC verification")) := by
      have hpeek : peekU32 8 f.bytes = f.hdr.payloadSize := peekU32_header f.hdr f.payload
      have hshort : f.payload.length < kHmacTagSize := Nat.lt_of_not_le htag
      simp only [openMessage, hpeek, hsize, hshort, ↓reduceIte]
    rw [hopen]
    refine ⟨fun m => ⟨fun h => (by cases h), ?_⟩, fun _ => ⟨_, rfl⟩⟩
    rintro ⟨hm, hs⟩
    obtain ⟨k, rfl, -, hk⟩ := sealMessage_ok mac config hm hs
    obtain rfl := Frame.bytes_inj hk
    refine absurd ?_ htag
    rw [sealFrame, List.length_append, HmacTag.length_eq]
    exact Nat.le_add_left _ _

theorem receive_iff_sealed_someCall :
    (∀ m, receive sumMac (.ofKey [1]) .tcp
        ((sealFrame someCall (sumMac [1] someCall.bytes)).bytes ++ []) = .ok (some (m, [])) ↔
      Whole m ∧ sealMessage sumMac (.ofKey [1]) m =
        .ok (sealFrame someCall (sumMac [1] someCall.bytes)).bytes) ∧
    ((¬ ∃ m, Whole m ∧ sealMessage sumMac (.ofKey [1]) m =
        .ok (sealFrame someCall (sumMac [1] someCall.bytes)).bytes) →
      ∃ text, receive sumMac (.ofKey [1]) .tcp
        ((sealFrame someCall (sumMac [1] someCall.bytes)).bytes ++ []) =
          .error (.securityError text)) :=
  receive_iff_sealed sumMac .tcp (.ofKey [1]) rfl (by unfold Whole; decide +kernel)
    (by decide +kernel) []

end SecureTransport

end Song
