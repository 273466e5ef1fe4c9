import Song.Security

/-!
# What a rejected message leaves in the caller's buffer (`security.cpp`)

`openMessage` says what becomes of a message with a tag. Here `SecureTransport::receive` runs on
the buffer that the caller gives it, over any inner transport, and an exception leaves the buffer
as it is then.
-/

namespace Song

theorem Buffer.le_overwrite (b : Buffer) (off : Nat) (new : Bytes) :
    b.readPos ≤ (Words.overwrite off new b.data).length := by
  have hle := b.le
  rw [Words.overwrite, List.length_append, List.length_append, List.length_take, List.length_drop]
  omega

/-- `std::memcpy` onto the bytes from `off` on. -/
def Buffer.patch (b : Buffer) (off : Nat) (new : Bytes) : Buffer :=
  ⟨Words.overwrite off new b.data, b.readPos, b.le_overwrite off new⟩

namespace SecureTransport

variable (mac : Mac) (config : SecurityConfig)

/-- From the message of the inner transport on. -/
def openInto (secureMsg : Bytes) : EStateM Exn Buffer Bool :=
  let extPayloadSize := peekU32 8 secureMsg
  if extPayloadSize.toNat < kHmacTagSize then
    throw (.securityError (lit "message payload too short for HMAC verification"))
  else do
    let origPayloadSize := extPayloadSize - UInt32.ofNat kHmacTagSize
    let receivedTag := (secureMsg.drop (16 + origPayloadSize.toNat)).take kHmacTagSize
    set Buffer.empty
    modify fun msg => msg.write (secureMsg.take (16 + origPayloadSize).toNat)
    modify fun msg => msg.patch 8 (encodeU32 origPayloadSize)
    let msg ← get
    if verifyHmac mac config.key msg.data receivedTag then do
      modify Buffer.resetRead
      return true
    else throw (.securityError (lit "HMAC verification failed - message may be tampered"))

/-- `SecureTransport::receive` into the caller's buffer; `inner` is the inner transport's. -/
def receiveInto (inner : Option (EStateM Exn Buffer Bool)) : EStateM Exn Buffer Bool :=
  match inner with
  | none => return false
  | some inner =>
    if config.isEnabled then fun msg =>
      match inner.run .empty with
      | .ok true secureMsg => (openInto mac config secureMsg.data).run msg
      | .ok false _ => .ok false msg
      | .error e _ => .error e msg
    else inner

/-! ## The buffer behind a call -/

section
variable {mac config} {secureMsg : Bytes}

/-- The message without its tag, which is verified in the caller's buffer. -/
def stripped (secureMsg : Bytes) : Bytes :=
  Words.overwrite 8 (encodeU32 (peekU32 8 secureMsg - UInt32.ofNat kHmacTagSize))
    (secureMsg.take (16 + (peekU32 8 secureMsg - UInt32.ofNat kHmacTagSize)).toNat)

theorem stripped_ne_nil (secureMsg : Bytes) : stripped secureMsg ≠ [] := by
  intro h
  have hlength := congrArg List.length h
  simp only [stripped, Words.overwrite, List.length_append, length_encodeU32,
    List.length_nil] at hlength
  omega

/-- Nothing is written before the message is known to have room for a tag, and the message is
there before its tag is verified. -/
theorem openInto_run (msg : Buffer) :
    (openInto mac config secureMsg).run msg =
      match openMessage mac config secureMsg with
      | .ok opened => .ok true (.ofBytes opened)
      | .error e => .error e (if (peekU32 8 secureMsg).toNat < kHmacTagSize then msg
          else .ofBytes (stripped secureMsg)) := by
  rw [openInto, openMessage]
  dsimp only
  by_cases hshort : (peekU32 8 secureMsg).toNat < kHmacTagSize
  · rw [if_pos hshort, if_pos hshort]
    dsimp only
    rw [if_pos hshort]
    rfl
  rw [if_neg hshort, if_neg hshort]
  -- What is written is the message without its tag.
  rw [← stripped]
  show EStateM.run (if verifyHmac mac config.key (stripped secureMsg) _ = true then
    (do modify Buffer.resetRead; return true : EStateM Exn Buffer Bool) else throw _)
      (.ofBytes (stripped secureMsg)) = _
  split
  · rfl
  · rfl

end

/-! ## Rejected messages -/

/-- An enabled transport, over one that delivers the frame. -/
theorem receiveInto_run {inner : EStateM Exn Buffer Bool} {secureMsg : Buffer}
    (henabled : config.isEnabled = true) (hinner : inner.run .empty = .ok true secureMsg)
    (msg : Buffer) : (receiveInto mac config (some inner)).run msg =
      (openInto mac config secureMsg.data).run msg := by
  have hsome : receiveInto mac config (some inner) = fun msg =>
      match inner.run .empty with
      | .ok true secureMsg => (openInto mac config secureMsg.data).run msg
      | .ok false _ => .ok false msg
      | .error e _ => .error e msg := if_pos henabled
  rw [hsome, hinner]
  rfl

/-- The call that rejects the frame leaves nothing in the caller's buffer that was not in it. -/
def KeepsOut (inner : EStateM Exn Buffer Bool) : Prop :=
  ∀ msg e msg', (receiveInto mac config (some inner)).run msg = .error e msg' →
    msg'.data.Sublist msg.data

/-- Of a rejected frame nothing is handed out exactly when it has no room for a tag. -/
theorem keepsOut_iff {inner : EStateM Exn Buffer Bool} {secureMsg : Buffer} {f : Frame}
    (henabled : config.isEnabled = true) (hinner : inner.run .empty = .ok true secureMsg)
    (hf : secureMsg.data = f.bytes) (hsize : f.hdr.payloadSize.toNat = f.payload.length)
    (hmax : f.payload.length ≤ kMaxPayloadSize) :
    KeepsOut mac config inner ↔
      f.payload.length < kHmacTagSize ∨ ∃ g, f = sealFrame g (mac config.key g.bytes) := by
  have hpeek : peekU32 8 f.bytes = f.hdr.payloadSize := peekU32_header f.hdr f.payload
  have hrun : ∀ msg, (receiveInto mac config (some inner)).run msg = _ := fun msg =>
    (receiveInto_run mac config henabled hinner msg).trans (openInto_run msg)
  rw [hf, hpeek, hsize] at hrun
  by_cases hshort : f.payload.length < kHmacTagSize
  · refine iff_of_true (fun msg e msg' hmsg => ?_) (.inl hshort)
    rw [hrun, if_pos hshort] at hmsg
    cases hopen : openMessage mac config f.bytes with
    | ok opened =>
      rw [hopen] at hmsg
      cases hmsg
    | error e =>
      rw [hopen] at hmsg
      cases hmsg
      exact List.Sublist.refl _
  obtain ⟨g, tag, hg, rfl⟩ := exists_sealFrame hsize hmax (Nat.le_of_not_lt hshort)
  have hopen : openMessage mac config (sealFrame g tag).bytes = _ :=
    openMessage_bytes mac config.key hg tag
  rw [hopen] at hrun
  by_cases hv : verifyHmac mac config.key g.bytes tag.bytes = true
  · refine iff_of_true (fun msg e msg' hmsg => ?_) (.inr ⟨g, ?_⟩)
    · rw [hrun, if_pos hv] at hmsg
      cases hmsg
    · rw [(verifyHmac_iff mac config.key g.bytes tag).mp hv]
  · -- The message is in the buffer when its tag turns out to be wrong.
    rw [if_neg hv] at hrun
    refine iff_of_false (fun hkeeps => ?_) ?_
    · have hempty := hrun .empty
      dsimp only at hempty
      rw [if_neg hshort] at hempty
      have hnil : stripped (sealFrame g tag).bytes = [] :=
        List.sublist_nil.mp (hkeeps _ _ _ hempty)
      exact stripped_ne_nil _ hnil
    · rintro (h | ⟨k, hk⟩)
      · exact hshort h
      · obtain ⟨rfl, rfl⟩ := sealFrame_inj hk
        exact hv ((verifyHmac_iff mac config.key g.bytes _).mpr rfl)

/-- The tag of another key. -/
def forged : Frame := sealFrame someCall (sumMac [2] someCall.bytes)

/-- An inner transport with the forged frame on it. -/
def delivers (f : Frame) : EStateM Exn Buffer Bool := fun _ => .ok true (.ofBytes f.bytes)

theorem keepsOut_iff_forged :
    KeepsOut sumMac (.ofKey [1]) (delivers forged) ↔ forged.payload.length < kHmacTagSize ∨
      ∃ g, forged = sealFrame g (sumMac [1] g.bytes) :=
  keepsOut_iff sumMac (.ofKey [1]) rfl rfl rfl (by decide) (by decide)

/-- A call with a wrong tag is in the buffer of the caller when the exception comes. -/
theorem not_keepsOut_forged : ¬ ∀ (mac : Mac) (config : SecurityConfig) (f : Frame),
    config.isEnabled = true → f.hdr.payloadSize.toNat = f.payload.length →
      KeepsOut mac config (delivers f) := by
  intro h
  have hkeeps := h sumMac (.ofKey [1]) forged rfl (by decide)
  have hrun : (receiveInto sumMac (.ofKey [1]) (some (delivers forged))).run .empty =
      .error (.securityError (lit "HMAC verification failed - message may be tampered"))
        (.ofBytes someCall.bytes) := rfl
  exact absurd (hkeeps _ _ _ hrun).length_le (by decide)

end SecureTransport

end Song
