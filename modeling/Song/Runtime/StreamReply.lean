import Song.Runtime.Message

/-!
# What a streaming call puts on the connection

Over sends that succeed, a dispatcher's run has a simple meaning: the chunks it
wrote before it ended the stream, whether it ended it, and how it finished
(`chunks`, `ends`, `thrown`). `runStream` emits that meaning frame by frame, and
the runtime adds the terminator: the destructor's `stream_end`, or the error
reply of the catch block. The two meet when the dispatcher ends the stream and
then throws.
-/

namespace Song

variable {σ ω : Type} {env : Env σ ω}

namespace StreamRun

/-- Nothing but writer calls: the run pushes no notification. -/
def Pushless : StreamRun σ → Prop
  | .write _ next => ∀ thrown, (next thrown).Pushless
  | .finish next => ∀ thrown, (next thrown).Pushless
  | .push _ _ => False
  | .returns _ => True
  | .throws _ _ => True

/-- How a `write` ends, from whether the stream has ended. -/
def writeThrows (ended : Bool) : Option Exn :=
  if ended then some StreamWriter.writeAfterEnd else none

/-- The chunks whose `write` returns. -/
def chunks : StreamRun σ → Bool → List Bytes
  | .write chunk next, ended =>
    (if ended then [] else [chunk]) ++ (next (writeThrows ended)).chunks ended
  | .finish next, _ => (next none).chunks true
  | .push _ next, ended => next.chunks ended
  | .returns _, _ => []
  | .throws _ _, _ => []

/-- Whether the dispatcher has ended the stream itself when it finishes. -/
def ends : StreamRun σ → Bool → Bool
  | .write _ next, ended => (next (writeThrows ended)).ends ended
  | .finish next, _ => (next none).ends true
  | .push _ next, ended => next.ends ended
  | .returns _, ended => ended
  | .throws _ _, ended => ended

/-- The exception the dispatcher finishes with. -/
def thrown : StreamRun σ → Bool → Option Exn
  | .write _ next, ended => (next (writeThrows ended)).thrown ended
  | .finish next, _ => (next none).thrown true
  | .push _ next, ended => next.thrown ended
  | .returns _, _ => none
  | .throws _ e, _ => some e

theorem chunks_ended (run : StreamRun σ) : run.chunks true = [] := by
  induction run with
  | write chunk next ih => exact ih _
  | finish next ih => exact ih _
  | push p next ih => exact ih
  | returns user => rfl
  | throws user e => rfl

theorem ends_ended (run : StreamRun σ) : run.ends true = true := by
  induction run with
  | write chunk next ih => exact ih _
  | finish next ih => exact ih _
  | push p next ih => exact ih
  | returns user => rfl
  | throws user e => rfl

end StreamRun

/-! ## Sends that succeed -/

variable (env) in
/-- Everything put on this port goes out. -/
def SendsOk : Port → Prop
  | .transport tp => ∀ n, env.sendOutcome tp n = none
  | .fd n => 0 ≤ n ∧ ∀ k, env.writeOutcome k = true

/-- The state after one more message on `port`. -/
def Rt.put (s : Rt σ ω) (port : Port) (msg : Bytes) : Rt σ ω :=
  { s with attempts := s.attempts + 1, sent := s.sent ++ [(port, msg)] }

@[simp] theorem Rt.put_sent (s : Rt σ ω) (port : Port) (msg : Bytes) :
    (s.put port msg).sent = s.sent ++ [(port, msg)] := rfl

theorem writeAll_ok {n : Int} (h : SendsOk env (.fd n)) (msg : Bytes) (s : Rt σ ω) :
    (writeAll env n msg).run s = .ok true (s.put (.fd n) msg) := by
  simp only [EStateM.run, writeAll, h.2, ↓reduceIte]
  rfl

theorem transportSend_ok {tp : TransportPtr} (h : SendsOk env (.transport tp)) (msg : Bytes)
    (s : Rt σ ω) : (transportSend env tp msg).run s = .ok () (s.put (.transport tp) msg) := by
  simp only [EStateM.run, transportSend, h s.attempts]
  rfl

theorem reply_ok {port : Port} (h : SendsOk env port) (msg : Bytes) (s : Rt σ ω) :
    (reply env port msg).run s = .ok () (s.put port msg) := by
  cases port with
  | transport tp => exact transportSend_ok h msg s
  | fd n => exact Eff.run_bind_ok (writeAll_ok h msg s)

namespace StreamWriter

theorem write_ok {w : StreamWriter} (h : SendsOk env w.port) (he : w.ended = false)
    (chunk : Bytes) (s : Rt σ ω) :
    (w.write env chunk).run s = .ok () (s.put w.port (createStreamMessage w.sequenceId chunk)) := by
  obtain ⟨port, seq, ended⟩ := w
  subst he
  cases port with
  | transport tp => exact transportSend_ok h _ s
  | fd n =>
    simp only [write, Bool.false_eq_true, ↓reduceIte]
    rw [if_pos h.1, Eff.run_bind_ok (writeAll_ok h _ s)]
    rfl

theorem write_ended {w : StreamWriter} (he : w.ended = true) (chunk : Bytes) (s : Rt σ ω) :
    (w.write env chunk).run s = .error writeAfterEnd s := by
  simp only [write, he, ↓reduceIte]
  rfl

theorem sendEnd_ok {w : StreamWriter} (h : SendsOk env w.port) (s : Rt σ ω) :
    (w.sendEnd env).run s = .ok () (s.put w.port (createStreamEndMessage w.sequenceId)) := by
  obtain ⟨port, seq, ended⟩ := w
  cases port with
  | transport tp => exact transportSend_ok h _ s
  | fd n =>
    simp only [sendEnd]
    rw [if_pos h.1, Eff.run_bind_ok (writeAll_ok h _ s)]
    rfl

end StreamWriter

/-! ## What is emitted -/

/-- From `s` to `s'`, exactly `msgs` were put on `port`, and nothing elsewhere. -/
def Emits (port : Port) (msgs : List Bytes) (s s' : Rt σ ω) : Prop :=
  s'.sent = s.sent ++ msgs.map fun msg => (port, msg)

namespace Emits

variable {port : Port} {s s' s'' : Rt σ ω} {msgs msgs' : List Bytes}

theorem nil (h : s'.sent = s.sent) : Emits port [] s s' := by
  rw [Emits, h, List.map_nil, List.append_nil]

theorem put (s : Rt σ ω) (port : Port) (msg : Bytes) : Emits port [msg] s (s.put port msg) := rfl

theorem trans (h : Emits port msgs s s') (h' : Emits port msgs' s' s'') :
    Emits port (msgs ++ msgs') s s'' := by
  rw [Emits, h', h, List.map_append, List.append_assoc]

theorem unique (h : Emits port msgs s s') (h' : Emits port msgs' s s') : msgs = msgs' := by
  rw [Emits] at h h'
  have hm := List.append_cancel_left (h.symm.trans h')
  exact List.map_injective_iff.mpr (fun _ _ he => (Prod.mk.inj he).2) hm

end Emits

/-- The frames of a dispatcher's run: its chunks, and `stream_end` if it ended the stream. -/
def StreamRun.frames (seq : UInt32) (run : StreamRun σ) : List Bytes :=
  (run.chunks false).map (createStreamMessage seq) ++
    if run.ends false then [createStreamEndMessage seq] else []

/-- A run after the stream has ended emits nothing. -/
theorem runStream_ended (run : StreamRun σ) (hp : run.Pushless) {w : StreamWriter}
    (he : w.ended = true) (s : Rt σ ω) :
    ∃ s', runStream env run w s = (run.thrown true, w, s') ∧ s'.sent = s.sent := by
  induction run generalizing s with
  | write chunk next ih =>
    obtain ⟨s', h, hs⟩ := ih (some StreamWriter.writeAfterEnd) (hp _) s
    refine ⟨s', ?_, hs⟩
    rw [runStream, StreamWriter.write_ended he]
    exact h
  | finish next ih =>
    have hf : w.finish env = (w, pure ()) := if_pos he
    obtain ⟨s', h, hs⟩ := ih none (hp _) s
    refine ⟨s', ?_, hs⟩
    rw [runStream, hf]
    exact h
  | push p next ih => exact hp.elim
  | returns user => exact ⟨_, rfl, rfl⟩
  | throws user e => exact ⟨_, rfl, rfl⟩

/-- A run on a fresh writer emits its frames and leaves the writer ended or not. -/
theorem runStream_emits (run : StreamRun σ) (hp : run.Pushless) {port : Port}
    (hok : SendsOk env port) (seq : UInt32) (s : Rt σ ω) :
    ∃ s', runStream env run (.create port seq) s =
        (run.thrown false, ⟨port, seq, run.ends false⟩, s') ∧
      Emits port (run.frames seq) s s' := by
  induction run generalizing s with
  | write chunk next ih =>
    have hw : ((StreamWriter.create port seq).write env chunk).run s =
        .ok () (s.put port (createStreamMessage seq chunk)) := StreamWriter.write_ok hok rfl chunk s
    obtain ⟨s', h, hs⟩ := ih none (hp _) (s.put port (createStreamMessage seq chunk))
    refine ⟨s', ?_, ?_⟩
    · rw [runStream, hw]
      exact h
    · exact (Emits.put s port _).trans hs
  | finish next ih =>
    have hf : (StreamWriter.create port seq).finish env =
        (⟨port, seq, true⟩, (StreamWriter.create port seq).sendEnd env) := rfl
    have hw : ((StreamWriter.create port seq).sendEnd env).run s =
        .ok () (s.put port (createStreamEndMessage seq)) := StreamWriter.sendEnd_ok hok s
    have hnext : ∃ s', runStream env (next none) ⟨port, seq, true⟩
        (s.put port (createStreamEndMessage seq)) = ((next none).thrown true, ⟨port, seq, true⟩, s') ∧
          s'.sent = (s.put port (createStreamEndMessage seq)).sent :=
      runStream_ended (next none) (hp _) rfl _
    obtain ⟨s', h, hs⟩ := hnext
    refine ⟨s', ?_, ?_⟩
    · rw [runStream, hf, hw]
      simp only [StreamRun.thrown, StreamRun.ends, StreamRun.ends_ended]
      exact h
    · have hfr : (StreamRun.finish next).frames seq = [createStreamEndMessage seq] := by
        simp only [StreamRun.frames, StreamRun.chunks, StreamRun.ends, StreamRun.chunks_ended,
          StreamRun.ends_ended, List.map_nil, List.nil_append, ↓reduceIte]
      rw [hfr, Emits, hs]
      rfl
  | push p next ih => exact hp.elim
  | returns user => exact ⟨_, rfl, .nil rfl⟩
  | throws user e => exact ⟨_, rfl, .nil rfl⟩

/-- The destructor ends the stream if nobody has. -/
theorem destroy_emits {w : StreamWriter} (hok : SendsOk env w.port) (s : Rt σ ω) :
    Emits w.port (if w.ended then [] else [createStreamEndMessage w.sequenceId]) s
      (Eff.after (w.destroy env) s) := by
  cases he : w.ended with
  | true =>
    have hd : w.destroy env = pure () := if_pos he
    rw [hd]
    exact .nil rfl
  | false =>
    have hd : w.destroy env = quietly (w.sendEnd env) := if_neg (by simp [he])
    have hq : Eff.after (w.destroy env) s = s.put w.port (createStreamEndMessage w.sequenceId) := by
      rw [hd, Eff.after_ok (quietly_run _ s), Eff.after_ok (StreamWriter.sendEnd_ok hok s)]
    rw [hq]
    exact .put s w.port _

/-- The error reply, when its text is short enough to encode. -/
def errorFrames (seq : UInt32) (code : ErrorCode) (text : Str) : List Bytes :=
  if text.length ≤ kMaxStringSize then
    [createMessage .error seq
      (encodeU16 code.toU16 ++ (encodeU32 (UInt32.ofNat text.length) ++ text))]
  else []

theorem sendError_emits {port : Port} (hok : SendsOk env port) (seq : UInt32) (code : ErrorCode)
    (text : Str) (s : Rt σ ω) :
    Emits port (errorFrames seq code text) s (Eff.after (sendError env port seq code text) s) := by
  unfold errorFrames sendError
  split
  · next h =>
    rw [createErrorMessage_ok seq code h]
    rw [ofExcept_ok_bind, Eff.after_ok (reply_ok hok _ s)]
    exact .put s port _
  · next h =>
    rw [createErrorMessage_error seq code (by omega)]
    exact .nil rfl

/-- What follows the dispatcher's frames: the destructor's `stream_end` or the error reply. -/
def StreamRun.closing (seq : UInt32) (run : StreamRun σ) : List Bytes :=
  match run.thrown false with
  | none => if run.ends false then [] else [createStreamEndMessage seq]
  | some e => errorFrames seq .unknownMethod e.what

/-- The dispatcher throws only what `catch (const std::exception&)` takes. -/
def StreamRun.ThrowsStd (run : StreamRun σ) : Prop := ∀ e, run.thrown false = some e → e.isStd = true

theorem handleStreamCall_emits {port : Port} (hok : SendsOk env port) (seq : UInt32)
    {run : σ → StreamRun σ} {s : Rt σ ω} (hp : (run s.user).Pushless)
    (hstd : (run s.user).ThrowsStd) :
    Emits port ((run s.user).frames seq ++ (run s.user).closing seq) s
      (Eff.after (handleStreamCall env seq port run) s) := by
  obtain ⟨s', hrun, hs⟩ := runStream_emits (run s.user) hp hok seq s
  refine hs.trans ?_
  unfold StreamRun.closing
  cases ht : (run s.user).thrown false with
  | none =>
    rw [ht] at hrun
    have ha : Eff.after (handleStreamCall env seq port run) s =
        Eff.after (StreamWriter.destroy env ⟨port, seq, (run s.user).ends false⟩) s' := by
      unfold Eff.after
      rw [handleStreamCall_returned hrun]
    rw [ha]
    have hd : SendsOk env (StreamWriter.mk port seq ((run s.user).ends false)).port := hok
    exact destroy_emits hd s'
  | some e =>
    rw [ht] at hrun
    have ha : Eff.after (handleStreamCall env seq port run) s =
        Eff.after (sendError env port seq .unknownMethod e.what) s' := by
      unfold Eff.after
      rw [handleStreamCall_threw hrun (hstd e ht)]
    rw [ha]
    exact sendError_emits hok seq _ _ s'

/-! ## The documented answer, and when it is given -/

/-- The chunks, then one terminator for `seq`: `stream_end`, or an error if the dispatcher threw. -/
def StreamAnswer (seq : UInt32) (run : StreamRun σ) (msgs : List Bytes) : Prop :=
  ∃ last : Frame, msgs = (run.chunks false).map (createStreamMessage seq) ++ [last.bytes] ∧
    last.hdr.sequenceId = seq ∧
    last.hdr.type = if (run.thrown false).isSome then .error else .streamEnd

/-- The dispatcher does not throw after it ended the stream, nor with a text too long for
an error message. -/
def StreamRun.EndsCleanly (run : StreamRun σ) : Prop :=
  ∀ e, run.thrown false = some e → run.ends false = false ∧ e.what.length ≤ kMaxStringSize

theorem streamAnswer_iff (seq : UInt32) (run : StreamRun σ) :
    StreamAnswer seq run (run.frames seq ++ run.closing seq) ↔ run.EndsCleanly := by
  unfold StreamAnswer StreamRun.EndsCleanly StreamRun.frames StreamRun.closing
  cases ht : run.thrown false with
  | none =>
    refine ⟨fun _ e he => (by cases he), fun _ => ?_⟩
    refine ⟨message .streamEnd seq [], ?_, rfl, rfl⟩
    cases run.ends false with
    | true => simp only [↓reduceIte, List.append_nil]; rfl
    | false => simp only [Bool.false_eq_true, ↓reduceIte, List.append_nil]; rfl
  | some e =>
    simp only [Option.isSome_some, ↓reduceIte, List.append_assoc]
    constructor
    · rintro ⟨last, hm, -, hty⟩ e' he'
      cases he'
      have hm' := List.append_cancel_left hm
      unfold errorFrames at hm'
      cases hends : run.ends false with
      | true =>
        -- the `stream_end` is in front of the error, or alone
        rw [hends] at hm'
        have hlast : createStreamEndMessage seq = last.bytes := (List.cons_eq_cons.mp hm').1
        have hf : message .streamEnd seq [] = last := Frame.bytes_inj hlast
        rw [← hf] at hty
        cases hty
      | false =>
        refine ⟨rfl, ?_⟩
        by_contra hlen
        rw [hends, if_neg hlen] at hm'
        cases hm'
    · intro h
      obtain ⟨hends, hlen⟩ := h e rfl
      unfold errorFrames
      rw [hends, if_pos hlen]
      exact ⟨message .error seq _, rfl, rfl, rfl⟩

/-- What a stream call puts on its port is the documented answer. -/
def StreamAnswered (port : Port) (seq : UInt32) (run : StreamRun σ) (s s' : Rt σ ω) : Prop :=
  ∃ msgs, Emits port msgs s s' ∧ StreamAnswer seq run msgs

theorem handleStreamCall_answered {port : Port} (hok : SendsOk env port) (seq : UInt32)
    {run : σ → StreamRun σ} {s : Rt σ ω} (hp : (run s.user).Pushless)
    (hstd : (run s.user).ThrowsStd) :
    StreamAnswered port seq (run s.user) s (Eff.after (handleStreamCall env seq port run) s) ↔
      (run s.user).EndsCleanly := by
  have he := handleStreamCall_emits hok seq hp hstd
  rw [← streamAnswer_iff seq]
  refine ⟨fun ⟨msgs, hm, ha⟩ => ?_, fun h => ⟨_, he, h⟩⟩
  rw [he.unique hm]
  exact ha

/-- A streaming request on either path is answered by the chunks and one terminator exactly
when its dispatcher does not throw after ending the stream, nor with an overlong text. -/
theorem streamCall_answered_iff (env : Env σ ω) (hdr : Header) (payload rest : Buffer) (tp : TransportPtr)
    (fd : Int) (serviceId methodId : UInt16) (dispatcher : UInt16 → Buffer → σ → StreamRun σ)
    (s : Rt σ ω) (hsend : SendsOk env (.transport tp)) (hwrite : SendsOk env (.fd fd))
    (hcall : hdr.type = .call)
    (hdec : decodeMethodCallHeader.run payload = .ok (serviceId, methodId) rest)
    (hreg : env.streamDispatchers.lookup serviceId = some dispatcher)
    (hp : (dispatcher methodId rest s.user).Pushless)
    (hstd : (dispatcher methodId rest s.user).ThrowsStd) :
    (StreamAnswered (.transport tp) hdr.sequenceId (dispatcher methodId rest s.user) s
        (Eff.after (handleMessage env hdr payload tp) s) ↔
      (dispatcher methodId rest s.user).EndsCleanly) ∧
    (StreamAnswered (.fd fd) hdr.sequenceId (dispatcher methodId rest s.user) s
        (Eff.after (handleMessageFd env hdr payload fd) s) ↔
      (dispatcher methodId rest s.user).EndsCleanly) := by
  have hc : ∀ port, handleCall env hdr payload port =
      handleStreamCall env hdr.sequenceId port (dispatcher methodId rest) := by
    intro port
    rw [handleCall, decodeThen_ok hdec]
    simp only [hreg]
  have hm : handleMessage env hdr payload tp = handleCall env hdr payload (.transport tp) := by
    unfold handleMessage
    rw [hcall]
    rfl
  have hf : handleMessageFd env hdr payload fd = handleCall env hdr payload (.fd fd) := by
    unfold handleMessageFd
    rw [hcall]
    rfl
  rw [hm, hf, hc, hc]
  exact ⟨handleStreamCall_answered hsend _ hp hstd, handleStreamCall_answered hwrite _ hp hstd⟩

/-- One stream dispatcher, registered as service 7. -/
def streamEnv (run : StreamRun Unit) : Env Unit Unit :=
  { bareEnv with streamDispatchers := AList.insert 7 (fun _ _ _ => run) ∅ }

/-- Call 5, of method 1 of service 7. -/
def streamCall : Frame := message .call 5 (encodeMethodCall 7 1 [])

/-- One chunk and a throw: the chunk and the error reply on either path. -/
theorem streamCall_answered_chunk_then_throw :
    StreamAnswered (.transport 2) 5 (.write [1] fun _ => .throws () (.runtimeError (lit "boom")))
        bareRt (Eff.after (handleMessage
          (streamEnv (.write [1] fun _ => .throws () (.runtimeError (lit "boom")))) streamCall.hdr
          (.ofBytes streamCall.payload) 2) bareRt) ∧
      StreamAnswered (.fd 1) 5 (.write [1] fun _ => .throws () (.runtimeError (lit "boom")))
        bareRt (Eff.after (handleMessageFd
          (streamEnv (.write [1] fun _ => .throws () (.runtimeError (lit "boom")))) streamCall.hdr
          (.ofBytes streamCall.payload) 1) bareRt) := by
  have hclean : (StreamRun.write [1] fun _ => .throws () (.runtimeError (lit "boom"))).EndsCleanly
      := by
    intro e he
    cases he
    exact ⟨rfl, by decide⟩
  have hstd : (StreamRun.write [1] fun _ => .throws () (.runtimeError (lit "boom"))).ThrowsStd := by
    intro e he
    cases he
    rfl
  obtain ⟨pre', hdec⟩ := decodeMethodCallHeader_cut [] 7 1 []
  have h := streamCall_answered_iff
    (streamEnv (.write [1] fun _ => .throws () (.runtimeError (lit "boom")))) streamCall.hdr
    (.ofBytes streamCall.payload) (.cut pre' []) 2 1 7 1
    (fun _ _ _ => .write [1] fun _ => .throws () (.runtimeError (lit "boom"))) bareRt
    (fun _ => rfl) ⟨by decide, fun _ => rfl⟩ rfl hdec rfl (fun _ => trivial) hstd
  exact ⟨h.1.mpr hclean, h.2.mpr hclean⟩

/-- `end()` and a throw: `stream_end` goes out, and the error after it. -/
theorem streamCall_end_then_throw_not_answered :
    ¬ StreamAnswered (.transport 2) 5 (.finish fun _ => .throws () (.runtimeError (lit "boom")))
      bareRt (Eff.after (handleMessage
        (streamEnv (.finish fun _ => .throws () (.runtimeError (lit "boom")))) streamCall.hdr
        (.ofBytes streamCall.payload) 2) bareRt) := by
  rintro ⟨msgs, he, last, hm, -, -⟩
  have hl : msgs.length = 1 := by
    rw [hm]
    rfl
  have hs := congrArg List.length he
  have h2 : (Eff.after (handleMessage
      (streamEnv (.finish fun _ => .throws () (.runtimeError (lit "boom")))) streamCall.hdr
      (.ofBytes streamCall.payload) 2) bareRt).sent.length = 2 := by decide +kernel
  rw [h2, List.length_append, List.length_map, hl] at hs
  cases hs

end Song
