import Song.Compiler.Remote

/-!
# A streaming method behind its proxy

The dispatcher gives the method a writer; the proxy gives `call_streaming` a lambda that decodes
each chunk and hands the value on. Between the two, a method that writes values is a loop over
them at the client (`handOut`): the values are handed on in order until the callback throws, and
behind the last one the call returns, or throws what the method threw.
-/

namespace Song

/-! ## Handing out -/

/-- Call `f` on one after the other, with those before it, until it throws. -/
def handOut {α : Type} (f : List α → Option Exn) : List α → List α → List α × Option Exn
  | seen, [] => (seen, none)
  | seen, x :: xs =>
    match f (seen ++ [x]) with
    | none => handOut f (seen ++ [x]) xs
    | some e => (seen ++ [x], some e)

section
variable {κ : Type} {seq : UInt32} {onChunk : StreamChunkHandler}

theorem streamBody_handed {bs : Bytes} (h : bs.length ≤ kMaxPayloadSize) (c : Conn κ) :
    (streamBody seq onChunk (createStreamMessage seq bs)).run c =
      match onChunk (c.handed ++ [bs]) with
      | none => .ok none { c with handed := c.handed ++ [bs] }
      | some e => .error e { c with handed := c.handed ++ [bs] } := by
  rw [createStreamMessage, streamBody_message h, if_neg (not_not_intro rfl), if_pos rfl,
    EStateM.run_bind]
  unfold handChunk
  simp only [EStateM.run]
  cases onChunk (c.handed ++ [bs]) with
  | none => rfl
  | some e => rfl

/-- The loop of `call_streaming` on chunks: it hands them out, and goes on behind them, -/
theorem receiveLoop_handed {dry : Exn} {chunks rest : List Bytes}
    (h : ∀ bs ∈ chunks, bs.length ≤ kMaxPayloadSize) {c : Conn κ}
    (hc : c.incoming = chunks.map (createStreamMessage seq) ++ rest)
    (hall : (handOut onChunk c.handed chunks).2 = none) :
    (receiveLoop dry (streamBody seq onChunk) c.incoming).run c =
      (receiveLoop dry (streamBody seq onChunk) rest).run
        { c with incoming := rest, handed := (handOut onChunk c.handed chunks).1 } := by
  induction chunks generalizing c with
  | nil =>
    rw [List.map_nil, List.nil_append] at hc
    subst hc
    rfl
  | cons bs chunks ih =>
    obtain ⟨hbs, hchunks⟩ := List.forall_mem_cons.mp h
    have hbody : (streamBody seq onChunk (createStreamMessage seq bs)).run
        { c with incoming := chunks.map (createStreamMessage seq) ++ rest } = _ :=
      streamBody_handed hbs _
    unfold handOut at hall ⊢
    cases hf : onChunk (c.handed ++ [bs]) with
    | some e =>
      rw [hf] at hall
      cases hall
    | none =>
      rw [hf] at hall
      dsimp only at hall hbody ⊢
      rw [hf] at hbody
      rw [hc, List.map_cons, List.cons_append, receiveLoop_none hbody]
      exact ih (c := { c with
        incoming := chunks.map (createStreamMessage seq) ++ rest
        handed := c.handed ++ [bs] }) hchunks rfl hall

/-- or ends with what the callback throws. -/
theorem receiveLoop_refused {dry : Exn} {chunks rest : List Bytes}
    (h : ∀ bs ∈ chunks, bs.length ≤ kMaxPayloadSize) {c : Conn κ}
    (hc : c.incoming = chunks.map (createStreamMessage seq) ++ rest) {e : Exn}
    (hsome : (handOut onChunk c.handed chunks).2 = some e) :
    ∃ left, (receiveLoop dry (streamBody seq onChunk) c.incoming).run c =
      .error e { c with incoming := left, handed := (handOut onChunk c.handed chunks).1 } := by
  induction chunks generalizing c with
  | nil => cases hsome
  | cons bs chunks ih =>
    obtain ⟨hbs, hchunks⟩ := List.forall_mem_cons.mp h
    have hbody : (streamBody seq onChunk (createStreamMessage seq bs)).run
        { c with incoming := chunks.map (createStreamMessage seq) ++ rest } = _ :=
      streamBody_handed hbs _
    rw [hc, List.map_cons, List.cons_append]
    unfold handOut at hsome ⊢
    cases hf : onChunk (c.handed ++ [bs]) with
    | some e' =>
      rw [hf] at hsome
      dsimp only at hsome hbody ⊢
      rw [hf] at hbody
      cases hsome
      exact ⟨_, receiveLoop_error hbody⟩
    | none =>
      rw [hf] at hsome
      dsimp only at hsome hbody ⊢
      rw [hf] at hbody
      rw [receiveLoop_none hbody]
      exact ih (c := { c with
        incoming := chunks.map (createStreamMessage seq) ++ rest
        handed := c.handed ++ [bs] }) hchunks rfl hsome

end

/-! ## The dispatcher's run -/

/-- The user state that a dispatcher's run leaves over sends that succeed. -/
def StreamRun.leaves {σ : Type} : StreamRun σ → Bool → σ
  | .write _ next, ended => (next (writeThrows ended)).leaves ended
  | .finish next, _ => (next none).leaves true
  | .push _ next, ended => next.leaves ended
  | .returns user, _ => user
  | .throws user _, _ => user

/-- What a client makes of the end of the stream. -/
def StreamRun.answer {σ : Type} (run : StreamRun σ) (seq : UInt32) : Except Exn UInt32 :=
  match run.thrown false with
  | none => .ok seq
  | some e => .error (streamError 3 e.what)

section
variable {σ ω : Type} {env : Env σ ω} {port : Port} {seq : UInt32}

theorem runStream_leaves (run : StreamRun σ) (hp : run.Pushless) {w : StreamWriter}
    (hok : SendsOk env w.port) (s : Rt σ ω) :
    (runStream env run w s).2.2.user = run.leaves w.ended := by
  induction run generalizing w s with
  | write chunk next ih =>
    rw [runStream, StreamRun.leaves, StreamRun.writeThrows]
    cases he : w.ended with
    | true =>
      rw [StreamWriter.write_ended he]
      have h := ih (some StreamWriter.writeAfterEnd) (hp _) hok s
      rw [he] at h
      exact h
    | false =>
      rw [StreamWriter.write_ok hok he]
      have h := ih none (hp _) hok (s.put w.port (createStreamMessage w.sequenceId chunk))
      rw [he] at h
      exact h
  | finish next ih =>
    rw [runStream, StreamRun.leaves, StreamWriter.finish]
    cases he : w.ended with
    | true =>
      rw [if_pos rfl]
      have h := ih none (hp _) hok s
      rw [he] at h
      exact h
    | false =>
      rw [if_neg Bool.false_ne_true, StreamWriter.sendEnd_ok hok]
      exact ih none (hp _) (w := w.abort) hok _
  | push p next ih => exact hp.elim
  | returns user => rfl
  | throws user e => rfl

/-- The terminator that follows the chunks. -/
theorem StreamRun.EndsCleanly.last {run : StreamRun σ} (h : run.EndsCleanly) :
    ∃ last : StreamLast, run.frames seq ++ run.closing seq =
        (run.chunks false).map (createStreamMessage seq) ++ [last.message seq] ∧
      ∀ {κ : Type} (c : Conn κ), last.result seq c =
        (MonadExcept.ofExcept (run.answer seq) : Cli κ UInt32).run c := by
  unfold frames closing answer
  cases ht : run.thrown false with
  | none =>
    refine ⟨.streamEnd, ?_, fun c => rfl⟩
    cases run.ends false with
    | true => simp only [↓reduceIte, List.append_nil]; rfl
    | false => simp only [Bool.false_eq_true, ↓reduceIte, List.append_nil]; rfl
  | some e =>
    obtain ⟨hends, hlen⟩ := h e ht
    refine ⟨.error 3 e.what hlen, ?_, fun c => rfl⟩
    dsimp only
    unfold errorFrames
    rw [hends, if_neg Bool.false_ne_true, if_pos hlen, List.append_nil]
    rfl

theorem Emits.arrived {tp : TransportPtr} {msgs : List Bytes} {rt rt' : Rt σ ω}
    (h : Emits (.transport tp) msgs rt rt') :
    arrived tp rt rt' = msgs := by
  rw [arrived_eq h, List.filter_eq_self.mpr, List.map_map]
  · exact List.map_id msgs
  · intro x hx
    obtain ⟨m, -, rfl⟩ := List.mem_map.mp hx
    exact decide_eq_true rfl

/-- The runtime goes on, in the state that the run left. -/
theorem handleStreamCall_returns (hok : SendsOk env port) {run : σ → StreamRun σ} {s : Rt σ ω}
    (hp : (run s.user).Pushless) (hstd : (run s.user).ThrowsStd)
    (hclean : (run s.user).EndsCleanly) :
    ∃ s', (handleStreamCall env seq port run).run s = .ok () s' ∧
      s'.user = (run s.user).leaves false := by
  obtain ⟨s', hrun, -⟩ := runStream_emits (run s.user) hp hok seq s
  have hwriter : SendsOk env (StreamWriter.create port seq).port := hok
  have huser := runStream_leaves (run s.user) hp hwriter s
  rw [hrun] at huser
  cases ht : (run s.user).thrown false with
  | none =>
    rw [ht] at hrun
    rw [handleStreamCall_returned hrun]
    unfold StreamWriter.destroy
    split
    · exact ⟨s', rfl, huser⟩
    · have hw : SendsOk env (StreamWriter.mk port seq ((run s.user).ends false)).port := hok
      refine ⟨_, quietly_run _ s', ?_⟩
      rw [Eff.after_ok (StreamWriter.sendEnd_ok hw s')]
      exact huser
  | some e =>
    rw [ht] at hrun
    rw [handleStreamCall_threw hrun (hstd e ht), sendError,
      createErrorMessage_ok seq _ (hclean e ht).2, ofExcept_ok_bind, reply_ok hok]
    exact ⟨_, rfl, huser⟩

end

namespace Compiler

open ServiceDef (valuesOf chunkHandler)

/-! ## The values -/

section
variable {ns : Namespace} {depth : Nat} {m : Method}

/-- Handing on the decoded chunks is handing out the values. -/
theorem handOut_chunks {vs : List Val} {chunks : List Bytes}
    (h : List.Forall₂ (Carries ns depth m.returnType) vs chunks)
    (onChunk : List Val → Option Exn) (seen : List Bytes) :
    (handOut (chunkHandler ns depth m onChunk) seen chunks).2 =
        (handOut onChunk (valuesOf ns depth m seen) vs).2 ∧
      valuesOf ns depth m (handOut (chunkHandler ns depth m onChunk) seen chunks).1 =
        (handOut onChunk (valuesOf ns depth m seen) vs).1 := by
  induction h generalizing seen with
  | nil => exact ⟨rfl, rfl⟩
  | @cons v w vs chunks hw _ ih =>
    have hv := ServiceDef.valueOf_encoded hw
    have hseen : valuesOf ns depth m (seen ++ [w]) = valuesOf ns depth m seen ++ [v] := by
      rw [valuesOf, List.filterMap_append, List.filterMap_cons, hv]
      rfl
    have hone : chunkHandler ns depth m onChunk (seen ++ [w]) =
        onChunk (valuesOf ns depth m seen ++ [v]) := by
      rw [chunkHandler, List.getLast?_concat, Option.map_some, hv, ← hseen]
    unfold handOut
    rw [hone]
    cases onChunk (valuesOf ns depth m seen ++ [v]) with
    | none =>
      have h := ih (seen ++ [w])
      rw [hseen] at h
      exact h
    | some e => exact ⟨rfl, hseen⟩

end

/-! ## A streaming call -/

section
variable {κ σ ω : Type} {s : ServiceDef} {layout : Cpp.Layout} {ns : Namespace} {depth : Nat}
  {impl : ServiceImpl σ} {env : Env σ ω} {tp : TransportPtr} {rt : Rt σ ω} {i : Invocation}
  {serviceId methodId : UInt16} {w : Bytes}

/-- It is one of a streaming method. -/
structure Invocation.StreamOf (s : ServiceDef) (ns : Namespace) (depth : Nat) (i : Invocation) :
    Prop where
  method : s.methods[i.pos]? = some i.method
  stream : i.method.isStream = true
  args : FitsAll ns depth i.method.params i.args

/-- The method writes `vs` and pushes nothing, and how it ends can be sent. -/
structure Writes (ns : Namespace) (depth : Nat) (t : Ty) (run : StreamRun σ) (vs : List Val) :
    Prop where
  pushless : run.Pushless
  std : run.ThrowsStd
  clean : run.EndsCleanly
  values : List.Forall₂ (Carries ns depth t) vs (run.chunks false)
  small : ∀ w ∈ run.chunks false, w.length ≤ kMaxPayloadSize

/-- What the runtime does with the request. -/
theorem ServiceDef.Registered.stream (hreg : s.Registered layout ns depth impl env)
    (hok : SendsOk env (.transport tp)) (hi : i.StreamOf s ns depth)
    (hreq : s.request layout ns i.method i.args = .ok (serviceId, methodId, w)) {vs : List Val}
    (hw : Writes ns depth i.method.returnType (impl.stream i.pos i.args rt.user) vs)
    (seq : UInt32) :
    ∃ rt' last, (clientStep env (createCallMessage seq serviceId methodId w) tp).run rt =
        .ok .stay rt' ∧ rt'.user = (impl.stream i.pos i.args rt.user).leaves false ∧
      arrived tp rt rt' = ((impl.stream i.pos i.args rt.user).chunks false).map
        (createStreamMessage seq) ++ [StreamLast.message seq last] ∧
      ∀ c : Conn κ, last.result seq c = (MonadExcept.ofExcept
        ((impl.stream i.pos i.args rt.user).answer seq) : Cli κ UInt32).run c := by
  obtain ⟨serviceId', methodId', w', hreq', hid, -, hrun⟩ :=
    hreg.program.dispatch_request impl hreg.supported hi.method hi.args
  cases hreq'.symm.trans hreq
  rw [hi.stream] at hid
  have hdisp := hreg.streams serviceId hid
  let op := Op.call serviceId methodId w
  obtain ⟨pre, hd⟩ := decodeMethodCallHeader_cut (encodeHeader (op.frame seq).hdr) serviceId
    methodId w
  have hfun : s.dispatchStream layout ns depth impl methodId (.cut pre w) =
      impl.stream i.pos i.args := funext fun user => hrun hi.stream pre user
  have hm : Song.handleMessage env (op.frame seq).hdr (op.frame seq).body tp =
      Song.handleCall env (op.frame seq).hdr (.cut (encodeHeader (op.frame seq).hdr)
        (encodeMethodCall serviceId methodId w)) (.transport tp) := rfl
  have hstream : Song.handleMessage env (op.frame seq).hdr (op.frame seq).body tp =
      handleStreamCall env seq (.transport tp) (impl.stream i.pos i.args) := by
    rw [hm, Song.handleCall, decodeThen_ok hd]
    simp only [hdisp, hfun]
    rfl
  obtain ⟨rt', hret, huser⟩ := handleStreamCall_returns hok hw.pushless hw.std hw.clean
  have hemits := handleStreamCall_emits hok seq hw.pushless hw.std
  rw [Eff.after_ok hret] at hemits
  obtain ⟨last, hlast, hresult⟩ := hw.clean.last
  rw [← hstream] at hret
  have hhandled : (clientStep env (op.message seq) tp).run rt = .ok .stay rt' :=
    clientStep_handled hret
  exact ⟨rt', last, hhandled, huser, (Emits.arrived hemits).trans hlast, fun c => hresult c⟩

end

/-! ### A ticker -/

namespace Ticker

/-- `stream u8 ticks()` -/
def ticks : Method where
  name := lit "ticks"
  params := []
  returnType := Dimmer.u8
  isStream := true

def ticker : ServiceDef := { name := lit "Ticker", methods := [ticks] }

def tickerNs : Namespace := { services := [ticker] }

/-- 1, 2 and 3; the state counts the calls. -/
def tickerImpl : ServiceImpl Nat where
  method _ _ calls := .throw calls (.runtimeError [])
  stream _ _ calls := .write [1] fun _ => .write [2] fun _ => .write [3] fun _ =>
    .returns (calls + 1)

def tickerEnv : Env Nat Unit where
  dispatchers := (∅ : Map _ _).insert 1 (ticker.dispatch .single tickerNs 1 tickerImpl)
  streamDispatchers := (∅ : Map _ _).insert 2 (ticker.dispatchStream .single tickerNs 1 tickerImpl)
  factories := ∅
  propGet _ s := .throw s (.runtimeError [])
  propSet _ _ s := .throw s (.runtimeError [])
  dispatch _ _ s := .throw s (.runtimeError [])
  methods := []
  localCapabilities := 0
  sendOutcome _ _ := none
  writeOutcome _ := true

def tickerRt : Rt Nat Unit := ⟨.empty, ⟨∅⟩, 0, .empty, ∅, [], 0, []⟩

theorem registered_ticker : ticker.Registered .single tickerNs 1 tickerImpl tickerEnv where
  program := by decide +kernel
  supported := by constructor <;> simp [ticker, ticks, Dimmer.compilable_u8]
  plain id hid := by
    have hone : ticker.serviceId .single tickerNs false = some 1 := by decide +kernel
    cases hone.symm.trans hid
    exact ⟨rfl, AList.lookup_insert _⟩
  streams id hid := by
    have htwo : ticker.serviceId .single tickerNs true = some 2 := by decide +kernel
    cases htwo.symm.trans hid
    exact AList.lookup_insert _

theorem carries_u8 (v : UInt8) : Carries tickerNs 1 Dimmer.u8 (.u8 v) [v] := by
  obtain ⟨w, hw⟩ := (Dimmer.fits_u8 tickerNs v).carries (Dimmer.compilable_u8 _)
  have he : w = [v] := (Except.ok.inj hw.1).symm
  exact he ▸ hw

theorem writes_ticks (calls : Nat) :
    Writes tickerNs 1 Dimmer.u8 (tickerImpl.stream 0 [] calls) [.u8 1, .u8 2, .u8 3] where
  pushless := by exact fun _ _ _ => trivial
  std _ he := by cases he
  clean _ he := by cases he
  values := .cons (carries_u8 1) (.cons (carries_u8 2) (.cons (carries_u8 3) .nil))
  small := by
    have hsmall : ∀ w ∈ ([[1], [2], [3]] : List Bytes), w.length ≤ kMaxPayloadSize := by decide
    exact hsmall

/-- A callback that has enough of two values. -/
def enough (vs : List Val) : Option Exn :=
  if vs.length = 2 then some (.runtimeError (lit "enough")) else none

end Ticker

end Compiler

end Song
