import Song.Runtime.Message

/-!
# The pipe path and the transport path (`runtime.cpp`, `stream.cpp`)

`handle_message_fd` and `handle_message` are the same code on two kinds of output,
a descriptor and a transport. When writes to either succeed and the callbacks look
at a request through reads only, they do the same: what one of them sends on the
descriptor the other sends on the transport, in the same order, and they leave the
same state and end alike (`handleMessage_mirrors`).
-/

namespace Song

open Eff (Mirrors)

variable {σ ω α β : Type}

/-- The descriptor `n` renamed to the transport `tp`. -/
def Port.onTransport (n : Int) (tp : TransportPtr) (port : Port) : Port :=
  if port = .fd n then .transport tp else port

/-- The runtime that has sent on `tp` what this one has sent on `n`. -/
def Rt.onTransport (n : Int) (tp : TransportPtr) (s : Rt σ ω) : Rt σ ω :=
  { s with sent := s.sent.map fun x => (x.1.onTransport n tp, x.2) }

/-- Writes to descriptors and sends on `tp` succeed. -/
structure WritesOk (env : Env σ ω) (tp : TransportPtr) : Prop where
  write : ∀ k, env.writeOutcome k = true
  send : ∀ k, env.sendOutcome tp k = none

/-- The callbacks access a request only through reads: they depend on what is unread. -/
structure ReadsOnly (env : Env σ ω) : Prop where
  dispatcher : ∀ {id f}, env.dispatchers.lookup id = some f →
    ∀ m {b b' : Buffer}, b.unread = b'.unread → f m b = f m b'
  streamDispatcher : ∀ {id f}, env.streamDispatchers.lookup id = some f →
    ∀ m {b b' : Buffer}, b.unread = b'.unread → f m b = f m b'
  factory : ∀ {id f}, env.factories.lookup id = some f →
    ∀ m {b b' : Buffer}, b.unread = b'.unread → f m b = f m b'
  propSet : ∀ m {b b' : Buffer}, b.unread = b'.unread → env.propSet m b = env.propSet m b'
  dispatch : ∀ m {b b' : Buffer}, b.unread = b'.unread → env.dispatch m b = env.dispatch m b'

variable {env : Env σ ω} {n : Int} {tp : TransportPtr}

/-! ## Sends -/

theorem Rt.onTransport_put (n : Int) (tp : TransportPtr) (s : Rt σ ω) (port : Port)
    (msg : Bytes) :
    ({ s with attempts := s.attempts + 1, sent := s.sent ++ [(port, msg)] } : Rt σ ω).onTransport
        n tp =
      { s.onTransport n tp with
        attempts := s.attempts + 1
        sent := (s.onTransport n tp).sent ++ [(port.onTransport n tp, msg)] } := by
  simp only [Rt.onTransport, List.map_append, List.map_cons, List.map_nil]

theorem mirrors_transportSend (tp' : TransportPtr) (msg : Bytes) :
    Mirrors (Rt.onTransport n tp) (transportSend env tp' msg) (transportSend env tp' msg) := by
  intro s
  have hs : (s.onTransport n tp).attempts = s.attempts := rfl
  simp only [EStateM.run, transportSend, hs]
  cases env.sendOutcome tp' s.attempts with
  | none =>
    rw [Eff.mapState, Rt.onTransport_put]
    rfl
  | some e => rfl

theorem writeAll_run_ok (hok : WritesOk env tp) (msg : Bytes) (s : Rt σ ω) :
    (writeAll env n msg).run s = .ok true
      { s with attempts := s.attempts + 1, sent := s.sent ++ [(.fd n, msg)] } := by
  simp only [EStateM.run, writeAll, hok.write, ↓reduceIte]

/-- A write to the descriptor is mirrored by a send on the transport. -/
theorem mirrors_reply (hok : WritesOk env tp) (msg : Bytes) :
    Mirrors (Rt.onTransport n tp) (reply env (.fd n) msg) (reply env (.transport tp) msg) := by
  intro s
  have hsend : (transportSend env tp msg).run (s.onTransport n tp) = .ok ()
      { s.onTransport n tp with
        attempts := s.attempts + 1
        sent := (s.onTransport n tp).sent ++ [(.transport tp, msg)] } := by
    simp only [EStateM.run, transportSend, hok.send]
    rfl
  have hput := Rt.onTransport_put n tp s (.fd n) msg
  rw [Port.onTransport, if_pos rfl] at hput
  simp only [reply]
  rw [Eff.run_bind_ok (writeAll_run_ok hok msg s), hsend, ← hput]
  rfl

theorem mirrors_quietly {x y : Srv σ ω Unit} (h : Mirrors (Rt.onTransport n tp) x y) :
    Mirrors (Rt.onTransport n tp) (quietly x) (quietly y) := by
  intro s
  have hs := h s
  simp only [EStateM.run] at hs
  simp only [EStateM.run, quietly, hs]
  cases x s <;> rfl

theorem mirrors_sendEach (msg : Bytes) (tps : List TransportPtr) :
    Mirrors (Rt.onTransport n tp) (sendEach env msg tps) (sendEach env msg tps) := by
  induction tps with
  | nil => exact .pure ()
  | cons tp' tps ih => exact (mirrors_quietly (mirrors_transportSend tp' msg)).bind fun _ => ih

theorem mirrors_notifyAll (ps : List Push) :
    Mirrors (Rt.onTransport n tp) (notifyAll env ps) (notifyAll env ps) := by
  induction ps with
  | nil => exact .pure ()
  | cons p ps ih =>
    have hnotify : Mirrors (Rt.onTransport n tp) (notify env p) (notify env p) :=
      fun s => mirrors_sendEach _ _ s
    exact hnotify.bind fun _ => ih

theorem mirrors_ofExcept (x : Except Exn α) :
    Mirrors (Rt.onTransport n tp) (ofExcept x : Srv σ ω α) (ofExcept x) := by
  cases x with
  | ok a => exact .pure a
  | error e => exact .throw e

theorem mirrors_sendError (hok : WritesOk env tp) (seq : UInt32) (code : ErrorCode) (text : Str) :
    Mirrors (Rt.onTransport n tp) (sendError env (.fd n) seq code text)
      (sendError env (.transport tp) seq code text) :=
  (mirrors_ofExcept _).bind fun msg => mirrors_reply hok msg

/-! ## Callbacks -/

theorem mirrors_runCallback (f : σ → Ran σ Push α) :
    Mirrors (Rt.onTransport n tp) (runCallback env f) (runCallback env f) := fun s =>
  ((mirrors_notifyAll (f s.user).pushed).bind fun _ => mirrors_ofExcept (f s.user).out)
    { s with user := (f s.user).state }

theorem mirrors_runVirtual (objectId : Int32) (obj : Obj ω)
    (f : ω × σ → Ran (ω × σ) Note α) :
    Mirrors (Rt.onTransport n tp) (runVirtual env objectId obj f)
      (runVirtual env objectId obj f) := fun s =>
  ((mirrors_notifyAll _).bind fun _ => mirrors_ofExcept (f (obj.data, s.user)).out)
    { s with
      registry := s.registry.put objectId
        { obj with data := (f (obj.data, s.user)).state.1 }
      user := (f (obj.data, s.user)).state.2 }

/-! ## Stream writers -/

/-- The writer on the transport that has done what this one has done. -/
def StreamWriter.onTransport (tp : TransportPtr) (w : StreamWriter) : StreamWriter :=
  { w with port := .transport tp }

theorem mirrors_write (hok : WritesOk env tp) (hn : 0 ≤ n) {w : StreamWriter}
    (hw : w.port = .fd n) (chunk : Bytes) :
    Mirrors (Rt.onTransport n tp) (w.write env chunk) ((w.onTransport tp).write env chunk) := by
  unfold StreamWriter.write
  rw [show (w.onTransport tp).ended = w.ended from rfl]
  by_cases he : w.ended = true
  · rw [if_pos he, if_pos he]
    exact .throw _
  · rw [if_neg he, if_neg he, hw]
    simp only [StreamWriter.onTransport, if_pos hn]
    intro s
    have hreply := mirrors_reply hok (n := n) (createStreamMessage w.sequenceId chunk) s
    have hwrite := writeAll_run_ok hok (n := n) (createStreamMessage w.sequenceId chunk) s
    rw [Eff.run_bind_ok hwrite]
    simp only [reply] at hreply
    rw [hreply, Eff.run_bind_ok hwrite]
    rfl

theorem mirrors_sendEnd (hok : WritesOk env tp) (hn : 0 ≤ n) {w : StreamWriter}
    (hw : w.port = .fd n) :
    Mirrors (Rt.onTransport n tp) (w.sendEnd env) ((w.onTransport tp).sendEnd env) := by
  unfold StreamWriter.sendEnd
  rw [hw]
  simp only [StreamWriter.onTransport, if_pos hn]
  exact mirrors_reply hok _

theorem mirrors_finish (hok : WritesOk env tp) (hn : 0 ≤ n) {w : StreamWriter}
    (hw : w.port = .fd n) :
    ((w.onTransport tp).finish env).1 = ((w.finish env).1).onTransport tp ∧
      (w.finish env).1.port = .fd n ∧
      Mirrors (Rt.onTransport n tp) (w.finish env).2 ((w.onTransport tp).finish env).2 := by
  unfold StreamWriter.finish
  rw [show (w.onTransport tp).ended = w.ended from rfl]
  by_cases he : w.ended = true
  · rw [if_pos he, if_pos he]
    exact ⟨rfl, hw, .pure ()⟩
  · rw [if_neg he, if_neg he]
    exact ⟨rfl, hw, mirrors_sendEnd hok hn hw⟩

theorem mirrors_destroy (hok : WritesOk env tp) (hn : 0 ≤ n) {w : StreamWriter}
    (hw : w.port = .fd n) :
    Mirrors (Rt.onTransport n tp) (w.destroy env) ((w.onTransport tp).destroy env) := by
  unfold StreamWriter.destroy
  rw [show (w.onTransport tp).ended = w.ended from rfl]
  by_cases he : w.ended = true
  · rw [if_pos he, if_pos he]
    exact .pure ()
  · rw [if_neg he, if_neg he]
    exact mirrors_quietly (mirrors_sendEnd hok hn hw)

/-- A stream dispatcher sees the same outcomes on both writers and leaves the same. -/
theorem runStream_onTransport (hok : WritesOk env tp) (hn : 0 ≤ n) (run : StreamRun σ)
    {w : StreamWriter} (hw : w.port = .fd n) (s : Rt σ ω) :
    runStream env run (w.onTransport tp) (s.onTransport n tp) =
        ((runStream env run w s).1, ((runStream env run w s).2.1).onTransport tp,
          ((runStream env run w s).2.2).onTransport n tp) ∧
      (runStream env run w s).2.1.port = .fd n := by
  induction run generalizing w s with
  | write chunk next ih =>
    have hs := mirrors_write hok hn hw chunk s
    cases hrun : (w.write env chunk).run s with
    | ok a s' =>
      rw [hrun] at hs
      simp only [runStream, hrun, hs, Eff.mapState]
      exact ih none hw s'
    | error e s' =>
      rw [hrun] at hs
      simp only [runStream, hrun, hs, Eff.mapState]
      exact ih (some e) hw s'
  | finish next ih =>
    obtain ⟨hw', hport, hmirror⟩ := mirrors_finish hok hn hw
    have hs := hmirror s
    cases hrun : (w.finish env).2.run s with
    | ok a s' =>
      rw [hrun] at hs
      simp only [runStream, hrun, hs, Eff.mapState, hw']
      exact ih none hport s'
    | error e s' =>
      rw [hrun] at hs
      simp only [runStream, hrun, hs, Eff.mapState, hw']
      exact ih (some e) hport s'
  | push p next ih =>
    have hs : (notify env p).run (s.onTransport n tp) =
        Eff.mapState (Rt.onTransport n tp) ((notify env p).run s) := mirrors_sendEach _ _ s
    cases hrun : (notify env p).run s with
    | ok a s' =>
      rw [hrun] at hs
      simp only [runStream, hrun, hs, Eff.mapState]
      exact ih hw s'
    | error e s' =>
      rw [hrun] at hs
      simp only [runStream, hrun, hs, Eff.mapState]
      exact ih hw s'
  | returns user => exact ⟨rfl, hw⟩
  | throws user e => exact ⟨rfl, hw⟩

theorem mirrors_handleStreamCall (hok : WritesOk env tp) (hn : 0 ≤ n) (seq : UInt32)
    (run : σ → StreamRun σ) :
    Mirrors (Rt.onTransport n tp) (handleStreamCall env seq (.fd n) run)
      (handleStreamCall env seq (.transport tp) run) := by
  intro s
  obtain ⟨hs, hport⟩ := runStream_onTransport hok hn (run s.user)
    (w := .create (.fd n) seq) rfl s
  rcases hr : runStream env (run s.user) (.create (.fd n) seq) s with ⟨_ | e, writer, s'⟩
  · rw [hr] at hs hport
    rw [handleStreamCall_returned hr, handleStreamCall_returned hs]
    exact mirrors_destroy hok hn hport s'
  · rw [hr] at hs hport
    by_cases he : e.isStd = true
    · rw [handleStreamCall_threw hr he, handleStreamCall_threw hs he]
      exact mirrors_sendError hok seq .unknownMethod e.what s'
    · rw [handleStreamCall_foreign hr he, handleStreamCall_foreign hs he]
      have hd := mirrors_destroy hok hn hport s'
      unfold Eff.after
      rw [hd]
      cases (writer.destroy env).run s' <;> rfl

/-! ## The handlers -/

/-- Decoding in front of mirrored code, from buffers with the same bytes unread. -/
theorem mirrors_decodeThen {d : Dec β} {m : Nat} (hd : Fixed d m) (pre pre' payload : Bytes)
    {k k' : β → Buffer → Srv σ ω α}
    (hk : ∀ b rest rest', rest.unread = rest'.unread →
      Mirrors (Rt.onTransport n tp) (k b rest) (k' b rest')) :
    Mirrors (Rt.onTransport n tp) (decodeThen d (.cut pre payload) k)
      (decodeThen d (.cut pre' payload) k') := by
  by_cases hm : m ≤ payload.length
  · obtain ⟨b, hb⟩ := hd.takes (payload.take m) (by simp; omega)
    have hrun := hb pre (payload.drop m)
    have hrun' := hb pre' (payload.drop m)
    rw [List.take_append_drop] at hrun hrun'
    rw [decodeThen_ok hrun, decodeThen_ok hrun']
    exact hk b _ _ (by rw [Buffer.cut_unread, Buffer.cut_unread])
  · obtain ⟨b, hb⟩ := hd.short pre payload (by omega)
    obtain ⟨b', hb'⟩ := hd.short pre' payload (by omega)
    rw [decodeThen_error hb, decodeThen_error hb']
    exact .throw _

theorem mirrors_tryReport (hok : WritesOk env tp) {x y : Srv σ ω Unit} (seq : UInt32)
    (code : ErrorCode) (h : Mirrors (Rt.onTransport n tp) x y) :
    Mirrors (Rt.onTransport n tp) (catchStd x fun e => sendError env (.fd n) seq code e.what)
      (catchStd y fun e => sendError env (.transport tp) seq code e.what) :=
  h.catchIf fun _ => mirrors_sendError hok seq code _

theorem mirrors_handleCall (hok : WritesOk env tp) (hreads : ReadsOnly env) (hn : 0 ≤ n)
    (hdr : Header) (pre pre' payload : Bytes) :
    Mirrors (Rt.onTransport n tp) (handleCall env hdr (.cut pre payload) (.fd n))
      (handleCall env hdr (.cut pre' payload) (.transport tp)) := by
  refine mirrors_decodeThen Fixed.decodeMethodCallHeader pre pre' payload
    fun ids args args' hargs => ?_
  cases hstream : env.streamDispatchers.lookup ids.1 with
  | some dispatcher =>
    simp only [hreads.streamDispatcher hstream ids.2 hargs]
    exact mirrors_handleStreamCall hok hn hdr.sequenceId _
  | none =>
    cases hcall : env.dispatchers.lookup ids.1 with
    | none => exact mirrors_sendError hok hdr.sequenceId .unknownService _
    | some dispatcher =>
      simp only [hreads.dispatcher hcall ids.2 hargs]
      exact mirrors_tryReport hok hdr.sequenceId .unknownMethod
        ((mirrors_runCallback _).bind fun response => mirrors_reply hok _)

theorem mirrors_createObject (hreads : ReadsOnly env) (typeId : UInt32) (constructorId : UInt16)
    {args args' : Buffer} (h : args.unread = args'.unread) :
    Mirrors (Rt.onTransport n tp) (createObject env typeId constructorId args)
      (createObject env typeId constructorId args') := by
  unfold createObject
  cases hf : env.factories.lookup typeId with
  | none => exact .throw _
  | some factory =>
    simp only [hreads.factory hf constructorId h]
    refine (mirrors_runCallback _).bind fun made => ?_
    cases made with
    | none => exact .throw _
    | some data => exact fun s => rfl

theorem mirrors_handleCreate (hok : WritesOk env tp) (hreads : ReadsOnly env) (hdr : Header)
    (pre pre' payload : Bytes) :
    Mirrors (Rt.onTransport n tp) (handleCreate env hdr (.cut pre payload) (.fd n))
      (handleCreate env hdr (.cut pre' payload) (.transport tp)) := by
  refine mirrors_decodeThen Fixed.decodeObjectCreateHeader pre pre' payload
    fun createHdr args args' hargs => ?_
  refine mirrors_tryReport hok hdr.sequenceId .objectCreationFailed ?_
  refine (mirrors_createObject hreads _ _ hargs).bind fun objectId => ?_
  refine Mirrors.bind (Mirrors.modify ?_) fun _ => mirrors_reply hok _
  exact fun s => rfl

/-- Looking the object up, running one of its virtual functions, replying. -/
theorem mirrors_handleObject (hok : WritesOk env tp) (seq : UInt32) (code : ErrorCode)
    (objectId : Int32) {f f' : ω × σ → Ran (ω × σ) Note Bytes} (hf : f = f') :
    Mirrors (Rt.onTransport n tp) (handleObject env seq (.fd n) code objectId f)
      (handleObject env seq (.transport tp) code objectId f') := by
  subst hf
  refine mirrors_tryReport hok seq code fun s => ?_
  have hget : (s.onTransport n tp).registry.get objectId = s.registry.get objectId := rfl
  simp only [EStateM.run, objectBody, hget]
  cases s.registry.get objectId with
  | none => exact mirrors_sendError hok seq .objectNotFound _ s
  | some obj =>
    exact ((mirrors_runVirtual objectId obj f).bind fun response => mirrors_reply hok _) s

theorem bareEnv_writesOk (tp : TransportPtr) : WritesOk bareEnv tp :=
  ⟨fun _ => rfl, fun _ => rfl⟩

theorem bareEnv_readsOnly : ReadsOnly bareEnv where
  dispatcher h := by cases h
  streamDispatcher h := by cases h
  factory h := by cases h
  propSet _ _ _ _ := rfl
  dispatch _ _ _ _ := rfl

end Song
