import Song.Lib.Owned
import Song.Lib.Run
import Song.Runtime.StreamReply

/-!
# Stream writers that move (`stream.cpp`)

A system of `StreamWriter` objects that are made, written to, ended, aborted, moved from one to
another and destroyed in any order. Every stream has a number, which the object that took it over
carries; `emitted` says which stream sent what. The abstract side is the ledger: who has the duty
to end which stream, and of each stream the chunks written and its fate. Over sends that succeed
each stream's messages are those of its entry (`messages_eq`), whatever the order of the
operations.
-/

namespace Song

namespace StreamWriter

variable {σ ω : Type} (env : Env σ ω)

/-- The new writer and what is left of the other one. -/
def moveConstruct (other : StreamWriter) : StreamWriter × StreamWriter :=
  (other, { other with ended := true })

/-- `operator=` on another object: what it sends for the stream it gives up, the writer it
becomes and what is left of the other one. -/
def moveAssign (w other : StreamWriter) : Srv σ ω Unit × StreamWriter × StreamWriter :=
  (if w.ended then pure () else quietly (w.finish env).2, other, { other with ended := true })

theorem moveAssign_send (w other : StreamWriter) :
    (w.moveAssign env other).1 = w.destroy env := by
  unfold moveAssign destroy finish
  cases w.ended with
  | true => rfl
  | false => rfl

theorem finish_fst (w : StreamWriter) : (w.finish env).1 = { w with ended := true } := by
  obtain ⟨port, seq, ended⟩ := w
  cases ended with
  | true => rfl
  | false => rfl

end StreamWriter

namespace StreamMoves

/-- An operation on the objects, which have addresses. -/
inductive Op where
  | construct (x : Nat) (port : Port) (seq : UInt32)
  | write (x : Nat) (chunk : Bytes)
  | finish (x : Nat)
  | abort (x : Nat)
  | moveConstruct (x y : Nat)
  | moveAssign (x y : Nat)
  | destroy (x : Nat)

/-- An object, and the number of the stream it was made for or took over. -/
structure Handle where
  writer : StreamWriter
  stream : Nat

structure Sys (σ ω : Type) where
  rt : Rt σ ω
  objects : Nat → Option Handle
  /-- How many streams were made. -/
  issued : Nat
  /-- The messages sent, each with the stream it was sent for. -/
  emitted : List (Nat × Port × Bytes)

variable {σ ω : Type}

namespace Sys

def start (rt : Rt σ ω) : Sys σ ω := ⟨rt, fun _ => none, 0, []⟩

def set (s : Sys σ ω) (x : Nat) (h : Option Handle) : Sys σ ω :=
  { s with objects := Function.update s.objects x h }

/-- Go on with `rt`; what it sent more was sent for stream `k`. -/
def sent (s : Sys σ ω) (k : Nat) (rt : Rt σ ω) : Sys σ ω :=
  { s with
    rt
    emitted := s.emitted ++ (rt.sent.drop s.rt.sent.length).map fun msg => (k, msg) }

/-- Run a writer's code for stream `k`. -/
def run (s : Sys σ ω) (k : Nat) (code : Srv σ ω Unit) : Option Exn × Sys σ ω :=
  match code.run s.rt with
  | .ok _ rt => (none, s.sent k rt)
  | .error e rt => (some e, s.sent k rt)

/-- What was sent for stream `k`. -/
def messagesOf (s : Sys σ ω) (k : Nat) : List (Port × Bytes) :=
  (s.emitted.filter fun e => e.1 == k).map Prod.snd

end Sys

/-- What an operation throws, if anything, and the system it leaves. An object can only be made
where there is none, and used where there is one. -/
def perform (env : Env σ ω) (s : Sys σ ω) : Op → Option (Option Exn × Sys σ ω)
  | .construct x port seq =>
    match s.objects x with
    | some _ => none
    | none => some (none,
        { s.set x (some ⟨.create port seq, s.issued⟩) with issued := s.issued + 1 })
  | .write x chunk => (s.objects x).map fun h => s.run h.stream (h.writer.write env chunk)
  | .finish x => (s.objects x).map fun h =>
      let (writer, send) := h.writer.finish env
      (s.set x (some { h with writer })).run h.stream send
  | .abort x => (s.objects x).map fun h =>
      (none, s.set x (some { h with writer := h.writer.abort }))
  | .moveConstruct x y =>
    match s.objects x, s.objects y with
    | none, some other =>
      let (writer, rest) := other.writer.moveConstruct
      some (none, (s.set x (some { other with writer })).set y (some { other with writer := rest }))
    | _, _ => none
  | .moveAssign x y =>
    match s.objects x, s.objects y with
    | some h, some other =>
      if x = y then some (none, s)
      else
        let (send, writer, rest) := h.writer.moveAssign env other.writer
        let (thrown, s) := s.run h.stream send
        some (thrown,
          (s.set x (some { other with writer })).set y (some { other with writer := rest }))
    | _, _ => none
  | .destroy x => (s.objects x).map fun h =>
      let (thrown, s) := s.run h.stream (h.writer.destroy env)
      (thrown, s.set x none)

def step (env : Env σ ω) (s : Sys σ ω) (op : Op) : Option (Sys σ ω) :=
  (perform env s op).map Prod.snd

/-- Streams are made on ports whose sends succeed. -/
def Op.OnPort (env : Env σ ω) : Op → Prop
  | construct _ port _ => SendsOk env port
  | _ => True

/-! ## The ledger -/

inductive Fate where
  | running
  | ended
  | aborted
  deriving DecidableEq

structure Stream where
  port : Port
  sequenceId : UInt32
  chunks : List Bytes
  fate : Fate

namespace Stream

def push (chunk : Bytes) (str : Stream) : Stream := { str with chunks := str.chunks ++ [chunk] }

def close (fate : Fate) (str : Stream) : Stream := { str with fate }

/-- The messages of a stream: its chunks, and one `stream_end` if it was ended. -/
def messages (str : Stream) : List (Port × Bytes) :=
  (str.chunks.map (createStreamMessage str.sequenceId) ++
    match str.fate with
    | .ended => [createStreamEndMessage str.sequenceId]
    | .running | .aborted => []).map fun msg => (str.port, msg)

variable {str : Stream}

theorem messages_push (h : str.fate = .running) (chunk : Bytes) :
    (str.push chunk).messages =
      str.messages ++ [(str.port, createStreamMessage str.sequenceId chunk)] := by
  simp only [messages, push, h, List.append_nil, List.map_append, List.map_cons, List.map_nil]

theorem messages_close_ended (h : str.fate = .running) :
    (str.close .ended).messages =
      str.messages ++ [(str.port, createStreamEndMessage str.sequenceId)] := by
  simp only [messages, close, h, List.append_nil, List.map_append, List.map_cons, List.map_nil]

theorem messages_close_aborted (h : str.fate = .running) :
    (str.close .aborted).messages = str.messages := by
  simp only [messages, close, h]

end Stream

/-- Which object has to end which stream, and the streams. -/
abbrev Ledger := Owned.State Nat Stream

namespace Ledger

def apply (led : Ledger) : Op → Ledger
  | .construct x port seq => led.put x ⟨port, seq, [], .running⟩
  | .write x chunk => led.alter x (.push chunk)
  | .finish x => led.retire x (.close .ended)
  | .abort x => led.retire x (.close .aborted)
  | .moveConstruct x y => led.move x y
  | .moveAssign x y => if x = y then led else (led.retire x (.close .ended)).move x y
  | .destroy x => led.retire x (.close .ended)

/-- The ledger after some operations. -/
def after (ops : List Op) : Ledger := ops.foldl apply Owned.empty

theorem after_append (ops ops' : List Op) : after (ops ++ ops') = ops'.foldl apply (after ops) :=
  List.foldl_append

theorem keeps_apply (led : Ledger) (op : Op) : Owned.Keeps led (led.apply op) := by
  cases op with
  | construct x port seq => exact Owned.keeps_put led x _
  | write x chunk => exact Owned.keeps_alter led x _
  | finish x => exact Owned.keeps_retire led x _
  | abort x => exact Owned.keeps_retire led x _
  | moveConstruct x y => exact Owned.keeps_move led x y
  | moveAssign x y =>
    simp only [apply]
    split
    · exact .refl led
    · exact (Owned.keeps_retire led x _).trans (Owned.keeps_move _ x y)
  | destroy x => exact Owned.keeps_retire led x _

theorem keeps_foldl (led : Ledger) (ops : List Op) : Owned.Keeps led (ops.foldl apply led) := by
  induction ops generalizing led with
  | nil => exact .refl led
  | cons op ops ih => exact (keeps_apply led op).trans (ih _)

end Ledger

/-! ## What the objects send -/

namespace Sys

variable {env : Env σ ω} (s : Sys σ ω) (k : Nat)

/-- One more message for stream `k`. -/
def emit (port : Port) (msg : Bytes) : Sys σ ω :=
  { s with rt := s.rt.put port msg, emitted := s.emitted ++ [(k, port, msg)] }

/-- The end of the stream of an object, if it has not ended. -/
def close (h : Handle) : Sys σ ω :=
  if h.writer.ended then s
  else s.emit h.stream h.writer.port (createStreamEndMessage h.writer.sequenceId)

theorem objects_close (h : Handle) : (s.close h).objects = s.objects := by
  unfold close
  split
  · rfl
  · rfl

theorem set_set (x : Nat) (v v' : Option Handle) : (s.set x v).set x v' = s.set x v' :=
  congrArg (fun objects => { s with objects }) (Function.update_idem _ _ _)

theorem run_put {code : Srv σ ω Unit} {port : Port} {msg : Bytes}
    (h : code.run s.rt = .ok () (s.rt.put port msg)) : s.run k code = (none, s.emit k port msg) := by
  simp only [run, h, sent, emit, Rt.put_sent, List.drop_left, List.map_cons, List.map_nil]

theorem sent_self : s.sent k s.rt = s := by
  simp only [sent, List.drop_length, List.map_nil, List.append_nil]

theorem run_pure : s.run k (pure ()) = (none, s) := congrArg (Prod.mk none) (s.sent_self k)

theorem run_error {code : Srv σ ω Unit} {e : Exn} (h : code.run s.rt = .error e s.rt) :
    s.run k code = (some e, s) := by
  simp only [run, h, sent_self]

theorem run_destroy {h : Handle} (hok : h.writer.ended = false → SendsOk env h.writer.port) :
    s.run h.stream (h.writer.destroy env) = (none, s.close h) := by
  unfold close StreamWriter.destroy
  cases he : h.writer.ended with
  | true => exact s.run_pure _
  | false =>
    simp only [Bool.false_eq_true, ↓reduceIte]
    have hq : (quietly (h.writer.sendEnd env)).run s.rt =
        .ok () (s.rt.put h.writer.port (createStreamEndMessage h.writer.sequenceId)) := by
      have hs := StreamWriter.sendEnd_ok (hok he) s.rt
      rw [quietly_run, Eff.after_ok hs]
    exact s.run_put _ hq

theorem run_finish {h : Handle} (hok : h.writer.ended = false → SendsOk env h.writer.port)
    (x : Nat) (v : Option Handle) :
    (s.set x v).run h.stream (h.writer.finish env).2 = (none, (s.close h).set x v) := by
  unfold close StreamWriter.finish
  cases he : h.writer.ended with
  | true => exact (s.set x v).run_pure _
  | false =>
    simp only [Bool.false_eq_true, ↓reduceIte]
    rw [(s.set x v).run_put _ (StreamWriter.sendEnd_ok (hok he) s.rt)]
    rfl

theorem messagesOf_emit (port : Port) (msg : Bytes) (j : Nat) :
    (s.emit k port msg).messagesOf j =
      if k = j then s.messagesOf j ++ [(port, msg)] else s.messagesOf j := by
  simp only [messagesOf, emit, List.filter_append, List.map_append]
  by_cases hk : k = j
  · have hf : [(k, port, msg)].filter (fun e => e.1 == j) = [(k, port, msg)] :=
      List.filter_cons_of_pos (beq_iff_eq.mpr hk)
    rw [if_pos hk, hf]
    rfl
  · have hf : [(k, port, msg)].filter (fun e => e.1 == j) = [] :=
      List.filter_cons_of_neg fun h => hk (beq_iff_eq.mp h)
    rw [if_neg hk, hf]
    exact List.append_nil _

end Sys

/-! ## The objects and the ledger -/

section

variable {env : Env σ ω} {rt : Rt σ ω} {s : Sys σ ω} {led : Ledger} {x y : Nat} {h other : Handle}

/-- An object whose writer has not ended has the duty to end its stream, any other has none. -/
def Duty (env : Env σ ω) (led : Ledger) (x : Nat) : Option Handle → Prop
  | none => led.holds x = none
  | some ⟨⟨_, _, true⟩, _⟩ => led.holds x = none
  | some ⟨⟨port, seq, false⟩, k⟩ => led.holds x = some k ∧ SendsOk env port ∧
      ∃ chunks, led.items[k]? = some ⟨port, seq, chunks, .running⟩

structure Inv (env : Env σ ω) (rt : Rt σ ω) (s : Sys σ ω) (led : Ledger) : Prop where
  sound : Owned.Sound led
  marks : Owned.Marks (fun str : Stream => str.fate = .running) led
  issued : s.issued = led.items.length
  duty : ∀ x, Duty env led x (s.objects x)
  sent : s.rt.sent = rt.sent ++ s.emitted.map Prod.snd
  messages : ∀ k, s.messagesOf k = (led.items[k]?.map Stream.messages).getD []

theorem Duty.congr {led' : Ledger} {v : Option Handle} (h : Duty env led x v)
    (hh : led'.holds x = led.holds x)
    (hi : ∀ k, led.holds x = some k → led'.items[k]? = led.items[k]?) : Duty env led' x v := by
  match v with
  | none => exact hh.trans h
  | some ⟨⟨_, _, true⟩, _⟩ => exact hh.trans h
  | some ⟨⟨port, seq, false⟩, k⟩ =>
    obtain ⟨hk, hok, chunks, hc⟩ := h
    exact ⟨hh.trans hk, hok, chunks, (hi k hk).trans hc⟩

theorem Inv.start (env : Env σ ω) (rt : Rt σ ω) : Inv env rt (.start rt) Owned.empty where
  sound := Owned.sound_empty
  marks := Owned.marks_empty _
  issued := rfl
  duty := fun _ => rfl
  sent := (List.append_nil _).symm
  messages := fun _ => rfl

namespace Inv

theorem closed (hi : Inv env rt s led) (hx : s.objects x = some h) (he : h.writer.ended = true) :
    led.holds x = none := by
  obtain ⟨⟨port, seq, ended⟩, k⟩ := h
  obtain rfl : ended = true := he
  have hd := hi.duty x
  rwa [hx] at hd

theorem running (hi : Inv env rt s led) (hx : s.objects x = some h)
    (he : h.writer.ended = false) :
    led.holds x = some h.stream ∧ SendsOk env h.writer.port ∧ ∃ chunks,
      led.items[h.stream]? = some ⟨h.writer.port, h.writer.sequenceId, chunks, .running⟩ := by
  obtain ⟨⟨port, seq, ended⟩, k⟩ := h
  obtain rfl : ended = false := he
  have hd := hi.duty x
  rwa [hx] at hd

theorem absent (hi : Inv env rt s led) (hx : s.objects x = none) : led.holds x = none := by
  have hd := hi.duty x
  rwa [hx] at hd

/-- A change of what `x` holds leaves the duties of the others. -/
theorem duty_alter (hi : Inv env rt s led) (f : Stream → Stream) {z : Nat} (hz : z ≠ x) :
    Duty env (led.alter x f) z (s.objects z) := by
  refine (hi.duty z).congr (by rw [Owned.holds_alter]) fun k hk => ?_
  rw [Owned.getElem?_alter, if_neg fun hx => hz (hi.sound.unique z x k hk hx)]

theorem construct (hi : Inv env rt s led) (hx : s.objects x = none) {port : Port}
    (hok : SendsOk env port) (seq : UInt32) :
    Inv env rt { s.set x (some ⟨.create port seq, s.issued⟩) with issued := s.issued + 1 }
      (led.put x ⟨port, seq, [], .running⟩) := by
  have hh := hi.absent hx
  refine ⟨Owned.sound_put hi.sound x _, Owned.marks_put hi.marks hh rfl, ?_, fun z => ?_,
    hi.sent, fun k => ?_⟩
  · show s.issued + 1 = (led.items ++ [_]).length
    rw [hi.issued, List.length_append]
    rfl
  · show Duty env _ z (Function.update s.objects x _ z)
    by_cases hz : z = x
    · subst hz
      rw [Function.update_self, hi.issued]
      exact ⟨Function.update_self _ _ _, hok, [], List.getElem?_concat_length⟩
    · rw [Function.update_of_ne hz]
      refine (hi.duty z).congr (Function.update_of_ne hz _ _) fun k hk => ?_
      exact List.getElem?_append_left (hi.sound.issued z k hk)
  · show s.messagesOf k = _
    rw [hi.messages k]
    rcases Nat.lt_trichotomy k led.items.length with hk | hk | hk
    · rw [Owned.State.put, List.getElem?_append_left hk]
    · subst hk
      rw [Owned.State.put, List.getElem?_concat_length, List.getElem?_eq_none (Nat.le_refl _)]
      rfl
    · have hlen : (led.items ++ [(⟨port, seq, [], .running⟩ : Stream)]).length ≤ k := by
        rw [List.length_append]
        exact hk
      rw [Owned.State.put, List.getElem?_eq_none hlen, List.getElem?_eq_none (Nat.le_of_lt hk)]

/-- One more message for the stream that `x` holds, in the system and in the ledger. -/
theorem messages_emit (hi : Inv env rt s led) {k : Nat} {str : Stream} (hk : led.holds x = some k)
    (hs : led.items[k]? = some str) {f : Stream → Stream} {port : Port} {msg : Bytes}
    (hf : (f str).messages = str.messages ++ [(port, msg)]) (j : Nat) :
    (s.emit k port msg).messagesOf j =
      ((led.alter x f).items[j]?.map Stream.messages).getD [] := by
  rw [Sys.messagesOf_emit, Owned.getElem?_alter, hk, hi.messages j]
  by_cases hj : k = j
  · subst hj
    rw [if_pos rfl, if_pos rfl, hs]
    exact hf.symm
  · rw [if_neg hj, if_neg fun h => hj (Option.some.inj h)]

theorem sent_emit (hi : Inv env rt s led) (k : Nat) (port : Port) (msg : Bytes) :
    (s.emit k port msg).rt.sent = rt.sent ++ (s.emit k port msg).emitted.map Prod.snd := by
  show s.rt.sent ++ [(port, msg)] = rt.sent ++ (s.emitted ++ [(k, port, msg)]).map Prod.snd
  rw [hi.sent, List.map_append, List.append_assoc]
  rfl

theorem write (hi : Inv env rt s led) (hx : s.objects x = some h) (he : h.writer.ended = false)
    (chunk : Bytes) :
    Inv env rt (s.emit h.stream h.writer.port (createStreamMessage h.writer.sequenceId chunk))
      (led.alter x (.push chunk)) := by
  obtain ⟨hk, hok, chunks, hs⟩ := hi.running hx he
  refine ⟨Owned.sound_alter hi.sound x _, Owned.marks_alter hi.marks x fun _ => Iff.rfl, ?_,
    fun z => ?_, hi.sent_emit _ _ _,
    hi.messages_emit hk hs (Stream.messages_push (by rfl) chunk)⟩
  · rw [Owned.length_alter]
    exact hi.issued
  · show Duty env _ z (s.objects z)
    by_cases hz : z = x
    · subst hz
      obtain ⟨⟨port, seq, ended⟩, k⟩ := h
      obtain rfl : ended = false := he
      rw [hx]
      refine ⟨by rw [Owned.holds_alter]; exact hk, hok, chunks ++ [chunk], ?_⟩
      rw [Owned.getElem?_alter, if_pos hk, hs]
      rfl
    · exact hi.duty_alter _ hz

/-- Whatever takes the place of an object that lets go of its stream. -/
theorem retire (hi : Inv env rt s led) {f : Stream → Stream}
    (hf : ∀ str, (f str).fate ≠ .running) {s' : Sys σ ω} {v : Option Handle}
    (hv : Duty env (led.retire x f) x v) (ho : s'.objects = Function.update s.objects x v)
    (hissued : s'.issued = s.issued) (hsent : s'.rt.sent = rt.sent ++ s'.emitted.map Prod.snd)
    (hmsg : ∀ k, s'.messagesOf k = ((led.alter x f).items[k]?.map Stream.messages).getD []) :
    Inv env rt s' (led.retire x f) := by
  refine ⟨Owned.sound_retire hi.sound x f, Owned.marks_retire hi.marks hi.sound x hf, ?_,
    fun z => ?_, hsent, hmsg⟩
  · show s'.issued = (led.alter x f).items.length
    rw [Owned.length_alter, hissued, hi.issued]
  · rw [ho]
    by_cases hz : z = x
    · subst hz
      rwa [Function.update_self]
    · rw [Function.update_of_ne hz]
      refine (hi.duty z).congr (Function.update_of_ne hz _ _) fun k hk => ?_
      show (led.alter x f).items[k]? = _
      rw [Owned.getElem?_alter, if_neg fun hx => hz (hi.sound.unique z x k hk hx)]

/-- An object ends its stream unless it has none, and is replaced. -/
theorem close (hi : Inv env rt s led) (hx : s.objects x = some h) {v : Option Handle}
    (hv : ∀ led' : Ledger, led'.holds x = none → Duty env led' x v) :
    Inv env rt ((s.close h).set x v) (led.retire x (.close .ended)) := by
  have hduty := hv (led.retire x (.close .ended)) (Owned.holds_retire_self led x _)
  have hf : ∀ str : Stream, (str.close .ended).fate ≠ .running := fun _ h => by cases h
  cases he : h.writer.ended with
  | true =>
    have hs : s.close h = s := if_pos he
    rw [hs]
    refine hi.retire hf hduty rfl rfl hi.sent ?_
    rw [Owned.alter_none led x _ (hi.closed hx he)]
    exact hi.messages
  | false =>
    obtain ⟨hk, hok, chunks, hs⟩ := hi.running hx he
    have hc : s.close h =
        s.emit h.stream h.writer.port (createStreamEndMessage h.writer.sequenceId) := by
      rw [Sys.close, he]
      rfl
    rw [hc]
    exact hi.retire hf hduty rfl rfl (hi.sent_emit _ _ _) (hi.messages_emit hk hs
      (Stream.messages_close_ended (by rfl)))

theorem abort (hi : Inv env rt s led) (hx : s.objects x = some h) :
    Inv env rt (s.set x (some { h with writer := h.writer.abort }))
      (led.retire x (.close .aborted)) := by
  have hv : Duty env (led.retire x (.close .aborted)) x
      (some { h with writer := h.writer.abort }) := Owned.holds_retire_self led x _
  refine hi.retire (fun _ h => by cases h) hv rfl rfl hi.sent fun k => ?_
  rw [Owned.getElem?_alter]
  split
  · next hk =>
    have he : h.writer.ended = false := by
      rw [← Bool.not_eq_true]
      intro he
      rw [hi.closed hx he] at hk
      cases hk
    obtain ⟨hk', _, chunks, hs⟩ := hi.running hx he
    obtain rfl : h.stream = k := Option.some.inj (hk'.symm.trans hk)
    show s.messagesOf h.stream = _
    rw [hi.messages, hs]
    exact (Stream.messages_close_aborted (by rfl)).symm
  · exact hi.messages k

/-- An object takes over the writer of another one. -/
theorem move (hi : Inv env rt s led) (hx : s.objects x = none) (hy : s.objects y = some other) :
    Inv env rt ((s.set x (some other)).set y
      (some { other with writer := { other.writer with ended := true } })) (led.move x y) := by
  have hxy : x ≠ y := by
    rintro rfl
    rw [hx] at hy
    cases hy
  refine ⟨Owned.sound_move hi.sound x y, Owned.marks_move hi.marks hxy (hi.absent hx), hi.issued,
    fun z => ?_, hi.sent, hi.messages⟩
  show Duty env _ z (Function.update (Function.update s.objects x _) y _ z)
  by_cases hzy : z = y
  · subst hzy
    rw [Function.update_self]
    exact Function.update_self _ _ _
  · rw [Function.update_of_ne hzy]
    by_cases hzx : z = x
    · subst hzx
      have hd := hi.duty y
      rw [hy] at hd
      have hh : (led.move z y).holds z = led.holds y := by
        show Function.update _ _ _ _ = _
        rw [Function.update_of_ne hxy, Function.update_self]
      rw [Function.update_self]
      obtain ⟨⟨port, seq, ended⟩, k⟩ := other
      cases ended with
      | true => exact hh.trans hd
      | false => exact ⟨hh.trans hd.1, hd.2⟩
    · rw [Function.update_of_ne hzx]
      refine (hi.duty z).congr ?_ fun _ _ => rfl
      show Function.update _ _ _ _ = _
      rw [Function.update_of_ne hzy, Function.update_of_ne hzx]

end Inv

end

/-! ## Runs -/

section

variable {env : Env σ ω} {rt : Rt σ ω} {s s' : Sys σ ω} {led : Ledger}

/-- What an operation throws: a `write` by an object that has no stream to end. -/
def Ledger.thrown (led : Ledger) : Op → Option Exn
  | .write x _ => if led.holds x = none then some StreamWriter.writeAfterEnd else none
  | _ => none

theorem Inv.perform (hi : Inv env rt s led) {op : Op} (hop : op.OnPort env)
    {thrown : Option Exn} (h : perform env s op = some (thrown, s')) :
    Inv env rt s' (led.apply op) ∧ thrown = led.thrown op := by
  cases op with
  | construct x port seq =>
    cases hx : s.objects x with
    | some h' =>
      simp only [StreamMoves.perform, hx] at h
      cases h
    | none =>
      simp only [StreamMoves.perform, hx] at h
      cases h
      exact ⟨hi.construct hx hop seq, rfl⟩
  | write x chunk =>
    obtain ⟨h', hx, hr⟩ := Option.map_eq_some_iff.mp h
    simp only [Ledger.apply, Ledger.thrown]
    cases he : h'.writer.ended with
    | true =>
      have hh := hi.closed hx he
      rw [s.run_error _ (StreamWriter.write_ended he chunk s.rt)] at hr
      cases hr
      rw [Owned.alter_none led x _ hh, if_pos hh]
      exact ⟨hi, rfl⟩
    | false =>
      obtain ⟨hk, hok, _⟩ := hi.running hx he
      rw [s.run_put _ (StreamWriter.write_ok hok he chunk s.rt)] at hr
      cases hr
      rw [if_neg (by rw [hk]; exact fun h => by cases h)]
      exact ⟨hi.write hx he chunk, rfl⟩
  | finish x =>
    obtain ⟨h', hx, hr⟩ := Option.map_eq_some_iff.mp h
    have hr' : (s.set x (some { h' with writer := (h'.writer.finish env).1 })).run h'.stream
        (h'.writer.finish env).2 = (thrown, s') := hr
    rw [Sys.run_finish s fun he => (hi.running hx he).2.1] at hr'
    cases hr'
    refine ⟨hi.close hx fun led' hl => ?_, rfl⟩
    rw [StreamWriter.finish_fst]
    exact hl
  | abort x =>
    obtain ⟨h', hx, hr⟩ := Option.map_eq_some_iff.mp h
    cases hr
    exact ⟨hi.abort hx, rfl⟩
  | moveConstruct x y =>
    cases hx : s.objects x with
    | some h' =>
      simp only [StreamMoves.perform, hx] at h
      cases h
    | none =>
      cases hy : s.objects y with
      | none =>
        simp only [StreamMoves.perform, hx, hy] at h
        cases h
      | some other =>
        simp only [StreamMoves.perform, hx, hy] at h
        cases h
        exact ⟨hi.move hx hy, rfl⟩
  | moveAssign x y =>
    cases hx : s.objects x with
    | none =>
      simp only [StreamMoves.perform, hx] at h
      cases h
    | some h' =>
      cases hy : s.objects y with
      | none =>
        simp only [StreamMoves.perform, hx, hy] at h
        cases h
      | some other =>
        simp only [StreamMoves.perform, hx, hy] at h
        by_cases hxy : x = y
        · rw [if_pos hxy] at h
          cases h
          rw [Ledger.apply, if_pos hxy]
          exact ⟨hi, rfl⟩
        · -- the object is emptied, and then takes over the other one's writer
          have hclose := hi.close hx (v := none) fun _ hl => hl
          have hx' : ((s.close h').set x none).objects x = none := Function.update_self _ _ _
          have hy' : ((s.close h').set x none).objects y = some other := by
            rw [← hy, ← s.objects_close h']
            exact Function.update_of_ne (Ne.symm hxy) _ _
          have hmove := hclose.move hx' hy'
          rw [Sys.set_set] at hmove
          rw [if_neg hxy, StreamWriter.moveAssign_send,
            Sys.run_destroy s fun he => (hi.running hx he).2.1] at h
          cases h
          rw [Ledger.apply, if_neg hxy]
          exact ⟨hmove, rfl⟩
  | destroy x =>
    obtain ⟨h', hx, hr⟩ := Option.map_eq_some_iff.mp h
    rw [Sys.run_destroy s fun he => (hi.running hx he).2.1] at hr
    cases hr
    exact ⟨hi.close hx fun _ hl => hl, rfl⟩

theorem Inv.step (hi : Inv env rt s led) {op : Op} (hop : op.OnPort env)
    (h : step env s op = some s') : Inv env rt s' (led.apply op) := by
  obtain ⟨⟨thrown, _⟩, hp, rfl⟩ := Option.map_eq_some_iff.mp h
  exact (hi.perform hop hp).1

/-- A run of operations on streams that are made on ports whose sends succeed. -/
abbrev OnPorts (env : Env σ ω) : Sys σ ω → List Op → Sys σ ω → Prop :=
  Lts.Run (StreamMoves.step env) fun _ op => op.OnPort env

theorem inv_run {ops : List Op} (hi : Inv env rt s led) (h : OnPorts env s ops s') :
    Inv env rt s' (ops.foldl Ledger.apply led) := by
  refine h.induction (fun ops s' => Inv env rt s' (ops.foldl Ledger.apply led)) hi ?_
  intro ops t op t' ht hop hstep
  rw [List.foldl_append]
  exact ht.step hop hstep

/-- What holds of a system after some operations. -/
structure Accounted (env : Env σ ω) (rt : Rt σ ω) (ops : List Op) (s : Sys σ ω) : Prop where
  /-- Everything sent was sent for one of the streams. -/
  sent : s.rt.sent = rt.sent ++ s.emitted.map Prod.snd
  messages : ∀ k, s.messagesOf k = ((Ledger.after ops).items[k]?.map Stream.messages).getD []
  /-- A stream that was neither ended nor aborted has an object that has to end it, and no two
  objects have to end the same stream. -/
  running : ∀ k str, (Ledger.after ops).items[k]? = some str →
    (str.fate = .running ↔ ∃ x, (Ledger.after ops).holds x = some k)
  unique : ∀ x y k, (Ledger.after ops).holds x = some k → (Ledger.after ops).holds y = some k →
    x = y
  /-- A `write` throws exactly if its object has no stream to end. -/
  write : ∀ x chunk thrown s', perform env s (.write x chunk) = some (thrown, s') →
    thrown = if (Ledger.after ops).holds x = none then some StreamWriter.writeAfterEnd else none
  /-- A stream that was ended or aborted sends nothing any more. -/
  final : ∀ ops' s', OnPorts env s ops' s' → ∀ k str, (Ledger.after ops).items[k]? = some str →
    str.fate ≠ .running → s'.messagesOf k = s.messagesOf k

/-- Over sends that succeed every sequence of operations sends for each stream what the ledger
says. -/
theorem accounted_run {ops : List Op} (h : OnPorts env (.start rt) ops s) :
    Accounted env rt ops s := by
  have hi : Inv env rt s (Ledger.after ops) := inv_run (Inv.start env rt) h
  refine ⟨hi.sent, hi.messages, hi.marks, hi.sound.unique, ?_, ?_⟩
  · intro x chunk thrown s' hp
    have hop : (Op.write x chunk).OnPort env := trivial
    exact (hi.perform hop hp).2
  · intro ops' s' h' k str hk hf
    have hi' := inv_run hi h'
    have hkeeps := Ledger.keeps_foldl (Ledger.after ops) ops'
    have hnot : ¬ Owned.Held (Ledger.after ops) k := fun hh => hf ((hi.marks k str hk).mpr hh)
    have hlt := (List.getElem?_eq_some_iff.mp hk).1
    rw [hi'.messages, hi.messages, (hkeeps.items k hlt hnot).2]

end

/-- A stream that is handed on, and one that is overwritten by it. -/
def handedOn : List Op :=
  [.construct 0 (.transport 3) 7, .write 0 [1], .construct 1 (.transport 3) 8, .write 1 [2],
    .moveAssign 1 0, .write 1 [3], .destroy 0, .finish 1]

theorem accounted_handedOn : ∃ s, OnPorts bareEnv (.start bareRt) handedOn s ∧
    Accounted bareEnv bareRt handedOn s := by
  have hr : ∃ s, Lts.follow (step bareEnv) (.start bareRt) handedOn = some s := ⟨_, rfl⟩
  obtain ⟨s, hs⟩ := hr
  have hrun : OnPorts bareEnv (.start bareRt) handedOn s := by
    refine Lts.Run.nil.follow (fun op hop _ => ?_) hs
    simp only [List.mem_cons, List.not_mem_nil, or_false] at hop
    rcases hop with rfl | rfl | rfl | rfl | rfl | rfl | rfl | rfl
    · exact fun _ => rfl
    · trivial
    · exact fun _ => rfl
    all_goals trivial
  exact ⟨s, hrun, accounted_run hrun⟩

end StreamMoves

end Song
