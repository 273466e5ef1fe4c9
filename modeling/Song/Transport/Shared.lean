import Song.Lib.Writers
import Song.Transport.Calls
import Song.Wire

/-!
# A transport that several threads write to (`transport.cpp`, `runtime.cpp`)

`TcpTransport::send` takes no lock, and under `run_tcp_multi` the thread of a client and the
threads that notify it call it on one transport. The loops then run interleaved, a call of
`::send` at a time. While no message is put on the socket in the middle of another, the peer
reads whole messages; two interleaved ones are neither.
-/

namespace Song

/-- A call of `send` in its loop. -/
structure InSend where
  msg : Bytes
  offset : Nat

structure SharedTransport where
  out : Outbound
  sending : Nat → Option InSend
  /-- The messages that the loops were entered with. -/
  given : List Bytes

namespace SharedTransport

def opened : SharedTransport := ⟨.opened, fun _ => none, []⟩

/-- What a thread does next. -/
inductive Event where
  | send (thread : Nat) (msg : Bytes)
  | call (thread : Nat) (c : SendCall)

def setSending (s : SharedTransport) (thread : Nat) (x : Option InSend) : SharedTransport :=
  { s with sending := Function.update s.sending thread x }

/-- A thread enters `send`, or makes one iteration of its loop. -/
def step (s : SharedTransport) : Event → Option SharedTransport
  | .send thread msg =>
    if (s.sending thread).isSome then none
    else if s.out.connected && !msg.isEmpty then
      some { s.setSending thread (some ⟨msg, 0⟩) with given := s.given ++ [msg] }
    else some s
  | .call thread c =>
    match s.sending thread with
    | none => none
    | some x =>
      match c with
      | .interrupted => some s
      | .takes more =>
        let written := (x.msg.drop x.offset).take (more + 1)
        let offset := x.offset + written.length
        some { s.setSending thread (if offset < x.msg.length then some ⟨x.msg, offset⟩ else none)
          with out := { s.out with written := s.out.written ++ written } }
      | .takesNothing | .failed _ => some (s.setSending thread none)

/-! ## A thread alone -/

/-- The calls that the loop of `send` makes for what is left of its message. -/
def callsFor (thread : Nat) : List SendCall → Bytes → List Event
  | _, [] => []
  | [], _ :: bs => [.call thread (.takes bs.length)]
  | .interrupted :: calls, b :: bs => .call thread .interrupted :: callsFor thread calls (b :: bs)
  | .takes more :: calls, _ :: bs =>
    .call thread (.takes more) :: callsFor thread calls (bs.drop more)
  | .takesNothing :: _, _ :: _ => [.call thread .takesNothing]
  | .failed err :: _, _ :: _ => [.call thread (.failed err)]

variable {s s' : SharedTransport} {thread : Nat}

theorem sending_setSending_self (x : Option InSend) :
    (s.setSending thread x).sending thread = x := Function.update_self _ _ _

theorem step_takes {x : InSend} {b : UInt8} {bs : Bytes} (hx : s.sending thread = some x)
    (hrest : x.msg.drop x.offset = b :: bs) (more : Nat) :
    step s (.call thread (.takes more)) = some { s.setSending thread
        (if x.offset + (b :: bs.take more).length < x.msg.length
          then some ⟨x.msg, x.offset + (b :: bs.take more).length⟩ else none)
      with out := { s.out with written := s.out.written ++ b :: bs.take more } } := by
  simp only [step, hx, hrest, List.take_succ_cons]

/-- Alone, a thread in `send` does what `sendRest` does to what is left of its message. -/
theorem follow_callsFor {x : InSend} (hx : s.sending thread = some x)
    (hlt : x.offset < x.msg.length) (calls : List SendCall) :
    Lts.follow step s (callsFor thread calls (x.msg.drop x.offset)) =
      some { s.setSending thread none with
        out := Eff.after (TcpTransport.sendRest calls (x.msg.drop x.offset)) s.out } := by
  induction calls generalizing s x with
  | nil =>
    obtain ⟨b, bs, hrest⟩ := List.exists_cons_of_ne_nil
      (fun h => absurd (List.drop_eq_nil_iff.mp h) (not_le.mpr hlt))
    have hlen : x.offset + (b :: bs).length = x.msg.length := by
      rw [← hrest, List.length_drop]
      omega
    rw [hrest, callsFor, Lts.follow, List.foldlM_cons, step_takes hx hrest, List.take_length, hlen,
      if_neg (lt_irrefl _)]
    rfl
  | cons c calls ih =>
    obtain ⟨b, bs, hrest⟩ := List.exists_cons_of_ne_nil
      (fun h => absurd (List.drop_eq_nil_iff.mp h) (not_le.mpr hlt))
    cases c with
    | interrupted =>
      have hstep : step s (.call thread .interrupted) = some s := by simp only [step, hx]
      have hrun := ih hx hlt
      rw [hrest] at hrun ⊢
      rw [callsFor, Lts.follow, List.foldlM_cons, hstep]
      exact hrun
    | takes more =>
      have hdrop : x.msg.drop (x.offset + (b :: bs.take more).length) = bs.drop more := by
        have hmin := List.drop_eq_drop_min (l := b :: bs) (i := more + 1)
        rw [← List.length_take, List.take_succ_cons] at hmin
        rw [← List.drop_drop, hrest, ← hmin, List.drop_succ_cons]
      rw [hrest, callsFor, Lts.follow, List.foldlM_cons, step_takes hx hrest]
      by_cases hmore : x.offset + (b :: bs.take more).length < x.msg.length
      · have hrun := ih (s := { s.setSending thread
            (some ⟨x.msg, x.offset + (b :: bs.take more).length⟩)
          with out := { s.out with written := s.out.written ++ b :: bs.take more } })
          (x := ⟨x.msg, x.offset + (b :: bs.take more).length⟩) (sending_setSending_self _) hmore
        rw [hdrop] at hrun
        rw [if_pos hmore]
        refine hrun.trans ?_
        simp only [setSending, Function.update_idem]
        rfl
      · have hnil : bs.drop more = [] := by
          rw [← hdrop]
          exact List.drop_eq_nil_of_le (not_lt.mp hmore)
        rw [if_neg hmore, hnil, TcpTransport.sendRest, hnil]
        cases calls with
        | nil => rfl
        | cons c calls => rfl
    | takesNothing =>
      have hstep : step s (.call thread .takesNothing) = some (s.setSending thread none) := by
        simp only [step, hx]
      rw [hrest, callsFor, Lts.follow, List.foldlM_cons, hstep]
      rfl
    | failed err =>
      have hstep : step s (.call thread (.failed err)) = some (s.setSending thread none) := by
        simp only [step, hx]
      rw [hrest, callsFor, Lts.follow, List.foldlM_cons, hstep]
      rfl

/-- Alone, a thread that calls `send` leaves the stream as `send` does. -/
theorem follow_send {msg : Bytes} (hidle : s.sending thread = none)
    (hconnected : s.out.connected = true) (hmsg : msg ≠ []) (calls : List SendCall) :
    Lts.follow step s (.send thread msg :: callsFor thread calls msg) =
      some { s with
        out := Eff.after (TcpTransport.send calls (.ofBytes msg)) s.out
        given := s.given ++ [msg] } := by
  have hstep : step s (.send thread msg) =
      some { s.setSending thread (some ⟨msg, 0⟩) with given := s.given ++ [msg] } := by
    simp [step, hidle, hconnected, hmsg]
  have hrun := follow_callsFor (s := { s.setSending thread (some ⟨msg, 0⟩) with
    given := s.given ++ [msg] }) (sending_setSending_self (some ⟨msg, 0⟩))
    (List.length_pos_iff.mpr hmsg) calls
  have hsend : (TcpTransport.send calls (.ofBytes msg)).run s.out =
      (TcpTransport.sendRest calls msg).run s.out := by
    have hget : (get : EStateM Exn Outbound Outbound).run s.out = .ok s.out s.out := rfl
    rw [TcpTransport.send, Eff.run_bind_ok hget, if_pos hconnected]
    rfl
  rw [Lts.follow, List.foldlM_cons, hstep]
  refine Eq.trans hrun ?_
  rw [Eff.after_congr hsend]
  have hupdate : Function.update s.sending thread none = s.sending := by
    rw [← hidle, Function.update_eq_self]
  simp only [setSending, Function.update_idem, hupdate, List.drop_zero]

/-! ## Threads together -/

/-- The same writers, without the calls. -/
def writers (s : SharedTransport) : Writers.State Nat UInt8 where
  stream := s.out.written
  writing thread := (s.sending thread).map fun x => ⟨x.msg.take x.offset, x.msg.drop x.offset⟩
  given := s.given

/-- What an event is to them. -/
def Event.act (s : SharedTransport) : Event → Option (Writers.Act Nat UInt8)
  | .send thread msg =>
    if s.out.connected && !msg.isEmpty then some (.begin thread msg) else none
  | .call _ .interrupted => none
  | .call thread (.takes more) => some (.put thread more)
  | .call thread .takesNothing | .call thread (.failed _) => some (.giveUp thread)

theorem writers_setSending (x : Option InSend) :
    (s.setSending thread x).writers =
      s.writers.set thread (x.map fun x => ⟨x.msg.take x.offset, x.msg.drop x.offset⟩) := by
  unfold writers setSending Writers.State.set
  congr 1
  funext t
  by_cases ht : t = thread
  · subst ht
    simp only [Function.update_self]
  · simp only [Function.update_of_ne ht]

/-- A call takes from what is left and adds to what is put. -/
theorem map_takes (x : InSend) (more : Nat) :
    (if x.offset + ((x.msg.drop x.offset).take (more + 1)).length < x.msg.length then
        some (InSend.mk x.msg (x.offset + ((x.msg.drop x.offset).take (more + 1)).length))
      else none).map (fun x => Writers.Writing.mk (x.msg.take x.offset) (x.msg.drop x.offset)) =
      if (x.msg.drop x.offset).drop (more + 1) = [] then none
      else some ⟨x.msg.take x.offset ++ (x.msg.drop x.offset).take (more + 1),
        (x.msg.drop x.offset).drop (more + 1)⟩ := by
  have htake : x.msg.take (x.offset + ((x.msg.drop x.offset).take (more + 1)).length) =
      x.msg.take x.offset ++ (x.msg.drop x.offset).take (more + 1) := by
    rw [List.take_add, List.length_take, ← List.take_eq_take_min]
  have hdrop : x.msg.drop (x.offset + ((x.msg.drop x.offset).take (more + 1)).length) =
      (x.msg.drop x.offset).drop (more + 1) := by
    rw [← List.drop_drop, List.length_take, ← List.drop_eq_drop_min]
  have hend : (x.msg.drop x.offset).drop (more + 1) = [] ↔
      ¬ x.offset + ((x.msg.drop x.offset).take (more + 1)).length < x.msg.length := by
    rw [← hdrop, List.drop_eq_nil_iff, not_lt]
  by_cases hlt : x.offset + ((x.msg.drop x.offset).take (more + 1)).length < x.msg.length
  · rw [if_pos hlt, if_neg (fun h => hend.mp h hlt), Option.map_some, htake, hdrop]
  · rw [if_neg hlt, if_pos (hend.mpr hlt), Option.map_none]

/-- Each event is an act of the writers, or nothing to them. -/
theorem step_act {e : Event} (h : step s e = some s') :
    (e.act s = none ∧ s'.writers = s.writers) ∨
      ∃ a, e.act s = some a ∧ Writers.step s.writers a = some s'.writers := by
  cases e with
  | send thread msg =>
    simp only [step] at h
    split at h
    · cases h
    · next hidle =>
      have hnone : s.sending thread = none := Option.not_isSome_iff_eq_none.mp hidle
      by_cases hcan : (s.out.connected && !msg.isEmpty) = true
      · rw [if_pos hcan] at h
        cases h
        have hmsg : msg ≠ [] := by
          rintro rfl
          simp at hcan
        refine .inr ⟨.begin thread msg, if_pos hcan, ?_⟩
        have hfree : (s.writers.writing thread).isNone = true := by
          simp only [writers, hnone, Option.map_none, Option.isNone_none]
        rw [Writers.step, if_pos ⟨hfree, hmsg⟩]
        congr 1
        show _ = { (s.setSending thread (some ⟨msg, 0⟩)).writers with given := s.given ++ [msg] }
        rw [writers_setSending]
        rfl
      · rw [if_neg hcan] at h
        cases h
        exact .inl ⟨if_neg hcan, rfl⟩
  | call thread c =>
    simp only [step] at h
    split at h
    · cases h
    · next x hx =>
      have hwriting : s.writers.writing thread =
          some ⟨x.msg.take x.offset, x.msg.drop x.offset⟩ := by
        simp only [writers, hx, Option.map_some]
      cases c with
      | interrupted =>
        cases h
        exact .inl ⟨rfl, rfl⟩
      | takes more =>
        cases h
        refine .inr ⟨.put thread more, rfl, ?_⟩
        simp only [Writers.step, hwriting]
        congr 1
        rw [← map_takes]
        show _ = { (s.setSending thread (if x.offset + ((x.msg.drop x.offset).take
            (more + 1)).length < x.msg.length then some ⟨x.msg, x.offset +
              ((x.msg.drop x.offset).take (more + 1)).length⟩ else none)).writers with
          stream := s.out.written ++ (x.msg.drop x.offset).take (more + 1) }
        rw [writers_setSending]
        rfl
      | takesNothing =>
        cases h
        refine .inr ⟨.giveUp thread, rfl, ?_⟩
        simp only [Writers.step, hwriting, writers_setSending, Option.map_none]
      | failed err =>
        cases h
        refine .inr ⟨.giveUp thread, rfl, ?_⟩
        simp only [Writers.step, hwriting, writers_setSending, Option.map_none]

/-- No other message is on the socket in part, and none is given up so. -/
def Event.Alone (s : SharedTransport) : Event → Prop
  | .send _ _ | .call _ .interrupted => True
  | .call thread (.takes _) => ∀ t, t ≠ thread → ∀ x, s.sending t = some x → x.offset = 0
  | .call thread .takesNothing | .call thread (.failed _) =>
    ∀ x, s.sending thread = some x → x.offset = 0

/-- What the peer reads is whole messages that were given to `send`, and part of one that is
still being sent. -/
def Concatenated (s : SharedTransport) : Prop :=
  ∃ msgs part, (∀ m ∈ msgs, m ∈ s.given) ∧ s.out.written = List.flatten msgs ++ part ∧
    (part ≠ [] → ∃ t x, s.sending t = some x ∧ part = x.msg.take x.offset)

theorem part_writers_eq_nil {t : Nat} (h : ∀ x, s.sending t = some x → x.offset = 0) :
    s.writers.part t = [] := by
  simp only [Writers.State.part, writers]
  cases hx : s.sending t with
  | none => rfl
  | some x => simp only [Option.map_some, h x hx, List.take_zero]

theorem alone_act {e : Event} (h : e.Alone s) {a : Writers.Act Nat UInt8} (ha : e.act s = some a) :
    a.Alone s.writers := by
  cases e with
  | send thread msg =>
    simp only [Event.act] at ha
    split at ha
    · cases ha
      trivial
    · cases ha
  | call thread c =>
    cases c with
    | interrupted => cases ha
    | takes more =>
      cases ha
      exact fun t ht => part_writers_eq_nil (h t ht)
    | takesNothing | failed err =>
      cases ha
      exact part_writers_eq_nil h

theorem step_inv {e : Event} (hi : Writers.Inv s.writers) (ha : e.Alone s)
    (h : step s e = some s') : Writers.Inv s'.writers := by
  rcases step_act h with ⟨-, hsame⟩ | ⟨a, hact, hstep⟩
  · rw [hsame]
    exact hi
  · exact Writers.step_inv hi (alone_act ha hact) hstep

/-- In a run in which no message is put on the socket in the middle of another, the peer reads
whole messages at every moment. -/
theorem run_concatenated {events : List Event}
    (h : Lts.Run step (fun s e => e.Alone s) .opened events s) : s.Concatenated := by
  have hinv : Writers.Inv s.writers :=
    h.invariant (fun s => Writers.Inv s.writers) .empty fun _ _ _ hi ha hstep => step_inv hi ha hstep
  obtain ⟨t, msgs, hmsgs, hstream⟩ := hinv.exists_whole
  refine ⟨msgs, s.writers.part t, hmsgs, hstream, fun hne => ?_⟩
  simp only [Writers.State.part, writers] at hne ⊢
  cases hx : s.sending t with
  | none =>
    rw [hx] at hne
    exact absurd rfl hne
  | some x => exact ⟨t, x, hx, rfl⟩

/-! ## Two messages at once -/

/-- A reply of a client's own thread, and a notification that another thread pushes. -/
def reply : Bytes := createResultMessage 1 []

def notification : Bytes := createPropertyNotifyMessage 1 1 1 [7]

/-- The notification is sent between the first byte of the reply and the rest of it. -/
def interleaved : List Event :=
  [.send 0 reply, .send 1 notification, .call 0 (.takes 0), .call 1 (.takes 99),
    .call 0 (.takes 99)]

/-- The same messages, one after the other. -/
def inTurn : List Event :=
  [.send 0 reply, .call 0 (.takes 0), .call 0 (.takes 99), .send 1 notification,
    .call 1 (.takes 99)]

/-- Threads 0 and 1 are in these calls, the others in none. -/
def pair (a b : Option InSend) : Nat → Option InSend
  | 0 => a
  | 1 => b
  | _ => none

theorem eq_pair {out : Outbound} {a b : Option InSend} {given : List Bytes} (hout : s.out = out)
    (h0 : s.sending 0 = a) (h1 : s.sending 1 = b) (h2 : ∀ t, s.sending (t + 2) = none)
    (hgiven : s.given = given) : s = ⟨out, pair a b, given⟩ := by
  obtain ⟨out', sending, given'⟩ := s
  cases hout
  cases hgiven
  congr 1
  funext t
  match t with
  | 0 => exact h0
  | 1 => exact h1
  | t + 2 => exact h2 t

theorem alone_zero {a : Option InSend} (t : Nat) (ht : t ≠ 0) (x : InSend)
    (hx : pair a none t = some x) : x.offset = 0 := by
  match t with
  | 0 => exact absurd rfl ht
  | 1 => cases hx
  | t + 2 => cases hx

theorem alone_one {b : Option InSend} (t : Nat) (ht : t ≠ 1) (x : InSend)
    (hx : pair none b t = some x) : x.offset = 0 := by
  match t with
  | 0 => cases hx
  | 1 => exact absurd rfl ht
  | t + 2 => cases hx

theorem inTurn_concatenated :
    (⟨⟨true, reply ++ notification⟩, pair none none, [reply, notification]⟩ :
      SharedTransport).Concatenated := by
  have h₁ : step opened (.send 0 reply) =
      some ⟨.opened, pair (some ⟨reply, 0⟩) none, [reply]⟩ :=
    congrArg some (eq_pair rfl rfl rfl (fun _ => rfl) rfl)
  have h₂ : step ⟨.opened, pair (some ⟨reply, 0⟩) none, [reply]⟩ (.call 0 (.takes 0)) =
      some ⟨⟨true, reply.take 1⟩, pair (some ⟨reply, 1⟩) none, [reply]⟩ :=
    congrArg some (eq_pair rfl rfl rfl (fun _ => rfl) rfl)
  have h₃ : step ⟨⟨true, reply.take 1⟩, pair (some ⟨reply, 1⟩) none, [reply]⟩
      (.call 0 (.takes 99)) = some ⟨⟨true, reply⟩, pair none none, [reply]⟩ :=
    congrArg some (eq_pair rfl rfl rfl (fun _ => rfl) rfl)
  have h₄ : step ⟨⟨true, reply⟩, pair none none, [reply]⟩ (.send 1 notification) =
      some ⟨⟨true, reply⟩, pair none (some ⟨notification, 0⟩), [reply, notification]⟩ :=
    congrArg some (eq_pair rfl rfl rfl (fun _ => rfl) rfl)
  have h₅ : step ⟨⟨true, reply⟩, pair none (some ⟨notification, 0⟩), [reply, notification]⟩
      (.call 1 (.takes 99)) =
        some ⟨⟨true, reply ++ notification⟩, pair none none, [reply, notification]⟩ :=
    congrArg some (eq_pair rfl rfl rfl (fun _ => rfl) rfl)
  have hrun : Lts.Run step (fun s e => e.Alone s) .opened inTurn _ :=
    .snoc (.snoc (.snoc (.snoc (.snoc .nil trivial h₁) alone_zero h₂) alone_zero h₃) trivial h₄)
      alone_one h₅
  exact run_concatenated hrun

/-- What is on the socket starts with two first bytes of a message. -/
theorem interleaved_corrupts : ¬ ∀ (events : List Event) (s : SharedTransport),
    Lts.Run step (fun _ _ => True) .opened events s → s.Concatenated := by
  intro h
  have h₁ : step opened (.send 0 reply) =
      some ⟨.opened, pair (some ⟨reply, 0⟩) none, [reply]⟩ :=
    congrArg some (eq_pair rfl rfl rfl (fun _ => rfl) rfl)
  have h₂ : step ⟨.opened, pair (some ⟨reply, 0⟩) none, [reply]⟩ (.send 1 notification) =
      some ⟨.opened, pair (some ⟨reply, 0⟩) (some ⟨notification, 0⟩), [reply, notification]⟩ :=
    congrArg some (eq_pair rfl rfl rfl (fun _ => rfl) rfl)
  have h₃ : step ⟨.opened, pair (some ⟨reply, 0⟩) (some ⟨notification, 0⟩),
      [reply, notification]⟩ (.call 0 (.takes 0)) =
        some ⟨⟨true, reply.take 1⟩, pair (some ⟨reply, 1⟩) (some ⟨notification, 0⟩),
          [reply, notification]⟩ :=
    congrArg some (eq_pair rfl rfl rfl (fun _ => rfl) rfl)
  have h₄ : step ⟨⟨true, reply.take 1⟩, pair (some ⟨reply, 1⟩) (some ⟨notification, 0⟩),
      [reply, notification]⟩ (.call 1 (.takes 99)) =
        some ⟨⟨true, reply.take 1 ++ notification⟩, pair (some ⟨reply, 1⟩) none,
          [reply, notification]⟩ :=
    congrArg some (eq_pair rfl rfl rfl (fun _ => rfl) rfl)
  have h₅ : step ⟨⟨true, reply.take 1 ++ notification⟩, pair (some ⟨reply, 1⟩) none,
      [reply, notification]⟩ (.call 0 (.takes 99)) =
        some ⟨⟨true, reply.take 1 ++ notification ++ reply.drop 1⟩, pair none none,
          [reply, notification]⟩ :=
    congrArg some (eq_pair rfl rfl rfl (fun _ => rfl) rfl)
  obtain ⟨msgs, part, hmsgs, hstream, hpart⟩ := h interleaved _ (.snoc (.snoc (.snoc (.snoc
    (.snoc .nil trivial h₁) trivial h₂) trivial h₃) trivial h₄) trivial h₅)
  have hnil : part = [] := by
    by_contra hne
    obtain ⟨t, x, hx, -⟩ := hpart hne
    match t with
    | 0 => cases hx
    | 1 => cases hx
    | t + 2 => cases hx
  rw [hnil, List.append_nil] at hstream
  cases msgs with
  | nil => cases hstream
  | cons m msgs =>
    have hsecond := congrArg (fun l => l[1]?) hstream
    rcases List.mem_cons.mp (hmsgs m List.mem_cons_self) with rfl | hm
    · cases hsecond
    · cases List.mem_singleton.mp hm
      cases hsecond

end SharedTransport

end Song
