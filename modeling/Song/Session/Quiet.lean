import Song.Session

/-!
# Operations that start on a quiet connection

An operation starts quiet when no frame of an earlier answer is unread and no
earlier request is still to be answered. Then its reply is the first frame it
sees that is not a notification (`OnWay`), and unless its receive times out it
obtains that reply. Nothing here depends on sequence ids being distinct.
-/

namespace Song

variable {κ : Type} {dry : Option Exn} {s s' : Sys κ}

/-- No frame that answers an earlier request was unread or still to come. -/
def Pending.Quiet (p : Pending) : Prop :=
  (∀ m ∈ p.unread, IsNote m) ∧ ∀ r ∈ p.unanswered, r.kind = .none

/-- The operation took the reply that the service gave to its own request. -/
def Done.Obtained (s : Sys κ) (d : Done) : Prop :=
  ∃ frames m, (d.pending.request, frames) ∈ s.answered ∧ m ∈ frames ∧
    IsReplyFrame d.pending.request.seq m ∧ d.outcome = d.op.finish (.ofBytes m)

theorem Done.Obtained.mono {d : Done} (h : d.Obtained s)
    (ha : ∀ x ∈ s.answered, x ∈ s'.answered) : d.Obtained s' := by
  obtain ⟨frames, m, hr, hm⟩ := h
  exact ⟨frames, m, ha _ hr, hm⟩

namespace Sys

/-- Behind notifications and releases, the request of `p` is next to be answered or its reply
next to be read. -/
def OnWay (s : Sys κ) (p : Pending) : Prop :=
  (∃ before, s.inbox = before ++ [p.request] ∧ (∀ r ∈ before, r.kind = .none) ∧
    ∀ m ∈ s.conn.incoming, IsNote m) ∨
  (s.inbox = [] ∧ ∃ frames pre m post, (p.request, frames) ∈ s.answered ∧ m ∈ frames ∧
    IsReplyFrame p.request.seq m ∧ s.conn.incoming = pre ++ m :: post ∧
    (∀ x ∈ pre, IsNote x) ∧ ∀ x ∈ post, IsNote x)

/-- The condition on a step: a one-reply request and a release are answered as they are to
be, and only notifications are pushed. -/
def AnswersOps (s : Sys κ) : Label → Prop
  | .answer frames => ∀ r rest, s.inbox = r :: rest → r.kind ≠ .many → Complete r frames
  | .push frames => ∀ m ∈ frames, IsNote m
  | _ => True

structure QuietInv (s : Sys κ) : Prop where
  kind : ∀ p op, s.pending = some p → p.waiting = .op op → p.request.kind = .one
  onWay : ∀ p op, s.pending = some p → p.waiting = .op op → p.Quiet → s.OnWay p
  obtained : ∀ d ∈ s.done, d.timedOut = false → d.pending.Quiet → d.Obtained s

theorem quietInv_init (propCallbacks : Map SubscriptionKey κ) : QuietInv (init propCallbacks) where
  kind _ _ h := by cases h
  onWay _ _ h := by cases h
  obtained _ h := by cases h

/-! ## One message at a time -/

/-- What `recv_reply` does with a message it may see: deliver a notification, take an own
frame, throw on any other. -/
theorem receiveOp_note (op : Op) (p : Pending) {msg : Bytes} (h : IsNote msg) (s : Sys κ) :
    ∃ conn, conn.incoming = s.conn.incoming ∧ conn.nextSeq = s.conn.nextSeq ∧
      s.receiveOp op p msg = { s with conn } := by
  obtain ⟨key, value, hn⟩ := h
  refine ⟨s.conn.notified [(key, value)], rfl, rfl, ?_⟩
  rw [receiveOp, recvReplyBody_notify hn]

theorem receiveOp_own {op : Op} {p : Pending} {msg : Bytes} (h : IsOwn p.request.seq msg)
    (s : Sys κ) :
    s.receiveOp op p msg = s.finishOp op p false (op.finish (.ofBytes msg)) := by
  obtain ⟨f, rfl, hf, hs⟩ := h
  rw [receiveOp, ← hs, recvReplyBody_own hf]

theorem receiveOp_other {op : Op} {p : Pending} {msg : Bytes} {seq : UInt32}
    (h : IsOwn seq msg) (hne : seq ≠ p.request.seq) (s : Sys κ) :
    s.receiveOp op p msg = s.finishOp op p false (.error seqMismatch) := by
  obtain ⟨f, rfl, hf, hs⟩ := h
  rw [receiveOp, recvReplyBody_other hf (by rw [hs]; exact hne)]

/-- The queue of messages and the sequence ids are not a loop body's to change. -/
abbrev KeepsQueue {α : Type} (x : Cli κ α) : Prop :=
  Eff.Within (fun c c' => c'.incoming = c.incoming ∧ c'.nextSeq = c.nextSeq) x

theorem keepsQueue_recvReplyBody (seq : UInt32) (msg : Bytes) :
    KeepsQueue (recvReplyBody seq msg : Cli κ (Option Buffer)) := by
  intro c
  rcases message_cases msg with ⟨key, value, hn⟩ | ⟨f, rfl, hf⟩ | hbad
  · exact .of_ok (recvReplyBody_notify hn seq c) ⟨rfl, rfl⟩
  · by_cases hs : f.hdr.sequenceId = seq
    · subst hs
      exact .of_ok (recvReplyBody_own hf c) ⟨rfl, rfl⟩
    · exact .of_error (recvReplyBody_other hf hs c) ⟨rfl, rfl⟩
  · obtain ⟨e, he⟩ := hbad seq c
    exact .of_error he ⟨rfl, rfl⟩

theorem keepsQueue_streamBody (seq : UInt32) (onChunk : StreamChunkHandler) (msg : Bytes) :
    KeepsQueue (streamBody seq onChunk msg : Cli κ (Option Unit)) := by
  have hr : ∀ c : Conn κ, c.incoming = c.incoming ∧ c.nextSeq = c.nextSeq := fun _ => ⟨rfl, rfl⟩
  have hchunk : ∀ chunk, KeepsQueue (handChunk onChunk chunk : Cli κ Unit) := by
    intro chunk c
    unfold Eff.Ends handChunk
    simp only [EStateM.run]
    cases onChunk (c.handed ++ [chunk]) with
    | none => exact ⟨rfl, rfl⟩
    | some e => exact ⟨rfl, rfl⟩
  refine within_decodeThen hr fun hdr response => ?_
  split
  · exact .throw hr _
  split
  · exact .bind (fun h h' => ⟨h'.1.trans h.1, h'.2.trans h.2⟩) (hchunk _) fun _ => .pure hr _
  split
  · exact .pure hr _
  split
  · exact within_decodeThen hr fun _ _ => .pure hr _
  · exact .throw hr _

/-- Whatever the message, the operation goes on or is over, and only the connection changes
besides. -/
theorem receiveOp_cases (op : Op) (p : Pending) (msg : Bytes) (s : Sys κ) :
    ∃ conn, (conn.incoming = s.conn.incoming ∧ conn.nextSeq = s.conn.nextSeq) ∧
      (s.receiveOp op p msg = { s with conn } ∨
        ∃ outcome, s.receiveOp op p msg =
          ({ s with conn } : Sys κ).finishOp op p false outcome) := by
  unfold receiveOp
  cases hr : (recvReplyBody p.request.seq msg).run s.conn with
  | ok response conn =>
    have hk := (keepsQueue_recvReplyBody p.request.seq msg).ok hr
    cases response with
    | none => exact ⟨conn, hk, .inl rfl⟩
    | some response => exact ⟨conn, hk, .inr ⟨_, rfl⟩⟩
  | error e conn =>
    have hk := (keepsQueue_recvReplyBody p.request.seq msg).error hr
    exact ⟨conn, hk, .inr ⟨_, rfl⟩⟩

theorem receiveStream_cases (p : Pending) (chunk : Option Exn) (msg : Bytes) (s : Sys κ) :
    ∃ conn, (conn.incoming = s.conn.incoming ∧ conn.nextSeq = s.conn.nextSeq) ∧
      (s.receiveStream p chunk msg = { s with conn } ∨
        s.receiveStream p chunk msg = { s with conn, pending := none }) := by
  unfold receiveStream
  cases hr : (streamBody p.request.seq (fun _ => chunk) msg).run s.conn with
  | ok response conn =>
    have hk := (keepsQueue_streamBody p.request.seq (fun _ => chunk) msg).ok hr
    cases response with
    | none => exact ⟨conn, hk, .inl rfl⟩
    | some _ => exact ⟨conn, hk, .inr rfl⟩
  | error e conn =>
    have hk := (keepsQueue_streamBody p.request.seq (fun _ => chunk) msg).error hr
    exact ⟨conn, hk, .inr rfl⟩

/-! ## The invariant, step by step -/

/-- The next message of an operation on its way: a notification, or its own reply. -/
theorem OnWay.receive {p : Pending} (h : s.OnWay p) {msg : Bytes} {rest : List Bytes}
    (hin : s.conn.incoming = msg :: rest) :
    (IsNote msg ∧ ∀ conn : Conn κ, conn.incoming = rest → ({ s with conn } : Sys κ).OnWay p) ∨
      (IsReplyFrame p.request.seq msg ∧ s.inbox = [] ∧ (∀ x ∈ rest, IsNote x) ∧
        ∃ frames, (p.request, frames) ∈ s.answered ∧ msg ∈ frames) := by
  rcases h with ⟨before, hib, hb, hnotes⟩ | ⟨hib, frames, pre, m, post, ha, hm, hr, he, hpre, hpost⟩
  · rw [hin] at hnotes
    obtain ⟨hmsg, hrest⟩ := List.forall_mem_cons.mp hnotes
    refine .inl ⟨hmsg, fun conn hc => .inl ⟨before, hib, hb, ?_⟩⟩
    show ∀ m ∈ conn.incoming, IsNote m
    rw [hc]
    exact hrest
  · rw [hin] at he
    cases pre with
    | nil =>
      cases he
      exact .inr ⟨hr, hib, hpost, frames, ha, hm⟩
    | cons n pre =>
      cases he
      obtain ⟨hn, hpre⟩ := List.forall_mem_cons.mp hpre
      exact .inl ⟨hn, fun conn hc =>
        .inr ⟨hib, frames, pre, m, post, ha, hm, hr, hc, hpre, hpost⟩⟩

theorem OnWay.answer {p : Pending} (h : s.OnWay p) (hk : p.request.kind = .one) {r : Request}
    {rest : List Request} {frames : List Bytes} (hi : s.inbox = r :: rest)
    (hc : r.kind ≠ .many → Complete r frames) :
    ({ s with
      conn := { s.conn with incoming := s.conn.incoming ++ frames }
      inbox := rest
      answered := s.answered ++ [(r, frames)] } : Sys κ).OnWay p := by
  rcases h with ⟨before, hib, hb, hnotes⟩ | ⟨hib, -⟩
  · rw [hi] at hib
    cases before with
    | nil =>
      -- the request itself is answered
      cases hib
      have hcomp := hc (by rw [hk]; decide)
      rw [Complete, hk] at hcomp
      obtain ⟨pre, m, post, rfl, hpre, hpost, hm⟩ := hcomp
      refine .inr ⟨rfl, pre ++ m :: post, s.conn.incoming ++ pre, m, post, ?_, ?_, hm, ?_, ?_, hpost⟩
      · exact List.mem_append_right _ (List.mem_singleton_self _)
      · exact List.mem_append_right _ List.mem_cons_self
      · exact (List.append_assoc _ _ _).symm
      · intro x hx
        rcases List.mem_append.mp hx with hx | hx
        · exact hnotes x hx
        · exact hpre x hx
    | cons b before =>
      -- a release in front of it is handled
      cases hib
      obtain ⟨hrk, hb⟩ := List.forall_mem_cons.mp hb
      have hcomp := hc (by rw [hrk]; decide)
      rw [Complete, hrk] at hcomp
      refine .inl ⟨before, rfl, hb, fun m hm => ?_⟩
      rcases List.mem_append.mp hm with hm | hm
      · exact hnotes m hm
      · exact hcomp m hm
  · rw [hi] at hib
    cases hib

theorem OnWay.push {p : Pending} (h : s.OnWay p) {frames : List Bytes}
    (hf : ∀ m ∈ frames, IsNote m) :
    ({ s with conn := { s.conn with incoming := s.conn.incoming ++ frames } } : Sys κ).OnWay p := by
  have happ : ∀ {l : List Bytes}, (∀ x ∈ l, IsNote x) → ∀ x ∈ l ++ frames, IsNote x :=
    fun hl => List.forall_mem_append.mpr ⟨hl, hf⟩
  rcases h with ⟨before, hib, hb, hnotes⟩ | ⟨hib, frames', pre, m, post, ha, hm, hr, he, hpre, hpost⟩
  · exact .inl ⟨before, hib, hb, happ hnotes⟩
  · refine .inr ⟨hib, frames', pre, m, post ++ frames, ha, hm, hr, ?_, hpre, happ hpost⟩
    show s.conn.incoming ++ frames = _
    rw [he, List.append_assoc, List.cons_append]

/-- An operation that ends without an outcome worth stating changes nothing else. -/
theorem QuietInv.over (h : s.QuietInv) {d : Done} {conn : Conn κ}
    (hd : d.timedOut = false → d.pending.Quiet → d.Obtained s) :
    ({ s with conn, pending := none, done := s.done ++ [d] } : Sys κ).QuietInv where
  kind _ _ hp := by cases hp
  onWay _ _ hp := by cases hp
  obtained d' hd' ht hq := by
    rcases List.mem_append.mp hd' with hd' | hd'
    · exact (h.obtained d' hd' ht hq).mono fun _ hx => hx
    · rw [List.mem_singleton.mp hd'] at ht hq ⊢
      exact (hd ht hq).mono fun _ hx => hx

theorem QuietInv.ask (h : s.QuietInv) (op : Op) : (s.asked op).QuietInv where
  kind p op' hp hw := by
    cases hp
    rfl
  onWay p op' hp _ hq := by
    cases hp
    exact .inl ⟨s.inbox, rfl, hq.2, hq.1⟩
  obtained d hd ht hq := (h.obtained d hd ht hq).mono fun _ hx => hx

/-- A step after which no operation waits, and that ends none. -/
theorem QuietInv.idle (h : s.QuietInv) (hp : ∀ p op, s'.pending = some p → p.waiting ≠ .op op)
    (hd : s'.done = s.done) (ha : s'.answered = s.answered) : s'.QuietInv where
  kind p op hp' hw := absurd hw (hp p op hp')
  onWay p op hp' hw := absurd hw (hp p op hp')
  obtained d hd' ht hq := by
    rw [hd] at hd'
    exact (h.obtained d hd' ht hq).mono fun _ hx => ha ▸ hx

theorem QuietInv.receiveOp (h : s.QuietInv) {op : Op} {p : Pending} {msg : Bytes}
    {rest : List Bytes} (hp : s.pending = some p) (hw : p.waiting = .op op)
    (hin : s.conn.incoming = msg :: rest) : ((s.took rest).receiveOp op p msg).QuietInv := by
  by_cases hq : p.Quiet
  · rcases (h.onWay p op hp hw hq).receive hin with ⟨hn, hon⟩ | ⟨hr, -, -, frames, ha, hm⟩
    · -- a notification: the operation goes on
      obtain ⟨conn, hc, -, he⟩ := receiveOp_note op p hn (s.took rest)
      rw [he]
      exact {
        kind := fun p' op' hp' hw' => h.kind p' op' hp' hw'
        onWay := fun p' op' hp' _ _ => by
          rw [show p' = p from Option.some.inj (hp'.symm.trans hp)]
          exact hon conn hc
        obtained := fun d hd ht hq' => (h.obtained d hd ht hq').mono fun _ hx => hx }
    · -- the reply: the operation obtains it
      rw [receiveOp_own hr.isOwn]
      exact h.over fun _ _ => ⟨frames, msg, ha, hm, hr, rfl⟩
  · obtain ⟨conn, -, he | ⟨outcome, he⟩⟩ := receiveOp_cases op p msg (s.took rest)
    · rw [he]
      exact {
        kind := fun p' op' hp' hw' => h.kind p' op' hp' hw'
        onWay := fun p' op' hp' _ hq' => by
          rw [show p' = p from Option.some.inj (hp'.symm.trans hp)] at hq'
          exact absurd hq' hq
        obtained := fun d hd ht hq' => (h.obtained d hd ht hq').mono fun _ hx => hx }
    · rw [he]
      exact h.over fun _ hq' => absurd hq' hq

theorem QuietInv.step (h : s.QuietInv) {l : Label} (hl : s.AnswersOps l)
    (hs : s.step dry l = some s') : s'.QuietInv := by
  cases l with
  | ask op =>
    obtain ⟨-, rfl⟩ := step_ask hs
    exact h.ask op
  | oneway serviceId methodId args =>
    obtain ⟨hp, rfl⟩ := step_oneway hs
    exact h.idle (fun p op hp' => by cases hp.symm.trans hp') rfl rfl
  | release typeId objectId =>
    obtain ⟨hp, rfl | ⟨conn, -, -, rfl⟩⟩ := step_release hs
    · exact h
    · exact h.idle (fun p op hp' => by cases hp.symm.trans hp') rfl rfl
  | stream serviceId methodId args =>
    obtain ⟨-, rfl⟩ := step_stream hs
    refine h.idle (fun p op hp' hw => ?_) rfl rfl
    cases hp'
    cases hw
  | receive chunk =>
    obtain ⟨p, msg, rest, hp, hin, ⟨op, hw, rfl⟩ | ⟨hw, rfl⟩⟩ := step_receive hs
    · exact h.receiveOp hp hw hin
    · obtain ⟨conn, -, he | he⟩ := receiveStream_cases p chunk msg (s.took rest)
      · rw [he]
        refine h.idle (fun p' op' hp' hw' => ?_) rfl rfl
        rw [show p' = p from Option.some.inj (hp'.symm.trans hp), hw] at hw'
        cases hw'
      · rw [he]
        exact h.idle (fun p' op' hp' => by cases hp') rfl rfl
  | timeout =>
    obtain ⟨p, hp, ⟨op, hw, rfl⟩ | ⟨hw, rfl⟩⟩ := step_timeout hs
    · exact h.over fun ht => by cases ht
    · exact h.idle (fun p' op' hp' => by cases hp') rfl rfl
  | answer frames =>
    obtain ⟨r, rest, hi, rfl⟩ := step_answer hs
    exact {
      kind := fun p op hp hw => h.kind p op hp hw
      onWay := fun p op hp hw hq =>
        (h.onWay p op hp hw hq).answer (h.kind p op hp hw) hi (hl r rest hi)
      obtained := fun d hd ht hq =>
        (h.obtained d hd ht hq).mono fun _ hx => List.mem_append_left _ hx }
  | push frames =>
    obtain rfl := step_push hs
    exact {
      kind := fun p op hp hw => h.kind p op hp hw
      onWay := fun p op hp hw hq => (h.onWay p op hp hw hq).push hl
      obtained := fun d hd ht hq => (h.obtained d hd ht hq).mono fun _ hx => hx }

end Sys

end Song
