import Song.Session.Quiet
import Song.Runtime.Answer

/-!
# A connection served by the runtime

`Net` puts the two sides together: a client's connection over a reliable
first-in first-out transport, whose receives wait, and the runtime that takes
the client's messages in order (`serve`: one iteration of `client_loop`). What
the runtime puts on the client's transport is what the client will read.

The runtime replies to every call, also to a one-way call, whose reply nobody
reads. As long as none was made, every two-way operation starts on a quiet
connection and obtains its own reply.
-/

namespace Song

variable {κ σ ω : Type}

structure Net (κ σ ω : Type) where
  sys : Sys κ
  rt : Rt σ ω
  /-- The loop of this connection runs. -/
  serving : Bool

inductive NetLabel (σ ω : Type) where
  | ask (op : Op)
  | oneway (serviceId methodId : UInt16) (args : Bytes)
  | release (typeId : UInt32) (objectId : Int32)
  | receive
  | serve
  /-- The runtime does something else, for another connection say, and is then in `rt`. -/
  | elsewhere (rt : Rt σ ω)

namespace Net

def init (propCallbacks : Map SubscriptionKey κ) (rt : Rt σ ω) : Net κ σ ω :=
  ⟨.init propCallbacks, rt, true⟩

section
variable (env : Env σ ω) (tp : TransportPtr)

/-- The client acts. -/
def client (t : Net κ σ ω) (l : Label) : Option (Net κ σ ω) :=
  (t.sys.step none l).map fun sys => { t with sys }

/-- The oldest request has been taken, and the runtime is now in `rt`. -/
def answered (t : Net κ σ ω) (rt : Rt σ ω) (serving : Bool) : Option (Net κ σ ω) :=
  (t.sys.step none (.answer (arrived tp t.rt rt))).map fun sys => ⟨sys, rt, serving⟩

def step (t : Net κ σ ω) : NetLabel σ ω → Option (Net κ σ ω)
  | .ask op => t.client (.ask op)
  | .oneway serviceId methodId args => t.client (.oneway serviceId methodId args)
  | .release typeId objectId => t.client (.release typeId objectId)
  | .receive => t.client (.receive none)
  | .serve =>
    match t.serving, t.sys.inbox with
    | true, r :: _ =>
      match (clientStep env r.message tp).run t.rt with
      | .ok .stay rt => t.answered tp rt true
      | .ok .leave rt => t.answered tp rt false
      | .error _ rt => t.answered tp rt false
    | _, _ => none
  | .elsewhere rt =>
    (t.sys.step none (.push (arrived tp t.rt rt))).map fun sys => { t with sys, rt }

/-- What the runtime does elsewhere reaches this client as notifications at most. -/
def Reliable (t : Net κ σ ω) : NetLabel σ ω → Prop
  | .elsewhere rt => ∀ m ∈ arrived tp t.rt rt, IsNote m
  | _ => True

/-- No operation is asked after a one-way call, and the callback of a two-way operation
behaves. -/
def Orderly (t : Net κ σ ω) : NetLabel σ ω → Prop
  | .ask _ => t.sys.onewaySent = false
  | .serve => ∀ r rest, t.sys.inbox = r :: rest → r.kind = .one →
      Decoded decodeHeader (.ofBytes r.message) fun hdr payload =>
        CallbackBehaves env hdr payload t.rt
  | .elsewhere rt => t.Reliable tp (.elsewhere rt)
  | _ => True

end

/-- Every operation that is over obtained its own reply, and the one that waits is going to:
its request is the next to be answered by a running loop, or its reply the next to be read. -/
def AllReplied (t : Net κ σ ω) : Prop :=
  (∀ d ∈ t.sys.done, d.Obtained t.sys) ∧
    ∀ p, t.sys.pending = some p → t.sys.OnWay p ∧ t.serving = true

variable {env : Env σ ω} {tp : TransportPtr} {t t' : Net κ σ ω}

/-! ## What each step does -/

/-- The state after the oldest request, `r`, was answered. -/
theorem answered_cases {rt : Rt σ ω} {serving : Bool} (h : t.answered tp rt serving = some t') :
    ∃ sys, t.sys.step none (.answer (arrived tp t.rt rt)) = some sys ∧
      t' = ⟨sys, rt, serving⟩ := by
  obtain ⟨sys, hs, rfl⟩ := Option.map_eq_some_iff.mp h
  exact ⟨sys, hs, rfl⟩

theorem step_serve (h : t.step env tp .serve = some t') :
    ∃ r rest, t.sys.inbox = r :: rest ∧
      t.sys.step none (.answer (arrived tp t.rt t'.rt)) = some t'.sys ∧
      (∀ rt, (clientStep env r.message tp).run t.rt = .ok .stay rt →
        t'.rt = rt ∧ t'.serving = true) := by
  unfold step at h
  simp only at h
  cases hs : t.serving with
  | false => rw [hs] at h; cases h
  | true =>
    cases hi : t.sys.inbox with
    | nil => rw [hs, hi] at h; cases h
    | cons r rest =>
      rw [hs, hi] at h
      simp only at h
      refine ⟨r, rest, rfl, ?_⟩
      split at h
      · next rt hrun =>
        obtain ⟨sys, hstep, rfl⟩ := answered_cases h
        exact ⟨hstep, fun rt' h' => by rw [hrun] at h'; cases h'; exact ⟨rfl, rfl⟩⟩
      · next rt hrun =>
        obtain ⟨sys, hstep, rfl⟩ := answered_cases h
        exact ⟨hstep, fun rt' h' => by rw [hrun] at h'; cases h'⟩
      · next e rt hrun =>
        obtain ⟨sys, hstep, rfl⟩ := answered_cases h
        exact ⟨hstep, fun rt' h' => by rw [hrun] at h'; cases h'⟩

theorem step_elsewhere {rt : Rt σ ω} (h : t.step env tp (.elsewhere rt) = some t') :
    ∃ sys, t.sys.step none (.push (arrived tp t.rt rt)) = some sys ∧
      t' = { t with sys, rt } := by
  unfold step at h
  obtain ⟨sys, hs, rfl⟩ := Option.map_eq_some_iff.mp h
  exact ⟨sys, hs, rfl⟩

/-! ## The invariant -/

/-- What a request of each kind is made of. -/
def Issued (r : Request) : Prop :=
  match r.kind with
  | .none => ∃ typeId objectId, r.message = createObjectReleaseMessage typeId objectId
  | .one => ∃ op : Op, r.message = op.message r.seq
  | .many => True

/-- Nothing but notifications is unread and nothing but releases unanswered. -/
def Idle (s : Sys κ) : Prop := (∀ m ∈ s.conn.incoming, IsNote m) ∧ ∀ r ∈ s.inbox, r.kind = .none

structure Calm (t : Net κ σ ω) : Prop where
  quiet : t.sys.QuietInv
  issued : ∀ r ∈ t.sys.inbox, Issued r
  idle : t.sys.onewaySent = false → t.sys.pending = none → Idle t.sys
  single : t.sys.onewaySent = false → ∀ r ∈ t.sys.inbox, r.kind ≠ .many
  serving : t.sys.onewaySent = false → t.serving = true
  asked : ∀ p, t.sys.pending = some p →
    t.sys.onewaySent = false ∧ p.Quiet ∧ ∃ op, p.waiting = .op op
  done : ∀ d ∈ t.sys.done, d.timedOut = false ∧ d.pending.Quiet

theorem calm_init (propCallbacks : Map SubscriptionKey κ) (rt : Rt σ ω) :
    Calm (init propCallbacks rt) where
  quiet := Sys.quietInv_init propCallbacks
  issued _ h := by cases h
  idle _ _ := ⟨fun _ h => (by cases h), fun _ h => by cases h⟩
  single _ _ h := by cases h
  serving _ := rfl
  asked _ h := by cases h
  done _ h := by cases h

theorem Calm.allReplied (h : Calm t) : AllReplied t := by
  refine ⟨fun d hd => ?_, fun p hp => ?_⟩
  · obtain ⟨ht, hq⟩ := h.done d hd
    exact h.quiet.obtained d hd ht hq
  · obtain ⟨hone, hq, op, hw⟩ := h.asked p hp
    exact ⟨h.quiet.onWay p op hp hw hq, h.serving hone⟩

/-- The client's side of the invariant after a step of the client. -/
theorem Calm.client (h : Calm t) {l : Label} (hs : t.client l = some t')
    (hl : t.sys.AnswersOps l) :
    ∃ sys, t.sys.step none l = some sys ∧ sys.QuietInv ∧ t' = { t with sys } := by
  obtain ⟨sys, hstep, rfl⟩ := Option.map_eq_some_iff.mp hs
  exact ⟨sys, hstep, h.quiet.step hl hstep, rfl⟩

theorem Calm.ask (h : Calm t) {op : Op} (hone : t.sys.onewaySent = false)
    (hp : t.sys.pending = none) (hquiet : (t.sys.asked op).QuietInv) :
    Calm { t with sys := t.sys.asked op } where
  quiet := hquiet
  issued := List.forall_mem_append.mpr ⟨h.issued, fun r hr => by
    rw [List.mem_singleton.mp hr]
    exact ⟨op, rfl⟩⟩
  idle _ hp' := by cases hp'
  single _ := List.forall_mem_append.mpr ⟨h.single hone, fun r hr => by
    rw [List.mem_singleton.mp hr]
    exact AnswerKind.noConfusion⟩
  serving _ := h.serving hone
  asked p hp' := by
    cases hp'
    exact ⟨hone, h.idle hone hp, op, rfl⟩
  done := h.done

theorem Calm.oneway (h : Calm t) {serviceId methodId : UInt16} {args : Bytes}
    (hp : t.sys.pending = none)
    (hquiet : ({ t.sys.called serviceId methodId args with onewaySent := true } : Sys κ).QuietInv) :
    Calm { t with sys := { t.sys.called serviceId methodId args with onewaySent := true } } where
  quiet := hquiet
  issued := List.forall_mem_append.mpr ⟨h.issued, fun r hr => by
    rw [List.mem_singleton.mp hr]
    trivial⟩
  idle ho := by cases ho
  single ho := by cases ho
  serving ho := by cases ho
  asked p hp' := by cases hp.symm.trans hp'
  done := h.done

theorem Calm.release (h : Calm t) {conn : Conn κ} (hin : conn.incoming = t.sys.conn.incoming)
    {typeId : UInt32} {objectId : Int32} (hp : t.sys.pending = none)
    (hquiet : ({ t.sys with
      conn
      inbox := t.sys.inbox ++ [⟨.none, 0, createObjectReleaseMessage typeId objectId⟩] } :
        Sys κ).QuietInv) :
    Calm { t with sys := { t.sys with
      conn
      inbox := t.sys.inbox ++ [⟨.none, 0, createObjectReleaseMessage typeId objectId⟩] } } where
  quiet := hquiet
  issued := List.forall_mem_append.mpr ⟨h.issued, fun r hr => by
    rw [List.mem_singleton.mp hr]
    exact ⟨typeId, objectId, rfl⟩⟩
  idle ho hp' := by
    obtain ⟨hnotes, hks⟩ := h.idle ho hp'
    refine ⟨fun m hm => hnotes m (hin ▸ hm), List.forall_mem_append.mpr ⟨hks, fun r hr => ?_⟩⟩
    rw [List.mem_singleton.mp hr]
  single ho := List.forall_mem_append.mpr ⟨h.single ho, fun r hr => by
    rw [List.mem_singleton.mp hr]
    exact AnswerKind.noConfusion⟩
  serving := h.serving
  asked p hp' := by cases hp.symm.trans hp'
  done := h.done

/-- A waiting operation takes a notification, or its reply. -/
theorem Calm.receive (h : Calm t) {p : Pending} {op : Op} {msg : Bytes} {rest : List Bytes}
    (hp : t.sys.pending = some p) (hw : p.waiting = .op op)
    (hin : t.sys.conn.incoming = msg :: rest)
    (hquiet : ((t.sys.took rest).receiveOp op p msg).QuietInv) :
    Calm { t with sys := (t.sys.took rest).receiveOp op p msg } := by
  obtain ⟨hone, hq, -⟩ := h.asked p hp
  rcases (h.quiet.onWay p op hp hw hq).receive hin with ⟨hn, -⟩ | ⟨hr, hib, hnotes, -⟩
  · obtain ⟨conn, -, -, he⟩ := Sys.receiveOp_note op p hn (t.sys.took rest)
    rw [he] at hquiet ⊢
    exact {
      quiet := hquiet
      issued := h.issued
      idle := fun _ hp' => by cases hp.symm.trans hp'
      single := h.single
      serving := h.serving
      asked := h.asked
      done := h.done }
  · rw [Sys.receiveOp_own hr.isOwn] at hquiet ⊢
    exact {
      quiet := hquiet
      issued := h.issued
      idle := fun _ _ => ⟨hnotes, fun r hr => by
        have hr' : r ∈ t.sys.inbox := hr
        rw [hib] at hr'
        cases hr'⟩
      single := h.single
      serving := h.serving
      asked := fun _ hp' => by cases hp'
      done := List.forall_mem_append.mpr ⟨h.done, fun d hd => by
        rw [List.mem_singleton.mp hd]
        exact ⟨rfl, hq⟩⟩ }

/-- What answering the oldest request puts on the transport is its complete answer. -/
theorem serve_complete (hok : SendsOk env (.transport tp)) {rt : Rt σ ω} {r : Request}
    (hi : Issued r) (hk : r.kind ≠ .many)
    (hb : r.kind = .one → Decoded decodeHeader (.ofBytes r.message) fun hdr payload =>
      CallbackBehaves env hdr payload rt) :
    ∃ rt', (clientStep env r.message tp).run rt = .ok .stay rt' ∧
      Complete r (arrived tp rt rt') := by
  unfold Complete
  unfold Issued at hi
  cases hkind : r.kind with
  | none =>
    rw [hkind] at hi
    obtain ⟨typeId, objectId, hm⟩ := hi
    obtain ⟨rt', hrun, hsent⟩ := clientStep_release env tp typeId objectId rt
    rw [hm]
    exact ⟨rt', hrun, (Notes.of_sent hsent).arrived⟩
  | one =>
    rw [hkind] at hi
    obtain ⟨op, hm⟩ := hi
    have hd := (op.frame r.seq).decodeHeader_bytes
    rw [← op.message_eq, ← hm] at hd
    obtain ⟨rt', hrun, ha⟩ := clientStep_answers hok op (hb hkind _ _ hd)
    obtain ⟨pre, m, harr, hpre, hrep⟩ := ha.arrived
    rw [hm]
    exact ⟨rt', hrun, pre, m, [], harr, hpre, (fun x hx => by cases hx), hrep⟩
  | many => exact absurd hkind hk

theorem Calm.serve (h : Calm t) (hok : SendsOk env (.transport tp))
    (hl : t.Orderly env tp .serve) (hs : t.step env tp .serve = some t') : Calm t' := by
  obtain ⟨r, rest, hi, hstep, hstay⟩ := step_serve hs
  have hr : r ∈ t.sys.inbox := by
    rw [hi]
    exact List.mem_cons_self
  have hrest : ∀ x ∈ rest, x ∈ t.sys.inbox := fun x hx => by
    rw [hi]
    exact List.mem_cons_of_mem _ hx
  have hcomp : r.kind ≠ .many → Complete r (arrived tp t.rt t'.rt) ∧ t'.serving = true := by
    intro hk
    obtain ⟨rt, hrun, hc⟩ := serve_complete hok (h.issued r hr) hk (hl r rest hi)
    obtain ⟨hrt, hserving⟩ := hstay rt hrun
    rw [hrt]
    exact ⟨hc, hserving⟩
  have hquiet : t'.sys.QuietInv := by
    have ha : t.sys.AnswersOps (.answer (arrived tp t.rt t'.rt)) := by
      intro r' rest' hi' hk
      rw [hi] at hi'
      cases hi'
      exact (hcomp hk).1
    exact h.quiet.step ha hstep
  obtain ⟨r', rest', hi', hsys⟩ := Sys.step_answer hstep
  rw [hi] at hi'
  cases hi'
  have hone : t'.sys.onewaySent = t.sys.onewaySent := by rw [hsys]
  have hpend : t'.sys.pending = t.sys.pending := by rw [hsys]
  have hdone : t'.sys.done = t.sys.done := by rw [hsys]
  have hinbox : t'.sys.inbox = rest := by rw [hsys]
  refine {
    quiet := hquiet
    issued := fun x hx => h.issued x (hrest x (hinbox ▸ hx))
    idle := fun ho hp => ?_
    single := fun ho x hx => h.single (hone ▸ ho) x (hrest x (hinbox ▸ hx))
    serving := fun ho => (hcomp (h.single (hone ▸ ho) r hr)).2
    asked := fun p hp => by
      rw [hone]
      exact h.asked p (hpend ▸ hp)
    done := fun d hd => h.done d (hdone ▸ hd) }
  obtain ⟨hnotes, hks⟩ := h.idle (hone ▸ ho) (hpend ▸ hp)
  refine ⟨?_, fun x hx => hks x (hrest x (hinbox ▸ hx))⟩
  have hc := (hcomp (h.single (hone ▸ ho) r hr)).1
  rw [Complete, hks r hr] at hc
  rw [hsys]
  exact List.forall_mem_append.mpr ⟨hnotes, hc⟩

theorem Calm.elsewhere (h : Calm t) {rt : Rt σ ω} (hl : ∀ m ∈ arrived tp t.rt rt, IsNote m)
    {conn : Conn κ} (hc : conn = { t.sys.conn with
      incoming := t.sys.conn.incoming ++ arrived tp t.rt rt })
    (hquiet : ({ t.sys with conn } : Sys κ).QuietInv) :
    Calm { t with sys := { t.sys with conn }, rt } where
  quiet := hquiet
  issued := h.issued
  idle ho hp := by
    obtain ⟨hnotes, hks⟩ := h.idle ho hp
    refine ⟨?_, hks⟩
    rw [hc]
    exact List.forall_mem_append.mpr ⟨hnotes, hl⟩
  single := h.single
  serving := h.serving
  asked := h.asked
  done := h.done

theorem Calm.step (h : Calm t) (hok : SendsOk env (.transport tp)) {l : NetLabel σ ω}
    (hl : t.Orderly env tp l) (hs : t.step env tp l = some t') : Calm t' := by
  cases l with
  | ask op =>
    obtain ⟨sys, hstep, hquiet, rfl⟩ := h.client hs trivial
    obtain ⟨hp, rfl⟩ := Sys.step_ask hstep
    exact h.ask hl hp hquiet
  | oneway serviceId methodId args =>
    obtain ⟨sys, hstep, hquiet, rfl⟩ := h.client hs trivial
    obtain ⟨hp, rfl⟩ := Sys.step_oneway hstep
    exact h.oneway hp hquiet
  | release typeId objectId =>
    obtain ⟨sys, hstep, hquiet, rfl⟩ := h.client hs trivial
    obtain ⟨hp, rfl | ⟨conn, hin, -, rfl⟩⟩ := Sys.step_release hstep
    · exact h
    · exact h.release hin hp hquiet
  | receive =>
    obtain ⟨sys, hstep, hquiet, rfl⟩ := h.client hs trivial
    obtain ⟨p, msg, rest, hp, hin, ⟨op, hw, rfl⟩ | ⟨hw, -⟩⟩ := Sys.step_receive hstep
    · exact h.receive hp hw hin hquiet
    · obtain ⟨-, -, op, hw'⟩ := h.asked p hp
      cases hw'.symm.trans hw
  | serve => exact h.serve hok hl hs
  | elsewhere rt =>
    obtain ⟨sys, hstep, rfl⟩ := step_elsewhere hs
    have hpush : t.sys.AnswersOps (.push (arrived tp t.rt rt)) := hl
    have hquiet := h.quiet.step hpush hstep
    obtain rfl := Sys.step_push hstep
    exact h.elsewhere hl rfl hquiet

end Net

/-! ## Whole runs -/

/-- In every run in which no operation is asked after a one-way call and the callbacks of the
two-way operations behave, each operation obtains the reply to its own request. -/
theorem served_allReplied (env : Env σ ω) (tp : TransportPtr)
    (hok : SendsOk env (.transport tp)) (propCallbacks : Map SubscriptionKey κ) (rt : Rt σ ω)
    (ls : List (NetLabel σ ω)) (t : Net κ σ ω)
    (h : Lts.Run (Net.step env tp) (Net.Orderly env tp) (.init propCallbacks rt) ls t) :
    t.AllReplied :=
  (h.invariant Net.Calm (Net.calm_init propCallbacks rt) fun _ _ _ hi hl hs =>
    hi.step hok hl hs).allReplied

/-- Service 7 replies [1] to every call; whatever else is asked of the runtime, its callbacks
behave. -/
def replyEnv : Env Unit Unit :=
  { bareEnv with dispatchers := AList.insert 7 (fun _ _ s => ⟨s, [], .ok [1]⟩) ∅ }

theorem replyEnv_behaves (hdr : Header) (payload : Buffer) (rt : Rt Unit Unit) :
    CallbackBehaves replyEnv hdr payload rt := by
  have hsmall : ∀ {τ ν : Type} (user : τ) (b : Bytes) (pushSize : ν → Nat), b.length ≤ 1 →
      Ran.Behaves ⟨user, [], .ok b⟩ pushSize List.length := by
    intro τ ν user b pushSize hb
    refine ⟨fun _ h => (by cases h), fun a h => ?_, fun _ h => by cases h⟩
    cases h
    exact Nat.le_trans hb (by decide)
  unfold CallbackBehaves
  split
  · intro ids args _
    refine ⟨rfl, fun dispatcher hd => ?_⟩
    by_cases h7 : ids.1 = 7
    · rw [h7, show replyEnv.dispatchers.lookup 7 = some (fun _ _ s => ⟨s, [], .ok [1]⟩) from
        AList.lookup_insert _] at hd
      cases hd
      exact hsmall _ _ _ (Nat.le_refl 1)
    · rw [show replyEnv.dispatchers.lookup ids.1 = none from AList.lookup_insert_ne h7] at hd
      cases hd
  split
  · exact fun _ _ _ _ hf => by cases hf
  split
  · exact fun _ _ _ _ _ => hsmall _ _ _ (Nat.zero_le 1)
  split
  · exact fun _ _ _ _ _ => hsmall _ _ _ (Nat.zero_le 1)
  split
  · exact fun _ _ _ _ _ => hsmall _ _ _ (Nat.zero_le 1)
  · trivial

/-- A call, and a one-way call after it. -/
theorem served_allReplied_call_oneway :
    ∃ t, Lts.follow (Net.step replyEnv 2) (Net.init (∅ : Map SubscriptionKey Unit) bareRt)
        [.ask (.call 7 2 [6]), .serve, .receive, .oneway 7 1 [5], .serve] = some t ∧
      t.sys.done.length = 1 ∧ t.AllReplied := by
  have h : (Lts.follow (Net.step replyEnv 2) (Net.init (∅ : Map SubscriptionKey Unit) bareRt)
      [.ask (.call 7 2 [6]), .serve, .receive, .oneway 7 1 [5], .serve]).map
        (·.sys.done.length) = some 1 := by decide +kernel
  obtain ⟨t, ht, hlen⟩ := Option.map_eq_some_iff.mp h
  obtain ⟨t₁, ht₁, hrest⟩ := Lts.follow_cons ht
  have hask : Lts.Run (Net.step replyEnv 2) (Net.Orderly replyEnv 2)
      (Net.init (∅ : Map SubscriptionKey Unit) bareRt) [.ask (.call 7 2 [6])] t₁ :=
    Lts.Run.nil.snoc rfl ht₁
  have hrun := hask.follow (fun l hl u => ?_) hrest
  · exact ⟨t, ht, hlen, served_allReplied replyEnv 2 (fun _ => rfl) ∅ bareRt _ t hrun⟩
  · have hserve : u.Orderly replyEnv 2 .serve := fun _ _ _ _ _ _ _ => replyEnv_behaves _ _ _
    simp only [List.mem_cons, List.not_mem_nil, or_false] at hl
    rcases hl with rfl | rfl | rfl | rfl
    · exact hserve
    · trivial
    · trivial
    · exact hserve

/-- A one-way call, and a call after it: the call reads the reply to the one-way call. -/
theorem served_oneway_not_replied :
    ¬ ∀ (ls : List (NetLabel Unit Unit)) (t : Net Unit Unit Unit),
      Lts.Run (Net.step replyEnv 2) (Net.Reliable 2) (.init ∅ bareRt) ls t → t.AllReplied := by
  intro hall
  have h : (Lts.follow (Net.step replyEnv 2) (Net.init (∅ : Map SubscriptionKey Unit) bareRt)
      [.oneway 7 1 [5], .ask (.call 7 2 [6]), .serve, .serve, .receive]).map
        (fun t => t.sys.done.map (·.outcome)) = some [.error seqMismatch] := by decide +kernel
  obtain ⟨t, ht, hdone⟩ := Option.map_eq_some_iff.mp h
  have hrun : Lts.Run (Net.step replyEnv 2) (Net.Reliable 2) (.init ∅ bareRt) _ t :=
    Lts.Run.nil.follow (fun l hl u => by
      simp only [List.mem_cons, List.not_mem_nil, or_false] at hl
      rcases hl with rfl | rfl | rfl | rfl | rfl <;> trivial) ht
  obtain ⟨d, hd, ho⟩ := List.mem_map.mp (hdone ▸ List.mem_singleton_self _)
  obtain ⟨frames, m, -, -, hr, hf⟩ := (hall _ t hrun).1 d hd
  rw [ho] at hf
  exact d.op.finish_ne_seqMismatch hr hf.symm

end Song
