import Song.Session.Quiet
import Song.Lib.List

/-!
# Operations that start behind an abandoned answer

An operation that timed out, or a stream whose `on_chunk` threw, leaves frames
of its answer unread or still to come. Sequence ids tell them apart from the
reply of a later operation as long as no id was used twice, that is for 2^32
requests: until then the frame in front of its reply (`Blocked`) makes a later
operation throw, and no operation ever returns a frame of another answer.
-/

namespace Song

variable {κ : Type} {dry : Option Exn} {s s' : Sys κ}

/-- The sequence id of the `i`-th request of a connection. -/
abbrev seqOf (i : Nat) : UInt32 := UInt32.ofNat i

theorem seqOf_ne {i n : Nat} (h1 : 1 ≤ i) (hi : i ≤ n) (hn : n < 2 ^ 32) :
    seqOf i ≠ seqOf (n + 1) := by
  intro h
  have ht := congrArg UInt32.toNat h
  rw [UInt32.toNat_ofNat', UInt32.toNat_ofNat'] at ht
  omega

/-- `seq` is the sequence id of one of the first `n` requests. -/
def Used (n : Nat) (seq : UInt32) : Prop := ∃ i, 1 ≤ i ∧ i ≤ n ∧ seq = seqOf i

theorem Used.mono {n m : Nat} {seq : UInt32} (h : Used n seq) (hle : n ≤ m) : Used m seq := by
  obtain ⟨i, h1, hi, rfl⟩ := h
  exact ⟨i, h1, Nat.le_trans hi hle, rfl⟩

theorem Used.ne_next {n : Nat} {seq : UInt32} (h : Used n seq) (hn : n < 2 ^ 32) :
    seq ≠ seqOf (n + 1) := by
  obtain ⟨i, h1, hi, rfl⟩ := h
  exact seqOf_ne h1 hi hn

/-- A notification, or a frame that answers one of the first `n` requests. -/
def Tagged (n : Nat) (m : Bytes) : Prop := IsNote m ∨ ∃ seq, Used n seq ∧ IsOwn seq m

theorem Tagged.mono {n m : Nat} {msg : Bytes} (h : Tagged n msg) (hle : n ≤ m) : Tagged m msg := by
  rcases h with h | ⟨seq, hu, ho⟩
  · exact .inl h
  · exact .inr ⟨seq, hu.mono hle, ho⟩

/-- The service answers every request completely, and only notifications are pushed. -/
def Sys.AnswersAll (s : Sys κ) : Label → Prop
  | .answer frames => ∀ r rest, s.inbox = r :: rest → Complete r frames
  | .push frames => ∀ m ∈ frames, IsNote m
  | _ => True

theorem Sys.AnswersAll.answersOps {l : Label} (h : s.AnswersAll l) : s.AnswersOps l := by
  cases l with
  | answer frames => exact fun r rest hi _ => h r rest hi
  | push frames => exact h
  | _ => trivial

/-- A complete answer holds notifications and own frames only. -/
theorem Complete.tagged {r : Request} {frames : List Bytes} (h : Complete r frames) {n : Nat}
    (hr : r.kind ≠ .none → Used n r.seq) : ∀ m ∈ frames, Tagged n m := by
  intro m hm
  unfold Complete at h
  cases hk : r.kind with
  | none =>
    rw [hk] at h
    exact .inl (h m hm)
  | one =>
    rw [hk] at h
    obtain ⟨pre, x, post, rfl, hpre, hpost, hx⟩ := h
    rcases List.mem_append.mp hm with hm | hm
    · exact .inl (hpre m hm)
    · rcases List.mem_cons.mp hm with rfl | hm
      · exact .inr ⟨r.seq, hr (by rw [hk]; decide), hx.isOwn⟩
      · exact .inl (hpost m hm)
  | many =>
    rw [hk] at h
    rcases h.1 m hm with hn | ho
    · exact .inl hn
    · exact .inr ⟨r.seq, hr (by rw [hk]; decide), ho⟩

/-- The answer to a request that expects one has a first own frame, behind notifications. -/
theorem Complete.first {r : Request} {frames : List Bytes} (h : Complete r frames)
    (hk : r.kind ≠ .none) :
    ∃ pre m post, frames = pre ++ m :: post ∧ (∀ x ∈ pre, IsNote x) ∧ IsOwn r.seq m := by
  unfold Complete at h
  cases hrk : r.kind with
  | none => exact absurd hrk hk
  | one =>
    rw [hrk] at h
    obtain ⟨pre, m, post, he, hpre, -, hm⟩ := h
    exact ⟨pre, m, post, he, hpre, hm.isOwn⟩
  | many =>
    rw [hrk] at h
    obtain ⟨hall, m, hm, ho⟩ := h
    rcases frames.forall_or_first IsNote with hn | ⟨pre, x, post, rfl, hpre, hx⟩
    · exact absurd (hn m hm) ho.not_isNote
    · exact ⟨pre, x, post, rfl, hpre,
        (hall x (List.mem_append_right _ List.mem_cons_self)).resolve_left hx⟩

namespace Sys

/-- A frame of another answer is in front of the reply of `p`: unread, or still to come. -/
def Blocked (s : Sys κ) (p : Pending) : Prop :=
  (∃ pre m post seq, s.conn.incoming = pre ++ m :: post ∧ (∀ x ∈ pre, IsNote x) ∧
    IsOwn seq m ∧ seq ≠ p.request.seq) ∨
  ((∀ m ∈ s.conn.incoming, IsNote m) ∧ ∃ before r rest, s.inbox = before ++ r :: rest ∧
    (∀ x ∈ before, x.kind = .none) ∧ r.kind ≠ .none ∧ r.seq ≠ p.request.seq)

/-- What holds after `n` requests. -/
structure StaleInv (dry : Option Exn) (n : Nat) (s : Sys κ) : Prop where
  next : s.conn.nextSeq = seqOf (n + 1)
  inbox : ∀ r ∈ s.inbox, r.kind ≠ .none → Used n r.seq
  incoming : ∀ m ∈ s.conn.incoming, Tagged n m
  blocked : ∀ p op, s.pending = some p → p.waiting = .op op → ¬ p.Quiet → s.Blocked p
  mismatch : ∀ d ∈ s.done, d.timedOut = false → ¬ d.pending.Quiet →
    d.outcome = .error seqMismatch
  timedOut : ∀ d ∈ s.done, d.timedOut = true → d.outcome = .error (timeoutExn dry)

theorem staleInv_init (dry : Option Exn) (propCallbacks : Map SubscriptionKey κ) :
    StaleInv dry 0 (init propCallbacks) where
  next := rfl
  inbox _ h := by cases h
  incoming _ h := by cases h
  blocked _ _ h := by cases h
  mismatch _ h := by cases h
  timedOut _ h := by cases h

/-! ## What blocks an operation goes on blocking it -/

theorem Blocked.receive {p : Pending} (h : s.Blocked p) {msg : Bytes} {rest : List Bytes}
    (hin : s.conn.incoming = msg :: rest) :
    (IsNote msg ∧ ∀ conn : Conn κ, conn.incoming = rest → ({ s with conn } : Sys κ).Blocked p) ∨
      ∃ seq, IsOwn seq msg ∧ seq ≠ p.request.seq := by
  rcases h with ⟨pre, m, post, seq, he, hpre, ho, hne⟩ | ⟨hnotes, hib⟩
  · rw [hin] at he
    cases pre with
    | nil =>
      cases he
      exact .inr ⟨seq, ho, hne⟩
    | cons x pre =>
      cases he
      obtain ⟨hx, hpre⟩ := List.forall_mem_cons.mp hpre
      exact .inl ⟨hx, fun conn hc => .inl ⟨pre, m, post, seq, hc, hpre, ho, hne⟩⟩
  · rw [hin] at hnotes
    obtain ⟨hmsg, hrest⟩ := List.forall_mem_cons.mp hnotes
    refine .inl ⟨hmsg, fun conn hc => .inr ⟨?_, hib⟩⟩
    show ∀ m ∈ conn.incoming, IsNote m
    rw [hc]
    exact hrest

theorem Blocked.answer {p : Pending} (h : s.Blocked p) {r : Request} {rest : List Request}
    {frames : List Bytes} (hi : s.inbox = r :: rest) (hc : Complete r frames) :
    ({ s with
      conn := { s.conn with incoming := s.conn.incoming ++ frames }
      inbox := rest
      answered := s.answered ++ [(r, frames)] } : Sys κ).Blocked p := by
  rcases h with ⟨pre, m, post, seq, he, hpre, ho, hne⟩ | ⟨hnotes, before, b, after, hib, hb, hk, hne⟩
  · refine .inl ⟨pre, m, post ++ frames, seq, ?_, hpre, ho, hne⟩
    show s.conn.incoming ++ frames = _
    rw [he, List.append_assoc, List.cons_append]
  · rw [hi] at hib
    cases before with
    | nil =>
      -- the request that blocks is answered: now its first frame does
      cases hib
      obtain ⟨pre, m, post, rfl, hpre, ho⟩ := hc.first hk
      refine .inl ⟨s.conn.incoming ++ pre, m, post, r.seq, ?_, ?_, ho, hne⟩
      · exact (List.append_assoc _ _ _).symm
      · intro x hx
        rcases List.mem_append.mp hx with hx | hx
        · exact hnotes x hx
        · exact hpre x hx
    | cons x before =>
      cases hib
      obtain ⟨hxk, hb⟩ := List.forall_mem_cons.mp hb
      rw [Complete, hxk] at hc
      refine .inr ⟨fun m hm => ?_, before, b, after, rfl, hb, hk, hne⟩
      rcases List.mem_append.mp hm with hm | hm
      · exact hnotes m hm
      · exact hc m hm

theorem Blocked.push {p : Pending} (h : s.Blocked p) {frames : List Bytes}
    (hf : ∀ m ∈ frames, IsNote m) :
    ({ s with conn := { s.conn with incoming := s.conn.incoming ++ frames } } : Sys κ).Blocked
      p := by
  rcases h with ⟨pre, m, post, seq, he, hpre, ho, hne⟩ | ⟨hnotes, hib⟩
  · refine .inl ⟨pre, m, post ++ frames, seq, ?_, hpre, ho, hne⟩
    show s.conn.incoming ++ frames = _
    rw [he, List.append_assoc, List.cons_append]
  · exact .inr ⟨List.forall_mem_append.mpr ⟨hnotes, hf⟩, hib⟩

/-- An operation asked while something is unread or unanswered is blocked. -/
theorem StaleInv.blocked_asked {n : Nat} (h : StaleInv dry n s) (hn : n < 2 ^ 32) (op : Op)
    (hq : ¬ ((∀ m ∈ s.conn.incoming, IsNote m) ∧ ∀ r ∈ s.inbox, r.kind = .none)) :
    (s.asked op).Blocked ⟨.op op, s.opRequest op, s.conn.incoming, s.inbox⟩ := by
  have hseq : (s.opRequest op).seq = seqOf (n + 1) := h.next
  rcases s.conn.incoming.forall_or_first IsNote with hnotes | ⟨pre, m, post, he, hpre, hm⟩
  · rcases s.inbox.forall_or_first (·.kind = .none) with hks | ⟨before, r, rest, hib, hb, hk⟩
    · exact absurd ⟨hnotes, hks⟩ hq
    · refine .inr ⟨hnotes, before, r, rest ++ [s.opRequest op], ?_, hb, hk, ?_⟩
      · show s.inbox ++ [s.opRequest op] = _
        rw [hib, List.append_assoc, List.cons_append]
      · show r.seq ≠ (s.opRequest op).seq
        rw [hseq]
        refine (h.inbox r ?_ hk).ne_next hn
        rw [hib]
        exact List.mem_append_right _ List.mem_cons_self
  · have ht : Tagged n m := by
      refine h.incoming m ?_
      rw [he]
      exact List.mem_append_right _ List.mem_cons_self
    obtain ⟨seq, hu, ho⟩ := ht.resolve_left hm
    refine .inl ⟨pre, m, post, seq, he, hpre, ho, ?_⟩
    show seq ≠ (s.opRequest op).seq
    rw [hseq]
    exact hu.ne_next hn

end Sys

/-! ## The invariant, step by step -/

/-- The labels that take a sequence id. -/
def Label.isRequest : Label → Bool
  | .ask _ => true
  | .oneway _ _ _ => true
  | .stream _ _ _ => true
  | _ => false

/-- How many requests a run makes. -/
def requests (ls : List Label) : Nat := ls.countP Label.isRequest

namespace Sys

theorem next_requested {n : Nat} (h : s.conn.nextSeq = seqOf (n + 1)) :
    s.conn.nextSeq + 1 = seqOf (n + 1 + 1) := by
  rw [h]
  exact (UInt32.ofNat_add (n + 1) 1).symm

/-- The inbox after one more request. -/
theorem StaleInv.inbox_requested {n : Nat} (h : StaleInv dry n s) {r : Request}
    (hr : r.seq = s.conn.nextSeq) : ∀ x ∈ s.inbox ++ [r], x.kind ≠ .none → Used (n + 1) x.seq := by
  intro x hx hk
  rcases List.mem_append.mp hx with hx | hx
  · exact (h.inbox x hx hk).mono (Nat.le_succ n)
  · rw [List.mem_singleton.mp hx, hr, h.next]
    exact ⟨n + 1, Nat.succ_pos n, Nat.le_refl _, rfl⟩

theorem StaleInv.ask {n : Nat} (h : StaleInv dry n s) (hn : n < 2 ^ 32) (op : Op) :
    StaleInv dry (n + 1) (s.asked op) where
  next := next_requested h.next
  inbox := h.inbox_requested rfl
  incoming m hm := (h.incoming m hm).mono (Nat.le_succ n)
  blocked p op' hp _ hq := by
    cases hp
    exact h.blocked_asked hn op hq
  mismatch := h.mismatch
  timedOut := h.timedOut

/-- A one-way call or a stream: the request goes out, and no operation waits. -/
theorem StaleInv.call {n : Nat} (h : StaleInv dry n s) (serviceId methodId : UInt16)
    (args : Bytes) {pending : Option Pending} {onewaySent : Bool}
    (hp : ∀ p op, pending = some p → p.waiting ≠ .op op) :
    StaleInv dry (n + 1)
      { s.called serviceId methodId args with pending := pending, onewaySent := onewaySent } where
  next := next_requested h.next
  inbox := h.inbox_requested rfl
  incoming m hm := (h.incoming m hm).mono (Nat.le_succ n)
  blocked p op hp' hw := absurd hw (hp p op hp')
  mismatch := h.mismatch
  timedOut := h.timedOut

/-- The connection moves on by messages it takes; no operation waits any more. -/
theorem StaleInv.idle {n : Nat} (h : StaleInv dry n s) {conn : Conn κ}
    (hin : ∀ m ∈ conn.incoming, m ∈ s.conn.incoming) (hnext : conn.nextSeq = s.conn.nextSeq)
    {pending : Option Pending} (hp : ∀ p op, pending = some p → p.waiting ≠ .op op) :
    StaleInv dry n { s with conn := conn, pending := pending } where
  next := hnext.trans h.next
  inbox := h.inbox
  incoming m hm := h.incoming m (hin m hm)
  blocked p op hp' hw := absurd hw (hp p op hp')
  mismatch := h.mismatch
  timedOut := h.timedOut

/-- An operation is over: behind another answer by a mismatch, or by its timeout. -/
theorem StaleInv.over {n : Nat} (h : StaleInv dry n s) {conn : Conn κ}
    (hin : ∀ m ∈ conn.incoming, m ∈ s.conn.incoming) (hnext : conn.nextSeq = s.conn.nextSeq)
    (d : Done) (hm : d.timedOut = false → ¬ d.pending.Quiet → d.outcome = .error seqMismatch)
    (ht : d.timedOut = true → d.outcome = .error (timeoutExn dry)) :
    StaleInv dry n { s with conn := conn, pending := none, done := s.done ++ [d] } where
  next := hnext.trans h.next
  inbox := h.inbox
  incoming m hm := h.incoming m (hin m hm)
  blocked _ _ hp := by cases hp
  mismatch d' hd' := by
    rcases List.mem_append.mp hd' with hd' | hd'
    · exact h.mismatch d' hd'
    · rw [List.mem_singleton.mp hd']
      exact hm
  timedOut d' hd' := by
    rcases List.mem_append.mp hd' with hd' | hd'
    · exact h.timedOut d' hd'
    · rw [List.mem_singleton.mp hd']
      exact ht

theorem StaleInv.receiveOp {n : Nat} (h : StaleInv dry n s) {op : Op} {p : Pending}
    {msg : Bytes} {rest : List Bytes} (hp : s.pending = some p) (hw : p.waiting = .op op)
    (hin : s.conn.incoming = msg :: rest) :
    StaleInv dry n ((s.took rest).receiveOp op p msg) := by
  have hmem : ∀ {conn : Conn κ}, conn.incoming = rest → ∀ m ∈ conn.incoming,
      m ∈ s.conn.incoming := by
    intro conn hc m hm
    rw [hin]
    rw [hc] at hm
    exact List.mem_cons_of_mem _ hm
  by_cases hq : p.Quiet
  · obtain ⟨conn, ⟨hc, hs⟩, he | ⟨outcome, he⟩⟩ := receiveOp_cases op p msg (s.took rest)
    · rw [he]
      exact {
        next := hs.trans h.next
        inbox := h.inbox
        incoming := fun m hm => h.incoming m (hmem hc m hm)
        blocked := fun p' op' hp' _ hq' => by
          rw [show p' = p from Option.some.inj (hp'.symm.trans hp)] at hq'
          exact absurd hq hq'
        mismatch := h.mismatch
        timedOut := h.timedOut }
    · rw [he]
      exact h.over (hmem hc) hs ⟨op, p, false, outcome⟩ (fun _ hn => absurd hq hn)
        fun ht => by cases ht
  · rcases (h.blocked p op hp hw hq).receive hin with ⟨hn, hon⟩ | ⟨seq, ho, hne⟩
    · obtain ⟨conn, hc, hs, he⟩ := receiveOp_note op p hn (s.took rest)
      rw [he]
      exact {
        next := hs.trans h.next
        inbox := h.inbox
        incoming := fun m hm => h.incoming m (hmem hc m hm)
        blocked := fun p' op' hp' _ _ => by
          rw [show p' = p from Option.some.inj (hp'.symm.trans hp)]
          exact hon conn hc
        mismatch := h.mismatch
        timedOut := h.timedOut }
    · -- a frame of another answer: the operation throws
      rw [receiveOp_other ho hne]
      have hrest : ∀ m ∈ (s.took rest).conn.incoming, m ∈ s.conn.incoming := hmem rfl
      exact h.over hrest rfl ⟨op, p, false, .error seqMismatch⟩ (fun _ _ => rfl)
        fun ht => by cases ht

theorem StaleInv.answer {n : Nat} (h : StaleInv dry n s) {r : Request} {rest : List Request}
    {frames : List Bytes} (hi : s.inbox = r :: rest) (hc : Complete r frames) :
    StaleInv dry n { s with
      conn := { s.conn with incoming := s.conn.incoming ++ frames }
      inbox := rest
      answered := s.answered ++ [(r, frames)] } where
  next := h.next
  inbox x hx := h.inbox x (by rw [hi]; exact List.mem_cons_of_mem _ hx)
  incoming m hm := by
    rcases List.mem_append.mp hm with hm | hm
    · exact h.incoming m hm
    · exact hc.tagged (h.inbox r (by rw [hi]; exact List.mem_cons_self)) m hm
  blocked p op hp hw hq := (h.blocked p op hp hw hq).answer hi hc
  mismatch := h.mismatch
  timedOut := h.timedOut

theorem StaleInv.push {n : Nat} (h : StaleInv dry n s) {frames : List Bytes}
    (hf : ∀ m ∈ frames, IsNote m) :
    StaleInv dry n
      { s with conn := { s.conn with incoming := s.conn.incoming ++ frames } } where
  next := h.next
  inbox := h.inbox
  incoming := List.forall_mem_append.mpr ⟨h.incoming, fun m hm => .inl (hf m hm)⟩
  blocked p op hp hw hq := (h.blocked p op hp hw hq).push hf
  mismatch := h.mismatch
  timedOut := h.timedOut

theorem StaleInv.release {n : Nat} (h : StaleInv dry n s) {conn : Conn κ}
    (hin : conn.incoming = s.conn.incoming) (hnext : conn.nextSeq = s.conn.nextSeq)
    (hp : s.pending = none) (message : Bytes) :
    StaleInv dry n { s with conn := conn, inbox := s.inbox ++ [⟨.none, 0, message⟩] } where
  next := hnext.trans h.next
  inbox x hx hk := by
    rcases List.mem_append.mp hx with hx | hx
    · exact h.inbox x hx hk
    · rw [List.mem_singleton.mp hx] at hk
      exact absurd rfl hk
  incoming m hm := h.incoming m (hin ▸ hm)
  blocked p op hp' := by cases hp.symm.trans hp'
  mismatch := h.mismatch
  timedOut := h.timedOut

theorem StaleInv.step {n : Nat} (h : StaleInv dry n s) {l : Label} (hl : s.AnswersAll l)
    (hn : l.isRequest = true → n < 2 ^ 32) (hs : s.step dry l = some s') :
    StaleInv dry (n + if l.isRequest then 1 else 0) s' := by
  cases l with
  | ask op =>
    obtain ⟨-, rfl⟩ := step_ask hs
    exact h.ask (hn rfl) op
  | oneway serviceId methodId args =>
    obtain ⟨hp, rfl⟩ := step_oneway hs
    exact h.call serviceId methodId args fun p op hp' => by cases hp.symm.trans hp'
  | release typeId objectId =>
    obtain ⟨hp, rfl | ⟨conn, hin, hnext, rfl⟩⟩ := step_release hs
    · exact h
    · exact h.release hin hnext hp _
  | stream serviceId methodId args =>
    obtain ⟨-, rfl⟩ := step_stream hs
    refine h.call serviceId methodId args fun p op hp hw => ?_
    cases hp
    cases hw
  | receive chunk =>
    obtain ⟨p, msg, rest, hp, hin, ⟨op, hw, rfl⟩ | ⟨hw, rfl⟩⟩ := step_receive hs
    · exact h.receiveOp hp hw hin
    · obtain ⟨conn, ⟨hc, hseq⟩, he⟩ := receiveStream_cases p chunk msg (s.took rest)
      have hmem : ∀ m ∈ conn.incoming, m ∈ s.conn.incoming := by
        intro m hm
        rw [hin]
        rw [hc] at hm
        exact List.mem_cons_of_mem _ hm
      rcases he with he | he
      · rw [he]
        refine h.idle hmem hseq fun p' op' hp' hw' => ?_
        rw [show p' = p from Option.some.inj (hp'.symm.trans hp), hw] at hw'
        cases hw'
      · rw [he]
        exact h.idle hmem hseq fun p' op' hp' => by cases hp'
  | timeout =>
    obtain ⟨p, hp, ⟨op, hw, rfl⟩ | ⟨hw, rfl⟩⟩ := step_timeout hs
    · exact h.over (fun m hm => hm) rfl ⟨op, p, true, .error (timeoutExn dry)⟩
        (fun ht => by cases ht) fun _ => rfl
    · exact h.idle (fun m hm => hm) rfl fun p' op' hp' => by cases hp'
  | answer frames =>
    obtain ⟨r, rest, hi, rfl⟩ := step_answer hs
    exact h.answer hi (hl r rest hi)
  | push frames =>
    obtain rfl := step_push hs
    exact h.push hl

end Sys

/-! ## Whole runs -/

/-- How an operation ended: with its own reply if it started quiet, by a mismatch if it
started behind another answer, by the timeout if it timed out. -/
def Done.Settled (dry : Option Exn) (s : Sys κ) (d : Done) : Prop :=
  (d.timedOut = true → d.outcome = .error (Sys.timeoutExn dry)) ∧
    (d.timedOut = false → d.pending.Quiet → d.Obtained s) ∧
    (d.timedOut = false → ¬ d.pending.Quiet → d.outcome = .error seqMismatch)

/-- In every run with at most 2^32 requests, an operation that is over has obtained its own
reply exactly when it started quiet and did not time out; otherwise it has thrown. -/
theorem session_settled (dry : Option Exn) (propCallbacks : Map SubscriptionKey κ)
    (ls : List Label) (s : Sys κ)
    (h : Lts.Run (Sys.step dry) Sys.AnswersAll (.init propCallbacks) ls s)
    (hn : requests ls ≤ 2 ^ 32) : ∀ d ∈ s.done, d.Settled dry s := by
  have hinv : s.QuietInv ∧ (requests ls ≤ 2 ^ 32 → Sys.StaleInv dry (requests ls) s) := by
    have h0 : (Sys.init propCallbacks).QuietInv ∧
        (requests [] ≤ 2 ^ 32 → Sys.StaleInv dry (requests []) (.init propCallbacks)) :=
      ⟨Sys.quietInv_init _, fun _ => Sys.staleInv_init dry _⟩
    refine h.induction (fun ls s => s.QuietInv ∧
      (requests ls ≤ 2 ^ 32 → Sys.StaleInv dry (requests ls) s)) h0 ?_
    rintro ls t l t' ⟨hq, hst⟩ hl hstep
    refine ⟨hq.step hl.answersOps hstep, fun hle => ?_⟩
    have hcount : requests (ls ++ [l]) = requests ls + if l.isRequest then 1 else 0 := by
      unfold requests
      rw [List.countP_append, List.countP_singleton]
    rw [hcount] at hle ⊢
    refine (hst (by omega)).step hl (fun hr => ?_) hstep
    rw [hr] at hle
    simp only [↓reduceIte] at hle
    omega
  intro d hd
  have hst := hinv.2 hn
  exact ⟨hst.timedOut d hd, hinv.1.obtained d hd, hst.mismatch d hd⟩

/-! ## A late reply -/

/-- Call 1 times out, call 2 is made, both are answered, and the reply of call 1 is read. -/
def lateReply : List Label :=
  [.ask (.call 7 1 []), .timeout, .ask (.call 7 2 []), .answer [createResultMessage 1 [1]],
    .answer [createResultMessage 2 [2]], .receive none]

theorem complete_result {r : Request} (hk : r.kind = .one) {b : Bytes}
    (hb : b.length ≤ kMaxPayloadSize) : Complete r [createResultMessage r.seq b] := by
  have hnil : ∀ x ∈ ([] : List Bytes), IsNote x := fun x h => by cases h
  rw [Complete, hk]
  exact ⟨[], createResultMessage r.seq b, [], rfl, hnil, hnil,
    ⟨message .result r.seq b, rfl, message_valid _ _ hb, .inl rfl, rfl⟩⟩

namespace LateReply

def start : Sys Unit := .init ∅

def first : Pending := ⟨.op (.call 7 1 []), start.opRequest (.call 7 1 []), [], []⟩

def abandoned : Sys Unit :=
  (start.asked (.call 7 1 [])).finishOp (.call 7 1 []) first true (.error (Sys.timeoutExn none))

def second : Pending :=
  ⟨.op (.call 7 2 []), abandoned.opRequest (.call 7 2 []), abandoned.conn.incoming,
    abandoned.inbox⟩

/-- Both requests are answered, the second operation waits. -/
def answered : Sys Unit :=
  let s := abandoned.asked (.call 7 2 [])
  { s with
    conn := { s.conn with incoming := [createResultMessage 1 [1], createResultMessage 2 [2]] }
    inbox := []
    answered := [(first.request, [createResultMessage 1 [1]]),
      (second.request, [createResultMessage 2 [2]])] }

def final : Sys Unit :=
  (answered.took [createResultMessage 2 [2]]).finishOp (.call 7 2 []) second false
    (.error seqMismatch)

theorem run : Lts.Run (Sys.step none) Sys.AnswersAll start lateReply final := by
  have h1 : Lts.Run (Sys.step none) Sys.AnswersAll start [.ask (.call 7 1 []), .timeout]
      abandoned := (Lts.Run.nil.snoc trivial rfl).snoc trivial rfl
  have h2 : Lts.Run (Sys.step none) Sys.AnswersAll start
      [.ask (.call 7 1 []), .timeout, .ask (.call 7 2 [])] (abandoned.asked (.call 7 2 [])) :=
    h1.snoc trivial rfl
  have h3 : Lts.Run (Sys.step none) Sys.AnswersAll start
      ([.ask (.call 7 1 []), .timeout, .ask (.call 7 2 [])] ++
        [.answer [createResultMessage 1 [1]]]) _ :=
    h2.snoc (fun r rest hi => by cases hi; exact complete_result rfl (by decide)) rfl
  have h4 : Lts.Run (Sys.step none) Sys.AnswersAll start
      ([.ask (.call 7 1 []), .timeout, .ask (.call 7 2 [])] ++
        [.answer [createResultMessage 1 [1]]] ++ [.answer [createResultMessage 2 [2]]])
      answered :=
    h3.snoc (fun r rest hi => by cases hi; exact complete_result rfl (by decide)) rfl
  have h5 : Lts.Run (Sys.step none) Sys.AnswersAll start lateReply final := h4.snoc trivial rfl
  exact h5

/-- Call 2 throws the mismatch although it did not time out and its reply is under way. -/
theorem mismatch : ∃ d ∈ final.done, d.timedOut = false ∧ d.outcome = .error seqMismatch :=
  ⟨⟨.call 7 2 [], second, false, .error seqMismatch⟩,
    List.mem_append_right _ (List.mem_singleton_self _), rfl, rfl⟩

end LateReply

theorem session_settled_lateReply :
    (⟨.call 7 2 [], LateReply.second, false, .error seqMismatch⟩ : Done).Settled none
      LateReply.final :=
  session_settled none ∅ lateReply LateReply.final LateReply.run (by decide) _
    (List.mem_append_right _ (List.mem_singleton_self _))

/-- Some operation that did not time out is over without having obtained its reply. -/
theorem lateReply_not_obtained :
    ¬ ∀ (ls : List Label) (s : Sys Unit), Lts.Run (Sys.step none) Sys.AnswersAll (.init ∅) ls s →
      ∀ d ∈ s.done, d.timedOut = false → d.Obtained s := by
  intro h
  obtain ⟨d, hd, ht, ho⟩ := LateReply.mismatch
  obtain ⟨frames, m, -, -, hr, hf⟩ := h lateReply LateReply.final LateReply.run d hd ht
  rw [ho] at hf
  exact d.op.finish_ne_seqMismatch hr hf.symm

end Song
