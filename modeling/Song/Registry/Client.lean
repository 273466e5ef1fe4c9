import Mathlib.Data.List.Chain
import Mathlib.Data.List.Induction
import Song.Handshake

/-!
# A client of the registry (`registry.cpp`: `RegistryClient`)

A call keeps its connection unless something throws. So after a receive that returned false, or a
reply with another sequence id, the next call is made on the same connection, unless the program
closes the client or connects it anew in between.
-/

namespace Song

/-- What a call of the client meets outside. -/
structure RegistryPeer where
  /-- What `tcp->connect` throws, if it does. -/
  dial : Option Exn
  /-- What the send of a request throws, if it does. -/
  send : Bytes → Option Exn
  /-- What is received after a request. -/
  receive : Bytes → Received

namespace RegistryClient

/-- A call that used a connection; `lost`: it found the connection ended or out of step. -/
structure Use where
  conn : Nat
  lost : Bool
  deriving DecidableEq

end RegistryClient

structure RegistryClient where
  /-- The connection of `transport_`, by its number. -/
  transport : Option Nat
  sequenceId : UInt32
  registryHost : Str
  registryPort : UInt16
  /-- Connections opened so far. -/
  opened : Nat
  /-- The calls so far that used a connection. -/
  uses : List RegistryClient.Use

abbrev Reg (α : Type) := EStateM Exn RegistryClient α

namespace RegistryClient

def kServiceRegistry : UInt16 := 0xFFFE

def disconnected : RegistryClient := ⟨none, 0, [], 0, 0, []⟩

/-- `tcp->connect` in its `try`, and `transport_ = std::move(tcp)`. -/
def dial (peer : RegistryPeer) : Reg Bool := fun c =>
  match peer.dial with
  | none => .ok true { c with transport := some c.opened, opened := c.opened + 1 }
  | some e => if e.isStd then .ok false c else .error e c

/-- When it fails, the client keeps the transport it had. -/
def connect (peer : RegistryPeer) (host : Str) (port : UInt16) : Reg Bool := do
  modify fun c => { c with registryHost := host, registryPort := port }
  dial peer

def close : Reg Unit := modify fun c => { c with transport := none }

def ensureConnected (peer : RegistryPeer) : Reg Bool := do
  let c ← get
  if c.transport.isSome then return true
  else if c.registryHost.isEmpty || c.registryPort = 0 then return false
  else dial peer

/-- How the exchange of a call ends, when nothing throws. -/
inductive Outcome where
  /-- `receive` returned false. -/
  | ended
  /-- The reply has another sequence id. -/
  | outOfStep
  /-- An error, or a message of another type. -/
  | refused
  | answered (response : Bytes)

def Outcome.lost : Outcome → Bool
  | ended | outOfStep => true
  | refused | answered _ => false

/-- The response, when the call returns true. -/
def Outcome.response? : Outcome → Option Bytes
  | answered response => some response
  | ended | outOfStep | refused => none

def readReply (seq : UInt32) (resp : Bytes) : Except Exn Outcome :=
  match decodeHeader.run (.ofBytes resp) with
  | .error e _ => .error e
  | .ok hdr _ => .ok <|
    if hdr.sequenceId ≠ seq then .outOfStep
    else if hdr.type = .error then .refused
    else if hdr.type ≠ .result then .refused
    else .answered ((resp.drop 16).take hdr.payloadSize.toNat)

def exchange (peer : RegistryPeer) (seq : UInt32) (msg : Bytes) : Except Exn Outcome :=
  match peer.send msg with
  | some e => .error e
  | none =>
    match peer.receive msg with
    | .error e => .error e
    | .ok none => .ok .ended
    | .ok (some resp) => readReply seq resp

def noteUse (lost : Bool) : Reg Unit :=
  modify fun c => { c with uses := c.uses ++ (c.transport.map fun conn => ⟨conn, lost⟩).toList }

/-- The message of the next call. -/
def request (c : RegistryClient) (methodId : UInt16) (args : Bytes) : Bytes :=
  createCallMessage (c.sequenceId + 1) kServiceRegistry methodId args

/-- `none` is a call that returns false. -/
def call (peer : RegistryPeer) (methodId : UInt16) (args : Bytes) : Reg (Option Bytes) := do
  if ← ensureConnected peer then
    let c ← get
    modify fun c => { c with sequenceId := c.sequenceId + 1 }
    match exchange peer (c.sequenceId + 1) (c.request methodId args) with
    | .ok outcome =>
      noteUse outcome.lost
      return outcome.response?
    | .error e =>
      noteUse false
      if e.isStd then
        close
        return none
      else throw e
  else return none

/-! ## Histories -/

inductive Operation where
  | call (peer : RegistryPeer) (methodId : UInt16) (args : Bytes)
  | connect (peer : RegistryPeer) (host : Str) (port : UInt16)
  | close

def Operation.run : Operation → Reg Unit
  | call peer methodId args => do let _ ← RegistryClient.call peer methodId args
  | connect peer host port => do let _ ← RegistryClient.connect peer host port
  | close => RegistryClient.close

/-- The client after these operations. -/
def after (ops : List Operation) : RegistryClient :=
  ops.foldl (fun c op => Eff.after op.run c) disconnected

theorem after_snoc (ops : List Operation) (op : Operation) :
    after (ops ++ [op]) = Eff.after op.run (after ops) := by
  rw [after, List.foldl_append]
  rfl

/-- After a call that found its connection ended or out of step, none is made on that
connection. -/
def Reopens (c : RegistryClient) : Prop :=
  c.uses.IsChain fun a b => a.lost = true → b.conn ≠ a.conn

/-- The client can make a call: it is connected, or can be. -/
def CanCall (c : RegistryClient) (peer : RegistryPeer) : Prop :=
  c.transport.isSome = true ∨ c.registryHost ≠ [] ∧ c.registryPort ≠ 0 ∧ peer.dial = none

/-- The next call finds its connection ended or out of step. -/
def Loses (c : RegistryClient) (peer : RegistryPeer) (methodId : UInt16) (args : Bytes) : Prop :=
  c.CanCall peer ∧ peer.send (c.request methodId args) = none ∧
    (peer.receive (c.request methodId args) = .ok none ∨
      ∃ resp hdr rest, peer.receive (c.request methodId args) = .ok (some resp) ∧
        decodeHeader.run (.ofBytes resp) = .ok hdr rest ∧ hdr.sequenceId ≠ c.sequenceId + 1)

/-- The operation gets rid of the connection there is. -/
def Operation.Renews : Operation → Prop
  | call _ _ _ => False
  | connect peer _ _ => peer.dial = none
  | close => True

/-- Between a call that found its connection ended or out of step and any later call, the program
closes the client or connects it anew. -/
def Renewed (ops : List Operation) : Prop :=
  ∀ before peer methodId args between peer' methodId' args' later,
    ops = before ++ .call peer methodId args :: (between ++ .call peer' methodId' args' :: later) →
      (after before).Loses peer methodId args → ∃ op ∈ between, op.Renews

/-! ## A call -/

variable {c : RegistryClient} {peer : RegistryPeer} {methodId : UInt16} {args : Bytes}

theorem readReply_outOfStep_iff {seq : UInt32} {resp : Bytes} :
    (∃ outcome, readReply seq resp = .ok outcome ∧ outcome.lost = true) ↔
      ∃ hdr rest, decodeHeader.run (.ofBytes resp) = .ok hdr rest ∧ hdr.sequenceId ≠ seq := by
  unfold readReply
  cases hd : decodeHeader.run (.ofBytes resp) with
  | error e rest => exact iff_of_false (fun ⟨_, h, _⟩ => by cases h) fun ⟨_, _, h, _⟩ => by cases h
  | ok hdr rest =>
    simp only [Except.ok.injEq, exists_eq_left', EStateM.Result.ok.injEq]
    constructor
    · intro hlost
      refine ⟨hdr, rest, ⟨rfl, rfl⟩, fun hseq => ?_⟩
      rw [if_neg (not_not_intro hseq)] at hlost
      split at hlost
      · cases hlost
      split at hlost
      · cases hlost
      · cases hlost
    · rintro ⟨_, _, ⟨rfl, rfl⟩, hseq⟩
      rw [if_pos hseq]
      rfl

theorem loses_iff : c.Loses peer methodId args ↔
    c.CanCall peer ∧ ∃ outcome, exchange peer (c.sequenceId + 1) (c.request methodId args) =
      .ok outcome ∧ outcome.lost = true := by
  refine and_congr_right fun _ => ?_
  unfold exchange
  cases peer.send (c.request methodId args) with
  | some e => exact iff_of_false (fun h => by cases h.1) fun ⟨_, h, _⟩ => by cases h
  | none =>
    rw [and_iff_right rfl]
    cases peer.receive (c.request methodId args) with
    | error e =>
      refine iff_of_false ?_ fun ⟨_, h, _⟩ => by cases h
      rintro (h | ⟨_, _, _, h, _⟩)
      · cases h
      · cases h
    | ok received =>
      cases received with
      | none => exact iff_of_true (.inl rfl) ⟨.ended, rfl, rfl⟩
      | some resp =>
        simp only [Except.ok.injEq, reduceCtorEq, false_or, Option.some.injEq]
        rw [readReply_outOfStep_iff]
        constructor
        · rintro ⟨_, hdr, rest, rfl, h⟩
          exact ⟨hdr, rest, h⟩
        · rintro ⟨hdr, rest, h⟩
          exact ⟨resp, hdr, rest, rfl, h⟩

/-- The connection that the next call uses. -/
def callConn (c : RegistryClient) : Nat := c.transport.getD c.opened

/-- The client once it is connected. -/
def dialled (c : RegistryClient) : RegistryClient :=
  { c with
    transport := some c.callConn
    opened := c.opened + if c.transport.isSome then 0 else 1 }

theorem ensureConnected_run (h : c.CanCall peer) :
    (ensureConnected peer).run c = .ok true c.dialled := by
  have hget : (get : Reg RegistryClient).run c = .ok c c := rfl
  rw [ensureConnected, Eff.run_bind_ok hget]
  cases ht : c.transport with
  | some conn =>
    obtain ⟨transport, sequenceId, host, port, opened, uses⟩ := c
    cases ht
    rfl
  | none =>
    rcases h with h | ⟨hhost, hport, hdial⟩
    · rw [ht] at h
      cases h
    · have hknown : ¬ (c.registryHost.isEmpty || decide (c.registryPort = 0)) = true := by
        simp [hhost, hport]
      rw [Option.isSome_none, if_neg Bool.false_ne_true, if_neg hknown, dialled, callConn, ht]
      simp only [EStateM.run, dial, hdial]
      rfl

/-- A call without a connection leaves the client as it is. -/
theorem after_call_of_not (h : ¬ c.CanCall peer) :
    Eff.after (call peer methodId args) c = c := by
  have hget : (get : Reg RegistryClient).run c = .ok c c := rfl
  obtain ⟨hnone, hother⟩ := not_or.mp h
  have hensure : (ensureConnected peer).run c = .ok false c ∨
      ∃ e, (ensureConnected peer).run c = .error e c := by
    rw [ensureConnected, Eff.run_bind_ok hget, if_neg hnone]
    by_cases hknown : (c.registryHost.isEmpty || decide (c.registryPort = 0)) = true
    · rw [if_pos hknown]
      exact .inl rfl
    · rw [if_neg hknown]
      cases hdial : peer.dial with
      | none =>
        rw [Bool.or_eq_true, not_or, List.isEmpty_iff, decide_eq_true_iff] at hknown
        exact absurd ⟨hknown.1, hknown.2, hdial⟩ hother
      | some e =>
        simp only [EStateM.run, dial, hdial]
        by_cases hstd : e.isStd = true
        · rw [if_pos hstd]
          exact .inl rfl
        · rw [if_neg hstd]
          exact .inr ⟨e, rfl⟩
  rcases hensure with hrun | ⟨e, hrun⟩
  · rw [call, Eff.after, Eff.run_bind_ok hrun]
    rfl
  · rw [call, Eff.after, Eff.run_bind_error hrun]

/-- What a call that has a connection leaves: one use more, and the connection unless the
exchange threw. -/
theorem after_call (methodId : UInt16) (args : Bytes) (h : c.CanCall peer) :
    ∃ lost transport, Eff.after (call peer methodId args) c =
        { c.dialled with
          transport
          sequenceId := c.sequenceId + 1
          uses := c.uses ++ [⟨c.callConn, lost⟩] } ∧
      (lost = true ↔ c.Loses peer methodId args) ∧
      (transport = some c.callConn ∨ transport = none ∧ lost = false) := by
  have hensure := ensureConnected_run h
  rw [loses_iff, and_iff_right h, call, Eff.after, Eff.run_bind_ok hensure]
  cases hx : exchange peer (c.sequenceId + 1) (c.request methodId args) with
  | ok outcome =>
    have hx' : exchange peer (c.dialled.sequenceId + 1) (c.dialled.request methodId args) =
        .ok outcome := hx
    refine ⟨outcome.lost, some c.callConn, ?_, ?_, .inl rfl⟩
    · rw [if_pos rfl]
      rw [Eff.run_get_bind, hx']
      rfl
    · simp only [Except.ok.injEq, exists_eq_left']
  | error e =>
    have hx' : exchange peer (c.dialled.sequenceId + 1) (c.dialled.request methodId args) =
        .error e := hx
    refine ⟨false, if e.isStd then none else some c.callConn, ?_, ?_, ?_⟩
    · rw [if_pos rfl]
      rw [Eff.run_get_bind, hx']
      by_cases hstd : e.isStd = true
      · simp only [hstd, ↓reduceIte]
        rfl
      · simp only [hstd]
        rfl
    · refine iff_of_false Bool.false_ne_true ?_
      rintro ⟨_, h, _⟩
      cases h
    · split
      · exact .inr ⟨rfl, rfl⟩
      · exact .inl rfl

/-! ## A history -/

/-- The connections so far have smaller numbers than those to come. -/
structure Numbered (c : RegistryClient) : Prop where
  uses : ∀ use ∈ c.uses, use.conn < c.opened
  transport : ∀ conn, c.transport = some conn → conn < c.opened

/-- The client keeps the connection that its last call found ended or out of step. -/
def Stale (c : RegistryClient) : Prop :=
  ∃ use, c.uses.getLast? = some use ∧ use.lost = true ∧ c.transport = some use.conn

theorem Numbered.dialled (h : c.Numbered) :
    c.opened ≤ c.dialled.opened ∧ c.callConn < c.dialled.opened := by
  unfold RegistryClient.dialled callConn
  cases ht : c.transport with
  | none =>
    simp only [Option.getD_none, Option.isSome_none, Bool.false_eq_true, ↓reduceIte]
    omega
  | some conn =>
    have hlt := h.transport conn ht
    simp only [Option.getD_some, Option.isSome_some, ↓reduceIte]
    omega

theorem Numbered.call (h : c.Numbered) : (Eff.after (call peer methodId args) c).Numbered := by
  by_cases hcan : c.CanCall peer
  · obtain ⟨lost, transport, hafter, -, htransport⟩ := after_call methodId args hcan
    obtain ⟨hle, hlt⟩ := h.dialled
    rw [hafter]
    refine ⟨fun use huse => ?_, fun conn hconn => ?_⟩
    · rcases List.mem_append.mp huse with huse | huse
      · exact (h.uses use huse).trans_le hle
      · rw [List.mem_singleton.mp huse]
        exact hlt
    · rcases htransport with heq | ⟨heq, -⟩
      · cases heq.symm.trans hconn
        exact hlt
      · cases heq.symm.trans hconn
  · rw [after_call_of_not hcan]
    exact h

/-- A call is made on the connection of the last one exactly when the client kept it. -/
theorem reopens_call (h : c.Numbered) (hcan : c.CanCall peer) :
    (Eff.after (call peer methodId args) c).Reopens ↔ c.Reopens ∧ ¬ c.Stale := by
  obtain ⟨lost, transport, hafter, -, -⟩ := after_call methodId args hcan
  rw [hafter]
  unfold Reopens
  simp only [List.isChain_append, List.isChain_singleton, true_and, List.head?_cons,
    Option.mem_def, Option.some.injEq, forall_eq']
  refine and_congr_right fun _ => ?_
  constructor
  · rintro hlast ⟨use, huse, hlost, htransport⟩
    refine hlast use huse hlost ?_
    rw [callConn, htransport, Option.getD_some]
  · intro hstale use huse hlost heq
    cases ht : c.transport with
    | some conn =>
      rw [callConn, ht, Option.getD_some] at heq
      exact hstale ⟨use, huse, hlost, ht.trans (congrArg some heq)⟩
    | none =>
      rw [callConn, ht, Option.getD_none] at heq
      exact absurd (h.uses use (List.mem_of_getLast? huse)) (by omega)

theorem stale_call (h : c.CanCall peer) :
    (Eff.after (call peer methodId args) c).Stale ↔ c.Loses peer methodId args := by
  obtain ⟨lost, transport, hafter, hloses, htransport⟩ := after_call methodId args h
  rw [hafter, ← hloses]
  unfold Stale
  simp only [List.getLast?_append, List.getLast?_singleton, Option.some_or, Option.some.injEq,
    exists_eq_left']
  refine and_iff_left_of_imp fun hlost => ?_
  exact htransport.resolve_right fun h => by cases hlost.symm.trans h.2

theorem dial_run (peer : RegistryPeer) (c : RegistryClient) :
    Eff.after (dial peer) c =
      if peer.dial = none then { c with transport := some c.opened, opened := c.opened + 1 }
      else c := by
  cases hdial : peer.dial with
  | none =>
    rw [if_pos rfl]
    simp only [Eff.after, EStateM.run, dial, hdial]
  | some e =>
    rw [if_neg (Option.some_ne_none e)]
    simp only [Eff.after, EStateM.run, dial, hdial]
    by_cases hstd : e.isStd = true
    · rw [if_pos hstd]
    · rw [if_neg hstd]

theorem after_dropped {α : Type} (x : Reg α) (c : RegistryClient) :
    Eff.after (do let _ ← x : Reg Unit) c = Eff.after x c := by
  unfold Eff.after
  cases hx : x.run c with
  | ok a c' => rw [Eff.run_bind_ok hx]; rfl
  | error e c' => rw [Eff.run_bind_error hx]

theorem after_connect (peer : RegistryPeer) (host : Str) (port : UInt16) (c : RegistryClient) :
    Eff.after (Operation.connect peer host port).run c =
      { c with
        registryHost := host
        registryPort := port
        transport := if peer.dial = none then some c.opened else c.transport
        opened := if peer.dial = none then c.opened + 1 else c.opened } := by
  rw [Operation.run, after_dropped]
  refine (dial_run peer { c with registryHost := host, registryPort := port }).trans ?_
  split
  · rfl
  · rfl

theorem Numbered.step (h : c.Numbered) (op : Operation) : (Eff.after op.run c).Numbered := by
  cases op with
  | call peer methodId args =>
    rw [Operation.run, after_dropped]
    exact h.call
  | connect peer host port =>
    rw [after_connect]
    by_cases hdial : peer.dial = none
    · simp only [if_pos hdial]
      refine ⟨fun use huse => (h.uses use huse).trans (Nat.lt_succ_self _), fun conn hconn => ?_⟩
      cases hconn
      exact Nat.lt_succ_self _
    · simp only [if_neg hdial]
      exact ⟨h.uses, h.transport⟩
  | close => exact ⟨h.uses, nofun⟩

theorem numbered_after (ops : List Operation) : (after ops).Numbered := by
  induction ops using List.reverseRecOn with
  | nil => exact ⟨nofun, nofun⟩
  | append_singleton ops op ih =>
    rw [after_snoc]
    exact ih.step op

/-- After a call that found its connection ended or out of step, the connection was renewed. -/
def Recovered (ops : List Operation) : Prop :=
  ∀ before peer methodId args between, ops = before ++ .call peer methodId args :: between →
    (after before).Loses peer methodId args → ∃ op ∈ between, op.Renews

theorem recovered_snoc {ops : List Operation} {op : Operation} :
    Recovered (ops ++ [op]) ↔
      (op.Renews ∨ Recovered ops) ∧
        ∀ peer methodId args, op = .call peer methodId args →
          ¬ (after ops).Loses peer methodId args := by
  constructor
  · intro h
    refine ⟨?_, ?_⟩
    · by_cases hop : op.Renews
      · exact .inl hop
      · refine .inr ?_
        rintro before peer methodId args between rfl hloses
        obtain ⟨op', hmem, hrenews⟩ := h before peer methodId args (between ++ [op])
          (by rw [List.append_assoc, List.cons_append]) hloses
        rcases List.mem_append.mp hmem with hmem | hmem
        · exact ⟨op', hmem, hrenews⟩
        · rw [List.mem_singleton.mp hmem] at hrenews
          exact absurd hrenews hop
    · rintro peer methodId args rfl hloses
      obtain ⟨op', hmem, -⟩ := h ops peer methodId args [] rfl hloses
      cases hmem
  · rintro ⟨hrest, hlast⟩ before peer methodId args between heq hloses
    rcases List.eq_nil_or_concat between with rfl | ⟨between', op', rfl⟩
    · obtain ⟨rfl, hop⟩ := List.append_inj' heq rfl
      exact absurd hloses (hlast peer methodId args (List.singleton_inj.mp hop))
    · rw [List.concat_eq_append, ← List.cons_append, ← List.append_assoc] at heq
      obtain ⟨rfl, hop⟩ := List.append_inj' heq rfl
      cases List.singleton_inj.mp hop
      rcases hrest with hop | hrest
      · exact ⟨op, by simp, hop⟩
      · obtain ⟨op', hmem, hrenews⟩ := hrest before peer methodId args between' rfl hloses
        exact ⟨op', by simp [hmem], hrenews⟩

theorem renewed_snoc {ops : List Operation} {op : Operation} :
    Renewed (ops ++ [op]) ↔ Renewed ops ∧
      ((∃ peer methodId args, op = .call peer methodId args) → Recovered ops) := by
  constructor
  · intro h
    refine ⟨?_, ?_⟩
    · rintro before peer methodId args between peer' methodId' args' later rfl hloses
      exact h before peer methodId args between peer' methodId' args' (later ++ [op])
        (by simp) hloses
    · rintro ⟨peer', methodId', args', rfl⟩ before peer methodId args between rfl hloses
      exact h before peer methodId args between peer' methodId' args' [] (by simp) hloses
  · rintro ⟨hrest, hlast⟩ before peer methodId args between peer' methodId' args' later heq hloses
    rcases List.eq_nil_or_concat later with rfl | ⟨later', op', rfl⟩
    · have hsplit : ops ++ [op] =
          (before ++ .call peer methodId args :: between) ++ [.call peer' methodId' args'] := by
        rw [heq]
        simp
      obtain ⟨rfl, hop⟩ := List.append_inj' hsplit rfl
      exact hlast ⟨_, _, _, List.singleton_inj.mp hop⟩ before peer methodId args between rfl hloses
    · have hsplit : ops ++ [op] = (before ++ .call peer methodId args ::
          (between ++ .call peer' methodId' args' :: later')) ++ [op'] := by
        rw [heq]
        simp
      obtain ⟨rfl, -⟩ := List.append_inj' hsplit rfl
      exact hrest before peer methodId args between peer' methodId' args' later' rfl hloses

theorem not_stale_of_transport (h : c.transport = none) : ¬ c.Stale := by
  rintro ⟨use, -, -, htransport⟩
  cases h.symm.trans htransport

/-- What an operation other than a call does to what is kept. -/
theorem stale_step {ops : List Operation} {op : Operation}
    (hop : ∀ peer methodId args, op ≠ .call peer methodId args)
    (ih : Renewed ops → (Recovered ops ↔ ¬ (after ops).Stale)) :
    ((after (ops ++ [op])).Reopens ↔ (after ops).Reopens) ∧
      (Renewed ops → (Recovered (ops ++ [op]) ↔ ¬ (after (ops ++ [op])).Stale)) := by
  have hlast : ∀ peer methodId args, op = .call peer methodId args →
      ¬ (after ops).Loses peer methodId args := fun peer methodId args h =>
    absurd h (hop peer methodId args)
  rw [recovered_snoc, and_iff_left hlast, after_snoc]
  cases op with
  | call peer methodId args => exact absurd rfl (hop peer methodId args)
  | connect peer host port =>
    rw [after_connect]
    by_cases hdial : peer.dial = none
    · simp only [if_pos hdial]
      refine ⟨Iff.rfl, fun _ => iff_of_true (.inl hdial) ?_⟩
      rintro ⟨use, huse, -, htransport⟩
      have hlt := (numbered_after ops).uses use (List.mem_of_getLast? huse)
      exact absurd (Option.some.inj htransport) hlt.ne'
    · simp only [if_neg hdial]
      exact ⟨Iff.rfl, fun h => (or_iff_right hdial).trans (ih h)⟩
  | close => exact ⟨Iff.rfl, fun _ => iff_of_true (.inl trivial) (not_stale_of_transport rfl)⟩

theorem history (ops : List Operation) :
    ((after ops).Reopens ↔ Renewed ops) ∧
      (Renewed ops → (Recovered ops ↔ ¬ (after ops).Stale)) := by
  induction ops using List.reverseRecOn with
  | nil =>
    refine ⟨iff_of_true .nil ?_, fun _ => iff_of_true ?_ (not_stale_of_transport rfl)⟩
    · rintro before _ _ _ between _ _ _ later heq
      exact absurd heq.symm (List.append_ne_nil_of_right_ne_nil _ (List.cons_ne_nil _ _))
    · rintro before _ _ _ between heq
      exact absurd heq.symm (List.append_ne_nil_of_right_ne_nil _ (List.cons_ne_nil _ _))
  | append_singleton ops op ih =>
    obtain ⟨hreopens, hstale⟩ := ih
    by_cases hop : ∃ peer methodId args, op = .call peer methodId args
    · obtain ⟨peer, methodId, args, rfl⟩ := hop
      have hrecovered : Recovered (ops ++ [.call peer methodId args]) ↔
          Recovered ops ∧ ¬ (after ops).Loses peer methodId args := by
        rw [recovered_snoc]
        refine and_congr (or_iff_right id) ?_
        constructor
        · intro h
          exact h peer methodId args rfl
        · rintro h _ _ _ hsame
          cases hsame
          exact h
      rw [renewed_snoc, hrecovered, after_snoc, Operation.run, after_dropped]
      by_cases hcan : (after ops).CanCall peer
      · rw [reopens_call (numbered_after ops) hcan, stale_call hcan, hreopens]
        refine ⟨?_, fun h => and_iff_right (h.2 ⟨_, _, _, rfl⟩)⟩
        refine and_congr_right fun h => ?_
        rw [← hstale h]
        exact ⟨fun hrec _ => hrec, fun hrec => hrec ⟨_, _, _, rfl⟩⟩
      · have hnone : ¬ (after ops).Stale :=
          not_stale_of_transport (Option.not_isSome_iff_eq_none.mp fun h => hcan (.inl h))
        have hnot : ¬ (after ops).Loses peer methodId args := fun h => hcan h.1
        rw [after_call_of_not hcan, hreopens]
        refine ⟨⟨fun h => ⟨h, fun _ => (hstale h).mpr hnone⟩, And.left⟩, fun h => ?_⟩
        exact iff_of_true ⟨(hstale h.1).mpr hnone, hnot⟩ hnone
    · have hnocall : ∀ peer methodId args, op ≠ .call peer methodId args :=
        fun peer methodId args h => hop ⟨peer, methodId, args, h⟩
      obtain ⟨hsame, hrest⟩ := stale_step hnocall hstale
      rw [renewed_snoc, and_iff_left fun h => absurd h hop]
      exact ⟨hsame.trans hreopens, hrest⟩

/-- A reachable registry answers the result of the request. -/
def Answers (c : RegistryClient) (peer : RegistryPeer) (methodId : UInt16) (args response : Bytes) :
    Prop :=
  c.CanCall peer ∧ peer.send (c.request methodId args) = none ∧
    response.length ≤ kMaxPayloadSize ∧ peer.receive (c.request methodId args) =
      .ok (some (createResultMessage (c.sequenceId + 1) response))

theorem exchange_answers {response : Bytes} (h : c.Answers peer methodId args response) :
    exchange peer (c.sequenceId + 1) (c.request methodId args) = .ok (.answered response) := by
  obtain ⟨-, hsend, hlen, hreceive⟩ := h
  have hdecode := (message .result (c.sequenceId + 1) response).decodeHeader_bytes
  have hsize : (message .result (c.sequenceId + 1) response).hdr.payloadSize.toNat =
      response.length := by
    simp only [kMaxPayloadSize] at hlen
    simp only [message, UInt32.toNat_ofNat']
    omega
  have hpayload : ((createResultMessage (c.sequenceId + 1) response).drop 16).take
      response.length = response := by
    show (List.drop 16 (message .result (c.sequenceId + 1) response).bytes).take _ = _
    rw [Frame.drop_bytes]
    exact List.take_length
  rw [exchange, hsend, hreceive]
  simp only [readReply]
  rw [show createResultMessage (c.sequenceId + 1) response =
    (message .result (c.sequenceId + 1) response).bytes from rfl] at hpayload ⊢
  rw [hdecode]
  simp only [hsize, hpayload]
  simp only [message, ne_eq, not_true_eq_false, ↓reduceIte]
  rfl

theorem call_answered {response : Bytes} (h : c.Answers peer methodId args response) :
    ∃ c', (call peer methodId args).run c = .ok (some response) c' := by
  have hanswers := exchange_answers h
  have hx : exchange peer (c.dialled.sequenceId + 1) (c.dialled.request methodId args) =
      .ok (.answered response) := hanswers
  refine ⟨{ c.dialled with
    sequenceId := c.sequenceId + 1, uses := c.uses ++ [⟨c.callConn, false⟩] }, ?_⟩
  rw [call, Eff.run_bind_ok (ensureConnected_run h.1), if_pos rfl]
  rw [Eff.run_get_bind, hx]
  rfl

/-- After a call that found its connection ended or out of step, no call is made on that
connection, exactly if the program closes the client or connects it anew before it makes another
one. What a registry answers on the connection of a call is what the call returns. -/
theorem reopens_iff (ops : List Operation) :
    ((after ops).Reopens ↔ Renewed ops) ∧
      ∀ peer methodId args response, (after ops).Answers peer methodId args response →
        ∃ c', (call peer methodId args).run (after ops) = .ok (some response) c' :=
  ⟨(history ops).1, fun _ _ _ _ h => call_answered h⟩

/-! ### A registry that restarts -/

/-- The registry is reachable and ends the connection instead of answering. -/
def restarting : RegistryPeer := ⟨none, fun _ => none, fun _ => .ok none⟩

/-- Both calls are made on the first connection. -/
theorem lost_connection_reused : ¬ ∀ ops : List Operation, (after ops).Reopens := by
  intro h
  have hreopens := h [.connect restarting (lit "localhost") 9000, .call restarting 3 [],
    .call restarting 3 []]
  have huses : (after [.connect restarting (lit "localhost") 9000, .call restarting 3 [],
      .call restarting 3 []]).uses = [⟨0, true⟩, ⟨0, true⟩] := rfl
  rw [Reopens, huses, List.isChain_cons_cons] at hreopens
  exact hreopens.1 rfl rfl

end RegistryClient

end Song
