import Song.Manager.Edits

/-!
# What a connection knows of its peer

Every process of a manager was moved at least once since its handshake, and the
move constructor of `ServiceProcess` leaves the capabilities behind. So a
connection to a local service reports the peer's version and methods, and its
capabilities exactly when the peer announced none; a connection to a remote or
discovered service reports them all, however often it is moved.
-/

namespace Song

variable {κ α : Type}

/-! ## Processes that have met their service -/

/-- `proc` shook hands with a service that announced these, and was moved since. -/
def ServiceProcess.Met (proc : ServiceProcess) (init : InitMessage)
    (methods : List MethodDescriptor) : Prop :=
  ∃ msg fresh n, Announces msg init methods ∧
    proc = (ServiceProcess.met fresh init methods).moved (n + 1)

theorem ServiceProcess.spawn_met {o : Outside} {executable : Str} {proc : ServiceProcess}
    (h : ServiceProcess.spawn o executable = .ok proc) :
    ∃ init methods, proc.moveConstruct.1.Met init methods := by
  unfold spawn at h
  split at h
  · cases h
  · next launched _ =>
    split at h
    · next shaken hr =>
      cases h
      obtain ⟨msg, init, methods, -, ha, rfl⟩ := initHandshake_ok_iff.mp hr
      exact ⟨init, methods, msg, _, o.returnMoves, ha, (moved_succ _ _).symm⟩
    · cases h

namespace Manager

/-- Every process of the manager is at an address in use, and has met its service. -/
def Sound (m : Manager) : Prop :=
  ∀ entry ∈ m.services, ∀ p, entry.process = some p →
    p < m.nextPtr ∧ ∃ init methods, (m.heap p).Met init methods

/-- New entries that run no process, or one that an old entry runs. -/
theorem Sound.services {m : Manager} (h : m.Sound) {services : List ServiceEntry}
    (hs : ∀ entry ∈ services, entry.process = none ∨
      ∃ old ∈ m.services, entry.process = old.process) :
    ({ m with services } : Manager).Sound := by
  intro entry he p hp
  rcases hs entry he with hn | ⟨old, ho, hsame⟩
  · rw [hn] at hp
    cases hp
  · exact h old ho p (hsame ▸ hp)

end Manager

/-! ## Operations keep the processes sound -/

/-- However it ends, the processes stay sound. -/
abbrev KeepsSound (x : Mgr α) : Prop := Eff.Within (fun m m' => m.Sound → m'.Sound) x

/-- The new process has met its service, the others are untouched. -/
theorem Manager.Sound.edit {T : Str → Prop} {m m' : Manager} (h : ServiceManager.Edit T m m')
    (hm : m.Sound) :
    m'.Sound := by
  cases h with
  | register entry hprocess hname =>
    refine hm.services fun e he => ?_
    rcases List.mem_append.mp he with he | he
    · exact .inr ⟨e, he, rfl⟩
    · rw [List.mem_singleton.mp he]
      exact .inl hprocess
  | give name hspawn =>
    intro entry he p hp
    by_cases hpn : p = m.nextPtr
    · rw [hpn]
      refine ⟨Nat.lt_succ_self _, ?_⟩
      simp only [given, ↓reduceIte]
      exact ServiceProcess.spawn_met hspawn
    · simp only [given, if_neg hpn]
      rcases mem_updateFirst he with he | ⟨old, ho, rfl⟩
      · obtain ⟨hlt, hmet'⟩ := hm entry he p hp
        exact ⟨Nat.lt_succ_of_lt hlt, hmet'⟩
      · exact absurd (Option.some.inj hp).symm hpn
  | rewrite name hT hf =>
    refine hm.services fun entry he => ?_
    rcases mem_updateFirst he with he | ⟨old, ho, rfl⟩
    · exact .inr ⟨entry, he, rfl⟩
    · exact (hf old).2.2.imp id fun h => ⟨old, ho, h⟩
  | count hT o =>
    refine hm.services fun entry he => ?_
    obtain ⟨old, ho, rfl⟩ := List.mem_map.mp he
    refine .inr ⟨old, ho, ?_⟩
    split
    · rfl
    · rfl
  | registry host port => exact hm

theorem spawnInto_met {o : Outside} {name executable : Str} {m m' : Manager} {p : ProcPtr}
    (h : (ServiceManager.spawnInto o name executable).run m = .ok p m') :
    ∃ init methods, (m'.heap p).Met init methods := by
  cases hs : ServiceProcess.spawn o executable with
  | error e =>
    rw [ServiceManager.spawnInto_error hs] at h
    cases h
  | ok proc =>
    rw [ServiceManager.spawnInto_ok hs] at h
    cases h
    simp only [Manager.given, ↓reduceIte]
    exact ServiceProcess.spawn_met hs

theorem KeepsSound.run (o : Outside) (op : ServiceManager.Operation) : KeepsSound (op.run o) := by
  refine (ServiceManager.Edits.run o op).mono fun m m' hedits hm => ?_
  induction hedits with
  | refl => exact hm
  | tail _ hedit ih => exact ih.edit hedit

/-! ## What connect returns -/

namespace ServiceConnection

variable (heap : ProcPtr → ServiceProcess) (conn : ServiceConnection κ) (init : InitMessage)
  (methods : List MethodDescriptor)

/-- The peer of `conn` announced these: its process met it, or the connection did itself. -/
def Met : Prop :=
  match conn.proc with
  | some p => (heap p).Met init methods
  | none => ∃ msg, ∃ fresh : ServiceConnection κ, Announces msg init methods ∧
      Moves (fresh.met init methods) conn

/-- The negotiated version and the methods are the announced ones. -/
def Keeps : Prop :=
  conn.getNegotiatedVersion heap = negotiateVersion init ∧ conn.getMethods heap = methods

/-- The capabilities are the announced ones; a remote connection has negotiated its own. -/
def Reports : Prop :=
  conn.getPeerCapabilities heap = init.capabilities ∧
    conn.getNegotiatedCapabilities heap =
      if conn.proc.isSome then init.capabilities else conn.localCapabilities &&& init.capabilities

variable {heap conn init methods}

theorem Met.of_moves {conn' : ServiceConnection κ} (h : conn.Met heap init methods)
    (hm : Moves conn conn') : conn'.Met heap init methods := by
  have hp : conn'.proc = conn.proc := by rw [hm.eq]
  unfold Met at h ⊢
  rw [hp]
  cases hc : conn.proc with
  | some p =>
    rw [hc] at h
    exact h
  | none =>
    rw [hc] at h
    obtain ⟨msg, fresh, ha, hmoves⟩ := h
    exact ⟨msg, fresh, ha, hmoves.trans hm⟩

/-- A local connection keeps the version and the methods, and has lost the capabilities. -/
theorem Met.local {p : ProcPtr} (h : conn.Met heap init methods) (hp : conn.proc = some p) :
    conn.Keeps heap init methods ∧ (conn.Reports heap init ↔ init.capabilities = 0) := by
  unfold Met at h
  rw [hp] at h
  obtain ⟨msg, fresh, n, -, hmoved⟩ := h
  obtain ⟨hv, hms⟩ := ServiceProcess.moved_keeps (n + 1) (fresh.met init methods)
  obtain ⟨hc, hn⟩ := ServiceProcess.moved_succ_capabilities n (fresh.met init methods)
  unfold Keeps Reports getNegotiatedVersion getMethods getPeerCapabilities getNegotiatedCapabilities
  simp only [hp, hmoved, hv, hms, hc, hn, Option.isSome_some, ↓reduceIte]
  exact ⟨⟨rfl, rfl⟩, fun h => h.1.symm, fun h => ⟨h.symm, h.symm⟩⟩

theorem Met.remote (h : conn.Met heap init methods) (hp : conn.proc = none) :
    conn.Keeps heap init methods ∧ conn.Reports heap init := by
  unfold Met at h
  rw [hp] at h
  obtain ⟨msg, fresh, -, hmoves⟩ := h
  unfold Keeps Reports getNegotiatedVersion getMethods getPeerCapabilities getNegotiatedCapabilities
  simp only [hp, Option.isSome_none, Bool.false_eq_true, ↓reduceIte]
  rw [hmoves.eq]
  exact ⟨⟨rfl, rfl⟩, rfl, rfl⟩

end ServiceConnection

section
variable {o : Outside} {m m' : Manager} {conn : ServiceConnection κ}

open ServiceManager

theorem connectTcp_met {host : Str} {port : UInt16}
    (h : (connectTcp o host port : Mgr (ServiceConnection κ)).run m = .ok conn m') :
    conn.proc = none ∧ ∃ init methods, conn.Met m'.heap init methods := by
  obtain ⟨tcp, s₁, -, h⟩ := Eff.run_bind_ok_iff.mp h
  split at h
  · next shaken hr =>
    cases h
    obtain ⟨msg, init, methods, -, ha, rfl⟩ := ServiceConnection.initHandshake_ok hr
    have hmoves := ServiceConnection.Moves.iterate
      ((ServiceConnection.ofTransport tcp.transport : ServiceConnection κ).met init methods)
      o.returnMoves
    have hp : ((fun other => (ServiceConnection.moveConstruct other).1)^[o.returnMoves]
        ((ServiceConnection.ofTransport tcp.transport : ServiceConnection κ).met init
          methods)).proc = none := by rw [hmoves.eq]; rfl
    refine ⟨hp, init, methods, ?_⟩
    unfold ServiceConnection.Met
    rw [hp]
    exact ⟨msg, _, ha, hmoves⟩
  · cases h

/-- A connection to a local service is to a process that met it, any other has met its peer
itself. -/
theorem connect_met {name : Str} {entry : ServiceEntry} (hm : m.Sound)
    (hf : m.findService name = some entry)
    (h : (connect o name : Mgr (ServiceConnection κ)).run m = .ok conn m') :
    (conn.proc = none ↔ entry.isRemote = true ∨ entry.isDiscoverable = true) ∧
      ∃ init methods, conn.Met m'.heap init methods := by
  unfold connect at h
  rw [Eff.run_bind_ok (getService_ok hf)] at h
  split at h
  · next hr =>
    obtain ⟨hp, hmet⟩ := connectTcp_met h
    exact ⟨⟨fun _ => .inl hr, fun _ => hp⟩, hmet⟩
  split at h
  · next hd =>
    obtain ⟨place, s₂, -, h⟩ := Eff.run_bind_ok_iff.mp h
    split at h
    · obtain ⟨_, s₃, -, h⟩ := Eff.run_bind_ok_iff.mp h
      split at h
      · cases h
      · cases h
    · obtain ⟨hp, hmet⟩ := connectTcp_met h
      exact ⟨⟨fun _ => .inr hd, fun _ => hp⟩, hmet⟩
  · next hr hd =>
    obtain ⟨_, s₂, hg, h⟩ := Eff.run_bind_ok_iff.mp h
    cases hg
    have hlocal : ∀ p, ¬ ((ServiceConnection.ofProcess p : ServiceConnection κ).proc = none) :=
      fun p hp => by cases hp
    have hno : ¬ (entry.isRemote = true ∨ entry.isDiscoverable = true) := not_or.mpr ⟨hr, hd⟩
    split at h
    · next p ha =>
      cases h
      refine ⟨⟨fun hp => absurd hp (hlocal p), fun hb => absurd hb hno⟩, ?_⟩
      have hmem : entry ∈ m.services := List.mem_of_find?_eq_some hf
      obtain ⟨hproc, -⟩ := Option.filter_eq_some_iff.mp ha
      exact (hm entry hmem p hproc).2
    · obtain ⟨p, s₃, hs, h⟩ := Eff.run_bind_ok_iff.mp h
      cases h
      refine ⟨⟨fun hp => absurd hp (hlocal p), fun hb => absurd hb hno⟩, ?_⟩
      exact spawnInto_met hs

end

namespace LocalService

/-- Every executable runs and announces capability 1 and no methods. -/
def outside : Outside where
  running _ := true
  launch _ := .ok ⟨5, .closed, .closed,
    .ok (some (createInitMessage kFirstVersion kCurrentVersion 1 []))⟩
  dial _ _ := .error (.serviceError [])
  mdns := none
  registry := none
  returnMoves := 0

def init : InitMessage := ⟨kMagic, kFirstVersion, kCurrentVersion, 1, 0⟩

def entry : ServiceEntry :=
  ⟨lit "calc", lit "/bin/calc", [], 0, [], false, false, 1, none, false, 0, 5⟩

def manager : Manager := { Manager.empty with services := [entry] }

/-- The process as `spawn` returns it. -/
def process : ServiceProcess := (ServiceProcess.create 5 .closed .closed).met init []

/-- The manager once the service is connected to. -/
def connected : Manager :=
  { manager with
    services := [{ entry with process := some 0 }]
    heap := fun p => if p = 0 then process.moveConstruct.1 else manager.heap p
    nextPtr := 1 }

theorem announces :
    Announces (createInitMessage kFirstVersion kCurrentVersion 1 []) init [] :=
  announces_createInitMessage (by decide) (by decide) (by decide)

theorem run : Lts.Run ServiceManager.step (fun _ _ => True) .empty
    [(outside, .registerService (lit "calc") (lit "/bin/calc") 1)] manager :=
  .snoc .nil trivial rfl

theorem connect_run : (ServiceManager.connect outside (lit "calc") :
    Mgr (ServiceConnection Unit)).run manager = .ok (.ofProcess 0) connected := by
  have hspawn : ServiceProcess.spawn outside entry.executable = .ok process := by
    have hr := ServiceProcess.initHandshake_ok_iff.mpr
      ⟨_, init, [], rfl, announces, (rfl : process = _)⟩
    unfold ServiceProcess.spawn outside
    simp only
    rw [hr]
    rfl
  have hinto : (ServiceManager.spawnInto outside (lit "calc") entry.executable).run manager =
      .ok 0 connected := by
    unfold ServiceManager.spawnInto
    simp only [EStateM.run]
    rw [hspawn]
    rfl
  have hget : (ServiceManager.getService (lit "calc")).run manager = .ok entry manager := rfl
  unfold ServiceManager.connect
  have hm : (get : Mgr Manager).run manager = .ok manager manager := rfl
  have hdead : ServiceManager.aliveProcess outside entry manager = none := rfl
  have hremote : ¬ entry.isRemote = true := Bool.noConfusion
  have hdiscoverable : ¬ entry.isDiscoverable = true := Bool.noConfusion
  rw [Eff.run_bind_ok hget, if_neg hremote, if_neg hdiscoverable, Eff.run_bind_ok hm, hdead]
  simp only
  rw [Eff.run_bind_ok hinto]
  rfl

theorem met : (ServiceConnection.ofProcess 0 : ServiceConnection Unit).Met connected.heap init [] :=
  ⟨_, .create 5 .closed .closed, 0, announces, rfl⟩

end LocalService

end Song
