import Song.Wire
import Song.Subscription
import Mathlib.Logic.Function.Iterate

/-!
# Processes, connections and their handshakes (`process.hpp`, `process.cpp`)

A `ServiceProcess` is the host's handle on a spawned service, a
`ServiceConnection` a client's handle on a local process or on a transport. Both
learn the peer's version, capabilities and methods from its init message, and
both are moved between the handshake and their use: a move is a function from
the source to the new object and what is left of the source.
-/

namespace Song

/-! ## Pipes -/

structure Pipe where
  readFd : Int
  writeFd : Int
  deriving DecidableEq

/-- What is left of a pipe that was moved from. -/
def Pipe.closed : Pipe := ⟨-1, -1⟩

/-! ## Processes -/

structure ServiceProcess where
  pid : Int
  toService : Pipe
  fromService : Pipe
  reusable : Bool
  negotiatedVersion : UInt16
  peerCapabilities : UInt32
  negotiatedCapabilities : UInt32
  methods : List MethodDescriptor
  deriving DecidableEq

namespace ServiceProcess

/-- The private constructor. -/
def create (pid : Int) (toService fromService : Pipe) : ServiceProcess :=
  ⟨pid, toService, fromService, true, 0, 0, 0, []⟩

/-- What a move leaves of its source. -/
def movedFrom (other : ServiceProcess) : ServiceProcess :=
  { other with
    pid := -1, toService := .closed, fromService := .closed, negotiatedVersion := 0, methods := [] }

/-- The move constructor. The capabilities are not among its initializers, so they are 0. -/
def moveConstruct (other : ServiceProcess) : ServiceProcess × ServiceProcess :=
  ({ pid := other.pid
     toService := other.toService
     fromService := other.fromService
     reusable := other.reusable
     negotiatedVersion := other.negotiatedVersion
     peerCapabilities := 0
     negotiatedCapabilities := 0
     methods := other.methods }, other.movedFrom)

/-- The move assignment. The capabilities of `this` stay what they were. -/
def moveAssign (this other : ServiceProcess) : ServiceProcess × ServiceProcess :=
  ({ this with
     pid := other.pid
     toService := other.toService
     fromService := other.fromService
     reusable := other.reusable
     negotiatedVersion := other.negotiatedVersion
     methods := other.methods }, other.movedFrom)

end ServiceProcess

/-! ## Connections -/

/-- The address of a `ServiceProcess`. -/
abbrev ProcPtr := Nat

structure ServiceConnection (κ : Type) where
  proc : Option ProcPtr
  transport : Option TransportPtr
  ownedTransport : Option TransportPtr
  nextSeq : UInt32
  negotiatedVersion : UInt16
  peerCapabilities : UInt32
  negotiatedCapabilities : UInt32
  localCapabilities : UInt32
  methods : List MethodDescriptor
  propCallbacks : Map SubscriptionKey κ

namespace ServiceConnection

variable {κ : Type}

/-- A connection to a local process. -/
def ofProcess (proc : ProcPtr) : ServiceConnection κ :=
  ⟨some proc, none, none, 1, 0, 0, 0, 0, [], ∅⟩

/-- A connection that owns its transport. -/
def ofTransport (transport : TransportPtr) : ServiceConnection κ :=
  ⟨none, some transport, some transport, 1, 0, 0, 0, 0, [], ∅⟩

def setLocalCapabilities (conn : ServiceConnection κ) (caps : UInt32) : ServiceConnection κ :=
  { conn with localCapabilities := caps }

/-- What a move leaves of its source. -/
def movedFrom (other : ServiceConnection κ) : ServiceConnection κ :=
  { other with
    proc := none, transport := none, ownedTransport := none, nextSeq := 1
    negotiatedVersion := 0, peerCapabilities := 0, negotiatedCapabilities := 0
    localCapabilities := 0, methods := [] }

/-- The move constructor; `prop_callbacks_` is not among its initializers. -/
def moveConstruct (other : ServiceConnection κ) : ServiceConnection κ × ServiceConnection κ :=
  ({ proc := other.proc
     transport := other.transport
     ownedTransport := other.ownedTransport
     nextSeq := other.nextSeq
     negotiatedVersion := other.negotiatedVersion
     peerCapabilities := other.peerCapabilities
     negotiatedCapabilities := other.negotiatedCapabilities
     localCapabilities := other.localCapabilities
     methods := other.methods
     propCallbacks := ∅ }, other.movedFrom)

/-- The move assignment; the callbacks of `this` stay what they were. -/
def moveAssign (this other : ServiceConnection κ) : ServiceConnection κ × ServiceConnection κ :=
  ({ this with
     proc := other.proc
     transport := other.transport
     ownedTransport := other.ownedTransport
     nextSeq := other.nextSeq
     negotiatedVersion := other.negotiatedVersion
     peerCapabilities := other.peerCapabilities
     negotiatedCapabilities := other.negotiatedCapabilities
     localCapabilities := other.localCapabilities
     methods := other.methods }, other.movedFrom)

end ServiceConnection

/-! ## The init message -/

/-- How a `receive` ends: an exception, `false`, or a message. -/
abbrev Received := Except Exn (Option Bytes)

/-- `major.minor`. -/
def versionText (version : UInt16) : Str :=
  toStr (version >>> 8).toNat ++ lit "." ++ toStr (version &&& 0xFF).toNat

/-- The version rules; `tooOld` is how the receiver says that it is itself too old. -/
def checkVersions (tooOld : Str) (init : InitMessage) : Dec Unit :=
  if init.currentVersion < kFirstVersion then
    throw (.versionMismatchError (lit "Service version too old: service=" ++
      versionText init.currentVersion ++ lit ", minimum required=" ++ versionText kFirstVersion))
  else if init.firstVersion > kCurrentVersion then
    throw (.versionMismatchError (tooOld ++ versionText kCurrentVersion ++
      lit ", service requires=" ++ versionText init.firstVersion))
  else pure ()

/-- Both handshakes up to the init payload. -/
def decodeInitValidated (tooOld : Str) : Dec InitMessage := do
  let hdr ← decodeHeaderValidated
  if hdr.type = .init then
    let init ← decodeInit
    checkVersions tooOld init
    return init
  else throw (.protocolError (lit "Expected init message from service"))

def negotiateVersion (init : InitMessage) : UInt16 :=
  if init.currentVersion < kCurrentVersion then init.currentVersion else kCurrentVersion

section
variable {τ : Type}

/-- `n` descriptors, each stored as it is decoded. -/
def readMethods (store : MethodDescriptor → τ → τ) : Nat → Buffer → EStateM Exn τ Unit
  | 0, _ => pure ()
  | n + 1, msg => decodeThen decodeMethodDescriptor msg fun desc rest => do
    modify (store desc)
    readMethods store n rest

/-- A handshake: receive the init message, `negotiate` on what it says, store the methods. -/
def handshake (tooOld : Str) (negotiate : InitMessage → τ → τ)
    (store : MethodDescriptor → τ → τ) (received : Received) : EStateM Exn τ Unit :=
  match received with
  | .error e => throw e
  | .ok none => throw (.serviceError (lit "Service failed to send init message"))
  | .ok (some msg) => decodeThen (decodeInitValidated tooOld) (.ofBytes msg) fun init rest => do
    modify (negotiate init)
    readMethods store init.methodCount.toNat rest

end

namespace ServiceProcess

/-- Our own capabilities are not known here: the peer's are taken as they are. -/
def negotiate (init : InitMessage) (proc : ServiceProcess) : ServiceProcess :=
  { proc with
    negotiatedVersion := negotiateVersion init
    peerCapabilities := init.capabilities
    negotiatedCapabilities := init.capabilities
    methods := [] }

def storeMethod (desc : MethodDescriptor) (proc : ServiceProcess) : ServiceProcess :=
  { proc with methods := proc.methods ++ [desc] }

def initHandshake (received : Received) : EStateM Exn ServiceProcess Unit :=
  handshake (lit "Host version too old: host=") negotiate storeMethod received

end ServiceProcess

namespace ServiceConnection

variable {κ : Type}

def negotiate (init : InitMessage) (conn : ServiceConnection κ) : ServiceConnection κ :=
  { conn with
    negotiatedVersion := negotiateVersion init
    peerCapabilities := init.capabilities
    negotiatedCapabilities := conn.localCapabilities &&& init.capabilities
    methods := [] }

def storeMethod (desc : MethodDescriptor) (conn : ServiceConnection κ) : ServiceConnection κ :=
  { conn with methods := conn.methods ++ [desc] }

/-- `init_ack` goes to peers that know it; `send` is how a send ends. -/
def sendInitAck (send : Bytes → Option Exn) : EStateM Exn (ServiceConnection κ) Unit := fun conn =>
  if conn.negotiatedVersion ≥ makeVersion 1 1 then
    match send (createInitAckMessage kFirstVersion kCurrentVersion conn.localCapabilities) with
    | none => .ok () conn
    | some e => .error e conn
  else .ok () conn

/-- The handshake of a remote connection. -/
def initHandshake (connected : Bool) (received : Received) (send : Bytes → Option Exn) :
    EStateM Exn (ServiceConnection κ) Unit := do
  let conn ← get
  if conn.transport.isNone ∨ connected = false then
    throw (.serviceError (lit "ServiceConnection: not connected for init handshake"))
  else
    handshake (lit "Client version too old: client=") negotiate storeMethod received
    sendInitAck send

/-! ## Accessors, over the processes at their addresses -/

variable (heap : ProcPtr → ServiceProcess) (conn : ServiceConnection κ)

/-- `negotiated_version()`; the field has the same name. -/
def getNegotiatedVersion : UInt16 :=
  match conn.proc with
  | some proc => (heap proc).negotiatedVersion
  | none => conn.negotiatedVersion

def getPeerCapabilities : UInt32 :=
  match conn.proc with
  | some proc => (heap proc).peerCapabilities
  | none => conn.peerCapabilities

def getNegotiatedCapabilities : UInt32 :=
  match conn.proc with
  | some proc => (heap proc).negotiatedCapabilities
  | none => conn.negotiatedCapabilities

def getMethods : List MethodDescriptor :=
  match conn.proc with
  | some proc => (heap proc).methods
  | none => conn.methods

end ServiceConnection

/-! ## What a handshake leaves -/

/-- `n` method descriptors in a row. -/
def decodeMethods : Nat → Dec (List MethodDescriptor)
  | 0 => pure []
  | n + 1 => do
    let desc ← decodeMethodDescriptor
    let descs ← decodeMethods n
    return desc :: descs

/-- Neither side is too old for the other. -/
def InitMessage.Compatible (init : InitMessage) : Prop :=
  ¬ init.currentVersion < kFirstVersion ∧ ¬ init.firstVersion > kCurrentVersion

/-- `msg` is an init message that passes the version checks, with these contents. -/
def Announces (msg : Bytes) (init : InitMessage) (methods : List MethodDescriptor) : Prop :=
  ∃ hdr b₁ b₂ b₃, decodeHeaderValidated.run (.ofBytes msg) = .ok hdr b₁ ∧ hdr.type = .init ∧
    decodeInit.run b₁ = .ok init b₂ ∧
    init.Compatible ∧ (decodeMethods init.methodCount.toNat).run b₂ = .ok methods b₃

section
variable {τ : Type} {store : MethodDescriptor → τ → τ} {s s' : τ}

theorem readMethods_ok_iff {n : Nat} {msg : Buffer} :
    (readMethods store n msg).run s = .ok () s' ↔
      ∃ methods rest, (decodeMethods n).run msg = .ok methods rest ∧
        s' = methods.foldl (fun s desc => store desc s) s := by
  induction n generalizing msg s with
  | zero =>
    constructor
    · intro h
      cases h
      exact ⟨[], msg, rfl, rfl⟩
    · rintro ⟨methods, rest, h, rfl⟩
      cases h
      rfl
  | succ n ih =>
    unfold readMethods decodeMethods
    rw [decodeThen_ok_iff]
    constructor
    · rintro ⟨desc, rest, hd, hk⟩
      obtain ⟨_, s₁, hs, hk⟩ := Eff.run_bind_ok_iff.mp hk
      cases hs
      obtain ⟨methods, rest', hm, rfl⟩ := ih.mp hk
      refine ⟨desc :: methods, rest', Eff.run_bind_ok_iff.mpr ⟨desc, rest, hd, ?_⟩, rfl⟩
      exact Eff.run_bind_ok_iff.mpr ⟨methods, rest', hm, rfl⟩
    · rintro ⟨methods, rest', hm, rfl⟩
      obtain ⟨desc, rest, hd, hm⟩ := Eff.run_bind_ok_iff.mp hm
      obtain ⟨descs, rest'', hm, hr⟩ := Eff.run_bind_ok_iff.mp hm
      cases hr
      exact ⟨desc, rest, hd, Eff.run_bind_ok_iff.mpr
        ⟨⟨⟩, store desc s, rfl, ih.mpr ⟨descs, _, hm, rfl⟩⟩⟩

theorem checkVersions_ok_iff {tooOld : Str} {init : InitMessage} {b b' : Buffer} :
    (checkVersions tooOld init).run b = .ok () b' ↔ init.Compatible ∧ b' = b := by
  unfold checkVersions InitMessage.Compatible
  split
  · next h => exact ⟨fun hr => (by cases hr), fun hc => absurd h hc.1.1⟩
  split
  · next h => exact ⟨fun hr => (by cases hr), fun hc => absurd h hc.1.2⟩
  · next h h' =>
    refine ⟨fun hr => ⟨⟨h, h'⟩, ?_⟩, fun hc => ?_⟩
    · cases hr
      rfl
    · rw [hc.2]
      rfl

theorem decodeInitValidated_ok_iff {tooOld : Str} {msg rest : Buffer} {init : InitMessage} :
    (decodeInitValidated tooOld).run msg = .ok init rest ↔
      ∃ hdr b, decodeHeaderValidated.run msg = .ok hdr b ∧ hdr.type = .init ∧
        decodeInit.run b = .ok init rest ∧ init.Compatible := by
  unfold decodeInitValidated
  rw [Eff.run_bind_ok_iff]
  refine exists_congr fun hdr => exists_congr fun b => and_congr_right fun _ => ?_
  split
  · next ht =>
    rw [Eff.run_bind_ok_iff]
    constructor
    · rintro ⟨init', b', hi, hc⟩
      obtain ⟨_, b'', hv, hr⟩ := Eff.run_bind_ok_iff.mp hc
      obtain ⟨hcomp, rfl⟩ := checkVersions_ok_iff.mp hv
      cases hr
      exact ⟨ht, hi, hcomp⟩
    · rintro ⟨-, hi, hcomp⟩
      exact ⟨init, rest, hi, Eff.run_bind_ok_iff.mpr ⟨(), rest, checkVersions_ok_iff.mpr ⟨hcomp, rfl⟩, rfl⟩⟩
  · next ht => exact ⟨fun h => (by cases h), fun h => absurd h.1 ht⟩

theorem decodeMethods_cut (pre : Bytes) (methods : List MethodDescriptor) :
    ∃ rest, (decodeMethods methods.length).run (.cut pre (methods.flatMap encodeMethodDescriptor)) =
      .ok methods rest := by
  induction methods generalizing pre with
  | nil => exact ⟨_, rfl⟩
  | cons desc methods ih =>
    obtain ⟨pre', hd⟩ := decodeMethodDescriptor_cut pre desc (methods.flatMap encodeMethodDescriptor)
    obtain ⟨rest, hm⟩ := ih pre'
    refine ⟨rest, ?_⟩
    rw [List.flatMap_cons, List.length_cons, decodeMethods, Eff.run_bind_ok hd, Eff.run_bind_ok hm]
    rfl

/-- The init message a service builds announces what it was built from. -/
theorem announces_createInitMessage {first current : UInt16} {capabilities : UInt32}
    {methods : List MethodDescriptor} (hfirst : first ≤ kCurrentVersion)
    (hcurrent : kFirstVersion ≤ current) (hsize : 16 + 8 * methods.length ≤ kMaxPayloadSize) :
    Announces (createInitMessage first current capabilities methods)
      ⟨kMagic, first, current, capabilities, UInt32.ofNat methods.length⟩ methods := by
  let init : InitMessage := ⟨kMagic, first, current, capabilities, UInt32.ofNat methods.length⟩
  have hlen : (encodeInit init ++ methods.flatMap encodeMethodDescriptor).length ≤
      kMaxPayloadSize := by
    rw [List.length_append, length_encodeInit, length_encodeMethods]
    exact hsize
  let f := message .init 0 (encodeInit init ++ methods.flatMap encodeMethodDescriptor)
  obtain ⟨pre', hi⟩ := decodeInit_cut (encodeHeader f.hdr) init rfl
    (methods.flatMap encodeMethodDescriptor)
  obtain ⟨rest, hm⟩ := decodeMethods_cut pre' methods
  have hcount : init.methodCount.toNat = methods.length := by
    rw [UInt32.toNat_ofNat']
    simp only [kMaxPayloadSize] at hsize
    omega
  refine ⟨f.hdr, _, _, rest, f.decodeHeaderValidated_bytes (message_valid _ _ hlen), rfl, hi,
    ⟨?_, ?_⟩, by rw [hcount]; exact hm⟩
  · exact UInt16.not_lt.mpr hcurrent
  · exact UInt16.not_lt.mpr hfirst

/-- A handshake succeeds exactly on an init message that passes the checks, and then the
receiver has negotiated on its contents and stored its methods. -/
theorem handshake_ok_iff {tooOld : Str} {negotiate : InitMessage → τ → τ} {received : Received} :
    (handshake tooOld negotiate store received).run s = .ok () s' ↔
      ∃ msg init methods, received = .ok (some msg) ∧ Announces msg init methods ∧
        s' = methods.foldl (fun s desc => store desc s) (negotiate init s) := by
  unfold handshake Announces
  cases received with
  | error e => exact ⟨fun h => (by cases h), fun ⟨_, _, _, h, _⟩ => by cases h⟩
  | ok got =>
    cases got with
    | none => exact ⟨fun h => (by cases h), fun ⟨_, _, _, h, _⟩ => by cases h⟩
    | some msg =>
      simp only
      rw [decodeThen_ok_iff]
      constructor
      · rintro ⟨init, b₂, hd, hk⟩
        obtain ⟨hdr, b₁, hh, ht, hi, hc⟩ := decodeInitValidated_ok_iff.mp hd
        obtain ⟨_, s₁, hn, hm⟩ := Eff.run_bind_ok_iff.mp hk
        cases hn
        obtain ⟨methods, b₃, hms, rfl⟩ := readMethods_ok_iff.mp hm
        exact ⟨msg, init, methods, rfl, ⟨hdr, b₁, b₂, b₃, hh, ht, hi, hc, hms⟩, rfl⟩
      · rintro ⟨_, init, methods, hmsg, ⟨hdr, b₁, b₂, b₃, hh, ht, hi, hc, hm⟩, rfl⟩
        cases hmsg
        refine ⟨init, b₂, decodeInitValidated_ok_iff.mpr ⟨hdr, b₁, hh, ht, hi, hc⟩, ?_⟩
        exact Eff.run_bind_ok_iff.mpr ⟨⟨⟩, negotiate init s, rfl,
          readMethods_ok_iff.mpr ⟨methods, b₃, hm, rfl⟩⟩

end

namespace ServiceProcess

/-- The process once it has met a service that announced these. -/
def met (proc : ServiceProcess) (init : InitMessage) (methods : List MethodDescriptor) :
    ServiceProcess :=
  { proc.negotiate init with methods }

theorem foldl_storeMethod (methods : List MethodDescriptor) (proc : ServiceProcess) :
    methods.foldl (fun proc desc => storeMethod desc proc) proc =
      { proc with methods := proc.methods ++ methods } := by
  induction methods generalizing proc with
  | nil => rw [List.append_nil]; rfl
  | cons desc methods ih =>
    rw [List.foldl_cons, ih, storeMethod, List.append_assoc]
    rfl

theorem initHandshake_ok_iff {received : Received} {proc proc' : ServiceProcess} :
    (initHandshake received).run proc = .ok () proc' ↔
      ∃ msg init methods, received = .ok (some msg) ∧ Announces msg init methods ∧
        proc' = proc.met init methods := by
  rw [initHandshake, handshake_ok_iff]
  simp only [foldl_storeMethod]
  rfl

end ServiceProcess

namespace ServiceConnection

variable {κ : Type}

/-- The connection once it has met a service that announced these. -/
def met (conn : ServiceConnection κ) (init : InitMessage) (methods : List MethodDescriptor) :
    ServiceConnection κ :=
  { conn.negotiate init with methods }

theorem foldl_storeMethod (methods : List MethodDescriptor) (conn : ServiceConnection κ) :
    methods.foldl (fun conn desc => storeMethod desc conn) conn =
      { conn with methods := conn.methods ++ methods } := by
  induction methods generalizing conn with
  | nil => rw [List.append_nil]; rfl
  | cons desc methods ih =>
    rw [List.foldl_cons, ih, storeMethod, List.append_assoc]
    rfl

theorem initHandshake_ok {connected : Bool} {received : Received} {send : Bytes → Option Exn}
    {conn conn' : ServiceConnection κ}
    (h : (initHandshake connected received send).run conn = .ok () conn') :
    ∃ msg init methods, received = .ok (some msg) ∧ Announces msg init methods ∧
      conn' = conn.met init methods := by
  unfold initHandshake at h
  obtain ⟨_, s₁, hget, h⟩ := Eff.run_bind_ok_iff.mp h
  cases hget
  split at h
  · cases h
  · obtain ⟨_, s₁, hh, hack⟩ := Eff.run_bind_ok_iff.mp h
    have hs : conn' = s₁ := by
      simp only [EStateM.run, sendInitAck] at hack
      split at hack
      · split at hack
        · cases hack; rfl
        · cases hack
      · cases hack; rfl
    obtain ⟨msg, init, methods, hr, ha, rfl⟩ := handshake_ok_iff.mp hh
    refine ⟨msg, init, methods, hr, ha, ?_⟩
    rw [hs, foldl_storeMethod]
    rfl

end ServiceConnection

/-! ## Moves -/

namespace ServiceProcess

/-- The object at the end of `n` move constructions. -/
def moved (n : Nat) (proc : ServiceProcess) : ServiceProcess :=
  (fun other => (moveConstruct other).1)^[n] proc

theorem moved_succ (n : Nat) (proc : ServiceProcess) :
    proc.moved (n + 1) = (moveConstruct (proc.moved n)).1 :=
  Function.iterate_succ_apply' _ n proc

/-- What every move of a process keeps. -/
theorem moved_keeps (n : Nat) (proc : ServiceProcess) :
    (proc.moved n).negotiatedVersion = proc.negotiatedVersion ∧
      (proc.moved n).methods = proc.methods := by
  induction n generalizing proc with
  | zero => exact ⟨rfl, rfl⟩
  | succ n ih => exact ih (moveConstruct proc).1

/-- One move is enough to lose the capabilities. -/
theorem moved_succ_capabilities (n : Nat) (proc : ServiceProcess) :
    (proc.moved (n + 1)).peerCapabilities = 0 ∧
      (proc.moved (n + 1)).negotiatedCapabilities = 0 := by
  rw [moved_succ]
  exact ⟨rfl, rfl⟩

/-- An assignment takes the version and the methods, and keeps its own capabilities. -/
theorem moveAssign_keeps (this other : ServiceProcess) :
    (this.moveAssign other).1.negotiatedVersion = other.negotiatedVersion ∧
      (this.moveAssign other).1.methods = other.methods ∧
      (this.moveAssign other).1.peerCapabilities = this.peerCapabilities ∧
      (this.moveAssign other).1.negotiatedCapabilities = this.negotiatedCapabilities :=
  ⟨rfl, rfl, rfl, rfl⟩

end ServiceProcess

namespace ServiceConnection

variable {κ : Type}

/-- `conn'` is where the connection `conn` is after some moves, into new objects or old ones. -/
inductive Moves (conn : ServiceConnection κ) : ServiceConnection κ → Prop
  | refl : Moves conn conn
  | construct {conn' : ServiceConnection κ} : Moves conn conn' → Moves conn conn'.moveConstruct.1
  | assign {conn' : ServiceConnection κ} (this : ServiceConnection κ) :
    Moves conn conn' → Moves conn (this.moveAssign conn').1

/-- The callbacks apart, a connection arrives as it left. -/
theorem Moves.eq {conn conn' : ServiceConnection κ} (h : Moves conn conn') :
    conn' = { conn with propCallbacks := conn'.propCallbacks } := by
  have hback : { conn' with propCallbacks := conn.propCallbacks } = conn := by
    induction h with
    | refl => rfl
    | construct _ ih => exact ih
    | assign _ _ ih => exact ih
  rw [← hback]

theorem Moves.trans {conn conn' conn'' : ServiceConnection κ} (h : Moves conn conn')
    (h' : Moves conn' conn'') : Moves conn conn'' := by
  induction h' with
  | refl => exact h
  | construct _ ih => exact .construct ih
  | assign this _ ih => exact .assign this ih

theorem Moves.iterate (conn : ServiceConnection κ) (n : Nat) :
    Moves conn ((fun other => (moveConstruct other).1)^[n] conn) := by
  induction n with
  | zero => exact .refl
  | succ n ih =>
    rw [Function.iterate_succ_apply']
    exact .construct ih

end ServiceConnection

end Song
