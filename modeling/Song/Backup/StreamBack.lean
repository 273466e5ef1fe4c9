import Song.Backup.Upload
import Song.Compiler.Streamed

/-!
# Streaming a file back over a connection

`stream_back` collects the chunks of a streaming call and puts the parts in them together; on the
other side the dispatcher streams the file. Between them is the content, whatever its length.
-/

namespace Song

/-- `call_streaming` that collects the chunks (`StreamReader`). -/
def ServiceConnection.collectStreaming {κ : Type} (link : Link) (serviceId methodId : UInt16)
    (args : Bytes) (chunkTimeoutMs : Int) : Cli κ (UInt32 × List Bytes) := do
  let before ← get
  let seq ← callStreaming link serviceId methodId args (fun _ => none) chunkTimeoutMs
  let after ← get
  return (seq, after.handed.drop before.handed.length)

namespace Backup

def kServiceBackupAgentStream : UInt16 := 2
def kMethodBackupAgentStreamFile : UInt16 := 1

/-- `backup_stream_dispatcher`. -/
def backupStreamDispatcher (host : Host) (root : Str) (methodId : UInt16) (request : Buffer)
    (a : Agent) : StreamRun Agent :=
  if methodId = kMethodBackupAgentStreamFile then
    match decodeString.run request with
    | .ok path _ => streamFile host root path a
    | .error e _ => .throws a e
  else .throws a (.runtimeError (lit "Unknown streaming method: " ++ toStr methodId.toNat))

/-- `stream_back`. -/
def streamBackOver {κ : Type} (link : Link) (name : Str) : Cli κ Bytes :=
  match encodeString name with
  | .error e => throw e
  | .ok req => do
    let reader ← ServiceConnection.collectStreaming link kServiceBackupAgentStream
      kMethodBackupAgentStreamFile req 5000
    match decodeParts reader.2 with
    | .ok data => return data
    | .error e => throw e

variable {κ ω : Type} {host : Host} {root name : Str} {a : Agent} {env : Env Agent ω}
  {tp : TransportPtr}

theorem writeParts_leaves {ps : List Bytes} (h : ∀ part ∈ ps, part.length ≤ kStreamChunkSize)
    (a : Agent) : (writeParts a ps).leaves false = a := by
  induction ps with
  | nil => rfl
  | cons part ps ih =>
    obtain ⟨hpart, hps⟩ := List.forall_mem_cons.mp h
    unfold writeParts encodeBytes
    rw [if_neg (by simp only [kStreamChunkSize] at hpart; simp only [kMaxBytesSize]; omega)]
    exact ih hps

theorem handOut_all {α : Type} (seen xs : List α) :
    handOut (fun _ => none) seen xs = (seen ++ xs, none) := by
  induction xs generalizing seen with
  | nil => rw [handOut, List.append_nil]
  | cons x xs ih =>
    rw [handOut]
    dsimp only
    rw [ih, List.append_assoc]
    rfl

/-- What is collected of a stream that ends are its chunks. -/
theorem collectStreaming_run {link : Link} {c : Conn κ} (hready : link.Ready c)
    {chunks : List Bytes} (hsmall : ∀ chunk ∈ chunks, chunk.length ≤ kMaxPayloadSize)
    (serviceId methodId : UInt16) (args : Bytes) (chunkTimeoutMs : Int)
    (hc : c.incoming =
      chunks.map (createStreamMessage c.nextSeq) ++ [StreamLast.message c.nextSeq .streamEnd]) :
    ∃ c', (ServiceConnection.collectStreaming link serviceId methodId args chunkTimeoutMs).run c =
        .ok (c.nextSeq, chunks) c' ∧ c'.incoming = [] ∧
      c'.sent = c.sent ++ [createCallMessage c.nextSeq serviceId methodId args] := by
  let c₁ := c.requested fun seq => createCallMessage seq serviceId methodId args
  have hin : c₁.incoming =
      chunks.map (createStreamMessage c.nextSeq) ++ [StreamLast.message c.nextSeq .streamEnd] := hc
  have hall : handOut (fun _ => none) c₁.handed chunks = (c.handed ++ chunks, none) :=
    handOut_all c.handed chunks
  have hnone : (handOut (fun _ => none) c₁.handed chunks).2 = none := by rw [hall]
  let c₂ : Conn κ := { c₁ with incoming := [], handed := c.handed ++ chunks }
  have hloop : (receiveLoop (streamDry link chunkTimeoutMs) (streamBody c.nextSeq fun _ => none)
      c₁.incoming).run c₁ = _ := receiveLoop_handed hsmall hin hnone
  rw [hall] at hloop
  have hlast : _ = StreamLast.result c.nextSeq c₂ .streamEnd :=
    (Eff.run_bind_congr hloop).trans (receiveLoop_last .streamEnd [] _)
  have hcall : (ServiceConnection.callStreaming link serviceId methodId args (fun _ => none)
      chunkTimeoutMs).run c = .ok c.nextSeq c₂ :=
    (callStreaming_run hready serviceId methodId args (fun _ => none) chunkTimeoutMs).trans hlast
  refine ⟨c₂, ?_, rfl, rfl⟩
  have hbefore : (get : Cli κ (Conn κ)).run c = .ok c c := rfl
  have hafter : (get : Cli κ (Conn κ)).run c₂ = .ok c₂ c₂ := rfl
  rw [ServiceConnection.collectStreaming, Eff.run_bind_ok hbefore, Eff.run_bind_ok hcall,
    Eff.run_bind_ok hafter]
  show EStateM.Result.ok (c.nextSeq, (c.handed ++ chunks).drop c.handed.length) c₂ = _
  rw [List.drop_left]

/-- What the runtime does with the request. -/
theorem streamFile_served {req : Bytes} (hok : SendsOk env (.transport tp))
    (hdisp : env.streamDispatchers.lookup kServiceBackupAgentStream =
      some (backupStreamDispatcher host root))
    (hreq : encodeString name = .ok req) (seq : UInt32) (rt : Rt Agent ω) :
    ∃ rt' chunks, (clientStep env (createCallMessage seq kServiceBackupAgentStream
        kMethodBackupAgentStreamFile req) tp).run rt = .ok .stay rt' ∧ rt'.user = rt.user ∧
      arrived tp rt rt' =
        chunks.map (createStreamMessage seq) ++ [StreamLast.message seq .streamEnd] ∧
      (∀ chunk ∈ chunks, chunk.length ≤ kMaxPayloadSize) ∧
      decodeParts chunks = .ok (readable host root name rt.user) := by
  have hparts := length_parts (readable host root name rt.user)
  obtain ⟨hpushless, hthrown, hends, hsmall, hdecoded⟩ := writeParts_chunks hparts rt.user
  have hrun := streamFile_eq host root name rt.user
  rw [← hrun] at hpushless hthrown hends hsmall hdecoded
  have hstd : (streamFile host root name rt.user).ThrowsStd := fun e he => by
    rw [hthrown] at he
    cases he
  have hclean : (streamFile host root name rt.user).EndsCleanly := fun e he => by
    rw [hthrown] at he
    cases he
  let op := Op.call kServiceBackupAgentStream kMethodBackupAgentStreamFile req
  obtain ⟨pre, hd⟩ := decodeMethodCallHeader_cut (encodeHeader (op.frame seq).hdr)
    kServiceBackupAgentStream kMethodBackupAgentStreamFile req
  have hdecode := reads_decodeString hreq pre []
  rw [List.append_nil] at hdecode
  have hfun : backupStreamDispatcher host root kMethodBackupAgentStreamFile (.cut pre req) =
      streamFile host root name := by
    funext a
    unfold backupStreamDispatcher
    rw [if_pos rfl, hdecode]
  have hm : handleMessage env (op.frame seq).hdr (op.frame seq).body tp =
      handleCall env (op.frame seq).hdr (.cut (encodeHeader (op.frame seq).hdr)
        (encodeMethodCall kServiceBackupAgentStream kMethodBackupAgentStreamFile req))
        (.transport tp) := rfl
  have hstream : handleMessage env (op.frame seq).hdr (op.frame seq).body tp =
      handleStreamCall env seq (.transport tp) (streamFile host root name) := by
    rw [hm, handleCall, decodeThen_ok hd]
    simp only [hdisp, hfun]
    rfl
  obtain ⟨rt', hret, huser⟩ := handleStreamCall_returns hok hpushless hstd hclean
  have hemits := handleStreamCall_emits hok seq hpushless hstd
  rw [Eff.after_ok hret] at hemits
  rw [← hstream] at hret
  have hhandled : (clientStep env (op.message seq) tp).run rt = .ok .stay rt' :=
    clientStep_handled hret
  refine ⟨rt', (streamFile host root name rt.user).chunks false, hhandled, ?_,
    (Emits.arrived hemits).trans ?_, fun chunk hc => ?_, ?_⟩
  · rw [huser, hrun, writeParts_leaves hparts]
  · rw [StreamRun.frames, StreamRun.closing, hends, hthrown, if_neg Bool.false_ne_true,
      List.append_nil]
    rfl
  · have hlen := hsmall chunk hc
    simp only [kStreamChunkSize] at hlen
    simp only [kMaxPayloadSize]
    omega
  · rw [hdecoded, (flatten_parts (by decide) _).1]

def threeAgent : Agent :=
  ⟨(AList.singleton [lit "r"] .directory).insert [lit "r", lit "f"] (.file ⟨[1, 2, 3], 5⟩), idle⟩

def threeEnv : Env Agent Unit where
  dispatchers := ∅
  streamDispatchers := (∅ : Map _ _).insert kServiceBackupAgentStream
    (backupStreamDispatcher plainHost (lit "/r"))
  factories := ∅
  propGet _ s := .throw s (.runtimeError [])
  propSet _ _ s := .throw s (.runtimeError [])
  dispatch _ _ s := .throw s (.runtimeError [])
  methods := []
  localCapabilities := 0
  sendOutcome _ _ := none
  writeOutcome _ := true

def threeRt : Rt Agent Unit := ⟨.empty, ⟨∅⟩, threeAgent, .empty, ∅, [], 0, []⟩

end Backup

end Song
