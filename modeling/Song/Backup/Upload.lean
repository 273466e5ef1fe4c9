import Song.Backup.Store
import Song.Connection.Streaming
import Song.Runtime.StreamReply

/-!
# Backing a file up (`backup_client.cpp`)

The client reads a file in parts, sends each as a chunk at its offset, and then compares what the
agent has: the size, the checksum and the content that is streamed back. An agent that had a longer
file under the name keeps what was behind, unless the file is a single chunk, and a file without
bytes sends nothing at all; what is left of the old content then shows in the comparison.
-/

namespace Song.Backup

open FileTree

def kUploadChunkSize : Nat := 65536

/-- The loop of `upload_file`, on the parts of the file, with any server behind `receive_chunk`. -/
def uploadParts {σ : Type} (receive : FileChunk → σ → σ × Except Exn ChunkResult) (name : Str)
    (fileSize : Nat) : Nat → List Bytes → σ → σ × Except Exn Bool
  | _, [], s => (s, .ok true)
  | offset, part :: rest, s =>
    match receive ⟨name, offset, part, decide (fileSize ≤ offset + part.length)⟩ s with
    | (s', .ok result) =>
      if result.success then uploadParts receive name fileSize (offset + part.length) rest s'
      else (s', .ok false)
    | (s', .error e) => (s', .error e)

/-- `decode_bytes` of one chunk after the other. -/
def decodeParts : List Bytes → Except Exn Bytes
  | [] => .ok []
  | chunk :: rest =>
    match decodeBytes.run (.ofBytes chunk) with
    | .ok part _ => (decodeParts rest).map (part ++ ·)
    | .error e _ => .error e

section
variable (host : Host) (root : Str) (mac : Mac) (now : Int)

def receive (chunk : FileChunk) (a : Agent) : Agent × Except Exn ChunkResult :=
  let ran := receiveChunk host root now chunk a
  (ran.state, ran.out)

def uploadFile (file : Bytes) (name : Str) (a : Agent) : Agent × Except Exn Bool :=
  uploadParts (receive host root now) name file.length 0 (parts kUploadChunkSize file) a

/-- `stream_back`, of what the agent streams. -/
def streamBack (name : Str) (a : Agent) : Except Exn Bytes :=
  let run := streamFile host root name a
  match run.thrown false with
  | some e => .error (streamError 3 e.what)
  | none => decodeParts (run.chunks false)

/-- What the client compares once a file is uploaded. -/
def verified (file : Bytes) (name : Str) (a : Agent) : Except Exn Bool :=
  if (getFileInfo host root name a).size ≠ file.length then .ok false
  else
    match computeChecksum host root mac name a with
    | .error e => .error e
    | .ok remoteSum =>
      if hmacToHex (mac kChecksumKey file) ≠ remoteSum then .ok false
      else (streamBack host root name a).map fun remoteData => decide (remoteData = file)

/-- Upload and verify a file: whether it counts as passed. -/
def backUp (file : Bytes) (name : Str) (a : Agent) : Agent × Except Exn Bool :=
  let uploaded := uploadFile host root now file name a
  match uploaded.2 with
  | .error e => (uploaded.1, .error e)
  | .ok false => (uploaded.1, .ok false)
  | .ok true => (uploaded.1, verified host root mac file name uploaded.1)

end

/-! ## Parts -/

section
variable {n fuel : Nat} {content : Bytes}

theorem go_fuel (hn : 0 < n) (h : content.length ≤ fuel) :
    parts.go n fuel content = parts n content := by
  unfold parts
  generalize hlen : content.length = len at h
  have hle : content.length ≤ len := by omega
  clear hlen
  induction fuel generalizing len content with
  | zero =>
    obtain rfl : len = 0 := by omega
    rfl
  | succ fuel ih =>
    cases len with
    | zero =>
      have hnil : content = [] := List.eq_nil_of_length_eq_zero (by omega)
      rw [hnil]
      rfl
    | succ len =>
      unfold parts.go
      split
      · rfl
      · next hne =>
        have hpos := List.length_pos_iff.mpr hne
        rw [ih len (by omega) (by rw [List.length_drop]; omega)]

theorem parts_nil : parts n [] = [] := rfl

theorem parts_cons (hn : 0 < n) (h : content ≠ []) :
    parts n content = content.take n :: parts n (content.drop n) := by
  have hpos := List.length_pos_iff.mpr h
  obtain ⟨len, hlen⟩ := Nat.exists_eq_add_of_lt hpos
  rw [parts, hlen, Nat.zero_add, parts.go, if_neg h, go_fuel hn]
  rw [List.length_drop]
  omega

/-- They make the content, none is empty and none is too long. -/
theorem flatten_parts (hn : 0 < n) (content : Bytes) :
    (parts n content).flatten = content ∧
      ∀ part ∈ parts n content, part ≠ [] ∧ part.length ≤ n := by
  generalize hlen : content.length = len
  induction len using Nat.strongRecOn generalizing content with
  | ind len ih =>
    by_cases h : content = []
    · subst h
      exact ⟨rfl, fun _ hp => by cases hp⟩
    · have hpos := List.length_pos_iff.mpr h
      obtain ⟨hflat, hparts⟩ := ih (content.drop n).length
        (by rw [List.length_drop]; omega) _ rfl
      rw [parts_cons hn h, List.flatten_cons, hflat, List.take_append_drop]
      refine ⟨rfl, List.forall_mem_cons.mpr ⟨⟨?_, ?_⟩, hparts⟩⟩
      · exact fun hnil => h (List.take_eq_nil_iff.mp hnil |>.resolve_left (by omega))
      · rw [List.length_take]
        omega

end

/-! ## Streaming back -/

section
variable {host : Host} {root name : Str} {a : Agent} {p : CanonicalPath}

/-- What is written of parts is read as what they make. -/
theorem writeParts_chunks {ps : List Bytes} (h : ∀ part ∈ ps, part.length ≤ kStreamChunkSize)
    (a : Agent) :
    (writeParts a ps).Pushless ∧ (writeParts a ps).thrown false = none ∧
      (writeParts a ps).ends false = false ∧
      (∀ chunk ∈ (writeParts a ps).chunks false, chunk.length ≤ 4 + kStreamChunkSize) ∧
      decodeParts ((writeParts a ps).chunks false) = .ok ps.flatten := by
  induction ps with
  | nil => exact ⟨trivial, rfl, rfl, fun _ hc => (by cases hc), rfl⟩
  | cons part ps ih =>
    obtain ⟨hpart, hps⟩ := List.forall_mem_cons.mp h
    obtain ⟨hpushless, hthrown, hends, hsmall, hdecode⟩ := ih hps
    have henc : encodeBytes part = .ok (encodeU32 (UInt32.ofNat part.length) ++ part) := by
      unfold encodeBytes
      rw [if_neg]
      simp only [kStreamChunkSize] at hpart
      simp only [kMaxBytesSize]
      omega
    have hread := reads_decodeBytes henc [] []
    rw [List.append_nil, ← Buffer.ofBytes_eq_cut] at hread
    unfold writeParts
    rw [henc]
    dsimp only
    refine ⟨fun thrown => ?_, hthrown, hends, ?_, ?_⟩
    · cases thrown with
      | none => exact hpushless
      | some e => trivial
    · refine List.forall_mem_cons.mpr ⟨?_, hsmall⟩
      rw [List.length_append, length_encodeU32]
      omega
    · show decodeParts (_ :: (writeParts a ps).chunks false) = _
      unfold decodeParts
      rw [hread]
      dsimp only
      rw [hdecode]
      rfl

/-- What is read of a file: nothing where there is none, or it does not open. -/
def readable (host : Host) (root name : Str) (a : Agent) : Bytes :=
  match host.resolve root a.files name with
  | none => []
  | some p =>
    match status a.files p with
    | some (.file f) => if host.opens a.files p then f.content else []
    | _ => []

theorem streamFile_eq (host : Host) (root name : Str) (a : Agent) :
    streamFile host root name a =
      writeParts a (parts kStreamChunkSize (readable host root name a)) := by
  unfold streamFile readable
  cases host.resolve root a.files name with
  | none => rfl
  | some p =>
    dsimp only
    cases status a.files p with
    | none => rfl
    | some x =>
      cases x with
      | directory => rfl
      | file f =>
        dsimp only
        split
        · rfl
        · rfl

theorem length_parts (content : Bytes) :
    ∀ part ∈ parts kStreamChunkSize content, part.length ≤ kStreamChunkSize :=
  fun part hp => ((flatten_parts (by decide) content).2 part hp).2

/-- It is streamed back as it is. -/
theorem streamBack_eq (host : Host) (root name : Str) (a : Agent) :
    streamBack host root name a = .ok (readable host root name a) := by
  obtain ⟨-, hthrown, -, -, hdecode⟩ :=
    writeParts_chunks (length_parts (readable host root name a)) a
  rw [streamBack, streamFile_eq, hthrown]
  dsimp only
  rw [hdecode, (flatten_parts (by decide) _).1]

theorem readable_file {f : FileBody} (hresolve : host.resolve root a.files name = some p)
    (hstatus : status a.files p = some (.file f)) (hopens : host.opens a.files p = true) :
    readable host root name a = f.content := by
  rw [readable, hresolve]
  dsimp only
  rw [hstatus]
  exact if_pos hopens

end

/-! ## Uploading -/

section
variable {host : Host} {root name : Str} {now : Int} {a : Agent} {p : CanonicalPath} {files : Files}
  {chunk : FileChunk}

/-- A file can be put there. -/
structure Placed (files : Files) (p : CanonicalPath) : Prop where
  slash : p.slash = false
  parent : node files p.parent = some .directory
  free : node files p.names ≠ some .directory

theorem Placed.names_ne (h : Placed files p) : p.names ≠ [] :=
  fun hnil => h.free (by rw [hnil]; rfl)

theorem Placed.parent_ne (h : Placed files p) : p.parent ≠ p.names := by
  have hpos := List.length_pos_iff.mpr h.names_ne
  rw [CanonicalPath.parent, h.slash, if_neg Bool.false_ne_true]
  intro he
  have hlen := congrArg List.length he
  rw [List.length_dropLast] at hlen
  omega

theorem Placed.put (h : Placed files p) (f : FileBody) : Placed (put files p.names f) p where
  slash := h.slash
  parent := by
    rw [node_put h.names_ne, if_neg h.parent_ne]
    exact h.parent
  free := by
    rw [node_put h.names_ne, if_pos rfl]
    exact fun hc => by cases hc

theorem writeChunk_placed (h : Placed files p) (hopens : host.opens files p = true) :
    writeChunk host now files p chunk =
      some (FileTree.put files p.names (body (fileAt files p.names) chunk now)) := by
  unfold writeChunk status fileAt
  cases hn : node files p.names with
  | none =>
    dsimp only
    rw [if_pos ⟨h.parent, h.slash, hopens⟩]
    rfl
  | some x =>
    cases x with
    | directory => exact absurd hn h.free
    | file f =>
      dsimp only
      rw [h.slash, if_neg Bool.false_ne_true]
      dsimp only
      rw [if_pos hopens]
      unfold body
      dsimp only
      split
      · rfl
      · rfl

/-- A chunk for a place is taken. -/
theorem receive_placed (now : Int) (hresolve : host.resolve root a.files chunk.path = some p)
    (hoffset : 0 ≤ chunk.offset) (hpath : chunk.path.length ≤ kMaxStringSize)
    (hensure : ensureParent a.files p = some files) (h : Placed files p)
    (hopens : host.opens files p = true) :
    ∃ r, receive host root now chunk a =
      (⟨FileTree.put files p.names (body (fileAt a.files p.names) chunk now),
        a.progress.advance chunk⟩, .ok r) ∧ r.success = true := by
  obtain ⟨push, hpush⟩ : ∃ push, notified (a.progress.advance chunk) = .ok push := notified_ok hpath
  have hsame := (ensureParent_some hensure).fileAt p.names
  unfold receive receiveChunk
  rw [if_neg (by omega), hresolve]
  dsimp only
  rw [hensure]
  dsimp only
  rw [writeChunk_placed h hopens, hsame]
  dsimp only
  rw [hpush]
  exact ⟨_, rfl, rfl⟩

/-- What the chunks of a file leave of a content. -/
def uploaded (old : Option Bytes) (file : Bytes) : Option Bytes :=
  if file = [] then old
  else if file.length ≤ kUploadChunkSize then some file
  else some (file ++ (old.getD []).drop file.length)

theorem uploaded_eq_iff (old : Option Bytes) (file : Bytes) : uploaded old file = some file ↔
    (file = [] ∧ old = some []) ∨
      (file ≠ [] ∧ (file.length ≤ kUploadChunkSize ∨ (old.getD []).length ≤ file.length)) := by
  unfold uploaded
  by_cases hnil : file = []
  · subst hnil
    simp
  · rw [if_neg hnil]
    split
    · next hone => simp [hnil, hone]
    · next hmany =>
      simp only [hnil, false_and, hmany, false_or, ne_eq, not_false_eq_true, true_and]
      rw [Option.some.injEq, List.append_right_eq_self, List.drop_eq_nil_iff]

variable (hname : name.length ≤ kMaxStringSize)
  (hresolve : ∀ files, host.resolve root files name = some p)
  (hopens : ∀ files, host.opens files p = true)
include hname hresolve hopens

/-- Chunks behind the first are written one behind the other. -/
theorem uploadParts_rest {old pre : Bytes} (ps : List Bytes) (hps : ∀ part ∈ ps, part ≠ [])
    (hpre : pre ≠ []) (a : Agent) (h : Placed a.files p)
    (hcontent : contentAt a.files p.names = some (Splice.splice 0 0 pre old)) (fileSize : Nat) :
    ∃ a', uploadParts (receive host root now) name fileSize pre.length ps a = (a', .ok true) ∧
      Placed a'.files p ∧
      contentAt a'.files p.names = some (Splice.splice 0 0 (pre ++ ps.flatten) old) ∧
      ∀ names, names ≠ p.names → contentAt a'.files names = contentAt a.files names := by
  induction ps generalizing pre a with
  | nil =>
    refine ⟨a, rfl, h, ?_, fun _ _ => rfl⟩
    rw [List.flatten_nil, List.append_nil]
    exact hcontent
  | cons part ps ih =>
    obtain ⟨hpart, hps⟩ := List.forall_mem_cons.mp hps
    let chunk : FileChunk := ⟨name, pre.length, part, decide (fileSize ≤ pre.length + part.length)⟩
    have hensure : ensureParent a.files p = some a.files := by
      rw [ensureParent, h.parent]
      rfl
    have hres : host.resolve root a.files chunk.path = some p := hresolve a.files
    obtain ⟨r, hreceive, hsuccess⟩ :=
      receive_placed now hres (Int.natCast_nonneg _) hname hensure h (hopens a.files)
    have hstored : stored (contentAt a.files p.names) chunk =
        Splice.splice 0 0 (pre ++ part) old := by
      have hpos := List.length_pos_iff.mpr hpre
      have hnotfresh : ¬ (chunk.offset = 0 ∧ chunk.isFinal) := fun hc => by
        have hzero : (pre.length : Int) = 0 := hc.1
        omega
      rw [stored, if_neg hnotfresh, if_neg hpart, hcontent, Option.getD_some]
      show Splice.splice 0 pre.length part _ = _
      rw [← Splice.splice_append, Nat.zero_add]
    let next : Files := FileTree.put a.files p.names (body (fileAt a.files p.names) chunk now)
    have hnext : ∀ names, contentAt next names =
        if names = p.names then some (Splice.splice 0 0 (pre ++ part) old)
        else contentAt a.files names := fun names => by
      rw [contentAt_put h.names_ne, body_content, ← contentAt_eq, hstored]
    obtain ⟨a', hrun, hplaced, hcontent', hframe⟩ := ih hps
      (List.append_ne_nil_of_left_ne_nil hpre _) ⟨next, a.progress.advance chunk⟩ (h.put _)
      ((hnext p.names).trans (if_pos rfl))
    refine ⟨a', ?_, hplaced, ?_, fun names hn => ?_⟩
    · rw [uploadParts, hreceive]
      dsimp only
      rw [if_pos hsuccess, ← List.length_append]
      exact hrun
    · rw [hcontent', List.flatten_cons, List.append_assoc]
    · exact (hframe names hn).trans ((hnext names).trans (if_neg hn))

/-- The whole upload succeeds, and no other file is touched. -/
theorem uploadFile_contents (now : Int) (hensure : ensureParent a.files p = some files)
    (h : Placed files p)
    (file : Bytes) :
    ∃ a', uploadFile host root now file name a = (a', .ok true) ∧
      (file = [] ∧ a' = a ∨ Placed a'.files p) ∧
      contentAt a'.files p.names = uploaded (contentAt a.files p.names) file ∧
      ∀ names, names ≠ p.names → contentAt a'.files names = contentAt a.files names := by
  have hready := ensureParent_some hensure
  unfold uploaded uploadFile
  by_cases hnil : file = []
  · subst hnil
    rw [if_pos rfl]
    exact ⟨a, rfl, .inl ⟨rfl, rfl⟩, rfl, fun _ _ => rfl⟩
  rw [if_neg hnil, parts_cons (by decide) hnil]
  let part := file.take kUploadChunkSize
  let chunk : FileChunk := ⟨name, (0 : Nat), part, decide (file.length ≤ 0 + part.length)⟩
  let next : Files := FileTree.put files p.names (body (fileAt a.files p.names) chunk now)
  have hres : host.resolve root a.files chunk.path = some p := hresolve a.files
  obtain ⟨r, hreceive, hsuccess⟩ :=
    receive_placed now hres (Int.le_refl 0) hname hensure h (hopens files)
  have hplaced : Placed next p := h.put _
  have hnext : ∀ names, contentAt next names =
      if names = p.names then some (stored (contentAt a.files p.names) chunk)
      else contentAt a.files names := fun names => by
    rw [contentAt_put h.names_ne, body_content, ← contentAt_eq, contentAt_eq files,
      hready.fileAt, ← contentAt_eq]
  have hframe : ∀ names, names ≠ p.names → contentAt next names = contentAt a.files names :=
    fun names hn => (hnext names).trans (if_neg hn)
  have hpart : part ≠ [] := fun he =>
    (List.take_eq_nil_iff.mp he).elim (fun hc => by cases hc) hnil
  have hfirst : ∀ rest, uploadParts (receive host root now) name file.length 0 (part :: rest) a =
      uploadParts (receive host root now) name file.length part.length rest
        ⟨next, a.progress.advance chunk⟩ := fun rest => by
    rw [uploadParts, hreceive]
    dsimp only
    rw [if_pos hsuccess, Nat.zero_add]
  by_cases hone : file.length ≤ kUploadChunkSize
  · -- the only chunk is final and at offset 0
    have htake : part = file := List.take_of_length_le hone
    have hfresh : chunk.offset = 0 ∧ chunk.isFinal := ⟨rfl, decide_eq_true (by rw [htake]; omega)⟩
    rw [if_pos hone, List.drop_of_length_le hone, parts_nil]
    refine ⟨⟨next, a.progress.advance chunk⟩, hfirst [], .inr hplaced, ?_, hframe⟩
    rw [hnext, if_pos rfl, stored, if_pos hfresh]
    exact congrArg some htake
  · have hlen : part.length = kUploadChunkSize := by
      rw [List.length_take]
      omega
    have hnotfresh : ¬ (chunk.offset = 0 ∧ chunk.isFinal) := fun hc => by
      have hle := of_decide_eq_true hc.2
      rw [hlen] at hle
      omega
    have hcontent : contentAt next p.names =
        some (Splice.splice 0 0 part ((contentAt a.files p.names).getD [])) := by
      rw [hnext, if_pos rfl, stored, if_neg hnotfresh, if_neg hpart]
      rfl
    obtain ⟨hflat, hparts⟩ := flatten_parts (n := kUploadChunkSize) (by decide)
      (file.drop kUploadChunkSize)
    obtain ⟨a', hrun, hplaced', hcontent', hframe'⟩ := uploadParts_rest hname hresolve hopens _
      (fun q hq => (hparts q hq).1) hpart ⟨next, a.progress.advance chunk⟩ hplaced hcontent
      file.length
    refine ⟨a', (hfirst _).trans hrun, .inr hplaced', ?_, fun names hn =>
      (hframe' names hn).trans (hframe names hn)⟩
    rw [hcontent', if_neg hone, hflat, List.take_append_drop, Splice.splice_zero]

omit hname in
/-- What the client compares is the content, and that there is a file. -/
theorem verified_eq (mac : Mac) (hslash : p.slash = false)
    (hfree : node a.files p.names ≠ some .directory) (file : Bytes) :
    verified host root mac file name a = .ok (decide (contentAt a.files p.names = some file)) := by
  have hhex : ∀ tag : HmacTag, hmacToHex tag ≠ [] := fun tag he => by
    have hlen := congrArg List.length he
    rw [hmacToHex, List.length_flatMap] at hlen
    simp [tag.length_eq, kHmacTagSize] at hlen
  unfold verified
  cases hfile : fileAt a.files p.names with
  | none =>
    have hnode : node a.files p.names = none := by
      cases hn : node a.files p.names with
      | none => rfl
      | some x =>
        cases x with
        | directory => exact absurd hn hfree
        | file f => rw [fileAt_eq_some_iff.mpr hn] at hfile; cases hfile
    have hstatus : status a.files p = none := by rw [status, hnode]
    have hcontent : contentAt a.files p.names = none := by rw [contentAt_eq, hfile]; rfl
    have hinfo : (getFileInfo host root name a).size = 0 := by
      rw [getFileInfo, hresolve, Option.bind_some, hstatus]
    have hsum : computeChecksum host root mac name a = .ok [] := by
      rw [computeChecksum, hresolve]
      dsimp only
      rw [hstatus]
    rw [hinfo, hsum, hcontent]
    dsimp only
    rw [if_pos (hhex _), decide_eq_false (by simp)]
    split
    · rfl
    · rfl
  | some f =>
    have hstatus : status a.files p = some (.file f) := by
      rw [status, fileAt_eq_some_iff.mp hfile]
      dsimp only
      rw [hslash, if_neg Bool.false_ne_true]
    have hcontent : contentAt a.files p.names = some f.content := by rw [contentAt_eq, hfile]; rfl
    have hinfo : (getFileInfo host root name a).size = f.content.length := by
      rw [getFileInfo, hresolve, Option.bind_some, hstatus]
    have hsum : computeChecksum host root mac name a =
        .ok (hmacToHex (mac kChecksumKey f.content)) := by
      rw [computeChecksum, hresolve]
      dsimp only
      rw [hstatus]
      dsimp only
      rw [if_pos (hopens _)]
      rfl
    rw [hinfo, hsum, hcontent, streamBack_eq, readable_file (hresolve _) hstatus (hopens _)]
    dsimp only
    by_cases he : f.content = file
    · rw [he, if_neg (by simp), if_neg (by simp), decide_eq_true rfl]
      simp [Except.map]
    · rw [decide_eq_false fun hc => he (Option.some.inj hc)]
      split
      · rfl
      split
      · rfl
      · simp [Except.map, he]

end

/-- Tags that tell nothing apart. -/
def blindMac : Mac := fun _ _ => ⟨List.replicate 8 0, rfl⟩

end Song.Backup
