import Song.Backup.Agent
import Song.Lib.Run

/-!
# What the backup agent keeps

Clients send chunks and remove files in any order. The history of the agent (`Event`) tells which
chunks it took and which files it removed, as its answers say; a file's content is what the events
on its path make of it (`replay`), and nothing else in the file system changes but directories that
are made.
-/

namespace Song.Backup

open FileTree

/-! ## The history -/

inductive Event where
  | took (names : List Str) (chunk : FileChunk)
  | deleted (names : List Str)

def Event.names : Event → List Str
  | .took names _ => names
  | .deleted names => names

/-- What a chunk makes of a content. -/
def stored (old : Option Bytes) (chunk : FileChunk) : Bytes :=
  if chunk.offset = 0 ∧ chunk.isFinal then chunk.data
  else if chunk.data = [] then old.getD []
  else Splice.splice 0 chunk.offset.toNat chunk.data (old.getD [])

/-- What an event makes of the content at `names`. -/
def Event.apply (names : List Str) (old : Option Bytes) : Event → Option Bytes
  | .took ks chunk => if ks = names then some (stored old chunk) else old
  | .deleted ks => if ks = names then none else old

def replay (names : List Str) (old : Option Bytes) (events : List Event) : Option Bytes :=
  events.foldl (Event.apply names) old

def contentAt (files : Files) (names : List Str) : Option Bytes :=
  match node files names with
  | some (.file f) => some f.content
  | _ => none

structure Server where
  agent : Agent
  events : List Event
  pushed : List Push

inductive Call where
  | receiveChunk (now : Int) (chunk : FileChunk)
  | deleteFile (path : Str)

section
variable (host : Host) (root : Str)

/-- The event of a chunk: it was taken if the answer says so. -/
def taken (chunk : FileChunk) (a : Agent) : Except Exn ChunkResult → List Event
  | .ok r =>
    match host.resolve root a.files chunk.path with
    | some p => if r.success then [.took p.names chunk] else []
    | none => []
  | .error _ => []

def removed (path : Str) (a : Agent) (answer : Bool) : List Event :=
  match host.resolve root a.files path with
  | some p => if answer then [.deleted p.names] else []
  | none => []

def Server.step (s : Server) : Call → Option Server
  | .receiveChunk now chunk =>
    let ran := receiveChunk host root now chunk s.agent
    some ⟨ran.state, s.events ++ taken host root chunk s.agent ran.out, s.pushed ++ ran.pushed⟩
  | .deleteFile path =>
    let answer := deleteFile host root path s.agent
    some ⟨answer.2, s.events ++ removed host root path s.agent answer.1, s.pushed⟩

/-- The path of a chunk comes out of a message. -/
def Call.Received : Call → Prop
  | .receiveChunk _ chunk => chunk.path.length ≤ kMaxStringSize
  | .deleteFile _ => True

end

/-! ## What a call does -/

section
variable {host : Host} {root : Str} {now : Int} {chunk : FileChunk} {a : Agent} {files : Files}
  {p : CanonicalPath} {names : List Str}

/-- The file that a chunk makes of one that is there or not. -/
def body (old : Option FileBody) (chunk : FileChunk) (now : Int) : FileBody :=
  match old with
  | some f =>
    if chunk.offset = 0 ∧ chunk.isFinal then ⟨chunk.data, now⟩
    else f.written chunk.offset.toNat chunk.data now
  | none => (FileBody.mk [] now).written chunk.offset.toNat chunk.data now

def fileAt (files : Files) (names : List Str) : Option FileBody :=
  match node files names with
  | some (.file f) => some f
  | _ => none

theorem fileAt_eq_some_iff {f : FileBody} :
    fileAt files names = some f ↔ node files names = some (.file f) := by
  unfold fileAt
  cases node files names with
  | none => simp
  | some x =>
    cases x with
    | file g => simp
    | directory => simp

theorem fileAt_put {f : FileBody} (h : names ≠ []) (ms : List Str) :
    fileAt (put files names f) ms = if ms = names then some f else fileAt files ms := by
  unfold fileAt
  rw [node_put h]
  by_cases hm : ms = names
  · rw [if_pos hm, if_pos hm]
  · rw [if_neg hm, if_neg hm]

theorem contentAt_eq (files : Files) (names : List Str) :
    contentAt files names = (fileAt files names).map FileBody.content := by
  unfold contentAt fileAt
  cases node files names with
  | none => rfl
  | some x => cases x <;> rfl

theorem contentAt_put {f : FileBody} (h : names ≠ []) (ms : List Str) :
    contentAt (put files names f) ms =
      if ms = names then some f.content else contentAt files ms := by
  rw [contentAt_eq, fileAt_put h, contentAt_eq]
  by_cases hm : ms = names
  · rw [if_pos hm, if_pos hm]
    rfl
  · rw [if_neg hm, if_neg hm]

theorem body_content (old : Option FileBody) (chunk : FileChunk) (now : Int) :
    (body old chunk now).content = stored (old.map FileBody.content) chunk := by
  unfold body stored FileBody.written
  cases old with
  | some f =>
    by_cases hfresh : chunk.offset = 0 ∧ chunk.isFinal
    · simp [hfresh]
    · by_cases hdata : chunk.data = []
      · simp [hfresh, hdata]
      · simp [hfresh, hdata]
  | none =>
    by_cases hdata : chunk.data = []
    · simp [hdata]
    · by_cases hfresh : chunk.offset = 0 ∧ chunk.isFinal
      · simp [hfresh, hdata, Splice.splice_zero]
      · simp [hfresh, hdata]

/-- Written later than the chunk's time, or as it was. -/
theorem body_modified (old : Option FileBody) (chunk : FileChunk) (now : Int) :
    (body old chunk now).modified = now ∨ old = some (body old chunk now) := by
  unfold body FileBody.written
  cases old with
  | some f =>
    dsimp only
    split
    · exact .inl rfl
    · split
      · exact .inr rfl
      · exact .inl rfl
  | none =>
    dsimp only
    split
    · exact .inl rfl
    · exact .inl rfl

theorem contentAt_congr {files files' : Files} (h : node files' names = node files names) :
    contentAt files' names = contentAt files names := by
  rw [contentAt, contentAt, h]

/-- A chunk is written over a file or beside others in a directory. -/
theorem writeChunk_some {files' : Files} (hwf : WellFormed files)
    (h : writeChunk host now files p chunk = some files') :
    ∃ ks k, p.names = ks ++ [k] ∧ p.slash = false ∧ node files ks = some .directory ∧
      node files p.names ≠ some .directory ∧
      files' = put files p.names (body (fileAt files p.names) chunk now) := by
  have hnames : p.slash = false → ∃ ks k, p.names = ks ++ [k] := by
    intro hslash
    rcases List.eq_nil_or_concat p.names with hnil | ⟨ks, k, hk⟩
    · rw [p.root hnil] at hslash
      cases hslash
    · exact ⟨ks, k, hk.trans List.concat_eq_append⟩
  unfold writeChunk status at h
  cases hn : node files p.names with
  | none =>
    rw [hn] at h
    dsimp only at h
    split at h
    · next hcond =>
      cases h
      obtain ⟨hparent, hslash, -⟩ := hcond
      obtain ⟨ks, k, hk⟩ := hnames hslash
      rw [CanonicalPath.parent, hslash, if_neg Bool.false_ne_true, hk, List.dropLast_concat]
        at hparent
      refine ⟨ks, k, hk, hslash, hparent, (fun hc => by cases hc), ?_⟩
      rw [fileAt, hn]
      rfl
    · cases h
  | some x =>
    rw [hn] at h
    cases x with
    | directory => cases h
    | file f =>
      dsimp only at h
      cases hslash : p.slash with
      | true =>
        -- nothing is at a file's name with a separator behind it, and the name is no directory
        rw [hslash, if_pos rfl] at h
        dsimp only at h
        rw [if_neg (fun hc => by cases hc.2.1)] at h
        cases h
      | false =>
        rw [hslash, if_neg Bool.false_ne_true] at h
        dsimp only at h
        obtain ⟨ks, k, hk⟩ := hnames hslash
        have hparent : node files ks = some .directory := hwf ks k (by rw [← hk, hn]; rfl)
        refine ⟨ks, k, hk, rfl, hparent, (fun hc => by cases hc), ?_⟩
        rw [fileAt, hn]
        unfold body
        dsimp only
        split at h
        · split at h
          · next hfresh =>
            cases h
            rw [if_pos hfresh]
          · next hfresh =>
            cases h
            rw [if_neg hfresh]
        · cases h

theorem notified_ok {progress : Progress} (h : progress.currentFile.length ≤ kMaxStringSize) :
    ∃ push, notified progress = .ok push := by
  rw [notified, encodeProgress, encodeString, if_neg (by omega)]
  exact ⟨_, rfl⟩

/-- The directories of a path are there. -/
def Ready (files files' : Files) (p : CanonicalPath) : Prop :=
  files' = files ∨ createDirectories files p.parent = some files'

theorem ensureParent_some {files' : Files} (h : ensureParent files p = some files') :
    Ready files files' p := by
  unfold ensureParent at h
  split at h
  · cases h
    exact .inl rfl
  · exact .inr h

theorem Ready.wellFormed {files' : Files} (h : Ready files files' p) (hwf : WellFormed files) :
    WellFormed files' := by
  rcases h with rfl | h
  · exact hwf
  · exact hwf.createDirectories h

theorem Ready.fileAt {files' : Files} (h : Ready files files' p) (names : List Str) :
    fileAt files' names = fileAt files names := by
  rcases h with rfl | h
  · rfl
  · refine Option.ext fun f => ?_
    rw [fileAt_eq_some_iff, fileAt_eq_some_iff, createDirectories_file h]

/-- The chunk was not taken, and no file is touched. -/
structure Refuses (a : Agent) (ran : Ran Agent Push ChunkResult) : Prop where
  progress : ran.state.progress = a.progress
  files : ∃ p, Ready a.files ran.state.files p
  pushed : ran.pushed = []
  answer : ∀ r, ran.out = .ok r → r.success = false

/-- The chunk was taken, and the file it is of is written. -/
structure Takes (host : Host) (root : Str) (now : Int) (chunk : FileChunk) (a : Agent)
    (ran : Ran Agent Push ChunkResult) (p : CanonicalPath) : Prop where
  resolved : host.resolve root a.files chunk.path = some p
  offset : 0 ≤ chunk.offset
  files : ∃ files ks k, Ready a.files files p ∧ p.names = ks ++ [k] ∧ p.slash = false ∧
    node files ks = some .directory ∧ node files p.names ≠ some .directory ∧
    ran.state.files = put files p.names (body (fileAt a.files p.names) chunk now)
  progress : ran.state.progress = a.progress.advance chunk
  pushed : ∃ push, notified ran.state.progress = .ok push ∧ ran.pushed = [push]
  answer : ran.out = .ok ⟨true, chunk.data.length,
    (stored (contentAt a.files p.names) chunk).length⟩

theorem receiveChunk_cases (host : Host) (root : Str) (now : Int) (hwf : WellFormed a.files)
    (hpath : chunk.path.length ≤ kMaxStringSize) :
    Refuses a (receiveChunk host root now chunk a) ∨
      ∃ p, Takes host root now chunk a (receiveChunk host root now chunk a) p := by
  have hself : ∀ out, (∀ r, out = Except.ok r → r.success = false) →
      Refuses a (⟨a, [], out⟩ : Ran Agent Push ChunkResult) := fun out hout =>
    ⟨rfl, ⟨⟨[], true, fun _ h => (by cases h), fun _ => rfl⟩, .inl rfl⟩, rfl, hout⟩
  have hrejected : ∀ r, (.ok rejected : Except Exn ChunkResult) = .ok r → r.success = false := by
    intro r hr
    cases hr
    rfl
  unfold receiveChunk
  by_cases hoffset : chunk.offset < 0
  · rw [if_pos hoffset]
    exact .inl (hself _ hrejected)
  rw [if_neg hoffset]
  cases hresolve : host.resolve root a.files chunk.path with
  | none => exact .inl (hself _ hrejected)
  | some p =>
    dsimp only
    cases hensure : ensureParent a.files p with
    | none => exact .inl (hself _ fun _ h => by cases h)
    | some files =>
      dsimp only
      have hready := ensureParent_some hensure
      cases hwrite : writeChunk host now files p chunk with
      | none => exact .inl ⟨rfl, ⟨p, hready⟩, rfl, hrejected⟩
      | some files' =>
        dsimp only
        obtain ⟨ks, k, hk, hslash, hdir, hself', hfiles⟩ :=
          writeChunk_some (hready.wellFormed hwf) hwrite
        rw [hready.fileAt] at hfiles
        obtain ⟨push, hpush⟩ : ∃ push, notified (a.progress.advance chunk) = .ok push :=
          notified_ok hpath
        rw [hpush]
        refine .inr ⟨p, hresolve, by omega,
          ⟨files, ks, k, hready, hk, hslash, hdir, hself', hfiles⟩,
          rfl, ⟨push, hpush, rfl⟩, ?_⟩
        have hne : p.names ≠ [] := by
          rw [hk]
          exact List.concat_ne_nil _ _
        rw [fileSize, status, hfiles, node_put hne, if_pos rfl]
        dsimp only
        rw [hslash, if_neg Bool.false_ne_true, contentAt_eq, ← body_content]

theorem Takes.ne_nil {ran : Ran Agent Push ChunkResult} (h : Takes host root now chunk a ran p) :
    p.names ≠ [] := by
  obtain ⟨_, ks, k, -, hk, -⟩ := h.files
  rw [hk]
  exact List.concat_ne_nil _ _

theorem Takes.wellFormed {ran : Ran Agent Push ChunkResult}
    (h : Takes host root now chunk a ran p) (hwf : WellFormed a.files) :
    WellFormed ran.state.files := by
  obtain ⟨files, ks, k, hready, hk, -, hdir, hself, hfiles⟩ := h.files
  rw [hk] at hself hfiles
  rw [hfiles]
  exact (hready.wellFormed hwf).put hdir hself

/-- Every file but its own is as it was. -/
theorem Takes.fileAt {ran : Ran Agent Push ChunkResult} (h : Takes host root now chunk a ran p)
    (names : List Str) : fileAt ran.state.files names =
      if names = p.names then some (body (fileAt a.files p.names) chunk now)
      else fileAt a.files names := by
  obtain ⟨files, ks, k, hready, -, -, -, -, hfiles⟩ := h.files
  rw [← hready.fileAt names, hfiles, fileAt_put h.ne_nil]

/-- A removed file is gone, and everything else as it was. -/
theorem deleteFile_cases (host : Host) (root path : Str) (a : Agent) :
    deleteFile host root path a = (false, a) ∨
      ∃ p f, host.resolve root a.files path = some p ∧ p.slash = false ∧
        node a.files p.names = some (.file f) ∧
        deleteFile host root path a = (true, { a with files := remove a.files p.names }) := by
  unfold deleteFile
  cases hresolve : host.resolve root a.files path with
  | none => exact .inl rfl
  | some p =>
    dsimp only
    cases hstatus : status a.files p with
    | none => exact .inl rfl
    | some x =>
      cases x with
      | directory => exact .inl rfl
      | file f =>
        unfold status at hstatus
        cases hn : node a.files p.names with
        | none => rw [hn] at hstatus; cases hstatus
        | some y =>
          rw [hn] at hstatus
          cases y with
          | directory => cases hstatus
          | file g =>
            cases hslash : p.slash with
            | true =>
              rw [hslash] at hstatus
              cases hstatus
            | false =>
              rw [hslash] at hstatus
              cases hstatus
              exact .inr ⟨p, _, rfl, hslash, hn, rfl⟩

end

/-! ## Runs -/

section
variable {host : Host} {root : Str} {s s' s₀ : Server} {call : Call} {calls : List Call}

/-- A call that takes a chunk, removes a file, or touches no file. -/
theorem step_cases (hwf : WellFormed s.agent.files) (hcall : call.Received)
    (h : s.step host root call = some s') :
    (∃ now chunk p, call = .receiveChunk now chunk ∧
        Takes host root now chunk s.agent (receiveChunk host root now chunk s.agent) p ∧
        s'.agent = (receiveChunk host root now chunk s.agent).state ∧
        s'.events = s.events ++ [.took p.names chunk] ∧
        s'.pushed = s.pushed ++ (receiveChunk host root now chunk s.agent).pushed) ∨
      (∃ path p f, call = .deleteFile path ∧ host.resolve root s.agent.files path = some p ∧
        p.slash = false ∧ node s.agent.files p.names = some (.file f) ∧
        s' = ⟨{ s.agent with files := remove s.agent.files p.names },
          s.events ++ [.deleted p.names], s.pushed⟩) ∨
      (∃ p, Ready s.agent.files s'.agent.files p) ∧ s'.agent.progress = s.agent.progress ∧
        s'.events = s.events ∧ s'.pushed = s.pushed := by
  cases call with
  | receiveChunk now chunk =>
    cases h
    rcases receiveChunk_cases host root now hwf hcall with
      hr | ⟨p, ht⟩
    · refine .inr (.inr ⟨hr.files, hr.progress, ?_, ?_⟩)
      · have hnone : taken host root chunk s.agent
            (receiveChunk host root now chunk s.agent).out = [] := by
          unfold taken
          cases hout : (receiveChunk host root now chunk s.agent).out with
          | error e => rfl
          | ok r =>
            dsimp only
            rw [hr.answer r hout]
            cases host.resolve root s.agent.files chunk.path <;> rfl
        dsimp only
        rw [hnone, List.append_nil]
      · dsimp only
        rw [hr.pushed, List.append_nil]
    · refine .inl ⟨now, chunk, p, rfl, ht, rfl, ?_, rfl⟩
      have hone : taken host root chunk s.agent
          (receiveChunk host root now chunk s.agent).out = [.took p.names chunk] := by
        unfold taken
        rw [ht.answer]
        dsimp only
        rw [ht.resolved]
        rfl
      dsimp only
      rw [hone]
  | deleteFile path =>
    cases h
    rcases deleteFile_cases host root path s.agent with he | ⟨p, f, hresolve, hslash, hfile, he⟩
    · rw [he]
      refine .inr (.inr ⟨?_, rfl, ?_, rfl⟩)
      · exact ⟨⟨[], true, fun _ h => (by cases h), fun _ => rfl⟩, .inl rfl⟩
      dsimp only
      unfold removed
      cases host.resolve root s.agent.files path with
      | none => exact List.append_nil _
      | some p => exact List.append_nil _
    · rw [he]
      refine .inr (.inl ⟨path, p, f, rfl, hresolve, hslash, hfile, ?_⟩)
      rw [removed, hresolve]
      rfl

theorem Server.step_wellFormed (hwf : WellFormed s.agent.files) (hcall : call.Received)
    (h : s.step host root call = some s') : WellFormed s'.agent.files := by
  rcases step_cases hwf hcall h with ⟨now, chunk, p, -, ht, hagent, -⟩ |
    ⟨path, p, f, -, -, -, hfile, rfl⟩ | ⟨⟨p, hready⟩, -⟩
  · rw [hagent]
    exact ht.wellFormed hwf
  · exact hwf.remove hfile
  · exact hready.wellFormed hwf

/-- What one call makes of the content at `names`. -/
theorem Server.step_contentAt (hwf : WellFormed s.agent.files) (hcall : call.Received)
    (h : s.step host root call = some s') (names : List Str) :
    ∃ new, s'.events = s.events ++ new ∧ contentAt s'.agent.files names =
      replay names (contentAt s.agent.files names) new := by
  rcases step_cases hwf hcall h with ⟨now, chunk, p, -, ht, hagent, hevents, -⟩ |
    ⟨path, p, f, -, -, -, hfile, rfl⟩ | ⟨⟨p, hready⟩, -, hevents, -⟩
  · refine ⟨_, hevents, ?_⟩
    rw [hagent, contentAt_eq, ht.fileAt, contentAt_eq]
    show _ = Event.apply names _ (.took p.names chunk)
    rw [Event.apply]
    by_cases hn : names = p.names
    · subst hn
      rw [if_pos rfl, if_pos rfl, Option.map_some, body_content]
    · rw [if_neg hn, if_neg (Ne.symm hn)]
  · refine ⟨_, rfl, ?_⟩
    have hne : p.names ≠ [] := by
      intro hnil
      rw [hnil] at hfile
      cases hfile
    show contentAt (remove s.agent.files p.names) names = Event.apply names _ (.deleted p.names)
    rw [Event.apply]
    by_cases hn : names = p.names
    · subst hn
      rw [if_pos rfl, contentAt, node_remove hne, if_pos rfl]
    · rw [if_neg (Ne.symm hn)]
      exact contentAt_congr (by rw [node_remove hne, if_neg hn])
  · refine ⟨[], by rw [hevents, List.append_nil], ?_⟩
    rw [contentAt_eq, hready.fileAt, ← contentAt_eq]
    rfl

/-- What every run keeps, and makes of the files. -/
theorem run_contents (hwf : WellFormed s₀.agent.files)
    (h : Lts.Run (Server.step host root) (fun _ call => call.Received) s₀ calls s) :
    WellFormed s.agent.files ∧ ∃ new, s.events = s₀.events ++ new ∧
      ∀ names, contentAt s.agent.files names =
        replay names (contentAt s₀.agent.files names) new := by
  refine h.induction (fun _ s => WellFormed s.agent.files ∧ ∃ new, s.events = s₀.events ++ new ∧
    ∀ names, contentAt s.agent.files names = replay names (contentAt s₀.agent.files names) new)
    ⟨hwf, [], (List.append_nil _).symm, fun _ => rfl⟩ ?_
  rintro calls s call s' ⟨hwf, new, hevents, hcontent⟩ hcall hstep
  refine ⟨Server.step_wellFormed hwf hcall hstep, ?_⟩
  obtain ⟨more, hmore, -⟩ := Server.step_contentAt hwf hcall hstep []
  refine ⟨new ++ more, by rw [hmore, hevents, List.append_assoc], fun names => ?_⟩
  obtain ⟨more', hmore', hstep'⟩ := Server.step_contentAt hwf hcall hstep names
  cases List.append_cancel_left (hmore.symm.trans hmore')
  rw [hstep', hcontent, replay, replay, replay, List.foldl_append]

/-- The path of a new event lies under the text of the root directory. -/
theorem Server.step_under {rootText : Str}
    (hroot : ∀ files, (host.weaklyCanonical files root).string = rootText)
    (hwf : WellFormed s.agent.files) (hcall : call.Received)
    (h : s.step host root call = some s') :
    ∃ new, s'.events = s.events ++ new ∧
      ∀ e ∈ new, ∃ t, t ≠ [] ∧ spell e.names = rootText ++ t := by
  have hunder : ∀ {rel : Str} {p : CanonicalPath},
      host.resolve root s.agent.files rel = some p → p.slash = false →
        ∃ t, t ≠ [] ∧ spell p.names = rootText ++ t := by
    intro rel p hresolve hslash
    obtain ⟨-, -, t, ht, htext⟩ := safeResolve_eq_some_iff.mp hresolve
    rw [hroot, CanonicalPath.string, hslash, if_neg Bool.false_ne_true, List.append_nil] at htext
    exact ⟨t, ht, htext⟩
  rcases step_cases hwf hcall h with ⟨now, chunk, p, -, ht, -, hevents, -⟩ |
    ⟨path, p, f, -, hresolve, hslash, -, rfl⟩ | ⟨-, -, hevents, -⟩
  · refine ⟨_, hevents, fun e he => ?_⟩
    rw [List.mem_singleton.mp he]
    obtain ⟨_, _, _, -, -, hslash, -⟩ := ht.files
    exact hunder ht.resolved hslash
  · refine ⟨_, rfl, fun e he => ?_⟩
    rw [List.mem_singleton.mp he]
    exact hunder hresolve hslash
  · exact ⟨[], by rw [hevents, List.append_nil], fun e he => by cases he⟩

theorem replay_of_forall_ne {names : List Str} {old : Option Bytes} {events : List Event}
    (h : ∀ e ∈ events, e.names ≠ names) : replay names old events = old := by
  induction events generalizing old with
  | nil => rfl
  | cons e events ih =>
    obtain ⟨he, hevents⟩ := List.forall_mem_cons.mp h
    have hsame : Event.apply names old e = old := by
      cases e with
      | took ks chunk => exact if_neg he
      | deleted ks => exact if_neg he
    show replay names (Event.apply names old e) events = old
    rw [hsame, ih hevents]

end

/-! ### Two chunks -/

theorem proper_file : ∀ n ∈ [lit "r", lit "f"],
    n ≠ [] ∧ separator ∉ n ∧ n ≠ lit "." ∧ n ≠ lit ".." := by decide

theorem proper_root : ∀ n ∈ [lit "r"],
    n ≠ [] ∧ separator ∉ n ∧ n ≠ lit "." ∧ n ≠ lit ".." := by decide

theorem file_not_root : [lit "r", lit "f"] = [] → false = true := by decide

theorem directory_not_root : [lit "r"] = [] → false = true := by decide

/-- The root directory is `/r`, and the path is `f`. -/
def plainHost : Host where
  weaklyCanonical _ text :=
    if text = lit "/r/f" then ⟨[lit "r", lit "f"], false, proper_file, file_not_root⟩
    else ⟨[lit "r"], false, proper_root, directory_not_root⟩
  opens _ _ := true
  directoryRead := .ok []
  cannotCreate _ := []
  cannotIterate _ := []

def idle : Progress := ⟨[], 0, 0, 0, 0, 0⟩

def emptyAgent : Agent := ⟨AList.singleton [lit "r"] .directory, idle⟩

theorem wellFormed_emptyAgent : WellFormed emptyAgent.files := by
  intro names n h
  cases names with
  | nil => rfl
  | cons m names =>
    have hne : (m :: names) ++ [n] ≠ [lit "r"] := by simp
    have hnone : node emptyAgent.files ((m :: names) ++ [n]) = none := by
      unfold node
      rw [if_neg (by simp)]
      exact (AList.lookup_insert_ne hne).trans (AList.lookup_empty _)
    rw [hnone] at h
    cases h

/-- The chunk behind comes first. -/
def twoChunks : List Call :=
  [.receiveChunk 5 ⟨lit "f", 2, [7, 8], false⟩, .receiveChunk 6 ⟨lit "f", 0, [1, 2], false⟩]

end Song.Backup
