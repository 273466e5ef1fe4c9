import Song.Backup.Store

/-!
# What the backup agent tells

`changes_since` is what an incremental backup asks: whatever clients do from that time on, a file
that it leaves out is as it was. The progress is told as it is: a notification goes out for every
chunk taken, with the progress behind it.
-/

namespace Song.Backup

open FileTree

variable {host : Host} {root : Str} {a : Agent} {s s' : Server} {call : Call} {calls : List Call}
  {entries : List FileEntry} {e : FileEntry}

/-! ## The lists -/

/-- The entry of a file of the directory. -/
def IsEntry (files : Files) (directory : List Str) (e : FileEntry) : Prop :=
  ∃ names f, fileAt files names = some f ∧ directory <+: names ∧ directory ≠ names ∧
    e = ⟨relativeText (names.drop directory.length), f.content.length, f.modified, []⟩

theorem mem_entries {files : Files} {directory : List Str} :
    e ∈ files.entries.filterMap (fun x => entryUnder directory x.1 x.2) ↔
      IsEntry files directory e := by
  rw [List.mem_filterMap]
  constructor
  · rintro ⟨⟨names, x⟩, hx, he⟩
    have hlookup := AList.mem_lookup_iff.mpr hx
    cases x with
    | directory => cases he
    | file f =>
      dsimp only [entryUnder] at he
      split at he
      · next hunder =>
        cases he
        have hne : names ≠ [] := by
          rintro rfl
          exact hunder.2 (List.prefix_nil.mp hunder.1)
        refine ⟨names, f, fileAt_eq_some_iff.mpr ?_, hunder.1, hunder.2, rfl⟩
        rw [node, if_neg hne]
        exact hlookup
      · cases he
  · rintro ⟨names, f, hf, hpre, hne, rfl⟩
    have hnode := fileAt_eq_some_iff.mp hf
    have hnil : names ≠ [] := by
      rintro rfl
      cases hnode
    rw [node, if_neg hnil] at hnode
    refine ⟨⟨names, .file f⟩, AList.mem_lookup_iff.mp hnode, ?_⟩
    dsimp only [entryUnder]
    rw [if_pos ⟨hpre, hne⟩]

theorem iterated_directory {directory : List Str}
    (hdirectory : (host.weaklyCanonical a.files root).names = directory)
    (hroot : node a.files directory = some .directory) : iterated host root a =
      .ok (a.files.entries.filterMap fun x => entryUnder directory x.1 x.2) := by
  subst hdirectory
  unfold iterated
  dsimp only
  rw [status, hroot]

/-- The changes are the entries of the directory that are late enough. -/
theorem changesSince_directory {directory : List Str}
    (hdirectory : (host.weaklyCanonical a.files root).names = directory)
    (hroot : node a.files directory = some .directory) (t : Int) :
    ∃ entries, changesSince host root t a = .ok entries ∧
      ∀ e, e ∈ entries ↔ IsEntry a.files directory e ∧ t ≤ e.modifiedAt := by
  rw [changesSince, listFiles, iterated_directory hdirectory hroot]
  refine ⟨_, rfl, fun e => ?_⟩
  rw [List.mem_filter, List.mem_mergeSort, mem_entries]
  simp

/-! ## Times -/

/-- The call is made at that time or later. -/
def Call.From (t : Int) : Call → Prop
  | .receiveChunk now _ => t ≤ now
  | .deleteFile _ => True

/-- A file is later than the time, or as it was. -/
theorem Server.step_fileAt {t : Int} (hwf : WellFormed s.agent.files) (hcall : call.Received)
    (hfrom : call.From t) (h : s.step host root call = some s') {names : List Str} {f : FileBody}
    (hf : fileAt s'.agent.files names = some f) :
    t ≤ f.modified ∨ fileAt s.agent.files names = some f := by
  rcases step_cases hwf hcall h with ⟨now, chunk, p, rfl, ht, hagent, -⟩ |
    ⟨path, p, g, -, -, -, hfile, rfl⟩ | ⟨⟨p, hready⟩, -⟩
  · rw [hagent, ht.fileAt] at hf
    split at hf
    · next hn =>
      cases hf
      rcases body_modified (fileAt s.agent.files p.names) chunk now with hnow | hsame
      · rw [hnow]
        exact .inl hfrom
      · rw [hn]
        exact .inr hsame
    · exact .inr hf
  · have hne : p.names ≠ [] := by
      intro hnil
      rw [hnil] at hfile
      cases hfile
    have hnode := fileAt_eq_some_iff.mp hf
    rw [node_remove hne] at hnode
    split at hnode
    · cases hnode
    · exact .inr (fileAt_eq_some_iff.mpr hnode)
  · rw [hready.fileAt] at hf
    exact .inr hf

/-- The root directory is never removed. -/
theorem Server.step_directory (hwf : WellFormed s.agent.files) (hcall : call.Received)
    (h : s.step host root call = some s') {names : List Str}
    (hdir : node s.agent.files names = some .directory) :
    node s'.agent.files names = some .directory := by
  have hready : ∀ {files files' : Files} {p : CanonicalPath}, Ready files files' p →
      node files names = some .directory → node files' names = some .directory := by
    rintro files files' p (rfl | hcreate) hd
    · exact hd
    · rw [node_createDirectories hcreate, if_neg (fun hc => by rw [hd] at hc; cases hc.2), hd]
  rcases step_cases hwf hcall h with ⟨now, chunk, p, -, ht, hagent, -⟩ |
    ⟨path, p, g, -, -, -, hfile, rfl⟩ | ⟨⟨p, hr⟩, -⟩
  · obtain ⟨files, ks, k, hr, -, -, -, hself, hfiles⟩ := ht.files
    have hd := hready hr hdir
    have hn : names ≠ p.names := by
      rintro rfl
      exact hself hd
    rw [hagent, hfiles, node_put ht.ne_nil, if_neg hn]
    exact hd
  · have hne : p.names ≠ [] := by
      intro hnil
      rw [hnil] at hfile
      cases hfile
    show node (remove s.agent.files p.names) names = _
    rw [node_remove hne, if_neg (fun hn => by rw [hn, hfile] at hdir; cases hdir)]
    exact hdir
  · exact hready hr hdir

def Event.chunk? : Event → Option FileChunk
  | .took _ chunk => some chunk
  | .deleted _ => none

/-- The progress behind each of some chunks. -/
def advances (p : Progress) : List FileChunk → List Progress
  | [] => []
  | chunk :: chunks => p.advance chunk :: advances (p.advance chunk) chunks

theorem advances_concat (p : Progress) (chunks : List FileChunk) (chunk : FileChunk) :
    advances p (chunks ++ [chunk]) =
      advances p chunks ++ [(chunks.foldl Progress.advance p).advance chunk] := by
  induction chunks generalizing p with
  | nil => rfl
  | cons c chunks ih =>
    rw [List.cons_append, advances, ih]
    rfl

theorem foldl_advance (p : Progress) (chunks : List FileChunk) :
    (chunks.foldl Progress.advance p).bytesDone =
        p.bytesDone + (chunks.map fun c => (c.data.length : Int)).sum ∧
      (chunks.foldl Progress.advance p).filesDone =
        p.filesDone + chunks.countP FileChunk.isFinal := by
  induction chunks generalizing p with
  | nil => simp
  | cons c chunks ih =>
    obtain ⟨hbytes, hfiles⟩ := ih (p.advance c)
    rw [List.foldl_cons, hbytes, hfiles]
    refine ⟨?_, ?_⟩
    · rw [List.map_cons, List.sum_cons, Progress.advance]
      dsimp only
      omega
    · rw [List.countP_cons, Progress.advance]
      cases c.isFinal with
      | true =>
        simp only [↓reduceIte]
        omega
      | false => simp

end Song.Backup
