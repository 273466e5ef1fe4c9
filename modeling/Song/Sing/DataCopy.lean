import Mathlib.Algebra.BigOperators.Group.Multiset.Basic
import Song.Error
import Song.Lib.Map
import Song.Lib.Run
import Song.Lib.Splice

/-!
# The data copy service (`datacopy_service.cpp`)

A map from names to files, which grow as their chunks come. What the service is for is told by the
history: the chunks that a file has taken since it was last removed (`ledger`). A byte of the file
is what the last chunk over it has there, and zero where no chunk came.
-/

namespace Song.DataCopy

structure StoredFile where
  data : Bytes
  complete : Bool
  deriving DecidableEq

structure FileChunk where
  filename : Str
  offset : Int
  data : Bytes
  isFinal : Bool
  deriving DecidableEq

structure WriteResult where
  success : Bool
  bytesWritten : Int
  totalReceived : Int
  deriving DecidableEq

structure ReadResult where
  found : Bool
  data : Bytes
  size : Int
  deriving DecidableEq

structure FileInfo where
  filename : Str
  size : Int
  complete : Bool
  deriving DecidableEq

/-- `m_files`. -/
abbrev Files := Map Str StoredFile

def badAlloc : Exn := .runtimeError (lit "std::bad_alloc")

/-! ## Operations -/

/-- `memory` is whether a `resize` finds memory. The name is entered before it is known whether the
chunk can be stored. Without a result the behaviour is undefined: the sum overflows, or the data is
copied to before the file's begin. -/
def writeChunk (chunk : FileChunk) (memory : Bool) (files : Files) :
    Option (Except Exn WriteResult × Files) :=
  let file := (files.lookup chunk.filename).getD ⟨[], false⟩
  let requiredSize := chunk.offset + chunk.data.length
  if chunk.offset < 0 ∨ 2 ^ 63 ≤ requiredSize then none
  else if (file.data.length : Int) < requiredSize ∧ memory = false then
    some (.error badAlloc, files.insert chunk.filename file)
  else
    let data := overwrite chunk.offset.toNat chunk.data
      (Splice.extend 0 requiredSize.toNat file.data)
    some (.ok ⟨true, chunk.data.length, data.length⟩,
      files.insert chunk.filename ⟨data, file.complete || chunk.isFinal⟩)

def readFile (filename : Str) (files : Files) : ReadResult :=
  match files.lookup filename with
  | none => ⟨false, [], 0⟩
  | some file => ⟨true, file.data, file.data.length⟩

def getFileInfo (filename : Str) (files : Files) : FileInfo :=
  match files.lookup filename with
  | none => ⟨filename, 0, false⟩
  | some file => ⟨filename, file.data.length, file.complete⟩

/-- In the order of the `unordered_map`, which is left open. -/
def listFiles (files : Files) : Multiset FileInfo :=
  (files.entries.map fun e => (⟨e.1, e.2.data.length, e.2.complete⟩ : FileInfo) : List FileInfo)

def deleteFile (filename : Str) (files : Files) : Bool × Files :=
  ((files.lookup filename).isSome, files.erase filename)

def clearAll (files : Files) : Int × Files :=
  ((Int32.ofNat files.entries.length).toInt, ∅)

def fileExists (filename : Str) (files : Files) : Bool := (files.lookup filename).isSome

def getStorageUsed (files : Files) : Int :=
  (files.entries.map fun e => (e.2.data.length : Int)).sum

/-! ## Runs -/

/-- The operations that change the files. -/
inductive Operation where
  | writeChunk (chunk : FileChunk) (memory : Bool)
  | deleteFile (filename : Str)
  | clearAll

def step (files : Files) : Operation → Option Files
  | .writeChunk chunk memory => (writeChunk chunk memory files).map Prod.snd
  | .deleteFile filename => some (deleteFile filename files).2
  | .clearAll => some (clearAll files).2

/-! ## What the service is for -/

def FileChunk.write (chunk : FileChunk) : Splice.Write UInt8 := ⟨chunk.offset.toNat, chunk.data⟩

/-- The chunks a file has taken since it was last removed; the file is there if it was named by
one, taken or not. -/
def note (name : Str) (taken : Option (List FileChunk)) : Operation → Option (List FileChunk)
  | .writeChunk chunk memory =>
    if chunk.filename = name then
      if Splice.reach ((taken.getD []).map FileChunk.write) < chunk.write.stop ∧ memory = false then
        some (taken.getD [])
      else some (taken.getD [] ++ [chunk])
    else taken
  | .deleteFile filename => if filename = name then none else taken
  | .clearAll => none

def ledger (name : Str) (ops : List Operation) : Option (List FileChunk) :=
  ops.foldl (note name) none

/-- The file that some chunks make. -/
def fileOf (chunks : List FileChunk) : StoredFile :=
  ⟨Splice.contents 0 [] (chunks.map FileChunk.write), chunks.any FileChunk.isFinal⟩

/-! ## Steps -/

variable {files files' : Files} {name : Str} {chunk : FileChunk} {memory : Bool}

theorem overwrite_extend (off n : Nat) (piece xs : Bytes) (hn : n = off + piece.length) :
    overwrite off piece (Splice.extend 0 n xs) = Splice.splice 0 off piece xs := by
  have hlen := @Splice.length_extend _ (0 : UInt8) xs n
  have htake : Splice.extend (0 : UInt8) off (Splice.extend 0 n xs) = Splice.extend 0 n xs := by
    rw [Splice.extend, show off - (Splice.extend (0 : UInt8) n xs).length = 0 by omega,
      List.replicate_zero, List.append_nil]
  have hsplice := @Splice.splice_extend _ (0 : UInt8) xs off n piece (by omega)
  rw [← hsplice, Splice.splice, htake]
  rfl

/-- A chunk that is taken is written, one that is not leaves the file as it is. -/
theorem writeChunk_cases {out : Except Exn WriteResult}
    (h : writeChunk chunk memory files = some (out, files')) :
    0 ≤ chunk.offset ∧ ∃ file, (files.lookup chunk.filename).getD ⟨[], false⟩ = file ∧
      ((file.data.length < chunk.write.stop ∧ memory = false ∧ out = .error badAlloc ∧
          files' = files.insert chunk.filename file) ∨
        ¬ (file.data.length < chunk.write.stop ∧ memory = false) ∧
          ∃ data, data = Splice.splice 0 chunk.write.off chunk.write.piece file.data ∧
            out = .ok ⟨true, chunk.data.length, data.length⟩ ∧
            files' = files.insert chunk.filename ⟨data, file.complete || chunk.isFinal⟩) := by
  unfold writeChunk at h
  dsimp only at h
  split at h
  · cases h
  next hdef =>
  obtain ⟨hoff, -⟩ := not_or.mp hdef
  have hstop : (chunk.write.stop : Int) = chunk.offset + chunk.data.length := by
    simp only [FileChunk.write, Splice.Write.stop]
    omega
  refine ⟨Int.not_lt.mp hoff, _, rfl, ?_⟩
  rw [← hstop] at h
  split at h
  · next hfull =>
    cases h
    exact .inl ⟨Int.ofNat_lt.mp hfull.1, hfull.2, rfl, rfl⟩
  · next hroom =>
    cases h
    refine .inr ⟨fun hfull => hroom ⟨Int.ofNat_lt.mpr hfull.1, hfull.2⟩, ?_⟩
    rw [Int.toNat_natCast]
    exact ⟨_, overwrite_extend _ _ _ _ rfl, rfl, rfl⟩

/-- One operation, seen from one name. -/
theorem lookup_step {op : Operation} (h : step files op = some files')
    {taken : Option (List FileChunk)} (hname : files.lookup name = taken.map fileOf) :
    files'.lookup name = (note name taken op).map fileOf := by
  cases op with
  | writeChunk chunk memory =>
    obtain ⟨⟨out, files''⟩, hw, rfl⟩ := Option.map_eq_some_iff.mp h
    obtain ⟨-, file, hfile, hcase⟩ := writeChunk_cases hw
    rw [note]
    by_cases hn : chunk.filename = name
    · subst hn
      have hof : file = fileOf (taken.getD []) := by
        rw [← hfile, hname]
        cases taken with
        | none => rfl
        | some chunks => rfl
      have hlen : file.data.length =
          Splice.reach ((taken.getD []).map FileChunk.write) := by
        rw [hof, fileOf, Splice.length_contents]
        exact Nat.zero_max _
      rw [if_pos rfl, ← hlen]
      rcases hcase with ⟨hlt, hm, -, rfl⟩ | ⟨hroom, _, rfl, -, rfl⟩
      · rw [if_pos ⟨hlt, hm⟩, AList.lookup_insert, hof]
        rfl
      · rw [if_neg hroom, AList.lookup_insert, hof, Option.map_some]
        congr 1
        rw [fileOf, fileOf, List.map_append, List.map_singleton, Splice.contents_concat,
          List.any_append, List.any_cons, List.any_nil, Bool.or_false]
    · rw [if_neg hn]
      rcases hcase with ⟨-, -, -, rfl⟩ | ⟨-, _, -, -, rfl⟩
      · rw [AList.lookup_insert_ne (Ne.symm hn), hname]
      · rw [AList.lookup_insert_ne (Ne.symm hn), hname]
  | deleteFile filename =>
    cases h
    rw [note, deleteFile]
    by_cases hn : filename = name
    · subst hn
      rw [if_pos rfl, AList.lookup_erase]
      rfl
    · rw [if_neg hn, AList.lookup_erase_ne (Ne.symm hn), hname]
  | clearAll =>
    cases h
    rfl

/-! ## Runs from an empty service -/

theorem lookup_run {ops : List Operation} (h : Lts.follow step ∅ ops = some files) (name : Str) :
    files.lookup name = (ledger name ops).map fileOf := by
  have hrun : Lts.Run step (fun _ _ => True) ∅ ops files :=
    Lts.Run.nil.follow (fun _ _ _ => trivial) h
  refine hrun.induction (fun ops files => files.lookup name = (ledger name ops).map fileOf) rfl ?_
  intro ops files op files' ih _ hstep
  rw [ledger, List.foldl_append]
  exact lookup_step hstep ih

/-- What the queries answer after some operations. -/
structure Accounts (ops : List Operation) (files : Files) : Prop where
  absent : ∀ name, ledger name ops = none →
    readFile name files = ⟨false, [], 0⟩ ∧ fileExists name files = false
  present : ∀ name chunks, ledger name ops = some chunks → fileExists name files = true ∧
    ∃ data, readFile name files = ⟨true, data, data.length⟩ ∧
      data.length = Splice.reach (chunks.map FileChunk.write) ∧
      (∀ i, data.getD i 0 = (Splice.lastAt (chunks.map FileChunk.write) i).getD 0) ∧
      getFileInfo name files = ⟨name, data.length, chunks.any FileChunk.isFinal⟩
  listed : ∀ info, info ∈ listFiles files ↔
    fileExists info.filename files = true ∧ info = getFileInfo info.filename files
  once : ((listFiles files).map FileInfo.filename).Nodup
  used : getStorageUsed files = ((listFiles files).map FileInfo.size).sum

theorem mem_listFiles {info : FileInfo} : info ∈ listFiles files ↔
    fileExists info.filename files = true ∧ info = getFileInfo info.filename files := by
  rw [listFiles, Multiset.mem_coe, List.mem_map, fileExists, getFileInfo]
  constructor
  · rintro ⟨⟨name, file⟩, he, rfl⟩
    rw [AList.mem_lookup_iff.mpr he]
    exact ⟨rfl, rfl⟩
  · rintro ⟨hsome, hinfo⟩
    obtain ⟨file, hfile⟩ := Option.isSome_iff_exists.mp hsome
    rw [hfile] at hinfo
    exact ⟨⟨info.filename, file⟩, AList.mem_lookup_iff.mp hfile, hinfo.symm⟩

/-- After whatever operations, a file has the bytes of the last chunks over them, as far as its
chunks reach, and the files listed are those that are there. -/
theorem run_accounts (ops : List Operation) (files : Files)
    (h : Lts.follow step ∅ ops = some files) : Accounts ops files where
  absent name hname := by
    have hlookup := lookup_run h name
    rw [hname] at hlookup
    rw [readFile, fileExists, hlookup]
    exact ⟨rfl, rfl⟩
  present name chunks hname := by
    have hlookup := lookup_run h name
    rw [hname] at hlookup
    refine ⟨by rw [fileExists, hlookup]; rfl, (fileOf chunks).data, ?_, ?_, fun i => ?_, ?_⟩
    · rw [readFile, hlookup]
      rfl
    · rw [fileOf, Splice.length_contents]
      exact Nat.zero_max _
    · rw [fileOf, Splice.getD_contents]
      rfl
    · rw [getFileInfo, hlookup]
      rfl
  listed _ := mem_listFiles
  once := by
    have hkeys := AList.keys_nodup files
    rw [listFiles, Multiset.map_coe, Multiset.coe_nodup, List.map_map]
    exact hkeys
  used := by
    rw [getStorageUsed, listFiles, Multiset.map_coe, Multiset.sum_coe, List.map_map]
    rfl

/-- The end of `f` comes first, and a chunk of `g` before its beginning. -/
def interleaved : List Operation :=
  [.writeChunk ⟨lit "f", 2, [3], true⟩ true, .writeChunk ⟨lit "g", 0, [9], true⟩ true,
    .writeChunk ⟨lit "f", 0, [1, 2], false⟩ false]

theorem run_accounts_interleaved :
    ∃ files, Lts.follow step ∅ interleaved = some files ∧ Accounts interleaved files :=
  ⟨_, rfl, run_accounts _ _ rfl⟩

/-- However a file's chunks come, with chunks of other files between them, in any order and some of
them again: when all of them are parts of a whole and together cover it, the whole is read. -/
theorem run_reassembles (ops : List Operation) (files : Files)
    (h : Lts.follow step ∅ ops = some files) (name : Str) (whole : Bytes) (chunks : List FileChunk)
    (hname : ledger name ops = some chunks) (hof : ∀ chunk ∈ chunks, chunk.write.Of whole)
    (hcover : ∀ i < whole.length, ∃ chunk ∈ chunks, (chunk.write.at? i).isSome) :
    readFile name files = ⟨true, whole, whole.length⟩ ∧
      getFileInfo name files = ⟨name, whole.length, chunks.any FileChunk.isFinal⟩ := by
  have hlookup := lookup_run h name
  have hwhole : (fileOf chunks).data = whole := by
    refine Splice.contents_eq_of_cover (List.forall_mem_map.mpr hof) fun i hi => ?_
    obtain ⟨chunk, hchunk, hat⟩ := hcover i hi
    exact ⟨chunk.write, List.mem_map_of_mem hchunk, hat⟩
  rw [hname] at hlookup
  rw [readFile, getFileInfo, hlookup, ← hwhole]
  exact ⟨rfl, rfl⟩

theorem run_reassembles_interleaved : ∃ files, Lts.follow step ∅ interleaved = some files ∧
    readFile (lit "f") files = ⟨true, [1, 2, 3], 3⟩ ∧
    getFileInfo (lit "f") files = ⟨lit "f", 3, true⟩ := by
  refine ⟨_, rfl, run_reassembles interleaved _ rfl (lit "f") [1, 2, 3] _ rfl ?_ (by decide)⟩
  exact List.forall_mem_cons.mpr ⟨@Splice.Write.of_part _ [1, 2, 3] 2 1 (by decide),
    List.forall_mem_singleton.mpr (@Splice.Write.of_part _ [1, 2, 3] 0 2 (by decide))⟩

end Song.DataCopy
