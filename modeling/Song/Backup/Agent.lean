import Mathlib.Data.List.Sort
import Song.Backup
import Song.Buffer.Primitives
import Song.Lib.FileTree
import Song.Lib.Splice
import Song.Runtime.State
import Song.Security

/-!
# The backup agent (`backup_service.cpp`: `BackupAgentImpl`)

The agent keeps files under a root directory, for any number of clients: it takes their chunks,
says what it has, removes a file, and tells its progress to who subscribed. `Host` is what it relies
on: what the file system makes of a path, and which files can be opened. A stream that opens writes
what it is given.
-/

namespace Song.Backup

open FileTree

/-! ## The file system -/

structure FileBody where
  content : Bytes
  /-- Unix milliseconds. -/
  modified : Int
  deriving DecidableEq

abbrev Files := Tree Str FileBody

structure Host where
  weaklyCanonical : Files → Str → CanonicalPath
  opens : Files → CanonicalPath → Bool
  /-- What a stream on a directory reads, or throws. -/
  directoryRead : Except Exn Bytes
  /-- The texts of what `create_directories` and a directory iterator throw. -/
  cannotCreate : CanonicalPath → Str
  cannotIterate : CanonicalPath → Str

def Host.readAll (host : Host) : Node FileBody → Except Exn Bytes
  | .file f => .ok f.content
  | .directory => host.directoryRead

/-- What a path leads to; behind a separator only a directory. -/
def status (files : Files) (p : CanonicalPath) : Option (Node FileBody) :=
  match node files p.names with
  | some (.file f) => if p.slash then none else some (.file f)
  | found => found

/-- `parent_path`. -/
def CanonicalPath.parent (p : CanonicalPath) : List Str :=
  if p.slash then p.names else p.names.dropLast

def Host.resolve (host : Host) (root : Str) (files : Files) (rel : Str) : Option CanonicalPath :=
  safeResolve (host.weaklyCanonical files) root rel

/-! ## The interface -/

structure FileEntry where
  path : Str
  size : Int
  modifiedAt : Int
  checksum : Str
  deriving DecidableEq

structure FileChunk where
  path : Str
  offset : Int
  data : Bytes
  isFinal : Bool
  deriving DecidableEq

structure ChunkResult where
  success : Bool
  bytesWritten : Int
  totalReceived : Int
  deriving DecidableEq

structure Progress where
  currentFile : Str
  filesDone : Int
  filesTotal : Int
  bytesDone : Int
  bytesTotal : Int
  status : Int
  deriving DecidableEq

def encodeProgress (p : Progress) : Except Exn Bytes := do
  let currentFile ← encodeString p.currentFile
  return currentFile ++ encodeI32 (.ofInt p.filesDone) ++ encodeI32 (.ofInt p.filesTotal) ++
    encodeI64 (.ofInt p.bytesDone) ++ encodeI64 (.ofInt p.bytesTotal) ++ encodeI32 (.ofInt p.status)

structure Agent where
  files : Files
  progress : Progress

def kTypeBackupAgent : UInt32 := 1
def kObjectBackupAgent : Int32 := 0
def kPropProgress : UInt16 := 1
def kStreamChunkSize : Nat := 65536

/-! ## Receiving -/

/-- What a file is once a stream has written to it. -/
def FileBody.written (off : Nat) (data : Bytes) (now : Int) (f : FileBody) : FileBody :=
  if data = [] then f else ⟨Splice.splice 0 off data f.content, now⟩

/-- Open the file, seek and write; `none` where it does not open. -/
def writeChunk (host : Host) (now : Int) (files : Files) (p : CanonicalPath) (chunk : FileChunk) :
    Option Files :=
  match status files p with
  | some .directory => none
  | some (.file f) =>
    if host.opens files p then
      -- an offset-0 final chunk truncates, anything else leaves what is behind it
      if chunk.offset = 0 ∧ chunk.isFinal then some (put files p.names ⟨chunk.data, now⟩)
      else some (put files p.names (f.written chunk.offset.toNat chunk.data now))
    else none
  | none =>
    if node files p.parent = some .directory ∧ p.slash = false ∧ host.opens files p then
      some (put files p.names ((FileBody.mk [] now).written chunk.offset.toNat chunk.data now))
    else none

/-- Create parent directories if needed. -/
def ensureParent (files : Files) (p : CanonicalPath) : Option Files :=
  if (node files p.parent).isSome then some files else createDirectories files p.parent

def fileSize (files : Files) (p : CanonicalPath) : Int :=
  match status files p with
  | some (.file f) => f.content.length
  | _ => 0

def Progress.advance (p : Progress) (chunk : FileChunk) : Progress :=
  { p with
    currentFile := chunk.path
    bytesDone := p.bytesDone + chunk.data.length
    filesDone := if chunk.isFinal then p.filesDone + 1 else p.filesDone }

/-- `notify_progress`. -/
def notified (progress : Progress) : Except Exn Push :=
  (encodeProgress progress).map fun value =>
    ⟨kTypeBackupAgent, kObjectBackupAgent, kPropProgress, value⟩

def rejected : ChunkResult := ⟨false, 0, 0⟩

section
variable (host : Host) (root : Str)

def receiveChunk (now : Int) (chunk : FileChunk) (a : Agent) : Ran Agent Push ChunkResult :=
  if chunk.offset < 0 then ⟨a, [], .ok rejected⟩
  else
    match host.resolve root a.files chunk.path with
    | none => ⟨a, [], .ok rejected⟩
    | some p =>
      match ensureParent a.files p with
      | none => .throw a (.runtimeError (host.cannotCreate p))
      | some files =>
        match writeChunk host now files p chunk with
        | none => ⟨{ a with files }, [], .ok rejected⟩
        | some files =>
          let progress := a.progress.advance chunk
          match notified progress with
          | .error e => .throw ⟨files, progress⟩ e
          | .ok push =>
            ⟨⟨files, progress⟩, [push], .ok ⟨true, chunk.data.length, fileSize files p⟩⟩

/-! ## The other operations -/

def getFileInfo (path : Str) (a : Agent) : FileEntry :=
  match (host.resolve root a.files path).bind (status a.files) with
  | some (.file f) => ⟨path, f.content.length, f.modified, []⟩
  | _ => ⟨path, 0, 0, []⟩

def fileExists (path : Str) (a : Agent) : Bool :=
  ((host.resolve root a.files path).bind (status a.files)).any Node.isFile

def deleteFile (path : Str) (a : Agent) : Bool × Agent :=
  match host.resolve root a.files path with
  | none => (false, a)
  | some p =>
    match status a.files p with
    | some (.file _) => (true, { a with files := remove a.files p.names })
    | _ => (false, a)

/-- The text of a path, from the directory it is relative to. -/
def relativeText (names : List Str) : Str := [separator].intercalate names

/-- The entry of a file in the directory with the names. -/
def entryUnder (directory names : List Str) : Node FileBody → Option FileEntry
  | .file f =>
    if directory <+: names ∧ directory ≠ names then
      some ⟨relativeText (names.drop directory.length), f.content.length, f.modified, []⟩
    else none
  | .directory => none

/-- What the directory iterator goes through. -/
def iterated (a : Agent) : Except Exn (List FileEntry) :=
  let directory := host.weaklyCanonical a.files root
  match status a.files directory with
  | none => .ok []
  | some (.file _) => .error (.runtimeError (host.cannotIterate directory))
  | some .directory =>
    .ok (a.files.entries.filterMap fun e => entryUnder directory.names e.1 e.2)

def listFiles (a : Agent) : Except Exn (List FileEntry) :=
  (iterated host root a).map fun entries =>
    entries.mergeSort fun x y => decide (x.path ≤ y.path)

def changesSince (timestampMs : Int) (a : Agent) : Except Exn (List FileEntry) :=
  (listFiles host root a).map fun all => all.filter fun fe => timestampMs ≤ fe.modifiedAt

def getStorageUsed (a : Agent) : Except Exn Int :=
  (iterated host root a).map fun entries => (entries.map FileEntry.size).sum

def hexDigit (n : Nat) : UInt8 := if n < 10 then 48 + .ofNat n else 87 + .ofNat n

/-- `hmac_to_hex`. -/
def hmacToHex (tag : HmacTag) : Str :=
  tag.bytes.flatMap fun b => [hexDigit (b.toNat / 16), hexDigit (b.toNat % 16)]

def kChecksumKey : Str := lit "song-backup-checksum-key-32byte!"

def computeChecksum (mac : Mac) (path : Str) (a : Agent) : Except Exn Str :=
  match host.resolve root a.files path with
  | none => .ok []
  | some p =>
    match status a.files p with
    | none => .ok []
    | some found =>
      if host.opens a.files p then
        (host.readAll found).map fun content => hmacToHex (mac kChecksumKey content)
      else .ok []

/-- The parts of a content, as they are read into a buffer of size `n`. -/
def parts (n : Nat) (content : Bytes) : List Bytes := go content.length content
where
  go : Nat → Bytes → List Bytes
    | 0, _ => []
    | fuel + 1, rest => if rest = [] then [] else rest.take n :: go fuel (rest.drop n)

/-- The loop of `stream_file`. -/
def writeParts (a : Agent) : List Bytes → StreamRun Agent
  | [] => .returns a
  | part :: rest =>
    match encodeBytes part with
    | .error e => .throws a e
    | .ok chunk => .write chunk fun thrown =>
      match thrown with
      | none => writeParts a rest
      | some e => .throws a e

def streamFile (path : Str) (a : Agent) : StreamRun Agent :=
  match host.resolve root a.files path with
  | none => .returns a
  | some p =>
    match status a.files p with
    | some (.file f) =>
      if host.opens a.files p then writeParts a (parts kStreamChunkSize f.content) else .returns a
    | _ => .returns a

end

end Song.Backup
