import Song.Runtime.State

/-!
# Stream writers (`stream.hpp`, `stream.cpp`)

A `StreamWriter` sends chunks on its port and a `stream_end` once. `runStream`
runs a stream dispatcher's tree against a writer; the writer survives whatever
the dispatcher throws, as the reference the runtime holds does.
-/

namespace Song

structure StreamWriter where
  port : Port
  sequenceId : UInt32
  ended : Bool
  deriving DecidableEq

variable {σ ω : Type} (env : Env σ ω)

namespace StreamWriter

def create (port : Port) (sequenceId : UInt32) : StreamWriter := ⟨port, sequenceId, false⟩

/-- What a `write` throws once the stream has ended. -/
def writeAfterEnd : Exn := .serviceError (lit "StreamWriter: cannot write after stream ended")

def write (w : StreamWriter) (chunk : Bytes) : Srv σ ω Unit :=
  if w.ended then throw writeAfterEnd
  else
    let msg := createStreamMessage w.sequenceId chunk
    match w.port with
    | .transport tp => transportSend env tp msg
    | .fd n =>
      if 0 ≤ n then do
        let written ← writeAll env n msg
        if written then pure () else throw (.serviceError (lit "StreamWriter: write failed"))
      else pure ()

def abort (w : StreamWriter) : StreamWriter := { w with ended := true }

/-- The send of `end()`; the descriptor path ignores a failed write. -/
def sendEnd (w : StreamWriter) : Srv σ ω Unit :=
  let msg := createStreamEndMessage w.sequenceId
  match w.port with
  | .transport tp => transportSend env tp msg
  | .fd n =>
    if 0 ≤ n then do
      let _ ← writeAll env n msg
      pure ()
    else pure ()

/-- `end()`. The flag is set before the send, which may throw. -/
def finish (w : StreamWriter) : StreamWriter × Srv σ ω Unit :=
  if w.ended then (w, pure ()) else (w.abort, w.sendEnd env)

/-- The destructor. -/
def destroy (w : StreamWriter) : Srv σ ω Unit :=
  if w.ended then pure () else quietly (w.sendEnd env)

theorem returns_destroy (w : StreamWriter) (s : Rt σ ω) : Eff.Returns (w.destroy env) s := by
  unfold destroy
  split
  · exact .of_ok rfl
  · exact .of_ok (quietly_run _ s)

end StreamWriter

/-- A dispatcher's run on a writer: the exception it ends with if any, the writer
and the runtime state it leaves. -/
def runStream : StreamRun σ → StreamWriter → Rt σ ω → Option Exn × StreamWriter × Rt σ ω
  | .write chunk next, w, s =>
    match (w.write env chunk).run s with
    | .ok _ s' => runStream (next none) w s'
    | .error e s' => runStream (next (some e)) w s'
  | .finish next, w, s =>
    match (w.finish env).2.run s with
    | .ok _ s' => runStream (next none) (w.finish env).1 s'
    | .error e s' => runStream (next (some e)) (w.finish env).1 s'
  | .push p next, w, s =>
    match (notify env p).run s with
    | .ok _ s' => runStream next w s'
    | .error _ s' => runStream next w s'
  | .returns user, w, s => (none, w, { s with user := user })
  | .throws user e, w, s => (some e, w, { s with user := user })

end Song
