import Song.Lib.Run
import Song.Process.Descriptors

/-!
# Programs that hold descriptors

Objects are created, moved, closed and destroyed in any order. At every moment the descriptors that
they hold are open, each held once, and no others of theirs are; and nothing is ever closed that is
not open (`descriptors_held`).
-/

namespace Song.Descriptors

open Holdings (Store Open Turns Sure)

/-- What holds descriptors. -/
inductive Obj where
  | pipe (p : Pipe)
  | pipeTransport (t : PipeTransport)
  | tcp (t : TcpTransport)
  | listener (l : TcpListener)
  | tls (t : TlsTransport)
  | tlsListener (l : TlsListener)
  | process (p : ServiceProcess)

namespace Obj

def fds : Obj → List Nat
  | pipe p => p.fds
  | pipeTransport t => t.fds
  | tcp t => t.fds
  | listener l => l.fds
  | tls t => t.fds
  | tlsListener l => l.fds
  | process p => p.fds

/-- `close()`, where there is one. -/
def close : Obj → Option (Sys (List Obj))
  | pipe p => some do
    p.close
    return [.pipe p.closed]
  | pipeTransport t => some do
    t.close
    return [.pipeTransport t.closed]
  | tcp t => some do
    t.close
    return [.tcp t.closed]
  | listener l => some do
    l.close
    return [.listener l.closed]
  | tls t => some do
    t.close
    return [.tls t.closed]
  | tlsListener l => some do
    l.close
    return [.tlsListener l.closed]
  | process _ => none

def destroy : Obj → Sys Unit
  | pipe p => p.destroy
  | pipeTransport t => t.destroy
  | tcp t => t.destroy
  | listener l => l.destroy
  | tls t => t.destroy
  | tlsListener l => l.destroy
  | process p => p.destroy

/-- The object that is moved from, after the move. -/
def movedFrom : Obj → Option Obj
  | pipe _ => some (.pipe .none)
  | pipeTransport _ => some (.pipeTransport ⟨.none, .none⟩)
  | tcp t => some (.tcp { t with sock := -1, peerPort := 0 })
  | listener _ => some (.listener .none)
  | tls _ => some (.tls .none)
  | tlsListener _ => none
  | process _ => some (.process ⟨.none, .none⟩)

/-- `operator=` between objects of one class. -/
def moveAssign : Obj → Obj → Option (Sys (List Obj))
  | pipe p, pipe other => some do
    let r ← p.moveAssign other
    return [.pipe r.1, .pipe r.2]
  | pipeTransport t, pipeTransport other => some do
    let r ← t.moveAssign other
    return [.pipeTransport r.1, .pipeTransport r.2]
  | tcp t, tcp other => some do
    let r ← t.moveAssign other
    return [.tcp r.1, .tcp r.2]
  | listener l, listener other => some do
    let r ← l.moveAssign other
    return [.listener r.1, .listener r.2]
  | tls t, tls other => some do
    let r ← t.moveAssign other
    return [.tls r.1, .tls r.2]
  | process p, process other => some do
    let r ← p.moveAssign other
    return [.process r.1, .process r.2]
  | _, _ => none

end Obj

/-- What a program does. The objects are numbered, in an order that no one relies on. -/
inductive Label where
  | createPair (fails : Bool)
  | tcpTransport
  | tcpListener
  | tlsListener
  /-- The constructor of a pipe transport, from two pipes. -/
  | pipeTransport (toPeer fromPeer : Nat)
  | spawn (how : SpawnEnd)
  | connect (i : Nat) (host : Str) (port : UInt16) (how : ConnectEnd)
  | listen (i : Nat) (port : UInt16) (bindAddress : Str) (how : ListenEnd)
  | accept (i : Nat) (how : AcceptEnd)
  | tlsListen (i : Nat) (port : UInt16) (how : ListenEnd)
  | tlsAccept (i : Nat) (how : AcceptEnd) (next : TlsAccept)
  | closeRead (i : Nat)
  | closeWrite (i : Nat)
  | close (i : Nat)
  | destroy (i : Nat)
  | move (i : Nat)
  | moveAssign (i j : Nat)

/-- An object, and the others. -/
def pick (objs : List Obj) (i : Nat) : Option (Obj × List Obj) :=
  objs[i]?.map fun o => (o, objs.eraseIdx i)

/-- What is done, with the objects that come of it; and the objects that take no part. -/
def act (objs : List Obj) : Label → Option (Sys (List Obj) × List Obj)
  | .createPair fails => some (do
      let r ← Pipe.createPair fails
      return [.pipe r.1, .pipe r.2], objs)
  | .tcpTransport => some (pure [.tcp .none], objs)
  | .tcpListener => some (pure [.listener .none], objs)
  | .tlsListener => some (pure [.tlsListener .none], objs)
  | .pipeTransport toPeer fromPeer =>
    match pick objs toPeer with
    | some (.pipe p, rest) =>
      match pick rest fromPeer with
      | some (.pipe q, rest) =>
        some (pure [.pipeTransport ⟨p, q⟩, .pipe .none, .pipe .none], rest)
      | _ => none
    | _ => none
  | .spawn how => some (do
      let p ← ServiceProcess.spawn how
      return [.process p], objs)
  | .connect i host port how =>
    match pick objs i with
    | some (.tcp t, rest) => some (do
        let r ← t.connect host port how
        return [.tcp r.1], rest)
    | _ => none
  | .listen i port bindAddress how =>
    match pick objs i with
    | some (.listener l, rest) => some (do
        let r ← l.listen port bindAddress how
        return [.listener r.1], rest)
    | _ => none
  | .accept i how =>
    match objs[i]? with
    | some (.listener l) => some (do
        let t ← l.accept how
        return (t.map Obj.tcp).toList, objs)
    | _ => none
  | .tlsListen i port how =>
    match pick objs i with
    | some (.tlsListener l, rest) => some (do
        let r ← l.listen port how
        return [.tlsListener r.1], rest)
    | _ => none
  | .tlsAccept i how next =>
    match objs[i]? with
    | some (.tlsListener l) => some (do
        let t ← l.accept how next
        return (t.map Obj.tls).toList, objs)
    | _ => none
  | .closeRead i =>
    match pick objs i with
    | some (.pipe p, rest) => some (do
        p.closeRead
        return [.pipe p.readClosed], rest)
    | _ => none
  | .closeWrite i =>
    match pick objs i with
    | some (.pipe p, rest) => some (do
        p.closeWrite
        return [.pipe p.writeClosed], rest)
    | _ => none
  | .close i => (pick objs i).bind fun r => r.1.close.map fun x => (x, r.2)
  | .destroy i => (pick objs i).map fun r => (do
      r.1.destroy
      return [], r.2)
  | .move i => (pick objs i).bind fun r => r.1.movedFrom.map fun o => (pure [r.1, o], r.2)
  | .moveAssign i j =>
    if i = j then some (pure [], objs)
    else
      (pick objs i).bind fun r => (pick r.2 (if i < j then j - 1 else j)).bind fun q =>
        (r.1.moveAssign q.1).map fun x => (x, q.2)

/-- The kernel's table, and the objects that live. -/
structure World where
  store : Store Nat
  objs : List Obj

/-- An exception leaves the objects that take no part. -/
def World.step (w : World) (l : Label) : Option World :=
  (act w.objs l).map fun r =>
    match r.1.run w.store with
    | .ok objs store => ⟨store, objs ++ r.2⟩
    | .error _ store => ⟨store, r.2⟩

/-! ## What they hold -/

def allFds (objs : List Obj) : List Nat := objs.flatMap Obj.fds

theorem pick_perm {objs rest : List Obj} {i : Nat} {o : Obj} (h : pick objs i = some (o, rest)) :
    (allFds objs).Perm (o.fds ++ allFds rest) := by
  obtain ⟨o', ho, heq⟩ := Option.map_eq_some_iff.mp h
  cases heq
  obtain ⟨hi, rfl⟩ := List.getElem?_eq_some_iff.mp ho
  exact (List.getElem_cons_eraseIdx_perm hi).symm.flatMap_right Obj.fds

namespace Obj

theorem turns_close {o : Obj} {x : Sys (List Obj)} (h : o.close = some x) :
    Turns o.fds x allFds fun _ => [] := by
  cases o with
  | pipe p =>
    cases h
    exact p.sure_close.turns.bind fun _ => Turns.pure _ (by simp [allFds, fds])
  | pipeTransport t =>
    cases h
    exact t.sure_close.turns.bind fun _ => Turns.pure _ (by simp [allFds, fds])
  | tcp t =>
    cases h
    exact t.sure_close.turns.bind fun _ => Turns.pure _ (by simp [allFds, fds])
  | listener l =>
    cases h
    exact l.sure_close.turns.bind fun _ => Turns.pure _ (by simp [allFds, fds])
  | tls t =>
    cases h
    exact t.sure_close.turns.bind fun _ => Turns.pure _ (by simp [allFds, fds])
  | tlsListener l =>
    cases h
    exact l.sure_close.turns.bind fun _ => Turns.pure _ (by simp [allFds, fds])
  | process p => cases h

theorem sure_destroy (o : Obj) : Sure o.fds o.destroy fun _ => [] := by
  cases o with
  | pipe p => exact p.sure_close
  | pipeTransport t => exact t.sure_destroy
  | tcp t => exact t.sure_close
  | listener l => exact l.sure_close
  | tls t => exact t.sure_close
  | tlsListener l => exact l.sure_close
  | process p => exact p.sure_destroy

theorem fds_movedFrom {o o' : Obj} (h : o.movedFrom = some o') : o'.fds = [] := by
  cases o with
  | tlsListener l => cases h
  | pipe p => cases h; rfl
  | pipeTransport t => cases h; rfl
  | tcp t => cases h; rfl
  | listener l => cases h; rfl
  | tls t => cases h; rfl
  | process p => cases h; rfl

theorem turns_moveAssign {o other : Obj} {x : Sys (List Obj)} (h : o.moveAssign other = some x) :
    Turns (o.fds ++ other.fds) x allFds fun _ => [] := by
  unfold moveAssign at h
  split at h
  · cases h
    exact (Pipe.sure_moveAssign _ _).turns.bind fun _ => Turns.pure _ (by simp [allFds, fds])
  · cases h
    exact (PipeTransport.sure_moveAssign _ _).turns.bind fun _ =>
      Turns.pure _ (by simp [allFds, fds])
  · cases h
    exact (TcpTransport.sure_moveAssign _ _).turns.bind fun _ =>
      Turns.pure _ (by simp [allFds, fds])
  · cases h
    exact (TcpListener.sure_moveAssign _ _).turns.bind fun _ =>
      Turns.pure _ (by simp [allFds, fds])
  · cases h
    exact (TlsTransport.sure_moveAssign _ _).turns.bind fun _ =>
      Turns.pure _ (by simp [allFds, fds])
  · cases h
    exact (ServiceProcess.sure_moveAssign _ _).turns.bind fun _ =>
      Turns.pure _ (by simp [allFds, fds])
  · cases h

end Obj

theorem allFds_none (objs : List Obj) : (allFds objs).Perm ([] ++ allFds objs) := List.Perm.refl _

/-- What is done is about the descriptors of the objects that take part. -/
theorem act_turns {objs rest : List Obj} {l : Label} {x : Sys (List Obj)}
    (h : act objs l = some (x, rest)) :
    ∃ pre, (allFds objs).Perm (pre ++ allFds rest) ∧ Turns pre x allFds fun _ => [] := by
  cases l with
  | createPair fails =>
    cases h
    refine ⟨[], allFds_none objs, (Pipe.turns_createPair fails).bind fun r => ?_⟩
    exact Turns.pure _ (by simp [allFds, Obj.fds])
  | tcpTransport =>
    cases h
    exact ⟨[], allFds_none objs, Turns.pure _ (List.Perm.refl [])⟩
  | tcpListener =>
    cases h
    exact ⟨[], allFds_none objs, Turns.pure _ (List.Perm.refl [])⟩
  | tlsListener =>
    cases h
    exact ⟨[], allFds_none objs, Turns.pure _ (List.Perm.refl [])⟩
  | pipeTransport toPeer fromPeer =>
    simp only [act] at h
    split at h
    · next p rest₁ hp =>
      split at h
      · next q rest₂ hq =>
        cases h
        refine ⟨p.fds ++ q.fds, ?_, Turns.pure _ ?_⟩
        · rw [List.append_assoc]
          exact (pick_perm hp).trans (List.Perm.append_left _ (pick_perm hq))
        · simp [allFds, Obj.fds, PipeTransport.fds]
      · cases h
    · cases h
  | spawn how =>
    cases h
    refine ⟨[], allFds_none objs, (ServiceProcess.turns_spawn how).bind fun p => ?_⟩
    exact Turns.pure _ (by simp [allFds, Obj.fds])
  | connect i host port how =>
    simp only [act] at h
    split at h
    · next t rest' ht =>
      cases h
      refine ⟨_, pick_perm ht, (t.sure_connect host port how).turns.bind fun r => ?_⟩
      exact Turns.pure _ (by simp [allFds, Obj.fds])
    · cases h
  | listen i port bindAddress how =>
    simp only [act] at h
    split at h
    · next t rest' ht =>
      cases h
      refine ⟨_, pick_perm ht, (t.sure_listen port bindAddress how).turns.bind fun r => ?_⟩
      exact Turns.pure _ (by simp [allFds, Obj.fds])
    · cases h
  | accept i how =>
    simp only [act] at h
    split at h
    · next t ht =>
      cases h
      refine ⟨[], allFds_none objs, (t.turns_accept how).bind fun r => Turns.pure _ ?_⟩
      cases r <;> simp [allFds, Obj.fds]
    · cases h
  | tlsListen i port how =>
    simp only [act] at h
    split at h
    · next t rest' ht =>
      cases h
      refine ⟨_, pick_perm ht, (t.sure_listen port how).turns.bind fun r => ?_⟩
      exact Turns.pure _ (by simp [allFds, Obj.fds])
    · cases h
  | tlsAccept i how next =>
    simp only [act] at h
    split at h
    · next t ht =>
      cases h
      refine ⟨[], allFds_none objs, (t.turns_accept how next).bind fun r => Turns.pure _ ?_⟩
      cases r <;> simp [allFds, Obj.fds]
    · cases h
  | closeRead i =>
    simp only [act] at h
    split at h
    · next p rest' hp =>
      cases h
      refine ⟨_, pick_perm hp, p.sure_closeRead.turns.bind fun _ => ?_⟩
      exact Turns.pure _ (by simp [allFds, Obj.fds])
    · cases h
  | closeWrite i =>
    simp only [act] at h
    split at h
    · next p rest' hp =>
      cases h
      refine ⟨_, pick_perm hp, p.sure_closeWrite.turns.bind fun _ => ?_⟩
      exact Turns.pure _ (by simp [allFds, Obj.fds])
    · cases h
  | close i =>
    obtain ⟨⟨o, rest'⟩, hp, hx⟩ := Option.bind_eq_some_iff.mp h
    obtain ⟨x', hclose, heq⟩ := Option.map_eq_some_iff.mp hx
    cases heq
    exact ⟨_, pick_perm hp, Obj.turns_close hclose⟩
  | destroy i =>
    obtain ⟨⟨o, rest'⟩, hp, heq⟩ := Option.map_eq_some_iff.mp h
    cases heq
    refine ⟨_, pick_perm hp, o.sure_destroy.turns.bind fun _ => ?_⟩
    exact Turns.pure _ (List.Perm.refl [])
  | move i =>
    obtain ⟨⟨o, rest'⟩, hp, hx⟩ := Option.bind_eq_some_iff.mp h
    obtain ⟨o', hfrom, heq⟩ := Option.map_eq_some_iff.mp hx
    cases heq
    exact ⟨_, pick_perm hp, Turns.pure _ (by simp [allFds, Obj.fds_movedFrom hfrom])⟩
  | moveAssign i j =>
    simp only [act] at h
    split at h
    · cases h
      exact ⟨[], allFds_none objs, Turns.pure _ (List.Perm.refl [])⟩
    · obtain ⟨⟨o, rest₁⟩, hp, hx⟩ := Option.bind_eq_some_iff.mp h
      obtain ⟨⟨other, rest₂⟩, hq, hx⟩ := Option.bind_eq_some_iff.mp hx
      obtain ⟨x', hmove, heq⟩ := Option.map_eq_some_iff.mp hx
      cases heq
      refine ⟨_, ?_, Obj.turns_moveAssign hmove⟩
      rw [List.append_assoc]
      exact (pick_perm hp).trans (List.Perm.append_left _ (pick_perm hq))

/-- The objects hold what is open beyond `rest`, each descriptor once. -/
def World.Holds (w : World) (rest : List Nat) : Prop := Open (allFds w.objs) rest 0 w.store

theorem World.Holds.step {w w' : World} {rest : List Nat} (h : w.Holds rest) {l : Label}
    (hs : w.step l = some w') : w'.Holds rest := by
  obtain ⟨⟨x, others⟩, hact, rfl⟩ := Option.map_eq_some_iff.mp hs
  obtain ⟨pre, hperm, hturns⟩ := act_turns hact
  have hopen : Open pre (allFds others ++ rest) 0 w.store := by
    refine Open.congr h ?_
    rw [← List.append_assoc]
    exact hperm.append_right rest
  have hx := hturns _ 0 w.store hopen
  cases hrun : x.run w.store with
  | ok objs store =>
    refine Open.congr (hx.ok hrun) ?_
    rw [← List.append_assoc]
    simp [allFds]
  | error e store => exact Open.congr (hx.error hrun) (List.Perm.refl _)

theorem World.Holds.of_run {before : List Nat} (hbefore : before.Nodup) {ls : List Label} {w : World}
    (h : Lts.Run World.step (fun _ _ => True) ⟨⟨before, 0⟩, []⟩ ls w) : w.Holds before :=
  h.invariant (fun w => w.Holds before) ⟨List.Perm.refl _, hbefore, rfl⟩
    fun _ _ _ hw _ hs => hw.step hs

/-- In every run, whatever fails in it, the descriptors that are open are those that were open
before and those that the objects hold, each of them held once; and no close was of anything else.
So when the objects are gone, all that they opened is closed. -/
theorem descriptors_held {before : List Nat} (hbefore : before.Nodup) {ls : List Label} {w : World}
    (h : Lts.Run World.step (fun _ _ => True) ⟨⟨before, 0⟩, []⟩ ls w) :
    w.store.opened.Perm (allFds w.objs ++ before) ∧ w.store.opened.Nodup ∧ w.store.refused = 0 := by
  have hholds := World.Holds.of_run hbefore h
  exact ⟨hholds.perm, hholds.nodup, hholds.refused⟩

/-- A service whose handshake fails, one that is started, and a pipe that is moved onto another. -/
def startTwice : List Label :=
  [.spawn (.noHandshake (.serviceError (lit "Service failed to send init message"))),
    .spawn .spawned, .createPair false, .moveAssign 1 0, .close 0]

theorem descriptors_held_startTwice :
    ∃ w, Lts.follow World.step ⟨⟨[0, 1, 2], 0⟩, []⟩ startTwice = some w ∧
      w.store.opened.Perm (allFds w.objs ++ [0, 1, 2]) ∧ w.store.opened.Nodup ∧
        w.store.refused = 0 := by
  have h : (Lts.follow World.step ⟨⟨[0, 1, 2], 0⟩, []⟩ startTwice).isSome = true := by
    decide +kernel
  obtain ⟨w, hw⟩ := Option.isSome_iff_exists.mp h
  have hbefore : [0, 1, 2].Nodup := by decide
  exact ⟨w, hw, descriptors_held hbefore
    (Lts.Run.nil.follow (fun _ _ _ => trivial) hw)⟩

end Song.Descriptors
