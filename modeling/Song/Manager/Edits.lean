import Mathlib.Logic.Relation
import Song.Manager.Registrations

/-!
# What the operations of a manager change (`manager.cpp`)

However it ends, an operation is a few changes of the services: an entry is added, is given
a process that was spawned, or is rewritten, and which names may be rewritten can be read off
the operation. What these changes keep, every run keeps.
-/

namespace Song

/-- Neither remote nor discoverable. -/
def ServiceEntry.IsLocal (entry : ServiceEntry) : Prop :=
  entry.isRemote = false ∧ entry.isDiscoverable = false

namespace Manager

variable {m : Manager} {name : Str}

theorem mem_updateFirst {name : Str} {f : ServiceEntry → ServiceEntry} {entry : ServiceEntry}
    {entries : List ServiceEntry} (h : entry ∈ updateFirst name f entries) :
    entry ∈ entries ∨ ∃ old ∈ entries, entry = f old := by
  induction entries with
  | nil => cases h
  | cons e entries ih =>
    unfold updateFirst at h
    split at h
    · rcases List.mem_cons.mp h with rfl | h
      · exact .inr ⟨e, List.mem_cons_self, rfl⟩
      · exact .inl (List.mem_cons_of_mem _ h)
    · rcases List.mem_cons.mp h with rfl | h
      · exact .inl List.mem_cons_self
      · rcases ih h with h | ⟨old, hm, ho⟩
        · exact .inl (List.mem_cons_of_mem _ h)
        · exact .inr ⟨old, List.mem_cons_of_mem _ hm, ho⟩

theorem name_of_findService {entry : ServiceEntry} (h : m.findService name = some entry) :
    entry.name = name := by
  have hp := List.find?_some h
  exact of_decide_eq_true hp

/-- A change of the entry under one name is seen under that name only. -/
theorem find?_updateFirst (name name' : Str) {f : ServiceEntry → ServiceEntry}
    (hf : ∀ entry, (f entry).name = entry.name) (entries : List ServiceEntry) :
    (updateFirst name' f entries).find? (fun entry => entry.name = name) =
      if name = name' then (entries.find? fun entry => entry.name = name).map f
      else entries.find? fun entry => entry.name = name := by
  induction entries with
  | nil => simp [updateFirst]
  | cons entry entries ih =>
    unfold updateFirst
    by_cases hn' : entry.name = name'
    · rw [if_pos hn']
      by_cases hn : name = name'
      · rw [List.find?_cons_of_pos (by simp [hf, hn', hn]), if_pos hn,
          List.find?_cons_of_pos (by simp [hn', hn])]
        rfl
      · have hne : ¬ entry.name = name := fun h => hn (h.symm.trans hn')
        rw [List.find?_cons_of_neg (by simp [hf, hne]), if_neg hn,
          List.find?_cons_of_neg (by simp [hne])]
    · rw [if_neg hn']
      by_cases hn : entry.name = name
      · rw [List.find?_cons_of_pos (by simp [hn]), List.find?_cons_of_pos (by simp [hn]),
          if_neg (fun h => hn' (hn.trans h))]
      · rw [List.find?_cons_of_neg (by simp [hn]), List.find?_cons_of_neg (by simp [hn]), ih]

/-- The entry has a new process. -/
def given (name : Str) (proc : ServiceProcess) (m : Manager) : Manager :=
  { m with
    services := updateFirst name (fun entry => { entry with process := some m.nextPtr }) m.services
    heap := fun p => if p = m.nextPtr then proc.moveConstruct.1 else m.heap p
    nextPtr := m.nextPtr + 1 }

end Manager

namespace ServiceManager

open Manager

variable {o : Outside} {m m' : Manager} {name : Str} {entry : ServiceEntry} {κ α : Type}

/-! ## Parts of the operations -/

theorem getService_ok (hf : m.findService name = some entry) :
    (getService name).run m = .ok entry m := by
  refine Eff.run_bind_ok_iff.mpr ⟨m, m, rfl, ?_⟩
  rw [hf]
  rfl

theorem getLocalService_ok (verb hint : Str) (hf : m.findService name = some entry)
    (hl : entry.IsLocal) : (getLocalService verb hint name).run m = .ok entry m := by
  rw [getLocalService, Eff.run_bind_ok (getService_ok hf), if_neg (Bool.not_eq_true _ ▸ hl.1),
    if_neg (Bool.not_eq_true _ ▸ hl.2)]
  rfl

theorem spawnInto_error {executable : Str} {e : Exn}
    (h : ServiceProcess.spawn o executable = .error e) (m : Manager) :
    (spawnInto o name executable).run m = .error e m := by
  unfold spawnInto
  simp only [EStateM.run, h]

theorem spawnInto_ok {executable : Str} {proc : ServiceProcess}
    (h : ServiceProcess.spawn o executable = .ok proc) (m : Manager) :
    (spawnInto o name executable).run m = .ok m.nextPtr (m.given name proc) := by
  unfold spawnInto
  simp only [EStateM.run, h]
  rfl

/-! ## What an operation changes -/

/-- The operation may change the entry of this name otherwise than by giving it a process. -/
def Operation.Rewrites : Operation → Str → Prop
  | .stop n, name | .restart n, name | .replace n _, name | .setAutoRestart n _, name
  | .setMaxRestarts n _, name | .resetRestartCount n, name => n = name
  | .checkAndRestart, _ => True
  | _, _ => False

/-- The name and the kind stay, and no process is brought in. -/
def Keeping (f : ServiceEntry → ServiceEntry) : Prop :=
  ∀ entry, (f entry).name = entry.name ∧ (f entry).isDiscoverable = entry.isDiscoverable ∧
    ((f entry).process = none ∨ (f entry).process = entry.process)

/-- One change of the services; `T` are the names whose entries may be rewritten. -/
inductive Edit (T : Str → Prop) (m : Manager) : Manager → Prop
  | register (entry : ServiceEntry) (hprocess : entry.process = none)
    (hname : entry.name ∉ m.names ∨ entry.isDiscoverable = true) :
    Edit T m { m with services := m.services ++ [entry] }
  | give (name : Str) {o : Outside} {executable : Str} {proc : ServiceProcess}
    (h : ServiceProcess.spawn o executable = .ok proc) : Edit T m (m.given name proc)
  | rewrite (name : Str) (hT : T name) {f : ServiceEntry → ServiceEntry} (hf : Keeping f) :
    Edit T m { m with services := updateFirst name f m.services }
  | count (hT : ∀ name, T name) (o : Outside) : Edit T m (countRestarts o m)
  | registry (host : Str) (port : UInt16) :
    Edit T m { m with registryHost := host, registryPort := port }

abbrev Edits (T : Str → Prop) (x : Mgr α) : Prop :=
  Eff.Within (Relation.ReflTransGen (Edit T)) x

namespace Edits

variable {T : Str → Prop}

theorem pure (a : α) : Edits T (pure a : Mgr α) := Eff.Within.pure (fun _ => .refl) a

theorem throw (e : Exn) : Edits T (throw e : Mgr α) := Eff.Within.throw (fun _ => .refl) e

theorem bind {β : Type} {x : Mgr α} {f : α → Mgr β} (hx : Edits T x) (hf : ∀ a, Edits T (f a)) :
    Edits T (x >>= f) := Eff.Within.bind (fun h h' => h.trans h') hx hf

theorem get : Edits T (get : Mgr Manager) := fun _ => .refl

theorem ofExcept (x : Except Exn α) : Edits T (MonadExcept.ofExcept x : Mgr α) := by
  cases x with
  | ok a => exact pure a
  | error e => exact throw e

theorem getService (name : Str) : Edits T (getService name) := by
  refine bind get fun m => ?_
  cases m.findService name with
  | none => exact throw _
  | some entry => exact pure _

theorem getLocalService (verb hint name : Str) : Edits T (getLocalService verb hint name) := by
  refine bind (getService name) fun entry => ?_
  split
  · exact throw _
  split
  · exact throw _
  · exact pure _

theorem modifyService {f : ServiceEntry → ServiceEntry} (hT : T name) (hf : Keeping f) :
    Edits T (modifyService name f) :=
  Eff.Within.modify fun _ => .single (.rewrite name hT hf)

theorem resetProcess (hT : T name) : Edits T (resetProcess name) :=
  modifyService hT fun _ => ⟨rfl, rfl, .inl rfl⟩

theorem spawnInto (o : Outside) (name executable : Str) : Edits T (spawnInto o name executable) := by
  intro m
  cases hs : ServiceProcess.spawn o executable with
  | error e => exact .of_error (spawnInto_error hs m) .refl
  | ok proc => exact .of_ok (spawnInto_ok hs m) (.single (.give name hs))

theorem registerUnregistered (name : Str) {entry : ServiceEntry} (hname : entry.name = name)
    (hprocess : entry.process = none) :
    Edits T (do checkUnregistered name; register entry) := by
  intro m
  by_cases htaken : name ∈ m.names
  · exact .of_error (Eff.run_bind_error (Registration.checkUnregistered_taken htaken)) .refl
  · have hrun : (do checkUnregistered name; register entry : Mgr Unit).run m =
        .ok () { m with services := m.services ++ [entry] } := by
      rw [Eff.run_bind_ok (Registration.checkUnregistered_free htaken)]
      rfl
    exact .of_ok hrun (.single (.register entry hprocess (.inl (hname ▸ htaken))))

theorem restartEach (hT : ∀ name, T name) (o : Outside) (entries : List ServiceEntry) :
    Edits T (restartEach o entries) := by
  induction entries with
  | nil => exact pure ()
  | cons entry entries ih =>
    refine bind (Eff.Within.catchIf (fun h h' => h.trans h') ?_ fun _ => ?_) fun _ => ih
    · exact bind (spawnInto o _ _) fun _ => pure ()
    · exact resetProcess (hT _)

theorem connectTcp (o : Outside) (host : Str) (port : UInt16) :
    Edits T (connectTcp o host port : Mgr (ServiceConnection κ)) := by
  refine bind (ofExcept _) fun tcp => ?_
  split
  · exact pure _
  · exact throw _

theorem locate (o : Outside) (name serviceType : Str) : Edits T (locate o name serviceType) := by
  have hmdns : Edits T (discoverOne o name serviceType) := by
    unfold discoverOne
    cases o.mdns with
    | some discover => exact ofExcept _
    | none => exact pure _
  have hregistry : Edits T (discoverRegistry o name) := by
    unfold discoverRegistry
    cases o.registry with
    | some discover => exact ofExcept _
    | none => exact pure _
  refine bind hmdns fun found => bind get fun m => ?_
  split
  · exact bind hregistry fun _ => pure _
  · exact pure _

theorem connect (o : Outside) (name : Str) :
    Edits T (connect o name : Mgr (ServiceConnection κ)) := by
  refine bind (getService name) fun entry => ?_
  split
  · exact connectTcp o _ _
  split
  · refine bind (locate o _ _) fun place => ?_
    split
    · refine bind get fun m => ?_
      split
      · exact throw _
      · exact throw _
    · exact connectTcp o _ _
  · refine bind get fun m => ?_
    split
    · exact pure _
    · exact bind (spawnInto o _ _) fun _ => pure _

theorem start (o : Outside) (name : Str) : Edits T (start o name) := by
  refine bind (getLocalService _ _ name) fun entry => bind get fun m => ?_
  split
  · exact pure _
  · exact spawnInto o _ _

theorem run (o : Outside) (op : Operation) : Edits op.Rewrites (op.run o) := by
  cases op with
  | registerService name executable version => exact registerUnregistered name rfl rfl
  | registerRemoteService name host port version => exact registerUnregistered name rfl rfl
  | registerDiscoverableService name serviceType version =>
    exact Eff.Within.modify fun _ => .single (.register _ rfl (.inr rfl))
  | start name => exact bind (start o name) fun _ => pure ()
  | stop name => exact bind (getLocalService _ _ name) fun _ => resetProcess rfl
  | restart name =>
    exact bind (getLocalService _ _ name) fun _ => bind (resetProcess rfl) fun _ =>
      bind (spawnInto o name _) fun _ => pure ()
  | replace name newExecutable =>
    exact bind (getLocalService _ _ name) fun _ => bind (resetProcess rfl) fun _ =>
      bind (modifyService rfl fun _ => ⟨rfl, rfl, .inr rfl⟩) fun _ =>
        bind (spawnInto o name _) fun _ => pure ()
  | setAutoRestart name enable =>
    exact bind (getLocalService _ _ name) fun _ => modifyService rfl fun _ => ⟨rfl, rfl, .inr rfl⟩
  | setMaxRestarts name maxRestarts =>
    exact bind (getLocalService _ _ name) fun _ => modifyService rfl fun _ => ⟨rfl, rfl, .inr rfl⟩
  | resetRestartCount name =>
    exact bind (getService name) fun _ => modifyService rfl fun _ => ⟨rfl, rfl, .inr rfl⟩
  | setRegistry host port => exact Eff.Within.modify fun _ => .single (.registry host port)
  | checkAndRestart =>
    exact bind get fun m => bind (Eff.Within.modify fun _ => .single (.count (fun _ => trivial) o))
      fun _ => restartEach (fun _ => trivial) o _
  | connect name => exact bind (connect o name) fun _ => pure ()

end Edits

end ServiceManager

end Song
