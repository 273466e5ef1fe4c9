import Song.Manager.Connect
import Song.Process.Reaped

/-!
# Restarting and replacing (`manager.cpp`: `restart`, `replace`)

Both stop what runs before they spawn, and put nothing back: when the spawn throws, the child
that ran has exited, the entry has no process, and after `replace` it names the new executable.
-/

namespace Song

namespace ServiceManager

open Manager

section
variable {o : Outside} {m : Manager} {name : Str} {entry : ServiceEntry}

/-- The entry without its process. -/
def stopped (name : Str) (m : Manager) : Manager :=
  { m with services := updateFirst name (fun entry => { entry with process := none }) m.services }

/-- The entry without its process, and with another executable. -/
def replaced (name newExecutable : Str) (m : Manager) : Manager :=
  { stopped name m with
    services := updateFirst name (fun entry => { entry with executable := newExecutable })
      (stopped name m).services }

theorem findService_stopped (hf : m.findService name = some entry) :
    (stopped name m).findService name = some { entry with process := none } := by
  have h := find?_updateFirst name name (f := fun entry => { entry with process := none })
    (fun _ => rfl) m.services
  rw [if_pos rfl] at h
  exact h.trans (congrArg _ hf)

theorem findService_replaced (newExecutable : Str) (hf : m.findService name = some entry) :
    (replaced name newExecutable m).findService name =
      some { entry with process := none, executable := newExecutable } := by
  have h := find?_updateFirst name name
    (f := fun entry => { entry with executable := newExecutable }) (fun _ => rfl)
    (stopped name m).services
  rw [if_pos rfl] at h
  exact h.trans (congrArg _ (findService_stopped hf))

theorem restart_run (o : Outside) (hf : m.findService name = some entry) (hl : entry.IsLocal) :
    (restart o name).run m =
      (do let _ ← spawnInto o name entry.executable : Mgr Unit).run (stopped name m) := by
  have hreset : (resetProcess name).run m = .ok () (stopped name m) := rfl
  rw [restart, Eff.run_bind_ok (getLocalService_ok _ _ hf hl), Eff.run_bind_ok hreset]

theorem replace_run (o : Outside) (newExecutable : Str) (hf : m.findService name = some entry)
    (hl : entry.IsLocal) :
    (replace o name newExecutable).run m =
      (do let _ ← spawnInto o name newExecutable : Mgr Unit).run
        (replaced name newExecutable m) := by
  have hreset : (resetProcess name).run m = .ok () (stopped name m) := rfl
  have hwrite : (modifyService name fun entry => { entry with executable := newExecutable }).run
      (stopped name m) = .ok () (replaced name newExecutable m) := rfl
  rw [replace, Eff.run_bind_ok (getLocalService_ok _ _ hf hl), Eff.run_bind_ok hreset,
    Eff.run_bind_ok hwrite]

/-- A spawn whose result is dropped throws what the spawn throws, and changes nothing then. -/
theorem spawn_throws_iff {executable : Str} {e : Exn} {m m' : Manager} :
    (do let _ ← spawnInto o name executable : Mgr Unit).run m = .error e m' ↔
      ServiceProcess.spawn o executable = .error e ∧ m' = m := by
  cases hs : ServiceProcess.spawn o executable with
  | error e' =>
    rw [Eff.run_bind_error (spawnInto_error hs m)]
    constructor
    · intro h
      cases h
      exact ⟨rfl, rfl⟩
    · rintro ⟨he, rfl⟩
      cases he
      rfl
  | ok proc =>
    rw [Eff.run_bind_ok (spawnInto_ok hs m)]
    exact ⟨nofun, nofun⟩

end

end ServiceManager

/-! ## The child that ran -/

namespace World

variable (sys : Surroundings) {w w' : World}

/-- `w'` comes later, under the same entry: what has exited stays so. -/
structure Later (w w' : World) : Prop where
  entry : w'.entry = w.entry
  clock : w.clock ≤ w'.clock
  killed : w.killed ⊆ w'.killed

namespace Later

theorem refl (w : World) : Later w w := ⟨rfl, le_rfl, List.Subset.refl _⟩

theorem trans {w₁ : World} (h : Later w w₁) (h' : Later w₁ w') : Later w w' :=
  ⟨h'.entry.trans h.entry, h.clock.trans h'.clock, fun _ hn => h'.killed (h.killed hn)⟩

theorem exited {n : Nat} (h : Later w w') (hn : w.exited sys n = true) :
    w'.exited sys n = true := by
  unfold World.exited at hn ⊢
  rw [Bool.or_eq_true, List.contains_iff_mem, Option.any_eq_true] at hn ⊢
  rcases hn with hn | ⟨t, ht, hle⟩
  · exact .inl (h.killed hn)
  · exact .inr ⟨t, ht, decide_eq_true ((of_decide_eq_true hle).trans h.clock)⟩

end Later

theorem later_waitpid (obj : ProcessObject) (w : World) : Later w (w.waitpid sys obj).2 := by
  unfold waitpid
  split
  · exact ⟨rfl, Nat.le_succ _, List.Subset.refl _⟩
  · split
    · exact ⟨rfl, Nat.le_succ _, List.Subset.refl _⟩
    · exact ⟨rfl, Nat.le_succ _, List.Subset.refl _⟩

theorem later_killTerm (obj : ProcessObject) (w : World) : Later w (w.killTerm obj) :=
  ⟨rfl, Nat.le_succ _, List.Subset.refl _⟩

theorem later_killKill (obj : ProcessObject) (w : World) : Later w (w.killKill sys obj) :=
  ⟨rfl, Nat.le_succ _, List.subset_append_right _ _⟩

theorem later_setObject (p : ProcPtr) (proc : ServiceProcess) (child : Nat) (w : World) :
    Later w (w.setObject p proc child) := ⟨rfl, le_rfl, List.Subset.refl _⟩

/-- The loop of `terminate` reaps the child it found, or still finds it. -/
theorem waitExit_child {obj : ProcessObject} {n : Nat} (k : Nat) {w : World}
    (hn : w.findChild sys obj.proc.pid = some n) :
    Later w (waitExit sys obj k w).2 ∧
      (if (waitExit sys obj k w).1 then (waitExit sys obj k w).2.exited sys n = true
       else (waitExit sys obj k w).2.findChild sys obj.proc.pid = some n) := by
  induction k generalizing w with
  | zero => exact ⟨.refl w, hn⟩
  | succ k ih =>
    have hlater := later_waitpid sys obj w
    unfold waitExit
    unfold waitpid at hlater ⊢
    rw [hn] at hlater ⊢
    simp only at hlater ⊢
    by_cases he : w.exited sys n = true
    · rw [if_pos he] at hlater ⊢
      exact ⟨hlater, hlater.exited sys he⟩
    · rw [if_neg he] at hlater ⊢
      obtain ⟨hl, hrest⟩ := ih (w := { w with clock := w.clock + 1 }) hn
      exact ⟨hlater.trans hl, hrest⟩

/-- After `terminate`, the child with the object's pid has exited. -/
theorem exited_terminate {p : ProcPtr} {obj : ProcessObject} {n : Nat}
    (hobj : w.objects p = some obj) (hpid : 0 < obj.proc.pid)
    (hn : w.findChild sys obj.proc.pid = some n) :
    (w.terminate sys p).exited sys n = true := by
  have hwait := waitExit_child sys 10 (w := w.killTerm obj) hn
  unfold terminate
  rw [hobj]
  simp only
  rw [if_neg (not_le.mpr hpid)]
  split
  · next w₁ hr =>
    rw [hr] at hwait
    exact (later_setObject p _ _ w₁).exited sys hwait.2
  · next w₁ hr =>
    rw [hr] at hwait
    have hkilled : (w₁.killKill sys obj).exited sys n = true := by
      have hfound : w₁.findChild sys obj.proc.pid = some n := hwait.2
      simp only [killKill, World.exited, hfound, Option.toList_some, List.cons_append,
        List.nil_append, List.contains_cons, beq_self_eq_true, Bool.true_or]
    exact ((later_waitpid sys obj _).trans (later_setObject p _ _ _)).exited sys hkilled

theorem later_waitExit (obj : ProcessObject) (k : Nat) (w : World) :
    Later w (waitExit sys obj k w).2 := by
  induction k generalizing w with
  | zero => exact .refl w
  | succ k ih =>
    have hlater := later_waitpid sys obj w
    rw [waitExit]
    split
    · next w₁ hr =>
      rw [hr] at hlater
      exact hlater
    · next w₁ hr =>
      rw [hr] at hlater
      exact hlater.trans (ih w₁)
    · next w₁ hr =>
      rw [hr] at hlater
      exact hlater.trans (ih w₁)

theorem later_terminate (p : ProcPtr) (w : World) : Later w (w.terminate sys p) := by
  unfold terminate
  split
  · exact .refl w
  · next obj _ =>
    split
    · exact .refl w
    · have hwait := (later_killTerm obj w).trans (later_waitExit sys obj 10 _)
      split
      · next w₁ hr =>
        rw [hr] at hwait
        exact hwait.trans (later_setObject p _ _ w₁)
      · next w₁ hr =>
        rw [hr] at hwait
        exact ((hwait.trans (later_killKill sys obj w₁)).trans (later_waitpid sys obj _)).trans
          (later_setObject p _ _ _)

theorem later_destroy (p : ProcPtr) (w : World) : Later w (w.destroy sys p) :=
  (later_terminate sys p w).trans ⟨rfl, le_rfl, List.Subset.refl _⟩

theorem later_fork (w : World) : Later w (w.fork sys) :=
  ⟨rfl, Nat.le_succ _, List.Subset.refl _⟩

/-- A failed spawn leaves the entry as `stop` left it: empty, and its child has exited. -/
theorem restart_fails {p : ProcPtr} {obj : ProcessObject} {n : Nat} (hentry : w.entry = some p)
    (hobj : w.objects p = some obj) (hpid : 0 < obj.proc.pid)
    (hn : w.findChild sys obj.proc.pid = some n) :
    (w.restart sys false).entry = none ∧ (w.restart sys false).exited sys n = true := by
  have hterm := later_terminate sys p w
  have hexit := exited_terminate sys hobj hpid hn
  have hstop : w.stop sys = { w.terminate sys p with entry := none }.destroy sys p := by
    unfold stop reset
    rw [hentry]
    simp only
    rw [hterm.entry, hentry]
  have hlater : Later { w.terminate sys p with entry := none } (w.restart sys false) := by
    unfold restart
    rw [hstop]
    exact (later_destroy sys p _).trans ((later_fork sys _).trans (later_destroy sys _ _))
  exact ⟨hlater.entry, hlater.exited sys hexit⟩

end World

/-! ## Failed calls -/

namespace ServiceManager

open Manager

/-- When `restart` or `replace` of a local service throws, the spawn threw. The entry is then
without a process, and after `replace` with the new executable, so as it was exactly if it had
none and named that executable; the child that ran has exited. -/
theorem respawn_fails_stopped :
    (∀ (o : Outside) (m : Manager) (name : Str) (entry : ServiceEntry),
      m.findService name = some entry → entry.IsLocal →
        (∀ e m', (restart o name).run m = .error e m' →
          ServiceProcess.spawn o entry.executable = .error e ∧ m' = stopped name m ∧
            m'.findService name = some { entry with process := none } ∧
            (m'.findService name = some entry ↔ entry.process = none)) ∧
        (∀ newExecutable e m', (replace o name newExecutable).run m = .error e m' →
          ServiceProcess.spawn o newExecutable = .error e ∧ m' = replaced name newExecutable m ∧
            m'.findService name = some { entry with process := none, executable := newExecutable } ∧
            (m'.findService name = some entry ↔
              entry.process = none ∧ entry.executable = newExecutable))) ∧
    (∀ (sys : Surroundings) (w : World) (p : ProcPtr) (obj : ProcessObject) (n : Nat),
      w.entry = some p → w.objects p = some obj → 0 < obj.proc.pid →
        w.findChild sys obj.proc.pid = some n →
        ((w.restart sys false).entry = none ∧ (w.restart sys false).exited sys n = true) ∧
        ((w.replace sys false).entry = none ∧ (w.replace sys false).exited sys n = true)) := by
  refine ⟨fun o m name entry hf hl => ⟨fun e m' hrun => ?_, fun newExecutable e m' hrun => ?_⟩,
    fun sys w p obj n hentry hobj hpid hn => ?_⟩
  · rw [restart_run o hf hl] at hrun
    obtain ⟨hspawn, rfl⟩ := spawn_throws_iff.mp hrun
    have hfound := findService_stopped hf
    refine ⟨hspawn, rfl, hfound, ?_⟩
    rw [hfound, Option.some.injEq]
    constructor
    · intro h
      rw [← h]
    · intro h
      rw [← h]
  · rw [replace_run o newExecutable hf hl] at hrun
    obtain ⟨hspawn, rfl⟩ := spawn_throws_iff.mp hrun
    have hfound := findService_replaced newExecutable hf
    refine ⟨hspawn, rfl, hfound, ?_⟩
    rw [hfound, Option.some.injEq]
    constructor
    · intro h
      rw [← h]
      exact ⟨rfl, rfl⟩
    · rintro ⟨hp, hx⟩
      rw [← hp, ← hx]
  · have h := World.restart_fails sys hentry hobj hpid hn
    exact ⟨h, h⟩

/-- Nothing can be launched. -/
def unlaunchable : Outside :=
  { LocalService.outside with
    launch := fun _ => .error (.serviceError (lit "Failed to fork service process")) }

/-- A running service is replaced by what cannot be launched. -/
theorem replace_fails_replaced : ∃ e m',
    (replace unlaunchable (lit "calc") (lit "/bin/new")).run LocalService.connected = .error e m' ∧
      m'.findService (lit "calc") = some
        { LocalService.entry with process := none, executable := lit "/bin/new" } := by
  have hf : LocalService.connected.findService (lit "calc") =
      some { LocalService.entry with process := some 0 } := rfl
  have hrun := (replace_run unlaunchable (lit "/bin/new") hf ⟨rfl, rfl⟩).trans
    (spawn_throws_iff.mpr ⟨rfl, rfl⟩)
  have h := (respawn_fails_stopped.1 unlaunchable LocalService.connected (lit "calc")
    { LocalService.entry with process := some 0 } hf ⟨rfl, rfl⟩).2 (lit "/bin/new") _ _ hrun
  exact ⟨_, _, hrun, h.2.2.1⟩

theorem replace_not_rolled_back : ¬ ∀ (o : Outside) (m m' : Manager) (name newExecutable : Str)
    (entry : ServiceEntry) (e : Exn), m.findService name = some entry → entry.IsLocal →
      (replace o name newExecutable).run m = .error e m' →
        m'.findService name = some entry := by
  intro h
  have hf : LocalService.connected.findService (lit "calc") =
      some { LocalService.entry with process := some 0 } := rfl
  have hrun := (replace_run unlaunchable (lit "/bin/new") hf ⟨rfl, rfl⟩).trans
    (spawn_throws_iff.mpr ⟨rfl, rfl⟩)
  have hsame := h _ _ _ _ _ _ _ hf ⟨rfl, rfl⟩ hrun
  rw [findService_replaced (lit "/bin/new") hf] at hsame
  cases hsame

end ServiceManager

end Song
