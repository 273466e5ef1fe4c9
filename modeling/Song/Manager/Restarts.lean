import Song.Manager.Lifecycle

/-!
# Restarting what died (`manager.cpp`: `check_and_restart`)

`check_and_restart` passes over an entry without a process, as nothing was running there. A
failed spawn of its own leaves the entry so, and so does one of `restart` or `replace`: the
service is then given up, whatever restarts it has left.
-/

namespace Song

namespace Outside

/-- What a spawn throws derives from `std::exception`. -/
def ThrowsStd (o : Outside) : Prop :=
  ∀ executable e, ServiceProcess.spawn o executable = .error e → e.isStd = true

/-- The executable can be spawned. -/
def Spawns (o : Outside) (executable : Str) : Prop :=
  ∃ proc, ServiceProcess.spawn o executable = .ok proc

end Outside

/-- No restart is left. -/
def ServiceEntry.Spent (entry : ServiceEntry) : Prop :=
  entry.maxRestarts ≠ 0 ∧ entry.maxRestarts ≤ entry.restartCount

namespace Manager

variable {m : Manager} {name : Str} {entry : ServiceEntry}

/-! ## What is found under a name -/

/-- A local or remote service has no other of its name before it. -/
def Unshadowed (m : Manager) : Prop :=
  m.services.Pairwise fun a b => b.isDiscoverable = false → a.name ≠ b.name

theorem Unshadowed.found (h : m.Unshadowed) (he : entry ∈ m.services)
    (hd : entry.isDiscoverable = false) : m.findService entry.name = some entry := by
  obtain ⟨l, l', hl⟩ := List.append_of_mem he
  rw [Unshadowed, hl, List.pairwise_append] at h
  rw [findService, List.find?_eq_some_iff_append]
  refine ⟨decide_eq_true rfl, l, l', hl, fun e hmem => ?_⟩
  have hne := h.2.2 e hmem entry List.mem_cons_self hd
  simpa using hne

theorem pairwise_updateFirst {f : ServiceEntry → ServiceEntry}
    (hf : ∀ entry, (f entry).name = entry.name ∧ (f entry).isDiscoverable = entry.isDiscoverable)
    {entries : List ServiceEntry}
    (h : entries.Pairwise fun a b => b.isDiscoverable = false → a.name ≠ b.name) :
    (updateFirst name f entries).Pairwise fun a b => b.isDiscoverable = false → a.name ≠ b.name := by
  have hmem : ∀ {b : ServiceEntry} {entries : List ServiceEntry}, b ∈ updateFirst name f entries →
      ∃ b' ∈ entries, b.name = b'.name ∧ b.isDiscoverable = b'.isDiscoverable := by
    intro b entries hb
    rcases mem_updateFirst hb with hb | ⟨b', hb', rfl⟩
    · exact ⟨b, hb, rfl, rfl⟩
    · exact ⟨b', hb', hf b'⟩
  induction entries with
  | nil => exact .nil
  | cons entry entries ih =>
    obtain ⟨hhead, htail⟩ := List.pairwise_cons.mp h
    unfold updateFirst
    split
    · refine List.pairwise_cons.mpr ⟨fun b hb hd => ?_, htail⟩
      rw [(hf entry).1]
      exact hhead b hb hd
    · refine List.pairwise_cons.mpr ⟨fun b hb hd => ?_, ih htail⟩
      obtain ⟨b', hb', hname, hdisc⟩ := hmem hb
      rw [hname]
      exact hhead b' hb' (hdisc.symm.trans hd)

/-- An entry as `check_and_restart` counts it. -/
def counted (o : Outside) (m : Manager) (entry : ServiceEntry) : ServiceEntry :=
  if ServiceManager.needsRestart o m entry then { entry with restartCount := entry.restartCount + 1 }
  else entry

theorem counted_name (o : Outside) (m : Manager) (entry : ServiceEntry) :
    (counted o m entry).name = entry.name := by
  unfold counted
  split
  · rfl
  · rfl

theorem counted_isDiscoverable (o : Outside) (m : Manager) (entry : ServiceEntry) :
    (counted o m entry).isDiscoverable = entry.isDiscoverable := by
  unfold counted
  split
  · rfl
  · rfl

theorem Unshadowed.edit {T : Str → Prop} {m' : Manager} (h : ServiceManager.Edit T m m')
    (hm : m.Unshadowed) : m'.Unshadowed := by
  cases h with
  | register entry hprocess hname =>
    refine List.pairwise_append.mpr ⟨hm, List.pairwise_singleton _ _, fun a ha b hb hd => ?_⟩
    cases List.mem_singleton.mp hb
    rintro heq
    rcases hname with hname | hname
    · exact hname (List.mem_map.mpr ⟨a, ha, heq⟩)
    · exact absurd (hname.symm.trans hd) Bool.noConfusion
  | give name hspawn =>
    exact pairwise_updateFirst (f := fun entry => { entry with process := some m.nextPtr })
      (fun _ => ⟨rfl, rfl⟩) hm
  | rewrite name hT hf => exact pairwise_updateFirst (fun entry => ⟨(hf entry).1, (hf entry).2.1⟩) hm
  | count hT o =>
    refine List.pairwise_map.mpr (hm.imp fun {a b} hab hd => ?_)
    show (counted o m a).name ≠ (counted o m b).name
    rw [counted_name, counted_name]
    exact hab ((counted_isDiscoverable o m b).symm.trans hd)
  | registry host port => exact hm

end Manager

namespace ServiceManager

open Manager

variable {o : Outside} {m m' : Manager} {name : Str} {entry : ServiceEntry}

theorem unshadowed_after (o : Outside) (op : Operation) (hm : m.Unshadowed) :
    (Eff.after (op.run o) m).Unshadowed := by
  have hedits := (Edits.run o op).after m
  generalize Eff.after (op.run o) m = m' at hedits
  induction hedits with
  | refl => exact hm
  | tail _ hedit ih => exact ih.edit hedit

/-- What an operation that rewrites no entry of this name does to it: it may get a process. -/
theorem found_of_edits {T : Str → Prop} (hT : ¬ T name)
    (h : Relation.ReflTransGen (Edit T) m m') (hf : m.findService name = some entry) :
    ∃ process, m'.findService name = some { entry with process } ∧
      (entry.process.isSome = true → process.isSome = true) := by
  induction h with
  | refl => exact ⟨entry.process, hf, id⟩
  | @tail m₁ m₂ _ hedit ih =>
    obtain ⟨process, hf₁, hsome⟩ := ih
    cases hedit with
    | register entry' hprocess hname =>
      refine ⟨process, ?_, hsome⟩
      rw [findService, List.find?_append, ← findService, hf₁]
      rfl
    | give name' hspawn =>
      have h := find?_updateFirst name name'
        (f := fun entry => { entry with process := some m₁.nextPtr }) (fun _ => rfl) m₁.services
      by_cases hn : name = name'
      · rw [if_pos hn] at h
        refine ⟨some m₁.nextPtr, h.trans (congrArg _ hf₁), fun _ => rfl⟩
      · rw [if_neg hn] at h
        exact ⟨process, h.trans hf₁, hsome⟩
    | rewrite name' hT' hf' =>
      have hn : name ≠ name' := fun hn => hT (hn ▸ hT')
      have h := find?_updateFirst name name' (fun entry => (hf' entry).1) m₁.services
      rw [if_neg hn] at h
      exact ⟨process, h.trans hf₁, hsome⟩
    | count hT' o => exact absurd (hT' name) hT
    | registry host port => exact ⟨process, hf₁, hsome⟩

/-! ## A call of `check_and_restart` -/

/-- One service is spawned again: it gets a process, or loses what it had. -/
theorem respawn_run (ho : o.ThrowsStd) (name' executable : Str) (m : Manager) :
    ∃ process m', (Eff.catchIf Exn.isStd (do let _ ← spawnInto o name' executable)
        fun _ => resetProcess name').run m = .ok () m' ∧
      (process.isSome = true ↔ o.Spawns executable) ∧
      ∀ name, m'.findService name =
        if name = name' then (m.findService name).map fun entry => { entry with process }
        else m.findService name := by
  have hupdate : ∀ process name, (updateFirst name' (fun entry => { entry with process })
      m.services).find? (fun entry => entry.name = name) =
        if name = name' then (m.findService name).map fun entry => { entry with process }
        else m.findService name :=
    fun process name => find?_updateFirst name name' (f := fun entry => { entry with process })
      (fun _ => rfl) m.services
  cases hs : ServiceProcess.spawn o executable with
  | ok proc =>
    have hrun : (do let _ ← spawnInto o name' executable : Mgr Unit).run m =
        .ok () (m.given name' proc) := Eff.run_bind_ok (spawnInto_ok hs m)
    exact ⟨some m.nextPtr, _, Eff.run_catchIf_ok hrun, iff_of_true rfl ⟨proc, hs⟩,
      hupdate (some m.nextPtr)⟩
  | error e =>
    have hrun : (do let _ ← spawnInto o name' executable : Mgr Unit).run m = .error e m :=
      Eff.run_bind_error (spawnInto_error hs m)
    refine ⟨none, stopped name' m, ?_, iff_of_false nofun ?_, hupdate none⟩
    · rw [Eff.run_catchIf_error hrun, if_pos (ho _ _ hs)]
      rfl
    · rintro ⟨proc, hok⟩
      cases hs.symm.trans hok

theorem restartEach_frame (ho : o.ThrowsStd) {entries : List ServiceEntry}
    (hn : ∀ e ∈ entries, e.name ≠ name) (m : Manager) :
    (Eff.after (restartEach o entries) m).findService name = m.findService name := by
  induction entries generalizing m with
  | nil => rfl
  | cons e entries ih =>
    obtain ⟨hne, hrest⟩ := List.forall_mem_cons.mp hn
    obtain ⟨process, m₁, hrun, -, hfind⟩ := respawn_run ho e.name e.executable m
    rw [restartEach, Eff.after, Eff.run_bind_ok hrun]
    exact (ih hrest m₁).trans ((hfind name).trans (if_neg hne.symm))

theorem restartEach_respawns (ho : o.ThrowsStd) {entries : List ServiceEntry} {e : ServiceEntry}
    (hnodup : (entries.map ServiceEntry.name).Nodup) (he : e ∈ entries)
    (hf : m.findService e.name = some entry) :
    ∃ process, (Eff.after (restartEach o entries) m).findService e.name =
        some { entry with process } ∧ (process.isSome = true ↔ o.Spawns e.executable) := by
  induction entries generalizing m with
  | nil => cases he
  | cons e' entries ih =>
    obtain ⟨hne, hnodup'⟩ := List.nodup_cons.mp hnodup
    obtain ⟨process, m₁, hrun, hspawn, hfind⟩ := respawn_run ho e'.name e'.executable m
    rw [restartEach, Eff.after, Eff.run_bind_ok hrun, ← Eff.after]
    rcases List.mem_cons.mp he with rfl | he
    · have hother : ∀ e'' ∈ entries, e''.name ≠ e.name :=
        fun e'' he'' heq => hne (List.mem_map.mpr ⟨e'', he'', heq⟩)
      have hframe := restartEach_frame ho hother m₁
      refine ⟨process, ?_, hspawn⟩
      rw [hframe, hfind, if_pos rfl, hf]
      rfl
    · have hother : e.name ≠ e'.name := fun heq =>
        hne (heq ▸ List.mem_map_of_mem (f := ServiceEntry.name) he)
      exact ih hnodup' he ((hfind e.name).trans ((if_neg hother).trans hf))

theorem findService_countRestarts (o : Outside) (name : Str) (m : Manager) :
    (countRestarts o m).findService name = (m.findService name).map (counted o m) := by
  unfold countRestarts findService
  simp only
  rw [show (fun entry => if needsRestart o m entry then
    { entry with restartCount := entry.restartCount + 1 } else entry) = counted o m from rfl,
    List.find?_map]
  congr 2
  funext entry
  simp only [Function.comp_apply, counted_name]

theorem isLocal_of_needsRestart (h : needsRestart o m entry = true) : entry.IsLocal := by
  simp only [needsRestart, Bool.and_eq_true, Bool.not_eq_true'] at h
  exact ⟨h.1.1.1.1, h.1.1.1.2⟩

/-- What `check_and_restart` does to a service. -/
theorem checkAndRestart_found (hu : m.Unshadowed) (ho : o.ThrowsStd)
    (hf : m.findService name = some entry) :
    if needsRestart o m entry then
      ∃ process, (Eff.after (checkAndRestart o) m).findService name =
          some { entry with restartCount := entry.restartCount + 1, process } ∧
        (process.isSome = true ↔ o.Spawns entry.executable)
    else (Eff.after (checkAndRestart o) m).findService name = some entry := by
  have hafter : Eff.after (checkAndRestart o) m =
      Eff.after (restartEach o (m.services.filter (needsRestart o m))) (countRestarts o m) := rfl
  have hname := name_of_findService hf
  have hcount : (countRestarts o m).findService name = some (counted o m entry) := by
    rw [findService_countRestarts, hf]
    rfl
  rw [hafter]
  split
  · next hneeds =>
    have hmem : entry ∈ m.services.filter (needsRestart o m) :=
      List.mem_filter.mpr ⟨List.mem_of_find?_eq_some hf, hneeds⟩
    have hnodup : ((m.services.filter (needsRestart o m)).map ServiceEntry.name).Nodup := by
      rw [List.Nodup, List.pairwise_map, List.pairwise_filter]
      exact hu.imp fun h _ hb => h (isLocal_of_needsRestart hb).2
    rw [counted, if_pos hneeds, ← hname] at hcount
    rw [← hname]
    exact restartEach_respawns ho hnodup hmem hcount
  · next hneeds =>
    rw [restartEach_frame ho (fun e he heq => ?_), hcount, counted, if_neg hneeds]
    obtain ⟨hmem, he'⟩ := List.mem_filter.mp he
    have hfound := hu.found hmem (isLocal_of_needsRestart he').2
    rw [heq, hf] at hfound
    cases hfound
    exact hneeds he'

/-! ## Giving up -/

/-- `check_and_restart` spawns the service again: it counts that, and the service has a process
then exactly if the spawn succeeded. -/
def RestartsService (o : Outside) (m : Manager) (name : Str) : Prop :=
  ∃ entry process, m.findService name = some entry ∧
    (Eff.after (checkAndRestart o) m).findService name =
      some { entry with restartCount := entry.restartCount + 1, process } ∧
    (process.isSome = true ↔ o.Spawns entry.executable)

/-- Whenever the service is not alive and has restarts left, `check_and_restart` spawns it
again. -/
def Heeds (name : Str) (m : Manager) : Prop :=
  ∀ o entry, o.ThrowsStd → m.findService name = some entry → aliveProcess o entry m = none →
    entry.maxRestarts = 0 ∨ entry.restartCount < entry.maxRestarts → RestartsService o m name

/-- The service is local, and in auto-restart. -/
structure Watched (name : Str) (m : Manager) (entry : ServiceEntry) : Prop where
  found : m.findService name = some entry
  isLocal : entry.IsLocal
  auto : entry.autoRestart = true
  unshadowed : m.Unshadowed

theorem spent_iff : ¬ (entry.maxRestarts = 0 ∨ entry.restartCount < entry.maxRestarts) ↔
    entry.Spent := by
  rw [not_or, not_lt, ServiceEntry.Spent]

/-- Without a process, the service is heeded only when no restart is left. -/
theorem Watched.heeds_iff (h : Watched name m entry) :
    Heeds name m ↔ entry.process.isSome = true ∨ entry.Spent := by
  constructor
  · intro hheeds
    by_contra hnot
    obtain ⟨hnone, hleft⟩ := not_or.mp hnot
    rw [Option.not_isSome_iff_eq_none] at hnone
    have hstd : unlaunchable.ThrowsStd := by
      intro executable e he
      cases he
      rfl
    have hdead : aliveProcess unlaunchable entry m = none := by
      rw [aliveProcess, hnone]
      rfl
    obtain ⟨entry', process, hf, hafter, -⟩ := hheeds unlaunchable entry hstd h.found hdead
      (not_not.mp (mt spent_iff.mp hleft))
    cases h.found.symm.trans hf
    have hcheck := checkAndRestart_found h.unshadowed hstd h.found
    have hneeds : ¬ needsRestart unlaunchable m entry = true := by
      simp [needsRestart, hnone]
    rw [if_neg hneeds, hafter, Option.some.injEq] at hcheck
    have hcount := congrArg ServiceEntry.restartCount hcheck
    simp only at hcount
    omega
  · intro hinv o entry' hstd hf hdead hleft
    cases h.found.symm.trans hf
    have hsome := hinv.resolve_right fun hspent => spent_iff.mpr hspent hleft
    obtain ⟨p, hp⟩ := Option.isSome_iff_exists.mp hsome
    have hneeds : needsRestart o m entry = true := by
      rw [aliveProcess, hp, Option.filter_eq_none_iff] at hdead
      have hp' : (m.heap p).alive o = false := Bool.not_eq_true _ ▸ hdead p rfl
      simp only [needsRestart, h.isLocal.1, h.isLocal.2, h.auto, hp, Option.any_some, hp',
        Bool.not_false, Bool.and_self, Bool.true_and, Bool.not_eq_true', Bool.and_eq_false_iff,
        decide_eq_false_iff_not]
      omega
    have hcheck := checkAndRestart_found h.unshadowed hstd h.found
    rw [if_pos hneeds] at hcheck
    obtain ⟨process, hafter, hspawn⟩ := hcheck
    exact ⟨entry, process, h.found, hafter, hspawn⟩

/-- The service is neither stopped nor taken out of auto-restart. -/
def Operation.LeavesRunning (name : Str) : Operation → Prop
  | .stop n => n ≠ name
  | .setAutoRestart n enable => n = name → enable = true
  | _ => True

/-- The operation does not leave the service with restarts but without a process: what is spawned
in place of its process is spawned, or no restart is left, and a service without a process is
given no restarts. -/
def Operation.Keeps (o : Outside) (m : Manager) (name : Str) (entry : ServiceEntry) :
    Operation → Prop
  | .checkAndRestart => needsRestart o m entry = true →
    o.Spawns entry.executable ∨
      { entry with restartCount := entry.restartCount + 1 : ServiceEntry }.Spent
  | .restart n => n = name → o.Spawns entry.executable ∨ entry.Spent
  | .replace n newExecutable => n = name → o.Spawns newExecutable ∨ entry.Spent
  | .setMaxRestarts n maxRestarts => n = name →
    entry.process.isSome = true ∨ { entry with maxRestarts : ServiceEntry }.Spent
  | .resetRestartCount n => n = name →
    entry.process.isSome = true ∨ { entry with restartCount := 0 : ServiceEntry }.Spent
  | _ => True

/-! ## An operation -/

theorem findService_rewritten {f : ServiceEntry → ServiceEntry}
    (hf' : ∀ entry, (f entry).name = entry.name) (hf : m.findService name = some entry) :
    ({ m with services := updateFirst name f m.services } : Manager).findService name =
      some (f entry) := by
  have h := find?_updateFirst name name hf' m.services
  rw [if_pos rfl] at h
  exact h.trans (congrArg _ hf)

/-- A spawn for an entry without a process. -/
theorem found_after_spawn (o : Outside) (executable : Str) (hf : m.findService name = some entry)
    (hnone : entry.process = none) :
    ∃ process, (Eff.after (do let _ ← spawnInto o name executable : Mgr Unit) m).findService name =
        some { entry with process } ∧ (process.isSome = true ↔ o.Spawns executable) := by
  cases hs : ServiceProcess.spawn o executable with
  | ok proc =>
    refine ⟨some m.nextPtr, ?_, iff_of_true rfl ⟨proc, hs⟩⟩
    have hrun : (do let _ ← spawnInto o name executable : Mgr Unit).run m =
        .ok () (m.given name proc) := Eff.run_bind_ok (spawnInto_ok hs m)
    rw [Eff.after_ok hrun]
    exact findService_rewritten (f := fun entry => { entry with process := some m.nextPtr })
      (fun _ => rfl) hf
  | error e =>
    refine ⟨none, ?_, iff_of_false nofun ?_⟩
    · rw [Eff.after_error (Eff.run_bind_error (spawnInto_error hs m)), hf, ← hnone]
    · rintro ⟨proc, hok⟩
      cases hs.symm.trans hok

/-- A setter of a local service. -/
theorem found_after_set (verb hint : Str) {f : ServiceEntry → ServiceEntry}
    (hf' : ∀ entry, (f entry).name = entry.name) (hf : m.findService name = some entry)
    (hl : entry.IsLocal) :
    (Eff.after (do let _ ← getLocalService verb hint name; modifyService name f : Mgr Unit)
      m).findService name = some (f entry) := by
  rw [Eff.after, Eff.run_bind_ok (getLocalService_ok verb hint hf hl)]
  exact findService_rewritten hf' hf

theorem Operation.keeps {op : Operation} (h : ¬ op.Rewrites name) (entry : ServiceEntry) :
    op.Keeps o m name entry := by
  cases op with
  | checkAndRestart => exact absurd trivial h
  | restart n | replace n x | setMaxRestarts n k | resetRestartCount n =>
    exact fun hn => absurd hn h
  | _ => trivial

/-- The service stays watched, and heeded exactly if the operation keeps it so. -/
theorem Watched.step (h : Watched name m entry) (hstd : o.ThrowsStd) {op : Operation}
    (hop : op.LeavesRunning name) (hinv : entry.process.isSome = true ∨ entry.Spent) :
    ∃ entry', Watched name (Eff.after (op.run o) m) entry' ∧
      (entry'.process.isSome = true ∨ entry'.Spent ↔ op.Keeps o m name entry) := by
  have hu := unshadowed_after o op h.unshadowed
  by_cases hT : op.Rewrites name
  · cases op with
    | checkAndRestart =>
      have hcheck := checkAndRestart_found h.unshadowed hstd h.found
      by_cases hneeds : needsRestart o m entry = true
      · rw [if_pos hneeds] at hcheck
        obtain ⟨process, hafter, hspawn⟩ := hcheck
        refine ⟨_, ⟨hafter, h.isLocal, h.auto, hu⟩, ?_⟩
        rw [Operation.Keeps, forall_prop_of_true hneeds]
        exact or_congr_left hspawn
      · rw [if_neg hneeds] at hcheck
        exact ⟨entry, ⟨hcheck, h.isLocal, h.auto, hu⟩,
          iff_of_true hinv fun hyes => absurd hyes hneeds⟩
    | restart n =>
      obtain rfl : n = name := hT
      obtain ⟨process, hafter, hspawn⟩ := found_after_spawn o entry.executable
        (findService_stopped h.found) rfl
      rw [← Eff.after_congr (restart_run o h.found h.isLocal)] at hafter
      refine ⟨_, ⟨hafter, h.isLocal, h.auto, hu⟩, ?_⟩
      rw [Operation.Keeps, forall_prop_of_true rfl]
      exact or_congr_left hspawn
    | replace n newExecutable =>
      obtain rfl : n = name := hT
      obtain ⟨process, hafter, hspawn⟩ := found_after_spawn o newExecutable
        (findService_replaced newExecutable h.found) rfl
      rw [← Eff.after_congr (replace_run o newExecutable h.found h.isLocal)] at hafter
      refine ⟨_, ⟨hafter, h.isLocal, h.auto, hu⟩, ?_⟩
      rw [Operation.Keeps, forall_prop_of_true rfl]
      exact or_congr_left hspawn
    | setAutoRestart n enable =>
      obtain rfl : n = name := hT
      have hafter := found_after_set (lit "set auto-restart for") []
        (f := fun entry => { entry with autoRestart := enable }) (fun _ => rfl) h.found h.isLocal
      exact ⟨_, ⟨hafter, h.isLocal, hop rfl, hu⟩, iff_of_true hinv trivial⟩
    | setMaxRestarts n maxRestarts =>
      obtain rfl : n = name := hT
      have hafter := found_after_set (lit "set max-restarts for") []
        (f := fun entry => { entry with maxRestarts }) (fun _ => rfl) h.found h.isLocal
      refine ⟨_, ⟨hafter, h.isLocal, h.auto, hu⟩, ?_⟩
      rw [Operation.Keeps, forall_prop_of_true rfl]
    | resetRestartCount n =>
      obtain rfl : n = name := hT
      have hafter : (Eff.after ((Operation.resetRestartCount n).run o) m).findService n =
          some { entry with restartCount := 0 } := by
        rw [Operation.run, resetRestartCount, Eff.after, Eff.run_bind_ok (getService_ok h.found)]
        exact findService_rewritten (f := fun entry => { entry with restartCount := 0 })
          (fun _ => rfl) h.found
      refine ⟨_, ⟨hafter, h.isLocal, h.auto, hu⟩, ?_⟩
      rw [Operation.Keeps, forall_prop_of_true rfl]
    | stop n => exact absurd hT hop
    | _ => exact hT.elim
  · obtain ⟨process, hafter, hsome⟩ := found_of_edits hT ((Edits.run o op).after m) h.found
    exact ⟨_, ⟨hafter, h.isLocal, h.auto, hu⟩, iff_of_true (hinv.imp_left hsome) (op.keeps hT entry)⟩

/-! ## A history -/

/-- The manager after these operations, each with what it meets outside. -/
def performed (m : Manager) (ls : List (Outside × Operation)) : Manager :=
  ls.foldl (fun m l => Eff.after (l.2.run l.1) m) m

/-- Every operation of the history keeps the service restartable. -/
def KeptRestartable (name : Str) (m : Manager) (ls : List (Outside × Operation)) : Prop :=
  ∀ before o op later, ls = before ++ (o, op) :: later → ∀ entry,
    (performed m before).findService name = some entry → op.Keeps o (performed m before) name entry

/-- The service is heeded at every moment of the history. -/
def AlwaysHeeded (name : Str) (m : Manager) (ls : List (Outside × Operation)) : Prop :=
  ∀ before later, ls = before ++ later → Heeds name (performed m before)

theorem keptRestartable_cons {o : Outside} {op : Operation} {ls : List (Outside × Operation)} :
    KeptRestartable name m ((o, op) :: ls) ↔
      (∀ entry, m.findService name = some entry → op.Keeps o m name entry) ∧
        KeptRestartable name (Eff.after (op.run o) m) ls := by
  constructor
  · intro h
    refine ⟨h [] o op ls rfl, ?_⟩
    rintro before o' op' later rfl
    exact h ((o, op) :: before) o' op' later rfl
  · rintro ⟨hhead, htail⟩ before o' op' later heq
    rcases List.append_eq_cons_iff.mp heq.symm with ⟨rfl, hcons⟩ | ⟨before', rfl, hrest⟩
    · cases hcons
      exact hhead
    · exact htail before' o' op' later hrest

theorem alwaysHeeded_cons {l : Outside × Operation} {ls : List (Outside × Operation)} :
    AlwaysHeeded name m (l :: ls) ↔
      Heeds name m ∧ AlwaysHeeded name (Eff.after (l.2.run l.1) m) ls := by
  constructor
  · intro h
    refine ⟨h [] (l :: ls) rfl, ?_⟩
    rintro before later rfl
    exact h (l :: before) later rfl
  · rintro ⟨hhead, htail⟩ before later heq
    rcases List.append_eq_cons_iff.mp heq.symm with ⟨rfl, -⟩ | ⟨before', rfl, hrest⟩
    · exact hhead
    · exact htail before' later hrest

theorem Watched.heeded_run_iff (h : Watched name m entry)
    (hinv : entry.process.isSome = true ∨ entry.Spent) (ls : List (Outside × Operation))
    (hls : ∀ l ∈ ls, l.1.ThrowsStd ∧ l.2.LeavesRunning name) :
    AlwaysHeeded name m ls ↔ KeptRestartable name m ls := by
  induction ls generalizing m entry with
  | nil =>
    refine iff_of_true ?_ ?_
    · intro before later heq
      obtain ⟨rfl, -⟩ := List.append_eq_nil_iff.mp heq.symm
      exact h.heeds_iff.mpr hinv
    · intro before o op later heq
      exact absurd heq.symm (List.append_ne_nil_of_right_ne_nil _ (List.cons_ne_nil _ _))
  | cons l ls ih =>
    obtain ⟨o, op⟩ := l
    obtain ⟨⟨hstd, hop⟩, hls'⟩ := List.forall_mem_cons.mp hls
    obtain ⟨entry', h', hstep⟩ := h.step hstd hop hinv
    have hkeeps : (∀ e, m.findService name = some e → op.Keeps o m name e) ↔
        op.Keeps o m name entry := by
      refine ⟨fun hk => hk entry h.found, fun hk e hf => ?_⟩
      cases h.found.symm.trans hf
      exact hk
    rw [alwaysHeeded_cons, keptRestartable_cons, hkeeps, ← hstep,
      and_iff_right (h.heeds_iff.mpr hinv)]
    constructor
    · intro hall
      have hinv' := h'.heeds_iff.mp (hall [] ls rfl)
      exact ⟨hinv', (ih h' hinv' hls').mp hall⟩
    · rintro ⟨hinv', hkept⟩
      exact (ih h' hinv' hls').mpr hkept

/-- The service of `LocalService`, connected to and in auto-restart. -/
def restartable : Manager :=
  { LocalService.connected with
    services := [{ LocalService.entry with process := some 0, autoRestart := true }] }

/-- Nothing runs, and nothing can be launched. -/
def crashed : Outside := { unlaunchable with running := fun _ => false }

theorem restartable_run : Lts.Run step (fun _ _ => True) .empty
    [(LocalService.outside, .registerService (lit "calc") (lit "/bin/calc") 1),
      (LocalService.outside, .connect (lit "calc")),
      (LocalService.outside, .setAutoRestart (lit "calc") true)] restartable := by
  have hconnect : step LocalService.manager (LocalService.outside, .connect (lit "calc")) =
      some LocalService.connected := by
    have hrun : (Operation.run LocalService.outside (.connect (lit "calc"))).run
        LocalService.manager = .ok () LocalService.connected :=
      Eff.run_bind_ok LocalService.connect_run
    rw [step, Eff.after_ok hrun]
  exact .snoc (.snoc LocalService.run trivial hconnect) trivial rfl

theorem crashed_throwsStd : crashed.ThrowsStd := by
  intro executable e he
  cases he
  rfl

end ServiceManager

end Song
