import Song.Manager.Sections
import Song.Lib.Run
import Mathlib.Data.List.Permutation

/-!
# Interleaved operations on a service

`start` and `check_and_restart` write back what they spawned without looking at the
entry again. When every write-back finds the entry as it must be (`WritesBackSafely`),
the operations on a service are serializable, a `stop` stays, and so does the
executable of a `replace`.
-/

namespace Song

open Lts

/-! ## Operations without interruption -/

namespace Slot

@[simp] theorem alive_exited (slot : Slot) : slot.exited.alive = false := by
  cases h : slot.process with
  | none => rw [alive, exited, h]; rfl
  | some child => rw [alive, exited, h]; rfl

theorem alive_iff {slot : Slot} :
    slot.alive = true ↔ ∃ child, slot.process = some child ∧ child.running = true := by
  rw [alive, Option.any_eq_true]

theorem needsRestart_eq_false_iff {slot : Slot} :
    slot.needsRestart = false ↔ slot.process = none ∨ slot.alive = true ∨
      slot.autoRestart = false ∨
        (0 < slot.maxRestarts ∧ slot.maxRestarts ≤ slot.restartCount) := by
  rw [needsRestart, Bool.and_eq_false_iff, Bool.and_eq_false_iff, Bool.not_eq_false',
    ← Bool.decide_and, decide_eq_true_iff, alive]
  cases slot.process with
  | none => exact ⟨fun _ => .inl rfl, fun _ => .inl (.inr rfl)⟩
  | some child =>
    rw [Option.any_some, Option.any_some, Bool.not_eq_false']
    constructor
    · rintro ((ha | hr) | hm)
      · exact .inr (.inr (.inl ha))
      · exact .inr (.inl hr)
      · exact .inr (.inr (.inr hm))
    · rintro (hn | hr | ha | hm)
      · cases hn
      · exact .inl (.inr hr)
      · exact .inl (.inl ha)
      · exact .inr hm

/-- A service that need not be restarted is not. -/
theorem perform_checkAndRestart_of_not {slot : Slot} {ok : Bool} (h : slot.needsRestart = false) :
    slot.perform ⟨.checkAndRestart, ok⟩ = slot := by
  simp only [perform, begin, h, Bool.false_eq_true, ↓reduceIte, finish]

theorem perform_checkAndRestart {slot : Slot} (ok : Bool) (h : slot.needsRestart = true) :
    slot.perform ⟨.checkAndRestart, ok⟩ =
      if ok then { slot with restartCount := slot.restartCount + 1 }.install ⟨slot.executable, true⟩
      else { slot with restartCount := slot.restartCount + 1 }.reset := by
  simp only [perform, begin, h, ↓reduceIte, finish, SlotCall.spawn]
  cases ok with
  | true => rfl
  | false => rfl

theorem perform_start (slot : Slot) (ok : Bool) :
    slot.perform ⟨.start, ok⟩ = if slot.alive then slot else slot.spawnInto ok := by
  simp only [perform, begin, spawnInto]
  cases slot.alive with
  | true => rfl
  | false =>
    cases ok with
    | true => rfl
    | false => rfl

theorem perform_connect (slot : Slot) (ok : Bool) :
    slot.perform ⟨.connect, ok⟩ = if slot.alive then slot else slot.spawnInto ok := by
  simp only [perform, begin]
  cases slot.alive with
  | true => rfl
  | false => rfl

/-- The steps of one operation by itself take it from here to its end. -/
def EndsAlone (c : SlotCall) (slot : Slot) (phase : Phase) (slot' : Slot) : Prop :=
  ∀ stopped, ∃ n stopped', follow Interleaved.step ⟨slot, [⟨c, phase, stopped⟩]⟩
    (List.replicate n (.acts 0)) = some ⟨slot', [⟨c, .done, stopped'⟩]⟩

theorem EndsAlone.done (c : SlotCall) (slot : Slot) : EndsAlone c slot .done slot :=
  fun stopped => ⟨0, stopped, rfl⟩

theorem EndsAlone.step {c : SlotCall} {slot slot₁ slot' : Slot} {phase phase₁ : Phase}
    (hadv : slot.advance c phase = some (slot₁, phase₁)) (h : EndsAlone c slot₁ phase₁ slot') :
    EndsAlone c slot phase slot' := by
  intro stopped
  have hstep : Interleaved.step ⟨slot, [⟨c, phase, stopped⟩]⟩ (.acts 0) =
      some ⟨slot₁, [⟨c, phase₁, if phase = .waiting then false else stopped⟩]⟩ := by
    simp only [Interleaved.step, List.getElem?_cons_zero, hadv, Interleaved.noteStop]
    split
    · rfl
    · rfl
  obtain ⟨n, stopped', hn⟩ := h (if phase = .waiting then false else stopped)
  refine ⟨n + 1, stopped', ?_⟩
  rw [List.replicate_succ, follow, List.foldlM_cons, hstep]
  exact hn

theorem endsAlone_finish {c : SlotCall} {phase : Phase} (slot : Slot) (h : phase ≠ .waiting) :
    EndsAlone c slot phase (slot.finish c phase) := by
  cases phase with
  | waiting => exact absurd rfl h
  | done => exact .done c slot
  | failed => exact .step rfl (.done c _)
  | spawned child => exact .step rfl (.done c _)
  | spawning executable =>
    refine .step rfl ?_
    obtain ⟨op, ok⟩ := c
    simp only [finish, SlotCall.spawn]
    cases ok with
    | true => exact .step rfl (.done _ _)
    | false =>
      by_cases hop : op = .checkAndRestart
      · simp only [Bool.false_eq_true, ↓reduceIte, hop]
        exact .step rfl (.done _ _)
      · simp only [Bool.false_eq_true, ↓reduceIte, hop]
        exact .done _ _

theorem begin_ne_waiting (c : SlotCall) (slot : Slot) : (slot.begin c).2 ≠ .waiting := by
  unfold begin
  split
  · split
    · exact Phase.noConfusion
    · exact Phase.noConfusion
  · exact Phase.noConfusion
  · exact Phase.noConfusion
  · exact Phase.noConfusion
  · split
    · exact Phase.noConfusion
    · exact Phase.noConfusion
  · split
    · exact Phase.noConfusion
    · exact Phase.noConfusion

/-- `perform` is the run of the operation's sections and spawn by themselves. -/
theorem endsAlone_perform (c : SlotCall) (slot : Slot) :
    EndsAlone c slot .waiting (slot.perform c) :=
  .step rfl (endsAlone_finish _ (begin_ne_waiting c slot))

/-- The entry's executable is `x`, and its process runs it. -/
def RunsOnly (x : Str) (slot : Slot) : Prop :=
  slot.executable = x ∧ ∀ child, slot.process = some child → child.executable = x

theorem RunsOnly.spawnInto {x : Str} {slot : Slot} (h : RunsOnly x slot) (ok : Bool) :
    RunsOnly x (slot.spawnInto ok) := by
  cases ok with
  | true => exact ⟨h.1, fun child hc => by cases hc; exact h.1⟩
  | false => exact h

theorem RunsOnly.exited {x : Str} {slot : Slot} (h : slot.RunsOnly x) : slot.exited.RunsOnly x := by
  refine ⟨h.1, fun child hc => ?_⟩
  obtain ⟨child', hc', rfl⟩ := Option.map_eq_some_iff.mp hc
  exact h.2 child' hc'

theorem RunsOnly.reset {slot : Slot} : RunsOnly slot.executable slot.reset :=
  ⟨rfl, fun child hc => by cases hc⟩

/-! ## A serial run beside an interleaved one -/

/-- `v` differs from `slot` at most in its restart count, and in that its child still runs. -/
structure Beside (v slot : Slot) : Prop where
  executable : v.executable = slot.executable
  process : v.process.map (·.executable) = slot.process.map (·.executable)
  running : slot.alive = true → v.alive = true
  autoRestart : v.autoRestart = slot.autoRestart
  maxRestarts : v.maxRestarts = slot.maxRestarts

namespace Beside

variable {v slot : Slot}

theorem refl (slot : Slot) : Beside slot slot := ⟨rfl, rfl, id, rfl, rfl⟩

theorem process_eq_none (h : Beside v slot) : v.process = none ↔ slot.process = none := by
  rw [← Option.map_eq_none_iff, h.process, Option.map_eq_none_iff]

theorem exited (h : Beside v slot) : Beside v slot.exited where
  executable := h.executable
  process := by
    rw [h.process, Slot.exited, Option.map_map]
    rfl
  running hr := by
    rw [alive_exited] at hr
    cases hr
  autoRestart := h.autoRestart
  maxRestarts := h.maxRestarts

theorem reset (h : Beside v slot) : Beside v.reset slot.reset :=
  ⟨h.executable, rfl, id, h.autoRestart, h.maxRestarts⟩

theorem install (h : Beside v slot) {child : Child} (hc : child.executable = slot.executable) :
    Beside (v.install ⟨v.executable, true⟩) (slot.install child) where
  executable := h.executable
  process := congrArg some (h.executable.trans hc.symm)
  running _ := rfl
  autoRestart := h.autoRestart
  maxRestarts := h.maxRestarts

theorem spawnInto (h : Beside v slot) (ok : Bool) : Beside (v.spawnInto ok) (slot.spawnInto ok) := by
  cases ok with
  | true => exact h.install rfl
  | false => exact h

theorem replaced (h : Beside v slot) (newExecutable : Str) :
    Beside { v with executable := newExecutable } { slot with executable := newExecutable } :=
  ⟨rfl, h.process, h.running, h.autoRestart, h.maxRestarts⟩

theorem counted (h : Beside v slot) (n k : Int) :
    Beside { v with restartCount := n } { slot with restartCount := k } :=
  ⟨h.executable, h.process, h.running, h.autoRestart, h.maxRestarts⟩

/-- Once the child has exited, what is left is what `slot` is when its child has exited. -/
theorem process_eq (h : Beside v slot) : v.process = slot.process ∨ v.exited.process = slot.process := by
  have hp := h.process
  have hr := h.running
  rw [alive_iff, alive_iff] at hr
  simp only [Slot.exited]
  cases hs : slot.process with
  | none => exact .inl (h.process_eq_none.mpr hs)
  | some child =>
    obtain ⟨executable, running⟩ := child
    rw [hs, Option.map_some, Option.map_eq_some_iff] at hp
    obtain ⟨⟨executable', running'⟩, hv, rfl⟩ := hp
    rw [hv]
    cases running with
    | false => exact .inr rfl
    | true =>
      obtain ⟨child, hc, hrun⟩ := hr ⟨_, hs, rfl⟩
      rw [hv] at hc
      cases hc
      exact .inl (by rw [show running' = true from hrun])

end Beside

end Slot

/-! ## Calls in progress -/

/-- What its phase says of a call. -/
def Ongoing.Coherent (o : Ongoing) : Prop :=
  match o.phase with
  | .spawning _ => o.call.op = .start ∨ o.call.op = .checkAndRestart
  | .spawned _ => (o.call.op = .start ∨ o.call.op = .checkAndRestart) ∧ o.call.spawns = true
  | .failed => o.call.op = .checkAndRestart ∧ o.call.spawns = false
  | .waiting | .done => True

/-- `check_and_restart` has counted a restart that it has not settled. -/
def Ongoing.restarting (o : Ongoing) : Bool :=
  o.call.op = .checkAndRestart && o.phase ≠ .waiting && o.phase ≠ .done

theorem Ongoing.restarting_eq {c : SlotCall} {phase : Phase} (hw : phase ≠ .waiting)
    (hd : phase ≠ .done) (stopped : Bool) :
    Ongoing.restarting ⟨c, phase, stopped⟩ = decide (c.op = .checkAndRestart) := by
  rw [restarting, decide_eq_true hw, decide_eq_true hd, Bool.and_true, Bool.and_true]

theorem Ongoing.restarting_of_start {c : SlotCall} (h : c.op = .start) (phase : Phase)
    (stopped : Bool) : Ongoing.restarting ⟨c, phase, stopped⟩ = false := by
  rw [restarting, decide_eq_false (by rw [h]; exact SlotOp.noConfusion), Bool.false_and,
    Bool.false_and]

@[simp] theorem Ongoing.restarting_waiting (c : SlotCall) (stopped : Bool) :
    Ongoing.restarting ⟨c, .waiting, stopped⟩ = false := by
  rw [restarting, decide_eq_false (not_not.mpr rfl), Bool.and_false, Bool.false_and]

@[simp] theorem Ongoing.restarting_done (c : SlotCall) (stopped : Bool) :
    Ongoing.restarting ⟨c, .done, stopped⟩ = false := by
  rw [restarting, Bool.and_comm, decide_eq_false (not_not.mpr rfl), Bool.false_and]

/-- The calls that have not returned. -/
def openCalls (calls : List Ongoing) : List SlotCall :=
  (calls.filter fun o => o.phase ≠ .done).map (·.call)

def restartings (calls : List Ongoing) : Nat := calls.countP Ongoing.restarting

namespace Interleaved

variable {calls : List Ongoing} {o : Ongoing} {i : Nat}

theorem openCalls_noteStop (o : Ongoing) (calls : List Ongoing) :
    openCalls (noteStop o calls) = openCalls calls := by
  unfold noteStop
  split
  · simp only [openCalls, List.filter_map, List.map_map]
    rfl
  · rfl

theorem restartings_noteStop (o : Ongoing) (calls : List Ongoing) :
    restartings (noteStop o calls) = restartings calls := by
  unfold noteStop
  split
  · simp only [restartings, List.countP_map]
    rfl
  · rfl

theorem getElem?_noteStop (hi : calls[i]? = some o) :
    ∃ stopped, (noteStop o calls)[i]? = some { o with stopped } := by
  unfold noteStop
  split
  · exact ⟨true, by rw [List.getElem?_map, hi]; rfl⟩
  · exact ⟨o.stopped, hi⟩

theorem openCalls_done (hi : calls[i]? = some o) (ho : o.phase ≠ .done) (stopped : Bool) :
    (openCalls calls).Perm
      (o.call :: openCalls ((noteStop o calls).set i ⟨o.call, .done, stopped⟩)) := by
  obtain ⟨b, hb⟩ := getElem?_noteStop hi
  rw [← openCalls_noteStop o calls]
  exact List.filter_map_set (a := (⟨o.call, o.phase, b⟩ : Ongoing)) hb (decide_eq_true ho) rfl

theorem openCalls_open (hi : calls[i]? = some o) (ho : o.phase ≠ .done) {phase : Phase}
    (hp : phase ≠ .done) (stopped : Bool) :
    openCalls ((noteStop o calls).set i ⟨o.call, phase, stopped⟩) = openCalls calls := by
  obtain ⟨b, hb⟩ := getElem?_noteStop hi
  rw [← openCalls_noteStop o calls]
  exact List.filter_map_set_same hb ((decide_eq_true hp).trans (decide_eq_true ho).symm) rfl

theorem restartings_set (hi : calls[i]? = some o) (phase : Phase) (stopped : Bool) :
    restartings ((noteStop o calls).set i ⟨o.call, phase, stopped⟩) +
        (if o.restarting then 1 else 0) =
      restartings calls + if Ongoing.restarting ⟨o.call, phase, stopped⟩ then 1 else 0 := by
  obtain ⟨b, hb⟩ := getElem?_noteStop hi
  rw [← restartings_noteStop o calls]
  exact List.countP_set_eq (a := (⟨o.call, o.phase, b⟩ : Ongoing)) hb

end Interleaved

/-! ## The order of the calls -/

/-- The calls of `order`, run serially, lead to `v`; those of `late` have found nothing to
restart; those of `rest` have not returned, and among them are `k` restarts. -/
structure Ordered (slot₀ : Slot) (cs : List SlotCall) (slot : Slot) (rest : List SlotCall) (k : Nat)
    (order late : List SlotCall) (v : Slot) : Prop where
  serial : Serial Slot.perform Slot.Idle slot₀ order v
  perm : (order ++ late ++ rest).Perm cs
  beside : v.Beside slot
  counted : v.restartCount + k ≤ slot.restartCount
  allowed : 0 < k → slot.autoRestart = true ∧
    (0 < slot.maxRestarts → slot.restartCount ≤ slot.maxRestarts)
  /-- The dead child is the one that the run began with. -/
  untouched : v.process = none ∨ v.alive = true ∨ v.restartCount + k = slot.restartCount
  late_eq : ∀ c ∈ late, c.op = .checkAndRestart ∧ (v.process = none ∨ v.alive = true ∨
    slot.autoRestart = false ∨ (0 < slot.maxRestarts ∧ slot.maxRestarts ≤ v.restartCount + k))

namespace Ordered

variable {slot₀ slot slot' v v' : Slot} {cs rest rest' order late : List SlotCall} {k k' : Nat}
  {c : SlotCall}

theorem perm_serve (h : (order ++ late ++ rest).Perm cs) (hrest : rest.Perm (c :: rest')) :
    (order ++ [c] ++ late ++ rest').Perm cs := by
  refine List.Perm.trans ?_ h
  rw [List.append_assoc, List.append_assoc, List.append_assoc]
  refine List.Perm.append_left order ?_
  refine List.Perm.trans ?_ (hrest.append_left late).symm
  show (c :: (late ++ rest')).Perm (late ++ c :: rest')
  exact List.perm_middle.symm

theorem perm_late (h : (order ++ late ++ rest).Perm cs) (hrest : rest.Perm (c :: rest')) :
    (order ++ (late ++ [c]) ++ rest').Perm cs := by
  refine List.Perm.trans ?_ h
  rw [List.append_assoc, List.append_assoc, List.append_assoc]
  exact List.Perm.append_left order (hrest.symm.append_left late)

/-- A call that would change nothing in the serial run either. -/
theorem serve_idle (h : Ordered slot₀ cs slot rest k order late v) (hrest : rest.Perm (c :: rest'))
    (hc : v.perform c = v) : Ordered slot₀ cs slot rest' k (order ++ [c]) late v where
  serial := by
    have hserial := h.serial.call c
    rwa [hc] at hserial
  perm := perm_serve h.perm hrest
  beside := h.beside
  counted := h.counted
  allowed := h.allowed
  untouched := h.untouched
  late_eq := h.late_eq

/-- A call that leaves the service empty or with a new process. -/
theorem serve (h : Ordered slot₀ cs slot rest k order late v) (hrest : rest.Perm (c :: rest'))
    (hserial : Serial Slot.perform Slot.Idle slot₀ (order ++ [c]) v') (hb : v'.Beside slot')
    (ht : v'.process = none ∨ v'.alive = true) (hk : k' ≤ k)
    (hv : v'.restartCount + k' ≤ slot.restartCount)
    (hsame : slot'.autoRestart = slot.autoRestart ∧ slot'.maxRestarts = slot.maxRestarts ∧
      slot'.restartCount = slot.restartCount) :
    Ordered slot₀ cs slot' rest' k' (order ++ [c]) late v' where
  serial := hserial
  perm := perm_serve h.perm hrest
  beside := hb
  counted := by rw [hsame.2.2]; exact hv
  allowed hpos := by
    rw [hsame.1, hsame.2.1, hsame.2.2]
    exact h.allowed (by omega)
  untouched := by
    rcases ht with ht | ht
    · exact .inl ht
    · exact .inr (.inl ht)
  late_eq d hd := by
    refine ⟨(h.late_eq d hd).1, ?_⟩
    rcases ht with ht | ht
    · exact .inl ht
    · exact .inr (.inl ht)

/-- A service that is not empty is restarted, as far as the serial run can tell. -/
theorem needsRestart_exited (h : Ordered slot₀ cs slot rest k order late v) (hk : 0 < k)
    (hp : slot.process ≠ none) : v.exited.needsRestart = true := by
  obtain ⟨hauto, hmax⟩ := h.allowed hk
  have hcount := h.counted
  rw [← Bool.not_eq_false, Slot.needsRestart_eq_false_iff]
  rintro (hn | hr | ha | ⟨hpos, hle⟩)
  · exact hp (h.beside.process_eq_none.mp (Option.map_eq_none_iff.mp hn))
  · rw [Slot.alive_exited] at hr
    cases hr
  · rw [← h.beside.autoRestart] at hauto
    exact absurd (hauto.symm.trans ha) (by decide)
  · have hle' : slot.maxRestarts ≤ v.restartCount := by
      rw [← h.beside.maxRestarts]
      exact hle
    have hpos' : 0 < slot.maxRestarts := by
      rw [← h.beside.maxRestarts]
      exact hpos
    have := hmax hpos'
    omega

/-- `start` and `connect` on a service whose child does not run. -/
theorem serial_spawn (h : Ordered slot₀ cs slot rest k order late v) (hop : c.op = .start ∨
    c.op = .connect) (hok : c.spawns = true) :
    Serial Slot.perform Slot.Idle slot₀ (order ++ [c]) (v.install ⟨v.executable, true⟩) := by
  have hcall := (h.serial.idle rfl).call c
  have hperform : v.exited.perform c = v.install ⟨v.executable, true⟩ := by
    obtain ⟨op, ok⟩ := c
    cases hok
    rcases hop with rfl | rfl
    · rw [Slot.perform_start, Slot.alive_exited]
      rfl
    · rw [Slot.perform_connect, Slot.alive_exited]
      rfl
  rwa [hperform] at hcall

/-- `start` and `connect` that spawn nothing. -/
theorem perform_idle (hop : c.op = .start ∨ c.op = .connect)
    (h : c.spawns = false ∨ v.alive = true) : v.perform c = v := by
  obtain ⟨op, ok⟩ := c
  rcases hop with rfl | rfl
  · rw [Slot.perform_start]
    split
    · rfl
    · next ha =>
      cases h.resolve_right ha
      rfl
  · rw [Slot.perform_connect]
    split
    · rfl
    · next ha =>
      cases h.resolve_right ha
      rfl

theorem alive_or_none_spawnInto (slot : Slot) (ok : Bool) :
    (slot.reset.spawnInto ok).process = none ∨ (slot.reset.spawnInto ok).alive = true := by
  cases ok with
  | true => exact .inr rfl
  | false => exact .inl rfl

/-- `check_and_restart` finds nothing to restart. -/
theorem serve_late (h : Ordered slot₀ cs slot rest k order late v) (hrest : rest.Perm (c :: rest'))
    (hop : c.op = .checkAndRestart) (hn : slot.needsRestart = false) :
    Ordered slot₀ cs slot rest' k order (late ++ [c]) v where
  serial := h.serial
  perm := perm_late h.perm hrest
  beside := h.beside
  counted := h.counted
  allowed := h.allowed
  untouched := h.untouched
  late_eq d hd := by
    rcases List.mem_append.mp hd with hd | hd
    · exact h.late_eq d hd
    · cases List.mem_singleton.mp hd
      refine ⟨hop, ?_⟩
      rcases Slot.needsRestart_eq_false_iff.mp hn with hp | ha | hauto | ⟨hpos, hle⟩
      · exact .inl (h.beside.process_eq_none.mpr hp)
      · exact .inr (.inl (h.beside.running ha))
      · exact .inr (.inr (.inl hauto))
      · rcases h.untouched with ht | ht | ht
        · exact .inl ht
        · exact .inr (.inl ht)
        · exact .inr (.inr (.inr ⟨hpos, by rw [ht]; exact hle⟩))

/-- `check_and_restart` counts a restart. -/
theorem count (h : Ordered slot₀ cs slot rest k order late v) (hn : slot.needsRestart = true) :
    Ordered slot₀ cs { slot with restartCount := slot.restartCount + 1 } rest (k + 1)
      order late v := by
  have hnot := mt Slot.needsRestart_eq_false_iff.mpr (by rw [hn]; decide)
  rw [not_or, not_or, not_or, Bool.not_eq_false] at hnot
  obtain ⟨-, -, hauto, hmax⟩ := hnot
  refine ⟨h.serial, h.perm, h.beside.counted v.restartCount _, ?_, fun _ => ⟨hauto, ?_⟩, ?_, ?_⟩
  · have := h.counted
    push_cast
    omega
  · intro hpos
    have hlt : ¬ slot.maxRestarts ≤ slot.restartCount := fun hle => hmax ⟨hpos, hle⟩
    show slot.restartCount + 1 ≤ slot.maxRestarts
    omega
  · rcases h.untouched with ht | ht | ht
    · exact .inl ht
    · exact .inr (.inl ht)
    · refine .inr (.inr ?_)
      push_cast
      rw [← ht]
      omega
  · intro d hd
    obtain ⟨hop, hidle⟩ := h.late_eq d hd
    refine ⟨hop, ?_⟩
    rcases hidle with hp | ha | hf | ⟨hpos, hle⟩
    · exact .inl hp
    · exact .inr (.inl ha)
    · exact .inr (.inr (.inl hf))
    · refine .inr (.inr (.inr ⟨hpos, ?_⟩))
      push_cast
      show slot.maxRestarts ≤ _
      omega

/-! ### One case for each phase -/

/-- The first section of a call. -/
theorem begins {phase : Phase} (h : Ordered slot₀ cs slot rest k order late v)
    (hadv : slot.begin c = (slot', phase))
    (hdone : phase = .done → rest.Perm (c :: rest') ∧ k' = k)
    (hopen : phase ≠ .done → rest' = rest ∧ k' = k + if c.op = .checkAndRestart then 1 else 0) :
    ∃ order' late' v', Ordered slot₀ cs slot' rest' k' order' late' v' := by
  obtain ⟨op, ok⟩ := c
  cases op with
  | stop =>
    cases hadv
    obtain ⟨hrest, rfl⟩ := hdone rfl
    exact ⟨_, _, _, h.serve hrest (h.serial.call _) h.beside.reset (.inl rfl) (le_refl _) h.counted
      ⟨rfl, rfl, rfl⟩⟩
  | restart =>
    cases hadv
    obtain ⟨hrest, rfl⟩ := hdone rfl
    have hcount : (v.perform ⟨.restart, ok⟩).restartCount + (k' : Int) ≤ slot.restartCount := by
      cases ok with
      | true => exact h.counted
      | false => exact h.counted
    refine ⟨_, _, _, h.serve hrest (h.serial.call _) (h.beside.reset.spawnInto ok)
      (alive_or_none_spawnInto v ok) (le_refl _) hcount ?_⟩
    cases ok with
    | true => exact ⟨rfl, rfl, rfl⟩
    | false => exact ⟨rfl, rfl, rfl⟩
  | replace newExecutable =>
    cases hadv
    obtain ⟨hrest, rfl⟩ := hdone rfl
    have hcount : (v.perform ⟨.replace newExecutable, ok⟩).restartCount + (k' : Int) ≤
        slot.restartCount := by
      cases ok with
      | true => exact h.counted
      | false => exact h.counted
    refine ⟨_, _, _, h.serve hrest (h.serial.call _)
      ((h.beside.reset.replaced newExecutable).spawnInto ok)
      (alive_or_none_spawnInto { v with executable := newExecutable } ok) (le_refl _) hcount ?_⟩
    cases ok with
    | true => exact ⟨rfl, rfl, rfl⟩
    | false => exact ⟨rfl, rfl, rfl⟩
  | start =>
    simp only [Slot.begin] at hadv
    split at hadv
    · next ha =>
      cases hadv
      obtain ⟨hrest, rfl⟩ := hdone rfl
      exact ⟨_, _, _, h.serve_idle hrest (perform_idle (.inl rfl) (.inr (h.beside.running ha)))⟩
    · cases hadv
      obtain ⟨rfl, rfl⟩ := hopen Phase.noConfusion
      exact ⟨_, _, _, h⟩
  | connect =>
    simp only [Slot.begin] at hadv
    split at hadv
    · next ha =>
      cases hadv
      obtain ⟨hrest, rfl⟩ := hdone rfl
      exact ⟨_, _, _, h.serve_idle hrest (perform_idle (.inr rfl) (.inr (h.beside.running ha)))⟩
    · cases hadv
      obtain ⟨hrest, rfl⟩ := hdone rfl
      cases ok with
      | true =>
        exact ⟨_, _, _, h.serve hrest (h.serial_spawn (.inr rfl) rfl) (h.beside.install rfl)
          (.inr rfl) (le_refl _) h.counted ⟨rfl, rfl, rfl⟩⟩
      | false => exact ⟨_, _, _, h.serve_idle hrest (perform_idle (.inr rfl) (.inl rfl))⟩
  | checkAndRestart =>
    simp only [Slot.begin] at hadv
    split at hadv
    · next hn =>
      cases hadv
      obtain ⟨rfl, rfl⟩ := hopen Phase.noConfusion
      exact ⟨_, _, _, h.count hn⟩
    · next hn =>
      cases hadv
      obtain ⟨hrest, rfl⟩ := hdone rfl
      exact ⟨_, _, _, h.serve_late hrest rfl (Bool.not_eq_true _ ▸ hn)⟩

/-- The spawn of `start` failed: it throws. -/
theorem gives_up (h : Ordered slot₀ cs slot rest k order late v) (hop : c.op = .start)
    (hok : c.spawns = false) (hrest : rest.Perm (c :: rest')) :
    Ordered slot₀ cs slot rest' k (order ++ [c]) late v :=
  h.serve_idle hrest (perform_idle (.inl hop) (.inl hok))

/-- `start` writes back. -/
theorem starts {child : Child} (h : Ordered slot₀ cs slot rest k order late v)
    (hop : c.op = .start) (hok : c.spawns = true) (hc : child.executable = slot.executable)
    (hrest : rest.Perm (c :: rest')) :
    Ordered slot₀ cs (slot.install child) rest' k (order ++ [c]) late
      (v.install ⟨v.executable, true⟩) :=
  h.serve hrest (h.serial_spawn (.inl hop) hok) (h.beside.install hc) (.inr rfl) (le_refl _)
    h.counted ⟨rfl, rfl, rfl⟩

/-- `check_and_restart` writes back. -/
theorem restarts {child : Child} (h : Ordered slot₀ cs slot rest k order late v)
    (hop : c.op = .checkAndRestart) (hok : c.spawns = true)
    (hc : child.executable = slot.executable) (hp : slot.process ≠ none) (hk : k' + 1 = k)
    (hrest : rest.Perm (c :: rest')) :
    Ordered slot₀ cs (slot.install child) rest' k' (order ++ [c]) late
      ({ v with restartCount := v.restartCount + 1 }.install ⟨v.executable, true⟩) := by
  have hcall := (h.serial.idle rfl).call c
  obtain ⟨op, ok⟩ := c
  cases hop
  cases hok
  rw [Slot.perform_checkAndRestart true (h.needsRestart_exited (by omega) hp), if_pos rfl] at hcall
  have hcount := h.counted
  refine h.serve hrest hcall ((h.beside.counted (v.restartCount + 1) slot.restartCount).install hc)
    (.inr rfl) (by omega) ?_ ⟨rfl, rfl, rfl⟩
  show v.restartCount + 1 + (k' : Int) ≤ slot.restartCount
  omega

/-- The handler of `check_and_restart`. -/
theorem fails (h : Ordered slot₀ cs slot rest k order late v)
    (hop : c.op = .checkAndRestart) (hok : c.spawns = false) (hk : k' + 1 = k)
    (hrest : rest.Perm (c :: rest')) :
    ∃ order' late' v', Ordered slot₀ cs slot.reset rest' k' order' late' v' := by
  obtain ⟨op, ok⟩ := c
  cases hop
  cases hok
  have hcount := h.counted
  by_cases hp : slot.process = none
  · -- Someone else has emptied the service: serially there is nothing to restart.
    have hv := h.beside.process_eq_none.mpr hp
    have hcall := h.serial.call ⟨.checkAndRestart, false⟩
    rw [Slot.perform_checkAndRestart_of_not (Slot.needsRestart_eq_false_iff.mpr (.inl hv))] at hcall
    have hb : v.Beside slot.reset := by
      have hreset : slot.reset = slot := by rw [Slot.reset, ← hp]
      rw [hreset]
      exact h.beside
    exact ⟨_, _, _, h.serve hrest hcall hb (.inl hv) (by omega) (by omega) ⟨rfl, rfl, rfl⟩⟩
  · have hcall := (h.serial.idle rfl).call ⟨.checkAndRestart, false⟩
    rw [Slot.perform_checkAndRestart false (h.needsRestart_exited (by omega) hp),
      if_neg Bool.false_ne_true] at hcall
    refine ⟨_, _, _, h.serve hrest hcall
      (h.beside.counted (v.restartCount + 1) slot.restartCount).reset (.inl rfl) (by omega) ?_
      ⟨rfl, rfl, rfl⟩⟩
    show v.restartCount + 1 + (k' : Int) ≤ slot.restartCount
    omega

/-- A child exits. -/
theorem exits (h : Ordered slot₀ cs slot rest k order late v) :
    Ordered slot₀ cs slot.exited rest k order late v :=
  ⟨h.serial, h.perm, h.beside.exited, h.counted, h.allowed, h.untouched, h.late_eq⟩

end Ordered

/-! ## Steps -/

/-- Its call can leave the service with a process where there was none. -/
def SlotOp.Installs : SlotOp → Prop
  | start | connect | restart | replace _ => True
  | stop | checkAndRestart => False

def SlotOp.Replaces : SlotOp → Prop
  | replace _ => True
  | start | connect | restart | stop | checkAndRestart => False

namespace Interleaved

variable {s s' : Interleaved} {e : SlotEvent}

/-- A write-back finds the entry with the executable that it has spawned; it finds it empty
only in a `start`, and when no `stop` has returned since the `start` began. -/
def WritesBackSafely (s : Interleaved) (e : SlotEvent) : Prop :=
  ∀ i o child, e = .acts i → s.calls[i]? = some o → o.phase = .spawned child →
    child.executable = s.slot.executable ∧
      (s.slot.process = none → o.call.op = .start ∧ o.stopped = false)

/-- All that a step can do. -/
theorem step_cases (h : step s e = some s') :
    (e = .exits ∧ s' = { s with slot := s.slot.exited }) ∨
    (∃ i call child stopped, e = .exitsEarly i ∧
      s.calls[i]? = some ⟨call, .spawned child, stopped⟩ ∧
      s' = { s with
        calls := s.calls.set i ⟨call, .spawned { child with running := false }, stopped⟩ }) ∨
    (∃ i o slot phase stopped, e = .acts i ∧ s.calls[i]? = some o ∧
      s.slot.advance o.call o.phase = some (slot, phase) ∧
      (o.phase ≠ .waiting → stopped = o.stopped) ∧
      s' = ⟨slot, (noteStop o s.calls).set i ⟨o.call, phase, stopped⟩⟩) := by
  cases e with
  | exits =>
    cases h
    exact .inl ⟨rfl, rfl⟩
  | exitsEarly i =>
    simp only [step] at h
    split at h
    · next call child stopped hi =>
      cases h
      exact .inr (.inl ⟨i, call, child, stopped, rfl, hi, rfl⟩)
    · cases h
  | acts i =>
    simp only [step] at h
    split at h
    · cases h
    · next o hi =>
      split at h
      · cases h
      · next slot phase hadv =>
        cases h
        exact .inr (.inr ⟨i, o, slot, phase, _, rfl, hi, hadv, fun hw => if_neg hw, rfl⟩)

theorem step_acts {i : Nat} {o : Ongoing} (hi : s.calls[i]? = some o)
    (h : step s (.acts i) = some s') : ∃ slot phase stopped,
      s.slot.advance o.call o.phase = some (slot, phase) ∧
      s' = ⟨slot, (noteStop o s.calls).set i ⟨o.call, phase, stopped⟩⟩ := by
  rcases step_cases h with ⟨he, -⟩ | ⟨_, _, _, _, he, -, -⟩ |
    ⟨i', o', slot, phase, stopped, he, hi', hadv, -, rfl⟩
  · cases he
  · cases he
  · cases he
    cases hi.symm.trans hi'
    exact ⟨slot, phase, stopped, hadv, rfl⟩

/-! ### Phases and calls -/

theorem coherent_advance {c : SlotCall} {slot slot' : Slot} {phase phase' : Phase}
    {stopped stopped' : Bool} (h : Ongoing.Coherent ⟨c, phase, stopped⟩)
    (hadv : slot.advance c phase = some (slot', phase')) :
    Ongoing.Coherent ⟨c, phase', stopped'⟩ := by
  obtain ⟨op, ok⟩ := c
  cases phase with
  | done => cases hadv
  | failed => cases hadv; trivial
  | spawned child => cases hadv; trivial
  | spawning executable =>
    cases hadv
    cases ok with
    | true => exact ⟨h, rfl⟩
    | false =>
      rcases h with rfl | rfl
      · trivial
      · exact ⟨rfl, rfl⟩
  | waiting =>
    cases op with
    | stop => cases hadv; trivial
    | restart => cases hadv; trivial
    | replace newExecutable => cases hadv; trivial
    | connect =>
      simp only [Slot.advance, Slot.begin] at hadv
      split at hadv
      · cases hadv; trivial
      · cases hadv; trivial
    | start =>
      simp only [Slot.advance, Slot.begin] at hadv
      split at hadv
      · cases hadv; trivial
      · cases hadv; exact .inl rfl
    | checkAndRestart =>
      simp only [Slot.advance, Slot.begin] at hadv
      split at hadv
      · cases hadv; exact .inr rfl
      · cases hadv; trivial

theorem mem_noteStop {o o' : Ongoing} {calls : List Ongoing} (h : o' ∈ noteStop o calls) :
    ∃ o'' ∈ calls, o'.call = o''.call ∧ o'.phase = o''.phase ∧
      (o'.stopped = true ∨ o'.stopped = o''.stopped) := by
  unfold noteStop at h
  split at h
  · obtain ⟨o'', hm, rfl⟩ := List.mem_map.mp h
    exact ⟨o'', hm, rfl, rfl, .inl rfl⟩
  · exact ⟨o', h, rfl, rfl, .inr rfl⟩

theorem stopped_of_mem_noteStop {o o' : Ongoing} {calls : List Ongoing} (hop : o.call.op = .stop)
    (h : o' ∈ noteStop o calls) : o'.stopped = true := by
  rw [noteStop, if_pos hop] at h
  obtain ⟨o'', -, rfl⟩ := List.mem_map.mp h
  rfl

theorem coherent_step (h : ∀ o ∈ s.calls, o.Coherent) (hstep : step s e = some s') :
    ∀ o ∈ s'.calls, o.Coherent := by
  rcases step_cases hstep with ⟨-, rfl⟩ | ⟨i, call, child, stopped, -, hi, rfl⟩ |
    ⟨i, o, slot, phase, stopped, -, hi, hadv, -, rfl⟩
  · exact h
  · intro o ho
    rcases List.mem_or_eq_of_mem_set ho with ho | rfl
    · exact h o ho
    · have hcoh := h _ (List.mem_of_getElem? hi)
      exact hcoh
  · intro o' ho'
    rcases List.mem_or_eq_of_mem_set ho' with ho' | rfl
    · obtain ⟨⟨call, phase, b⟩, hm, hcall, hphase, -⟩ := mem_noteStop ho'
      obtain ⟨_, _, _⟩ := o'
      cases hcall
      cases hphase
      have hcoh := h _ hm
      exact hcoh
    · exact coherent_advance (h o (List.mem_of_getElem? hi)) hadv

theorem openCalls_create (cs : List SlotCall) : openCalls (cs.map SlotCall.ongoing) = cs := by
  unfold openCalls
  rw [List.filter_map, List.map_map]
  induction cs with
  | nil => rfl
  | cons c cs ih => exact congrArg (c :: ·) ih

theorem restartings_create (cs : List SlotCall) :
    restartings (cs.map SlotCall.ongoing) = 0 := by
  unfold restartings
  rw [List.countP_map, List.countP_eq_zero]
  intro c _
  simp only [Function.comp_apply, SlotCall.ongoing, Ongoing.restarting, ne_eq, not_true_eq_false,
    decide_false, Bool.and_false, Bool.false_and, Bool.false_eq_true, not_false_eq_true]

/-- The calls of a run, in order as far as they have returned. -/
def HasOrder (slot₀ : Slot) (cs : List SlotCall) (s : Interleaved) : Prop :=
  ∃ order late v,
    Ordered slot₀ cs s.slot (openCalls s.calls) (restartings s.calls) order late v

theorem hasOrder_create (slot : Slot) (cs : List SlotCall) :
    HasOrder slot cs (create slot cs) := by
  refine ⟨[], [], slot, ?_⟩
  simp only [create, openCalls_create, restartings_create]
  exact ⟨.nil, List.Perm.refl _, .refl slot, by omega, fun h => absurd h (by omega),
    .inr (.inr (by omega)), fun c hc => by cases hc⟩

theorem hasOrder_step {slot₀ : Slot} {cs : List SlotCall} (h : HasOrder slot₀ cs s)
    (hcoh : ∀ o ∈ s.calls, o.Coherent) (hsafe : WritesBackSafely s e)
    (hstep : step s e = some s') : HasOrder slot₀ cs s' := by
  obtain ⟨order, late, v, h⟩ := h
  rcases step_cases hstep with ⟨-, rfl⟩ | ⟨i, call, child, stopped, -, hi, rfl⟩ |
    ⟨i, o, slot, phase, stopped, rfl, hi, hadv, -, rfl⟩
  · exact ⟨order, late, v, h.exits⟩
  · refine ⟨order, late, v, ?_⟩
    have hrest : openCalls (s.calls.set i
        ⟨call, .spawned { child with running := false }, stopped⟩) = openCalls s.calls :=
      List.filter_map_set_same hi rfl rfl
    have hcount := List.countP_set_eq (p := Ongoing.restarting)
      (b := ⟨call, .spawned { child with running := false }, stopped⟩) hi
    rw [hrest, restartings, Nat.add_right_cancel hcount]
    exact h
  · have hc := hcoh o (List.mem_of_getElem? hi)
    have hcount := restartings_set hi phase stopped
    obtain ⟨c, phase₀, b⟩ := o
    cases phase₀ with
    | done => cases hadv
    | waiting =>
      rw [Ongoing.restarting_waiting, if_neg Bool.false_ne_true, Nat.add_zero] at hcount
      have hbegin : s.slot.begin c = (slot, phase) := Option.some.inj hadv
      refine h.begins hbegin ?_ ?_
      · rintro rfl
        rw [Ongoing.restarting_done, if_neg Bool.false_ne_true, Nat.add_zero] at hcount
        exact ⟨openCalls_done hi Phase.noConfusion stopped, hcount⟩
      · intro hd
        have hw : phase ≠ .waiting := by
          have hne := Slot.begin_ne_waiting c s.slot
          rwa [hbegin] at hne
        rw [Ongoing.restarting_eq hw hd] at hcount
        simp only [decide_eq_true_eq] at hcount
        exact ⟨openCalls_open hi Phase.noConfusion hd stopped, hcount⟩
    | spawning executable =>
      cases hadv
      obtain ⟨op, ok⟩ := c
      cases ok with
      | true =>
        rw [Ongoing.restarting_eq Phase.noConfusion Phase.noConfusion,
          Ongoing.restarting_eq Phase.noConfusion Phase.noConfusion] at hcount
        refine ⟨order, late, v, ?_⟩
        rw [openCalls_open hi Phase.noConfusion Phase.noConfusion,
          Nat.add_right_cancel hcount]
        exact h
      | false =>
        rcases hc with rfl | rfl
        · rw [Ongoing.restarting_of_start rfl, Ongoing.restarting_of_start rfl] at hcount
          have hserve := h.gives_up rfl rfl (openCalls_done hi Phase.noConfusion stopped)
          rw [← Nat.add_right_cancel hcount] at hserve
          exact ⟨_, _, _, hserve⟩
        · rw [Ongoing.restarting_eq Phase.noConfusion Phase.noConfusion,
            Ongoing.restarting_eq Phase.noConfusion Phase.noConfusion] at hcount
          refine ⟨order, late, v, ?_⟩
          rw [openCalls_open hi Phase.noConfusion Phase.noConfusion, Nat.add_right_cancel hcount]
          exact h
    | spawned child =>
      cases hadv
      obtain ⟨hexe, hempty⟩ := hsafe i _ child rfl hi rfl
      obtain ⟨hop, hok⟩ := hc
      rcases hop with hop | hop
      · rw [Ongoing.restarting_of_start hop, Ongoing.restarting_of_start hop] at hcount
        have hserve := h.starts hop hok hexe (openCalls_done hi Phase.noConfusion stopped)
        rw [← Nat.add_right_cancel hcount] at hserve
        exact ⟨_, _, _, hserve⟩
      · rw [Ongoing.restarting_eq Phase.noConfusion Phase.noConfusion, decide_eq_true hop,
          if_pos rfl, Ongoing.restarting_done, if_neg Bool.false_ne_true, Nat.add_zero] at hcount
        have hp : s.slot.process ≠ none := fun hn => by
          rw [(hempty hn).1] at hop
          cases hop
        exact ⟨_, _, _, h.restarts hop hok hexe hp hcount
          (openCalls_done hi Phase.noConfusion stopped)⟩
    | failed =>
      cases hadv
      obtain ⟨hop, hok⟩ := hc
      rw [Ongoing.restarting_eq Phase.noConfusion Phase.noConfusion, decide_eq_true hop, if_pos rfl,
        Ongoing.restarting_done, if_neg Bool.false_ne_true, Nat.add_zero] at hcount
      exact h.fails hop hok hcount (openCalls_done hi Phase.noConfusion stopped)

/-! ## Runs -/

/-- A call of one of these operations takes its first section. -/
def Begins (ops : SlotOp → Prop) (s : Interleaved) (e : SlotEvent) : Prop :=
  ∃ i o, e = .acts i ∧ s.calls[i]? = some o ∧ o.phase = .waiting ∧ ops o.call.op

variable {slot : Slot} {cs : List SlotCall} {es : List SlotEvent}

/-- When all calls have returned, they have been served in some order. -/
theorem serializable (h : Run step WritesBackSafely (create slot cs) es s)
    (hdone : ∀ o ∈ s.calls, o.phase = .done) :
    ∃ order slot', order.Perm cs ∧ Serial Slot.perform Slot.Idle slot order slot' ∧
      slot'.process = s.slot.process := by
  have hinv := h.invariant (fun s => HasOrder slot cs s ∧ ∀ o ∈ s.calls, o.Coherent)
    ⟨hasOrder_create slot cs, fun o ho => by
      obtain ⟨c, -, rfl⟩ := List.mem_map.mp ho
      trivial⟩
    fun t e t' ⟨ho, hc⟩ hsafe hstep => ⟨hasOrder_step ho hc hsafe hstep, coherent_step hc hstep⟩
  obtain ⟨⟨order, late, v, ho⟩, -⟩ := hinv
  have hrest : openCalls s.calls = [] := by
    rw [openCalls, List.map_eq_nil_iff, List.filter_eq_nil_iff]
    exact fun o hm => by rw [hdone o hm]; decide
  have hk : restartings s.calls = 0 := by
    rw [restartings, List.countP_eq_zero]
    intro o hm
    obtain ⟨c, phase, stopped⟩ := o
    cases hdone _ hm
    rw [Ongoing.restarting_done]
    exact Bool.false_ne_true
  rw [hrest, hk] at ho
  have hperm := ho.perm
  rw [List.append_nil] at hperm
  have hlate : ∀ c ∈ late, v.perform c = v := by
    intro c hc
    obtain ⟨hop, hidle⟩ := ho.late_eq c hc
    obtain ⟨op, ok⟩ := c
    cases hop
    refine Slot.perform_checkAndRestart_of_not (Slot.needsRestart_eq_false_iff.mpr ?_)
    rw [ho.beside.autoRestart, ho.beside.maxRestarts]
    rcases hidle with hp | ha | hf | ⟨hpos, hle⟩
    · exact .inl hp
    · exact .inr (.inl ha)
    · exact .inr (.inr (.inl hf))
    · exact .inr (.inr (.inr ⟨hpos, by omega⟩))
  have hserial := ho.serial.fixed hlate
  rcases ho.beside.process_eq with hp | hp
  · exact ⟨_, v, hperm, hserial, hp⟩
  · exact ⟨_, v.exited, hperm, hserial.idle rfl, hp⟩

/-- The service is empty, and the starts that have begun know of a `stop`. -/
def Stopped (s : Interleaved) : Prop :=
  s.slot.process = none ∧ ∀ o ∈ s.calls, o.phase = .waiting ∨ o.phase = .done ∨ o.stopped = true

theorem begin_of_empty {c : SlotCall} {slot' : Slot} {phase : Phase} (hn : slot.process = none)
    (hop : ¬ c.op.Installs) (h : slot.begin c = (slot', phase)) :
    slot'.process = none ∧ phase = .done := by
  obtain ⟨op, ok⟩ := c
  cases op with
  | stop =>
    cases h
    exact ⟨rfl, rfl⟩
  | checkAndRestart =>
    have hidle := Slot.needsRestart_eq_false_iff.mpr (.inl hn)
    rw [Slot.begin, hidle, if_neg Bool.false_ne_true] at h
    cases h
    exact ⟨hn, rfl⟩
  | start => exact absurd trivial hop
  | restart => exact absurd trivial hop
  | replace newExecutable => exact absurd trivial hop
  | connect => exact absurd trivial hop

theorem stopped_step (h : Stopped s) (hsafe : WritesBackSafely s e)
    (hno : ¬ Begins SlotOp.Installs s e) (hstep : step s e = some s') : Stopped s' := by
  obtain ⟨hn, hcalls⟩ := h
  rcases step_cases hstep with ⟨-, rfl⟩ | ⟨i, call, child, stopped, -, hi, rfl⟩ |
    ⟨i, o, slot', phase, stopped, rfl, hi, hadv, hstopped, rfl⟩
  · refine ⟨?_, hcalls⟩
    rw [Slot.exited, hn]
    rfl
  · refine ⟨hn, fun o' ho' => ?_⟩
    rcases List.mem_or_eq_of_mem_set ho' with ho' | rfl
    · exact hcalls o' ho'
    · rcases hcalls _ (List.mem_of_getElem? hi) with hw | hd | hs
      · cases hw
      · cases hd
      · exact .inr (.inr hs)
  · have hnew : slot'.process = none ∧ (phase = .done ∨ stopped = true) := by
      have ho := hcalls o (List.mem_of_getElem? hi)
      obtain ⟨c, phase₀, b⟩ := o
      cases phase₀ with
      | waiting =>
        have hop : ¬ c.op.Installs := fun hop => hno ⟨i, _, rfl, hi, rfl, hop⟩
        obtain ⟨hn', hd⟩ := begin_of_empty hn hop (Option.some.inj hadv)
        exact ⟨hn', .inl hd⟩
      | spawning executable =>
        cases hadv
        rcases ho with hw | hd | hs
        · cases hw
        · cases hd
        · exact ⟨hn, .inr ((hstopped Phase.noConfusion).trans hs)⟩
      | spawned child =>
        have hb := ((hsafe i _ child rfl hi rfl).2 hn).2
        rcases ho with hw | hd | hs
        · cases hw
        · cases hd
        · exact absurd (hs.symm.trans hb) (by decide)
      | failed =>
        cases hadv
        exact ⟨rfl, .inl rfl⟩
      | done => cases hadv
    refine ⟨hnew.1, fun o' ho' => ?_⟩
    rcases List.mem_or_eq_of_mem_set ho' with ho' | rfl
    · obtain ⟨o'', hm, -, hphase, hs⟩ := mem_noteStop ho'
      rw [hphase]
      rcases hcalls o'' hm with hw | hd | hs''
      · exact .inl hw
      · exact .inr (.inl hd)
      · rcases hs with hs | hs
        · exact .inr (.inr hs)
        · exact .inr (.inr (hs.trans hs''))
    · rcases hnew.2 with hd | hs
      · exact .inr (.inl hd)
      · exact .inr (.inr hs)

/-- After a `stop` the service stays empty. -/
theorem stop_stays {i : Nat} {o : Ongoing} {t : Interleaved} (hi : s.calls[i]? = some o)
    (hw : o.phase = .waiting) (hop : o.call.op = .stop) (hstep : step s (.acts i) = some t)
    (h : Run step (fun s e => WritesBackSafely s e ∧ ¬ Begins SlotOp.Installs s e) t es s') :
    s'.slot.process = none := by
  have h0 : Stopped t := by
    obtain ⟨slot', phase, stopped, hadv, rfl⟩ := step_acts hi hstep
    obtain ⟨⟨op, ok⟩, phase₀, b⟩ := o
    cases hw
    cases hop
    cases hadv
    refine ⟨rfl, fun o' ho' => ?_⟩
    rcases List.mem_or_eq_of_mem_set ho' with ho' | rfl
    · exact .inr (.inr (stopped_of_mem_noteStop rfl ho'))
    · exact .inr (.inl rfl)
  exact (h.invariant Stopped h0 fun _ _ _ hs ⟨hsafe, hno⟩ hst => stopped_step hs hsafe hno hst).1

theorem runsOnly_begin {x : Str} {c : SlotCall} {slot' : Slot} {phase : Phase}
    (hx : Slot.RunsOnly x slot) (hop : ¬ c.op.Replaces) (h : slot.begin c = (slot', phase)) :
    Slot.RunsOnly x slot' := by
  obtain ⟨op, ok⟩ := c
  cases op with
  | stop =>
    cases h
    cases hx.1
    exact .reset
  | restart =>
    cases h
    cases hx.1
    exact Slot.RunsOnly.spawnInto .reset ok
  | replace newExecutable => exact absurd trivial hop
  | connect =>
    simp only [Slot.begin] at h
    split at h
    · cases h; exact hx
    · cases h; exact hx.spawnInto ok
  | start =>
    simp only [Slot.begin] at h
    split at h
    · cases h; exact hx
    · cases h; exact hx
  | checkAndRestart =>
    simp only [Slot.begin] at h
    split at h
    · cases h; exact hx
    · cases h; exact hx

theorem runsOnly_step {x : Str} (hx : Slot.RunsOnly x s.slot) (hsafe : WritesBackSafely s e)
    (hno : ¬ Begins SlotOp.Replaces s e) (hstep : step s e = some s') :
    Slot.RunsOnly x s'.slot := by
  rcases step_cases hstep with ⟨-, rfl⟩ | ⟨i, call, child, stopped, -, hi, rfl⟩ |
    ⟨i, o, slot', phase, stopped, rfl, hi, hadv, -, rfl⟩
  · exact hx.exited
  · exact hx
  · obtain ⟨c, phase₀, b⟩ := o
    cases phase₀ with
    | waiting =>
      exact runsOnly_begin hx (fun hop => hno ⟨i, _, rfl, hi, rfl, hop⟩) (Option.some.inj hadv)
    | spawning executable =>
      cases hadv
      exact hx
    | spawned child =>
      cases hadv
      refine ⟨hx.1, fun child' hc => ?_⟩
      cases hc
      exact (hsafe i _ child rfl hi rfl).1.trans hx.1
    | failed =>
      cases hadv
      cases hx.1
      exact .reset
    | done => cases hadv

/-- After a `replace` no process runs another executable. -/
theorem replace_stays {i : Nat} {o : Ongoing} {t : Interleaved} {x : Str}
    (hi : s.calls[i]? = some o) (hw : o.phase = .waiting) (hop : o.call.op = .replace x)
    (hstep : step s (.acts i) = some t)
    (h : Run step (fun s e => WritesBackSafely s e ∧ ¬ Begins SlotOp.Replaces s e) t es s') :
    ∀ child, s'.slot.process = some child → child.executable = x := by
  have h0 : Slot.RunsOnly x t.slot := by
    obtain ⟨slot', phase, stopped, hadv, rfl⟩ := step_acts hi hstep
    obtain ⟨⟨op, ok⟩, phase₀, b⟩ := o
    cases hw
    cases hop
    cases hadv
    have hreset : Slot.RunsOnly x { s.slot.reset with executable := x } :=
      ⟨rfl, fun child hc => by cases hc⟩
    exact hreset.spawnInto ok
  exact (h.invariant (fun s => Slot.RunsOnly x s.slot) h0
    fun _ _ _ hs ⟨hsafe, hno⟩ hst => runsOnly_step hs hsafe hno hst).2

end Interleaved

open Interleaved

/-- In every run whose write-backs are safe: when all the calls have returned, the service is as
some order of the calls one after the other leaves it; after a `stop` it stays empty until
another operation begins that spawns; after a `replace` only its executable is installed
until another `replace` begins. -/
theorem interleaved_asSerial {slot : Slot} {cs : List SlotCall} {es : List SlotEvent}
    {s : Interleaved} (h : Run step WritesBackSafely (create slot cs) es s) :
    ((∀ o ∈ s.calls, o.phase = .done) →
      ∃ order slot', order.Perm cs ∧ Serial Slot.perform Slot.Idle slot order slot' ∧
        slot'.process = s.slot.process) ∧
    (∀ i o t es' s', s.calls[i]? = some o → o.phase = .waiting → o.call.op = .stop →
      step s (.acts i) = some t →
      Run step (fun s e => WritesBackSafely s e ∧ ¬ Begins SlotOp.Installs s e) t es' s' →
      s'.slot.process = none) ∧
    (∀ i o t x es' s', s.calls[i]? = some o → o.phase = .waiting → o.call.op = .replace x →
      step s (.acts i) = some t →
      Run step (fun s e => WritesBackSafely s e ∧ ¬ Begins SlotOp.Replaces s e) t es' s' →
      ∀ child, s'.slot.process = some child → child.executable = x) :=
  ⟨serializable h, fun _ _ _ _ _ hi hw hop hstep h => stop_stays hi hw hop hstep h,
    fun _ _ _ _ _ _ hi hw hop hstep h => replace_stays hi hw hop hstep h⟩

/-- A service that `start` launches and `stop` ends. -/
def calm : Slot := ⟨lit "old", none, true, 0, 5⟩

theorem interleaved_asSerial_startStop :
    ∃ order slot', order.Perm [⟨.start, true⟩, ⟨.stop, true⟩] ∧
      Serial Slot.perform Slot.Idle calm order slot' ∧ slot'.process = none := by
  have h₁ : Run step WritesBackSafely (create calm [⟨.start, true⟩, ⟨.stop, true⟩]) _ _ :=
    .snoc (.snoc .nil (l := .acts 0) (fun _ _ _ he hi hp => by cases he; cases hi; cases hp) rfl)
      (l := .acts 0) (fun _ _ _ he hi hp => by cases he; cases hi; cases hp) rfl
  have h₂ : Run step WritesBackSafely (create calm [⟨.start, true⟩, ⟨.stop, true⟩]) _ _ :=
    h₁.snoc (l := .acts 0)
      (fun _ _ _ he hi hp => by cases he; cases hi; cases hp; exact ⟨rfl, fun _ => ⟨rfl, rfl⟩⟩) rfl
  refine (interleaved_asSerial (h₂.snoc (l := .acts 1)
    (fun _ _ _ he hi hp => by cases he; cases hi; cases hp) rfl)).1 fun o ho => ?_
  rcases List.mem_cons.mp ho with rfl | ho
  · rfl
  · cases List.mem_singleton.mp ho
    rfl

/-! ## Unsafe write-backs -/

/-- The entry's executable after the call, from the one before. -/
def SlotCall.executable (executable : Str) (c : SlotCall) : Str :=
  match c.op with
  | .replace newExecutable => newExecutable
  | .start | .stop | .restart | .connect | .checkAndRestart => executable

namespace Slot

theorem RunsOnly.perform {x : Str} {slot : Slot} (h : slot.RunsOnly x) (c : SlotCall) :
    (slot.perform c).RunsOnly (c.executable x) := by
  obtain ⟨op, ok⟩ := c
  cases h.1
  cases op with
  | stop => exact .reset
  | restart => exact RunsOnly.spawnInto .reset ok
  | replace newExecutable =>
    have hreset : RunsOnly newExecutable { slot.reset with executable := newExecutable } :=
      ⟨rfl, fun child hc => by cases hc⟩
    exact hreset.spawnInto ok
  | start =>
    rw [perform_start]
    split
    · exact h
    · exact h.spawnInto ok
  | connect =>
    rw [perform_connect]
    split
    · exact h
    · exact h.spawnInto ok
  | checkAndRestart =>
    by_cases hn : slot.needsRestart = true
    · rw [perform_checkAndRestart ok hn]
      split
      · exact ⟨rfl, fun child hc => by cases hc; rfl⟩
      · exact ⟨rfl, fun child hc => by cases hc⟩
    · rw [perform_checkAndRestart_of_not ((Bool.not_eq_true _).mp hn)]
      exact h

/-- One after the other, operations install only the executable of the last `replace`. -/
theorem runsOnly_serial {slot slot' : Slot} {cs : List SlotCall} {x : Str}
    (h : Serial Slot.perform Slot.Idle slot cs slot') (h0 : slot.RunsOnly x) :
    slot'.RunsOnly (cs.foldl SlotCall.executable x) :=
  h.foldl (I := RunsOnly) h0 (fun _ _ _ hx hidle => by cases hidle; exact hx.exited)
    fun _ _ c hx => hx.perform c

end Slot

/-- A service whose process has crashed. -/
def crashed : Slot := ⟨lit "old", some ⟨lit "old", false⟩, true, 0, 5⟩

/-- `check_and_restart` reads the entry, `replace` runs, and `check_and_restart` installs the
executable that has just been replaced; no order of the two does that. A `start` that a
`stop` comes between installs its process after the `stop`. -/
theorem replaced_by_old_not_serial :
    (∃ s, follow step (create crashed [⟨.checkAndRestart, true⟩, ⟨.replace (lit "new"), true⟩])
        [.acts 0, .acts 1, .acts 0, .acts 0] = some s ∧
      (∀ o ∈ s.calls, o.phase = .done) ∧
      ¬ ∃ order slot', order.Perm [⟨.checkAndRestart, true⟩, ⟨.replace (lit "new"), true⟩] ∧
        Serial Slot.perform Slot.Idle crashed order slot' ∧ slot'.process = s.slot.process) ∧
    ∃ s, follow step (create crashed [⟨.start, true⟩, ⟨.stop, true⟩])
        [.acts 0, .acts 1, .acts 0, .acts 0] = some s ∧
      s.slot.process = some ⟨lit "old", true⟩ := by
  refine ⟨⟨_, rfl, by decide, ?_⟩, ⟨_, rfl, rfl⟩⟩
  rintro ⟨order, slot', hperm, hserial, hp⟩
  have h0 : crashed.RunsOnly (lit "old") := ⟨rfl, fun child hc => by cases hc; rfl⟩
  have hlast : order.foldl SlotCall.executable (lit "old") = lit "new" := by
    rcases List.perm_pair.mp hperm with rfl | rfl
    · rfl
    · rfl
  have hnew := (Slot.runsOnly_serial hserial h0).2 _ hp
  rw [hlast] at hnew
  exact absurd hnew (by decide)

end Song
