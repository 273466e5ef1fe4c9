import Song.Process

/-!
# Signals after a child was reaped

What the operations on processes do is a run of tickets: a pid is a ticket of its fork,
an object with a positive pid holds it, and `alive` lets it lapse when its `waitpid` reaps
the child, since `pid_` stays. So a signal follows the reaping exactly if some
`alive` met an exited child.
-/

namespace Song

open Lts

namespace World

variable (sys : Surroundings) {w w' : World}

/-- The object's pid, if it is positive, as the number of its fork. -/
def held (obj : Option ProcessObject) : Option Nat :=
  obj.bind fun obj => if 0 < obj.proc.pid then some obj.child else none

def custody (w : World) : Custody.State ProcPtr := ⟨fun p => held (w.objects p), w.forks, w.log⟩

@[simp] theorem custody_holder (w : World) (p : ProcPtr) :
    w.custody.holder p = held (w.objects p) := rfl

/-- The addresses from `nextPtr` on are free. -/
def Bounded (w : World) : Prop := ∀ p, w.nextPtr ≤ p → w.objects p = none

/-- From `w` to `w'` by acts on tickets; `P` says that no ticket lapses. -/
def Does (w w' : World) (P : Prop) : Prop :=
  w.Bounded → w'.Bounded ∧ ∃ as, follow Custody.step w.custody as = some w'.custody ∧
    ((∀ a ∈ as, ¬ a.Lapses) ↔ P)

namespace Does

variable {w₁ : World} {P Q : Prop}

theorem trans (h : Does w w₁ P) (h' : Does w₁ w' Q) : Does w w' (P ∧ Q) := by
  intro hb
  obtain ⟨hb₁, as, has, hP⟩ := h hb
  obtain ⟨hb', bs, hbs, hQ⟩ := h' hb₁
  refine ⟨hb', as ++ bs, ?_, ?_⟩
  · rw [follow_append, has]
    exact hbs
  · rw [List.forall_mem_append, hP, hQ]

theorem congr (h : Does w w' P) (hpq : P ↔ Q) : Does w w' Q := by
  intro hb
  obtain ⟨hb', as, has, hP⟩ := h hb
  exact ⟨hb', as, has, hP.trans hpq⟩

/-- In front of what lapses nothing. -/
theorem quiet (h : Does w w₁ P) (h' : Does w₁ w' True) : Does w w' P :=
  (h.trans h').congr (and_iff_left trivial)

theorem act {a : Custody.Act ProcPtr} (hb : w.Bounded → w'.Bounded)
    (h : Custody.step w.custody a = some w'.custody) : Does w w' (¬ a.Lapses) := by
  intro hw
  refine ⟨hb hw, [a], ?_, List.forall_mem_singleton⟩
  rw [follow, List.foldlM_cons, h]
  rfl

/-- Nothing that the tickets know of changes. -/
theorem silent (hb : w.Bounded → w'.Bounded) (h : w.custody = w'.custody) : Does w w' True := by
  intro hw
  refine ⟨hb hw, [], ?_, ⟨fun _ => trivial, fun _ a ha => (by cases ha)⟩⟩
  rw [h]
  rfl

theorem refl (w : World) : Does w w True := silent id rfl

end Does

/-! ## System calls -/

/-- `w'` has the objects of `w`, and a longer log. -/
structure Extends (w w' : World) (log : List Custody.Entry) : Prop where
  objects : w'.objects = w.objects
  forks : w'.forks = w.forks
  nextPtr : w'.nextPtr = w.nextPtr
  entry : w'.entry = w.entry
  log : w'.log = w.log ++ log

namespace Extends

variable {w₁ : World} {log log' : List Custody.Entry}

theorem trans (h : Extends w w₁ log) (h' : Extends w₁ w' log') :
    Extends w w' (log ++ log') where
  objects := h'.objects.trans h.objects
  forks := h'.forks.trans h.forks
  nextPtr := h'.nextPtr.trans h.nextPtr
  entry := h'.entry.trans h.entry
  log := by rw [h'.log, h.log, List.append_assoc]

theorem custody (h : Extends w w' log) :
    w'.custody = { w.custody with log := w.log ++ log } := by
  unfold World.custody
  rw [h.objects, h.forks, h.log]

theorem bounded (h : Extends w w' log) (hb : w.Bounded) : w'.Bounded := by
  intro p hp
  rw [h.objects]
  rw [h.nextPtr] at hp
  exact hb p hp

end Extends

/-- The log of a `waitpid`. -/
def ends (obj : ProcessObject) (reaped : Bool) : List Custody.Entry :=
  if reaped then [.ended obj.child] else []

theorem waitpid_extends (obj : ProcessObject) (w : World) :
    Extends w (w.waitpid sys obj).2 (ends obj (decide ((w.waitpid sys obj).1 = .reaped))) := by
  unfold waitpid
  split
  · exact ⟨rfl, rfl, rfl, rfl, (List.append_nil _).symm⟩
  · split
    · exact ⟨rfl, rfl, rfl, rfl, rfl⟩
    · exact ⟨rfl, rfl, rfl, rfl, (List.append_nil _).symm⟩

theorem waitpid_reaped_iff {obj : ProcessObject} {w : World} :
    (w.waitpid sys obj).1 = .reaped ↔
      ∃ n, w.findChild sys obj.proc.pid = some n ∧ w.exited sys n = true := by
  unfold waitpid
  split
  · next hn =>
    rw [hn]
    exact ⟨fun h => (by cases h), fun ⟨n, h, _⟩ => by cases h⟩
  · next n hn =>
    rw [hn]
    split
    · next he => exact ⟨fun _ => ⟨n, rfl, he⟩, fun _ => rfl⟩
    · next he =>
      refine ⟨fun h => (by cases h), fun ⟨m, hm, hm'⟩ => ?_⟩
      cases hm
      exact absurd hm' he

theorem waitExit_extends (obj : ProcessObject) (n : Nat) (w : World) :
    Extends w (waitExit sys obj n w).2 (ends obj (waitExit sys obj n w).1) := by
  induction n generalizing w with
  | zero => exact ⟨rfl, rfl, rfl, rfl, (List.append_nil _).symm⟩
  | succ n ih =>
    have hw := waitpid_extends sys obj w
    rw [waitExit]
    split
    · next w₁ he =>
      rw [he] at hw
      exact hw
    · next w₁ he =>
      rw [he] at hw
      exact hw.trans (ih w₁)
    · next w₁ he =>
      rw [he] at hw
      exact hw.trans (ih w₁)

/-! ## `ServiceProcess` -/

theorem held_pos {obj : ProcessObject} (h : 0 < obj.proc.pid) : held (some obj) = some obj.child :=
  if_pos h

theorem held_nonpos {obj : ProcessObject} (h : obj.proc.pid ≤ 0) : held (some obj) = none :=
  if_neg (by omega)

/-- The object's child, if its pid is of one, runs. -/
def MeetsRunning (w : World) (p : ProcPtr) : Prop :=
  ∀ obj n, w.objects p = some obj → 0 < obj.proc.pid →
    w.findChild sys obj.proc.pid = some n → w.exited sys n = false

theorem meetsRunning_iff {p : ProcPtr} {obj : ProcessObject} (hobj : w.objects p = some obj)
    (hpos : 0 < obj.proc.pid) : w.MeetsRunning sys p ↔ (w.waitpid sys obj).1 ≠ .reaped := by
  rw [ne_eq, waitpid_reaped_iff]
  constructor
  · rintro h ⟨n, hn, he⟩
    rw [h obj n hobj hpos hn] at he
    cases he
  · intro h obj' n hobj' _ hn
    cases hobj.symm.trans hobj'
    exact (Bool.not_eq_true _).mp fun he => h ⟨n, hn, he⟩

theorem does_alive (p : ProcPtr) (w : World) :
    Does w (w.alive sys p).2 (w.MeetsRunning sys p) := by
  unfold alive
  split
  · next hn =>
    refine (Does.refl w).congr ⟨fun _ obj n hobj => ?_, fun _ => trivial⟩
    rw [hn] at hobj
    cases hobj
  · next obj hobj =>
    by_cases hpos : 0 < obj.proc.pid
    · rw [if_neg (by omega)]
      have hw := waitpid_extends sys obj w
      have hmeets := meetsRunning_iff sys hobj hpos
      have hheld : w.custody.holder p = some obj.child := by
        rw [custody_holder, hobj, held_pos hpos]
      cases hr : w.waitpid sys obj with
      | mk r w₁ =>
        rw [hr] at hw hmeets
        cases r with
        | reaped =>
          refine (Does.act (a := .lapse p) hw.bounded ?_).congr
            ⟨fun h => absurd trivial h, fun h => absurd rfl (hmeets.mp h)⟩
          rw [hw.custody, Custody.step, hheld]
          rfl
        | running =>
          refine (Does.silent hw.bounded ?_).congr
            ⟨fun _ => hmeets.mpr Waited.noConfusion, fun _ => trivial⟩
          rw [hw.custody]
          exact congrArg (Custody.State.mk _ _) (List.append_nil _).symm
        | noChild =>
          refine (Does.silent hw.bounded ?_).congr
            ⟨fun _ => hmeets.mpr Waited.noConfusion, fun _ => trivial⟩
          rw [hw.custody]
          exact congrArg (Custody.State.mk _ _) (List.append_nil _).symm
    · rw [if_pos (by omega)]
      refine (Does.refl w).congr ⟨fun _ obj' n hobj' hpos' => ?_, fun _ => trivial⟩
      cases hobj.symm.trans hobj'
      exact absurd hpos' hpos

/-- The queries that `available` makes. -/
theorem does_available (p : ProcPtr) (w : World) :
    Does w (w.available sys p).2
      (∀ obj, w.objects p = some obj → obj.proc.reusable = true → w.MeetsRunning sys p) := by
  unfold available
  split
  · next hn =>
    refine (Does.refl w).congr ⟨fun _ obj hobj => ?_, fun _ => trivial⟩
    rw [hn] at hobj
    cases hobj
  · next obj hobj =>
    split
    · next hno =>
      refine (Does.refl w).congr ⟨fun _ obj' hobj' hr obj'' n hobj'' hpos => ?_, fun _ => trivial⟩
      cases hobj.symm.trans hobj'
      cases hobj.symm.trans hobj''
      rw [hr, Bool.not_true, Bool.false_or, decide_eq_true_iff] at hno
      omega
    · next hyes =>
      rw [Bool.or_eq_true, not_or, Bool.not_eq_true', Bool.not_eq_false] at hyes
      refine (does_alive sys p w).congr ⟨fun h _ _ _ => h, fun h => h obj hobj hyes.1⟩

theorem killTerm_extends (obj : ProcessObject) (w : World) :
    Extends w (w.killTerm obj) [.used obj.child] := ⟨rfl, rfl, rfl, rfl, rfl⟩

theorem killKill_extends (obj : ProcessObject) (w : World) :
    Extends w (w.killKill sys obj) [.used obj.child] := ⟨rfl, rfl, rfl, rfl, rfl⟩

theorem objects_setObject (p : ProcPtr) (proc : ServiceProcess) (child : Nat) (w : World) :
    (w.setObject p proc child).objects = Function.update w.objects p (some ⟨proc, child⟩) := rfl

theorem custody_setObject (p : ProcPtr) (proc : ServiceProcess) (child : Nat) (w : World) :
    (w.setObject p proc child).custody = { w.custody with
      holder := Function.update w.custody.holder p (held (some ⟨proc, child⟩)) } := by
  have hholder : (w.setObject p proc child).custody.holder =
      Function.update w.custody.holder p (held (some ⟨proc, child⟩)) := by
    funext q
    by_cases hq : q = p
    · rw [hq, Function.update_self, custody_holder, objects_setObject, Function.update_self]
    · rw [Function.update_of_ne hq, custody_holder, objects_setObject, Function.update_of_ne hq,
        custody_holder]
  exact congrArg (Custody.State.mk · _ _) hholder

theorem bounded_setObject {p : ProcPtr} {obj : ProcessObject} (hobj : w.objects p = some obj)
    (proc : ServiceProcess) (child : Nat) (hb : w.Bounded) :
    (w.setObject p proc child).Bounded := by
  intro q hq
  have hne : q ≠ p := fun he => by
    rw [he] at hq
    rw [hb p hq] at hobj
    cases hobj
  exact (Function.update_of_ne hne _ _).trans (hb q hq)

/-- The end of `terminate`: a last signal, and perhaps a `waitpid` that reaps. -/
theorem does_dispose {p : ProcPtr} {obj : ProcessObject} {reaped : Bool}
    (hobj : w.objects p = some obj) (hpos : 0 < obj.proc.pid)
    (h : Extends w w' (.used obj.child :: ends obj reaped)) :
    Does w (w'.setObject p { obj.proc with pid := -1 } obj.child) True := by
  have hobj' : w'.objects p = some obj := by rw [h.objects, hobj]
  have hheld : w.custody.holder p = some obj.child := by
    rw [custody_holder, hobj, held_pos hpos]
  refine (Does.act (a := .dispose p reaped)
    (fun hb => bounded_setObject hobj' _ _ (h.bounded hb)) ?_).congr ⟨fun _ => trivial, fun _ => id⟩
  rw [custody_setObject, h.custody, Custody.step, hheld]
  rfl

theorem does_terminate (p : ProcPtr) (w : World) : Does w (w.terminate sys p) True := by
  unfold terminate
  split
  · exact .refl w
  · next obj hobj =>
    by_cases hpos : 0 < obj.proc.pid
    · rw [if_neg (by omega)]
      have hterm := killTerm_extends obj w
      have hexit := waitExit_extends sys obj 10 (w.killTerm obj)
      split
      · next w₁ he =>
        rw [he] at hexit
        exact does_dispose hobj hpos (hterm.trans hexit)
      · next w₁ he =>
        rw [he] at hexit
        have hobj₁ : w₁.objects p = some obj := by rw [hexit.objects, hterm.objects, hobj]
        have hheld : w.custody.holder p = some obj.child := by
          rw [custody_holder, hobj, held_pos hpos]
        have huse : Does w (w.killTerm obj) True := by
          refine (Does.act (a := .use p) hterm.bounded ?_).congr ⟨fun _ => trivial, fun _ => id⟩
          rw [hterm.custody, Custody.step, hheld]
          rfl
        have hwait : Does (w.killTerm obj) w₁ True := by
          refine Does.silent hexit.bounded ?_
          rw [hexit.custody]
          exact congrArg (Custody.State.mk _ _) (List.append_nil _).symm
        have hkill := (killKill_extends sys obj w₁).trans (waitpid_extends sys obj _)
        exact (huse.quiet hwait).quiet (does_dispose hobj₁ hpos hkill)
    · rw [if_pos (by omega)]
      exact .refl w

/-- A terminated object holds no child. -/
theorem held_terminate (p : ProcPtr) (w : World) : held ((w.terminate sys p).objects p) = none := by
  unfold terminate
  split
  · next hn =>
    rw [hn]
    rfl
  · next obj hobj =>
    by_cases hpos : 0 < obj.proc.pid
    · rw [if_neg (by omega)]
      split
      · rw [objects_setObject, Function.update_self]
        exact held_nonpos (by show (-1 : Int) ≤ 0; decide)
      · rw [objects_setObject, Function.update_self]
        exact held_nonpos (by show (-1 : Int) ≤ 0; decide)
    · rw [if_pos (by omega), hobj]
      exact held_nonpos (by omega)

theorem does_setReusable (p : ProcPtr) (r : Bool) (w : World) :
    Does w (w.setReusable p r) True := by
  unfold setReusable
  split
  · exact .refl w
  · next obj hobj =>
    refine Does.silent (bounded_setObject hobj _ _) ?_
    have hheld : held (some ⟨{ obj.proc with reusable := r }, obj.child⟩) = w.custody.holder p := by
      rw [custody_holder, hobj]
      rfl
    rw [custody_setObject, hheld, Function.update_eq_self]

theorem does_destroy (p : ProcPtr) (w : World) : Does w (w.destroy sys p) True := by
  refine (does_terminate sys p w).quiet (Does.silent (fun hb q hq => ?_) ?_)
  · by_cases hqp : q = p
    · rw [hqp]
      exact Function.update_self ..
    · exact (Function.update_of_ne hqp _ _).trans (hb q hq)
  · refine congrArg (Custody.State.mk · _ _) ?_
    funext q
    show held ((w.terminate sys p).objects q) =
      held (Function.update (w.terminate sys p).objects p none q)
    by_cases hqp : q = p
    · rw [hqp, Function.update_self]
      exact held_terminate sys p w
    · rw [Function.update_of_ne hqp]

theorem does_fork (w : World) : Does w (w.fork sys) True := by
  intro hb
  have hnone : w.custody.holder w.nextPtr = none := by
    rw [custody_holder, hb w.nextPtr (le_refl _)]
    rfl
  refine (Does.act (a := .acquire w.nextPtr) (fun hb q hq => ?_) ?_).congr
    ⟨fun _ => trivial, fun _ => id⟩ hb
  · exact (Function.update_of_ne (Nat.ne_of_gt hq) _ _).trans (hb q (Nat.le_of_succ_le hq))
  · have hfork : (w.fork sys).custody = { w.custody with
        holder := (w.setObject w.nextPtr (sys.launch w.forks) w.forks).custody.holder
        issued := w.forks + 1 } := rfl
    rw [hfork, custody_setObject, held_pos (sys.launch_pid _), Custody.step, hnone]
    rfl

theorem does_spawn (ok : Bool) (w : World) : Does w (w.spawn sys ok).2 True := by
  cases ok with
  | true => exact does_fork sys w
  | false => exact (does_fork sys w).quiet (does_destroy sys _ _)

/-- The pid goes from `p` to `q`, which had none. -/
theorem does_transfer {p q : ProcPtr} {other : ProcessObject} {proc proc' : ServiceProcess}
    (hother : w.objects p = some other) (hq : held (w.objects q) = none)
    (hproc : proc.pid ≤ 0) (hproc' : proc'.pid = other.proc.pid)
    (hb : w.Bounded → ((w.setObject p proc other.child).setObject q proc' other.child).Bounded) :
    Does w ((w.setObject p proc other.child).setObject q proc' other.child) True := by
  have hcustody : ((w.setObject p proc other.child).setObject q proc' other.child).custody =
      { w.custody with
        holder := Function.update (Function.update w.custody.holder p none) q
          (held (some ⟨proc', other.child⟩)) } := by
    rw [custody_setObject, custody_setObject, held_nonpos hproc]
  by_cases hpos : 0 < other.proc.pid
  · have hp : w.custody.holder p = some other.child := by
      rw [custody_holder, hother, held_pos hpos]
    refine (Does.act (a := .transfer p q) hb ?_).congr ⟨fun _ => trivial, fun _ => id⟩
    rw [hcustody, held_pos (by rw [hproc']; exact hpos), Custody.step, hp, custody_holder, hq]
  · refine Does.silent hb ?_
    have hp : w.custody.holder p = none := by
      rw [custody_holder, hother]
      exact held_nonpos (by omega)
    rw [hcustody, held_nonpos (by rw [hproc']; omega)]
    have hq' : w.custody.holder q = none := hq
    refine congrArg (Custody.State.mk · _ _) ?_
    show w.custody.holder = _
    conv_rhs => rw [← hp, Function.update_eq_self]
    rw [hp, ← hq', Function.update_eq_self]

theorem does_moveConstruct (p : ProcPtr) (w : World) : Does w (w.moveConstruct p) True := by
  unfold moveConstruct
  split
  · exact .refl w
  · next other hother =>
    intro hb
    have hnext : Does w { w with nextPtr := w.nextPtr + 1 } True :=
      Does.silent (fun hb q hq => hb q (Nat.le_of_succ_le hq)) rfl
    have hnone : held (w.objects w.nextPtr) = none := by
      rw [hb w.nextPtr (le_refl _)]
      rfl
    have hne : p ≠ w.nextPtr := fun he => by
      rw [he, hb w.nextPtr (le_refl _)] at hother
      cases hother
    have hpid : other.proc.moveConstruct.2.pid ≤ 0 := by
      show (-1 : Int) ≤ 0
      decide
    have hpid' : other.proc.moveConstruct.1.pid = other.proc.pid := rfl
    refine (hnext.quiet (does_transfer hother hnone hpid hpid' ?_)) hb
    intro hb' q hq
    have hqn : q ≠ w.nextPtr := Nat.ne_of_gt hq
    have hqp : q ≠ p := fun he => by
      rw [he] at hq
      rw [hb p (Nat.le_of_succ_le hq)] at hother
      cases hother
    exact (Function.update_of_ne hqn _ _).trans
      ((Function.update_of_ne hqp _ _).trans (hb' q hq))

/-- `terminate` changes only the object's pid. -/
theorem objects_terminate (p : ProcPtr) (w : World) {obj : ProcessObject}
    (hobj : w.objects p = some obj) : ∃ pid, (w.terminate sys p).objects =
      Function.update w.objects p (some ⟨{ obj.proc with pid }, obj.child⟩) := by
  unfold terminate
  rw [hobj]
  simp only
  by_cases hpos : 0 < obj.proc.pid
  · rw [if_neg (by omega)]
    have hexit := (killTerm_extends obj w).trans (waitExit_extends sys obj 10 (w.killTerm obj))
    split
    · next w₁ he =>
      rw [he] at hexit
      exact ⟨-1, by rw [objects_setObject, hexit.objects]⟩
    · next w₁ he =>
      rw [he] at hexit
      have hkill := hexit.trans ((killKill_extends sys obj w₁).trans (waitpid_extends sys obj _))
      exact ⟨-1, by rw [objects_setObject, hkill.objects]⟩
  · rw [if_pos (by omega)]
    exact ⟨obj.proc.pid, (Function.update_eq_self_iff.mpr hobj.symm).symm⟩

theorem does_moveAssign (p q : ProcPtr) (w : World) : Does w (w.moveAssign sys p q) True := by
  unfold moveAssign
  split
  · exact .refl w
  · next hpq =>
    split
    · next this other hthis hother =>
      obtain ⟨pid, hobjects⟩ := objects_terminate sys p w hthis
      have hp : (w.terminate sys p).objects p = some ⟨{ this.proc with pid }, this.child⟩ := by
        rw [hobjects, Function.update_self]
      have hq : (w.terminate sys p).objects q = some other := by
        rw [hobjects, Function.update_of_ne (Ne.symm hpq), hother]
      have hpid : (this.proc.moveAssign other.proc).2.pid ≤ 0 := by
        show (-1 : Int) ≤ 0
        decide
      refine (does_terminate sys p w).quiet
        (does_transfer hq (held_terminate sys p w) hpid rfl fun hb => ?_)
      have hp' : ((w.terminate sys p).setObject q (this.proc.moveAssign other.proc).2
          other.child).objects p = some ⟨{ this.proc with pid }, this.child⟩ := by
        rw [objects_setObject, Function.update_of_ne hpq, hp]
      exact bounded_setObject hp' _ _ (bounded_setObject hq _ _ hb)
    · exact .refl w

/-! ## The entry of a manager -/

theorem does_entry (entry : Option ProcPtr) (w : World) : Does w { w with entry } True :=
  Does.silent id rfl

theorem does_install (p : ProcPtr) (w : World) : Does w (w.install sys p) True := by
  unfold install
  split
  · exact does_entry _ w
  · exact (does_entry _ w).quiet (does_destroy sys _ _)

theorem does_reset (w : World) : Does w (w.reset sys) True := by
  unfold reset
  split
  · exact .refl w
  · exact (does_entry _ w).quiet (does_destroy sys _ _)

theorem does_spawnInto (ok : Bool) (w : World) : Does w (w.spawnInto sys ok) True := by
  have hspawn := does_spawn sys ok w
  unfold spawnInto
  split
  · next p w₁ he =>
    rw [he] at hspawn
    exact hspawn.quiet (does_install sys p w₁)
  · next w₁ he =>
    rw [he] at hspawn
    exact hspawn

/-- The entry's child runs, if the entry has a process. -/
def EntryRuns (w : World) : Prop := ∀ p, w.entry = some p → w.MeetsRunning sys p

theorem entryRuns_none (h : w.entry = none) : w.EntryRuns sys := by
  intro p hp
  rw [h] at hp
  cases hp

theorem entryRuns_some {p : ProcPtr} (h : w.entry = some p) :
    w.EntryRuns sys ↔ w.MeetsRunning sys p := by
  refine ⟨fun hr => hr p h, fun hr q hq => ?_⟩
  cases h.symm.trans hq
  exact hr

theorem does_start (ok : Bool) (w : World) : Does w (w.start sys ok) (w.EntryRuns sys) := by
  unfold start
  split
  · next hn =>
    exact (does_spawnInto sys ok w).congr (iff_of_true trivial (entryRuns_none sys hn))
  · next p hp =>
    have halive := (does_alive sys p w).congr (entryRuns_some sys hp).symm
    split
    · next w₁ he =>
      rw [he] at halive
      exact halive
    · next w₁ he =>
      rw [he] at halive
      exact halive.quiet (does_spawnInto sys ok w₁)

theorem does_stop (w : World) : Does w (w.stop sys) True := by
  unfold stop
  split
  · exact .refl w
  · exact (does_terminate sys _ w).quiet (does_reset sys _)

theorem does_checkAndRestart (autoRestart exhausted ok : Bool) (w : World) :
    Does w (w.checkAndRestart sys autoRestart exhausted ok)
      (autoRestart = true → w.EntryRuns sys) := by
  cases autoRestart with
  | false => exact (Does.refl w).congr (iff_of_true trivial fun h => (by cases h))
  | true =>
    simp only [checkAndRestart, Bool.not_true, Bool.false_eq_true, ↓reduceIte, forall_const]
    split
    · next hn => exact (Does.refl w).congr (iff_of_true trivial (entryRuns_none sys hn))
    · next p hp =>
      have halive := (does_alive sys p w).congr (entryRuns_some sys hp).symm
      split
      · next w₁ he =>
        rw [he] at halive
        exact halive
      · next w₁ he =>
        rw [he] at halive
        split
        · exact halive
        · have hspawn := halive.quiet (does_spawn sys ok w₁)
          split
          · next q w₂ he' =>
            rw [he'] at hspawn
            exact hspawn.quiet (does_install sys q w₂)
          · next w₂ he' =>
            rw [he'] at hspawn
            exact hspawn.quiet (does_reset sys w₂)

/-! ## Operations -/

/-- Where the operation asks whether a child runs, it does. -/
def AsksSafely (w : World) : Operation → Prop
  | .alive p => w.MeetsRunning sys p
  | .available p => ∀ obj, w.objects p = some obj → obj.proc.reusable = true → w.MeetsRunning sys p
  | .start _ | .connect _ | .isAlive => w.EntryRuns sys
  | .checkAndRestart autoRestart _ _ => autoRestart = true → w.EntryRuns sys
  | .spawn _ | .setReusable _ _ | .terminate _ | .moveConstruct _ | .moveAssign _ _ | .destroy _
  | .stop | .restart _ | .replace _ | .destroyManager => True

theorem does_perform (op : Operation) (w : World) :
    Does w (w.perform sys op) (w.AsksSafely sys op) := by
  cases op with
  | spawn ok => exact does_spawn sys ok w
  | alive p => exact does_alive sys p w
  | available p => exact does_available sys p w
  | setReusable p r => exact does_setReusable p r w
  | terminate p => exact does_terminate sys p w
  | moveConstruct p => exact does_moveConstruct p w
  | moveAssign p q => exact does_moveAssign sys p q w
  | destroy p => exact does_destroy sys p w
  | start ok => exact does_start sys ok w
  | stop => exact does_stop sys w
  | restart ok => exact (does_stop sys w).quiet (does_spawnInto sys ok _)
  | replace ok => exact (does_stop sys w).quiet (does_spawnInto sys ok _)
  | connect ok => exact does_start sys ok w
  | isAlive =>
    show Does w (w.isAlive sys).2 (w.EntryRuns sys)
    unfold isAlive
    split
    · next hn => exact (Does.refl w).congr (iff_of_true trivial (entryRuns_none sys hn))
    · next p hp => exact (does_alive sys p w).congr (entryRuns_some sys hp).symm
  | checkAndRestart autoRestart exhausted ok =>
    exact does_checkAndRestart sys autoRestart exhausted ok w
  | destroyManager => exact does_stop sys w

theorem step_eq {op : Operation} (h : step sys w op = some w') : w' = w.perform sys op := by
  unfold step at h
  split at h
  · split at h
    · cases h
    · cases h
      rfl
  · cases h
    rfl

/-- A run of operations is a run of tickets, in which none lapses exactly if all the
questions were safe. -/
theorem custody_run {ops : List Operation} (h : Run (step sys) (fun _ _ => True) empty ops w) :
    w.Bounded ∧ ∃ as, follow Custody.step Custody.init as = some w.custody ∧
      ((∀ a ∈ as, ¬ a.Lapses) ↔ Run (step sys) (fun w op => w.AsksSafely sys op) empty ops w) := by
  induction h with
  | nil => exact ⟨fun _ _ => rfl, [], rfl, ⟨fun _ => .nil, fun _ a ha => (by cases ha)⟩⟩
  | snoc hr _ hstep ih =>
    obtain ⟨hb, as, has, hsafe⟩ := ih
    cases step_eq sys hstep
    obtain ⟨hb', bs, hbs, hP⟩ := does_perform sys _ _ hb
    refine ⟨hb', as ++ bs, ?_, ?_⟩
    · rw [follow_append, has]
      exact hbs
    · rw [List.forall_mem_append, hsafe, hP]
      refine ⟨fun ⟨hrun, hask⟩ => hrun.snoc hask hstep, fun hrun => ?_⟩
      obtain ⟨u, hu, hask, -⟩ := hrun.snoc_cases
      cases hu.follow_eq.symm.trans hr.follow_eq
      exact ⟨hu, hask⟩

end World

open World

/-- While every question whether a child runs finds it running, no object sends a signal to a
child that its `waitpid` has reaped; once no object has a pid any more, this is so only
in the runs of that kind. -/
theorem no_signal_after_reaped (sys : Surroundings) {ops : List Operation} {w : World}
    (h : Run (step sys) (fun _ _ => True) empty ops w) :
    (Run (step sys) (fun w op => w.AsksSafely sys op) empty ops w → Custody.Quiet w.log) ∧
    ((∀ p obj, w.objects p = some obj → obj.proc.pid ≤ 0) →
      (Custody.Quiet w.log ↔
        Run (step sys) (fun w op => w.AsksSafely sys op) empty ops w)) := by
  obtain ⟨-, as, has, hsafe⟩ := custody_run sys h
  refine ⟨fun hrun => Custody.quiet_of_follow (hsafe.mpr hrun) has, fun hnone => ?_⟩
  have hheld : ∀ p, w.custody.holder p = none := by
    intro p
    rw [custody_holder]
    cases hobj : w.objects p with
    | none => rfl
    | some obj => exact held_nonpos (hnone p obj hobj)
  exact (Custody.quiet_iff has hheld).trans hsafe

/-- Children that exit after the given number of system calls, if ever. -/
def oneChild (exitsAt : Option Nat) : Surroundings :=
  ⟨fun _ => .create 5 .closed .closed, fun _ => by show (0 : Int) < 5; decide, fun _ => exitsAt⟩

/-- Asked whether it runs, moved, and destroyed. -/
theorem no_signal_after_reaped_moved :
    ∃ w, follow (step (oneChild none)) empty
        [.spawn true, .alive 0, .moveConstruct 0, .destroy 1] = some w ∧ Custody.Quiet w.log := by
  have hask : Run (step (oneChild none)) (fun w op => w.AsksSafely (oneChild none) op) empty
      [.spawn true, .alive 0, .moveConstruct 0, .destroy 1] _ :=
    .snoc (.snoc (.snoc (.snoc .nil trivial rfl) (fun _ _ _ _ _ => rfl) rfl) trivial rfl) trivial rfl
  have hrun : Run (step (oneChild none)) (fun _ _ => True) empty
      [.spawn true, .alive 0, .moveConstruct 0, .destroy 1] _ :=
    .snoc (.snoc (.snoc (.snoc .nil trivial rfl) trivial rfl) trivial rfl) trivial rfl
  exact ⟨_, rfl, (no_signal_after_reaped _ hrun).1 hask⟩

/-- `alive` reaps the child, and the destructor sends `SIGTERM` and `SIGKILL` to its pid; so does
`check_and_restart`, which destroys the object that it has just asked. -/
theorem signal_after_reaped :
    (∃ w, follow (step (oneChild (some 0))) empty [.spawn true, .alive 0, .destroy 0] = some w ∧
      w.log = [.ended 0, .used 0, .used 0] ∧ ¬ Custody.Quiet w.log) ∧
    ∃ w, follow (step (oneChild (some 0))) empty
        [.start true, .checkAndRestart true false true] = some w ∧
      w.log = [.ended 0, .used 0, .ended 0] ∧ ¬ Custody.Quiet w.log :=
  ⟨⟨_, rfl, rfl, Custody.not_quiet_cons List.mem_cons_self⟩,
    ⟨_, rfl, rfl, Custody.not_quiet_cons List.mem_cons_self⟩⟩

end Song
