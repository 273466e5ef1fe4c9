import Mathlib.Data.List.ReduceOption
import Song.Error
import Song.Lib.Eff
import Song.Lib.LastWrite
import Song.Lib.Map
import Song.Lib.Run

/-!
# Logging (`logging.hpp`, `logging.cpp`)

Threads log through one table of handlers. A message is checked against the level, makes sure that
logging is initialized and goes to the handlers; between these three steps other threads act. The
first message that passes initializes: it puts the console handler into the table and sets the
level of the build. So what was set last is in force, except that the console handler and the level
are the initial ones where nothing was set behind the first such message (`settings_in_force`).
-/

namespace Song

structure LogLevel where
  value : Int
  deriving DecidableEq

namespace LogLevel

def debug : LogLevel := ⟨0⟩

def info : LogLevel := ⟨1⟩

def warn : LogLevel := ⟨2⟩

def error : LogLevel := ⟨3⟩

def fatal : LogLevel := ⟨4⟩

end LogLevel

structure LogEntry where
  level : LogLevel
  message : Str
  file : Str
  line : Nat
  deriving DecidableEq

namespace Log

open LastWrite (InForce)

/-- A handler is `none` if its `std::function` is empty. -/
structure LogState (η : Type) where
  handlers : Map Str (Option η)
  minLevel : LogLevel
  initialized : Bool

section
variable {η ω ε : Type}

def fresh : LogState η := ⟨∅, .info, false⟩

def addHandler (name : Str) (handler : Option η) (s : LogState η) : LogState η :=
  { s with handlers := s.handlers.insert name handler }

def hasHandler (name : Str) (s : LogState η) : Bool := (s.handlers.lookup name).isSome

/-- With whether there was one. -/
def removeHandler (name : Str) (s : LogState η) : Bool × LogState η :=
  (hasHandler name s, { s with handlers := s.handlers.erase name })

def clearHandlers (s : LogState η) : LogState η := { s with handlers := ∅ }

def setLevel (level : LogLevel) (s : LogState η) : LogState η := { s with minLevel := level }

def isEnabled (level : LogLevel) (s : LogState η) : Bool := s.minLevel.value ≤ level.value

def consoleName : Str := lit "console"

/-- `init_logging`, under its lock; the level depends on the build. -/
def initLogging (console : η) (build : LogLevel) (s : LogState η) : LogState η :=
  if s.initialized then s
  else { addHandler consoleName (some console) s with minLevel := build, initialized := true }

/-- The loop of `emit`; what a handler throws is swallowed. -/
def handOut (call : η → LogEntry → EStateM ε ω Unit) (entry : LogEntry) :
    List (Option η) → EStateM ε ω Unit
  | [] => pure ()
  | none :: handlers => handOut call entry handlers
  | some handler :: handlers => do
    Eff.catchIf (fun _ => true) (call handler entry) fun _ => pure ()
    handOut call entry handlers

/-- Every handler is called, whatever the others throw. -/
theorem handOut_run (call : η → LogEntry → EStateM ε ω Unit) (entry : LogEntry)
    (handlers : List (Option η)) (w : ω) : (handOut call entry handlers).run w =
      .ok () (handlers.reduceOption.foldl (fun w handler => Eff.after (call handler entry) w) w) := by
  induction handlers generalizing w with
  | nil => rfl
  | cons handler handlers ih =>
    cases handler with
    | none => exact ih w
    | some handler =>
      have hcatch : (Eff.catchIf (fun _ => true) (call handler entry) fun _ => pure ()).run w =
          .ok () (Eff.after (call handler entry) w) := by
        cases hx : (call handler entry).run w with
        | ok a w' => rw [Eff.run_catchIf_ok hx, Eff.after_ok hx]
        | error e w' =>
          rw [Eff.run_catchIf_error hx, Eff.after_error hx]
          rfl
      rw [handOut, Eff.run_bind_ok hcatch, ih, List.reduceOption_cons_of_some, List.foldl_cons]

/-! ## Threads that log -/

/-- The table, the messages between their steps, and what the handlers work on. -/
structure Logging (η ω : Type) where
  state : LogState η
  passed : List LogEntry
  ready : List LogEntry
  outside : ω

def start (outside : ω) : Logging η ω := ⟨fresh, [], [], outside⟩

inductive Act (η : Type) where
  | addHandler (name : Str) (handler : Option η)
  | removeHandler (name : Str)
  | clearHandlers
  | setLevel (level : LogLevel)
  | initLogging
  /-- `emit` checks the level. -/
  | log (entry : LogEntry)
  /-- Then it calls `ensure_init`. -/
  | ensureInit (entry : LogEntry)
  /-- Then it hands the message out. -/
  | dispatch (entry : LogEntry)

def step (console : η) (build : LogLevel) (call : η → LogEntry → EStateM ε ω Unit)
    (w : Logging η ω) : Act η → Option (Logging η ω)
  | .addHandler name handler => some { w with state := addHandler name handler w.state }
  | .removeHandler name => some { w with state := (removeHandler name w.state).2 }
  | .clearHandlers => some { w with state := clearHandlers w.state }
  | .setLevel level => some { w with state := setLevel level w.state }
  | .initLogging => some { w with state := initLogging console build w.state }
  | .log entry =>
    some (if isEnabled entry.level w.state then { w with passed := entry :: w.passed } else w)
  | .ensureInit entry =>
    if entry ∈ w.passed then
      some { w with
        state := initLogging console build w.state
        passed := w.passed.erase entry
        ready := entry :: w.ready }
    else none
  | .dispatch entry =>
    if entry ∈ w.ready then
      some { w with
        ready := w.ready.erase entry
        outside := Eff.after (handOut call entry (w.state.handlers.entries.map fun e => e.2))
          w.outside }
    else none

/-! ## What is in force -/

namespace Act

def initializes : Act η → Bool
  | initLogging | ensureInit _ => true
  | _ => false

/-- The level that is set. -/
def level? : Act η → Option LogLevel
  | setLevel level => some level
  | _ => none

/-- What is put under the name, or that it is removed. -/
def handler? (name : Str) : Act η → Option (Option (Option η))
  | addHandler name' handler => if name' = name then some (some handler) else none
  | removeHandler name' => if name' = name then some none else none
  | clearHandlers => some none
  | _ => none

/-- Whether it may put the console handler under the name. -/
def reinstates (name : Str) (l : Act η) : Bool := l.initializes && name == consoleName

end Act

structure Settled (console : η) (build : LogLevel) (ls : List (Act η)) (s : LogState η) : Prop where
  initialized : s.initialized = ls.any Act.initializes
  level : InForce Act.level? Act.initializes .info build ls s.minLevel
  handler : ∀ name, InForce (Act.handler? name) (Act.reinstates name) none (some (some console)) ls
    (s.handlers.lookup name)

namespace Settled

variable {console : η} {build : LogLevel} {ls : List (Act η)} {s : LogState η} {l : Act η}

theorem any_snoc (h : Settled console build ls s) (hl : l.initializes = false) :
    s.initialized = (ls ++ [l]).any Act.initializes := by
  rw [List.any_append, List.any_cons, List.any_nil, hl, Bool.or_false, Bool.or_false]
  exact h.initialized

/-- Nothing is set. -/
theorem keep (h : Settled console build ls s) (hl : l.initializes = false)
    (hlevel : l.level? = none) (hhandler : ∀ name, l.handler? name = none) :
    Settled console build (ls ++ [l]) s where
  initialized := h.any_snoc hl
  level := h.level.keep hlevel fun hr => by cases hl.symm.trans hr
  handler name := (h.handler name).keep (hhandler name) fun hr => by
    rw [Act.reinstates, hl] at hr
    cases hr

theorem setLevel (h : Settled console build ls s) (level : LogLevel) :
    Settled console build (ls ++ [.setLevel level]) (setLevel level s) where
  initialized := h.any_snoc rfl
  level := InForce.write rfl rfl
  handler name := (h.handler name).keep rfl fun hr => by cases hr

/-- The handlers change, under the names that are set. -/
theorem setHandlers (h : Settled console build ls s) (handlers : Map Str (Option η))
    (hl : l.initializes = false) (hlevel : l.level? = none)
    (hset : ∀ name v, l.handler? name = some v → handlers.lookup name = v)
    (hkept : ∀ name, l.handler? name = none → handlers.lookup name = s.handlers.lookup name) :
    Settled console build (ls ++ [l]) { s with handlers } where
  initialized := h.any_snoc hl
  level := h.level.keep hlevel fun hr => by cases hl.symm.trans hr
  handler name := by
    have hr : l.reinstates name = false := by rw [Act.reinstates, hl, Bool.false_and]
    cases hv : l.handler? name with
    | none =>
      rw [hkept name hv]
      exact (h.handler name).keep hv fun h => by cases hr.symm.trans h
    | some v =>
      rw [hset name v hv]
      exact InForce.write hv hr

/-- One name is set. -/
theorem setHandler (h : Settled console build ls s) {name : Str} {v : Option (Option η)}
    {handlers : Map Str (Option η)} (hl : l.initializes = false) (hlevel : l.level? = none)
    (hset : ∀ name', l.handler? name' = if name = name' then some v else none)
    (hlookup : handlers.lookup name = v)
    (hother : ∀ name', name' ≠ name → handlers.lookup name' = s.handlers.lookup name') :
    Settled console build (ls ++ [l]) { s with handlers } := by
  refine h.setHandlers handlers hl hlevel (fun name' v' hv => ?_) fun name' hv => ?_
  · rw [hset] at hv
    split at hv
    · next heq =>
      cases hv
      rw [← heq]
      exact hlookup
    · cases hv
  · rw [hset] at hv
    split at hv
    · cases hv
    · next hne => exact hother name' (Ne.symm hne)

/-- The first time, the console handler and the level of the build; after that nothing. -/
theorem initLogging (h : Settled console build ls s) (hl : l.initializes = true)
    (hlevel : l.level? = none) (hhandler : ∀ name, l.handler? name = none) :
    Settled console build (ls ++ [l]) (initLogging console build s) := by
  have hany : (ls ++ [l]).any Act.initializes = true := by
    rw [List.any_append, List.any_cons, hl, Bool.true_or, Bool.or_true]
  unfold Log.initLogging
  cases hinit : s.initialized with
  | true =>
    obtain ⟨l', hmem, hl'⟩ := List.any_eq_true.mp (h.initialized.symm.trans hinit)
    refine ⟨hinit.trans hany.symm, h.level.keep hlevel fun _ => ⟨l', hmem, hl'⟩, fun name => ?_⟩
    refine (h.handler name).keep (hhandler name) fun hr => ⟨l', hmem, ?_⟩
    rw [Act.reinstates, hl, Bool.true_and] at hr
    rw [Act.reinstates, hl', hr, Bool.and_true]
  | false =>
    have hnone : ∀ l' ∈ ls, Act.initializes l' = false := by
      have hall := List.any_eq_false.mp (h.initialized.symm.trans hinit)
      exact fun l' hmem => Bool.eq_false_iff.mpr (hall l' hmem)
    refine ⟨hany.symm, InForce.reset hl hnone, fun name => ?_⟩
    by_cases hname : name = consoleName
    · subst hname
      have hlookup : ((addHandler consoleName (some console) s).handlers.lookup consoleName) =
          some (some console) := AList.lookup_insert _
      rw [if_neg Bool.false_ne_true]
      dsimp only
      rw [hlookup]
      refine InForce.reset ?_ fun l' hmem => ?_
      · rw [Act.reinstates, hl, beq_self_eq_true, Bool.and_true]
      · rw [Act.reinstates, hnone l' hmem, Bool.false_and]
    · have hlookup : (addHandler consoleName (some console) s).handlers.lookup name =
          s.handlers.lookup name := AList.lookup_insert_ne hname
      rw [if_neg Bool.false_ne_true]
      dsimp only
      rw [hlookup]
      refine (h.handler name).keep (hhandler name) fun hr => ?_
      rw [Act.reinstates, beq_false_of_ne hname, Bool.and_false] at hr
      cases hr

end Settled

theorem settled_step {console : η} {build : LogLevel} {call : η → LogEntry → EStateM ε ω Unit}
    {ls : List (Act η)} {w w' : Logging η ω} {l : Act η} (h : Settled console build ls w.state)
    (hs : step console build call w l = some w') : Settled console build (ls ++ [l]) w'.state := by
  cases l with
  | addHandler name handler =>
    cases hs
    exact h.setHandler rfl rfl (fun _ => rfl) (AList.lookup_insert _) fun _ hne =>
      AList.lookup_insert_ne hne
  | removeHandler name =>
    cases hs
    exact h.setHandler rfl rfl (fun _ => rfl) (AList.lookup_erase _ _) fun _ hne =>
      AList.lookup_erase_ne hne
  | clearHandlers =>
    cases hs
    refine h.setHandlers _ rfl rfl (fun name' v hv => ?_) fun name' hv => ?_
    · cases hv
      exact AList.lookup_empty _
    · cases hv
  | setLevel level =>
    cases hs
    exact h.setLevel level
  | initLogging =>
    cases hs
    exact h.initLogging rfl rfl fun _ => rfl
  | log entry =>
    have hstate : w'.state = w.state := by
      cases hs
      split
      · rfl
      · rfl
    rw [hstate]
    exact h.keep rfl rfl fun _ => rfl
  | ensureInit entry =>
    simp only [step] at hs
    split at hs
    · cases hs
      exact h.initLogging rfl rfl fun _ => rfl
    · cases hs
  | dispatch entry =>
    simp only [step] at hs
    split at hs
    · cases hs
      exact h.keep rfl rfl fun _ => rfl
    · cases hs

/-- However the threads take turns, the level is the one that was set last, or the build's if no
message passed behind it; and so it is with the handlers, where only the console handler is put
back. -/
theorem settings_in_force {console : η} {build : LogLevel}
    {call : η → LogEntry → EStateM ε ω Unit} {outside : ω} {ls : List (Act η)} {w : Logging η ω}
    (h : Lts.Run (step console build call) (fun _ _ => True) (start outside) ls w) :
    InForce Act.level? Act.initializes .info build ls w.state.minLevel ∧
      ∀ name, InForce (Act.handler? name) (Act.reinstates name) none (some (some console)) ls
        (w.state.handlers.lookup name) := by
  have hsettled := h.induction (fun ls w => Settled console build ls w.state)
    ⟨rfl, LastWrite.inForce_nil, fun _ => LastWrite.inForce_nil⟩
    fun _ _ _ _ hw _ hs => settled_step hw hs
  exact ⟨hsettled.level, hsettled.handler⟩

end

/-- A program wants to hear of warnings and errors only, and then has an error. -/
def warnings (entry : LogEntry) : List (Act Unit) :=
  [.setLevel .warn, .log entry, .ensureInit entry, .dispatch entry]

/-- Where the build's level is `debug`, it hears everything from then on. -/
theorem settings_in_force_warnings :
    ∃ w, Lts.follow (step () .debug fun _ _ => (pure () : EStateM Exn Unit Unit)) (start ())
        (warnings ⟨.error, lit "refused", lit "main.cpp", 7⟩) = some w ∧
      w.state.minLevel = .debug := by
  have h : (Lts.follow (step () .debug fun _ _ => (pure () : EStateM Exn Unit Unit)) (start ())
      (warnings ⟨.error, lit "refused", lit "main.cpp", 7⟩)).isSome = true := by
    decide +kernel
  obtain ⟨w, hw⟩ := Option.isSome_iff_exists.mp h
  refine ⟨w, hw, (settings_in_force (Lts.Run.nil.follow (fun _ _ _ => trivial) hw)).1.1 ?_⟩
  exact ⟨[.setLevel .warn, .log _], .ensureInit _, [.dispatch _], rfl, rfl,
    by simp [Act.initializes], by simp [Act.level?]⟩

end Log

end Song
