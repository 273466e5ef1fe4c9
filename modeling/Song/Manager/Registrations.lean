import Mathlib.Data.List.Induction
import Song.Manager

/-!
# Registered names (`manager.cpp`: `register_service` and its siblings)

Names are looked up by the first match, so they should be distinct. Two of the three functions
that register a service refuse a name that is taken; `register_discoverable_service` does not
look. So the names are distinct exactly if no call of it is given a name from before.
-/

namespace Song

namespace Manager

def names (m : Manager) : List Str := m.services.map ServiceEntry.name

/-- Every service is found under its name. -/
def Found (m : Manager) : Prop := ∀ entry ∈ m.services, m.findService entry.name = some entry

theorem findService_eq_none_iff {m : Manager} {name : Str} :
    m.findService name = none ↔ name ∉ m.names := by
  rw [findService, List.find?_eq_none, names, List.mem_map]
  constructor
  · rintro h ⟨entry, he, rfl⟩
    exact h entry he (decide_eq_true rfl)
  · intro h entry he hname
    exact h ⟨entry, he, of_decide_eq_true hname⟩

theorem found_of_nodup {m : Manager} (h : m.names.Nodup) : m.Found := by
  intro entry he
  obtain ⟨l, l', hl⟩ := List.append_of_mem he
  have hnodup := h
  rw [names, hl, List.map_append, List.map_cons, List.nodup_append] at hnodup
  rw [findService, List.find?_eq_some_iff_append]
  refine ⟨decide_eq_true rfl, l, l', hl, fun e hmem => ?_⟩
  have hne := hnodup.2.2 e.name (List.mem_map_of_mem hmem) entry.name List.mem_cons_self
  simpa using hne

end Manager

namespace ServiceManager

open Manager

/-- A call of one of the three functions. -/
inductive Registration where
  | service (name executable : Str) (version : UInt32)
  | remote (name host : Str) (port : UInt16) (version : UInt32)
  | discoverable (name serviceType : Str) (version : UInt32)

namespace Registration

def name : Registration → Str
  | service name _ _ | remote name _ _ _ | discoverable name _ _ => name

def run : Registration → Mgr Unit
  | service name executable version => registerService name executable version
  | remote name host port version => registerRemoteService name host port version
  | discoverable name serviceType version => registerDiscoverableService name serviceType version

/-- The manager after these calls, some of which may have thrown. -/
def after (m : Manager) (regs : List Registration) : Manager :=
  regs.foldl (fun m reg => Eff.after reg.run m) m

/-- It refuses a registered name and leaves the manager as it is. -/
def Refuses (m : Manager) (reg : Registration) : Prop :=
  ∃ text, reg.run.run m = .error (.serviceError text) m

/-! ## A call -/

section
variable {m : Manager}

theorem checkUnregistered_taken {name : Str} (h : name ∈ m.names) :
    (checkUnregistered name).run m =
      .error (.serviceError (lit "Service '" ++ name ++ lit "' is already registered")) m := by
  cases hfind : m.findService name with
  | none => exact absurd h (findService_eq_none_iff.mp hfind)
  | some entry =>
    rw [checkUnregistered, Eff.run_get_bind, hfind]
    rfl

theorem checkUnregistered_free {name : Str} (h : name ∉ m.names) :
    (checkUnregistered name).run m = .ok () m := by
  have hfind := findService_eq_none_iff.mpr h
  rw [checkUnregistered, Eff.run_get_bind, hfind]
  rfl

/-- The two that look refuse a taken name. -/
theorem refuses_of_taken {reg : Registration} (h : reg.name ∈ m.names)
    (hreg : ∀ name serviceType version, reg ≠ discoverable name serviceType version) :
    reg.Refuses m := by
  cases reg with
  | service name executable version =>
    exact ⟨_, Eff.run_bind_error (checkUnregistered_taken h)⟩
  | remote name host port version =>
    exact ⟨_, Eff.run_bind_error (checkUnregistered_taken h)⟩
  | discoverable name serviceType version => exact absurd rfl (hreg _ _ _)

/-- Every call that is not refused adds its name. -/
theorem names_registers {reg : Registration}
    (h : reg.name ∉ m.names ∨ ∃ name serviceType version,
      reg = discoverable name serviceType version) :
    (Eff.after reg.run m).names = m.names ++ [reg.name] := by
  have hadd : ∀ entry, (Eff.after (register entry) m).names = m.names ++ [entry.name] := by
    intro entry
    exact List.map_append
  cases reg with
  | service name executable version =>
    have hfree : name ∉ m.names := h.resolve_right nofun
    rw [run, registerService, Eff.after, Eff.run_bind_ok (checkUnregistered_free hfree)]
    exact hadd _
  | remote name host port version =>
    have hfree : name ∉ m.names := h.resolve_right nofun
    rw [run, registerRemoteService, Eff.after, Eff.run_bind_ok (checkUnregistered_free hfree)]
    exact hadd _
  | discoverable name serviceType version => exact hadd _

theorem after_refused {reg : Registration} (h : reg.Refuses m) : Eff.after reg.run m = m := by
  obtain ⟨text, hrun⟩ := h
  exact Eff.after_error hrun

/-- A call either is refused or adds its name. -/
theorem names_after (reg : Registration) (m : Manager) :
    reg.name ∈ m.names ∧ (Eff.after reg.run m).names = m.names ∨
      (Eff.after reg.run m).names = m.names ++ [reg.name] := by
  by_cases htaken : reg.name ∈ m.names
  · by_cases hreg : ∃ name serviceType version, reg = discoverable name serviceType version
    · exact .inr (names_registers (.inr hreg))
    · refine .inl ⟨htaken, congrArg names (after_refused (refuses_of_taken htaken ?_))⟩
      exact fun name serviceType version heq => hreg ⟨name, serviceType, version, heq⟩
  · exact .inr (names_registers (.inl htaken))

end

/-! ## A sequence of calls -/

/-- No `register_discoverable_service` is given a name from before. -/
def FreshNames (regs : List Registration) : Prop :=
  ∀ before name serviceType version later,
    regs = before ++ discoverable name serviceType version :: later →
      ∀ reg ∈ before, reg.name ≠ name

theorem after_append (m : Manager) (regs regs' : List Registration) :
    after m (regs ++ regs') = after (after m regs) regs' := List.foldl_append

theorem mem_names_after {m : Manager} {regs : List Registration} {name : Str} :
    name ∈ (after m regs).names ↔ name ∈ m.names ∨ ∃ reg ∈ regs, reg.name = name := by
  induction regs generalizing m with
  | nil => simp [after]
  | cons reg regs ih =>
    have hstep : name ∈ (Eff.after reg.run m).names ↔ name ∈ m.names ∨ reg.name = name := by
      rcases reg.names_after m with ⟨htaken, heq⟩ | heq
      · rw [heq]
        refine (or_iff_left_of_imp ?_).symm
        rintro rfl
        exact htaken
      · rw [heq, List.mem_append, List.mem_singleton, eq_comm (a := name)]
    show name ∈ (after (Eff.after reg.run m) regs).names ↔ _
    rw [ih, hstep, or_assoc]
    simp only [List.mem_cons, exists_eq_or_imp]

/-- Names stay registered. -/
theorem names_sublist (m : Manager) (regs : List Registration) :
    m.names.Sublist (after m regs).names := by
  induction regs generalizing m with
  | nil => exact .refl _
  | cons reg regs ih =>
    refine .trans ?_ (ih (Eff.after reg.run m))
    rcases reg.names_after m with ⟨-, heq⟩ | heq
    · rw [heq]
    · rw [heq]
      exact List.sublist_append_left _ _

theorem freshNames_of_nodup {regs : List Registration} (h : (after .empty regs).names.Nodup) :
    FreshNames regs := by
  rintro before name serviceType version later rfl reg hreg hname
  have hmem : name ∈ (after .empty before).names := mem_names_after.mpr (.inr ⟨reg, hreg, hname⟩)
  rw [after_append] at h
  have hnodup := h.sublist (names_sublist (Eff.after (discoverable name serviceType version).run
    (after .empty before)) later)
  rw [names_registers (.inr ⟨_, _, _, rfl⟩), List.nodup_append] at hnodup
  exact hnodup.2.2 name hmem name List.mem_cons_self rfl

theorem nodup_of_freshNames {regs : List Registration} (h : FreshNames regs) :
    (after .empty regs).names.Nodup := by
  induction regs using List.reverseRecOn with
  | nil => exact List.nodup_nil
  | append_singleton regs reg ih =>
    have hregs : FreshNames regs := by
      rintro before name serviceType version later rfl
      refine h before name serviceType version (later ++ [reg]) ?_
      rw [List.append_assoc, List.cons_append]
    have hnodup := ih hregs
    rw [after_append]
    show (Eff.after reg.run (after .empty regs)).names.Nodup
    by_cases htaken : reg.name ∈ (after .empty regs).names
    · rw [after_refused (refuses_of_taken htaken fun name serviceType version heq => ?_)]
      · exact hnodup
      · obtain ⟨reg', hreg', hname⟩ := (mem_names_after.mp htaken).resolve_left nofun
        refine h regs name serviceType version [] (by rw [heq]) reg' hreg' ?_
        rw [hname, heq]
        rfl
    · rw [names_registers (.inl htaken), ← List.concat_eq_append]
      exact hnodup.concat htaken

/-- From the first call on, a name that is taken is refused, under whichever kind, the names stay
distinct and each is found, exactly if no `register_discoverable_service` is given a name from
before. -/
theorem names_distinct_iff (regs : List Registration) :
    ((∀ before reg later, regs = before ++ reg :: later →
        reg.name ∈ (after .empty before).names → reg.Refuses (after .empty before)) ∧
      (after .empty regs).names.Nodup ∧ (after .empty regs).Found) ↔ FreshNames regs := by
  constructor
  · rintro ⟨-, hnodup, -⟩
    exact freshNames_of_nodup hnodup
  · intro h
    have hnodup := nodup_of_freshNames h
    refine ⟨fun before reg later hsplit htaken => refuses_of_taken htaken ?_, hnodup,
      found_of_nodup hnodup⟩
    rintro name serviceType version rfl
    obtain ⟨reg', hreg', hname⟩ := (mem_names_after.mp htaken).resolve_left nofun
    exact h before name serviceType version later hsplit reg' hreg' hname

/-- A local service, and a discoverable one under its name. -/
theorem registered_twice : ¬ ∀ regs : List Registration,
    (∀ before reg later, regs = before ++ reg :: later →
      reg.name ∈ (after .empty before).names → reg.Refuses (after .empty before)) ∧
    (after .empty regs).names.Nodup ∧ (after .empty regs).Found := by
  intro h
  have hnodup := (h [.service (lit "calc") (lit "./calc") 1,
    .discoverable (lit "calc") (lit "calculator") 1]).2.1
  have hnames : (after .empty [.service (lit "calc") (lit "./calc") 1,
    .discoverable (lit "calc") (lit "calculator") 1]).names = [lit "calc", lit "calc"] := rfl
  rw [hnames] at hnodup
  revert hnodup
  decide

end Registration

end ServiceManager

end Song
