import Mathlib.Data.List.Count
import Mathlib.Logic.Function.Basic

/-!
# Counted references

Names are issued, retained and released. A table has the count of each name that stands; the
release that brings a count to 0 is the last one, and takes the name out of the table. The log of
what happened determines the table: a count is 1 and the retains less the releases, a name stands
from its issue to its one last release (`Tallied`, which each `Step` keeps).
-/

namespace Refs

inductive Event (ι : Type) where
  | issued (i : ι)
  | retained (i : ι)
  | released (i : ι) (last : Bool)
  deriving DecidableEq

variable {ι : Type}

/-- The name that an event is about. -/
def Event.name : Event ι → ι
  | .issued i => i
  | .retained i => i
  | .released i _ => i

/-- How many names have been issued. -/
def issues (log : List (Event ι)) : Nat :=
  log.countP fun
    | .issued _ => true
    | .retained _ | .released _ _ => false

theorem issues_append (log log' : List (Event ι)) :
    issues (log ++ log') = issues log + issues log' :=
  List.countP_append

variable [DecidableEq ι]

/-- 1 and the retains less the releases. -/
def refs (i : ι) (log : List (Event ι)) : Int :=
  1 + log.count (.retained i) - (log.count (.released i false) + log.count (.released i true))

/-- What an event does to the table. -/
inductive Step (live : ι → Option Int) : Event ι → (ι → Option Int) → Prop
  | issued (i : ι) : Step live (.issued i) (Function.update live i (some 1))
  | retained {i : ι} {n : Int} (hi : live i = some n) :
    Step live (.retained i) (Function.update live i (some (n + 1)))
  | released {i : ι} {n : Int} (hi : live i = some n) (hn : n ≠ 1) :
    Step live (.released i false) (Function.update live i (some (n - 1)))
  | last {i : ι} (hi : live i = some 1) :
    Step live (.released i true) (Function.update live i none)

/-- The table says what the log says. -/
structure Tallied (live : ι → Option Int) (log : List (Event ι)) : Prop where
  counted : ∀ i n, live i = some n → n = refs i log ∧ 1 ≤ n
  standing : ∀ i, live i ≠ none ↔ .issued i ∈ log ∧ .released i true ∉ log
  issued_once : ∀ i, log.count (.issued i) ≤ 1
  last_once : ∀ i, log.count (.released i true) ≤ 1
  last_iff : ∀ pre i last post, log = pre ++ .released i last :: post →
    (last = true ↔ refs i (pre ++ [.released i last]) = 0)
  known : ∀ e ∈ log, .issued e.name ∈ log

omit [DecidableEq ι] in
theorem tallied_nil [DecidableEq ι] : Tallied (fun _ : ι => none) [] where
  counted _ _ h := by cases h
  standing _ := ⟨fun h => absurd rfl h, fun h => absurd h.1 List.not_mem_nil⟩
  issued_once _ := Nat.zero_le _
  last_once _ := Nat.zero_le _
  last_iff _ _ _ _ h := absurd h.symm (by simp)
  known _ h := absurd h List.not_mem_nil

/-! ## What one more event changes -/

theorem refs_concat_of_ne {i : ι} {e : Event ι} (h : e.name ≠ i) (log : List (Event ι)) :
    refs i (log ++ [e]) = refs i log := by
  have hne : ∀ e' : Event ι, e'.name = i → (log ++ [e]).count e' = log.count e' := by
    intro e' he'
    have : e ≠ e' := fun hee => h (hee ▸ he')
    rw [List.count_append, List.count_singleton, if_neg (by simpa using this), Nat.add_zero]
  rw [refs, refs, hne (.retained i) rfl, hne (.released i false) rfl, hne (.released i true) rfl]

theorem refs_issued (i : ι) (log : List (Event ι)) : refs i (log ++ [.issued i]) = refs i log := by
  simp [refs, List.count_append]

theorem refs_retained (i : ι) (log : List (Event ι)) :
    refs i (log ++ [.retained i]) = refs i log + 1 := by
  simp [refs, List.count_append]
  omega

theorem refs_released (i : ι) (last : Bool) (log : List (Event ι)) :
    refs i (log ++ [.released i last]) = refs i log - 1 := by
  cases last <;> simp [refs, List.count_append] <;> omega

/-- An event that is not the last of the log is one of the log before it. -/
theorem concat_eq_append_cons {α : Type} {log pre post : List α} {e e' : α}
    (h : log ++ [e] = pre ++ e' :: post) :
    (log = pre ∧ e = e' ∧ post = []) ∨ ∃ post', log = pre ++ e' :: post' ∧ post = post' ++ [e] := by
  rcases List.eq_nil_or_concat post with rfl | ⟨post', e'', rfl⟩
  · obtain ⟨hl, he⟩ := List.append_inj' h rfl
    exact .inl ⟨hl, List.singleton_inj.mp he, rfl⟩
  · rw [List.concat_eq_append, ← List.cons_append, ← List.append_assoc] at h
    obtain ⟨hl, he⟩ := List.append_inj' h rfl
    rw [List.concat_eq_append, List.singleton_inj.mp he]
    exact .inr ⟨post', hl, rfl⟩

namespace Tallied

variable {live live' : ι → Option Int} {log : List (Event ι)} (h : Tallied live log)
include h

theorem refs_unknown {i : ι} (hi : .issued i ∉ log) : refs i log = 1 := by
  have hzero : ∀ e : Event ι, e.name = i → log.count e = 0 := by
    intro e he
    refine List.count_eq_zero.mpr fun hmem => hi ?_
    rw [← he]
    exact h.known e hmem
  rw [refs, hzero (.retained i) rfl, hzero (.released i false) rfl, hzero (.released i true) rfl]
  rfl

theorem issued_mem {i : ι} {n : Int} (hi : live i = some n) : .issued i ∈ log :=
  ((h.standing i).mp (by rw [hi]; exact Option.some_ne_none n)).1

theorem last_not_mem {i : ι} {n : Int} (hi : live i = some n) : .released i true ∉ log :=
  ((h.standing i).mp (by rw [hi]; exact Option.some_ne_none n)).2

/-- The log's last event, where it is a release, is checked by itself. -/
theorem last_iff_concat {e : Event ι}
    (he : ∀ i last, e = .released i last → (last = true ↔ refs i (log ++ [e]) = 0)) :
    ∀ pre i last post, log ++ [e] = pre ++ .released i last :: post →
      (last = true ↔ refs i (pre ++ [.released i last]) = 0) := by
  intro pre i last post heq
  rcases concat_eq_append_cons heq with ⟨rfl, rfl, -⟩ | ⟨post', hl, -⟩
  · exact he i last rfl
  · exact h.last_iff pre i last post' hl

omit h [DecidableEq ι] in
theorem known_concat (hknown : ∀ e ∈ log, .issued e.name ∈ log) {e : Event ι}
    (he : .issued e.name ∈ log ++ [e]) : ∀ e' ∈ log ++ [e], .issued e'.name ∈ log ++ [e] := by
  intro e' hmem
  rcases List.mem_append.mp hmem with hmem | hmem
  · exact List.mem_append_left _ (hknown e' hmem)
  · rw [List.mem_singleton.mp hmem]
    exact he

theorem issue {i : ι} (hi : .issued i ∉ log) :
    Tallied (Function.update live i (some 1)) (log ++ [.issued i]) where
  counted j n hj := by
    by_cases hji : j = i
    · subst hji
      rw [Function.update_self] at hj
      cases hj
      rw [refs_issued, h.refs_unknown hi]
      exact ⟨rfl, Int.le_refl 1⟩
    · rw [Function.update_of_ne hji] at hj
      rw [refs_concat_of_ne (Ne.symm hji)]
      exact h.counted j n hj
  standing j := by
    by_cases hji : j = i
    · subst hji
      have hlast : .released j true ∉ log := fun hmem => hi (h.known _ hmem)
      simp [hlast]
    · have := h.standing j
      simp only [Function.update_of_ne hji, List.mem_append, List.mem_singleton, Event.issued.injEq,
        hji, or_false, reduceCtorEq]
      exact this
  issued_once j := by
    have := h.issued_once j
    rw [List.count_append, List.count_singleton]
    split
    · next hji =>
      have hji : i = j := by simpa using hji
      have hzero : log.count (.issued j) = 0 := List.count_eq_zero.mpr (hji ▸ hi)
      omega
    · exact this
  last_once j := by
    have hne : (Event.issued i == .released j true) = false := by simp
    rw [List.count_append, List.count_singleton, hne]
    exact h.last_once j
  last_iff := h.last_iff_concat fun _ _ he => by cases he
  known := known_concat h.known (List.mem_append_right _ (List.mem_singleton.mpr rfl))

/-- An event about a name that stands, which leaves it its count or takes it away. -/
theorem tally {i : ι} {n : Int} {e : Event ι} (hi : live i = some n) (hname : e.name = i)
    (hissued : ∀ j, e ≠ .issued j) {o : Option Int}
    (hcount : ∀ m, o = some m → m = refs i (log ++ [e]) ∧ 1 ≤ m)
    (hnone : o = none ↔ e = .released i true)
    (hlast : ∀ last, e = .released i last → (last = true ↔ refs i (log ++ [e]) = 0)) :
    Tallied (Function.update live i o) (log ++ [e]) where
  counted j m hj := by
    by_cases hji : j = i
    · subst hji
      rw [Function.update_self] at hj
      exact hcount m hj
    · rw [Function.update_of_ne hji] at hj
      rw [refs_concat_of_ne (by rw [hname]; exact Ne.symm hji)]
      exact h.counted j m hj
  standing j := by
    have hj := h.standing j
    have he : .issued j ≠ e := (hissued j).symm
    simp only [List.mem_append, List.mem_singleton, he, or_false, not_or]
    by_cases hji : j = i
    · subst hji
      have hmem := h.issued_mem hi
      have hnot := h.last_not_mem hi
      rw [Function.update_self]
      exact ⟨fun ho => ⟨hmem, hnot, fun he => ho (hnone.mpr he.symm)⟩,
        fun ⟨_, _, he⟩ ho => he (hnone.mp ho).symm⟩
    · have he' : .released j true ≠ e := fun he => hji (by rw [← hname, ← he]; rfl)
      rw [Function.update_of_ne hji]
      simp only [he', not_false_eq_true, and_true]
      exact hj
  issued_once j := by
    rw [List.count_append, List.count_singleton, if_neg (by simpa using hissued j)]
    exact h.issued_once j
  last_once j := by
    have hj := h.last_once j
    rw [List.count_append, List.count_singleton]
    split
    · next he =>
      have he : e = .released j true := by simpa using he
      have hij : j = i := by rw [← hname, he]; rfl
      have hzero : log.count (.released j true) = 0 :=
        List.count_eq_zero.mpr (hij ▸ h.last_not_mem hi)
      omega
    · exact hj
  last_iff := h.last_iff_concat fun j last he => by
    have hij : j = i := by rw [← hname, he]; rfl
    subst hij
    exact hlast last he
  known := known_concat h.known (by rw [hname]; exact List.mem_append_left _ (h.issued_mem hi))

/-- The table stays that of the log, if no name is issued twice. -/
theorem step {e : Event ι} (hstep : Step live e live') (hfresh : ∀ i, e = .issued i → e ∉ log) :
    Tallied live' (log ++ [e]) := by
  cases hstep with
  | issued i => exact h.issue (hfresh i rfl)
  | retained hi =>
    obtain ⟨hn, hpos⟩ := h.counted _ _ hi
    refine h.tally hi rfl (fun _ he => by cases he) (fun m hm => ?_)
      (iff_of_false (Option.some_ne_none _) (fun he => by cases he)) fun _ he => by cases he
    cases hm
    rw [refs_retained, ← hn]
    exact ⟨rfl, by omega⟩
  | released hi hne =>
    obtain ⟨hn, hpos⟩ := h.counted _ _ hi
    refine h.tally hi rfl (fun _ he => by cases he) (fun m hm => ?_)
      (iff_of_false (Option.some_ne_none _) (fun he => by cases he)) fun last he => ?_
    · cases hm
      rw [refs_released, ← hn]
      exact ⟨rfl, by omega⟩
    · cases he
      rw [refs_released, ← hn]
      exact iff_of_false Bool.false_ne_true (by omega)
  | last hi =>
    obtain ⟨hn, -⟩ := h.counted _ _ hi
    refine h.tally hi rfl (fun _ he => by cases he) (fun m hm => by cases hm)
      (iff_of_true rfl rfl) fun last he => ?_
    cases he
    rw [refs_released, ← hn]
    exact iff_of_true rfl rfl

end Tallied

end Refs
