import Mathlib.Logic.Function.Basic
import Song.Lib.Run

/-!
# Writers that share a stream

Several writers put their messages on one stream, each in as many parts as it takes; the parts
of different writers may come in any order. While each part is put alone, that is while no other
message is on the stream in part (`Act.Alone`, `step_inv`), the stream is made of whole messages,
and of what the one writer has put that is in the middle of its message (`Inv.exists_whole`).
-/

namespace Writers

/-- A message on its way: what is on the stream, and what is left. -/
structure Writing (α : Type) where
  put : List α
  rest : List α

def Writing.message {α : Type} (x : Writing α) : List α := x.put ++ x.rest

structure State (ω α : Type) where
  stream : List α
  writing : ω → Option (Writing α)
  /-- The messages the writers were given. -/
  given : List (List α)

inductive Act (ω α : Type) where
  | begin (w : ω) (msg : List α)
  /-- One item of the message and `more` further ones, or all that is left. -/
  | put (w : ω) (more : Nat)
  | giveUp (w : ω)

variable {ω α : Type}

def State.empty : State ω α := ⟨[], fun _ => none, []⟩

/-- What `w` has put of the message it is writing. -/
def State.part (s : State ω α) (w : ω) : List α :=
  match s.writing w with
  | none => []
  | some x => x.put

/-- No other message is on the stream in part, and none is left so. -/
def Act.Alone (s : State ω α) : Act ω α → Prop
  | begin _ _ => True
  | put w _ => ∀ w', w' ≠ w → s.part w' = []
  | giveUp w => s.part w = []

/-- The stream is made of messages that were given, and of `part` at its end. -/
def State.Whole (s : State ω α) (part : List α) : Prop :=
  ∃ msgs : List (List α), (∀ m ∈ msgs, m ∈ s.given) ∧ s.stream = msgs.flatten ++ part

/-- What a run of lone parts keeps: one writer at most is midway, and the rest is whole. -/
structure Inv (s : State ω α) : Prop where
  given : ∀ w x, s.writing w = some x → x.message ∈ s.given
  one : ∀ w w', s.part w ≠ [] → s.part w' ≠ [] → w = w'
  whole : ∀ w, (∀ w', w' ≠ w → s.part w' = []) → s.Whole (s.part w)

theorem Inv.empty : Inv (State.empty : State ω α) where
  given := nofun
  one _ _ h := absurd rfl h
  whole _ _ := ⟨[], nofun, rfl⟩

/-- Of all that is on the stream, one writer's part at most is not a whole message. -/
theorem Inv.exists_whole [Nonempty ω] {s : State ω α} (hs : Inv s) : ∃ w, s.Whole (s.part w) := by
  by_cases hmid : ∃ w, s.part w ≠ []
  · obtain ⟨w, hw⟩ := hmid
    refine ⟨w, hs.whole w fun w' hne => ?_⟩
    by_contra hw'
    exact hne (hs.one w' w hw' hw)
  · obtain ⟨w⟩ := ‹Nonempty ω›
    exact ⟨w, hs.whole w fun w' _ => by_contra fun hw' => hmid ⟨w', hw'⟩⟩

variable [DecidableEq ω]

def State.set (s : State ω α) (w : ω) (x : Option (Writing α)) : State ω α :=
  { s with writing := Function.update s.writing w x }

/-- A writer that has put all of its message is done with it. -/
def step (s : State ω α) : Act ω α → Option (State ω α)
  | .begin w msg =>
    if (s.writing w).isNone ∧ msg ≠ [] then
      some { s.set w (some ⟨[], msg⟩) with given := s.given ++ [msg] }
    else none
  | .put w more =>
    match s.writing w with
    | none => none
    | some x =>
      some { s.set w (if x.rest.drop (more + 1) = [] then none
          else some ⟨x.put ++ x.rest.take (more + 1), x.rest.drop (more + 1)⟩) with
        stream := s.stream ++ x.rest.take (more + 1) }
  | .giveUp w =>
    match s.writing w with
    | none => none
    | some _ => some (s.set w none)

variable {s s' : State ω α} {w : ω}

theorem writing_set_self (x : Option (Writing α)) : (s.set w x).writing w = x :=
  Function.update_self _ _ _

theorem writing_set_of_ne {w' : ω} (x : Option (Writing α)) (h : w' ≠ w) :
    (s.set w x).writing w' = s.writing w' := Function.update_of_ne h _ _

theorem part_set_self (x : Option (Writing α)) :
    (s.set w x).part w = match x with | none => [] | some x => x.put := by
  rw [State.part, writing_set_self]

theorem part_set_of_ne {w' : ω} (x : Option (Writing α)) (h : w' ≠ w) :
    (s.set w x).part w' = s.part w' := by
  rw [State.part, writing_set_of_ne x h, State.part]

/-- With everybody else between messages, only `w` can be midway. -/
theorem Inv.set (hs : Inv s) {x : Option (Writing α)}
    (halone : ∀ w', w' ≠ w → s.part w' = []) {stream : List α}
    (hgiven : ∀ y, x = some y → y.message ∈ s.given)
    (hwhole : ({ s.set w x with stream } : State ω α).Whole ((s.set w x).part w)) :
    Inv ({ s.set w x with stream } : State ω α) := by
  have hother : ∀ w', (s.set w x).part w' ≠ [] → w' = w := by
    intro w' hne
    by_contra hw'
    rw [part_set_of_ne x hw'] at hne
    exact hne (halone w' hw')
  refine ⟨fun w' y hy => ?_, fun w₁ w₂ h₁ h₂ => ?_, fun w' hw' => ?_⟩
  · by_cases heq : w' = w
    · subst heq
      exact hgiven y ((writing_set_self x).symm.trans hy)
    · exact hs.given w' y ((writing_set_of_ne x heq).symm.trans hy)
  · exact (hother w₁ h₁).trans (hother w₂ h₂).symm
  · by_cases heq : w' = w
    · subst heq
      exact hwhole
    · have hw : (s.set w x).part w = [] := hw' w fun h => heq h.symm
      have hnil : (s.set w x).part w' = [] := (part_set_of_ne x heq).trans (halone w' heq)
      show ({ s.set w x with stream } : State ω α).Whole ((s.set w x).part w')
      rw [hnil]
      rwa [hw] at hwhole

/-- What puts nothing keeps everybody's part. -/
theorem Inv.quiet (hs : Inv s) {x : Option (Writing α)} {given : List (List α)}
    (hsub : s.given ⊆ given) (hgiven : ∀ y, x = some y → y.message ∈ given)
    (hpart : (s.set w x).part w = s.part w) : Inv ({ s.set w x with given } : State ω α) := by
  have hsame : ∀ w', (s.set w x).part w' = s.part w' := by
    intro w'
    by_cases heq : w' = w
    · rw [heq, hpart]
    · exact part_set_of_ne x heq
  refine ⟨fun w' y hy => ?_, fun w₁ w₂ h₁ h₂ => ?_, fun w' hw' => ?_⟩
  · by_cases heq : w' = w
    · subst heq
      exact hgiven y ((writing_set_self x).symm.trans hy)
    · exact hsub (hs.given w' y ((writing_set_of_ne x heq).symm.trans hy))
  · exact hs.one w₁ w₂ (hsame w₁ ▸ h₁) (hsame w₂ ▸ h₂)
  · obtain ⟨msgs, hmsgs, hstream⟩ := hs.whole w' fun w'' hne => hsame w'' ▸ hw' w'' hne
    refine ⟨msgs, fun m hm => hsub (hmsgs m hm), ?_⟩
    show s.stream = msgs.flatten ++ (s.set w x).part w'
    rw [hsame w']
    exact hstream

/-- A part that is put alone. -/
theorem Inv.put (hs : Inv s) {x : Writing α} {more : Nat} (hx : s.writing w = some x)
    (halone : ∀ w', w' ≠ w → s.part w' = []) :
    Inv ({ s.set w (if x.rest.drop (more + 1) = [] then none
        else some ⟨x.put ++ x.rest.take (more + 1), x.rest.drop (more + 1)⟩) with
      stream := s.stream ++ x.rest.take (more + 1) } : State ω α) := by
  have hpart : s.part w = x.put := by rw [State.part, hx]
  obtain ⟨msgs, hmsgs, hstream⟩ := hs.whole w halone
  rw [hpart] at hstream
  have hmessage := hs.given w x hx
  by_cases hrest : x.rest.drop (more + 1) = []
  · have htake : x.rest.take (more + 1) = x.rest := by
      have happ := List.take_append_drop (more + 1) x.rest
      rwa [hrest, List.append_nil] at happ
    rw [if_pos hrest, htake]
    refine hs.set halone nofun ⟨msgs ++ [x.message], ?_, ?_⟩
    · intro m hm
      rcases List.mem_append.mp hm with hm | hm
      · exact hmsgs m hm
      · rw [List.mem_singleton.mp hm]
        exact hmessage
    · rw [part_set_self]
      show s.stream ++ x.rest = (msgs ++ [x.message]).flatten ++ []
      rw [List.append_nil, List.flatten_append, List.flatten_singleton, Writing.message,
        ← List.append_assoc, ← hstream]
  · rw [if_neg hrest]
    refine hs.set halone ?_ ⟨msgs, hmsgs, ?_⟩
    · rintro y hy
      cases hy
      rw [Writing.message, List.append_assoc, List.take_append_drop]
      exact hmessage
    · rw [part_set_self]
      show s.stream ++ x.rest.take (more + 1) = msgs.flatten ++ (x.put ++ x.rest.take (more + 1))
      rw [← List.append_assoc, ← hstream]

theorem step_inv {a : Act ω α} (hs : Inv s) (ha : a.Alone s) (h : step s a = some s') :
    Inv s' := by
  cases a with
  | begin w msg =>
    simp only [step] at h
    split at h
    · next hcan =>
      cases h
      refine hs.quiet (List.subset_append_left _ _) ?_ ?_
      · rintro y hy
        cases hy
        exact List.mem_append_right _ List.mem_cons_self
      · rw [part_set_self, State.part, Option.isNone_iff_eq_none.mp hcan.1]
    · cases h
  | put w more =>
    simp only [step] at h
    split at h
    · cases h
    · next x hx =>
      cases h
      exact hs.put hx ha
  | giveUp w =>
    simp only [step] at h
    split at h
    · cases h
    · next x hx =>
      cases h
      refine hs.quiet (List.Subset.refl _) nofun ?_
      rw [part_set_self]
      exact ha.symm

end Writers
