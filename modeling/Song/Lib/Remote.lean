import Song.Lib.Run

/-!
# Something that is called from afar

Someone calls an object with a state of its own and waits for each answer; or posts something to it
and does not wait. What was sent first runs first; between a call, the moment it runs and the moment
its answer is there, others may change the state. Without others, what the caller is told is what
calls and posts one after the other would return (`told_inTurn`).
-/

namespace Remote

variable {σ ι π ρ : Type}

structure State (σ ι π ρ : Type) where
  own : σ
  /-- What was posted and has not run, oldest first. -/
  posted : List π
  /-- The call that is waited for, and its answer once it has run. -/
  pending : Option (ι × Option ρ)
  told : List (ι × ρ)

inductive Label (σ ι π : Type) where
  | call (i : ι)
  | post (x : π)
  | run
  | tell
  | others (own : σ)

def Label.IsOthers : Label σ ι π → Prop
  | .others _ => True
  | _ => False

/-- What the caller sends. -/
def Label.request? : Label σ ι π → Option (ι ⊕ π)
  | .call i => some (.inl i)
  | .post x => some (.inr x)
  | _ => none

def State.start (own : σ) : State σ ι π ρ := ⟨own, [], none, []⟩

section
variable (f : ι → σ → σ × ρ) (g : π → σ → σ)

/-- `f` is a call's effect on the state, and its answer; `g` is the effect of what is posted. -/
def step (s : State σ ι π ρ) : Label σ ι π → Option (State σ ι π ρ)
  | .call i =>
    match s.pending with
    | none => some { s with pending := some (i, none) }
    | some _ => none
  | .post x =>
    match s.pending with
    | none => some { s with posted := s.posted ++ [x] }
    | some _ => none
  | .run =>
    match s.posted, s.pending with
    | x :: rest, _ => some { s with own := g x s.own, posted := rest }
    | [], some (i, none) =>
      some { s with own := (f i s.own).1, pending := some (i, some (f i s.own).2) }
    | [], _ => none
  | .tell =>
    match s.pending with
    | some (i, some r) => some { s with pending := none, told := s.told ++ [(i, r)] }
    | _ => none
  | .others own => some { s with own }

/-- Requests one after the other: the state they leave, and what the calls return. -/
def inTurn : σ → List (ι ⊕ π) → σ × List (ι × ρ)
  | own, [] => (own, [])
  | own, .inl i :: rest =>
    ((inTurn (f i own).1 rest).1, (i, (f i own).2) :: (inTurn (f i own).1 rest).2)
  | own, .inr x :: rest => inTurn (g x own) rest

end

variable {f : ι → σ → σ × ρ} {g : π → σ → σ} {own : σ} {s s' : State σ ι π ρ}
  {ls : List (Label σ ι π)}

theorem inTurn_append (own : σ) (rs rs' : List (ι ⊕ π)) :
    inTurn f g own (rs ++ rs') = ((inTurn f g (inTurn f g own rs).1 rs').1,
      (inTurn f g own rs).2 ++ (inTurn f g (inTurn f g own rs).1 rs').2) := by
  induction rs generalizing own with
  | nil => rfl
  | cons r rs ih =>
    cases r with
    | inl i => simp only [List.cons_append, inTurn, ih]
    | inr x => exact ih (g x own)

/-- The requests that have not run. -/
def State.waiting (s : State σ ι π ρ) : List (ι ⊕ π) :=
  s.posted.map .inr ++
    match s.pending with
    | some (i, none) => [.inl i]
    | _ => []

/-- The calls that have run. -/
def State.ran (s : State σ ι π ρ) : List (ι × ρ) :=
  s.told ++
    match s.pending with
    | some (i, some r) => [(i, r)]
    | _ => []

/-- What has run did so one after the other, in the order of the requests. -/
structure InTurn (f : ι → σ → σ × ρ) (g : π → σ → σ) (own : σ) (requests : List (ι ⊕ π))
    (s : State σ ι π ρ) : Prop where
  order : ∃ done, requests = done ++ s.waiting ∧ inTurn f g own done = (s.own, s.ran)
  /-- An answer comes when all that was posted before has run. -/
  answered : ∀ i r, s.pending = some (i, some r) → s.posted = []

theorem InTurn.step {requests : List (ι ⊕ π)} (h : InTurn f g own requests s) {l : Label σ ι π}
    (hl : ¬ l.IsOthers) (hs : step f g s l = some s') :
    InTurn f g own (requests ++ l.request?.toList) s' := by
  obtain ⟨own', posted, pending, told⟩ := s
  obtain ⟨⟨done, hrequests, hdone⟩, hanswered⟩ := h
  cases l with
  | call i =>
    cases pending with
    | some p => cases hs
    | none =>
      cases hs
      refine ⟨⟨done, ?_, hdone⟩, fun _ _ hp => by cases hp⟩
      rw [hrequests, List.append_assoc]
      simp [State.waiting, Label.request?]
  | post x =>
    cases pending with
    | some p => cases hs
    | none =>
      cases hs
      refine ⟨⟨done, ?_, hdone⟩, fun _ _ hp => by cases hp⟩
      rw [hrequests, List.append_assoc]
      simp [State.waiting, Label.request?]
  | run =>
    have hnone : requests ++ (Label.request? (.run : Label σ ι π)).toList = requests :=
      List.append_nil _
    rw [hnone]
    cases posted with
    | cons x rest =>
      cases hs
      refine ⟨⟨done ++ [.inr x], ?_, ?_⟩, fun i r hp => ?_⟩
      · rw [hrequests, List.append_assoc]
        rfl
      · rw [inTurn_append, hdone]
        exact congrArg _ (List.append_nil _)
      · cases (hanswered i r hp)
    | nil =>
      cases pending with
      | none => cases hs
      | some p =>
        obtain ⟨i, r⟩ := p
        cases r with
        | some r => cases hs
        | none =>
          cases hs
          refine ⟨⟨done ++ [.inl i], ?_, ?_⟩, fun _ _ _ => rfl⟩
          · rw [hrequests]
            simp [State.waiting]
          · rw [inTurn_append, hdone]
            simp [inTurn, State.ran]
  | tell =>
    have hnone : requests ++ (Label.request? (.tell : Label σ ι π)).toList = requests :=
      List.append_nil _
    rw [hnone]
    cases pending with
    | none => cases hs
    | some p =>
      obtain ⟨i, r⟩ := p
      cases r with
      | none => cases hs
      | some r =>
        cases hs
        refine ⟨⟨done, hrequests, ?_⟩, fun _ _ hp => by cases hp⟩
        rw [hdone]
        simp [State.ran]
  | others own' => exact absurd trivial hl

theorem run_inTurn {C : State σ ι π ρ → Label σ ι π → Prop}
    (h : Lts.Run (step f g) C (.start own) ls s) (hls : ∀ l ∈ ls, ¬ l.IsOthers) :
    InTurn f g own (ls.filterMap Label.request?) s := by
  refine h.induction (fun ls s => (∀ l ∈ ls, ¬ l.IsOthers) →
    InTurn f g own (ls.filterMap Label.request?) s) (fun _ => ?_)
    (fun ls s l s' ih _ hs hls => ?_) hls
  · exact ⟨⟨[], rfl, rfl⟩, fun _ _ hp => by cases hp⟩
  · obtain ⟨hls, hl⟩ := List.forall_mem_append.mp hls
    have hstep := (ih hls).step (hl l (List.mem_singleton_self l)) hs
    rw [List.filterMap_append]
    cases hr : l.request? with
    | none =>
      rw [hr] at hstep
      simpa [hr] using hstep
    | some r =>
      rw [hr] at hstep
      simpa [hr] using hstep

/-- Undisturbed, the caller is told what requests in turn return. -/
theorem told_inTurn {C : State σ ι π ρ → Label σ ι π → Prop}
    (h : Lts.Run (step f g) C (.start own) ls s) (hls : ∀ l ∈ ls, ¬ l.IsOthers) :
    s.told <+: (inTurn f g own (ls.filterMap Label.request?)).2 := by
  obtain ⟨⟨done, hrequests, hdone⟩, -⟩ := run_inTurn h hls
  rw [hrequests, inTurn_append, hdone, State.ran, List.append_assoc]
  exact List.prefix_append _ _

/-- When nothing is on its way, of all of them. -/
theorem told_eq {C : State σ ι π ρ → Label σ ι π → Prop} {told : List (ι × ρ)} {own' : σ}
    (h : Lts.Run (step f g) C (.start own) ls ⟨own', [], none, told⟩)
    (hls : ∀ l ∈ ls, ¬ l.IsOthers) :
    (own', told) = inTurn f g own (ls.filterMap Label.request?) := by
  obtain ⟨⟨done, hrequests, hdone⟩, -⟩ := run_inTurn h hls
  have hall : ls.filterMap Label.request? = done := hrequests.trans (List.append_nil done)
  rw [hall, hdone]
  exact congrArg (Prod.mk own') (List.append_nil told).symm

end Remote
