import Mathlib.Logic.Basic

/-!
# Computations that throw and keep their state

`EStateM ε σ α` runs from a state and ends in a value or an exception; either
way the state it reached stays, as for a function of an imperative language
whose caller catches what it throws. `catchIf` is a handler that takes some of
the exceptions and lets the others through.

`Ends x s Q E` is the weakest precondition: from `s`, `x` returns into `Q` or
throws into `E`. The rules below compute it along a program. `Returns` is the
case of a run that throws nothing, and `Within R` is a frame: however the
program ends, `R` relates the states before and after. `Mirrors f x y` relates two
programs: on the image of a state under `f`, `y` ends as `x` does on the state. `Both x y s t Q` is
looser: from `s` and `t` the two return into `Q`, or both throw.
-/

namespace Eff

variable {ε σ α β : Type}

/-- Run `x`; an exception that `p` accepts goes to the handler. -/
def catchIf (p : ε → Bool) (x : EStateM ε σ α) (handler : ε → EStateM ε σ α) : EStateM ε σ α :=
  fun s => match x.run s with
    | .ok a s' => .ok a s'
    | .error e s' => if p e then (handler e).run s' else .error e s'

/-- From `s`, `x` returns into `Q` or throws into `E`. -/
def Ends (x : EStateM ε σ α) (s : σ) (Q : α → σ → Prop) (E : ε → σ → Prop) : Prop :=
  match x.run s with
  | .ok a s' => Q a s'
  | .error e s' => E e s'

theorem map_ok_iff {x : Except ε α} {f : α → β} {b : β} :
    x.map f = .ok b ↔ ∃ a, x = .ok a ∧ f a = b := by
  cases x <;> simp [Except.map]

theorem run_bind_ok {x : EStateM ε σ α} {f : α → EStateM ε σ β} {s s' : σ} {a : α}
    (h : x.run s = .ok a s') : (x >>= f).run s = (f a).run s' := by
  rw [EStateM.run_bind, h]

theorem run_get_bind {f : σ → EStateM ε σ β} {s : σ} : (get >>= f).run s = (f s).run s := rfl

theorem run_bind_error {x : EStateM ε σ α} {f : α → EStateM ε σ β} {s s' : σ} {e : ε}
    (h : x.run s = .error e s') : (x >>= f).run s = .error e s' := by
  rw [EStateM.run_bind, h]

theorem run_bind_ok_iff {x : EStateM ε σ α} {f : α → EStateM ε σ β} {s s' : σ} {b : β} :
    (x >>= f).run s = .ok b s' ↔ ∃ a s₁, x.run s = .ok a s₁ ∧ (f a).run s₁ = .ok b s' := by
  cases h : x.run s with
  | ok a s₁ =>
    rw [run_bind_ok h]
    refine ⟨fun hf => ⟨a, s₁, rfl, hf⟩, fun ⟨_, _, he, hf⟩ => ?_⟩
    cases he
    exact hf
  | error e s₁ =>
    rw [run_bind_error h]
    exact ⟨fun hf => (by cases hf), fun ⟨_, _, he, _⟩ => by cases he⟩

theorem run_bind_congr {x y : EStateM ε σ α} {f : α → EStateM ε σ β} {s s' : σ}
    (h : x.run s = y.run s') : (x >>= f).run s = (y >>= f).run s' := by
  rw [EStateM.run_bind, EStateM.run_bind, h]

theorem run_catchIf_ok {p : ε → Bool} {x : EStateM ε σ α} {handler : ε → EStateM ε σ α}
    {s s' : σ} {a : α} (h : x.run s = .ok a s') : (catchIf p x handler).run s = .ok a s' := by
  unfold catchIf
  simp only [EStateM.run] at h ⊢
  rw [h]

theorem run_catchIf_error {p : ε → Bool} {x : EStateM ε σ α} {handler : ε → EStateM ε σ α}
    {s s' : σ} {e : ε} (h : x.run s = .error e s') :
    (catchIf p x handler).run s = if p e then (handler e).run s' else .error e s' := by
  unfold catchIf
  simp only [EStateM.run] at h ⊢
  rw [h]

theorem run_catchIf_congr {p : ε → Bool} {x y : EStateM ε σ α} {handler : ε → EStateM ε σ α}
    {s s' : σ} (h : x.run s = y.run s') :
    (catchIf p x handler).run s = (catchIf p y handler).run s' := by
  unfold catchIf
  simp only [EStateM.run] at h ⊢
  rw [h]

namespace Ends

variable {Q Q' : α → σ → Prop} {E E' : ε → σ → Prop} {s s' : σ}

theorem of_ok {x : EStateM ε σ α} {a : α} (h : x.run s = .ok a s') (hq : Q a s') :
    Ends x s Q E := by
  unfold Ends; rw [h]; exact hq

theorem of_error {x : EStateM ε σ α} {e : ε} (h : x.run s = .error e s') (he : E e s') :
    Ends x s Q E := by
  unfold Ends; rw [h]; exact he

theorem ok {x : EStateM ε σ α} {a : α} (h : Ends x s Q E) (hx : x.run s = .ok a s') : Q a s' := by
  unfold Ends at h; rwa [hx] at h

theorem error {x : EStateM ε σ α} {e : ε} (h : Ends x s Q E) (hx : x.run s = .error e s') :
    E e s' := by
  unfold Ends at h; rwa [hx] at h

theorem mono {x : EStateM ε σ α} (h : Ends x s Q E) (hq : ∀ a s', Q a s' → Q' a s')
    (he : ∀ e s', E e s' → E' e s') : Ends x s Q' E' := by
  unfold Ends at h ⊢
  cases hx : x.run s with
  | ok a s' => rw [hx] at h; exact hq a s' h
  | error e s' => rw [hx] at h; exact he e s' h

theorem pure {a : α} (h : Q a s) : Ends (pure a : EStateM ε σ α) s Q E := h

theorem throw {e : ε} (h : E e s) : Ends (throw e : EStateM ε σ α) s Q E := h

theorem bind {R : β → σ → Prop} {x : EStateM ε σ α} {f : α → EStateM ε σ β}
    (h : Ends x s (fun a s' => Ends (f a) s' R E) E) : Ends (x >>= f) s R E := by
  unfold Ends at h ⊢
  cases hx : x.run s with
  | ok a s' => rw [hx] at h; rw [run_bind_ok hx]; exact h
  | error e s' => rw [hx] at h; rw [run_bind_error hx]; exact h

/-- Behind what cannot go wrong. -/
theorem seq {P : α → σ → Prop} {R : β → σ → Prop} {x : EStateM ε σ α} {f : α → EStateM ε σ β}
    (hx : Ends x s P fun _ _ => False) (hf : ∀ a s', P a s' → Ends (f a) s' R E) :
    Ends (x >>= f) s R E :=
  .bind (hx.mono hf fun _ _ h => h.elim)

/-- In front of what cannot go wrong. -/
theorem bind_iff {R : β → σ → Prop} {x : EStateM ε σ α} {f : α → EStateM ε σ β}
    (hf : ∀ a s', Ends (f a) s' R E) : Ends (x >>= f) s R E ↔ Ends x s (fun _ _ => True) E := by
  unfold Ends at hf ⊢
  cases hx : x.run s with
  | ok a s' => rw [run_bind_ok hx]; exact ⟨fun _ => trivial, fun _ => hf a s'⟩
  | error e s' => rw [run_bind_error hx]

theorem catchIf {p : ε → Bool} {x : EStateM ε σ α} {handler : ε → EStateM ε σ α}
    (h : Ends x s Q fun e s' => if p e then Ends (handler e) s' Q E else E e s') :
    Ends (catchIf p x handler) s Q E := by
  unfold Ends at h
  cases hx : x.run s with
  | ok a s' => rw [hx] at h; exact of_ok (run_catchIf_ok hx) h
  | error e s' =>
    rw [hx] at h
    simp only at h
    unfold Ends
    rw [run_catchIf_error hx]
    split at h
    · next hp => rw [if_pos hp]; exact h
    · next hp => rw [if_neg hp]; exact h

/-- What two postconditions each hold of, both hold of. -/
theorem and {x : EStateM ε σ α} (h : Ends x s Q E) (h' : Ends x s Q' E') :
    Ends x s (fun a s' => Q a s' ∧ Q' a s') (fun e s' => E e s' ∧ E' e s') := by
  unfold Ends at h h' ⊢
  cases hx : x.run s with
  | ok a s' => rw [hx] at h h'; exact ⟨h, h'⟩
  | error e s' => rw [hx] at h h'; exact ⟨h, h'⟩

end Ends

/-- The state a run ends in, by value or by exception. -/
def after (x : EStateM ε σ α) (s : σ) : σ :=
  match x.run s with
  | .ok _ s' => s'
  | .error _ s' => s'

theorem after_ok {x : EStateM ε σ α} {s s' : σ} {a : α} (h : x.run s = .ok a s') :
    after x s = s' := by
  unfold after; rw [h]

theorem after_error {x : EStateM ε σ α} {s s' : σ} {e : ε} (h : x.run s = .error e s') :
    after x s = s' := by
  unfold after; rw [h]

theorem after_congr {x y : EStateM ε σ α} {s s' : σ} (h : x.run s = y.run s') :
    after x s = after y s' := by
  unfold after; rw [h]

/-! ## Runs that throw nothing -/

def Returns (x : EStateM ε σ α) (s : σ) : Prop :=
  Ends x s (fun _ _ => True) (fun _ _ => False)

namespace Returns

variable {s s' : σ}

theorem of_ok {x : EStateM ε σ α} {a : α} (h : x.run s = .ok a s') : Returns x s :=
  Ends.of_ok h trivial

theorem exists_ok {x : EStateM ε σ α} (h : Returns x s) : ∃ a s', x.run s = .ok a s' := by
  cases hx : x.run s with
  | ok a s' => exact ⟨a, s', rfl⟩
  | error e s' => exact absurd (Ends.error h hx) id

theorem not_of_error {x : EStateM ε σ α} {e : ε} (h : x.run s = .error e s') : ¬ Returns x s :=
  fun hr => Ends.error hr h

instance (x : EStateM ε σ α) (s : σ) : Decidable (Returns x s) :=
  match h : x.run s with
  | .ok _ _ => .isTrue (of_ok h)
  | .error _ _ => .isFalse (not_of_error h)

theorem bind_iff {x : EStateM ε σ α} {f : α → EStateM ε σ β} :
    Returns (x >>= f) s ↔ Ends x s (fun a s' => Returns (f a) s') fun _ _ => False := by
  cases hx : x.run s with
  | ok a s' =>
    unfold Returns Ends
    rw [run_bind_ok hx, hx]
  | error e s' =>
    unfold Returns Ends
    rw [run_bind_error hx, hx]

theorem catchIf_iff {p : ε → Bool} {x : EStateM ε σ α} {handler : ε → EStateM ε σ α} :
    Returns (catchIf p x handler) s ↔
      Ends x s (fun _ _ => True) fun e s' => p e = true ∧ Returns (handler e) s' := by
  cases hx : x.run s with
  | ok a s' =>
    unfold Returns Ends
    rw [run_catchIf_ok hx, hx]
  | error e s' =>
    unfold Returns Ends
    rw [run_catchIf_error hx, hx]
    by_cases hp : p e = true
    · simp only [hp, ↓reduceIte, true_and]
    · simp only [hp, Bool.false_eq_true, ↓reduceIte, false_and]

end Returns

/-! ## Frames -/

/-- However `x` ends, `R` relates the state before it to the state after it. -/
def Within (R : σ → σ → Prop) (x : EStateM ε σ α) : Prop :=
  ∀ s, Ends x s (fun _ => R s) (fun _ => R s)

namespace Within

variable {R : σ → σ → Prop} {s s' : σ}

theorem ok {x : EStateM ε σ α} {a : α} (h : Within R x) (hx : x.run s = .ok a s') : R s s' :=
  (h s).ok hx

theorem error {x : EStateM ε σ α} {e : ε} (h : Within R x) (hx : x.run s = .error e s') :
    R s s' :=
  (h s).error hx

theorem after {x : EStateM ε σ α} (h : Within R x) (s : σ) : R s (after x s) := by
  cases hx : x.run s with
  | ok a s' => rw [after_ok hx]; exact h.ok hx
  | error e s' => rw [after_error hx]; exact h.error hx

theorem mono {R' : σ → σ → Prop} {x : EStateM ε σ α} (h : Within R x)
    (hr : ∀ s s', R s s' → R' s s') : Within R' x :=
  fun s => (h s).mono (fun _ _ h' => hr _ _ h') fun _ _ h' => hr _ _ h'

theorem pure (hr : ∀ s, R s s) (a : α) : Within R (pure a : EStateM ε σ α) :=
  fun s => Ends.pure (hr s)

theorem throw (hr : ∀ s, R s s) (e : ε) : Within R (throw e : EStateM ε σ α) :=
  fun s => Ends.throw (hr s)

theorem modify {f : σ → σ} (h : ∀ s, R s (f s)) :
    Within R (modify f : EStateM ε σ PUnit) :=
  fun s => h s

theorem bind (ht : ∀ {a b c}, R a b → R b c → R a c) {x : EStateM ε σ α}
    {f : α → EStateM ε σ β} (hx : Within R x) (hf : ∀ a, Within R (f a)) :
    Within R (x >>= f) := by
  intro s
  refine Ends.bind ((hx s).mono (fun a s' h => ?_) fun _ _ h => h)
  exact (hf a s').mono (fun _ _ h' => ht h h') fun _ _ h' => ht h h'

theorem catchIf (ht : ∀ {a b c}, R a b → R b c → R a c) {p : ε → Bool} {x : EStateM ε σ α}
    {handler : ε → EStateM ε σ α} (hx : Within R x) (hh : ∀ e, Within R (handler e)) :
    Within R (catchIf p x handler) := by
  intro s
  refine Ends.catchIf ((hx s).mono (fun _ _ h => h) fun e s' h => ?_)
  split
  · exact (hh e s').mono (fun _ _ h' => ht h h') fun _ _ h' => ht h h'
  · exact h

end Within

/-! ## Programs that mirror each other -/

/-- The result with `f` applied to its state. -/
def mapState {τ : Type} (f : σ → τ) : EStateM.Result ε σ α → EStateM.Result ε τ α
  | .ok a s => .ok a (f s)
  | .error e s => .error e (f s)

def Mirrors {τ : Type} (f : σ → τ) (x : EStateM ε σ α) (y : EStateM ε τ α) : Prop :=
  ∀ s, y.run (f s) = mapState f (x.run s)

namespace Mirrors

variable {τ : Type} {f : σ → τ}

theorem pure (a : α) : Mirrors f (pure a : EStateM ε σ α) (pure a) := fun _ => rfl

theorem throw (e : ε) : Mirrors f (throw e : EStateM ε σ α) (throw e) := fun _ => rfl

theorem modify {g : σ → σ} {h : τ → τ} (hg : ∀ s, h (f s) = f (g s)) :
    Mirrors f (modify g : EStateM ε σ PUnit) (modify h) := by
  intro s
  show EStateM.Result.ok _ (h (f s)) = EStateM.Result.ok _ (f (g s))
  rw [hg]

theorem bind {x : EStateM ε σ α} {y : EStateM ε τ α} {g : α → EStateM ε σ β}
    {h : α → EStateM ε τ β} (hxy : Mirrors f x y) (hgh : ∀ a, Mirrors f (g a) (h a)) :
    Mirrors f (x >>= g) (y >>= h) := by
  intro s
  have hs := hxy s
  cases hx : x.run s with
  | ok a s' =>
    rw [hx] at hs
    rw [run_bind_ok hx, run_bind_ok hs]
    exact hgh a s'
  | error e s' =>
    rw [hx] at hs
    rw [run_bind_error hx, run_bind_error hs]
    rfl

theorem catchIf {p : ε → Bool} {x : EStateM ε σ α} {y : EStateM ε τ α}
    {g : ε → EStateM ε σ α} {h : ε → EStateM ε τ α} (hxy : Mirrors f x y)
    (hgh : ∀ e, Mirrors f (g e) (h e)) : Mirrors f (catchIf p x g) (catchIf p y h) := by
  intro s
  have hs := hxy s
  cases hx : x.run s with
  | ok a s' =>
    rw [hx] at hs
    rw [run_catchIf_ok hx, run_catchIf_ok hs]
    rfl
  | error e s' =>
    rw [hx] at hs
    rw [run_catchIf_error hx, run_catchIf_error hs]
    split
    · exact hgh e s'
    · rfl

end Mirrors

/-! ## Programs that end alike -/

section
variable {τ γ δ : Type}

/-- From `s` and `t`, `x` and `y` return, into `Q`, or both throw. -/
def Both (x : EStateM ε σ α) (y : EStateM ε τ β) (s : σ) (t : τ)
    (Q : α → β → σ → τ → Prop) : Prop :=
  match x.run s, y.run t with
  | .ok a s', .ok b t' => Q a b s' t'
  | .error _ _, .error _ _ => True
  | .ok _ _, .error _ _ | .error _ _, .ok _ _ => False

namespace Both

variable {x : EStateM ε σ α} {y : EStateM ε τ β} {s s' : σ} {t t' : τ}
  {Q Q' : α → β → σ → τ → Prop}

theorem of_ok {a : α} {b : β} (hx : x.run s = .ok a s') (hy : y.run t = .ok b t')
    (hq : Q a b s' t') : Both x y s t Q := by
  unfold Both
  rw [hx, hy]
  exact hq

theorem of_error {e e' : ε} (hx : x.run s = .error e s') (hy : y.run t = .error e' t') :
    Both x y s t Q := by
  unfold Both
  rw [hx, hy]
  trivial

theorem pure {a : α} {b : β} (hq : Q a b s t) :
    Both (pure a : EStateM ε σ α) (pure b : EStateM ε τ β) s t Q :=
  hq

theorem mono (h : Both x y s t Q) (hq : ∀ a b s' t', Q a b s' t' → Q' a b s' t') :
    Both x y s t Q' := by
  unfold Both at h ⊢
  cases hx : x.run s <;> cases hy : y.run t <;> rw [hx, hy] at h
  · exact hq _ _ _ _ h
  · exact h
  · exact h
  · exact h

theorem bind {R : γ → δ → σ → τ → Prop} {f : α → EStateM ε σ γ} {g : β → EStateM ε τ δ}
    (h : Both x y s t Q) (hf : ∀ a b s' t', Q a b s' t' → Both (f a) (g b) s' t' R) :
    Both (x >>= f) (y >>= g) s t R := by
  unfold Both at h
  cases hx : x.run s with
  | ok a s' =>
    cases hy : y.run t with
    | ok b t' =>
      rw [hx, hy] at h
      have hfg := hf a b s' t' h
      unfold Both at hfg ⊢
      rw [run_bind_ok hx, run_bind_ok hy]
      exact hfg
    | error e t' =>
      rw [hx, hy] at h
      exact h.elim
  | error e s' =>
    cases hy : y.run t with
    | ok b t' =>
      rw [hx, hy] at h
      exact h.elim
    | error e' t' => exact of_error (run_bind_error hx) (run_bind_error hy)

/-- What one returns, the other does. -/
theorem ok {a : α} (h : Both x y s t Q) (hx : x.run s = .ok a s') :
    ∃ b t', y.run t = .ok b t' ∧ Q a b s' t' := by
  unfold Both at h
  cases hy : y.run t with
  | ok b t' =>
    rw [hx, hy] at h
    exact ⟨b, t', rfl, h⟩
  | error e t' =>
    rw [hx, hy] at h
    exact h.elim

end Both

end

end Eff
