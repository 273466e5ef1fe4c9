import Mathlib.Data.List.Basic

/-!
# Labelled runs

A system is a partial step function on its states: `step s l = none` when `l`
cannot happen in `s`. `Run step C s ls t` is a run from `s` to `t` along the
labels `ls` whose every step meets the condition `C`. An invariant is proved
step by step (`Run.invariant`), a property that also counts labels by
`Run.induction`, and a run of one system is one of another that simulates it
(`Run.simulate`).
-/

namespace Lts

variable {σ σ' ℓ ℓ' : Type}

inductive Run (step : σ → ℓ → Option σ) (C : σ → ℓ → Prop) (s : σ) : List ℓ → σ → Prop
  | nil : Run step C s [] s
  | snoc {ls : List ℓ} {t t' : σ} {l : ℓ} :
    Run step C s ls t → C t l → step t l = some t' → Run step C s (ls ++ [l]) t'

/-- The state some labels lead to, if they can happen in a row. -/
def follow (step : σ → ℓ → Option σ) (s : σ) (ls : List ℓ) : Option σ :=
  ls.foldlM step s

theorem follow_cons {step : σ → ℓ → Option σ} {s t : σ} {l : ℓ} {ls : List ℓ}
    (h : follow step s (l :: ls) = some t) : ∃ u, step s l = some u ∧ follow step u ls = some t :=
  Option.bind_eq_some_iff.mp h

theorem follow_append (step : σ → ℓ → Option σ) (s : σ) (ls ls' : List ℓ) :
    follow step s (ls ++ ls') = (follow step s ls).bind fun t => follow step t ls' :=
  List.foldlM_append

namespace Run

variable {step : σ → ℓ → Option σ} {C C' : σ → ℓ → Prop} {s t : σ} {ls : List ℓ}

/-- What the start satisfies and every step of the run preserves, the end satisfies. -/
theorem invariant (h : Run step C s ls t) (I : σ → Prop) (h0 : I s)
    (hs : ∀ t l t', I t → C t l → step t l = some t' → I t') : I t := by
  induction h with
  | nil => exact h0
  | snoc _ hc hstep ih => exact hs _ _ _ ih hc hstep

/-- As `invariant`, with the labels taken so far in the property. -/
theorem induction (h : Run step C s ls t) (P : List ℓ → σ → Prop) (h0 : P [] s)
    (hs : ∀ ls t l t', P ls t → C t l → step t l = some t' → P (ls ++ [l]) t') : P ls t := by
  induction h with
  | nil => exact h0
  | snoc _ hc hstep ih => exact hs _ _ _ _ ih hc hstep

/-- Steps that `f` and `g` map to steps of another system make its runs out of these. -/
theorem simulate {step' : σ' → ℓ' → Option σ'} {C'' : σ' → ℓ' → Prop} {f : σ → σ'}
    {I : σ → Prop} (h : Run step C s ls t) (h0 : I s)
    (hI : ∀ t l t', I t → C t l → step t l = some t' → I t')
    (hs : ∀ t l t', I t → C t l → step t l = some t' →
      ∃ l', C'' (f t) l' ∧ step' (f t) l' = some (f t')) :
    ∃ ls', Run step' C'' (f s) ls' (f t) := by
  have hboth : I t ∧ ∃ ls', Run step' C'' (f s) ls' (f t) := by
    induction h with
    | nil => exact ⟨h0, [], .nil⟩
    | snoc _ hc hstep ih =>
      obtain ⟨hi, ls', hr⟩ := ih
      obtain ⟨l', hc', hstep'⟩ := hs _ _ _ hi hc hstep
      exact ⟨hI _ _ _ hi hc hstep, ls' ++ [l'], .snoc hr hc' hstep'⟩
  exact hboth.2

theorem snoc_cases {l : ℓ} (h : Run step C s (ls ++ [l]) t) :
    ∃ u, Run step C s ls u ∧ C u l ∧ step u l = some t := by
  generalize hls : ls ++ [l] = ls' at h
  cases h with
  | nil => exact absurd hls (List.concat_ne_nil _ _)
  | snoc h hc hstep =>
    obtain ⟨rfl, hl⟩ := List.append_inj' hls rfl
    cases hl
    exact ⟨_, h, hc, hstep⟩

/-- Conditions that agree wherever an invariant holds have the same runs. -/
theorem congr (h : Run step C s ls t) (I : σ → Prop) (h0 : I s)
    (hI : ∀ t l t', I t → step t l = some t' → I t')
    (hC : ∀ t l t', I t → step t l = some t' → C t l → C' t l) : Run step C' s ls t := by
  have hboth : I t ∧ Run step C' s ls t := by
    induction h with
    | nil => exact ⟨h0, .nil⟩
    | snoc _ hc hstep ih =>
      obtain ⟨hi, hr⟩ := ih
      exact ⟨hI _ _ _ hi hstep, hr.snoc (hC _ _ _ hi hstep hc) hstep⟩
  exact hboth.2

/-- The labels determine where a run leads. -/
theorem follow_eq (h : Run step C s ls t) : Lts.follow step s ls = some t := by
  induction h with
  | nil => rfl
  | snoc _ _ hstep ih =>
    rw [follow_append, ih, Option.bind_some, Lts.follow, List.foldlM_cons, hstep]
    rfl

/-- Labels whose condition holds in every state prolong a run as far as they can be followed. -/
theorem follow {s' : σ} {ls' : List ℓ} (hr : Run step C s ls s') (hC : ∀ l ∈ ls', ∀ u, C u l)
    (h : Lts.follow step s' ls' = some t) : Run step C s (ls ++ ls') t := by
  induction ls' generalizing ls s' with
  | nil =>
    cases h
    rw [List.append_nil]
    exact hr
  | cons l ls' ih =>
    obtain ⟨m, hm, hl⟩ := follow_cons h
    obtain ⟨hCl, hCls⟩ := List.forall_mem_cons.mp hC
    rw [List.append_cons]
    exact ih (.snoc hr (hCl _) hm) hCls hl

end Run

end Lts
