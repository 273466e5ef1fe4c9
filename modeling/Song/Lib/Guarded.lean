import Mathlib.Data.List.Basic

/-!
# Guarded runs

A reader goes through a list of events with a state of its own. `Passes` is that every event is
allowed in the state it meets. A text made of parts passes when each part passes behind those in
front of it (`passes_append`, `passes_flatMap`).
-/

namespace Guarded

variable {σ ε α : Type}

section
variable (step : σ → ε → σ) (allows : σ → ε → Prop)

def after (s : σ) (es : List ε) : σ := es.foldl step s

def Passes : σ → List ε → Prop
  | _, [] => True
  | s, e :: es => allows s e ∧ Passes (step s e) es

instance decidablePasses [∀ s e, Decidable (allows s e)] : ∀ (s : σ) (es : List ε),
    Decidable (Passes step allows s es)
  | _, [] => .isTrue trivial
  | s, e :: es => @instDecidableAnd _ _ _ (decidablePasses (step s e) es)

end

variable {step : σ → ε → σ} {allows : σ → ε → Prop} {s : σ} {e : ε} {es fs : List ε}

@[simp] theorem after_nil : after step s [] = s := rfl

@[simp] theorem after_cons : after step s (e :: es) = after step (step s e) es := rfl

@[simp] theorem after_append : after step s (es ++ fs) = after step (after step s es) fs :=
  List.foldl_append

@[simp] theorem passes_nil : Passes step allows s [] ↔ True := Iff.rfl

@[simp] theorem passes_cons :
    Passes step allows s (e :: es) ↔ allows s e ∧ Passes step allows (step s e) es := Iff.rfl

@[simp] theorem passes_append :
    Passes step allows s (es ++ fs) ↔
      Passes step allows s es ∧ Passes step allows (after step s es) fs := by
  induction es generalizing s with
  | nil => exact (and_iff_right trivial).symm
  | cons e es ih => rw [List.cons_append, passes_cons, passes_cons, ih, and_assoc, after_cons]

/-- A part for each element of a list: each passes behind what is in front of it. -/
theorem passes_flatMap {f : α → List ε} {xs : List α} :
    Passes step allows s (xs.flatMap f) ↔ ∀ pre x post, xs = pre ++ x :: post →
      Passes step allows (after step s (pre.flatMap f)) (f x) := by
  induction xs generalizing s with
  | nil => simp
  | cons a xs ih =>
    rw [List.flatMap_cons, passes_append, ih]
    constructor
    · rintro ⟨ha, h⟩ pre x post he
      cases pre with
      | nil =>
        cases he
        exact ha
      | cons b pre =>
        cases he
        rw [List.flatMap_cons, after_append]
        exact h pre x post rfl
    · intro h
      refine ⟨h [] a xs rfl, fun pre x post he => ?_⟩
      rw [← after_append, ← List.flatMap_cons]
      exact h (a :: pre) x post (by rw [he]; rfl)

/-- Events that leave the state as it is pass if each is allowed. -/
theorem passes_of_still (hs : ∀ e ∈ es, step s e = s) :
    (Passes step allows s es ↔ ∀ e ∈ es, allows s e) ∧ after step s es = s := by
  induction es with
  | nil => simp
  | cons e es ih =>
    rw [List.forall_mem_cons] at hs
    rw [passes_cons, List.forall_mem_cons, after_cons, hs.1]
    exact ⟨and_congr_right fun _ => (ih hs.2).1, (ih hs.2).2⟩

end Guarded
