import Mathlib.Data.List.Basic

/-!
# Text that gives and wants symbols

A text that is read once, from the front, gives symbols (declares them) and wants
others (uses them). It is `Served` when it wants nothing that was not given before, where
`seen` are the symbols given in front of the text. `Closed` does not ask for the order:
whatever is wanted is given somewhere.
-/

namespace Supply

inductive Event (σ : Type) where
  | gives (x : σ)
  | wants (x : σ)
  deriving DecidableEq, Repr

variable {σ α : Type}

def given : List (Event σ) → List σ
  | [] => []
  | .gives x :: es => x :: given es
  | .wants _ :: es => given es

def wanted : List (Event σ) → List σ
  | [] => []
  | .gives _ :: es => wanted es
  | .wants x :: es => x :: wanted es

def Served : List σ → List (Event σ) → Prop
  | _, [] => True
  | seen, .gives x :: es => Served (x :: seen) es
  | seen, .wants x :: es => x ∈ seen ∧ Served seen es

def Closed (seen : List σ) (es : List (Event σ)) : Prop := ∀ x ∈ wanted es, x ∈ seen ∨ x ∈ given es

instance decidableServed [DecidableEq σ] : ∀ (seen : List σ) (es : List (Event σ)),
    Decidable (Served seen es)
  | _, [] => .isTrue trivial
  | seen, .gives x :: es => decidableServed (x :: seen) es
  | seen, .wants _ :: es => @instDecidableAnd _ _ _ (decidableServed seen es)

instance [DecidableEq σ] (seen : List σ) (es : List (Event σ)) : Decidable (Closed seen es) :=
  inferInstanceAs (Decidable (∀ x ∈ wanted es, x ∈ seen ∨ x ∈ given es))

/-! ## Parts of a text -/

@[simp] theorem given_nil : given ([] : List (Event σ)) = [] := rfl

@[simp] theorem wanted_nil : wanted ([] : List (Event σ)) = [] := rfl

@[simp] theorem given_append (es fs : List (Event σ)) : given (es ++ fs) = given es ++ given fs := by
  induction es with
  | nil => rfl
  | cons e es ih => cases e <;> simp [given, ih]

@[simp] theorem wanted_append (es fs : List (Event σ)) :
    wanted (es ++ fs) = wanted es ++ wanted fs := by
  induction es with
  | nil => rfl
  | cons e es ih => cases e <;> simp [wanted, ih]

theorem given_flatMap (f : α → List (Event σ)) (xs : List α) :
    given (xs.flatMap f) = xs.flatMap fun x => given (f x) := by
  induction xs with
  | nil => rfl
  | cons x xs ih => rw [List.flatMap_cons, given_append, ih, List.flatMap_cons]

theorem wanted_flatMap (f : α → List (Event σ)) (xs : List α) :
    wanted (xs.flatMap f) = xs.flatMap fun x => wanted (f x) := by
  induction xs with
  | nil => rfl
  | cons x xs ih => rw [List.flatMap_cons, wanted_append, ih, List.flatMap_cons]

@[simp] theorem given_map_wants (f : α → σ) (xs : List α) :
    given (xs.map fun x => Event.wants (f x)) = [] := by
  induction xs with
  | nil => rfl
  | cons x xs ih => exact ih

@[simp] theorem wanted_map_wants (f : α → σ) (xs : List α) :
    wanted (xs.map fun x => Event.wants (f x)) = xs.map f := by
  induction xs with
  | nil => rfl
  | cons x xs ih => exact congrArg _ ih

section
variable {seen seen' : List σ} {es fs : List (Event σ)} {x : σ}

/-- Only which symbols were given matters. -/
theorem Served.congr (h : ∀ x, x ∈ seen ↔ x ∈ seen') : Served seen es ↔ Served seen' es := by
  induction es generalizing seen seen' with
  | nil => exact Iff.rfl
  | cons e es ih =>
    cases e with
    | gives x => exact ih fun y => by rw [List.mem_cons, List.mem_cons, h]
    | wants x => exact and_congr (h x) (ih h)

theorem served_append :
    Served seen (es ++ fs) ↔ Served seen es ∧ Served (given es ++ seen) fs := by
  induction es generalizing seen with
  | nil => exact (and_iff_right trivial).symm
  | cons e es ih =>
    cases e with
    | gives x =>
      show Served (x :: seen) (es ++ fs) ↔ Served (x :: seen) es ∧ _
      rw [ih]
      refine and_congr_right fun _ => Served.congr fun y => ?_
      simp only [given, List.mem_append, List.mem_cons, List.cons_append]
      exact or_left_comm
    | wants x =>
      show x ∈ seen ∧ Served seen (es ++ fs) ↔ (x ∈ seen ∧ Served seen es) ∧ _
      rw [ih, and_assoc]
      exact Iff.rfl

/-- Text that gives nothing. -/
theorem served_of_given_nil (h : given es = []) : Served seen es ↔ ∀ x ∈ wanted es, x ∈ seen := by
  induction es with
  | nil => simp [Served, wanted]
  | cons e es ih =>
    cases e with
    | gives x => cases h
    | wants x => rw [Served, ih h, wanted, List.forall_mem_cons]

/-- A part for each element of a list: each is served by what is in front of it. -/
theorem served_flatMap {f : α → List (Event σ)} {xs : List α} :
    Served seen (xs.flatMap f) ↔ ∀ pre x post, xs = pre ++ x :: post →
      Served (given (pre.flatMap f) ++ seen) (f x) := by
  induction xs generalizing seen with
  | nil => simp [Served]
  | cons a xs ih =>
    rw [List.flatMap_cons, served_append, ih]
    constructor
    · rintro ⟨ha, h⟩ pre x post he
      cases pre with
      | nil =>
        cases he
        exact ha
      | cons b pre =>
        cases he
        refine (Served.congr fun y => ?_).mp (h pre x post rfl)
        simp only [List.flatMap_cons, given_append, List.mem_append]
        exact or_left_comm.trans or_assoc.symm
    · intro h
      refine ⟨h [] a xs rfl, fun pre x post he => ?_⟩
      refine (Served.congr fun y => ?_).mp (h (a :: pre) x post (by rw [he]; rfl))
      simp only [List.flatMap_cons, given_append, List.mem_append]
      exact or_assoc.trans or_left_comm

theorem Served.closed (h : Served seen es) : Closed seen es := by
  induction es generalizing seen with
  | nil => exact fun x hx => (by cases hx)
  | cons e es ih =>
    cases e with
    | gives y =>
      intro x hx
      rcases ih h x hx with hm | hm
      · rcases List.mem_cons.mp hm with rfl | hm
        · exact .inr List.mem_cons_self
        · exact .inl hm
      · exact .inr (List.mem_cons_of_mem y hm)
    | wants y =>
      intro x hx
      rcases List.mem_cons.mp hx with rfl | hx
      · exact .inl h.1
      · exact ih h.2 x hx

end

end Supply
