import Mathlib.Data.List.Basic

/-!
# Machines that read and write

A `Mealy` machine reads a list from left to right and writes some symbols at each one. What it
does to a list is what it does to a first part, and then, from the state that it is in, to the
rest.
-/

structure Mealy (σ α β : Type) where
  next : σ → α → σ
  write : σ → α → List β

namespace Mealy

variable {σ α β : Type} (M : Mealy σ α β)

/-- The state after a list. -/
def final (s : σ) (as : List α) : σ := as.foldl M.next s

/-- What is written on the way. -/
def out : σ → List α → List β
  | _, [] => []
  | s, a :: as => M.write s a ++ out (M.next s a) as

section
variable {M} {s s' : σ} {as bs : List α}

@[simp] theorem final_nil : M.final s [] = s := rfl

@[simp] theorem out_nil : M.out s [] = [] := rfl

theorem final_cons {a : α} : M.final s (a :: as) = M.final (M.next s a) as := rfl

theorem out_cons {a : α} : M.out s (a :: as) = M.write s a ++ M.out (M.next s a) as := rfl

theorem final_append : M.final s (as ++ bs) = M.final (M.final s as) bs := List.foldl_append

theorem out_append : M.out s (as ++ bs) = M.out s as ++ M.out (M.final s as) bs := by
  induction as generalizing s with
  | nil => rfl
  | cons a as ih => rw [List.cons_append, out_cons, ih, out_cons, final_cons, List.append_assoc]

/-- What holds of the state and is kept holds at the end. -/
theorem final_mem {P : σ → Prop} (hs : P s) (h : ∀ a ∈ as, ∀ s, P s → P (M.next s a)) :
    P (M.final s as) := by
  induction as generalizing s with
  | nil => exact hs
  | cons a as ih =>
    obtain ⟨ha, has⟩ := List.forall_mem_cons.mp h
    exact ih (ha s hs) has

/-- In a state that stays, a list is written symbol by symbol. -/
theorem final_of_stays (h : ∀ a ∈ as, M.next s a = s) : M.final s as = s :=
  final_mem (P := (· = s)) rfl fun a ha s' hs => by rw [hs, h a ha]

theorem out_of_stays (h : ∀ a ∈ as, M.next s a = s) : M.out s as = as.flatMap (M.write s) := by
  induction as with
  | nil => rfl
  | cons a as ih =>
    obtain ⟨ha, has⟩ := List.forall_mem_cons.mp h
    rw [out_cons, ha, ih has, List.flatMap_cons]

end

end Mealy
