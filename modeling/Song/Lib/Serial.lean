import Mathlib.Data.List.Perm.Basic

/-!
# Serial runs

`perform c` is what a call does to the shared state when no other call comes in
between, and `Idle s t` what the surroundings can do on their own.
`Serial perform Idle s cs t` is a run of the calls `cs`, one after the other. A
concurrent run is serializable when its calls have an order that serially leads to the
same state; `filter_map_set` keeps the account of the calls that still have to
be put in order.
-/

variable {σ κ α τ : Type}

inductive Serial (perform : κ → σ → σ) (Idle : σ → σ → Prop) (s : σ) : List κ → σ → Prop
  | nil : Serial perform Idle s [] s
  | idle {cs : List κ} {t t' : σ} :
    Serial perform Idle s cs t → Idle t t' → Serial perform Idle s cs t'
  | call {cs : List κ} {t : σ} (c : κ) :
    Serial perform Idle s cs t → Serial perform Idle s (cs ++ [c]) (perform c t)

namespace Serial

variable {perform : κ → σ → σ} {Idle : σ → σ → Prop} {s t : σ} {cs ds : List κ}

/-- A property that idling keeps, with what is computed along the calls. -/
theorem foldl {I : τ → σ → Prop} {f : τ → κ → τ} {x : τ} (h : Serial perform Idle s cs t)
    (h0 : I x s) (hi : ∀ x t t', I x t → Idle t t' → I x t')
    (hp : ∀ x t c, I x t → I (f x c) (perform c t)) : I (cs.foldl f x) t := by
  induction h with
  | nil => exact h0
  | idle _ hidle ih => exact hi _ _ _ ih hidle
  | call c _ ih =>
    rw [List.foldl_append]
    exact hp _ _ c ih

/-- Calls that change nothing may come last. -/
theorem fixed (h : Serial perform Idle s cs t) (hf : ∀ c ∈ ds, perform c t = t) :
    Serial perform Idle s (cs ++ ds) t := by
  induction ds generalizing cs with
  | nil =>
    rw [List.append_nil]
    exact h
  | cons d ds ih =>
    obtain ⟨hd, hds⟩ := List.forall_mem_cons.mp hf
    rw [List.append_cons]
    refine ih ?_ hds
    have hcall := h.call d
    rwa [hd] at hcall

end Serial

namespace List

/-- Closing an open element takes it out of the open ones. -/
theorem filter_map_set {xs : List α} {i : Nat} {a b : α} {p : α → Bool} {f : α → κ}
    (h : xs[i]? = some a) (ha : p a = true) (hb : p b = false) :
    ((xs.filter p).map f).Perm (f a :: ((xs.set i b).filter p).map f) := by
  induction xs generalizing i with
  | nil => cases h
  | cons x xs ih =>
    cases i with
    | zero =>
      cases h
      rw [set_cons_zero, filter_cons_of_pos ha, filter_cons_of_neg (by rw [hb]; decide), map_cons]
    | succ i =>
      have hx := ih h
      rw [set_cons_succ]
      by_cases hp : p x = true
      · rw [filter_cons_of_pos hp, filter_cons_of_pos hp, map_cons, map_cons]
        exact (hx.cons (f x)).trans (.swap _ _ _)
      · rw [filter_cons_of_neg hp, filter_cons_of_neg hp]
        exact hx

/-- An element changes, but neither in `p` nor in `f`. -/
theorem filter_map_set_same {xs : List α} {i : Nat} {a b : α} {p : α → Bool} {f : α → κ}
    (h : xs[i]? = some a) (hp : p b = p a) (hf : f b = f a) :
    ((xs.set i b).filter p).map f = (xs.filter p).map f := by
  induction xs generalizing i with
  | nil => cases h
  | cons x xs ih =>
    cases i with
    | zero =>
      cases h
      rw [set_cons_zero, filter_cons, filter_cons, hp]
      cases p a with
      | true => rw [if_pos rfl, if_pos rfl, map_cons, map_cons, hf]
      | false => rfl
    | succ i =>
      have hx := ih h
      rw [set_cons_succ, filter_cons, filter_cons]
      by_cases hpx : p x = true
      · rw [if_pos hpx, if_pos hpx, map_cons, map_cons, hx]
      · rw [if_neg hpx, if_neg hpx, hx]

theorem countP_set_eq {xs : List α} {i : Nat} {a b : α} {p : α → Bool} (h : xs[i]? = some a) :
    (xs.set i b).countP p + (if p a then 1 else 0) = xs.countP p + if p b then 1 else 0 := by
  induction xs generalizing i with
  | nil => cases h
  | cons x xs ih =>
    cases i with
    | zero =>
      cases h
      rw [set_cons_zero, countP_cons, countP_cons]
      omega
    | succ i =>
      have hx := ih h
      rw [set_cons_succ, countP_cons, countP_cons]
      omega

end List
