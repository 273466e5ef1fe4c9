import Mathlib.Data.List.Basic
import Mathlib.Data.List.Count
import Mathlib.Algebra.BigOperators.Group.List.Basic
import Mathlib.Algebra.GroupWithZero.Nat

/-!
# Tables of definitions

A table is what a generator writes: a list of names with values, where a name may
stand twice. A language that forbids a redefinition reads a name with `single`,
one in which a later definition replaces an earlier one reads it with `last`.
`number` is a running counter over a list, advanced by `step x` at each `x`.
-/

namespace Table

variable {α κ ν : Type}

/-- Pair each element with the counter's value at it. -/
def number (step : α → Nat) : Nat → List α → List (α × Nat)
  | _, [] => []
  | n, x :: xs => (x, n) :: number step (n + step x) xs

theorem map_fst_number (step : α → Nat) (n : Nat) (xs : List α) :
    (number step n xs).map Prod.fst = xs := by
  induction xs generalizing n with
  | nil => rfl
  | cons x xs ih => rw [number, List.map_cons, ih]

theorem mem_number_iff {step : α → Nat} {n i : Nat} {xs : List α} {x : α} :
    (x, i) ∈ number step n xs ↔
      ∃ k, xs[k]? = some x ∧ i = n + ((xs.take k).map step).sum := by
  induction xs generalizing n with
  | nil => simp [number]
  | cons y ys ih =>
    rw [number, List.mem_cons, ih, Prod.mk.injEq]
    constructor
    · rintro (⟨rfl, rfl⟩ | ⟨k, hk, rfl⟩)
      · exact ⟨0, rfl, by simp⟩
      · exact ⟨k + 1, hk, by simp [Nat.add_assoc]⟩
    · rintro ⟨k, hk, rfl⟩
      cases k with
      | zero => exact .inl ⟨(Option.some.inj hk).symm, by simp⟩
      | succ k => exact .inr ⟨k, hk, by simp [Nat.add_assoc]⟩

variable [BEq κ]

/-- The value of a name that is defined once. -/
def single (t : List (κ × ν)) (k : κ) : Option ν :=
  match t.filter fun e => e.1 == k with
  | [e] => some e.2
  | _ => none

/-- The value a name is given last. -/
def last (t : List (κ × ν)) (k : κ) : Option ν := t.reverse.lookup k

theorem count_keys (t : List (κ × ν)) (k : κ) :
    (t.map Prod.fst).count k = (t.filter fun e => e.1 == k).length := by
  rw [List.count_eq_countP, List.countP_map, List.countP_eq_length_filter]
  congr 2

theorem last_append (s t : List (κ × ν)) (k : κ) :
    last (s ++ t) k = (last t k).or (last s k) := by
  rw [last, List.reverse_append, List.lookup_append]
  rfl

variable [LawfulBEq κ]

theorem single_eq_some_iff {t : List (κ × ν)} {k : κ} {v : ν} :
    single t k = some v ↔ (t.map Prod.fst).count k = 1 ∧ (k, v) ∈ t := by
  have hmem : (k, v) ∈ t ↔ (k, v) ∈ t.filter fun e => e.1 == k := by simp
  have hkey : ∀ e ∈ t.filter (fun e => e.1 == k), e.1 = k := fun e he => by
    simpa using (List.mem_filter.mp he).2
  rw [count_keys, hmem, single]
  generalize (t.filter fun e => e.1 == k) = f at hkey
  match f with
  | [] => simp
  | [(a, b)] =>
    obtain rfl : a = k := hkey (a, b) List.mem_cons_self
    simp [eq_comm]
  | _ :: _ :: _ => simp

/-- A name defined once has the value of any of its definitions. -/
theorem single_eq_some {t : List (κ × ν)} {k : κ} {v : ν}
    (hk : (t.map Prod.fst).count k = 1) (hv : (k, v) ∈ t) : single t k = some v :=
  single_eq_some_iff.mpr ⟨hk, hv⟩

theorem single_unique {t : List (κ × ν)} {k : κ} {v w : ν} (hv : single t k = some v)
    (hw : (k, w) ∈ t) : v = w := by
  have := single_eq_some (single_eq_some_iff.mp hv).1 hw
  rw [hv] at this
  exact Option.some.inj this

theorem mem_of_last {t : List (κ × ν)} {k : κ} {v : ν} (h : last t k = some v) : (k, v) ∈ t := by
  obtain ⟨l₁, l₂, he, _⟩ := List.lookup_eq_some_iff.mp h
  rw [← List.mem_reverse, he]
  exact List.mem_append_right _ List.mem_cons_self

theorem last_eq_none_iff {t : List (κ × ν)} {k : κ} :
    last t k = none ↔ k ∉ t.map Prod.fst := by
  rw [last, List.lookup_eq_none_iff]
  simp only [List.mem_reverse, List.mem_map, not_exists, not_and, bne_iff_ne]
  exact ⟨fun h e he hk => h e he hk.symm, fun h e he hk => h e he hk.symm⟩

/-- Where all definitions of a name agree, the last one does not matter. -/
theorem last_eq_some {t : List (κ × ν)} {k : κ} {v : ν} (hv : (k, v) ∈ t)
    (h : ∀ w, (k, w) ∈ t → w = v) : last t k = some v := by
  cases hl : last t k with
  | none => exact absurd (List.mem_map.mpr ⟨_, hv, rfl⟩) (last_eq_none_iff.mp hl)
  | some w => rw [h w (mem_of_last hl)]

end Table
