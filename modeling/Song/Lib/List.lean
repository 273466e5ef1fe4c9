import Mathlib.Data.List.Forall2

/-!
# Lists

A list up to its first exception, positions in a list whose keys are distinct, a list
numbered from 1, and two lists related element by element.
-/

namespace List

variable {α κ : Type}

/-- Either `P` holds of every element, or of every element in front of some `x` but not of
`x`. -/
theorem forall_or_first (P : α → Prop) (l : List α) :
    (∀ x ∈ l, P x) ∨ ∃ pre x post, l = pre ++ x :: post ∧ (∀ y ∈ pre, P y) ∧ ¬ P x := by
  induction l with
  | nil => exact .inl fun x h => (by cases h)
  | cons a l ih =>
    by_cases ha : P a
    · rcases ih with h | ⟨pre, x, post, rfl, hpre, hx⟩
      · exact .inl (forall_mem_cons.mpr ⟨ha, h⟩)
      · exact .inr ⟨a :: pre, x, post, rfl, forall_mem_cons.mpr ⟨ha, hpre⟩, hx⟩
    · exact .inr ⟨[], a, l, rfl, fun y h => (by cases h), ha⟩

theorem index_unique {xs : List α} {f : α → κ} {i j : Nat} {a b : α} (hnd : (xs.map f).Nodup)
    (hi : xs[i]? = some a) (hj : xs[j]? = some b) (h : f a = f b) : i = j := by
  have hlt : i < (xs.map f).length := by
    rw [length_map]
    exact (getElem?_eq_some_iff.mp hi).1
  refine (getElem?_inj hlt hnd).mp ?_
  rw [getElem?_map, getElem?_map, hi, hj, Option.map_some, Option.map_some, h]

theorem find?_eq_some_of_unique {xs : List α} {p : α → Bool} {a : α} (ha : a ∈ xs) (hp : p a = true)
    (hu : ∀ b ∈ xs, p b = true → b = a) : xs.find? p = some a := by
  cases hf : xs.find? p with
  | none => exact absurd hp (find?_eq_none.mp hf a ha)
  | some b => rw [hu b (mem_of_find?_eq_some hf) (find?_some hf)]

theorem mem_zipIdx_one {xs : List α} {a : α} {i : Nat} :
    (a, i) ∈ xs.zipIdx 1 ↔ ∃ j, xs[j]? = some a ∧ i = j + 1 := by
  rw [mk_mem_zipIdx_iff_le_and_getElem?_sub]
  constructor
  · rintro ⟨hle, h⟩
    exact ⟨i - 1, h, by omega⟩
  · rintro ⟨j, h, rfl⟩
    exact ⟨by omega, h⟩

/-- The numbers do not matter to what does not read them. -/
theorem flatMap_zipIdx_fst {β : Type} (f : α → List β) (xs : List α) (k : Nat) :
    ((xs.zipIdx k).flatMap fun x => f x.1) = xs.flatMap f := by
  conv_rhs => rw [← zipIdx_map_fst k xs]
  rw [flatMap_map]

theorem flatMap_zipIdx_of_fst {β : Type} {f : α × Nat → List β} {g : α → List β}
    (h : ∀ x, f x = g x.1) (xs : List α) (k : Nat) : (xs.zipIdx k).flatMap f = xs.flatMap g := by
  rw [← flatMap_zipIdx_fst g xs k]
  exact flatMap_congr fun x _ => h x

theorem exists_of_forall₂_right {β : Type} {R : α → β → Prop} {as : List α} {bs : List β} {b : β}
    (h : Forall₂ R as bs) (hb : b ∈ bs) : ∃ a ∈ as, R a b := by
  induction h with
  | nil => cases hb
  | cons hr _ ih =>
    rcases mem_cons.mp hb with rfl | hb
    · exact ⟨_, mem_cons_self, hr⟩
    · obtain ⟨a, ha, hr'⟩ := ih hb
      exact ⟨a, mem_cons_of_mem _ ha, hr'⟩

theorem forall₂_of_mapM {β : Type} {f : α → Option β} {as : List α} {bs : List β}
    (h : as.mapM f = some bs) : Forall₂ (fun a b => f a = some b) as bs := by
  induction as generalizing bs with
  | nil =>
    obtain rfl := Option.some.inj h
    exact .nil
  | cons a as ih =>
    rw [mapM_cons, Option.bind_eq_bind, Option.bind_eq_some_iff] at h
    obtain ⟨b, hb, h⟩ := h
    rw [Option.bind_eq_bind, Option.bind_eq_some_iff] at h
    obtain ⟨bs', hbs, h⟩ := h
    obtain rfl := Option.some.inj h
    exact .cons hb (ih hbs)

/-- Among distinct keys, a key is looked up to its own value. -/
theorem lookup_zip_of_mem [BEq κ] [LawfulBEq κ] {keys : List κ} {vs : List α} {k : κ} {v : α}
    (hnd : keys.Nodup) (h : (k, v) ∈ keys.zip vs) : (keys.zip vs).lookup k = some v := by
  induction keys generalizing vs with
  | nil => cases h
  | cons k' keys ih =>
    cases vs with
    | nil => cases h
    | cons v' vs =>
      rw [nodup_cons] at hnd
      rw [zip_cons_cons] at h ⊢
      rcases mem_cons.mp h with h | h
      · cases h
        exact lookup_cons_self
      · have hne : k ≠ k' := fun he => hnd.1 (he ▸ (of_mem_zip h).1)
        rw [lookup_cons, beq_false_of_ne hne]
        exact ih hnd.2 h

/-- Of two lists of one length, beside each other. -/
theorem forall_zip_iff {β : Type} {as : List α} {bs : List β} (h : as.length = bs.length)
    {P : α → Prop} {Q : β → Prop} :
    (∀ p ∈ as.zip bs, P p.1 ∧ Q p.2) ↔ (∀ a ∈ as, P a) ∧ ∀ b ∈ bs, Q b := by
  have ha : (∀ a ∈ as, P a) ↔ ∀ p ∈ as.zip bs, P p.1 := by
    rw [← forall_mem_map (f := Prod.fst) (P := P), map_fst_zip (Nat.le_of_eq h)]
  have hb : (∀ b ∈ bs, Q b) ↔ ∀ p ∈ as.zip bs, Q p.2 := by
    rw [← forall_mem_map (f := Prod.snd) (P := Q), map_snd_zip (Nat.le_of_eq h.symm)]
  rw [ha, hb]
  exact forall₂_and

end List
