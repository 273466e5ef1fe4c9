import Mathlib.Data.List.Basic

/-!
# What was written last

A value is written by some labels of a history, and set back by the first of some others. So it is
what was written last, unless the label that set it back came behind that (`InForce`).
-/

namespace LastWrite

section
variable {ℓ α : Type} (writes : ℓ → Option α) (resets : ℓ → Bool)

def lastWritten (start : α) (ls : List ℓ) : α := ls.foldl (fun a l => (writes l).getD a) start

/-- The first label that resets is behind all that write. -/
def Overtaken (ls : List ℓ) : Prop :=
  ∃ pre l post, ls = pre ++ l :: post ∧ resets l = true ∧ (∀ l' ∈ pre, resets l' = false) ∧
    ∀ l' ∈ post, writes l' = none

/-- What was written last, but `initial` where that is overtaken. -/
def InForce (start initial : α) (ls : List ℓ) (a : α) : Prop :=
  (Overtaken writes resets ls → a = initial) ∧
    (¬ Overtaken writes resets ls → a = lastWritten writes start ls)

variable {writes resets} {ls : List ℓ} {l : ℓ} {start initial a : α}

theorem lastWritten_snoc :
    lastWritten writes start (ls ++ [l]) = (writes l).getD (lastWritten writes start ls) :=
  List.foldl_concat ..

theorem not_overtaken_nil : ¬ Overtaken writes resets [] := by
  rintro ⟨pre, l, post, hls, -⟩
  cases pre <;> cases hls

theorem overtaken_snoc : Overtaken writes resets (ls ++ [l]) ↔
    writes l = none ∧ Overtaken writes resets ls ∨
      resets l = true ∧ ∀ l' ∈ ls, resets l' = false := by
  constructor
  · rintro ⟨pre, x, post, hls, hx, hpre, hpost⟩
    rcases List.eq_nil_or_concat post with rfl | ⟨post, y, rfl⟩
    · obtain ⟨rfl, hl⟩ := List.append_inj' hls rfl
      cases hl
      exact Or.inr ⟨hx, hpre⟩
    · rw [List.concat_eq_append, ← List.cons_append, ← List.append_assoc] at hls
      obtain ⟨rfl, hl⟩ := List.append_inj' hls rfl
      cases hl
      refine Or.inl ⟨hpost l (by simp), pre, x, post, rfl, hx, hpre, fun l' hl' => ?_⟩
      exact hpost l' (by simp [hl'])
  · rintro (⟨hl, pre, x, post, rfl, hx, hpre, hpost⟩ | ⟨hl, hls⟩)
    · refine ⟨pre, x, post ++ [l], by simp, hx, hpre, fun l' hl' => ?_⟩
      rcases List.mem_append.mp hl' with hmem | hmem
      · exact hpost l' hmem
      · rw [List.mem_singleton.mp hmem, hl]
    · exact ⟨ls, l, [], rfl, hl, hls, fun _ h => by cases h⟩

theorem inForce_nil : InForce writes resets start initial [] start :=
  ⟨fun h => absurd h not_overtaken_nil, fun _ => rfl⟩

/-- A label that writes. -/
theorem InForce.write {v : α} (hl : writes l = some v) (hr : resets l = false) :
    InForce writes resets start initial (ls ++ [l]) v := by
  refine ⟨fun h => ?_, fun _ => by rw [lastWritten_snoc, hl]; rfl⟩
  rcases overtaken_snoc.mp h with ⟨hnone, -⟩ | ⟨hreset, -⟩
  · cases hl.symm.trans hnone
  · cases hr.symm.trans hreset

/-- The first label that resets. -/
theorem InForce.reset (hr : resets l = true) (hls : ∀ l' ∈ ls, resets l' = false) :
    InForce writes resets start initial (ls ++ [l]) initial :=
  ⟨fun _ => rfl, fun h => absurd (overtaken_snoc.mpr (Or.inr ⟨hr, hls⟩)) h⟩

/-- Any other. -/
theorem InForce.keep (h : InForce writes resets start initial ls a) (hl : writes l = none)
    (hr : resets l = true → ∃ l' ∈ ls, resets l' = true) :
    InForce writes resets start initial (ls ++ [l]) a := by
  have hiff : Overtaken writes resets (ls ++ [l]) ↔ Overtaken writes resets ls := by
    refine ⟨fun ho => ?_, fun ho => overtaken_snoc.mpr (Or.inl ⟨hl, ho⟩)⟩
    rcases overtaken_snoc.mp ho with ⟨-, ho⟩ | ⟨hreset, hls⟩
    · exact ho
    · obtain ⟨l', hmem, hl'⟩ := hr hreset
      cases hl'.symm.trans (hls l' hmem)
  refine ⟨fun ho => h.1 (hiff.mp ho), fun ho => ?_⟩
  rw [lastWritten_snoc, hl]
  exact h.2 (fun ho' => ho (hiff.mpr ho'))

end

end LastWrite
