import Mathlib.Data.List.Nodup
import Mathlib.Data.List.Induction

/-!
# First come, first seated

A table with `cap` seats takes each new element in turn until it is full; who is
seated keeps the seat. `seated cap as` is who has one after `as` have come, in the
order of the seats.
-/

namespace Seats

variable {α : Type} [DecidableEq α] {cap : Nat} {as bs l : List α} {a : α}

def seat (cap : Nat) (l : List α) (a : α) : List α :=
  if a ∈ l ∨ cap ≤ l.length then l else l ++ [a]

def seated (cap : Nat) (as : List α) : List α := as.foldl (seat cap) []

theorem seat_of_mem (h : a ∈ l) : seat cap l a = l := if_pos (.inl h)

theorem seat_of_full (h : cap ≤ l.length) : seat cap l a = l := if_pos (.inr h)

theorem seat_of_room (ha : a ∉ l) (h : l.length < cap) : seat cap l a = l ++ [a] :=
  if_neg fun h' => h'.elim ha (Nat.not_le.mpr h)

theorem seat_cases (cap : Nat) (l : List α) (a : α) :
    seat cap l a = l ∨ a ∉ l ∧ l.length < cap ∧ seat cap l a = l ++ [a] := by
  by_cases ha : a ∈ l
  · exact .inl (seat_of_mem ha)
  · by_cases hl : cap ≤ l.length
    · exact .inl (seat_of_full hl)
    · exact .inr ⟨ha, by omega, seat_of_room ha (by omega)⟩

theorem le_seat (cap : Nat) (l : List α) (a : α) : l <+: seat cap l a := by
  rcases seat_cases cap l a with h | ⟨_, _, h⟩
  · exact ⟨[], by rw [h, List.append_nil]⟩
  · rw [h]
    exact List.prefix_append _ _

theorem seated_append (cap : Nat) (as bs : List α) :
    seated cap (as ++ bs) = bs.foldl (seat cap) (seated cap as) := List.foldl_append

theorem seated_snoc (cap : Nat) (as : List α) (a : α) :
    seated cap (as ++ [a]) = seat cap (seated cap as) a := seated_append cap as [a]

theorem nodup_seated (cap : Nat) (as : List α) : (seated cap as).Nodup := by
  induction as using List.reverseRecOn with
  | nil => exact List.nodup_nil
  | append_singleton as a ih =>
    rw [seated_snoc]
    rcases seat_cases cap (seated cap as) a with h | ⟨ha, _, h⟩
    · rwa [h]
    · rw [h, List.nodup_append]
      refine ⟨ih, List.nodup_singleton a, fun b hb c hc hbc => ha ?_⟩
      rw [List.mem_singleton] at hc
      rwa [← hc, ← hbc]

theorem length_seated_le (cap : Nat) (as : List α) : (seated cap as).length ≤ cap := by
  induction as using List.reverseRecOn with
  | nil => exact Nat.zero_le _
  | append_singleton as a ih =>
    rw [seated_snoc]
    rcases seat_cases cap (seated cap as) a with h | ⟨_, hl, h⟩
    · rwa [h]
    · rw [h, List.length_append]
      exact hl

theorem seated_le (cap : Nat) (as bs : List α) : seated cap as <+: seated cap (as ++ bs) := by
  rw [seated_append]
  induction bs using List.reverseRecOn with
  | nil => exact List.prefix_rfl
  | append_singleton bs b ih =>
    rw [List.foldl_append]
    exact ih.trans (le_seat cap _ b)

theorem mem_seat_iff : a ∈ seat cap l a ↔ a ∈ l ∨ l.length < cap := by
  by_cases ha : a ∈ l
  · exact iff_of_true ((seat_of_mem ha).symm ▸ ha) (.inl ha)
  · by_cases hl : cap ≤ l.length
    · rw [seat_of_full hl]
      exact ⟨.inl, fun h => h.elim id fun h => absurd hl (Nat.not_le.mpr h)⟩
    · rw [seat_of_room ha (by omega)]
      exact iff_of_true (List.mem_append_right _ List.mem_cons_self) (.inr (by omega))

/-- Who comes while there is room has a seat from then on. -/
theorem mem_seated_of_room {i : Nat} (hi : as[i]? = some a)
    (h : (seated cap (as.take i)).length < cap) : a ∈ seated cap as := by
  have hsplit : as.take i ++ [a] ++ as.drop (i + 1) = as := by
    conv_rhs => rw [← List.take_append_drop (i + 1) as, List.take_add_one, hi]
    rfl
  have hp := seated_le cap (as.take i ++ [a]) (as.drop (i + 1))
  rw [hsplit, seated_snoc] at hp
  exact hp.subset (mem_seat_iff.mpr (.inr h))

/-- Who is seated came while there was room. -/
theorem exists_of_mem_seated (h : a ∈ seated cap as) :
    ∃ i, as[i]? = some a ∧ (seated cap (as.take i)).length < cap := by
  induction as using List.reverseRecOn with
  | nil => cases h
  | append_singleton as b ih =>
    by_cases ha : a ∈ seated cap as
    · obtain ⟨i, hi, hl⟩ := ih ha
      have hlt : i < as.length := (List.getElem?_eq_some_iff.mp hi).1
      refine ⟨i, by rw [List.getElem?_append_left hlt, hi], ?_⟩
      rwa [List.take_append_of_le_length (Nat.le_of_lt hlt)]
    · rw [seated_snoc] at h
      rcases seat_cases cap (seated cap as) b with he | ⟨_, hl, he⟩
      · exact absurd (he ▸ h) ha
      · rw [he, List.mem_append, List.mem_singleton] at h
        obtain rfl := h.resolve_left ha
        refine ⟨as.length, List.getElem?_concat_length, ?_⟩
        rwa [List.take_left']
        rfl

end Seats
