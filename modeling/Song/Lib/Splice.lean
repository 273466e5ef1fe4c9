import Mathlib.Data.List.GetD
import Mathlib.Data.List.Induction

/-!
# Pieces written into a sequence

A write puts a piece at an offset of a sequence, which grows as far as the piece reaches; what no
write has reached is padding. So an element of the sequence is what the last write over it put
there (`getD_contents`). Where every write puts what a whole has there and together they cover it,
the sequence is the whole, in whatever order they come (`contents_eq_of_cover`).
-/

namespace Splice

variable {α : Type}

/-- Grown to a length at least. -/
def extend (pad : α) (n : Nat) (xs : List α) : List α := xs ++ List.replicate (n - xs.length) pad

/-- The sequence with a piece written at an offset. -/
def splice (pad : α) (off : Nat) (piece xs : List α) : List α :=
  (extend pad off xs).take off ++ piece ++ xs.drop (off + piece.length)

structure Write (α : Type) where
  off : Nat
  piece : List α

namespace Write

/-- How far the piece reaches. -/
def stop (w : Write α) : Nat := w.off + w.piece.length

/-- What the write puts at a place. -/
def at? (w : Write α) (i : Nat) : Option α := if w.off ≤ i then w.piece[i - w.off]? else none

/-- It puts what the whole has there. -/
def Of (whole : List α) (w : Write α) : Prop :=
  w.stop ≤ whole.length ∧ ∀ i a, w.at? i = some a → whole[i]? = some a

end Write

/-- A part of the whole, written to its place. -/
theorem Write.of_part {whole : List α} {off n : Nat} (h : off + n ≤ whole.length) :
    (Write.mk off ((whole.drop off).take n)).Of whole := by
  refine ⟨?_, fun i a hat => ?_⟩
  · simp only [Write.stop, List.length_take, List.length_drop]
    omega
  · rw [Write.at?] at hat
    split at hat
    · next hoff =>
      dsimp only at hoff hat
      obtain ⟨hlt, -⟩ := List.getElem?_eq_some_iff.mp hat
      rw [List.length_take] at hlt
      rwa [List.getElem?_take_of_lt (by omega), List.getElem?_drop,
        Nat.add_sub_cancel' hoff] at hat
    · cases hat

/-- What some writes make of a sequence, the first of them first. -/
def contents (pad : α) (xs : List α) (ws : List (Write α)) : List α :=
  ws.foldl (fun ys w => splice pad w.off w.piece ys) xs

/-- What the last write over a place put there. -/
def lastAt (ws : List (Write α)) (i : Nat) : Option α := ws.reverse.findSome? (·.at? i)

/-- How far the writes reach. -/
def reach (ws : List (Write α)) : Nat := ws.foldr (fun w n => max w.stop n) 0

variable {pad : α} {xs ys : List α} {off n i : Nat} {piece : List α} {ws : List (Write α)}

/-! ## One write -/

theorem length_extend : (extend pad n xs).length = max xs.length n := by
  rw [extend, List.length_append, List.length_replicate]
  omega

theorem getD_extend : (extend pad n xs).getD i pad = xs.getD i pad := by
  rw [extend]
  by_cases hi : i < xs.length
  · rw [List.getD_append _ _ _ _ hi]
  · rw [List.getD_append_right _ _ _ _ (by omega), List.getD_eq_default xs _ (by omega)]
    by_cases hr : i - xs.length < n - xs.length
    · exact List.getD_replicate _ hr
    · exact List.getD_eq_default _ _ (by rw [List.length_replicate]; omega)

/-- Two sequences of a length that have the same elements. -/
theorem ext_getD (pad : α) (hlen : xs.length = ys.length) (h : ∀ i, xs.getD i pad = ys.getD i pad) :
    xs = ys := by
  refine List.ext_getElem hlen fun i hi hi' => ?_
  have hget := h i
  rwa [List.getD_eq_getElem _ _ hi, List.getD_eq_getElem _ _ hi'] at hget

theorem length_splice :
    (splice pad off piece xs).length = max xs.length (off + piece.length) := by
  rw [splice, List.length_append, List.length_append, List.length_take, length_extend,
    List.length_drop]
  omega

theorem getD_splice :
    (splice pad off piece xs).getD i pad = ((Write.mk off piece).at? i).getD (xs.getD i pad) := by
  have htake : ((extend pad off xs).take off).length = off := by
    rw [List.length_take, length_extend]
    omega
  rw [splice, Write.at?, List.append_assoc]
  by_cases hoff : off ≤ i
  · rw [if_pos hoff, List.getD_append_right _ _ _ _ (by omega), htake]
    by_cases hin : i - off < piece.length
    · rw [List.getD_append _ _ _ _ hin, List.getElem?_eq_getElem hin, Option.getD_some,
        List.getD_eq_getElem _ _ hin]
    · rw [List.getD_append_right _ _ _ _ (by omega), List.getElem?_eq_none (Nat.le_of_not_lt hin),
        Option.getD_none, List.getD_eq_getElem?_getD, List.getElem?_drop,
        List.getD_eq_getElem?_getD]
      congr 2
      omega
  · rw [if_neg hoff, Option.getD_none, List.getD_append _ _ _ _ (by omega),
      List.getD_eq_getElem?_getD, List.getElem?_take_of_lt (by omega), ← List.getD_eq_getElem?_getD,
      getD_extend]

theorem splice_zero : splice pad 0 piece xs = piece ++ xs.drop piece.length := by
  rw [splice, List.take_zero, List.nil_append, Nat.zero_add]

/-- A piece is written in two parts. -/
theorem splice_append (a b : List α) :
    splice pad (off + a.length) b (splice pad off a xs) = splice pad off (a ++ b) xs := by
  refine ext_getD pad ?_ fun i => ?_
  · simp only [length_splice, List.length_append]
    omega
  · simp only [getD_splice, Write.at?]
    by_cases hoff : off ≤ i
    · rw [if_pos hoff, if_pos hoff]
      by_cases ha : off + a.length ≤ i
      · rw [if_pos ha, List.getElem?_append_right (by omega),
          show i - off - a.length = i - (off + a.length) by omega,
          List.getElem?_eq_none (l := a) (by omega), Option.getD_none]
      · rw [if_neg ha, List.getElem?_append_left (by omega), Option.getD_none]
    · rw [if_neg hoff, if_neg hoff, if_neg (by omega), Option.getD_none]

/-- Growing it first, no further than the piece reaches, makes no difference. -/
theorem splice_extend (hn : n ≤ off + piece.length) :
    splice pad off piece (extend pad n xs) = splice pad off piece xs := by
  refine ext_getD pad ?_ fun i => ?_
  · simp only [length_splice, length_extend]
    omega
  · rw [getD_splice, getD_splice, getD_extend]

/-! ## Many writes -/

theorem contents_concat (w : Write α) :
    contents pad xs (ws ++ [w]) = splice pad w.off w.piece (contents pad xs ws) := by
  rw [contents, List.foldl_append]
  rfl

theorem lastAt_concat (w : Write α) : lastAt (ws ++ [w]) i = (w.at? i).or (lastAt ws i) := by
  rw [lastAt, List.reverse_append]
  show (w :: ws.reverse).findSome? _ = _
  rw [List.findSome?_cons]
  cases w.at? i with
  | none => rfl
  | some a => rfl

theorem reach_concat (w : Write α) : reach (ws ++ [w]) = max (reach ws) w.stop := by
  induction ws with
  | nil => exact Nat.max_comm _ _
  | cons v ws ih =>
    show max v.stop (reach (ws ++ [w])) = max (max v.stop (reach ws)) w.stop
    rw [ih, Nat.max_assoc]

theorem length_contents : (contents pad xs ws).length = max xs.length (reach ws) := by
  induction ws using List.reverseRecOn with
  | nil => exact (Nat.max_zero _).symm
  | append_singleton ws w ih =>
    rw [contents_concat, length_splice, ih, reach_concat, Nat.max_assoc]
    rfl

/-- An element is what the last write over its place put there. -/
theorem getD_contents :
    (contents pad xs ws).getD i pad = (lastAt ws i).getD (xs.getD i pad) := by
  induction ws using List.reverseRecOn with
  | nil => rfl
  | append_singleton ws w ih =>
    rw [contents_concat, getD_splice, ih, lastAt_concat]
    cases w.at? i with
    | none => rfl
    | some a => rfl

theorem lastAt_mem {a : α} (h : lastAt ws i = some a) : ∃ w ∈ ws, w.at? i = some a := by
  obtain ⟨w, hw, ha⟩ := List.exists_of_findSome?_eq_some h
  exact ⟨w, List.mem_reverse.mp hw, ha⟩

theorem lastAt_isSome {w : Write α} (hw : w ∈ ws) (h : (w.at? i).isSome) :
    (lastAt ws i).isSome := by
  rw [lastAt, List.findSome?_isSome_iff]
  exact ⟨w, List.mem_reverse.mpr hw, h⟩

theorem reach_le (h : ∀ w ∈ ws, w.stop ≤ n) : reach ws ≤ n := by
  induction ws with
  | nil => exact Nat.zero_le n
  | cons w ws ih =>
    obtain ⟨hw, hws⟩ := List.forall_mem_cons.mp h
    exact Nat.max_le.mpr ⟨hw, ih hws⟩

theorem lt_reach {w : Write α} (hw : w ∈ ws) (h : (w.at? i).isSome) : i < reach ws := by
  induction ws with
  | nil => cases hw
  | cons v ws ih =>
    rcases List.mem_cons.mp hw with rfl | hw
    · refine Nat.lt_of_lt_of_le ?_ (Nat.le_max_left _ _)
      rw [Write.at?] at h
      split at h
      · next hoff =>
        obtain ⟨a, ha⟩ := Option.isSome_iff_exists.mp h
        have hlt := (List.getElem?_eq_some_iff.mp ha).1
        rw [Write.stop]
        omega
      · cases h
    · exact Nat.lt_of_lt_of_le (ih hw) (Nat.le_max_right _ _)

/-- Writes of what a whole has, which together cover it, make it, in any order and however often
they overlap. -/
theorem contents_eq_of_cover {whole : List α} (hof : ∀ w ∈ ws, w.Of whole)
    (hcover : ∀ i < whole.length, ∃ w ∈ ws, (w.at? i).isSome) : contents pad [] ws = whole := by
  have hlen : (contents pad [] ws).length = whole.length := by
    have hle := reach_le fun w hw => (hof w hw).1
    have hge : whole.length ≤ reach ws := by
      by_contra hlt
      obtain ⟨w, hw, hat⟩ := hcover (reach ws) (by omega)
      exact Nat.lt_irrefl _ (lt_reach hw hat)
    rw [length_contents, List.length_nil]
    omega
  refine ext_getD pad hlen fun i => ?_
  rw [getD_contents]
  by_cases hi : i < whole.length
  · obtain ⟨w, hw, hat⟩ := hcover i hi
    obtain ⟨a, ha⟩ := Option.isSome_iff_exists.mp (lastAt_isSome hw hat)
    obtain ⟨v, hv, hva⟩ := lastAt_mem ha
    rw [ha, Option.getD_some, List.getD_eq_getElem?_getD, (hof v hv).2 i a hva, Option.getD_some]
  · cases hl : lastAt ws i with
    | none => rw [Option.getD_none, List.getD_eq_default whole _ (by omega)]; rfl
    | some a =>
      obtain ⟨v, hv, hva⟩ := lastAt_mem hl
      have hw := (List.getElem?_eq_some_iff.mp ((hof v hv).2 i a hva)).1
      exact absurd hw hi

end Splice
