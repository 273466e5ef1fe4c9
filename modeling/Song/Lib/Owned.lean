import Mathlib.Data.List.Basic
import Mathlib.Logic.Function.Basic

/-!
# Items and the places that hold them

Items are made in order, each in a place of its own, and move from place to place. The place
that holds an item may change it, and may retire it with one last change. Every item is held by
one place at most (`Sound`), what nobody holds stays as it is (`Keeps`), and a mark that a new
item has, that changes keep and that the last change takes away is on the items that are held
(`Marks`).
-/

namespace Owned

structure State (ι α : Type) where
  holds : ι → Option Nat
  items : List α

variable {ι α : Type}

def empty : State ι α := ⟨fun _ => none, []⟩

namespace State

/-- Apply `f` to the item that `i` holds. -/
def alter (s : State ι α) (i : ι) (f : α → α) : State ι α :=
  match s.holds i with
  | none => s
  | some k => { s with items := s.items.modify k f }

variable [DecidableEq ι]

/-- A new item in place `i`. -/
def put (s : State ι α) (i : ι) (a : α) : State ι α :=
  ⟨Function.update s.holds i (some s.items.length), s.items ++ [a]⟩

/-- Apply `f` to the item that `i` holds, and let go of it. -/
def retire (s : State ι α) (i : ι) (f : α → α) : State ι α :=
  { s.alter i f with holds := Function.update s.holds i none }

/-- What `j` holds goes to `i`. -/
def move (s : State ι α) (i j : ι) : State ι α :=
  { s with holds := Function.update (Function.update s.holds i (s.holds j)) j none }

end State

def Held (s : State ι α) (k : Nat) : Prop := ∃ i, s.holds i = some k

structure Sound (s : State ι α) : Prop where
  issued : ∀ i k, s.holds i = some k → k < s.items.length
  unique : ∀ i j k, s.holds i = some k → s.holds j = some k → i = j

/-- What nobody holds stays as it is, and nobody comes to hold it. -/
structure Keeps (s s' : State ι α) : Prop where
  length : s.items.length ≤ s'.items.length
  items : ∀ k, k < s.items.length → ¬ Held s k → ¬ Held s' k ∧ s'.items[k]? = s.items[k]?

/-- The items with the mark are those that are held. -/
def Marks (mark : α → Prop) (s : State ι α) : Prop :=
  ∀ k a, s.items[k]? = some a → (mark a ↔ Held s k)

theorem sound_empty : Sound (empty : State ι α) :=
  ⟨fun _ _ h => (by cases h), fun _ _ _ h => (by cases h)⟩

theorem marks_empty (mark : α → Prop) : Marks mark (empty : State ι α) :=
  fun _ _ h => by cases h

namespace Keeps

variable {s s' s'' : State ι α}

theorem refl (s : State ι α) : Keeps s s := ⟨Nat.le_refl _, fun _ _ h => ⟨h, rfl⟩⟩

theorem trans (h : Keeps s s') (h' : Keeps s' s'') : Keeps s s'' := by
  refine ⟨Nat.le_trans h.length h'.length, fun k hk hn => ?_⟩
  obtain ⟨hn', hi⟩ := h.items k hk hn
  obtain ⟨hn'', hi'⟩ := h'.items k (Nat.lt_of_lt_of_le hk h.length) hn'
  exact ⟨hn'', hi'.trans hi⟩

end Keeps

section

variable (s : State ι α) (i : ι) (f : α → α)

@[simp] theorem holds_alter : (s.alter i f).holds = s.holds := by
  unfold State.alter
  split
  · rfl
  · rfl

theorem alter_none (h : s.holds i = none) : s.alter i f = s := by
  unfold State.alter
  rw [h]

theorem getElem?_alter (k : Nat) :
    (s.alter i f).items[k]? = if s.holds i = some k then s.items[k]?.map f else s.items[k]? := by
  unfold State.alter
  cases hi : s.holds i with
  | none => rw [if_neg (fun h => by cases h)]
  | some n =>
    by_cases hk : n = k
    · subst hk
      rw [if_pos rfl, List.getElem?_modify_eq]
      rfl
    · rw [if_neg (fun h => hk (Option.some.inj h)), List.getElem?_modify_ne f s.items hk]

@[simp] theorem length_alter : (s.alter i f).items.length = s.items.length := by
  unfold State.alter
  split
  · rfl
  · exact List.length_modify f s.items _

end

/-! ## Changes -/

section

variable {s : State ι α} {mark : α → Prop} {f : α → α}

theorem sound_alter (h : Sound s) (i : ι) (f : α → α) : Sound (s.alter i f) := by
  refine ⟨fun j k hj => ?_, fun j j' k hj hj' => ?_⟩
  · rw [length_alter]
    exact h.issued j k (by rwa [holds_alter] at hj)
  · rw [holds_alter] at hj hj'
    exact h.unique j j' k hj hj'

theorem keeps_alter (s : State ι α) (i : ι) (f : α → α) : Keeps s (s.alter i f) := by
  refine ⟨Nat.le_of_eq (length_alter s i f).symm, fun k _ hn => ⟨fun ⟨j, hj⟩ => ?_, ?_⟩⟩
  · rw [holds_alter] at hj
    exact hn ⟨j, hj⟩
  · rw [getElem?_alter, if_neg fun h => hn ⟨i, h⟩]

theorem marks_alter (h : Marks mark s) (i : ι) (hf : ∀ a, mark (f a) ↔ mark a) :
    Marks mark (s.alter i f) := by
  intro k a ha
  have hheld : Held (s.alter i f) k ↔ Held s k := by
    unfold Held
    rw [holds_alter]
  rw [hheld]
  rw [getElem?_alter] at ha
  split at ha
  · obtain ⟨b, hb, rfl⟩ := Option.map_eq_some_iff.mp ha
    rw [hf]
    exact h k b hb
  · exact h k a ha

end

section

variable [DecidableEq ι] {s : State ι α} {mark : α → Prop} {f : α → α} {a : α} {i j : ι}

theorem holds_update {holds : ι → Option Nat} {v : Option Nat} {k : Nat}
    (h : Function.update holds i v j = some k) : j = i ∧ v = some k ∨ j ≠ i ∧ holds j = some k := by
  by_cases hj : j = i
  · rw [hj, Function.update_self] at h
    exact .inl ⟨hj, h⟩
  · rw [Function.update_of_ne hj] at h
    exact .inr ⟨hj, h⟩

/-! ## A new item -/

theorem sound_put (h : Sound s) (i : ι) (a : α) : Sound (s.put i a) := by
  refine ⟨fun j k hj => ?_, fun j j' k hj hj' => ?_⟩
  · show k < (s.items ++ [a]).length
    rw [List.length_append, List.length_singleton]
    rcases holds_update hj with ⟨_, hk⟩ | ⟨_, hj⟩
    · cases hk
      omega
    · have := h.issued j k hj
      omega
  · rcases holds_update hj with ⟨rfl, hk⟩ | ⟨_, hj⟩
    · cases hk
      rcases holds_update hj' with ⟨rfl, _⟩ | ⟨_, hj'⟩
      · rfl
      · exact absurd (h.issued j' _ hj') (Nat.lt_irrefl _)
    · rcases holds_update hj' with ⟨_, hk⟩ | ⟨_, hj'⟩
      · cases hk
        exact absurd (h.issued j _ hj) (Nat.lt_irrefl _)
      · exact h.unique j j' k hj hj'

theorem keeps_put (s : State ι α) (i : ι) (a : α) : Keeps s (s.put i a) := by
  refine ⟨?_, fun k hk hn => ⟨fun ⟨j, hj⟩ => ?_, List.getElem?_append_left hk⟩⟩
  · show s.items.length ≤ (s.items ++ [a]).length
    rw [List.length_append]
    omega
  · rcases holds_update hj with ⟨_, h⟩ | ⟨_, hj⟩
    · cases h
      omega
    · exact hn ⟨j, hj⟩

theorem held_put (hi : s.holds i = none) (a : α) (k : Nat) :
    Held (s.put i a) k ↔ k = s.items.length ∨ Held s k := by
  constructor
  · rintro ⟨j, hj⟩
    rcases holds_update hj with ⟨_, h⟩ | ⟨_, hj⟩
    · exact .inl (Option.some.inj h).symm
    · exact .inr ⟨j, hj⟩
  · rintro (rfl | ⟨j, hj⟩)
    · exact ⟨i, Function.update_self _ _ _⟩
    · refine ⟨j, ?_⟩
      have hne : j ≠ i := by
        rintro rfl
        rw [hi] at hj
        cases hj
      exact (Function.update_of_ne hne _ _).trans hj

theorem marks_put (h : Marks mark s) (hi : s.holds i = none) (ha : mark a) :
    Marks mark (s.put i a) := by
  intro k b hb
  rw [held_put hi]
  rcases Nat.lt_or_ge k s.items.length with hk | hk
  · have hb' : s.items[k]? = some b := (List.getElem?_append_left hk).symm.trans hb
    rw [h k b hb']
    exact ⟨.inr, fun h => h.elim (fun h => absurd h (by omega)) id⟩
  · have hlt := (List.getElem?_eq_some_iff.mp hb).1
    have hlen : (s.put i a).items.length = s.items.length + 1 := List.length_append
    have hk' : k = s.items.length := by omega
    subst hk'
    have hab : (s.put i a).items[s.items.length]? = some a := List.getElem?_concat_length
    rw [hab] at hb
    cases hb
    exact iff_of_true ha (.inl rfl)

/-! ## Moves -/

theorem holds_move {l : ι} {k : Nat} (h : (s.move i j).holds l = some k) :
    l = i ∧ s.holds j = some k ∨ l ≠ j ∧ l ≠ i ∧ s.holds l = some k := by
  rcases holds_update h with ⟨_, h⟩ | ⟨hlj, h⟩
  · cases h
  · rcases holds_update h with ⟨hli, h⟩ | ⟨hli, h⟩
    · exact .inl ⟨hli, h⟩
    · exact .inr ⟨hlj, hli, h⟩

theorem sound_move (h : Sound s) (i j : ι) : Sound (s.move i j) := by
  refine ⟨fun l k hl => ?_, fun l l' k hl hl' => ?_⟩
  · rcases holds_move hl with ⟨_, hl⟩ | ⟨_, _, hl⟩
    · exact h.issued _ k hl
    · exact h.issued _ k hl
  · rcases holds_move hl with ⟨hli, hj⟩ | ⟨hne, _, hl⟩
    · rcases holds_move hl' with ⟨hli', _⟩ | ⟨hne', _, hl'⟩
      · rw [hli, hli']
      · exact absurd (h.unique _ _ k hl' hj) hne'
    · rcases holds_move hl' with ⟨_, hj⟩ | ⟨_, _, hl'⟩
      · exact absurd (h.unique _ _ k hl hj) hne
      · exact h.unique _ _ k hl hl'

theorem keeps_move (s : State ι α) (i j : ι) : Keeps s (s.move i j) := by
  refine ⟨Nat.le_refl _, fun k _ hn => ⟨fun ⟨l, hl⟩ => ?_, rfl⟩⟩
  rcases holds_move hl with ⟨_, hl⟩ | ⟨_, _, hl⟩
  · exact hn ⟨_, hl⟩
  · exact hn ⟨_, hl⟩

/-- A move onto a place that holds nothing loses nothing. -/
theorem held_move (hij : i ≠ j) (hi : s.holds i = none) (k : Nat) :
    Held (s.move i j) k ↔ Held s k := by
  constructor
  · rintro ⟨l, hl⟩
    rcases holds_move hl with ⟨_, hl⟩ | ⟨_, _, hl⟩
    · exact ⟨_, hl⟩
    · exact ⟨_, hl⟩
  · rintro ⟨l, hl⟩
    have hli : l ≠ i := by
      rintro rfl
      rw [hi] at hl
      cases hl
    by_cases hlj : l = j
    · subst hlj
      refine ⟨i, ?_⟩
      show Function.update _ _ _ _ = _
      rw [Function.update_of_ne hij, Function.update_self, hl]
    · refine ⟨l, ?_⟩
      show Function.update _ _ _ _ = _
      rw [Function.update_of_ne hlj, Function.update_of_ne hli, hl]

theorem marks_move (h : Marks mark s) (hij : i ≠ j) (hi : s.holds i = none) :
    Marks mark (s.move i j) := by
  intro k a ha
  rw [held_move hij hi]
  exact h k a ha

/-! ## The last change -/

theorem holds_retire {l : ι} {k : Nat} (h : (s.retire i f).holds l = some k) :
    l ≠ i ∧ s.holds l = some k := by
  rcases holds_update h with ⟨_, h⟩ | h
  · cases h
  · exact h

theorem holds_retire_self (s : State ι α) (i : ι) (f : α → α) : (s.retire i f).holds i = none :=
  Function.update_self _ _ _

theorem sound_retire (h : Sound s) (i : ι) (f : α → α) : Sound (s.retire i f) := by
  refine ⟨fun l k hl => ?_, fun l l' k hl hl' => ?_⟩
  · show k < (s.alter i f).items.length
    rw [length_alter]
    exact h.issued l k (holds_retire hl).2
  · exact h.unique l l' k (holds_retire hl).2 (holds_retire hl').2

theorem keeps_retire (s : State ι α) (i : ι) (f : α → α) : Keeps s (s.retire i f) := by
  have h := keeps_alter s i f
  refine ⟨h.length, fun k hk hn => ⟨fun ⟨l, hl⟩ => hn ⟨l, (holds_retire hl).2⟩, ?_⟩⟩
  exact (h.items k hk hn).2

theorem marks_retire (h : Marks mark s) (hs : Sound s) (i : ι) (hf : ∀ a, ¬ mark (f a)) :
    Marks mark (s.retire i f) := by
  intro k a ha
  have ha' : (s.alter i f).items[k]? = some a := ha
  rw [getElem?_alter] at ha'
  split at ha'
  · next hi =>
    obtain ⟨b, _, rfl⟩ := Option.map_eq_some_iff.mp ha'
    refine iff_of_false (hf b) ?_
    rintro ⟨l, hl⟩
    obtain ⟨hne, hl⟩ := holds_retire hl
    exact hne (hs.unique l i k hl hi)
  · next hi =>
    rw [h k a ha']
    constructor
    · rintro ⟨l, hl⟩
      have hne : l ≠ i := by
        rintro rfl
        exact hi hl
      exact ⟨l, (Function.update_of_ne hne _ _).trans hl⟩
    · rintro ⟨l, hl⟩
      exact ⟨l, (holds_retire hl).2⟩

end

end Owned
