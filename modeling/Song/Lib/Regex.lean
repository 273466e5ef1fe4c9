import Mathlib.Data.List.Infix

/-!
# Patterns matched by backtracking

Patterns of ECMAScript without alternatives and anchors: a character of a class, one class any
number of times, sequences, optional parts and groups. `run` gives the ways to match at the front
of a text in the order in which a backtracking matcher comes to them, and `findAll` the matches
that an iterator over a text finds. Which texts and groups are matched does not depend on the
order, or on what follows (`mem_run_iff`).
-/

namespace Regex

variable {α : Type}

inductive Pattern (α : Type) where
  | empty
  | one (p : α → Bool)
  /-- Any number of characters of a class, as few as possible if `lazy`. -/
  | star (lazy : Bool) (p : α → Bool)
  | seq (r q : Pattern α)
  /-- Rather with the part than without it. -/
  | opt (r : Pattern α)
  | group (n : Nat) (r : Pattern α)

/-- The texts of the groups of a match. -/
abbrev Groups (α : Type) := List (Nat × List α)

structure Match (α : Type) where
  groups : Groups α
  rest : List α

/-- What a group matched; nothing, if it has no part in the match. -/
def Groups.get (gs : Groups α) (n : Nat) : List α := (gs.lookup n).getD []

namespace Pattern

def text [BEq α] : List α → Pattern α
  | [] => empty
  | a :: s => seq (one (· == a)) (text s)

def plus (lazy : Bool) (p : α → Bool) : Pattern α := seq (one p) (star lazy p)

def seqs : List (Pattern α) → Pattern α
  | [] => empty
  | r :: rs => seq r (seqs rs)

/-! ## Matching -/

/-- What may be left behind characters of a class, for the shortest match first. -/
def rests (p : α → Bool) : List α → List (List α)
  | [] => [[]]
  | a :: s => (a :: s) :: if p a then rests p s else []

def run : Pattern α → List α → List (Match α)
  | empty, s => [⟨[], s⟩]
  | one _, [] => []
  | one p, a :: s => if p a then [⟨[], s⟩] else []
  | star lazy p, s => (if lazy then rests p s else (rests p s).reverse).map fun rest => ⟨[], rest⟩
  | seq r q, s => (run r s).flatMap fun m => (run q m.rest).map fun m' =>
      ⟨m.groups ++ m'.groups, m'.rest⟩
  | opt r, s => run r s ++ [⟨[], s⟩]
  | group n r, s => (run r s).map fun m =>
      ⟨(n, s.take (s.length - m.rest.length)) :: m.groups, m.rest⟩

/-- `regex_search` from the first position on. -/
def search (r : Pattern α) : List α → Option (Match α)
  | [] => (run r []).head?
  | a :: s => (run r (a :: s)).head?.or (search r s)

/-- At most so many matches, each behind the last one. -/
def findSome (r : Pattern α) : Nat → List α → List (Groups α)
  | 0, _ => []
  | n + 1, s =>
    match search r s with
    | none => []
    | some m => m.groups :: findSome r n m.rest

/-- The matches of a pattern that matches no empty text. -/
def findAll (r : Pattern α) (s : List α) : List (Groups α) := findSome r s.length s

/-! ## What is matched -/

/-- The pattern matches the text, with these groups. -/
def Matches : Pattern α → List α → Groups α → Prop
  | empty, t, gs => t = [] ∧ gs = []
  | one p, t, gs => (∃ a, t = [a] ∧ p a = true) ∧ gs = []
  | star _ p, t, gs => (∀ a ∈ t, p a = true) ∧ gs = []
  | seq r q, t, gs => ∃ t₁ t₂ gs₁ gs₂, t = t₁ ++ t₂ ∧ gs = gs₁ ++ gs₂ ∧ r.Matches t₁ gs₁ ∧
      q.Matches t₂ gs₂
  | opt r, t, gs => r.Matches t gs ∨ (t = [] ∧ gs = [])
  | group n r, t, gs => ∃ gs', gs = (n, t) :: gs' ∧ r.Matches t gs'

/-- No part is a group. -/
def silent : Pattern α → Bool
  | empty => true
  | one _ => true
  | star _ _ => true
  | seq r q => r.silent && q.silent
  | opt r => r.silent
  | group _ _ => false

section
variable {r q : Pattern α} {p : α → Bool} {s t rest : List α} {gs : Groups α} {m : Match α}

theorem mem_rests : rest ∈ rests p s ↔ ∃ t, s = t ++ rest ∧ ∀ a ∈ t, p a = true := by
  induction s with
  | nil =>
    rw [rests, List.mem_singleton]
    constructor
    · rintro rfl
      exact ⟨[], rfl, fun a ha => absurd ha List.not_mem_nil⟩
    · rintro ⟨t, h, -⟩
      exact (List.append_eq_nil_iff.mp h.symm).2
  | cons a s ih =>
    rw [rests, List.mem_cons]
    constructor
    · rintro (rfl | h)
      · exact ⟨[], rfl, fun a ha => absurd ha List.not_mem_nil⟩
      · split at h
        · next ha =>
          obtain ⟨t, rfl, ht⟩ := ih.mp h
          exact ⟨a :: t, rfl, List.forall_mem_cons.mpr ⟨ha, ht⟩⟩
        · exact absurd h List.not_mem_nil
    · rintro ⟨t, h, ht⟩
      cases t with
      | nil => exact .inl h.symm
      | cons b t =>
        obtain ⟨rfl, rfl⟩ := List.cons.inj h
        obtain ⟨ha, ht⟩ := List.forall_mem_cons.mp ht
        rw [if_pos ha]
        exact .inr (ih.mpr ⟨t, rfl, ht⟩)

@[simp] theorem matches_text [BEq α] [LawfulBEq α] {u : List α} :
    (text u).Matches t gs ↔ t = u ∧ gs = [] := by
  induction u generalizing t gs with
  | nil => exact Iff.rfl
  | cons a u ih =>
    simp only [text, Matches, ih, beq_iff_eq]
    constructor
    · rintro ⟨_, _, _, _, rfl, rfl, ⟨⟨_, rfl, rfl⟩, rfl⟩, rfl, rfl⟩
      exact ⟨rfl, rfl⟩
    · rintro ⟨rfl, rfl⟩
      exact ⟨[a], u, [], [], rfl, rfl, ⟨⟨a, rfl, rfl⟩, rfl⟩, rfl, rfl⟩

@[simp] theorem matches_plus {lazy : Bool} :
    (plus lazy p).Matches t gs ↔ (t ≠ [] ∧ ∀ a ∈ t, p a = true) ∧ gs = [] := by
  simp only [plus, Matches]
  constructor
  · rintro ⟨_, _, _, _, rfl, rfl, ⟨⟨a, rfl, ha⟩, rfl⟩, ht, rfl⟩
    exact ⟨⟨List.cons_ne_nil _ _, List.forall_mem_cons.mpr ⟨ha, ht⟩⟩, rfl⟩
  · rintro ⟨⟨hne, ht⟩, rfl⟩
    obtain ⟨a, t, rfl⟩ := List.exists_cons_of_ne_nil hne
    obtain ⟨ha, ht⟩ := List.forall_mem_cons.mp ht
    exact ⟨[a], t, [], [], rfl, rfl, ⟨⟨a, rfl, ha⟩, rfl⟩, ht, rfl⟩

/-- What a group matched is a part of the text. -/
theorem infix_of_mem_groups (h : r.Matches t gs) : ∀ g ∈ gs, g.2 <:+: t := by
  induction r generalizing t gs with
  | empty => exact fun g hg => absurd (h.2 ▸ hg) List.not_mem_nil
  | one p => exact fun g hg => absurd (h.2 ▸ hg) List.not_mem_nil
  | star lazy p => exact fun g hg => absurd (h.2 ▸ hg) List.not_mem_nil
  | seq r q ihr ihq =>
    obtain ⟨t₁, t₂, gs₁, gs₂, rfl, rfl, hr, hq⟩ := h
    intro g hg
    rcases List.mem_append.mp hg with hg | hg
    · exact (ihr hr g hg).trans (List.prefix_append _ _).isInfix
    · exact (ihq hq g hg).trans (List.suffix_append _ _).isInfix
  | opt r ih =>
    rcases h with h | ⟨-, rfl⟩
    · exact ih h
    · exact fun g hg => absurd hg List.not_mem_nil
  | group n r ih =>
    obtain ⟨gs', rfl, hr⟩ := h
    exact List.forall_mem_cons.mpr ⟨List.infix_rfl, ih hr⟩

theorem infix_get (h : r.Matches t gs) (n : Nat) : gs.get n <:+: t := by
  rw [Groups.get]
  cases hl : gs.lookup n with
  | none => exact List.nil_infix
  | some u =>
    obtain ⟨gs₁, gs₂, he, -⟩ := List.lookup_eq_some_iff.mp hl
    exact infix_of_mem_groups h (n, u) (he ▸ List.mem_append_right gs₁ List.mem_cons_self)

theorem groups_of_silent (hr : r.silent = true) (h : r.Matches t gs) : gs = [] := by
  induction r generalizing t gs with
  | empty => exact h.2
  | one p => exact h.2
  | star lazy p => exact h.2
  | seq r q ihr ihq =>
    obtain ⟨hr, hq⟩ := Bool.and_eq_true_iff.mp hr
    obtain ⟨t₁, t₂, gs₁, gs₂, rfl, rfl, h₁, h₂⟩ := h
    rw [ihr hr h₁, ihq hq h₂, List.append_nil]
  | opt r ih =>
    rcases h with h | ⟨-, rfl⟩
    · exact ih hr h
    · rfl
  | group n r ih => cases hr

/-- The groups of a match come from the parts that have groups. -/
theorem Matches.captures {rs : List (Pattern α)} (h : (seqs rs).Matches t gs) :
    ∃ t', (seqs (rs.filter fun r => !r.silent)).Matches t' gs := by
  induction rs generalizing t gs with
  | nil => exact ⟨t, h⟩
  | cons r rs ih =>
    obtain ⟨t₁, t₂, gs₁, gs₂, rfl, rfl, h₁, h₂⟩ := h
    obtain ⟨t', h'⟩ := ih h₂
    by_cases hr : r.silent = true
    · rw [groups_of_silent hr h₁, List.filter_cons_of_neg (by rw [hr]; exact Bool.false_ne_true)]
      exact ⟨t', h'⟩
    · rw [List.filter_cons_of_pos (by rw [Bool.eq_false_iff.mpr hr]; rfl)]
      exact ⟨t₁ ++ t', t₁, t', gs₁, gs₂, rfl, rfl, h₁, h'⟩

/-- The matches of a pattern at the front of a text. -/
theorem mem_run_iff : m ∈ run r s ↔ ∃ t, s = t ++ m.rest ∧ r.Matches t m.groups := by
  induction r generalizing s m with
  | empty =>
    obtain ⟨gs, rest⟩ := m
    simp only [run, Matches, List.mem_singleton, Match.mk.injEq]
    constructor
    · rintro ⟨rfl, rfl⟩
      exact ⟨[], rfl, rfl, rfl⟩
    · rintro ⟨t, rfl, rfl, rfl⟩
      exact ⟨rfl, rfl⟩
  | one p =>
    obtain ⟨gs, rest⟩ := m
    cases s with
    | nil =>
      refine iff_of_false List.not_mem_nil ?_
      rintro ⟨t, h, ⟨a, rfl, -⟩, -⟩
      cases h
    | cons a s =>
      rw [run]
      constructor
      · intro h
        split at h
        · next ha =>
          rw [List.mem_singleton, Match.mk.injEq] at h
          obtain ⟨rfl, rfl⟩ := h
          exact ⟨[a], rfl, ⟨a, rfl, ha⟩, rfl⟩
        · exact absurd h List.not_mem_nil
      · rintro ⟨t, h, ⟨b, rfl, hb⟩, rfl⟩
        obtain ⟨rfl, rfl⟩ := List.cons.inj h
        rw [if_pos hb]
        exact List.mem_cons_self
  | star lazy p =>
    obtain ⟨gs, rest⟩ := m
    have hmem : rest ∈ (if lazy then rests p s else (rests p s).reverse) ↔ rest ∈ rests p s := by
      split
      · exact Iff.rfl
      · exact List.mem_reverse
    rw [run, List.mem_map]
    constructor
    · rintro ⟨rest', h, he⟩
      obtain ⟨rfl, rfl⟩ := Match.mk.inj he
      obtain ⟨t, ht, hp⟩ := mem_rests.mp (hmem.mp h)
      exact ⟨t, ht, hp, rfl⟩
    · rintro ⟨t, ht, hp, rfl⟩
      exact ⟨rest, hmem.mpr (mem_rests.mpr ⟨t, ht, hp⟩), rfl⟩
  | seq r q ihr ihq =>
    obtain ⟨gs, rest⟩ := m
    rw [run, List.mem_flatMap]
    constructor
    · rintro ⟨m₁, h₁, h⟩
      obtain ⟨m₂, h₂, he⟩ := List.mem_map.mp h
      obtain ⟨rfl, rfl⟩ := Match.mk.inj he
      obtain ⟨t₁, rfl, hr⟩ := ihr.mp h₁
      obtain ⟨t₂, ht₂, hq⟩ := ihq.mp h₂
      exact ⟨t₁ ++ t₂, by rw [ht₂, List.append_assoc], t₁, t₂, _, _, rfl, rfl, hr, hq⟩
    · rintro ⟨_, rfl, t₁, t₂, gs₁, gs₂, rfl, rfl, hr, hq⟩
      refine ⟨⟨gs₁, t₂ ++ rest⟩, ihr.mpr ⟨t₁, List.append_assoc _ _ _, hr⟩, ?_⟩
      exact List.mem_map.mpr ⟨⟨gs₂, rest⟩, ihq.mpr ⟨t₂, rfl, hq⟩, rfl⟩
  | opt r ih =>
    obtain ⟨gs, rest⟩ := m
    rw [run, List.mem_append, List.mem_singleton, ih]
    constructor
    · rintro (⟨t, ht, h⟩ | he)
      · exact ⟨t, ht, .inl h⟩
      · obtain ⟨rfl, rfl⟩ := Match.mk.inj he
        exact ⟨[], rfl, .inr ⟨rfl, rfl⟩⟩
    · rintro ⟨t, ht, h | ⟨rfl, rfl⟩⟩
      · exact .inl ⟨t, ht, h⟩
      · exact .inr (by rw [ht, List.nil_append])
  | group n r ih =>
    obtain ⟨gs, rest⟩ := m
    have htake : ∀ t : List α, (t ++ rest).take ((t ++ rest).length - rest.length) = t := by
      intro t
      rw [List.length_append, Nat.add_sub_cancel, List.take_left]
    rw [run, List.mem_map]
    constructor
    · rintro ⟨m₁, h₁, he⟩
      obtain ⟨rfl, rfl⟩ := Match.mk.inj he
      obtain ⟨t, rfl, hr⟩ := ih.mp h₁
      exact ⟨t, rfl, m₁.groups, by rw [htake], hr⟩
    · rintro ⟨t, rfl, gs', rfl, hr⟩
      exact ⟨⟨gs', rest⟩, ih.mpr ⟨t, rfl, hr⟩, by rw [htake]⟩

theorem matches_of_search (h : search r s = some m) :
    ∃ u t, s = u ++ t ++ m.rest ∧ r.Matches t m.groups := by
  induction s with
  | nil =>
    obtain ⟨t, ht, hr⟩ := mem_run_iff.mp (List.mem_of_head? h)
    exact ⟨[], t, ht, hr⟩
  | cons a s ih =>
    rw [search, Option.or_eq_some_iff] at h
    rcases h with h | ⟨-, h⟩
    · obtain ⟨t, ht, hr⟩ := mem_run_iff.mp (List.mem_of_head? h)
      exact ⟨[], t, ht, hr⟩
    · obtain ⟨u, t, rfl, hr⟩ := ih h
      exact ⟨a :: u, t, rfl, hr⟩

/-- Every match that is found is one of a part of the text. -/
theorem matches_of_mem_findAll (h : gs ∈ findAll r s) : ∃ t, t <:+: s ∧ r.Matches t gs := by
  have key : ∀ (n : Nat) (s : List α), gs ∈ findSome r n s → ∃ t, t <:+: s ∧ r.Matches t gs := by
    intro n
    induction n with
    | zero => exact fun s h => absurd h List.not_mem_nil
    | succ n ih =>
      intro s h
      rw [findSome] at h
      split at h
      · exact absurd h List.not_mem_nil
      · next m hm =>
        obtain ⟨u, t, rfl, hr⟩ := matches_of_search hm
        rcases List.mem_cons.mp h with rfl | h
        · exact ⟨t, ⟨u, m.rest, rfl⟩, hr⟩
        · obtain ⟨t', ht', hr'⟩ := ih _ h
          exact ⟨t', ht'.trans (List.suffix_append _ _).isInfix, hr'⟩
  exact key _ _ h

end

end Pattern

end Regex
