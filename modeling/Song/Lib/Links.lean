import Mathlib.Data.Finset.Card
import Mathlib.Data.List.Nodup
import Mathlib.Data.Set.Card
import Mathlib.Logic.Relation

/-!
# Following links

`next` leads from an element to at most one other. Followed from `a` it either comes to an
end, along one `Chain` without repetition, or, when only finitely many elements have a
successor, revisits an element. A relation that leads to finitely many elements has no cycle
exactly when numbers can be given to the elements that fall along it.
-/

namespace Links

variable {α : Type}

/-- The element `n` links after `a`. -/
def follow (next : α → Option α) : Nat → α → Option α
  | 0, a => some a
  | n + 1, a => (next a).bind (follow next n)

/-- Following the links from `a` comes to one element twice. -/
def Revisits (next : α → Option α) (a : α) : Prop :=
  ∃ i j b, i < j ∧ follow next i a = some b ∧ follow next j a = some b

/-- The elements from `a` on, up to one without a successor. -/
inductive Chain (next : α → Option α) : α → List α → Prop
  | last {a : α} (h : next a = none) : Chain next a [a]
  | link {a b : α} {l : List α} (h : next a = some b) (hb : Chain next b l) : Chain next a (a :: l)

section
variable {next : α → Option α} {a b : α} {l l' : List α}

theorem follow_add (m n : Nat) : follow next (m + n) a = (follow next m a).bind (follow next n) := by
  induction m generalizing a with
  | zero => rw [Nat.zero_add]; rfl
  | succ m ih =>
    rw [Nat.succ_add, follow, follow, Option.bind_assoc]
    exact congrArg _ (funext fun b => ih)

theorem follow_succ (n : Nat) : follow next (n + 1) a = (follow next n a).bind next := by
  rw [follow_add]
  congr 1
  funext b
  rw [follow]
  cases next b with
  | none => rfl
  | some c => rfl

/-! ## Chains -/

theorem Chain.mem (h : Chain next a l) : a ∈ l := by
  cases h with
  | last _ => exact List.mem_singleton_self a
  | link _ _ => exact List.mem_cons_self

theorem chain_iff_of_some (h : next a = some b) :
    Chain next a l ↔ ∃ t, l = a :: t ∧ Chain next b t := by
  constructor
  · intro hc
    cases hc with
    | last hn => rw [h] at hn; cases hn
    | link hs ht =>
      obtain rfl := Option.some.inj (h.symm.trans hs)
      exact ⟨_, rfl, ht⟩
  · rintro ⟨t, rfl, ht⟩
    exact .link h ht

theorem Chain.unique (h : Chain next a l) (h' : Chain next a l') : l = l' := by
  induction h generalizing l' with
  | last hn =>
    cases h' with
    | last _ => rfl
    | link hs _ => rw [hn] at hs; cases hs
  | link hs _ ih =>
    obtain ⟨t, rfl, ht⟩ := (chain_iff_of_some hs).mp h'
    rw [ih ht]

/-- The links from `a` lead along the chain and then end. -/
theorem Chain.follow_eq (h : Chain next a l) (i : Nat) : follow next i a = l[i]? := by
  induction h generalizing i with
  | last hn =>
    cases i with
    | zero => rfl
    | succ i => rw [follow, hn]; rfl
  | link hs _ ih =>
    cases i with
    | zero => rfl
    | succ i => rw [follow, hs]; exact ih i

theorem Chain.of_mem (h : Chain next a l) (hb : b ∈ l) :
    ∃ pre post, l = pre ++ post ∧ Chain next b post := by
  induction h with
  | last hn =>
    rw [List.mem_singleton.mp hb]
    exact ⟨[], _, rfl, .last hn⟩
  | @link a c t hs ht ih =>
    rcases List.mem_cons.mp hb with rfl | hb
    · exact ⟨[], _, rfl, .link hs ht⟩
    · obtain ⟨pre, post, rfl, hc⟩ := ih hb
      exact ⟨a :: pre, post, rfl, hc⟩

/-- A repeated element would repeat the rest of its chain. -/
theorem Chain.nodup (h : Chain next a l) : l.Nodup := by
  induction h with
  | last _ => exact List.nodup_singleton _
  | @link a c t hs ht ih =>
    refine List.nodup_cons.mpr ⟨fun hmem => ?_, ih⟩
    obtain ⟨pre, post, hsplit, hc⟩ := ht.of_mem hmem
    have hlen := congrArg List.length hsplit
    rw [← (Chain.link hs ht).unique hc, List.length_append, List.length_cons] at hlen
    omega

theorem Chain.not_revisits (h : Chain next a l) : ¬ Revisits next a := by
  rintro ⟨i, j, b, hij, hi, hj⟩
  rw [h.follow_eq] at hi hj
  have hlt : i < l.length := (List.getElem?_eq_some_iff.mp hi).1
  have := (List.getElem?_inj hlt h.nodup).mp (hi.trans hj.symm)
  omega

/-- All of a chain but its last element has a successor. -/
theorem Chain.isSome_of_mem_dropLast (h : Chain next a l) (hb : b ∈ l.dropLast) :
    (next b).isSome := by
  induction h with
  | last _ => cases hb
  | link hs ht ih =>
    rw [List.dropLast_cons_of_ne_nil (List.ne_nil_of_mem ht.mem)] at hb
    rcases List.mem_cons.mp hb with rfl | hb
    · rw [hs]; rfl
    · exact ih hb

/-! ## Finitely many links -/

/-- Every element is at the start of a chain, or has as many successors in a row as are asked
for. -/
theorem chain_or_follow (n : Nat) (a : α) :
    (∃ l, Chain next a l) ∨ (follow next n a).isSome := by
  induction n generalizing a with
  | zero => exact .inr rfl
  | succ n ih =>
    cases hn : next a with
    | none => exact .inl ⟨_, .last hn⟩
    | some b =>
      rcases ih b with ⟨l, hl⟩ | hs
      · exact .inl ⟨_, .link hn hl⟩
      · refine .inr ?_
        rw [follow, hn]
        exact hs

variable {keys : List α} (hkeys : ∀ a, (next a).isSome → a ∈ keys)
include hkeys

theorem follow_mem_keys {i n : Nat} (hi : i < n) (h : (follow next n a).isSome) :
    ∃ b ∈ keys, follow next i a = some b := by
  obtain ⟨k, rfl⟩ : ∃ k, n = i + 1 + k := ⟨n - (i + 1), by omega⟩
  rw [follow_add, follow_succ] at h
  cases hf : follow next i a with
  | none => rw [hf] at h; cases h
  | some b =>
    refine ⟨b, hkeys b ?_, rfl⟩
    rw [hf, Option.bind_some] at h
    cases hn : next b with
    | none => rw [hn] at h; cases h
    | some c => rfl

/-- One successor more than there are keys: an element comes twice. -/
theorem revisits_of_follow [DecidableEq α] (h : (follow next (keys.length + 1) a).isSome) :
    Revisits next a := by
  have hvisit : ∀ i : Nat, i < keys.length + 1 → ∃ b ∈ keys, follow next i a = some b :=
    fun i hi => follow_mem_keys hkeys hi h
  have hmaps : ∀ i ∈ Finset.range (keys.length + 1),
      (follow next i a) ∈ keys.toFinset.image some := by
    intro i hi
    obtain ⟨b, hb, hf⟩ := hvisit i (Finset.mem_range.mp hi)
    rw [hf]
    exact Finset.mem_image_of_mem _ (List.mem_toFinset.mpr hb)
  have hcard : (keys.toFinset.image (some : α → Option α)).card <
      (Finset.range (keys.length + 1)).card := by
    rw [Finset.card_range]
    exact Nat.lt_succ_of_le (Finset.card_image_le.trans keys.toFinset_card_le)
  obtain ⟨i, hi, j, -, hne, heq⟩ := Finset.exists_ne_map_eq_of_card_lt_of_maps_to hcard hmaps
  obtain ⟨b, -, hf⟩ := hvisit i (Finset.mem_range.mp hi)
  rcases Nat.lt_or_gt_of_ne hne with hlt | hgt
  · exact ⟨i, j, b, hlt, hf, heq ▸ hf⟩
  · exact ⟨j, i, b, hgt, heq ▸ hf, hf⟩

theorem revisits_iff [DecidableEq α] : Revisits next a ↔ ¬ ∃ l, Chain next a l := by
  constructor
  · rintro hr ⟨l, hl⟩
    exact hl.not_revisits hr
  · intro hn
    rcases @chain_or_follow α next (keys.length + 1) a with hc | hf
    · exact absurd hc hn
    · exact revisits_of_follow hkeys hf

/-- A chain has at most one element that is no key. -/
theorem Chain.length_le (h : Chain next a l) : l.length ≤ keys.length + 1 := by
  have hsub := (h.nodup.sublist l.dropLast_sublist).subperm
    fun b hb => hkeys b (h.isSome_of_mem_dropLast hb)
  have := hsub.length_le
  rw [List.length_dropLast] at this
  omega

end

/-! ## Several links -/

section
variable {r : α → α → Prop} {xs : List α}

/-- The elements reached from an element have fewer elements behind them than it has. -/
theorem ncard_lt_of_acyclic (hr : ∀ a b, r a b → b ∈ xs) (hacyclic : ∀ a, ¬ Relation.TransGen r a a)
    {a b : α} (h : r a b) :
    Set.ncard {c | Relation.TransGen r b c} < Set.ncard {c | Relation.TransGen r a c} := by
  have hfin : {c | Relation.TransGen r a c}.Finite := by
    refine xs.finite_toSet.subset fun c hc => ?_
    obtain ⟨d, -, hd⟩ := Relation.TransGen.tail'_iff.mp hc
    exact hr d c hd
  refine Set.ncard_lt_ncard ⟨fun c hc => hc.head h, fun hsub => ?_⟩ hfin
  exact hacyclic b (hsub (Relation.TransGen.single h))

theorem exists_rank_iff (hr : ∀ a b, r a b → b ∈ xs) :
    (∃ rank : α → Nat, ∀ a b, r a b → rank b < rank a) ↔ ∀ a, ¬ Relation.TransGen r a a := by
  constructor
  · rintro ⟨rank, hrank⟩ a ha
    have hlt : ∀ b, Relation.TransGen r a b → rank b < rank a := by
      intro b hb
      induction hb with
      | single h => exact hrank _ _ h
      | tail _ h ih => exact (hrank _ _ h).trans ih
    exact Nat.lt_irrefl _ (hlt a ha)
  · intro hacyclic
    exact ⟨fun a => Set.ncard {c | Relation.TransGen r a c}, fun a b h =>
      ncard_lt_of_acyclic hr hacyclic h⟩

end

end Links
