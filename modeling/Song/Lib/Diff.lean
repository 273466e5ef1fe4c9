import Mathlib.Data.List.Induction
import Mathlib.Data.List.Nodup
import Song.Lib.Map

/-!
# Comparing two lists by name

`diff` sorts the elements of two lists into those that only the new list has, those that only
the old one has, and the pairs of one name that differ. It looks each new element up in a map of
the old ones and takes it out, so that the map is left with what was removed. Where the names of
each list are distinct, every element is sorted rightly (`classifies_diff`) and nothing is
reported exactly if the two lists say the same (`Classifies.empty_iff`).
-/

namespace Diff

variable {κ α β : Type}

structure Report (α β : Type) where
  added : List β
  removed : List α
  changed : List (α × β)

/-- What is in a map, in the order of the keys. -/
def values (le : κ → κ → Bool) (m : Map κ α) : List α :=
  (m.entries.mergeSort fun a b => le a.1 b.1).map fun e => e.2

variable [DecidableEq κ] (nameA : α → κ) (nameB : β → κ) (differs : α → β → Bool)
  (le : κ → κ → Bool)

/-- A later element replaces an earlier one of its name. -/
def ofList (olds : List α) : Map κ α := olds.foldl (fun m a => m.insert (nameA a) a) ∅

/-- One new element after the other, against the old ones that are left. -/
def scan : List β → Map κ α → Report α β
  | [], m => ⟨[], values le m, []⟩
  | b :: news, m =>
    match m.lookup (nameB b) with
    | none =>
      let r := scan news m
      { r with added := b :: r.added }
    | some a =>
      let r := scan news (m.erase (nameB b))
      { r with changed := if differs a b then (a, b) :: r.changed else r.changed }

def diff (olds : List α) (news : List β) : Report α β :=
  scan nameB differs le news (ofList nameA olds)

/-- What a report should say of two lists. -/
structure Classifies (olds : List α) (news : List β) (r : Report α β) : Prop where
  added : ∀ b, b ∈ r.added ↔ b ∈ news ∧ ∀ a ∈ olds, nameA a ≠ nameB b
  removed : ∀ a, a ∈ r.removed ↔ a ∈ olds ∧ ∀ b ∈ news, nameA a ≠ nameB b
  changed : ∀ a b, (a, b) ∈ r.changed ↔
    a ∈ olds ∧ b ∈ news ∧ nameA a = nameB b ∧ differs a b = true
  /-- No name is reported twice. -/
  once : (r.added.map nameB ++ r.removed.map nameA ++ r.changed.map fun e => nameB e.2).Nodup

/-- The two lists have the same names, and do not differ under any of them. -/
def Same (olds : List α) (news : List β) : Prop :=
  (∀ k, k ∈ olds.map nameA ↔ k ∈ news.map nameB) ∧
    ∀ a ∈ olds, ∀ b ∈ news, nameA a = nameB b → differs a b = false

section

variable {nameA nameB differs le} {olds : List α} {news : List β} {m : Map κ α} {r : Report α β}

/-! ## The map -/

theorem lookup_foldl (h : (olds.map nameA).Nodup) (m : Map κ α)
    (hm : ∀ a ∈ olds, m.lookup (nameA a) = none) (k : κ) (a : α) :
    (olds.foldl (fun m a => m.insert (nameA a) a) m).lookup k = some a ↔
      (a ∈ olds ∧ nameA a = k) ∨ m.lookup k = some a := by
  induction olds generalizing m with
  | nil => exact ⟨.inr, fun h => h.elim (fun h => absurd h.1 List.not_mem_nil) id⟩
  | cons b olds ih =>
    obtain ⟨hb, hn⟩ := List.nodup_cons.mp h
    have hne : ∀ c ∈ olds, nameA c ≠ nameA b := fun c hc he =>
      hb (List.mem_map.mpr ⟨c, hc, he⟩)
    rw [List.foldl_cons, ih hn (m.insert (nameA b) b) fun c hc => by
      rw [AList.lookup_insert_ne (hne c hc)]
      exact hm c (List.mem_cons_of_mem _ hc)]
    by_cases hk : k = nameA b
    · subst hk
      rw [AList.lookup_insert, hm b List.mem_cons_self]
      constructor
      · rintro (⟨hc, he⟩ | he)
        · exact absurd he (hne a hc)
        · cases he
          exact .inl ⟨List.mem_cons_self, rfl⟩
      · rintro (⟨hc, he⟩ | he)
        · rcases List.mem_cons.mp hc with rfl | hc
          · exact .inr rfl
          · exact absurd he (hne a hc)
        · cases he
    · rw [AList.lookup_insert_ne hk]
      refine or_congr_left ⟨fun ⟨hc, he⟩ => ⟨List.mem_cons_of_mem _ hc, he⟩, fun ⟨hc, he⟩ => ?_⟩
      rcases List.mem_cons.mp hc with rfl | hc
      · exact absurd he.symm hk
      · exact ⟨hc, he⟩

theorem lookup_ofList (h : (olds.map nameA).Nodup) (k : κ) (a : α) :
    (ofList nameA olds).lookup k = some a ↔ a ∈ olds ∧ nameA a = k := by
  rw [ofList, lookup_foldl h ∅ fun _ _ => rfl]
  exact or_iff_left fun h => by cases h

/-- The map has the last element of a name. -/
theorem lookup_ofList_eq (olds : List α) (k : κ) :
    (ofList nameA olds).lookup k = olds.reverse.find? fun a => nameA a = k := by
  induction olds using List.reverseRecOn with
  | nil => rfl
  | append_singleton olds a ih =>
    have hfold : ofList nameA (olds ++ [a]) = (ofList nameA olds).insert (nameA a) a := by
      rw [ofList, List.foldl_append]
      rfl
    rw [hfold, List.reverse_append, List.reverse_singleton, List.singleton_append,
      List.find?_cons]
    by_cases hk : k = nameA a
    · rw [hk, AList.lookup_insert, decide_eq_true rfl]
    · rw [AList.lookup_insert_ne hk, ih, decide_eq_false (Ne.symm hk)]

theorem lookup_ofList_eq_none {k : κ} :
    (ofList nameA olds).lookup k = none ↔ k ∉ olds.map nameA := by
  rw [lookup_ofList_eq, List.find?_eq_none, List.mem_map]
  constructor
  · rintro h ⟨a, ha, rfl⟩
    exact h a (List.mem_reverse.mpr ha) (decide_eq_true rfl)
  · intro h a ha hk
    exact h ⟨a, List.mem_reverse.mp ha, of_decide_eq_true hk⟩

theorem mem_of_lookup_ofList {k : κ} {a : α} (h : (ofList nameA olds).lookup k = some a) :
    a ∈ olds := by
  rw [lookup_ofList_eq] at h
  exact List.mem_reverse.mp (List.mem_of_find?_eq_some h)

theorem mem_values {a : α} : a ∈ values le m ↔ ∃ k, m.lookup k = some a := by
  rw [values, List.mem_map]
  constructor
  · rintro ⟨⟨k, a'⟩, he, rfl⟩
    exact ⟨k, AList.mem_lookup_iff.mpr (List.mem_mergeSort.mp he)⟩
  · rintro ⟨k, hk⟩
    exact ⟨⟨k, a⟩, List.mem_mergeSort.mpr (AList.mem_lookup_iff.mp hk), rfl⟩

theorem nodup_values (hm : ∀ k a, m.lookup k = some a → nameA a = k) :
    ((values le m).map nameA).Nodup := by
  have hkeys : (values le m).map nameA =
      (m.entries.mergeSort fun a b => le a.1 b.1).map Sigma.fst := by
    rw [values, List.map_map]
    refine List.map_congr_left fun e he => ?_
    exact hm e.1 e.2 (AList.mem_lookup_iff.mpr (List.mem_mergeSort.mp he))
  rw [hkeys]
  exact ((List.mergeSort_perm _ _).map _).nodup_iff.mpr m.nodupKeys

/-! ## The scan -/

section

variable {b : β}

theorem scan_none (h : m.lookup (nameB b) = none) :
    scan nameB differs le (b :: news) m =
      { scan nameB differs le news m with added := b :: (scan nameB differs le news m).added } := by
  rw [scan, h]

theorem scan_some {a : α} (h : m.lookup (nameB b) = some a) :
    scan nameB differs le (b :: news) m =
      let r := scan nameB differs le news (m.erase (nameB b))
      { r with changed := if differs a b then (a, b) :: r.changed else r.changed } := by
  rw [scan, h]

end

theorem lookup_erase_eq_none {b c : β} :
    (m.erase (nameB c)).lookup (nameB b) = none ↔
      nameB b = nameB c ∨ m.lookup (nameB b) = none := by
  by_cases he : nameB b = nameB c
  · rw [he, AList.lookup_erase]
    exact iff_of_true rfl (.inl rfl)
  · rw [AList.lookup_erase_ne he]
    exact (or_iff_right he).symm

/-- An element is new if its name is not in the map, or an element in front of it has the name. -/
theorem mem_added_iff (b : β) :
    b ∈ (scan nameB differs le news m).added ↔ ∃ pre post, news = pre ++ b :: post ∧
      (m.lookup (nameB b) = none ∨ nameB b ∈ pre.map nameB) := by
  induction news generalizing m with
  | nil =>
    refine iff_of_false List.not_mem_nil ?_
    rintro ⟨pre, post, h, -⟩
    exact List.append_ne_nil_of_right_ne_nil pre (List.cons_ne_nil _ _) h.symm
  | cons c news ih =>
    -- the first element, or one behind it
    have hcons : (∃ pre post, c :: news = pre ++ b :: post ∧
        (m.lookup (nameB b) = none ∨ nameB b ∈ pre.map nameB)) ↔
        (b = c ∧ m.lookup (nameB b) = none) ∨ ∃ pre post, news = pre ++ b :: post ∧
          (m.lookup (nameB b) = none ∨ nameB b = nameB c ∨ nameB b ∈ pre.map nameB) := by
      constructor
      · rintro ⟨pre, post, h, hb⟩
        cases pre with
        | nil => exact .inl ⟨(List.cons.inj h).1.symm, hb.resolve_right List.not_mem_nil⟩
        | cons d pre =>
          obtain ⟨rfl, rfl⟩ := List.cons.inj h
          exact .inr ⟨pre, post, rfl, hb.imp_right List.mem_cons.mp⟩
      · rintro (⟨rfl, hb⟩ | ⟨pre, post, rfl, hb⟩)
        · exact ⟨[], news, rfl, .inl hb⟩
        · exact ⟨c :: pre, post, rfl, hb.imp_right List.mem_cons.mpr⟩
    rw [hcons]
    cases hl : m.lookup (nameB c) with
    | none =>
      have hc : nameB b = nameB c → m.lookup (nameB b) = none := fun he => by rw [he, hl]
      have hor : ∀ Q : Prop, (m.lookup (nameB b) = none ∨ nameB b = nameB c ∨ Q) ↔
          (m.lookup (nameB b) = none ∨ Q) := fun Q => by
        rw [← or_assoc, or_iff_left_of_imp hc]
      rw [scan_none hl, List.mem_cons, ih]
      simp only [hor]
      refine or_congr_left ⟨?_, fun h => h.1⟩
      rintro rfl
      exact ⟨rfl, hl⟩
    | some a =>
      rw [scan_some hl]
      show b ∈ (scan nameB differs le news (m.erase (nameB c))).added ↔ _
      simp only [ih, lookup_erase_eq_none, or_assoc, or_left_comm (a := nameB b = nameB c)]
      refine (or_iff_right ?_).symm
      rintro ⟨rfl, h⟩
      rw [hl] at h
      cases h

/-- An element has changed if it is the first one of its name, the map has the name, and the two
differ. -/
theorem mem_changed_iff (a : α) (b : β) :
    (a, b) ∈ (scan nameB differs le news m).changed ↔ ∃ pre post, news = pre ++ b :: post ∧
      nameB b ∉ pre.map nameB ∧ m.lookup (nameB b) = some a ∧ differs a b = true := by
  induction news generalizing m with
  | nil =>
    refine iff_of_false List.not_mem_nil ?_
    rintro ⟨pre, post, h, -⟩
    exact List.append_ne_nil_of_right_ne_nil pre (List.cons_ne_nil _ _) h.symm
  | cons c news ih =>
    have hcons : (∃ pre post, c :: news = pre ++ b :: post ∧ nameB b ∉ pre.map nameB ∧
        m.lookup (nameB b) = some a ∧ differs a b = true) ↔
        (b = c ∧ m.lookup (nameB b) = some a ∧ differs a b = true) ∨
          ∃ pre post, news = pre ++ b :: post ∧ nameB b ∉ pre.map nameB ∧
            (nameB b ≠ nameB c ∧ m.lookup (nameB b) = some a) ∧ differs a b = true := by
      constructor
      · rintro ⟨pre, post, h, hb, hr⟩
        cases pre with
        | nil =>
          obtain ⟨rfl, -⟩ := List.cons.inj h
          exact .inl ⟨rfl, hr⟩
        | cons d pre =>
          obtain ⟨rfl, rfl⟩ := List.cons.inj h
          rw [List.map_cons, List.mem_cons, not_or] at hb
          exact .inr ⟨pre, post, rfl, hb.2, ⟨hb.1, hr.1⟩, hr.2⟩
      · rintro (⟨rfl, hr⟩ | ⟨pre, post, rfl, hb, ⟨hne, hl⟩, hd⟩)
        · exact ⟨[], news, rfl, List.not_mem_nil, hr⟩
        · refine ⟨c :: pre, post, rfl, ?_, hl, hd⟩
          rw [List.map_cons, List.mem_cons, not_or]
          exact ⟨hne, hb⟩
    rw [hcons]
    cases hl : m.lookup (nameB c) with
    | none =>
      have hne : m.lookup (nameB b) = some a → nameB b ≠ nameB c := by
        rintro h he
        rw [he, hl] at h
        cases h
      rw [scan_none hl]
      show (a, b) ∈ (scan nameB differs le news m).changed ↔ _
      rw [ih]
      simp only [and_iff_right_of_imp hne]
      refine (or_iff_right ?_).symm
      rintro ⟨rfl, h, -⟩
      exact hne h rfl
    | some a' =>
      have herase : (m.erase (nameB c)).lookup (nameB b) = some a ↔
          nameB b ≠ nameB c ∧ m.lookup (nameB b) = some a := by
        by_cases he : nameB b = nameB c
        · rw [he, AList.lookup_erase]
          exact iff_of_false nofun fun h => h.1 rfl
        · rw [AList.lookup_erase_ne he]
          exact (and_iff_right he).symm
      have hhead : (a, b) ∈ (scan nameB differs le (c :: news) m).changed ↔
          ((a, b) = (a', c) ∧ differs a' c = true) ∨
            (a, b) ∈ (scan nameB differs le news (m.erase (nameB c))).changed := by
        rw [scan_some hl]
        by_cases hd : differs a' c = true
        · simp only [hd, ↓reduceIte, List.mem_cons, and_true]
        · simp only [hd, Bool.false_eq_true, ↓reduceIte, and_false, false_or]
      rw [hhead, ih, herase]
      refine or_congr_left ⟨?_, ?_⟩
      · rintro ⟨he, hd⟩
        obtain ⟨rfl, rfl⟩ := Prod.mk.inj he
        exact ⟨rfl, hl, hd⟩
      · rintro ⟨rfl, hb, hd⟩
        rw [hl] at hb
        obtain rfl := Option.some.inj hb
        exact ⟨rfl, hd⟩

omit [DecidableEq κ] in
/-- With distinct names, what stands in front of an element has other names. -/
theorem notMem_pre {pre post : List β} {b : β} (h : ((pre ++ b :: post).map nameB).Nodup) :
    nameB b ∉ pre.map nameB := by
  rw [List.map_append, List.map_cons, List.nodup_append] at h
  exact fun hb => h.2.2 _ hb _ List.mem_cons_self rfl

theorem mem_added (h : (news.map nameB).Nodup) (b : β) :
    b ∈ (scan nameB differs le news m).added ↔ b ∈ news ∧ m.lookup (nameB b) = none := by
  rw [mem_added_iff]
  constructor
  · rintro ⟨pre, post, rfl, hb⟩
    exact ⟨List.mem_append_right pre List.mem_cons_self, hb.resolve_right (notMem_pre h)⟩
  · rintro ⟨hb, hl⟩
    obtain ⟨pre, post, rfl⟩ := List.append_of_mem hb
    exact ⟨pre, post, rfl, .inl hl⟩

theorem mem_changed (h : (news.map nameB).Nodup) (a : α) (b : β) :
    (a, b) ∈ (scan nameB differs le news m).changed ↔
      b ∈ news ∧ m.lookup (nameB b) = some a ∧ differs a b = true := by
  rw [mem_changed_iff]
  constructor
  · rintro ⟨pre, post, rfl, -, hr⟩
    exact ⟨List.mem_append_right pre List.mem_cons_self, hr⟩
  · rintro ⟨hb, hr⟩
    obtain ⟨pre, post, rfl⟩ := List.append_of_mem hb
    exact ⟨pre, post, rfl, notMem_pre h, hr⟩

/-- The map that is left has lost the names of the new elements. -/
theorem removed_scan (news : List β) (m : Map κ α) :
    ∃ m' : Map κ α, (scan nameB differs le news m).removed = values le m' ∧
      ∀ k, m'.lookup k = if k ∈ news.map nameB then none else m.lookup k := by
  induction news generalizing m with
  | nil => exact ⟨m, rfl, fun k => (if_neg List.not_mem_nil).symm⟩
  | cons b news ih =>
    cases hl : m.lookup (nameB b) with
    | none =>
      obtain ⟨m', hr, hm'⟩ := ih m
      refine ⟨m', by rw [scan_none hl, ← hr], fun k => ?_⟩
      rw [hm', List.map_cons]
      by_cases hk : k = nameB b
      · subst hk
        rw [if_pos List.mem_cons_self, hl, ite_self]
      · simp only [List.mem_cons, hk, false_or]
    | some a =>
      obtain ⟨m', hr, hm'⟩ := ih (m.erase (nameB b))
      refine ⟨m', by rw [scan_some hl, ← hr], fun k => ?_⟩
      rw [hm', List.map_cons]
      by_cases hk : k = nameB b
      · subst hk
        rw [if_pos List.mem_cons_self, AList.lookup_erase, ite_self]
      · simp only [List.mem_cons, hk, false_or, AList.lookup_erase_ne hk]

theorem sublist_added (news : List β) (m : Map κ α) :
    (scan nameB differs le news m).added.Sublist news := by
  induction news generalizing m with
  | nil => exact List.Sublist.refl _
  | cons b news ih =>
    cases hl : m.lookup (nameB b) with
    | none =>
      rw [scan_none hl]
      exact (ih m).cons_cons b
    | some a =>
      rw [scan_some hl]
      exact (ih _).cons b

theorem sublist_changed (news : List β) (m : Map κ α) :
    ((scan nameB differs le news m).changed.map fun e => e.2).Sublist news := by
  induction news generalizing m with
  | nil => exact List.Sublist.refl _
  | cons b news ih =>
    cases hl : m.lookup (nameB b) with
    | none =>
      rw [scan_none hl]
      exact (ih m).cons b
    | some a =>
      rw [scan_some hl]
      by_cases hd : differs a b = true
      · simp only [hd, ↓reduceIte, List.map_cons]
        exact (ih _).cons_cons b
      · simp only [hd, Bool.false_eq_true, ↓reduceIte]
        exact (ih _).cons b

/-! ## The report -/

theorem mem_of_mem_removed {a : α} (h : a ∈ (diff nameA nameB differs le olds news).removed) :
    a ∈ olds := by
  obtain ⟨m, hr, hm⟩ := @removed_scan κ α β _ nameB differs le news (ofList nameA olds)
  rw [diff, hr, mem_values] at h
  obtain ⟨k, hk⟩ := h
  rw [hm] at hk
  split at hk
  · cases hk
  · exact mem_of_lookup_ofList hk

theorem mem_of_mem_changed {e : α × β} (h : e ∈ (diff nameA nameB differs le olds news).changed) :
    e.1 ∈ olds ∧ e.2 ∈ news := by
  obtain ⟨pre, post, rfl, -, hl, -⟩ := (mem_changed_iff e.1 e.2).mp h
  exact ⟨mem_of_lookup_ofList hl, List.mem_append_right pre List.mem_cons_self⟩

theorem classifies_diff (differs : α → β → Bool) (le : κ → κ → Bool)
    (ho : (olds.map nameA).Nodup) (hn : (news.map nameB).Nodup) :
    Classifies nameA nameB differs olds news (diff nameA nameB differs le olds news) := by
  obtain ⟨m', hr, hm'⟩ := @removed_scan κ α β _ nameB differs le news (ofList nameA olds)
  have hlook := fun k a => lookup_ofList (a := a) ho k
  have hadded : ∀ b, b ∈ (diff nameA nameB differs le olds news).added ↔
      b ∈ news ∧ ∀ a ∈ olds, nameA a ≠ nameB b := by
    intro b
    rw [diff, mem_added hn]
    refine and_congr_right fun _ => ⟨fun h a ha he => ?_, fun h => ?_⟩
    · rw [(hlook (nameB b) a).mpr ⟨ha, he⟩] at h
      cases h
    · cases hl : (ofList nameA olds).lookup (nameB b) with
      | none => rfl
      | some a =>
        obtain ⟨ha, he⟩ := (hlook _ _).mp hl
        exact absurd he (h a ha)
  have hchanged : ∀ a b, (a, b) ∈ (diff nameA nameB differs le olds news).changed ↔
      a ∈ olds ∧ b ∈ news ∧ nameA a = nameB b ∧ differs a b = true := by
    intro a b
    rw [diff, mem_changed hn, hlook]
    constructor
    · exact fun ⟨hb, ⟨ha, he⟩, hd⟩ => ⟨ha, hb, he, hd⟩
    · exact fun ⟨ha, hb, he, hd⟩ => ⟨hb, ⟨ha, he⟩, hd⟩
  have hremoved : ∀ a, a ∈ (diff nameA nameB differs le olds news).removed ↔
      a ∈ olds ∧ ∀ b ∈ news, nameA a ≠ nameB b := by
    intro a
    rw [diff, hr, mem_values]
    constructor
    · rintro ⟨k, hk⟩
      rw [hm'] at hk
      split at hk
      · cases hk
      · next hnot =>
        obtain ⟨ha, rfl⟩ := (hlook k a).mp hk
        exact ⟨ha, fun b hb he => hnot (List.mem_map.mpr ⟨b, hb, he.symm⟩)⟩
    · rintro ⟨ha, hne⟩
      refine ⟨nameA a, ?_⟩
      rw [hm', if_neg, hlook]
      · exact ⟨ha, rfl⟩
      · intro h
        obtain ⟨b, hb, he⟩ := List.mem_map.mp h
        exact hne b hb he.symm
  refine ⟨hadded, hremoved, hchanged, ?_⟩
  have hna : ((diff nameA nameB differs le olds news).added.map nameB).Nodup :=
    hn.sublist ((sublist_added _ _).map _)
  have hnr : ((diff nameA nameB differs le olds news).removed.map nameA).Nodup := by
    rw [diff, hr]
    refine nodup_values fun k a hk => ?_
    rw [hm'] at hk
    split at hk
    · cases hk
    · exact ((hlook k a).mp hk).2
  have hnc : ((diff nameA nameB differs le olds news).changed.map fun e => nameB e.2).Nodup := by
    have hs : ((diff nameA nameB differs le olds news).changed.map fun e => e.2).Sublist news :=
      sublist_changed _ _
    have h := hn.sublist (hs.map nameB)
    rwa [List.map_map] at h
  rw [List.nodup_append, List.nodup_append]
  refine ⟨⟨hna, hnr, ?_⟩, hnc, ?_⟩
  · rintro _ hx _ hy rfl
    obtain ⟨b, hb, rfl⟩ := List.mem_map.mp hx
    obtain ⟨a, ha, he⟩ := List.mem_map.mp hy
    exact ((hadded b).mp hb).2 a ((hremoved a).mp ha).1 he
  · rintro _ hx _ hy rfl
    obtain ⟨⟨a, b⟩, hab, rfl⟩ := List.mem_map.mp hy
    obtain ⟨ha, hb, he, _⟩ := (hchanged a b).mp hab
    rcases List.mem_append.mp hx with hx | hx
    · obtain ⟨b', hb', he'⟩ := List.mem_map.mp hx
      exact ((hadded b').mp hb').2 a ha (he.trans he'.symm)
    · obtain ⟨a', ha', he'⟩ := List.mem_map.mp hx
      exact ((hremoved a').mp ha').2 b hb he'

/-- Nothing is reported exactly if the two lists say the same. -/
theorem Classifies.empty_iff (h : Classifies nameA nameB differs olds news r) :
    (r.added = [] ∧ r.removed = [] ∧ r.changed = []) ↔ Same nameA nameB differs olds news := by
  simp only [List.eq_nil_iff_forall_not_mem, Prod.forall, h.added, h.removed, h.changed]
  constructor
  · rintro ⟨ha, hr, hc⟩
    refine ⟨fun k => ⟨fun hk => ?_, fun hk => ?_⟩, fun a hao b hbn he => ?_⟩
    · obtain ⟨a, hao, rfl⟩ := List.mem_map.mp hk
      by_contra hnot
      exact hr a ⟨hao, fun b hb he => hnot (List.mem_map.mpr ⟨b, hb, he.symm⟩)⟩
    · obtain ⟨b, hbn, rfl⟩ := List.mem_map.mp hk
      by_contra hnot
      exact ha b ⟨hbn, fun a hao he => hnot (List.mem_map.mpr ⟨a, hao, he⟩)⟩
    · rw [← Bool.not_eq_true]
      exact fun hd => hc a b ⟨hao, hbn, he, hd⟩
  · rintro ⟨hk, hd⟩
    refine ⟨?_, ?_, ?_⟩
    · rintro b ⟨hb, hne⟩
      obtain ⟨a, ha, he⟩ := List.mem_map.mp ((hk (nameB b)).mpr (List.mem_map.mpr ⟨b, hb, rfl⟩))
      exact hne a ha he
    · rintro a ⟨ha, hne⟩
      obtain ⟨b, hb, he⟩ := List.mem_map.mp ((hk (nameA a)).mp (List.mem_map.mpr ⟨a, ha, rfl⟩))
      exact hne b hb he.symm
    · rintro a b ⟨ha, hb, he, hab⟩
      rw [hd a ha b hb he] at hab
      cases hab

end

end Diff
