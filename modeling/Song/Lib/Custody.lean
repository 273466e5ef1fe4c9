import Mathlib.Logic.Function.Basic
import Song.Lib.Run

/-!
# Tickets and their holders

Tickets are issued in order, one to a place, and move from place to place; a place
that holds a ticket may use it, and gives it up with one last use (`dispose`). The
log says when a ticket was used and when it ended. A ticket also ends when it
lapses, which its holder does not notice. Without a lapse no ticket is used after its
end (`quiet_of_follow`); when no ticket is held any more, only a run without a
lapse has such a log (`quiet_iff`).
-/

namespace Custody

inductive Entry where
  | used (ticket : Nat)
  | ended (ticket : Nat)
  deriving DecidableEq

structure State (ι : Type) where
  holder : ι → Option Nat
  issued : Nat
  log : List Entry

inductive Act (ι : Type) where
  | acquire (i : ι)
  | use (i : ι)
  | transfer (i j : ι)
  /-- A last use, after which the ticket ends or has ended. -/
  | dispose (i : ι) (ends : Bool)
  | lapse (i : ι)

variable {ι : Type}

def Act.Lapses : Act ι → Prop
  | .lapse _ => True
  | .acquire _ | .use _ | .transfer _ _ | .dispose _ _ => False

instance : DecidablePred (@Act.Lapses ι)
  | .lapse _ => .isTrue trivial
  | .acquire _ | .use _ | .transfer _ _ | .dispose _ _ => .isFalse id

/-- No ticket is used after its end. -/
def Quiet (log : List Entry) : Prop :=
  log.Pairwise fun a b => ∀ n, a = .ended n → b ≠ .used n

theorem quiet_append {log log' : List Entry} :
    Quiet (log ++ log') ↔
      Quiet log ∧ Quiet log' ∧ ∀ n, Entry.ended n ∈ log → Entry.used n ∉ log' := by
  unfold Quiet
  rw [List.pairwise_append]
  constructor
  · rintro ⟨h, h', hx⟩
    exact ⟨h, h', fun n hn hu => hx _ hn _ hu n rfl rfl⟩
  · rintro ⟨h, h', hx⟩
    refine ⟨h, h', ?_⟩
    rintro _ ha _ hb n rfl rfl
    exact hx n ha hb

theorem quiet_nil : Quiet [] := List.Pairwise.nil

theorem not_quiet_cons {n : Nat} {log : List Entry} (h : Entry.used n ∈ log) :
    ¬ Quiet (.ended n :: log) :=
  fun hq => (List.pairwise_cons.mp hq).1 _ h n rfl rfl

section

variable [DecidableEq ι]

def step (s : State ι) : Act ι → Option (State ι)
  | .acquire i =>
    match s.holder i with
    | none => some { s with
        holder := Function.update s.holder i (some s.issued), issued := s.issued + 1 }
    | some _ => none
  | .use i =>
    match s.holder i with
    | none => none
    | some n => some { s with log := s.log ++ [.used n] }
  | .transfer i j =>
    match s.holder i, s.holder j with
    | some n, none => some { s with
        holder := Function.update (Function.update s.holder i none) j (some n) }
    | _, _ => none
  | .dispose i ends =>
    match s.holder i with
    | none => none
    | some n => some { s with
        holder := Function.update s.holder i none
        log := s.log ++ .used n :: if ends then [.ended n] else [] }
  | .lapse i =>
    match s.holder i with
    | none => none
    | some n => some { s with log := s.log ++ [.ended n] }

/-- Every ticket has one place, and was issued. -/
structure Sound (s : State ι) : Prop where
  issued : ∀ i n, s.holder i = some n → n < s.issued
  unique : ∀ i j n, s.holder i = some n → s.holder j = some n → i = j
  ended : ∀ n, Entry.ended n ∈ s.log → n < s.issued

/-- All that a step can do. -/
theorem step_cases {s s' : State ι} {a : Act ι} (h : step s a = some s') :
    (∃ i, a = .acquire i ∧ s.holder i = none ∧ s' = { s with
      holder := Function.update s.holder i (some s.issued), issued := s.issued + 1 }) ∨
    (∃ i n, a = .use i ∧ s.holder i = some n ∧ s' = { s with log := s.log ++ [.used n] }) ∨
    (∃ i j n, a = .transfer i j ∧ s.holder i = some n ∧ s.holder j = none ∧ s' = { s with
      holder := Function.update (Function.update s.holder i none) j (some n) }) ∨
    (∃ i n ends, a = .dispose i ends ∧ s.holder i = some n ∧ s' = { s with
      holder := Function.update s.holder i none
      log := s.log ++ .used n :: if ends then [.ended n] else [] }) ∨
    (∃ i n, a = .lapse i ∧ s.holder i = some n ∧ s' = { s with log := s.log ++ [.ended n] }) := by
  cases a with
  | acquire i =>
    simp only [step] at h
    split at h
    · next hi => cases h; exact .inl ⟨i, rfl, hi, rfl⟩
    · cases h
  | use i =>
    simp only [step] at h
    split at h
    · cases h
    · next n hi => cases h; exact .inr (.inl ⟨i, n, rfl, hi, rfl⟩)
  | transfer i j =>
    simp only [step] at h
    split at h
    · next n hi hj => cases h; exact .inr (.inr (.inl ⟨i, j, n, rfl, hi, hj, rfl⟩))
    · cases h
  | dispose i ends =>
    simp only [step] at h
    split at h
    · cases h
    · next n hi => cases h; exact .inr (.inr (.inr (.inl ⟨i, n, ends, rfl, hi, rfl⟩)))
  | lapse i =>
    simp only [step] at h
    split at h
    · cases h
    · next n hi => cases h; exact .inr (.inr (.inr (.inr ⟨i, n, rfl, hi, rfl⟩)))

theorem holder_update {holder : ι → Option Nat} {i k : ι} {v : Option Nat} {m : Nat}
    (h : Function.update holder i v k = some m) :
    (k = i ∧ v = some m) ∨ (k ≠ i ∧ holder k = some m) := by
  by_cases hk : k = i
  · rw [hk, Function.update_self] at h
    exact .inl ⟨hk, h⟩
  · rw [Function.update_of_ne hk] at h
    exact .inr ⟨hk, h⟩

/-- A ticket has moved from `i` to `j`, or is still where it was. -/
theorem holder_transfer {holder : ι → Option Nat} {i j k : ι} {n m : Nat}
    (h : Function.update (Function.update holder i none) j (some n) k = some m) :
    (k = j ∧ n = m) ∨ (k ≠ i ∧ holder k = some m) := by
  rcases holder_update h with ⟨hk, hm⟩ | ⟨-, hk⟩
  · exact .inl ⟨hk, Option.some.inj hm⟩
  · rcases holder_update hk with ⟨-, hm⟩ | hk
    · cases hm
    · exact .inr hk

theorem holder_dispose {holder : ι → Option Nat} {i k : ι} {m : Nat}
    (h : Function.update holder i none k = some m) : k ≠ i ∧ holder k = some m := by
  rcases holder_update h with ⟨-, hm⟩ | hk
  · cases hm
  · exact hk

namespace Sound

variable {s s' : State ι}

omit [DecidableEq ι] in
/-- The log grows by uses, and by ends of issued tickets. -/
theorem grow (h : Sound s) {log : List Entry}
    (hlog : ∀ n, Entry.ended n ∈ log → n < s.issued) : Sound { s with log := s.log ++ log } := by
  refine ⟨h.issued, h.unique, fun m hm => ?_⟩
  rcases List.mem_append.mp hm with hm | hm
  · exact h.ended m hm
  · exact hlog m hm

theorem acquire (h : Sound s) (i : ι) : Sound { s with
    holder := Function.update s.holder i (some s.issued), issued := s.issued + 1 } := by
  refine ⟨fun k m hk => ?_, fun k l m hk hl => ?_, fun m hm => Nat.lt_succ_of_lt (h.ended m hm)⟩
  · rcases holder_update hk with ⟨-, hm⟩ | ⟨-, hk⟩
    · cases hm
      exact Nat.lt_succ_self _
    · exact Nat.lt_succ_of_lt (h.issued k m hk)
  · rcases holder_update hk with ⟨rfl, hm⟩ | ⟨-, hk⟩
    · cases hm
      rcases holder_update hl with ⟨rfl, -⟩ | ⟨-, hl⟩
      · rfl
      · exact absurd (h.issued l _ hl) (Nat.lt_irrefl _)
    · rcases holder_update hl with ⟨-, hm⟩ | ⟨-, hl⟩
      · cases hm
        exact absurd (h.issued k _ hk) (Nat.lt_irrefl _)
      · exact h.unique k l m hk hl

theorem transfer (h : Sound s) {i : ι} (j : ι) {n : Nat} (hi : s.holder i = some n) :
    Sound { s with
      holder := Function.update (Function.update s.holder i none) j (some n) } := by
  refine ⟨fun k m hk => ?_, fun k l m hk hl => ?_, h.ended⟩
  · rcases holder_transfer hk with ⟨-, rfl⟩ | ⟨-, hk⟩
    · exact h.issued i n hi
    · exact h.issued k m hk
  · rcases holder_transfer hk with ⟨rfl, rfl⟩ | ⟨hki, hk⟩
    · rcases holder_transfer hl with ⟨rfl, -⟩ | ⟨hli, hl⟩
      · rfl
      · exact absurd (h.unique l i n hl hi) hli
    · rcases holder_transfer hl with ⟨-, rfl⟩ | ⟨-, hl⟩
      · exact absurd (h.unique k i n hk hi) hki
      · exact h.unique k l m hk hl

theorem dispose (h : Sound s) (i : ι) :
    Sound { s with holder := Function.update s.holder i none } :=
  ⟨fun k m hk => h.issued k m (holder_dispose hk).2,
    fun k l m hk hl => h.unique k l m (holder_dispose hk).2 (holder_dispose hl).2, h.ended⟩

theorem step {a : Act ι} (h : Sound s) (hstep : step s a = some s') : Sound s' := by
  rcases step_cases hstep with ⟨i, -, -, rfl⟩ | ⟨i, n, -, -, rfl⟩ |
    ⟨i, j, n, -, hi, -, rfl⟩ | ⟨i, n, ends, -, hi, rfl⟩ | ⟨i, n, -, hi, rfl⟩
  · exact h.acquire i
  · exact h.grow fun m hm => (by cases List.mem_singleton.mp hm)
  · exact h.transfer j hi
  · refine (h.dispose i).grow fun m hm => ?_
    rcases List.mem_cons.mp hm with hm | hm
    · cases hm
    · cases ends with
      | true =>
        cases List.mem_singleton.mp hm
        exact h.issued i n hi
      | false => cases hm
  · refine h.grow fun m hm => ?_
    cases List.mem_singleton.mp hm
    exact h.issued i n hi

end Sound

/-- No ticket has been used after its end, and none that is held has ended. -/
def Fresh (s : State ι) : Prop :=
  Quiet s.log ∧ ∀ i n, s.holder i = some n → Entry.ended n ∉ s.log

/-- A ticket has been used after its end, or is held though it has ended. -/
def Stale (s : State ι) : Prop :=
  ¬ Quiet s.log ∨ ∃ i n, s.holder i = some n ∧ Entry.ended n ∈ s.log

theorem quiet_use {log : List Entry} {n : Nat} :
    Quiet (log ++ [.used n]) ↔ Quiet log ∧ Entry.ended n ∉ log := by
  rw [quiet_append]
  constructor
  · rintro ⟨h, -, hx⟩
    exact ⟨h, fun hn => hx n hn List.mem_cons_self⟩
  · rintro ⟨h, hn⟩
    refine ⟨h, List.pairwise_singleton _ _, fun m hm hu => ?_⟩
    cases List.mem_singleton.mp hu
    exact hn hm

theorem quiet_end {log : List Entry} {n : Nat} : Quiet (log ++ [.ended n]) ↔ Quiet log := by
  rw [quiet_append]
  refine ⟨fun h => h.1, fun h => ⟨h, List.pairwise_singleton _ _, fun m _ hu => ?_⟩⟩
  cases List.mem_singleton.mp hu

theorem quiet_dispose {log : List Entry} {n : Nat} {ends : Bool} :
    Quiet (log ++ .used n :: if ends then [.ended n] else []) ↔
      Quiet log ∧ Entry.ended n ∉ log := by
  rw [List.append_cons]
  cases ends with
  | true => exact quiet_end.trans quiet_use
  | false =>
    rw [if_neg Bool.false_ne_true, List.append_nil]
    exact quiet_use

theorem ended_mem_dispose {log : List Entry} {n m : Nat} {ends : Bool}
    (h : Entry.ended m ∈ log ++ .used n :: if ends then [.ended n] else []) :
    Entry.ended m ∈ log ∨ m = n := by
  rcases List.mem_append.mp h with h | h
  · exact .inl h
  · rcases List.mem_cons.mp h with h | h
    · cases h
    · cases ends with
      | true =>
        cases List.mem_singleton.mp h
        exact .inr rfl
      | false => cases h

theorem Fresh.step {s s' : State ι} {a : Act ι} (h : Fresh s) (hs : Sound s) (ha : ¬ a.Lapses)
    (hstep : step s a = some s') : Fresh s' := by
  obtain ⟨hq, hh⟩ := h
  rcases step_cases hstep with ⟨i, -, -, rfl⟩ | ⟨i, n, -, hi, rfl⟩ |
    ⟨i, j, n, -, hi, -, rfl⟩ | ⟨i, n, ends, -, hi, rfl⟩ | ⟨i, n, rfl, -, rfl⟩
  · refine ⟨hq, fun k m hk hm => ?_⟩
    rcases holder_update hk with ⟨-, he⟩ | ⟨-, hk⟩
    · cases he
      exact absurd (hs.ended _ hm) (Nat.lt_irrefl _)
    · exact hh k m hk hm
  · refine ⟨quiet_use.mpr ⟨hq, hh i n hi⟩, fun k m hk hm => ?_⟩
    rcases List.mem_append.mp hm with hm | hm
    · exact hh k m hk hm
    · cases List.mem_singleton.mp hm
  · refine ⟨hq, fun k m hk => ?_⟩
    rcases holder_transfer hk with ⟨-, rfl⟩ | ⟨-, hk⟩
    · exact hh i n hi
    · exact hh k m hk
  · refine ⟨quiet_dispose.mpr ⟨hq, hh i n hi⟩, fun k m hk hm => ?_⟩
    obtain ⟨hki, hold⟩ := holder_dispose hk
    rcases ended_mem_dispose hm with hm | rfl
    · exact hh k m hold hm
    · exact hki (hs.unique k i m hold hi)
  · exact absurd trivial ha

theorem Stale.step {s s' : State ι} {a : Act ι} (h : Stale s) (hstep : step s a = some s') :
    Stale s' := by
  rcases h with h | ⟨k, m, hk, hm⟩
  · refine .inl fun hq => h ?_
    rcases step_cases hstep with ⟨i, -, -, rfl⟩ | ⟨i, n, -, -, rfl⟩ |
      ⟨i, j, n, -, -, -, rfl⟩ | ⟨i, n, ends, -, -, rfl⟩ | ⟨i, n, -, -, rfl⟩
    · exact hq
    · exact (quiet_use.mp hq).1
    · exact hq
    · exact (quiet_dispose.mp hq).1
    · exact quiet_end.mp hq
  · rcases step_cases hstep with ⟨i, -, hi, rfl⟩ | ⟨i, n, -, -, rfl⟩ |
      ⟨i, j, n, -, hi, hj, rfl⟩ | ⟨i, n, ends, -, hi, rfl⟩ | ⟨i, n, -, -, rfl⟩
    · refine .inr ⟨k, m, ?_, hm⟩
      have hki : k ≠ i := fun he => by rw [he, hi] at hk; cases hk
      exact (Function.update_of_ne hki _ _).trans hk
    · exact .inr ⟨k, m, hk, List.mem_append_left _ hm⟩
    · by_cases hki : k = i
      · rw [hki, hi] at hk
        cases hk
        exact .inr ⟨j, m, Function.update_self .., hm⟩
      · have hkj : k ≠ j := fun he => by rw [he, hj] at hk; cases hk
        exact .inr ⟨k, m, (Function.update_of_ne hkj _ _).trans
          ((Function.update_of_ne hki _ _).trans hk), hm⟩
    · by_cases hki : k = i
      · rw [hki, hi] at hk
        cases hk
        exact .inl fun hq => (quiet_dispose.mp hq).2 hm
      · exact .inr ⟨k, m, (Function.update_of_ne hki _ _).trans hk, List.mem_append_left _ hm⟩
    · exact .inr ⟨k, m, hk, List.mem_append_left _ hm⟩

/-! ## Runs -/

def init : State ι := ⟨fun _ => none, 0, []⟩

omit [DecidableEq ι] in
theorem sound_init : Sound (init : State ι) :=
  ⟨fun _ _ h => (by cases h), fun _ _ _ h => (by cases h), fun _ h => (by cases h)⟩

theorem fresh_of_follow {s s' : State ι} {as : List (Act ι)} (h : Fresh s) (hs : Sound s)
    (has : ∀ a ∈ as, ¬ a.Lapses) (hf : Lts.follow step s as = some s') : Fresh s' := by
  induction as generalizing s with
  | nil =>
    cases hf
    exact h
  | cons a as ih =>
    obtain ⟨u, hu, hf⟩ := Lts.follow_cons hf
    obtain ⟨ha, has⟩ := List.forall_mem_cons.mp has
    exact ih (h.step hs ha hu) (hs.step hu) has hf

theorem stale_of_follow {s s' : State ι} {as : List (Act ι)}
    (h : Stale s ∨ ∃ a ∈ as, a.Lapses) (hf : Lts.follow step s as = some s') : Stale s' := by
  induction as generalizing s with
  | nil =>
    cases hf
    exact h.resolve_right fun ⟨a, ha, _⟩ => by cases ha
  | cons a as ih =>
    obtain ⟨u, hu, hf⟩ := Lts.follow_cons hf
    refine ih ?_ hf
    rcases h with h | ⟨b, hb, hl⟩
    · exact .inl (h.step hu)
    · rcases List.mem_cons.mp hb with rfl | hb
      · cases b with
        | lapse i =>
          simp only [step] at hu
          split at hu
          · cases hu
          · next n hi =>
            cases hu
            exact .inl (.inr ⟨i, n, hi, List.mem_append_right _ List.mem_cons_self⟩)
        | acquire i => exact absurd hl id
        | use i => exact absurd hl id
        | transfer i j => exact absurd hl id
        | dispose i ends => exact absurd hl id
      · exact .inr ⟨b, hb, hl⟩

theorem quiet_of_follow {s : State ι} {as : List (Act ι)} (has : ∀ a ∈ as, ¬ a.Lapses)
    (hf : Lts.follow step init as = some s) : Quiet s.log :=
  (fresh_of_follow ⟨quiet_nil, fun _ _ h => (by cases h)⟩ sound_init has hf).1

/-- When no ticket is held any more. -/
theorem quiet_iff {s : State ι} {as : List (Act ι)} (hf : Lts.follow step init as = some s)
    (hnone : ∀ i, s.holder i = none) : Quiet s.log ↔ ∀ a ∈ as, ¬ a.Lapses := by
  refine ⟨fun hq a ha hl => ?_, fun has => quiet_of_follow has hf⟩
  rcases stale_of_follow (.inr ⟨a, ha, hl⟩) hf with h | ⟨i, n, hi, -⟩
  · exact h hq
  · rw [hnone i] at hi
    cases hi

end

end Custody
