import Mathlib.Data.List.Basic
import Mathlib.Algebra.BigOperators.Group.List.Basic

/-!
# Reading from a stream that pauses

A stream comes in pieces with pauses between them. Who reads it gives up when a pause lasts as long
as his patience, and finds the rest of the pause there when he tries again. Reading `len` items
succeeds exactly when no such pause comes before the last of them (`readUpTo_whole`,
`readUpTo_late`). What was read before a pause is not put back.
-/

namespace Patience

variable {α : Type}

inductive Arrival (α : Type) where
  | interrupted
  | pause (ms : Nat)
  | piece (first : α) (more : List α)

def data : List (Arrival α) → List α
  | [] => []
  | .interrupted :: feed => data feed
  | .pause _ :: feed => data feed
  | .piece a as :: feed => a :: as ++ data feed

/-- How long the pauses are together. -/
def delay : List (Arrival α) → Nat
  | [] => 0
  | .interrupted :: feed => delay feed
  | .pause ms :: feed => ms + delay feed
  | .piece _ _ :: feed => delay feed

/-- How reading ends. -/
inductive End where
  | enough
  | late
  | ended
  deriving DecidableEq

/-- Who waits for ever has no patience to lose. -/
def Late (patience : Option Nat) (ms : Nat) : Prop := ∃ t ∈ patience, t ≤ ms

instance (patience : Option Nat) (ms : Nat) : Decidable (Late patience ms) :=
  inferInstanceAs (Decidable (∃ t ∈ patience, t ≤ ms))

/-- Calls until `len` items are there, a pause is too long or the stream ends. -/
def readUpTo (patience : Option Nat) : Nat → List (Arrival α) → List α × List (Arrival α) × End
  | 0, feed => ([], feed, .enough)
  | _ + 1, [] => ([], [], .ended)
  | len + 1, .interrupted :: feed => readUpTo patience (len + 1) feed
  | len + 1, .pause ms :: feed =>
    if Late patience ms then ([], .pause (ms - patience.getD 0) :: feed, .late)
    else readUpTo patience (len + 1) feed
  | len + 1, .piece a as :: feed =>
    match as.drop len with
    | [] =>
      let rest := readUpTo patience (len - as.length) feed
      (a :: as ++ rest.1, rest.2)
    | b :: bs => ((a :: as).take (len + 1), .piece b bs :: feed, .enough)

/-- A pause that is too long comes behind the first `n` items. -/
def LateAt (patience : Option Nat) (feed : List (Arrival α)) (n : Nat) : Prop :=
  ∃ feed₁ ms feed₂, feed = feed₁ ++ .pause ms :: feed₂ ∧ Late patience ms ∧
    (data feed₁).length = n

section
variable {patience : Option Nat} {feed : List (Arrival α)} {len n : Nat}

@[simp] theorem readUpTo_zero : readUpTo patience 0 feed = ([], feed, .enough) := by
  cases feed <;> rfl

/-- Nothing is lost but what was read. -/
theorem readUpTo_append (patience : Option Nat) (len : Nat) (feed : List (Arrival α)) :
    (readUpTo patience len feed).1 ++ data (readUpTo patience len feed).2.1 = data feed := by
  fun_induction readUpTo patience len feed with
  | case1 feed => rfl
  | case2 => rfl
  | case3 len feed ih => exact ih
  | case4 len ms feed h => rfl
  | case5 len ms feed h ih => exact ih
  | case6 len a as feed hd rest ih => simp only [rest, data, List.append_assoc, ih]
  | case7 len a as feed b bs hd =>
    simp only [data, ← hd, List.take_succ_cons, List.cons_append]
    rw [← List.append_assoc, List.take_append_drop]

theorem length_readUpTo (patience : Option Nat) (len : Nat) (feed : List (Arrival α)) :
    (readUpTo patience len feed).1.length + (data (readUpTo patience len feed).2.1).length =
      (data feed).length := by
  rw [← readUpTo_append patience len feed, List.length_append]

theorem length_of_enough (h : (readUpTo patience len feed).2.2 = .enough) :
    (readUpTo patience len feed).1.length = len := by
  fun_induction readUpTo patience len feed with
  | case1 feed => rfl
  | case2 => cases h
  | case3 len feed ih => exact ih h
  | case4 len ms feed hlate => cases h
  | case5 len ms feed hlate ih => exact ih h
  | case6 len a as feed hd rest ih =>
    have hle : as.length ≤ len := List.drop_eq_nil_iff.mp hd
    have hrest : rest.1.length = len - as.length := ih h
    rw [List.length_append, List.length_cons, hrest]
    omega
  | case7 len a as feed b bs hd =>
    have hcount := congrArg List.length hd
    rw [List.length_drop, List.length_cons] at hcount
    rw [List.length_take, List.length_cons]
    omega

/-! ## Where a pause is too long -/

theorem lateAt_nil : ¬ LateAt patience ([] : List (Arrival α)) n := by
  rintro ⟨feed₁, ms, feed₂, h, -, -⟩
  cases feed₁ <;> cases h

theorem lateAt_interrupted :
    LateAt patience (.interrupted :: feed) n ↔ LateAt patience feed n := by
  constructor
  · rintro ⟨feed₁, ms, feed₂, h, hlate, hn⟩
    cases feed₁ with
    | nil => cases h
    | cons x feed₁ =>
      injection h with hx hfeed
      subst hx
      exact ⟨feed₁, ms, feed₂, hfeed, hlate, hn⟩
  · rintro ⟨feed₁, ms, feed₂, rfl, hlate, hn⟩
    exact ⟨.interrupted :: feed₁, ms, feed₂, rfl, hlate, hn⟩

theorem lateAt_pause {ms : Nat} : LateAt patience (.pause ms :: feed) n ↔
    (Late patience ms ∧ n = 0) ∨ LateAt patience feed n := by
  constructor
  · rintro ⟨feed₁, ms', feed₂, h, hlate, hn⟩
    cases feed₁ with
    | nil =>
      cases h
      exact .inl ⟨hlate, hn.symm⟩
    | cons x feed₁ =>
      injection h with hx hfeed
      subst hx
      exact .inr ⟨feed₁, ms', feed₂, hfeed, hlate, hn⟩
  · rintro (⟨hlate, rfl⟩ | ⟨feed₁, ms', feed₂, rfl, hlate, hn⟩)
    · exact ⟨[], ms, feed, rfl, hlate, rfl⟩
    · exact ⟨.pause ms :: feed₁, ms', feed₂, rfl, hlate, hn⟩

theorem lateAt_piece {a : α} {as : List α} : LateAt patience (.piece a as :: feed) n ↔
    as.length + 1 ≤ n ∧ LateAt patience feed (n - (as.length + 1)) := by
  constructor
  · rintro ⟨feed₁, ms, feed₂, h, hlate, rfl⟩
    cases feed₁ with
    | nil => cases h
    | cons x feed₁ =>
      injection h with hx hfeed
      subst hx
      have hlen : (data (.piece a as :: feed₁)).length = as.length + 1 + (data feed₁).length := by
        simp only [data, List.length_append, List.length_cons]
      exact ⟨by omega, feed₁, ms, feed₂, hfeed, hlate, by omega⟩
  · rintro ⟨hle, feed₁, ms, feed₂, rfl, hlate, hn⟩
    refine ⟨.piece a as :: feed₁, ms, feed₂, rfl, hlate, ?_⟩
    simp only [data, List.length_append, List.length_cons, hn]
    omega

theorem LateAt.le (h : LateAt patience feed n) : n ≤ (data feed).length := by
  obtain ⟨feed₁, ms, feed₂, rfl, -, rfl⟩ := h
  induction feed₁ with
  | nil => exact Nat.zero_le _
  | cons x feed₁ ih =>
    cases x with
    | interrupted => exact ih
    | pause _ => exact ih
    | piece a as =>
      simp only [List.cons_append, data, List.length_cons, List.length_append] at ih ⊢
      omega

/-- There is a first such pause. -/
theorem LateAt.first (h : LateAt patience feed n) :
    ∃ m ≤ n, LateAt patience feed m ∧ ∀ k < m, ¬ LateAt patience feed k := by
  induction n using Nat.strongRecOn with
  | _ n ih =>
    by_cases hbefore : ∃ k < n, LateAt patience feed k
    · obtain ⟨k, hk, hl⟩ := hbefore
      obtain ⟨m, hm, hfirst⟩ := ih k hk hl
      exact ⟨m, by omega, hfirst⟩
    · exact ⟨n, Nat.le_refl n, h, fun k hk hl => hbefore ⟨k, hk, hl⟩⟩

/-! ## Reading -/

/-- Without a pause that is too long, all is read, and behind it the pauses are those there. -/
theorem readUpTo_whole (hlen : len ≤ (data feed).length)
    (h : ∀ n < len, ¬ LateAt patience feed n) :
    ∃ feed', readUpTo patience len feed = ((data feed).take len, feed', .enough) ∧
      data feed' = (data feed).drop len ∧
      ∀ n, LateAt patience feed' n ↔ LateAt patience feed (len + n) := by
  fun_induction readUpTo patience len feed with
  | case1 feed =>
    refine ⟨feed, rfl, rfl, fun n => ?_⟩
    rw [Nat.zero_add]
  | case2 => cases hlen
  | case3 len feed ih =>
    obtain ⟨feed', hrun, hdata, hpauses⟩ :=
      ih hlen fun n hn hl => h n hn (lateAt_interrupted.mpr hl)
    exact ⟨feed', hrun, hdata, fun n => (hpauses n).trans lateAt_interrupted.symm⟩
  | case4 len ms feed hlate => exact absurd (lateAt_pause.mpr (.inl ⟨hlate, rfl⟩)) (h 0 (by omega))
  | case5 len ms feed hlate ih =>
    obtain ⟨feed', hrun, hdata, hpauses⟩ :=
      ih hlen fun n hn hl => h n hn (lateAt_pause.mpr (.inr hl))
    refine ⟨feed', hrun, hdata, fun n => (hpauses n).trans ?_⟩
    rw [lateAt_pause]
    exact ⟨.inr, fun hl => hl.resolve_left fun hl => hlate hl.1⟩
  | case6 len a as feed hd rest ih =>
    have hle : as.length ≤ len := List.drop_eq_nil_iff.mp hd
    simp only [data, List.length_append, List.length_cons] at hlen
    obtain ⟨feed', hrun, hdata, hpauses⟩ := ih (by omega) fun n hn hl =>
      h (n + (as.length + 1)) (by omega)
        (lateAt_piece.mpr ⟨by omega, by rwa [Nat.add_sub_cancel]⟩)
    refine ⟨feed', ?_, ?_, fun n => (hpauses n).trans ?_⟩
    · simp only [rest, hrun, data, List.cons_append, List.take_succ_cons]
      rw [List.take_append, List.take_of_length_le hle]
    · simp only [hdata, data, List.cons_append, List.drop_succ_cons]
      rw [List.drop_append, hd, List.nil_append]
    · rw [lateAt_piece, show len + 1 + n - (as.length + 1) = len - as.length + n by omega]
      exact ⟨fun hl => ⟨by omega, hl⟩, fun hl => hl.2⟩
  | case7 len a as feed b bs hd =>
    have hlt : as.length = len + (bs.length + 1) := by
      have hcount := congrArg List.length hd
      rw [List.length_drop, List.length_cons] at hcount
      omega
    refine ⟨.piece b bs :: feed, ?_, ?_, fun n => ?_⟩
    · simp only [data, List.cons_append, List.take_succ_cons]
      rw [List.take_append_of_le_length (by omega)]
    · simp only [data, List.cons_append, List.drop_succ_cons]
      rw [List.drop_append_of_le_length (by omega), hd, List.cons_append]
    · rw [lateAt_piece, lateAt_piece,
        show len + 1 + n - (as.length + 1) = n - (bs.length + 1) by omega]
      exact ⟨fun hl => ⟨by omega, hl.2⟩, fun hl => ⟨by omega, hl.2⟩⟩

/-- A pause that is too long ends the reading. -/
theorem readUpTo_late (hn : n < len) (h : LateAt patience feed n)
    (hfirst : ∀ m < n, ¬ LateAt patience feed m) :
    ∃ feed', readUpTo patience len feed = ((data feed).take n, feed', .late) ∧
      data feed' = (data feed).drop n := by
  fun_induction readUpTo patience len feed generalizing n with
  | case1 feed => exact absurd hn (Nat.not_lt_zero n)
  | case2 => exact absurd h lateAt_nil
  | case3 len feed ih =>
    exact ih hn (lateAt_interrupted.mp h) fun m hm hl => hfirst m hm (lateAt_interrupted.mpr hl)
  | case4 len ms feed hlate =>
    cases n with
    | zero => exact ⟨_, rfl, rfl⟩
    | succ n => exact absurd (lateAt_pause.mpr (.inl ⟨hlate, rfl⟩)) (hfirst 0 (by omega))
  | case5 len ms feed hlate ih =>
    refine ih hn ((lateAt_pause.mp h).resolve_left fun hl => hlate hl.1) fun m hm hl => ?_
    exact hfirst m hm (lateAt_pause.mpr (.inr hl))
  | case6 len a as feed hd rest =>
    rename_i ih
    obtain ⟨hle, hl⟩ := lateAt_piece.mp h
    have hall : (a :: as).length ≤ n := hle
    obtain ⟨feed', hrun, hdata⟩ := ih (by omega) hl fun m hm hl' =>
      hfirst (m + (as.length + 1)) (by omega)
        (lateAt_piece.mpr ⟨by omega, by rwa [Nat.add_sub_cancel]⟩)
    refine ⟨feed', ?_, ?_⟩
    · simp only [rest, hrun, data]
      rw [List.take_append, List.take_of_length_le hall, List.length_cons]
    · simp only [hdata, data]
      rw [List.drop_append, List.drop_of_length_le hall, List.length_cons, List.nil_append]
  | case7 len a as feed b bs hd =>
    have hlt : as.length = len + (bs.length + 1) := by
      have hcount := congrArg List.length hd
      rw [List.length_drop, List.length_cons] at hcount
      omega
    have hle := (lateAt_piece.mp h).1
    omega

/-- If nothing was read before it, it is shorter then, and nothing else has changed. -/
theorem readUpTo_wait {t : Nat} (ht : 0 < t) (h : LateAt (some t) feed 0) :
    ∃ feed', readUpTo (some t) (len + 1) feed = ([], feed', .late) ∧ data feed' = data feed ∧
      delay feed' < delay feed ∧
      ∀ n, 0 < n → (LateAt (some t) feed' n ↔ LateAt (some t) feed n) := by
  induction feed with
  | nil => exact absurd h lateAt_nil
  | cons x feed ih =>
    cases x with
    | interrupted =>
      obtain ⟨feed', hrun, hdata, hdelay, hpauses⟩ := ih (lateAt_interrupted.mp h)
      exact ⟨feed', hrun, hdata, hdelay, fun n hn => (hpauses n hn).trans lateAt_interrupted.symm⟩
    | pause ms =>
      by_cases hlate : Late (some t) ms
      · refine ⟨.pause (ms - t) :: feed, ?_, rfl, ?_, fun n hn => ?_⟩
        · rw [readUpTo, if_pos hlate]
          rfl
        · obtain ⟨t', ht', hle⟩ := hlate
          cases ht'
          simp only [delay]
          omega
        · have hne : n ≠ 0 := by omega
          simp only [lateAt_pause, hne, and_false]
      · obtain ⟨feed', hrun, hdata, hdelay, hpauses⟩ :=
          ih ((lateAt_pause.mp h).resolve_left fun hl => hlate hl.1)
        refine ⟨feed', ?_, hdata, ?_, fun n hn => (hpauses n hn).trans ?_⟩
        · rw [readUpTo, if_neg hlate, hrun]
        · simp only [delay]
          omega
        · rw [lateAt_pause]
          exact ⟨.inr, fun hl => hl.resolve_left fun hl => hlate hl.1⟩
    | piece a as => exact absurd (lateAt_piece.mp h).1 (by omega)

end

end Patience
