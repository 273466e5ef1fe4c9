import Mathlib.Data.List.Basic

/-!
# Streams read and written piece by piece

A reader of a stream sees arrivals: a call of `read` is interrupted, or finds a
piece that is not empty. `data` forgets where the pieces end. `read` is a call,
made again while it is interrupted, and `readUpTo` calls until as many items are
there as were asked for or the stream ends; what it returns and what it leaves
depend on the data alone (`readUpTo_fst`, `data_readUpTo`), where `read` returns
less than was asked for when a piece ends first (`CutAt`).
-/

namespace Feed

variable {α : Type}

/-- What a call of `read` meets. -/
inductive Arrival (α : Type) where
  | interrupted
  | piece (first : α) (more : List α)

def data : List (Arrival α) → List α
  | [] => []
  | .interrupted :: feed => data feed
  | .piece a as :: feed => a :: as ++ data feed

/-- Leave the end of a piece to the next call. -/
def putBack : List α → List (Arrival α) → List (Arrival α)
  | [], feed => feed
  | a :: as, feed => .piece a as :: feed

/-- A call for `len` items, made again while interrupted; nothing is the end of the stream. -/
def read (len : Nat) : List (Arrival α) → List α × List (Arrival α)
  | [] => ([], [])
  | .interrupted :: feed => read len feed
  | .piece a as :: feed => ((a :: as).take len, putBack ((a :: as).drop len) feed)

/-- Calls until `len` items are there or the stream ends. -/
def readUpTo : Nat → List (Arrival α) → List α × List (Arrival α)
  | 0, feed => ([], feed)
  | _ + 1, [] => ([], [])
  | len + 1, .interrupted :: feed => readUpTo (len + 1) feed
  | len + 1, .piece a as :: feed =>
    match as.drop len with
    | [] => (a :: as ++ (readUpTo (len - as.length) feed).1, (readUpTo (len - as.length) feed).2)
    | b :: bs => ((a :: as).take (len + 1), .piece b bs :: feed)

@[simp] theorem readUpTo_zero (feed : List (Arrival α)) : readUpTo 0 feed = ([], feed) := by
  cases feed <;> rfl

@[simp] theorem data_putBack (xs : List α) (feed : List (Arrival α)) :
    data (putBack xs feed) = xs ++ data feed := by
  cases xs with
  | nil => rfl
  | cons a as => rfl

theorem data_append (feed feed' : List (Arrival α)) :
    data (feed ++ feed') = data feed ++ data feed' := by
  induction feed with
  | nil => rfl
  | cons x feed ih =>
    cases x with
    | interrupted => exact ih
    | piece a as => simp [data, ih]

/-! ## One call -/

theorem read_nil_iff {len : Nat} (hlen : 0 < len) (feed : List (Arrival α)) :
    (read len feed).1 = [] ↔ data feed = [] := by
  induction feed with
  | nil => exact Iff.rfl
  | cons a feed ih =>
    cases a with
    | interrupted => exact ih
    | piece a as =>
      obtain ⟨n, rfl⟩ : ∃ n, len = n + 1 := ⟨len - 1, by omega⟩
      simp only [read, data, List.take_succ_cons, List.cons_append, reduceCtorEq]

/-! ## Calls until enough is there -/

/-- The loop: a call, and the loop again unless the stream has ended. -/
theorem readUpTo_succ (len : Nat) (feed : List (Arrival α)) :
    readUpTo (len + 1) feed =
      if (read (len + 1) feed).1 = [] then ([], (read (len + 1) feed).2)
      else ((read (len + 1) feed).1 ++
          (readUpTo (len + 1 - (read (len + 1) feed).1.length) (read (len + 1) feed).2).1,
        (readUpTo (len + 1 - (read (len + 1) feed).1.length) (read (len + 1) feed).2).2) := by
  induction feed with
  | nil => rfl
  | cons a feed ih =>
    cases a with
    | interrupted => exact ih
    | piece a as =>
      simp only [readUpTo, read, List.take_succ_cons, List.drop_succ_cons, List.length_cons,
        List.length_take, reduceCtorEq, ↓reduceIte, List.cons_append]
      cases hd : as.drop len with
      | nil =>
        have hle : as.length ≤ len := List.drop_eq_nil_iff.mp hd
        simp only [putBack, List.take_of_length_le hle, Nat.min_eq_right hle]
        rw [show len + 1 - (as.length + 1) = len - as.length by omega]
      | cons b bs =>
        have hlt : len < as.length := by
          by_contra hle
          rw [List.drop_eq_nil_of_le (by omega)] at hd
          cases hd
        rw [show len + 1 - (min len as.length + 1) = 0 by omega]
        simp only [putBack, readUpTo, List.append_nil]

theorem readUpTo_append (len : Nat) (feed : List (Arrival α)) :
    (readUpTo len feed).1 ++ data (readUpTo len feed).2 = data feed := by
  induction feed generalizing len with
  | nil => cases len <;> rfl
  | cons a feed ih =>
    cases len with
    | zero => rfl
    | succ len =>
      cases a with
      | interrupted => exact ih _
      | piece a as =>
        simp only [readUpTo, data]
        cases hd : as.drop len with
        | nil => simp only [List.append_assoc, ih]
        | cons b bs =>
          simp only [data, ← hd, List.take_succ_cons, List.cons_append]
          rw [← List.append_assoc, List.take_append_drop]

theorem length_readUpTo (len : Nat) (feed : List (Arrival α)) :
    (readUpTo len feed).1.length = min len (data feed).length := by
  induction feed generalizing len with
  | nil => cases len <;> simp [readUpTo, data]
  | cons a feed ih =>
    cases len with
    | zero => simp [readUpTo]
    | succ len =>
      cases a with
      | interrupted => exact ih _
      | piece a as =>
        simp only [readUpTo, data]
        cases hd : as.drop len with
        | nil =>
          have hle : as.length ≤ len := List.drop_eq_nil_iff.mp hd
          simp only [List.length_append, List.length_cons, ih]
          omega
        | cons b bs =>
          have hlt : len < as.length := by
            by_contra hle
            rw [List.drop_eq_nil_of_le (by omega)] at hd
            cases hd
          simp only [List.length_take, List.length_append, List.length_cons]
          omega

/-- However the stream is cut, the items are its first `len`. -/
theorem readUpTo_fst (len : Nat) (feed : List (Arrival α)) :
    (readUpTo len feed).1 = (data feed).take len := by
  have happ := readUpTo_append len feed
  have hlen := length_readUpTo len feed
  rw [← happ]
  rcases Nat.le_total len (data feed).length with h | h
  · exact (List.take_left' (by omega)).symm
  · have hnil : data (readUpTo len feed).2 = [] := by
      have := congrArg List.length happ
      rw [List.length_append] at this
      exact List.length_eq_zero_iff.mp (by omega)
    rw [hnil, List.append_nil, List.take_of_length_le (by omega)]

/-- What is left is the rest of the stream. -/
theorem data_readUpTo (len : Nat) (feed : List (Arrival α)) :
    data (readUpTo len feed).2 = (data feed).drop len := by
  have happ := readUpTo_append len feed
  rw [readUpTo_fst] at happ
  exact List.append_cancel_left (happ.trans (List.take_append_drop len _).symm)

/-! ## Where a piece ends -/

/-- A piece ends after the first `n` items. -/
def CutAt (feed : List (Arrival α)) (n : Nat) : Prop :=
  ∃ feed₁ feed₂, feed = feed₁ ++ feed₂ ∧ (data feed₁).length = n

theorem cutAt_interrupted {feed : List (Arrival α)} {n : Nat} (hn : 0 < n) :
    CutAt (.interrupted :: feed) n ↔ CutAt feed n := by
  constructor
  · rintro ⟨feed₁, feed₂, h, rfl⟩
    cases feed₁ with
    | nil => simp [data] at hn
    | cons a feed₁ =>
      injection h with ha hf
      subst ha
      exact ⟨feed₁, feed₂, hf, rfl⟩
  · rintro ⟨feed₁, feed₂, rfl, rfl⟩
    exact ⟨.interrupted :: feed₁, feed₂, rfl, rfl⟩

theorem cutAt_piece {feed : List (Arrival α)} {a : α} {as : List α} {n : Nat} (hn : 0 < n) :
    CutAt (.piece a as :: feed) n ↔ as.length + 1 ≤ n ∧ CutAt feed (n - (as.length + 1)) := by
  constructor
  · rintro ⟨feed₁, feed₂, h, rfl⟩
    cases feed₁ with
    | nil => simp [data] at hn
    | cons x feed₁ =>
      injection h with hx hf
      subst hx
      have hlen : (data (.piece a as :: feed₁)).length = as.length + 1 + (data feed₁).length := by
        simp only [data, List.length_append, List.length_cons]
      exact ⟨by omega, feed₁, feed₂, hf, by omega⟩
  · rintro ⟨hle, feed₁, feed₂, rfl, h⟩
    refine ⟨.piece a as :: feed₁, feed₂, rfl, ?_⟩
    simp only [data, List.length_append, List.length_cons, h]
    omega

/-- A call returns as much as was asked for, when so much is there, exactly if no piece
ends in the middle of it. -/
theorem length_read_iff {len : Nat} {feed : List (Arrival α)} (h : len ≤ (data feed).length) :
    (read len feed).1.length = len ↔ ∀ n, 0 < n → n < len → ¬ CutAt feed n := by
  induction feed with
  | nil =>
    simp only [data, List.length_nil, Nat.le_zero] at h
    subst h
    exact ⟨fun _ n _ hn => absurd hn (Nat.not_lt_zero n), fun _ => rfl⟩
  | cons x feed ih =>
    cases x with
    | interrupted =>
      rw [show read len (.interrupted :: feed) = read len feed from rfl, ih h]
      refine forall_congr' fun n => forall_congr' fun hn => forall_congr' fun _ => ?_
      rw [cutAt_interrupted hn]
    | piece a as =>
      simp only [read, List.length_take, List.length_cons]
      constructor
      · intro hlen n hn hlt hc
        have := ((cutAt_piece hn).mp hc).1
        omega
      · intro hc
        by_contra hlt
        refine hc (as.length + 1) (by omega) (by omega) ((cutAt_piece (by omega)).mpr ⟨Nat.le_refl _, ?_⟩)
        exact ⟨[], feed, rfl, by simp [data]⟩

/-- After the first `len` items the later cuts are where they were. -/
theorem cutAt_readUpTo {len n : Nat} {feed : List (Arrival α)} (hlen : len ≤ (data feed).length)
    (hn : 0 < n) : CutAt (readUpTo len feed).2 n ↔ CutAt feed (len + n) := by
  induction feed generalizing len with
  | nil =>
    simp only [data, List.length_nil, Nat.le_zero] at hlen
    subst hlen
    rw [Nat.zero_add]
    rfl
  | cons x feed ih =>
    cases len with
    | zero =>
      rw [Nat.zero_add]
      rfl
    | succ len =>
      cases x with
      | interrupted =>
        rw [cutAt_interrupted (by omega), ← ih hlen]
        rfl
      | piece a as =>
        rw [cutAt_piece (by omega)]
        simp only [readUpTo]
        simp only [data, List.length_append, List.length_cons] at hlen
        cases hd : as.drop len with
        | nil =>
          have hle : as.length ≤ len := List.drop_eq_nil_iff.mp hd
          simp only
          rw [ih (by omega), show len + 1 + n - (as.length + 1) = len - as.length + n by omega]
          exact ⟨fun h => ⟨by omega, h⟩, fun h => h.2⟩
        | cons b bs =>
          have hbs : bs.length + 1 = as.length - len := by
            have := congrArg List.length hd
            rw [List.length_drop, List.length_cons] at this
            omega
          rw [cutAt_piece hn, show len + 1 + n - (as.length + 1) = n - (bs.length + 1) by omega]
          exact ⟨fun ⟨h, hc⟩ => ⟨by omega, hc⟩, fun ⟨h, hc⟩ => ⟨by omega, hc⟩⟩

end Feed
