import Song.Lib.Eff
import Mathlib.Data.List.Forall2

/-!
# Readers over a split input

A reader runs on an input that it has read up to some place: `cut pre rest` is the
state with `pre` read and `rest` to come. `Reads d w a`: wherever `w` comes next, `d`
takes exactly `w` and returns `a`. `Takes d P` is the other direction: whenever `d`
returns some `a`, it has taken a `w` from the front of what was to come, and `P w a`.

For a writer `e`, a round trip is `Reads d w a` for every `w` that `e` writes for an `a`,
and its converse is `Takes d fun w a => e writes w for a`. `many n d` runs a reader `n`
times, and `each f` is the writer beside it. `Restricts d' d P`: `d'` returns what `d`
returns, of that only what has `P`.
-/

namespace Cursor

variable {ε σ α β κ : Type}

/-- `d`, `n` times. -/
def many : Nat → EStateM ε σ α → EStateM ε σ (List α)
  | 0, _ => pure []
  | n + 1, d => do
    let a ← d
    let as ← many n d
    return a :: as

/-- What `f` writes for the elements of a list, one after another. -/
def each (f : α → Except ε (List κ)) : List α → Except ε (List κ)
  | [] => .ok []
  | a :: as => do
    let w ← f a
    let ws ← each f as
    return w ++ ws

theorem each_cons_ok_iff {f : α → Except ε (List κ)} {a : α} {as : List α} {w : List κ} :
    each f (a :: as) = .ok w ↔
      ∃ w₁ w₂, f a = .ok w₁ ∧ each f as = .ok w₂ ∧ w = w₁ ++ w₂ := by
  cases ha : f a with
  | error e => simp [each, ha, bind, Except.bind]
  | ok w₁ =>
    cases has : each f as with
    | error e => simp [each, ha, has, bind, Except.bind]
    | ok w₂ => simp [each, ha, has, bind, Except.bind, pure, Except.pure, eq_comm]

/-- A list is written if and only if its elements are. -/
theorem each_ok_iff {f : α → Except ε (List κ)} {as : List α} :
    (∃ w, each f as = .ok w) ↔ ∀ a ∈ as, ∃ w, f a = .ok w := by
  induction as with
  | nil => exact ⟨fun _ a ha => (by cases ha), fun _ => ⟨[], rfl⟩⟩
  | cons a as ih =>
    rw [List.forall_mem_cons, ← ih]
    constructor
    · rintro ⟨w, hw⟩
      obtain ⟨w₁, w₂, h₁, h₂, -⟩ := each_cons_ok_iff.mp hw
      exact ⟨⟨w₁, h₁⟩, w₂, h₂⟩
    · rintro ⟨⟨w₁, h₁⟩, w₂, h₂⟩
      exact ⟨w₁ ++ w₂, each_cons_ok_iff.mpr ⟨w₁, w₂, h₁, h₂, rfl⟩⟩

theorem each_of_forall₂ {f : α → Except ε (List κ)} {ws : List (List κ)} {as : List α}
    (h : List.Forall₂ (fun w a => f a = .ok w) ws as) : each f as = .ok ws.flatten := by
  induction h with
  | nil => rfl
  | cons h _ ih => exact each_cons_ok_iff.mpr ⟨_, _, h, ih, rfl⟩

theorem each_map {f : β → Except ε (List κ)} {g : α → β} {as : List α} :
    each f (as.map g) = each (fun a => f (g a)) as := by
  induction as with
  | nil => rfl
  | cons a as ih => simp only [List.map_cons, each, ih]

theorem each_congr {f g : α → Except ε (List κ)} {as : List α} (h : ∀ a ∈ as, f a = g a) :
    each f as = each g as := by
  induction as with
  | nil => rfl
  | cons a as ih =>
    rw [List.forall_mem_cons] at h
    simp only [each, h.1, ih h.2]

/-- What one writer writes of a list another does, if it does of each element. -/
theorem each_imp {ε' : Type} {f : α → Except ε (List κ)} {g : α → Except ε' (List κ)}
    {as : List α} {w : List κ} (h : ∀ a ∈ as, ∀ w, f a = .ok w → g a = .ok w)
    (hw : each f as = .ok w) : each g as = .ok w := by
  induction as generalizing w with
  | nil =>
    cases hw
    rfl
  | cons a as ih =>
    rw [List.forall_mem_cons] at h
    obtain ⟨w₁, w₂, h₁, h₂, rfl⟩ := each_cons_ok_iff.mp hw
    exact each_cons_ok_iff.mpr ⟨w₁, w₂, h.1 w₁ h₁, ih h.2 h₂, rfl⟩

/-- A writer that fails on some elements, of which none may be in a list. -/
theorem each_restrict {f f' : α → Except ε (List κ)} {P : α → Prop} {as : List α} {w : List κ}
    (h : ∀ a ∈ as, ∀ w, f' a = .ok w ↔ P a ∧ f a = .ok w) :
    each f' as = .ok w ↔ (∀ a ∈ as, P a) ∧ each f as = .ok w := by
  induction as generalizing w with
  | nil => simp [each]
  | cons a as ih =>
    rw [List.forall_mem_cons] at h
    rw [List.forall_mem_cons, each_cons_ok_iff, each_cons_ok_iff]
    constructor
    · rintro ⟨w₁, w₂, h₁, h₂, rfl⟩
      obtain ⟨hp, h₁⟩ := (h.1 w₁).mp h₁
      obtain ⟨hps, h₂⟩ := (ih h.2).mp h₂
      exact ⟨⟨hp, hps⟩, w₁, w₂, h₁, h₂, rfl⟩
    · rintro ⟨⟨hp, hps⟩, w₁, w₂, h₁, h₂, rfl⟩
      exact ⟨w₁, w₂, (h.1 w₁).mpr ⟨hp, h₁⟩, (ih h.2).mpr ⟨hps, h₂⟩, rfl⟩

variable {cut : List κ → List κ → σ}

/-- Wherever `w` comes next, `d` takes it and returns `a`. -/
def Reads (cut : List κ → List κ → σ) (d : EStateM ε σ α) (w : List κ) (a : α) : Prop :=
  ∀ pre rest, d.run (cut pre (w ++ rest)) = .ok a (cut (pre ++ w) rest)

/-- Whatever `d` returns, it has taken some `w` with `P w a` for it. -/
def Takes (cut : List κ → List κ → σ) (d : EStateM ε σ α) (P : List κ → α → Prop) : Prop :=
  ∀ pre rest a s, d.run (cut pre rest) = .ok a s →
    ∃ w rest', rest = w ++ rest' ∧ s = cut (pre ++ w) rest' ∧ P w a

namespace Reads

theorem pure (a : α) : Reads cut (pure a : EStateM ε σ α) [] a := fun pre rest => by
  rw [List.append_nil, List.nil_append]; rfl

theorem bind {d : EStateM ε σ α} {f : α → EStateM ε σ β} {w w' : List κ} {a : α} {b : β}
    (h : Reads cut d w a) (h' : Reads cut (f a) w' b) : Reads cut (d >>= f) (w ++ w') b := by
  intro pre rest
  rw [List.append_assoc, Eff.run_bind_ok (h pre _), h', List.append_assoc]

theorem map {d : EStateM ε σ α} {w : List κ} {a : α} (g : α → β) (h : Reads cut d w a) :
    Reads cut (do return g (← d)) w (g a) := by
  have hb := h.bind (f := fun a => Pure.pure (g a)) (pure (g a))
  rwa [List.append_nil] at hb

/-- A list that was written element by element is read element by element. -/
theorem many {d : EStateM ε σ α} {ε' : Type} {f : α → Except ε' (List κ)} {as : List α}
    {w : List κ} (h : ∀ a ∈ as, ∀ w, f a = .ok w → Reads cut d w a) (hw : each f as = .ok w) :
    Reads cut (many as.length d) w as := by
  induction as generalizing w with
  | nil =>
    cases hw
    exact pure []
  | cons a as ih =>
    obtain ⟨w₁, w₂, h₁, h₂, rfl⟩ := each_cons_ok_iff.mp hw
    have ha := h a List.mem_cons_self w₁ h₁
    have has := ih (fun b hb => h b (List.mem_cons_of_mem a hb)) h₂
    exact ha.bind (has.map (a :: ·))

end Reads

namespace Takes

variable {P P' : List κ → α → Prop} {Q : List κ → β → Prop}

theorem mono {d : EStateM ε σ α} (h : Takes cut d P) (hp : ∀ w a, P w a → P' w a) :
    Takes cut d P' := by
  intro pre rest a s hd
  obtain ⟨w, rest', hr, hs, hw⟩ := h pre rest a s hd
  exact ⟨w, rest', hr, hs, hp w a hw⟩

theorem pure {a : α} (h : P [] a) : Takes cut (pure a : EStateM ε σ α) P := by
  intro pre rest b s hd
  cases hd
  exact ⟨[], rest, rfl, by rw [List.append_nil], h⟩

theorem throw (e : ε) : Takes cut (throw e : EStateM ε σ α) P :=
  fun _ _ _ _ h => by cases h

theorem bind {d : EStateM ε σ α} {f : α → EStateM ε σ β} (h : Takes cut d P)
    (hf : ∀ w a, P w a → Takes cut (f a) fun w' b => Q (w ++ w') b) :
    Takes cut (d >>= f) Q := by
  intro pre rest b s hd
  obtain ⟨a, s₁, h₁, h₂⟩ := Eff.run_bind_ok_iff.mp hd
  obtain ⟨w, rest₁, rfl, rfl, hp⟩ := h pre rest a s₁ h₁
  obtain ⟨w', rest₂, rfl, rfl, hq⟩ := hf w a hp (pre ++ w) rest₁ b s h₂
  exact ⟨w ++ w', rest₂, by rw [List.append_assoc], by rw [List.append_assoc], hq⟩

theorem map {d : EStateM ε σ α} {g : α → β} (h : Takes cut d fun w a => Q w (g a)) :
    Takes cut (do return g (← d)) Q :=
  h.bind fun w a hw => pure (by rwa [List.append_nil])

/-- What `many` takes is made of what each element took. -/
theorem many {d : EStateM ε σ α} (h : Takes cut d P) (n : Nat) :
    Takes cut (many n d) fun w as =>
      as.length = n ∧ ∃ ws, List.Forall₂ P ws as ∧ w = ws.flatten := by
  induction n with
  | zero => exact pure ⟨rfl, [], .nil, rfl⟩
  | succ n ih =>
    refine h.bind fun w₁ a h₁ => map (ih.mono ?_)
    rintro w₂ as ⟨hl, ws, hws, rfl⟩
    exact ⟨by rw [List.length_cons, hl], w₁ :: ws, .cons h₁ hws, rfl⟩

/-- What is read element by element is what the elements, written one after another,
make. -/
theorem many_each {d : EStateM ε σ α} {ε' : Type} {f : α → Except ε' (List κ)} {Q : α → Prop}
    (h : Takes cut d fun w a => f a = .ok w ∧ Q a) (n : Nat) :
    Takes cut (Cursor.many n d) fun w as =>
      each f as = .ok w ∧ as.length = n ∧ ∀ a ∈ as, Q a := by
  refine (h.many n).mono ?_
  rintro w as ⟨hl, ws, hws, rfl⟩
  refine ⟨each_of_forall₂ (hws.imp fun _ _ h => h.1), hl, ?_⟩
  clear hl
  induction hws with
  | nil => exact fun a ha => by cases ha
  | cons h _ ih => exact List.forall_mem_cons.mpr ⟨h.2, ih⟩

end Takes

/-- `d'` returns what `d` returns, of that only what has `P`. -/
def Restricts (d' d : EStateM ε σ α) (P : α → Prop) : Prop :=
  ∀ s a s', d'.run s = .ok a s' ↔ P a ∧ d.run s = .ok a s'

namespace Restricts

variable {P : α → Prop} {Q : β → Prop}

theorem refl {d : EStateM ε σ α} (h : ∀ s a s', d.run s = .ok a s' → P a) : Restricts d d P :=
  fun s a s' => ⟨fun hd => ⟨h s a s' hd, hd⟩, fun hd => hd.2⟩

/-- What fails returns nothing, so `d` may return nothing that has `P`. -/
theorem throw {e : ε} {d : EStateM ε σ α} (h : ∀ s a s', d.run s = .ok a s' → ¬ P a) :
    Restricts (throw e) d P :=
  fun s a s' => ⟨fun hd => (by cases hd), fun hd => absurd hd.1 (h s a s' hd.2)⟩

theorem bind {d : EStateM ε σ α} {f f' : α → EStateM ε σ β}
    (h : ∀ a, Restricts (f' a) (f a) Q) : Restricts (d >>= f') (d >>= f) Q := by
  intro s b s'
  rw [Eff.run_bind_ok_iff, Eff.run_bind_ok_iff]
  constructor
  · rintro ⟨a, s₁, h₁, h₂⟩
    obtain ⟨hq, h₂⟩ := (h a s₁ b s').mp h₂
    exact ⟨hq, a, s₁, h₁, h₂⟩
  · rintro ⟨hq, a, s₁, h₁, h₂⟩
    exact ⟨a, s₁, h₁, (h a s₁ b s').mpr ⟨hq, h₂⟩⟩

theorem map {d d' : EStateM ε σ α} {g : α → β} (h : Restricts d' d P) (hq : ∀ a, Q (g a) ↔ P a) :
    Restricts (do return g (← d')) (do return g (← d)) Q := by
  intro s b s'
  rw [Eff.run_bind_ok_iff, Eff.run_bind_ok_iff]
  constructor
  · rintro ⟨a, s₁, h₁, h₂⟩
    obtain ⟨hp, h₁⟩ := (h s a s₁).mp h₁
    cases h₂
    exact ⟨(hq a).mpr hp, a, s', h₁, rfl⟩
  · rintro ⟨hb, a, s₁, h₁, h₂⟩
    cases h₂
    exact ⟨a, s', (h s a s').mpr ⟨(hq a).mp hb, h₁⟩, rfl⟩

theorem cons {d d' : EStateM ε σ α} {ds ds' : EStateM ε σ (List α)} (h : Restricts d' d P)
    (hs : Restricts ds' ds fun as => ∀ a ∈ as, P a) :
    Restricts (do let a ← d'; let as ← ds'; return a :: as)
      (do let a ← d; let as ← ds; return a :: as) fun as => ∀ a ∈ as, P a := by
  intro s b s'
  simp only [Eff.run_bind_ok_iff]
  constructor
  · rintro ⟨a, s₁, h₁, as, s₂, h₂, h₃⟩
    obtain ⟨hp, h₁⟩ := (h s a s₁).mp h₁
    obtain ⟨hps, h₂⟩ := (hs s₁ as s₂).mp h₂
    cases h₃
    exact ⟨List.forall_mem_cons.mpr ⟨hp, hps⟩, a, s₁, h₁, as, s', h₂, rfl⟩
  · rintro ⟨hb, a, s₁, h₁, as, s₂, h₂, h₃⟩
    cases h₃
    rw [List.forall_mem_cons] at hb
    exact ⟨a, s₁, (h s a s₁).mpr ⟨hb.1, h₁⟩, as, s', (hs s₁ as s').mpr ⟨hb.2, h₂⟩, rfl⟩

theorem many {d d' : EStateM ε σ α} (h : Restricts d' d P) (n : Nat) :
    Restricts (Cursor.many n d') (Cursor.many n d) fun as => ∀ a ∈ as, P a := by
  induction n with
  | zero =>
    refine refl fun s as s' hd => ?_
    cases hd
    exact fun a ha => by cases ha
  | succ n ih => exact h.cons ih

end Restricts

end Cursor
