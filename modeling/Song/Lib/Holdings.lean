import Mathlib.Data.List.Perm.Basic
import Mathlib.Data.List.Nodup
import Song.Lib.Eff

/-!
# What is open, and who answers for it

Keys are opened and closed; a close of a key that is not open is refused. `Turns pre x post fail` is
that `x`, of those who answer for `pre`, leaves them answering for `post`, or for `fail` where it
throws: whatever else is open stays open, and no close is refused. So it composes, and holds in any
surroundings (`Turns.frame`).
-/

namespace Holdings

variable {κ ε α β : Type}

structure Store (κ : Type) where
  opened : List κ
  refused : Nat

section
variable [DecidableEq κ]

def close (k : κ) : EStateM ε (Store κ) Unit := modify fun s =>
  if k ∈ s.opened then { s with opened := s.opened.erase k } else { s with refused := s.refused + 1 }

end

/-- Open a key that is chosen by what is open. -/
def openNew (choose : List κ → κ) : EStateM ε (Store κ) κ := do
  let k := choose (← get).opened
  modify fun s => { s with opened := k :: s.opened }
  return k

/-- `cleanup` after `x` throws, as destructors run. -/
def onThrow (x : EStateM ε (Store κ) α) (cleanup : EStateM ε (Store κ) Unit) :
    EStateM ε (Store κ) α := fun s =>
  match x.run s with
  | .ok a s' => .ok a s'
  | .error e s' =>
    match cleanup.run s' with
    | .ok _ s'' => .error e s''
    | .error e' s'' => .error e' s''

/-- Exactly `held` and what others hold is open, each key once. -/
structure Open (held rest : List κ) (refused : Nat) (s : Store κ) : Prop where
  perm : s.opened.Perm (held ++ rest)
  nodup : s.opened.Nodup
  refused : s.refused = refused

def Turns (pre : List κ) (x : EStateM ε (Store κ) α) (post : α → List κ) (fail : ε → List κ) :
    Prop :=
  ∀ rest refused s, Open pre rest refused s →
    Eff.Ends x s (fun a => Open (post a) rest refused) fun e => Open (fail e) rest refused

/-- The same of what does not throw. -/
def Sure (pre : List κ) (x : EStateM ε (Store κ) α) (post : α → List κ) : Prop :=
  ∀ rest refused s, Open pre rest refused s →
    Eff.Ends x s (fun a => Open (post a) rest refused) fun _ _ => False

section
variable {pre pre' more held : List κ} {post post' : α → List κ} {fail fail' : ε → List κ}
  {x : EStateM ε (Store κ) α} {f : α → EStateM ε (Store κ) β} {out : β → List κ}
  {rest : List κ} {refused : Nat} {s : Store κ}

theorem Open.congr (h : Open held rest refused s) {held' rest' : List κ}
    (hp : (held ++ rest).Perm (held' ++ rest')) : Open held' rest' refused s :=
  ⟨h.perm.trans hp, h.nodup, h.refused⟩

theorem Turns.pure (a : α) (h : pre.Perm (post a)) :
    Turns pre (pure a : EStateM ε (Store κ) α) post fail :=
  fun rest _ _ hs => Eff.Ends.pure (hs.congr (h.append_right rest))

theorem Turns.throw (e : ε) (h : pre.Perm (fail e)) :
    Turns pre (throw e : EStateM ε (Store κ) α) post fail :=
  fun rest _ _ hs => Eff.Ends.throw (hs.congr (h.append_right rest))

theorem Turns.mono (h : Turns pre x post fail) (hpre : pre'.Perm pre)
    (hpost : ∀ a, (post a).Perm (post' a)) (hfail : ∀ e, (fail e).Perm (fail' e)) :
    Turns pre' x post' fail' := fun rest refused s hs =>
  (h rest refused s (hs.congr (hpre.append_right rest))).mono
    (fun a _ hs' => hs'.congr ((hpost a).append_right rest))
    fun e _ hs' => hs'.congr ((hfail e).append_right rest)

/-- What others hold is none of its business. -/
theorem Turns.frame (h : Turns pre x post fail) (more : List κ) :
    Turns (pre ++ more) x (fun a => post a ++ more) fun e => fail e ++ more :=
  fun rest refused s hs =>
    (h (more ++ rest) refused s (hs.congr (by rw [List.append_assoc]))).mono
      (fun a _ hs' => hs'.congr (by rw [List.append_assoc]))
      fun e _ hs' => hs'.congr (by rw [List.append_assoc])

theorem Turns.bind (h : Turns pre x post fail) (hf : ∀ a, Turns (post a) (f a) out fail) :
    Turns pre (x >>= f) out fail := fun rest refused s hs =>
  .bind ((h rest refused s hs).mono (fun a s' hs' => hf a rest refused s' hs') fun _ _ h => h)

/-- Of all that is held, `x` is about `pre`. -/
theorem Turns.step (h : Turns pre x post fail) (hpre : pre'.Perm (pre ++ more))
    (hfail : ∀ e, (fail e ++ more).Perm (fail' e))
    (hf : ∀ a, Turns (post a ++ more) (f a) out fail') : Turns pre' (x >>= f) out fail' :=
  ((h.frame more).mono hpre (fun _ => List.Perm.refl _) hfail).bind hf

theorem Turns.onThrow (h : Turns pre x post fail) {cleanup : EStateM ε (Store κ) Unit}
    {left : List κ} (hclean : ∀ e, Turns (fail e) cleanup (fun _ => left) fun _ => left) :
    Turns pre (onThrow x cleanup) post fun _ => left := by
  intro rest refused s hs
  have hx := h rest refused s hs
  unfold Eff.Ends Holdings.onThrow
  simp only [EStateM.run]
  cases hrun : x s with
  | ok a s' => exact hx.ok hrun
  | error e s' =>
    have hc := hclean e rest refused s' (hx.error hrun)
    dsimp only
    cases hrun' : cleanup s' with
    | ok a s'' => exact hc.ok hrun'
    | error e' s'' => exact hc.error hrun'

theorem Sure.turns (h : Sure pre x post) : Turns pre x post fail := fun rest refused s hs =>
  (h rest refused s hs).mono (fun _ _ h => h) fun _ _ h => h.elim

theorem Sure.pure (a : α) (h : pre.Perm (post a)) :
    Sure pre (pure a : EStateM ε (Store κ) α) post :=
  fun rest _ _ hs => Eff.Ends.pure (hs.congr (h.append_right rest))

theorem Sure.frame (h : Sure pre x post) (more : List κ) :
    Sure (pre ++ more) x fun a => post a ++ more := fun rest refused s hs =>
  (h (more ++ rest) refused s (hs.congr (by rw [List.append_assoc]))).mono
    (fun a _ hs' => hs'.congr (by rw [List.append_assoc])) fun _ _ h => h

theorem Sure.mono (h : Sure pre x post) (hpre : pre'.Perm pre)
    (hpost : ∀ a, (post a).Perm (post' a)) : Sure pre' x post' := fun rest refused s hs =>
  (h rest refused s (hs.congr (hpre.append_right rest))).mono
    (fun a _ hs' => hs'.congr ((hpost a).append_right rest)) fun _ _ h => h

theorem Sure.bind (h : Sure pre x post) (hf : ∀ a, Sure (post a) (f a) out) :
    Sure pre (x >>= f) out := fun rest refused s hs =>
  .bind ((h rest refused s hs).mono (fun a s' hs' => hf a rest refused s' hs') fun _ _ h => h)

theorem Sure.seq (h : Sure pre x post) (hpre : pre'.Perm (pre ++ more))
    (hf : ∀ a, Sure (post a ++ more) (f a) out) : Sure pre' (x >>= f) out :=
  ((h.frame more).mono hpre fun _ => List.Perm.refl _).bind hf

theorem Sure.step (h : Sure pre x post) (hpre : pre'.Perm (pre ++ more))
    (hf : ∀ a, Turns (post a ++ more) (f a) out fail) : Turns pre' (x >>= f) out fail :=
  ((h.frame more).mono hpre fun _ => List.Perm.refl _).turns.bind hf

end

section
variable {choose : List κ → κ}

theorem sure_openNew (hchoose : ∀ l, choose l ∉ l) :
    Sure [] (openNew choose : EStateM ε (Store κ) κ) fun k => [k] := by
  intro rest refused s hs
  have hrun : (openNew choose : EStateM ε (Store κ) κ).run s =
      .ok (choose s.opened) { s with opened := choose s.opened :: s.opened } := rfl
  refine .of_ok hrun ⟨?_, ?_, hs.refused⟩
  · exact hs.perm.cons _
  · exact List.nodup_cons.mpr ⟨hchoose _, hs.nodup⟩

/-- Who answers for a key may close it. -/
theorem sure_close [DecidableEq κ] (k : κ) :
    Sure [k] (close k : EStateM ε (Store κ) Unit) fun _ => [] := by
  intro rest refused s hs
  have hmem : k ∈ s.opened := hs.perm.mem_iff.mpr List.mem_cons_self
  have hrun : (close k : EStateM ε (Store κ) Unit).run s =
      .ok () { s with opened := s.opened.erase k } := by
    show EStateM.Result.ok () (if k ∈ s.opened then _ else _) = _
    rw [if_pos hmem]
  refine .of_ok hrun ⟨?_, ?_, hs.refused⟩
  · have herase := hs.perm.erase k
    rwa [List.singleton_append, List.erase_cons_head] at herase
  · exact hs.nodup.erase k

end

end Holdings
