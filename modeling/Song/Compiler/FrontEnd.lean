import Song.Compiler.Parser
import Song.Compiler.Resolver

/-!
# How the parsing stage ends (`main.cpp`)

`main` constructs the parser outside its `try`, and catches a `ParserError` of `parse` there and
nothing else. So an exception of the lexer leaves `main`, wherever the parser meets it.

The parser reads a stream to its end or gives up at one of its tokens. What it does up to there
does not depend on how the stream ends (`Tame`), so that of a stream that ends in an exception of
the lexer it is enough to know the tokens.
-/

namespace Song.Compiler

/-! ## The stage -/

/-- The end of the parsing stage, if no exception leaves it. -/
inductive Stage where
  /-- The tree, and what the resolver says of it. -/
  | resolved (ast : AST) (verdict : Resolver)
  /-- An error with its position has been printed; `main` returns 1. -/
  | reported (line column : Nat) (what : Option Str)

section
variable {δ : Type} (rule : DocRule δ)

/-- `Parser parser(source); parser.parse()`. -/
def parseStream (stream : Stream) : EStateM.Result FrontError (Option (Parser δ)) AST :=
  match Parser.create rule stream with
  | .error e => .error e none
  | .ok s =>
    match (Parse.parse rule).run s with
    | .ok ast s' => .ok ast (some s')
    | .error e s' => .error e (some s')

end

/-- The parsing stage of `main`; an exception that leaves it is the error. -/
def frontEnd (source : Str) : Except FrontError Stage :=
  match parseStream pendingDoc (tokenize source) with
  | .ok ast _ => .ok (.resolved ast (resolve ast))
  | .error (.parser message line column) (some _) =>
    .ok (.reported line column (FrontError.parser message line column).what)
  | .error e _ => .error e

/-! ## Streams and their ends -/

namespace Stream

/-- The exception at the end. -/
def fault : Stream → Option FrontError
  | token _ rest => rest.fault
  | eof _ => none
  | fails e => some e

/-- The end of the input in place of an exception. -/
def truncate : Stream → Stream
  | token t rest => token t rest.truncate
  | eof t => eof t
  | fails _ => eof ⟨.eof, [], 0, 0, 0⟩

/-- Only the end is of the type `Eof`. -/
def Proper : Stream → Prop
  | token t rest => t.type ≠ .eof ∧ rest.Proper
  | eof t => t.type = .eof
  | fails _ => True

theorem length_truncate (st : Stream) : st.truncate.length = st.length := by
  induction st with
  | token t rest ih => exact congrArg (· + 1) ih
  | eof t => rfl
  | fails e => rfl

end Stream

theorem Lexer.proper_stream (fuel : Nat) (lx : Lexer) : (lx.stream fuel).Proper := by
  induction fuel generalizing lx with
  | zero => trivial
  | succ fuel ih =>
    rw [Lexer.stream]
    split
    · trivial
    · split
      · next h => exact h
      · next h => exact ⟨h, ih _⟩

/-! ### What the lexer throws -/

/-- An exception that `main` does not catch. -/
def FrontError.Escapes : FrontError → Prop
  | .lexer _ _ _ | .outOfRange => True
  | .parser _ _ _ | .stuck => False

namespace Lexer

theorem length_skipBlank (inComment : Bool) (cs : Str) (line column : Nat) :
    (skipBlank inComment cs line column).rest.length ≤ cs.length := by
  induction cs generalizing inComment line column with
  | nil => exact Nat.le_refl _
  | cons c cs ih =>
    rw [skipBlank]
    split
    · exact Nat.le_succ_of_le (ih _ _ _)
    split
    · exact Nat.le_succ_of_le (ih _ _ _)
    split
    · exact Nat.le_succ_of_le (ih _ _ _)
    split
    · exact Nat.le_succ_of_le (ih _ _ _)
    · exact Nat.le_refl _

theorem length_advance {lx : Lexer} {n : Nat} (hn : 0 < n) (hrest : lx.rest ≠ []) :
    (lx.advance n).rest.length < lx.rest.length := by
  have := List.length_pos_iff.mpr hrest
  rw [advance, List.length_drop]
  omega

theorem stoll_escapes {base : Nat} {digits : Str} {e : FrontError}
    (h : stoll base digits = .error e) : e.Escapes := by
  unfold stoll at h
  dsimp only at h
  split at h
  · cases h
  · cases h
    trivial

theorem lexInteger_spec {lx : Lexer} (hrest : lx.rest ≠ [])
    (hfirst : lx.rest.takeWhile isDigit ≠ []) :
    (∀ e, lx.lexInteger = .error e → e.Escapes) ∧
    ∀ t lx', lx.lexInteger = .ok (t, lx') → lx'.rest.length < lx.rest.length := by
  unfold lexInteger
  dsimp only
  split
  · next hhex =>
    have hvalue : 0 < (lx.rest.take 2 ++ (lx.rest.drop 2).takeWhile isXDigit).length := by
      rw [List.length_append, List.length_take]
      have := List.length_pos_iff.mpr hrest
      omega
    cases hdigits : ((lx.rest.drop 2).takeWhile isXDigit).isEmpty with
    | true => exact ⟨fun e h => (by cases h; trivial), fun t lx' h => by cases h⟩
    | false =>
      cases hn : stoll 16 ((lx.rest.drop 2).takeWhile isXDigit) with
      | error e' => exact ⟨fun e h => (by cases h; exact stoll_escapes hn), fun t lx' h => by cases h⟩
      | ok n =>
        exact ⟨fun e h => (by cases h), fun t lx' h => by cases h; exact length_advance hvalue hrest⟩
  · cases hn : stoll 10 (lx.rest.takeWhile isDigit) with
    | error e' => exact ⟨fun e h => (by cases h; exact stoll_escapes hn), fun t lx' h => by cases h⟩
    | ok n =>
      exact ⟨fun e h => (by cases h), fun t lx' h => by
        cases h
        exact length_advance (List.length_pos_iff.mpr hfirst) hrest⟩

theorem takeWhile_ne_nil {p : UInt8 → Bool} {c : UInt8} (cs : Str) (h : p c = true) :
    (c :: cs).takeWhile p ≠ [] := by
  rw [List.takeWhile_cons_of_pos h]
  exact List.cons_ne_nil _ _

/-- A token other than the end takes a character; no exception of the lexer is caught. -/
theorem lexeme_spec (lx : Lexer) :
    (∀ e, lx.lexeme = .error e → e.Escapes) ∧
    ∀ t lx', lx.lexeme = .ok (t, lx') → t.type ≠ .eof → lx'.rest.length < lx.rest.length := by
  obtain ⟨rest, line, column⟩ := lx
  cases rest with
  | nil => exact ⟨fun e h => (by cases h), fun t lx' h ht => by cases h; exact absurd rfl ht⟩
  | cons c cs =>
    have hadvance : ∀ n, 0 < n →
        ((⟨c :: cs, line, column⟩ : Lexer).advance n).rest.length < (c :: cs).length :=
      fun n hn => length_advance hn (List.cons_ne_nil _ _)
    rw [lexeme]
    dsimp only
    split
    · refine ⟨fun e h => (by cases h), fun t lx' h _ => ?_⟩
      have hlx := congrArg Prod.snd (Except.ok.inj h)
      rw [← show _ = lx' from hlx, lexDocComment]
      dsimp only
      split <;> simp only [advance, List.length_drop, List.length_cons] <;> omega
    split
    · exact ⟨fun e h => (by cases h), fun t lx' h _ => by cases h; exact hadvance 1 Nat.one_pos⟩
    split
    · exact ⟨fun e h => (by cases h), fun t lx' h _ => by cases h; exact hadvance 2 Nat.two_pos⟩
    split
    · next hdigit =>
      obtain ⟨herror, hok⟩ := @lexInteger_spec ⟨c :: cs, line, column⟩
        (List.cons_ne_nil _ _) (takeWhile_ne_nil cs hdigit)
      exact ⟨herror, fun t lx' h _ => hok t lx' h⟩
    split
    · next hword =>
      refine ⟨fun e h => (by cases h), fun t lx' h _ => ?_⟩
      cases h
      have hc : isWordChar c = true := by
        rw [isWordChar]
        rcases Bool.or_eq_true_iff.mp hword with h | h <;> rw [h] <;> simp
      exact hadvance _ (List.length_pos_iff.mpr (takeWhile_ne_nil cs hc))
    · exact ⟨fun e h => (by cases h; trivial), fun t lx' h => by cases h⟩

theorem fault_stream {fuel : Nat} {lx : Lexer} (hfuel : lx.rest.length < fuel) {e : FrontError}
    (h : (lx.stream fuel).fault = some e) : e.Escapes := by
  induction fuel generalizing lx with
  | zero => exact absurd hfuel (Nat.not_lt_zero _)
  | succ fuel ih =>
    have hskip := length_skipBlank false lx.rest lx.line lx.column
    obtain ⟨herror, hok⟩ := lexeme_spec (skipBlank false lx.rest lx.line lx.column)
    rw [stream] at h
    split at h
    · next e' he =>
      cases h
      exact herror _ he
    · next t lx' ht =>
      split at h
      · cases h
      · next hne =>
        have := hok t lx' ht hne
        exact ih (by omega) h

end Lexer

theorem fault_tokenize {source : Str} {e : FrontError} (h : (tokenize source).fault = some e) :
    e.Escapes :=
  Lexer.fault_stream (Nat.lt_succ_self _) h

/-! ## Programs that do not look at the end -/

namespace Parser

variable {δ : Type}

def truncate (s : Parser δ) : Parser δ := { s with stream := s.stream.truncate }

/-- The parser has read the end of the input. -/
def AtEnd (s : Parser δ) : Prop := s.stream.Proper ∧ ∃ t, s.stream = .eof t ∧ s.current.type = .eof

/-- What holds of a parser between two calls. -/
structure Proper (s : Parser δ) : Prop where
  stream : s.stream.Proper
  current : s.current.type = .eof → s.AtEnd

/-- The tokens left, with the current one. -/
def left (s : Parser δ) : Nat := s.stream.length + if s.current.type = .eof then 0 else 1

theorem left_of_ne {s : Parser δ} (h : s.current.type ≠ .eof) : s.left = s.stream.length + 1 := by
  rw [left, if_neg h]

theorem left_of_eof {s : Parser δ} (h : s.current.type = .eof) : s.left = s.stream.length := by
  rw [left, if_pos h, Nat.add_zero]

end Parser

section
variable {δ : Type} {rule : DocRule δ} {α β : Type}

/-- From a parser in `P`: the same on the truncated stream, except for an exception of the lexer,
where the truncated run comes to its end. Nothing else is thrown but `ParserError`s. -/
structure Tame (P : Parser δ → Prop) (x : Parse δ α) : Prop where
  ok : ∀ s a s', s.Proper → P s → x.run s = .ok a s' →
    x.run s.truncate = .ok a s'.truncate ∧ s'.Proper ∧ s'.stream.fault = s.stream.fault ∧
      s'.left ≤ s.left
  error : ∀ s e s', s.Proper → P s → x.run s = .error e s' →
    (∃ message line column, e = .parser message line column) ∧ s'.Proper ∧
        s'.stream.fault = s.stream.fault ∧ x.run s.truncate = .error e s'.truncate ∨
      s.stream.fault = some e ∧
        Eff.Ends x s.truncate (fun _ s' => s'.AtEnd) (fun _ s' => s'.AtEnd)
  absorbs : ∀ s, s.AtEnd → Eff.Ends x s (fun _ s' => s'.AtEnd) (fun _ s' => s'.AtEnd)

/-- What `x` returns has taken a token. -/
def Eats (x : Parse δ α) : Prop :=
  ∀ s a s', s.Proper → x.run s = .ok a s' → s'.left < s.left

/-- From every parser. -/
abbrev Safe (x : Parse δ α) : Prop := Tame (fun _ => True) x

theorem Tame.bind {P : Parser δ → Prop} {Q : α → Parser δ → Prop} {x : Parse δ α}
    {f : α → Parse δ β} (hx : Tame P x) (hf : ∀ a, Tame (Q a) (f a))
    (hq : ∀ s a s', s.Proper → P s → x.run s = .ok a s' → Q a s') : Tame P (x >>= f) where
  ok s b s' hs hp hrun := by
    obtain ⟨a, s₁, hxs, hfs⟩ := Eff.run_bind_ok_iff.mp hrun
    obtain ⟨ht, hs₁, hfault, hleft⟩ := hx.ok s a s₁ hs hp hxs
    obtain ⟨ht', hs', hfault', hleft'⟩ := (hf a).ok s₁ b s' hs₁ (hq s a s₁ hs hp hxs) hfs
    exact ⟨by rw [Eff.run_bind_ok ht, ht'], hs', hfault'.trans hfault, Nat.le_trans hleft' hleft⟩
  error s e s' hs hp hrun := by
    cases hxs : x.run s with
    | error e' s₁ =>
      rw [Eff.run_bind_error hxs] at hrun
      cases hrun
      rcases hx.error s e s' hs hp hxs with ⟨hparser, hs', hfault, ht⟩ | ⟨hfault, hends⟩
      · exact .inl ⟨hparser, hs', hfault, by rw [Eff.run_bind_error ht]⟩
      · exact .inr ⟨hfault, .bind (hends.mono (fun a t ht => (hf a).absorbs t ht)
          fun _ _ ht => ht)⟩
    | ok a s₁ =>
      rw [Eff.run_bind_ok hxs] at hrun
      obtain ⟨ht, hs₁, hfault, -⟩ := hx.ok s a s₁ hs hp hxs
      rcases (hf a).error s₁ e s' hs₁ (hq s a s₁ hs hp hxs) hrun with
        ⟨hparser, hs', hfault', ht'⟩ | ⟨hfault', hends⟩
      · exact .inl ⟨hparser, hs', hfault'.trans hfault, by rw [Eff.run_bind_ok ht, ht']⟩
      · exact .inr ⟨hfault.symm.trans hfault', .bind (.of_ok ht hends)⟩
  absorbs s hs := .bind ((hx.absorbs s hs).mono (fun a t ht => (hf a).absorbs t ht)
    fun _ _ ht => ht)

theorem Safe.bind {x : Parse δ α} {f : α → Parse δ β} (hx : Safe x) (hf : ∀ a, Safe (f a)) :
    Safe (x >>= f) :=
  Tame.bind hx hf fun _ _ _ _ _ _ => trivial

theorem Tame.bind_left {P : Parser δ → Prop} {x : Parse δ α} {f : α → Parse δ β} (hx : Tame P x)
    (hf : ∀ a, Safe (f a)) : Tame P (x >>= f) :=
  .bind hx hf fun _ _ _ _ _ _ => trivial

theorem Tame.of_safe {P : Parser δ → Prop} {x : Parse δ α} (h : Safe x) : Tame P x where
  ok s a s' hs _ := h.ok s a s' hs trivial
  error s e s' hs _ := h.error s e s' hs trivial
  absorbs := h.absorbs

/-- A program that only looks at the parser, and at nothing but its tokens so far. -/
theorem Safe.look {x : Parse δ α} {f : Parser δ → α} {g : Parser δ → Parser δ}
    (hx : ∀ s, x.run s = .ok (f s) (g s)) (hf : ∀ s : Parser δ, f s.truncate = f s)
    (hg : ∀ s, (g s).stream = s.stream ∧ (g s).current = s.current ∧
      g s.truncate = (g s).truncate) : Safe x := by
  have hend : ∀ s, s.AtEnd → (g s).AtEnd := by
    rintro s ⟨hp, t, hst, hc⟩
    obtain ⟨h1, h2, -⟩ := hg s
    exact ⟨by rw [h1]; exact hp, t, by rw [h1]; exact hst, by rw [h2]; exact hc⟩
  refine ⟨fun s a s' hs _ hrun => ?_, fun s e s' hs _ hrun => ?_, fun s hs => ?_⟩
  · rw [hx] at hrun
    cases hrun
    obtain ⟨h1, h2, h3⟩ := hg s
    refine ⟨by rw [hx, hf, h3], ⟨by rw [h1]; exact hs.stream, fun hc => ?_⟩, by rw [h1], ?_⟩
    · rw [h2] at hc
      exact hend s (hs.current hc)
    · rw [Parser.left, h1, h2]
      exact Nat.le_refl _
  · rw [hx] at hrun
    cases hrun
  · exact .of_ok (hx s) (hend s hs)

theorem Safe.pure (a : α) : Safe (pure a : Parse δ α) :=
  .look (f := fun _ => a) (g := id) (fun _ => rfl) (fun _ => rfl) fun _ => ⟨rfl, rfl, rfl⟩

theorem Safe.current : Safe (Parse.current : Parse δ Token) :=
  .look (f := Parser.current) (g := id) (fun _ => rfl) (fun _ => rfl) fun _ => ⟨rfl, rfl, rfl⟩

theorem Safe.check (type : TokenType) : Safe (Parse.check type : Parse δ Bool) :=
  .look (f := fun s => s.current.type = type) (g := id) (fun _ => rfl) (fun _ => rfl)
    fun _ => ⟨rfl, rfl, rfl⟩

theorem Safe.currentLoc : Safe (Parse.currentLoc : Parse δ SourceLoc) :=
  .look (f := fun s => ⟨s.current.line, s.current.column⟩) (g := id) (fun _ => rfl) (fun _ => rfl)
    fun _ => ⟨rfl, rfl, rfl⟩

theorem Safe.takeDoc : Safe (Parse.takeDoc rule) :=
  .look (f := fun s => rule.text s.pending) (g := fun s => { s with pending := rule.empty })
    (fun _ => rfl) (fun _ => rfl) fun _ => ⟨rfl, rfl, rfl⟩

theorem Safe.fail (msg : Str) : Safe (Parse.fail msg : Parse δ α) where
  ok s a s' _ _ hrun := by cases hrun
  error s e s' hs _ hrun := by
    cases hrun
    exact .inl ⟨⟨msg, s.current.line, s.current.column, rfl⟩, hs, rfl, rfl⟩
  absorbs s hs := hs

/-! ### Taking a token -/

theorem Stream.next_ok {st : Stream} {pending : δ} {s' : Parser δ} (h : st.Proper)
    (hrun : st.next rule pending = .ok s') :
    st.truncate.next rule pending = .ok s'.truncate ∧ s'.Proper ∧ s'.stream.fault = st.fault ∧
      s'.left ≤ st.length := by
  induction st generalizing pending with
  | token t rest ih =>
    rw [Stream.next] at hrun
    rw [Stream.truncate, Stream.next]
    split at hrun
    · next hdoc =>
      rw [if_pos hdoc]
      obtain ⟨ht, hs', hfault, hleft⟩ := ih h.2 hrun
      exact ⟨ht, hs', hfault, Nat.le_succ_of_le hleft⟩
    · next hdoc =>
      rw [if_neg hdoc]
      cases hrun
      refine ⟨rfl, ⟨h.2, fun hc => absurd hc h.1⟩, rfl, ?_⟩
      exact Nat.le_of_eq (Parser.left_of_ne h.1)
  | eof t =>
    cases hrun
    refine ⟨rfl, ⟨h, fun hc => ⟨h, t, rfl, hc⟩⟩, rfl, ?_⟩
    exact Nat.le_of_eq (Parser.left_of_eof h)
  | fails e => cases hrun

theorem Stream.next_error {st : Stream} {pending : δ} {e : FrontError} (h : st.Proper)
    (hrun : st.next rule pending = .error e) :
    st.fault = some e ∧ ∃ s', st.truncate.next rule pending = .ok s' ∧ s'.AtEnd := by
  induction st generalizing pending with
  | token t rest ih =>
    rw [Stream.next] at hrun
    rw [Stream.truncate, Stream.next]
    split at hrun
    · next hdoc =>
      rw [if_pos hdoc]
      exact ih h.2 hrun
    · cases hrun
  | eof t => cases hrun
  | fails e' =>
    cases hrun
    exact ⟨rfl, _, rfl, rfl, _, rfl, rfl⟩

theorem advance_ok {s s' : Parser δ}
    (hrun : (Parse.advance rule).run s = .ok () s') :
    s.stream.next rule (rule.next s.pending) = .ok s' := by
  simp only [EStateM.run, Parse.advance] at hrun
  split at hrun
  · next h =>
    cases hrun
    exact h
  · cases hrun

theorem Safe.advance : Safe (Parse.advance rule) where
  ok s _ s' hs _ hrun := by
    obtain ⟨ht, hs', hfault, hleft⟩ := Stream.next_ok hs.stream (advance_ok hrun)
    refine ⟨?_, hs', hfault, Nat.le_trans hleft (Nat.le_add_right _ _)⟩
    simp only [EStateM.run, Parse.advance, Parser.truncate, ht]
  error s e s' hs _ hrun := by
    simp only [EStateM.run, Parse.advance] at hrun
    split at hrun
    · cases hrun
    · next h =>
      cases hrun
      obtain ⟨hfault, t, ht, hend⟩ := Stream.next_error hs.stream h
      have hrun' : (Parse.advance rule).run s.truncate = .ok () t := by
        simp only [EStateM.run, Parse.advance, Parser.truncate, ht]
      exact .inr ⟨hfault, .of_ok hrun' hend⟩
  absorbs s hs := by
    obtain ⟨hp, t, hst, -⟩ := hs
    have hrun : (Parse.advance rule).run s = .ok () ⟨.eof t, t, rule.next s.pending⟩ := by
      simp only [EStateM.run, Parse.advance, hst, Stream.next]
    rw [hst] at hp
    exact .of_ok hrun ⟨hp, t, rfl, hp⟩

theorem advance_left {s s' : Parser δ} (hs : s.Proper) (hc : s.current.type ≠ .eof)
    (hrun : (Parse.advance rule).run s = .ok () s') : s'.left < s.left := by
  have hleft := (Stream.next_ok hs.stream (advance_ok hrun)).2.2.2
  rw [Parser.left_of_ne hc]
  exact Nat.lt_succ_of_le hleft

theorem current_run {s s' : Parser δ} {t : Token} (h : Parse.current.run s = .ok t s') :
    t = s.current ∧ s' = s := by
  cases h
  exact ⟨rfl, rfl⟩

theorem check_run {s s' : Parser δ} {type : TokenType} {b : Bool}
    (h : (Parse.check type).run s = .ok b s') : (b = true ↔ s.current.type = type) ∧ s' = s := by
  cases h
  exact ⟨decide_eq_true_iff, rfl⟩

theorem Safe.expect (type : TokenType) (msg : Str) : Safe (Parse.expect rule type msg) := by
  refine .bind .current fun token => ?_
  split
  · exact .bind .advance fun _ => .pure _
  · exact .fail _

theorem Eats.bind_left {x : Parse δ α} {f : α → Parse δ β} (hx : Eats x) (hsafe : Safe x)
    (hf : ∀ a, Safe (f a)) : Eats (x >>= f) := by
  intro s b s' hs hrun
  obtain ⟨a, s₁, hxs, hfs⟩ := Eff.run_bind_ok_iff.mp hrun
  have hs₁ := (hsafe.ok s a s₁ hs trivial hxs).2.1
  exact Nat.lt_of_le_of_lt ((hf a).ok s₁ b s' hs₁ trivial hfs).2.2.2 (hx s a s₁ hs hxs)

theorem Eats.bind_right {x : Parse δ α} {f : α → Parse δ β} (hx : Safe x) (hf : ∀ a, Eats (f a)) :
    Eats (x >>= f) := by
  intro s b s' hs hrun
  obtain ⟨a, s₁, hxs, hfs⟩ := Eff.run_bind_ok_iff.mp hrun
  obtain ⟨-, hs₁, -, hleft⟩ := hx.ok s a s₁ hs trivial hxs
  exact Nat.lt_of_lt_of_le (hf a s₁ b s' hs₁ hfs) hleft

theorem Eats.expect {type : TokenType} (htype : type ≠ .eof) (msg : Str) :
    Eats (Parse.expect rule type msg) := by
  intro s t s' hs hrun
  obtain ⟨token, s₁, hcurrent, hrest⟩ := Eff.run_bind_ok_iff.mp hrun
  obtain ⟨rfl, rfl⟩ := current_run hcurrent
  split at hrest
  · next hc =>
    obtain ⟨_, s₂, hadvance, hpure⟩ := Eff.run_bind_ok_iff.mp hrest
    cases hpure
    exact advance_left hs (by rw [hc]; exact htype) hadvance
  · cases hrest

theorem Safe.expectName (msg : Str) : Safe (Parse.expectName rule msg) :=
  .bind (.expect _ _) fun _ => .pure _

theorem Eats.expectName (msg : Str) : Eats (Parse.expectName rule msg) :=
  .bind_left (.expect (by decide) _) (.expect _ _) fun _ => .pure _

theorem Safe.accept (type : TokenType) : Safe (Parse.accept rule type) := by
  refine .bind (.check type) fun b => ?_
  split
  · exact .bind .advance fun _ => .pure _
  · exact .pure _

/-! ### Loops -/

/-- A loop is never out of fuel. -/
theorem Tame.stuck : Tame (fun s => s.left < 0) (throw .stuck : Parse δ α) where
  ok _ _ _ _ h := absurd h (Nat.not_lt_zero _)
  error _ _ _ _ h := absurd h (Nat.not_lt_zero _)
  absorbs _ hs := hs

/-- Fuel for what comes after a program that takes no token is fuel for the whole. -/
theorem Tame.bind_fuel {n : Nat} {x : Parse δ α} {f : α → Parse δ β} (hx : Safe x)
    (hf : ∀ a, Tame (fun s => s.left < n) (f a)) : Tame (fun s => s.left < n) (x >>= f) :=
  .bind (Q := fun _ s => s.left < n) (.of_safe hx) hf fun s a s' hs hp hrun =>
    Nat.lt_of_le_of_lt (hx.ok s a s' hs trivial hrun).2.2.2 hp

/-- As `bind_fuel`, where a token is taken. -/
theorem Tame.bind_eats {n : Nat} {x : Parse δ α} {f : α → Parse δ β} (hx : Safe x) (heats : Eats x)
    (hf : ∀ a, Tame (fun s => s.left < n) (f a)) : Tame (fun s => s.left < n + 1) (x >>= f) :=
  .bind (Q := fun _ s => s.left < n) (.of_safe hx) hf fun s a s' hs hp hrun =>
    Nat.lt_of_lt_of_le (heats s a s' hs hrun) (Nat.le_of_lt_succ hp)

/-- The turn of a loop that goes on while the next token is of a type. -/
theorem Tame.whileNext {type : TokenType} (htype : type ≠ .eof) {n : Nat} {x y : Parse δ α}
    (hx : Tame (fun s => s.left < n) x) (hy : Safe y) :
    Tame (fun s => s.left < n + 1) (do
      if ← Parse.check type then do
        Parse.advance rule
        x
      else y) := by
  refine .bind (Q := fun b s => s.left < n + 1 ∧ (b = true → s.current.type = type))
    (.of_safe (.check type)) (fun b => ?_) fun s b s' _ hp hrun => ?_
  · split
    · next hb =>
      refine .bind (Q := fun _ s => s.left < n) (.of_safe .advance) (fun _ => hx)
        fun s _ s' hs hp hrun => ?_
      have hc : s.current.type ≠ .eof := by
        rw [hp.2 hb]
        exact htype
      exact Nat.lt_of_lt_of_le (advance_left hs hc hrun) (Nat.le_of_lt_succ hp.1)
    · exact .of_safe hy
  · obtain ⟨hb, rfl⟩ := check_run hrun
    exact ⟨hp, hb.mp⟩

theorem Tame.untilStop (stop : TokenType → Bool) {item : Parse δ α} (hitem : Safe item)
    (heats : Eats item) (fuel : Nat) :
    Tame (fun s => s.left < fuel) (Parse.untilStop stop item fuel) := by
  induction fuel with
  | zero => exact .stuck
  | succ fuel ih =>
    refine .bind_fuel .current fun token => ?_
    split
    · exact .of_safe (.pure _)
    · exact .bind_eats hitem heats fun x => .bind_left ih fun xs => .pure _

/-- A bound from the stream at hand is enough. -/
theorem Safe.of_bound {x : Nat → Parse δ α} (h : ∀ n, Tame (fun s => s.left < n) (x n)) :
    Safe (fun s => x (s.stream.length + 2) s : Parse δ α) where
  ok s a s' hs _ hrun := by
    have hlen : s.truncate.stream.length = s.stream.length := Stream.length_truncate _
    have hleft : s.left < s.stream.length + 2 := by
      unfold Parser.left
      split <;> omega
    have := (h _).ok s a s' hs hleft hrun
    simp only [EStateM.run, hlen] at this ⊢
    exact this
  error s e s' hs _ hrun := by
    have hlen : s.truncate.stream.length = s.stream.length := Stream.length_truncate _
    have hleft : s.left < s.stream.length + 2 := by
      unfold Parser.left
      split <;> omega
    have := (h _).error s e s' hs hleft hrun
    simp only [EStateM.run, hlen, Eff.Ends] at this ⊢
    exact this
  absorbs s hs := (h _).absorbs s hs

theorem Safe.many (stop : TokenType → Bool) {item : Parse δ α}
    (hitem : Safe item) (heats : Eats item) : Safe (Parse.many stop item) :=
  .of_bound fun n => .untilStop stop hitem heats n

theorem Tame.afterCommas (stop : TokenType → Bool) {item : Parse δ α} (hitem : Safe item)
    (fuel : Nat) : Tame (fun s => s.left < fuel) (Parse.afterCommas rule stop item fuel) := by
  induction fuel with
  | zero => exact .stuck
  | succ fuel ih =>
    refine .whileNext (by decide) ?_ (.pure _)
    refine .bind_fuel .current fun token => ?_
    split
    · exact .of_safe (.pure _)
    · exact .bind_fuel hitem fun x => .bind_left ih fun xs => .pure _

theorem Safe.commaSeparated (stop : TokenType → Bool) {item : Parse δ α} (hitem : Safe item) :
    Safe (Parse.commaSeparated rule stop item) := by
  refine .bind hitem fun first => .bind ?_ fun more => .pure _
  exact .of_bound fun n => .afterCommas stop hitem n

theorem Tame.brackets (fuel : Nat) :
    Tame (fun s => s.left < fuel) (Parse.brackets rule fuel) := by
  induction fuel with
  | zero => exact .stuck
  | succ fuel ih =>
    refine .whileNext (by decide) ?_ (.pure _)
    exact .bind_fuel (.expect _ _) fun _ => .bind_left ih fun n => .pure _

/-! ### Types and members -/

theorem Safe.typeMarks : Safe (Parse.typeMarks rule) := by
  refine .bind (.of_bound .brackets) fun dims => .bind (.check _) fun b => ?_
  split
  · exact .bind .advance fun _ => .pure _
  · exact .pure _

theorem Safe.parseTypeBase : Safe (Parse.parseTypeBase rule) := by
  refine .bind .current fun token => ?_
  split
  · exact .bind .advance fun _ => .pure _
  · split
    · exact .bind .advance fun _ => .pure _
    · exact .fail _

/-- A token is taken where it is known not to be the end. -/
theorem Eats.current {f : Token → Parse δ α}
    (hf : ∀ s : Parser δ, ∀ a s', s.Proper → (f s.current).run s = .ok a s' → s'.left < s.left) :
    Eats (Parse.current >>= f) := by
  intro s a s' hs hrun
  obtain ⟨token, s₁, hcurrent, hrest⟩ := Eff.run_bind_ok_iff.mp hrun
  obtain ⟨rfl, rfl⟩ := current_run hcurrent
  exact hf _ a s' hs hrest

theorem Eats.parseTypeBase : Eats (Parse.parseTypeBase rule) := by
  refine .current fun s base s' hs hrun => ?_
  split at hrun
  · next p hp =>
    obtain ⟨_, s₂, hadvance, hpure⟩ := Eff.run_bind_ok_iff.mp hrun
    cases hpure
    refine advance_left hs (fun hc => ?_) hadvance
    rw [hc] at hp
    cases hp
  · split at hrun
    · next hident =>
      obtain ⟨_, s₂, hadvance, hpure⟩ := Eff.run_bind_ok_iff.mp hrun
      cases hpure
      exact advance_left hs (by rw [hident]; decide) hadvance
    · cases hrun

theorem Safe.parseType : Safe (Parse.parseType rule) :=
  .bind .parseTypeBase fun _ => .bind .typeMarks fun _ => .pure _

theorem Eats.parseType : Eats (Parse.parseType rule) :=
  .bind_left .parseTypeBase .parseTypeBase fun _ => .bind .typeMarks fun _ => .pure _

theorem Safe.parseField : Safe (Parse.parseField rule) :=
  .bind .currentLoc fun _ => .bind .takeDoc fun _ => .bind .parseType fun _ =>
    .bind (.expectName _) fun _ => .bind (.expect _ _) fun _ => .pure _

theorem Eats.parseField : Eats (Parse.parseField rule) :=
  .bind_right .currentLoc fun _ => .bind_right .takeDoc fun _ =>
    .bind_left .parseType .parseType fun _ =>
      .bind (.expectName _) fun _ => .bind (.expect _ _) fun _ => .pure _

theorem Safe.parseEnumItem : Safe (Parse.parseEnumItem rule) := by
  refine .bind .currentLoc fun _ => .bind .takeDoc fun _ => .bind (.expectName _) fun _ =>
    .bind (.check _) fun b => ?_
  split
  · exact .bind .advance fun _ => .bind (.expect _ _) fun _ => .pure _
  · exact .pure _

theorem Safe.parseProperty : Safe (Parse.parseProperty rule) :=
  .bind .currentLoc fun _ => .bind .takeDoc fun _ => .bind (.accept _) fun _ =>
    .bind .parseType fun _ => .bind (.expectName _) fun _ => .bind (.expect _ _) fun _ => .pure _

theorem Eats.parseProperty : Eats (Parse.parseProperty rule) :=
  .bind_right .currentLoc fun _ => .bind_right .takeDoc fun _ => .bind_right (.accept _) fun _ =>
    .bind_left .parseType .parseType fun _ =>
      .bind (.expectName _) fun _ => .bind (.expect _ _) fun _ => .pure _

theorem Safe.parseParam : Safe (Parse.parseParam rule) :=
  .bind .currentLoc fun _ => .bind .parseType fun _ => .bind (.expectName _) fun _ => .pure _

theorem Safe.parseParams : Safe (Parse.parseParams rule) := by
  refine .bind (.check _) fun b => ?_
  split
  · exact .pure _
  · exact .commaSeparated _ .parseParam

theorem Safe.parseConstructor : Safe (Parse.parseConstructor rule) :=
  .bind .takeDoc fun _ => .bind (.expect _ _) fun _ => .bind (.expect _ _) fun _ =>
    .bind .parseParams fun _ => .bind (.expect _ _) fun _ => .bind (.expect _ _) fun _ => .pure _

theorem Eats.parseConstructor : Eats (Parse.parseConstructor rule) :=
  .bind_right .takeDoc fun _ => .bind_left (.expect (by decide) _) (.expect _ _) fun _ =>
    .bind (.expect _ _) fun _ => .bind .parseParams fun _ => .bind (.expect _ _) fun _ =>
      .bind (.expect _ _) fun _ => .pure _

theorem Safe.parseThrows : Safe (Parse.parseThrows rule) := by
  refine .bind (.accept _) fun b => ?_
  split
  · exact .commaSeparated _ (.expectName _)
  · exact .pure _

section
variable (name : Str) (loc : SourceLoc) (doc : Str) (isOptional isStream : Bool)

theorem Safe.parseSignature :
    Safe (Parse.parseSignature rule name loc doc isOptional isStream) :=
  .bind (.expect _ _) fun _ => .bind .parseParams fun _ => .bind (.expect _ _) fun _ =>
    .bind (.expect _ _) fun _ => .bind .parseType fun _ => .bind .parseThrows fun _ =>
      .bind (.expect _ _) fun _ => .pure _

end

theorem Safe.parseModifier : Safe (Parse.parseModifier rule) := by
  refine .bind (.accept _) fun b => ?_
  split
  · exact .pure _
  · exact .bind (.accept _) fun _ => .pure _

theorem Safe.parseMethod : Safe (Parse.parseMethod rule) :=
  .bind .currentLoc fun _ => .bind .takeDoc fun _ => .bind .parseModifier fun _ =>
    .bind (.expectName _) fun _ => .parseSignature _ _ _ _ _

theorem Eats.parseMethod : Eats (Parse.parseMethod rule) :=
  .bind_right .currentLoc fun _ => .bind_right .takeDoc fun _ => .bind_right .parseModifier fun _ =>
    .bind_left (.expectName _) (.expectName _) fun _ => .parseSignature _ _ _ _ _

/-! ### Classes -/

theorem Safe.parseUserProperty (typeName doc : Str) :
    Safe (Parse.parseUserProperty rule typeName doc) :=
  .bind (.expectName _) fun _ => .bind .currentLoc fun _ => .bind .typeMarks fun _ =>
    .bind (.expect _ _) fun _ => .pure _

theorem Safe.parsePrimitiveProperty (doc : Str) : Safe (Parse.parsePrimitiveProperty rule doc) :=
  .bind .parseType fun _ => .bind (.expectName _) fun _ => .bind .currentLoc fun _ =>
    .bind (.expect _ _) fun _ => .pure _

theorem Eats.parsePrimitiveProperty (doc : Str) : Eats (Parse.parsePrimitiveProperty rule doc) :=
  .bind_left .parseType .parseType fun _ => .bind (.expectName _) fun _ =>
    .bind .currentLoc fun _ => .bind (.expect _ _) fun _ => .pure _

theorem Safe.parseNamed (firstIdent doc : Str) : Safe (Parse.parseNamed rule firstIdent doc) := by
  refine .bind (.check _) fun b => ?_
  split
  · exact .bind .currentLoc fun _ => .bind (.parseSignature _ _ _ _ _) fun _ => .pure _
  · exact .parseUserProperty _ _

theorem Safe.parseMember (className : Str) : Safe (Parse.parseMember rule className) := by
  refine .bind .takeDoc fun doc => .bind .current fun token => ?_
  split
  · exact .bind .parseProperty fun _ => .pure _
  split
  · exact .bind .parseConstructor fun _ => .pure _
  split
  · exact .bind .parseMethod fun _ => .pure _
  split
  · exact .bind .advance fun _ => .parseNamed _ _
  split
  · exact .parsePrimitiveProperty _
  · exact .fail _

theorem Eats.fail (msg : Str) : Eats (Parse.fail msg : Parse δ α) :=
  fun _ _ _ _ hrun => by cases hrun

theorem Eats.parseMember (className : Str) : Eats (Parse.parseMember rule className) := by
  refine .bind_right .takeDoc fun doc => .current fun s member s' hs hrun => ?_
  split at hrun
  · exact Eats.bind_left .parseProperty .parseProperty (fun _ => .pure _) s _ s' hs hrun
  split at hrun
  · exact Eats.bind_left .parseConstructor .parseConstructor (fun _ => .pure _) s _ s' hs hrun
  split at hrun
  · exact Eats.bind_left .parseMethod .parseMethod (fun _ => .pure _) s _ s' hs hrun
  split at hrun
  · next hident =>
    obtain ⟨_, s₂, hadvance, hnamed⟩ := Eff.run_bind_ok_iff.mp hrun
    have hs₂ := (Safe.advance.ok s _ s₂ hs trivial hadvance).2.1
    have hleft := ((Safe.parseNamed _ _).ok s₂ _ s' hs₂ trivial hnamed).2.2.2
    exact Nat.lt_of_le_of_lt hleft (advance_left hs (by rw [hident]; decide) hadvance)
  split at hrun
  · exact Eats.parsePrimitiveProperty _ s _ s' hs hrun
  · cases hrun

/-! ### Definitions -/

theorem Safe.parseBase (msg : Str) : Safe (Parse.parseBase rule msg) := by
  refine .bind (.accept _) fun b => ?_
  split
  · exact .bind (.expectName _) fun _ => .pure _
  · exact .pure _

/-- A definition takes its keyword; what comes after it is safe. -/
theorem safe_eats_definition {type : TokenType} (htype : type ≠ .eof) (msg : Str)
    {f : SourceLoc → Str → Parse δ β} (hf : ∀ loc doc, Safe (f loc doc)) :
    Safe (do
      let loc ← Parse.currentLoc
      let doc ← Parse.takeDoc rule
      let _ ← Parse.expect rule type msg
      f loc doc) ∧
    Eats (do
      let loc ← Parse.currentLoc
      let doc ← Parse.takeDoc rule
      let _ ← Parse.expect rule type msg
      f loc doc) :=
  ⟨.bind .currentLoc fun _ => .bind .takeDoc fun _ => .bind (.expect _ _) fun _ => hf _ _,
    .bind_right .currentLoc fun _ => .bind_right .takeDoc fun _ =>
      .bind_left (.expect htype _) (.expect _ _) fun _ => hf _ _⟩

theorem safe_parseStruct : Safe (Parse.parseStruct rule) ∧ Eats (Parse.parseStruct rule) :=
  safe_eats_definition (by decide) _ fun _ _ =>
    .bind (.expectName _) fun _ => .bind (.parseBase _) fun _ => .bind (.expect _ _) fun _ =>
      .bind (.many _ .parseField .parseField) fun _ => .bind (.expect _ _) fun _ => .pure _

theorem Safe.parseEnumItems : Safe (Parse.parseEnumItems rule) := by
  refine .bind (.check _) fun b => ?_
  split
  · exact .pure _
  · exact .commaSeparated _ .parseEnumItem

theorem safe_parseEnum (isFlags : Bool) :
    Safe (Parse.parseEnum rule isFlags) ∧ Eats (Parse.parseEnum rule isFlags) :=
  safe_eats_definition (by cases isFlags <;> decide) _ fun _ _ =>
    .bind (.expectName _) fun _ => .bind (.expect _ _) fun _ => .bind .parseEnumItems fun _ =>
      .bind (.expect _ _) fun _ => .pure _

theorem safe_parseClass : Safe (Parse.parseClass rule) ∧ Eats (Parse.parseClass rule) :=
  safe_eats_definition (by decide) _ fun _ _ =>
    .bind (.expectName _) fun _ => .bind (.parseBase _) fun _ => .bind (.expect _ _) fun _ =>
      .bind (.many _ (.parseMember _) (.parseMember _)) fun _ =>
        .bind (.expect _ _) fun _ => .pure _

theorem safe_parseServiceMethod :
    Safe (Parse.parseServiceMethod rule) ∧ Eats (Parse.parseServiceMethod rule) :=
  ⟨.bind .takeDoc fun _ => .bind .parseMethod fun _ => .pure _,
    .bind_right .takeDoc fun _ => .bind_left .parseMethod .parseMethod fun _ => .pure _⟩

theorem safe_parseService : Safe (Parse.parseService rule) ∧ Eats (Parse.parseService rule) :=
  safe_eats_definition (by decide) _ fun _ _ =>
    .bind (.expectName _) fun _ => .bind (.expect _ _) fun _ =>
      .bind (.many _ safe_parseServiceMethod.1 safe_parseServiceMethod.2) fun _ =>
        .bind (.expect _ _) fun _ => .pure _

theorem safe_parseError : Safe (Parse.parseError rule) ∧ Eats (Parse.parseError rule) :=
  safe_eats_definition (by decide) _ fun _ _ =>
    .bind (.expectName _) fun _ => .bind (.parseBase _) fun _ => .bind (.expect _ _) fun _ =>
      .bind (.many _ .parseField .parseField) fun _ => .bind (.expect _ _) fun _ => .pure _

theorem safe_parseDefinition :
    Safe (Parse.parseDefinition rule) ∧ Eats (Parse.parseDefinition rule) := by
  have hkeyword : ∀ {β : Type} {x : Parse δ β} {f : β → Parse.Definition}, Safe x ∧ Eats x →
      Safe (x >>= fun d => pure (f d)) ∧ Eats (x >>= fun d => pure (f d)) :=
    fun h => ⟨.bind h.1 fun _ => .pure _, .bind_left h.2 h.1 fun _ => .pure _⟩
  have hboth : ∀ doc, ∀ token : Token, Safe (Parse.definitionAt rule doc token) ∧
      Eats (Parse.definitionAt rule doc token) := by
    intro doc token
    unfold Parse.definitionAt
    split
    · exact hkeyword safe_parseStruct
    split
    · exact hkeyword (safe_parseEnum false)
    split
    · exact hkeyword (safe_parseEnum true)
    split
    · exact hkeyword safe_parseClass
    split
    · exact hkeyword safe_parseService
    split
    · exact hkeyword safe_parseError
    · exact ⟨.fail _, .fail _⟩
  exact ⟨.bind .takeDoc fun doc => .bind .current fun token => (hboth doc token).1,
    .bind_right .takeDoc fun doc => .bind_right .current fun token => (hboth doc token).2⟩

theorem Safe.parse : Safe (Parse.parse rule) :=
  .bind (.bind (.expect _ _) fun _ => .bind (.expectName _) fun _ => .bind (.expect _ _) fun _ =>
    .pure _) fun _ => .bind (.many _ safe_parseDefinition.1 safe_parseDefinition.2) fun _ => .pure _

end

/-! ## What leaves the stage -/

section
variable {δ : Type} {rule : DocRule δ}

theorem untilStop_stops {α : Type} {stop : TokenType → Bool} {item : Parse δ α} {fuel : Nat}
    {s s' : Parser δ} {xs : List α}
    (hrun : (Parse.untilStop stop item fuel).run s = .ok xs s') : stop s'.current.type = true := by
  induction fuel generalizing s xs with
  | zero => cases hrun
  | succ fuel ih =>
    obtain ⟨token, s₁, hcurrent, hrest⟩ := Eff.run_bind_ok_iff.mp hrun
    obtain ⟨rfl, rfl⟩ := current_run hcurrent
    split at hrest
    · next hstop =>
      cases hrest
      exact hstop
    · obtain ⟨x, s₂, -, hmore⟩ := Eff.run_bind_ok_iff.mp hrest
      obtain ⟨xs', s₃, hloop, hpure⟩ := Eff.run_bind_ok_iff.mp hmore
      cases hpure
      exact ih hloop

/-- What is accepted has been read to its end. -/
theorem parse_current {s s' : Parser δ} {ast : AST}
    (hrun : (Parse.parse rule).run s = .ok ast s') : s'.current.type = .eof := by
  obtain ⟨name, s₁, -, hrest⟩ := Eff.run_bind_ok_iff.mp hrun
  obtain ⟨defs, s₂, hmany, hpure⟩ := Eff.run_bind_ok_iff.mp hrest
  cases hpure
  exact of_decide_eq_true (untilStop_stops hmany)

theorem Parser.Proper.fault_of_eof {s : Parser δ} (h : s.Proper) (hc : s.current.type = .eof) :
    s.stream.fault = none := by
  obtain ⟨-, t, hst, -⟩ := h.current hc
  rw [hst]
  rfl

/-- A run on a stream returns at its end, or throws a `ParserError` as on the truncated stream, or
throws the exception at the end, where the truncated run comes to its end. -/
theorem parseStream_cases {st : Stream} (hst : st.Proper) :
    (∃ ast s, parseStream rule st = .ok ast s ∧ st.fault = none) ∨
    (∃ message line column s, parseStream rule st = .error (.parser message line column) (some s) ∧
      parseStream rule st.truncate = .error (.parser message line column) (some s.truncate) ∧
        s.Proper ∧ s.stream.fault = st.fault) ∨
    ∃ e s, parseStream rule st = .error e s ∧ st.fault = some e ∧
      ∀ e' s', parseStream rule st.truncate = .error e' (some s') → s'.AtEnd := by
  unfold parseStream Parser.create
  cases hcreate : st.next rule rule.empty with
  | error e =>
    obtain ⟨hfault, s, ht, hend⟩ := Stream.next_error hst hcreate
    refine .inr (.inr ⟨e, none, rfl, hfault, fun e' s' hrun => ?_⟩)
    have hsafe : Safe (Parse.parse rule) := .parse
    have hends := hsafe.absorbs s hend
    rw [ht] at hrun
    dsimp only at hrun
    split at hrun
    · cases hrun
    · next he =>
      cases hrun
      exact hends.error he
  | ok s =>
    obtain ⟨ht, hs, hfault, -⟩ := Stream.next_ok hst hcreate
    dsimp only
    rw [ht]
    cases hrun : (Parse.parse rule).run s with
    | ok ast s' =>
      obtain ⟨-, hs', hfault', -⟩ := Safe.parse.ok s ast s' hs trivial hrun
      have hnone := hs'.fault_of_eof (parse_current hrun)
      exact .inl ⟨ast, _, rfl, by rw [← hfault, ← hfault', hnone]⟩
    | error e s' =>
      rcases Safe.parse.error s e s' hs trivial hrun with
        ⟨⟨message, line, column, rfl⟩, hs', hfault', ht'⟩ | ⟨hfault', hends⟩
      · refine .inr (.inl ⟨message, line, column, s', rfl, ?_, hs', hfault'.trans hfault⟩)
        dsimp only
        rw [ht']
      · refine .inr (.inr ⟨e, some s', rfl, by rw [← hfault, hfault'], fun e' s'' hrun' => ?_⟩)
        dsimp only at hrun'
        split at hrun'
        · cases hrun'
        · next he =>
          cases hrun'
          exact hends.error he

variable (rule) in
/-- On the tokens of the stream alone the parser stops at one of them. -/
def SyntaxErrorBefore (st : Stream) : Prop :=
  ∃ e s, parseStream rule st.truncate = .error e (some s) ∧ s.current.type ≠ .eof

end

/-- The parsing stage ends in a tree and its verdict or in a located error exactly where the lexer
throws nowhere, or only behind a syntax error. -/
theorem frontEnd_ends_iff (source : Str) :
    (∃ stage, frontEnd source = .ok stage) ↔
      (tokenize source).fault = none ∨ SyntaxErrorBefore pendingDoc (tokenize source) := by
  have hst : (tokenize source).Proper := Lexer.proper_stream _ _
  unfold frontEnd
  rcases @parseStream_cases _ pendingDoc _ hst with
    ⟨ast, s, hrun, hfault⟩ | ⟨message, line, column, s, hrun, htruncate, hs, hfault⟩ |
      ⟨e, s, hrun, hfault, hend⟩
  · rw [hrun]
    exact iff_of_true ⟨_, rfl⟩ (.inl hfault)
  · rw [hrun]
    refine iff_of_true ⟨_, rfl⟩ ?_
    by_cases hc : s.current.type = .eof
    · exact .inl (hfault ▸ hs.fault_of_eof hc)
    · exact .inr ⟨_, _, htruncate, hc⟩
  · rw [hrun]
    have hescapes := fault_tokenize hfault
    refine iff_of_false ?_ ?_
    · rintro ⟨stage, hstage⟩
      cases e with
      | parser message line column => exact hescapes
      | lexer message line column => cases hstage
      | outOfRange => cases hstage
      | stuck => exact hescapes
    · rintro (hnone | ⟨e', s', htruncate, hc⟩)
      · rw [hfault] at hnone
        cases hnone
      · obtain ⟨-, -, -, heof⟩ := hend e' s' htruncate
        exact hc heof

/-- `@` is not a character of the language. -/
theorem frontEnd_escapes : ¬ ∃ stage, frontEnd (lit "@") = .ok stage := by
  have hstream : tokenize (lit "@") =
      .fails (.lexer (lit "Unexpected character: '@'") 1 1) := rfl
  rintro ⟨stage, h⟩
  rw [frontEnd, hstream] at h
  cases h

end Song.Compiler
