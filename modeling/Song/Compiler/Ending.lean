import Song.Compiler.FrontEnd

/-!
# The lexer and the parser come to an end

Every loop of the parser is made of turns: a turn leaves the loop or adds an item. One that adds
an item takes a token, and at the end of the input every turn leaves its loop or throws. So a
bound on the number of turns beyond the tokens that are left changes nothing.
-/

namespace Song.Compiler

/-! ## The lexer -/

namespace Lexer

theorem length_nextToken {lx lx' : Lexer} {t : Token} (h : lx.nextToken = .ok (t, lx'))
    (ht : t.type ≠ .eof) : lx'.rest.length < lx.rest.length :=
  Nat.lt_of_lt_of_le ((lexeme_spec _).2 t lx' h ht) (length_skipBlank _ _ _ _)

/-- At most one token for each character. -/
theorem length_stream (fuel : Nat) (lx : Lexer) : (lx.stream fuel).length ≤ lx.rest.length := by
  induction fuel generalizing lx with
  | zero => exact Nat.zero_le _
  | succ fuel ih =>
    rw [stream]
    split
    · exact Nat.zero_le _
    · next t lx' hnext =>
      split
      · exact Nat.zero_le _
      · next ht => exact Nat.lt_of_le_of_lt (ih lx') (length_nextToken hnext ht)

theorem stream_fuel {fuel fuel' : Nat} {lx : Lexer} (h : lx.rest.length < fuel)
    (h' : lx.rest.length < fuel') : lx.stream fuel = lx.stream fuel' := by
  induction fuel generalizing lx fuel' with
  | zero => exact absurd h (Nat.not_lt_zero _)
  | succ fuel ih =>
    cases fuel' with
    | zero => exact absurd h' (Nat.not_lt_zero _)
    | succ fuel' =>
      rw [stream, stream]
      split
      · rfl
      · next t lx' hnext =>
        split
        · rfl
        · next ht =>
          have hlt := length_nextToken hnext ht
          exact congrArg _ (ih (by omega) (by omega))

end Lexer

/-! ## Turns -/

namespace Parse

section
variable {δ α : Type} (rule : DocRule δ)

/-- A turn of `while (!stop) items.push_back(item())`; `none` leaves the loop. -/
def untilStopTurn (stop : TokenType → Bool) (item : Parse δ α) : Parse δ (Option α) := do
  let token ← current
  if stop token.type then return none
  else do
    let x ← item
    return some x

/-- A turn of the loop behind the first item of a list. -/
def afterCommasTurn (stop : TokenType → Bool) (item : Parse δ α) : Parse δ (Option α) := do
  if ← check .comma then do
    advance rule
    let token ← current
    if stop token.type then return none
    else do
      let x ← item
      return some x
  else return none

/-- A turn of the loop over the `[]`s of a type. -/
def bracketsTurn : Parse δ (Option Unit) := do
  if ← check .lBracket then do
    advance rule
    let _ ← expect rule .rBracket (lit "Expected ']' after '['")
    return some ()
  else return none

/-- Turn after turn. -/
def turns (turn : Parse δ (Option α)) : Nat → Parse δ (List α)
  | 0 => throw .stuck
  | fuel + 1 => do
    match ← turn with
    | none => return []
    | some x => do
      let xs ← turns turn fuel
      return x :: xs

theorem untilStop_eq_turns (stop : TokenType → Bool) (item : Parse δ α) (fuel : Nat) :
    untilStop stop item fuel = turns (untilStopTurn stop item) fuel := by
  induction fuel with
  | zero => rfl
  | succ fuel ih =>
    rw [untilStop, turns, ih, untilStopTurn, bind_assoc]
    refine bind_congr fun token => ?_
    split
    · rfl
    · rw [bind_assoc]
      rfl

theorem afterCommas_eq_turns (stop : TokenType → Bool) (item : Parse δ α) (fuel : Nat) :
    afterCommas rule stop item fuel = turns (afterCommasTurn rule stop item) fuel := by
  induction fuel with
  | zero => rfl
  | succ fuel ih =>
    rw [afterCommas, turns, ih, afterCommasTurn, bind_assoc]
    refine bind_congr fun comma => ?_
    split
    · rw [bind_assoc]
      refine bind_congr fun _ => ?_
      rw [bind_assoc]
      refine bind_congr fun token => ?_
      split
      · rfl
      · rw [bind_assoc]
        rfl
    · rfl

theorem brackets_eq_turns (fuel : Nat) :
    brackets rule fuel = List.length <$> turns (bracketsTurn rule) fuel := by
  induction fuel with
  | zero => rfl
  | succ fuel ih =>
    rw [brackets, turns, ih, bracketsTurn, bind_assoc, map_bind]
    refine bind_congr fun bracket => ?_
    split
    · rw [bind_assoc, map_bind]
      refine bind_congr fun _ => ?_
      rw [bind_assoc, map_bind]
      refine bind_congr fun _ => ?_
      simp only [map_eq_pure_bind, bind_assoc, pure_bind, List.length_cons]
    · rfl

/-- The loops of the parser, by their turns. -/
inductive Loop : {α : Type} → Parse δ (Option α) → Prop where
  | definitions : Loop (untilStopTurn (· = .eof) (parseDefinition rule))
  /-- Of a struct, or of an error. -/
  | fields : Loop (untilStopTurn atBodyEnd (parseField rule))
  | members (className : Str) : Loop (untilStopTurn atBodyEnd (parseMember rule className))
  | serviceMethods : Loop (untilStopTurn atBodyEnd (parseServiceMethod rule))
  | enumItems : Loop (afterCommasTurn rule (· = .rBrace) (parseEnumItem rule))
  | params : Loop (afterCommasTurn rule (fun _ => false) (parseParam rule))
  | throws : Loop (afterCommasTurn rule (fun _ => false)
      (expectName rule (lit "Expected error type")))
  | brackets : Loop (bracketsTurn rule)

end

end Parse

/-! ## Progress -/

section
variable {δ α : Type} {rule : DocRule δ}

/-- A turn that goes on takes a token, and none goes on at the end of the input. -/
structure Progress (turn : Parse δ (Option α)) : Prop where
  takes : ∀ s x s', s.Proper → turn.run s = .ok (some x) s' → s'.Proper ∧ s'.left < s.left
  stops : ∀ s x s', s.current.type = .eof → turn.run s ≠ .ok (some x) s'

namespace Progress

open Parse (untilStopTurn afterCommasTurn bracketsTurn turns)

theorem untilStop {stop : TokenType → Bool} (hstop : stop .eof = true) {item : Parse δ α}
    (hsafe : Safe item) (heats : Eats item) : Progress (untilStopTurn stop item) := by
  have hrun : ∀ {s x s'}, (untilStopTurn stop item).run s = .ok (some x) s' →
      stop s.current.type = false ∧ item.run s = .ok x s' := by
    intro s x s' hrun
    obtain ⟨token, s₁, hcurrent, hrest⟩ := Eff.run_bind_ok_iff.mp hrun
    obtain ⟨rfl, rfl⟩ := current_run hcurrent
    split at hrest
    · cases hrest
    · next hgoes =>
      obtain ⟨y, s₂, hitem, hpure⟩ := Eff.run_bind_ok_iff.mp hrest
      cases hpure
      exact ⟨Bool.eq_false_iff.mpr hgoes, hitem⟩
  refine ⟨fun s x s' hs h => ?_, fun s x s' hc h => ?_⟩
  · have hitem := (hrun h).2
    exact ⟨(hsafe.ok s x s' hs trivial hitem).2.1, heats s x s' hs hitem⟩
  · have hgoes := (hrun h).1
    rw [hc, hstop] at hgoes
    cases hgoes

/-- The token that is taken is of the type that the loop looks for. -/
theorem whileNext {type : TokenType} (htype : type ≠ .eof) {x : Parse δ (Option α)}
    (hx : Safe x) : Progress (do
      if ← Parse.check type then do
        Parse.advance rule
        x
      else return none) := by
  have hrun : ∀ {s y s'}, (do
      if ← Parse.check type then do
        Parse.advance rule
        x
      else return none : Parse δ (Option α)).run s = .ok (some y) s' →
      s.current.type = type ∧ ∃ s₁, (Parse.advance rule).run s = .ok () s₁ ∧
        x.run s₁ = .ok (some y) s' := by
    intro s y s' h
    obtain ⟨b, s₁, hcheck, hrest⟩ := Eff.run_bind_ok_iff.mp h
    obtain ⟨hb, rfl⟩ := check_run hcheck
    split at hrest
    · next htrue =>
      obtain ⟨_, s₂, hadvance, hx⟩ := Eff.run_bind_ok_iff.mp hrest
      exact ⟨hb.mp htrue, s₂, hadvance, hx⟩
    · cases hrest
  refine ⟨fun s y s' hs h => ?_, fun s y s' hc h => ?_⟩
  · obtain ⟨hc, s₁, hadvance, hrest⟩ := hrun h
    have hs₁ := (Safe.advance.ok s () s₁ hs trivial hadvance).2.1
    obtain ⟨-, hs', -, hleft⟩ := hx.ok s₁ _ s' hs₁ trivial hrest
    exact ⟨hs', Nat.lt_of_le_of_lt hleft (advance_left hs (by rw [hc]; exact htype) hadvance)⟩
  · exact htype ((hrun h).1.symm.trans hc)

theorem afterCommas {stop : TokenType → Bool} {item : Parse δ α} (hitem : Safe item) :
    Progress (afterCommasTurn rule stop item) := by
  refine whileNext (by decide) (.bind .current fun token => ?_)
  split
  · exact .pure _
  · exact .bind hitem fun _ => .pure _

theorem brackets : Progress (bracketsTurn rule) :=
  whileNext (by decide) (.bind (.expect _ _) fun _ => .pure _)

theorem of_loop {turn : Parse δ (Option α)} (h : Parse.Loop rule turn) : Progress turn := by
  cases h with
  | definitions => exact untilStop rfl safe_parseDefinition.1 safe_parseDefinition.2
  | fields => exact untilStop rfl .parseField .parseField
  | members className => exact untilStop rfl (.parseMember _) (.parseMember _)
  | serviceMethods => exact untilStop rfl safe_parseServiceMethod.1 safe_parseServiceMethod.2
  | enumItems => exact afterCommas .parseEnumItem
  | params => exact afterCommas .parseParam
  | throws => exact afterCommas (.expectName _)
  | brackets => exact brackets

/-- Any two bounds beyond the tokens that are left give the same run. -/
theorem turns_fuel {turn : Parse δ (Option α)} (h : Progress turn) {n m : Nat} {s : Parser δ}
    (hs : s.Proper) (hn : s.left < n) (hm : s.left < m) :
    (turns turn n).run s = (turns turn m).run s := by
  induction n generalizing m s with
  | zero => exact absurd hn (Nat.not_lt_zero _)
  | succ n ih =>
    cases m with
    | zero => exact absurd hm (Nat.not_lt_zero _)
    | succ m =>
      rw [turns, turns]
      cases hturn : turn.run s with
      | error e s₁ => rw [Eff.run_bind_error hturn, Eff.run_bind_error hturn]
      | ok x s₁ =>
        rw [Eff.run_bind_ok hturn, Eff.run_bind_ok hturn]
        cases x with
        | none => rfl
        | some x =>
          obtain ⟨hs₁, hleft⟩ := h.takes s x s₁ hs hturn
          exact Eff.run_bind_congr (ih hs₁ (by omega) (by omega))

end Progress

end

/-! ## The end -/

/-- No loop of the parser's runs out of fuel. -/
theorem parseStream_ne_stuck {δ : Type} {rule : DocRule δ} {st : Stream} (hst : st.Proper)
    (hfault : st.fault ≠ some .stuck) (s : Option (Parser δ)) :
    parseStream rule st ≠ .error .stuck s := by
  intro h
  rcases @parseStream_cases _ rule _ hst with ⟨ast, s', hrun, -⟩ | ⟨_, _, _, s', hrun, -⟩ |
    ⟨e, s', hrun, he, -⟩
  · cases h.symm.trans hrun
  · cases h.symm.trans hrun
  · cases h.symm.trans hrun
    exact hfault he

/-- The lexer comes to the end of the input or throws after a token for each byte at most, the
parser returns or throws, and every loop of the parser takes a token in each turn that does not
leave it and leaves at the end of the input. -/
theorem parsing_ends (source : Str) :
    ((tokenize source).length ≤ source.length ∧ (tokenize source).fault ≠ some .stuck ∧
      ∀ fuel, source.length < fuel → (Lexer.create source).stream fuel = tokenize source) ∧
    (∀ s, parseStream pendingDoc (tokenize source) ≠ .error .stuck s) ∧
    ∀ {α : Type} (turn : Parse Str (Option α)), Parse.Loop pendingDoc turn → Progress turn ∧
      ∀ s n m, s.Proper → s.left < n → s.left < m →
        (Parse.turns turn n).run s = (Parse.turns turn m).run s := by
  have hfault : (tokenize source).fault ≠ some .stuck := fun h => fault_tokenize h
  refine ⟨⟨Lexer.length_stream _ _, hfault, fun fuel h => ?_⟩, ?_, fun turn h => ?_⟩
  · exact Lexer.stream_fuel h (Nat.lt_succ_self _)
  · exact parseStream_ne_stuck (Lexer.proper_stream _ _) hfault
  · have hp := Progress.of_loop h
    exact ⟨hp, fun s n m hs hn hm => hp.turns_fuel hs hn hm⟩

end Song.Compiler
