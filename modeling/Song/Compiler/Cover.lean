import Mathlib.Data.Nat.Digits.Defs
import Song.Compiler.Lexed
import Song.Lib.List

/-!
# The tokens cover the text

What the lexer makes of a text, from the text's side: `Gap` is what may stand between two tokens,
`Token.Spelled` how a token is written in front of what follows it, `lineAfter` and `columnAfter`
the position behind what was read. A stream that ends without an exception covers its text
(`Stream.Covers`).
-/

namespace Song.Compiler

/-! ## Positions -/

/-- The line behind what was read. -/
def lineAfter (before : Str) : Nat := 1 + before.count (ch '\n')

/-- The column there: 1 plus the distance from the last newline. -/
def columnAfter (before : Str) : Nat := 1 + (before.reverse.takeWhile (· != ch '\n')).length

@[simp] theorem lineAfter_nil : lineAfter [] = 1 := rfl

@[simp] theorem columnAfter_nil : columnAfter [] = 1 := rfl

@[simp] theorem lineAfter_newline (before : Str) :
    lineAfter (before ++ [ch '\n']) = lineAfter before + 1 := by
  rw [lineAfter, lineAfter, List.count_append, List.count_singleton_self, Nat.add_assoc]

@[simp] theorem columnAfter_newline (before : Str) : columnAfter (before ++ [ch '\n']) = 1 := by
  rw [columnAfter, List.reverse_append]
  rfl

theorem lineAfter_append {s : Str} (hs : ch '\n' ∉ s) (before : Str) :
    lineAfter (before ++ s) = lineAfter before := by
  rw [lineAfter, lineAfter, List.count_append, List.count_eq_zero_of_not_mem hs, Nat.add_zero]

theorem columnAfter_append {s : Str} (hs : ch '\n' ∉ s) (before : Str) :
    columnAfter (before ++ s) = columnAfter before + s.length := by
  have hall : ∀ c ∈ s.reverse, (c != ch '\n') = true := fun c hc => by
    rw [bne_iff_ne]
    rintro rfl
    exact hs (List.mem_reverse.mp hc)
  rw [columnAfter, columnAfter, List.reverse_append, List.takeWhile_append_of_pos hall,
    List.length_append, List.length_reverse, Nat.add_comm s.length, Nat.add_assoc]

/-- The lexer stands behind what was read. -/
def Lexer.At (lx : Lexer) (before : Str) : Prop :=
  lx.line = lineAfter before ∧ lx.column = columnAfter before

/-- The token begins behind what was read. -/
def Token.At (t : Token) (before : Str) : Prop :=
  t.line = lineAfter before ∧ t.column = columnAfter before

theorem Lexer.At.append {lx : Lexer} {before s : Str} (h : lx.At before) (hs : ch '\n' ∉ s)
    (rest : Str) : (⟨rest, lx.line, lx.column + s.length⟩ : Lexer).At (before ++ s) :=
  ⟨h.1.trans (lineAfter_append hs before).symm,
    (congrArg (· + s.length) h.2).trans (columnAfter_append hs before).symm⟩

/-! ## What a text is made of -/

/-- Blanks, newlines and comments, in front of `rest`. -/
inductive Gap (rest : Str) : Str → Prop where
  | nil : Gap rest []
  | blank {c : UInt8} {s : Str} (hc : c ∈ [ch ' ', ch '\t', ch '\r', ch '\n']) (hs : Gap rest s) :
    Gap rest (c :: s)
  /-- From a `//` that is no `///` to the end of the line. -/
  | comment {body s : Str} (hbody : ch '\n' ∉ body) (hslash : body.head? ≠ some (ch '/'))
    (hend : (s ++ rest).head?.all (· == ch '\n') = true) (hs : Gap rest s) :
    Gap rest (lit "//" ++ body ++ s)

/-- The number that digits of a base spell. -/
def reading (base : Nat) (digits : Str) : Nat :=
  Nat.ofDigits base (digits.reverse.map digitValue)

/-- How a token other than the end is written, in front of `rest`. -/
inductive Token.Spelled (t : Token) (rest : Str) : Str → Prop where
  /-- A name or a keyword: the keyword of the table, if it is in the table. -/
  | word (hfirst : t.value.head?.any (fun c => isAlpha c || c == ch '_') = true)
    (hchars : t.value.all isWordChar = true) (hmaximal : rest.head?.any isWordChar = false)
    (hkeyword : ∀ k, k ≠ .identifier → (t.type = k ↔ (t.value, k) ∈ keywords)) :
    Spelled t rest t.value
  | decimal (htype : t.type = .integer) (hne : t.value ≠ []) (hdigits : t.value.all isDigit = true)
    (hmaximal : rest.head?.any isDigit = false)
    (hx : ∀ x ∈ [ch 'x', ch 'X'], ¬ (t.value = lit "0" ∧ rest.head? = some x))
    (hvalue : t.intValue.toInt = reading 10 t.value) : Spelled t rest t.value
  | hex {x : UInt8} {digits : Str} (htype : t.type = .integer) (hx : x ∈ [ch 'x', ch 'X'])
    (hne : digits ≠ []) (hdigits : digits.all isXDigit = true)
    (hmaximal : rest.head?.any isXDigit = false) (htext : t.value = ch '0' :: x :: digits)
    (hvalue : t.intValue.toInt = reading 16 digits) : Spelled t rest t.value
  /-- The space behind the slashes is not in the value. -/
  | doc {space : Str} (htype : t.type = .docComment)
    (hspace : space = [ch ' '] ∨ space = [] ∧ t.value.head? ≠ some (ch ' '))
    (hline : ch '\n' ∉ t.value) (hend : rest.head?.all (· == ch '\n') = true) :
    Spelled t rest (lit "///" ++ space ++ t.value)
  | mark (h : (t.value, t.type) ∈ (lit "->", .arrow) :: Lexer.punctuation) : Spelled t rest t.value

/-- Only the end of the input has the type of the end. -/
theorem Token.Spelled.type_ne_eof {t : Token} {rest spelling : Str} (h : t.Spelled rest spelling) :
    t.type ≠ .eof := by
  intro ht
  cases h with
  | word _ _ _ hkeyword =>
    have hnone : ∀ p ∈ keywords, p.2 ≠ .eof := by decide
    exact hnone _ ((hkeyword .eof (by decide)).mp ht) rfl
  | decimal htype => exact absurd (htype.symm.trans ht) (by decide)
  | hex htype => exact absurd (htype.symm.trans ht) (by decide)
  | doc htype => exact absurd (htype.symm.trans ht) (by decide)
  | mark h =>
    have hnone : ∀ p ∈ (lit "->", .arrow) :: Lexer.punctuation, p.2 ≠ .eof := by decide
    exact hnone _ h ht

/-- Behind what was read, the text is the tokens with gaps between them. -/
def Stream.Covers : Stream → Str → Str → Prop
  | token t st, before, text => ∃ gap spelling rest, text = gap ++ spelling ++ rest ∧
      Gap (spelling ++ rest) gap ∧ t.Spelled rest spelling ∧ t.At (before ++ gap) ∧
      st.Covers (before ++ gap ++ spelling) rest
  | eof t, before, text => t.type = .eof ∧ Gap [] text ∧ t.At (before ++ text)
  | fails _, _, _ => False

/-! ## The scanning routines -/

/-- What is taken is all there is, or something else follows. -/
theorem exists_takeWhile (p : UInt8 → Bool) (s : Str) :
    ∃ rest, s = s.takeWhile p ++ rest ∧ rest.head?.any p = false := by
  refine ⟨s.dropWhile p, List.takeWhile_append_dropWhile.symm, ?_⟩
  have h := List.head?_dropWhile_not p s
  cases hhead : (s.dropWhile p).head? with
  | none => rfl
  | some c =>
    rw [hhead] at h
    exact h

theorem newline_of_all {p : UInt8 → Bool} (hp : p (ch '\n') = false) {s : Str}
    (hs : s.all p = true) : ch '\n' ∉ s := fun h => by
  rw [List.all_eq_true.mp hs _ h] at hp
  cases hp

theorem stoll_ok {base : Nat} {digits : Str} {n : Int64} (h : stoll base digits = .ok n) :
    n.toInt = reading base digits := by
  have hfold : digits.foldl (fun n c => n * base + digitValue c) 0 = reading base digits := by
    rw [reading, Nat.ofDigits_eq_foldr, List.map_reverse, List.foldr_reverse, List.foldl_map]
    congr 1
    funext n c
    rw [Nat.cast_id, Nat.mul_comm, Nat.add_comm]
  rw [stoll, hfold] at h
  split at h
  · next hlt =>
    rw [← Except.ok.inj h, Int64.toInt_ofNat_of_lt hlt]
  · cases h

namespace Lexer

theorem startsComment_iff {cs : Str} :
    startsComment cs = true ↔ ∃ cs', cs = ch '/' :: cs' ∧ cs'.head? ≠ some (ch '/') := by
  cases cs with
  | nil => exact ⟨fun h => (by cases h), fun ⟨_, h, _⟩ => (by cases h)⟩
  | cons c cs =>
    rw [startsComment, Bool.and_eq_true, beq_iff_eq, bne_iff_ne]
    exact ⟨fun ⟨hc, hcs⟩ => ⟨cs, by rw [hc], hcs⟩, fun ⟨_, h, hcs⟩ => by cases h; exact ⟨rfl, hcs⟩⟩

/-- What is skipped is a gap; behind the slashes of a comment, the comment's text comes first. -/
theorem skipBlank_eq (cs before : Str) :
    (∃ gap rest, cs = gap ++ rest ∧ Gap rest gap ∧
      skipBlank false cs (lineAfter before) (columnAfter before) =
        ⟨rest, lineAfter (before ++ gap), columnAfter (before ++ gap)⟩) ∧
    ∃ body gap rest, cs = body ++ (gap ++ rest) ∧ ch '\n' ∉ body ∧
      (gap ++ rest).head?.all (· == ch '\n') = true ∧ Gap rest gap ∧
      skipBlank true cs (lineAfter before) (columnAfter before) =
        ⟨rest, lineAfter (before ++ (body ++ gap)), columnAfter (before ++ (body ++ gap))⟩ := by
  induction cs generalizing before with
  | nil =>
    refine ⟨⟨[], [], rfl, .nil, ?_⟩, [], [], [], rfl, List.not_mem_nil, rfl, .nil, ?_⟩
    all_goals
      simp only [List.append_nil]
      rfl
  | cons c cs ih =>
    obtain ⟨hblank, hcomment⟩ := ih (before ++ [c])
    by_cases hnewline : c = ch '\n'
    · -- Both ways go on with the blanks of the next line.
      obtain ⟨gap, rest, rfl, hgap, hskip⟩ := hblank
      rw [hnewline, lineAfter_newline, columnAfter_newline, List.append_assoc] at hskip
      have hgap' : Gap rest (ch '\n' :: gap) := .blank (by decide) hgap
      refine ⟨⟨_, rest, ?_, hgap', ?_⟩, [], _, rest, ?_, List.not_mem_nil, ?_, hgap', ?_⟩
      · rw [hnewline]
        rfl
      · rw [skipBlank, if_pos (beq_iff_eq.mpr hnewline), hskip]
        rfl
      · rw [hnewline]
        rfl
      · rfl
      · rw [skipBlank, if_pos (beq_iff_eq.mpr hnewline), hskip]
        rfl
    have hc : ch '\n' ∉ [c] := fun h => hnewline (List.mem_singleton.mp h).symm
    rw [lineAfter_append hc, columnAfter_append hc, List.length_singleton] at hblank hcomment
    obtain ⟨body, gap, rest, hcs, hbody, hend, hgap, hskip⟩ := hcomment
    have hne : ¬ (c == ch '\n') = true := fun h => hnewline (beq_iff_eq.mp h)
    refine ⟨?_, c :: body, gap, rest, by rw [hcs]; rfl, ?_, hend, hgap, ?_⟩
    · rw [skipBlank, if_neg hne, if_neg Bool.false_ne_true]
      split
      · next hspace =>
        obtain ⟨gap, rest, rfl, hgap, hskip⟩ := hblank
        refine ⟨c :: gap, rest, rfl, .blank ?_ hgap, ?_⟩
        · simp only [Bool.or_eq_true, beq_iff_eq] at hspace
          simp only [List.mem_cons, List.not_mem_nil, or_false]
          tauto
        · rw [hskip, List.append_assoc]
          rfl
      split
      · next hstart =>
        rw [Bool.and_eq_true, beq_iff_eq, startsComment_iff] at hstart
        obtain ⟨rfl, cs', rfl, hslash⟩ := hstart
        -- The second slash is where the comment's text begins for `skipBlank`.
        cases body with
        | nil =>
          rw [← List.nil_append (gap ++ rest), ← hcs] at hend
          cases hend
        | cons d body =>
          rw [List.cons_append, List.cons.injEq] at hcs
          obtain ⟨rfl, rfl⟩ := hcs
          refine ⟨lit "//" ++ body ++ gap, rest, ?_, .comment ?_ ?_ hend hgap, ?_⟩
          · rw [List.append_assoc, List.append_assoc]
            rfl
          · exact fun h => hbody (List.mem_cons_of_mem _ h)
          · intro h
            apply hslash
            rw [List.head?_append, h]
            rfl
          · rw [hskip, List.append_assoc]
            rfl
      · exact ⟨[], c :: cs, rfl, .nil, by rw [List.append_nil]⟩
    · rintro (_ | ⟨_, h⟩)
      · exact hnewline rfl
      · exact hbody h
    · rw [skipBlank, if_neg hne, if_pos rfl, hskip, List.append_assoc]
      rfl

/-! ## One token -/

theorem mem_keywords {value : Str} {k : TokenType} (hk : k ≠ .identifier) :
    (keywords.lookup value).getD .identifier = k ↔ (value, k) ∈ keywords := by
  have hzip : (keywords.map Prod.fst).zip (keywords.map Prod.snd) = keywords := rfl
  constructor
  · intro h
    cases hlookup : keywords.lookup value with
    | none =>
      rw [hlookup] at h
      exact absurd h.symm hk
    | some k' =>
      rw [hlookup] at h
      obtain rfl : k' = k := h
      obtain ⟨l, l', hl, -⟩ := List.lookup_eq_some_iff.mp hlookup
      rw [hl]
      exact List.mem_append_right _ List.mem_cons_self
  · intro h
    rw [← hzip] at h ⊢
    rw [List.lookup_zip_of_mem (by decide) h]
    rfl

/-- The token is written in front of the lexer, which then stands behind it. -/
structure Takes (lx : Lexer) (t : Token) (lx' : Lexer) (spelling : Str) : Prop where
  text : lx.rest = spelling ++ lx'.rest
  spelled : t.Spelled lx'.rest spelling
  newline : ch '\n' ∉ spelling
  token : t.line = lx.line ∧ t.column = lx.column
  lexer : lx' = ⟨lx'.rest, lx.line, lx.column + spelling.length⟩

theorem Takes.at {lx lx' : Lexer} {t : Token} {spelling before : Str}
    (h : lx.Takes t lx' spelling) (hat : lx.At before) :
    t.At before ∧ lx'.At (before ++ spelling) := by
  refine ⟨⟨h.token.1.trans hat.1, h.token.2.trans hat.2⟩, ?_⟩
  rw [h.lexer]
  exact hat.append h.newline _

/-- What is left behind a prefix, for a token that begins where the lexer stands. -/
theorem takes_advance {spelling rest : Str} {line column : Nat} {t : Token}
    (hspelled : t.Spelled rest spelling) (hnewline : ch '\n' ∉ spelling) (hline : t.line = line)
    (hcolumn : t.column = column) :
    (⟨spelling ++ rest, line, column⟩ : Lexer).Takes t
      ((⟨spelling ++ rest, line, column⟩ : Lexer).advance spelling.length) spelling := by
  rw [advance_append]
  exact ⟨rfl, hspelled, hnewline, ⟨hline, hcolumn⟩, rfl⟩

theorem takes_lexIdentifierOrKeyword {lx : Lexer}
    (hfirst : lx.rest.head?.any (fun c => isAlpha c || c == ch '_') = true) :
    ∃ spelling, lx.Takes lx.lexIdentifierOrKeyword.1 lx.lexIdentifierOrKeyword.2 spelling := by
  obtain ⟨text, line, column⟩ := lx
  obtain ⟨rest, htext, hmaximal⟩ := exists_takeWhile isWordChar text
  have hchars : (text.takeWhile isWordChar).all isWordChar = true := List.all_takeWhile
  have hfirst' : (text.takeWhile isWordChar).head?.any (fun c => isAlpha c || c == ch '_') =
      true := by
    cases text with
    | nil => cases hfirst
    | cons c cs =>
      rw [List.takeWhile_cons_of_pos (isWordChar_of_first hfirst)]
      exact hfirst
  rw [lexIdentifierOrKeyword]
  dsimp only
  generalize text.takeWhile isWordChar = value at htext hchars hfirst' ⊢
  subst htext
  have hspelled : Token.Spelled ⟨(keywords.lookup value).getD .identifier, value, line, column, 0⟩
      rest value := .word hfirst' hchars hmaximal fun k hk => mem_keywords hk
  exact ⟨value, takes_advance hspelled (newline_of_all rfl hchars) rfl rfl⟩

theorem takes_lexDocComment {lx : Lexer} {cs : Str} (hlx : lx.rest = lit "///" ++ cs) :
    ∃ spelling, lx.Takes lx.lexDocComment.1 lx.lexDocComment.2 spelling := by
  obtain ⟨text, line, column⟩ := lx
  obtain rfl : text = lit "///" ++ cs := hlx
  have hadvance : (⟨lit "///" ++ cs, line, column⟩ : Lexer).advance 3 = ⟨cs, line, column + 3⟩ :=
    rfl
  -- Whatever is dropped behind the slashes, the value is the rest of the line.
  have htakes : ∀ space cs' : Str, cs = space ++ cs' → space = [ch ' '] ∨ space = [] ∧
      cs'.head? ≠ some (ch ' ') → (⟨lit "///" ++ cs, line, column⟩ : Lexer).Takes
        ⟨.docComment, cs'.takeWhile (· != ch '\n'), line, column, 0⟩
        ((⟨cs', line, column + 3 + space.length⟩ : Lexer).advance
          (cs'.takeWhile (· != ch '\n')).length)
        (lit "///" ++ space ++ cs'.takeWhile (· != ch '\n')) := by
    intro space cs' hcs hspace
    obtain ⟨rest, hrest, hend⟩ := exists_takeWhile (· != ch '\n') cs'
    have hline : ch '\n' ∉ cs'.takeWhile (· != ch '\n') :=
      newline_of_all (p := (· != ch '\n')) rfl List.all_takeWhile
    have hspace' : space = [ch ' '] ∨ space = [] ∧
        (cs'.takeWhile (· != ch '\n')).head? ≠ some (ch ' ') := by
      rcases hspace with hspace | ⟨hspace, hhead⟩
      · exact .inl hspace
      · refine .inr ⟨hspace, fun h => hhead ?_⟩
        rw [hrest, List.head?_append, h]
        rfl
    generalize cs'.takeWhile (· != ch '\n') = value at hrest hline hspace' ⊢
    subst hrest hcs
    rw [advance_append]
    refine ⟨?_, .doc rfl hspace' hline ?_, ?_, ⟨rfl, rfl⟩, ?_⟩
    · rw [List.append_assoc, List.append_assoc]
    · cases rest with
      | nil => rfl
      | cons c rest => simpa using hend
    · have hnot : ch '\n' ∉ lit "///" ++ space := by
        rcases hspace' with rfl | ⟨rfl, -⟩ <;> decide
      exact List.not_mem_append hnot hline
    · simp only [List.length_append, Nat.add_assoc]
      rfl
  rw [lexDocComment, hadvance]
  dsimp only
  split
  · next hhead =>
    cases cs with
    | nil => cases hhead
    | cons c cs =>
      obtain rfl : c = ch ' ' := by simpa using hhead
      exact ⟨_, htakes [ch ' '] cs rfl (.inl rfl)⟩
  · next hhead => exact ⟨_, htakes [] cs rfl (.inr ⟨rfl, fun h => hhead (beq_iff_eq.mpr h)⟩)⟩

theorem hex_prefix {text : Str}
    (h : (text.take 2 == lit "0x" || text.take 2 == lit "0X") = true) :
    ∃ x, x ∈ [ch 'x', ch 'X'] ∧ ∃ cs, text = ch '0' :: x :: cs := by
  rw [← List.take_append_drop 2 text]
  rcases Bool.or_eq_true_iff.mp h with h | h
  · exact ⟨ch 'x', by decide, text.drop 2, by rw [beq_iff_eq.mp h]; rfl⟩
  · exact ⟨ch 'X', by decide, text.drop 2, by rw [beq_iff_eq.mp h]; rfl⟩

theorem takes_lexInteger {lx lx' : Lexer} {t : Token} (hdigit : lx.rest.head?.any isDigit = true)
    (h : lx.lexInteger = .ok (t, lx')) : ∃ spelling, lx.Takes t lx' spelling := by
  obtain ⟨text, line, column⟩ := lx
  rw [lexInteger] at h
  dsimp only at h
  split at h
  · next hpre =>
    obtain ⟨x, hx, cs, rfl⟩ := hex_prefix hpre
    obtain ⟨rest, hrest, hmaximal⟩ := exists_takeWhile isXDigit cs
    have hdigits : (cs.takeWhile isXDigit).all isXDigit = true := List.all_takeWhile
    rw [show (ch '0' :: x :: cs).take 2 = [ch '0', x] from rfl,
      show (ch '0' :: x :: cs).drop 2 = cs from rfl] at h
    generalize cs.takeWhile isXDigit = digits at hrest hdigits h
    subst hrest
    cases digits with
    | nil => cases h
    | cons d digits =>
      cases hn : stoll 16 (d :: digits) with
      | error e =>
        rw [hn] at h
        cases h
      | ok n =>
        rw [hn] at h
        cases h
        have hnewline : ch '\n' ∉ [ch '0', x] ++ (d :: digits) := by
          refine List.not_mem_append ?_ (newline_of_all rfl hdigits)
          rcases List.mem_cons.mp hx with rfl | hx
          · decide
          · rw [List.mem_singleton.mp hx]
            decide
        have hspelled : Token.Spelled
            ⟨.integer, [ch '0', x] ++ (d :: digits), line, column, n⟩ rest
            ([ch '0', x] ++ (d :: digits)) :=
          .hex rfl hx (List.cons_ne_nil d digits) hdigits hmaximal rfl (stoll_ok hn)
        exact ⟨_, takes_advance hspelled hnewline rfl rfl⟩
  · next hpre =>
    obtain ⟨rest, hrest, hmaximal⟩ := exists_takeWhile isDigit text
    have hdigits : (text.takeWhile isDigit).all isDigit = true := List.all_takeWhile
    have hne : text.takeWhile isDigit ≠ [] := by
      cases text with
      | nil => cases hdigit
      | cons c cs =>
        have hc : isDigit c = true := hdigit
        rw [List.takeWhile_cons_of_pos hc]
        exact List.cons_ne_nil _ _
    generalize text.takeWhile isDigit = value at hrest hdigits hne h
    subst hrest
    cases hn : stoll 10 value with
    | error e =>
      rw [hn] at h
      cases h
    | ok n =>
      rw [hn] at h
      cases h
      refine ⟨value, takes_advance (.decimal rfl hne hdigits hmaximal ?_ (stoll_ok hn))
        (newline_of_all rfl hdigits) rfl rfl⟩
      rintro x hx ⟨hvalue, hhead⟩
      dsimp only at hvalue
      apply hpre
      cases rest with
      | nil => cases hhead
      | cons c rest =>
        cases hhead
        rw [hvalue]
        rcases List.mem_cons.mp hx with rfl | hx
        · rfl
        · rw [List.mem_singleton.mp hx]
          rfl

/-- One token, with what it is written as. -/
theorem takes_lexeme {lx lx' : Lexer} {t : Token} (h : lx.lexeme = .ok (t, lx'))
    (hne : lx.rest ≠ []) : ∃ spelling, lx.Takes t lx' spelling := by
  obtain ⟨text, line, column⟩ := lx
  cases text with
  | nil => exact absurd rfl hne
  | cons c cs =>
    rw [lexeme] at h
    dsimp only at h
    split at h
    · next hdoc =>
      cases h
      rw [Bool.and_eq_true, beq_iff_eq, beq_iff_eq] at hdoc
      have htext : c :: cs = lit "///" ++ cs.drop 2 := by
        conv_lhs => rw [← List.take_append_drop 2 cs, hdoc.1, hdoc.2]
        rfl
      exact takes_lexDocComment htext
    split at h
    · next type hmark =>
      cases h
      have hmem : ([c], type) ∈ punctuation := by
        obtain ⟨l, l', hl, -⟩ := List.lookup_eq_some_iff.mp hmark
        rw [hl]
        exact List.mem_append_right _ List.mem_cons_self
      have hnewline : ch '\n' ∉ [c] := by
        intro hc
        rw [← List.mem_singleton.mp hc] at hmark
        cases hmark
      have hspelled : Token.Spelled ⟨type, [c], line, column, 0⟩ cs [c] :=
        .mark (List.mem_cons_of_mem _ hmem)
      exact ⟨_, takes_advance hspelled hnewline rfl rfl⟩
    split at h
    · next harrow =>
      cases h
      rw [Bool.and_eq_true, beq_iff_eq, beq_iff_eq] at harrow
      obtain ⟨rfl, hhead⟩ := harrow
      cases cs with
      | nil => cases hhead
      | cons d cs =>
        cases hhead
        have hspelled : Token.Spelled ⟨.arrow, lit "->", line, column, 0⟩ cs (lit "->") :=
          .mark List.mem_cons_self
        exact ⟨_, takes_advance hspelled (by decide) rfl rfl⟩
    split at h
    · next hdigit => exact takes_lexInteger hdigit h
    split at h
    · next hfirst =>
      cases h
      exact takes_lexIdentifierOrKeyword hfirst
    · cases h

end Lexer

/-! ## The whole text -/

theorem Lexer.stream_covers {fuel : Nat} {lx : Lexer} {before : Str} (hat : lx.At before)
    (h : (lx.stream fuel).fault = none) : (lx.stream fuel).Covers before lx.rest := by
  induction fuel generalizing lx before with
  | zero => cases h
  | succ fuel ih =>
    obtain ⟨⟨gap, rest, htext, hgap, hskip⟩, -⟩ := skipBlank_eq lx.rest before
    rw [← hat.1, ← hat.2] at hskip
    rw [stream, nextToken, hskip] at h ⊢
    have hat' : (⟨rest, lineAfter (before ++ gap), columnAfter (before ++ gap)⟩ : Lexer).At
      (before ++ gap) := ⟨rfl, rfl⟩
    cases hlexeme : (⟨rest, lineAfter (before ++ gap), columnAfter (before ++ gap)⟩ : Lexer).lexeme
    with
    | error e =>
      rw [hlexeme] at h
      cases h
    | ok r =>
      obtain ⟨t, lx'⟩ := r
      rw [hlexeme] at h
      dsimp only at h ⊢
      by_cases hrest : rest = []
      · subst hrest
        cases hlexeme
        rw [if_pos rfl]
        rw [List.append_nil] at htext
        refine ⟨rfl, ?_, ?_⟩
        · rw [htext]
          exact hgap
        · rw [htext]
          exact ⟨rfl, rfl⟩
      · obtain ⟨spelling, htakes⟩ := takes_lexeme hlexeme hrest
        have ht := htakes.spelled.type_ne_eof
        rw [if_neg ht] at h ⊢
        obtain ⟨htoken, hlexer⟩ := htakes.at hat'
        obtain rfl : rest = spelling ++ lx'.rest := htakes.text
        refine ⟨gap, spelling, lx'.rest, ?_, hgap, htakes.spelled, htoken, ih hlexer h⟩
        rw [htext, List.append_assoc]

/-- A text that is read without an exception is its tokens, each where it says it is, with
nothing but blanks and comments between them. -/
theorem tokenize_covers (source : Str) (h : (tokenize source).fault = none) :
    (tokenize source).Covers [] source :=
  Lexer.stream_covers ⟨rfl, rfl⟩ h

/-- With a comment, documentation, names, a keyword and both kinds of numbers. -/
theorem tokenize_covers_enum :
    (tokenize (lit "// c\n/// d\nenum E \x7b A = 0x1F, B = 9 \x7d")).Covers []
      (lit "// c\n/// d\nenum E \x7b A = 0x1F, B = 9 \x7d") :=
  tokenize_covers _ (by decide)

end Song.Compiler
