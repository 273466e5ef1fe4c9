import Song.Compiler.Written
import Song.Compiler.DocText
import Song.Compiler.FrontEnd

/-!
# The lexemes of a text come back as its tokens

`Laid` puts lexemes into a text and `tokenize` takes them out. The step is one lexeme: behind the
blanks, `lexeme` reads exactly the characters of the first word, because the word ends in front of
what follows it (`Word.Ends`).
-/

namespace Song.Compiler

/-! ## Words the lexer knows -/

/-- The keywords and the punctuation marks. -/
def TokenType.fixed (type : TokenType) : Bool :=
  type != .identifier && type != .integer && type != .docComment && type != .eof

/-- The lexer takes it for a number; there are no negative ones. -/
def Literal (n : Int64) : Prop := 0 ≤ n.toInt

instance : DecidablePred Literal := fun n => inferInstanceAs (Decidable (0 ≤ n.toInt))

/-- A word of the language, if its number is in `P`. -/
inductive Word.Proper (P : Int64 → Prop) : Word → Prop where
  | of {type : TokenType} (h : type.fixed = true) : Proper P (.of type)
  | ident {s : Str} (h : IsName s) : Proper P (.ident s)
  | integer {n : Int64} (h : P n) : Proper P (.integer n)
  | doc {l : Str} (h : ch '\n' ∉ l) : Proper P (.doc l)

theorem Word.Proper.literal {w : Word} (hw : w.Proper fun _ => True) (h : Literal w.intValue) :
    w.Proper Literal := by
  cases hw with
  | of htype => exact .of htype
  | ident hs => exact .ident hs
  | integer _ => exact .integer h
  | doc hl => exact .doc hl

theorem Word.Proper.type_ne_eof {w : Word} (hw : w.Proper Literal) : w.type ≠ .eof := by
  cases hw with
  | @of type htype =>
    intro h
    rw [show type = .eof from h] at htype
    cases htype
  | ident hs => exact fun h => by cases h
  | integer hn => exact fun h => by cases h
  | doc hl => exact fun h => by cases h

/-- The tokens of the stream are these words, and then the input ends. -/
def Stream.Spells : Stream → List Word → Prop
  | token t rest, w :: ws => t.word = w ∧ rest.Spells ws
  | eof t, [] => t.type = .eof
  | _, _ => False

/-! ## Characters -/

theorem isWordChar_of_first {c : UInt8} (h : (isAlpha c || c == ch '_') = true) :
    isWordChar c = true := by
  rw [isWordChar]
  rcases Bool.or_eq_true_iff.mp h with h | h <;> rw [h] <;> simp

theorem not_isDigit_of_isAlpha {c : UInt8} (h : (isAlpha c || c == ch '_') = true) :
    isDigit c = false := by
  have h9 : (ch '9').toNat = 57 := rfl
  have ha : (ch 'a').toNat = 97 := rfl
  have hA : (ch 'A').toNat = 65 := rfl
  have h_ : (ch '_').toNat = 95 := rfl
  simp only [isAlpha, isDigit, Bool.or_eq_true, Bool.and_eq_true, decide_eq_true_eq, beq_iff_eq,
    Bool.and_eq_false_iff, decide_eq_false_iff_not, UInt8.le_iff_toNat_le,
    ← UInt8.toNat_inj] at h ⊢
  omega

theorem lookup_punctuation {c : UInt8} (h : isWordChar c = true) :
    Lexer.punctuation.lookup [c] = none := by
  have hkeys : ∀ p ∈ Lexer.punctuation, p.1.any isWordChar = false := by decide
  refine List.lookup_eq_none_iff.mpr fun p hp => ?_
  rw [bne_iff_ne]
  intro hc
  have hany := hkeys p hp
  rw [← hc] at hany
  simp only [List.any_cons, List.any_nil, h, Bool.or_false] at hany
  cases hany

theorem ne_of_isWordChar {c d : UInt8} (h : isWordChar c = true) (hd : isWordChar d = false) :
    (c == d) = false := by
  rw [beq_eq_false_iff_ne]
  rintro rfl
  rw [h] at hd
  cases hd

/-- What is in front of a character that does not go on with it is all that is taken. -/
theorem takeWhile_append_of_head {p : UInt8 → Bool} {s rest : Str} (hs : s.all p = true)
    (hrest : rest.head?.any p = false) : (s ++ rest).takeWhile p = s := by
  rw [List.takeWhile_append_of_pos (List.all_eq_true.mp hs)]
  cases rest with
  | nil => rw [List.takeWhile_nil, List.append_nil]
  | cons c cs => rw [List.takeWhile_cons_of_neg (by simpa using hrest), List.append_nil]

namespace Lexer

variable {rest : Str} {line column : Nat}

theorem advance_append (s : Str) :
    (⟨s ++ rest, line, column⟩ : Lexer).advance s.length = ⟨rest, line, column + s.length⟩ := by
  rw [advance, List.drop_left]

/-! ## One lexeme -/

/-- A keyword or a name. -/
theorem lexeme_wordlike {s : Str} (hfirst : s.head?.any (fun c => isAlpha c || c == ch '_') = true)
    (hchars : s.all isWordChar = true) (hrest : rest.head?.any isWordChar = false) :
    (⟨s ++ rest, line, column⟩ : Lexer).lexeme =
      .ok (⟨(keywords.lookup s).getD .identifier, s, line, column, 0⟩,
        ⟨rest, line, column + s.length⟩) := by
  cases s with
  | nil => cases hfirst
  | cons c cs =>
    have hc : (isAlpha c || c == ch '_') = true := hfirst
    have hword := isWordChar_of_first hc
    have hslash := ne_of_isWordChar hword (d := ch '/') rfl
    have hdash := ne_of_isWordChar hword (d := ch '-') rfl
    have htake := takeWhile_append_of_head hchars hrest
    rw [lexeme]
    dsimp only [List.cons_append]
    rw [hslash, hdash, lookup_punctuation hword, Bool.false_and, Bool.false_and,
      if_neg Bool.false_ne_true]
    dsimp only
    rw [if_neg Bool.false_ne_true, not_isDigit_of_isAlpha hc, if_neg Bool.false_ne_true,
      if_pos hc, lexIdentifierOrKeyword]
    have hadvance := @advance_append rest line column (c :: cs)
    dsimp only [List.cons_append] at htake hadvance ⊢
    rw [htake, hadvance]

/-! ### Numbers -/

theorem toStr_digits {n : Int} (hn : 0 ≤ n) :
    toStr n = (Nat.toDigits 10 n.toNat).map ch := by
  obtain ⟨k, rfl⟩ := Int.eq_ofNat_of_zero_le hn
  have hk : toString (k : Int) = Nat.repr k := rfl
  rw [toStr, lit, hk, Nat.toList_repr]
  rfl

theorem toNat_ch {c : Char} (h : c.isDigit = true) : (ch c).toNat = c.toNat := by
  have h9 := (Char.isDigit_iff_toNat.mp h).2
  have : '9'.toNat = 57 := rfl
  rw [ch, UInt8.toNat_ofNat']
  omega

theorem isDigit_ch {c : Char} (h : c.isDigit = true) : isDigit (ch c) = true := by
  obtain ⟨h0, h9⟩ := Char.isDigit_iff_toNat.mp h
  have hch := toNat_ch h
  rw [isDigit, Bool.and_eq_true, decide_eq_true_eq, decide_eq_true_eq, UInt8.le_iff_toNat_le,
    UInt8.le_iff_toNat_le, hch]
  exact ⟨h0, h9⟩

theorem digitValue_ch {c : Char} (h : c.isDigit = true) :
    digitValue (ch c) = c.toNat - '0'.toNat := by
  rw [digitValue, if_pos (isDigit_ch h), toNat_ch h]
  rfl

/-- Decimal digits are read back. -/
theorem foldl_digits {cs : List Char} (h : ∀ c ∈ cs, c.isDigit = true) (n : Nat) :
    (cs.map ch).foldl (fun n c => n * 10 + digitValue c) n = Nat.ofDigitChars 10 cs n := by
  induction cs generalizing n with
  | nil => rw [List.map_nil, List.foldl_nil, Nat.ofDigitChars_nil]
  | cons c cs ih =>
    have hc : c.isDigit = true := h c List.mem_cons_self
    rw [List.map_cons, List.foldl_cons, ih fun d hd => h d (List.mem_cons_of_mem _ hd),
      Nat.ofDigitChars_cons, digitValue_ch hc, Nat.mul_comm]

theorem isWordChar_of_isDigit {c : UInt8} (h : isDigit c = true) : isWordChar c = true := by
  rw [isWordChar, h]
  simp

theorem isDigit_toStr {n : Int} (hn : 0 ≤ n) : (toStr n).all isDigit = true := by
  rw [toStr_digits hn, List.all_map, List.all_eq_true]
  exact fun c hc => isDigit_ch (Nat.isDigit_of_mem_toDigits (by decide) (by decide) hc)

theorem toStr_ne_nil {n : Int} (hn : 0 ≤ n) : toStr n ≠ [] := by
  rw [toStr_digits hn]
  exact fun h => Nat.toDigits_ne_nil (List.map_eq_nil_iff.mp h)

theorem stoll_toStr {n : Int64} (hn : 0 ≤ n.toInt) : stoll 10 (toStr n.toInt) = .ok n := by
  have hlt := n.toInt_lt
  have hmem : ∀ c ∈ Nat.toDigits 10 n.toInt.toNat, c.isDigit = true := fun c hc =>
    Nat.isDigit_of_mem_toDigits (by decide) (by decide) hc
  rw [toStr_digits hn, stoll, foldl_digits hmem, Nat.ofDigitChars_ten_toDigits]
  have hint : n.toInt.toNat < 2 ^ 63 := by omega
  rw [if_pos hint]
  congr 1
  apply Int64.toInt_inj.mp
  rw [Int64.toInt_ofNat_of_lt hint]
  exact Int.toNat_of_nonneg hn

/-- Digits in front of what ends a number are not the `0x` of one. -/
theorem take_two_digits {c : UInt8} {cs : Str} (hdigits : (c :: cs).all isDigit = true)
    (hrest : rest.head?.any isWordChar = false) {x : UInt8} (hx : isWordChar x = true)
    (hx' : isDigit x = false) : ((c :: cs ++ rest).take 2 == [ch '0', x]) = false := by
  rw [beq_eq_false_iff_ne]
  intro h
  have hhead : (cs ++ rest).head? = some x := by
    cases hcs : cs ++ rest with
    | nil => simp [hcs] at h
    | cons d ds => simp [hcs] at h; simp [h.2]
  cases cs with
  | nil =>
    rw [List.nil_append] at hhead
    rw [hhead] at hrest
    exact absurd hx (by simpa using hrest)
  | cons d ds =>
    cases hhead
    simp [hx'] at hdigits

/-- A decimal number. -/
theorem lexeme_integer {n : Int64} (hn : 0 ≤ n.toInt)
    (hrest : rest.head?.any isWordChar = false) :
    (⟨toStr n.toInt ++ rest, line, column⟩ : Lexer).lexeme =
      .ok (⟨.integer, toStr n.toInt, line, column, n⟩,
        ⟨rest, line, column + (toStr n.toInt).length⟩) := by
  have hdigits := isDigit_toStr hn
  have hstoll := stoll_toStr hn
  have hrest' : rest.head?.any isDigit = false := by
    cases rest with
    | nil => rfl
    | cons d ds =>
      refine Bool.eq_false_iff.mpr fun hd => ?_
      rw [show (d :: ds).head?.any isWordChar = isWordChar d from rfl,
        isWordChar_of_isDigit hd] at hrest
      cases hrest
  have htake := takeWhile_append_of_head hdigits hrest'
  cases hs : toStr n.toInt with
  | nil => exact absurd hs (toStr_ne_nil hn)
  | cons c cs =>
    rw [hs] at hdigits hstoll htake
    have hc : isDigit c = true := by
      rw [List.all_cons, Bool.and_eq_true] at hdigits
      exact hdigits.1
    have hword := isWordChar_of_isDigit hc
    have hslash := ne_of_isWordChar hword (d := ch '/') rfl
    have hdash := ne_of_isWordChar hword (d := ch '-') rfl
    have hx : ((c :: cs ++ rest).take 2 == lit "0x") = false :=
      take_two_digits hdigits hrest rfl rfl
    have hX : ((c :: cs ++ rest).take 2 == lit "0X") = false :=
      take_two_digits hdigits hrest rfl rfl
    have hadvance := @advance_append rest line column (c :: cs)
    rw [lexeme]
    dsimp only [List.cons_append]
    rw [hslash, hdash, lookup_punctuation hword, Bool.false_and, Bool.false_and,
      if_neg Bool.false_ne_true]
    dsimp only
    rw [if_neg Bool.false_ne_true, if_pos hc, lexInteger]
    dsimp only [List.cons_append] at htake hadvance hx hX ⊢
    rw [hx, hX, Bool.or_self, if_neg Bool.false_ne_true, htake, hstoll, hadvance]
    rfl

/-! ### Comments and punctuation marks -/

theorem lexeme_doc {l : Str} (hl : ch '\n' ∉ l)
    (hrest : rest.head?.all (· == ch '\n') = true) :
    ∃ column', (⟨lit "/// " ++ l ++ rest, line, column⟩ : Lexer).lexeme =
      .ok (⟨.docComment, l, line, column, 0⟩, ⟨rest, line, column'⟩) := by
  have htake : (l ++ rest).takeWhile (· != ch '\n') = l := by
    refine takeWhile_append_of_head (List.all_eq_true.mpr fun c hc => ?_) ?_
    · rw [bne_iff_ne]
      rintro rfl
      exact hl hc
    · cases rest with
      | nil => rfl
      | cons d ds => simpa using hrest
  refine ⟨column + 4 + l.length, ?_⟩
  have hlit : lit "/// " ++ l ++ rest = ch '/' :: ch '/' :: ch '/' :: ch ' ' :: (l ++ rest) := by
    rw [List.append_assoc]
    rfl
  have hdoc : (ch '/' == ch '/' &&
      (ch '/' :: ch '/' :: ch ' ' :: (l ++ rest)).take 2 == lit "//") = true := rfl
  rw [hlit, lexeme]
  dsimp only
  rw [if_pos hdoc]
  show Except.ok ((⟨.docComment, (l ++ rest).takeWhile (· != ch '\n'), line, column, 0⟩ : Token),
    (⟨(l ++ rest).drop ((l ++ rest).takeWhile (· != ch '\n')).length, line,
      column + 4 + ((l ++ rest).takeWhile (· != ch '\n')).length⟩ : Lexer)) = _
  rw [htake, List.drop_left]

/-- A fixed lexeme is like a name, or a single character, or the arrow. -/
theorem fixed_cases {type : TokenType} (h : type.fixed = true) :
    ((tokenTypeToString type).head?.any (fun c => isAlpha c || c == ch '_') = true ∧
      (tokenTypeToString type).all isWordChar = true ∧
      (tokenTypeToString type).any isWordChar = true ∧
      keywords.lookup (tokenTypeToString type) = some type) ∨
    ((tokenTypeToString type).length = 1 ∧
      punctuation.lookup (tokenTypeToString type) = some type) ∨ type = .arrow := by
  revert h
  cases type <;> decide

/-- A punctuation mark. -/
theorem lexeme_punctuation {type : TokenType} {c : UInt8}
    (h : punctuation.lookup [c] = some type) :
    (⟨c :: rest, line, column⟩ : Lexer).lexeme =
      .ok (⟨type, [c], line, column, 0⟩, ⟨rest, line, column + 1⟩) := by
  have hslash : (c == ch '/') = false := by
    rw [beq_eq_false_iff_ne]
    rintro rfl
    cases h
  rw [lexeme]
  dsimp only
  rw [hslash, Bool.false_and, if_neg Bool.false_ne_true, h]
  rfl

/-- A keyword or a punctuation mark. -/
theorem lexeme_of {type : TokenType} (htype : type.fixed = true)
    (hends : (Word.of type).Ends rest) :
    ∃ column', (⟨tokenTypeToString type ++ rest, line, column⟩ : Lexer).lexeme =
      .ok (⟨type, tokenTypeToString type, line, column, 0⟩, ⟨rest, line, column'⟩) := by
  rcases fixed_cases htype with ⟨hfirst, hchars, hany, hlookup⟩ | ⟨hlength, hlookup⟩ | rfl
  · have hdoc : (Word.of type).type ≠ .docComment := by
      rintro hdoc
      rw [show type = .docComment from hdoc] at htype
      cases htype
    rw [Word.Ends, if_neg hdoc] at hends
    refine ⟨column + (tokenTypeToString type).length, ?_⟩
    rw [lexeme_wordlike hfirst hchars (hends hany), hlookup]
    rfl
  · obtain ⟨c, hc⟩ := List.length_eq_one_iff.mp hlength
    rw [hc] at hlookup ⊢
    exact ⟨_, lexeme_punctuation hlookup⟩
  · exact ⟨_, rfl⟩

/-- One word, in front of what it ends before. -/
theorem lexeme_word {w : Word} (hw : w.Proper Literal) (hends : w.Ends rest) :
    ∃ t column', (⟨w.text ++ rest, line, column⟩ : Lexer).lexeme =
      .ok (t, ⟨rest, line, column'⟩) ∧ t.word = w := by
  cases hw with
  | @of type htype =>
    have hdoc : type ≠ .docComment := by
      rintro rfl
      cases htype
    obtain ⟨column', h⟩ := @lexeme_of rest line column type htype hends
    rw [Word.text, if_neg (show (Word.of type).type ≠ .docComment from hdoc)]
    exact ⟨_, column', h, rfl⟩
  | @ident s hs =>
    have hany : s.any isWordChar = true := by
      cases s with
      | nil => exact absurd hs.first (by decide)
      | cons c cs =>
        have hc : isWordChar c = true := (List.all_eq_true.mp hs.chars) c List.mem_cons_self
        rw [List.any_cons, hc, Bool.true_or]
    have hrest : rest.head?.any isWordChar = false := hends hany
    refine ⟨⟨.identifier, s, line, column, 0⟩, column + s.length, ?_, rfl⟩
    have hlexeme := @lexeme_wordlike rest line column s hs.first hs.chars hrest
    rw [hs.keyword] at hlexeme
    exact hlexeme
  | @integer n hn =>
    have hany : (toStr n.toInt).any isWordChar = true := by
      have hdigits := isDigit_toStr hn
      cases hs : toStr n.toInt with
      | nil => exact absurd hs (toStr_ne_nil hn)
      | cons c cs =>
        rw [hs, List.all_cons, Bool.and_eq_true] at hdigits
        rw [List.any_cons, isWordChar_of_isDigit hdigits.1, Bool.true_or]
    exact ⟨_, _, lexeme_integer hn (hends hany), rfl⟩
  | @doc l hl =>
    obtain ⟨column', h⟩ := @lexeme_doc rest line column l hl hends
    exact ⟨_, column', h, rfl⟩

/-! ## The whole text -/

/-- Where `skipBlank` stops. -/
def Solid (cs : Str) : Prop :=
  cs = [] ∨ ∃ c cs', cs = c :: cs' ∧ c ≠ ch ' ' ∧ c ≠ ch '\t' ∧ c ≠ ch '\r' ∧ c ≠ ch '\n' ∧
    (c == ch '/' && startsComment cs') = false

theorem skipBlank_solid {cs : Str} (h : Solid cs) :
    skipBlank false cs line column = ⟨cs, line, column⟩ := by
  rcases h with rfl | ⟨c, cs', rfl, hspace, htab, hreturn, hnewline, hcomment⟩
  · rfl
  · rw [skipBlank, if_neg (by simpa using hnewline), if_neg Bool.false_ne_true,
      if_neg (by simp [hspace, htab, hreturn]), if_neg (by rw [hcomment]; exact Bool.false_ne_true)]

theorem skipBlank_gap {gap cs : Str} (hgap : Blank gap) (hcs : Solid cs) :
    ∃ line' column', skipBlank false (gap ++ cs) line column = ⟨cs, line', column'⟩ := by
  induction gap generalizing line column with
  | nil => exact ⟨line, column, skipBlank_solid hcs⟩
  | cons c gap ih =>
    have hgap' : Blank gap := fun d hd => hgap d (List.mem_cons_of_mem _ hd)
    rw [List.cons_append, skipBlank]
    rcases hgap c List.mem_cons_self with rfl | rfl | rfl | rfl
    all_goals exact ih hgap'

/-- No blank, and no start of a comment. -/
def opens (c : UInt8) : Bool :=
  c != ch ' ' && c != ch '\t' && c != ch '\r' && c != ch '\n' && c != ch '/'

theorem opens_of_isWordChar {c : UInt8} (h : isWordChar c = true) : opens c = true := by
  have hne : ∀ d, isWordChar d = false → (c != d) = true := fun d hd => by
    rw [bne, ne_of_isWordChar h hd]
    rfl
  rw [opens, hne _ rfl, hne _ rfl, hne _ rfl, hne _ rfl, hne _ rfl]
  rfl

theorem solid_of_opens {s : Str} (h : s.head?.any opens = true) (rest : Str) :
    Solid (s ++ rest) := by
  cases s with
  | nil => cases h
  | cons c cs =>
    have hc : opens c = true := h
    simp only [opens, Bool.and_eq_true, bne_iff_ne] at hc
    obtain ⟨⟨⟨⟨hspace, htab⟩, hreturn⟩, hnewline⟩, hslash⟩ := hc
    refine .inr ⟨c, cs ++ rest, rfl, hspace, htab, hreturn, hnewline, ?_⟩
    rw [beq_eq_false_iff_ne.mpr hslash, Bool.false_and]

theorem opens_fixed {type : TokenType} (h : type.fixed = true) :
    (tokenTypeToString type).head?.any opens = true := by
  revert h
  cases type <;> decide

theorem head_any_of_all {s : Str} (hs : s ≠ []) (h : s.all isWordChar = true) :
    s.head?.any opens = true := by
  cases s with
  | nil => exact absurd rfl hs
  | cons c cs => exact opens_of_isWordChar (List.all_eq_true.mp h c List.mem_cons_self)

/-- A word begins with no blank, and no comment. -/
theorem solid_word {w : Word} (hw : w.Proper Literal) (rest : Str) : Solid (w.text ++ rest) := by
  cases hw with
  | @of type htype =>
    rw [Word.text, if_neg]
    · exact solid_of_opens (opens_fixed htype) rest
    · rintro hdoc
      rw [show type = .docComment from hdoc] at htype
      cases htype
  | @ident s hs =>
    refine solid_of_opens (head_any_of_all ?_ hs.chars) rest
    rintro hnil
    have hfirst := hs.first
    rw [show s = [] from hnil] at hfirst
    cases hfirst
  | @integer n hn =>
    refine solid_of_opens (head_any_of_all (toStr_ne_nil hn) ?_) rest
    exact List.all_eq_true.mpr fun c hc =>
      isWordChar_of_isDigit (List.all_eq_true.mp (isDigit_toStr hn) c hc)
  | @doc l hl => exact .inr ⟨_, _, rfl, by decide, by decide, by decide, by decide, rfl⟩

theorem stream_laid {ws : List Word} {text : Str} (h : Laid ws text)
    (hws : ∀ w ∈ ws, w.Proper Literal) {fuel : Nat} (hfuel : text.length < fuel) :
    (stream fuel ⟨text, line, column⟩).Spells ws := by
  induction h generalizing fuel line column with
  | @nil gap hgap =>
    obtain ⟨fuel, rfl⟩ := Nat.exists_eq_add_one_of_ne_zero (Nat.ne_zero_of_lt hfuel)
    obtain ⟨line', column', hskip⟩ := @skipBlank_gap line column gap [] hgap (.inl rfl)
    rw [List.append_nil] at hskip
    rw [stream, nextToken, hskip]
    rfl
  | @cons w ws gap rest hgap hends hrest ih =>
    obtain ⟨fuel, rfl⟩ := Nat.exists_eq_add_one_of_ne_zero (Nat.ne_zero_of_lt hfuel)
    have hw := hws w List.mem_cons_self
    obtain ⟨line', column', hskip⟩ := @skipBlank_gap line column gap _ hgap (solid_word hw rest)
    obtain ⟨t, column'', hlexeme, hword⟩ := @lexeme_word rest line' column' w hw hends
    have hne : t.type ≠ .eof := fun h => hw.type_ne_eof (by rw [← hword]; exact h)
    have hless := (lexeme_spec ⟨w.text ++ rest, line', column'⟩).2 t _ hlexeme hne
    rw [List.append_assoc] at hfuel ⊢
    rw [stream, nextToken, hskip, hlexeme]
    dsimp only
    rw [if_neg hne]
    refine ⟨hword, ih (fun v hv => hws v (List.mem_cons_of_mem _ hv)) ?_⟩
    rw [List.length_append] at hfuel
    dsimp only at hless
    omega

/-- A negative number is not a lexeme. -/
theorem lexeme_negative {n : Int64} (hn : ¬ Literal n) (rest : Str) :
    Solid ((Word.integer n).text ++ rest) ∧
      ∃ e, (⟨(Word.integer n).text ++ rest, line, column⟩ : Lexer).lexeme = .error e := by
  obtain ⟨k, hk⟩ := Int.eq_negSucc_of_lt_zero (Int.not_le.mp hn)
  have htext : (Word.integer n).text = ch '-' :: (Nat.toDigits 10 (k + 1)).map ch := by
    have hstr : toString (Int.negSucc k) = "-" ++ Nat.repr (k + 1) := rfl
    show toStr n.toInt = _
    rw [hk, toStr, lit, hstr, String.toList_append, Nat.toList_repr, List.map_append]
    rfl
  have hdigits : ∀ c ∈ (Nat.toDigits 10 (k + 1)).map ch, isDigit c = true := fun c hc => by
    obtain ⟨d, hd, rfl⟩ := List.mem_map.mp hc
    exact isDigit_ch (Nat.isDigit_of_mem_toDigits (by decide) (by decide) hd)
  rw [htext]
  refine ⟨solid_of_opens rfl rest, ?_⟩
  cases hds : (Nat.toDigits 10 (k + 1)).map ch with
  | nil => exact absurd (List.map_eq_nil_iff.mp hds) Nat.toDigits_ne_nil
  | cons d ds =>
    have hd : isDigit d = true := hdigits d (by rw [hds]; exact List.mem_cons_self)
    have harrow : (ch '-' == ch '-' && (d :: ds ++ rest).head? == some (ch '>')) = false := by
      rw [Bool.and_eq_false_iff]
      right
      rw [beq_eq_false_iff_ne]
      intro h
      rw [Option.some.inj h] at hd
      cases hd
    have hslash : (ch '-' == ch '/') = false := rfl
    have hlookup : punctuation.lookup [ch '-'] = none := rfl
    refine ⟨.lexer (lit "Unexpected character: '" ++ [ch '-'] ++ lit "'") line column, ?_⟩
    rw [lexeme]
    dsimp only [List.cons_append] at harrow ⊢
    rw [hslash, Bool.false_and, if_neg Bool.false_ne_true, hlookup]
    dsimp only
    rw [harrow, if_neg Bool.false_ne_true]
    rfl

/-- A text with a negative number in it is not read to its end. -/
theorem fault_laid {ws : List Word} {text : Str} (h : Laid ws text)
    (hws : ∀ w ∈ ws, w.Proper fun _ => True) (hbad : ∃ w ∈ ws, ¬ Literal w.intValue) {fuel : Nat}
    (hfuel : text.length < fuel) : (stream fuel ⟨text, line, column⟩).fault ≠ none := by
  induction h generalizing fuel line column with
  | nil hgap =>
    obtain ⟨w, hw, -⟩ := hbad
    cases hw
  | @cons w ws gap rest hgap hends hrest ih =>
    obtain ⟨fuel, rfl⟩ := Nat.exists_eq_add_one_of_ne_zero (Nat.ne_zero_of_lt hfuel)
    have hw := hws w List.mem_cons_self
    rw [List.append_assoc] at hfuel ⊢
    by_cases hliteral : Literal w.intValue
    · have hw := hw.literal hliteral
      obtain ⟨line', column', hskip⟩ := @skipBlank_gap line column gap _ hgap (solid_word hw rest)
      obtain ⟨t, column'', hlexeme, hword⟩ := @lexeme_word rest line' column' w hw hends
      have hne : t.type ≠ .eof := fun h => hw.type_ne_eof (by rw [← hword]; exact h)
      have hless := (lexeme_spec ⟨w.text ++ rest, line', column'⟩).2 t _ hlexeme hne
      rw [stream, nextToken, hskip, hlexeme]
      dsimp only
      rw [if_neg hne]
      refine ih (fun v hv => hws v (List.mem_cons_of_mem _ hv)) ?_ ?_
      · obtain ⟨v, hv, hvbad⟩ := hbad
        rcases List.mem_cons.mp hv with rfl | hv
        · exact absurd hliteral hvbad
        · exact ⟨v, hv, hvbad⟩
      · rw [List.length_append] at hfuel
        dsimp only at hless
        omega
    · cases hw with
      | @integer n _ =>
        obtain ⟨hsolid, -⟩ := @lexeme_negative 0 0 n hliteral rest
        obtain ⟨line', column', hskip⟩ := @skipBlank_gap line column gap _ hgap hsolid
        obtain ⟨-, e, hlexeme⟩ := @lexeme_negative line' column' n hliteral rest
        rw [stream, nextToken, hskip, hlexeme]
        exact Option.some_ne_none _
      | of htype => exact absurd (show Literal 0 by decide) hliteral
      | ident hs => exact absurd (show Literal 0 by decide) hliteral
      | doc hl => exact absurd (show Literal 0 by decide) hliteral

end Lexer

/-- The tokens of a text are the words it is made of. -/
theorem spells_tokenize {ws : List Word} {text : Str} (h : Laid ws text)
    (hws : ∀ w ∈ ws, w.Proper Literal) : (tokenize text).Spells ws :=
  Lexer.stream_laid h hws (Nat.lt_succ_self _)

/-! ## The words of a tree -/

/-- These are words of the language, if their numbers are in `P`. -/
def Known (P : Int64 → Prop) (ws : List Word) : Prop := ∀ w ∈ ws, w.Proper P

namespace Known

open Word (of ident)

variable {P : Int64 → Prop}

theorem nil : Known P [] := fun _ h => absurd h List.not_mem_nil

theorem cons {w : Word} {ws : List Word} (hw : w.Proper P) (hws : Known P ws) : Known P (w :: ws) :=
  List.forall_mem_cons.mpr ⟨hw, hws⟩

theorem append {ws ws' : List Word} (h : Known P ws) (h' : Known P ws') : Known P (ws ++ ws') :=
  List.forall_mem_append.mpr ⟨h, h'⟩

theorem flatMap {α : Type} {xs : List α} {f : α → List Word} (h : ∀ x ∈ xs, Known P (f x)) :
    Known P (xs.flatMap f) := fun w hw => by
  obtain ⟨x, hx, hw⟩ := List.mem_flatMap.mp hw
  exact h x hx w hw

/-- A fixed lexeme. -/
theorem fixed {type : TokenType} {ws : List Word} (h : type.fixed = true) (hws : Known P ws) :
    Known P (of type :: ws) :=
  cons (.of h) hws

theorem commas {α : Type} {xs : List α} {f : α → List Word} (h : ∀ x ∈ xs, Known P (f x)) :
    Known P (separated (of .comma) (xs.map f)) := by
  cases xs with
  | nil => exact nil
  | cons x xs =>
    rw [List.map_cons, separated_cons, List.flatMap_map]
    refine (h x List.mem_cons_self).append (flatMap fun y hy => ?_)
    exact fixed rfl (h y (List.mem_cons_of_mem _ hy))

theorem docs (doc : Str) : Known P (docWords doc) := by
  rw [docWords]
  split
  · exact nil
  · intro w hw
    obtain ⟨l, hl, rfl⟩ := List.mem_map.mp hw
    exact .doc (newline_not_mem_splitOn hl)

theorem base {b : Option Str} (hb : ∀ n ∈ b, IsName n) : Known P (baseWords b) := by
  cases b with
  | none => exact nil
  | some n => exact fixed rfl (cons (.ident (hb n rfl)) nil)

end Known

section
variable {P : Int64 → Prop}

theorem Ty.Writable.words {t : Ty} (h : t.Writable) : Known P t.words := by
  have hbase : t.base.word.Proper P := by
    have hb := h.base
    cases hbase : t.base with
    | primitive p => exact .of (by cases p <;> rfl)
    | user n =>
      rw [hbase] at hb
      exact .ident hb
  have hbrackets : ∀ n, Known P (bracketWords n) := fun n => by
    induction n with
    | zero => exact .nil
    | succ n ih => exact .fixed rfl (.fixed rfl ih)
  refine .cons hbase (.append (hbrackets _) ?_)
  split
  · exact .fixed rfl .nil
  · exact .nil

theorem Field.Writable.words {f : Field} (h : f.Writable) : Known P f.words :=
  .append (.append (.docs _) h.type.words) (.cons (.ident h.name) (.fixed rfl .nil))

theorem words_fields {fields : List Field} (h : ∀ f ∈ fields, f.Writable) :
    Known P (fields.flatMap Field.words) :=
  .flatMap fun f hf => (h f hf).words

/-- The head of a definition that may have a base. -/
theorem words_head {doc name : Str} {base : Option Str} {keyword : TokenType}
    (hkeyword : keyword.fixed = true) (hname : IsName name) (hbase : ∀ b ∈ base, IsName b) :
    Known P (docWords doc ++ [.of keyword, .ident name] ++ baseWords base ++ [.of .lBrace]) :=
  .append (.append (.append (.docs _) (.fixed hkeyword (.cons (.ident hname) .nil)))
    (.base hbase)) (.fixed rfl .nil)

theorem StructDef.Writable.words {d : StructDef} (h : d.Writable) : Known P d.words :=
  .append (.append (words_head rfl h.name h.base) (words_fields h.fields)) (.fixed rfl .nil)

theorem ErrorDef.Writable.words {d : ErrorDef} (h : d.Writable) : Known P d.words :=
  .append (.append (words_head rfl h.name h.base) (words_fields h.fields)) (.fixed rfl .nil)

theorem words_item {i : EnumItem} (h : IsName i.name) (hvalue : ∀ v ∈ i.value, P v) :
    Known P i.words := by
  refine .append (.append (.docs _) (.cons (.ident h) .nil)) ?_
  cases hv : i.value with
  | none => exact .nil
  | some v => exact .fixed rfl (.cons (.integer (hvalue v hv)) .nil)

theorem EnumDef.Writable.words {d : EnumDef} (h : d.Writable) (hvalues : ∀ v ∈ d.values, P v) :
    Known P d.words := by
  have hkeyword : (if d.isFlags then TokenType.kwFlags else .kwEnum).fixed = true := by
    cases d.isFlags <;> rfl
  have hhead : Known P [.of (if d.isFlags then .kwFlags else .kwEnum), .ident d.name, .of .lBrace] :=
    .fixed hkeyword (.cons (.ident h.name) (.fixed rfl .nil))
  refine .append (.append (.append (.docs _) hhead) (.commas fun i hi => ?_)) (.fixed rfl .nil)
  exact words_item (h.items i hi) fun v hv => hvalues v (List.mem_filterMap.mpr ⟨i, hi, hv⟩)

theorem Param.Writable.words {p : Param} (h : p.Writable) : Known P p.words :=
  .append h.type.words (.cons (.ident h.name) .nil)

theorem words_params {params : List Param} (h : ∀ p ∈ params, p.Writable) :
    Known P (paramWords params) :=
  .append (.append (.fixed rfl .nil) (.commas fun p hp => (h p hp).words)) (.fixed rfl .nil)

theorem Property.Writable.words {p : Property} (h : p.Writable) : Known P p.words := by
  refine .append (.append (.append (.docs _) ?_) h.type.words)
    (.cons (.ident h.name) (.fixed rfl .nil))
  split
  · exact .fixed rfl .nil
  · exact .nil

theorem Constructor.Writable.words {c : Constructor} (h : c.Writable) {className : Str}
    (hname : IsName className) : Known P (c.words className) :=
  .append (.append (.append (.docs _) (.cons (.ident hname) .nil)) (words_params h))
    (.fixed rfl .nil)

theorem words_throws {errors : List Str} (h : ∀ e ∈ errors, IsName e) :
    Known P (throwsWords errors) := by
  rw [throwsWords]
  split
  · exact .nil
  · exact .fixed rfl (.commas fun e he => .cons (.ident (h e he)) .nil)

theorem Method.Writable.words {m : Method} (h : m.Writable) : Known P m.words := by
  have hmodifier : Known P m.modifier := by
    rw [Method.modifier]
    split
    · exact .fixed rfl .nil
    split
    · exact .fixed rfl .nil
    · exact .nil
  have hsignature : Known P m.signature :=
    .append (.append (.append (.append (words_params h.params) (.fixed rfl .nil))
      h.returnType.words) (words_throws h.throws)) (.fixed rfl .nil)
  exact .append (.append (.append (.docs _) hmodifier) (.cons (.ident h.name) .nil)) hsignature

theorem ServiceDef.Writable.words {d : ServiceDef} (h : d.Writable) : Known P d.words := by
  have hhead : Known P [.of .kwService, .ident d.name, .of .lBrace] :=
    .fixed rfl (.cons (.ident h.name) (.fixed rfl .nil))
  exact .append (.append (.append (.docs _) hhead) (.flatMap fun m hm => (h.methods m hm).words))
    (.fixed rfl .nil)

open Parse (Member Definition)

theorem Parse.Member.Writable.words {m : Member} (h : m.Writable) {className : Str}
    (hname : IsName className) : Known P (m.words className) := by
  cases m with
  | property p => exact Property.Writable.words h
  | constructor c => exact Constructor.Writable.words h hname
  | method m => exact Method.Writable.words h

theorem ClassDef.Writable.words {d : ClassDef} (h : d.Writable) {members : List Member}
    (hmembers : d.Consists members) : Known P (d.wordsFor members) :=
  .append (.append (words_head rfl h.name h.base)
    (.flatMap fun m hm => (h.members hmembers m hm).words h.name)) (.fixed rfl .nil)

theorem Parse.Definition.Writable.words {d : Definition} (h : d.Writable) {ws : List Word}
    (hws : d.Reads ws) (hvalues : ∀ e ∈ d.enumDef?, ∀ v ∈ e.values, P v) : Known P ws := by
  cases d with
  | structDef d =>
    rw [show ws = d.words from hws]
    exact StructDef.Writable.words h
  | enumDef d =>
    rw [show ws = d.words from hws]
    exact EnumDef.Writable.words h (hvalues d rfl)
  | classDef d =>
    obtain ⟨members, hmembers, rfl⟩ := hws
    exact ClassDef.Writable.words h hmembers
  | serviceDef d =>
    rw [show ws = d.words from hws]
    exact ServiceDef.Writable.words h
  | errorDef d =>
    rw [show ws = d.words from hws]
    exact ErrorDef.Writable.words h

theorem Namespace.Writable.words {ns : Namespace} (h : ns.Writable) {ws : List Word}
    (hws : ns.Reads ws) (hvalues : ∀ v ∈ ns.values, P v) : Known P ws := by
  obtain ⟨ds, hds, hreads, rfl⟩ := hws
  refine .append (.fixed rfl (.cons (.ident h.name) (.fixed rfl .nil))) (.flatMap fun d hd => ?_)
  have hmem := List.mem_map_of_mem (f := Prod.fst) hd
  refine (h.definitions hds _ hmem).words (hreads d hd) fun e he v hv => hvalues v ?_
  rw [Namespace.values, hds.enums]
  exact List.mem_flatMap.mpr ⟨e, List.mem_filterMap.mpr ⟨_, hmem, he⟩, hv⟩

theorem mem_separated {α : Type} {sep : α} {xss : List (List α)} {xs : List α} {x : α}
    (hxs : xs ∈ xss) (hx : x ∈ xs) : x ∈ separated sep xss := by
  cases xss with
  | nil => cases hxs
  | cons ys yss =>
    rw [separated_cons]
    rcases List.mem_cons.mp hxs with rfl | hxs
    · exact List.mem_append_left _ hx
    · exact List.mem_append_right _
        (List.mem_flatMap.mpr ⟨xs, hxs, List.mem_cons_of_mem _ hx⟩)

/-- An explicit value is written down. -/
theorem Namespace.Reads.integer_mem {ns : Namespace} {ws : List Word} (hws : ns.Reads ws)
    {v : Int64} (hv : v ∈ ns.values) : Word.integer v ∈ ws := by
  obtain ⟨ds, hds, hreads, rfl⟩ := hws
  obtain ⟨e, he, hv⟩ := List.mem_flatMap.mp hv
  obtain ⟨i, hi, hv⟩ := List.mem_filterMap.mp hv
  rw [hds.enums] at he
  obtain ⟨d, hd, hde⟩ := List.mem_filterMap.mp he
  obtain ⟨⟨d, us⟩, hmem, rfl⟩ := List.mem_map.mp hd
  cases d <;> cases hde
  have hitem : Word.integer v ∈ i.words := by
    rw [EnumItem.words, hv]
    exact List.mem_append_right _ (List.mem_cons_of_mem _ List.mem_cons_self)
  have hdef : Word.integer v ∈ us := by
    rw [show us = e.words from hreads _ hmem, EnumDef.words]
    exact List.mem_append_left _ (List.mem_append_right _
      (mem_separated (List.mem_map_of_mem hi) hitem))
  exact List.mem_append_right _ (List.mem_flatMap.mpr ⟨_, hmem, hdef⟩)

end

end Song.Compiler
