import Song.Compiler.Lexed
import Song.Compiler.DocText

/-!
# The parser on what is written: the parts

`Shows doc ws s` says that the parser in the state `s` has the lexemes `ws` in front of it and has
gathered `doc`. For every function that reads a part of a definition there is a lemma that takes
the lexemes of the part away and returns the part. What follows the part is left open, except
where the function looks at it: at a `[`, a `?`, a `,` or an `=`.
-/

namespace Song.Compiler

open Word (of ident integer)
open Parse

/-! ## What the parser has in front of it -/

def Word.plain (w : Word) : Bool := w.type != .docComment

/-- The parser is about to read `ws`; `doc` has been gathered so far. -/
def Shows (doc : Str) (ws : List Word) (s : Parser Str) : Prop :=
  ∃ st : Stream, st.Spells ws ∧ st.next pendingDoc doc = .ok s

theorem Stream.Spells.length {st : Stream} {ws : List Word} (h : st.Spells ws) :
    st.length = ws.length := by
  induction st generalizing ws with
  | token t rest ih =>
    cases ws with
    | nil => exact h.elim
    | cons w ws => exact congrArg (· + 1) (ih h.2)
  | eof t =>
    cases ws with
    | nil => rfl
    | cons w ws => exact h.elim
  | fails e => exact h.elim

theorem Stream.Spells.next {st : Stream} {ws : List Word} (h : st.Spells ws) (doc : Str) :
    ∃ s, st.next pendingDoc doc = .ok s := by
  induction st generalizing ws doc with
  | token t rest ih =>
    cases ws with
    | nil => exact h.elim
    | cons w ws =>
      rw [Stream.next]
      split
      · exact ih h.2 _
      · exact ⟨_, rfl⟩
  | eof t => exact ⟨_, rfl⟩
  | fails e => exact h.elim

namespace Shows

variable {doc : Str} {w : Word} {ws : List Word} {s : Parser Str}

/-- In front of documentation. -/
theorem tail (h : Shows doc (w :: ws) s) (hw : w.plain = false) :
    Shows (pendingDoc.add doc w.value) ws s := by
  obtain ⟨st, hst, hnext⟩ := h
  cases st with
  | token t rest =>
    obtain ⟨ht, hrest⟩ := hst
    have htype : t.type = .docComment := by
      rw [Word.plain, bne_eq_false_iff_eq, ← ht] at hw
      exact hw
    have hvalue : t.value = w.value := congrArg Word.value ht
    rw [Stream.next, if_pos htype, hvalue] at hnext
    exact ⟨rest, hrest, hnext⟩
  | eof t => exact hst.elim
  | fails e => exact hst.elim

theorem docs {ls : List Str} (h : Shows doc (ls.map Word.doc ++ ws) s) :
    Shows (gather doc ls) ws s := by
  induction ls generalizing doc with
  | nil => exact h
  | cons l ls ih => exact ih (h.tail rfl)

theorem docWords {d : Str} (h : Shows [] (docWords d ++ ws) s) : Shows (trimDoc d) ws s := by
  rw [Compiler.docWords] at h
  split at h
  · next hd =>
    rw [hd]
    exact h
  · rw [← gather_splitOn]
    exact h.docs

/-- In front of a word that is no documentation. -/
theorem head (h : Shows doc (w :: ws) s) (hw : w.plain = true) :
    s.current.word = w ∧ s.pending = doc ∧ s.stream.Spells ws := by
  obtain ⟨st, hst, hnext⟩ := h
  cases st with
  | token t rest =>
    obtain ⟨ht, hrest⟩ := hst
    have htype : t.type ≠ .docComment := by
      rintro htype
      rw [← ht, Word.plain, show t.word.type = .docComment from htype] at hw
      cases hw
    rw [Stream.next, if_neg htype] at hnext
    cases hnext
    exact ⟨ht, rfl, hrest⟩
  | eof t => exact hst.elim
  | fails e => exact hst.elim

theorem type (h : Shows doc (w :: ws) s) (hw : w.plain = true) : s.current.type = w.type :=
  congrArg Word.type (h.head hw).1

theorem count (h : Shows doc ws s) : ws.countP Word.plain ≤ s.stream.length + 1 := by
  obtain ⟨st, hst, hnext⟩ := h
  induction st generalizing doc ws with
  | token t rest ih =>
    cases ws with
    | nil => exact hst.elim
    | cons w ws =>
      obtain ⟨ht, hrest⟩ := hst
      rw [Stream.next] at hnext
      split at hnext
      · next htype =>
        have hw : ¬ w.plain = true := by
          rw [← ht, Word.plain, show t.word.type = .docComment from htype]
          exact Bool.false_ne_true
        rw [List.countP_cons_of_neg hw]
        exact ih hrest hnext
      · cases hnext
        have hle := List.countP_le_length (p := Word.plain) (l := w :: ws)
        rw [List.length_cons, ← hrest.length] at hle
        exact hle
  | eof t =>
    cases ws with
    | nil => exact Nat.zero_le _
    | cons w ws => exact hst.elim
  | fails e => exact hst.elim

end Shows

/-- The type of the first word that is no documentation. -/
def firstType : List Word → TokenType
  | [] => .eof
  | w :: ws => if w.plain then w.type else firstType ws

theorem Shows.firstType {doc : Str} {ws : List Word} {s : Parser Str} (h : Shows doc ws s) :
    s.current.type = firstType ws := by
  induction ws generalizing doc with
  | nil =>
    obtain ⟨st, hst, hnext⟩ := h
    cases st with
    | token t rest => exact hst.elim
    | eof t =>
      cases hnext
      exact hst
    | fails e => exact hst.elim
  | cons w ws ih =>
    rw [Compiler.firstType]
    split
    · next hw => exact h.type hw
    · next hw => exact ih (h.tail (Bool.eq_false_iff.mpr hw))

@[simp] theorem firstType_docs (ls : List Str) (ws : List Word) :
    firstType (ls.map Word.doc ++ ws) = firstType ws := by
  induction ls with
  | nil => rfl
  | cons l ls ih => exact ih

@[simp] theorem firstType_docWords (doc : Str) (ws : List Word) :
    firstType (docWords doc ++ ws) = firstType ws := by
  rw [docWords]
  split
  · rfl
  · exact firstType_docs _ _

/-! ## Reading and failing -/

section
variable {α β : Type}

/-- `x` returns, into `Q`. -/
abbrev Returns (x : Parse Str α) (s : Parser Str) (Q : α → Parser Str → Prop) : Prop :=
  Eff.Ends x s Q fun _ _ => False

/-- `x` throws. -/
abbrev Throws (x : Parse Str α) (s : Parser Str) : Prop :=
  Eff.Ends x s (fun _ _ => False) fun _ _ => True

variable {doc : Str} {w : Word} {ws : List Word} {s : Parser Str}

theorem throws_bind {x : Parse Str α} {f : α → Parse Str β} (h : Throws x s) :
    Throws (x >>= f) s :=
  .bind (h.mono (fun _ _ hf => hf.elim) fun _ _ _ => trivial)

theorem advance_reads (h : Shows doc (w :: ws) s) (hw : w.plain = true) :
    Returns (advance pendingDoc) s fun _ s' => Shows doc ws s' := by
  obtain ⟨-, hpending, hspells⟩ := h.head hw
  obtain ⟨s', hs'⟩ := hspells.next doc
  have hrun : (advance pendingDoc).run s = .ok () s' := by
    simp only [EStateM.run, advance, pendingDoc, id_eq, hpending]
    simp only [pendingDoc] at hs'
    rw [hs']
  exact .of_ok hrun ⟨_, hspells, hs'⟩

theorem current_reads (h : Shows doc (w :: ws) s) (hw : w.plain = true) :
    Returns current s fun t s' => t.word = w ∧ Shows doc (w :: ws) s' :=
  .of_ok rfl ⟨(h.head hw).1, h⟩

theorem currentLoc_reads (h : Shows doc ws s) :
    Returns currentLoc s fun _ s' => Shows doc ws s' :=
  .of_ok rfl h

theorem takeDoc_reads (h : Shows doc (w :: ws) s) (hw : w.plain = true) :
    Returns (takeDoc pendingDoc) s fun d s' => d = doc ∧ Shows [] (w :: ws) s' := by
  obtain ⟨hword, hpending, hspells⟩ := h.head hw
  refine .of_ok rfl ⟨hpending, .token s.current s.stream, ⟨hword, hspells⟩, ?_⟩
  have htype : s.current.type ≠ .docComment := by
    rw [h.type hw]
    simpa [Word.plain] using hw
  rw [Stream.next, if_neg htype]
  rfl

theorem check_hit {type : TokenType} (h : Shows doc (w :: ws) s) (hw : w.plain = true)
    (htype : w.type = type) :
    Returns (check type) s fun b s' => b = true ∧ Shows doc (w :: ws) s' :=
  .of_ok rfl ⟨decide_eq_true ((h.type hw).trans htype), h⟩

theorem check_miss {type : TokenType} (h : Shows doc (w :: ws) s) (hw : w.plain = true)
    (htype : w.type ≠ type) :
    Returns (check type) s fun b s' => b = false ∧ Shows doc (w :: ws) s' :=
  .of_ok rfl ⟨decide_eq_false fun h' => htype ((h.type hw).symm.trans h'), h⟩

theorem expect_reads {type : TokenType} {msg : Str} (h : Shows doc (w :: ws) s)
    (hw : w.plain = true) (htype : w.type = type) :
    Returns (expect pendingDoc type msg) s fun t s' => t.word = w ∧ Shows doc ws s' := by
  refine .seq (current_reads h hw) fun t s₁ ⟨ht, h₁⟩ => ?_
  have ht' : t.type = w.type := congrArg Word.type ht
  rw [ht', if_pos htype]
  exact .seq (advance_reads h₁ hw) fun _ _ h₂ => .pure ⟨ht, h₂⟩

theorem expect_throws {type : TokenType} {msg : Str} (h : Shows doc (w :: ws) s)
    (hw : w.plain = true) (htype : w.type ≠ type) : Throws (expect pendingDoc type msg) s := by
  refine .seq (current_reads h hw) fun t s₁ ⟨ht, h₁⟩ => ?_
  have ht' : t.type = w.type := congrArg Word.type ht
  rw [ht', if_neg htype]
  exact .of_error rfl trivial

theorem expectName_reads {msg n : Str} (h : Shows doc (ident n :: ws) s) :
    Returns (expectName pendingDoc msg) s fun v s' => v = n ∧ Shows doc ws s' :=
  .seq (expect_reads h rfl rfl) fun _ _ ⟨ht, h₁⟩ => .pure ⟨congrArg Word.value ht, h₁⟩

theorem accept_hit {type : TokenType} (h : Shows doc (w :: ws) s) (hw : w.plain = true)
    (htype : w.type = type) :
    Returns (accept pendingDoc type) s fun b s' => b = true ∧ Shows doc ws s' := by
  refine .seq (check_hit h hw htype) fun b s₁ ⟨hb, h₁⟩ => ?_
  rw [hb, if_pos rfl]
  exact .seq (advance_reads h₁ hw) fun _ _ h₂ => .pure ⟨rfl, h₂⟩

theorem accept_miss {type : TokenType} (h : Shows doc (w :: ws) s) (hw : w.plain = true)
    (htype : w.type ≠ type) :
    Returns (accept pendingDoc type) s fun b s' => b = false ∧ Shows doc (w :: ws) s' := by
  refine .seq (check_miss h hw htype) fun b s₁ ⟨hb, h₁⟩ => ?_
  rw [hb, if_neg Bool.false_ne_true]
  exact .pure ⟨rfl, h₁⟩

/-! ### Types -/

theorem countP_bracketWords (n : Nat) : (bracketWords n).countP Word.plain = 2 * n := by
  induction n with
  | zero => rfl
  | succ n ih =>
    rw [bracketWords, List.countP_cons_of_pos rfl, List.countP_cons_of_pos rfl, ih]
    omega

theorem brackets_reads {n fuel : Nat} (h : Shows doc (bracketWords n ++ w :: ws) s)
    (hw : w.plain = true) (hstop : w.type ≠ .lBracket) (hfuel : n < fuel) :
    Returns (brackets pendingDoc fuel) s fun k s' => k = n ∧ Shows doc (w :: ws) s' := by
  induction fuel generalizing n s with
  | zero => exact absurd hfuel (Nat.not_lt_zero _)
  | succ fuel ih =>
    cases n with
    | zero =>
      refine .seq (check_miss h hw hstop) fun b s₁ ⟨hb, h₁⟩ => ?_
      rw [hb, if_neg Bool.false_ne_true]
      exact .pure ⟨rfl, h₁⟩
    | succ n =>
      refine .seq (check_hit h rfl rfl) fun b s₁ ⟨hb, h₁⟩ => ?_
      rw [hb, if_pos rfl]
      refine .seq (advance_reads h₁ rfl) fun _ s₂ h₂ => ?_
      refine .seq (expect_reads h₂ rfl rfl) fun _ s₃ ⟨_, h₃⟩ => ?_
      refine .seq (ih h₃ (Nat.lt_of_succ_lt_succ hfuel)) fun k s₄ ⟨hk, h₄⟩ => ?_
      exact .pure ⟨congrArg (· + 1) hk, h₄⟩

/-- The marks of a type, up to what is neither `[` nor `?`. -/
theorem typeMarks_reads {t : Ty} (h : Shows doc (t.marks ++ w :: ws) s) (hw : w.plain = true)
    (hbracket : w.type ≠ .lBracket) (hquestion : w.type ≠ .question) :
    Returns (typeMarks pendingDoc) s fun m s' =>
      m = (t.arrayDimensions.toNat, t.isOptional) ∧ Shows doc (w :: ws) s' := by
  have hfuel : t.arrayDimensions.toNat < s.stream.length + 2 := by
    have hcount := h.count
    rw [Ty.marks, List.countP_append, List.countP_append, countP_bracketWords] at hcount
    omega
  rw [Ty.marks] at h
  cases hopt : t.isOptional with
  | true =>
    rw [hopt, if_pos rfl, List.append_assoc] at h
    refine .seq (brackets_reads h rfl (by decide) hfuel) fun n s₁ ⟨hn, h₁⟩ => ?_
    refine .seq (check_hit h₁ rfl rfl) fun b s₂ ⟨hb, h₂⟩ => ?_
    rw [hb, if_pos rfl]
    exact .seq (advance_reads h₂ rfl) fun _ s₃ h₃ => .pure ⟨by rw [hn], h₃⟩
  | false =>
    rw [hopt, if_neg Bool.false_ne_true, List.append_nil] at h
    refine .seq (brackets_reads h hw hbracket hfuel) fun n s₁ ⟨hn, h₁⟩ => ?_
    refine .seq (check_miss h₁ hw hquestion) fun b s₂ ⟨hb, h₂⟩ => ?_
    rw [hb, if_neg Bool.false_ne_true]
    exact .pure ⟨by rw [hn], h₂⟩

theorem tokenToPrimitive_keyword (p : PrimitiveType) : tokenToPrimitive p.keyword = some p := by
  cases p <;> rfl

theorem plain_base (b : TypeBase) : b.word.plain = true := by
  cases b with
  | primitive p => cases p <;> rfl
  | user n => rfl

theorem parseTypeBase_reads {b : TypeBase} (h : Shows doc (b.word :: ws) s) :
    Returns (parseTypeBase pendingDoc) s fun b' s' => b' = b ∧ Shows doc ws s' := by
  have hplain := plain_base b
  refine .seq (current_reads h hplain) fun t s₁ ⟨ht, h₁⟩ => ?_
  have htype : t.type = b.word.type := congrArg Word.type ht
  have hvalue : t.value = b.word.value := congrArg Word.value ht
  rw [htype, hvalue]
  cases b with
  | primitive p =>
    rw [show (TypeBase.primitive p).word.type = p.keyword from rfl, tokenToPrimitive_keyword]
    exact .seq (advance_reads h₁ hplain) fun _ s₂ h₂ => .pure ⟨rfl, h₂⟩
  | user n => exact .seq (advance_reads h₁ hplain) fun _ s₂ h₂ => .pure ⟨rfl, h₂⟩

theorem makeType_marks {t : Ty} (ht : t.Writable) :
    makeType t.base (t.arrayDimensions.toNat, t.isOptional) = t := by
  obtain ⟨base, isArray, isOptional, dims⟩ := t
  obtain ⟨-, hdims, harray⟩ := ht
  obtain ⟨n, rfl⟩ := Int.eq_ofNat_of_zero_le hdims
  simp only [makeType, Int.toNat_natCast, Ty.mk.injEq, true_and, and_true]
  rw [show isArray = decide ((0 : Int) < (n : Int)) from harray]
  exact decide_eq_decide.mpr Int.natCast_pos.symm

theorem parseType_reads {t : Ty} (ht : t.Writable) (h : Shows doc (t.words ++ w :: ws) s)
    (hw : w.plain = true) (hbracket : w.type ≠ .lBracket) (hquestion : w.type ≠ .question) :
    Returns (parseType pendingDoc) s fun t' s' => t' = t ∧ Shows doc (w :: ws) s' := by
  refine .seq (parseTypeBase_reads h) fun b s₁ ⟨hb, h₁⟩ => ?_
  refine .seq (typeMarks_reads h₁ hw hbracket hquestion) fun m s₂ ⟨hm, h₂⟩ => ?_
  rw [hb, hm]
  exact .pure ⟨makeType_marks ht, h₂⟩

/-! ### Loops -/

section
variable {γ ι : Type} {item : Parse Str β} {stop : TokenType → Bool} {words : ι → List Word}
  {f : β → γ} {g : ι → γ}

/-- Items one after another, up to a word that stops the loop. -/
theorem untilStop_reads {xs : List ι} {last : List Word} {fuel : Nat}
    (hitem : ∀ x ∈ xs, ∀ ws s, Shows [] (words x ++ ws) s →
      Returns item s fun b s' => f b = g x ∧ Shows [] ws s')
    (hstart : ∀ x ∈ xs, ∀ ws, stop (firstType (words x ++ ws)) = false)
    (hlast : stop (firstType last) = true) (h : Shows [] (xs.flatMap words ++ last) s)
    (hfuel : xs.length < fuel) :
    Returns (untilStop stop item fuel) s fun bs s' => bs.map f = xs.map g ∧ Shows [] last s' := by
  induction fuel generalizing xs s with
  | zero => exact absurd hfuel (Nat.not_lt_zero _)
  | succ fuel ih =>
    refine .bind (.of_ok rfl ?_)
    cases xs with
    | nil =>
      have h : Shows [] last s := h
      rw [h.firstType, if_pos hlast]
      exact .pure ⟨rfl, h⟩
    | cons x xs =>
      rw [List.flatMap_cons, List.append_assoc] at h
      rw [h.firstType, if_neg (by rw [hstart x List.mem_cons_self]; exact Bool.false_ne_true)]
      refine .seq (hitem x List.mem_cons_self _ _ h) fun b s₁ ⟨hb, h₁⟩ => ?_
      refine .seq (ih (fun y hy => hitem y (List.mem_cons_of_mem _ hy))
        (fun y hy => hstart y (List.mem_cons_of_mem _ hy)) h₁ (Nat.lt_of_succ_lt_succ hfuel))
        fun bs s₂ ⟨hbs, h₂⟩ => ?_
      exact .pure ⟨by rw [List.map_cons, List.map_cons, hb, hbs], h₂⟩

/-- An item that is not read stops the loop. -/
theorem untilStop_throws {xs : List ι} {last : List Word} {fuel : Nat} {good : ι → Prop}
    (hitem : ∀ x ∈ xs, good x → ∀ ws s, Shows [] (words x ++ ws) s →
      Returns item s fun b s' => f b = g x ∧ Shows [] ws s')
    (hbad : ∀ x ∈ xs, ¬ good x → ∀ ws s, Shows [] (words x ++ ws) s → Throws item s)
    (hstart : ∀ x ∈ xs, ∀ ws, stop (firstType (words x ++ ws)) = false)
    (h : Shows [] (xs.flatMap words ++ last) s) (hx : ∃ x ∈ xs, ¬ good x) :
    Throws (untilStop stop item fuel) s := by
  induction fuel generalizing xs s with
  | zero => exact .throw trivial
  | succ fuel ih =>
    refine .bind (.of_ok rfl ?_)
    cases xs with
    | nil =>
      obtain ⟨x, hx, -⟩ := hx
      cases hx
    | cons x xs =>
      rw [List.flatMap_cons, List.append_assoc] at h
      rw [h.firstType, if_neg (by rw [hstart x List.mem_cons_self]; exact Bool.false_ne_true)]
      by_cases hgood : good x
      · obtain ⟨y, hy, hybad⟩ := hx
        have hy' : y ∈ xs := by
          rcases List.mem_cons.mp hy with rfl | hy'
          · exact absurd hgood hybad
          · exact hy'
        refine .seq (hitem x List.mem_cons_self hgood _ _ h) fun b s₁ ⟨_, h₁⟩ => ?_
        exact throws_bind (ih (fun z hz => hitem z (List.mem_cons_of_mem _ hz))
          (fun z hz => hbad z (List.mem_cons_of_mem _ hz))
          (fun z hz => hstart z (List.mem_cons_of_mem _ hz)) h₁ ⟨y, hy', hybad⟩)
      · exact throws_bind (hbad x List.mem_cons_self hgood _ _ h)

/-- Every item has a word of its own. -/
theorem length_le_countP {xs : List ι}
    (hstart : ∀ x ∈ xs, 0 < (words x).countP Word.plain) (last : List Word) :
    xs.length + last.countP Word.plain ≤ (xs.flatMap words ++ last).countP Word.plain := by
  induction xs with
  | nil => exact Nat.le_of_eq (Nat.zero_add _)
  | cons x xs ih =>
    have hpos := hstart x List.mem_cons_self
    have hrest := ih fun y hy => hstart y (List.mem_cons_of_mem _ hy)
    rw [List.flatMap_cons, List.append_assoc, List.countP_append, List.length_cons]
    omega

theorem countP_pos_of_firstType {ws : List Word} (h : firstType ws ≠ .eof) :
    0 < ws.countP Word.plain := by
  induction ws with
  | nil => exact absurd rfl h
  | cons w ws ih =>
    by_cases hw : w.plain = true
    · rw [List.countP_cons_of_pos hw]
      exact Nat.succ_pos _
    · rw [List.countP_cons_of_neg hw]
      rw [firstType, if_neg hw] at h
      exact ih h

theorem many_reads {xs : List ι} {last : List Word} (heof : stop .eof = true)
    (hitem : ∀ x ∈ xs, ∀ ws s, Shows [] (words x ++ ws) s →
      Returns item s fun b s' => f b = g x ∧ Shows [] ws s')
    (hstart : ∀ x ∈ xs, ∀ ws, stop (firstType (words x ++ ws)) = false)
    (hlast : stop (firstType last) = true) (h : Shows [] (xs.flatMap words ++ last) s) :
    Returns (many stop item) s fun bs s' => bs.map f = xs.map g ∧ Shows [] last s' := by
  have hpos : ∀ x ∈ xs, 0 < (words x).countP Word.plain := fun x hx => by
    have hx' := hstart x hx []
    rw [List.append_nil] at hx'
    refine countP_pos_of_firstType fun heq => ?_
    rw [heq, heof] at hx'
    cases hx'
  have hcount := h.count
  have hlength := length_le_countP hpos last
  exact untilStop_reads hitem hstart hlast h (by omega)

theorem many_throws {xs : List ι} {last : List Word} {good : ι → Prop}
    (hitem : ∀ x ∈ xs, good x → ∀ ws s, Shows [] (words x ++ ws) s →
      Returns item s fun b s' => f b = g x ∧ Shows [] ws s')
    (hbad : ∀ x ∈ xs, ¬ good x → ∀ ws s, Shows [] (words x ++ ws) s → Throws item s)
    (hstart : ∀ x ∈ xs, ∀ ws, stop (firstType (words x ++ ws)) = false)
    (h : Shows [] (xs.flatMap words ++ last) s) (hx : ∃ x ∈ xs, ¬ good x) :
    Throws (many stop item) s :=
  untilStop_throws hitem hbad hstart h hx

/-- An item is followed by a comma or by what follows the last one. -/
theorem comma_next {xs : List ι} (hw : w.plain = true) :
    ∃ v vs, (xs.flatMap fun x => of .comma :: words x) ++ w :: ws = v :: vs ∧
      v.plain = true ∧ (v.type = .comma ∨ v.type = w.type) := by
  cases xs with
  | nil => exact ⟨w, ws, rfl, hw, .inr rfl⟩
  | cons x xs => exact ⟨of .comma, _, rfl, rfl, .inl rfl⟩

/-- The items behind the first one, with a comma in front of each. -/
theorem afterCommas_reads {xs : List ι} {fuel : Nat}
    (hitem : ∀ x ∈ xs, ∀ v vs s, v.plain = true → v.type = .comma ∨ v.type = w.type →
      Shows [] (words x ++ v :: vs) s →
        Returns item s fun b s' => f b = g x ∧ Shows [] (v :: vs) s')
    (hstart : ∀ x ∈ xs, ∀ vs, stop (firstType (words x ++ vs)) = false)
    (hw : w.plain = true) (hcomma : w.type ≠ .comma)
    (h : Shows [] ((xs.flatMap fun x => of .comma :: words x) ++ w :: ws) s)
    (hfuel : xs.length < fuel) :
    Returns (afterCommas pendingDoc stop item fuel) s fun bs s' =>
      bs.map f = xs.map g ∧ Shows [] (w :: ws) s' := by
  induction fuel generalizing xs s with
  | zero => exact absurd hfuel (Nat.not_lt_zero _)
  | succ fuel ih =>
    cases xs with
    | nil =>
      refine .seq (check_miss h hw hcomma) fun b s₁ ⟨hb, h₁⟩ => ?_
      rw [hb, if_neg Bool.false_ne_true]
      exact .pure ⟨rfl, h₁⟩
    | cons x xs =>
      rw [List.flatMap_cons, List.cons_append, List.cons_append, List.append_assoc] at h
      refine .seq (check_hit h rfl rfl) fun b s₁ ⟨hb, h₁⟩ => ?_
      rw [hb, if_pos rfl]
      refine .seq (advance_reads h₁ rfl) fun _ s₂ h₂ => ?_
      refine .bind (.of_ok rfl ?_)
      rw [h₂.firstType, if_neg (by rw [hstart x List.mem_cons_self]; exact Bool.false_ne_true)]
      obtain ⟨v, vs, hvs, hv, hv'⟩ := @comma_next w ws _ words xs hw
      rw [hvs] at h₂
      refine .seq (hitem x List.mem_cons_self v vs s₂ hv hv' h₂) fun b s₃ ⟨hb, h₃⟩ => ?_
      rw [← hvs] at h₃
      refine .seq (ih (fun y hy => hitem y (List.mem_cons_of_mem _ hy))
        (fun y hy => hstart y (List.mem_cons_of_mem _ hy)) h₃ (Nat.lt_of_succ_lt_succ hfuel))
        fun bs s₄ ⟨hbs, h₄⟩ => ?_
      exact .pure ⟨by rw [List.map_cons, List.map_cons, hb, hbs], h₄⟩

theorem commaSeparated_reads {xs : List ι} (hne : xs ≠ [])
    (hitem : ∀ x ∈ xs, ∀ v vs s, v.plain = true → v.type = .comma ∨ v.type = w.type →
      Shows [] (words x ++ v :: vs) s →
        Returns item s fun b s' => f b = g x ∧ Shows [] (v :: vs) s')
    (hstart : ∀ x ∈ xs, ∀ vs, stop (firstType (words x ++ vs)) = false)
    (hw : w.plain = true) (hcomma : w.type ≠ .comma)
    (h : Shows [] (separated (of .comma) (xs.map words) ++ w :: ws) s) :
    Returns (commaSeparated pendingDoc stop item) s fun bs s' =>
      bs.map f = xs.map g ∧ Shows [] (w :: ws) s' := by
  cases xs with
  | nil => exact absurd rfl hne
  | cons x xs =>
    rw [List.map_cons, separated_cons, List.flatMap_map, List.append_assoc] at h
    obtain ⟨v, vs, hvs, hv, hv'⟩ := @comma_next w ws _ words xs hw
    rw [hvs] at h
    refine .seq (hitem x List.mem_cons_self v vs s hv hv' h) fun b s₁ ⟨hb, h₁⟩ => ?_
    rw [← hvs] at h₁
    have hfuel : xs.length < s₁.stream.length + 2 := by
      have hcount := h₁.count
      have hlength := @length_le_countP _ (fun x => of .comma :: words x) xs
        (fun y hy => by rw [List.countP_cons_of_pos rfl]; exact Nat.succ_pos _) (w :: ws)
      omega
    refine .seq (afterCommas_reads (fun y hy => hitem y (List.mem_cons_of_mem _ hy))
      (fun y hy => hstart y (List.mem_cons_of_mem _ hy)) hw hcomma h₁ hfuel)
      fun bs s₂ ⟨hbs, h₂⟩ => ?_
    exact .pure ⟨by rw [List.map_cons, List.map_cons, hb, hbs], h₂⟩

end

/-! ### Parts of definitions -/

theorem parseField_reads {d : Field} (hd : d.Writable) (h : Shows [] (d.words ++ ws) s) :
    Returns (parseField pendingDoc) s fun d' s' =>
      d'.withDocs id = d.withDocs trimDoc ∧ Shows [] ws s' := by
  rw [Field.words, List.append_assoc, List.append_assoc] at h
  refine .seq (currentLoc_reads h.docWords) fun loc s₁ h₁ => ?_
  refine .seq (takeDoc_reads h₁ (plain_base _)) fun doc s₂ ⟨hdoc, h₂⟩ => ?_
  refine .seq (parseType_reads hd.type h₂ rfl nofun nofun) fun t s₃ ⟨ht, h₃⟩ => ?_
  refine .seq (expectName_reads h₃) fun n s₄ ⟨hn, h₄⟩ => ?_
  refine .seq (expect_reads h₄ rfl rfl) fun _ s₅ ⟨_, h₅⟩ => ?_
  refine .pure ⟨?_, h₅⟩
  rw [hdoc, ht, hn]
  rfl

theorem parseParam_reads {p : Param} (hp : p.Writable) (h : Shows [] (p.words ++ ws) s) :
    Returns (parseParam pendingDoc) s fun p' s' => p'.unplaced = p.unplaced ∧ Shows [] ws s' := by
  rw [Param.words, List.append_assoc] at h
  refine .seq (currentLoc_reads h) fun loc s₁ h₁ => ?_
  refine .seq (parseType_reads hp.type h₁ rfl nofun nofun) fun t s₂ ⟨ht, h₂⟩ => ?_
  refine .seq (expectName_reads h₂) fun n s₃ ⟨hn, h₃⟩ => ?_
  refine .pure ⟨?_, h₃⟩
  rw [ht, hn]
  rfl

theorem parseEnumItem_reads {i : EnumItem} (hw : w.plain = true) (hequals : w.type ≠ .equals)
    (h : Shows [] (i.words ++ w :: ws) s) :
    Returns (parseEnumItem pendingDoc) s fun i' s' =>
      i'.withDocs id = i.withDocs trimDoc ∧ Shows [] (w :: ws) s' := by
  obtain ⟨name, value, loc, doc⟩ := i
  rw [EnumItem.words, List.append_assoc, List.append_assoc] at h
  refine .seq (currentLoc_reads h.docWords) fun loc s₁ h₁ => ?_
  refine .seq (takeDoc_reads h₁ rfl) ?_
  rintro doc s₂ ⟨hdoc, h₂⟩
  refine .seq (expectName_reads h₂) ?_
  rintro n s₃ ⟨hn, h₃⟩
  cases value with
  | none =>
    refine .seq (check_miss h₃ hw hequals) ?_
    rintro b s₄ ⟨hb, h₄⟩
    rw [hb, if_neg Bool.false_ne_true]
    refine .pure ⟨?_, h₄⟩
    rw [hdoc, hn]
    rfl
  | some v =>
    refine .seq (check_hit h₃ rfl rfl) ?_
    rintro b s₄ ⟨hb, h₄⟩
    rw [hb, if_pos rfl]
    refine .seq (advance_reads h₄ rfl) fun _ s₅ h₅ => ?_
    refine .seq (expect_reads h₅ rfl rfl) ?_
    rintro t s₆ ⟨ht, h₆⟩
    refine .pure ⟨?_, h₆⟩
    have hv : t.intValue = v := congrArg Word.intValue ht
    rw [hdoc, hn, hv]
    rfl

/-- Parameters up to the closing parenthesis. -/
theorem parseParams_reads {params : List Param} (hparams : ∀ p ∈ params, p.Writable)
    (h : Shows [] (separated (of .comma) (params.map Param.words) ++ of .rParen :: ws) s) :
    Returns (parseParams pendingDoc) s fun ps s' =>
      ps.map Param.unplaced = params.map Param.unplaced ∧ Shows [] (of .rParen :: ws) s' := by
  cases params with
  | nil =>
    refine .seq (check_hit h rfl rfl) fun b s₁ ⟨hb, h₁⟩ => ?_
    rw [hb, if_pos rfl]
    exact .pure ⟨rfl, h₁⟩
  | cons p params =>
    have hword : p.type.base.word.type ≠ .rParen := by
      cases p.type.base with
      | primitive q => cases q <;> decide
      | user n => exact TokenType.noConfusion
    have h' := h
    rw [List.map_cons, separated_cons, List.append_assoc, Param.words, List.append_assoc] at h'
    refine .bind (.of_ok rfl ?_)
    rw [h'.type (plain_base _), decide_eq_false hword, if_neg Bool.false_ne_true]
    exact commaSeparated_reads (List.cons_ne_nil _ _)
      (fun q hq v vs s _ _ hs => parseParam_reads (hparams q hq) hs) (fun _ _ _ => rfl) rfl
      (by decide) h

/-- The error types, up to the semicolon. -/
theorem parseThrows_reads {errors : List Str}
    (h : Shows [] (throwsWords errors ++ of .semicolon :: ws) s) :
    Returns (parseThrows pendingDoc) s fun es s' =>
      es = errors ∧ Shows [] (of .semicolon :: ws) s' := by
  rw [throwsWords] at h
  split at h
  · next hnil =>
    refine .seq (accept_miss h rfl (by decide)) ?_
    rintro b s₁ ⟨hb, h₁⟩
    rw [hb, if_neg Bool.false_ne_true]
    exact .pure ⟨hnil.symm, h₁⟩
  · next hne =>
    refine .seq (accept_hit h rfl rfl) ?_
    rintro b s₁ ⟨hb, h₁⟩
    rw [hb, if_pos rfl]
    refine (commaSeparated_reads (f := id) (g := id) hne (fun e _ v vs s _ _ hs => ?_)
      (fun _ _ _ => rfl) rfl (by decide) h₁).mono ?_ fun _ _ hf => hf
    · exact expectName_reads hs
    · rintro es s₂ ⟨hes, h₂⟩
      rw [List.map_id, List.map_id] at hes
      exact ⟨hes, h₂⟩

theorem throws_next (errors : List Str) (ws : List Word) :
    ∃ v vs, throwsWords errors ++ of .semicolon :: ws = v :: vs ∧ v.plain = true ∧
      v.type ≠ .lBracket ∧ v.type ≠ .question := by
  rw [throwsWords]
  split
  · exact ⟨of .semicolon, ws, rfl, rfl, by decide, by decide⟩
  · exact ⟨of .kwThrows, _, rfl, rfl, by decide, by decide⟩

/-- A method from its parameters on. -/
theorem parseSignature_reads {m : Method} (hm : m.Writable) (name : Str) (loc : SourceLoc)
    (doc : Str) (isOptional isStream : Bool) (h : Shows [] (m.signature ++ ws) s) :
    Returns (parseSignature pendingDoc name loc doc isOptional isStream) s fun m' s' =>
      (∃ params, m' = ⟨name, params, m.returnType, isStream, m.throws, loc, doc, isOptional⟩ ∧
        params.map Param.unplaced = m.params.map Param.unplaced) ∧ Shows [] ws s' := by
  rw [Method.signature, paramWords] at h
  simp only [List.append_assoc, List.cons_append, List.nil_append] at h
  refine .seq (expect_reads h rfl rfl) fun _ s₁ ⟨_, h₁⟩ => ?_
  refine .seq (parseParams_reads hm.params h₁) fun ps s₂ ⟨hps, h₂⟩ => ?_
  refine .seq (expect_reads h₂ rfl rfl) fun _ s₃ ⟨_, h₃⟩ => ?_
  refine .seq (expect_reads h₃ rfl rfl) fun _ s₄ ⟨_, h₄⟩ => ?_
  obtain ⟨v, vs, hvs, hv, hbracket, hquestion⟩ := throws_next m.throws ws
  rw [hvs] at h₄
  refine .seq (parseType_reads hm.returnType h₄ hv hbracket hquestion) fun t s₅ ⟨ht, h₅⟩ => ?_
  rw [← hvs] at h₅
  refine .seq (parseThrows_reads h₅) fun es s₆ ⟨hes, h₆⟩ => ?_
  refine .seq (expect_reads h₆ rfl rfl) fun _ s₇ ⟨_, h₇⟩ => ?_
  rw [ht, hes]
  exact .pure ⟨⟨ps, rfl, hps⟩, h₇⟩

/-- The modifier of a method, in front of its name. -/
theorem parseModifier_reads {m : Method} (hm : m.Writable)
    (h : Shows [] (m.modifier ++ ident m.name :: ws) s) :
    Returns (parseModifier pendingDoc) s fun b s' =>
      b = (m.isOptional, m.isStream) ∧ Shows [] (ident m.name :: ws) s' := by
  have hmodifier := hm.modifier
  rw [Method.modifier] at h
  cases hopt : m.isOptional with
  | true =>
    have hstream : m.isStream = false := by
      rw [hopt] at hmodifier
      exact Bool.eq_false_iff.mpr fun hs => hmodifier ⟨rfl, hs⟩
    rw [hopt, if_pos rfl] at h
    refine .seq (accept_hit h rfl rfl) ?_
    rintro b s₁ ⟨hb, h₁⟩
    rw [hb, if_pos rfl]
    exact .pure ⟨by rw [hstream], h₁⟩
  | false =>
    rw [hopt, if_neg Bool.false_ne_true] at h
    cases hstream : m.isStream with
    | true =>
      rw [hstream, if_pos rfl] at h
      refine .seq (accept_miss h rfl (by decide)) ?_
      rintro b s₁ ⟨hb, h₁⟩
      rw [hb, if_neg Bool.false_ne_true]
      refine .seq (accept_hit h₁ rfl rfl) ?_
      rintro b' s₂ ⟨hb', h₂⟩
      exact .pure ⟨by rw [hb'], h₂⟩
    | false =>
      rw [hstream, if_neg Bool.false_ne_true] at h
      have hkwOptional : (ident m.name).type ≠ .kwOptional :=
        show TokenType.identifier ≠ .kwOptional by decide
      have hkwStream : (ident m.name).type ≠ .kwStream :=
        show TokenType.identifier ≠ .kwStream by decide
      refine .seq (accept_miss h rfl hkwOptional) ?_
      rintro b s₁ ⟨hb, h₁⟩
      rw [hb, if_neg Bool.false_ne_true]
      refine .seq (accept_miss h₁ rfl hkwStream) ?_
      rintro b' s₂ ⟨hb', h₂⟩
      exact .pure ⟨by rw [hb'], h₂⟩

/-- The first word of a method. -/
theorem method_next (m : Method) (ws : List Word) :
    ∃ v vs, m.modifier ++ (ident m.name :: m.signature ++ ws) = v :: vs ∧ v.plain = true ∧
      atBodyEnd v.type = false := by
  rw [Method.modifier]
  split
  · exact ⟨_, _, rfl, rfl, rfl⟩
  split
  · exact ⟨_, _, rfl, rfl, rfl⟩
  · exact ⟨_, _, rfl, rfl, rfl⟩

/-- A method whose documentation has been taken. -/
theorem parseMethod_reads {m : Method} (hm : m.Writable)
    (h : Shows [] (m.modifier ++ ident m.name :: m.signature ++ ws) s) :
    Returns (parseMethod pendingDoc) s fun m' s' =>
      m'.withDocs id = { m with doc := [] }.withDocs trimDoc ∧ Shows [] ws s' := by
  rw [List.append_assoc] at h
  obtain ⟨v, vs, hvs, hv, -⟩ := method_next m ws
  refine .seq (currentLoc_reads h) fun loc s₁ h₁ => ?_
  rw [hvs] at h₁
  refine .seq (takeDoc_reads h₁ hv) fun doc s₂ ⟨hdoc, h₂⟩ => ?_
  rw [← hvs] at h₂
  refine .seq (parseModifier_reads hm h₂) fun b s₃ ⟨hb, h₃⟩ => ?_
  refine .seq (expectName_reads h₃) fun n s₄ ⟨hn, h₄⟩ => ?_
  refine (parseSignature_reads hm n loc doc b.1 b.2 h₄).mono ?_ fun _ _ hf => hf
  rintro m' s₅ ⟨⟨params, rfl, hparams⟩, h₅⟩
  rw [hb, hn, hdoc]
  refine ⟨?_, h₅⟩
  simp only [Method.withDocs, hparams]
  rfl

end

end Song.Compiler
