import Song.Compiler.Reading

/-!
# The parser on what is written

A parser that has the lexemes of a tree in front of it reads that tree, without the positions and
without the newlines that its documentation begins with. Two things of the language it does not
read: in a class, a property of a user's type that is not readonly, when the type has marks or is
the class, and a method with the name of its class.
-/

namespace Song.Compiler

open Word (of ident integer)
open Parse

section
variable {w : Word} {ws : List Word} {s : Parser Str}

/-! ## Members -/

namespace Parse.Member

def withDocs (g : Str → Str) : Member → Member
  | property p => .property (p.withDocs g)
  | constructor c => .constructor (c.withDocs g)
  | method m => .method (m.withDocs g)

variable (g : Str → Str) (ms : List Member)

theorem property_withDocs : (ms.map (withDocs g)).filterMap property? =
    (ms.filterMap property?).map (Property.withDocs g) := by
  rw [List.filterMap_map, List.map_filterMap]
  refine List.filterMap_congr fun m _ => ?_
  cases m <;> rfl

theorem constructor_withDocs : (ms.map (withDocs g)).filterMap constructor? =
    (ms.filterMap constructor?).map (Constructor.withDocs g) := by
  rw [List.filterMap_map, List.map_filterMap]
  refine List.filterMap_congr fun m _ => ?_
  cases m <;> rfl

theorem method_withDocs : (ms.map (withDocs g)).filterMap method? =
    (ms.filterMap method?).map (Method.withDocs g) := by
  rw [List.filterMap_map, List.map_filterMap]
  refine List.filterMap_congr fun m _ => ?_
  cases m <;> rfl

end Parse.Member

/-- Readonly, or of a primitive type, or of another user's type without marks. -/
def Property.Accepted (className : Str) (p : Property) : Prop :=
  p.readonly = false → ∀ type, p.type.base = .user type →
    type ≠ className ∧ p.type.arrayDimensions = 0 ∧ p.type.isOptional = false

/-- With a modifier, or with a name other than that of the class. -/
def Method.Accepted (className : Str) (m : Method) : Prop :=
  m.isStream = false → m.isOptional = false → m.name ≠ className

namespace Parse.Member

def Accepted (className : Str) : Member → Prop
  | property p => p.Accepted className
  | constructor _ => True
  | method m => m.Accepted className

end Parse.Member

/-- After `readonly` every type is read. -/
theorem parseProperty_reads {p : Property} (hp : p.Writable)
    (h : Shows [] (of .kwReadonly :: (p.type.words ++ ident p.name :: of .semicolon :: ws)) s) :
    Returns (parseProperty pendingDoc) s fun p' s' =>
      (∃ loc, p' = ⟨p.name, p.type, true, loc, []⟩) ∧ Shows [] ws s' := by
  refine .seq (currentLoc_reads h) fun loc s₁ h₁ => ?_
  refine .seq (takeDoc_reads h₁ rfl) fun doc s₂ ⟨hdoc, h₂⟩ => ?_
  refine .seq (accept_hit h₂ rfl rfl) fun b s₃ ⟨hb, h₃⟩ => ?_
  refine .seq (parseType_reads hp.type h₃ rfl nofun nofun) fun t s₄ ⟨ht, h₄⟩ => ?_
  refine .seq (expectName_reads h₄) fun n s₅ ⟨hn, h₅⟩ => ?_
  refine .seq (expect_reads h₅ rfl rfl) fun _ s₆ ⟨_, h₆⟩ => ?_
  rw [hdoc, hb, ht, hn]
  exact .pure ⟨⟨loc, rfl⟩, h₆⟩

theorem parseConstructor_reads {c : Constructor} (hc : c.Writable) {className : Str}
    (h : Shows [] (ident className :: paramWords c.params ++ of .semicolon :: ws) s) :
    Returns (parseConstructor pendingDoc) s fun c' s' =>
      c'.withDocs id = { c with doc := [] }.withDocs trimDoc ∧ Shows [] ws s' := by
  simp only [paramWords, List.append_assoc, List.cons_append, List.nil_append] at h
  refine .seq (takeDoc_reads h rfl) ?_
  rintro doc s₁ ⟨hdoc, h₁⟩
  refine .seq (expect_reads h₁ rfl rfl) ?_
  rintro _ s₂ ⟨_, h₂⟩
  refine .seq (expect_reads h₂ rfl rfl) ?_
  rintro _ s₃ ⟨_, h₃⟩
  refine .seq (parseParams_reads hc h₃) ?_
  rintro ps s₄ ⟨hps, h₄⟩
  refine .seq (expect_reads h₄ rfl rfl) ?_
  rintro _ s₅ ⟨_, h₅⟩
  refine .seq (expect_reads h₅ rfl rfl) ?_
  rintro _ s₆ ⟨_, h₆⟩
  refine .pure ⟨?_, h₆⟩
  simp only [Constructor.withDocs, hps, hdoc]
  rfl

theorem keyword_ne (p : PrimitiveType) :
    p.keyword ≠ .kwReadonly ∧ p.keyword ≠ .identifier ∧
      ¬ (p.keyword = .kwStream ∨ p.keyword = .kwOptional) := by
  cases p <;> decide

/-- A property whose type was a primitive. -/
theorem parsePrimitiveProperty_reads {p : Property} (hp : p.Writable) {d : Str}
    (h : Shows [] (p.type.words ++ ident p.name :: of .semicolon :: ws) s) :
    Returns (parsePrimitiveProperty pendingDoc d) s fun m s' =>
      (∃ loc, m = .property ⟨p.name, p.type, false, loc, d⟩) ∧ Shows [] ws s' := by
  refine .seq (parseType_reads hp.type h rfl nofun nofun) fun t s₁ ⟨ht, h₁⟩ => ?_
  refine .seq (expectName_reads h₁) fun n s₂ ⟨hn, h₂⟩ => ?_
  refine .seq (currentLoc_reads h₂) fun loc s₃ h₃ => ?_
  refine .seq (expect_reads h₃ rfl rfl) fun _ s₄ ⟨_, h₄⟩ => ?_
  rw [ht, hn]
  exact .pure ⟨⟨loc, rfl⟩, h₄⟩

/-- A property behind its type. -/
theorem parseNamed_property {type n d : Str}
    (h : Shows [] (ident n :: of .semicolon :: ws) s) :
    Returns (parseNamed pendingDoc type d) s fun m s' =>
      (∃ loc, m = .property ⟨n, ⟨.user type, false, false, 0⟩, false, loc, d⟩) ∧
        Shows [] ws s' := by
  refine .seq (check_miss h rfl nofun) fun b s₁ ⟨hb, h₁⟩ => ?_
  rw [hb, if_neg Bool.false_ne_true]
  refine .seq (expectName_reads h₁) fun n' s₂ ⟨hn, h₂⟩ => ?_
  refine .seq (currentLoc_reads h₂) fun loc s₃ h₃ => ?_
  have hmarks := @typeMarks_reads [] (of .semicolon) ws s₃ ⟨.user type, false, false, 0⟩ h₃ rfl
    nofun nofun
  refine .seq hmarks fun marks s₄ ⟨hm, h₄⟩ => ?_
  refine .seq (expect_reads h₄ rfl rfl) fun _ s₅ ⟨_, h₅⟩ => ?_
  rw [hn, hm]
  exact .pure ⟨⟨loc, rfl⟩, h₅⟩

/-- The marks of a type do not stand in front of the name. -/
theorem parseNamed_throws {type d : Str} (h : Shows [] (w :: ws) s) (hw : w.plain = true)
    (hparen : w.type ≠ .lParen) (hname : w.type ≠ .identifier) :
    Throws (parseNamed pendingDoc type d) s := by
  refine .seq (check_miss h hw hparen) fun b s₁ ⟨hb, h₁⟩ => ?_
  rw [hb, if_neg Bool.false_ne_true]
  exact throws_bind (throws_bind (expect_throws h₁ hw hname))

theorem parseNamed_method {m : Method} (hm : m.Writable) {d : Str}
    (h : Shows [] (m.signature ++ ws) s) :
    Returns (parseNamed pendingDoc m.name d) s fun m' s' =>
      (∃ params loc, m' = .method ⟨m.name, params, m.returnType, false, m.throws, loc, d, false⟩ ∧
        params.map Param.unplaced = m.params.map Param.unplaced) ∧ Shows [] ws s' := by
  refine .seq (check_hit h rfl rfl) fun b s₁ ⟨hb, h₁⟩ => ?_
  rw [hb, if_pos rfl]
  refine .seq (currentLoc_reads h₁) fun loc s₂ h₂ => ?_
  refine .seq (parseSignature_reads hm m.name loc d false false h₂) fun m' s₃ ⟨hm', h₃⟩ => ?_
  obtain ⟨params, rfl, hparams⟩ := hm'
  exact .pure ⟨⟨params, loc, rfl, hparams⟩, h₃⟩

theorem parseMember_property {p : Property} {className : Str} (hp : p.Writable)
    (ha : p.Accepted className) (h : Shows [] (p.words ++ ws) s) :
    Returns (parseMember pendingDoc className) s fun m' s' =>
      m'.withDocs id = .property (p.withDocs trimDoc) ∧ Shows [] ws s' := by
  obtain ⟨name, type, readonly, loc, doc⟩ := p
  simp only [Property.words, List.append_assoc, List.cons_append, List.nil_append] at h
  have h := h.docWords
  cases readonly with
  | true =>
    refine .seq (takeDoc_reads h rfl) fun d s₁ ⟨hd, h₁⟩ => ?_
    refine .seq (current_reads h₁ rfl) fun token s₂ ⟨ht, h₂⟩ => ?_
    have htype : token.type = .kwReadonly := congrArg Word.type ht
    rw [if_pos htype]
    refine .seq (parseProperty_reads hp h₂) fun p' s₃ ⟨hp', h₃⟩ => ?_
    obtain ⟨loc', rfl⟩ := hp'
    refine .pure ⟨?_, h₃⟩
    rw [hd]
    rfl
  | false =>
    rw [if_neg Bool.false_ne_true, List.nil_append] at h
    obtain ⟨base, isArray, isOptional, dims⟩ := type
    cases base with
    | primitive q =>
      obtain ⟨hreadonly, hident, hmodifier⟩ := keyword_ne q
      refine .seq (takeDoc_reads h (plain_base _)) fun d s₁ ⟨hd, h₁⟩ => ?_
      refine .seq (current_reads h₁ (plain_base _)) fun token s₂ ⟨ht, h₂⟩ => ?_
      have htype : token.type = q.keyword := congrArg Word.type ht
      rw [htype, if_neg hreadonly, if_neg fun hc => hident hc.1, if_neg hmodifier, if_neg hident,
        tokenToPrimitive_keyword, Option.isSome_some, if_pos rfl]
      refine (parsePrimitiveProperty_reads hp h₂).mono ?_ fun _ _ hf => hf
      rintro m' s₃ ⟨⟨loc', rfl⟩, h₃⟩
      refine ⟨?_, h₃⟩
      rw [hd]
      rfl
    | user type =>
      obtain ⟨hne, hdims, hopt⟩ := ha rfl type rfl
      have harray := hp.type.array
      dsimp only at hdims hopt harray
      rw [hdims] at harray
      have harray : isArray = false := harray
      rw [hdims, hopt, harray] at h ⊢
      refine .seq (takeDoc_reads h rfl) fun d s₁ ⟨hd, h₁⟩ => ?_
      refine .seq (current_reads h₁ rfl) fun token s₂ ⟨ht, h₂⟩ => ?_
      have htype : token.type = .identifier := congrArg Word.type ht
      have hvalue : token.value = type := congrArg Word.value ht
      rw [htype, hvalue, if_neg nofun, if_neg fun hc => hne hc.2, if_neg nofun, if_pos rfl]
      refine .seq (advance_reads h₂ rfl) fun _ s₃ h₃ => ?_
      refine (parseNamed_property h₃).mono ?_ fun _ _ hf => hf
      rintro m' s₄ ⟨⟨loc', rfl⟩, h₄⟩
      refine ⟨?_, h₄⟩
      rw [hd]
      rfl

/-- What the parser takes for a constructor, but is none. -/
theorem parseConstructor_throws {className : Str} (hw : w.plain = true)
    (hparen : w.type ≠ .lParen) (h : Shows [] (ident className :: w :: ws) s) :
    Throws (parseConstructor pendingDoc) s := by
  refine .seq (takeDoc_reads h rfl) fun doc s₁ ⟨_, h₁⟩ => ?_
  refine .seq (expect_reads h₁ rfl rfl) fun _ s₂ ⟨_, h₂⟩ => ?_
  exact throws_bind (expect_throws h₂ hw hparen)

theorem parseConstructor_throws_method {m : Method} (hm : m.Writable)
    (h : Shows [] (ident m.name :: m.signature ++ ws) s) :
    Throws (parseConstructor pendingDoc) s := by
  rw [Method.signature, paramWords] at h
  simp only [List.append_assoc, List.cons_append, List.nil_append] at h
  refine .seq (takeDoc_reads h rfl) ?_
  rintro doc s₁ ⟨_, h₁⟩
  refine .seq (expect_reads h₁ rfl rfl) ?_
  rintro _ s₂ ⟨_, h₂⟩
  refine .seq (expect_reads h₂ rfl rfl) ?_
  rintro _ s₃ ⟨_, h₃⟩
  refine .seq (parseParams_reads hm.params h₃) ?_
  rintro ps s₄ ⟨_, h₄⟩
  refine .seq (expect_reads h₄ rfl rfl) ?_
  rintro _ s₅ ⟨_, h₅⟩
  exact throws_bind (expect_throws h₅ rfl (by decide))

/-- The first word behind the type of a property. -/
theorem marks_next {t : Ty} (hmarks : ¬ (t.arrayDimensions = 0 ∧ t.isOptional = false))
    (hdims : 0 ≤ t.arrayDimensions) (ws : List Word) :
    ∃ v vs, t.marks ++ ws = v :: vs ∧ v.plain = true ∧ v.type ≠ .lParen ∧
      v.type ≠ .identifier := by
  rw [Ty.marks]
  cases hn : t.arrayDimensions.toNat with
  | succ n => exact ⟨of .lBracket, _, rfl, rfl, by decide, by decide⟩
  | zero =>
    have hzero : t.arrayDimensions = 0 := by omega
    cases hopt : t.isOptional with
    | true => exact ⟨of .question, _, rfl, rfl, by decide, by decide⟩
    | false => exact absurd ⟨hzero, hopt⟩ hmarks

theorem parseMember_property_throws {p : Property} {className : Str} (hp : p.Writable)
    (ha : ¬ p.Accepted className) (h : Shows [] (p.words ++ ws) s) :
    Throws (parseMember pendingDoc className) s := by
  obtain ⟨name, type, readonly, loc, doc⟩ := p
  simp only [Property.Accepted, Classical.not_forall] at ha
  obtain ⟨hreadonly, type', hbase, ha⟩ := ha
  subst hreadonly
  obtain ⟨base, isArray, isOptional, dims⟩ := type
  dsimp only at hbase ha
  subst hbase
  have hdims : 0 ≤ dims := hp.type.dims
  simp only [Property.words, List.append_assoc, List.cons_append, List.nil_append] at h
  have h := h.docWords
  rw [if_neg Bool.false_ne_true, List.nil_append] at h
  refine .seq (takeDoc_reads h rfl) fun d s₁ ⟨_, h₁⟩ => ?_
  refine .seq (current_reads h₁ rfl) fun token s₂ ⟨ht, h₂⟩ => ?_
  have htype : token.type = .identifier := congrArg Word.type ht
  have hvalue : token.value = type' := congrArg Word.value ht
  rw [htype, hvalue, if_neg nofun]
  by_cases hclass : type' = className
  · have hnext : ∃ v vs, Ty.marks ⟨.user type', isArray, isOptional, dims⟩ ++
        ident name :: of .semicolon :: ws = v :: vs ∧ v.plain = true ∧ v.type ≠ .lParen := by
      by_cases hmarks : dims = 0 ∧ isOptional = false
      · obtain ⟨rfl, rfl⟩ := hmarks
        exact ⟨ident name, _, rfl, rfl, nofun⟩
      · obtain ⟨v, vs, hvs, hv, hparen, -⟩ :=
          @marks_next ⟨.user type', isArray, isOptional, dims⟩ hmarks hdims
            (ident name :: of .semicolon :: ws)
        exact ⟨v, vs, hvs, hv, hparen⟩
    obtain ⟨v, vs, hvs, hv, hparen⟩ := hnext
    rw [if_pos ⟨rfl, hclass⟩]
    have h₂ : Shows [] (ident type' :: (Ty.marks ⟨.user type', isArray, isOptional, dims⟩ ++
      ident name :: of .semicolon :: ws)) s₂ := h₂
    rw [hvs] at h₂
    exact throws_bind (parseConstructor_throws hv hparen h₂)
  · have hmarks : ¬ (dims = 0 ∧ isOptional = false) := fun hm => ha ⟨hclass, hm⟩
    rw [if_neg fun hc => hclass hc.2, if_neg nofun, if_pos rfl]
    refine .seq (advance_reads h₂ rfl) fun _ s₃ h₃ => ?_
    obtain ⟨v, vs, hvs, hv, hparen, hname⟩ :=
      @marks_next ⟨.user type', isArray, isOptional, dims⟩ hmarks hdims
        (ident name :: of .semicolon :: ws)
    have h₃ : Shows [] (Ty.marks ⟨.user type', isArray, isOptional, dims⟩ ++
      ident name :: of .semicolon :: ws) s₃ := h₃
    rw [hvs] at h₃
    exact parseNamed_throws h₃ hv hparen hname

theorem parseMember_constructor {c : Constructor} {className : Str} (hc : c.Writable)
    (h : Shows [] (c.words className ++ ws) s) :
    Returns (parseMember pendingDoc className) s fun m' s' =>
      m'.withDocs id = .constructor (c.withDocs trimDoc) ∧ Shows [] ws s' := by
  simp only [Constructor.words, List.append_assoc] at h
  refine .seq (takeDoc_reads h.docWords rfl) fun d s₁ ⟨hd, h₁⟩ => ?_
  refine .seq (current_reads h₁ rfl) fun token s₂ ⟨ht, h₂⟩ => ?_
  have htype : token.type = .identifier := congrArg Word.type ht
  have hvalue : token.value = className := congrArg Word.value ht
  rw [htype, hvalue, if_neg nofun, if_pos ⟨rfl, rfl⟩]
  refine .seq (parseConstructor_reads hc h₂) fun c' s₃ ⟨hc', h₃⟩ => ?_
  have hdoc : c'.doc = [] := congrArg Constructor.doc hc'
  rw [hdoc, hd]
  exact .pure ⟨congrArg (fun x : Constructor => Member.constructor { x with doc := trimDoc c.doc }) hc', h₃⟩

/-- A method with a modifier. -/
theorem parseMember_modified {m : Method} {className : Str} (hm : m.Writable)
    (hmodifier : m.isStream = true ∨ m.isOptional = true) (h : Shows [] (m.words ++ ws) s) :
    Returns (parseMember pendingDoc className) s fun m' s' =>
      m'.withDocs id = .method (m.withDocs trimDoc) ∧ Shows [] ws s' := by
  obtain ⟨v, hv, hplain, hvtype⟩ : ∃ v, m.modifier = [v] ∧ v.plain = true ∧
      (v.type = .kwStream ∨ v.type = .kwOptional) := by
    rw [Method.modifier]
    split
    · exact ⟨_, rfl, rfl, .inr rfl⟩
    split
    · exact ⟨_, rfl, rfl, .inl rfl⟩
    · next hopt hstream => exact absurd hmodifier (not_or.mpr ⟨hstream, hopt⟩)
  simp only [Method.words, List.append_assoc] at h
  have h := h.docWords
  rw [hv] at h
  refine .seq (takeDoc_reads h hplain) ?_
  rintro d s₁ ⟨hd, h₁⟩
  refine .seq (current_reads h₁ hplain) ?_
  rintro token s₂ ⟨ht, h₂⟩
  have htype : token.type = v.type := congrArg Word.type ht
  have hreadonly : v.type ≠ .kwReadonly := by rcases hvtype with h | h <;> rw [h] <;> decide
  have hident : v.type ≠ .identifier := by rcases hvtype with h | h <;> rw [h] <;> decide
  rw [htype, if_neg hreadonly, if_neg fun hc => hident hc.1, if_pos hvtype]
  have h₂ : Shows [] ([v] ++ ident m.name :: m.signature ++ ws) s₂ := h₂
  rw [← hv] at h₂
  refine .seq (parseMethod_reads hm h₂) ?_
  rintro m' s₃ ⟨hm', h₃⟩
  have hdoc : m'.doc = [] := congrArg Method.doc hm'
  rw [hdoc, hd]
  exact .pure ⟨congrArg (fun x : Method => Member.method { x with doc := trimDoc m.doc }) hm', h₃⟩

/-- A method without. -/
theorem parseMember_plain {m : Method} {className : Str} (hm : m.Writable)
    (hstream : m.isStream = false) (hopt : m.isOptional = false) (hname : m.name ≠ className)
    (h : Shows [] (m.words ++ ws) s) :
    Returns (parseMember pendingDoc className) s fun m' s' =>
      m'.withDocs id = .method (m.withDocs trimDoc) ∧ Shows [] ws s' := by
  simp only [Method.words, Method.modifier, hstream, hopt, List.append_assoc] at h
  refine .seq (takeDoc_reads h.docWords rfl) ?_
  rintro d s₁ ⟨hd, h₁⟩
  refine .seq (current_reads h₁ rfl) ?_
  rintro token s₂ ⟨ht, h₂⟩
  have htype : token.type = .identifier := congrArg Word.type ht
  have hvalue : token.value = m.name := congrArg Word.value ht
  rw [htype, hvalue, if_neg (by decide), if_neg fun hc => hname hc.2, if_neg (by decide),
    if_pos rfl]
  refine .seq (advance_reads h₂ rfl) fun _ s₃ h₃ => ?_
  refine (parseNamed_method hm h₃).mono ?_ fun _ _ hf => hf
  rintro m' s₄ ⟨⟨params, loc, rfl, hparams⟩, h₄⟩
  refine ⟨?_, h₄⟩
  simp only [Parse.Member.withDocs, Method.withDocs, hparams, hd, hstream, hopt]
  rfl

theorem parseMember_plain_throws {m : Method} (hm : m.Writable)
    (hstream : m.isStream = false) (hopt : m.isOptional = false)
    (h : Shows [] (m.words ++ ws) s) : Throws (parseMember pendingDoc m.name) s := by
  simp only [Method.words, Method.modifier, hstream, hopt, List.append_assoc] at h
  refine .seq (takeDoc_reads h.docWords rfl) ?_
  rintro d s₁ ⟨_, h₁⟩
  refine .seq (current_reads h₁ rfl) ?_
  rintro token s₂ ⟨ht, h₂⟩
  have htype : token.type = .identifier := congrArg Word.type ht
  have hvalue : token.value = m.name := congrArg Word.value ht
  rw [htype, hvalue, if_neg (by decide), if_pos ⟨rfl, rfl⟩]
  exact throws_bind (parseConstructor_throws_method hm h₂)

theorem parseMember_reads {m : Member} {className : Str} (hm : m.Writable)
    (ha : m.Accepted className) (h : Shows [] (m.words className ++ ws) s) :
    Returns (parseMember pendingDoc className) s fun m' s' =>
      m'.withDocs id = m.withDocs trimDoc ∧ Shows [] ws s' := by
  cases m with
  | property p => exact parseMember_property hm ha h
  | constructor c => exact parseMember_constructor hm h
  | method m =>
    by_cases hmodifier : m.isStream = true ∨ m.isOptional = true
    · exact parseMember_modified hm hmodifier h
    · obtain ⟨hstream, hopt⟩ := not_or.mp hmodifier
      have hstream := Bool.eq_false_iff.mpr hstream
      have hopt := Bool.eq_false_iff.mpr hopt
      exact parseMember_plain hm hstream hopt (ha hstream hopt) h

theorem parseMember_throws {m : Member} {className : Str} (hm : m.Writable)
    (ha : ¬ m.Accepted className) (h : Shows [] (m.words className ++ ws) s) :
    Throws (parseMember pendingDoc className) s := by
  cases m with
  | property p => exact parseMember_property_throws hm ha h
  | constructor c => exact absurd trivial ha
  | method m =>
    simp only [Parse.Member.Accepted, Method.Accepted, Classical.not_imp, not_not] at ha
    obtain ⟨hstream, hopt, rfl⟩ := ha
    exact parseMember_plain_throws hm hstream hopt h

/-! ## Definitions -/

/-- The base, up to the brace. -/
theorem parseBase_reads {base : Option Str} {msg : Str}
    (h : Shows [] (baseWords base ++ of .lBrace :: ws) s) :
    Returns (parseBase pendingDoc msg) s fun b s' => b = base ∧ Shows [] (of .lBrace :: ws) s' := by
  cases base with
  | none =>
    refine .seq (accept_miss h rfl nofun) fun b s₁ ⟨hb, h₁⟩ => ?_
    rw [hb, if_neg Bool.false_ne_true]
    exact .pure ⟨rfl, h₁⟩
  | some base =>
    refine .seq (accept_hit h rfl rfl) fun b s₁ ⟨hb, h₁⟩ => ?_
    rw [hb, if_pos rfl]
    refine .seq (expectName_reads h₁) fun n s₂ ⟨hn, h₂⟩ => ?_
    rw [hn]
    exact .pure ⟨rfl, h₂⟩

/-- A type is not the end of a body. -/
theorem Ty.starts (t : Ty) (ws : List Word) : atBodyEnd (firstType (t.words ++ ws)) = false := by
  rw [Ty.words, List.cons_append, firstType, if_pos (plain_base _)]
  cases t.base with
  | primitive p => cases p <;> rfl
  | user n => rfl

theorem Field.starts (f : Field) (ws : List Word) :
    atBodyEnd (firstType (f.words ++ ws)) = false := by
  rw [Field.words, List.append_assoc, List.append_assoc, firstType_docWords]
  exact f.type.starts _

theorem parseFields_reads {fields : List Field} (hfields : ∀ f ∈ fields, f.Writable)
    (h : Shows [] (fields.flatMap Field.words ++ of .rBrace :: ws) s) :
    Returns (many atBodyEnd (parseField pendingDoc)) s fun fs s' =>
      fs.map (Field.withDocs id) = fields.map (Field.withDocs trimDoc) ∧
        Shows [] (of .rBrace :: ws) s' :=
  many_reads rfl (fun f hf _ _ hs => parseField_reads (hfields f hf) hs) (fun f _ => f.starts) rfl h

/-- A struct whose documentation has been taken. -/
theorem parseStruct_reads {d : StructDef} (hd : d.Writable)
    (h : Shows [] (of .kwStruct :: ident d.name :: (baseWords d.base ++ of .lBrace ::
      (d.fields.flatMap Field.words ++ of .rBrace :: ws))) s) :
    Returns (parseStruct pendingDoc) s fun d' s' =>
      d'.withDocs id = { d with doc := [] }.withDocs trimDoc ∧ Shows [] ws s' := by
  refine .seq (currentLoc_reads h) fun loc s₁ h₁ => ?_
  refine .seq (takeDoc_reads h₁ rfl) fun doc s₂ ⟨hdoc, h₂⟩ => ?_
  refine .seq (expect_reads h₂ rfl rfl) fun _ s₃ ⟨_, h₃⟩ => ?_
  refine .seq (expectName_reads h₃) fun n s₄ ⟨hn, h₄⟩ => ?_
  refine .seq (parseBase_reads h₄) fun base s₅ ⟨hbase, h₅⟩ => ?_
  refine .seq (expect_reads h₅ rfl rfl) fun _ s₆ ⟨_, h₆⟩ => ?_
  refine .seq (parseFields_reads hd.fields h₆) fun fields s₇ ⟨hfields, h₇⟩ => ?_
  refine .seq (expect_reads h₇ rfl rfl) fun _ s₈ ⟨_, h₈⟩ => ?_
  refine .pure ⟨?_, h₈⟩
  simp only [StructDef.withDocs, hdoc, hn, hbase, hfields]
  rfl

/-- An error whose documentation has been taken. -/
theorem parseError_reads {d : ErrorDef} (hd : d.Writable)
    (h : Shows [] (of .kwError :: ident d.name :: (baseWords d.base ++ of .lBrace ::
      (d.fields.flatMap Field.words ++ of .rBrace :: ws))) s) :
    Returns (parseError pendingDoc) s fun d' s' =>
      d'.withDocs id = { d with doc := [] }.withDocs trimDoc ∧ Shows [] ws s' := by
  refine .seq (currentLoc_reads h) fun loc s₁ h₁ => ?_
  refine .seq (takeDoc_reads h₁ rfl) fun doc s₂ ⟨hdoc, h₂⟩ => ?_
  refine .seq (expect_reads h₂ rfl rfl) fun _ s₃ ⟨_, h₃⟩ => ?_
  refine .seq (expectName_reads h₃) fun n s₄ ⟨hn, h₄⟩ => ?_
  refine .seq (parseBase_reads h₄) fun base s₅ ⟨hbase, h₅⟩ => ?_
  refine .seq (expect_reads h₅ rfl rfl) fun _ s₆ ⟨_, h₆⟩ => ?_
  refine .seq (parseFields_reads hd.fields h₆) fun fields s₇ ⟨hfields, h₇⟩ => ?_
  refine .seq (expect_reads h₇ rfl rfl) fun _ s₈ ⟨_, h₈⟩ => ?_
  refine .pure ⟨?_, h₈⟩
  simp only [ErrorDef.withDocs, hdoc, hn, hbase, hfields]
  rfl

theorem EnumItem.starts (i : EnumItem) (ws : List Word) :
    firstType (i.words ++ ws) = .identifier := by
  rw [EnumItem.words, List.append_assoc, List.append_assoc, firstType_docWords]
  rfl

/-- The items of an enum, up to the brace. -/
theorem parseEnumItems_reads {items : List EnumItem}
    (h : Shows [] (separated (of .comma) (items.map EnumItem.words) ++ of .rBrace :: ws) s) :
    Returns (parseEnumItems pendingDoc) s fun is s' =>
      is.map (EnumItem.withDocs id) = items.map (EnumItem.withDocs trimDoc) ∧
        Shows [] (of .rBrace :: ws) s' := by
  cases items with
  | nil =>
    refine .seq (check_hit h rfl rfl) fun b s₁ ⟨hb, h₁⟩ => ?_
    rw [hb, if_pos rfl]
    exact .pure ⟨rfl, h₁⟩
  | cons i items =>
    have htype := h.firstType
    rw [List.map_cons, separated_cons, List.append_assoc, i.starts] at htype
    refine .bind (.of_ok rfl ?_)
    rw [htype, decide_eq_false nofun, if_neg Bool.false_ne_true]
    refine commaSeparated_reads (List.cons_ne_nil _ _) (fun j _ v vs s hv hv' hs => ?_)
      (fun j _ vs => by rw [j.starts]; rfl) rfl nofun h
    refine parseEnumItem_reads hv ?_ hs
    rcases hv' with hv' | hv' <;> rw [hv'] <;> nofun

/-- An enum whose documentation has been taken. -/
theorem parseEnum_reads {d : EnumDef}
    (h : Shows [] (of (if d.isFlags then .kwFlags else .kwEnum) :: ident d.name :: of .lBrace ::
      (separated (of .comma) (d.items.map EnumItem.words) ++ of .rBrace :: ws)) s) :
    Returns (parseEnum pendingDoc d.isFlags) s fun d' s' =>
      d'.withDocs id = { d with doc := [] }.withDocs trimDoc ∧ Shows [] ws s' := by
  have hplain : (of (if d.isFlags then .kwFlags else .kwEnum)).plain = true := by
    cases d.isFlags <;> rfl
  refine .seq (currentLoc_reads h) fun loc s₁ h₁ => ?_
  refine .seq (takeDoc_reads h₁ hplain) fun doc s₂ ⟨hdoc, h₂⟩ => ?_
  refine .seq (expect_reads h₂ hplain rfl) fun _ s₃ ⟨_, h₃⟩ => ?_
  refine .seq (expectName_reads h₃) fun n s₄ ⟨hn, h₄⟩ => ?_
  refine .seq (expect_reads h₄ rfl rfl) fun _ s₅ ⟨_, h₅⟩ => ?_
  refine .seq (parseEnumItems_reads h₅) fun items s₆ ⟨hitems, h₆⟩ => ?_
  refine .seq (expect_reads h₆ rfl rfl) fun _ s₇ ⟨_, h₇⟩ => ?_
  refine .pure ⟨?_, h₇⟩
  simp only [EnumDef.withDocs, hdoc, hn, hitems]
  rfl

theorem Method.starts (m : Method) (ws : List Word) :
    atBodyEnd (firstType (m.words ++ ws)) = false := by
  obtain ⟨v, vs, hvs, hv, hend⟩ := method_next m ws
  simp only [Method.words, List.append_assoc, List.singleton_append, firstType_docWords]
  rw [hvs, firstType, if_pos hv]
  exact hend

/-- A method of a service. -/
theorem parseServiceMethod_reads {m : Method} (hm : m.Writable)
    (h : Shows [] (m.words ++ ws) s) :
    Returns (parseServiceMethod pendingDoc) s fun m' s' =>
      m'.withDocs id = m.withDocs trimDoc ∧ Shows [] ws s' := by
  obtain ⟨v, vs, hvs, hv, -⟩ := method_next m ws
  simp only [Method.words, List.append_assoc, List.singleton_append] at h
  have h := h.docWords
  rw [hvs] at h
  refine .seq (takeDoc_reads h hv) fun doc s₁ ⟨hdoc, h₁⟩ => ?_
  rw [← hvs, ← List.append_assoc] at h₁
  refine .seq (parseMethod_reads hm h₁) fun m' s₂ ⟨hm', h₂⟩ => ?_
  have hnone : m'.doc = [] := congrArg Method.doc hm'
  rw [hnone, hdoc]
  exact .pure ⟨congrArg (fun x : Method => { x with doc := trimDoc m.doc }) hm', h₂⟩

/-- A service whose documentation has been taken. -/
theorem parseService_reads {d : ServiceDef} (hd : d.Writable)
    (h : Shows [] (of .kwService :: ident d.name :: of .lBrace ::
      (d.methods.flatMap Method.words ++ of .rBrace :: ws)) s) :
    Returns (parseService pendingDoc) s fun d' s' =>
      d'.withDocs id = { d with doc := [] }.withDocs trimDoc ∧ Shows [] ws s' := by
  refine .seq (currentLoc_reads h) fun loc s₁ h₁ => ?_
  refine .seq (takeDoc_reads h₁ rfl) fun doc s₂ ⟨hdoc, h₂⟩ => ?_
  refine .seq (expect_reads h₂ rfl rfl) fun _ s₃ ⟨_, h₃⟩ => ?_
  refine .seq (expectName_reads h₃) fun n s₄ ⟨hn, h₄⟩ => ?_
  refine .seq (expect_reads h₄ rfl rfl) fun _ s₅ ⟨_, h₅⟩ => ?_
  have hmethods := many_reads rfl
    (fun m hm _ _ hs => parseServiceMethod_reads (hd.methods m hm) hs) (fun m _ => m.starts) rfl h₅
  refine .seq hmethods fun methods s₆ ⟨hms, h₆⟩ => ?_
  refine .seq (expect_reads h₆ rfl rfl) fun _ s₇ ⟨_, h₇⟩ => ?_
  refine .pure ⟨?_, h₇⟩
  simp only [ServiceDef.withDocs, hdoc, hn, hms]
  rfl

/-! ### Classes -/

theorem Parse.Member.starts (className : Str) (m : Member) (ws : List Word) :
    atBodyEnd (firstType (m.words className ++ ws)) = false := by
  cases m with
  | property p =>
    rw [Member.words, Property.words, List.append_assoc, List.append_assoc, List.append_assoc,
      firstType_docWords]
    cases p.readonly with
    | true => rfl
    | false => exact p.type.starts _
  | constructor c =>
    rw [Member.words, Constructor.words, List.append_assoc, List.append_assoc, List.append_assoc,
      firstType_docWords]
    rfl
  | method m => exact m.starts _

/-- The parser reads the members of the class. -/
structure ClassDef.Accepted (d : ClassDef) : Prop where
  properties : ∀ p ∈ d.properties, p.Accepted d.name
  methods : ∀ m ∈ d.methods, m.Accepted d.name

theorem ClassDef.accepted_iff {d : ClassDef} {members : List Member} (h : d.Consists members) :
    d.Accepted ↔ ∀ m ∈ members, m.Accepted d.name := by
  refine ⟨fun ha m hm => ?_, fun ha => ⟨fun p hp => ?_, fun m hm => ?_⟩⟩
  · cases m with
    | property p =>
      refine ha.properties p ?_
      rw [h.properties]
      exact List.mem_filterMap.mpr ⟨_, hm, rfl⟩
    | constructor c => trivial
    | method m =>
      refine ha.methods m ?_
      rw [h.methods]
      exact List.mem_filterMap.mpr ⟨_, hm, rfl⟩
  · rw [h.properties] at hp
    obtain ⟨m, hm, hmp⟩ := List.mem_filterMap.mp hp
    cases m <;> cases hmp
    exact ha _ hm
  · rw [h.methods] at hm
    obtain ⟨m', hm', hmm⟩ := List.mem_filterMap.mp hm
    cases m' <;> cases hmm
    exact ha _ hm'

/-- What is left of a class without its documentation. -/
def ClassDef.body (d : ClassDef) (members : List Member) : List Word :=
  of .kwClass :: ident d.name :: (baseWords d.base ++ of .lBrace ::
    (members.flatMap (Member.words d.name) ++ [of .rBrace]))

/-- A class up to its members, whose documentation has been taken. -/
theorem parseClass_head {d : ClassDef} {members : List Member}
    {Q : ClassDef → Parser Str → Prop} {E : FrontError → Parser Str → Prop}
    (h : Shows [] (d.body members ++ ws) s)
    (hrest : ∀ loc s', Shows [] (members.flatMap (Member.words d.name) ++ of .rBrace :: ws) s' →
      Eff.Ends (do
        let ms ← many atBodyEnd (parseMember pendingDoc d.name)
        let _ ← expect pendingDoc .rBrace (lit "Expected '\x7d' at end of class")
        return (⟨d.name, d.base, ms.filterMap Member.property?, ms.filterMap Member.constructor?,
          ms.filterMap Member.method?, loc, []⟩ : ClassDef)) s' Q E) :
    Eff.Ends (parseClass pendingDoc) s Q E := by
  simp only [ClassDef.body, List.append_assoc, List.cons_append, List.nil_append] at h
  refine .seq (currentLoc_reads h) fun loc s₁ h₁ => ?_
  refine .seq (takeDoc_reads h₁ rfl) fun doc s₂ ⟨hdoc, h₂⟩ => ?_
  refine .seq (expect_reads h₂ rfl rfl) fun _ s₃ ⟨_, h₃⟩ => ?_
  refine .seq (expectName_reads h₃) fun n s₄ ⟨hn, h₄⟩ => ?_
  refine .seq (parseBase_reads h₄) fun base s₅ ⟨hbase, h₅⟩ => ?_
  refine .seq (expect_reads h₅ rfl rfl) fun _ s₆ ⟨_, h₆⟩ => ?_
  rw [hdoc, hn, hbase]
  exact hrest loc s₆ h₆

theorem parseClass_reads {d : ClassDef} {members : List Member} (hd : d.Writable)
    (hmembers : d.Consists members) (ha : d.Accepted) (h : Shows [] (d.body members ++ ws) s) :
    Returns (parseClass pendingDoc) s fun d' s' =>
      d'.withDocs id = { d with doc := [] }.withDocs trimDoc ∧ Shows [] ws s' := by
  refine parseClass_head h fun loc s₁ h₁ => ?_
  have ha' := (ClassDef.accepted_iff hmembers).mp ha
  have hmany := many_reads rfl
    (fun m hm _ _ hs => parseMember_reads (hd.members hmembers m hm) (ha' m hm) hs)
    (fun m _ => m.starts d.name) rfl h₁
  refine .seq hmany fun ms s₂ ⟨hms, h₂⟩ => ?_
  refine .seq (expect_reads h₂ rfl rfl) fun _ s₃ ⟨_, h₃⟩ => ?_
  refine .pure ⟨?_, h₃⟩
  simp only [ClassDef.withDocs, ← Member.property_withDocs, ← Member.constructor_withDocs,
    ← Member.method_withDocs, hms, hmembers.properties, hmembers.constructors, hmembers.methods]
  rfl

theorem parseClass_throws {d : ClassDef} {members : List Member} (hd : d.Writable)
    (hmembers : d.Consists members) (ha : ¬ d.Accepted) (h : Shows [] (d.body members ++ ws) s) :
    Throws (parseClass pendingDoc) s := by
  refine parseClass_head h fun loc s₁ h₁ => throws_bind ?_
  rw [ClassDef.accepted_iff hmembers] at ha
  simp only [Classical.not_forall] at ha
  obtain ⟨m, hm, hbad⟩ := ha
  exact many_throws
    (fun m hm hgood _ _ hs => parseMember_reads (hd.members hmembers m hm) hgood hs)
    (fun m hm hbad _ _ hs => parseMember_throws (hd.members hmembers m hm) hbad hs)
    (fun m _ => m.starts d.name) h₁ ⟨m, hm, hbad⟩

/-! ### All definitions -/

namespace Parse.Definition

def withDocs (g : Str → Str) : Definition → Definition
  | structDef d => .structDef (d.withDocs g)
  | enumDef d => .enumDef (d.withDocs g)
  | classDef d => .classDef (d.withDocs g)
  | serviceDef d => .serviceDef (d.withDocs g)
  | errorDef d => .errorDef (d.withDocs g)

def Accepted : Definition → Prop
  | classDef d => d.Accepted
  | structDef _ | enumDef _ | serviceDef _ | errorDef _ => True

def doc : Definition → Str
  | structDef d => d.doc
  | enumDef d => d.doc
  | classDef d => d.doc
  | serviceDef d => d.doc
  | errorDef d => d.doc

/-- Without the documentation in front of it. -/
def Bare (d : Definition) (ws : List Word) : Prop :=
  match d with
  | structDef d => ws = of .kwStruct :: ident d.name :: (baseWords d.base ++ of .lBrace ::
      (d.fields.flatMap Field.words ++ [of .rBrace]))
  | enumDef d => ws = of (if d.isFlags then .kwFlags else .kwEnum) :: ident d.name ::
      of .lBrace :: (separated (of .comma) (d.items.map EnumItem.words) ++ [of .rBrace])
  | classDef d => ∃ members, d.Consists members ∧ ws = d.body members
  | serviceDef d => ws = of .kwService :: ident d.name :: of .lBrace ::
      (d.methods.flatMap Method.words ++ [of .rBrace])
  | errorDef d => ws = of .kwError :: ident d.name :: (baseWords d.base ++ of .lBrace ::
      (d.fields.flatMap Field.words ++ [of .rBrace]))

theorem Reads.bare {d : Definition} {ws : List Word} (h : d.Reads ws) :
    ∃ body, ws = docWords d.doc ++ body ∧ d.Bare body := by
  cases d with
  | structDef d =>
    refine ⟨_, ?_, rfl⟩
    rw [show ws = d.words from h, StructDef.words]
    simp [doc]
  | enumDef d =>
    refine ⟨_, ?_, rfl⟩
    rw [show ws = d.words from h, EnumDef.words]
    simp [doc]
  | classDef d =>
    obtain ⟨members, hmembers, rfl⟩ := h
    refine ⟨_, ?_, members, hmembers, rfl⟩
    simp [doc, ClassDef.wordsFor, ClassDef.body]
  | serviceDef d =>
    refine ⟨_, ?_, rfl⟩
    rw [show ws = d.words from h, ServiceDef.words]
    simp [doc]
  | errorDef d =>
    refine ⟨_, ?_, rfl⟩
    rw [show ws = d.words from h, ErrorDef.words]
    simp [doc]

/-- The keyword that a definition begins with. -/
def keyword : Definition → TokenType
  | structDef _ => .kwStruct
  | enumDef d => if d.isFlags then .kwFlags else .kwEnum
  | classDef _ => .kwClass
  | serviceDef _ => .kwService
  | errorDef _ => .kwError

theorem Bare.starts {d : Definition} {ws : List Word} (h : d.Bare ws) :
    ∃ vs, ws = of d.keyword :: vs ∧ (of d.keyword).plain = true ∧ d.keyword ≠ .eof := by
  cases d with
  | structDef d => exact ⟨_, h, rfl, nofun⟩
  | enumDef d => exact ⟨_, h, by rw [keyword]; cases d.isFlags <;> exact ⟨rfl, nofun⟩⟩
  | classDef d =>
    obtain ⟨members, -, rfl⟩ := h
    exact ⟨_, rfl, rfl, nofun⟩
  | serviceDef d => exact ⟨_, h, rfl, nofun⟩
  | errorDef d => exact ⟨_, h, rfl, nofun⟩

end Parse.Definition

/-- A definition whose documentation has been taken. -/
theorem definitionAt_reads {d : Definition} {body : List Word} {token : Token} (hd : d.Writable)
    (ha : d.Accepted) (hbody : d.Bare body) (htoken : token.type = d.keyword)
    (h : Shows [] (body ++ ws) s) :
    Returns (definitionAt pendingDoc (trimDoc d.doc) token) s fun d' s' =>
      d'.withDocs id = d.withDocs trimDoc ∧ Shows [] ws s' := by
  rw [definitionAt, htoken]
  cases d with
  | structDef d =>
    rw [show body = _ from hbody] at h
    simp only [List.cons_append, List.append_assoc, List.nil_append] at h
    refine .seq (parseStruct_reads hd h) fun d' s₁ ⟨hd', h₁⟩ => ?_
    have hdoc : d'.doc = [] := congrArg StructDef.doc hd'
    rw [hdoc]
    exact .pure ⟨congrArg (fun x : StructDef => Definition.structDef { x with doc := _ }) hd', h₁⟩
  | enumDef d =>
    rw [show body = _ from hbody] at h
    simp only [List.cons_append, List.append_assoc, List.nil_append] at h
    have henum := parseEnum_reads h
    obtain ⟨name, items, isFlags, loc, doc⟩ := d
    cases isFlags with
    | true =>
      refine .seq henum fun d' s₁ ⟨hd', h₁⟩ => ?_
      have hdoc : d'.doc = [] := congrArg EnumDef.doc hd'
      rw [hdoc]
      exact .pure ⟨congrArg (fun x : EnumDef => Definition.enumDef { x with doc := _ }) hd', h₁⟩
    | false =>
      refine .seq henum fun d' s₁ ⟨hd', h₁⟩ => ?_
      have hdoc : d'.doc = [] := congrArg EnumDef.doc hd'
      rw [hdoc]
      exact .pure ⟨congrArg (fun x : EnumDef => Definition.enumDef { x with doc := _ }) hd', h₁⟩
  | classDef d =>
    obtain ⟨members, hmembers, rfl⟩ := hbody
    refine .seq (parseClass_reads hd hmembers ha h) fun d' s₁ ⟨hd', h₁⟩ => ?_
    have hdoc : d'.doc = [] := congrArg ClassDef.doc hd'
    rw [hdoc]
    exact .pure ⟨congrArg (fun x : ClassDef => Definition.classDef { x with doc := _ }) hd', h₁⟩
  | serviceDef d =>
    rw [show body = _ from hbody] at h
    simp only [List.cons_append, List.append_assoc, List.nil_append] at h
    refine .seq (parseService_reads hd h) fun d' s₁ ⟨hd', h₁⟩ => ?_
    have hdoc : d'.doc = [] := congrArg ServiceDef.doc hd'
    rw [hdoc]
    exact .pure ⟨congrArg (fun x : ServiceDef => Definition.serviceDef { x with doc := _ }) hd', h₁⟩
  | errorDef d =>
    rw [show body = _ from hbody] at h
    simp only [List.cons_append, List.append_assoc, List.nil_append] at h
    refine .seq (parseError_reads hd h) fun d' s₁ ⟨hd', h₁⟩ => ?_
    have hdoc : d'.doc = [] := congrArg ErrorDef.doc hd'
    rw [hdoc]
    exact .pure ⟨congrArg (fun x : ErrorDef => Definition.errorDef { x with doc := _ }) hd', h₁⟩

theorem definitionAt_throws {d : Definition} {body : List Word} {token : Token} {doc : Str}
    (hd : d.Writable) (ha : ¬ d.Accepted) (hbody : d.Bare body) (htoken : token.type = d.keyword)
    (h : Shows [] (body ++ ws) s) : Throws (definitionAt pendingDoc doc token) s := by
  cases d with
  | classDef d =>
    obtain ⟨members, hmembers, rfl⟩ := hbody
    rw [definitionAt, htoken]
    exact throws_bind (parseClass_throws hd hmembers ha h)
  | structDef d => exact absurd trivial ha
  | enumDef d => exact absurd trivial ha
  | serviceDef d => exact absurd trivial ha
  | errorDef d => exact absurd trivial ha

theorem parseDefinition_at {d : Definition} {us : List Word}
    {Q : Definition → Parser Str → Prop} {E : FrontError → Parser Str → Prop} (hd : d.Reads us)
    (h : Shows [] (us ++ ws) s)
    (hrest : ∀ body token s', d.Bare body → token.type = d.keyword → Shows [] (body ++ ws) s' →
      Eff.Ends (definitionAt pendingDoc (trimDoc d.doc) token) s' Q E) :
    Eff.Ends (parseDefinition pendingDoc) s Q E := by
  obtain ⟨body, rfl, hbody⟩ := hd.bare
  obtain ⟨vs, hvs, hplain, -⟩ := hbody.starts
  rw [List.append_assoc, hvs] at h
  refine .seq (takeDoc_reads h.docWords hplain) fun doc s₁ ⟨hdoc, h₁⟩ => ?_
  refine .seq (current_reads h₁ hplain) fun token s₂ ⟨ht, h₂⟩ => ?_
  rw [hdoc]
  refine hrest body token s₂ hbody (congrArg Word.type ht) ?_
  rw [hvs]
  exact h₂

theorem Parse.Definition.Reads.starts {d : Definition} {us : List Word} (h : d.Reads us)
    (ws : List Word) : decide (firstType (us ++ ws) = .eof) = false := by
  obtain ⟨body, rfl, hbody⟩ := h.bare
  obtain ⟨vs, rfl, hplain, hne⟩ := hbody.starts
  rw [List.append_assoc, firstType_docWords, List.cons_append, firstType, if_pos hplain]
  exact decide_eq_false hne

/-! ### The namespace -/

theorem parseDefinition_reads {d : Definition} {us : List Word} (hd : d.Writable)
    (ha : d.Accepted) (hus : d.Reads us) (h : Shows [] (us ++ ws) s) :
    Returns (parseDefinition pendingDoc) s fun d' s' =>
      d'.withDocs id = d.withDocs trimDoc ∧ Shows [] ws s' :=
  parseDefinition_at hus h fun _ _ _ hbody htoken h' => definitionAt_reads hd ha hbody htoken h'

theorem parseDefinition_throws {d : Definition} {us : List Word} (hd : d.Writable)
    (ha : ¬ d.Accepted) (hus : d.Reads us) (h : Shows [] (us ++ ws) s) :
    Throws (parseDefinition pendingDoc) s :=
  parseDefinition_at hus h fun _ _ _ hbody htoken h' => definitionAt_throws hd ha hbody htoken h'

theorem parseNamespace_reads {n : Str}
    (h : Shows [] (of .kwNamespace :: ident n :: of .semicolon :: ws) s) :
    Returns (parseNamespace pendingDoc) s fun n' s' => n' = n ∧ Shows [] ws s' := by
  refine .seq (expect_reads h rfl rfl) fun _ s₁ ⟨_, h₁⟩ => ?_
  refine .seq (expectName_reads h₁) fun n' s₂ ⟨hn, h₂⟩ => ?_
  refine .seq (expect_reads h₂ rfl rfl) fun _ s₃ ⟨_, h₃⟩ => ?_
  exact .pure ⟨hn, h₃⟩

namespace Parse.Definition

variable (g : Str → Str) (ds : List Definition)

theorem structDef_withDocs : (ds.map (withDocs g)).filterMap structDef? =
    (ds.filterMap structDef?).map (StructDef.withDocs g) := by
  rw [List.filterMap_map, List.map_filterMap]
  refine List.filterMap_congr fun d _ => ?_
  cases d <;> rfl

theorem enumDef_withDocs : (ds.map (withDocs g)).filterMap enumDef? =
    (ds.filterMap enumDef?).map (EnumDef.withDocs g) := by
  rw [List.filterMap_map, List.map_filterMap]
  refine List.filterMap_congr fun d _ => ?_
  cases d <;> rfl

theorem classDef_withDocs : (ds.map (withDocs g)).filterMap classDef? =
    (ds.filterMap classDef?).map (ClassDef.withDocs g) := by
  rw [List.filterMap_map, List.map_filterMap]
  refine List.filterMap_congr fun d _ => ?_
  cases d <;> rfl

theorem serviceDef_withDocs : (ds.map (withDocs g)).filterMap serviceDef? =
    (ds.filterMap serviceDef?).map (ServiceDef.withDocs g) := by
  rw [List.filterMap_map, List.map_filterMap]
  refine List.filterMap_congr fun d _ => ?_
  cases d <;> rfl

theorem errorDef_withDocs : (ds.map (withDocs g)).filterMap errorDef? =
    (ds.filterMap errorDef?).map (ErrorDef.withDocs g) := by
  rw [List.filterMap_map, List.map_filterMap]
  refine List.filterMap_congr fun d _ => ?_
  cases d <;> rfl

end Parse.Definition

theorem Namespace.accepted_iff {ns : Namespace} {ds : List Definition} (h : ns.Consists ds) :
    (∀ d ∈ ns.classes, d.Accepted) ↔ ∀ d ∈ ds, d.Accepted := by
  refine ⟨fun ha d hd => ?_, fun ha d hd => ?_⟩
  · cases d with
    | classDef d =>
      refine ha d ?_
      rw [h.classes]
      exact List.mem_filterMap.mpr ⟨_, hd, rfl⟩
    | structDef d => trivial
    | enumDef d => trivial
    | serviceDef d => trivial
    | errorDef d => trivial
  · rw [h.classes] at hd
    obtain ⟨d', hd', hdd⟩ := List.mem_filterMap.mp hd
    cases d' <;> cases hdd
    exact ha _ hd'

theorem parse_reads {ns : Namespace} {ws : List Word} (hns : ns.Writable) (hws : ns.Reads ws)
    (ha : ∀ d ∈ ns.classes, d.Accepted) (h : Shows [] ws s) :
    Returns (parse pendingDoc) s fun ast _ =>
      ast.namespaces.map (Namespace.withDocs id) = [ns.withDocs trimDoc] := by
  obtain ⟨ds, hds, hreads, rfl⟩ := hws
  rw [Namespace.accepted_iff hds] at ha
  have hwritable := hns.definitions hds
  refine .seq (parseNamespace_reads h) fun n s₁ ⟨hn, h₁⟩ => ?_
  have hmany : Returns (many (· = .eof) (parseDefinition pendingDoc)) s₁ fun ds' s' =>
      ds'.map (Definition.withDocs id) = ds.map (fun d => d.1.withDocs trimDoc) ∧ Shows [] [] s' := by
    refine many_reads rfl (fun d hd _ _ hs => ?_) (fun d hd => (hreads d hd).starts) rfl ?_
    · exact parseDefinition_reads (hwritable _ (List.mem_map_of_mem hd))
        (ha _ (List.mem_map_of_mem hd)) (hreads d hd) hs
    · rw [List.append_nil]
      exact h₁
  refine .seq hmany fun ds' s₂ ⟨hds', _⟩ => .pure ?_
  have hds' : ds'.map (Definition.withDocs id) =
      (ds.map Prod.fst).map (Definition.withDocs trimDoc) := by
    rw [hds', List.map_map]
    rfl
  simp only [List.map_cons, List.map_nil, Namespace.withDocs, ← Definition.structDef_withDocs,
    ← Definition.enumDef_withDocs, ← Definition.classDef_withDocs,
    ← Definition.serviceDef_withDocs, ← Definition.errorDef_withDocs, hds', hds.structs, hds.enums,
    hds.classes, hds.services, hds.errors, hn]

theorem parse_throws {ns : Namespace} {ws : List Word} (hns : ns.Writable) (hws : ns.Reads ws)
    (ha : ¬ ∀ d ∈ ns.classes, d.Accepted) (h : Shows [] ws s) : Throws (parse pendingDoc) s := by
  obtain ⟨ds, hds, hreads, rfl⟩ := hws
  rw [Namespace.accepted_iff hds] at ha
  simp only [Classical.not_forall] at ha
  obtain ⟨d, hd, hbad⟩ := ha
  obtain ⟨x, hx, rfl⟩ := List.mem_map.mp hd
  have hwritable := hns.definitions hds
  refine .seq (parseNamespace_reads h) fun n s₁ ⟨_, h₁⟩ => throws_bind ?_
  rw [← List.append_nil (List.flatMap _ _)] at h₁
  have hx' : ∃ x ∈ ds, ¬ x.1.Accepted := ⟨x, hx, hbad⟩
  refine many_throws (f := Definition.withDocs id) (g := fun d => d.1.withDocs trimDoc)
    (fun d hd hgood _ _ hs => ?_) (fun d hd hbad _ _ hs => ?_)
    (fun d hd => (hreads d hd).starts) h₁ hx'
  · exact parseDefinition_reads (hwritable _ (List.mem_map_of_mem hd)) hgood (hreads d hd) hs
  · exact parseDefinition_throws (hwritable _ (List.mem_map_of_mem hd)) hbad (hreads d hd) hs

end

/-! ## Texts -/

/-- The same tree, up to the positions. -/
def AST.SameAs (ast : AST) (ns : Namespace) : Prop :=
  ast.namespaces.map (Namespace.withDocs id) = [ns.withDocs id]

/-- What the parser has in front of it at the beginning of the text. -/
theorem shows_written {ns : Namespace} {text : Str} (hns : ns.Writable)
    (hvalues : ∀ v ∈ ns.values, Literal v) (h : ns.Written text) :
    ∃ ws s, ns.Reads ws ∧ Parser.create pendingDoc (tokenize text) = .ok s ∧ Shows [] ws s := by
  obtain ⟨ws, hws, hlaid⟩ := h
  have hspells := spells_tokenize hlaid (hns.words hws hvalues)
  obtain ⟨s, hs⟩ := hspells.next []
  exact ⟨ws, s, hws, hs, _, hspells, hs⟩

/-- A tree whose classes the parser reads comes back with its documentation trimmed. -/
theorem parseStream_accepted {ns : Namespace} {text : Str} (hns : ns.Writable)
    (hvalues : ∀ v ∈ ns.values, Literal v) (h : ns.Written text)
    (ha : ∀ d ∈ ns.classes, d.Accepted) :
    ∃ ast s, parseStream pendingDoc (tokenize text) = .ok ast s ∧
      ast.namespaces.map (Namespace.withDocs id) = [ns.withDocs trimDoc] := by
  obtain ⟨ws, s, hws, hcreate, hshows⟩ := shows_written hns hvalues h
  have hparse := parse_reads hns hws ha hshows
  rw [parseStream, hcreate]
  dsimp only
  cases hrun : (parse pendingDoc).run s with
  | ok ast s' => exact ⟨ast, some s', rfl, hparse.ok hrun⟩
  | error e s' => exact (hparse.error hrun).elim

theorem parseStream_rejected {ns : Namespace} {text : Str} (hns : ns.Writable)
    (hvalues : ∀ v ∈ ns.values, Literal v) (h : ns.Written text)
    (ha : ¬ ∀ d ∈ ns.classes, d.Accepted) {ast : AST} {s : Option (Parser Str)} :
    parseStream pendingDoc (tokenize text) ≠ .ok ast s := by
  obtain ⟨ws, s', hws, hcreate, hshows⟩ := shows_written hns hvalues h
  have hparse := parse_throws hns hws ha hshows
  rw [parseStream, hcreate]
  dsimp only
  cases hrun : (parse pendingDoc).run s' with
  | ok ast' s'' => exact (hparse.ok hrun).elim
  | error e s'' => exact fun h => by cases h

/-- There is no way to write a negative number. -/
theorem parseStream_negative {ns : Namespace} {text : Str} (hns : ns.Writable)
    (hvalues : ¬ ∀ v ∈ ns.values, Literal v) (h : ns.Written text) {ast : AST}
    {s : Option (Parser Str)} : parseStream pendingDoc (tokenize text) ≠ .ok ast s := by
  obtain ⟨ws, hws, hlaid⟩ := h
  simp only [Classical.not_forall] at hvalues
  obtain ⟨v, hv, hbad⟩ := hvalues
  have hfault : (tokenize text).fault ≠ none :=
    Lexer.fault_laid hlaid (hns.words hws fun _ _ => trivial) ⟨_, hws.integer_mem hv, hbad⟩
      (Nat.lt_succ_self _)
  have hproper : (tokenize text).Proper := Lexer.proper_stream _ _
  intro hrun
  rcases @parseStream_cases _ pendingDoc _ hproper with
    ⟨_, _, -, hnone⟩ | ⟨_, _, _, _, herror, -⟩ | ⟨_, _, herror, -⟩
  · exact hfault hnone
  · rw [hrun] at herror
    cases herror
  · rw [hrun] at herror
    cases herror

/-- The parser returns the tree that a text was written from exactly where it reads its classes,
no value of an enum is negative and no documentation begins with an empty line. -/
theorem parseStream_written_iff {ns : Namespace} {text : Str} (hns : ns.Writable)
    (h : ns.Written text) :
    (∃ ast s, parseStream pendingDoc (tokenize text) = .ok ast s ∧ ast.SameAs ns) ↔
      (∀ d ∈ ns.classes, d.Accepted) ∧ (∀ v ∈ ns.values, Literal v) ∧
        ∀ doc ∈ ns.docs, doc.head? ≠ some (ch '\n') := by
  have hdocs : ns.withDocs trimDoc = ns.withDocs id ↔
      ∀ doc ∈ ns.docs, doc.head? ≠ some (ch '\n') := by
    rw [Namespace.withDocs_eq_iff]
    exact forall₂_congr fun doc _ => trimDoc_eq_self
  by_cases hvalues : ∀ v ∈ ns.values, Literal v
  · by_cases ha : ∀ d ∈ ns.classes, d.Accepted
    · obtain ⟨ast, s, hrun, hast⟩ := parseStream_accepted hns hvalues h ha
      rw [and_iff_right ha, and_iff_right hvalues, ← hdocs]
      constructor
      · rintro ⟨ast', s', hrun', hsame⟩
        rw [hrun] at hrun'
        cases hrun'
        rw [AST.SameAs, hast] at hsame
        exact List.head_eq_of_cons_eq hsame
      · intro htrim
        exact ⟨ast, s, hrun, by rw [AST.SameAs, hast, htrim]⟩
    · refine iff_of_false ?_ fun hc => ha hc.1
      rintro ⟨ast, s, hrun, -⟩
      exact parseStream_rejected hns hvalues h ha hrun
  · refine iff_of_false ?_ fun hc => hvalues hc.2.1
    rintro ⟨ast, s, hrun, -⟩
    exact parseStream_negative hns hvalues h hrun

/-! ### Trees and texts -/

/-- The words, one in a line. -/
def spaced (ws : List Word) : Str := ws.flatMap fun w => w.text ++ lit "\n"

theorem laid_spaced {gap : Str} (hgap : Blank gap) (ws : List Word) :
    Laid ws (gap ++ spaced ws) := by
  induction ws generalizing gap with
  | nil =>
    rw [spaced, List.flatMap_nil, List.append_nil]
    exact .nil hgap
  | cons w ws ih =>
    have hnewline : Blank (lit "\n") := fun c hc => by
      rw [List.mem_singleton.mp hc]
      exact .inr (.inr (.inr rfl))
    have hends : w.Ends (lit "\n" ++ spaced ws) := by
      rw [Word.Ends]
      split
      · rfl
      · exact fun _ => rfl
    have hlaid := Laid.cons hgap hends (ih hnewline)
    rw [spaced, List.flatMap_cons, ← spaced, List.append_assoc, ← List.append_assoc gap]
    exact hlaid

/-- Every tree can be written down. -/
theorem Namespace.Reads.written {ns : Namespace} {ws : List Word} (h : ns.Reads ws) :
    ns.Written (spaced ws) :=
  ⟨ws, h, laid_spaced (fun _ hc => absurd hc List.not_mem_nil) ws⟩

/-- `namespace n; class Node { readonly Node next; others() -> Node[]; }`, with or without the
`readonly`. -/
def nodeTree (readonly : Bool) : Namespace where
  name := lit "n"
  classes := [{
    name := lit "Node"
    properties := [⟨lit "next", ⟨.user (lit "Node"), false, false, 0⟩, readonly, {}, lit "Who?"⟩]
    methods := [{
      name := lit "others"
      params := []
      returnType := ⟨.user (lit "Node"), true, false, 1⟩ }] }]

theorem nodeTree_writable (readonly : Bool) : (nodeTree readonly).Writable := by
  have hn : IsName (lit "n") := ⟨rfl, rfl, rfl⟩
  have hNode : IsName (lit "Node") := ⟨rfl, rfl, rfl⟩
  have hnext : IsName (lit "next") := ⟨rfl, rfl, rfl⟩
  have hothers : IsName (lit "others") := ⟨rfl, rfl, rfl⟩
  refine ⟨hn, nofun, nofun, List.forall_mem_singleton.mpr ?_, nofun, nofun⟩
  refine ⟨hNode, nofun, List.forall_mem_singleton.mpr ⟨hnext, hNode, Int.le_refl 0, rfl⟩, nofun,
    List.forall_mem_singleton.mpr ⟨hothers, nofun, ⟨hNode, by decide, by decide⟩, nofun, nofun⟩⟩

theorem nodeTree_written (readonly : Bool) : ∃ text, (nodeTree readonly).Written text := by
  refine ⟨_, Namespace.Reads.written ⟨(nodeTree readonly).classes.map fun d =>
    (.classDef d, d.wordsFor (d.properties.map .property ++ d.methods.map .method)),
      ⟨rfl, rfl, rfl, rfl, rfl⟩, List.forall_mem_singleton.mpr ⟨_, ⟨rfl, rfl, rfl⟩, rfl⟩, rfl⟩⟩

theorem parseStream_written_iff_node : ∃ text ast s, (nodeTree true).Written text ∧
    parseStream pendingDoc (tokenize text) = .ok ast s ∧ ast.SameAs (nodeTree true) := by
  obtain ⟨text, htext⟩ := nodeTree_written true
  obtain ⟨ast, s, hrun, hsame⟩ := (parseStream_written_iff (nodeTree_writable true) htext).mpr
    ⟨List.forall_mem_singleton.mpr ⟨List.forall_mem_singleton.mpr nofun,
      List.forall_mem_singleton.mpr fun _ _ => by decide⟩, nofun, by decide⟩
  exact ⟨text, ast, s, htext, hrun, hsame⟩

/-- A class with a property of its own type. -/
theorem not_read_node : ¬ ∀ (ns : Namespace) (text : Str), ns.Writable → ns.Written text →
    ∃ ast s, parseStream pendingDoc (tokenize text) = .ok ast s ∧ ast.SameAs ns := by
  intro h
  obtain ⟨text, htext⟩ := nodeTree_written false
  obtain ⟨ast, s, hrun, -⟩ := h _ text (nodeTree_writable false) htext
  refine parseStream_rejected (nodeTree_writable false) nofun htext (fun ha => ?_) hrun
  have hclass := ha _ List.mem_cons_self
  exact (hclass.properties _ List.mem_cons_self rfl (lit "Node") rfl).1 rfl

end Song.Compiler
