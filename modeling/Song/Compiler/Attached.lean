import Mathlib.Data.List.TakeWhile
import Song.Compiler.DocText
import Song.Compiler.FrontEnd

/-!
# Which documentation an item gets

`adjacentDoc` is the rule that an item has the documentation between the token in front of it and
its own first token, and no other. The code's rule (`pendingDoc`) keeps everything since an item
last took its documentation. `Stream.Attached` says of the tokens alone where the two agree: at
every first token of an item all the earlier lines since the last item are empty, and the item's
own documentation does not begin with an empty line, unless that is all of it.

The two parsers run side by side (`Paired`). They read the same tokens and differ in what
`take_doc` returns, and that is called at the first token of every item and nowhere else.
-/

namespace Song.Compiler

open Parse

/-! ## The rule, and where it holds -/

def adjacentDoc : DocRule (List Str) where
  empty := []
  next := fun _ => []
  add := fun lines line => lines ++ [line]
  text := joinLines

namespace TokenType

/-- The first token of an item: of a definition or of what stands in its body. -/
def starts (fresh : Bool) (type : TokenType) : Bool :=
  fresh && type != .rBrace && type != .eof

/-- Behind it an item may start. -/
def ends (enum : Bool) : TokenType → Bool
  | semicolon | lBrace | rBrace => true
  | comma => enum
  | _ => false

/-- Whether what comes behind it belongs to an enum. -/
def inEnum (enum : Bool) : TokenType → Bool
  | kwEnum | kwFlags => true
  | rBrace => false
  | _ => enum

end TokenType

/-- At the first token of an item with the documentation `own`, after `stray`. -/
structure OwnDoc (stray own : List Str) : Prop where
  stray : ∀ l ∈ stray, l = []
  own : own.head? = some [] → own = [[]]

instance (stray own : List Str) : Decidable (OwnDoc stray own) :=
  decidable_of_iff ((∀ l ∈ stray, l = []) ∧ (own.head? = some [] → own = [[]]))
    ⟨fun h => ⟨h.1, h.2⟩, fun h => ⟨h.stray, h.own⟩⟩

/-- At every first token of an item, `OwnDoc` holds. -/
def Stream.Attached (enum fresh : Bool) (stray own : List Str) : Stream → Prop
  | token t rest =>
    if t.type = .docComment then rest.Attached enum fresh stray (own ++ [t.value])
    else (t.type.starts fresh = true → OwnDoc stray own) ∧
      rest.Attached (t.type.inEnum enum) (t.type.ends enum)
        (if t.type.starts fresh then [] else stray ++ own) []
  | eof _ | fails _ => True

instance Stream.decidableAttached : (enum fresh : Bool) → (stray own : List Str) →
    (st : Stream) → Decidable (st.Attached enum fresh stray own)
  | enum, fresh, stray, own, .token t rest =>
    have := decidableAttached enum fresh stray (own ++ [t.value]) rest
    have := decidableAttached (t.type.inEnum enum) (t.type.ends enum)
      (if t.type.starts fresh then [] else stray ++ own) [] rest
    inferInstanceAs (Decidable (if t.type = .docComment then _ else _))
  | _, _, _, _, .eof _ | _, _, _, _, .fails _ => .isTrue trivial

/-! ## Lines -/

/-- Lines as the lexer leaves them. -/
def Unbroken (lines : List Str) : Prop := ∀ l ∈ lines, ch '\n' ∉ l

theorem splitOn_joinLines {ls : List Str} (h : Unbroken ls) (hne : ls ≠ []) :
    (joinLines ls).splitOn 10 = ls :=
  List.splitOn_intercalate 10 h hne

theorem joinLines_inj {ls ls' : List Str} (h : Unbroken ls) (h' : Unbroken ls') (hne : ls ≠ [])
    (hne' : ls' ≠ []) (heq : joinLines ls = joinLines ls') : ls = ls' := by
  rw [← splitOn_joinLines h hne, heq, splitOn_joinLines h' hne']

/-- What the code takes is the item's own documentation. -/
theorem gather_eq_iff {stray own : List Str} (h : Unbroken (stray ++ own)) :
    gather [] (stray ++ own) = joinLines own ↔ OwnDoc stray own := by
  have hown : Unbroken own := fun l hl => h l (List.mem_append_right _ hl)
  rw [gather_nil, List.dropWhile_append]
  by_cases hstray : (stray.dropWhile List.isEmpty).isEmpty = true
  · have hall : ∀ l ∈ stray, l = [] := fun l hl =>
      List.isEmpty_iff.mp (List.dropWhile_eq_nil_iff.mp (List.isEmpty_iff.mp hstray) l hl)
    rw [if_pos hstray]
    cases own with
    | nil => exact iff_of_true rfl ⟨hall, nofun⟩
    | cons l ls =>
      cases l with
      | nil =>
        rw [List.dropWhile_cons_of_pos rfl]
        constructor
        · intro heq
          refine ⟨hall, fun _ => ?_⟩
          cases hdrop : ls.dropWhile List.isEmpty with
          | nil =>
            rw [hdrop] at heq
            have hsplit := splitOn_joinLines hown (List.cons_ne_nil _ _)
            rw [← heq] at hsplit
            exact hsplit.symm
          | cons l' ls' =>
            have hsub : Unbroken (ls.dropWhile List.isEmpty) := fun m hm =>
              hown m (List.mem_cons_of_mem _ ((List.dropWhile_suffix _).subset hm))
            have hls := joinLines_inj hsub hown (by rw [hdrop]; exact List.cons_ne_nil _ _)
              (List.cons_ne_nil _ _) heq
            have hle := (List.dropWhile_suffix (l := ls) List.isEmpty).length_le
            rw [hls, List.length_cons] at hle
            omega
        · intro hd
          have hls := hd.own rfl
          cases hls
          rfl
      | cons c cs =>
        rw [List.dropWhile_cons_of_neg (by simp)]
        exact iff_of_true rfl ⟨hall, nofun⟩
  · rw [if_neg hstray]
    refine iff_of_false (fun heq => ?_) fun hd => hstray ?_
    · have hne : stray.dropWhile List.isEmpty ≠ [] := fun h => hstray (List.isEmpty_iff.mpr h)
      have hsub : Unbroken (stray.dropWhile List.isEmpty ++ own) := fun l hl => by
        rcases List.mem_append.mp hl with hl | hl
        · exact h l (List.mem_append_left _ ((List.dropWhile_suffix _).subset hl))
        · exact hown l hl
      cases own with
      | nil =>
        rw [List.append_nil] at heq hsub
        have hsplit := splitOn_joinLines hsub hne
        have hhead := List.head_dropWhile_not List.isEmpty hne
        rw [heq] at hsplit
        simp only [← hsplit] at hhead
        cases hhead
      | cons l ls =>
        have hls := congrArg List.length (joinLines_inj hsub hown
          (List.append_ne_nil_of_left_ne_nil hne _) (List.cons_ne_nil _ _) heq)
        have hpos := List.length_pos_iff.mpr hne
        rw [List.length_append] at hls
        omega
    · rw [List.isEmpty_iff, List.dropWhile_eq_nil_iff]
      exact fun l hl => List.isEmpty_iff.mpr (hd.stray l hl)

/-- The documentation in the stream is lines. -/
def Stream.Lines : Stream → Prop
  | token t rest => (t.type = .docComment → ch '\n' ∉ t.value) ∧ rest.Lines
  | eof _ | fails _ => True

/-! ## Side by side -/

/-- The two parsers read the same, behind a token that an item may start behind (`fresh`); `C` is
what `Attached` says of the rest. -/
structure Paired (enum fresh : Bool) (C : Prop) (s : Parser Str) (s' : Parser (List Str)) :
    Prop where
  stream : s'.stream = s.stream
  current : s'.current = s.current
  plain : s.current.type ≠ .docComment
  proper : s.Proper
  lines : s.stream.Lines
  pending : ∃ stray, s.pending = gather [] (stray ++ s'.pending) ∧
    Unbroken (stray ++ s'.pending) ∧
      (C ↔ (Stream.token s.current s.stream).Attached enum fresh stray s'.pending)

/-- The documentation has just been taken. -/
structure Taken (enum : Bool) (C : Prop) (s : Parser Str) (s' : Parser (List Str)) : Prop
    extends Paired enum false C s s' where
  none : s.pending = []
  none' : s'.pending = []

/-- What `next` finds in the two. -/
theorem next_paired {enum fresh : Bool} {C : Prop} {st : Stream} {stray own : List Str}
    (hst : st.Proper) (hlines : st.Lines) (hown : Unbroken (stray ++ own))
    (hc : C ↔ st.Attached enum fresh stray own) :
    (∃ e, st.next pendingDoc (gather [] (stray ++ own)) = .error e ∧
      st.next adjacentDoc own = .error e) ∨
    ∃ s s', st.next pendingDoc (gather [] (stray ++ own)) = .ok s ∧
      st.next adjacentDoc own = .ok s' ∧ Paired enum fresh C s s' := by
  induction st generalizing own with
  | token t rest ih =>
    rw [Stream.Attached] at hc
    rw [Stream.next, Stream.next]
    by_cases hdoc : t.type = .docComment
    · rw [if_pos hdoc] at hc ⊢
      rw [if_pos hdoc]
      have hadd : pendingDoc.add (gather [] (stray ++ own)) t.value =
          gather [] (stray ++ (own ++ [t.value])) := by
        rw [← List.append_assoc, gather_append _ (stray ++ own)]
        rfl
      rw [hadd]
      refine ih hst.2 hlines.2 (fun l hl => ?_) hc
      rw [← List.append_assoc] at hl
      rcases List.mem_append.mp hl with hl | hl
      · exact hown l hl
      · rw [List.mem_singleton.mp hl]
        exact hlines.1 hdoc
    · rw [if_neg hdoc, if_neg hdoc]
      have hrun : (Stream.token t rest).next pendingDoc (gather [] (stray ++ own)) =
          .ok ⟨rest, t, gather [] (stray ++ own)⟩ := by
        rw [Stream.next, if_neg hdoc]
      refine .inr ⟨_, _, rfl, rfl, rfl, rfl, hdoc, (Stream.next_ok hst hrun).2.1, hlines.2, stray,
        rfl, hown, ?_⟩
      rw [hc, Stream.Attached]
  | eof t =>
    have hne : t.type ≠ .docComment := by
      rw [show t.type = .eof from hst]
      decide
    refine .inr ⟨_, _, rfl, rfl, rfl, rfl, hne, ⟨hst, fun _ => ⟨hst, t, rfl, hst⟩⟩, trivial, stray,
      rfl, hown, ?_⟩
    have hstarts : t.type.starts fresh = false := by
      rw [show t.type = .eof from hst]
      simp [TokenType.starts]
    rw [hc, Stream.Attached, if_neg hne, hstarts]
    exact iff_of_true trivial ⟨fun h => absurd h Bool.false_ne_true, trivial⟩
  | fails e => exact .inl ⟨e, rfl, rfl⟩

section
variable {α β : Type} {enum fresh : Bool} {C : Prop} {s : Parser Str} {s' : Parser (List Str)}

/-! ### Looking at the current token -/

theorem currentLoc_same (h : s'.current = s.current) {f : SourceLoc → Parse Str α}
    {f' : SourceLoc → Parse (List Str) β} {Q : α → β → Parser Str → Parser (List Str) → Prop}
    (hf : ∀ loc, Eff.Both (f loc) (f' loc) s s' Q) :
    Eff.Both (currentLoc >>= f) (currentLoc >>= f') s s' Q := by
  refine Eff.Both.bind (Q := fun a b t t' => b = a ∧ t = s ∧ t' = s')
    (.of_ok rfl rfl ⟨by rw [h], rfl, rfl⟩) fun loc _ t t' ⟨hloc, ht, ht'⟩ => ?_
  rw [hloc, ht, ht']
  exact hf loc

theorem current_same (h : s'.current = s.current) {f : Token → Parse Str α}
    {f' : Token → Parse (List Str) β} {Q : α → β → Parser Str → Parser (List Str) → Prop}
    (hf : Eff.Both (f s.current) (f' s.current) s s' Q) :
    Eff.Both (current >>= f) (current >>= f') s s' Q := by
  refine Eff.Both.bind (Q := fun a b t t' => a = s.current ∧ b = s.current ∧ t = s ∧ t' = s')
    (.of_ok rfl rfl ⟨rfl, h, rfl, rfl⟩) fun a b t t' ⟨ha, hb, ht, ht'⟩ => ?_
  rw [ha, hb, ht, ht']
  exact hf

theorem check_same (h : s'.current = s.current) {type : TokenType} {f : Bool → Parse Str α}
    {f' : Bool → Parse (List Str) β} {Q : α → β → Parser Str → Parser (List Str) → Prop}
    (hf : Eff.Both (f (s.current.type = type)) (f' (s.current.type = type)) s s' Q) :
    Eff.Both (check type >>= f) (check type >>= f') s s' Q := by
  refine Eff.Both.bind (Q := fun a b t t' => a = decide (s.current.type = type) ∧ b = a ∧ t = s ∧
    t' = s') (.of_ok rfl rfl ⟨rfl, by rw [h], rfl, rfl⟩) fun a b t t' ⟨ha, hb, ht, ht'⟩ => ?_
  rw [hb, ha, ht, ht']
  exact hf

/-! ### Past a token -/

theorem advance_run_ok {δ : Type} {rule : DocRule δ} {s t : Parser δ}
    (h : s.stream.next rule (rule.next s.pending) = .ok t) :
    (advance rule).run s = .ok () t := by
  simp only [EStateM.run, advance, h]

theorem advance_run_error {δ : Type} {rule : DocRule δ} {s : Parser δ} {e : FrontError}
    (h : s.stream.next rule (rule.next s.pending) = .error e) :
    (advance rule).run s = .error e s := by
  simp only [EStateM.run, advance, h]

/-- Past a token that starts no item. -/
theorem advance_paired (h : Paired enum fresh C s s')
    (hstarts : s.current.type.starts fresh = false) :
    Eff.Both (advance pendingDoc) (advance adjacentDoc) s s' fun _ _ t t' =>
      Paired (s.current.type.inEnum enum) (s.current.type.ends enum) C t t' := by
  obtain ⟨stray, hpending, hunbroken, hc⟩ := h.pending
  rw [Stream.Attached, if_neg h.plain, hstarts, if_neg Bool.false_ne_true] at hc
  have hc' : C ↔ s.stream.Attached (s.current.type.inEnum enum) (s.current.type.ends enum)
      (stray ++ s'.pending) [] :=
    ⟨fun hC => (hc.mp hC).2, fun hrest => hc.mpr ⟨nofun, hrest⟩⟩
  have hunbroken' : Unbroken (stray ++ s'.pending ++ []) := by
    rw [List.append_nil]
    exact hunbroken
  have hnext := next_paired h.proper.stream h.lines hunbroken' hc'
  rw [List.append_nil, ← hpending] at hnext
  rcases hnext with ⟨e, he, he'⟩ | ⟨t, t', ht, ht', hpaired⟩
  · rw [← h.stream] at he'
    exact .of_error (advance_run_error he) (advance_run_error he')
  · rw [← h.stream] at ht'
    exact .of_ok (advance_run_ok ht) (advance_run_ok ht') hpaired

/-! ### Programs that take no documentation -/

/-- Both read the same, up to no first token of an item. -/
def Alike (enum : Bool) (x : Parse Str α) (x' : Parse (List Str) α) : Prop :=
  ∀ C s s', Paired enum false C s s' →
    Eff.Both x x' s s' fun a b t t' => b = a ∧ Paired enum false C t t'

namespace Alike

theorem bind {x : Parse Str α} {x' : Parse (List Str) α} {f : α → Parse Str β}
    {f' : α → Parse (List Str) β} (hx : Alike enum x x') (hf : ∀ a, Alike enum (f a) (f' a)) :
    Alike enum (x >>= f) (x' >>= f') := fun C s s' h =>
  (hx C s s' h).bind fun a b t t' ⟨hab, ht⟩ => by
    rw [hab]
    exact hf a C t t' ht

theorem pure (a : α) : Alike enum (pure a) (pure a) := fun _ _ _ h => .pure ⟨rfl, h⟩

theorem current : Alike enum current current := fun _ _ _ h => .of_ok rfl rfl ⟨h.current, h⟩

theorem check (type : TokenType) : Alike enum (check type) (check type) := fun _ _ _ h =>
  .of_ok rfl rfl ⟨by rw [h.current], h⟩

theorem currentLoc : Alike enum currentLoc currentLoc := fun _ _ _ h =>
  .of_ok rfl rfl ⟨by rw [h.current], h⟩

theorem throw (e : FrontError) : Alike enum (throw e : Parse Str α) (throw e) := fun _ _ _ _ =>
  .of_error rfl rfl

theorem fail (msg : Str) : Alike enum (fail msg : Parse Str α) (fail msg) := fun _ _ _ _ =>
  .of_error rfl rfl

theorem ite {x y : Parse Str α} {x' y' : Parse (List Str) α} {p : Prop} [Decidable p]
    (hx : p → Alike enum x x') (hy : ¬ p → Alike enum y y') :
    Alike enum (if p then x else y) (if p then x' else y') := by
  split
  · next hp => exact hx hp
  · next hp => exact hy hp

/-- A step that depends on the current token. -/
theorem withCurrent {f : Token → Parse Str β} {f' : Token → Parse (List Str) β}
    (hf : ∀ C s s', Paired enum false C s s' → Eff.Both (f s.current) (f' s.current) s s'
      fun a b t t' => b = a ∧ Paired enum false C t t') :
    Alike enum (Parse.current >>= f) (Parse.current >>= f') := fun C s s' h => by
  exact current_same h.current (hf C s s' h)

end Alike

/-- A token of a type that neither ends nor starts anything. -/
structure TokenType.Inner (enum : Bool) (type : TokenType) : Prop where
  ends : type.ends enum = false
  inEnum : type.inEnum enum = enum

theorem expect_paired {type : TokenType} {msg : Str} (h : Paired enum fresh C s s')
    (hstarts : type.starts fresh = false) :
    Eff.Both (expect pendingDoc type msg) (expect adjacentDoc type msg) s s' fun a b t t' =>
      b = a ∧ Paired (type.inEnum enum) (type.ends enum) C t t' := by
  refine current_same h.current ?_
  by_cases htype : s.current.type = type
  · rw [if_pos htype, if_pos htype]
    have hadvance := advance_paired h (by rw [htype]; exact hstarts)
    rw [htype] at hadvance
    exact hadvance.bind fun _ _ t t' ht => .pure ⟨rfl, ht⟩
  · rw [if_neg htype, if_neg htype]
    exact .of_error rfl rfl

theorem Alike.expect {type : TokenType} (htype : type.Inner enum) (msg : Str) :
    Alike enum (expect pendingDoc type msg) (expect adjacentDoc type msg) := fun C s s' h => by
  have hexpect := @expect_paired enum false C s s' type msg h rfl
  rw [htype.ends, htype.inEnum] at hexpect
  exact hexpect

theorem Alike.expectName (msg : Str) :
    Alike enum (expectName pendingDoc msg) (expectName adjacentDoc msg) :=
  .bind (.expect ⟨rfl, rfl⟩ msg) fun _ => .pure _

/-- `if (check(type)) { advance(); ... }` -/
theorem checked_paired {type : TokenType} (htype : type.Inner enum) (h : Paired enum false C s s')
    {x y : Parse Str α} {x' y' : Parse (List Str) β}
    {Q : α → β → Parser Str → Parser (List Str) → Prop}
    (hx : ∀ t t', Paired enum false C t t' → Eff.Both x x' t t' Q) (hy : Eff.Both y y' s s' Q) :
    Eff.Both (do if ← check type then do advance pendingDoc; x else y)
      (do if ← check type then do advance adjacentDoc; x' else y') s s' Q := by
  refine check_same h.current ?_
  by_cases hcurrent : s.current.type = type
  · rw [if_pos (decide_eq_true hcurrent), if_pos (decide_eq_true hcurrent)]
    have hadvance := advance_paired h rfl
    rw [hcurrent, htype.ends, htype.inEnum] at hadvance
    exact hadvance.bind fun _ _ t t' ht => hx t t' ht
  · rw [decide_eq_false hcurrent, if_neg Bool.false_ne_true, if_neg Bool.false_ne_true]
    exact hy

theorem Alike.checked {type : TokenType} (htype : type.Inner enum) {x y : Parse Str α}
    {x' y' : Parse (List Str) α} (hx : Alike enum x x') (hy : Alike enum y y') :
    Alike enum (do if ← Parse.check type then do advance pendingDoc; x else y)
      (do if ← Parse.check type then do advance adjacentDoc; x' else y') := fun C s s' h =>
  checked_paired htype h (hx C) (hy C s s' h)

theorem Alike.accept {type : TokenType} (htype : type.Inner enum) :
    Alike enum (accept pendingDoc type) (accept adjacentDoc type) :=
  .checked htype (.pure _) (.pure _)

/-- A loop with as much fuel as there are tokens. -/
theorem Alike.fueled {x : Nat → Parse Str α} {x' : Nat → Parse (List Str) α}
    (hx : ∀ n, Alike enum (x n) (x' n)) :
    Alike enum (fun s => x (s.stream.length + 2) s) fun s => x' (s.stream.length + 2) s :=
  fun C s s' h => by
    have hrun := hx (s.stream.length + 2) C s s' h
    unfold Eff.Both at hrun ⊢
    simp only [EStateM.run, h.stream] at hrun ⊢
    exact hrun

theorem Alike.brackets (fuel : Nat) :
    Alike enum (brackets pendingDoc fuel) (brackets adjacentDoc fuel) := by
  induction fuel with
  | zero => exact .throw _
  | succ fuel ih =>
    exact .checked ⟨rfl, rfl⟩ (.bind (.expect ⟨rfl, rfl⟩ _) fun _ => .bind ih fun _ => .pure _)
      (.pure _)

theorem Alike.typeMarks : Alike enum (typeMarks pendingDoc) (typeMarks adjacentDoc) :=
  .bind (.fueled Alike.brackets) fun _ => .checked ⟨rfl, rfl⟩ (.pure _) (.pure _)

theorem inner_of_primitive {type : TokenType} {p : PrimitiveType}
    (h : tokenToPrimitive type = some p) : type.Inner enum := by
  cases type <;> first | exact ⟨rfl, rfl⟩ | cases h

theorem Alike.parseTypeBase : Alike enum (parseTypeBase pendingDoc) (parseTypeBase adjacentDoc) := by
  refine .withCurrent fun C s s' h => ?_
  have hadvance := advance_paired h rfl
  cases hp : tokenToPrimitive s.current.type with
  | some p =>
    have hinner := @inner_of_primitive enum _ p hp
    rw [hinner.ends, hinner.inEnum] at hadvance
    exact hadvance.bind fun _ _ t t' ht => .pure ⟨rfl, ht⟩
  | none =>
    dsimp only
    by_cases htype : s.current.type = .identifier
    · rw [htype] at hadvance
      rw [if_pos htype, if_pos htype]
      exact hadvance.bind fun _ _ t t' ht => .pure ⟨rfl, ht⟩
    · rw [if_neg htype, if_neg htype]
      exact .of_error rfl rfl

theorem Alike.parseType : Alike enum (parseType pendingDoc) (parseType adjacentDoc) :=
  .bind .parseTypeBase fun _ => .bind .typeMarks fun _ => .pure _

theorem Alike.parseParam : Alike enum (parseParam pendingDoc) (parseParam adjacentDoc) :=
  .bind .currentLoc fun _ => .bind .parseType fun _ => .bind (.expectName _) fun _ => .pure _

/-- Outside of an enum a comma ends nothing. -/
theorem Alike.afterCommas {stop : TokenType → Bool} {item : Parse Str α}
    {item' : Parse (List Str) α} (hitem : Alike false item item') (fuel : Nat) :
    Alike false (afterCommas pendingDoc stop item fuel)
      (afterCommas adjacentDoc stop item' fuel) := by
  induction fuel with
  | zero => exact .throw _
  | succ fuel ih =>
    exact .checked ⟨rfl, rfl⟩ (.bind .current fun _ => .ite (fun _ => .pure _) fun _ =>
      .bind hitem fun _ => .bind ih fun _ => .pure _) (.pure _)

theorem Alike.commaSeparated {stop : TokenType → Bool} {item : Parse Str α}
    {item' : Parse (List Str) α} (hitem : Alike false item item') :
    Alike false (commaSeparated pendingDoc stop item) (commaSeparated adjacentDoc stop item') :=
  .bind hitem fun _ => .bind (.fueled (Alike.afterCommas hitem)) fun _ => .pure _

theorem Alike.parseParams : Alike false (parseParams pendingDoc) (parseParams adjacentDoc) :=
  .bind (.check _) fun _ => .ite (fun _ => .pure _) fun _ => .commaSeparated .parseParam

theorem Alike.parseThrows : Alike false (parseThrows pendingDoc) (parseThrows adjacentDoc) :=
  .bind (.accept ⟨rfl, rfl⟩) fun _ => .ite (fun _ => .commaSeparated (.expectName _)) fun _ =>
    .pure _

theorem Alike.parseModifier : Alike enum (parseModifier pendingDoc) (parseModifier adjacentDoc) :=
  .bind (.accept ⟨rfl, rfl⟩) fun _ => .ite (fun _ => .pure _) fun _ =>
    .bind (.accept ⟨rfl, rfl⟩) fun _ => .pure _

theorem Alike.parseBase (msg : Str) :
    Alike enum (parseBase pendingDoc msg) (parseBase adjacentDoc msg) :=
  .bind (.accept ⟨rfl, rfl⟩) fun _ => .ite (fun _ => .bind (.expectName _) fun _ => .pure _)
    fun _ => .pure _

/-! ### Taking documentation -/

theorem Parser.Proper.taken {δ : Type} {s : Parser δ} {pending : δ} (h : s.Proper) :
    Parser.Proper { s with pending := pending } :=
  ⟨h.stream, fun hc => h.current hc⟩

/-- The first token of an item: the code takes what it should where `OwnDoc` holds. -/
theorem takeDoc_paired (h : Paired enum true C s s')
    (hstarts : s.current.type.starts true = true) :
    Eff.Both (takeDoc pendingDoc) (takeDoc adjacentDoc) s s' fun a b t t' =>
      ∃ D, (C ↔ a = b ∧ D) ∧ Taken enum D t t' ∧ t.current = s.current := by
  obtain ⟨stray, hpending, hunbroken, hc⟩ := h.pending
  rw [Stream.Attached, if_neg h.plain, hstarts, if_pos rfl] at hc
  refine .of_ok rfl rfl ⟨s.stream.Attached (s.current.type.inEnum enum)
    (s.current.type.ends enum) [] [], ?_, ⟨⟨h.stream, h.current, h.plain, h.proper.taken, h.lines,
      [], rfl, nofun, ?_⟩, rfl, rfl⟩, rfl⟩
  · have hdoc : pendingDoc.text s.pending = adjacentDoc.text s'.pending ↔
        OwnDoc stray s'.pending := by
      rw [← gather_eq_iff hunbroken, ← hpending]
      exact Iff.rfl
    rw [hc, hdoc]
    exact and_congr_left fun _ => ⟨fun ho => ho rfl, fun ho _ => ho⟩
  · rw [Stream.Attached, if_neg h.plain]
    have hno : s.current.type.starts false = false := rfl
    rw [hno, if_neg Bool.false_ne_true]
    exact ⟨fun hd => ⟨nofun, hd⟩, fun hd => hd.2⟩

/-- Taken twice, it is empty. -/
theorem takeDoc_taken (h : Taken enum C s s') :
    Eff.Both (takeDoc pendingDoc) (takeDoc adjacentDoc) s s' fun a b t t' =>
      a = [] ∧ b = [] ∧ Taken enum C t t' := by
  have hpending : pendingDoc.text s.pending = [] := h.none
  have hpending' : adjacentDoc.text s'.pending = [] := by
    rw [h.none']
    rfl
  refine .of_ok rfl rfl ⟨hpending, hpending', ⟨⟨h.stream, h.current, h.plain, h.proper.taken, h.lines,
    ?_⟩, rfl, rfl⟩⟩
  obtain ⟨stray, hs, hu, hc⟩ := h.pending
  refine ⟨stray, ?_, ?_, ?_⟩
  · rw [h.none, h.none'] at hs
    exact hs
  · rw [h.none'] at hu
    exact hu
  · rw [h.none'] at hc
    exact hc

/-- The result of an item, from its documentation; `V` holds of the two results anyway. -/
abbrev Item (enum after : Bool) (V : α → α → Prop) (x : Parse Str α) (x' : Parse (List Str) α) :
    Prop :=
  ∀ C s s', Paired enum true C s s' → s.current.type.starts true = true →
    Eff.Both x x' s s' fun a b t t' =>
      ∃ D, (C ↔ a = b ∧ D) ∧ V a b ∧ Paired enum after D t t'

/-- A program that goes on after the documentation has been taken, to the end of an item. -/
abbrev Tail (doc : α → Str) (x : Parse Str α) (x' : Parse (List Str) α) : Prop :=
  ∀ C s s', Taken false C s s' →
    Eff.Both x x' s s' fun a b t t' => b = a ∧ doc a = [] ∧ Paired false true C t t'

theorem parseField_item :
    Item false true (fun _ _ => True) (parseField pendingDoc) (parseField adjacentDoc) := by
  intro C s s' h hstarts
  refine currentLoc_same h.current fun loc => ?_
  refine (takeDoc_paired h hstarts).bind fun d d' t t' ⟨D, hD, ht, _⟩ => ?_
  refine (Alike.parseType D t t' ht.toPaired).bind fun type _ t t' ⟨htype, ht⟩ => ?_
  rw [htype]
  refine (Alike.expectName _ D t t' ht).bind fun n _ t t' ⟨hn, ht⟩ => ?_
  rw [hn]
  refine (expect_paired ht rfl).bind fun _ _ t t' ⟨_, ht⟩ => .pure ⟨D, ?_, trivial, ht⟩
  rw [hD]
  simp only [Field.mk.injEq, true_and]

theorem parseEnumItem_item :
    Item true false (fun _ _ => True) (parseEnumItem pendingDoc) (parseEnumItem adjacentDoc) := by
  intro C s s' h hstarts
  refine currentLoc_same h.current fun loc => ?_
  refine (takeDoc_paired h hstarts).bind fun d d' t t' ⟨D, hD, ht, _⟩ => ?_
  refine (Alike.expectName _ D t t' ht.toPaired).bind fun n _ t t' ⟨hn, ht⟩ => ?_
  rw [hn]
  refine checked_paired ⟨rfl, rfl⟩ ht (fun t t' ht => ?_) (.pure ⟨D, ?_, trivial, ht⟩)
  · refine (Alike.expect ⟨rfl, rfl⟩ _ D t t' ht).bind fun v _ t t' ⟨hv, ht⟩ => ?_
    rw [hv]
    refine .pure ⟨D, ?_, trivial, ht⟩
    rw [hD]
    simp only [EnumItem.mk.injEq, true_and]
  · rw [hD]
    simp only [EnumItem.mk.injEq, true_and]

theorem parseProperty_tail :
    Tail Property.doc (parseProperty pendingDoc) (parseProperty adjacentDoc) := by
  intro C s s' h
  refine currentLoc_same h.current fun loc => ?_
  refine (takeDoc_taken h).bind fun d d' t t' ⟨hd, hd', ht⟩ => ?_
  rw [hd, hd']
  refine (Alike.accept ⟨rfl, rfl⟩ C t t' ht.toPaired).bind fun b _ t t' ⟨hb, ht⟩ => ?_
  rw [hb]
  refine (Alike.parseType C t t' ht).bind fun type _ t t' ⟨htype, ht⟩ => ?_
  rw [htype]
  refine (Alike.expectName _ C t t' ht).bind fun n _ t t' ⟨hn, ht⟩ => ?_
  rw [hn]
  exact (expect_paired ht rfl).bind fun _ _ t t' ⟨_, ht⟩ => .pure ⟨rfl, rfl, ht⟩

theorem parseConstructor_tail :
    Tail Constructor.doc (parseConstructor pendingDoc) (parseConstructor adjacentDoc) := by
  intro C s s' h
  refine (takeDoc_taken h).bind fun d d' t t' ⟨hd, hd', ht⟩ => ?_
  rw [hd, hd']
  refine (Alike.expect ⟨rfl, rfl⟩ _ C t t' ht.toPaired).bind fun _ _ t t' ⟨_, ht⟩ => ?_
  refine (Alike.expect ⟨rfl, rfl⟩ _ C t t' ht).bind fun _ _ t t' ⟨_, ht⟩ => ?_
  refine (Alike.parseParams C t t' ht).bind fun ps _ t t' ⟨hps, ht⟩ => ?_
  rw [hps]
  refine (Alike.expect ⟨rfl, rfl⟩ _ C t t' ht).bind fun _ _ t t' ⟨_, ht⟩ => ?_
  exact (expect_paired ht rfl).bind fun _ _ t t' ⟨_, ht⟩ => .pure ⟨rfl, rfl, ht⟩

/-- From the parameters on; `d` and `d'` are passed through. -/
theorem parseSignature_paired (h : Paired false false C s s') (name : Str) (loc : SourceLoc)
    (d d' : Str) (isOptional isStream : Bool) :
    Eff.Both (parseSignature pendingDoc name loc d isOptional isStream)
      (parseSignature adjacentDoc name loc d' isOptional isStream) s s' fun a b t t' =>
        a.doc = d ∧ b = { a with doc := d' } ∧ Paired false true C t t' := by
  refine (Alike.expect ⟨rfl, rfl⟩ _ C s s' h).bind fun _ _ t t' ⟨_, ht⟩ => ?_
  refine (Alike.parseParams C t t' ht).bind fun ps _ t t' ⟨hps, ht⟩ => ?_
  rw [hps]
  refine (Alike.expect ⟨rfl, rfl⟩ _ C t t' ht).bind fun _ _ t t' ⟨_, ht⟩ => ?_
  refine (Alike.expect ⟨rfl, rfl⟩ _ C t t' ht).bind fun _ _ t t' ⟨_, ht⟩ => ?_
  refine (Alike.parseType C t t' ht).bind fun type _ t t' ⟨htype, ht⟩ => ?_
  rw [htype]
  refine (Alike.parseThrows C t t' ht).bind fun es _ t t' ⟨hes, ht⟩ => ?_
  rw [hes]
  exact (expect_paired ht rfl).bind fun _ _ t t' ⟨_, ht⟩ => .pure ⟨rfl, rfl, ht⟩

theorem parseMethod_tail :
    Tail Method.doc (parseMethod pendingDoc) (parseMethod adjacentDoc) := by
  intro C s s' h
  refine currentLoc_same h.current fun loc => ?_
  refine (takeDoc_taken h).bind fun d d' t t' ⟨hd, hd', ht⟩ => ?_
  rw [hd, hd']
  refine (Alike.parseModifier C t t' ht.toPaired).bind fun modifier _ t t' ⟨hmodifier, ht⟩ => ?_
  rw [hmodifier]
  refine (Alike.expectName _ C t t' ht).bind fun n _ t t' ⟨hn, ht⟩ => ?_
  rw [hn]
  refine (parseSignature_paired ht n loc [] [] modifier.1 modifier.2).mono
    fun m m' t t' ⟨hdoc, hm, ht⟩ => ⟨?_, hdoc, ht⟩
  rw [hm, ← hdoc]

/-- Members of one kind. -/
def Parse.Member.Like : Member → Member → Prop
  | .property _, .property _ | .constructor _, .constructor _ | .method _, .method _ => True
  | _, _ => False

theorem parseUserProperty_paired (h : Paired false false C s s') (type d d' : Str) :
    Eff.Both (parseUserProperty pendingDoc type d) (parseUserProperty adjacentDoc type d') s s'
      fun a b t t' => (a = b ↔ d = d') ∧ a.Like b ∧ Paired false true C t t' := by
  refine (Alike.expectName _ C s s' h).bind fun n _ t t' ⟨hn, ht⟩ => ?_
  rw [hn]
  refine currentLoc_same ht.current fun loc => ?_
  refine (Alike.typeMarks C t t' ht).bind fun marks _ t t' ⟨hmarks, ht⟩ => ?_
  rw [hmarks]
  refine (expect_paired ht rfl).bind fun _ _ t t' ⟨_, ht⟩ => .pure ⟨?_, trivial, ht⟩
  simp only [Member.property.injEq, Property.mk.injEq, true_and]

theorem parsePrimitiveProperty_paired (h : Paired false false C s s') (d d' : Str) :
    Eff.Both (parsePrimitiveProperty pendingDoc d) (parsePrimitiveProperty adjacentDoc d') s s'
      fun a b t t' => (a = b ↔ d = d') ∧ a.Like b ∧ Paired false true C t t' := by
  refine (Alike.parseType C s s' h).bind fun type _ t t' ⟨htype, ht⟩ => ?_
  rw [htype]
  refine (Alike.expectName _ C t t' ht).bind fun n _ t t' ⟨hn, ht⟩ => ?_
  rw [hn]
  refine currentLoc_same ht.current fun loc => ?_
  refine (expect_paired ht rfl).bind fun _ _ t t' ⟨_, ht⟩ => .pure ⟨?_, trivial, ht⟩
  simp only [Member.property.injEq, Property.mk.injEq, true_and]

theorem parseNamed_paired (h : Paired false false C s s') (name d d' : Str) :
    Eff.Both (parseNamed pendingDoc name d) (parseNamed adjacentDoc name d') s s'
      fun a b t t' => (a = b ↔ d = d') ∧ a.Like b ∧ Paired false true C t t' := by
  refine (Alike.check .lParen C s s' h).bind fun b _ t t' ⟨hb, ht⟩ => ?_
  rw [hb]
  split
  · refine currentLoc_same ht.current fun loc => ?_
    refine (parseSignature_paired ht name loc d d' false false).bind
      fun m _ t t' ⟨hdoc, hm, ht⟩ => .pure ⟨?_, trivial, ht⟩
    rw [hm]
    obtain ⟨name, params, returnType, isStream, throws, loc, doc, isOptional⟩ := m
    rw [show d = doc from hdoc.symm]
    simp only [Member.method.injEq, Method.mk.injEq, true_and, and_true]
  · exact parseUserProperty_paired ht name d d'

/-- An item that takes its documentation and puts it in at the end. -/
theorem Tail.documented {doc : α → Str} {x : Parse Str α} {x' : Parse (List Str) α}
    (hx : Tail doc x x') {D : Prop} (h : Taken false D s s') {f : α → Str → β} (d d' : Str)
    (hf : ∀ a, f a d = f a d' ↔ d = d') {V : β → β → Prop} (hv : ∀ a, V (f a d) (f a d')) :
    Eff.Both (do let a ← x; return f a (orDoc (doc a) d))
      (do let a ← x'; return f a (orDoc (doc a) d')) s s'
      fun a b t t' => (a = b ↔ d = d') ∧ V a b ∧ Paired false true D t t' := by
  refine (hx D s s' h).bind fun a _ t t' ⟨ha, hdoc, ht⟩ => ?_
  rw [ha, hdoc]
  exact .pure ⟨hf a, hv a, ht⟩

theorem parseMember_item (className : Str) :
    Item false true Member.Like (parseMember pendingDoc className)
      (parseMember adjacentDoc className) := by
  intro C s s' h hstarts
  refine (takeDoc_paired h hstarts).bind fun d d' t t' ⟨D, hD, ht, _⟩ => ?_
  refine Eff.Both.mono (Q := fun a b t t' => (a = b ↔ d = d') ∧ a.Like b ∧
    Paired false true D t t') ?_ fun a b t t' ⟨hab, hlike, ht⟩ => ⟨D, by rw [hab, hD], hlike, ht⟩
  refine current_same ht.current ?_
  split
  · refine parseProperty_tail.documented (f := fun p e => Member.property { p with doc := e }) ht
      d d' (fun p => ?_) fun _ => trivial
    simp only [Member.property.injEq, Property.mk.injEq, true_and]
  split
  · refine parseConstructor_tail.documented
      (f := fun c e => Member.constructor { c with doc := e }) ht d d' (fun c => ?_)
      fun _ => trivial
    simp only [Member.constructor.injEq, Constructor.mk.injEq, true_and]
  split
  · refine parseMethod_tail.documented (f := fun m e => Member.method { m with doc := e }) ht d d'
      (fun m => ?_) fun _ => trivial
    simp only [Member.method.injEq, Method.mk.injEq, true_and, and_true]
  split
  · next hident =>
    have hadvance := advance_paired ht.toPaired rfl
    rw [hident] at hadvance
    exact hadvance.bind fun _ _ t t' ht => parseNamed_paired ht _ d d'
  split
  · exact parsePrimitiveProperty_paired ht.toPaired d d'
  · exact .of_error rfl rfl

theorem parseServiceMethod_item :
    Item false true (fun _ _ => True) (parseServiceMethod pendingDoc)
      (parseServiceMethod adjacentDoc) := by
  intro C s s' h hstarts
  refine (takeDoc_paired h hstarts).bind fun d d' t t' ⟨D, hD, ht, _⟩ => ?_
  have hmethod := parseMethod_tail.documented
    (f := fun (m : Method) e => ({ m with doc := e } : Method)) ht d d' (V := fun _ _ => True)
    (fun m => by simp only [Method.mk.injEq, true_and, and_true]) fun _ => trivial
  exact hmethod.mono fun a b t t' ⟨hab, _, ht⟩ => ⟨D, by rw [hab, hD], trivial, ht⟩

/-! ### Loops over items -/

/-- As an item, wherever the loop goes on. -/
abbrev Body (stop : TokenType → Bool) (V : α → α → Prop) (item : Parse Str α)
    (item' : Parse (List Str) α) : Prop :=
  ∀ C s s', Paired false true C s s' → stop s.current.type = false →
    Eff.Both item item' s s' fun a b t t' =>
      ∃ D, (C ↔ a = b ∧ D) ∧ V a b ∧ Paired false true D t t'

theorem untilStop_paired {stop : TokenType → Bool} {V : α → α → Prop} {item : Parse Str α}
    {item' : Parse (List Str) α} (hitem : Body stop V item item') (fuel : Nat)
    (h : Paired false true C s s') :
    Eff.Both (untilStop stop item fuel) (untilStop stop item' fuel) s s' fun as bs t t' =>
      ∃ D, (C ↔ as = bs ∧ D) ∧ List.Forall₂ V as bs ∧ Paired false true D t t' ∧
        stop t.current.type = true := by
  induction fuel generalizing C s s' with
  | zero => exact .of_error rfl rfl
  | succ fuel ih =>
    refine current_same h.current ?_
    split
    · next hstop => exact .pure ⟨C, (and_iff_right rfl).symm, .nil, h, hstop⟩
    · next hgo =>
      refine (hitem C s s' h (Bool.eq_false_iff.mpr hgo)).bind fun a b t t'
        ⟨D, hD, hv, ht⟩ => ?_
      refine (ih ht).bind fun as bs t t' ⟨E, hE, hvs, ht⟩ => .pure ⟨E, ?_, .cons hv hvs, ht⟩
      rw [hD, hE, List.cons.injEq, and_assoc]

theorem many_paired {stop : TokenType → Bool} {V : α → α → Prop} {item : Parse Str α}
    {item' : Parse (List Str) α} (hitem : Body stop V item item')
    (h : Paired false true C s s') :
    Eff.Both (many stop item) (many stop item') s s' fun as bs t t' =>
      ∃ D, (C ↔ as = bs ∧ D) ∧ List.Forall₂ V as bs ∧ Paired false true D t t' ∧
        stop t.current.type = true := by
  have hrun := untilStop_paired hitem (s.stream.length + 2) h
  unfold Eff.Both at hrun ⊢
  simp only [EStateM.run, many, h.stream] at hrun ⊢
  exact hrun

theorem starts_of_inBody (type : TokenType) (h : atBodyEnd type = false) :
    type.starts true = true := by
  revert h
  cases type <;> decide

theorem Item.body {V : α → α → Prop} {item : Parse Str α} {item' : Parse (List Str) α}
    (h : Item false true V item item') : Body atBodyEnd V item item' :=
  fun C s s' hs hstop => h C s s' hs (starts_of_inBody _ hstop)

/-! ### Definitions -/

/-- A definition whose documentation has been taken: its own items decide. -/
abbrev Def (doc : α → Str) (x : Parse Str α) (x' : Parse (List Str) α) : Prop :=
  ∀ C s s', Taken false C s s' →
    Eff.Both x x' s s' fun a b t t' =>
      ∃ D, (C ↔ a = b ∧ D) ∧ doc a = [] ∧ doc b = [] ∧ Paired false true D t t'

theorem parseStruct_def : Def StructDef.doc (parseStruct pendingDoc) (parseStruct adjacentDoc) := by
  intro C s s' h
  refine currentLoc_same h.current fun loc => ?_
  refine (takeDoc_taken h).bind fun d d' t t' ⟨hd, hd', ht⟩ => ?_
  rw [hd, hd']
  refine (Alike.expect ⟨rfl, rfl⟩ _ C t t' ht.toPaired).bind fun _ _ t t' ⟨_, ht⟩ => ?_
  refine (Alike.expectName _ C t t' ht).bind fun n _ t t' ⟨hn, ht⟩ => ?_
  rw [hn]
  refine (Alike.parseBase _ C t t' ht).bind fun base _ t t' ⟨hbase, ht⟩ => ?_
  rw [hbase]
  refine (expect_paired ht rfl).bind fun _ _ t t' ⟨_, ht⟩ => ?_
  refine (many_paired parseField_item.body ht).bind fun fs fs' t t' ⟨D, hD, _, ht, _⟩ => ?_
  refine (expect_paired ht rfl).bind fun _ _ t t' ⟨_, ht⟩ => .pure ⟨D, ?_, rfl, rfl, ht⟩
  rw [hD]
  simp only [StructDef.mk.injEq, true_and, and_true]

theorem parseError_def : Def ErrorDef.doc (parseError pendingDoc) (parseError adjacentDoc) := by
  intro C s s' h
  refine currentLoc_same h.current fun loc => ?_
  refine (takeDoc_taken h).bind fun d d' t t' ⟨hd, hd', ht⟩ => ?_
  rw [hd, hd']
  refine (Alike.expect ⟨rfl, rfl⟩ _ C t t' ht.toPaired).bind fun _ _ t t' ⟨_, ht⟩ => ?_
  refine (Alike.expectName _ C t t' ht).bind fun n _ t t' ⟨hn, ht⟩ => ?_
  rw [hn]
  refine (Alike.parseBase _ C t t' ht).bind fun base _ t t' ⟨hbase, ht⟩ => ?_
  rw [hbase]
  refine (expect_paired ht rfl).bind fun _ _ t t' ⟨_, ht⟩ => ?_
  refine (many_paired parseField_item.body ht).bind fun fs fs' t t' ⟨D, hD, _, ht, _⟩ => ?_
  refine (expect_paired ht rfl).bind fun _ _ t t' ⟨_, ht⟩ => .pure ⟨D, ?_, rfl, rfl, ht⟩
  rw [hD]
  simp only [ErrorDef.mk.injEq, true_and, and_true]

theorem members_eq_iff {ms ms' : List Member} (h : List.Forall₂ Member.Like ms ms') :
    (ms.filterMap Member.property? = ms'.filterMap Member.property? ∧
      ms.filterMap Member.constructor? = ms'.filterMap Member.constructor? ∧
        ms.filterMap Member.method? = ms'.filterMap Member.method?) ↔ ms = ms' := by
  induction h with
  | nil => exact iff_of_true ⟨rfl, rfl, rfl⟩ rfl
  | @cons m m' ms ms' hlike _ ih =>
    cases m <;> cases m' <;> first
      | exact hlike.elim
      | simp [List.filterMap_cons, Member.property?, Member.constructor?, Member.method?, ← ih,
          and_assoc, and_left_comm]

theorem parseClass_def : Def ClassDef.doc (parseClass pendingDoc) (parseClass adjacentDoc) := by
  intro C s s' h
  refine currentLoc_same h.current fun loc => ?_
  refine (takeDoc_taken h).bind fun d d' t t' ⟨hd, hd', ht⟩ => ?_
  rw [hd, hd']
  refine (Alike.expect ⟨rfl, rfl⟩ _ C t t' ht.toPaired).bind fun _ _ t t' ⟨_, ht⟩ => ?_
  refine (Alike.expectName _ C t t' ht).bind fun n _ t t' ⟨hn, ht⟩ => ?_
  rw [hn]
  refine (Alike.parseBase _ C t t' ht).bind fun base _ t t' ⟨hbase, ht⟩ => ?_
  rw [hbase]
  refine (expect_paired ht rfl).bind fun _ _ t t' ⟨_, ht⟩ => ?_
  refine (many_paired (parseMember_item n).body ht).bind fun ms ms' t t'
    ⟨D, hD, hlike, ht, _⟩ => ?_
  refine (expect_paired ht rfl).bind fun _ _ t t' ⟨_, ht⟩ => .pure ⟨D, ?_, rfl, rfl, ht⟩
  rw [hD, ← members_eq_iff hlike]
  simp only [ClassDef.mk.injEq, true_and, and_true]

theorem parseService_def :
    Def ServiceDef.doc (parseService pendingDoc) (parseService adjacentDoc) := by
  intro C s s' h
  refine currentLoc_same h.current fun loc => ?_
  refine (takeDoc_taken h).bind fun d d' t t' ⟨hd, hd', ht⟩ => ?_
  rw [hd, hd']
  refine (Alike.expect ⟨rfl, rfl⟩ _ C t t' ht.toPaired).bind fun _ _ t t' ⟨_, ht⟩ => ?_
  refine (Alike.expectName _ C t t' ht).bind fun n _ t t' ⟨hn, ht⟩ => ?_
  rw [hn]
  refine (expect_paired ht rfl).bind fun _ _ t t' ⟨_, ht⟩ => ?_
  refine (many_paired parseServiceMethod_item.body ht).bind fun ms ms' t t' ⟨D, hD, _, ht, _⟩ => ?_
  refine (expect_paired ht rfl).bind fun _ _ t t' ⟨_, ht⟩ => .pure ⟨D, ?_, rfl, rfl, ht⟩
  rw [hD]
  simp only [ServiceDef.mk.injEq, true_and, and_true]

/-! ### Enums -/

/-- At the end of the source there is no item. -/
theorem parseEnumItem_ended (h : Paired enum fresh C s s') (hend : s.current.type = .eof)
    (Q : EnumItem → EnumItem → Parser Str → Parser (List Str) → Prop) :
    Eff.Both (parseEnumItem pendingDoc) (parseEnumItem adjacentDoc) s s' Q := by
  refine currentLoc_same h.current fun loc => ?_
  refine Eff.Both.bind (Q := fun _ _ t t' => t.current = s.current ∧ t'.current = s.current)
    (.of_ok rfl rfl ⟨rfl, h.current⟩) fun _ _ t t' ⟨ht, ht'⟩ => ?_
  have hne : s.current.type ≠ .identifier := by
    rw [hend]
    exact nofun
  refine Eff.Both.bind (Q := fun _ _ _ _ => False) ?_ fun _ _ _ _ hno => hno.elim
  refine Eff.Both.bind (Q := fun _ _ _ _ => False) ?_ fun _ _ _ _ hno => hno.elim
  refine current_same (ht'.trans ht.symm) ?_
  rw [ht, if_neg hne, if_neg hne]
  exact .of_error rfl rfl

/-- Where the loop goes on there is an item, or both throw. -/
theorem parseEnumItem_body (h : Paired true true C s s') (hgo : s.current.type ≠ .rBrace) :
    Eff.Both (parseEnumItem pendingDoc) (parseEnumItem adjacentDoc) s s' fun a b t t' =>
      ∃ D, (C ↔ a = b ∧ D) ∧ Paired true false D t t' := by
  by_cases hend : s.current.type = .eof
  · exact parseEnumItem_ended h hend _
  · have hstarts : s.current.type.starts true = true := by simp [TokenType.starts, hgo, hend]
    exact (parseEnumItem_item C s s' h hstarts).mono fun a b t t' ⟨D, hD, _, ht⟩ => ⟨D, hD, ht⟩

theorem afterCommas_enum (fuel : Nat) (h : Paired true false C s s') :
    Eff.Both (afterCommas pendingDoc (· = .rBrace) (parseEnumItem pendingDoc) fuel)
      (afterCommas adjacentDoc (· = .rBrace) (parseEnumItem adjacentDoc) fuel) s s'
      fun as bs t t' => ∃ D fresh, (C ↔ as = bs ∧ D) ∧ Paired true fresh D t t' := by
  induction fuel generalizing C s s' with
  | zero => exact .of_error rfl rfl
  | succ fuel ih =>
    refine check_same h.current ?_
    by_cases hcomma : s.current.type = .comma
    · rw [if_pos (decide_eq_true hcomma), if_pos (decide_eq_true hcomma)]
      have hadvance := advance_paired h rfl
      rw [hcomma] at hadvance
      refine hadvance.bind fun _ _ t t' ht => current_same ht.current ?_
      by_cases hstop : t.current.type = .rBrace
      · rw [if_pos (decide_eq_true hstop), if_pos (decide_eq_true hstop)]
        exact .pure ⟨C, true, (and_iff_right rfl).symm, ht⟩
      · rw [if_neg (by simpa using hstop), if_neg (by simpa using hstop)]
        refine (parseEnumItem_body ht hstop).bind fun a b t t' ⟨D, hD, ht⟩ => ?_
        refine (ih ht).bind fun as bs t t' ⟨E, fresh, hE, ht⟩ => .pure ⟨E, fresh, ?_, ht⟩
        rw [hD, hE, List.cons.injEq, and_assoc]
    · rw [decide_eq_false hcomma, if_neg Bool.false_ne_true, if_neg Bool.false_ne_true]
      exact .pure ⟨C, false, (and_iff_right rfl).symm, h⟩

theorem parseEnumItems_paired (h : Paired true true C s s') :
    Eff.Both (parseEnumItems pendingDoc) (parseEnumItems adjacentDoc) s s' fun as bs t t' =>
      ∃ D fresh, (C ↔ as = bs ∧ D) ∧ Paired true fresh D t t' := by
  refine check_same h.current ?_
  by_cases hstop : s.current.type = .rBrace
  · rw [if_pos (decide_eq_true hstop), if_pos (decide_eq_true hstop)]
    exact .pure ⟨C, true, (and_iff_right rfl).symm, h⟩
  · rw [decide_eq_false hstop, if_neg Bool.false_ne_true, if_neg Bool.false_ne_true]
    refine (parseEnumItem_body h hstop).bind fun a b t t' ⟨D, hD, ht⟩ => ?_
    have hrun := afterCommas_enum (t.stream.length + 2) ht
    refine Eff.Both.bind (Q := fun as bs t t' =>
      ∃ E fresh, (D ↔ as = bs ∧ E) ∧ Paired true fresh E t t') ?_
      fun as bs t t' ⟨E, fresh, hE, ht⟩ => .pure ⟨E, fresh, ?_, ht⟩
    · unfold Eff.Both at hrun ⊢
      simp only [EStateM.run, ht.stream] at hrun ⊢
      exact hrun
    · rw [hD, hE, List.cons.injEq, and_assoc]

theorem parseEnum_def (isFlags : Bool) :
    Def EnumDef.doc (parseEnum pendingDoc isFlags) (parseEnum adjacentDoc isFlags) := by
  intro C s s' h
  refine currentLoc_same h.current fun loc => ?_
  refine (takeDoc_taken h).bind fun d d' t t' ⟨hd, hd', ht⟩ => ?_
  rw [hd, hd']
  have hkeyword : Eff.Both
      (expect pendingDoc (if isFlags then .kwFlags else .kwEnum)
        (if isFlags then lit "Expected 'flags'" else lit "Expected 'enum'"))
      (expect adjacentDoc (if isFlags then .kwFlags else .kwEnum)
        (if isFlags then lit "Expected 'flags'" else lit "Expected 'enum'")) t t'
      fun _ _ t t' => Paired true false C t t' := by
    cases isFlags <;> exact (expect_paired ht.toPaired rfl).mono fun _ _ _ _ h => h.2
  refine hkeyword.bind fun _ _ t t' ht => ?_
  refine (Alike.expectName _ C t t' ht).bind fun n _ t t' ⟨hn, ht⟩ => ?_
  rw [hn]
  refine (expect_paired ht rfl).bind fun _ _ t t' ⟨_, ht⟩ => ?_
  refine (parseEnumItems_paired ht).bind fun is is' t t' ⟨D, fresh, hD, ht⟩ => ?_
  have hstarts : TokenType.starts fresh .rBrace = false := by cases fresh <;> rfl
  refine (expect_paired ht hstarts).bind fun _ _ t t' ⟨_, ht⟩ => .pure ⟨D, ?_, rfl, rfl, ht⟩
  rw [hD]
  simp only [EnumDef.mk.injEq, true_and, and_true]

/-! ### The file -/

/-- Nothing is left to go wrong. -/
theorem Paired.at_end (h : Paired enum fresh C s s') (hend : s.current.type = .eof) : C := by
  obtain ⟨-, t, hstream, -⟩ := h.proper.current hend
  obtain ⟨stray, -, -, hc⟩ := h.pending
  rw [hc, Stream.Attached, if_neg h.plain, hstream, hend]
  refine ⟨fun hstarts => ?_, trivial⟩
  simp [TokenType.starts] at hstarts

/-- Definitions of one kind. -/
def Parse.Definition.Like : Definition → Definition → Prop
  | .structDef _, .structDef _ | .enumDef _, .enumDef _ | .classDef _, .classDef _
  | .serviceDef _, .serviceDef _ | .errorDef _, .errorDef _ => True
  | _, _ => False

theorem definitions_eq_iff {ds ds' : List Definition} (h : List.Forall₂ Definition.Like ds ds') :
    (ds.filterMap Definition.enumDef? = ds'.filterMap Definition.enumDef? ∧
      ds.filterMap Definition.structDef? = ds'.filterMap Definition.structDef? ∧
      ds.filterMap Definition.classDef? = ds'.filterMap Definition.classDef? ∧
      ds.filterMap Definition.serviceDef? = ds'.filterMap Definition.serviceDef? ∧
      ds.filterMap Definition.errorDef? = ds'.filterMap Definition.errorDef?) ↔ ds = ds' := by
  induction h with
  | nil => exact iff_of_true ⟨rfl, rfl, rfl, rfl, rfl⟩ rfl
  | @cons d d' ds ds' hlike _ ih =>
    cases d <;> cases d' <;> first
      | exact hlike.elim
      | simp [List.filterMap_cons, Definition.enumDef?, Definition.structDef?,
          Definition.classDef?, Definition.serviceDef?, Definition.errorDef?, ← ih, and_assoc,
          and_left_comm]

/-- A definition that takes its documentation and puts it in at the end. -/
theorem Def.documented {doc : α → Str} {x : Parse Str α} {x' : Parse (List Str) α}
    (hx : Def doc x x') {D : Prop} (h : Taken false D s s') {f : α → Str → Definition} (d d' : Str)
    (hf : ∀ a b, doc a = [] → doc b = [] → (f a d = f b d' ↔ a = b ∧ d = d'))
    (hlike : ∀ a b, (f a d).Like (f b d')) :
    Eff.Both (do let a ← x; return f a (orDoc (doc a) d))
      (do let a ← x'; return f a (orDoc (doc a) d')) s s'
      fun a b t t' => ∃ E, (d = d' ∧ D ↔ a = b ∧ E) ∧ a.Like b ∧ Paired false true E t t' := by
  refine (hx D s s' h).bind fun a b t t' ⟨E, hE, ha, hb, ht⟩ => ?_
  rw [ha, hb]
  refine .pure ⟨E, ?_, hlike a b, ht⟩
  show d = d' ∧ D ↔ f a d = f b d' ∧ E
  rw [hf a b ha hb, hE]
  tauto

theorem definitionAt_paired {token : Token} {D : Prop} (h : Taken false D s s') (d d' : Str) :
    Eff.Both (definitionAt pendingDoc d token) (definitionAt adjacentDoc d' token) s s'
      fun a b t t' => ∃ E, (d = d' ∧ D ↔ a = b ∧ E) ∧ a.Like b ∧ Paired false true E t t' := by
  unfold definitionAt
  split
  · refine parseStruct_def.documented (f := fun x e => .structDef { x with doc := e }) h d d'
      (fun a b ha hb => ?_) fun _ _ => trivial
    cases a; cases b; cases ha; cases hb
    simp [and_assoc]
  split
  · refine (parseEnum_def false).documented (f := fun x e => .enumDef { x with doc := e }) h d d'
      (fun a b ha hb => ?_) fun _ _ => trivial
    cases a; cases b; cases ha; cases hb
    simp [and_assoc]
  split
  · refine (parseEnum_def true).documented (f := fun x e => .enumDef { x with doc := e }) h d d'
      (fun a b ha hb => ?_) fun _ _ => trivial
    cases a; cases b; cases ha; cases hb
    simp [and_assoc]
  split
  · refine parseClass_def.documented (f := fun x e => .classDef { x with doc := e }) h d d'
      (fun a b ha hb => ?_) fun _ _ => trivial
    cases a; cases b; cases ha; cases hb
    simp [and_assoc]
  split
  · refine parseService_def.documented (f := fun x e => .serviceDef { x with doc := e }) h d d'
      (fun a b ha hb => ?_) fun _ _ => trivial
    cases a; cases b; cases ha; cases hb
    simp [and_assoc]
  split
  · refine parseError_def.documented (f := fun x e => .errorDef { x with doc := e }) h d d'
      (fun a b ha hb => ?_) fun _ _ => trivial
    cases a; cases b; cases ha; cases hb
    simp [and_assoc]
  · exact .of_error rfl rfl

/-- A closing brace starts no definition. -/
theorem definitionAt_rBrace {token : Token} (h : token.type = .rBrace) (d d' : Str)
    (Q : Definition → Definition → Parser Str → Parser (List Str) → Prop) :
    Eff.Both (definitionAt pendingDoc d token) (definitionAt adjacentDoc d' token) s s' Q := by
  unfold definitionAt
  rw [h]
  exact .of_error rfl rfl

theorem parseDefinition_body :
    Body (· = .eof) Definition.Like (parseDefinition pendingDoc) (parseDefinition adjacentDoc) := by
  intro C s s' h hgo
  have hend : s.current.type ≠ .eof := of_decide_eq_false hgo
  by_cases hbrace : s.current.type = .rBrace
  · refine Eff.Both.bind (Q := fun _ _ t t' => t.current = s.current ∧ t'.current = s.current)
      (.of_ok rfl rfl ⟨rfl, h.current⟩) fun d d' t t' ⟨ht, ht'⟩ => ?_
    refine current_same (ht'.trans ht.symm) (definitionAt_rBrace ?_ d d' _)
    rw [ht]
    exact hbrace
  · have hstarts : s.current.type.starts true = true := by simp [TokenType.starts, hbrace, hend]
    refine (takeDoc_paired h hstarts).bind fun d d' t t' ⟨D, hD, ht, _⟩ => ?_
    refine current_same ht.current ((definitionAt_paired ht d d').mono ?_)
    exact fun a b t t' ⟨E, hE, hlike, ht⟩ => ⟨E, hD.trans hE, hlike, ht⟩

theorem parseNamespace_paired (h : Paired false false C s s') :
    Eff.Both (parseNamespace pendingDoc) (parseNamespace adjacentDoc) s s' fun a b t t' =>
      b = a ∧ Paired false true C t t' := by
  refine (Alike.expect ⟨rfl, rfl⟩ _ C s s' h).bind fun _ _ t t' ⟨_, ht⟩ => ?_
  refine (Alike.expectName _ C t t' ht).bind fun n _ t t' ⟨hn, ht⟩ => ?_
  rw [hn]
  exact (expect_paired ht rfl).bind fun _ _ t t' ⟨_, ht⟩ => .pure ⟨rfl, ht⟩

theorem parse_paired (h : Paired false false C s s') :
    Eff.Both (parse pendingDoc) (parse adjacentDoc) s s' fun a b _ _ => C ↔ a = b := by
  refine (parseNamespace_paired h).bind fun n _ t t' ⟨hn, ht⟩ => ?_
  rw [hn]
  refine (many_paired parseDefinition_body ht).bind fun ds ds' t t' ⟨D, hD, hlike, ht, hend⟩ =>
    .pure ?_
  rw [hD, and_iff_left (ht.at_end (of_decide_eq_true hend)), ← definitions_eq_iff hlike]
  simp only [AST.mk.injEq, List.cons.injEq, Namespace.mk.injEq, true_and, and_true]

end

/-! ## Source texts -/

namespace Lexer

/-- No list of fixed texts has documentation in it. -/
theorem lookup_ne_docComment {texts : List (Str × TokenType)} {key : Str} {type : TokenType}
    (hall : ∀ x ∈ texts, x.2 ≠ .docComment) (h : texts.lookup key = some type) :
    type ≠ .docComment := by
  obtain ⟨l, l', rfl, -⟩ := List.lookup_eq_some_iff.mp h
  exact hall _ (List.mem_append_right _ List.mem_cons_self)

theorem lexInteger_type {lx lx' : Lexer} {t : Token} (h : lx.lexInteger = .ok (t, lx')) :
    t.type = .integer := by
  unfold lexInteger at h
  dsimp only at h
  split at h
  · cases hdigits : ((lx.rest.drop 2).takeWhile isXDigit).isEmpty with
    | true =>
      rw [hdigits] at h
      cases h
    | false =>
      rw [hdigits] at h
      cases hn : stoll 16 ((lx.rest.drop 2).takeWhile isXDigit) with
      | error e =>
        rw [hn] at h
        cases h
      | ok n =>
        rw [hn] at h
        cases h
        rfl
  · cases hn : stoll 10 (lx.rest.takeWhile isDigit) with
    | error e =>
      rw [hn] at h
      cases h
    | ok n =>
      rw [hn] at h
      cases h
      rfl

/-- Documentation ends with its line. -/
theorem lexeme_lines {lx lx' : Lexer} {t : Token} (h : lx.lexeme = .ok (t, lx'))
    (hdoc : t.type = .docComment) : ch '\n' ∉ t.value := by
  obtain ⟨rest, line, column⟩ := lx
  cases rest with
  | nil =>
    cases h
    cases hdoc
  | cons c cs =>
    rw [lexeme] at h
    dsimp only at h
    split at h
    · cases h
      intro hmem
      have hne := List.mem_takeWhile_imp hmem
      simp at hne
    split at h
    · next hlookup =>
      cases h
      exact absurd hdoc (lookup_ne_docComment (by decide) hlookup)
    split at h
    · cases h
      cases hdoc
    split at h
    · rw [lexInteger_type h] at hdoc
      cases hdoc
    split at h
    · cases h
      have hkeyword : (keywords.lookup ((c :: cs).takeWhile isWordChar)).getD .identifier =
          .docComment := hdoc
      cases hlookup : keywords.lookup ((c :: cs).takeWhile isWordChar) with
      | some type =>
        rw [hlookup] at hkeyword
        exact absurd hkeyword (lookup_ne_docComment (by decide) hlookup)
      | none =>
        rw [hlookup] at hkeyword
        cases hkeyword
    · cases h

theorem lines_stream (fuel : Nat) (lx : Lexer) : (lx.stream fuel).Lines := by
  induction fuel generalizing lx with
  | zero => trivial
  | succ fuel ih =>
    rw [Lexer.stream]
    split
    · trivial
    · next h =>
      split
      · trivial
      · exact ⟨lexeme_lines h, ih _⟩

end Lexer

/-- The text is accepted, and every `doc` of its tree is the lines between the token in front of
the item and its first token exactly if no other documentation comes before it. -/
theorem parseStream_adjacent_iff {source : Str} {ast : AST} {s : Option (Parser Str)}
    (h : parseStream pendingDoc (tokenize source) = .ok ast s) :
    (∃ s', parseStream adjacentDoc (tokenize source) = .ok ast s') ↔
      (tokenize source).Attached false false [] [] := by
  have hnext := @next_paired false false _ (tokenize source) [] []
    (Lexer.proper_stream _ _) (Lexer.lines_stream _ _) nofun Iff.rfl
  unfold parseStream Parser.create at h ⊢
  rcases hnext with ⟨e, he, -⟩ | ⟨p, p', hp, hp', hpaired⟩
  · rw [show gather [] ([] ++ []) = pendingDoc.empty from rfl] at he
    rw [he] at h
    cases h
  · rw [show gather [] ([] ++ []) = pendingDoc.empty from rfl] at hp
    rw [hp] at h
    rw [show adjacentDoc.empty = [] from rfl, hp']
    dsimp only at h ⊢
    split at h
    · next hrun =>
      cases h
      obtain ⟨ast', t', hrun', hiff⟩ := (parse_paired hpaired).ok hrun
      rw [hrun', hiff]
      constructor
      · rintro ⟨s', hs'⟩
        cases hs'
        rfl
      · rintro rfl
        exact ⟨_, rfl⟩
    · cases h

/-- A struct whose field is documented. -/
def fieldText : Str := lit "namespace n; struct S \x7b /// f\ni32 x; \x7d"

theorem tokenize_fieldText : tokenize fieldText =
    .token ⟨.kwNamespace, lit "namespace", 1, 1, 0⟩ (.token ⟨.identifier, lit "n", 1, 11, 0⟩
    (.token ⟨.semicolon, lit ";", 1, 12, 0⟩ (.token ⟨.kwStruct, lit "struct", 1, 14, 0⟩
    (.token ⟨.identifier, lit "S", 1, 21, 0⟩ (.token ⟨.lBrace, lit "\x7b", 1, 23, 0⟩
    (.token ⟨.docComment, lit "f", 1, 25, 0⟩ (.token ⟨.kwI32, lit "i32", 2, 1, 0⟩
    (.token ⟨.identifier, lit "x", 2, 5, 0⟩ (.token ⟨.semicolon, lit ";", 2, 6, 0⟩
    (.token ⟨.rBrace, lit "\x7d", 2, 8, 0⟩ (.eof ⟨.eof, [], 2, 9, 0⟩))))))))))) := rfl

theorem parseStream_adjacent_iff_field : ∃ ast s s',
    parseStream pendingDoc (tokenize fieldText) = .ok ast s ∧
      parseStream adjacentDoc (tokenize fieldText) = .ok ast s' := by
  have hrun : ∃ ast s, parseStream pendingDoc (tokenize fieldText) = .ok ast s := by
    rw [tokenize_fieldText]
    exact ⟨_, _, rfl⟩
  obtain ⟨ast, s, hs⟩ := hrun
  have hattached : (tokenize fieldText).Attached false false [] [] := by
    rw [tokenize_fieldText]
    decide
  obtain ⟨s', hs'⟩ := (parseStream_adjacent_iff hs).mpr hattached
  exact ⟨ast, s, s', hs, hs'⟩

/-- A comment in front of `namespace`. -/
def strayText : Str := lit "/// x\nnamespace n; struct S \x7b \x7d"

theorem tokenize_strayText : tokenize strayText =
    .token ⟨.docComment, lit "x", 1, 1, 0⟩ (.token ⟨.kwNamespace, lit "namespace", 2, 1, 0⟩
    (.token ⟨.identifier, lit "n", 2, 11, 0⟩ (.token ⟨.semicolon, lit ";", 2, 12, 0⟩
    (.token ⟨.kwStruct, lit "struct", 2, 14, 0⟩ (.token ⟨.identifier, lit "S", 2, 21, 0⟩
    (.token ⟨.lBrace, lit "\x7b", 2, 23, 0⟩ (.token ⟨.rBrace, lit "\x7d", 2, 25, 0⟩
    (.eof ⟨.eof, [], 2, 26, 0⟩)))))))) := rfl

/-- It becomes the documentation of the struct. -/
theorem stray_attached : ∃ ast s, parseStream pendingDoc (tokenize strayText) = .ok ast s ∧
    ¬ ∃ s', parseStream adjacentDoc (tokenize strayText) = .ok ast s' := by
  have hrun : ∃ s, parseStream pendingDoc (tokenize strayText) =
      .ok ⟨[{ name := lit "n", structs := [⟨lit "S", none, [], ⟨2, 14⟩, lit "x"⟩] }]⟩ s := by
    rw [tokenize_strayText]
    exact ⟨_, rfl⟩
  have hrun' : ∃ s, parseStream adjacentDoc (tokenize strayText) =
      .ok ⟨[{ name := lit "n", structs := [⟨lit "S", none, [], ⟨2, 14⟩, []⟩] }]⟩ s := by
    rw [tokenize_strayText]
    exact ⟨_, rfl⟩
  obtain ⟨s, hs⟩ := hrun
  obtain ⟨t, ht⟩ := hrun'
  refine ⟨_, s, hs, ?_⟩
  rintro ⟨s', h⟩
  cases ht.symm.trans h

end Song.Compiler
