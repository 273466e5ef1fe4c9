import Song.Compiler.CppText.Types
import Song.Compiler.DocText
import Song.Compiler.PyText
import Song.Compiler.Scaffold
import Song.Lib.Mealy

/-!
# Generated text without its comments

What the first phases of a C++ compiler make of a text: lines that end in a backslash are joined
to the next one, and comments give way to a blank. And what is left of a Python text without the
strings in three quotation marks. Of both only the lines that are not blank count: what is left
of a comment is a blank line. The C++ texts have no raw strings.
-/

namespace Song.Compiler

open ScaffoldGenerator (isSpace)

/-- The lines that are not blank. -/
def codeLines (s : Str) : List Str := (s.splitOn 10).filter fun l => !l.all isSpace

theorem spaces {s : String} (h : (lit s).all (· == 32) = true) : ∀ b ∈ lit s, b = 32 :=
  fun b hb => beq_iff_eq.mp (List.all_eq_true.mp h b hb)

section
variable {s s' : Str}

theorem codeLines_newline : codeLines (s ++ 10 :: s') = codeLines s ++ codeLines s' := by
  rw [codeLines, List.splitOn_append_cons_self, List.filter_append]
  rfl

theorem mem_of_mem_splitOn {l : Str} {b : UInt8} (hl : l ∈ s.splitOn 10) (hb : b ∈ l) : b ∈ s := by
  induction s generalizing l with
  | nil =>
    rw [List.splitOn_nil, List.mem_singleton] at hl
    rwa [hl] at hb
  | cons c s ih =>
    rw [List.splitOn_cons_eq_if_modifyHead] at hl
    split at hl
    · rcases List.mem_cons.mp hl with rfl | hl
      · exact absurd hb List.not_mem_nil
      · exact List.mem_cons_of_mem c (ih hl hb)
    · cases hsp : s.splitOn 10 with
      | nil => exact absurd hsp (List.splitOn_ne_nil _ _)
      | cons l' ls =>
        rw [hsp, List.modifyHead_cons] at hl
        rcases List.mem_cons.mp hl with rfl | hl
        · rcases List.mem_cons.mp hb with rfl | hb
          · exact List.mem_cons_self
          · exact List.mem_cons_of_mem c (ih (hsp ▸ List.mem_cons_self) hb)
        · exact List.mem_cons_of_mem c (ih (hsp ▸ List.mem_cons_of_mem l' hl) hb)

theorem codeLines_blank (h : s.all isSpace = true) : codeLines s = [] := by
  refine List.filter_eq_nil_iff.mpr fun l hl => ?_
  have hblank : l.all isSpace = true :=
    List.all_eq_true.mpr fun b hb => List.all_eq_true.mp h b (mem_of_mem_splitOn hl hb)
  rw [hblank]
  exact Bool.false_ne_true

/-- A character that is not blank is in a line. -/
theorem codeLines_ne_nil {b : UInt8} (hb : b ∈ s) (h : isSpace b = false) : codeLines s ≠ [] := by
  have hne : b ≠ 10 := by
    rintro rfl
    cases h
  have hline : ∃ l ∈ s.splitOn 10, b ∈ l := by
    induction s with
    | nil => exact absurd hb List.not_mem_nil
    | cons c s ih =>
      rw [List.splitOn_cons_eq_if_modifyHead]
      rcases List.mem_cons.mp hb with rfl | hb
      · rw [if_neg (by simpa using hne)]
        cases hsp : s.splitOn 10 with
        | nil => exact absurd hsp (List.splitOn_ne_nil _ _)
        | cons l ls => exact ⟨_, List.mem_cons_self, List.mem_cons_self⟩
      · obtain ⟨l, hl, hbl⟩ := ih hb
        split
        · exact ⟨l, List.mem_cons_of_mem _ hl, hbl⟩
        · cases hsp : s.splitOn 10 with
          | nil => exact absurd hsp (List.splitOn_ne_nil _ _)
          | cons l' ls =>
            rw [hsp] at hl
            rcases List.mem_cons.mp hl with rfl | hl
            · exact ⟨_, List.mem_cons_self, List.mem_cons_of_mem c hbl⟩
            · exact ⟨l, List.mem_cons_of_mem _ hl, hbl⟩
  obtain ⟨l, hl, hbl⟩ := hline
  refine List.ne_nil_of_mem (a := l) (List.mem_filter.mpr ⟨hl, ?_⟩)
  rw [Bool.not_eq_true', List.all_eq_false]
  exact ⟨b, hbl, by simpa using h⟩

end

/-! ## C++ -/

namespace CppText

/-- A backslash is held until it is known whether the line ends behind it. -/
def splicer : Mealy Bool UInt8 UInt8 where
  next _ b := b == 92
  write held b :=
    if b = 92 then (if held then [92] else [])
    else if held then (if b = 10 then [] else [92, b])
    else [b]

def splice (s : Str) : Str := splicer.out false s ++ if splicer.final false s then [92] else []

inductive Phase where
  | code
  /-- Behind a `/` that is no comment yet. -/
  | slash
  | line
  | block
  /-- Behind a `*` in a comment. -/
  | star
  | quoted (q : UInt8)
  | escaped (q : UInt8)
  deriving DecidableEq

def Phase.next : Phase → UInt8 → Phase
  | code, b => if b = 47 then slash else if b = 34 ∨ b = 39 then quoted b else code
  | slash, b =>
    if b = 47 then line else if b = 42 then block else if b = 34 ∨ b = 39 then quoted b else code
  | line, b => if b = 10 then code else line
  | block, b => if b = 42 then star else block
  | star, b => if b = 47 then code else if b = 42 then star else block
  | quoted q, b => if b = q ∨ b = 10 then code else if b = 92 then escaped q else quoted q
  | escaped q, _ => quoted q

def Phase.write : Phase → UInt8 → Str
  | code, b => if b = 47 then [] else [b]
  | slash, b => if b = 47 ∨ b = 42 then [32] else [47, b]
  | line, b => if b = 10 then [10] else []
  | block, _ | star, _ => []
  | quoted _, b | escaped _, b => [b]

def uncommenter : Mealy Phase UInt8 UInt8 := ⟨Phase.next, Phase.write⟩

def uncomment (s : Str) : Str :=
  uncommenter.out .code s ++ if uncommenter.final .code s = .slash then [47] else []

/-- What a compiler reads of a text. -/
def program (s : Str) : List Str := codeLines (uncomment (splice s))

/-! ### One line after the other -/

section
variable {s : Str}

/-- What splicing leaves of a line. -/
def cut (s : Str) : Str := if s.getLast? = some 92 then s.dropLast else s ++ [10]

theorem cut_cons {b : UInt8} (h : b ≠ 92) : cut (b :: s) = b :: cut s := by
  cases s with
  | nil =>
    have hb : [b].getLast? ≠ some 92 := fun he => h (Option.some.inj he)
    rw [cut, if_neg hb]
    rfl
  | cons c s =>
    rw [cut, cut, List.getLast?_cons_cons]
    split
    · rfl
    · rfl

theorem out_splicer_held {b : UInt8} (h : b ≠ 10) :
    splicer.out true (b :: s) = 92 :: splicer.out false (b :: s) := by
  rw [Mealy.out_cons, Mealy.out_cons]
  by_cases hb : b = 92
  · subst hb
    rfl
  · simp only [splicer, hb, h, ↓reduceIte, List.cons_append, List.nil_append, Bool.false_eq_true]

/-- A line is spliced by itself. -/
theorem out_splicer_line (h : 10 ∉ s) : splicer.out false (s ++ [10]) = cut s := by
  induction s with
  | nil => rfl
  | cons b s ih =>
    obtain ⟨hb, hs⟩ := not_or.mp (mt List.mem_cons.mpr h)
    rw [List.cons_append, Mealy.out_cons]
    by_cases hb' : b = 92
    · subst hb'
      show splicer.out true (s ++ [10]) = _
      cases s with
      | nil => rfl
      | cons c s =>
        have hc : c ≠ 10 := fun he => hs (he ▸ List.mem_cons_self)
        rw [List.cons_append, out_splicer_held hc, ← List.cons_append, ih hs, cut, cut,
          List.getLast?_cons_cons]
        split
        · rfl
        · rfl
    · rw [cut_cons hb', ← ih hs]
      have hnext : splicer.next false b = false := beq_eq_false_iff_ne.mpr hb'
      have hwrite : splicer.write false b = [b] := if_neg hb'
      rw [hnext, hwrite]
      rfl

theorem splice_lines {ls : List Str} (h : ∀ l ∈ ls, 10 ∉ l) :
    splice (ls.flatMap endLine) = ls.flatMap cut := by
  have hfinal : splicer.final false (ls.flatMap endLine) = false := by
    induction ls with
    | nil => rfl
    | cons l ls ih =>
      have hl : splicer.final false (endLine l) = false := by
        rw [endLine, Mealy.final_append]
        rfl
      rw [List.flatMap_cons, Mealy.final_append, hl]
      exact ih (List.forall_mem_cons.mp h).2
  rw [splice, hfinal, if_neg Bool.false_ne_true, List.append_nil]
  clear hfinal
  induction ls with
  | nil => rfl
  | cons l ls ih =>
    obtain ⟨hl, hls⟩ := List.forall_mem_cons.mp h
    have hfin : splicer.final false (endLine l) = false := by
      rw [endLine, Mealy.final_append]
      rfl
    rw [List.flatMap_cons, Mealy.out_append, hfin, ih hls, List.flatMap_cons]
    exact congrArg (· ++ _) (out_splicer_line hl)

end

/-! ### Comment lines -/

/-- A line that is a comment. -/
def IsLineComment (d : Str) : Prop :=
  ∃ indent rest, d = indent ++ 47 :: 47 :: rest ∧ (∀ b ∈ indent, b = 32) ∧ 10 ∉ rest

section
variable {d s : Str} {ds : List Str}

theorem line_cut (h : 10 ∉ s) :
    (s.getLast? = some 92 → uncommenter.final .line (cut s) = .line ∧
        uncommenter.out .line (cut s) = []) ∧
      (s.getLast? ≠ some 92 → uncommenter.final .line (cut s) = .code ∧
        uncommenter.out .line (cut s) = [10]) := by
  have hstays : ∀ w : Str, 10 ∉ w →
      uncommenter.final .line w = .line ∧ uncommenter.out .line w = [] := by
    intro w hw
    have hne : ∀ b ∈ w, b ≠ 10 := fun b hb he => hw (he ▸ hb)
    have hnext : ∀ b ∈ w, uncommenter.next .line b = .line := fun b hb => if_neg (hne b hb)
    refine ⟨Mealy.final_of_stays hnext, ?_⟩
    rw [Mealy.out_of_stays hnext]
    exact List.flatMap_eq_nil_iff.mpr fun b hb => if_neg (hne b hb)
  constructor
  · intro hl
    rw [cut, if_pos hl]
    exact hstays _ fun hm => h ((List.dropLast_sublist s).subset hm)
  · intro hl
    rw [cut, if_neg hl, Mealy.final_append, Mealy.out_append, (hstays s h).1, (hstays s h).2]
    exact ⟨rfl, rfl⟩

/-- What follows a comment line: the comment goes on, or a line begins. -/
theorem comment_cut (hd : IsLineComment d) {p : Phase} (hp : p = .code ∨ p = .line) :
    (uncommenter.out p (cut d)).all isSpace = true ∧
      (d.getLast? = some 92 → uncommenter.final p (cut d) = .line) ∧
      (d.getLast? ≠ some 92 → uncommenter.final p (cut d) = .code ∧
        ∃ x, uncommenter.out p (cut d) = x ++ [10]) := by
  obtain ⟨indent, rest, rfl, hind, hrest⟩ := hd
  have hblank : ∀ {w : Str}, 10 ∉ w → (uncommenter.out .line (cut w)).all isSpace = true := by
    intro w hw
    by_cases hl : w.getLast? = some 92
    · rw [((line_cut hw).1 hl).2]
      rfl
    · rw [((line_cut hw).2 hl).2]
      rfl
  rcases hp with rfl | rfl
  · -- the two slashes begin the comment
    have hcut : cut (indent ++ 47 :: 47 :: rest) = indent ++ 47 :: 47 :: cut rest := by
      induction indent with
      | nil => rw [List.nil_append, cut_cons (by decide), cut_cons (by decide), List.nil_append]
      | cons b indent ih =>
        obtain ⟨hb, hind⟩ := List.forall_mem_cons.mp hind
        rw [List.cons_append, cut_cons (by rw [hb]; decide), ih hind, List.cons_append]
    have hlast : (indent ++ 47 :: 47 :: rest).getLast? = some 92 ↔ rest.getLast? = some 92 := by
      rw [List.getLast?_append_of_ne_nil _ (List.cons_ne_nil _ _), List.getLast?_cons_cons]
      cases rest with
      | nil => exact iff_of_false (by decide) (by decide)
      | cons c rest => rw [List.getLast?_cons_cons]
    have hnext : ∀ b ∈ indent, uncommenter.next .code b = .code := by
      intro b hb
      rw [hind b hb]
      rfl
    have hwrite : uncommenter.out .code indent = indent := by
      rw [Mealy.out_of_stays hnext]
      have hself : ∀ b ∈ indent, uncommenter.write .code b = [b] := by
        intro b hb
        rw [hind b hb]
        rfl
      rw [List.flatMap_congr hself, List.flatMap_singleton']
    have hfinal : uncommenter.final .code (indent ++ 47 :: 47 :: cut rest) =
        uncommenter.final .line (cut rest) := by
      rw [Mealy.final_append, Mealy.final_of_stays hnext]
      rfl
    have hout : uncommenter.out .code (indent ++ 47 :: 47 :: cut rest) =
        indent ++ 32 :: uncommenter.out .line (cut rest) := by
      rw [Mealy.out_append, Mealy.final_of_stays hnext, hwrite]
      rfl
    rw [hcut, hfinal, hout, ne_eq, hlast]
    refine ⟨?_, fun hl => ((line_cut hrest).1 hl).1, fun hl => ⟨((line_cut hrest).2 hl).1, ?_⟩⟩
    · rw [List.all_append, List.all_cons, hblank hrest]
      have hi : indent.all isSpace = true := List.all_eq_true.mpr fun b hb => by
        rw [hind b hb]
        rfl
      rw [hi]
      rfl
    · rw [((line_cut hrest).2 hl).2]
      exact ⟨indent ++ [32], by simp⟩
  · have hd : 10 ∉ indent ++ 47 :: 47 :: rest := by
      intro hm
      rcases List.mem_append.mp hm with hm | hm
      · exact absurd (hind 10 hm) (by decide)
      · rcases List.mem_cons.mp hm with hm | hm
        · exact absurd hm (by decide)
        · rcases List.mem_cons.mp hm with hm | hm
          · exact absurd hm (by decide)
          · exact hrest hm
    refine ⟨hblank hd, fun hl => ((line_cut hd).1 hl).1, fun hl => ⟨((line_cut hd).2 hl).1, ?_⟩⟩
    rw [((line_cut hd).2 hl).2]
    exact ⟨[], rfl⟩

/-- Of several comment lines the last one decides. -/
theorem comments_cut (hds : ∀ d ∈ ds, IsLineComment d) {l : Str} (hl : IsLineComment l) :
    (uncommenter.out .code ((ds ++ [l]).flatMap cut)).all isSpace = true ∧
      (l.getLast? = some 92 → uncommenter.final .code ((ds ++ [l]).flatMap cut) = .line) ∧
      (l.getLast? ≠ some 92 → uncommenter.final .code ((ds ++ [l]).flatMap cut) = .code ∧
        ∃ x, uncommenter.out .code ((ds ++ [l]).flatMap cut) = x ++ [10]) := by
  have hfront : (uncommenter.out .code (ds.flatMap cut)).all isSpace = true ∧
      (uncommenter.final .code (ds.flatMap cut) = .code ∨
        uncommenter.final .code (ds.flatMap cut) = .line) := by
    induction ds using List.reverseRecOn with
    | nil => exact ⟨rfl, .inl rfl⟩
    | append_singleton ds d ih =>
      obtain ⟨hds, hd⟩ := List.forall_mem_append.mp hds
      obtain ⟨hall, hp⟩ := ih hds
      obtain ⟨hall', h92, hne⟩ := comment_cut (List.forall_mem_singleton.mp hd) hp
      rw [List.flatMap_append, List.flatMap_singleton, Mealy.out_append, Mealy.final_append,
        List.all_append, hall, hall']
      refine ⟨rfl, ?_⟩
      by_cases hd92 : d.getLast? = some 92
      · exact .inr (h92 hd92)
      · exact .inl (hne hd92).1
  obtain ⟨hall, hp⟩ := hfront
  obtain ⟨hall', h92, hne⟩ := comment_cut hl hp
  rw [List.flatMap_append, List.flatMap_singleton, Mealy.out_append, Mealy.final_append,
    List.all_append, hall, hall']
  refine ⟨rfl, h92, fun h => ⟨(hne h).1, ?_⟩⟩
  obtain ⟨x, hx⟩ := (hne h).2
  rw [hx]
  exact ⟨_, (List.append_assoc _ _ _).symm⟩

end

/-- The comment in front of a line. -/
theorem splitOn_last (doc : Str) : ∃ ls l pre, doc.splitOn 10 = ls ++ [l] ∧ doc = pre ++ l ∧
    ((ls = [] ∧ pre = []) ∨ (ls ≠ [] ∧ ∃ x, pre = x ++ [10])) := by
  induction doc with
  | nil => exact ⟨[], [], [], rfl, rfl, .inl ⟨rfl, rfl⟩⟩
  | cons c doc ih =>
    obtain ⟨ls, l, pre, hsp, hdoc, hpre⟩ := ih
    rw [List.splitOn_cons_eq_if_modifyHead, hsp]
    by_cases hc : (c == 10) = true
    · obtain rfl := eq_of_beq hc
      rw [if_pos hc]
      refine ⟨[] :: ls, l, 10 :: pre, rfl, congrArg _ hdoc, .inr ⟨List.cons_ne_nil _ _, ?_⟩⟩
      rcases hpre with ⟨-, rfl⟩ | ⟨-, x, rfl⟩
      · exact ⟨[], rfl⟩
      · exact ⟨10 :: x, rfl⟩
    · rw [if_neg hc]
      rcases hpre with ⟨rfl, rfl⟩ | ⟨hls, x, rfl⟩
      · exact ⟨[], c :: l, [], rfl, congrArg _ hdoc, .inl ⟨rfl, rfl⟩⟩
      · obtain ⟨l', ls, rfl⟩ := List.exists_cons_of_ne_nil hls
        exact ⟨(c :: l') :: ls, l, c :: x ++ [10], rfl, congrArg _ hdoc,
          .inr ⟨List.cons_ne_nil _ _, c :: x, rfl⟩⟩

theorem docLines_append (indent suffix : Str) (ls : List Str) (l : Str) :
    docLines indent suffix (ls ++ [l]) =
      ls.map (fun l => indent ++ lit "/// " ++ l) ++ [indent ++ lit "/// " ++ l ++ suffix] := by
  induction ls with
  | nil => rfl
  | cons l' ls ih =>
    rw [List.map_cons, List.cons_append, List.cons_append, ← ih]
    cases ls with
    | nil => rfl
    | cons => rfl

/-- The comment in front of a line, of which the last line ends in a backslash if the
documentation does and nothing stands behind it. -/
theorem emitDoc_lines {doc indent suffix : Str} (hdoc : doc ≠ []) (hind : ∀ b ∈ indent, b = 32)
    (hsuffix : suffix.getLast? ≠ some 92) (hnl : 10 ∉ suffix) :
    ∃ ds d, emitDoc doc indent suffix = ds ++ [d] ∧ (∀ d ∈ ds, IsLineComment d) ∧
      IsLineComment d ∧ (d.getLast? = some 92 ↔ doc.getLast? = some 92 ∧ suffix = []) := by
  obtain ⟨ls, l, pre, hsp, rfl, hpre⟩ := splitOn_last doc
  have hline : ∀ x ∈ ls ++ [l], 10 ∉ x := fun x hx => newline_not_mem_splitOn (hsp ▸ hx)
  obtain ⟨hls, hl⟩ := List.forall_mem_append.mp hline
  have hcomment : ∀ {x : Str}, 10 ∉ x → IsLineComment (indent ++ lit "/// " ++ x) := fun {x} hx =>
    ⟨indent, 47 :: 32 :: x, by simp [lit], hind, fun hm => by simp [hx] at hm⟩
  refine ⟨_, _, by rw [emitDoc, if_neg hdoc, hsp, docLines_append], ?_, ?_, ?_⟩
  · exact List.forall_mem_map.mpr fun x hx => hcomment (hls x hx)
  · rw [List.append_assoc]
    refine hcomment fun hm => (List.mem_append.mp hm).elim ?_ hnl
    exact hl l (List.mem_singleton_self l)
  · by_cases hs : suffix = []
    · rw [hs, List.append_nil]
      cases l with
      | nil =>
        rw [List.append_nil, List.append_nil, List.getLast?_append_of_ne_nil _ (by decide)]
        refine iff_of_false (by decide) fun h => ?_
        rcases hpre with ⟨-, rfl⟩ | ⟨-, x, rfl⟩
        · exact absurd h.1 (by decide)
        · rw [List.getLast?_concat] at h
          exact absurd h.1 (by decide)
      | cons c l =>
        rw [List.getLast?_append_of_ne_nil _ (List.cons_ne_nil _ _),
          List.getLast?_append_of_ne_nil _ (List.cons_ne_nil _ _)]
        exact (and_iff_left rfl).symm
    · rw [List.getLast?_append_of_ne_nil _ hs]
      exact iff_of_false hsuffix fun h => hs h.2

/-! ### Lines of code -/

def tameFrom : Bool → Str → Bool
  | _, [] => true
  | first, b :: s => b != 10 && b != 92 && !(first && b == 42) && tameFrom (b == 47) s

/-- Nothing that goes on into the next line: no newline, no backslash, and no `*` in front or
behind a slash. -/
def tame (s : Str) : Bool := tameFrom true s

/-- What a compiler reads of a line that begins no string or comment that goes on. -/
def codeOf (s : Str) : List Str := codeLines (uncommenter.out .code (s ++ [10]))

section
variable {s s' : Str} {b : UInt8} {first : Bool}

theorem tameFrom_cons : tameFrom first (b :: s) = true ↔
    b ≠ 10 ∧ b ≠ 92 ∧ ¬ (first = true ∧ b = 42) ∧ tameFrom (b == 47) s = true := by
  simp only [tameFrom, Bool.and_eq_true, bne_iff_ne, Bool.not_eq_true', Bool.and_eq_false_iff,
    beq_eq_false_iff_ne, not_and_or, Bool.not_eq_true, and_assoc, ne_eq]

theorem tameFrom_of_tame (h : tame s = true) : tameFrom first s = true := by
  cases s with
  | nil => rfl
  | cons b s =>
    obtain ⟨h10, h92, h42, hs⟩ := tameFrom_cons.mp h
    exact tameFrom_cons.mpr ⟨h10, h92, fun hb => h42 ⟨rfl, hb.2⟩, hs⟩

theorem tame_append (h : tame s = true) (h' : tame s' = true) : tame (s ++ s') = true := by
  have hfrom : ∀ first, tameFrom first s = true → tameFrom first (s ++ s') = true := by
    clear h
    induction s with
    | nil => exact fun _ _ => tameFrom_of_tame h'
    | cons b s ih =>
      intro first h
      obtain ⟨h10, h92, h42, hs⟩ := tameFrom_cons.mp h
      exact tameFrom_cons.mpr ⟨h10, h92, h42, ih _ hs⟩
  exact hfrom true h

theorem ne_of_tame (h : tameFrom first s = true) (hb : b ∈ s) : b ≠ 10 ∧ b ≠ 92 := by
  induction s generalizing first with
  | nil => exact absurd hb List.not_mem_nil
  | cons c s ih =>
    obtain ⟨h10, h92, -, hs⟩ := tameFrom_cons.mp h
    rcases List.mem_cons.mp hb with rfl | hb
    · exact ⟨h10, h92⟩
    · exact ih hs hb

theorem newline_of_tame (h : tame s = true) : 10 ∉ s := fun hm => (ne_of_tame h hm).1 rfl

theorem getLast_of_tame (h : tame s = true) : s.getLast? ≠ some 92 := fun hl =>
  (ne_of_tame h (List.mem_of_getLast? hl)).2 rfl

theorem cut_of_tame (h : tame s = true) : cut s = s ++ [10] := if_neg (getLast_of_tame h)

/-- Where a tame line can end. -/
def Phase.Open : Phase → Prop
  | code | slash | line | quoted _ => True
  | block | star | escaped _ => False

theorem open_of_tame {p : Phase} (hp : p.Open) (hslash : p = .slash → first = true)
    (h : tameFrom first s = true) : (uncommenter.final p s).Open := by
  induction s generalizing p first with
  | nil => exact hp
  | cons b s ih =>
    obtain ⟨h10, h92, h42, hs⟩ := tameFrom_cons.mp h
    rw [Mealy.final_cons]
    have hnext : ∀ {p' : Phase}, uncommenter.next p b = p' → p'.Open → p' ≠ .slash →
        (uncommenter.final (uncommenter.next p b) s).Open := by
      intro p' he hp' hne
      rw [he]
      exact ih hp' (fun heq => absurd heq hne) hs
    cases p with
    | code =>
      by_cases h47 : b = 47
      · -- the slash is behind the next character
        have he : uncommenter.next .code b = .slash := if_pos h47
        rw [he]
        exact ih trivial (fun _ => beq_iff_eq.mpr h47) hs
      · by_cases hq : b = 34 ∨ b = 39
        · exact hnext ((if_neg h47).trans (if_pos hq)) trivial (by simp)
        · exact hnext ((if_neg h47).trans (if_neg hq)) trivial (by simp)
    | slash =>
      have hstar : b ≠ 42 := fun hb => h42 ⟨hslash rfl, hb⟩
      by_cases h47 : b = 47
      · exact hnext (if_pos h47) trivial (by simp)
      · by_cases hq : b = 34 ∨ b = 39
        · exact hnext ((if_neg h47).trans ((if_neg hstar).trans (if_pos hq))) trivial (by simp)
        · exact hnext ((if_neg h47).trans ((if_neg hstar).trans (if_neg hq))) trivial (by simp)
    | line => exact hnext (if_neg h10) trivial (by simp)
    | quoted q =>
      by_cases hq : b = q ∨ b = 10
      · exact hnext (if_pos hq) trivial (by simp)
      · exact hnext ((if_neg hq).trans (if_neg h92)) trivial (by simp)
    | block => exact hp.elim
    | star => exact hp.elim
    | escaped q => exact hp.elim

/-- At the end of a tame line the next line begins. -/
theorem tame_line (h : tame s = true) : uncommenter.final .code (s ++ [10]) = .code ∧
    ∃ x, uncommenter.out .code (s ++ [10]) = x ++ [10] := by
  have hopen : (uncommenter.final .code s).Open := open_of_tame trivial (by simp) h
  rw [Mealy.final_append, Mealy.out_append]
  cases hp : uncommenter.final .code s with
  | code => exact ⟨rfl, _, rfl⟩
  | slash =>
    exact ⟨rfl, uncommenter.out .code s ++ [47], by simp [uncommenter, Mealy.out, Phase.write]⟩
  | line => exact ⟨rfl, _, rfl⟩
  | quoted q => exact ⟨by simp [uncommenter, Mealy.final, Phase.next], _, rfl⟩
  | block =>
    rw [hp] at hopen
    exact hopen.elim
  | star =>
    rw [hp] at hopen
    exact hopen.elim
  | escaped q =>
    rw [hp] at hopen
    exact hopen.elim

end

/-! ### The text of a file -/

/-- A comment that ends with its lines, and code that ends with its line. -/
structure Line.Closed (l : Line) : Prop where
  indent : ∀ b ∈ l.indent, b = 32
  suffix : l.suffix.getLast? ≠ some 92
  suffix_line : 10 ∉ l.suffix
  code : tame l.code.str = true

/-- The comment in front of the line ends in a backslash. -/
def Line.Swallowed (l : Line) : Prop := l.doc.getLast? = some 92 ∧ l.suffix = []

instance (l : Line) : Decidable l.Swallowed := inferInstanceAs (Decidable (_ ∧ _))

/-- What a compiler reads of a line behind its comment. -/
def Line.program (l : Line) : List Str := if l.Swallowed then [] else codeOf l.code.str

theorem out_line {l : Line} (h : l.Closed) :
    uncommenter.final .code (l.strs.flatMap cut) = .code ∧
      ∀ s, codeLines (uncommenter.out .code (l.strs.flatMap cut) ++ s) = l.program ++ codeLines s := by
  obtain ⟨hfinal, x, hx⟩ := tame_line h.code
  have hcode : ∀ s, codeLines (x ++ [10] ++ s) = codeOf l.code.str ++ codeLines s := by
    intro s
    rw [codeOf, hx, codeLines_newline, List.append_assoc]
    have hnil : codeLines [] = [] := rfl
    rw [hnil, List.append_nil]
    exact codeLines_newline
  have hstrs : l.strs.flatMap cut =
      (emitDoc l.doc l.indent l.suffix).flatMap cut ++ (l.code.str ++ [10]) := by
    rw [Line.strs, List.flatMap_append, List.flatMap_singleton, cut_of_tame h.code]
  rw [hstrs, Mealy.final_append, Mealy.out_append]
  by_cases hdoc : l.doc = []
  · have hnot : ¬ l.Swallowed := fun hs => by
      have := hs.1
      rw [hdoc] at this
      cases this
    rw [emitDoc, if_pos hdoc, Line.program, if_neg hnot]
    refine ⟨hfinal, fun s => ?_⟩
    show codeLines (uncommenter.out .code (l.code.str ++ [10]) ++ s) = _
    rw [hx, hcode]
  · obtain ⟨ds, d, hds, hall, hd, hlast⟩ :=
      emitDoc_lines hdoc h.indent h.suffix h.suffix_line
    obtain ⟨hblank, hswallowed, hnot⟩ := comments_cut hall hd
    rw [hds]
    by_cases hs : d.getLast? = some 92
    · -- the line is a part of the comment
      have hprog : l.program = [] := if_pos (hlast.mp hs)
      have hline := (line_cut (newline_of_tame h.code)).2 (getLast_of_tame h.code)
      rw [cut_of_tame h.code] at hline
      rw [hswallowed hs, hline.1, hline.2, hprog]
      refine ⟨rfl, fun s => ?_⟩
      rw [List.append_assoc]
      exact codeLines_newline.trans (by rw [codeLines_blank hblank]; rfl)
    · have hprog : l.program = codeOf l.code.str := if_neg (mt hlast.mpr hs)
      obtain ⟨hcodephase, y, hy⟩ := hnot hs
      rw [hcodephase, hy, hfinal, hx, hprog]
      refine ⟨rfl, fun s => ?_⟩
      have hyblank : y.all isSpace = true := by
        rw [hy, List.all_append, Bool.and_eq_true] at hblank
        exact hblank.1
      rw [List.append_assoc, List.append_assoc, ← hcode s, List.append_assoc]
      exact codeLines_newline.trans (by rw [codeLines_blank hyblank]; rfl)

/-- A compiler reads the lines one by one, without those behind a comment that ends in a
backslash. -/
theorem program_text {ls : List Line} (h : ∀ l ∈ ls, l.Closed) :
    program (text ls) = ls.flatMap Line.program := by
  have hnl : ∀ s ∈ ls.flatMap Line.strs, 10 ∉ s := by
    intro s hs
    obtain ⟨l, hl, hs⟩ := List.mem_flatMap.mp hs
    rcases List.mem_append.mp hs with hs | hs
    · by_cases hdoc : l.doc = []
      · rw [emitDoc, if_pos hdoc] at hs
        exact absurd hs List.not_mem_nil
      · obtain ⟨ds, d, hds, hall, hd, -⟩ :=
          emitDoc_lines hdoc (h l hl).indent (h l hl).suffix (h l hl).suffix_line
        have hcomment : IsLineComment s := by
          rw [hds] at hs
          rcases List.mem_append.mp hs with hs | hs
          · exact hall s hs
          · exact List.mem_singleton.mp hs ▸ hd
        obtain ⟨indent, rest, rfl, hind, hrest⟩ := hcomment
        simp only [List.mem_append, List.mem_cons, hrest, or_false, not_or]
        exact ⟨fun hm => absurd (hind 10 hm) (by decide), by decide, by decide⟩
    · exact List.mem_singleton.mp hs ▸ newline_of_tame (h l hl).code
  have hrun : ∀ ls : List Line, (∀ l ∈ ls, l.Closed) →
      uncommenter.final .code ((ls.flatMap Line.strs).flatMap cut) = .code ∧
        codeLines (uncommenter.out .code ((ls.flatMap Line.strs).flatMap cut)) =
          ls.flatMap Line.program := by
    intro ls h
    induction ls with
    | nil => exact ⟨rfl, rfl⟩
    | cons l ls ih =>
      obtain ⟨hl, hls⟩ := List.forall_mem_cons.mp h
      obtain ⟨hfin, hout⟩ := out_line hl
      rw [List.flatMap_cons, List.flatMap_append, Mealy.final_append, Mealy.out_append, hfin,
        hout, (ih hls).2, List.flatMap_cons]
      exact ⟨(ih hls).1, rfl⟩
  obtain ⟨hfin, hout⟩ := hrun ls h
  rw [program, text, splice_lines hnl, uncomment, hfin, if_neg (by decide), List.append_nil, hout]

end CppText

/-! ## Python -/

namespace PyText

inductive Quote where
  | single | double
  deriving DecidableEq

def Quote.byte : Quote → UInt8
  | single => 39
  | double => 34

inductive Place where
  | code
  | comment
  /-- Behind one quotation mark, or two. -/
  | opening (q : Quote) (two : Bool)
  | quoted (q : Quote)
  | escaped (q : Quote)
  /-- In a string in three quotation marks. -/
  | inside (q : Quote)
  | insideEscaped (q : Quote)
  /-- In such a string, behind one quotation mark or two. -/
  | closing (q : Quote) (two : Bool)
  /-- Behind a string that its line does not end. -/
  | broken
  deriving DecidableEq

namespace Place

def ofCode (b : UInt8) : Place :=
  if b = 34 then opening .double false
  else if b = 39 then opening .single false
  else if b = 35 then comment else code

def ofQuoted (q : Quote) (b : UInt8) : Place :=
  if b = q.byte then code
  else if b = 92 then escaped q
  else if b = 10 then broken else quoted q

def ofInside (q : Quote) (b : UInt8) : Place :=
  if b = 92 then insideEscaped q else inside q

def next : Place → UInt8 → Place
  | code, b => ofCode b
  | comment, b => if b = 10 then code else comment
  | opening q two, b =>
    if b = q.byte then (if two then inside q else opening q true)
    else if two then ofCode b else ofQuoted q b
  | quoted q, b => ofQuoted q b
  | escaped q, _ => quoted q
  | inside q, b => if b = q.byte then closing q false else ofInside q b
  | insideEscaped q, _ => inside q
  | closing q two, b =>
    if b = q.byte then (if two then code else closing q true) else ofInside q b
  | broken, _ => broken

/-- A quotation mark is held until it is known what it opens. -/
def writeCode (b : UInt8) : Str := if b = 34 ∨ b = 39 then [] else [b]

def write : Place → UInt8 → Str
  | code, b => writeCode b
  | comment, b | quoted _, b | escaped _, b => [b]
  | opening q two, b =>
    if b = q.byte then []
    else if two then [q.byte, q.byte] ++ writeCode b else [q.byte, b]
  | inside _, _ | insideEscaped _, _ | closing _ _, _ | broken, _ => []

end Place

def reader : Mealy Place UInt8 UInt8 := ⟨Place.next, Place.write⟩

/-- Nothing, if a string does not end. -/
def withoutDocstrings (s : Str) : Option Str :=
  match reader.final .code s with
  | .code | .comment => some (reader.out .code s)
  | .opening q true => some (reader.out .code s ++ [q.byte, q.byte])
  | _ => none

/-- What there is of a module but for its documentation. -/
def program (s : Str) : Option (List Str) := (withoutDocstrings s).map codeLines

/-! ### The text of a module -/

/-- No quotation marks. -/
def unquoted (s : Str) : Bool := s.all fun b => b != 34 && b != 39

section
variable {s : Str}

theorem unquoted_run (h : unquoted s = true) {p : Place} (hp : p = .code ∨ p = .comment) :
    (reader.final p s = .code ∨ reader.final p s = .comment) ∧ reader.out p s = s := by
  induction s generalizing p with
  | nil => exact ⟨hp, rfl⟩
  | cons b s ih =>
    rw [unquoted, List.all_cons, Bool.and_eq_true, Bool.and_eq_true, bne_iff_ne, bne_iff_ne] at h
    obtain ⟨⟨h34, h39⟩, hs⟩ := h
    have hstep : (reader.next p b = .code ∨ reader.next p b = .comment) ∧ reader.write p b = [b] := by
      rcases hp with rfl | rfl
      · simp only [reader, Place.next, Place.ofCode, Place.write, Place.writeCode, h34, h39, or_self,
          ↓reduceIte, and_true]
        split
        · exact .inr rfl
        · exact .inl rfl
      · simp only [reader, Place.next, Place.write, and_true]
        split
        · exact .inl rfl
        · exact .inr rfl
    obtain ⟨hfin, hout⟩ := ih hs hstep.1
    rw [Mealy.final_cons, Mealy.out_cons, hstep.2, hout]
    exact ⟨hfin, rfl⟩

/-- A line without quotation marks is read as it stands. -/
theorem unquoted_line (h : unquoted s = true) :
    reader.final .code (s ++ [10]) = .code ∧ reader.out .code (s ++ [10]) = s ++ [10] := by
  obtain ⟨hfin, hout⟩ := unquoted_run h (.inl rfl)
  rw [Mealy.final_append, Mealy.out_append, hout]
  rcases hfin with hp | hp
  · rw [hp]
    exact ⟨rfl, rfl⟩
  · rw [hp]
    exact ⟨rfl, rfl⟩

/-- Behind the documentation and its three quotation marks the next line begins, and nothing of
it is left. -/
def Inert (doc : Str) : Prop :=
  reader.final (.inside .double) (doc ++ quotes ++ [10]) = .code ∧
    (reader.out (.inside .double) (doc ++ quotes ++ [10])).all isSpace = true

instance (doc : Str) : Decidable (Inert doc) := inferInstanceAs (Decidable (_ ∧ _))

theorem inert_of_clear (h : ∀ b ∈ s, b ≠ 34 ∧ b ≠ 92) : Inert s := by
  have hnext : ∀ b ∈ s, reader.next (.inside .double) b = .inside .double := by
    intro b hb
    obtain ⟨h34, h92⟩ := h b hb
    have hq : b ≠ Quote.double.byte := h34
    simp only [reader, Place.next, Place.ofInside, hq, h92, ↓reduceIte]
  have hfin := Mealy.final_of_stays hnext
  have hout : reader.out (.inside .double) s = [] := by
    rw [Mealy.out_of_stays hnext]
    exact List.flatMap_eq_nil_iff.mpr fun b _ => rfl
  rw [Inert, List.append_assoc, Mealy.final_append, Mealy.out_append, hfin, hout]
  exact ⟨rfl, rfl⟩

/-- Where a line begins behind a newline, the newline is written. -/
theorem newline_of_code {p : Place} (h : reader.next p 10 = .code) :
    ∃ x, reader.write p 10 = x ++ [10] := by
  cases p with
  | code | comment => exact ⟨[], rfl⟩
  | opening q two => cases q <;> cases two <;> first | exact ⟨_, rfl⟩ | cases h
  | quoted q | escaped q | inside q | insideEscaped q => cases q <;> cases h
  | closing q two => cases q <;> cases two <;> cases h
  | broken => cases h

/-- Behind the three quotation marks that open a string. -/
theorem docstring_run {indent : Str} (hind : ∀ b ∈ indent, b = 32) (doc : Str) :
    reader.final .code (Line.docstring indent doc).str =
        reader.final (.inside .double) (doc ++ quotes ++ [10]) ∧
      reader.out .code (Line.docstring indent doc).str =
        indent ++ reader.out (.inside .double) (doc ++ quotes ++ [10]) := by
  have hunquoted : unquoted indent = true := List.all_eq_true.mpr fun b hb => by
    rw [hind b hb]
    rfl
  have hfin : reader.final .code indent = .code := Mealy.final_of_stays fun b hb => by
    rw [hind b hb]
    rfl
  have hstr : (Line.docstring indent doc).str = indent ++ (quotes ++ (doc ++ quotes ++ [10])) := by
    show indent ++ quotes ++ doc ++ quotes ++ [10] = _
    simp only [List.append_assoc]
  rw [hstr, Mealy.final_append, Mealy.out_append, (unquoted_run hunquoted (.inl rfl)).2, hfin,
    Mealy.final_append, Mealy.out_append]
  exact ⟨rfl, rfl⟩

end

/-- A line of code without quotation marks, or documentation that is nothing else. -/
def Line.Closed : Line → Prop
  | code c => unquoted c.str = true
  | docstring indent doc => (∀ b ∈ indent, b = 32) ∧ Inert doc

/-- What is left of a line. -/
def Line.program : Line → List Str
  | code c => codeLines c.str
  | docstring _ _ => []

theorem out_line {l : Line} (h : l.Closed) : reader.final .code l.str = .code ∧
    ∀ s, codeLines (reader.out .code l.str ++ s) = l.program ++ codeLines s := by
  cases l with
  | code c =>
    obtain ⟨hfin, hout⟩ := unquoted_line h
    refine ⟨hfin, fun s => ?_⟩
    rw [show (Line.code c).str = c.str ++ [10] from rfl, hout, List.append_assoc]
    exact codeLines_newline
  | docstring indent doc =>
    obtain ⟨hind, hfin, hblank⟩ := h
    obtain ⟨hfinal, hout⟩ := docstring_run hind doc
    refine ⟨hfinal.trans hfin, fun s => ?_⟩
    have hiblank : indent.all isSpace = true := List.all_eq_true.mpr fun b hb => by
      rw [hind b hb]
      rfl
    -- the text that is left is blank and ends its line
    obtain ⟨x, hx⟩ : ∃ x, reader.out (.inside .double) (doc ++ quotes ++ [10]) = x ++ [10] := by
      rw [Mealy.final_append] at hfin
      obtain ⟨x, hx⟩ := newline_of_code hfin
      rw [Mealy.out_append]
      refine ⟨reader.out (.inside .double) (doc ++ quotes) ++ x, ?_⟩
      rw [List.append_assoc, ← hx]
      exact congrArg _ (List.append_nil _)
    rw [hx, List.all_append, Bool.and_eq_true] at hblank
    have hall : (indent ++ x).all isSpace = true := by
      rw [List.all_append, hiblank, hblank.1]
      rfl
    rw [hout, hx, ← List.append_assoc, List.append_assoc]
    exact codeLines_newline.trans (by rw [codeLines_blank hall]; rfl)

/-- The lines are read one by one. -/
theorem run_text {ls : List Line} (h : ∀ l ∈ ls, l.Closed) : reader.final .code (text ls) = .code ∧
    ∀ s, codeLines (reader.out .code (text ls) ++ s) = ls.flatMap Line.program ++ codeLines s := by
  induction ls with
  | nil => exact ⟨rfl, fun s => rfl⟩
  | cons l ls ih =>
    obtain ⟨hl, hls⟩ := List.forall_mem_cons.mp h
    obtain ⟨hfin, hout⟩ := out_line hl
    obtain ⟨hfins, houts⟩ := ih hls
    have htext : text (l :: ls) = l.str ++ text ls := rfl
    rw [htext, Mealy.final_append, Mealy.out_append, hfin]
    refine ⟨hfins, fun s => ?_⟩
    rw [List.append_assoc, hout, houts, List.flatMap_cons, List.append_assoc]

theorem program_text {ls : List Line} (h : ∀ l ∈ ls, l.Closed) :
    program (text ls) = some (ls.flatMap Line.program) := by
  obtain ⟨hfin, hout⟩ := run_text h
  have hnil := hout []
  rw [List.append_nil] at hnil
  rw [program, withoutDocstrings, hfin]
  show some (codeLines (reader.out .code (text ls))) = _
  rw [hnil]
  exact congrArg some (List.append_nil _)

end PyText

end Song.Compiler
