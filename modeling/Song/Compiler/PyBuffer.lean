import Song.Compiler.PyCalls

/-!
# The buffer of the Python struct codecs

`generate_struct_def` takes the calls of a service proxy and replaces `req` or `resp` by `buf`
wherever it stands in their text. The buffer is renamed so, and so is every name of a field or
type with `req` or `resp` in it.
-/

namespace Song.Compiler

/-! ## Replacing text -/

section
variable {c d : UInt8} {old new s s' : Str}

/-- An occurrence that begins in front of a character that it does not go on with ends there. -/
theorem isPrefixOf_append (hs : s ≠ []) (hs' : ∀ x ∈ s'.head?, x ∉ old.tail) :
    old.isPrefixOf (s ++ s') = old.isPrefixOf s := by
  rw [Bool.eq_iff_iff, List.isPrefixOf_iff_prefix, List.isPrefixOf_iff_prefix]
  refine ⟨fun h => ?_, fun h => h.trans (List.prefix_append s s')⟩
  rcases List.prefix_or_prefix_of_prefix h (List.prefix_append s s') with hp | ⟨t, rfl⟩
  · exact hp
  · cases t with
    | nil =>
      exact ⟨[], by rw [List.append_nil, List.append_nil]⟩
    | cons x t =>
      obtain ⟨rest, hrest⟩ := (List.prefix_append_right_inj s).mp h
      refine absurd ?_ (hs' x (by rw [← hrest]; rfl))
      rw [List.tail_append_of_ne_nil hs]
      exact List.mem_append_right _ List.mem_cons_self

/-- Text is replaced apart in two parts that no occurrence joins. -/
theorem replaceAll_cut (s : Str) (h : ∃ x rest, s' = x :: rest ∧ x ∉ old) :
    replaceAll (c :: old) new 0 (s ++ s') =
      replaceAll (c :: old) new 0 s ++ replaceAll (c :: old) new 0 s' := by
  obtain ⟨x, rest, rfl, hx⟩ := h
  have key : ∀ k ≤ s.length, replaceAll (c :: old) new k (s ++ x :: rest) =
      replaceAll (c :: old) new k s ++ replaceAll (c :: old) new 0 (x :: rest) := by
    induction s with
    | nil =>
      intro k hk
      rw [Nat.le_zero.mp hk]
      rfl
    | cons a s ih =>
      intro k hk
      cases k with
      | succ k => exact ih k (Nat.le_of_succ_le_succ hk)
      | zero =>
        have hpre : (c :: old).isPrefixOf (a :: s ++ x :: rest) =
            (c :: old).isPrefixOf (a :: s) :=
          isPrefixOf_append (List.cons_ne_nil a s) fun y hy => by
            obtain rfl := Option.some.inj hy
            exact hx
        rw [List.cons_append] at hpre
        rw [List.cons_append, replaceAll, replaceAll, hpre]
        by_cases hp : (c :: old).isPrefixOf (a :: s) = true
        · have hlen := (List.isPrefixOf_iff_prefix.mp hp).length_le
          rw [List.length_cons, List.length_cons] at hlen
          rw [if_pos hp, if_pos hp, ih _ (by rw [List.length_cons]; omega), List.append_assoc]
        · rw [if_neg hp, if_neg hp, ih 0 (Nat.zero_le _), List.cons_append]
  exact key 0 (Nat.zero_le _)

/-- Where another character comes for the first one, only a text without occurrence stays as it
was. -/
theorem replaceAll_eq_self_iff (hcd : c ≠ d) :
    replaceAll (c :: old) (d :: new) 0 s = s ↔ ¬ (c :: old) <:+: s := by
  induction s with
  | nil =>
    refine iff_of_true rfl fun h => ?_
    cases List.infix_nil.mp h
  | cons a s ih =>
    rw [replaceAll, List.infix_cons_iff, not_or]
    by_cases hp : (c :: old).isPrefixOf (a :: s) = true
    · rw [if_pos hp]
      have hpre := List.isPrefixOf_iff_prefix.mp hp
      refine iff_of_false (fun he => ?_) fun h => h.1 hpre
      obtain ⟨t, ht⟩ := hpre
      exact hcd ((List.cons.inj ht).1.trans (List.cons.inj he).1.symm)
    · rw [if_neg hp, List.cons_inj_right, ih]
      exact (and_iff_right (mt List.isPrefixOf_iff_prefix.mpr hp)).symm

end

/-! ## The text of calls -/

namespace PyText

section
variable {code code' : Code}

@[simp] theorem Code.str_nil : Code.str [] = [] := rfl

theorem Code.str_cons (p : Piece Mark) : Code.str (p :: code) = p.str Mark.str ++ code.str := rfl

@[simp] theorem Code.str_append : Code.str (code ++ code') = code.str ++ code'.str :=
  List.flatMap_append

@[simp] theorem Code.str_t (s : String) : Code.str (t s :: code) = lit s ++ code.str := rfl

@[simp] theorem Code.str_raw (s : Str) : Code.str (raw s :: code) = s ++ code.str := rfl

@[simp] theorem Code.str_runs (s : Str) : Code.str (runs s :: code) = s ++ code.str := rfl

@[simp] theorem Code.str_own (s : String) : Code.str (.own s :: code) = lit s ++ code.str := rfl

@[simp] theorem Code.str_var (s : String) : Code.str (.var s :: code) = lit s ++ code.str := rfl

@[simp] theorem Code.str_enter : Code.str (.enter :: code) = code.str := rfl

@[simp] theorem Code.str_leave : Code.str (.leave :: code) = code.str := rfl

end

section
variable {old new s s' : Str}

/-- A text without the first character of what is looked for stays. -/
theorem keep (s : Str) (hs : old.head?.all (fun c => !s.contains c) = true) (hold : old ≠ []) :
    replaceAll old new 0 (s ++ s') = s ++ replaceAll old new 0 s' := by
  cases old with
  | nil => exact absurd rfl hold
  | cons c old =>
    have hc : c ∉ s := by simpa using hs
    exact replaceAll_append s s' hc

/-- What stands in front of a text that no occurrence goes on into is replaced by itself. -/
theorem cut (s : Str) {l : String} (hl : old.tail.all (fun x => (lit l).head? != some x) = true)
    (hne : lit l ≠ []) (hold : old ≠ []) :
    replaceAll old new 0 (s ++ (lit l ++ s')) =
      replaceAll old new 0 s ++ replaceAll old new 0 (lit l ++ s') := by
  cases old with
  | nil => exact absurd rfl hold
  | cons c old =>
    obtain ⟨x, rest, hx⟩ := List.exists_cons_of_ne_nil hne
    rw [hx] at hl ⊢
    refine replaceAll_cut s ⟨x, rest ++ s', rfl, fun h => ?_⟩
    exact absurd (List.all_eq_true.mp hl x h) (by simp)

end

/-! ### Encoding -/

theorem replaceAll_suffix (p : PrimitiveType) :
    replaceAll (lit "req") (lit "buf") 0 p.suffix = p.suffix ∧
      replaceAll (lit "resp") (lit "buf") 0 p.suffix = p.suffix := by
  cases p <;> decide

section
variable {expr expr' : Code} (hexpr : replaceAll (lit "req") (lit "buf") 0 expr.str = expr'.str)
include hexpr

/-- The replacement in the text of an encoding call renames the buffer, and what is in `expr` and
in the name of the codec. -/
theorem replaceAll_encodeBase (b : TypeBase) :
    replaceAll (lit "req") (lit "buf") 0 (encodeBase (t "req") expr b).str =
      (encodeBase (t "buf") expr' (b.rename inEncoder)).str := by
  cases b with
  | primitive p =>
    by_cases hv : p = .void
    · subst hv
      rfl
    · have hl : ∀ (buf : Piece Mark) (e : Code), encodeBase buf e (.primitive p) =
          [buf, t ".encode_", raw p.suffix, t "("] ++ e ++ [t ")"] := by
        intro buf e
        cases p <;> first | rfl | exact absurd rfl hv
      rw [TypeBase.rename, hl, hl]
      simp only [List.cons_append, List.nil_append, Code.str_t, Code.str_raw, Code.str_append]
      rw [cut (lit "req") (by decide) (by decide) (by decide),
        keep (lit ".encode_") (by decide) (by decide),
        cut p.suffix (by decide) (by decide) (by decide), (replaceAll_suffix p).1,
        keep (lit "(") (by decide) (by decide),
        cut expr.str (by decide) (by decide) (by decide), hexpr]
      rfl
  | user name =>
    rw [TypeBase.rename]
    simp only [encodeBase, List.append_assoc, List.cons_append, List.nil_append, Code.str_t,
      Code.str_runs, Code.str_append]
    rw [keep (lit "encode_") (by decide) (by decide),
      cut name (by decide) (by decide) (by decide), keep (lit "(") (by decide) (by decide),
      cut (lit "req") (by decide) (by decide) (by decide),
      keep (lit ", ") (by decide) (by decide),
      cut expr.str (by decide) (by decide) (by decide), hexpr]
    rfl

theorem replaceAll_callEncode {indent : Str} (hindent : 114 ∉ indent) (call : PyCall) :
    replaceAll (lit "req") (lit "buf") 0 (callEncode (t "req") indent expr call).str =
      (callEncode (t "buf") indent expr' (call.rename inEncoder)).str := by
  induction call generalizing indent expr expr' with
  | base b => exact replaceAll_encodeBase hexpr b
  | optional b =>
    have hb := @replaceAll_encodeBase [.var "v"] [.var "v"] rfl b
    simp only [PyCall.rename, callEncode, List.append_assoc, List.cons_append, List.nil_append,
      Code.str_t, Code.str_own, Code.str_enter, Code.str_leave, Code.str_append]
    rw [cut (lit "req") (by decide) (by decide) (by decide),
      keep (lit ".encode_optional(") (by decide) (by decide),
      cut expr.str (by decide) (by decide) (by decide), hexpr,
      keep (lit ", lambda ") (by decide) (by decide), keep (lit "b") (by decide) (by decide),
      keep (lit ", ") (by decide) (by decide), keep (lit "v") (by decide) (by decide),
      keep (lit ": ") (by decide) (by decide), cut _ (by decide) (by decide) (by decide), hb]
    rfl
  | helper p =>
    have hp : replaceAll (lit "req") (lit "buf") 0 (lit ".encode_array_" ++ p.suffix) =
        lit ".encode_array_" ++ p.suffix := by
      cases p <;> decide
    simp only [PyCall.rename, callEncode, List.cons_append, List.nil_append, Code.str_t,
      Code.str_raw, Code.str_append]
    rw [cut (lit "req") (by decide) (by decide) (by decide),
      ← List.append_assoc (lit ".encode_array_"), cut _ (by decide) (by decide) (by decide), hp,
      keep (lit "(") (by decide) (by decide),
      cut expr.str (by decide) (by decide) (by decide), hexpr, List.append_assoc]
    rfl
  | loop elem ih =>
    have hi := @ih [.var "_item"] [.var "_item"] rfl (indent ++ lit "    ") fun h =>
      (List.mem_append.mp h).elim hindent (by decide)
    have hkeep : (lit "req").head?.all (fun c => !indent.contains c) = true := by
      show (!indent.contains 114) = true
      simpa using hindent
    simp only [PyCall.rename, callEncode, List.append_assoc, List.cons_append, List.nil_append,
      Code.str_t, Code.str_raw, Code.str_own, Code.str_append]
    rw [cut (lit "req") (by decide) (by decide) (by decide),
      keep (lit ".encode_u32(len(") (by decide) (by decide),
      cut expr.str (by decide) (by decide) (by decide), hexpr,
      keep (lit "))\n") (by decide) (by decide), keep indent hkeep (by decide),
      cut (lit "for ") (by decide) (by decide) (by decide),
      keep (lit "_item") (by decide) (by decide), keep (lit " in ") (by decide) (by decide),
      cut expr.str (by decide) (by decide) (by decide), hexpr,
      keep (lit ":\n") (by decide) (by decide), keep indent hkeep (by decide),
      keep (lit "    ") (by decide) (by decide), hi]
    rfl

end

/-! ### Decoding -/

theorem replaceAll_decodeBase (b : TypeBase) :
    replaceAll (lit "resp") (lit "buf") 0 (decodeBase (t "resp") b).str =
      (decodeBase (t "buf") (b.rename inDecoder)).str := by
  cases b with
  | primitive p => cases p <;> decide
  | user name =>
    rw [TypeBase.rename]
    simp only [decodeBase, Code.str_t, Code.str_runs, List.append_assoc]
    rw [keep (lit "decode_") (by decide) (by decide),
      cut name (by decide) (by decide) (by decide), keep (lit "(") (by decide) (by decide),
      cut (lit "resp") (by decide) (by decide) (by decide)]
    rfl

theorem replaceAll_callDecode (call : PyCall) :
    replaceAll (lit "resp") (lit "buf") 0 (callDecode (t "resp") call).str =
      (callDecode (t "buf") (call.rename inDecoder)).str := by
  induction call with
  | base b => exact replaceAll_decodeBase b
  | optional b =>
    simp only [PyCall.rename, callDecode, List.cons_append, List.nil_append, Code.str_t,
      Code.str_own, Code.str_enter, Code.str_leave, Code.str_append]
    rw [cut (lit "resp") (by decide) (by decide) (by decide),
      keep (lit ".decode_optional(lambda ") (by decide) (by decide),
      keep (lit "b") (by decide) (by decide), keep (lit ": ") (by decide) (by decide),
      cut _ (by decide) (by decide) (by decide), replaceAll_decodeBase]
    rfl
  | helper p => cases p <;> decide
  | loop elem ih =>
    simp only [PyCall.rename, callDecode, List.cons_append, List.nil_append, Code.str_t,
      Code.str_append]
    rw [keep (lit "[") (by decide) (by decide), cut _ (by decide) (by decide) (by decide), ih,
      cut (lit " for _ in range(") (by decide) (by decide) (by decide),
      cut (lit "resp") (by decide) (by decide) (by decide)]
    rfl

/-! ### Piece by piece -/

section
variable {old new : Str} {code code' : Code}

@[simp] theorem str_replace_append : (Code.replace old new (code ++ code')).str =
    (code.replace old new).str ++ (code'.replace old new).str := by
  rw [Code.replace, List.map_append, Code.str_append]
  rfl

@[simp] theorem str_replace_t (s : String) : (Code.replace old new (t s :: code)).str =
    replaceAll old new 0 (lit s) ++ (code.replace old new).str := rfl

@[simp] theorem str_replace_raw (s : Str) : (Code.replace old new (raw s :: code)).str =
    replaceAll old new 0 s ++ (code.replace old new).str := rfl

@[simp] theorem str_replace_runs (s : Str) : (Code.replace old new (runs s :: code)).str =
    replaceAll old new 0 s ++ (code.replace old new).str := rfl

@[simp] theorem str_replace_own (s : String) : (Code.replace old new (.own s :: code)).str =
    replaceAll old new 0 (lit s) ++ (code.replace old new).str := rfl

@[simp] theorem str_replace_enter :
    (Code.replace old new (.enter :: code)).str = (code.replace old new).str := rfl

@[simp] theorem str_replace_leave :
    (Code.replace old new (.leave :: code)).str = (code.replace old new).str := rfl

end

section
variable {expr expr' : Code}
  (hexpr : (expr.replace (lit "req") (lit "buf")).str = expr'.str)
include hexpr

theorem str_replace_encodeBase (b : TypeBase) :
    ((encodeBase (t "req") expr b).replace (lit "req") (lit "buf")).str =
      (encodeBase (t "buf") expr' (b.rename inEncoder)).str := by
  cases b with
  | primitive p =>
    cases p <;> simp only [encodeBase, TypeBase.rename, List.cons_append, List.nil_append,
      str_replace_t, str_replace_raw, str_replace_append, Code.str_t, Code.str_raw,
      Code.str_append, hexpr] <;> rfl
  | user name =>
    simp only [encodeBase, TypeBase.rename, List.cons_append, List.nil_append, str_replace_t,
      str_replace_runs, str_replace_append, Code.str_t, Code.str_runs, Code.str_append, hexpr,
      replaceAll_encode]
    rfl

theorem str_replace_callEncode {indent : Str} (hindent : 114 ∉ indent) (call : PyCall) :
    ((callEncode (t "req") indent expr call).replace (lit "req") (lit "buf")).str =
      (callEncode (t "buf") indent expr' (call.rename inEncoder)).str := by
  induction call generalizing indent expr expr' with
  | base b => exact str_replace_encodeBase hexpr b
  | optional b =>
    have hb := @str_replace_encodeBase [.var "v"] [.var "v"] rfl b
    simp only [PyCall.rename, callEncode, List.cons_append, List.nil_append, str_replace_t,
      str_replace_own, str_replace_enter, str_replace_leave, str_replace_append, Code.str_t,
      Code.str_own, Code.str_enter, Code.str_leave, Code.str_append, hexpr, hb]
    rfl
  | helper p =>
    simp only [PyCall.rename, callEncode, List.cons_append, List.nil_append, str_replace_t,
      str_replace_raw, str_replace_append, Code.str_t, Code.str_raw, Code.str_append, hexpr,
      (replaceAll_suffix p).1]
    rfl
  | loop elem ih =>
    have hi := @ih [.var "_item"] [.var "_item"] rfl (indent ++ lit "    ") fun h =>
      (List.mem_append.mp h).elim hindent (by decide)
    have hkeep : replaceAll (lit "req") (lit "buf") 0 indent = indent := by
      have := @replaceAll_append 114 (lit "eq") (lit "buf") indent [] hindent
      rwa [List.append_nil, replaceAll, List.append_nil] at this
    simp only [PyCall.rename, callEncode, List.append_assoc, List.cons_append, List.nil_append,
      str_replace_t, str_replace_raw, str_replace_own, str_replace_append, Code.str_t,
      Code.str_raw, Code.str_own, Code.str_append, hexpr, hi, hkeep]
    rfl

end

theorem str_replace_decodeBase (b : TypeBase) :
    ((decodeBase (t "resp") b).replace (lit "resp") (lit "buf")).str =
      (decodeBase (t "buf") (b.rename inDecoder)).str := by
  cases b with
  | primitive p => cases p <;> decide
  | user name =>
    simp only [decodeBase, TypeBase.rename, str_replace_t, str_replace_runs, Code.str_t,
      Code.str_runs, replaceAll_decode]
    rfl

theorem str_replace_callDecode (call : PyCall) :
    ((callDecode (t "resp") call).replace (lit "resp") (lit "buf")).str =
      (callDecode (t "buf") (call.rename inDecoder)).str := by
  induction call with
  | base b => exact str_replace_decodeBase b
  | optional b =>
    simp only [PyCall.rename, callDecode, List.cons_append, List.nil_append, str_replace_t,
      str_replace_own, str_replace_enter, str_replace_leave, str_replace_append, Code.str_t,
      Code.str_own, Code.str_enter, Code.str_leave, Code.str_append, str_replace_decodeBase]
    rfl
  | helper p => cases p <;> decide
  | loop elem ih =>
    simp only [PyCall.rename, callDecode, List.cons_append, List.nil_append, str_replace_t,
      str_replace_append, Code.str_t, Code.str_append, ih]
    rfl

/-! ## Names that stay -/

section
variable {α β : Type} {a a' b b' : List α}

theorem append_eq_iff (h : a.length = a'.length) : a ++ b = a' ++ b' ↔ a = a' ∧ b = b' :=
  ⟨fun he => List.append_inj he h, fun ⟨ha, hb⟩ => by rw [ha, hb]⟩

theorem length_flatMap_le {f g : α → List β} {l : List α}
    (h : ∀ x ∈ l, (f x).length ≤ (g x).length) : (l.flatMap f).length ≤ (l.flatMap g).length := by
  induction l with
  | nil => exact Nat.le_refl _
  | cons x l ih =>
    obtain ⟨hx, hl⟩ := List.forall_mem_cons.mp h
    rw [List.flatMap_cons, List.flatMap_cons, List.length_append, List.length_append]
    exact Nat.add_le_add hx (ih hl)

/-- Texts of parts none of which is the longer one are equal when the parts are. -/
theorem flatMap_eq_iff {f g : α → List β} {l : List α}
    (h : ∀ x ∈ l, (f x).length ≤ (g x).length) :
    l.flatMap f = l.flatMap g ↔ ∀ x ∈ l, f x = g x := by
  refine ⟨fun he => ?_, fun he => List.flatMap_congr he⟩
  induction l with
  | nil => exact fun x hx => (by cases hx)
  | cons x l ih =>
    obtain ⟨hx, hl⟩ := List.forall_mem_cons.mp h
    rw [List.flatMap_cons, List.flatMap_cons] at he
    have hlen := congrArg List.length he
    have hle := length_flatMap_le hl
    rw [List.length_append, List.length_append] at hlen
    obtain ⟨hfx, hrest⟩ := List.append_inj he (by omega)
    exact List.forall_mem_cons.mpr ⟨hfx, ih hl hrest⟩

end

section
variable {old new s : Str} {k : Nat}

theorem length_of_isPrefixOf {c : UInt8} {cs : Str} (h : old.isPrefixOf (c :: cs) = true) :
    old.length ≤ cs.length + 1 := (List.isPrefixOf_iff_prefix.mp h).length_le

theorem length_replaceAll_le (hlen : new.length ≤ old.length) (hk : k ≤ s.length) :
    (replaceAll old new k s).length + k ≤ s.length := by
  induction s generalizing k with
  | nil =>
    rw [replaceAll]
    exact (Nat.zero_add k).symm ▸ hk
  | cons c cs ih =>
    rw [List.length_cons] at hk ⊢
    cases k with
    | succ k =>
      rw [replaceAll]
      have := ih (Nat.le_of_succ_le_succ hk)
      omega
    | zero =>
      rw [replaceAll]
      by_cases hp : old.isPrefixOf (c :: cs) = true
      · have hle := length_of_isPrefixOf hp
        have := ih (k := old.length - 1) (by omega)
        rw [if_pos hp, List.length_append]
        omega
      · have := ih (Nat.zero_le _)
        rw [if_neg hp, List.length_cons]
        omega

theorem length_replaceAll (hlen : new.length = old.length) (hold : old ≠ []) (hk : k ≤ s.length) :
    (replaceAll old new k s).length + k = s.length := by
  have hpos := List.length_pos_of_ne_nil hold
  induction s generalizing k with
  | nil =>
    rw [Nat.le_zero.mp hk]
    rfl
  | cons c cs ih =>
    rw [List.length_cons] at hk ⊢
    cases k with
    | succ k =>
      rw [replaceAll]
      have := ih (Nat.le_of_succ_le_succ hk)
      omega
    | zero =>
      rw [replaceAll]
      by_cases hp : old.isPrefixOf (c :: cs) = true
      · have hle := length_of_isPrefixOf hp
        have := ih (k := old.length - 1) (by omega)
        rw [if_pos hp, List.length_append]
        omega
      · have := ih (Nat.zero_le _)
        rw [if_neg hp, List.length_cons]
        omega

end

theorem length_inEncoder (name : Str) : (inEncoder name).length = name.length :=
  length_replaceAll (by decide) (by decide) (Nat.zero_le _)

theorem length_inDecoder_le (name : Str) : (inDecoder name).length ≤ name.length :=
  length_replaceAll_le (by decide) (Nat.zero_le _)

/-- The codec of the user's type in a call is named as before. -/
def CallKept (g : Str → Str) (call : PyCall) : Prop := ∀ name ∈ callTypes call, g name = name

section
variable {buf : Piece Mark} {expr expr' : Code} {g : Str → Str}
  (hg : ∀ name, (g name).length = name.length)
include hg

theorem encodeBase_eq_iff (b : TypeBase) :
    (encodeBase buf expr' (b.rename g)).str = (encodeBase buf expr b).str ↔
      (b ≠ .primitive .void → expr'.str = expr.str) ∧ ∀ name ∈ userTypes b, g name = name := by
  cases b with
  | primitive p =>
    by_cases hv : p = .void
    · subst hv
      exact iff_of_true rfl ⟨fun h => absurd rfl h, fun name h => (by cases h)⟩
    · have hl : ∀ e : Code, encodeBase buf e (.primitive p) =
          buf :: ([t ".encode_", raw p.suffix, t "("] ++ e ++ [t ")"]) := by
        intro e
        cases p <;> first | rfl | exact absurd rfl hv
      rw [TypeBase.rename, hl, hl]
      simp [Code.str_cons, userTypes, hv]
  | user name =>
    simp only [encodeBase, TypeBase.rename, List.cons_append, List.nil_append, Code.str_runs,
      List.append_assoc, List.append_cancel_left_eq]
    rw [append_eq_iff (hg name)]
    simp [Code.str_cons, userTypes, and_comm]

theorem callEncode_eq_iff (hexpr : expr'.str.length = expr.str.length) (indent : Str)
    (call : PyCall) :
    (callEncode buf indent expr' (call.rename g)).str = (callEncode buf indent expr call).str ↔
      (call ≠ .base (.primitive .void) → expr'.str = expr.str) ∧ CallKept g call := by
  induction call generalizing indent expr expr' with
  | base b =>
    rw [PyCall.rename, callEncode, callEncode, encodeBase_eq_iff hg]
    simp [CallKept, callTypes]
  | optional b =>
    have hb := @encodeBase_eq_iff buf [.var "v"] [.var "v"] g hg b
    simp only [PyCall.rename, callEncode, List.append_assoc, List.cons_append, List.nil_append,
      Code.str_cons, List.append_cancel_left_eq, Code.str_append]
    rw [append_eq_iff hexpr]
    simp [Code.str_cons, CallKept, callTypes, hb]
  | helper p =>
    simp [PyCall.rename, callEncode, Code.str_cons, CallKept, callTypes]
  | loop elem ih =>
    have hi := @ih [.var "_item"] [.var "_item"] rfl (indent ++ lit "    ")
    simp only [PyCall.rename, callEncode, List.append_assoc, List.cons_append, List.nil_append,
      Code.str_cons, Code.str_append, List.append_cancel_left_eq]
    rw [append_eq_iff hexpr]
    simp only [List.append_cancel_left_eq]
    rw [append_eq_iff hexpr]
    simp [hi, CallKept, callTypes]

end

section
variable {buf : Piece Mark} {expr expr' : Code} {g : Str → Str}
  (hg : ∀ name, (g name).length ≤ name.length)
include hg

theorem length_encodeBase_le (hexpr : expr'.str.length ≤ expr.str.length) (b : TypeBase) :
    (encodeBase buf expr' (b.rename g)).str.length ≤ (encodeBase buf expr b).str.length := by
  cases b with
  | primitive p => cases p <;> simp [encodeBase, TypeBase.rename, Code.str_cons, hexpr]
  | user name =>
    have := hg name
    simp only [encodeBase, TypeBase.rename, List.cons_append, List.nil_append, Code.str_runs]
    simp only [Code.str_cons, Code.str_append, List.length_append]
    omega

theorem length_callEncode_le (hexpr : expr'.str.length ≤ expr.str.length) (indent : Str)
    (call : PyCall) :
    (callEncode buf indent expr' (call.rename g)).str.length ≤
      (callEncode buf indent expr call).str.length := by
  induction call generalizing indent expr expr' with
  | base b => exact length_encodeBase_le hg hexpr b
  | optional b =>
    have hb := @length_encodeBase_le buf [.var "v"] [.var "v"] g hg (Nat.le_refl _) b
    simp only [PyCall.rename, callEncode, List.append_assoc, List.cons_append, List.nil_append,
      Code.str_cons, Code.str_append, List.length_append]
    omega
  | helper p =>
    simp only [PyCall.rename, callEncode, List.cons_append, List.nil_append, Code.str_cons,
      Code.str_append, List.length_append]
    omega
  | loop elem ih =>
    have hi := @ih [.var "_item"] [.var "_item"] (Nat.le_refl _) (indent ++ lit "    ")
    simp only [PyCall.rename, callEncode, List.append_assoc, List.cons_append, List.nil_append,
      Code.str_cons, Code.str_append, List.length_append]
    omega

end

/-- The names of the codecs in the code for a type are those of the user's type. -/
theorem callKept_iff {g : Str → Str} {type : Ty} :
    CallKept g (pyEncodeCall type) ↔ ∀ name, type.base = .user name → g name = name := by
  rw [CallKept, pyEncodeCall, callTypes_pyEncodeDims]
  cases hb : type.base with
  | primitive p => simp [userTypes]
  | user name => simp [userTypes, eq_comm]

section
variable {buf : Piece Mark} {g : Str → Str}

theorem decodeBase_eq_iff (b : TypeBase) :
    (decodeBase buf (b.rename g)).str = (decodeBase buf b).str ↔
      ∀ name ∈ userTypes b, g name = name := by
  cases b with
  | primitive p => simp [TypeBase.rename, userTypes]
  | user name => simp [decodeBase, TypeBase.rename, userTypes]

theorem callDecode_eq_iff (call : PyCall) :
    (callDecode buf (call.rename g)).str = (callDecode buf call).str ↔ CallKept g call := by
  induction call with
  | base b => simpa [PyCall.rename, callDecode, CallKept, callTypes] using decodeBase_eq_iff b
  | optional b =>
    simp [PyCall.rename, callDecode, Code.str_cons, CallKept, callTypes, decodeBase_eq_iff]
  | helper p => simp [PyCall.rename, CallKept, callTypes]
  | loop elem ih =>
    simp only [CallKept, callTypes] at ih ⊢
    simp [PyCall.rename, callDecode, Code.str_cons, ih]

theorem length_callDecode_le (hg : ∀ name, (g name).length ≤ name.length) (call : PyCall) :
    (callDecode buf (call.rename g)).str.length ≤ (callDecode buf call).str.length := by
  have hbase : ∀ b : TypeBase,
      (decodeBase buf (b.rename g)).str.length ≤ (decodeBase buf b).str.length := by
    intro b
    cases b with
    | primitive p => exact Nat.le_refl _
    | user name => simpa [decodeBase, TypeBase.rename] using hg name
  induction call with
  | base b => exact hbase b
  | optional b => simpa [PyCall.rename, callDecode, Code.str_cons] using hbase b
  | helper p => exact Nat.le_refl _
  | loop elem ih => simpa [PyCall.rename, callDecode, Code.str_cons] using ih

end

/-! ## The codecs of a struct -/

/-- The text of `encode_<S>` with `buf` for the buffer from the start. -/
def plainEncode (s : StructDef) : List Line :=
  [line [t "def encode_", raw s.name, t "(", .enter, t "buf: ", evaluates (lit "Buffer"), t ", val: ",
      evaluates s.name, t ") -> None:", defines (lit "encode_" ++ s.name)],
    .docstring (lit "    ") (lit "Encode " ++ s.name ++ lit " to buffer.")] ++
  s.fields.map (fun f => line ([t "    "] ++
    encode f.type [t "val.", raw f.name] (t "buf") "    ")) ++
  [line [.leave]]

def plainDecodeField (last : Nat) (f : Field) (i : Nat) : Line :=
  line ([t "        ", raw f.name, t "="] ++ decode f.type (t "buf") ++
    if i < last then [t ","] else [])

/-- The text of `decode_<S>` with `buf` for the buffer from the start. -/
def plainDecode (s : StructDef) : List Line :=
  [line [t "def decode_", raw s.name, t "(", .enter, t "buf: ", evaluates (lit "Buffer"), t ") -> ",
      evaluates s.name, t ":", defines (lit "decode_" ++ s.name)],
    .docstring (lit "    ") (lit "Decode " ++ s.name ++ lit " from buffer."),
    line [t "    return ", raw s.name, t "("]] ++
  s.fields.zipIdx.map (fun x => plainDecodeField (s.fields.length - 1) x.1 x.2) ++
  [line [t "    )", .leave]]

/-- Neither the name of the field, where it is read, nor that of its user type has an occurrence
of what is replaced. -/
structure Clear (f : Field) : Prop where
  name : ¬ (f.type.isArray = false ∧ f.type.isOptional = false ∧ f.type.base = .primitive .void) →
    ¬ lit "req" <:+: f.name
  type : ∀ name, f.type.base = .user name → ¬ lit "req" <:+: name ∧ ¬ lit "resp" <:+: name

theorem inEncoder_eq_self_iff {name : Str} : inEncoder name = name ↔ ¬ lit "req" <:+: name :=
  replaceAll_eq_self_iff (by decide)

theorem inDecoder_eq_self_iff {name : Str} : inDecoder name = name ↔ ¬ lit "resp" <:+: name :=
  replaceAll_eq_self_iff (by decide)

theorem pyEncodeCall_eq_void_iff {type : Ty} : pyEncodeCall type = .base (.primitive .void) ↔
    type.isArray = false ∧ type.isOptional = false ∧ type.base = .primitive .void := by
  cases ha : type.isArray with
  | true =>
    obtain ⟨n, hn, -⟩ := Ty.dimCount_pos ha
    refine iff_of_false (fun h => ?_) fun h => (by cases h.1)
    rw [pyEncodeCall, hn] at h
    cases n with
    | zero =>
      cases hb : type.base with
      | primitive p => rw [hb] at h; cases p <;> cases h
      | user name => rw [hb] at h; cases h
    | succ n => cases h
  | false =>
    rw [pyEncodeCall, Ty.dimCount, ha, if_neg Bool.false_ne_true, pyEncodeDims]
    cases type.isOptional with
    | true => simp
    | false => simp

section
variable (f : Field)

/-- The emitted encoding call, with the names as the replacement leaves them. -/
theorem str_fieldEncode :
    ((encode f.type [t "val.", raw f.name] (t "req") "    ").replace (lit "req") (lit "buf")).str =
      (callEncode (t "buf") (lit "    ") [t "val.", raw (inEncoder f.name)]
        ((pyEncodeCall f.type).rename inEncoder)).str :=
  str_replace_callEncode rfl (by decide) _

theorem str_fieldDecode :
    ((decode f.type (t "resp")).replace (lit "resp") (lit "buf")).str =
      (callDecode (t "buf") ((pyDecodeCall f.type).rename inDecoder)).str :=
  str_replace_callDecode _

theorem length_fieldEncode_le :
    ((encode f.type [t "val.", raw f.name] (t "req") "    ").replace (lit "req")
        (lit "buf")).str.length ≤
      (encode f.type [t "val.", raw f.name] (t "buf") "    ").str.length := by
  rw [str_fieldEncode, encode]
  exact length_callEncode_le (fun n => (length_inEncoder n).le) (by simp [length_inEncoder]) _ _

theorem length_fieldDecode_le :
    ((decode f.type (t "resp")).replace (lit "resp") (lit "buf")).str.length ≤
      (decode f.type (t "buf")).str.length := by
  rw [str_fieldDecode, decode]
  exact length_callDecode_le length_inDecoder_le _

/-- What is replaced piece by piece here is what the generator replaces in the whole text. -/
theorem fieldEncode_replaced :
    ((encode f.type [t "val.", raw f.name] (t "req") "    ").replace (lit "req") (lit "buf")).str =
      replaceAll (lit "req") (lit "buf") 0
        (encode f.type [t "val.", raw f.name] (t "req") "    ").str := by
  have hexpr : replaceAll (lit "req") (lit "buf") 0 (Code.str [t "val.", raw f.name]) =
      Code.str [t "val.", raw (inEncoder f.name)] := by
    rw [Code.str_t, Code.str_t, keep (lit "val.") (by decide) (by decide), Code.str_raw,
      Code.str_raw, Code.str_nil, List.append_nil, List.append_nil, inEncoder]
  rw [str_fieldEncode, encode, replaceAll_callEncode hexpr (by decide)]

theorem fieldDecode_replaced :
    ((decode f.type (t "resp")).replace (lit "resp") (lit "buf")).str =
      replaceAll (lit "resp") (lit "buf") 0 (decode f.type (t "resp")).str := by
  rw [str_fieldDecode, decode, replaceAll_callDecode]

theorem fieldEncode_plain_iff :
    ((encode f.type [t "val.", raw f.name] (t "req") "    ").replace (lit "req") (lit "buf")).str =
        (encode f.type [t "val.", raw f.name] (t "buf") "    ").str ↔
      (¬ (f.type.isArray = false ∧ f.type.isOptional = false ∧ f.type.base = .primitive .void) →
        ¬ lit "req" <:+: f.name) ∧
      ∀ name, f.type.base = .user name → ¬ lit "req" <:+: name := by
  rw [str_fieldEncode, encode, callEncode_eq_iff length_inEncoder (by simp [length_inEncoder]),
    callKept_iff, Ne, pyEncodeCall_eq_void_iff]
  simp [inEncoder_eq_self_iff]

theorem fieldDecode_plain_iff :
    ((decode f.type (t "resp")).replace (lit "resp") (lit "buf")).str =
        (decode f.type (t "buf")).str ↔
      ∀ name, f.type.base = .user name → ¬ lit "resp" <:+: name := by
  rw [str_fieldDecode, decode, callDecode_eq_iff, pyDecodeCall_eq, callKept_iff]
  simp [inDecoder_eq_self_iff]

end

section
variable {lines lines' : List Line}

theorem text_append : text (lines ++ lines') = text lines ++ text lines' := List.flatMap_append

theorem text_map {α : Type} (f : α → Line) (xs : List α) :
    text (xs.map f) = xs.flatMap fun x => (f x).str := List.flatMap_map ..

end

theorem structEncode_plain_iff (s : StructDef) :
    text (structEncode s) = text (plainEncode s) ↔ ∀ f ∈ s.fields,
      ((encode f.type [t "val.", raw f.name] (t "req") "    ").replace (lit "req")
        (lit "buf")).str = (encode f.type [t "val.", raw f.name] (t "buf") "    ").str := by
  rw [structEncode, plainEncode]
  simp only [text_append, text_map, List.append_cancel_left_eq, List.append_cancel_right_eq]
  rw [flatMap_eq_iff fun f _ => ?_]
  · simp [line, Line.str]
  · have := length_fieldEncode_le f
    simpa [line, Line.str] using this

theorem structDecode_plain_iff (s : StructDef) :
    text (structDecode s) = text (plainDecode s) ↔ ∀ f ∈ s.fields,
      ((decode f.type (t "resp")).replace (lit "resp") (lit "buf")).str =
        (decode f.type (t "buf")).str := by
  rw [structDecode, plainDecode]
  simp only [text_append, text_map, List.append_cancel_left_eq, List.append_cancel_right_eq]
  rw [flatMap_eq_iff fun x _ => ?_]
  · have hline : ∀ x : Field × Nat, (decodeField (s.fields.length - 1) x.1 x.2).str =
        (plainDecodeField (s.fields.length - 1) x.1 x.2).str ↔
          ((decode x.1.type (t "resp")).replace (lit "resp") (lit "buf")).str =
            (decode x.1.type (t "buf")).str := fun x => by
      simp [line, Line.str, decodeField, plainDecodeField]
    simp only [hline]
    constructor
    · intro h f hf
      obtain ⟨i, hi⟩ := List.mem_iff_getElem?.mp hf
      exact h (f, i) (List.mk_mem_zipIdx_iff_getElem?.mpr hi)
    · intro h x hx
      exact h x.1 (List.mem_of_getElem? (List.mk_mem_zipIdx_iff_getElem?.mp hx))
  · have := length_fieldDecode_le x.1
    simpa [line, Line.str, decodeField, plainDecodeField] using this

/-- The codecs of a struct are the ones written with `buf` exactly when no name in their calls
has an occurrence of what is replaced. -/
theorem structCodecs_plain_iff (s : StructDef) :
    (text (structEncode s) = text (plainEncode s) ∧
      text (structDecode s) = text (plainDecode s)) ↔ ∀ f ∈ s.fields, Clear f := by
  rw [structEncode_plain_iff, structDecode_plain_iff]
  simp only [fieldEncode_plain_iff, fieldDecode_plain_iff]
  constructor
  · rintro ⟨he, hd⟩ f hf
    exact ⟨(he f hf).1, fun name hb => ⟨(he f hf).2 name hb, hd f hf name hb⟩⟩
  · intro h
    exact ⟨fun f hf => ⟨(h f hf).name, fun name hb => ((h f hf).type name hb).1⟩,
      fun f hf name hb => ((h f hf).type name hb).2⟩

/-- `struct Job { i32 request; }` -/
def job : StructDef where
  name := lit "Job"
  fields := [{ name := lit "request", type := { base := .primitive .i32 } }]

/-- `encode_Job` reads `val.bufuest`. -/
theorem not_plain_job :
    ¬ ∀ s, text (structEncode s) = text (plainEncode s) ∧
      text (structDecode s) = text (plainDecode s) := by
  intro h
  exact absurd (h job).1 (by decide +kernel)

end PyText

end Song.Compiler
