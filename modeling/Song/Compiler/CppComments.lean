import Song.Compiler.Constants
import Song.Compiler.CppText.Files
import Song.Compiler.Lexical
import Song.Compiler.Written

/-!
# The lines of the header and their comments

Whatever the names of a namespace are, a line of its header ends the strings and comments that it
begins (`sound_header`), so that the documentation in front of it decides whether it is read. What
the line says does not depend on documentation (`codes_header`).
-/

namespace Song.Compiler

/-! ## Text that ends with its line -/

namespace CppText

theorem tame_lit {cs : List Char} (h : tame (cs.map fun c => UInt8.ofNat c.toNat) = true) :
    tame (lit (String.ofList cs)) = true := by
  rwa [lit, String.toList_ofList]

/-- A character that may stand anywhere. -/
def isPlain (b : UInt8) : Bool := b != 10 && b != 92 && b != 42

theorem tame_of_plain {s : Str} (h : ∀ b ∈ s, isPlain b = true) : tame s = true := by
  have hfrom : ∀ first, tameFrom first s = true := by
    induction s with
    | nil => exact fun _ => rfl
    | cons b s ih =>
      intro first
      obtain ⟨hb, hs⟩ := List.forall_mem_cons.mp h
      obtain ⟨hb, h42⟩ := Bool.and_eq_true_iff.mp hb
      obtain ⟨h10, h92⟩ := Bool.and_eq_true_iff.mp hb
      exact tameFrom_cons.mpr ⟨bne_iff_ne.mp h10, bne_iff_ne.mp h92,
        fun h => bne_iff_ne.mp h42 h.2, ih hs _⟩
  exact hfrom true

theorem isPlain_of_isWordChar {b : UInt8} (h : isWordChar b = true) : isPlain b = true := by
  have hne : ∀ c : UInt8, isWordChar c = false → b ≠ c := by
    rintro c hc rfl
    rw [hc] at h
    cases h
  simp only [isPlain, Bool.and_eq_true, bne_iff_ne]
  exact ⟨⟨hne 10 rfl, hne 92 rfl⟩, hne 42 rfl⟩

theorem tame_toStr (n : Int) : tame (toStr n) = true := by
  refine tame_of_plain fun b hb => ?_
  have hne : ∀ c : UInt8, ¬ (48 ≤ c.toNat ∧ c.toNat ≤ 57) → c ≠ 45 → b ≠ c := by
    rintro c hd hs rfl
    exact notMem_toStr_int hd hs n hb
  simp only [isPlain, Bool.and_eq_true, bne_iff_ne]
  exact ⟨⟨hne 10 (by decide) (by decide), hne 92 (by decide) (by decide)⟩,
    hne 42 (by decide) (by decide)⟩

theorem tame_repeated {s : Str} (h : tame s = true) (n : Nat) : tame (repeated n s) = true := by
  induction n with
  | zero => rfl
  | succ n ih =>
    rw [repeated, List.replicate_succ, List.flatten_cons]
    exact tame_append h ih

theorem tame_suffix (p : PrimitiveType) : tame p.suffix = true := by
  cases p <;> exact tame_lit rfl

end CppText

open CppText (tame tame_append tame_lit)

theorem IsName.tame {s : Str} (h : IsName s) : tame s = true :=
  CppText.tame_of_plain fun b hb => CppText.isPlain_of_isWordChar (List.all_eq_true.mp h.chars b hb)

theorem tame_baseType {base : TypeBase} : base.Writable →
    tame (match base with
      | .primitive p => primitiveToCpp p
      | .user name => name) = true := by
  intro h
  cases base with
  | primitive p => cases p <;> exact tame_lit rfl
  | user name => exact IsName.tame h

theorem Ty.tame_typeToCpp {type : Ty} (h : type.base.Writable) : tame (typeToCpp type) = true := by
  have hbase := tame_baseType h
  simp only [typeToCpp]
  by_cases ha : type.isArray = true
  · rw [if_pos ha]
    refine tame_append (tame_append ?_ hbase) ?_
    · exact CppText.tame_repeated (tame_lit rfl) _
    · exact CppText.tame_repeated (tame_lit rfl) _
  · rw [if_neg ha]
    by_cases ho : type.isOptional = true
    · rw [if_pos ho]
      exact tame_append (tame_append (tame_lit rfl) hbase) (tame_lit rfl)
    · rw [if_neg ho]
      exact hbase

theorem Ty.Writable.tame {type : Ty} (h : type.Writable) : tame (typeToCpp type) = true :=
  type.tame_typeToCpp h.base

namespace CppText

open Piece (var own)

/-! ## Lines -/

/-- The pieces end with their line. -/
def Tidy (c : Code) : Prop := ∀ p ∈ c, tame (p.str Mark.str) = true

/-- The documentation does not end in a backslash. -/
def Ended (doc : Str) : Prop := doc.getLast? ≠ some 92

theorem ended_nil : Ended [] := nofun

/-- The line is read whatever stands in front of it. -/
structure Line.Sound (l : Line) : Prop where
  indent : ∀ b ∈ l.indent, b = 32
  suffix : tame l.suffix = true
  code : Tidy l.code
  doc : Ended l.doc

def Sound (ls : List Line) : Prop := ∀ l ∈ ls, l.Sound

section
variable {c c' : Code} {p : Piece Mark} {s : String} {n : Str} {l : Line} {ls ls' : List Line}

theorem tame_str (h : Tidy c) : tame c.str = true := by
  induction c with
  | nil => rfl
  | cons p c ih =>
    obtain ⟨hp, hc⟩ := List.forall_mem_cons.mp h
    exact tame_append hp (ih hc)

@[simp] theorem tidy_nil : Tidy [] := List.forall_mem_nil _

theorem tidy_cons : Tidy (p :: c) ↔ tame (p.str Mark.str) = true ∧ Tidy c := List.forall_mem_cons

@[simp] theorem tidy_append : Tidy (c ++ c') ↔ Tidy c ∧ Tidy c' := List.forall_mem_append

@[simp] theorem tidy_t (h : tame (lit s) = true) : Tidy (t s :: c) ↔ Tidy c :=
  tidy_cons.trans (and_iff_right h)

@[simp] theorem tidy_own (h : tame (lit s) = true) : Tidy (own s :: c) ↔ Tidy c :=
  tidy_cons.trans (and_iff_right h)

@[simp] theorem tidy_var (h : tame (lit s) = true) : Tidy (var s :: c) ↔ Tidy c :=
  tidy_cons.trans (and_iff_right h)

@[simp] theorem tidy_raw : Tidy (raw n :: c) ↔ tame n = true ∧ Tidy c := tidy_cons

@[simp] theorem tidy_named : Tidy (named n :: c) ↔ tame n = true ∧ Tidy c := tidy_cons

@[simp] theorem tidy_bind {who : Option Nat} :
    Tidy (.bind who n :: c) ↔ tame n = true ∧ Tidy c := tidy_cons

@[simp] theorem tidy_use {who : Option Nat} :
    Tidy (.use who n :: c) ↔ tame n = true ∧ Tidy c := tidy_cons

@[simp] theorem tidy_enter : Tidy (.enter :: c) ↔ Tidy c := tidy_cons.trans (and_iff_right rfl)

@[simp] theorem tidy_leave : Tidy (.leave :: c) ↔ Tidy c := tidy_cons.trans (and_iff_right rfl)

@[simp] theorem tidy_calls {h : Helper} : Tidy (calls h :: c) ↔ tame h.name = true ∧ Tidy c :=
  tidy_cons

@[simp] theorem tidy_declares {h : Helper} {linkage : Linkage} :
    Tidy (declares h linkage :: c) ↔ tame h.name = true ∧ Tidy c := tidy_cons

@[simp] theorem tidy_member {type : Ty} :
    Tidy (member type :: c) ↔ tame (typeToCpp type) = true ∧ Tidy c := tidy_cons

@[simp] theorem tidy_closes : Tidy (closes n :: c) ↔ Tidy c :=
  tidy_cons.trans (and_iff_right (tame_lit rfl))

@[simp] theorem sound_nil : Sound [] := List.forall_mem_nil _

@[simp] theorem sound_cons : Sound (l :: ls) ↔ l.Sound ∧ Sound ls := List.forall_mem_cons

@[simp] theorem sound_append : Sound (ls ++ ls') ↔ Sound ls ∧ Sound ls' := List.forall_mem_append

@[simp] theorem sound_flatMap {α : Type} {f : α → List Line} {xs : List α} :
    Sound (xs.flatMap f) ↔ ∀ x ∈ xs, Sound (f x) := List.forall_mem_flatMap

@[simp] theorem sound_map {α : Type} {f : α → Line} {xs : List α} :
    Sound (xs.map f) ↔ ∀ x ∈ xs, (f x).Sound := List.forall_mem_map

@[simp] theorem tidy_unless {q : Prop} [Decidable q] :
    Tidy (if q then [] else c) ↔ ¬ q → Tidy c := by
  split
  · next hq => exact iff_of_true tidy_nil fun h => absurd hq h
  · next hq => exact ⟨fun h _ => h, fun h => h hq⟩

@[simp] theorem sound_unless {q : Prop} [Decidable q] :
    Sound (if q then [] else ls) ↔ ¬ q → Sound ls := by
  split
  · next hq => exact iff_of_true sound_nil fun h => absurd hq h
  · next hq => exact ⟨fun h _ => h, fun h => h hq⟩

theorem Line.Sound.closed (h : l.Sound) : l.Closed :=
  ⟨h.indent, getLast_of_tame h.suffix, newline_of_tame h.suffix, tame_str h.code⟩

@[simp] theorem sound_line : (line c).Sound ↔ Tidy c :=
  ⟨fun h => h.code, fun h => ⟨List.forall_mem_nil _, rfl, h, ended_nil⟩⟩

@[simp] theorem sound_blank : blank.Sound := sound_line.mpr tidy_nil

/-- In front of a line at the margin. -/
@[simp] theorem sound_outer {doc : Str} (h : tame (lit s) = true) :
    (documented doc "" c s).Sound ↔ Ended doc ∧ Tidy c :=
  ⟨fun h => ⟨h.doc, h.code⟩, fun ⟨hdoc, hc⟩ => ⟨List.forall_mem_nil _, h, hc, hdoc⟩⟩

/-- In front of a member. -/
@[simp] theorem sound_inner {doc : Str} :
    (documented doc "    " c).Sound ↔ Ended doc ∧ Tidy c :=
  have hindent : ∀ b ∈ lit "    ", b = 32 := spaces rfl
  ⟨fun h => ⟨h.doc, h.code⟩, fun ⟨hdoc, hc⟩ => ⟨hindent, rfl, hc, hdoc⟩⟩

end

/-! ## Calls and parameters -/

/-- The names in a call end with their line. -/
def TameCall : Call → Prop
  | .prim _ => True
  | .user name | .userArray name => tame name = true
  | .template elem => tame elem.text = true
  | .optional inner => TameCall inner

section
variable {type : Ty} {buf : Piece Mark} {expr : Code} {call : Call} {params : List Param}

theorem tameCall_baseType {base : TypeBase} : base.Writable →
    TameCall (match base with
      | .primitive p => .prim p
      | .user name => .user name) := by
  intro h
  cases base with
  | primitive p => trivial
  | user name => exact IsName.tame h

theorem tameCall_encodeCall (h : type.base.Writable) : TameCall (encodeCall type) := by
  have helem : tame (cppType type.elem).text = true := by
    rw [text_cppType]
    exact Ty.tame_typeToCpp h
  unfold encodeCall
  split
  · split
    · next name _ hb =>
      rw [show type.elem.base = type.base from rfl] at hb
      rw [hb] at h
      exact IsName.tame h
    · exact helem
  · have hbase := tameCall_baseType h
    show TameCall (if _ then _ else _)
    split
    · exact hbase
    · exact hbase

theorem tame_encode {name : Str} (h : tame name = true) : tame (Helper.encode name).name = true :=
  tame_append (tame_lit rfl) h

theorem tame_decode {name : Str} (h : tame name = true) : tame (Helper.decode name).name = true :=
  tame_append (tame_lit rfl) h

theorem tame_encodeArray {name : Str} (h : tame name = true) :
    tame (Helper.encodeArray name).name = true :=
  tame_append (tame_lit rfl) h

theorem tame_decodeArray {name : Str} (h : tame name = true) :
    tame (Helper.decodeArray name).name = true :=
  tame_append (tame_lit rfl) h

theorem tidy_callEncode (hbuf : tame (buf.str Mark.str) = true) (he : Tidy expr)
    (h : TameCall call) : Tidy (callEncode buf expr call) := by
  -- a function, applied to the buffer and what is encoded
  have hcall : ∀ {f : Piece Mark} {expr : Code}, tame (f.str Mark.str) = true → Tidy expr →
      Tidy ([f, t "(", buf, t ", "] ++ expr ++ [t ")"]) := by
    intro f expr hf he
    simp (disch := exact tame_lit rfl) [tidy_cons (p := f), tidy_cons (p := buf), hf, hbuf, he]
  induction call generalizing expr with
  | prim p =>
    cases p with
    | void => exact tidy_nil
    | _ => exact hcall (tame_append (tame_lit rfl) (tame_suffix _)) he
  | user name => exact hcall (tame_encode h) he
  | userArray name => exact hcall (tame_encodeArray h) he
  | template elem => exact hcall (tame_append (tame_append (tame_lit rfl) h) (tame_lit rfl)) he
  | optional inner ih =>
    have hv : Tidy (callEncode buf [var "v"] inner) :=
      ih (by simp (disch := exact tame_lit rfl)) h
    simp (disch := exact tame_lit rfl) [callEncode, tidy_cons (p := buf), hbuf, he, hv]

theorem tidy_callDecode {inner : Str} (hbuf : tame (buf.str Mark.str) = true)
    (hi : tame inner = true) (h : TameCall call) : Tidy (callDecode inner buf call) := by
  have hcall : ∀ {f : Piece Mark}, tame (f.str Mark.str) = true →
      Tidy [f, t "(", buf, t ")"] := by
    intro f hf
    simp (disch := exact tame_lit rfl) [tidy_cons (p := f), tidy_cons (p := buf), hf, hbuf]
  induction call with
  | prim p =>
    cases p with
    | void => exact tidy_nil
    | _ => exact hcall (tame_append (tame_lit rfl) (tame_suffix _))
  | user name => exact hcall (tame_decode h)
  | userArray name => exact hcall (tame_decodeArray h)
  | template elem => exact hcall (tame_append (tame_append (tame_lit rfl) h) (tame_lit rfl))
  | optional call ih =>
    simp (disch := exact tame_lit rfl) [callDecode, tidy_cons (p := buf), hbuf, hi, ih h]

theorem tidy_encode (h : type.Writable) (hbuf : tame (buf.str Mark.str) = true)
    (he : Tidy expr) : Tidy (encode type expr buf) :=
  tidy_callEncode hbuf he (tameCall_encodeCall h.base)

theorem tidy_decode (h : type.Writable) (hbuf : tame (buf.str Mark.str) = true) :
    Tidy (decode type buf) :=
  tidy_callDecode hbuf (@Ty.tame_typeToCpp { type with isOptional := false } h.base)
    (tameCall_encodeCall h.base)

theorem tidy_separated {sep : Piece Mark} {cs : List Code} (hsep : tame (sep.str Mark.str) = true)
    (h : ∀ c ∈ cs, Tidy c) : Tidy (separated sep cs) := by
  cases cs with
  | nil => exact tidy_nil
  | cons c cs =>
    obtain ⟨hc, hcs⟩ := List.forall_mem_cons.mp h
    rw [separated_cons, tidy_append]
    exact ⟨hc, List.forall_mem_flatMap.mpr fun c' hc' => tidy_cons.mpr ⟨hsep, hcs c' hc'⟩⟩

theorem tidy_typeToParam {p : Piece Mark} (h : type.Writable) (hp : tame (p.str Mark.str) = true) :
    Tidy (typeToParam type p) := by
  have htype : tame (if byRef type then lit "const " ++ typeToCpp type ++ lit "& "
      else typeToCpp type ++ lit " ") = true := by
    split
    · exact tame_append (tame_append (tame_lit rfl) h.tame) (tame_lit rfl)
    · exact tame_append h.tame (tame_lit rfl)
  exact tidy_cons.mpr ⟨htype, tidy_cons.mpr ⟨hp, tidy_nil⟩⟩

theorem forall_zipIdx {α : Type} {xs : List α} {n : Nat} {P : α → Prop} (h : ∀ x ∈ xs, P x) :
    ∀ x ∈ xs.zipIdx n, P x.1 :=
  fun _ hx => h _ (List.fst_mem_of_mem_zipIdx hx)

theorem tidy_paramPieces (h : ∀ p ∈ params, p.Writable) :
    ∀ c ∈ paramPieces params typeToParam, Tidy c :=
  List.forall_mem_map.mpr fun x hx =>
    tidy_typeToParam (forall_zipIdx h x hx).type (forall_zipIdx h x hx).name.tame

theorem tidy_methodParams (h : ∀ p ∈ params, p.Writable) : Tidy (generateMethodParams params) :=
  tidy_separated (tame_lit rfl) (tidy_paramPieces h)

theorem tidy_argPieces (h : ∀ p ∈ params, p.Writable) : ∀ c ∈ argPieces params, Tidy c :=
  List.forall_mem_map.mpr fun x hx => by simp [(forall_zipIdx h x hx).name.tame]

theorem tidy_args (h : ∀ p ∈ params, p.Writable) :
    Tidy (separated (t ", ") (argPieces params)) :=
  tidy_separated (tame_lit rfl) (tidy_argPieces h)

theorem tidy_comma : Tidy (comma params) := by
  unfold comma
  split
  · exact tidy_nil
  · simp (disch := exact tame_lit rfl)

theorem sound_encodeParams {indent buf : String} (h : ∀ p ∈ params, p.Writable)
    (hi : tame (lit indent) = true) (hb : tame (lit buf) = true) :
    Sound (encodeParams indent buf params) := by
  rw [encodeParams, sound_map]
  intro x hx
  have hp := forall_zipIdx h x hx
  have hcode : Tidy (encode x.1.type [.use (some x.2) x.1.name] (var buf)) :=
    tidy_encode hp.type hb (by simp [hp.name.tame])
  simp (disch := first | assumption | exact tame_lit rfl) [hcode]

theorem sound_decodeParams {buf : String} (h : ∀ p ∈ params, p.Writable)
    (hb : tame (lit buf) = true) : Sound (decodeParams buf params) := by
  rw [decodeParams, sound_map]
  intro x hx
  have hp := forall_zipIdx h x hx
  have hcode : Tidy (decode x.1.type (var buf)) := tidy_decode hp.type hb
  simp (disch := exact tame_lit rfl) [hcode, hp.type.tame, hp.name.tame]

end

/-! ## Structs and enums -/

section
variable {s : StructDef} {e : EnumDef} {D : Set Str} {name : Str}

theorem sound_structDef (h : s.Writable) (hd : s.DocsIn {d | Ended d} {d | Ended d}) :
    Sound (generateStructDef s) := by
  have hfields : ∀ f ∈ s.fields, Ended f.doc ∧ tame (typeToCpp f.type) = true ∧
      tame f.name = true :=
    fun f hf => ⟨hd.fields f hf, (h.fields f hf).type.tame, (h.fields f hf).name.tame⟩
  have hdoc : Ended s.doc := hd.doc
  simp (disch := exact tame_lit rfl) [generateStructDef, hdoc, h.name.tame]
  exact hfields

theorem sound_structEncode (h : s.Writable) : Sound (generateStructEncode s) := by
  have hfields : ∀ f ∈ s.fields, Tidy (encode f.type [t "val.", raw f.name] (t "buf")) := by
    intro f hf
    refine tidy_encode (h.fields f hf).type (tame_lit rfl) ?_
    simp (disch := exact tame_lit rfl) [(h.fields f hf).name.tame]
  simp (disch := exact tame_lit rfl) [generateStructEncode, h.name.tame, tame_encode h.name.tame]
  exact hfields

theorem sound_structDecode (h : s.Writable) : Sound (generateStructDecode s) := by
  have hfields : ∀ f ∈ s.fields, tame f.name = true ∧ Tidy (decode f.type (t "buf")) :=
    fun f hf => ⟨(h.fields f hf).name.tame, tidy_decode (h.fields f hf).type (tame_lit rfl)⟩
  simp (disch := exact tame_lit rfl) [generateStructDecode, h.name.tame, tame_decode h.name.tame]
  exact hfields

theorem sound_arrayEncode (h : tame name = true) : Sound (arrayEncode name) := by
  simp (disch := exact tame_lit rfl) [arrayEncode, h, tame_encode h, tame_encodeArray h]

theorem sound_arrayDecode (h : tame name = true) : Sound (arrayDecode name) := by
  simp (disch := exact tame_lit rfl) [arrayDecode, h, tame_decode h, tame_decodeArray h]

theorem tame_wireSuffix : tame (enumWireSuffix e) = true := by
  unfold enumWireSuffix
  split <;> exact tame_lit rfl

theorem sound_enumEncode (h : tame e.name = true) : Sound (generateEnumEncode e) := by
  simp (disch := exact tame_lit rfl) [generateEnumEncode, h, tame_encode h, tame_wireSuffix]

theorem sound_enumDecode (h : tame e.name = true) : Sound (generateEnumDecode e) := by
  simp (disch := exact tame_lit rfl) [generateEnumDecode, h, tame_decode h, tame_wireSuffix]

theorem sound_enumCases (h : tame e.name = true) {items : List EnumItem}
    (hi : ∀ i ∈ items, IsName i.name) (seen : List Int64) (next : Int64) :
    Sound (enumCases e seen next items) := by
  induction items generalizing seen next with
  | nil => exact sound_nil
  | cons item items ih =>
    obtain ⟨hitem, hi⟩ := List.forall_mem_cons.mp hi
    simp only [enumCases]
    split
    · exact ih hi _ _
    · rw [sound_cons]
      refine ⟨?_, ih hi _ _⟩
      simp (disch := exact tame_lit rfl) [h, hitem.tame]

theorem sound_enumName (h : e.Writable) : Sound (generateEnumName e) := by
  simp (disch := exact tame_lit rfl) [generateEnumName, h.name.tame,
    sound_enumCases h.name.tame h.items]

theorem sound_enumItem {i : EnumItem} (h : IsName i.name) (hd : Ended i.doc) (last n : Nat) :
    (enumItem last i n).Sound := by
  have hcomma : Tidy (if n < last then [t ","] else []) := by
    split
    · simp (disch := exact tame_lit rfl)
    · exact tidy_nil
  unfold enumItem
  rw [sound_inner, tidy_append, tidy_append]
  refine ⟨hd, ⟨?_, ?_⟩, hcomma⟩
  · simp (disch := exact tame_lit rfl) [h.tame]
  · split
    · simp (disch := exact tame_lit rfl) [tame_toStr]
    · exact tidy_nil

theorem sound_enumDef (h : e.Writable) (hd : e.DocsIn {d | Ended d} {d | Ended d}) :
    Sound (generateEnumDef e) := by
  have hitems : ∀ x ∈ e.items.zipIdx, (enumItem (e.items.length - 1) x.1 x.2).Sound :=
    fun x hx => sound_enumItem (forall_zipIdx h.items x hx)
      (forall_zipIdx (P := fun i => Ended i.doc) hd.items x hx) _ _
  have hdoc : Ended e.doc := hd.doc
  rw [generateEnumDef, sound_append, sound_cons, sound_map]
  refine ⟨⟨?_, hitems⟩, ?_⟩
  · simp (disch := exact tame_lit rfl) [hdoc, h.name.tame, tame_wireSuffix]
  · simp

end

/-! ## Services -/

section
variable {owner name : Str}

theorem tame_qualified (ho : tame owner = true) (h : tame name = true) :
    tame (qualified owner name) = true :=
  tame_append (tame_append ho (tame_lit rfl)) h

theorem tame_kService (h : tame name = true) : tame (Cpp.kService name) = true :=
  tame_append (tame_lit rfl) h

theorem tame_kServiceStream (h : tame name = true) : tame (Cpp.kServiceStream name) = true :=
  tame_append (tame_append (tame_lit rfl) h) (tame_lit rfl)

theorem tame_kMethod (ho : tame owner = true) (h : tame name = true) :
    tame (Cpp.kMethod owner name) = true :=
  tame_append (tame_lit rfl) (tame_qualified ho h)

theorem tame_kType (h : tame name = true) : tame (Cpp.kType name) = true :=
  tame_append (tame_lit rfl) h

theorem tame_kProp (ho : tame owner = true) (h : tame name = true) :
    tame (Cpp.kProp owner name) = true :=
  tame_append (tame_lit rfl) (tame_qualified ho h)

theorem tame_kCtor (ho : tame owner = true) (n : Nat) : tame (Cpp.kCtor owner n) = true :=
  tame_append (tame_lit rfl) (tame_qualified ho (tame_toStr n))

end

section
variable {s : ServiceDef} {m : Method}

theorem sound_streamMethod (hs : tame s.name = true) (hm : m.Writable) (hd : Ended m.doc) :
    Sound (streamMethod s m) := by
  have hchunk : Tidy (decode m.returnType (var "song_chunk")) :=
    tidy_decode hm.returnType (tame_lit rfl)
  have hparams : Sound (encodeParams "        " "req" m.params) :=
    sound_encodeParams hm.params (tame_lit rfl) (tame_lit rfl)
  simp (disch := exact tame_lit rfl) [streamMethod, hd, hm.name.tame, hm.returnType.tame,
    tidy_methodParams hm.params, tidy_comma, hparams, hchunk, tame_kServiceStream hs,
    tame_kMethod hs hm.name.tame]

theorem sound_unaryMethod (hs : tame s.name = true) (hm : m.Writable) (hd : Ended m.doc) :
    Sound (unaryMethod s m) := by
  have hresp : Tidy (decode m.returnType (var "resp")) :=
    tidy_decode hm.returnType (tame_lit rfl)
  have hparams : Sound (encodeParams "        " "req" m.params) :=
    sound_encodeParams hm.params (tame_lit rfl) (tame_lit rfl)
  simp (disch := exact tame_lit rfl) [unaryMethod, hd, hm.name.tame, hm.returnType.tame,
    tidy_methodParams hm.params, hparams, hresp, tame_kService hs, tame_kMethod hs hm.name.tame]

theorem sound_serviceProxy (h : s.Writable) (hd : s.DocsIn {d | Ended d}) :
    Sound (generateServiceProxy s) := by
  have hmethods : ∀ m ∈ s.methods,
      Sound (if m.isStream then streamMethod s m else unaryMethod s m) := by
    intro m hm
    split
    · exact sound_streamMethod h.name.tame (h.methods m hm) (hd.methods m hm)
    · exact sound_unaryMethod h.name.tame (h.methods m hm) (hd.methods m hm)
  have hdoc : Ended s.doc := hd.doc
  simp (disch := exact tame_lit rfl) [generateServiceProxy, hdoc, h.name.tame]
  exact hmethods

theorem sound_interfaceMethod (hm : m.Writable) (hd : Ended m.doc) : (interfaceMethod m).Sound := by
  unfold interfaceMethod
  split
  · simp (disch := exact tame_lit rfl) [hd, hm.name.tame, tidy_methodParams hm.params, tidy_comma]
  · simp (disch := exact tame_lit rfl) [hd, hm.name.tame, hm.returnType.tame,
      tidy_methodParams hm.params]

theorem sound_serviceInterface (h : s.Writable) (hd : s.DocsIn {d | Ended d}) :
    Sound (generateServiceInterface s) := by
  have hmethods : ∀ m ∈ s.methods, (interfaceMethod m).Sound := fun m hm =>
    sound_interfaceMethod (h.methods m hm) (hd.methods m hm)
  have hdoc : Ended s.doc := hd.doc
  simp (disch := exact tame_lit rfl) [generateServiceInterface, hdoc, h.name.tame]
  exact hmethods

theorem sound_callWithResult {callee : Code} (hm : m.Writable) (hc : Tidy callee) :
    (callWithResult m callee).Sound := by
  simp (disch := exact tame_lit rfl) [callWithResult, hc, tidy_args hm.params]

theorem sound_encodeResult {buf : String} (hm : m.Writable) (hb : tame (lit buf) = true) :
    Sound (encodeResult m buf) := by
  have hresult : Tidy (encode m.returnType [var "result"] (var buf)) :=
    tidy_encode hm.returnType hb (by simp (disch := exact tame_lit rfl))
  simp (disch := exact tame_lit rfl) [encodeResult, hresult]

theorem sound_caseEnd : Sound caseEnd := by
  simp (disch := exact tame_lit rfl) [caseEnd]

theorem sound_dispatchCase (hs : tame s.name = true) (hm : m.Writable) :
    Sound (dispatchCase s m) := by
  have hcallee : Tidy [var "impl", t ".", raw m.name] := by
    simp (disch := exact tame_lit rfl) [hm.name.tame]
  have hparams : Sound (decodeParams "request" m.params) :=
    sound_decodeParams hm.params (tame_lit rfl)
  have hresult : Sound (encodeResult m "response") := sound_encodeResult hm (tame_lit rfl)
  simp (disch := exact tame_lit rfl) [dispatchCase, tame_kMethod hs hm.name.tame, hparams,
    sound_callWithResult hm hcallee, hresult, sound_caseEnd]

theorem sound_streamCase (hs : tame s.name = true) (hm : m.Writable) : Sound (streamCase s m) := by
  have hargs : Tidy ((argPieces m.params).flatMap (· ++ [t ", "])) := by
    refine List.forall_mem_flatMap.mpr fun c hc => ?_
    show Tidy (c ++ [t ", "])
    simp (disch := exact tame_lit rfl) [tidy_argPieces hm.params c hc]
  have hparams : Sound (decodeParams "request" m.params) :=
    sound_decodeParams hm.params (tame_lit rfl)
  simp (disch := exact tame_lit rfl) [streamCase, tame_kMethod hs hm.name.tame, hm.name.tame,
    hparams, sound_caseEnd]
  exact hargs

theorem sound_dispatchDefault {message : String} (h : tame (lit message) = true) :
    Sound (dispatchDefault message) := by
  simp (disch := first | assumption | exact tame_lit rfl) [dispatchDefault]

theorem sound_serviceDispatcher (h : s.Writable) : Sound (generateServiceDispatcher s) := by
  have hunary : ∀ m ∈ s.methods.filter fun m => !m.isStream, Sound (dispatchCase s m) :=
    fun m hm => sound_dispatchCase h.name.tame (h.methods m (List.mem_of_mem_filter hm))
  have hstream : ∀ m ∈ s.methods.filter fun m => m.isStream, Sound (streamCase s m) :=
    fun m hm => sound_streamCase h.name.tame (h.methods m (List.mem_of_mem_filter hm))
  unfold generateServiceDispatcher
  rw [sound_append, sound_append, sound_append, sound_flatMap]
  refine ⟨⟨⟨?_, hunary⟩, sound_dispatchDefault (tame_lit rfl)⟩, ?_⟩
  · simp (disch := exact tame_lit rfl) [h.name.tame]
  · split
    · rw [sound_append, sound_append, sound_flatMap]
      refine ⟨⟨?_, hstream⟩, sound_dispatchDefault (tame_lit rfl)⟩
      simp (disch := exact tame_lit rfl) [h.name.tame]
    · exact sound_nil

end

/-! ## Classes -/

section
variable {c : ClassDef} {m : Method} {p : Property} {ctor : Constructor}

set_option maxRecDepth 2000 in
theorem sound_proxyBasics (hc : tame c.name = true) : Sound (proxyBasics c) := by
  simp (disch := exact tame_lit rfl) [proxyBasics, hc]

theorem sound_proxyProperty (hc : tame c.name = true) (hp : p.Writable) (hd : Ended p.doc) :
    Sound (proxyProperty c p) := by
  have hget : Tidy (decode p.type (t "resp")) := tidy_decode hp.type (tame_lit rfl)
  have hset : Tidy (encode p.type [t "value"] (t "val")) :=
    tidy_encode hp.type (tame_lit rfl) (by simp (disch := exact tame_lit rfl))
  have hparam : Tidy (typeToParam p.type (t "value")) := tidy_typeToParam hp.type (tame_lit rfl)
  simp (disch := exact tame_lit rfl) [proxyProperty, hd, hp.name.tame, hp.type.tame, hget, hset,
    hparam, tame_kProp hc hp.name.tame]

theorem sound_proxyMethod (hc : tame c.name = true) (hm : m.Writable) (hd : Ended m.doc) :
    Sound (proxyMethod c m) := by
  have hresp : Tidy (decode m.returnType (var "resp")) :=
    tidy_decode hm.returnType (tame_lit rfl)
  have hparams : Sound (encodeParams "        " "args" m.params) :=
    sound_encodeParams hm.params (tame_lit rfl) (tame_lit rfl)
  simp (disch := exact tame_lit rfl) [proxyMethod, hd, hm.name.tame, hm.returnType.tame,
    tidy_methodParams hm.params, hparams, hresp, tame_kMethod hc hm.name.tame]

theorem sound_createFunction (hc : tame c.name = true) (h : ctor.Writable) (i : Nat) :
    Sound (createFunction c ctor i) := by
  have hpieces : Tidy ((paramPieces ctor.params typeToParam).flatMap ([t ", "] ++ ·)) := by
    refine List.forall_mem_flatMap.mpr fun code hcode => ?_
    show Tidy ([t ", "] ++ code)
    simp (disch := exact tame_lit rfl) [tidy_paramPieces h code hcode]
  have hparams : Sound (encodeParams "    " "args" ctor.params) :=
    sound_encodeParams h (tame_lit rfl) (tame_lit rfl)
  unfold createFunction
  rw [sound_append, sound_append, sound_cons, sound_cons, sound_cons, sound_line (c := _ ++ _),
    tidy_append, tidy_append]
  refine ⟨⟨⟨?_, ?_, ⟨⟨?_, hpieces⟩, ?_⟩, ?_⟩, hparams⟩, ?_⟩
  · simp
  · simp (disch := exact tame_lit rfl) [hc]
  · simp (disch := exact tame_lit rfl) [hc]
  · simp (disch := exact tame_lit rfl)
  · simp (disch := exact tame_lit rfl)
  · simp (disch := exact tame_lit rfl) [hc, tame_kType hc, tame_toStr]

theorem sound_classProxy (h : c.Writable) (hd : c.DocsIn {d | Ended d}) :
    Sound (generateClassProxy c) := by
  have hdoc : Ended c.doc := hd.doc
  unfold generateClassProxy
  simp only [sound_append, sound_flatMap]
  refine ⟨⟨⟨⟨⟨?_, sound_proxyBasics h.name.tame⟩, fun p hp => ?_⟩, fun m hm => ?_⟩, ?_⟩,
    fun x hx => ?_⟩
  · simp (disch := exact tame_lit rfl) [hdoc, h.name.tame]
  · exact sound_proxyProperty h.name.tame (h.properties p hp) (hd.properties p hp)
  · exact sound_proxyMethod h.name.tame (h.methods m hm) (hd.methods m hm)
  · simp (disch := exact tame_lit rfl)
  · exact sound_createFunction h.name.tame (forall_zipIdx h.constructors x hx) _

theorem sound_skeletonProperty (hc : tame c.name = true) (hp : p.Writable) (hd : Ended p.doc) :
    Sound (skeletonProperty c p) := by
  have hset : Tidy (encode p.type [t "value"] (t "song_notify_buf")) :=
    tidy_encode hp.type (tame_lit rfl) (by simp (disch := exact tame_lit rfl))
  have hparam : Tidy (typeToParam p.type (t "value")) := tidy_typeToParam hp.type (tame_lit rfl)
  simp (disch := exact tame_lit rfl) [skeletonProperty, hd, hp.name.tame, hp.type.tame, hset,
    hparam, tame_kProp hc hp.name.tame]

theorem sound_skeletonMethod (hm : m.Writable) (hd : Ended m.doc) : (skeletonMethod m).Sound := by
  simp (disch := exact tame_lit rfl) [skeletonMethod, hd, hm.name.tame, hm.returnType.tame,
    tidy_methodParams hm.params]

theorem tame_baseClass (h : c.Writable) : tame (baseClass c) = true := by
  unfold baseClass
  cases hb : c.base with
  | none => exact tame_lit rfl
  | some base => exact tame_append (h.base base hb).tame (tame_lit rfl)

theorem tame_upper {name : Str} (h : IsName name) : tame (upper name) = true := by
  refine tame_of_plain (List.forall_mem_map.mpr fun b hb => ?_)
  have hplain := isPlain_of_isWordChar (List.all_eq_true.mp h.chars b hb)
  split
  · next hlower =>
    -- an upper case letter
    have hletter : 65 ≤ (b - 32).toNat ∧ (b - 32).toNat ≤ 90 := by
      obtain ⟨h97, h122⟩ := hlower
      rw [UInt8.le_iff_toNat_le] at h97 h122
      rw [UInt8.toNat_sub_of_le _ _ (UInt8.le_iff_toNat_le.mpr (by simp at h97 ⊢; omega))]
      simp at h97 h122 ⊢
      omega
    have hne : ∀ c : UInt8, c.toNat < 65 ∨ 90 < c.toNat → b - 32 ≠ c := by
      rintro c hc rfl
      omega
    simp only [isPlain, Bool.and_eq_true, bne_iff_ne]
    exact ⟨⟨hne 10 (by decide), hne 92 (by decide)⟩, hne 42 (by decide)⟩
  · exact hplain

theorem sound_classSkeleton (h : c.Writable) (hd : c.DocsIn {d | Ended d}) :
    Sound (generateClassSkeleton c) := by
  have hdoc : Ended c.doc := hd.doc
  have hmembers : ∀ p ∈ c.properties, tame (typeToCpp p.type) = true ∧ tame p.name = true :=
    fun p hp => ⟨(h.properties p hp).type.tame, (h.properties p hp).name.tame⟩
  unfold generateClassSkeleton
  simp only [sound_append, sound_flatMap, sound_map]
  refine ⟨⟨⟨⟨⟨?_, fun p hp => ?_⟩, ?_⟩, fun p hp => ?_⟩, fun m hm => ?_⟩, ?_⟩
  · simp (disch := exact tame_lit rfl) [hdoc, h.name.tame, tame_baseClass h]
  · simp (disch := exact tame_lit rfl) [hmembers p hp]
  · simp (disch := exact tame_lit rfl) [h.name.tame, tame_upper h.name]
  · exact sound_skeletonProperty h.name.tame (h.properties p hp) (hd.properties p hp)
  · exact sound_skeletonMethod (h.methods m hm) (hd.methods m hm)
  · simp (disch := exact tame_lit rfl)

theorem sound_orBase {base : Code} {message : String} {id : Piece Mark} (h : c.Writable)
    (hbase : Tidy base) (hm : tame (lit message) = true) (hi : tame (id.str Mark.str) = true) :
    Sound (orBase c base message id) := by
  unfold orBase
  cases hb : c.base with
  | none =>
    simp (disch := first | assumption | exact tame_lit rfl) [tidy_cons (p := id), hi]
  | some name =>
    simp (disch := exact tame_lit rfl) [hbase, (h.base name hb).tame]

theorem sound_propGetCase (hc : tame c.name = true) (hp : p.Writable) :
    Sound (propGetCase c p) := by
  have hget : Tidy (encode p.type [t "get_", raw p.name, t "()"] (t "resp")) :=
    tidy_encode hp.type (tame_lit rfl) (by simp (disch := exact tame_lit rfl) [hp.name.tame])
  simp (disch := exact tame_lit rfl) [propGetCase, hget, tame_kProp hc hp.name.tame]

theorem sound_propSetCase (hc : tame c.name = true) (hp : p.Writable) :
    Sound (propSetCase c p) := by
  have hget : Tidy (encode p.type [t "get_", raw p.name, t "()"] (t "resp")) :=
    tidy_encode hp.type (tame_lit rfl) (by simp (disch := exact tame_lit rfl) [hp.name.tame])
  have hset : Tidy (decode p.type (t "req")) := tidy_decode hp.type (tame_lit rfl)
  simp (disch := exact tame_lit rfl) [propSetCase, hget, hset, hp.name.tame,
    tame_kProp hc hp.name.tame]

theorem sound_classCase (hc : tame c.name = true) (hm : m.Writable) : Sound (classCase c m) := by
  have hcallee : Tidy [named m.name] := by
    simp [hm.name.tame]
  have hparams : Sound (decodeParams "req" m.params) := sound_decodeParams hm.params (tame_lit rfl)
  have hresult : Sound (encodeResult m "resp") := sound_encodeResult hm (tame_lit rfl)
  simp (disch := exact tame_lit rfl) [classCase, tame_kMethod hc hm.name.tame, hparams,
    sound_callWithResult hm hcallee, hresult, sound_caseEnd]

theorem sound_classDispatcher (h : c.Writable) : Sound (generateClassDispatcher c) := by
  have hc := h.name.tame
  unfold generateClassDispatcher
  simp only [sound_append, sound_flatMap]
  refine ⟨⟨⟨⟨⟨⟨⟨⟨⟨?_, fun p hp => ?_⟩, ?_⟩, ?_⟩, fun p hp => ?_⟩, ?_⟩, ?_⟩, fun m hm => ?_⟩, ?_⟩, ?_⟩
  · simp (disch := exact tame_lit rfl) [hc]
  · exact sound_propGetCase hc (h.properties p hp)
  · exact sound_orBase h (by simp (disch := exact tame_lit rfl)) (tame_lit rfl) (tame_lit rfl)
  · simp (disch := exact tame_lit rfl) [hc]
  · exact sound_propSetCase hc (h.properties p hp)
  · exact sound_orBase h (by simp (disch := exact tame_lit rfl)) (tame_lit rfl) (tame_lit rfl)
  · simp (disch := exact tame_lit rfl) [hc]
  · exact sound_classCase hc (h.methods m hm)
  · exact sound_orBase h (by simp (disch := exact tame_lit rfl)) (tame_lit rfl) (tame_lit rfl)
  · simp (disch := exact tame_lit rfl)

theorem sound_factoryCase (hc : tame c.name = true) (h : ctor.Writable) (i : Nat) :
    Sound (factoryCase c ctor i) := by
  have hnone : Sound (if ctor.params.isEmpty then
      [line [t "            (void)", var "args", t ";"]] else []) := by
    split
    · simp (disch := exact tame_lit rfl)
    · exact sound_nil
  unfold factoryCase
  rw [sound_append, sound_append, sound_append]
  refine ⟨⟨⟨?_, hnone⟩, sound_decodeParams h (tame_lit rfl)⟩, ?_⟩
  · simp (disch := exact tame_lit rfl) [tame_kCtor hc]
  · simp (disch := exact tame_lit rfl) [tidy_args h]

theorem sound_classFactory (h : c.Writable) : Sound (generateClassFactory c) := by
  have hc := h.name.tame
  unfold generateClassFactory
  rw [sound_append, sound_append]
  refine ⟨⟨?_, ?_⟩, ?_⟩
  · simp (disch := exact tame_lit rfl) [hc, tame_kType hc]
  · split
    · simp (disch := exact tame_lit rfl)
    · rw [sound_append, sound_append, sound_flatMap]
      refine ⟨⟨?_, fun x hx => ?_⟩, ?_⟩
      · simp (disch := exact tame_lit rfl)
      · exact sound_factoryCase hc (forall_zipIdx h.constructors x hx) _
      · simp (disch := exact tame_lit rfl)
  · simp (disch := exact tame_lit rfl) [hc]

end

/-! ## The header -/

section
variable {ns : Namespace}

theorem sound_constantLine {type : String} {name : Str} {value : Nat}
    (ht : tame (lit type) = true) (hn : tame name = true) :
    (constantLine type name value).Sound := by
  simp (disch := first | assumption | exact tame_lit rfl) [constantLine, hn, tame_toStr]

theorem sound_serviceIds (h : ns.Writable) : Sound (generateServiceIds ns) := by
  unfold generateServiceIds
  rw [sound_cons, sound_flatMap]
  refine ⟨by simp (disch := exact tame_lit rfl), fun x hx => ?_⟩
  have hs : x.1.Writable := by
    refine h.services x.1 ?_
    rw [← Table.map_fst_number Cpp.idsTaken 1 ns.services]
    exact List.mem_map_of_mem hx
  have hname := hs.name.tame
  simp only [sound_append, sound_map, sound_cons, sound_blank, sound_nil, and_true]
  intro c hc
  refine sound_constantLine (tame_lit rfl) ?_
  rcases List.mem_cons.mp hc with rfl | hc
  · exact tame_kService hname
  · rcases List.mem_append.mp hc with hc | hc
    · split at hc
      · rw [List.mem_singleton.mp hc]
        exact tame_kServiceStream hname
      · exact absurd hc List.not_mem_nil
    · obtain ⟨m, hm, rfl⟩ := List.mem_map.mp hc
      exact tame_kMethod hname (forall_zipIdx hs.methods m hm).name.tame

theorem sound_classIds (h : ns.Writable) : Sound (generateClassIds ns) := by
  unfold generateClassIds
  rw [sound_cons, sound_flatMap]
  refine ⟨by simp (disch := exact tame_lit rfl), fun x hx => ?_⟩
  have hc : x.1.Writable := forall_zipIdx h.classes x hx
  have hname := hc.name.tame
  simp only [sound_append, sound_map, sound_cons, sound_blank, sound_nil, and_true]
  refine ⟨⟨⟨sound_constantLine (tame_lit rfl) (tame_kType hname), fun p hp => ?_⟩, fun c hctor => ?_⟩,
    fun m hm => ?_⟩
  · exact sound_constantLine (tame_lit rfl)
      (tame_kProp hname (forall_zipIdx hc.properties p hp).name.tame)
  · exact sound_constantLine (tame_lit rfl) (tame_kCtor hname _)
  · exact sound_constantLine (tame_lit rfl)
      (tame_kMethod hname (forall_zipIdx hc.methods m hm).name.tame)

theorem sound_headerTop (h : ns.Writable) : Sound (headerTop ns) := by
  simp (disch := exact tame_lit rfl) [headerTop, h.name.tame]

theorem sound_forwards (h : ns.Writable) : Sound (forwardStructs ns ++ forwardClasses ns) := by
  have hstructs : ∀ s ∈ ns.structs, tame s.name = true := fun s hs => (h.structs s hs).name.tame
  have hclasses : ∀ c ∈ ns.classes, tame c.name = true := fun c hc => (h.classes c hc).name.tame
  simp (disch := exact tame_lit rfl) [forwardStructs, forwardClasses]
  exact ⟨hstructs, hclasses⟩

theorem sound_enumCodecs {e : EnumDef} (h : tame e.name = true) : Sound (enumCodecs e) := by
  simp only [enumCodecs, sound_append, sound_cons, sound_blank, sound_nil, and_true]
  exact ⟨⟨⟨sound_enumEncode h, sound_enumDecode h⟩, sound_arrayEncode h⟩, sound_arrayDecode h⟩

theorem sound_structCodec {s : StructDef} (h : s.Writable) : Sound (structCodec s) := by
  simp only [structCodec, sound_append, sound_cons, sound_blank, sound_nil, and_true]
  exact ⟨sound_structEncode h, sound_structDecode h⟩

theorem sound_structArrays {s : StructDef} (h : tame s.name = true) : Sound (structArrays s) := by
  simp only [structArrays, sound_append, sound_cons, sound_blank, sound_nil, and_true]
  exact ⟨sound_arrayEncode h, sound_arrayDecode h⟩

theorem sound_forwardArrays {s : StructDef} (h : tame s.name = true) : Sound (forwardArrays s) := by
  simp (disch := exact tame_lit rfl) [forwardArrays, h, tame_encodeArray h, tame_decodeArray h]

theorem sound_structSerialization (h : ns.Writable) : Sound (structSerialization ns) := by
  unfold structSerialization
  rw [sound_unless]
  intro _
  simp only [sound_append, sound_flatMap]
  refine ⟨⟨⟨⟨?_, fun s hs => ?_⟩, ?_⟩, fun s hs => ?_⟩, fun s hs => ?_⟩
  · simp (disch := exact tame_lit rfl)
  · exact sound_forwardArrays (h.structs s hs).name.tame
  · simp (disch := exact tame_lit rfl)
  · exact sound_structCodec (h.structs s hs)
  · exact sound_structArrays (h.structs s hs).name.tame

theorem sound_headerTypes (h : ns.Writable) (hd : ns.DocsIn {d | Ended d} {d | Ended d}) :
    Sound (headerTypes ns) := by
  unfold headerTypes
  simp only [sound_append, sound_flatMap, sound_cons, sound_blank, sound_nil, and_true]
  refine ⟨⟨⟨fun e he => ?_, fun e he => ?_⟩, fun s hs => ?_⟩, sound_structSerialization h⟩
  · exact sound_enumDef (h.enums e he) (hd.enums e he)
  · exact ⟨sound_enumName (h.enums e he), sound_enumCodecs (h.enums e he).name.tame⟩
  · exact sound_structDef (h.structs s hs) (hd.structs s hs)

theorem sound_parts {α : Type} {xs : List α} {f : α → List Line} (h : ∀ x ∈ xs, Sound (f x)) :
    Sound (parts xs f) := by
  simp only [parts, sound_flatMap, sound_append, sound_cons, sound_blank, sound_nil, and_true]
  exact h

theorem sound_headerMembers (h : ns.Writable) (hd : ns.DocsIn {d | Ended d} {d | Ended d}) :
    Sound (headerMembers ns) := by
  unfold headerMembers
  simp only [sound_append]
  refine ⟨⟨⟨⟨⟨⟨?_, ?_⟩, ?_⟩, ?_⟩, ?_⟩, ?_⟩, ?_⟩
  · exact sound_parts fun s hs => sound_serviceProxy (h.services s hs) (hd.services s hs)
  · exact sound_parts fun s hs => sound_serviceInterface (h.services s hs) (hd.services s hs)
  · exact sound_parts fun s hs => sound_serviceDispatcher (h.services s hs)
  · exact sound_parts fun c hc => sound_classProxy (h.classes c hc) (hd.classes c hc)
  · exact sound_parts fun c hc => sound_classSkeleton (h.classes c hc) (hd.classes c hc)
  · exact sound_parts fun c hc => sound_classDispatcher (h.classes c hc)
  · exact sound_parts fun c hc => sound_classFactory (h.classes c hc)

/-- Every line of the header is read where no documentation ends in a backslash. -/
theorem sound_header (h : ns.Writable) (hd : ns.DocsIn {d | Ended d} {d | Ended d}) :
    Sound (generateHeader ns) := by
  have hforwards := sound_append.mp (sound_forwards h)
  unfold generateHeader
  simp only [sound_append, sound_unless]
  refine ⟨⟨⟨⟨⟨⟨⟨⟨⟨sound_headerTop h, ?_⟩, ?_⟩, fun _ => sound_serviceIds h⟩,
    fun _ => sound_classIds h⟩, hforwards.1⟩, hforwards.2⟩, sound_headerTypes h hd⟩,
    sound_headerMembers h hd⟩, ?_⟩
  · simp (disch := exact tame_lit rfl) [openNamespace, h.name.tame]
  · simp (disch := exact tame_lit rfl) [usingSong]
  · simp (disch := exact tame_lit rfl) [closeNamespace, h.name.tame]

end

end CppText

end Song.Compiler
