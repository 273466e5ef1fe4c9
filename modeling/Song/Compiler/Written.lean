import Song.Compiler.Parser
import Song.Compiler.Text

/-!
# How a tree is written down

The lexemes of a syntax tree, as the README describes the language, and the texts they make: the
lexemes in order, with blanks between them and around. A name or a number needs a blank or a
punctuation mark after it, a comment the end of its line.

A definition may stand anywhere among the others and a member of a class anywhere among its
members, so a tree is written in more than one way.
-/

namespace Song.Compiler

/-! ## Lexemes -/

/-- What a token is without its position. -/
structure Word where
  type : TokenType
  value : Str
  intValue : Int64 := 0
  deriving DecidableEq

def Token.word (t : Token) : Word := ⟨t.type, t.value, t.intValue⟩

namespace Word

/-- A keyword or a punctuation mark. -/
def of (type : TokenType) : Word := { type, value := tokenTypeToString type }

def ident (s : Str) : Word := { type := .identifier, value := s }

def integer (n : Int64) : Word := { type := .integer, value := toStr n.toInt, intValue := n }

/-- A line of a documentation comment. -/
def doc (line : Str) : Word := { type := .docComment, value := line }

def text (w : Word) : Str := if w.type = .docComment then lit "/// " ++ w.value else w.value

/-- The lexeme ends in front of `rest`. -/
def Ends (w : Word) (rest : Str) : Prop :=
  if w.type = .docComment then rest.head?.all (· == ch '\n') = true
  else w.value.any isWordChar = true → rest.head?.any isWordChar = false

end Word

def Blank (gap : Str) : Prop := ∀ c ∈ gap, c = ch ' ' ∨ c = ch '\t' ∨ c = ch '\r' ∨ c = ch '\n'

/-- `text` is the words `ws` with blanks between them and around. -/
inductive Laid : List Word → Str → Prop where
  | nil {gap : Str} (hgap : Blank gap) : Laid [] gap
  | cons {w : Word} {ws : List Word} {gap rest : Str} (hgap : Blank gap) (hends : w.Ends rest)
      (hrest : Laid ws rest) : Laid (w :: ws) (gap ++ w.text ++ rest)

/-! ## The lexemes of a tree -/

open Word (of ident integer)

def docWords (doc : Str) : List Word := if doc = [] then [] else (doc.splitOn 10).map Word.doc

def PrimitiveType.keyword : PrimitiveType → TokenType
  | bool => .kwBool
  | i8 => .kwI8
  | i16 => .kwI16
  | i32 => .kwI32
  | i64 => .kwI64
  | u8 => .kwU8
  | u16 => .kwU16
  | u32 => .kwU32
  | u64 => .kwU64
  | f32 => .kwF32
  | f64 => .kwF64
  | string => .kwString
  | bytes => .kwBytes
  | void => .kwVoid

def TypeBase.word : TypeBase → Word
  | primitive p => of p.keyword
  | user s => ident s

def bracketWords : Nat → List Word
  | 0 => []
  | n + 1 => of .lBracket :: of .rBracket :: bracketWords n

def Ty.marks (t : Ty) : List Word :=
  bracketWords t.arrayDimensions.toNat ++ if t.isOptional then [of .question] else []

def Ty.words (t : Ty) : List Word := t.base.word :: t.marks

def Field.words (f : Field) : List Word :=
  docWords f.doc ++ f.type.words ++ [ident f.name, of .semicolon]

/-- `: Base`. -/
def baseWords : Option Str → List Word
  | none => []
  | some base => [of .colon, ident base]

def StructDef.words (d : StructDef) : List Word :=
  docWords d.doc ++ [of .kwStruct, ident d.name] ++ baseWords d.base ++ [of .lBrace] ++
    d.fields.flatMap Field.words ++ [of .rBrace]

def ErrorDef.words (d : ErrorDef) : List Word :=
  docWords d.doc ++ [of .kwError, ident d.name] ++ baseWords d.base ++ [of .lBrace] ++
    d.fields.flatMap Field.words ++ [of .rBrace]

def EnumItem.words (i : EnumItem) : List Word :=
  docWords i.doc ++ [ident i.name] ++
    match i.value with
    | none => []
    | some v => [of .equals, integer v]

def EnumDef.words (d : EnumDef) : List Word :=
  docWords d.doc ++ [of (if d.isFlags then .kwFlags else .kwEnum), ident d.name, of .lBrace] ++
    separated (of .comma) (d.items.map EnumItem.words) ++ [of .rBrace]

def Param.words (p : Param) : List Word := p.type.words ++ [ident p.name]

/-- Parameters with their parentheses. -/
def paramWords (params : List Param) : List Word :=
  [of .lParen] ++ separated (of .comma) (params.map Param.words) ++ [of .rParen]

def Property.words (p : Property) : List Word :=
  docWords p.doc ++ (if p.readonly then [of .kwReadonly] else []) ++ p.type.words ++
    [ident p.name, of .semicolon]

def Constructor.words (className : Str) (c : Constructor) : List Word :=
  docWords c.doc ++ [ident className] ++ paramWords c.params ++ [of .semicolon]

def throwsWords (errors : List Str) : List Word :=
  if errors = [] then [] else of .kwThrows :: separated (of .comma) (errors.map fun e => [ident e])

/-- A method from its parameters on. -/
def Method.signature (m : Method) : List Word :=
  paramWords m.params ++ [of .arrow] ++ m.returnType.words ++ throwsWords m.throws ++
    [of .semicolon]

def Method.modifier (m : Method) : List Word :=
  if m.isOptional then [of .kwOptional] else if m.isStream then [of .kwStream] else []

def Method.words (m : Method) : List Word :=
  docWords m.doc ++ m.modifier ++ [ident m.name] ++ m.signature

def ServiceDef.words (d : ServiceDef) : List Word :=
  docWords d.doc ++ [of .kwService, ident d.name, of .lBrace] ++ d.methods.flatMap Method.words ++
    [of .rBrace]

namespace Parse

def Member.words (className : Str) : Member → List Word
  | property p => p.words
  | constructor c => c.words className
  | method m => m.words

end Parse

open Parse (Member Definition)

/-- The members of the class, in this order. -/
def ClassDef.wordsFor (d : ClassDef) (members : List Member) : List Word :=
  docWords d.doc ++ [of .kwClass, ident d.name] ++ baseWords d.base ++ [of .lBrace] ++
    members.flatMap (Member.words d.name) ++ [of .rBrace]

/-- The members of the class are these. -/
structure ClassDef.Consists (d : ClassDef) (members : List Member) : Prop where
  properties : d.properties = members.filterMap Member.property?
  constructors : d.constructors = members.filterMap Member.constructor?
  methods : d.methods = members.filterMap Member.method?

/-- A definition is written with these lexemes. -/
def Parse.Definition.Reads : Definition → List Word → Prop
  | .structDef d, ws => ws = d.words
  | .enumDef d, ws => ws = d.words
  | .classDef d, ws => ∃ members, d.Consists members ∧ ws = d.wordsFor members
  | .serviceDef d, ws => ws = d.words
  | .errorDef d, ws => ws = d.words

/-- The definitions of the namespace are these. -/
structure Namespace.Consists (ns : Namespace) (defs : List Definition) : Prop where
  enums : ns.enums = defs.filterMap Definition.enumDef?
  structs : ns.structs = defs.filterMap Definition.structDef?
  classes : ns.classes = defs.filterMap Definition.classDef?
  services : ns.services = defs.filterMap Definition.serviceDef?
  errors : ns.errors = defs.filterMap Definition.errorDef?

/-- A namespace is written with these lexemes. -/
def Namespace.Reads (ns : Namespace) (ws : List Word) : Prop :=
  ∃ defs : List (Definition × List Word), ns.Consists (defs.map Prod.fst) ∧
    (∀ d ∈ defs, d.1.Reads d.2) ∧
      ws = [of .kwNamespace, ident ns.name, of .semicolon] ++ defs.flatMap Prod.snd

/-- `text` is a way of writing the namespace. -/
def Namespace.Written (ns : Namespace) (text : Str) : Prop := ∃ ws, ns.Reads ws ∧ Laid ws text

/-! ## The trees that can be written -/

/-- An identifier that is not a keyword. -/
structure IsName (s : Str) : Prop where
  first : s.head?.any (fun c => isAlpha c || c == ch '_') = true
  chars : s.all isWordChar = true
  keyword : keywords.lookup s = none

namespace TypeBase

/-- The user's name is a name. -/
def Writable : TypeBase → Prop
  | primitive _ => True
  | user s => IsName s

end TypeBase

/-- Any number of `[]`s and an optional `?`. -/
structure Ty.Writable (t : Ty) : Prop where
  base : t.base.Writable
  dims : 0 ≤ t.arrayDimensions
  array : t.isArray = decide (0 < t.arrayDimensions)

structure Field.Writable (f : Field) : Prop where
  name : IsName f.name
  type : f.type.Writable

structure StructDef.Writable (d : StructDef) : Prop where
  name : IsName d.name
  base : ∀ b ∈ d.base, IsName b
  fields : ∀ f ∈ d.fields, f.Writable

structure ErrorDef.Writable (d : ErrorDef) : Prop where
  name : IsName d.name
  base : ∀ b ∈ d.base, IsName b
  fields : ∀ f ∈ d.fields, f.Writable

structure EnumDef.Writable (d : EnumDef) : Prop where
  name : IsName d.name
  items : ∀ i ∈ d.items, IsName i.name

structure Param.Writable (p : Param) : Prop where
  name : IsName p.name
  type : p.type.Writable

structure Property.Writable (p : Property) : Prop where
  name : IsName p.name
  type : p.type.Writable

def Constructor.Writable (c : Constructor) : Prop := ∀ p ∈ c.params, p.Writable

/-- One modifier at most. -/
structure Method.Writable (m : Method) : Prop where
  name : IsName m.name
  params : ∀ p ∈ m.params, p.Writable
  returnType : m.returnType.Writable
  throws : ∀ e ∈ m.throws, IsName e
  modifier : ¬ (m.isOptional = true ∧ m.isStream = true)

structure ClassDef.Writable (d : ClassDef) : Prop where
  name : IsName d.name
  base : ∀ b ∈ d.base, IsName b
  properties : ∀ p ∈ d.properties, p.Writable
  constructors : ∀ c ∈ d.constructors, c.Writable
  methods : ∀ m ∈ d.methods, m.Writable

structure ServiceDef.Writable (d : ServiceDef) : Prop where
  name : IsName d.name
  methods : ∀ m ∈ d.methods, m.Writable

structure Namespace.Writable (ns : Namespace) : Prop where
  name : IsName ns.name
  enums : ∀ d ∈ ns.enums, d.Writable
  structs : ∀ d ∈ ns.structs, d.Writable
  classes : ∀ d ∈ ns.classes, d.Writable
  services : ∀ d ∈ ns.services, d.Writable
  errors : ∀ d ∈ ns.errors, d.Writable

/-- The explicit values. -/
def EnumDef.values (d : EnumDef) : List Int64 := d.items.filterMap EnumItem.value

def Namespace.values (ns : Namespace) : List Int64 := ns.enums.flatMap EnumDef.values

/-! ### Members and definitions one by one -/

namespace Parse

def Member.Writable : Member → Prop
  | property p => p.Writable
  | constructor c => c.Writable
  | method m => m.Writable

def Definition.Writable : Definition → Prop
  | structDef d => d.Writable
  | enumDef d => d.Writable
  | classDef d => d.Writable
  | serviceDef d => d.Writable
  | errorDef d => d.Writable

end Parse

theorem ClassDef.Writable.members {d : ClassDef} (hd : d.Writable) {members : List Member}
    (h : d.Consists members) : ∀ m ∈ members, m.Writable := by
  intro m hm
  cases m with
  | property p =>
    refine hd.properties p ?_
    rw [h.properties]
    exact List.mem_filterMap.mpr ⟨_, hm, rfl⟩
  | constructor c =>
    refine hd.constructors c ?_
    rw [h.constructors]
    exact List.mem_filterMap.mpr ⟨_, hm, rfl⟩
  | method m =>
    refine hd.methods m ?_
    rw [h.methods]
    exact List.mem_filterMap.mpr ⟨_, hm, rfl⟩

theorem Namespace.Writable.definitions {ns : Namespace} (hns : ns.Writable)
    {ds : List Definition} (h : ns.Consists ds) : ∀ d ∈ ds, d.Writable := by
  intro d hd
  cases d with
  | structDef d =>
    refine hns.structs d ?_
    rw [h.structs]
    exact List.mem_filterMap.mpr ⟨_, hd, rfl⟩
  | enumDef d =>
    refine hns.enums d ?_
    rw [h.enums]
    exact List.mem_filterMap.mpr ⟨_, hd, rfl⟩
  | classDef d =>
    refine hns.classes d ?_
    rw [h.classes]
    exact List.mem_filterMap.mpr ⟨_, hd, rfl⟩
  | serviceDef d =>
    refine hns.services d ?_
    rw [h.services]
    exact List.mem_filterMap.mpr ⟨_, hd, rfl⟩
  | errorDef d =>
    refine hns.errors d ?_
    rw [h.errors]
    exact List.mem_filterMap.mpr ⟨_, hd, rfl⟩

end Song.Compiler
