import Song.Compiler.Lexer
import Song.Lib.Eff

/-!
# The parser (`parser.hpp`, `parser.cpp`)

A recursive descent with one token of lookahead. Documentation comments pass by between two
tokens, and `advance` gathers them until a definition or a member takes them. How they are
gathered is a parameter (`DocRule`); the rule of the code is `pendingDoc`.

A loop of the source is bounded here by the tokens that are left. That the bound is never reached
is proved with the rest of what the parser throws.
-/

namespace Song.Compiler

/-- How `m_pending_doc` is kept. -/
structure DocRule (δ : Type) where
  empty : δ
  /-- `advance` begins. -/
  next : δ → δ
  /-- It passes a comment. -/
  add : δ → Str → δ
  text : δ → Str

/-- Text after text, with a newline in front unless there is none yet. -/
def pendingDoc : DocRule Str where
  empty := []
  next := id
  add doc line := (if doc.isEmpty then doc else doc ++ lit "\n") ++ line
  text := id

structure Parser (δ : Type) where
  stream : Stream
  current : Token
  pending : δ

abbrev Parse (δ α : Type) := EStateM FrontError (Parser δ) α

section
variable {δ : Type} (rule : DocRule δ)

/-- The loop of `advance`. -/
def Stream.next : Stream → δ → Except FrontError (Parser δ)
  | .token t rest, pending =>
    if t.type = .docComment then next rest (rule.add pending t.value)
    else .ok ⟨rest, t, pending⟩
  | .eof t, pending => .ok ⟨.eof t, t, pending⟩
  | .fails e, _ => .error e

/-- The constructor. -/
def Parser.create (stream : Stream) : Except FrontError (Parser δ) := stream.next rule rule.empty

namespace Parse

variable {α : Type}

def advance : Parse δ Unit := fun s =>
  match s.stream.next rule (rule.next s.pending) with
  | .ok s' => .ok () s'
  | .error e => .error e s

def current : Parse δ Token := fun s => .ok s.current s

def check (type : TokenType) : Parse δ Bool := fun s => .ok (s.current.type = type) s

/-- A `ParserError` at the current token. -/
def fail (msg : Str) : Parse δ α := fun s =>
  .error (.parser msg s.current.line s.current.column) s

def expect (type : TokenType) (msg : Str) : Parse δ Token := do
  let token ← current
  if token.type = type then do
    advance rule
    return token
  else fail (msg ++ lit " (got " ++ tokenTypeToString token.type ++ lit ")")

/-- `expect` of an identifier, for its text. -/
def expectName (msg : Str) : Parse δ Str := do
  let token ← expect rule .identifier msg
  return token.value

def takeDoc : Parse δ Str := fun s => .ok (rule.text s.pending) { s with pending := rule.empty }

def currentLoc : Parse δ SourceLoc := fun s => .ok ⟨s.current.line, s.current.column⟩ s

/-- The text that a definition took itself, or what was there before it. -/
def orDoc (own outer : Str) : Str := if own.isEmpty then outer else own

/-! ### Loops -/

/-- `while (!stop) items.push_back(item())`. -/
def untilStop (stop : TokenType → Bool) (item : Parse δ α) : Nat → Parse δ (List α)
  | 0 => throw .stuck
  | fuel + 1 => do
    let token ← current
    if stop token.type then return []
    else do
      let x ← item
      let xs ← untilStop stop item fuel
      return x :: xs

def many (stop : TokenType → Bool) (item : Parse δ α) : Parse δ (List α) := fun s =>
  untilStop stop item (s.stream.length + 2) s

/-- `while (check(Comma)) { advance(); items.push_back(item()); }`, left after a comma at `stop`. -/
def afterCommas (stop : TokenType → Bool) (item : Parse δ α) : Nat → Parse δ (List α)
  | 0 => throw .stuck
  | fuel + 1 => do
    if ← check .comma then do
      advance rule
      let token ← current
      if stop token.type then return []
      else do
        let x ← item
        let xs ← afterCommas stop item fuel
        return x :: xs
    else return []

def commaSeparated (stop : TokenType → Bool) (item : Parse δ α) : Parse δ (List α) := do
  let first ← item
  let more ← fun s => afterCommas rule stop item (s.stream.length + 2) s
  return first :: more

/-- The `[]`s of a type. -/
def brackets : Nat → Parse δ Nat
  | 0 => throw .stuck
  | fuel + 1 => do
    if ← check .lBracket then do
      advance rule
      let _ ← expect rule .rBracket (lit "Expected ']' after '['")
      let n ← brackets fuel
      return n + 1
    else return 0

/-- The marks after a type's base: how many dimensions, and whether it is optional. -/
def typeMarks : Parse δ (Nat × Bool) := do
  let dims ← fun s => brackets rule (s.stream.length + 2) s
  if ← check .question then do
    advance rule
    return (dims, true)
  else return (dims, false)

/-! ### Types and members -/

def tokenToPrimitive : TokenType → Option PrimitiveType
  | .kwBool => some .bool
  | .kwI8 => some .i8
  | .kwI16 => some .i16
  | .kwI32 => some .i32
  | .kwI64 => some .i64
  | .kwU8 => some .u8
  | .kwU16 => some .u16
  | .kwU32 => some .u32
  | .kwU64 => some .u64
  | .kwF32 => some .f32
  | .kwF64 => some .f64
  | .kwString => some .string
  | .kwBytes => some .bytes
  | .kwVoid => some .void
  | _ => none

def makeType (base : TypeBase) (marks : Nat × Bool) : Ty :=
  ⟨base, decide (0 < marks.1), marks.2, marks.1⟩

def parseTypeBase : Parse δ TypeBase := do
  let token ← current
  match tokenToPrimitive token.type with
  | some p => do
    advance rule
    return .primitive p
  | none =>
    if token.type = .identifier then do
      advance rule
      return .user token.value
    else fail (lit "Expected type")

def parseType : Parse δ Ty := do
  let base ← parseTypeBase rule
  let marks ← typeMarks rule
  return makeType base marks

def parseField : Parse δ Field := do
  let loc ← currentLoc
  let doc ← takeDoc rule
  let type ← parseType rule
  let name ← expectName rule (lit "Expected field name")
  let _ ← expect rule .semicolon (lit "Expected ';' after field")
  return ⟨name, type, loc, doc⟩

def parseEnumItem : Parse δ EnumItem := do
  let loc ← currentLoc
  let doc ← takeDoc rule
  let name ← expectName rule (lit "Expected enum item name")
  if ← check .equals then do
    advance rule
    let value ← expect rule .integer (lit "Expected integer value")
    return ⟨name, some value.intValue, loc, doc⟩
  else return ⟨name, none, loc, doc⟩

/-- `if (check(type)) advance();` -/
def accept (type : TokenType) : Parse δ Bool := do
  if ← check type then do
    advance rule
    return true
  else return false

def parseProperty : Parse δ Property := do
  let loc ← currentLoc
  let doc ← takeDoc rule
  let readonly ← accept rule .kwReadonly
  let type ← parseType rule
  let name ← expectName rule (lit "Expected property name")
  let _ ← expect rule .semicolon (lit "Expected ';' after property")
  return ⟨name, type, readonly, loc, doc⟩

def parseParam : Parse δ Param := do
  let loc ← currentLoc
  let type ← parseType rule
  let name ← expectName rule (lit "Expected parameter name")
  return ⟨name, type, loc⟩

/-- Parameters up to the closing parenthesis. -/
def parseParams : Parse δ (List Param) := do
  if ← check .rParen then return []
  else commaSeparated rule (fun _ => false) (parseParam rule)

def parseConstructor : Parse δ Constructor := do
  let doc ← takeDoc rule
  let _ ← expect rule .identifier (lit "Expected constructor name")
  let _ ← expect rule .lParen (lit "Expected '(' after constructor name")
  let params ← parseParams rule
  let _ ← expect rule .rParen (lit "Expected ')' after parameters")
  let _ ← expect rule .semicolon (lit "Expected ';' after constructor")
  return ⟨params, doc⟩

/-- The error types after `throws`. -/
def parseThrows : Parse δ (List Str) := do
  if ← accept rule .kwThrows then
    commaSeparated rule (fun _ => false) (expectName rule (lit "Expected error type"))
  else return []

/-- A method from the opening parenthesis on, as `parse_method` and `parse_class` each have it. -/
def parseSignature (name : Str) (loc : SourceLoc) (doc : Str) (isOptional isStream : Bool) :
    Parse δ Method := do
  let _ ← expect rule .lParen (lit "Expected '(' after method name")
  let params ← parseParams rule
  let _ ← expect rule .rParen (lit "Expected ')' after parameters")
  let _ ← expect rule .arrow (lit "Expected '->' after parameters")
  let returnType ← parseType rule
  let throws ← parseThrows rule
  let _ ← expect rule .semicolon (lit "Expected ';' after method")
  return ⟨name, params, returnType, isStream, throws, loc, doc, isOptional⟩

/-- The modifier of a method: whether it is optional, and whether it is a stream. -/
def parseModifier : Parse δ (Bool × Bool) := do
  if ← accept rule .kwOptional then return (true, false)
  else do
    let isStream ← accept rule .kwStream
    return (false, isStream)

def parseMethod : Parse δ Method := do
  let loc ← currentLoc
  let doc ← takeDoc rule
  let modifier ← parseModifier rule
  let name ← expectName rule (lit "Expected method name")
  parseSignature rule name loc doc modifier.1 modifier.2

/-! ### Classes -/

inductive Member where
  | property (p : Property)
  | constructor (c : Constructor)
  | method (m : Method)

/-- The end of a property whose type was an identifier. Its marks stand after the name. -/
def parseUserProperty (typeName doc : Str) : Parse δ Member := do
  let name ← expectName rule (lit "Expected property name")
  let loc ← currentLoc
  let marks ← typeMarks rule
  let _ ← expect rule .semicolon (lit "Expected ';' after property")
  return .property ⟨name, makeType (.user typeName) marks, false, loc, doc⟩

def parsePrimitiveProperty (doc : Str) : Parse δ Member := do
  let type ← parseType rule
  let name ← expectName rule (lit "Expected property name")
  let loc ← currentLoc
  let _ ← expect rule .semicolon (lit "Expected ';' after property")
  return .property ⟨name, type, false, loc, doc⟩

/-- What follows the first identifier of a member: a method's parameters or a property's name. -/
def parseNamed (firstIdent doc : Str) : Parse δ Member := do
  if ← check .lParen then do
    let loc ← currentLoc
    let method ← parseSignature rule firstIdent loc doc false false
    return .method method
  else parseUserProperty rule firstIdent doc

def parseMember (className : Str) : Parse δ Member := do
  let memberDoc ← takeDoc rule
  let token ← current
  if token.type = .kwReadonly then do
    let prop ← parseProperty rule
    return .property { prop with doc := orDoc prop.doc memberDoc }
  else if token.type = .identifier ∧ token.value = className then do
    let ctor ← parseConstructor rule
    return .constructor { ctor with doc := orDoc ctor.doc memberDoc }
  else if token.type = .kwStream ∨ token.type = .kwOptional then do
    let method ← parseMethod rule
    return .method { method with doc := orDoc method.doc memberDoc }
  else if token.type = .identifier then do
    advance rule
    parseNamed rule token.value memberDoc
  else if (tokenToPrimitive token.type).isSome then parsePrimitiveProperty rule memberDoc
  else fail (lit "Expected property, constructor, or method in class")

/-! ### Definitions -/

/-- Where the loops over a body end. -/
def atBodyEnd (type : TokenType) : Bool := type = .rBrace || type = .eof

/-- A base after a colon. -/
def parseBase (msg : Str) : Parse δ (Option Str) := do
  if ← accept rule .colon then do
    let base ← expectName rule msg
    return some base
  else return none

def parseStruct : Parse δ StructDef := do
  let loc ← currentLoc
  let doc ← takeDoc rule
  let _ ← expect rule .kwStruct (lit "Expected 'struct'")
  let name ← expectName rule (lit "Expected struct name")
  let base ← parseBase rule (lit "Expected base type name")
  let _ ← expect rule .lBrace (lit "Expected '\x7b' after struct name")
  let fields ← many atBodyEnd (parseField rule)
  let _ ← expect rule .rBrace (lit "Expected '\x7d' at end of struct")
  return ⟨name, base, fields, loc, doc⟩

/-- The items of an enum; a comma may stand after the last one. -/
def parseEnumItems : Parse δ (List EnumItem) := do
  if ← check .rBrace then return []
  else commaSeparated rule (· = .rBrace) (parseEnumItem rule)

def parseEnum (isFlags : Bool) : Parse δ EnumDef := do
  let loc ← currentLoc
  let doc ← takeDoc rule
  let _ ← expect rule (if isFlags then .kwFlags else .kwEnum)
    (if isFlags then lit "Expected 'flags'" else lit "Expected 'enum'")
  let name ← expectName rule (lit "Expected enum name")
  let _ ← expect rule .lBrace (lit "Expected '\x7b' after enum name")
  let items ← parseEnumItems rule
  let _ ← expect rule .rBrace (lit "Expected '\x7d' at end of enum")
  return ⟨name, items, isFlags, loc, doc⟩

def Member.property? : Member → Option Property
  | property p => some p
  | constructor _ | method _ => none

def Member.constructor? : Member → Option Constructor
  | constructor c => some c
  | property _ | method _ => none

def Member.method? : Member → Option Method
  | method m => some m
  | property _ | constructor _ => none

def parseClass : Parse δ ClassDef := do
  let loc ← currentLoc
  let doc ← takeDoc rule
  let _ ← expect rule .kwClass (lit "Expected 'class'")
  let name ← expectName rule (lit "Expected class name")
  let base ← parseBase rule (lit "Expected base type name")
  let _ ← expect rule .lBrace (lit "Expected '\x7b' after class name")
  let members ← many atBodyEnd (parseMember rule name)
  let _ ← expect rule .rBrace (lit "Expected '\x7d' at end of class")
  return ⟨name, base, members.filterMap Member.property?, members.filterMap Member.constructor?,
    members.filterMap Member.method?, loc, doc⟩

/-- A method in the body of a service. -/
def parseServiceMethod : Parse δ Method := do
  let methodDoc ← takeDoc rule
  let method ← parseMethod rule
  return { method with doc := orDoc method.doc methodDoc }

def parseService : Parse δ ServiceDef := do
  let loc ← currentLoc
  let doc ← takeDoc rule
  let _ ← expect rule .kwService (lit "Expected 'service'")
  let name ← expectName rule (lit "Expected service name")
  let _ ← expect rule .lBrace (lit "Expected '\x7b' after service name")
  let methods ← many atBodyEnd (parseServiceMethod rule)
  let _ ← expect rule .rBrace (lit "Expected '\x7d' at end of service")
  return ⟨name, methods, loc, doc⟩

def parseError : Parse δ ErrorDef := do
  let loc ← currentLoc
  let doc ← takeDoc rule
  let _ ← expect rule .kwError (lit "Expected 'error'")
  let name ← expectName rule (lit "Expected error name")
  let base ← parseBase rule (lit "Expected base error type name")
  let _ ← expect rule .lBrace (lit "Expected '\x7b' after error name")
  let fields ← many atBodyEnd (parseField rule)
  let _ ← expect rule .rBrace (lit "Expected '\x7d' at end of error")
  return ⟨name, base, fields, loc, doc⟩

inductive Definition where
  | structDef (d : StructDef)
  | enumDef (d : EnumDef)
  | classDef (d : ClassDef)
  | serviceDef (d : ServiceDef)
  | errorDef (d : ErrorDef)

/-- A definition with the keyword `token`, where `doc` was in front of it. -/
def definitionAt (doc : Str) (token : Token) : Parse δ Definition := do
  if token.type = .kwStruct then do
    let d ← parseStruct rule
    return .structDef { d with doc := orDoc d.doc doc }
  else if token.type = .kwEnum then do
    let d ← parseEnum rule false
    return .enumDef { d with doc := orDoc d.doc doc }
  else if token.type = .kwFlags then do
    let d ← parseEnum rule true
    return .enumDef { d with doc := orDoc d.doc doc }
  else if token.type = .kwClass then do
    let d ← parseClass rule
    return .classDef { d with doc := orDoc d.doc doc }
  else if token.type = .kwService then do
    let d ← parseService rule
    return .serviceDef { d with doc := orDoc d.doc doc }
  else if token.type = .kwError then do
    let d ← parseError rule
    return .errorDef { d with doc := orDoc d.doc doc }
  else fail (lit "Expected definition (struct, enum, flags, class, service, or error)")

def parseDefinition : Parse δ Definition := do
  let doc ← takeDoc rule
  let token ← current
  definitionAt rule doc token

def Definition.structDef? : Definition → Option StructDef
  | structDef d => some d
  | enumDef _ | classDef _ | serviceDef _ | errorDef _ => none

def Definition.enumDef? : Definition → Option EnumDef
  | enumDef d => some d
  | structDef _ | classDef _ | serviceDef _ | errorDef _ => none

def Definition.classDef? : Definition → Option ClassDef
  | classDef d => some d
  | structDef _ | enumDef _ | serviceDef _ | errorDef _ => none

def Definition.serviceDef? : Definition → Option ServiceDef
  | serviceDef d => some d
  | structDef _ | enumDef _ | classDef _ | errorDef _ => none

def Definition.errorDef? : Definition → Option ErrorDef
  | errorDef d => some d
  | structDef _ | enumDef _ | classDef _ | serviceDef _ => none

/-- `parse_namespace`. -/
def parseNamespace : Parse δ Str := do
  let _ ← expect rule .kwNamespace (lit "Expected 'namespace'")
  let name ← expectName rule (lit "Expected namespace name")
  let _ ← expect rule .semicolon (lit "Expected ';' after namespace")
  return name

def parse : Parse δ AST := do
  let name ← parseNamespace rule
  let defs ← many (· = .eof) (parseDefinition rule)
  return ⟨[{
    name := name
    enums := defs.filterMap Definition.enumDef?
    structs := defs.filterMap Definition.structDef?
    classes := defs.filterMap Definition.classDef?
    services := defs.filterMap Definition.serviceDef?
    errors := defs.filterMap Definition.errorDef? }]⟩

end Parse

end

end Song.Compiler
