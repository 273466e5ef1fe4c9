import Song.Compiler.Ast

/-!
# The lexer (`lexer.hpp`, `lexer.cpp`)

A `Lexer` is the input not read yet and the position. The parser reads one token after the other
and never goes back, so what it can read of a source text is a `Stream`: the tokens in order, and
then the end of the input, or the exception that `next_token` throws there. The characters are
those of the "C" locale: a byte from 128 on is neither a letter nor a digit.
-/

namespace Song.Compiler

inductive TokenType where
  | identifier | integer | docComment
  | kwNamespace | kwStruct | kwClass | kwEnum | kwFlags | kwService | kwError
  | kwReadonly | kwOptional | kwStream | kwThrows
  | kwBool | kwI8 | kwI16 | kwI32 | kwI64 | kwU8 | kwU16 | kwU32 | kwU64 | kwF32 | kwF64
  | kwString | kwBytes | kwVoid
  | semicolon | comma | colon | dot | lBrace | rBrace | lParen | rParen | lBracket | rBracket
  | question | arrow | equals
  | eof
  deriving DecidableEq, Repr

def keywords : List (Str × TokenType) :=
  [(lit "namespace", .kwNamespace), (lit "struct", .kwStruct), (lit "class", .kwClass),
   (lit "enum", .kwEnum), (lit "flags", .kwFlags), (lit "service", .kwService),
   (lit "error", .kwError), (lit "readonly", .kwReadonly), (lit "optional", .kwOptional),
   (lit "stream", .kwStream), (lit "throws", .kwThrows), (lit "bool", .kwBool), (lit "i8", .kwI8),
   (lit "i16", .kwI16), (lit "i32", .kwI32), (lit "i64", .kwI64), (lit "u8", .kwU8),
   (lit "u16", .kwU16), (lit "u32", .kwU32), (lit "u64", .kwU64), (lit "f32", .kwF32),
   (lit "f64", .kwF64), (lit "string", .kwString), (lit "bytes", .kwBytes), (lit "void", .kwVoid)]

def tokenTypeToString : TokenType → Str
  | .identifier => lit "Identifier"
  | .integer => lit "Integer"
  | .docComment => lit "DocComment"
  | .kwNamespace => lit "namespace"
  | .kwStruct => lit "struct"
  | .kwClass => lit "class"
  | .kwEnum => lit "enum"
  | .kwFlags => lit "flags"
  | .kwService => lit "service"
  | .kwError => lit "error"
  | .kwReadonly => lit "readonly"
  | .kwOptional => lit "optional"
  | .kwStream => lit "stream"
  | .kwThrows => lit "throws"
  | .kwBool => lit "bool"
  | .kwI8 => lit "i8"
  | .kwI16 => lit "i16"
  | .kwI32 => lit "i32"
  | .kwI64 => lit "i64"
  | .kwU8 => lit "u8"
  | .kwU16 => lit "u16"
  | .kwU32 => lit "u32"
  | .kwU64 => lit "u64"
  | .kwF32 => lit "f32"
  | .kwF64 => lit "f64"
  | .kwString => lit "string"
  | .kwBytes => lit "bytes"
  | .kwVoid => lit "void"
  | .semicolon => lit ";"
  | .comma => lit ","
  | .colon => lit ":"
  | .dot => lit "."
  | .lBrace => lit "\x7b"
  | .rBrace => lit "\x7d"
  | .lParen => lit "("
  | .rParen => lit ")"
  | .lBracket => lit "["
  | .rBracket => lit "]"
  | .question => lit "?"
  | .arrow => lit "->"
  | .equals => lit "="
  | .eof => lit "EOF"

structure Token where
  type : TokenType
  value : Str
  line : Nat
  column : Nat
  intValue : Int64 := 0
  deriving DecidableEq

/-- What the front end throws. -/
inductive FrontError where
  /-- A `LexerError`. -/
  | lexer (message : Str) (line column : Nat)
  /-- The `std::out_of_range` of `std::stoll`. -/
  | outOfRange
  /-- A `ParserError`. -/
  | parser (message : Str) (line column : Nat)
  /-- Nothing: a loop of the model has run out of fuel. -/
  | stuck
  deriving DecidableEq

/-- `what()`; a text of the standard library's is left open. -/
def FrontError.what : FrontError → Option Str
  | .lexer message line column => some (lit "Lexer error at line " ++ toStr line ++
      lit ", column " ++ toStr column ++ lit ": " ++ message)
  | .parser message line column => some (lit "Parse error at line " ++ toStr line ++
      lit ", column " ++ toStr column ++ lit ": " ++ message)
  | .outOfRange | .stuck => none

/-! ## Characters -/

def ch (c : Char) : UInt8 := UInt8.ofNat c.toNat

def isDigit (c : UInt8) : Bool := ch '0' ≤ c && c ≤ ch '9'

def isXDigit (c : UInt8) : Bool :=
  isDigit c || (ch 'a' ≤ c && c ≤ ch 'f') || (ch 'A' ≤ c && c ≤ ch 'F')

def isAlpha (c : UInt8) : Bool := (ch 'a' ≤ c && c ≤ ch 'z') || (ch 'A' ≤ c && c ≤ ch 'Z')

/-- What an identifier goes on with. -/
def isWordChar (c : UInt8) : Bool := isAlpha c || isDigit c || c == ch '_'

def digitValue (c : UInt8) : Nat :=
  if isDigit c then c.toNat - 48
  else if ch 'a' ≤ c then c.toNat - 87
  else c.toNat - 55

/-- The value of `std::stoll` on digits of its base. -/
def stoll (base : Nat) (digits : Str) : Except FrontError Int64 :=
  let n := digits.foldl (fun n c => n * base + digitValue c) 0
  if n < 2 ^ 63 then .ok (Int64.ofNat n) else .error .outOfRange

/-! ## Tokens -/

structure Lexer where
  /-- The input from `m_current` on. -/
  rest : Str
  line : Nat
  column : Nat
  deriving DecidableEq

namespace Lexer

def create (input : Str) : Lexer := ⟨input, 1, 1⟩

/-- `n` times `advance`, with as many characters left. -/
def advance (lx : Lexer) (n : Nat) : Lexer :=
  { lx with rest := lx.rest.drop n, column := lx.column + n }

/-- A `/` is followed by what makes it a comment, and not a doc comment. -/
def startsComment : Str → Bool
  | c :: cs => c == ch '/' && cs.head? != some (ch '/')
  | [] => false

/-- `skip_whitespace` and, after a line comment (`inComment`), `next_token` from its start. -/
def skipBlank (inComment : Bool) : Str → Nat → Nat → Lexer
  | [], line, column => ⟨[], line, column⟩
  | c :: cs, line, column =>
    if c == ch '\n' then skipBlank false cs (line + 1) 1
    else if inComment then skipBlank true cs line (column + 1)
    else if c == ch ' ' || c == ch '\t' || c == ch '\r' then skipBlank false cs line (column + 1)
    else if c == ch '/' && startsComment cs then skipBlank true cs line (column + 1)
    else ⟨c :: cs, line, column⟩

def lexIdentifierOrKeyword (lx : Lexer) : Token × Lexer :=
  let value := lx.rest.takeWhile isWordChar
  let type := (keywords.lookup value).getD .identifier
  (⟨type, value, lx.line, lx.column, 0⟩, lx.advance value.length)

def lexInteger (lx : Lexer) : Except FrontError (Token × Lexer) :=
  let first := lx.rest.take 2
  if first == lit "0x" || first == lit "0X" then do
    let digits := (lx.rest.drop 2).takeWhile isXDigit
    let value := first ++ digits
    if digits.isEmpty then
      throw (.lexer (lit "Invalid hex literal: missing digits") lx.line lx.column)
    let intValue ← stoll 16 digits
    return (⟨.integer, value, lx.line, lx.column, intValue⟩, lx.advance value.length)
  else do
    let value := lx.rest.takeWhile isDigit
    let intValue ← stoll 10 value
    return (⟨.integer, value, lx.line, lx.column, intValue⟩, lx.advance value.length)

/-- From the `///` on; one space after it is not part of the text. -/
def lexDocComment (lx : Lexer) : Token × Lexer :=
  let lx' := lx.advance 3
  let lx' := if lx'.rest.head? == some (ch ' ') then lx'.advance 1 else lx'
  let value := lx'.rest.takeWhile (· != ch '\n')
  (⟨.docComment, value, lx.line, lx.column, 0⟩, lx'.advance value.length)

def punctuation : List (Str × TokenType) :=
  [(lit ";", .semicolon), (lit ",", .comma), (lit ":", .colon), (lit ".", .dot),
   (lit "\x7b", .lBrace), (lit "\x7d", .rBrace), (lit "(", .lParen), (lit ")", .rParen),
   (lit "[", .lBracket), (lit "]", .rBracket), (lit "?", .question), (lit "=", .equals)]

/-- The token at the first character that is not blank. -/
def lexeme (lx : Lexer) : Except FrontError (Token × Lexer) :=
  match lx.rest with
  | [] => .ok (⟨.eof, [], lx.line, lx.column, 0⟩, lx)
  | c :: cs =>
    if c == ch '/' && cs.take 2 == lit "//" then .ok lx.lexDocComment
    else
      match punctuation.lookup [c] with
      | some type => .ok (⟨type, [c], lx.line, lx.column, 0⟩, lx.advance 1)
      | none =>
        if c == ch '-' && cs.head? == some (ch '>') then
          .ok (⟨.arrow, lit "->", lx.line, lx.column, 0⟩, lx.advance 2)
        else if isDigit c then lx.lexInteger
        else if isAlpha c || c == ch '_' then .ok lx.lexIdentifierOrKeyword
        else .error (.lexer (lit "Unexpected character: '" ++ [c] ++ lit "'") lx.line lx.column)

def nextToken (lx : Lexer) : Except FrontError (Token × Lexer) :=
  (skipBlank false lx.rest lx.line lx.column).lexeme

end Lexer

/-! ## What the parser can read -/

inductive Stream where
  | token (t : Token) (rest : Stream)
  /-- The end of the input, read as often as one likes. -/
  | eof (t : Token)
  | fails (e : FrontError)

namespace Stream

def length : Stream → Nat
  | token _ rest => rest.length + 1
  | eof _ | fails _ => 0

end Stream

/-- The results of `next_token` in order; every token takes at least a character. -/
def Lexer.stream : Nat → Lexer → Stream
  | 0, _ => .fails .stuck
  | fuel + 1, lx =>
    match lx.nextToken with
    | .error e => .fails e
    | .ok (t, lx') => if t.type = .eof then .eof t else .token t (stream fuel lx')

/-- The stream of a source text. -/
def tokenize (source : Str) : Stream :=
  (Lexer.create source).stream (source.length + 1)

end Song.Compiler
