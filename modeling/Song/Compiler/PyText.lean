import Song.Compiler.Text
import Song.Compiler.Python
import Song.Compiler.Helpers
import Song.Compiler.Ids

/-!
# The text of the Python modules (`python_codegen.cpp`)

Every line that `PythonCodeGenerator` writes. The marks are the functions of the module that a
line calls when it runs, and the names that it evaluates and binds when the module is imported;
what is bound stands behind what is evaluated for it. In the body of a struct's codec the
generator replaces `req` or `resp` by `buf` in the text of a call; here that is done piece by
piece, as no occurrence reaches from one piece into the next.
-/

namespace Song.Compiler.PyText

open Piece (var own)

/-! ## Lines -/

inductive Mark where
  /-- A function of the module, called. -/
  | runs (name : Str)
  /-- A name evaluated at import. -/
  | evaluates (name : Str)
  /-- A name bound at import. -/
  | binds (name : Str)
  /-- A function of the module, defined. -/
  | defines (name : Str)
  /-- A field of a data class; one with a default is bound. -/
  | field (name : Str) (hasDefault : Bool)
  /-- The body of a class begins. -/
  | opens (name : Str)
  | closes
  deriving DecidableEq, Repr

def Mark.str : Mark → Str
  | runs name | evaluates name => name
  | binds _ | defines _ | field _ _ | opens _ | closes => []

abbrev Code := List (Piece Mark)

inductive Line where
  | code (c : Code)
  /-- A line with a documentation string. -/
  | docstring (indent doc : Str)

/-- A piece of text as it stands. -/
def t (s : String) : Piece Mark := .text (lit s)

/-- A name, or other text from the tree. -/
def raw (s : Str) : Piece Mark := .text s

def runs (name : Str) : Piece Mark := .mark (.runs name)

def evaluates (name : Str) : Piece Mark := .mark (.evaluates name)

def binds (name : Str) : Piece Mark := .mark (.binds name)

def defines (name : Str) : Piece Mark := .mark (.defines name)

def field (name : Str) (hasDefault : Bool) : Piece Mark := .mark (.field name hasDefault)

def opens (name : Str) : Piece Mark := .mark (.opens name)

def closes : Piece Mark := .mark .closes

/-- A constant of the module, as a variable. -/
def named (name : Str) : Piece Mark := .use none name

def line (c : Code) : Line := .code c

def blank : Line := .code []

/-- A documentation string, if there is one. -/
def docstring (indent : String) (doc : Str) : List Line :=
  if doc = [] then [] else [.docstring (lit indent) doc]

def Code.str (code : Code) : Str := code.flatMap (Piece.str Mark.str)

def quotes : Str := lit "\"\"\""

def Line.str : Line → Str
  | .code c => c.str ++ lit "\n"
  | .docstring indent doc => indent ++ quotes ++ doc ++ quotes ++ lit "\n"

/-- The text of a module. -/
def text (lines : List Line) : Str := lines.flatMap Line.str

/-- `old` replaced by `new` in the text of a call. -/
def Code.replace (old new : Str) (code : Code) : Code :=
  code.map fun p => match p with
    | .text s => .text (replaceAll old new 0 s)
    | .bind who name => .bind who (replaceAll old new 0 name)
    | .use who name => .use who (replaceAll old new 0 name)
    | .mark (.runs name) => .mark (.runs (replaceAll old new 0 name))
    | p => p

/-! ## Types -/

def primitiveToPython : PrimitiveType → Code
  | .bool => [evaluates (lit "bool")]
  | .i8 | .i16 | .i32 | .i64 | .u8 | .u16 | .u32 | .u64 => [evaluates (lit "int")]
  | .f32 | .f64 => [evaluates (lit "float")]
  | .string => [evaluates (lit "str")]
  | .bytes => [evaluates (lit "bytes")]
  | .void => [t "None"]

def baseToPython : TypeBase → Code
  | .primitive p => primitiveToPython p
  | .user name => [evaluates name]

/-- `type_to_python`. -/
def typeToPython (type : Ty) : Code :=
  if type.isArray then
    (List.replicate type.dims.toNat [evaluates (lit "list"), t "["]).flatten ++
      baseToPython type.base ++ List.replicate type.dims.toNat (t "]")
  else if type.isOptional then
    [evaluates (lit "Optional"), t "["] ++ baseToPython type.base ++ [t "]"]
  else baseToPython type.base

/-- `type_to_type_hint`. -/
def typeToTypeHint (type : Ty) : Code := typeToPython type

/-! ## Calls -/

section
variable (buf : Piece Mark)

/-- The encoding call for a type that is neither an array nor optional. -/
def encodeBase (expr : Code) : TypeBase → Code
  | .primitive .void => []
  | .primitive p => [buf, t ".encode_", raw p.suffix, t "("] ++ expr ++ [t ")"]
  | .user name => [runs (lit "encode_" ++ name), t "(", buf, t ", "] ++ expr ++ [t ")"]

/-- The text of an encoding call, of several lines for a loop. -/
def callEncode : Str → Code → PyCall → Code
  | _, expr, .base b => encodeBase buf expr b
  | _, expr, .optional b =>
    [buf, t ".encode_optional("] ++ expr ++
      [t ", lambda ", .enter, own "b", t ", ", own "v", t ": "] ++ encodeBase buf [var "v"] b ++
      [.leave, t ")"]
  | _, expr, .helper p => [buf, t ".encode_array_", raw p.suffix, t "("] ++ expr ++ [t ")"]
  | indent, expr, .loop elem =>
    [buf, t ".encode_u32(len("] ++ expr ++ [t "))\n", raw indent, t "for ", own "_item", t " in "] ++
      expr ++ [t ":\n", raw indent, t "    "] ++ callEncode (indent ++ lit "    ") [var "_item"] elem

def decodeBase : TypeBase → Code
  | .primitive .void => []
  | .primitive p => [buf, t ".decode_", raw p.suffix, t "()"]
  | .user name => [runs (lit "decode_" ++ name), t "(", buf, t ")"]

def callDecode : PyCall → Code
  | .base b => decodeBase buf b
  | .optional b =>
    [buf, t ".decode_optional(lambda ", .enter, own "b", t ": "] ++ decodeBase buf b ++
      [.leave, t ")"]
  | .helper p => [buf, t ".decode_array_", raw p.suffix, t "()"]
  | .loop elem =>
    [t "["] ++ callDecode elem ++ [t " for _ in range(", buf, t ".decode_u32())]"]

end

/-- `encode_call`. -/
def encode (type : Ty) (expr : Code) (buf : Piece Mark) (indent : String) : Code :=
  callEncode buf (lit indent) expr (pyEncodeCall type)

/-- `decode_call`. -/
def decode (type : Ty) (buf : Piece Mark) : Code := callDecode buf (pyDecodeCall type)

/-! ## Structs and enums -/

/-- A field of a data class. It is assigned before its annotation is evaluated. -/
def fieldLine (f : Field) : Line :=
  line ([t "    ", raw f.name, field f.name f.type.isOptional, t ": "] ++ typeToTypeHint f.type ++
    if f.type.isOptional then [t " = None"] else [])

def structClass (s : StructDef) : List Line :=
  [line [t "@", evaluates (lit "dataclass")], line [t "class ", raw s.name, t ":", opens s.name]] ++
  docstring "    " s.doc ++
  (if s.fields.isEmpty then [line [t "    pass"]] else s.fields.map fieldLine) ++
  [line [closes]]

def structEncode (s : StructDef) : List Line :=
  [line [t "def encode_", raw s.name, t "(", .enter, t "buf: ", evaluates (lit "Buffer"), t ", val: ",
      evaluates s.name, t ") -> None:", defines (lit "encode_" ++ s.name)],
    .docstring (lit "    ") (lit "Encode " ++ s.name ++ lit " to buffer.")] ++
  s.fields.map (fun f => line ([t "    "] ++
    (encode f.type [t "val.", raw f.name] (t "req") "    ").replace (lit "req") (lit "buf"))) ++
  [line [.leave]]

/-- An argument of the constructor; `last` is the number of the last one. -/
def decodeField (last : Nat) (f : Field) (i : Nat) : Line :=
  line ([t "        ", raw f.name, t "="] ++
    (decode f.type (t "resp")).replace (lit "resp") (lit "buf") ++
    if i < last then [t ","] else [])

def structDecode (s : StructDef) : List Line :=
  [line [t "def decode_", raw s.name, t "(", .enter, t "buf: ", evaluates (lit "Buffer"), t ") -> ",
      evaluates s.name, t ":", defines (lit "decode_" ++ s.name)],
    .docstring (lit "    ") (lit "Decode " ++ s.name ++ lit " from buffer."),
    line [t "    return ", raw s.name, t "("]] ++
  s.fields.zipIdx.map (fun x => decodeField (s.fields.length - 1) x.1 x.2) ++
  [line [t "    )", .leave]]

def generateStructDef (s : StructDef) : List Line := structClass s ++ structEncode s ++ structDecode s

/-- The items with their values; `next` is the value after the last one. -/
def enumItems : Int64 → List EnumItem → List Line
  | _, [] => []
  | next, item :: items =>
    line [t "    ", raw item.name, t " = ", raw (toStr (item.value.getD next).toInt),
        binds item.name] ::
      enumItems (item.value.getD next + 1) items

def generateEnumDef (e : EnumDef) : List Line :=
  [line [t "class ", raw e.name, t "(", evaluates (lit "IntEnum"), t "):", opens e.name]] ++
  docstring "    " e.doc ++ enumItems 0 e.items

/-! ## Services -/

def idLine (name : Str) (value : Nat) : Line :=
  line [raw name, t " = ", raw (toStr value), binds name]

def generateServiceIds (ns : Namespace) : List Line :=
  line [t "# Service and method IDs"] ::
    (ns.services.zipIdx 1).flatMap fun x =>
      idLine (Python.service x.1.name) (x.2 % 65536) ::
        (x.1.methods.zipIdx 1).map (fun m =>
          idLine (Python.method x.1.name m.1.name) (m.2 % 65536)) ++ [blank]

def generateMethodParams (params : List Param) : Code :=
  params.zipIdx.flatMap fun x =>
    [t ", ", .bind (some x.2) x.1.name, t ": "] ++ typeToTypeHint x.1.type

def proxyMethod (s : ServiceDef) (m : Method) : List Line :=
  [line ([t "    def ", raw m.name, t "(", .enter, own "self"] ++ generateMethodParams m.params ++
    [t ") -> "] ++ typeToTypeHint m.returnType ++ [t ":", binds m.name])] ++
  docstring "        " m.doc ++
  [line [t "        ", own "req", t " = Buffer()"]] ++
  m.params.zipIdx.map (fun x => line ([t "        "] ++
    encode x.1.type [.use (some x.2) x.1.name] (var "req") "        ")) ++
  [line [t "        ", own "resp", t " = ", var "self", t "._conn.call(", named (Python.service s.name),
      t ", ", named (Python.method s.name m.name), t ", ", var "req", t ")"]] ++
  (if m.isVoid then [] else
    [line ([t "        return "] ++ decode m.returnType (var "resp"))]) ++
  [line [.leave]]

def generateServiceProxy (s : ServiceDef) : List Line :=
  [line [t "class ", raw s.name, t "Proxy:", opens (s.name ++ lit "Proxy")]] ++
  (if s.doc = [] then
    [.docstring (lit "    ") (lit "Client proxy for " ++ s.name ++ lit " service.")]
  else [.docstring (lit "    ") s.doc]) ++
  [blank,
    line [t "    def __init__(self, conn: ", evaluates (lit "ServiceConnection"), t "):",
      binds (lit "__init__")],
    line [t "        self._conn = conn"],
    blank] ++
  s.methods.flatMap (proxyMethod s)

/-! ## The module -/

def moduleTop (ns : Namespace) : List Line :=
  [line [t "# Generated by songc - DO NOT EDIT"],
    line [t "# Source: ", raw ns.name, t ".song"],
    blank,
    line [t "from dataclasses import dataclass", binds (lit "dataclass")],
    line [t "from enum import IntEnum", binds (lit "IntEnum")],
    line [t "from typing import Optional, List", binds (lit "Optional"), binds (lit "List")],
    blank,
    line [t "from song.buffer import Buffer", binds (lit "Buffer")],
    line [t "from song.connection import ServiceConnection", binds (lit "ServiceConnection")],
    blank,
    blank]

def generateModule (ns : Namespace) : List Line :=
  moduleTop ns ++
  (if ns.services.isEmpty then [] else generateServiceIds ns ++ [blank]) ++
  ns.enums.flatMap (fun e => generateEnumDef e ++ [line [closes], blank]) ++
  ns.structs.flatMap (fun s => generateStructDef s ++ [blank, blank]) ++
  ns.services.flatMap fun s => generateServiceProxy s ++ [line [closes]]

end Song.Compiler.PyText
