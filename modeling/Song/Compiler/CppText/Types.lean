import Song.Compiler.Text
import Song.Compiler.Helpers
import Song.Compiler.Ids

/-!
# The text of the C++ headers (`codegen.cpp`)

Every line that `CodeGenerator` writes, with the documentation comment in front of it. The
marks are the helpers (the codecs of a user's type) that a line declares and calls, and the
types of the members of a struct.
-/

namespace Song.Compiler.CppText

open Piece (var own)

/-! ## Lines -/

/-- A codec of a user's type. -/
inductive Helper where
  | encode (type : Str)
  | decode (type : Str)
  | encodeArray (type : Str)
  | decodeArray (type : Str)
  deriving DecidableEq, Repr

namespace Helper

def name : Helper → Str
  | encode type => lit "encode_" ++ type
  | decode type => lit "decode_" ++ type
  | encodeArray type => lit "encode_array_" ++ type
  | decodeArray type => lit "decode_array_" ++ type

/-- The user's type. -/
def type : Helper → Str
  | encode type | decode type | encodeArray type | decodeArray type => type

end Helper

/-- How a helper is declared: `inline` or not, with its body or without. -/
structure Linkage where
  isInline : Bool
  hasBody : Bool
  deriving DecidableEq, Repr

namespace Linkage

/-- Declared only, to be defined in another file. -/
def external : Linkage := ⟨false, false⟩

/-- Declared only, to be defined below. -/
def inlineOnly : Linkage := ⟨true, false⟩

def inlineBody : Linkage := ⟨true, true⟩

end Linkage

inductive Mark where
  | call (h : Helper)
  | declares (h : Helper) (linkage : Linkage)
  /-- The type of a member. -/
  | member (t : Ty)
  /-- The end of the definition of a type. -/
  | closes (name : Str)

def Mark.str : Mark → Str
  | call h => h.name
  | declares h _ => h.name
  | member t => typeToCpp t
  | closes _ => lit "\x7d;"

abbrev Code := List (Piece Mark)

/-- A piece of text as it stands. -/
def t (s : String) : Piece Mark := .text (lit s)

/-- A name, or other text from the tree. -/
def raw (s : Str) : Piece Mark := .text s

def calls (h : Helper) : Piece Mark := .mark (.call h)

def declares (h : Helper) (linkage : Linkage) : Piece Mark := .mark (.declares h linkage)

def member (type : Ty) : Piece Mark := .mark (.member type)

def closes (name : Str) : Piece Mark := .mark (.closes name)

/-- A line and the comment in front of it, that `emit_doc` writes. -/
structure Line where
  doc : Str := []
  indent : Str := []
  suffix : Str := []
  code : Code

def line (code : Code) : Line := { code }

def blank : Line := { code := [] }

def documented (doc : Str) (indent : String) (code : Code) (suffix : String := "") : Line where
  doc := doc
  indent := lit indent
  suffix := lit suffix
  code := code

def Code.str (code : Code) : Str := code.flatMap (Piece.str Mark.str)

/-- The lines of a comment; the suffix ends the last one. -/
def docLines (indent suffix : Str) : List Str → List Str
  | [] => []
  | [l] => [indent ++ lit "/// " ++ l ++ suffix]
  | l :: ls => (indent ++ lit "/// " ++ l) :: docLines indent suffix ls

/-- `emit_doc`. -/
def emitDoc (doc indent suffix : Str) : List Str :=
  if doc = [] then [] else docLines indent suffix (doc.splitOn 10)

def Line.strs (l : Line) : List Str := emitDoc l.doc l.indent l.suffix ++ [l.code.str]

def endLine (s : Str) : Str := s ++ lit "\n"

/-- The text of a file. -/
def text (lines : List Line) : Str := (lines.flatMap Line.strs).flatMap endLine

/-! ## Calls -/

def callEncode (buf : Piece Mark) (expr : Code) : Call → Code
  | .prim .void => []
  | .prim p => [raw (lit "encode_" ++ p.suffix), t "(", buf, t ", "] ++ expr ++ [t ")"]
  | .user name => [calls (.encode name), t "(", buf, t ", "] ++ expr ++ [t ")"]
  | .userArray name => [calls (.encodeArray name), t "(", buf, t ", "] ++ expr ++ [t ")"]
  | .template elem =>
    [raw (lit "encode_array<" ++ elem.text ++ lit ">"), t "(", buf, t ", "] ++ expr ++ [t ")"]
  | .optional inner =>
    [t "encode_optional(", buf, t ", "] ++ expr ++ [t ", [&](const auto& ", .enter, own "v", t ") \x7b "] ++
      callEncode buf [var "v"] inner ++ [t "; \x7d", .leave, t ")"]

/-- `inner` is the type in an optional. -/
def callDecode (inner : Str) (buf : Piece Mark) : Call → Code
  | .prim .void => []
  | .prim p => [raw (lit "decode_" ++ p.suffix), t "(", buf, t ")"]
  | .user name => [calls (.decode name), t "(", buf, t ")"]
  | .userArray name => [calls (.decodeArray name), t "(", buf, t ")"]
  | .template elem => [raw (lit "decode_array<" ++ elem.text ++ lit ">"), t "(", buf, t ")"]
  | .optional call =>
    [t "decode_optional<", raw inner, t ">(", buf, t ", [&]() \x7b return "] ++
      callDecode inner buf call ++ [t "; \x7d)"]

/-- `encode_call`. -/
def encode (t : Ty) (expr : Code) (buf : Piece Mark) : Code := callEncode buf expr (encodeCall t)

/-- `decode_call`. -/
def decode (t : Ty) (buf : Piece Mark) : Code :=
  callDecode (typeToCpp { t with isOptional := false }) buf (decodeCall t)

/-! ## Structs -/

def generateStructDef (s : StructDef) : List Line :=
  documented s.doc "" [t "struct ", raw s.name, t " \x7b"] ::
    s.fields.map (fun f => documented f.doc "    "
      [t "    ", member f.type, t " ", raw f.name, t ";"]) ++
    [line [closes s.name]]

def generateStructEncode (s : StructDef) : List Line :=
  line [t "inline void ", declares (.encode s.name) .inlineBody, t "(Buffer& buf, const ",
      raw s.name, t "& val) \x7b"] ::
    s.fields.map (fun f =>
      line ([t "    "] ++ encode f.type [t "val.", raw f.name] (t "buf") ++ [t ";"])) ++
    [line [t "\x7d"]]

def generateStructDecode (s : StructDef) : List Line :=
  [line [t "inline ", raw s.name, t " ", declares (.decode s.name) .inlineBody,
      t "(Buffer& buf) \x7b"],
    line [t "    ", raw s.name, t " val;"]] ++
    s.fields.map (fun f =>
      line ([t "    val.", raw f.name, t " = "] ++ decode f.type (t "buf") ++ [t ";"])) ++
    [line [t "    return val;"], line [t "\x7d"]]

/-- The array encoder of a struct or an enum. -/
def arrayEncode (name : Str) : List Line :=
  [line [t "inline void ", declares (.encodeArray name) .inlineBody,
      t "(Buffer& buf, const std::vector<", raw name, t ">& arr) \x7b"],
    line [t "    encode_u32(buf, static_cast<u32>(arr.size()));"],
    line [t "    for (const auto& val : arr) \x7b"],
    line [t "        ", calls (.encode name), t "(buf, val);"],
    line [t "    \x7d"],
    line [t "\x7d"]]

def arrayDecode (name : Str) : List Line :=
  [line [t "inline std::vector<", raw name, t "> ", declares (.decodeArray name) .inlineBody,
      t "(Buffer& buf) \x7b"],
    line [t "    u32 count = decode_u32(buf);"],
    line [t "    std::vector<", raw name, t "> arr;"],
    line [t "    arr.reserve(count);"],
    line [t "    for (u32 i = 0; i < count; ++i) \x7b"],
    line [t "        arr.push_back(", calls (.decode name), t "(buf));"],
    line [t "    \x7d"],
    line [t "    return arr;"],
    line [t "\x7d"]]

def generateStructArrayEncode (s : StructDef) : List Line := arrayEncode s.name

def generateStructArrayDecode (s : StructDef) : List Line := arrayDecode s.name

/-! ## Enums -/

def enumWireSuffix (e : EnumDef) : Str := if e.isFlags then lit "u32" else lit "i32"

def generateEnumEncode (e : EnumDef) : List Line :=
  [line [t "inline void ", declares (.encode e.name) .inlineBody, t "(Buffer& buf, ",
      raw e.name, t " val) \x7b"],
    line [t "    encode_", raw (enumWireSuffix e), t "(buf, static_cast<", raw (enumWireSuffix e),
      t ">(val));"],
    line [t "\x7d"]]

def generateEnumDecode (e : EnumDef) : List Line :=
  [line [t "inline ", raw e.name, t " ", declares (.decode e.name) .inlineBody,
      t "(Buffer& buf) \x7b"],
    line [t "    return static_cast<", raw e.name, t ">(decode_", raw (enumWireSuffix e),
      t "(buf));"],
    line [t "\x7d"]]

/-- The cases of `E_name`; a value that an earlier item has is passed over. -/
def enumCases (e : EnumDef) : List Int64 → Int64 → List EnumItem → List Line
  | _, _, [] => []
  | seen, next, item :: items =>
    let value := item.value.getD next
    if value ∈ seen then enumCases e seen (value + 1) items
    else
      line [t "        case ", raw e.name, t "::", raw item.name, t ": return \"", raw item.name,
          t "\";"] ::
        enumCases e (value :: seen) (value + 1) items

def generateEnumName (e : EnumDef) : List Line :=
  [line [t "inline const char* ", raw e.name, t "_name(", raw e.name, t " v) \x7b"],
    line [t "    switch (v) \x7b"]] ++
    enumCases e [] 0 e.items ++
    [line [t "    \x7d"], line [t "    return \"<unknown>\";"], line [t "\x7d"]]

def generateEnumArrayEncode (e : EnumDef) : List Line := arrayEncode e.name

def generateEnumArrayDecode (e : EnumDef) : List Line := arrayDecode e.name

/-- The items of an enum; `last` is the number of the last one. -/
def enumItem (last : Nat) (item : EnumItem) (i : Nat) : Line :=
  documented item.doc "    " ([t "    ", raw item.name] ++
    (match item.value with
      | some v => [t " = ", raw (toStr v.toInt)]
      | none => []) ++
    if i < last then [t ","] else [])

def generateEnumDef (e : EnumDef) : List Line :=
  documented e.doc "" [t "enum class ", raw e.name, t " : ", raw (enumWireSuffix e), t " \x7b"] ::
    e.items.zipIdx.map (fun x => enumItem (e.items.length - 1) x.1 x.2) ++
    [line [closes e.name]]

/-! ## Ids -/

def constantLine (type : String) (name : Str) (value : Nat) : Line :=
  line [t "constexpr ", t type, t " ", raw name, t " = ", raw (toStr value), t ";"]

def generateServiceIds (ns : Namespace) : List Line :=
  line [t "// Service and method IDs"] ::
    (Table.number Cpp.idsTaken 1 ns.services).flatMap fun x =>
      (Cpp.serviceConstants x.1 x.2).map (fun c => constantLine "u16" c.1 c.2.toNat) ++ [blank]

def generateClassIds (ns : Namespace) : List Line :=
  line [t "// Class type IDs, property IDs, and method IDs"] ::
    (ns.classes.zipIdx 1).flatMap fun x =>
      constantLine "u32" (Cpp.kType x.1.name) (x.2 % 65536) ::
        (x.1.properties.zipIdx 1).map (fun p =>
          constantLine "u16" (Cpp.kProp x.1.name p.1.name) (p.2 % 65536)) ++
        x.1.constructors.zipIdx.map (fun c =>
          constantLine "u16" (Cpp.kCtor x.1.name (c.2 % 65536)) c.2) ++
        (x.1.methods.zipIdx 1).map (fun m =>
          constantLine "u16" (Cpp.kMethod x.1.name m.1.name) (m.2 % 65536)) ++ [blank]

end Song.Compiler.CppText
