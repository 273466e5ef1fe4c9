import Song.Compiler.Typing

/-!
# Generated Python codecs (`python_codegen.cpp`, `buffer.py`)

`PyCall` is the Python code that `encode_call` and `decode_call` emit for a type, as
Python reads it. Only `i32`, `i64` and `string` arrays have helpers; any other array is a
loop around the code for its elements, which keep the mark of an optional array.

In the body of a struct's codec the generator replaces every `req` by `buf` (in a
decoder, `resp` by `buf`), in the names of fields and structs too; no name of the emitted
text touches another, so a replacement stays within a name. `pyEncodeVal` and `pyDecodeVal`
have the replacement as a parameter. Names are taken to be identifiers of both languages
that clash with nothing else.

A Python value is the `Val` of the IDL type it is used at, with nothing around a value
that is present; a `str` is its UTF-8 bytes, a `float` the bit pattern of its type.
-/

namespace Song.Compiler

open Cursor (many each)

/-! ## Calls -/

inductive PyCall where
  /-- `req.encode_i32(expr)` or `encode_<name>(req, expr)`. -/
  | base (b : TypeBase)
  /-- `req.encode_optional(expr, lambda b, v: …)`. -/
  | optional (b : TypeBase)
  /-- `req.encode_array_i32(expr)`. -/
  | helper (p : PrimitiveType)
  /-- `req.encode_u32(len(expr))`, then a loop over the elements. -/
  | loop (elem : PyCall)
  deriving DecidableEq, Repr

/-- The dimensions of a type, none if it is no array. -/
def Ty.dimCount (t : Ty) : Nat := if t.isArray then t.dims.toNat else 0

/-- `PythonCodeGenerator::encode_call` where so many dimensions are left. -/
def pyEncodeDims (base : TypeBase) (isOptional : Bool) : Nat → PyCall
  | 0 => if isOptional then .optional base else .base base
  | 1 =>
    match base with
    | .primitive .i32 => .helper .i32
    | .primitive .i64 => .helper .i64
    | .primitive .string => .helper .string
    | .user name => .loop (.base (.user name))
    | .primitive _ => .loop (pyEncodeDims base isOptional 0)
  | n + 2 => .loop (pyEncodeDims base isOptional (n + 1))

def pyEncodeCall (t : Ty) : PyCall := pyEncodeDims t.base t.isOptional t.dimCount

/-- `PythonCodeGenerator::decode_call` where so many dimensions are left. -/
def pyDecodeDims (base : TypeBase) (isOptional : Bool) : Nat → PyCall
  | 0 => if isOptional then .optional base else .base base
  | 1 =>
    match base with
    | .primitive .i32 => .helper .i32
    | .primitive .i64 => .helper .i64
    | .primitive .string => .helper .string
    | .user name => .loop (.base (.user name))
    | .primitive _ => .loop (pyDecodeDims base isOptional 0)
  | n + 2 => .loop (pyDecodeDims base isOptional (n + 1))

def pyDecodeCall (t : Ty) : PyCall := pyDecodeDims t.base t.isOptional t.dimCount

/-- Every `old` of a text replaced by `new`; the first argument counts the characters of
an occurrence still to be passed over. -/
def replaceAll (old new : Str) : Nat → Str → Str
  | _, [] => []
  | k + 1, _ :: cs => replaceAll old new k cs
  | 0, c :: cs =>
    if old.isPrefixOf (c :: cs) then new ++ replaceAll old new (old.length - 1) cs
    else c :: replaceAll old new 0 cs

/-- What the generator makes of a name in the body of `encode_<Struct>`. -/
def inEncoder (name : Str) : Str := replaceAll (lit "req") (lit "buf") 0 name

/-- What it makes of a name in the body of `decode_<Struct>`. -/
def inDecoder (name : Str) : Str := replaceAll (lit "resp") (lit "buf") 0 name

def TypeBase.rename (g : Str → Str) : TypeBase → TypeBase
  | .primitive p => .primitive p
  | .user name => .user (g name)

def PyCall.rename (g : Str → Str) : PyCall → PyCall
  | .base b => .base (b.rename g)
  | .optional b => .optional (b.rename g)
  | .helper p => .helper p
  | .loop elem => .loop (elem.rename g)

/-! ## The runtime -/

/-- The exceptions of the emitted code. -/
inductive PyError where
  | bufferError (msg : Str)
  /-- `struct.error`. -/
  | structError
  | unicodeError
  | typeError
  | attributeError
  | nameError
  | syntaxError
  | recursionError
  deriving DecidableEq, Repr

def validUtf8 (s : Str) : Bool := ByteArray.validateUTF8 ⟨s.toArray⟩

/-- `encode_u32(len(arr))`. -/
def pyEncodeCount (n : Nat) : Except PyError Bytes :=
  if n < 2 ^ 32 then .ok (encodeCount n) else .error .structError

/-- The encoders of `Buffer`. The words and floats are `struct.pack` at the widths and in
the byte order of the C++ encoders. -/
def pyEncodePrim : PrimitiveType → Val → Except PyError Bytes
  | .string, .string s =>
    if validUtf8 s then
      if s.length > 0xFFFFFFFF then
        .error (.bufferError (lit "String too large to encode"))
      else .ok (encodeCount s.length ++ s)
    else .error .unicodeError
  | .bytes, .bytes bs =>
    if bs.length > 0xFFFFFFFF then .error (.bufferError (lit "Bytes too large to encode"))
    else .ok (encodeCount bs.length ++ bs)
  | .string, _ | .bytes, _ => .error .typeError
  | .void, _ => .error .syntaxError
  | p, v => (encodePrim p v).mapError fun _ => .typeError

/-- An array: its length, then its elements. -/
def pyEncodeArray (elem : Val → Except PyError Bytes) (vs : List Val) : Except PyError Bytes := do
  let count ← pyEncodeCount vs.length
  let ws ← each elem vs
  return count ++ ws

abbrev PyDec := EStateM PyError Buffer

/-- `Buffer.read`. -/
def pyRead (length : Nat) : PyDec Bytes := fun b =>
  if h : b.readPos + length ≤ b.data.length then
    .ok (b.unread.take length) { b with readPos := b.readPos + length, le := h }
  else
    .error (.bufferError (lit "Buffer underflow: attempted to read " ++ toStr length ++
      lit " bytes but only " ++ toStr (b.data.length - b.readPos : Nat) ++ lit " available")) b

/-- The size of a word or float. -/
def width : PrimitiveType → Nat
  | .bool | .i8 | .u8 => 1
  | .i16 | .u16 => 2
  | .i32 | .u32 | .f32 => 4
  | .i64 | .u64 | .f64 => 8
  | .string | .bytes | .void => 0

/-- `struct.unpack`, of the little-endian number that the bytes are. -/
def unpack : PrimitiveType → Nat → Val
  | .bool, x => .bool (x != 0)
  | .i8, x => .i8 (UInt8.ofNat x).toInt8
  | .i16, x => .i16 (UInt16.ofNat x).toInt16
  | .i32, x => .i32 (UInt32.ofNat x).toInt32
  | .i64, x => .i64 (UInt64.ofNat x).toInt64
  | .u8, x => .u8 (UInt8.ofNat x)
  | .u16, x => .u16 (UInt16.ofNat x)
  | .u32, x => .u32 (UInt32.ofNat x)
  | .u64, x => .u64 (UInt64.ofNat x)
  | .f32, x => .f32 (UInt32.ofNat x)
  | .f64, x => .f64 (UInt64.ofNat x)
  | .string, _ | .bytes, _ | .void, _ => .absent

def pyDecodeU32 : PyDec Nat := do
  return leNat (← pyRead 4)

/-- The decoders of `Buffer`. -/
def pyDecodePrim : PrimitiveType → PyDec Val
  | .string => do
    let length ← pyDecodeU32
    let s ← pyRead length
    if validUtf8 s then return .string s else throw .unicodeError
  | .bytes => do
    let length ← pyDecodeU32
    return .bytes (← pyRead length)
  | .void => throw .syntaxError
  | p => do return unpack p (leNat (← pyRead (width p)))

/-- `[… for _ in range(resp.decode_u32())]`. -/
def pyDecodeArray (elem : PyDec Val) : PyDec Val := do
  let count ← pyDecodeU32
  return .array (← many count elem)

/-! ## Running the emitted code -/

/-- The struct that `encode_<name>` and `decode_<name>` are for. Enums have no codecs. -/
def Namespace.pyStruct? (ns : Namespace) (name : Str) : Option StructDef :=
  ns.structs.find? (·.name == name)

/-- `val.<attr>`. -/
def pyGetattr (ns : Namespace) (attr : Str) : Val → Except PyError Val
  | .struct cls vs =>
    match ns.pyStruct? cls with
    | some s =>
      match ((s.fields.map (·.name)).zip vs).lookup attr with
      | some v => .ok v
      | none => .error .attributeError
    | none => .error .attributeError
  | _ => .error .attributeError

/-- Present or not, the value itself. -/
def Val.unwrap : Val → Val
  | .present v => v
  | v => v

section
variable (ns : Namespace) (g : Str → Str)

/-- Code for a type that is neither an array nor optional, `nested` running the calls in a
struct's codec. -/
def pyEncodeBase (nested : PyCall → Val → Except PyError Bytes) :
    TypeBase → Val → Except PyError Bytes
  | .primitive p, v => pyEncodePrim p v
  | .user name, v =>
    match ns.pyStruct? name with
    | some s => each (fun f => do
        nested ((pyEncodeCall f.type).rename g) (← pyGetattr ns (g f.name) v)) s.fields
    | none => .error .nameError

/-- Run encoding code with calls nested at most as deep as the first argument. The emitted
code is that where `g` is `inEncoder`. -/
def pyEncodeVal : Nat → PyCall → Val → Except PyError Bytes
  | 0, _, _ => .error .recursionError
  | depth + 1, .base b, v => pyEncodeBase ns g (pyEncodeVal depth) b v
  | _ + 1, .optional _, .absent => .ok (encodeBool false)
  | depth + 1, .optional b, v => do
    return encodeBool true ++ (← pyEncodeBase ns g (pyEncodeVal depth) b v.unwrap)
  | depth + 1, .helper p, .array vs =>
    pyEncodeArray (pyEncodeVal depth (.base (.primitive p))) vs
  | depth + 1, .loop elem, .array vs => pyEncodeArray (pyEncodeVal depth elem) vs
  | _ + 1, .helper _, _ | _ + 1, .loop _, _ => .error .typeError

def pyDecodeBase (nested : PyCall → PyDec Val) : TypeBase → PyDec Val
  | .primitive p => pyDecodePrim p
  | .user name =>
    match ns.pyStruct? name with
    | some s => do
      return .struct name
        (← decodeFields (fun t => nested ((pyDecodeCall t).rename g)) s.fields)
    | none => throw .nameError

/-- Run decoding code with calls nested at most as deep as the first argument. The emitted
code is that where `g` is `inDecoder`. -/
def pyDecodeVal : Nat → PyCall → PyDec Val
  | 0, _ => throw .recursionError
  | depth + 1, .base b => pyDecodeBase ns g (pyDecodeVal depth) b
  | depth + 1, .optional b => do
    let present ← pyRead 1
    if leNat present != 0 then pyDecodeBase ns g (pyDecodeVal depth) b else return .absent
  | depth + 1, .helper p => pyDecodeArray (pyDecodeVal depth (.base (.primitive p)))
  | depth + 1, .loop elem => pyDecodeArray (pyDecodeVal depth elem)

end

/-! ## Loading the module -/

/-- The defaults `= None` of a data class: no field without one after a field with one. -/
def defaultsLast : List Field → Bool
  | [] => true
  | f :: fs => if f.type.isOptional then fs.all (·.type.isOptional) else defaultsLast fs

section
variable (ns : Namespace)

/-- The name is defined above the struct in the emitted file: the enums come first, then
the structs in their order. -/
def definedAbove (s : StructDef) (name : Str) : Bool :=
  (ns.enums.map (·.name)).contains name ||
    ((ns.structs.takeWhile (·.name != s.name)).map (·.name)).contains name

/-- The class and the codecs of a struct are there: a Python from 3.9 to 3.13 evaluates the
annotations of the fields, `@dataclass` wants the defaults last, and there is no code for
a `void`. -/
def pyClassLoads (s : StructDef) : Bool :=
  defaultsLast s.fields && s.fields.all fun f =>
    match f.type.base with
    | .primitive p => p != .void
    | .user name => definedAbove ns s name

/-- The members of a C++ struct are of types that are defined above it; a vector may also be
of a struct that is only declared, as all are. -/
def cppStructLoads (s : StructDef) : Bool :=
  s.fields.all fun f =>
    match f.type.base with
    | .primitive _ => true
    | .user name =>
      definedAbove ns s name || (f.type.isArray && (ns.structs.map (·.name)).contains name)

end

end Song.Compiler
