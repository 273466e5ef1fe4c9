import Song.Buffer.Primitives
import Song.Compiler.Ast

/-!
# Generated C++ codecs (`codegen.cpp`, `buffer.hpp`)

`encode_call` and `decode_call` turn an IDL type into the text of a call. `Call` is
that call as the C++ compiler reads it: a primitive codec, the generated codec of a
user's type or of an array of it, the runtime's array template at an element type, or
an `encode_optional`, which nothing defines. `encodeVal` and `decodeVal` run a call,
with the generated struct and enum codecs as the namespace's definitions make them.

A `Val` is a C++ value of such a type: an enum value is its underlying integer, a float
its bit pattern. `Fault.illFormed` stands for a program that does not compile.
-/

namespace Song.Compiler

open Cursor (many each)

/-! ## Types and calls -/

/-- A C++ type that `type_to_cpp` names. -/
inductive CppType where
  | prim (p : PrimitiveType)
  | user (name : Str)
  | vector (elem : CppType)
  | optional (inner : CppType)
  deriving DecidableEq, Repr

namespace CppType

def ofBase : TypeBase → CppType
  | .primitive p => prim p
  | .user name => user name

/-- `std::vector`, `n` deep. -/
def nested : Nat → CppType → CppType
  | 0, t => t
  | n + 1, t => vector (nested n t)

/-- The text of the type. -/
def text : CppType → Str
  | prim p => primitiveToCpp p
  | user name => name
  | vector elem => lit "std::vector<" ++ elem.text ++ lit ">"
  | optional inner => lit "std::optional<" ++ inner.text ++ lit ">"

end CppType

/-- The type whose text `type_to_cpp` is. -/
def cppType (t : Ty) : CppType :=
  let base := CppType.ofBase t.base
  if t.isArray then .nested t.dims.toNat base
  else if t.isOptional then .optional base
  else base

/-- What an emitted call runs. -/
inductive Call where
  /-- `encode_i32(buf, expr)`; of `void`, nothing. -/
  | prim (p : PrimitiveType)
  /-- `encode_<name>(buf, expr)`. -/
  | user (name : Str)
  /-- `encode_array_<name>(buf, expr)`. -/
  | userArray (name : Str)
  /-- `encode_array<elem>(buf, expr)`. -/
  | template (elem : CppType)
  /-- `encode_optional(buf, expr, …)`, with the call for what is inside. -/
  | optional (inner : Call)
  deriving DecidableEq, Repr

/-- `CodeGenerator::encode_call`. The call inside an optional is for a type that is neither
an array nor optional. -/
def encodeCall (t : Ty) : Call :=
  if t.isArray then
    match t.elem.isArray, t.elem.base with
    | false, .user name => .userArray name
    | _, _ => .template (cppType t.elem)
  else
    let base := match t.base with
      | .primitive p => .prim p
      | .user name => .user name
    if t.isOptional then .optional base else base

/-- `CodeGenerator::decode_call`. -/
def decodeCall (t : Ty) : Call :=
  if t.isArray then
    match t.elem.isArray, t.elem.base with
    | false, .user name => .userArray name
    | _, _ => .template (cppType t.elem)
  else
    let base := match t.base with
      | .primitive p => .prim p
      | .user name => .user name
    if t.isOptional then .optional base else base

/-- What `encode_array<T>` calls for an element; none when the template does not compile. A
`std::vector<bool>` is no `std::span<const bool>`, and a `std::byte` no element type. -/
def encodeElem : CppType → Option Call
  | .prim .bool | .prim .bytes | .prim .void => none
  | .prim p => some (.prim p)
  | .vector elem => (encodeElem elem).map fun _ => .template elem
  | .user _ | .optional _ => none

/-- What `decode_array<T>` calls for an element. It fills a `std::vector<bool>`, but no
`std::vector<std::byte>`. -/
def decodeElem : CppType → Option Call
  | .prim .bytes | .prim .void => none
  | .prim p => some (.prim p)
  | .vector elem => (decodeElem elem).map fun _ => .template elem
  | .user _ | .optional _ => none

/-! ## Values -/

inductive Val where
  | bool (v : Bool)
  | i8 (v : Int8)
  | i16 (v : Int16)
  | i32 (v : Int32)
  | i64 (v : Int64)
  | u8 (v : UInt8)
  | u16 (v : UInt16)
  | u32 (v : UInt32)
  | u64 (v : UInt64)
  | f32 (bits : UInt32)
  | f64 (bits : UInt64)
  | string (s : Str)
  | bytes (bs : Bytes)
  | struct (name : Str) (fields : List Val)
  | array (elems : List Val)
  | absent
  | present (v : Val)

/-- A definition of the namespace that a type's name may mean. -/
inductive UserDef where
  | struct (s : StructDef)
  | enum (e : EnumDef)

def Namespace.userDef (ns : Namespace) (name : Str) : Option UserDef :=
  match ns.structs.find? (·.name == name) with
  | some s => some (.struct s)
  | none => (ns.enums.find? (·.name == name)).map .enum

/-- Why a call does not return. -/
inductive Fault where
  | throws (e : Exn)
  /-- The program does not compile. -/
  | illFormed
  /-- The model's bound on nested calls is reached. -/
  | tooDeep
  deriving DecidableEq, Repr

def kMaxArrayCount : Nat := 1024 * 1024

def arrayTooLarge : Fault := .throws (.runtimeError (lit "Array too large"))

/-! ## Encoding -/

/-- An `Except` of the runtime inside generated code. -/
def thrown {α : Type} (x : Except Exn α) : Except Fault α := x.mapError .throws

/-- The primitive encoders. -/
def encodePrim : PrimitiveType → Val → Except Fault Bytes
  | .bool, .bool v => .ok (encodeBool v)
  | .i8, .i8 v => .ok (encodeI8 v)
  | .i16, .i16 v => .ok (encodeI16 v)
  | .i32, .i32 v => .ok (encodeI32 v)
  | .i64, .i64 v => .ok (encodeI64 v)
  | .u8, .u8 v => .ok (encodeU8 v)
  | .u16, .u16 v => .ok (encodeU16 v)
  | .u32, .u32 v => .ok (encodeU32 v)
  | .u64, .u64 v => .ok (encodeU64 v)
  | .f32, .f32 bits => .ok (encodeF32 bits)
  | .f64, .f64 bits => .ok (encodeF64 bits)
  | .string, .string s => thrown (encodeString s)
  | .bytes, .bytes bs => thrown (encodeBytes bs)
  | _, _ => .error .illFormed

/-- `encode_<Enum>`: the underlying integer. -/
def encodeEnum (e : EnumDef) (v : Val) : Except Fault Bytes :=
  encodePrim (if e.isFlags then .u32 else .i32) v

/-- The length in front of the elements, `static_cast<u32>(arr.size())`. -/
def encodeCount (n : Nat) : Bytes := encodeU32 (UInt32.ofNat n)

mutual

/-- Run an encoding call on a value. -/
def encodeVal (ns : Namespace) : Call → Val → Except Fault Bytes
  | .prim p, v => encodePrim p v
  | .user name, v =>
    match ns.userDef name with
    | some (.struct s) =>
      match v with
      | .struct name' vs => if name' = name then encodeFields ns s.fields vs else .error .illFormed
      | _ => .error .illFormed
    | some (.enum e) => encodeEnum e v
    | none => .error .illFormed
  | .userArray name, .array vs => do
    return encodeCount vs.length ++ (← encodeEach ns (.user name) vs)
  | .template elem, .array vs =>
    match encodeElem elem with
    | none => .error .illFormed
    | some call =>
      if vs.length > kMaxArrayCount then .error arrayTooLarge
      else do return encodeCount vs.length ++ (← encodeEach ns call vs)
  | _, _ => .error .illFormed

/-- The loop over the elements. -/
def encodeEach (ns : Namespace) (call : Call) : List Val → Except Fault Bytes
  | [] => .ok []
  | v :: vs => do
    let w ← encodeVal ns call v
    let ws ← encodeEach ns call vs
    return w ++ ws

/-- The body of `encode_<Struct>`: the fields in their order. -/
def encodeFields (ns : Namespace) : List Field → List Val → Except Fault Bytes
  | [], [] => .ok []
  | f :: fs, v :: vs => do
    let w ← encodeVal ns (encodeCall f.type) v
    let ws ← encodeFields ns fs vs
    return w ++ ws
  | _, _ => .error .illFormed

end

/-! ## Decoding -/

/-- A decoder of generated code. -/
abbrev GenDec := EStateM Fault Buffer

/-- A decoder of the runtime inside generated code. -/
def Dec.lift {α : Type} (d : Dec α) : GenDec α := fun b =>
  match d.run b with
  | .ok a b' => .ok a b'
  | .error e b' => .error (.throws e) b'

/-- The primitive decoders. -/
def decodePrim : PrimitiveType → GenDec Val
  | .bool => do return .bool (← Dec.lift decodeBool)
  | .i8 => do return .i8 (← Dec.lift decodeI8)
  | .i16 => do return .i16 (← Dec.lift decodeI16)
  | .i32 => do return .i32 (← Dec.lift decodeI32)
  | .i64 => do return .i64 (← Dec.lift decodeI64)
  | .u8 => do return .u8 (← Dec.lift decodeU8)
  | .u16 => do return .u16 (← Dec.lift decodeU16)
  | .u32 => do return .u32 (← Dec.lift decodeU32)
  | .u64 => do return .u64 (← Dec.lift decodeU64)
  | .f32 => do return .f32 (← Dec.lift decodeF32)
  | .f64 => do return .f64 (← Dec.lift decodeF64)
  | .string => do return .string (← Dec.lift decodeString)
  | .bytes => do return .bytes (← Dec.lift decodeBytes)
  | .void => throw .illFormed

/-- `decode_<Enum>`. -/
def decodeEnum (e : EnumDef) : GenDec Val := decodePrim (if e.isFlags then .u32 else .i32)

/-- `decode_array_<name>`: no bound on the count but its type. -/
def decodeUserArray (elem : GenDec Val) : GenDec Val := do
  let count ← Dec.lift decodeU32
  return .array (← many count.toNat elem)

/-- `decode_array<T>`. -/
def decodeTemplate (elem : GenDec Val) : GenDec Val := do
  let count ← Dec.lift decodeU32
  if count.toNat > kMaxArrayCount then
    throw arrayTooLarge
  return .array (← many count.toNat elem)

/-- The body of `decode_<Struct>`: the fields in their order. -/
def decodeFields {ε : Type} (field : Ty → EStateM ε Buffer Val) :
    List Field → EStateM ε Buffer (List Val)
  | [] => pure []
  | f :: fs => do
    let v ← field f.type
    let vs ← decodeFields field fs
    return v :: vs

/-- Run a decoding call whose calls are nested at most as deep as the first argument. -/
def decodeVal (ns : Namespace) : Nat → Call → GenDec Val
  | 0, _ => throw .tooDeep
  | _ + 1, .prim p => decodePrim p
  | depth + 1, .user name =>
    match ns.userDef name with
    | some (.struct s) => do
      return .struct name (← decodeFields (fun t => decodeVal ns depth (decodeCall t)) s.fields)
    | some (.enum e) => decodeEnum e
    | none => throw .illFormed
  | depth + 1, .userArray name => decodeUserArray (decodeVal ns depth (.user name))
  | depth + 1, .template elem =>
    match decodeElem elem with
    | some call => decodeTemplate (decodeVal ns depth call)
    | none => throw .illFormed
  | _ + 1, .optional _ => throw .illFormed

end Song.Compiler
