import Song.Error

/-!
# The syntax tree (`ast.hpp`)

The definitions of a `.song` file as the parser leaves them. A `doc` is the lines of the
documentation comment in front, joined by newlines. File names and the position of a
constructor, which no function modelled here reads, are left out.
-/

namespace Song.Compiler

structure SourceLoc where
  line : Int := 0
  column : Int := 0
  deriving DecidableEq, Repr

inductive PrimitiveType where
  | bool | i8 | i16 | i32 | i64 | u8 | u16 | u32 | u64 | f32 | f64 | string | bytes | void
  deriving DecidableEq, Repr

/-- The `std::variant` of a `Type`: a primitive, or the name of a user's type. -/
inductive TypeBase where
  | primitive (p : PrimitiveType)
  | user (name : Str)
  deriving DecidableEq, Repr

/-- `struct Type`. -/
structure Ty where
  base : TypeBase
  isArray : Bool := false
  isOptional : Bool := false
  arrayDimensions : Int := 0
  deriving DecidableEq, Repr

structure Field where
  name : Str
  type : Ty
  loc : SourceLoc := {}
  doc : Str := []

structure StructDef where
  name : Str
  base : Option Str := none
  fields : List Field
  loc : SourceLoc := {}
  doc : Str := []

structure EnumItem where
  name : Str
  value : Option Int64 := none
  loc : SourceLoc := {}
  doc : Str := []

structure EnumDef where
  name : Str
  items : List EnumItem
  /-- Declared by `flags`, not by `enum`. -/
  isFlags : Bool := false
  loc : SourceLoc := {}
  doc : Str := []

structure Param where
  name : Str
  type : Ty
  loc : SourceLoc := {}

structure Property where
  name : Str
  type : Ty
  readonly : Bool := false
  loc : SourceLoc := {}
  doc : Str := []

structure Constructor where
  params : List Param
  doc : Str := []

structure Method where
  name : Str
  params : List Param
  returnType : Ty
  isStream : Bool := false
  throws : List Str := []
  loc : SourceLoc := {}
  doc : Str := []
  isOptional : Bool := false

structure ClassDef where
  name : Str
  base : Option Str := none
  properties : List Property
  constructors : List Constructor := []
  methods : List Method
  loc : SourceLoc := {}
  doc : Str := []

structure ServiceDef where
  name : Str
  methods : List Method
  loc : SourceLoc := {}
  doc : Str := []

structure ErrorDef where
  name : Str
  base : Option Str := none
  fields : List Field
  loc : SourceLoc := {}
  doc : Str := []

structure Namespace where
  name : Str := []
  enums : List EnumDef := []
  structs : List StructDef := []
  classes : List ClassDef := []
  services : List ServiceDef := []
  errors : List ErrorDef := []

structure AST where
  namespaces : List Namespace

/-! ## C++ types -/

def primitiveToCpp : PrimitiveType → Str
  | .bool => lit "bool"
  | .i8 => lit "i8"
  | .i16 => lit "i16"
  | .i32 => lit "i32"
  | .i64 => lit "i64"
  | .u8 => lit "u8"
  | .u16 => lit "u16"
  | .u32 => lit "u32"
  | .u64 => lit "u64"
  | .f32 => lit "f32"
  | .f64 => lit "f64"
  | .string => lit "std::string"
  | .bytes => lit "std::vector<std::byte>"
  | .void => lit "void"

/-- `s` repeated `n` times. -/
def repeated (n : Nat) (s : Str) : Str := (List.replicate n s).flatten

/-- The dimensions of an array type, at least one. -/
def Ty.dims (t : Ty) : Int := if t.arrayDimensions > 0 then t.arrayDimensions else 1

/-- The type of the elements: one array dimension less. -/
def Ty.elem (t : Ty) : Ty :=
  { t with arrayDimensions := t.dims - 1, isArray := decide (t.dims - 1 > 0) }

def typeToCpp (t : Ty) : Str :=
  let baseType := match t.base with
    | .primitive p => primitiveToCpp p
    | .user name => name
  if t.isArray then
    let dims := if t.arrayDimensions > 0 then t.arrayDimensions.toNat else 1
    repeated dims (lit "std::vector<") ++ baseType ++ repeated dims (lit ">")
  else if t.isOptional then lit "std::optional<" ++ baseType ++ lit ">"
  else baseType

/-- Arrays, optionals, strings, bytes and user types are passed by reference. -/
def byRef (t : Ty) : Bool :=
  t.isArray || t.isOptional || match t.base with
    | .primitive p => p == .string || p == .bytes
    | .user _ => true

def typeToParam (t : Ty) (name : Str) : Str :=
  if byRef t then lit "const " ++ typeToCpp t ++ lit "& " ++ name
  else typeToCpp t ++ lit " " ++ name

end Song.Compiler
