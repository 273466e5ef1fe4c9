import Song.Compiler.Resolver
import Song.Lib.Table

/-!
# The ids in the generated code (`generate_service_ids`, `generate_class_ids`)

A generated C++ header and a generated Python module number the services, classes
and their members, each with counters of their own. The constants are tables of
names and values, in the order in which they are written. In C++ a constant that
is defined twice is an error, so a name means the value of its only definition; in
Python it means what it is bound to last.
-/

namespace Song.Compiler

/-- Some method of the service is a `stream` method. -/
def ServiceDef.hasStream (s : ServiceDef) : Bool := s.methods.any Method.isStream

/-- The end of a method constant's name. -/
def qualified (owner method : Str) : Str := owner ++ lit "_" ++ method

/-! ## C++ (`CodeGenerator`) -/

namespace Cpp

def kService (name : Str) : Str := lit "kService_" ++ name

def kServiceStream (name : Str) : Str := lit "kService_" ++ name ++ lit "_Stream"

def kMethod (owner method : Str) : Str := lit "kMethod_" ++ qualified owner method

def kType (name : Str) : Str := lit "kType_" ++ name

def kProp (owner property : Str) : Str := lit "kProp_" ++ qualified owner property

def kCtor (owner : Str) (ctorId : Nat) : Str := lit "kCtor_" ++ qualified owner (toStr ctorId)

/-- The methods of a service or a class, numbered from 1. -/
def methodConstants (owner : Str) (methods : List Method) : List (Str × UInt16) :=
  (methods.zipIdx 1).map fun x => (kMethod owner x.1.name, .ofNat x.2)

/-- A service with a `stream` method has a second id, for its stream dispatcher. -/
def serviceConstants (s : ServiceDef) (serviceId : Nat) : List (Str × UInt16) :=
  (kService s.name, .ofNat serviceId) ::
    ((if s.hasStream then [(kServiceStream s.name, .ofNat (serviceId + 1))] else []) ++
      methodConstants s.name s.methods)

/-- How far a service moves the counter. -/
def idsTaken (s : ServiceDef) : Nat := if s.hasStream then 2 else 1

def generateServiceIds (ns : Namespace) : List (Str × UInt16) :=
  (Table.number idsTaken 1 ns.services).flatMap fun x => serviceConstants x.1 x.2

def classConstants (c : ClassDef) (typeId : Nat) : List (Str × UInt16) :=
  (kType c.name, .ofNat typeId) ::
    ((c.properties.zipIdx 1).map (fun x => (kProp c.name x.1.name, .ofNat x.2)) ++
      c.constructors.zipIdx.map (fun x => (kCtor c.name (x.2 % 65536), .ofNat x.2)) ++
      methodConstants c.name c.methods)

def generateClassIds (ns : Namespace) : List (Str × UInt16) :=
  (ns.classes.zipIdx 1).flatMap fun x => classConstants x.1 x.2

/-- `--single`: one header. `--split`: a header each for client and server, without the
class ids. -/
inductive Layout where
  | single | split
  deriving DecidableEq, Repr

/-- The constants that a header with the service ids defines. -/
def headerConstants : Layout → Namespace → List (Str × UInt16)
  | .single, ns => generateServiceIds ns ++ generateClassIds ns
  | .split, ns => generateServiceIds ns

def value (layout : Layout) (ns : Namespace) (name : Str) : Option UInt16 :=
  Table.single (headerConstants layout ns) name

/-- The `case` labels of `dispatch_S`, or of `dispatch_S_stream`. -/
def caseLabels (layout : Layout) (ns : Namespace) (s : ServiceDef) (stream : Bool) :
    List (Option UInt16) :=
  (s.methods.filter fun m => m.isStream = stream).map fun m =>
    value layout ns (kMethod s.name m.name)

/-- The service id that `m`'s dispatcher is registered under, and `m`'s `case` in it. The
header is no program when a constant it needs is defined twice, or a `case` stands twice. -/
def dispatchPair (layout : Layout) (ns : Namespace) (s : ServiceDef) (m : Method) :
    Option (UInt16 × UInt16) := do
  let serviceId ← value layout ns (if m.isStream then kServiceStream s.name else kService s.name)
  let methodId ← value layout ns (kMethod s.name m.name)
  if (caseLabels layout ns s m.isStream).count (some methodId) = 1 then
    some (serviceId, methodId)
  else none

end Cpp

/-! ## Python (`PythonCodeGenerator`) -/

namespace Python

/-- What a module-level name is bound to: an id, or a class or function. -/
inductive Value where
  | int (v : UInt16)
  | object
  deriving DecidableEq, Repr

def service (name : Str) : Str := lit "SERVICE_" ++ name

def method (owner name : Str) : Str := lit "METHOD_" ++ qualified owner name

def serviceIds (s : ServiceDef) (serviceId : Nat) : List (Str × Value) :=
  (service s.name, .int (.ofNat serviceId)) ::
    (s.methods.zipIdx 1).map fun x => (method s.name x.1.name, .int (.ofNat x.2))

def generateServiceIds (ns : Namespace) : List (Str × Value) :=
  (ns.services.zipIdx 1).flatMap fun x => serviceIds x.1 x.2

/-- The classes and functions of the module: the enums, the structs with their codecs,
the proxies. -/
def objectNames (ns : Namespace) : List Str :=
  ns.enums.map EnumDef.name ++
  ns.structs.flatMap (fun s => [s.name, lit "encode_" ++ s.name, lit "decode_" ++ s.name]) ++
  ns.services.map fun s => s.name ++ lit "Proxy"

/-- `generate_module`, after its imports. -/
def generateModule (ns : Namespace) : List (Str × Value) :=
  generateServiceIds ns ++ (objectNames ns).map fun n => (n, .object)

/-- The local names of a proxy's method. -/
def locals (m : Method) : List Str :=
  lit "self" :: m.params.map Param.name ++ [lit "req", lit "resp"]

/-- The id that a name stands for in the body of the proxy's method `m`. -/
def idIn (ns : Namespace) (m : Method) (name : Str) : Option UInt16 :=
  if name ∈ locals m then none
  else match Table.last (generateModule ns) name with
    | some (.int v) => some v
    | _ => none

/-- The ids that `m` of the proxy of `s` passes to `conn.call`. -/
def sentPair (ns : Namespace) (s : ServiceDef) (m : Method) : Option (UInt16 × UInt16) := do
  let serviceId ← idIn ns m (service s.name)
  let methodId ← idIn ns m (method s.name m.name)
  some (serviceId, methodId)

end Python

/-- What the Python proxies send is what the C++ dispatchers answer to. -/
def IdsAgree (layout : Cpp.Layout) (ns : Namespace) : Prop :=
  ∀ s ∈ ns.services, ∀ m ∈ s.methods, ∃ pair,
    Python.sentPair ns s m = some pair ∧ Cpp.dispatchPair layout ns s m = some pair

end Song.Compiler
