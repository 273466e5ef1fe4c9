import Song.Compiler.Calls
import Song.Compiler.Inheritance
import Song.Compiler.Text
import Song.Connection

/-!
# The code of a class without a base (`generate_class_proxy`, `_skeleton`, `_dispatcher`,
`_factory`)

The client's proxy and the server's base class, dispatcher and factory name the same constants,
and encode and decode with the calls of the members' types. `IsProgram` is what the C++ compiler
asks of them.

An implementation derives the base: it has constructors and methods and may override accessors.
Its functions are on C++ values. A parameter stands for its argument, as its name is none of the
names in the generated functions.
-/

namespace Song.Compiler

/-! ## Codecs in generated code -/

/-- Of the faults only an exception is met while a program runs. -/
def Fault.exn : Fault → Exn
  | .throws e => e
  | .illFormed => .foreign 0
  | .tooDeep => .foreign 1

def GenDec.toDec {α : Type} (d : GenDec α) : Dec α := fun b =>
  match d.run b with
  | .ok a b' => .ok a b'
  | .error f b' => .error f.exn b'

/-- A parameter is encoded and decoded as a field is. -/
def Param.field (p : Param) : Field := { name := p.name, type := p.type }

section
variable (ns : Namespace) (depth : Nat)

def encodeAs (t : Ty) (v : Val) : Except Exn Bytes :=
  (encodeVal ns (encodeCall t) v).mapError Fault.exn

def decodeAs (t : Ty) : Dec Val := GenDec.toDec (decodeVal ns depth (decodeCall t))

def encodeArgs (ps : List Param) (vs : List Val) : Except Exn Bytes :=
  (encodeFields ns (ps.map Param.field) vs).mapError Fault.exn

def decodeArgs (ps : List Param) : Dec (List Val) :=
  GenDec.toDec (decodeFields (fun t => decodeVal ns depth (decodeCall t)) (ps.map Param.field))

/-- The encoded return value. -/
def encodeResult (t : Ty) : Option Val → Except Exn Bytes
  | some v => encodeAs ns t v
  | none => .error Fault.illFormed.exn

end

/-! ## Constants -/

namespace ClassDef

variable (c : ClassDef) (ns : Namespace)

def typeId : Option UInt16 := Cpp.value .single ns (Cpp.kType c.name)

def propId (p : Property) : Option UInt16 := Cpp.value .single ns (Cpp.kProp c.name p.name)

def ctorId (i : Nat) : Option UInt16 := Cpp.value .single ns (Cpp.kCtor c.name i)

def methodId (m : Method) : Option UInt16 := Cpp.value .single ns (Cpp.kMethod c.name m.name)

/-- The constants are defined once, the labels of a switch are distinct, and no function of the
base class is declared twice. -/
structure IsProgram : Prop where
  type : (c.typeId ns).isSome
  props : ∀ p ∈ c.properties, (c.propId ns p).isSome
  ctors : ∀ i < c.constructors.length, (c.ctorId ns i).isSome
  methods : ∀ m ∈ c.methods, (c.methodId ns m).isSome
  propLabels : (c.properties.map (c.propId ns)).Nodup
  ctorLabels : ((List.range c.constructors.length).map (c.ctorId ns)).Nodup
  methodLabels : (c.methods.map (c.methodId ns)).Nodup
  functions : ∀ f ∈ c.skeleton, ∀ g ∈ c.skeleton, f.sameSignature g = true → f = g

end ClassDef

/-! ## Implementations -/

section
variable (σ ω : Type)

/-- An object: the base class's properties, by their positions, and what the implementation has
of its own. -/
structure Members where
  props : Nat → Val
  own : ω

/-- An implementation that derives the base: its constructors and methods, and the accessors that
it overrides. -/
structure Implementation where
  construct : Nat → List Val → σ → Ran σ Push (Members ω)
  method : Nat → List Val → Members ω × σ → Ran (Members ω × σ) Note (Option Val)
  getter : Nat → Option (Members ω × σ → Ran (Members ω × σ) Note (Option Val))
  setter : Nat → Option (Val → Members ω × σ → Ran (Members ω × σ) Note (Option Val))

end

variable {σ ω : Type}

def Members.set (d : Members ω) (pos : Nat) (v : Val) : Members ω :=
  { d with props := Function.update d.props pos v }

/-! ## The server -/

namespace ClassDef

variable (c : ClassDef) (ns : Namespace) (depth : Nat) (impl : Implementation σ ω)

/-- A generated setter. -/
def setProp (p : Property) (pos : Nat) (v : Val) (s : Members ω × σ) :
    Ran (Members ω × σ) Note (Option Val) :=
  let s' := (s.1.set pos v, s.2)
  match encodeAs ns p.type v, c.propId ns p with
  | .ok value, some id => ⟨s', [⟨id, value⟩], .ok none⟩
  | .ok _, none => .throw s' Fault.illFormed.exn
  | .error e, _ => .throw s' e

/-- Run a function of the object. -/
def runFunction (h : Handler) (args : List Val) (s : Members ω × σ) :
    Ran (Members ω × σ) Note (Option Val) :=
  match h, args with
  | .getter _ pos, _ =>
    match impl.getter pos with
    | some f => f s
    | none => ⟨s, [], .ok (some (s.1.props pos))⟩
  | .setter _ pos, [v] =>
    match impl.setter pos, c.properties[pos]? with
    | some f, _ => f v s
    | none, some p => c.setProp ns p pos v s
    | none, none => .throw s Fault.illFormed.exn
  | .setter _ _, _ => .throw s Fault.illFormed.exn
  | .method _ pos, _ => impl.method pos args s

def callFunction (f : VirtualFn) (args : List Val) (s : Members ω × σ) :
    Ran (Members ω × σ) Note (Option Val) :=
  c.runFunction ns impl (virtualCall [c] c f).handler args s

/-- The `case` of a switch over properties. -/
def propCase (cases : List (Property × Nat)) (id : UInt16) : Option (Property × Nat) :=
  cases.find? fun x => c.propId ns x.1 = some id

def methodCase (id : UInt16) : Option (Method × Nat) :=
  c.methods.zipIdx.find? fun x => c.methodId ns x.1 = some id

def ctorCase (id : UInt16) : Option (Constructor × Nat) :=
  c.constructors.zipIdx.find? fun x => c.ctorId ns x.2 = some id

/-- `encode_…(resp, get_<p>())`. -/
def respond (p : Property) (pos : Nat) (s : Members ω × σ) : Ran (Members ω × σ) Note Bytes :=
  (c.callFunction ns impl (c.getterFn p pos) [] s).next fun v s' =>
    ⟨s', [], encodeResult ns p.type v⟩

/-- `<Name>Base::prop_get`. -/
def baseGet (id : UInt16) (s : Members ω × σ) : Ran (Members ω × σ) Note Bytes :=
  match c.propCase ns c.getCases id with
  | some (p, pos) => c.respond ns impl p pos s
  | none => .throw s (.runtimeError (unknownProperty ++ toStr id.toNat))

/-- `<Name>Base::prop_set`. -/
def baseSet (id : UInt16) (req : Buffer) (s : Members ω × σ) : Ran (Members ω × σ) Note Bytes :=
  match c.propCase ns c.setCases id with
  | some (p, pos) =>
    match (decodeAs ns depth p.type).run req with
    | .error e _ => .throw s e
    | .ok v _ =>
      (c.callFunction ns impl (c.setterFn p pos) [v] s).next fun _ s' =>
        c.respond ns impl p pos s'
  | none => .throw s (.runtimeError (unknownOrReadonly ++ toStr id.toNat))

/-- `<Name>Base::dispatch`. -/
def baseDispatch (id : UInt16) (req : Buffer) (s : Members ω × σ) :
    Ran (Members ω × σ) Note Bytes :=
  match c.methodCase ns id with
  | some (m, pos) =>
    match (decodeArgs ns depth m.params).run req with
    | .error e _ => .throw s e
    | .ok args _ =>
      (c.callFunction ns impl (c.methodFn m pos) args s).next fun v s' =>
        ⟨s', [], if m.isVoid then .ok [] else encodeResult ns m.returnType v⟩
  | none => .throw s (.runtimeError (unknownMethod ++ toStr id.toNat))

def unknownConstructor (id : UInt16) : Exn :=
  .runtimeError (lit "Unknown constructor ID for " ++ c.name ++ lit ": " ++ toStr id.toNat)

/-- The factory of `register_<Name>`. A class without constructors has the default one. -/
def factory (id : UInt16) (args : Buffer) (user : σ) : Ran σ Push (Members ω) :=
  if c.constructors = [] then
    if id = 0 then impl.construct 0 [] user else .throw user (c.unknownConstructor id)
  else
    match c.ctorCase ns id with
    | some (ctor, i) =>
      match (decodeArgs ns depth ctor.params).run args with
      | .error e _ => .throw user e
      | .ok vs _ => impl.construct i vs user
    | none => .throw user (c.unknownConstructor id)

end ClassDef

/-! ## The client -/

def sentId : Option UInt16 → Except Exn UInt16
  | some id => .ok id
  | none => .error Fault.illFormed.exn

/-- What `create_<Name>`, overload `i`, asks for. -/
def ClassDef.createOp (c : ClassDef) (ns : Namespace) (i : Nat) (ctor : Constructor)
    (args : List Val) : Except Exn Op := do
  let args ← encodeArgs ns ctor.params args
  return .createObject (← sentId (c.typeId ns)).toUInt32 (.ofNat i) args

/-- A proxy of an object. -/
structure ClassProxy where
  typeId : UInt32
  objectId : Int32

namespace ClassProxy

variable (x : ClassProxy) (c : ClassDef) (ns : Namespace)

/-- What `p()` asks for. -/
def getOp (p : Property) : Except Exn Op := do
  return .getProperty x.typeId x.objectId (← sentId (c.propId ns p))

/-- What `set_<p>(v)` asks for. -/
def setOp (p : Property) (v : Val) : Except Exn Op := do
  let value ← encodeAs ns p.type v
  return .setProperty x.typeId x.objectId (← sentId (c.propId ns p)) value

/-- What a method asks for. -/
def callOp (m : Method) (args : List Val) : Except Exn Op := do
  let args ← encodeArgs ns m.params args
  return .callObject x.typeId x.objectId (← sentId (c.methodId ns m)) args

end ClassProxy

end Song.Compiler
