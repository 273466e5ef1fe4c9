import Song.Compiler.ClassCode
import Song.Compiler.Agreement

/-!
# The code of a service (`generate_service_proxy`, `_interface`, `_dispatcher`)

The proxy encodes the arguments of a method, calls the method by its ids and decodes what comes
back. The dispatcher decodes the arguments in the method's `case`, calls the implementation and
encodes what it returned. The streaming methods have a dispatcher of their own, which gives them
the writer; their proxies decode each chunk before it is handed on.

A parameter stands for its argument, as in the code of a class.
-/

namespace Song.Compiler

/-- An implementation of `I<Name>`: its methods, by their positions. -/
structure ServiceImpl (σ : Type) where
  method : Nat → List Val → σ → Ran σ Push (Option Val)
  stream : Nat → List Val → σ → StreamRun σ

def unknownStreamMethod : Str := lit "Unknown streaming method ID: "

namespace ServiceDef

variable {σ : Type} (s : ServiceDef) (layout : Cpp.Layout) (ns : Namespace) (depth : Nat)

/-- `kService_<Name>`, or `kService_<Name>_Stream`. -/
def serviceId (stream : Bool) : Option UInt16 :=
  Cpp.value layout ns (if stream then Cpp.kServiceStream s.name else Cpp.kService s.name)

def methodId (m : Method) : Option UInt16 := Cpp.value layout ns (Cpp.kMethod s.name m.name)

/-- The constants are defined once, and no label stands twice in a switch. -/
def IsProgram : Prop := ∀ m ∈ s.methods, (Cpp.dispatchPair layout ns s m).isSome

instance : Decidable (s.IsProgram layout ns) := inferInstanceAs (Decidable (∀ m ∈ s.methods, _))

/-! ## The server -/

/-- The `case` of a switch. -/
def methodCase (stream : Bool) (id : UInt16) : Option (Method × Nat) :=
  s.methods.zipIdx.find? fun x => x.1.isStream = stream ∧ s.methodId layout ns x.1 = some id

variable (impl : ServiceImpl σ)

/-- Call the implementation and encode its result. -/
def serve (m : Method) (pos : Nat) (args : List Val) (user : σ) : Ran σ Push Bytes :=
  (impl.method pos args user).next fun v user' =>
    ⟨user', [], if m.isVoid then .ok [] else encodeResult ns m.returnType v⟩

/-- `dispatch_<Name>`. -/
def dispatch (id : UInt16) (request : Buffer) (user : σ) : Ran σ Push Bytes :=
  match s.methodCase layout ns false id with
  | some (m, pos) =>
    match (decodeArgs ns depth m.params).run request with
    | .error e _ => .throw user e
    | .ok args _ => serve ns impl m pos args user
  | none => .throw user (.runtimeError (unknownMethod ++ toStr id.toNat))

/-- `dispatch_<Name>_stream`. -/
def dispatchStream (id : UInt16) (request : Buffer) (user : σ) : StreamRun σ :=
  match s.methodCase layout ns true id with
  | some (m, pos) =>
    match (decodeArgs ns depth m.params).run request with
    | .error e _ => .throws user e
    | .ok args _ => impl.stream pos args user
  | none => .throws user (.runtimeError (unknownStreamMethod ++ toStr id.toNat))

/-! ## The client -/

/-- What a proxy's method sends: the two ids and the encoded arguments. -/
def request (m : Method) (args : List Val) : Except Exn (UInt16 × UInt16 × Bytes) := do
  let args ← encodeArgs ns m.params args
  return (← sentId (s.serviceId layout ns m.isStream), ← sentId (s.methodId layout ns m), args)

/-- A value of the return type. -/
def valueOf (m : Method) (bytes : Bytes) : Except Exn Val :=
  match (decodeAs ns depth m.returnType).run (.ofBytes bytes) with
  | .ok v _ => .ok v
  | .error e _ => .error e

/-- What it returns of the response. -/
def resultOf (m : Method) (response : Bytes) : Except Exn (Option Val) :=
  if m.isVoid then .ok none else (valueOf ns depth m response).map some

/-- The values that are read of chunks. -/
def valuesOf (m : Method) (chunks : List Bytes) : List Val :=
  chunks.filterMap fun chunk => (valueOf ns depth m chunk).toOption

/-- The lambda that a streaming method passes to `call_streaming`: it decodes the chunk and hands
the value on. `onChunk` is how that ends, from the values handed on so far. -/
def chunkHandler (m : Method) (onChunk : List Val → Option Exn) : StreamChunkHandler :=
  fun chunks =>
  match chunks.getLast?.map (valueOf ns depth m) with
  | none => none
  | some (.error e) => some e
  | some (.ok _) => onChunk (valuesOf ns depth m chunks)

end ServiceDef

end Song.Compiler
