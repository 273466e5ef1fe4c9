import Song.Compiler.Ids
import Song.Runtime.State

/-!
# Generated classes (`generate_class_skeleton`, `generate_class_dispatcher`)

A generated class is its virtual functions (accessors of its properties, its
methods) and three switches over the ids of its own members, whose default
branches go on in the base class. A `chain` is the classes of an object, from its
own to the last base. Which function a request runs is decided in two steps: the
first switch along the chain with a `case` for the id, and the C++ rules for the
call in that `case`.

A property's value is given by its encoding, so `decode` (`decode_call`) reads one
and `encode_call` writes it out as it is. Of the implementation there are its
methods; it leaves the generated accessors alone.
-/

namespace Song.Compiler

/-- The id of the member at a position: a `u16` counter from 1. -/
def memberId (pos : Nat) : UInt16 := .ofNat (pos + 1)

/-- The function of a class's member, which is given by its position. -/
inductive Handler where
  | getter (cls : Str) (pos : Nat)
  | setter (cls : Str) (pos : Nat)
  | method (cls : Str) (pos : Nat)
  deriving DecidableEq, Repr

/-- A virtual function; `params` are the C++ types of its parameters. -/
structure VirtualFn where
  name : Str
  params : List Str
  isConst : Bool
  handler : Handler
  deriving DecidableEq

def VirtualFn.sameSignature (f g : VirtualFn) : Bool :=
  f.name = g.name && f.params = g.params && f.isConst = g.isConst

def paramType (t : Ty) : Str := typeToParam t []

namespace ClassDef

def getterFn (c : ClassDef) (p : Property) (pos : Nat) : VirtualFn :=
  ⟨lit "get_" ++ p.name, [], true, .getter c.name pos⟩

def setterFn (c : ClassDef) (p : Property) (pos : Nat) : VirtualFn :=
  ⟨lit "set_" ++ p.name, [paramType p.type], false, .setter c.name pos⟩

def methodFn (c : ClassDef) (m : Method) (pos : Nat) : VirtualFn :=
  ⟨m.name, m.params.map fun p => paramType p.type, false, .method c.name pos⟩

/-- No setter for a readonly property. -/
def accessors (c : ClassDef) (x : Property × Nat) : List VirtualFn :=
  c.getterFn x.1 x.2 :: if x.1.readonly then [] else [c.setterFn x.1 x.2]

/-- `generate_class_skeleton`: what the class declares, in order. -/
def skeleton (c : ClassDef) : List VirtualFn :=
  c.properties.zipIdx.flatMap c.accessors ++ c.methods.zipIdx.map fun x => c.methodFn x.1 x.2

/-- What a call of `f` in one of the class's switches names. The switches are in non-const
functions, so a non-const overload is preferred. -/
def overload (c : ClassDef) (f : VirtualFn) : VirtualFn :=
  (c.skeleton.find? (VirtualFn.sameSignature { f with isConst := false })).getD f

/-! ## The switches -/

def getCases (c : ClassDef) : List (Property × Nat) := c.properties.zipIdx

def setCases (c : ClassDef) : List (Property × Nat) :=
  c.properties.zipIdx.filter fun x => !x.1.readonly

def callCases (c : ClassDef) : List (Method × Nat) := c.methods.zipIdx

end ClassDef

/-- The overrider of `f` in an object with the classes `chain`. -/
def finalOverrider (chain : List ClassDef) (f : VirtualFn) : VirtualFn :=
  (chain.findSome? fun d => d.skeleton.find? f.sameSignature).getD f

def virtualCall (chain : List ClassDef) (c : ClassDef) (f : VirtualFn) : VirtualFn :=
  finalOverrider chain (c.overload f)

/-- The class and `case` that an id gets to; `unknown` is what the last base throws. -/
def findCase {β : Type} (cases : ClassDef → List (β × Nat)) (unknown : Str) :
    List ClassDef → UInt16 → Except Exn (ClassDef × β × Nat)
  | [], id => .error (.runtimeError (unknown ++ toStr id.toNat))
  | c :: bases, id =>
    match (cases c).find? fun x => memberId x.2 = id with
    | some x => .ok (c, x)
    | none => findCase cases unknown bases id

def unknownProperty : Str := lit "Unknown property ID: "

def unknownOrReadonly : Str := lit "Unknown or readonly property ID: "

def unknownMethod : Str := lit "Unknown method ID: "

section
variable (chain : List ClassDef)

/-- What `prop_get` runs. -/
def getHandler (id : UInt16) : Except Exn Handler :=
  (findCase ClassDef.getCases unknownProperty chain id).map fun x =>
    (virtualCall chain x.1 (x.1.getterFn x.2.1 x.2.2)).handler

/-- The two calls of a `case` of `prop_set`: the setter, and the getter for the response. -/
def setHandlers (c : ClassDef) (x : Property × Nat) : Handler × Handler :=
  ((virtualCall chain c (c.setterFn x.1 x.2)).handler,
    (virtualCall chain c (c.getterFn x.1 x.2)).handler)

/-- What `prop_set` runs. -/
def setHandler (id : UInt16) : Except Exn (Handler × Handler) :=
  (findCase ClassDef.setCases unknownOrReadonly chain id).map fun x => setHandlers chain x.1 x.2

/-- What `dispatch` runs. -/
def callHandler (id : UInt16) : Except Exn Handler :=
  (findCase ClassDef.callCases unknownMethod chain id).map fun x =>
    (virtualCall chain x.1 (x.1.methodFn x.2.1 x.2.2)).handler

end

/-! ## Objects -/

/-- The properties of each class, and the implementation's own data. -/
structure ObjectData (ω : Type) where
  props : Str → Nat → Bytes
  own : ω

section
variable {ω σ : Type}

/-- The methods of an implementation: from the arguments to the result. -/
abbrev Impl (ω σ : Type) :=
  Str → Nat → List Bytes → ObjectData ω × σ → Ran (ObjectData ω × σ) Note Bytes

def ObjectData.set (o : ObjectData ω) (cls : Str) (pos : Nat) (v : Bytes) : ObjectData ω :=
  { o with props := fun c i => if c = cls ∧ i = pos then v else o.props c i }

/-- Run a function of an object. A setter stores the value and pushes a notification. -/
def runHandler (impl : Impl ω σ) (h : Handler) (args : List Bytes) (s : ObjectData ω × σ) :
    Ran (ObjectData ω × σ) Note Bytes :=
  match h with
  | .getter cls pos => ⟨s, [], .ok (s.1.props cls pos)⟩
  | .setter cls pos =>
    ⟨(s.1.set cls pos args.flatten, s.2), [⟨memberId pos, args.flatten⟩], .ok []⟩
  | .method cls pos => impl cls pos args s

variable (decode : Ty → Dec Bytes) (impl : Impl ω σ) (chain : List ClassDef)

def propGet (id : UInt16) (s : ObjectData ω × σ) : Ran (ObjectData ω × σ) Note Bytes :=
  match getHandler chain id with
  | .ok h => runHandler impl h [] s
  | .error e => .throw s e

def propSet (id : UInt16) (req : Buffer) (s : ObjectData ω × σ) :
    Ran (ObjectData ω × σ) Note Bytes :=
  match findCase ClassDef.setCases unknownOrReadonly chain id with
  | .error e => .throw s e
  | .ok (c, x) =>
    match (decode x.1.type).run req with
    | .error e _ => .throw s e
    | .ok value _ =>
      (runHandler impl (setHandlers chain c x).1 [value] s).next fun _ =>
        runHandler impl (setHandlers chain c x).2 []

/-- The arguments, in order. -/
def decodeParams : List Param → Dec (List Bytes)
  | [] => pure []
  | p :: ps => do
    let v ← decode p.type
    let vs ← decodeParams ps
    pure (v :: vs)

def dispatch (id : UInt16) (req : Buffer) (s : ObjectData ω × σ) :
    Ran (ObjectData ω × σ) Note Bytes :=
  match findCase ClassDef.callCases unknownMethod chain id with
  | .error e => .throw s e
  | .ok (c, m, pos) =>
    match (decodeParams decode m.params).run req with
    | .error e _ => .throw s e
    | .ok args _ => runHandler impl (virtualCall chain c (c.methodFn m pos)).handler args s

end

end Song.Compiler
