import Song.Compiler.CppText.Files

/-!
# What a header declares and calls

A C++ compiler reads a header from the front: a member's type must be complete where the
member stands, a helper declared before the first function that calls it. `supply` reads the
lines of a file as the symbols they give and want. The types come first in a header, the enums
and their codecs in front of the structs, the structs in the order they were written in; the
services and classes, which only call, follow.
-/

namespace Song.Compiler.CppText

open Supply (Served Closed given wanted)

/-! ## Reading lines -/

/-- What a C++ compiler has seen: a helper declared, a type defined. -/
inductive Sym where
  | helper (h : Helper)
  | complete (type : Str)
  deriving DecidableEq, Repr

/-- The user's type that must be complete for a member of the type; a vector may be of a type
that is not. -/
def held : CppType → Option Str
  | .user name => some name
  | .optional inner => held inner
  | .prim _ | .vector _ => none

def Mark.supply : Mark → List (Supply.Event Sym)
  | call h => [.wants (.helper h)]
  | declares h _ => [.gives (.helper h)]
  | member type => (held (cppType type)).toList.map fun name => .wants (.complete name)
  | closes name => [.gives (.complete name)]

def Code.supply (code : Code) : List (Supply.Event Sym) :=
  code.flatMap fun p => p.marks.flatMap Mark.supply

def supply (lines : List Line) : List (Supply.Event Sym) := lines.flatMap fun l => l.code.supply

section
variable {code code' : Code} {l : Line} {lines lines' : List Line}

@[simp] theorem Code.supply_nil : Code.supply [] = [] := rfl

@[simp] theorem Code.supply_append : Code.supply (code ++ code') = code.supply ++ code'.supply :=
  List.flatMap_append

@[simp] theorem Code.supply_t (s : String) : Code.supply (t s :: code) = code.supply := rfl

@[simp] theorem Code.supply_raw (s : Str) : Code.supply (raw s :: code) = code.supply := rfl

@[simp] theorem Code.supply_use (who : Option Nat) (n : Str) :
    Code.supply (.use who n :: code) = code.supply := rfl

@[simp] theorem Code.supply_bind (who : Option Nat) (n : Str) :
    Code.supply (.bind who n :: code) = code.supply := rfl

@[simp] theorem Code.supply_var (n : String) : Code.supply (.var n :: code) = code.supply := rfl

@[simp] theorem Code.supply_own (n : String) : Code.supply (.own n :: code) = code.supply := rfl

@[simp] theorem Code.supply_named (n : Str) : Code.supply (named n :: code) = code.supply := rfl

@[simp] theorem Code.supply_enter : Code.supply (.enter :: code) = code.supply := rfl

@[simp] theorem Code.supply_leave : Code.supply (.leave :: code) = code.supply := rfl

@[simp] theorem Code.supply_calls (h : Helper) :
    Code.supply (calls h :: code) = .wants (.helper h) :: code.supply := rfl

@[simp] theorem Code.supply_declares (h : Helper) (linkage : Linkage) :
    Code.supply (declares h linkage :: code) = .gives (.helper h) :: code.supply := rfl

@[simp] theorem Code.supply_closes (name : Str) :
    Code.supply (closes name :: code) = .gives (.complete name) :: code.supply := rfl

@[simp] theorem supply_nil : supply [] = [] := rfl

@[simp] theorem supply_cons : supply (l :: lines) = l.code.supply ++ supply lines := rfl

@[simp] theorem supply_append : supply (lines ++ lines') = supply lines ++ supply lines' :=
  List.flatMap_append

@[simp] theorem line_code : (line code).code = code := rfl

@[simp] theorem documented_code (doc : Str) (indent suffix : String) :
    (documented doc indent code suffix).code = code := rfl

@[simp] theorem blank_code : blank.code = [] := rfl

@[simp] theorem supply_flatMap {α : Type} (f : α → List Line) (xs : List α) :
    supply (xs.flatMap f) = xs.flatMap fun x => supply (f x) := List.flatMap_assoc

@[simp] theorem supply_map {α : Type} (f : α → Line) (xs : List α) :
    supply (xs.map f) = xs.flatMap fun x => (f x).code.supply := by
  rw [supply, List.flatMap_map]

end

/-! ## Calls -/

/-- The helper that an encoding call names. -/
def encodeHelper : Call → Option Helper
  | .user name => some (.encode name)
  | .userArray name => some (.encodeArray name)
  | .optional call => encodeHelper call
  | .prim _ | .template _ => none

def decodeHelper : Call → Option Helper
  | .user name => some (.decode name)
  | .userArray name => some (.decodeArray name)
  | .optional call => decodeHelper call
  | .prim _ | .template _ => none

def wantsHelper (h : Option Helper) : List (Supply.Event Sym) :=
  h.toList.map fun h => .wants (.helper h)

/-- What the encoding call for a type wants. -/
def encodeWants (type : Ty) : List (Supply.Event Sym) := wantsHelper (encodeHelper (encodeCall type))

def decodeWants (type : Ty) : List (Supply.Event Sym) := wantsHelper (decodeHelper (decodeCall type))

section
variable {buf : Piece Mark} {expr code : Code}

theorem Code.supply_quiet (hb : Code.supply [buf] = []) : Code.supply (buf :: code) = code.supply := by
  rw [← List.singleton_append, supply_append, hb, List.nil_append]

theorem supply_callEncode {call : Call} (hb : Code.supply [buf] = []) (he : expr.supply = []) :
    (callEncode buf expr call).supply = wantsHelper (encodeHelper call) := by
  induction call generalizing expr with
  | prim p => cases p <;> simp [callEncode, Code.supply_quiet hb, he, encodeHelper, wantsHelper]
  | optional inner ih =>
    have := @ih [.var "v"] rfl
    simp [callEncode, Code.supply_quiet hb, he, encodeHelper, this]
  | _ => simp [callEncode, Code.supply_quiet hb, he, encodeHelper, wantsHelper]

theorem supply_callDecode {inner : Str} {call : Call} (hb : Code.supply [buf] = []) :
    (callDecode inner buf call).supply = wantsHelper (decodeHelper call) := by
  induction call with
  | prim p => cases p <;> simp [callDecode, Code.supply_quiet hb, decodeHelper, wantsHelper]
  | optional call ih => simp [callDecode, Code.supply_quiet hb, decodeHelper, ih]
  | _ => simp [callDecode, Code.supply_quiet hb, decodeHelper, wantsHelper]

theorem supply_encode {type : Ty} (hb : Code.supply [buf] = []) (he : expr.supply = []) :
    (encode type expr buf).supply = encodeWants type := supply_callEncode hb he

theorem supply_decode {type : Ty} (hb : Code.supply [buf] = []) :
    (decode type buf).supply = decodeWants type := supply_callDecode hb

end

section
variable (type : Ty) (buf expr : String) (name : Str)

@[simp] theorem supply_encode_field :
    (encode type [t expr, raw name] (t buf)).supply = encodeWants type := supply_encode rfl rfl

@[simp] theorem supply_encode_text :
    (encode type [t expr] (t buf)).supply = encodeWants type := supply_encode rfl rfl

@[simp] theorem supply_encode_getter (back : String) :
    (encode type [t expr, raw name, t back] (t buf)).supply = encodeWants type :=
  supply_encode rfl rfl

@[simp] theorem supply_encode_param (who : Option Nat) :
    (encode type [.use who name] (.var buf)).supply = encodeWants type := supply_encode rfl rfl

@[simp] theorem supply_encode_result :
    (encode type [.var expr] (.var buf)).supply = encodeWants type := supply_encode rfl rfl

@[simp] theorem supply_decode_text : (decode type (t buf)).supply = decodeWants type :=
  supply_decode rfl

@[simp] theorem supply_decode_var : (decode type (.var buf)).supply = decodeWants type :=
  supply_decode rfl

end

/-- A type of the user's that a member holds, optional or not, but in no array. -/
def valueOf (type : Ty) : Option Str :=
  match type.base with
  | .user name => if type.isArray then none else some name
  | .primitive _ => none

/-- A type of the user's that a member is a one-dimensional array of. -/
def arrayOf (type : Ty) : Option Str :=
  match type.base with
  | .user name => if type.isArray && !type.elem.isArray then some name else none
  | .primitive _ => none

/-- The user's type whose helper a call names. -/
def calledType (type : Ty) : Option Str := (valueOf type).or (arrayOf type)

theorem held_cppType (type : Ty) : held (cppType type) = valueOf type := by
  have hn : ∀ n : Nat, ∀ elem, held (.nested (n + 1) elem) = none := fun _ _ => rfl
  unfold valueOf
  cases hb : type.base with
  | primitive p =>
    cases ha : type.isArray with
    | true =>
      simp only [cppType, ha, hb, CppType.ofBase, ↓reduceIte]
      cases type.dims.toNat <;> rfl
    | false =>
      cases ho : type.isOptional <;>
        simp only [cppType, ha, ho, hb, CppType.ofBase, Bool.false_eq_true, ↓reduceIte] <;> rfl
  | user name =>
    cases ha : type.isArray with
    | true =>
      have h1 := type.one_le_dims
      obtain ⟨n, hd⟩ : ∃ n, type.dims.toNat = n + 1 := ⟨type.dims.toNat - 1, by omega⟩
      simp only [cppType, ha, ↓reduceIte, hd, hn]
    | false =>
      cases ho : type.isOptional <;>
        simp only [cppType, ha, ho, hb, CppType.ofBase, Bool.false_eq_true, ↓reduceIte] <;> rfl

/-- The helper that a call for a type names, by what it is for a value and for an array. -/
theorem encodeHelper_encodeCall (type : Ty) :
    encodeHelper (encodeCall type) =
      ((valueOf type).map .encode).or ((arrayOf type).map .encodeArray) := by
  have he : type.elem.base = type.base := rfl
  unfold encodeCall valueOf arrayOf
  cases ha : type.isArray with
  | true => cases hb : type.base <;> cases hd : type.elem.isArray <;> simp [he, hb, encodeHelper]
  | false => cases hb : type.base <;> cases ho : type.isOptional <;> simp [encodeHelper]

theorem decodeHelper_decodeCall (type : Ty) :
    decodeHelper (decodeCall type) =
      ((valueOf type).map .decode).or ((arrayOf type).map .decodeArray) := by
  have he : type.elem.base = type.base := rfl
  unfold decodeCall valueOf arrayOf
  cases ha : type.isArray with
  | true => cases hb : type.base <;> cases hd : type.elem.isArray <;> simp [he, hb, decodeHelper]
  | false => cases hb : type.base <;> cases ho : type.isOptional <;> simp [decodeHelper]

/-! ## The parts of a file -/

section
variable (s : StructDef) (e : EnumDef) (name : Str)

/-- What the definition of a struct wants for a member. -/
def holds (type : Ty) : List (Supply.Event Sym) :=
  (valueOf type).toList.map fun name => .wants (.complete name)

@[simp] theorem Code.supply_member {type : Ty} {code : Code} :
    Code.supply (member type :: code) = holds type ++ code.supply := by
  rw [holds, ← held_cppType, ← List.singleton_append, supply_append]
  congr 1
  simp [supply, member, Piece.marks, Mark.supply]

theorem supply_structDef :
    supply (generateStructDef s) =
      s.fields.flatMap (fun f => holds f.type) ++ [.gives (.complete s.name)] := by
  simp [generateStructDef]

theorem supply_structEncode :
    supply (generateStructEncode s) =
      .gives (.helper (.encode s.name)) :: s.fields.flatMap fun f => encodeWants f.type := by
  simp [generateStructEncode]

theorem supply_structDecode :
    supply (generateStructDecode s) =
      .gives (.helper (.decode s.name)) :: s.fields.flatMap fun f => decodeWants f.type := by
  simp [generateStructDecode]

theorem supply_arrayEncode :
    supply (arrayEncode name) =
      [.gives (.helper (.encodeArray name)), .wants (.helper (.encode name))] := by
  simp [arrayEncode]

theorem supply_arrayDecode :
    supply (arrayDecode name) =
      [.gives (.helper (.decodeArray name)), .wants (.helper (.decode name))] := by
  simp [arrayDecode]

theorem supply_structCodec :
    supply (structCodec s) = .gives (.helper (.encode s.name)) ::
      s.fields.flatMap (fun f => encodeWants f.type) ++ .gives (.helper (.decode s.name)) ::
      s.fields.flatMap fun f => decodeWants f.type := by
  simp [structCodec, supply_structEncode, supply_structDecode]

theorem supply_structArrays :
    supply (structArrays s) =
      [.gives (.helper (.encodeArray s.name)), .wants (.helper (.encode s.name)),
        .gives (.helper (.decodeArray s.name)), .wants (.helper (.decode s.name))] := by
  simp [structArrays, generateStructArrayEncode, generateStructArrayDecode, supply_arrayEncode,
    supply_arrayDecode]

theorem supply_forwardArrays :
    supply (forwardArrays s) =
      [.gives (.helper (.encodeArray s.name)), .gives (.helper (.decodeArray s.name))] := by
  simp [forwardArrays]

theorem supply_enumDef : supply (generateEnumDef e) = [.gives (.complete e.name)] := by
  have hitem : ∀ x ∈ e.items.zipIdx, (enumItem (e.items.length - 1) x.1 x.2).code.supply = [] := by
    intro x _
    cases hv : x.1.value <;> by_cases hl : x.2 < e.items.length - 1 <;> simp [enumItem, hv, hl]
  have hitems := List.flatMap_eq_nil_iff.mpr hitem
  simp [generateEnumDef, hitems]

theorem supply_enumCases (seen : List Int64) (next : Int64) (items : List EnumItem) :
    supply (enumCases e seen next items) = [] := by
  induction items generalizing seen next with
  | nil => rfl
  | cons item items ih =>
    rw [enumCases]
    split
    · exact ih ..
    · simp [ih]

theorem supply_enumName : supply (generateEnumName e) = [] := by
  simp [generateEnumName, supply_enumCases]

theorem supply_enumCodecs :
    supply (enumCodecs e) =
      [.gives (.helper (.encode e.name)), .gives (.helper (.decode e.name)),
        .gives (.helper (.encodeArray e.name)), .wants (.helper (.encode e.name)),
        .gives (.helper (.decodeArray e.name)), .wants (.helper (.decode e.name))] := by
  simp [enumCodecs, generateEnumEncode, generateEnumDecode, generateEnumArrayEncode,
    generateEnumArrayDecode, supply_arrayEncode, supply_arrayDecode]

end

section
variable (s : ServiceDef) (c : ClassDef) (m : Method) (ps : List Param)

/-- What putting the parameters into a buffer wants. -/
def paramsEncode : List (Supply.Event Sym) := ps.flatMap fun p => encodeWants p.type

def paramsDecode : List (Supply.Event Sym) := ps.flatMap fun p => decodeWants p.type

@[simp] theorem supply_encodeParams (indent buf : String) :
    supply (encodeParams indent buf ps) = paramsEncode ps := by
  rw [paramsEncode, ← List.flatMap_zipIdx_fst _ _ 0, encodeParams, supply_map]
  simp

@[simp] theorem supply_decodeParams (buf : String) :
    supply (decodeParams buf ps) = paramsDecode ps := by
  rw [paramsDecode, ← List.flatMap_zipIdx_fst _ _ 0, decodeParams, supply_map]
  simp

theorem supply_separated {codes : List Code} (h : ∀ code ∈ codes, Code.supply code = []) :
    Code.supply (separated (t ", ") codes) = [] :=
  (flatMap_separated rfl codes).trans (List.flatMap_eq_nil_iff.mpr h)

@[simp] theorem supply_params : Code.supply (generateMethodParams ps) = [] :=
  supply_separated (List.forall_mem_map.mpr fun _ _ => rfl)

@[simp] theorem supply_args : Code.supply (separated (t ", ") (argPieces ps)) = [] :=
  supply_separated (List.forall_mem_map.mpr fun _ _ => rfl)

@[simp] theorem supply_comma : Code.supply (comma ps) = [] := by
  rw [comma]
  split <;> rfl

/-- A method without a result wants nothing for it. -/
theorem wants_void (h : m.isVoid = true) :
    encodeWants m.returnType = [] ∧ decodeWants m.returnType = [] := by
  have hb : m.returnType.base = .primitive .void := of_decide_eq_true h
  have hv : valueOf m.returnType = none := by simp only [valueOf, hb]
  have ha : arrayOf m.returnType = none := by simp only [arrayOf, hb]
  rw [encodeWants, decodeWants, encodeHelper_encodeCall, decodeHelper_decodeCall, hv, ha]
  exact ⟨rfl, rfl⟩

theorem supply_streamMethod :
    supply (streamMethod s m) = paramsEncode m.params ++ decodeWants m.returnType := by
  simp [streamMethod]

theorem supply_unaryMethod :
    supply (unaryMethod s m) = paramsEncode m.params ++ decodeWants m.returnType := by
  cases hv : m.isVoid with
  | true => simp [unaryMethod, hv, (wants_void m hv).2]
  | false => simp [unaryMethod, hv]

theorem supply_serviceProxy :
    supply (generateServiceProxy s) =
      s.methods.flatMap fun m => paramsEncode m.params ++ decodeWants m.returnType := by
  have hm : ∀ m, supply (if m.isStream then streamMethod s m else unaryMethod s m) =
      paramsEncode m.params ++ decodeWants m.returnType := by
    intro m
    split
    · exact supply_streamMethod s m
    · exact supply_unaryMethod s m
  simp [generateServiceProxy, hm]

theorem supply_interfaceMethod : (interfaceMethod m).code.supply = [] := by
  cases hm : m.isStream <;> simp [interfaceMethod, hm]

theorem supply_serviceInterface : supply (generateServiceInterface s) = [] := by
  simp [generateServiceInterface, supply_interfaceMethod]

@[simp] theorem supply_encodeResult (buf : String) :
    supply (encodeResult m buf) = encodeWants m.returnType := by
  cases hv : m.isVoid with
  | true => simp [encodeResult, hv, (wants_void m hv).1]
  | false => simp [encodeResult, hv]

@[simp] theorem supply_caseEnd : supply caseEnd = [] := rfl

theorem supply_callWithResult (callee : Code) (h : callee.supply = []) :
    (callWithResult m callee).code.supply = [] := by
  cases hv : m.isVoid <;> simp [callWithResult, hv, h]

theorem supply_dispatchCase :
    supply (dispatchCase s m) = paramsDecode m.params ++ encodeWants m.returnType := by
  have := supply_callWithResult m [.var "impl", t ".", raw m.name] rfl
  simp [dispatchCase, this]

theorem supply_streamCase : supply (streamCase s m) = paramsDecode m.params := by
  have : Code.supply ((argPieces m.params).flatMap (· ++ [t ", "])) = [] := by
    rw [Code.supply, List.flatMap_assoc]
    exact List.flatMap_eq_nil_iff.mpr (List.forall_mem_map.mpr fun _ _ => rfl)
  simp [streamCase, this]

@[simp] theorem supply_dispatchDefault (message : String) :
    supply (dispatchDefault message) = [] := by
  simp [dispatchDefault]

theorem supply_serviceDispatcher :
    supply (generateServiceDispatcher s) =
      (s.methods.filter fun m => !m.isStream).flatMap
        (fun m => paramsDecode m.params ++ encodeWants m.returnType) ++
      (s.methods.filter fun m => m.isStream).flatMap fun m => paramsDecode m.params := by
  cases hs : s.hasStream with
  | true => simp [generateServiceDispatcher, hs, supply_dispatchCase, supply_streamCase]
  | false =>
    have hf : (s.methods.filter fun m => m.isStream) = [] :=
      List.filter_eq_nil_iff.mpr (List.any_eq_false.mp hs)
    simp [generateServiceDispatcher, hs, hf, supply_dispatchCase]

theorem supply_proxyBasics : supply (proxyBasics c) = [] := by
  simp [proxyBasics]

@[simp] theorem supply_typeToParam (type : Ty) (name : String) :
    Code.supply (typeToParam type (t name)) = [] := rfl

theorem supply_proxyProperty (p : Property) :
    supply (proxyProperty c p) =
      decodeWants p.type ++ if p.readonly then [] else encodeWants p.type := by
  cases hr : p.readonly <;> simp [proxyProperty, hr]

theorem supply_proxyMethod :
    supply (proxyMethod c m) = paramsEncode m.params ++ decodeWants m.returnType := by
  cases hv : m.isVoid with
  | true => simp [proxyMethod, hv, (wants_void m hv).2]
  | false => simp [proxyMethod, hv]

theorem supply_createFunction (ctor : Constructor) (i : Nat) :
    supply (createFunction c ctor i) = paramsEncode ctor.params := by
  have : Code.supply ((paramPieces ctor.params typeToParam).flatMap fun ps => t ", " :: ps) = [] := by
    rw [Code.supply, List.flatMap_assoc]
    exact List.flatMap_eq_nil_iff.mpr (List.forall_mem_map.mpr fun _ _ => rfl)
  simp [createFunction, this]

theorem supply_classProxy :
    supply (generateClassProxy c) =
      c.properties.flatMap (fun p =>
        decodeWants p.type ++ if p.readonly then [] else encodeWants p.type) ++
      c.methods.flatMap (fun m => paramsEncode m.params ++ decodeWants m.returnType) ++
      c.constructors.flatMap fun ctor => paramsEncode ctor.params := by
  simp [generateClassProxy, supply_proxyBasics, supply_proxyProperty, supply_proxyMethod,
    supply_createFunction, List.flatMap_zipIdx_fst (fun ctor : Constructor => paramsEncode ctor.params)]

theorem supply_classSkeleton :
    supply (generateClassSkeleton c) =
      c.properties.flatMap fun p => if p.readonly then [] else encodeWants p.type := by
  have hp : ∀ p, supply (skeletonProperty c p) = if p.readonly then [] else encodeWants p.type := by
    intro p
    cases hr : p.readonly <;> simp [skeletonProperty, hr]
  have hm : c.methods.flatMap (fun m => (skeletonMethod m).code.supply) = [] :=
    List.flatMap_eq_nil_iff.mpr fun m _ => by simp [skeletonMethod]
  have hs : c.properties.flatMap (fun p => Code.supply [t "    ", raw (typeToCpp p.type), t " ",
      raw p.name, t "_\x7b\x7d;"]) = [] := List.flatMap_eq_nil_iff.mpr fun _ _ => rfl
  simp only [generateClassSkeleton, supply_append, supply_cons, supply_nil, supply_map,
    supply_flatMap, documented_code, line_code, blank_code, hp, hm, hs]
  simp

theorem supply_orBase {base : Code} (h : base.supply = []) (message : String) (id : Piece Mark)
    (hi : Code.supply [id] = []) : supply (orBase c base message id) = [] := by
  rw [orBase]
  cases c.base with
  | some name => simp [h]
  | none => simp [Code.supply_quiet hi]

theorem supply_classDispatcher :
    supply (generateClassDispatcher c) =
      c.properties.flatMap (fun p => encodeWants p.type) ++
      c.properties.flatMap (fun p =>
        if p.readonly then [] else decodeWants p.type ++ encodeWants p.type) ++
      c.methods.flatMap fun m => paramsDecode m.params ++ encodeWants m.returnType := by
  have hget : ∀ p, supply (propGetCase c p) = encodeWants p.type := fun p => by simp [propGetCase]
  have hset : ∀ p, supply (propSetCase c p) =
      if p.readonly then [] else decodeWants p.type ++ encodeWants p.type := by
    intro p
    cases hr : p.readonly <;> simp [propSetCase, hr]
  have hcase : ∀ m, supply (classCase c m) = paramsDecode m.params ++ encodeWants m.returnType := by
    intro m
    have := supply_callWithResult m [named m.name] rfl
    simp [classCase, this]
  have h1 := @supply_orBase c [t "prop_get(prop_id, resp)"] rfl "Unknown property ID"
    (t "prop_id") rfl
  have h2 := @supply_orBase c [t "prop_set(prop_id, req, resp)"] rfl
    "Unknown or readonly property ID" (t "prop_id") rfl
  have h3 := @supply_orBase c [t "dispatch(", .var "method_id", t ", ", .var "req", t ", ",
    .var "resp", t ")"] rfl "Unknown method ID" (.var "method_id") rfl
  simp [generateClassDispatcher, hget, hset, hcase, h1, h2, h3]

theorem supply_factoryCase (ctor : Constructor) (i : Nat) :
    supply (factoryCase c ctor i) = paramsDecode ctor.params := by
  cases hp : ctor.params.isEmpty <;> simp [factoryCase, hp]

theorem supply_classFactory :
    supply (generateClassFactory c) = c.constructors.flatMap fun ctor => paramsDecode ctor.params := by
  cases hc : c.constructors with
  | nil => simp [generateClassFactory, hc]
  | cons ctor ctors =>
    have := List.flatMap_zipIdx_fst (fun ctor : Constructor => paramsDecode ctor.params) (ctor :: ctors) 0
    simp [generateClassFactory, hc, supply_factoryCase] at this ⊢
    exact this

end

end Song.Compiler.CppText
