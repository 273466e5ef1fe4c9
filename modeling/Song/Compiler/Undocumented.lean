import Song.Compiler.CppText.Files
import Song.Compiler.DocText
import Song.Compiler.Lexical

/-!
# What is generated beside the documentation

The lines of the header of a namespace are those of the namespace with its documentation changed,
but for the comments in front of them (`header_docs`), and the module has the same lines of code
(`module_docs`).
-/

namespace Song.Compiler

section
variable {β : Type} (params : List Param)

/-- A generator does not ask where a parameter stands in the source. -/
theorem zipIdx_unplaced {f : Param × Nat → β} (hf : ∀ p i, f (p.unplaced, i) = f (p, i)) :
    (params.map Param.unplaced).zipIdx.map f = params.zipIdx.map f := by
  rw [List.zipIdx_map, List.map_map]
  exact List.map_congr_left fun x _ => hf x.1 x.2

@[simp] theorem argPieces_unplaced {μ : Type} :
    (argPieces (params.map Param.unplaced) : List (List (Piece μ))) = argPieces params :=
  zipIdx_unplaced params fun _ _ => rfl

end

/-! ## C++ -/

namespace CppText

/-- A line without the comment in front of it. -/
def Line.bare (l : Line) : Line := { l with doc := [] }

section
variable (params : List Param)

@[simp] theorem encodeParams_unplaced (indent buf : String) :
    encodeParams indent buf (params.map Param.unplaced) = encodeParams indent buf params :=
  zipIdx_unplaced params fun _ _ => rfl

@[simp] theorem decodeParams_unplaced (buf : String) :
    decodeParams buf (params.map Param.unplaced) = decodeParams buf params :=
  zipIdx_unplaced params fun _ _ => rfl

@[simp] theorem paramPieces_unplaced :
    paramPieces (params.map Param.unplaced) typeToParam = paramPieces params typeToParam :=
  zipIdx_unplaced params fun _ _ => rfl

@[simp] theorem methodParams_unplaced :
    generateMethodParams (params.map Param.unplaced) = generateMethodParams params := by
  rw [generateMethodParams, paramPieces_unplaced, ← generateMethodParams]

@[simp] theorem comma_unplaced : comma (params.map Param.unplaced) = comma params := by
  rw [comma, List.isEmpty_map, ← comma]

end

/-! ### Structs and enums -/

section
variable (g : Str → Str) (d : StructDef) (e : EnumDef)

theorem structDef_docs :
    (generateStructDef (d.withDocs g)).map Line.bare = (generateStructDef d).map Line.bare := by
  simp only [generateStructDef, StructDef.withDocs, List.map_map, List.map_append, List.map_cons]
  rfl

theorem structCodec_docs : structCodec (d.withDocs g) = structCodec d := by
  simp only [structCodec, generateStructEncode, generateStructDecode, StructDef.withDocs,
    List.map_map]
  rfl

theorem enumCases_docs (items : List EnumItem) (seen : List Int64) (next : Int64) :
    enumCases (e.withDocs g) seen next (items.map (EnumItem.withDocs g)) =
      enumCases e seen next items := by
  induction items generalizing seen next with
  | nil => rfl
  | cons i items ih =>
    simp only [List.map_cons, enumCases, ih]
    rfl

theorem enumName_docs : generateEnumName (e.withDocs g) = generateEnumName e := by
  show _ ++ enumCases (e.withDocs g) [] 0 (e.items.map (EnumItem.withDocs g)) ++ _ = _
  rw [enumCases_docs]
  rfl

theorem enumDef_docs :
    (generateEnumDef (e.withDocs g)).map Line.bare = (generateEnumDef e).map Line.bare := by
  simp only [generateEnumDef, EnumDef.withDocs, List.length_map, List.zipIdx_map, List.map_map,
    List.map_append, List.map_cons]
  rfl

end

/-! ### Services -/

section
variable (g : Str → Str) (s : ServiceDef) (m : Method)

theorem streamMethod_docs : (streamMethod (s.withDocs g) (m.withDocs g)).map Line.bare =
    (streamMethod s m).map Line.bare := by
  simp only [streamMethod, Method.withDocs, methodParams_unplaced, encodeParams_unplaced,
    comma_unplaced]
  rfl

theorem unaryMethod_docs : (unaryMethod (s.withDocs g) (m.withDocs g)).map Line.bare =
    (unaryMethod s m).map Line.bare := by
  simp only [unaryMethod, Method.withDocs, methodParams_unplaced, encodeParams_unplaced]
  rfl

/-- The lines of the members, one member after the other. -/
theorem flatMap_docs {α : Type} {f f' : α → List Line} {h : α → α} {xs : List α}
    (hf : ∀ x ∈ xs, (f' (h x)).map Line.bare = (f x).map Line.bare) :
    ((xs.map h).flatMap f').map Line.bare = (xs.flatMap f).map Line.bare := by
  rw [List.flatMap_map, List.map_flatMap, List.map_flatMap]
  exact List.flatMap_congr hf

theorem serviceProxy_docs : (generateServiceProxy (s.withDocs g)).map Line.bare =
    (generateServiceProxy s).map Line.bare := by
  have hmethods : ((s.withDocs g).methods.flatMap fun m =>
        if m.isStream then streamMethod (s.withDocs g) m
        else unaryMethod (s.withDocs g) m).map Line.bare =
      (s.methods.flatMap fun m =>
        if m.isStream then streamMethod s m else unaryMethod s m).map Line.bare := by
    refine flatMap_docs fun m _ => ?_
    by_cases hm : m.isStream = true
    · rw [if_pos hm, if_pos (show (m.withDocs g).isStream = true from hm)]
      exact streamMethod_docs g s m
    · rw [if_neg hm, if_neg (show ¬ (m.withDocs g).isStream = true from hm)]
      exact unaryMethod_docs g s m
  simp only [generateServiceProxy, List.map_append, hmethods]
  rfl

theorem interfaceMethod_docs : (interfaceMethod (m.withDocs g)).bare = (interfaceMethod m).bare := by
  unfold interfaceMethod
  simp only [Method.withDocs, methodParams_unplaced, comma_unplaced]
  split
  · rfl
  · rfl

theorem serviceInterface_docs : (generateServiceInterface (s.withDocs g)).map Line.bare =
    (generateServiceInterface s).map Line.bare := by
  have hmethods : ((s.withDocs g).methods.map interfaceMethod).map Line.bare =
      (s.methods.map interfaceMethod).map Line.bare := by
    simp only [ServiceDef.withDocs, List.map_map]
    exact List.map_congr_left fun m _ => interfaceMethod_docs g m
  simp only [generateServiceInterface, List.map_append, hmethods]
  rfl

theorem dispatchCase_docs : dispatchCase (s.withDocs g) (m.withDocs g) = dispatchCase s m := by
  simp only [dispatchCase, callWithResult, Method.withDocs, decodeParams_unplaced,
    argPieces_unplaced]
  rfl

theorem streamCase_docs : streamCase (s.withDocs g) (m.withDocs g) = streamCase s m := by
  simp only [streamCase, Method.withDocs, decodeParams_unplaced, argPieces_unplaced]
  rfl

theorem hasStream_docs : (s.withDocs g).hasStream = s.hasStream := by
  show (s.methods.map (Method.withDocs g)).any Method.isStream = _
  rw [List.any_map]
  rfl

theorem serviceDispatcher_docs :
    generateServiceDispatcher (s.withDocs g) = generateServiceDispatcher s := by
  have hcases : ∀ (p : Method → Bool) (f f' : Method → List Line),
      p ∘ Method.withDocs g = p → (∀ m, f' (m.withDocs g) = f m) →
      ((s.withDocs g).methods.filter p).flatMap f' = (s.methods.filter p).flatMap f := by
    intro p f f' hp hf
    rw [show (s.withDocs g).methods = s.methods.map (Method.withDocs g) from rfl, List.filter_map,
      List.flatMap_map, hp]
    exact List.flatMap_congr fun m _ => hf m
  have hunary := hcases (fun m => !m.isStream) (dispatchCase s) (dispatchCase (s.withDocs g)) rfl
    (dispatchCase_docs g s)
  have hstream := hcases (fun m => m.isStream) (streamCase s) (streamCase (s.withDocs g)) rfl
    (streamCase_docs g s)
  unfold generateServiceDispatcher
  rw [hunary, hstream, hasStream_docs]
  rfl

end

/-! ### Classes -/

section
variable (g : Str → Str) (c : ClassDef) (p : Property) (m : Method) (ctor : Constructor)

theorem proxyProperty_docs : (proxyProperty (c.withDocs g) (p.withDocs g)).map Line.bare =
    (proxyProperty c p).map Line.bare := rfl

theorem proxyMethod_docs : (proxyMethod (c.withDocs g) (m.withDocs g)).map Line.bare =
    (proxyMethod c m).map Line.bare := by
  simp only [proxyMethod, Method.withDocs, methodParams_unplaced, encodeParams_unplaced]
  rfl

theorem createFunction_docs (i : Nat) :
    createFunction (c.withDocs g) (ctor.withDocs g) i = createFunction c ctor i := by
  simp only [createFunction, Constructor.withDocs, paramPieces_unplaced, encodeParams_unplaced]
  rfl

theorem classProxy_docs : (generateClassProxy (c.withDocs g)).map Line.bare =
    (generateClassProxy c).map Line.bare := by
  have hproperties : ((c.withDocs g).properties.flatMap (proxyProperty (c.withDocs g))).map
      Line.bare = (c.properties.flatMap (proxyProperty c)).map Line.bare :=
    flatMap_docs fun p _ => proxyProperty_docs g c p
  have hmethods : ((c.withDocs g).methods.flatMap (proxyMethod (c.withDocs g))).map Line.bare =
      (c.methods.flatMap (proxyMethod c)).map Line.bare :=
    flatMap_docs fun m _ => proxyMethod_docs g c m
  have hconstructors : ((c.withDocs g).constructors.zipIdx.flatMap fun x =>
        createFunction (c.withDocs g) x.1 x.2) =
      c.constructors.zipIdx.flatMap fun x => createFunction c x.1 x.2 := by
    show (c.constructors.map (Constructor.withDocs g)).zipIdx.flatMap _ = _
    rw [List.zipIdx_map, List.flatMap_map]
    exact List.flatMap_congr fun x _ => createFunction_docs g c x.1 x.2
  simp only [generateClassProxy, List.map_append, hproperties, hmethods, hconstructors]
  rfl

theorem skeletonProperty_docs :
    (skeletonProperty (c.withDocs g) (p.withDocs g)).map Line.bare =
      (skeletonProperty c p).map Line.bare := rfl

theorem skeletonMethod_docs : (skeletonMethod (m.withDocs g)).bare = (skeletonMethod m).bare := by
  simp only [skeletonMethod, Method.withDocs, methodParams_unplaced]
  rfl

theorem classSkeleton_docs : (generateClassSkeleton (c.withDocs g)).map Line.bare =
    (generateClassSkeleton c).map Line.bare := by
  have hmembers : ((c.withDocs g).properties.map fun p =>
        line [t "    ", raw (typeToCpp p.type), t " ", raw p.name, t "_\x7b\x7d;"]) =
      c.properties.map fun p =>
        line [t "    ", raw (typeToCpp p.type), t " ", raw p.name, t "_\x7b\x7d;"] := by
    simp only [ClassDef.withDocs, List.map_map]
    rfl
  have hproperties : ((c.withDocs g).properties.flatMap (skeletonProperty (c.withDocs g))).map
      Line.bare = (c.properties.flatMap (skeletonProperty c)).map Line.bare :=
    flatMap_docs fun p _ => skeletonProperty_docs g c p
  have hmethods : ((c.withDocs g).methods.map skeletonMethod).map Line.bare =
      (c.methods.map skeletonMethod).map Line.bare := by
    simp only [ClassDef.withDocs, List.map_map]
    exact List.map_congr_left fun m _ => skeletonMethod_docs g m
  simp only [generateClassSkeleton, List.map_append, hmembers, hproperties, hmethods]
  rfl

theorem classCase_docs : classCase (c.withDocs g) (m.withDocs g) = classCase c m := by
  simp only [classCase, callWithResult, Method.withDocs, decodeParams_unplaced, argPieces_unplaced]
  rfl

theorem classDispatcher_docs :
    generateClassDispatcher (c.withDocs g) = generateClassDispatcher c := by
  have hget : (c.withDocs g).properties.flatMap (propGetCase (c.withDocs g)) =
      c.properties.flatMap (propGetCase c) := by
    simp only [ClassDef.withDocs, List.flatMap_map]
    rfl
  have hset : (c.withDocs g).properties.flatMap (propSetCase (c.withDocs g)) =
      c.properties.flatMap (propSetCase c) := by
    simp only [ClassDef.withDocs, List.flatMap_map]
    rfl
  have hmethods : (c.withDocs g).methods.flatMap (classCase (c.withDocs g)) =
      c.methods.flatMap (classCase c) := by
    show (c.methods.map (Method.withDocs g)).flatMap _ = _
    rw [List.flatMap_map]
    exact List.flatMap_congr fun m _ => classCase_docs g c m
  simp only [generateClassDispatcher, hget, hset, hmethods]
  rfl

theorem factoryCase_docs (i : Nat) :
    factoryCase (c.withDocs g) (ctor.withDocs g) i = factoryCase c ctor i := by
  simp only [factoryCase, Constructor.withDocs, List.isEmpty_map, decodeParams_unplaced,
    argPieces_unplaced]
  rfl

theorem classFactory_docs : generateClassFactory (c.withDocs g) = generateClassFactory c := by
  have hcases : ((c.withDocs g).constructors.zipIdx.flatMap fun x =>
        factoryCase (c.withDocs g) x.1 x.2) =
      c.constructors.zipIdx.flatMap fun x => factoryCase c x.1 x.2 := by
    show (c.constructors.map (Constructor.withDocs g)).zipIdx.flatMap _ = _
    rw [List.zipIdx_map, List.flatMap_map]
    exact List.flatMap_congr fun x _ => factoryCase_docs g c x.1 x.2
  have hempty : (c.withDocs g).constructors.isEmpty = c.constructors.isEmpty := List.isEmpty_map
  simp only [generateClassFactory, hcases, hempty]
  rfl

end

/-! ### The header -/

section
variable (g : Str → Str) (ns : Namespace)

theorem parts_docs {α : Type} {f : α → List Line} {h : α → α} {xs : List α}
    (hf : ∀ x ∈ xs, (f (h x)).map Line.bare = (f x).map Line.bare) :
    (parts (xs.map h) f).map Line.bare = (parts xs f).map Line.bare := by
  refine flatMap_docs fun x hx => ?_
  rw [List.map_append, List.map_append, hf x hx]

theorem serviceConstants_docs (s : ServiceDef) (n : Nat) :
    Cpp.serviceConstants (s.withDocs g) n = Cpp.serviceConstants s n := by
  simp only [Cpp.serviceConstants, hasStream_docs, Cpp.methodConstants]
  simp only [ServiceDef.withDocs, List.zipIdx_map, List.map_map]
  rfl

theorem serviceIds_docs : generateServiceIds (ns.withDocs g) = generateServiceIds ns := by
  have hnumber : ∀ (n : Nat) (ss : List ServiceDef),
      Table.number Cpp.idsTaken n (ss.map (ServiceDef.withDocs g)) =
        (Table.number Cpp.idsTaken n ss).map fun x => (x.1.withDocs g, x.2) := by
    intro n ss
    induction ss generalizing n with
    | nil => rfl
    | cons s ss ih =>
      have htaken : Cpp.idsTaken (s.withDocs g) = Cpp.idsTaken s := by
        rw [Cpp.idsTaken, hasStream_docs, ← Cpp.idsTaken]
      rw [List.map_cons, Table.number, Table.number, htaken, ih, List.map_cons]
  unfold generateServiceIds
  rw [show (ns.withDocs g).services = ns.services.map (ServiceDef.withDocs g) from rfl, hnumber,
    List.flatMap_map]
  simp only [serviceConstants_docs]

theorem classIds_docs : generateClassIds (ns.withDocs g) = generateClassIds ns := by
  unfold generateClassIds
  rw [show (ns.withDocs g).classes = ns.classes.map (ClassDef.withDocs g) from rfl,
    List.zipIdx_map, List.flatMap_map]
  refine congrArg _ (List.flatMap_congr fun x _ => ?_)
  obtain ⟨c, n⟩ := x
  simp only [Prod.map_apply, ClassDef.withDocs, List.zipIdx_map, List.map_map]
  rfl

theorem forwardStructs_docs : forwardStructs (ns.withDocs g) = forwardStructs ns := by
  simp only [forwardStructs, Namespace.withDocs, List.isEmpty_map, List.map_map]
  rfl

theorem forwardClasses_docs : forwardClasses (ns.withDocs g) = forwardClasses ns := by
  simp only [forwardClasses, Namespace.withDocs, List.isEmpty_map, List.flatMap_map]
  rfl

theorem structSerialization_docs : structSerialization (ns.withDocs g) = structSerialization ns := by
  have hcodecs : (ns.withDocs g).structs.flatMap structCodec = ns.structs.flatMap structCodec := by
    show (ns.structs.map (StructDef.withDocs g)).flatMap _ = _
    rw [List.flatMap_map]
    exact List.flatMap_congr fun d _ => structCodec_docs g d
  have hnames : ∀ f : StructDef → List Line, (∀ d, f (d.withDocs g) = f d) →
      (ns.withDocs g).structs.flatMap f = ns.structs.flatMap f := by
    intro f hf
    show (ns.structs.map (StructDef.withDocs g)).flatMap _ = _
    rw [List.flatMap_map]
    exact List.flatMap_congr fun d _ => hf d
  have hempty : (ns.withDocs g).structs.isEmpty = ns.structs.isEmpty := List.isEmpty_map
  simp only [structSerialization, hcodecs, hnames forwardArrays fun _ => rfl,
    hnames structArrays fun _ => rfl, hempty]

theorem headerTypes_docs :
    (headerTypes (ns.withDocs g)).map Line.bare = (headerTypes ns).map Line.bare := by
  have henums : ((ns.withDocs g).enums.flatMap fun e => generateEnumDef e ++ [blank]).map Line.bare =
      (ns.enums.flatMap fun e => generateEnumDef e ++ [blank]).map Line.bare :=
    flatMap_docs fun e _ => by rw [List.map_append, List.map_append, enumDef_docs]
  have hcodecs : ((ns.withDocs g).enums.flatMap fun e =>
        generateEnumName e ++ [blank] ++ enumCodecs e).map Line.bare =
      (ns.enums.flatMap fun e => generateEnumName e ++ [blank] ++ enumCodecs e).map Line.bare :=
    flatMap_docs fun e _ => by
      rw [enumName_docs, show enumCodecs (e.withDocs g) = enumCodecs e from rfl]
  have hstructs : ((ns.withDocs g).structs.flatMap fun s =>
        generateStructDef s ++ [blank]).map Line.bare =
      (ns.structs.flatMap fun s => generateStructDef s ++ [blank]).map Line.bare :=
    flatMap_docs fun s _ => by rw [List.map_append, List.map_append, structDef_docs]
  simp only [headerTypes, List.map_append, henums, hcodecs, hstructs, structSerialization_docs]

theorem headerMembers_docs :
    (headerMembers (ns.withDocs g)).map Line.bare = (headerMembers ns).map Line.bare := by
  unfold headerMembers
  simp only [List.map_append]
  refine congr (congrArg _ (congr (congrArg _ (congr (congrArg _ (congr (congrArg _ (congr
    (congrArg _ (congr (congrArg _ ?_) ?_)) ?_)) ?_)) ?_)) ?_)) ?_
  · exact parts_docs fun s _ => serviceProxy_docs g s
  · exact parts_docs fun s _ => serviceInterface_docs g s
  · exact parts_docs fun s _ => congrArg _ (serviceDispatcher_docs g s)
  · exact parts_docs fun c _ => classProxy_docs g c
  · exact parts_docs fun c _ => classSkeleton_docs g c
  · exact parts_docs fun c _ => congrArg _ (classDispatcher_docs g c)
  · exact parts_docs fun c _ => congrArg _ (classFactory_docs g c)

/-- The lines of the header are the same but for their comments. -/
theorem header_docs :
    (generateHeader (ns.withDocs g)).map Line.bare = (generateHeader ns).map Line.bare := by
  have hservices : (ns.withDocs g).services.isEmpty = ns.services.isEmpty := List.isEmpty_map
  have hclasses : (ns.withDocs g).classes.isEmpty = ns.classes.isEmpty := List.isEmpty_map
  simp only [generateHeader, List.map_append, hservices, hclasses, serviceIds_docs, classIds_docs,
    forwardStructs_docs, forwardClasses_docs, headerTypes_docs, headerMembers_docs]
  rfl

end

end CppText

/-! ## Python -/

namespace PyText

/-- What there is of the lines but for their documentation. -/
def programs (ls : List Line) : List Str := ls.flatMap Line.program

section
variable {ls ls' : List Line}

theorem programs_append : programs (ls ++ ls') = programs ls ++ programs ls' := List.flatMap_append

theorem programs_flatMap {α : Type} {f : α → List Line} {xs : List α} :
    programs (xs.flatMap f) = xs.flatMap fun x => programs (f x) := List.flatMap_assoc

theorem programs_docstring {indent : String} {doc : Str} : programs (docstring indent doc) = [] := by
  unfold docstring
  split
  · rfl
  · rfl

end

section
variable (g : Str → Str) (s : StructDef) (e : EnumDef) (v : ServiceDef) (m : Method)

theorem structClass_docs : programs (structClass (s.withDocs g)) = programs (structClass s) := by
  simp only [structClass, programs_append, programs_docstring, StructDef.withDocs, List.isEmpty_map,
    List.map_map]
  rfl

theorem structEncode_docs : structEncode (s.withDocs g) = structEncode s := by
  simp only [structEncode, StructDef.withDocs, List.map_map]
  rfl

theorem structDecode_docs : structDecode (s.withDocs g) = structDecode s := by
  simp only [structDecode, StructDef.withDocs, List.length_map, List.zipIdx_map, List.map_map]
  rfl

theorem structDef_docs :
    programs (generateStructDef (s.withDocs g)) = programs (generateStructDef s) := by
  simp only [generateStructDef, programs_append, structClass_docs, structEncode_docs,
    structDecode_docs]

theorem enumItems_docs (next : Int64) (items : List EnumItem) :
    enumItems next (items.map (EnumItem.withDocs g)) = enumItems next items := by
  induction items generalizing next with
  | nil => rfl
  | cons i items ih =>
    simp only [List.map_cons, enumItems, ih]
    rfl

theorem enumDef_docs :
    programs (generateEnumDef (e.withDocs g)) = programs (generateEnumDef e) := by
  simp only [generateEnumDef, programs_append, programs_docstring]
  simp only [EnumDef.withDocs, enumItems_docs]

theorem methodParams_unplaced (params : List Param) :
    generateMethodParams (params.map Param.unplaced) = generateMethodParams params := by
  unfold generateMethodParams
  rw [List.zipIdx_map, List.flatMap_map]
  rfl

theorem proxyMethod_docs :
    programs (proxyMethod (v.withDocs g) (m.withDocs g)) = programs (proxyMethod v m) := by
  have hparams : ((m.params.map Param.unplaced).zipIdx.map fun x => line ([t "        "] ++
      encode x.1.type [.use (some x.2) x.1.name] (Piece.var "req") "        ")) =
      m.params.zipIdx.map fun x => line ([t "        "] ++
        encode x.1.type [.use (some x.2) x.1.name] (Piece.var "req") "        ") :=
    zipIdx_unplaced m.params fun _ _ => rfl
  simp only [proxyMethod, programs_append, programs_docstring]
  simp only [Method.withDocs, methodParams_unplaced, hparams]
  rfl

theorem serviceProxy_docs :
    programs (generateServiceProxy (v.withDocs g)) = programs (generateServiceProxy v) := by
  have hdoc : ∀ v : ServiceDef, programs (if v.doc = [] then
      [.docstring (lit "    ") (lit "Client proxy for " ++ v.name ++ lit " service.")]
      else [.docstring (lit "    ") v.doc]) = [] := by
    intro v
    split
    · rfl
    · rfl
  have hmethods : programs ((v.withDocs g).methods.flatMap (proxyMethod (v.withDocs g))) =
      programs (v.methods.flatMap (proxyMethod v)) := by
    show programs ((v.methods.map (Method.withDocs g)).flatMap _) = _
    rw [List.flatMap_map, programs_flatMap, programs_flatMap]
    exact List.flatMap_congr fun m _ => proxyMethod_docs g v m
  simp only [generateServiceProxy, programs_append, hdoc, hmethods]
  rfl

end

section
variable (g : Str → Str) (ns : Namespace)

theorem serviceIds_docs : generateServiceIds (ns.withDocs g) = generateServiceIds ns := by
  unfold generateServiceIds
  rw [show (ns.withDocs g).services = ns.services.map (ServiceDef.withDocs g) from rfl,
    List.zipIdx_map, List.flatMap_map]
  refine congrArg _ (List.flatMap_congr fun x _ => ?_)
  obtain ⟨v, n⟩ := x
  simp only [Prod.map_apply, ServiceDef.withDocs, List.zipIdx_map, List.map_map]
  rfl

/-- But for the documentation the module is the same. -/
theorem module_docs : programs (generateModule (ns.withDocs g)) = programs (generateModule ns) := by
  have hempty : (ns.withDocs g).services.isEmpty = ns.services.isEmpty := List.isEmpty_map
  have henums : programs ((ns.withDocs g).enums.flatMap fun e =>
        generateEnumDef e ++ [line [closes], blank]) =
      programs (ns.enums.flatMap fun e => generateEnumDef e ++ [line [closes], blank]) := by
    show programs ((ns.enums.map (EnumDef.withDocs g)).flatMap _) = _
    rw [List.flatMap_map, programs_flatMap, programs_flatMap]
    exact List.flatMap_congr fun e _ => by rw [programs_append, programs_append, enumDef_docs]
  have hstructs : programs ((ns.withDocs g).structs.flatMap fun s =>
        generateStructDef s ++ [blank, blank]) =
      programs (ns.structs.flatMap fun s => generateStructDef s ++ [blank, blank]) := by
    show programs ((ns.structs.map (StructDef.withDocs g)).flatMap _) = _
    rw [List.flatMap_map, programs_flatMap, programs_flatMap]
    exact List.flatMap_congr fun s _ => by rw [programs_append, programs_append, structDef_docs]
  have hservices : programs ((ns.withDocs g).services.flatMap fun s =>
        generateServiceProxy s ++ [line [closes]]) =
      programs (ns.services.flatMap fun s => generateServiceProxy s ++ [line [closes]]) := by
    show programs ((ns.services.map (ServiceDef.withDocs g)).flatMap _) = _
    rw [List.flatMap_map, programs_flatMap, programs_flatMap]
    exact List.flatMap_congr fun s _ => by
      rw [programs_append, programs_append, serviceProxy_docs]
  simp only [generateModule, programs_append, henums, hstructs, hservices, hempty, serviceIds_docs]
  rfl

end

end PyText

end Song.Compiler
