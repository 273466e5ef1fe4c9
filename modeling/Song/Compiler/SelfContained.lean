import Song.Compiler.Declared

/-!
# When the header of a namespace is self-contained

`headerOrdered_iff`: the header defines and declares everything in front of its uses exactly when
no struct holds one that is written below it, and the helpers it calls are those of the enums
and structs of the namespace. `helpersEmitted_iff` is the second part alone: whether the helpers
that are called are there, in whatever order.
-/

namespace Song.Compiler.CppText

open Supply (Served Closed given wanted served_append served_flatMap served_of_given_nil
  given_append wanted_append given_flatMap wanted_flatMap)

/-! ## What is called -/

/-- The types of the fields of the structs. -/
def fieldTypes (ns : Namespace) : List Ty := ns.structs.flatMap fun s => s.fields.map Field.type

def methodTypes (m : Method) : List Ty := m.params.map Param.type ++ [m.returnType]

def classTypes (c : ClassDef) : List Ty :=
  c.properties.map Property.type ++
    c.constructors.flatMap (fun ctor => ctor.params.map Param.type) ++ c.methods.flatMap methodTypes

/-- The types of what services and classes pass on: parameters, results and properties. -/
def memberTypes (ns : Namespace) : List Ty :=
  ns.services.flatMap (fun s => s.methods.flatMap methodTypes) ++ ns.classes.flatMap classTypes

/-- The types that a header has codecs for. -/
def codecNames (ns : Namespace) : List Str :=
  ns.enums.map EnumDef.name ++ ns.structs.map StructDef.name

section
variable {type : Ty} {P : Sym → Prop}

@[simp] theorem given_encodeWants : given (encodeWants type) = [] := by
  rw [encodeWants]
  cases encodeHelper (encodeCall type) <;> rfl

@[simp] theorem given_decodeWants : given (decodeWants type) = [] := by
  rw [decodeWants]
  cases decodeHelper (decodeCall type) <;> rfl

@[simp] theorem given_holds : given (holds type) = [] := by
  rw [holds]
  cases valueOf type <;> rfl

theorem forall_holds_iff :
    (∀ x ∈ wanted (holds type), P x) ↔ ∀ name, valueOf type = some name → P (.complete name) := by
  rw [holds]
  cases valueOf type <;> simp [wanted]

theorem arrayOf_of_valueOf {name : Str} (h : valueOf type = some name) : arrayOf type = none := by
  unfold valueOf at h
  unfold arrayOf
  cases hb : type.base <;> cases ha : type.isArray <;> simp_all

theorem forall_encodeWants_iff :
    (∀ x ∈ wanted (encodeWants type), P x) ↔
      (∀ name, valueOf type = some name → P (.helper (.encode name))) ∧
        ∀ name, arrayOf type = some name → P (.helper (.encodeArray name)) := by
  rw [encodeWants, encodeHelper_encodeCall]
  cases hv : valueOf type with
  | some name => simp [arrayOf_of_valueOf hv, wantsHelper, wanted]
  | none => cases arrayOf type <;> simp [wantsHelper, wanted]

theorem forall_decodeWants_iff :
    (∀ x ∈ wanted (decodeWants type), P x) ↔
      (∀ name, valueOf type = some name → P (.helper (.decode name))) ∧
        ∀ name, arrayOf type = some name → P (.helper (.decodeArray name)) := by
  rw [decodeWants, decodeHelper_decodeCall]
  cases hv : valueOf type with
  | some name => simp [arrayOf_of_valueOf hv, wantsHelper, wanted]
  | none => cases arrayOf type <;> simp [wantsHelper, wanted]

/-- The helper called for the type is one of a type that `Q` holds of. -/
def Called (Q : Str → Prop) (type : Ty) : Prop := ∀ name, calledType type = some name → Q name

instance {Q : Str → Prop} [DecidablePred Q] : Decidable (Called Q type) :=
  match h : calledType type with
  | none => .isTrue fun _ hn => nomatch h.symm.trans hn
  | some name => decidable_of_iff (Q name)
      ⟨fun hq _ hn => Option.some.inj (h.symm.trans hn) ▸ hq, fun hq => hq name h⟩

theorem called_iff {Q : Str → Prop} :
    Called Q type ↔ (∀ name, valueOf type = some name → Q name) ∧
      ∀ name, arrayOf type = some name → Q name := by
  rw [Called, calledType]
  cases hv : valueOf type with
  | some name => simp [arrayOf_of_valueOf hv]
  | none => simp

/-- Both calls for a type name helpers of one type. -/
theorem called_of_wants {Q : Str → Prop} (h : ∀ helper, P (.helper helper) ↔ Q helper.type) :
    ((∀ x ∈ wanted (encodeWants type), P x) ↔ Called Q type) ∧
      ((∀ x ∈ wanted (decodeWants type), P x) ↔ Called Q type) := by
  rw [forall_encodeWants_iff, forall_decodeWants_iff, called_iff]
  simp only [h]
  exact ⟨Iff.rfl, Iff.rfl⟩

end

/-! ## The members -/

section
variable (ns : Namespace)

theorem supply_parts {α : Type} (xs : List α) (f : α → List Line) :
    supply (parts xs f) = xs.flatMap fun x => supply (f x) := by
  simp [parts]

theorem given_paramsEncode (ps : List Param) : given (paramsEncode ps) = [] := by
  simp [paramsEncode, given_flatMap]

theorem given_paramsDecode (ps : List Param) : given (paramsDecode ps) = [] := by
  simp [paramsDecode, given_flatMap]

theorem given_readonly (p : Property) {es : List (Supply.Event Sym)} (h : given es = []) :
    given (if p.readonly then [] else es) = [] := by
  split
  · rfl
  · exact h

/-- The services and classes give nothing that the codecs could use. -/
theorem given_members : given (supply (headerMembers ns)) = [] := by
  simp [headerMembers, supply_parts, supply_serviceProxy, supply_serviceInterface,
    supply_serviceDispatcher, supply_classProxy, supply_classSkeleton, supply_classDispatcher,
    supply_classFactory, given_flatMap, given_paramsEncode, given_paramsDecode, given_readonly]

section
variable {P : Sym → Prop} {Q : Str → Prop} (h : ∀ helper, P (.helper helper) ↔ Q helper.type)
include h

theorem forall_paramsEncode_iff {ps : List Param} :
    (∀ x ∈ wanted (paramsEncode ps), P x) ↔ ∀ type ∈ ps.map Param.type, Called Q type := by
  simp only [paramsEncode, wanted_flatMap, List.forall_mem_flatMap, (called_of_wants h).1,
    List.forall_mem_map]

theorem forall_paramsDecode_iff {ps : List Param} :
    (∀ x ∈ wanted (paramsDecode ps), P x) ↔ ∀ type ∈ ps.map Param.type, Called Q type := by
  simp only [paramsDecode, wanted_flatMap, List.forall_mem_flatMap, (called_of_wants h).2,
    List.forall_mem_map]

/-- The proxy of a method: the parameters encoded, the result decoded. -/
theorem forall_proxy_iff {m : Method} :
    (∀ x ∈ wanted (paramsEncode m.params ++ decodeWants m.returnType), P x) ↔
      ∀ type ∈ methodTypes m, Called Q type := by
  rw [wanted_append, List.forall_mem_append, forall_paramsEncode_iff h, (called_of_wants h).2,
    methodTypes, List.forall_mem_append, List.forall_mem_singleton]

/-- The dispatcher: the parameters decoded, the result encoded. -/
theorem forall_dispatch_iff {m : Method} :
    (∀ x ∈ wanted (paramsDecode m.params ++ encodeWants m.returnType), P x) ↔
      ∀ type ∈ methodTypes m, Called Q type := by
  rw [wanted_append, List.forall_mem_append, forall_paramsDecode_iff h, (called_of_wants h).1,
    methodTypes, List.forall_mem_append, List.forall_mem_singleton]

omit h in
/-- A part for a property that is left out where the property is read-only. -/
theorem forall_readonly_of {p : Property} {es : List (Supply.Event Sym)}
    (hes : ∀ x ∈ wanted es, P x) : ∀ x ∈ wanted (if p.readonly then [] else es), P x := by
  split
  · exact fun x hx => (by cases hx)
  · exact hes

theorem forall_serviceDispatcher_of {s : ServiceDef}
    (hs : ∀ m ∈ s.methods, ∀ type ∈ methodTypes m, Called Q type) :
    ∀ x ∈ wanted (supply (generateServiceDispatcher s)), P x := by
  rw [supply_serviceDispatcher, wanted_append, wanted_flatMap, wanted_flatMap]
  refine List.forall_mem_append.mpr ⟨List.forall_mem_flatMap.mpr fun m hm => ?_,
    List.forall_mem_flatMap.mpr fun m hm => ?_⟩
  · exact (forall_dispatch_iff h).mpr (hs m (List.mem_filter.mp hm).1)
  · exact (forall_paramsDecode_iff h).mpr fun type ht =>
      hs m (List.mem_filter.mp hm).1 type (List.mem_append_left _ ht)

/-- The proxy of a class calls for all its types. -/
theorem forall_classProxy_iff {c : ClassDef} :
    (∀ x ∈ wanted (supply (generateClassProxy c)), P x) ↔ ∀ type ∈ classTypes c, Called Q type := by
  have hprop : ∀ p : Property, (∀ x ∈ wanted (decodeWants p.type ++
      if p.readonly then [] else encodeWants p.type), P x) ↔ Called Q p.type := by
    intro p
    rw [wanted_append, List.forall_mem_append, (called_of_wants h).2]
    exact and_iff_left_of_imp fun hp => forall_readonly_of ((called_of_wants h).1.mpr hp)
  rw [supply_classProxy, classTypes]
  simp only [@wanted_append Sym (_ ++ _), wanted_append (List.flatMap _ _), wanted_flatMap,
    List.forall_mem_append, List.forall_mem_flatMap, hprop, forall_proxy_iff h,
    forall_paramsEncode_iff h, List.forall_mem_map]
  exact and_right_comm

/-- The rest of its text calls for no others. -/
theorem forall_classServer_of {c : ClassDef} (hc : ∀ type ∈ classTypes c, Called Q type) :
    (∀ x ∈ wanted (supply (generateClassSkeleton c)), P x) ∧
      (∀ x ∈ wanted (supply (generateClassDispatcher c)), P x) ∧
      ∀ x ∈ wanted (supply (generateClassFactory c)), P x := by
  rw [classTypes, List.forall_mem_append, List.forall_mem_append, List.forall_mem_map,
    List.forall_mem_flatMap, List.forall_mem_flatMap] at hc
  obtain ⟨⟨hp, hctor⟩, hm⟩ := hc
  have henc : ∀ p ∈ c.properties, ∀ x ∈ wanted (encodeWants p.type), P x :=
    fun p hp' => (called_of_wants h).1.mpr (hp p hp')
  have hdec : ∀ p ∈ c.properties, ∀ x ∈ wanted (decodeWants p.type), P x :=
    fun p hp' => (called_of_wants h).2.mpr (hp p hp')
  rw [supply_classSkeleton, supply_classDispatcher, supply_classFactory]
  refine ⟨?_, ?_, ?_⟩
  · rw [wanted_flatMap]
    exact List.forall_mem_flatMap.mpr fun p hp' => forall_readonly_of (henc p hp')
  · rw [wanted_append, wanted_append, wanted_flatMap, wanted_flatMap, wanted_flatMap]
    refine List.forall_mem_append.mpr ⟨List.forall_mem_append.mpr ⟨?_, ?_⟩, ?_⟩
    · exact List.forall_mem_flatMap.mpr henc
    · refine List.forall_mem_flatMap.mpr fun p hp' => forall_readonly_of ?_
      rw [wanted_append]
      exact List.forall_mem_append.mpr ⟨hdec p hp', henc p hp'⟩
    · exact List.forall_mem_flatMap.mpr fun m hm' => (forall_dispatch_iff h).mpr (hm m hm')
  · rw [wanted_flatMap]
    exact List.forall_mem_flatMap.mpr fun ctor hctor' =>
      (forall_paramsDecode_iff h).mpr (hctor ctor hctor')

end

theorem forall_members_iff {P : Sym → Prop} {Q : Str → Prop}
    (h : ∀ helper, P (.helper helper) ↔ Q helper.type) :
    (∀ x ∈ wanted (supply (headerMembers ns)), P x) ↔
      ∀ type ∈ memberTypes ns, Called Q type := by
  have hproxy : ∀ s : ServiceDef, (∀ x ∈ wanted (supply (generateServiceProxy s)), P x) ↔
      ∀ m ∈ s.methods, ∀ type ∈ methodTypes m, Called Q type := by
    intro s
    rw [supply_serviceProxy, wanted_flatMap, List.forall_mem_flatMap]
    simp only [forall_proxy_iff h]
  have hinterface : ∀ s : ServiceDef, wanted (supply (generateServiceInterface s)) = [] := fun s => by
    rw [supply_serviceInterface]
    rfl
  simp only [headerMembers, supply_append, supply_parts, wanted_append, wanted_flatMap,
    List.forall_mem_append, List.forall_mem_flatMap, hproxy, forall_classProxy_iff h, hinterface,
    memberTypes]
  constructor
  · rintro ⟨⟨⟨⟨⟨⟨hs, -⟩, -⟩, hc⟩, -⟩, -⟩, -⟩
    exact ⟨hs, hc⟩
  · rintro ⟨hs, hc⟩
    refine ⟨⟨⟨⟨⟨⟨hs, fun s _ x hx => (by cases hx)⟩, ?_⟩, hc⟩, ?_⟩, ?_⟩, ?_⟩
    · exact fun s hs' => forall_serviceDispatcher_of h (hs s hs')
    · exact fun c hc' => (forall_classServer_of h (hc c hc')).1
    · exact fun c hc' => (forall_classServer_of h (hc c hc')).2.1
    · exact fun c hc' => (forall_classServer_of h (hc c hc')).2.2

end

/-! ## The types and their codecs -/

def enumsSupply (ns : Namespace) : List (Supply.Event Sym) :=
  ns.enums.flatMap (fun e => [.gives (.complete e.name)]) ++
    ns.enums.flatMap fun e => supply (enumCodecs e)

section
variable (ns : Namespace)

@[simp] theorem supply_constantLine (type : String) (name : Str) (value : Nat) :
    (constantLine type name value).code.supply = [] := rfl

theorem supply_serviceIds : supply (generateServiceIds ns) = [] := by
  simp [generateServiceIds]

theorem supply_classIds : supply (generateClassIds ns) = [] := by
  simp [generateClassIds]

theorem supply_forwardStructs : supply (forwardStructs ns) = [] := by
  cases hs : ns.structs <;> simp [forwardStructs, hs]

theorem supply_headerTypes :
    supply (headerTypes ns) =
      enumsSupply ns ++ ns.structs.flatMap (fun s => supply (generateStructDef s)) ++
      ns.structs.flatMap (fun s => supply (forwardArrays s)) ++
      ns.structs.flatMap (fun s => supply (structCodec s)) ++
      ns.structs.flatMap (fun s => supply (structArrays s)) := by
  cases hs : ns.structs <;>
    simp [headerTypes, structSerialization, enumsSupply, supply_enumDef, supply_enumName, hs]

theorem supply_header :
    supply (generateHeader ns) = supply (headerTypes ns) ++ supply (headerMembers ns) := by
  have hservices : supply (if ns.services.isEmpty then [] else generateServiceIds ns) = [] := by
    split
    · rfl
    · exact supply_serviceIds ns
  have hclasses : supply (if ns.classes.isEmpty then [] else generateClassIds ns) = [] := by
    split
    · rfl
    · exact supply_classIds ns
  have hforward : supply (forwardClasses ns) = [] := by
    cases hc : ns.classes <;> simp [forwardClasses, hc]
  simp only [generateHeader, supply_append, hservices, hclasses, supply_forwardStructs, hforward]
  simp [headerTop, openNamespace, closeNamespace, usingSong]

/-! ## What is given, in front of what -/

section
variable {ns} {name : Str} {h : Helper} {structs : List StructDef}

theorem complete_mem_enums : .complete name ∈ given (enumsSupply ns) ↔ name ∈ ns.enums.map EnumDef.name := by
  simp [enumsSupply, given_flatMap, supply_enumCodecs, given, eq_comm]

theorem helper_mem_enums : .helper h ∈ given (enumsSupply ns) ↔ h.type ∈ ns.enums.map EnumDef.name := by
  cases h <;> simp [enumsSupply, given_flatMap, supply_enumCodecs, given, Helper.type, eq_comm]

theorem complete_mem_structs :
    .complete name ∈ given (structs.flatMap fun s => supply (generateStructDef s)) ↔
      name ∈ structs.map StructDef.name := by
  simp [given_flatMap, supply_structDef, given, eq_comm]

theorem mem_forwardArrays {x : Sym} :
    x ∈ given (structs.flatMap fun s => supply (forwardArrays s)) ↔
      ∃ name ∈ structs.map StructDef.name,
        x = .helper (.encodeArray name) ∨ x = .helper (.decodeArray name) := by
  simp [given_flatMap, supply_forwardArrays, given]

theorem mem_structCodecs {x : Sym} :
    x ∈ given (structs.flatMap fun s => supply (structCodec s)) ↔
      ∃ name ∈ structs.map StructDef.name,
        x = .helper (.encode name) ∨ x = .helper (.decode name) := by
  simp [given_flatMap, supply_structCodec, given]

/-- All helpers of the types are given by the end of their part. -/
theorem helper_mem_types :
    .helper h ∈ given (supply (headerTypes ns)) ↔ h.type ∈ codecNames ns := by
  rw [supply_headerTypes, codecNames]
  simp only [given_append, List.mem_append, helper_mem_enums, mem_forwardArrays, mem_structCodecs]
  cases h <;> simp [Helper.type, given_flatMap, supply_structDef, supply_structArrays, given, eq_comm]

end

/-! ## The order -/

/-- Every part but the fields of the structs is in order. -/
theorem served_enums : Served [] (enumsSupply ns) := by
  rw [enumsSupply, served_append, served_flatMap, served_flatMap]
  refine ⟨fun pre e post _ => trivial, fun pre e post _ => ?_⟩
  rw [supply_enumCodecs]
  simp [Served]

theorem served_forwardArrays {seen : List Sym} :
    Served seen (ns.structs.flatMap fun s => supply (forwardArrays s)) := by
  rw [served_flatMap]
  intro pre s post _
  rw [supply_forwardArrays]
  trivial

theorem served_structArrays {seen : List Sym}
    (h : ∀ x ∈ given (ns.structs.flatMap fun s => supply (structCodec s)), x ∈ seen) :
    Served seen (ns.structs.flatMap fun s => supply (structArrays s)) := by
  rw [served_flatMap]
  intro pre s post hs
  have hm : s.name ∈ ns.structs.map StructDef.name := by
    rw [hs]
    exact List.mem_map_of_mem (List.mem_append_right _ List.mem_cons_self)
  have henc := h _ (mem_structCodecs.mpr ⟨s.name, hm, .inl rfl⟩)
  have hdec := h _ (mem_structCodecs.mpr ⟨s.name, hm, .inr rfl⟩)
  rw [supply_structArrays]
  simp [Served, henc, hdec]

/-- What the header asks of the structs and of what the services and classes pass on. -/
structure DefinedInOrder : Prop where
  values : ∀ pre s post, ns.structs = pre ++ s :: post → ∀ f ∈ s.fields, ∀ name,
    valueOf f.type = some name → name ∈ ns.enums.map EnumDef.name ∨ name ∈ pre.map StructDef.name
  arrays : ∀ s ∈ ns.structs, ∀ f ∈ s.fields, ∀ name, arrayOf f.type = some name →
    name ∈ codecNames ns
  members : ∀ type ∈ memberTypes ns, Called (· ∈ codecNames ns) type

theorem served_structDefs_iff :
    Served (given (enumsSupply ns)) (ns.structs.flatMap fun s => supply (generateStructDef s)) ↔
      ∀ pre s post, ns.structs = pre ++ s :: post → ∀ f ∈ s.fields, ∀ name,
        valueOf f.type = some name →
          name ∈ ns.enums.map EnumDef.name ∨ name ∈ pre.map StructDef.name := by
  rw [served_flatMap]
  refine forall_congr' fun pre => forall_congr' fun s => forall_congr' fun post =>
    imp_congr_right fun _ => ?_
  have hg : given (s.fields.flatMap fun f => holds f.type) = [] := by simp [given_flatMap]
  rw [supply_structDef, served_append]
  refine (and_iff_left trivial).trans ?_
  rw [served_of_given_nil hg, wanted_flatMap, List.forall_mem_flatMap]
  refine forall_congr' fun f => imp_congr_right fun _ => ?_
  rw [forall_holds_iff]
  refine forall_congr' fun name => imp_congr_right fun _ => ?_
  rw [List.mem_append, complete_mem_structs, complete_mem_enums, or_comm]

/-- What the codecs of the structs have in front of them. -/
def codecsSeen : List Sym :=
  given (ns.structs.flatMap fun s => supply (forwardArrays s)) ++
    (given (ns.structs.flatMap fun s => supply (generateStructDef s)) ++ given (enumsSupply ns))

variable {ns} in
theorem array_mem_codecsSeen {h : Helper} {name : Str}
    (hh : h = .encodeArray name ∨ h = .decodeArray name) :
    .helper h ∈ codecsSeen ns ↔ name ∈ codecNames ns := by
  have hd : Sym.helper h ∉ given (ns.structs.flatMap fun s => supply (generateStructDef s)) := by
    simp [given_flatMap, supply_structDef, given]
  have ht : h.type = name := by rcases hh with rfl | rfl <;> rfl
  rw [codecsSeen, List.mem_append, List.mem_append, or_iff_right hd, helper_mem_enums, ht,
    mem_forwardArrays, codecNames, List.mem_append, or_comm]
  refine or_congr_right ⟨?_, fun hn => ⟨name, hn, ?_⟩⟩
  · rintro ⟨name', hn, he | he⟩
    · cases he
      rcases hh with he | he
      · cases he
        exact hn
      · cases he
    · cases he
      rcases hh with he | he
      · cases he
      · cases he
        exact hn
  · rcases hh with rfl | rfl
    · exact .inl rfl
    · exact .inr rfl

theorem served_structCodecs_iff
    (hv : ∀ pre s post, ns.structs = pre ++ s :: post → ∀ f ∈ s.fields, ∀ name,
      valueOf f.type = some name →
        name ∈ ns.enums.map EnumDef.name ∨ name ∈ pre.map StructDef.name) :
    Served (codecsSeen ns) (ns.structs.flatMap fun s => supply (structCodec s)) ↔
      ∀ s ∈ ns.structs, ∀ f ∈ s.fields, ∀ name, arrayOf f.type = some name →
        name ∈ codecNames ns := by
  have henc : ∀ s : StructDef, given (s.fields.flatMap fun f => encodeWants f.type) = [] :=
    fun s => by simp [given_flatMap]
  have hdec : ∀ s : StructDef, given (s.fields.flatMap fun f => decodeWants f.type) = [] :=
    fun s => by simp [given_flatMap]
  have hblock : ∀ seen s, Served seen (supply (structCodec s)) ↔
      (∀ f ∈ s.fields, ∀ x ∈ wanted (encodeWants f.type),
        x ∈ Sym.helper (.encode s.name) :: seen) ∧
      ∀ f ∈ s.fields, ∀ x ∈ wanted (decodeWants f.type),
        x ∈ Sym.helper (.decode s.name) :: .helper (.encode s.name) :: seen := by
    intro seen s
    rw [supply_structCodec, List.cons_append, Served, served_append, served_of_given_nil (henc s),
      henc, List.nil_append, Served, served_of_given_nil (hdec s), wanted_flatMap, wanted_flatMap,
      List.forall_mem_flatMap, List.forall_mem_flatMap]
  -- in front of a struct's codec: those of the structs written above it
  have hold : ∀ pre : List StructDef, ∀ h : Helper, (h = .encode h.type ∨ h = .decode h.type) →
      (h.type ∈ ns.enums.map EnumDef.name ∨ h.type ∈ pre.map StructDef.name) →
      .helper h ∈ given (pre.flatMap fun s => supply (structCodec s)) ++ codecsSeen ns := by
    intro pre h hh hn
    rw [List.mem_append]
    rcases hn with hn | hn
    · exact .inr (List.mem_append_right _ (List.mem_append_right _ (helper_mem_enums.mpr hn)))
    · exact .inl (mem_structCodecs.mpr ⟨h.type, hn, hh.imp (congrArg _) (congrArg _)⟩)
  have harray : ∀ pre : List StructDef, ∀ h : Helper, ∀ name, (h = .encodeArray name ∨ h = .decodeArray name) →
      (.helper h ∈ given (pre.flatMap fun s => supply (structCodec s)) ++ codecsSeen ns ↔
        name ∈ codecNames ns) := by
    intro pre h name hh
    rw [List.mem_append, array_mem_codecsSeen hh, mem_structCodecs]
    refine or_iff_right ?_
    rintro ⟨name', -, he | he⟩
    · cases he
      simp at hh
    · cases he
      simp at hh
  rw [served_flatMap]
  simp only [hblock, forall_encodeWants_iff, forall_decodeWants_iff]
  constructor
  · intro h s hs f hf name hname
    obtain ⟨pre, post, he⟩ := List.append_of_mem hs
    have := ((h pre s post he).1 f hf).2 name hname
    rw [List.mem_cons, harray pre _ name (.inl rfl)] at this
    exact this.resolve_left (by simp)
  · intro h pre s post he
    have hs : s ∈ ns.structs := by
      rw [he]
      exact List.mem_append_right _ List.mem_cons_self
    refine ⟨fun f hf => ⟨fun name hname => ?_, fun name hname => ?_⟩,
      fun f hf => ⟨fun name hname => ?_, fun name hname => ?_⟩⟩
    · exact List.mem_cons_of_mem _ (hold pre (.encode name) (.inl rfl)
        (hv pre s post he f hf name hname))
    · exact List.mem_cons_of_mem _ ((harray pre _ name (.inl rfl)).mpr (h s hs f hf name hname))
    · exact List.mem_cons_of_mem _ (List.mem_cons_of_mem _ (hold pre (.decode name) (.inr rfl)
        (hv pre s post he f hf name hname)))
    · exact List.mem_cons_of_mem _ (List.mem_cons_of_mem _
        ((harray pre _ name (.inr rfl)).mpr (h s hs f hf name hname)))

/-- The header defines each type and declares each helper in front of its uses. -/
def HeaderOrdered : Prop := Served [] (supply (generateHeader ns))

theorem headerOrdered_iff : HeaderOrdered ns ↔ DefinedInOrder ns := by
  have hmembers : Served (given (supply (headerTypes ns)) ++ []) (supply (headerMembers ns)) ↔
      ∀ type ∈ memberTypes ns, Called (· ∈ codecNames ns) type := by
    rw [served_of_given_nil (given_members ns), List.append_nil]
    exact forall_members_iff ns fun _ => helper_mem_types
  have htypes : Served [] (supply (headerTypes ns)) ↔
      (∀ pre s post, ns.structs = pre ++ s :: post → ∀ f ∈ s.fields, ∀ name,
        valueOf f.type = some name →
          name ∈ ns.enums.map EnumDef.name ∨ name ∈ pre.map StructDef.name) ∧
      ∀ s ∈ ns.structs, ∀ f ∈ s.fields, ∀ name, arrayOf f.type = some name →
        name ∈ codecNames ns := by
    rw [supply_headerTypes, served_append, served_append, served_append, served_append,
      and_iff_right (served_enums ns), and_iff_left (served_forwardArrays ns), List.append_nil,
      served_structDefs_iff]
    refine (and_iff_left (served_structArrays ns fun x hx => ?_)).trans
      (and_congr_right fun hv => ?_)
    · rw [List.append_nil, given_append]
      exact List.mem_append_right _ hx
    · rw [← served_structCodecs_iff ns hv]
      refine Served.congr fun x => ?_
      simp only [codecsSeen, List.append_nil, given_append, List.mem_append]
      rw [or_comm, or_comm (b := x ∈ given (enumsSupply ns))]
  rw [HeaderOrdered, supply_header, served_append, hmembers, htypes]
  exact ⟨fun ⟨⟨hv, ha⟩, hm⟩ => ⟨hv, ha, hm⟩, fun ⟨hv, ha, hm⟩ => ⟨⟨hv, ha⟩, hm⟩⟩

/-! ## Whether the helpers are there -/

/-- Every helper that is called is emitted in the header. -/
def HelpersEmitted : Prop := ∀ h, .helper h ∈ wanted (supply (generateHeader ns)) →
  .helper h ∈ given (supply (generateHeader ns))

/-- A symbol that is no helper of a type without a codec. -/
def Emitted (x : Sym) : Prop := ∀ h, x = .helper h → h.type ∈ codecNames ns

theorem emitted_helper (h : Helper) : Emitted ns (.helper h) ↔ h.type ∈ codecNames ns := by
  constructor
  · exact fun hx => hx h rfl
  · intro hn h' he
    cases he
    exact hn

theorem forall_types_iff :
    (∀ x ∈ wanted (supply (headerTypes ns)), Emitted ns x) ↔
      ∀ type ∈ fieldTypes ns, Called (· ∈ codecNames ns) type := by
  have henums : ∀ x ∈ wanted (enumsSupply ns), Emitted ns x := by
    have hw : wanted (ns.enums.flatMap fun e => [Supply.Event.gives (Sym.complete e.name)]) = [] := by
      simp [wanted_flatMap, wanted]
    rw [enumsSupply, wanted_append, hw, List.nil_append, wanted_flatMap]
    refine List.forall_mem_flatMap.mpr fun e he => ?_
    have hn : e.name ∈ codecNames ns := List.mem_append_left _ (List.mem_map_of_mem he)
    rw [supply_enumCodecs]
    exact List.forall_mem_cons.mpr ⟨(emitted_helper ns _).mpr hn,
      List.forall_mem_singleton.mpr ((emitted_helper ns _).mpr hn)⟩
  have hdefs : ∀ x ∈ wanted (ns.structs.flatMap fun s => supply (generateStructDef s)),
      Emitted ns x := by
    rw [wanted_flatMap]
    refine List.forall_mem_flatMap.mpr fun s _ => ?_
    rw [supply_structDef, wanted_append, wanted_flatMap]
    refine List.forall_mem_append.mpr ⟨List.forall_mem_flatMap.mpr fun f _ => ?_,
      fun x hx => (by cases hx)⟩
    exact forall_holds_iff.mpr fun name _ h he => (by cases he)
  have hforward : wanted (ns.structs.flatMap fun s => supply (forwardArrays s)) = [] := by
    simp [wanted_flatMap, supply_forwardArrays, wanted]
  have harrays : ∀ x ∈ wanted (ns.structs.flatMap fun s => supply (structArrays s)),
      Emitted ns x := by
    rw [wanted_flatMap]
    refine List.forall_mem_flatMap.mpr fun s hs => ?_
    have hn : s.name ∈ codecNames ns := List.mem_append_right _ (List.mem_map_of_mem hs)
    rw [supply_structArrays]
    exact List.forall_mem_cons.mpr ⟨(emitted_helper ns _).mpr hn,
      List.forall_mem_singleton.mpr ((emitted_helper ns _).mpr hn)⟩
  have hcodecs : (∀ x ∈ wanted (ns.structs.flatMap fun s => supply (structCodec s)),
      Emitted ns x) ↔ ∀ type ∈ fieldTypes ns, Called (· ∈ codecNames ns) type := by
    have hblock : ∀ s : StructDef, wanted (supply (structCodec s)) =
        s.fields.flatMap (fun f => wanted (encodeWants f.type)) ++
          s.fields.flatMap fun f => wanted (decodeWants f.type) := by
      intro s
      rw [supply_structCodec, List.cons_append, wanted, wanted_append, wanted, wanted_flatMap,
        wanted_flatMap]
    have henc : ∀ type, (∀ x ∈ wanted (encodeWants type), Emitted ns x) ↔
        Called (· ∈ codecNames ns) type := fun _ => (called_of_wants (emitted_helper ns)).1
    have hdec : ∀ type, (∀ x ∈ wanted (decodeWants type), Emitted ns x) ↔
        Called (· ∈ codecNames ns) type := fun _ => (called_of_wants (emitted_helper ns)).2
    rw [wanted_flatMap, fieldTypes]
    simp only [hblock, List.forall_mem_flatMap, List.forall_mem_append, henc, hdec, and_self,
      List.forall_mem_map]
  rw [supply_headerTypes]
  simp only [wanted_append, List.forall_mem_append, hforward, hcodecs]
  exact ⟨fun h => h.1.2,
    fun h => ⟨⟨⟨⟨henums, hdefs⟩, fun x hx => (by cases hx)⟩, h⟩, harrays⟩⟩

/-- The header has the helpers that it calls where the types that are called for, of fields,
parameters, results and properties, are enums and structs of the namespace. -/
theorem helpersEmitted_iff :
    HelpersEmitted ns ↔
      ∀ type ∈ fieldTypes ns ++ memberTypes ns, Called (· ∈ codecNames ns) type := by
  have hgiven : ∀ h, .helper h ∈ given (supply (generateHeader ns)) ↔ h.type ∈ codecNames ns := by
    intro h
    rw [supply_header, given_append, given_members, List.append_nil, helper_mem_types]
  have hwanted : HelpersEmitted ns ↔
      ∀ x ∈ wanted (supply (generateHeader ns)), Emitted ns x := by
    constructor
    · rintro h x hx helper rfl
      exact (hgiven helper).mp (h helper hx)
    · exact fun h helper hx => (hgiven helper).mpr (h _ hx helper rfl)
  rw [hwanted, supply_header, wanted_append, List.forall_mem_append, List.forall_mem_append,
    forall_types_iff, forall_members_iff ns (emitted_helper ns)]

end

/-! ## Small namespaces -/

def point : StructDef where
  name := lit "Point"
  fields := [{ name := lit "x", type := { base := .primitive .i32 } },
    { name := lit "y", type := { base := .primitive .i32 } }]

/-- `struct Segment { from: Point; to: Point; }`, written above `Point`. -/
def segments : Namespace where
  structs := [{
    name := lit "Segment"
    fields := [{ name := lit "from", type := { base := .user (lit "Point") } },
      { name := lit "to", type := { base := .user (lit "Point") } }] }, point]

/-- The fields are of primitives, enums and structs, and no struct holds itself. -/
structure PlainFields (ast : AST) : Prop where
  kinds : ∀ ns ∈ ast.namespaces, ∀ type ∈ fieldTypes ns, ∀ name, type.base = .user name →
    name ∈ ast.namespaces.flatMap codecNames
  acyclic : ∃ rank : Str → Nat, ∀ ns ∈ ast.namespaces, ∀ s ∈ ns.structs, ∀ f ∈ s.fields, ∀ name,
    valueOf f.type = some name → name ∈ ns.structs.map StructDef.name → rank name < rank s.name

theorem plainFields_segments : PlainFields ⟨[segments]⟩ := by
  constructor
  · intro ns hns type ht name hb
    obtain rfl := List.mem_singleton.mp hns
    simp only [fieldTypes, segments, point, List.flatMap_cons, List.map_cons, List.map_nil,
      List.flatMap_nil, List.cons_append, List.nil_append, List.mem_cons, List.not_mem_nil,
      or_false] at ht
    rcases ht with rfl | rfl | rfl | rfl <;> cases hb
    · decide
    · decide
  · refine ⟨fun name => if name = lit "Point" then 0 else 1, fun ns hns s hs f hf name hname _ => ?_⟩
    obtain rfl := List.mem_singleton.mp hns
    simp only [segments, point, List.mem_cons, List.not_mem_nil, or_false] at hs
    rcases hs with rfl | rfl <;> simp only [List.mem_cons, List.not_mem_nil, or_false] at hf <;>
      rcases hf with rfl | rfl <;> cases hname
    · decide
    · decide

theorem not_headerOrdered_segments :
    ¬ ∀ ast ns, accepts ast = true → ns ∈ ast.namespaces → PlainFields ast → HeaderOrdered ns := by
  intro h
  have hord := h ⟨[segments]⟩ segments (by decide +kernel) List.mem_cons_self plainFields_segments
  revert hord
  unfold HeaderOrdered
  decide +kernel

/-- A service that opens carts, which are objects of a class. -/
def shop : Namespace where
  classes := [{ name := lit "Cart", properties := [], methods := [] }]
  services := [{
    name := lit "Shop"
    methods := [{ name := lit "open", params := [], returnType := { base := .user (lit "Cart") } }] }]

/-- Its proxy calls `decode_Cart`, which no header has. -/
theorem not_helpersEmitted_shop :
    ¬ ∀ ast ns, accepts ast = true → ns ∈ ast.namespaces → HelpersEmitted ns := by
  intro h
  have hem := h ⟨[shop]⟩ shop (by decide +kernel) List.mem_cons_self (.decode (lit "Cart"))
    (by decide +kernel)
  exact absurd hem (by decide +kernel)

end Song.Compiler.CppText
