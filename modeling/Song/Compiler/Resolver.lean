import Song.Compiler.Ast
import Song.Lib.Map

/-!
# Semantic analysis (`resolver.hpp`, `resolver.cpp`)

Two passes over the tree: register every type in the symbol table, then validate
every reference to one. Neither pass stops at an error; `resolve` accepts when
none was reported. The two walks up the base links (`detectCycle`,
`ancestorFields`) run on fuel: a name is visited once, so two more than there are
types is enough.
-/

namespace Song.Compiler

inductive TypeKind where
  | enumKind | structKind | classKind | serviceKind | errorKind
  deriving DecidableEq, Repr

structure TypeInfo where
  name : Str
  kind : TypeKind
  loc : SourceLoc
  base : Option Str

structure ResolverError where
  what : Str
  line : Int
  column : Int
  deriving DecidableEq, Repr

abbrev SymbolTable := Map Str TypeInfo

/-- What `resolve` leaves: the symbol table and the errors, in order. -/
structure Resolver where
  types : SymbolTable
  errors : List ResolverError

def typeKindToString : TypeKind → Str
  | .enumKind => lit "enum"
  | .structKind => lit "struct"
  | .classKind => lit "class"
  | .serviceKind => lit "service"
  | .errorKind => lit "error"

/-- `Resolver::error`. -/
def resolverError (loc : SourceLoc) (msg : Str) : ResolverError where
  what := lit "Resolve error at line " ++ toStr loc.line ++ lit ", column " ++ toStr loc.column ++
    lit ": " ++ msg
  line := loc.line
  column := loc.column

/-! ## Pass 1: registration -/

/-- The types of a namespace in the order in which they are registered. -/
def Namespace.typeInfos (ns : Namespace) : List TypeInfo :=
  ns.enums.map (fun e => ⟨e.name, .enumKind, e.loc, none⟩) ++
  ns.structs.map (fun s => ⟨s.name, .structKind, s.loc, s.base⟩) ++
  ns.classes.map (fun c => ⟨c.name, .classKind, c.loc, c.base⟩) ++
  ns.services.map (fun s => ⟨s.name, .serviceKind, s.loc, none⟩) ++
  ns.errors.map (fun e => ⟨e.name, .errorKind, e.loc, e.base⟩)

def registerType (r : Resolver) (info : TypeInfo) : Resolver :=
  match r.types.lookup info.name with
  | some first => { r with errors := r.errors ++ [resolverError info.loc
      (lit "Duplicate type '" ++ info.name ++ lit "' (first defined at line " ++
        toStr first.loc.line ++ lit ")")] }
  | none => { r with types := r.types.insert info.name info }

def registerTypes (ast : AST) : Resolver :=
  (ast.namespaces.flatMap Namespace.typeInfos).foldl registerType ⟨∅, []⟩

/-! ## Pass 2: validation -/

section
variable (ast : AST) (types : SymbolTable)

/-- The base link of a registered type. -/
def SymbolTable.baseOf (name : Str) : Option Str := (types.lookup name).bind TypeInfo.base

def validateType (type : Ty) (loc : SourceLoc) : List ResolverError :=
  match type.base with
  | .primitive _ => []
  | .user name =>
    if (types.lookup name).isSome then []
    else [resolverError loc (lit "Undefined type '" ++ name ++ lit "'")]

def validateThrows (loc : SourceLoc) (name : Str) : List ResolverError :=
  match types.lookup name with
  | none => [resolverError loc (lit "Undefined error type '" ++ name ++ lit "' in throws clause")]
  | some info =>
    if info.kind ≠ .errorKind then
      [resolverError loc (lit "Type '" ++ name ++ lit "' in throws clause is not an error type")]
    else []

def validateParam (p : Param) : List ResolverError := validateType types p.type p.loc

def validateMethod (m : Method) : List ResolverError :=
  m.params.flatMap (validateParam types) ++ validateType types m.returnType m.loc ++
    m.throws.flatMap (validateThrows types m.loc)

def validateInheritance (typeName baseName : Str) (expected : TypeKind) (loc : SourceLoc) :
    List ResolverError :=
  match types.lookup baseName with
  | none => [resolverError loc (lit "Undefined base type '" ++ baseName ++ lit "' for " ++
      typeKindToString expected ++ lit " '" ++ typeName ++ lit "'")]
  | some info =>
    if info.kind ≠ expected then
      [resolverError loc (lit "Type '" ++ typeName ++ lit "' cannot inherit from " ++
        typeKindToString info.kind ++ lit " '" ++ baseName ++ lit "' (expected " ++
        typeKindToString expected ++ lit ")")]
    else []

/-- The entries whose name an earlier entry has, or a name in `seen`. -/
def duplicates : List Str → List (Str × SourceLoc) → List (Str × SourceLoc)
  | _, [] => []
  | seen, x :: xs =>
    if x.1 ∈ seen then x :: duplicates (x.1 :: seen) xs else duplicates (x.1 :: seen) xs

/-- The report of the duplicates among the members of `parent`. -/
def duplicateErrors (what : Str) (members : List (Str × SourceLoc)) (parent : Str) :
    List ResolverError :=
  (duplicates [] members).map fun x =>
    resolverError x.2 (lit "Duplicate " ++ what ++ lit " '" ++ x.1 ++ lit "' in " ++ parent)

/-- The field names of the structs and errors called `name`. -/
def AST.fieldNames (name : Str) : List Str :=
  ast.namespaces.flatMap fun ns =>
    (ns.structs.filter (·.name == name)).flatMap (·.fields.map Field.name) ++
    (ns.errors.filter (·.name == name)).flatMap (·.fields.map Field.name)

/-- The field names of `current` and of the types its base links lead to. -/
def ancestorFields : Nat → Str → List Str → List Str
  | 0, _, _ => []
  | fuel + 1, current, visited =>
    if current ∈ visited then []
    else ast.fieldNames current ++ match types.baseOf current with
      | none => []
      | some base => ancestorFields fuel base (current :: visited)

def checkDuplicateFields (fields : List Field) (parent : Str) : List ResolverError :=
  duplicateErrors (lit "field") (fields.map fun f => (f.name, f.loc)) parent ++
    match types.baseOf parent with
    | none => []
    | some base =>
      let inherited := ancestorFields ast types (types.keys.length + 2) base []
      (fields.filter fun f => f.name ∈ inherited).map fun f =>
        resolverError f.loc (lit "Field '" ++ f.name ++ lit "' in " ++ parent ++
          lit " shadows inherited field from base type")

def checkDuplicateMethods (methods : List Method) (parent : Str) : List ResolverError :=
  duplicateErrors (lit "method") (methods.map fun m => (m.name, m.loc)) parent

/-- The items whose value an earlier item has; `next` is the value after the last one. -/
def enumCollisions (parent : Str) : List (Int64 × Str) → Int64 → List EnumItem →
    List ResolverError
  | _, _, [] => []
  | seen, next, item :: items =>
    let val := item.value.getD next
    (match seen.lookup val with
      | none => []
      | some other => [resolverError item.loc (lit "Enum value " ++ toStr val.toInt ++
          lit " for '" ++ item.name ++ lit "' collides with '" ++ other ++ lit "' in " ++
          parent)]) ++
    enumCollisions parent ((val, item.name) :: seen) (val + 1) items

def checkDuplicateEnumItems (items : List EnumItem) (parent : Str) : List ResolverError :=
  duplicateErrors (lit "enum item") (items.map fun i => (i.name, i.loc)) parent ++
    enumCollisions parent [] 0 items

/-- The verdict, and the `visiting` and `visited` sets as they are left. -/
def detectCycle : Nat → Str → List Str → List Str → Bool × List Str × List Str
  | 0, _, visiting, visited => (false, visiting, visited)
  | fuel + 1, name, visiting, visited =>
    if name ∈ visited then (false, visiting, visited)
    else if name ∈ visiting then (true, visiting, visited)
    else match types.baseOf name with
      | none => (false, visiting, name :: visited)
      | some base =>
        let r := detectCycle fuel base (name :: visiting) visited
        (r.1, r.2.1.erase name, name :: r.2.2)

def hasInheritanceCycle (name : Str) : Bool :=
  (detectCycle types (types.keys.length + 2) name [] []).1

/-- The base checks of a struct, class or error. -/
def checkBase (name : Str) (base : Option Str) (kind : TypeKind) (loc : SourceLoc) :
    List ResolverError :=
  (match base with
    | none => []
    | some b => validateInheritance types name b kind loc) ++
  (if hasInheritanceCycle types name then
    [resolverError loc (lit "Inheritance cycle detected for " ++ typeKindToString kind ++
      lit " '" ++ name ++ lit "'")]
  else [])

def validateFields (fields : List Field) : List ResolverError :=
  fields.flatMap fun f => validateType types f.type f.loc

def validateEnum (e : EnumDef) : List ResolverError := checkDuplicateEnumItems e.items e.name

def validateStruct (s : StructDef) : List ResolverError :=
  checkBase types s.name s.base .structKind s.loc ++ validateFields types s.fields ++
    checkDuplicateFields ast types s.fields s.name

/-- The names of the properties are not checked. -/
def validateClass (c : ClassDef) : List ResolverError :=
  checkBase types c.name c.base .classKind c.loc ++
    c.properties.flatMap (fun p => validateType types p.type p.loc) ++
    c.constructors.flatMap (fun ctor => ctor.params.flatMap (validateParam types)) ++
    c.methods.flatMap (validateMethod types) ++ checkDuplicateMethods c.methods c.name

def validateService (s : ServiceDef) : List ResolverError :=
  s.methods.flatMap (validateMethod types) ++ checkDuplicateMethods s.methods s.name

def validateErrorDef (e : ErrorDef) : List ResolverError :=
  checkBase types e.name e.base .errorKind e.loc ++ validateFields types e.fields ++
    checkDuplicateFields ast types e.fields e.name

def validateNamespace (ns : Namespace) : List ResolverError :=
  ns.enums.flatMap validateEnum ++ ns.structs.flatMap (validateStruct ast types) ++
    ns.classes.flatMap (validateClass types) ++ ns.services.flatMap (validateService types) ++
    ns.errors.flatMap (validateErrorDef ast types)

def validateTypes : List ResolverError := ast.namespaces.flatMap (validateNamespace ast types)

end

def resolve (ast : AST) : Resolver :=
  let r := registerTypes ast
  { r with errors := r.errors ++ validateTypes ast r.types }

/-- `resolve` returns true. -/
def accepts (ast : AST) : Bool := (resolve ast).errors.isEmpty

/-! ## What acceptance gives -/

theorem accepts_iff (ast : AST) :
    accepts ast = true ↔
      (registerTypes ast).errors = [] ∧ validateTypes ast (registerTypes ast).types = [] := by
  rw [accepts, List.isEmpty_iff, resolve, List.append_eq_nil_iff]

theorem foldl_registerType_errors {infos : List TypeInfo} {r : Resolver} :
    (infos.foldl registerType r).errors = [] ↔
      r.errors = [] ∧ (infos.map TypeInfo.name).Nodup ∧
        ∀ info ∈ infos, r.types.lookup info.name = none := by
  induction infos generalizing r with
  | nil => simp
  | cons info infos ih =>
    rw [List.foldl_cons, ih, registerType]
    cases hl : r.types.lookup info.name with
    | some first => simp [hl]
    | none =>
      simp only [List.map_cons, List.nodup_cons, List.mem_map, not_exists, not_and,
        List.forall_mem_cons, hl, true_and]
      refine and_congr_right fun _ => ⟨fun ⟨hd, hn⟩ => ?_, fun ⟨⟨hne, hd⟩, hn⟩ => ?_⟩
      · have hne : ∀ i ∈ infos, i.name ≠ info.name := by
          intro i hi he
          have := hn i hi
          rw [he, AList.lookup_insert] at this
          cases this
        refine ⟨⟨hne, hd⟩, fun i hi => ?_⟩
        rw [← hn i hi, AList.lookup_insert_ne (hne i hi)]
      · exact ⟨hd, fun i hi => by rw [AList.lookup_insert_ne (hne i hi)]; exact hn i hi⟩

/-- An accepted tree declares no type name twice, in whatever namespaces and kinds. -/
theorem nodup_typeNames {ast : AST} (h : accepts ast = true) :
    ((ast.namespaces.flatMap Namespace.typeInfos).map TypeInfo.name).Nodup :=
  (foldl_registerType_errors.mp ((accepts_iff ast).mp h).1).2.1

section
variable {ast : AST} {ns : Namespace} (h : accepts ast = true) (hns : ns ∈ ast.namespaces)
include h hns

theorem nodup_typeInfos : (ns.typeInfos.map TypeInfo.name).Nodup := by
  have := nodup_typeNames h
  rw [List.map_flatMap, List.nodup_flatMap] at this
  exact this.1 ns hns

theorem nodup_classes : (ns.classes.map ClassDef.name).Nodup := by
  refine (nodup_typeInfos h hns).sublist ?_
  have he : ns.classes.map ClassDef.name =
      (ns.classes.map fun c => (⟨c.name, .classKind, c.loc, c.base⟩ : TypeInfo)).map
        TypeInfo.name := by
    rw [List.map_map]; rfl
  rw [he, Namespace.typeInfos]
  refine List.Sublist.map _ ?_
  exact ((List.sublist_append_right _ _).trans (List.sublist_append_left _ _)).trans
    (List.sublist_append_left _ _)

theorem nodup_services : (ns.services.map ServiceDef.name).Nodup := by
  refine (nodup_typeInfos h hns).sublist ?_
  have he : ns.services.map ServiceDef.name =
      (ns.services.map fun s => (⟨s.name, .serviceKind, s.loc, none⟩ : TypeInfo)).map
        TypeInfo.name := by
    rw [List.map_map]; rfl
  rw [he, Namespace.typeInfos]
  refine List.Sublist.map _ ?_
  exact (List.sublist_append_right _ _).trans (List.sublist_append_left _ _)

theorem validated : validateNamespace ast (registerTypes ast).types ns = [] :=
  List.flatMap_eq_nil_iff.mp ((accepts_iff ast).mp h).2 ns hns

end

theorem duplicates_eq_nil_iff {xs : List (Str × SourceLoc)} {seen : List Str} :
    duplicates seen xs = [] ↔ (xs.map Prod.fst).Nodup ∧ ∀ x ∈ xs, x.1 ∉ seen := by
  induction xs generalizing seen with
  | nil => simp [duplicates]
  | cons x xs ih =>
    rw [duplicates]
    by_cases hx : x.1 ∈ seen
    · simp [hx]
    · rw [if_neg hx, ih]
      simp only [List.map_cons, List.nodup_cons, List.mem_map, not_exists, not_and,
        List.mem_cons, not_or, forall_eq_or_imp]
      refine ⟨fun ⟨hd, hn⟩ => ⟨⟨fun y hy => (hn y hy).1, hd⟩, hx, fun y hy => (hn y hy).2⟩,
        fun ⟨⟨hne, hd⟩, _, hn⟩ => ⟨hd, fun y hy => ⟨hne y hy, hn y hy⟩⟩⟩

theorem checkDuplicateMethods_eq_nil_iff {methods : List Method} {parent : Str} :
    checkDuplicateMethods methods parent = [] ↔ (methods.map Method.name).Nodup := by
  rw [checkDuplicateMethods, duplicateErrors, List.map_eq_nil_iff, duplicates_eq_nil_iff,
    List.map_map]
  simp [Function.comp_def]

/-- An accepted class declares no method twice. -/
theorem nodup_classMethods {ast : AST} {ns : Namespace} {c : ClassDef}
    (h : accepts ast = true) (hns : ns ∈ ast.namespaces) (hc : c ∈ ns.classes) :
    (c.methods.map Method.name).Nodup := by
  have hv := validated h hns
  simp only [validateNamespace, List.append_eq_nil_iff, List.flatMap_eq_nil_iff] at hv
  have := hv.1.1.2 c hc
  rw [validateClass, List.append_eq_nil_iff] at this
  exact checkDuplicateMethods_eq_nil_iff.mp this.2

end Song.Compiler
