import Song.Compiler.Resolver
import Song.Lib.Links

/-!
# The base chains of an accepted file

The Resolver follows base links twice: `detect_cycle` looks for a name that comes again, and
`check_duplicate_fields` gathers the fields of the ancestors. Neither is bounded by anything but
the names it has seen. Both come to an end, the first one finds a cycle exactly when following
the links from a name revisits a type, and in an accepted file every chain ends within its own
kind and declares no field name twice.
-/

namespace Song.Compiler

open Links (Chain Revisits)

/-! ## The walks as they are written -/

section
variable (ast : AST) (types : SymbolTable)

/-- A call of `detect_cycle` that returns, with the sets it is given and the ones it leaves. -/
inductive DetectCycle : Str → List Str → List Str → Bool × List Str × List Str → Prop
  | processed {name : Str} {visiting visited : List Str} (h : name ∈ visited) :
      DetectCycle name visiting visited (false, visiting, visited)
  | again {name : Str} {visiting visited : List Str} (h : name ∉ visited) (ha : name ∈ visiting) :
      DetectCycle name visiting visited (true, visiting, visited)
  | root {name : Str} {visiting visited : List Str} (h : name ∉ visited) (ha : name ∉ visiting)
      (hb : types.baseOf name = none) :
      DetectCycle name visiting visited (false, visiting, name :: visited)
  | derived {name base : Str} {visiting visited : List Str} {r : Bool × List Str × List Str}
      (h : name ∉ visited) (ha : name ∉ visiting) (hb : types.baseOf name = some base)
      (hr : DetectCycle base (name :: visiting) visited r) :
      DetectCycle name visiting visited (r.1, r.2.1.erase name, name :: r.2.2)

/-- A run of the loop of `check_duplicate_fields` that ends, with the names it gathers. -/
inductive AncestorFields : Str → List Str → List Str → Prop
  | again {current : Str} {visited : List Str} (h : current ∈ visited) :
      AncestorFields current visited []
  | root {current : Str} {visited : List Str} (h : current ∉ visited)
      (hb : types.baseOf current = none) :
      AncestorFields current visited (ast.fieldNames current)
  | derived {current base : Str} {visited names : List Str} (h : current ∉ visited)
      (hb : types.baseOf current = some base)
      (hn : AncestorFields base (current :: visited) names) :
      AncestorFields current visited (ast.fieldNames current ++ names)

end

section
variable {ast : AST} {types : SymbolTable} {name : Str} {visiting visited : List Str}

theorem SymbolTable.mem_keys_of_baseOf (h : (types.baseOf name).isSome) : name ∈ types.keys := by
  rw [SymbolTable.baseOf] at h
  rw [← AList.mem_keys, ← AList.lookup_isSome]
  cases hl : types.lookup name with
  | none => rw [hl] at h; cases h
  | some info => rfl

theorem SymbolTable.mem_keys_of_base {base : Str} (h : types.baseOf name = some base) :
    name ∈ types.keys :=
  mem_keys_of_baseOf (by rw [h]; rfl)

/-- A walk has no more names behind it than there are types. -/
theorem length_le_keys (hnd : visited.Nodup) (hk : ∀ n ∈ visited, n ∈ types.keys) :
    visited.length ≤ types.keys.length :=
  (hnd.subperm hk).length_le

theorem detectCycle_run {fuel : Nat} (hfuel : types.keys.length < visiting.length + fuel)
    (hnd : visiting.Nodup) (hk : ∀ n ∈ visiting, n ∈ types.keys) :
    DetectCycle types name visiting visited (detectCycle types fuel name visiting visited) := by
  induction fuel generalizing name visiting with
  | zero =>
    have := length_le_keys hnd hk
    omega
  | succ fuel ih =>
    rw [detectCycle]
    by_cases hv : name ∈ visited
    · rw [if_pos hv]
      exact .processed hv
    · rw [if_neg hv]
      by_cases ha : name ∈ visiting
      · rw [if_pos ha]
        exact .again hv ha
      · rw [if_neg ha]
        cases hb : types.baseOf name with
        | none => exact .root hv ha hb
        | some base =>
          refine .derived hv ha hb (ih ?_ (List.nodup_cons.mpr ⟨ha, hnd⟩) ?_)
          · rw [List.length_cons]
            omega
          · exact List.forall_mem_cons.mpr ⟨SymbolTable.mem_keys_of_base hb, hk⟩

theorem ancestorFields_run {fuel : Nat} (hfuel : types.keys.length < visited.length + fuel)
    (hnd : visited.Nodup) (hk : ∀ n ∈ visited, n ∈ types.keys) :
    AncestorFields ast types name visited (ancestorFields ast types fuel name visited) := by
  induction fuel generalizing name visited with
  | zero =>
    have := length_le_keys hnd hk
    omega
  | succ fuel ih =>
    rw [ancestorFields]
    by_cases hv : name ∈ visited
    · rw [if_pos hv]
      exact .again hv
    · rw [if_neg hv]
      cases hb : types.baseOf name with
      | none =>
        rw [List.append_nil]
        exact .root hv hb
      | some base =>
        refine .derived hv hb (ih ?_ (List.nodup_cons.mpr ⟨hv, hnd⟩) ?_)
        · rw [List.length_cons]
          omega
        · exact List.forall_mem_cons.mpr ⟨SymbolTable.mem_keys_of_base hb, hk⟩

/-- `detect_cycle` finds a cycle when no chain from the name misses the names on the way. -/
theorem DetectCycle.verdict {r : Bool × List Str × List Str}
    (h : DetectCycle types name visiting [] r) :
    r.1 = true ↔ ¬ ∃ l, Chain types.baseOf name l ∧ l.Disjoint visiting := by
  generalize hv : ([] : List Str) = visited at h
  induction h with
  | processed h => rw [← hv] at h; cases h
  | again _ ha =>
    refine iff_of_true rfl ?_
    rintro ⟨l, hl, hd⟩
    exact hd hl.mem ha
  | root _ ha hb =>
    refine iff_of_false Bool.false_ne_true fun hn => hn ⟨_, .last hb, ?_⟩
    exact List.singleton_disjoint.mpr ha
  | derived _ ha hb _ ih =>
    rw [ih hv, not_iff_not]
    constructor
    · rintro ⟨l, hl, hd⟩
      obtain ⟨hnot, hd⟩ := List.disjoint_cons_right.mp hd
      exact ⟨_, .link hb hl, List.disjoint_cons_left.mpr ⟨ha, hd⟩⟩
    · rintro ⟨l, hl, hd⟩
      obtain ⟨t, rfl, ht⟩ := (Links.chain_iff_of_some hb).mp hl
      exact ⟨t, ht, List.disjoint_cons_right.mpr
        ⟨(List.nodup_cons.mp hl.nodup).1, (List.disjoint_cons_left.mp hd).2⟩⟩

theorem hasInheritanceCycle_run :
    ∃ r, DetectCycle types name [] [] r ∧ r.1 = hasInheritanceCycle types name :=
  ⟨_, detectCycle_run (by rw [List.length_nil]; omega) List.nodup_nil
    fun _ hn => (by cases hn), rfl⟩

theorem hasInheritanceCycle_iff_not_chain :
    hasInheritanceCycle types name = true ↔ ¬ ∃ l, Chain types.baseOf name l := by
  obtain ⟨r, hrun, hr⟩ := @hasInheritanceCycle_run types name
  rw [← hr, hrun.verdict]
  simp

theorem hasInheritanceCycle_iff :
    hasInheritanceCycle types name = true ↔ Revisits types.baseOf name := by
  have hkeys : ∀ n, (types.baseOf n).isSome → n ∈ types.keys := fun _ =>
    SymbolTable.mem_keys_of_baseOf
  rw [hasInheritanceCycle_iff_not_chain, Links.revisits_iff hkeys]

theorem ancestorFields_run_nil : AncestorFields ast types name []
    (ancestorFields ast types (types.keys.length + 2) name []) :=
  ancestorFields_run (by rw [List.length_nil]; omega) List.nodup_nil fun _ hn => (by cases hn)

theorem AncestorFields.chain {names l : List Str} (h : AncestorFields ast types name visited names)
    (hl : Chain types.baseOf name l) (hd : l.Disjoint visited) :
    names = l.flatMap ast.fieldNames := by
  induction h generalizing l with
  | again ha => exact absurd ha (hd hl.mem)
  | root _ hb =>
    rw [hl.unique (.last hb), List.flatMap_singleton]
  | derived _ hb _ ih =>
    obtain ⟨t, rfl, ht⟩ := (Links.chain_iff_of_some hb).mp hl
    rw [List.flatMap_cons, ih ht (List.disjoint_cons_right.mpr
      ⟨(List.nodup_cons.mp hl.nodup).1, (List.disjoint_cons_left.mp hd).2⟩)]

end

/-! ## What is registered -/

section
variable {infos : List TypeInfo} {types : SymbolTable} {info : TypeInfo} {name : Str}

theorem lookup_foldl_registerType {r : Resolver} (hnd : (infos.map TypeInfo.name).Nodup)
    (hfree : ∀ info ∈ infos, r.types.lookup info.name = none) :
    (infos.foldl registerType r).types.lookup name = some info ↔
      r.types.lookup name = some info ∨ info ∈ infos ∧ info.name = name := by
  induction infos generalizing r with
  | nil => simp
  | cons first infos ih =>
    obtain ⟨hfirst, hfree⟩ := List.forall_mem_cons.mp hfree
    rw [List.map_cons, List.nodup_cons] at hnd
    have hreg : registerType r first = { r with types := r.types.insert first.name first } := by
      rw [registerType, hfirst]
    have hne : ∀ i ∈ infos, i.name ≠ first.name := fun i hi he =>
      hnd.1 (he ▸ List.mem_map_of_mem hi)
    rw [List.foldl_cons, hreg, ih hnd.2 fun i hi => by
      rw [AList.lookup_insert_ne (hne i hi)]
      exact hfree i hi]
    by_cases hn : name = first.name
    · subst hn
      rw [AList.lookup_insert, hfirst, Option.some.injEq]
      constructor
      · rintro (rfl | ⟨hi, he⟩)
        · exact .inr ⟨List.mem_cons_self, rfl⟩
        · exact absurd he (hne _ hi)
      · rintro (h | ⟨hi, he⟩)
        · cases h
        · rcases List.mem_cons.mp hi with rfl | hi
          · exact .inl rfl
          · exact absurd he (hne _ hi)
    · rw [AList.lookup_insert_ne hn, List.mem_cons]
      refine or_congr_right ⟨fun h => ⟨.inr h.1, h.2⟩, fun h => ⟨?_, h.2⟩⟩
      rcases h.1 with rfl | hi
      · exact absurd h.2.symm hn
      · exact hi

/-- The symbol table of an accepted tree is its types. -/
theorem lookup_registered {ast : AST} (h : accepts ast = true) :
    (registerTypes ast).types.lookup name = some info ↔
      info ∈ ast.namespaces.flatMap Namespace.typeInfos ∧ info.name = name := by
  rw [registerTypes, lookup_foldl_registerType (nodup_typeNames h) fun _ _ => AList.lookup_empty _,
    AList.lookup_empty]
  simp

end

/-! ## The report of a cycle -/

/-- The error that the three validations report for a cycle. -/
def cycleError (kind : TypeKind) (name : Str) (loc : SourceLoc) : ResolverError :=
  resolverError loc (lit "Inheritance cycle detected for " ++ typeKindToString kind ++ lit " '" ++
    name ++ lit "'")

/-- An error whose message starts with another letter than a cycle's. -/
def AnotherError (e : ResolverError) : Prop :=
  ∃ loc c msg, e = resolverError loc (c :: msg) ∧ c ≠ 73

section
variable {ast : AST} {types : SymbolTable} {name : Str} {base : Option Str} {kind : TypeKind}
  {loc : SourceLoc} {e : ResolverError}

theorem resolverError_inj {loc loc' : SourceLoc} {msg msg' : Str}
    (h : resolverError loc msg = resolverError loc' msg') : msg = msg' := by
  obtain ⟨hwhat, hline, hcolumn⟩ := ResolverError.mk.injEq .. ▸ h
  rw [show loc.line = loc'.line from hline, show loc.column = loc'.column from hcolumn] at hwhat
  exact List.append_cancel_left hwhat

theorem AnotherError.ne_cycleError (h : AnotherError e) : e ≠ cycleError kind name loc := by
  obtain ⟨loc', c, msg, rfl, hc⟩ := h
  intro he
  exact hc (List.cons.inj (resolverError_inj he)).1

theorem anotherError_validateInheritance {typeName baseName : Str} :
    ∀ e ∈ validateInheritance types typeName baseName kind loc, AnotherError e := by
  intro e he
  rw [validateInheritance] at he
  cases hl : types.lookup baseName with
  | none =>
    rw [hl] at he
    exact ⟨_, 85, _, List.mem_singleton.mp he, by decide⟩
  | some info =>
    simp only [hl] at he
    by_cases hk : info.kind ≠ kind
    · rw [if_pos hk] at he
      exact ⟨_, 84, _, List.mem_singleton.mp he, by decide⟩
    · rw [if_neg hk] at he
      cases he

theorem anotherError_validateType {type : Ty} :
    ∀ e ∈ validateType types type loc, AnotherError e := by
  intro e he
  rw [validateType] at he
  cases hb : type.base with
  | primitive p => rw [hb] at he; cases he
  | user name =>
    simp only [hb] at he
    by_cases hs : (types.lookup name).isSome
    · rw [if_pos hs] at he
      cases he
    · rw [if_neg hs] at he
      exact ⟨_, 85, _, List.mem_singleton.mp he, by decide⟩

theorem anotherError_validateThrows :
    ∀ e ∈ validateThrows types loc name, AnotherError e := by
  intro e he
  rw [validateThrows] at he
  cases hl : types.lookup name with
  | none =>
    rw [hl] at he
    exact ⟨_, 85, _, List.mem_singleton.mp he, by decide⟩
  | some info =>
    simp only [hl] at he
    by_cases hk : info.kind ≠ .errorKind
    · rw [if_pos hk] at he
      exact ⟨_, 84, _, List.mem_singleton.mp he, by decide⟩
    · rw [if_neg hk] at he
      cases he

theorem anotherError_duplicateErrors {what parent : Str} {members : List (Str × SourceLoc)} :
    ∀ e ∈ duplicateErrors what members parent, AnotherError e := by
  intro e he
  obtain ⟨x, -, rfl⟩ := List.mem_map.mp he
  exact ⟨_, 68, _, rfl, by decide⟩

theorem anotherError_validateMethod {m : Method} :
    ∀ e ∈ validateMethod types m, AnotherError e := by
  intro e he
  rw [validateMethod, List.mem_append, List.mem_append] at he
  rcases he with (he | he) | he
  · obtain ⟨p, -, he⟩ := List.mem_flatMap.mp he
    exact anotherError_validateType e he
  · exact anotherError_validateType e he
  · obtain ⟨n, -, he⟩ := List.mem_flatMap.mp he
    exact anotherError_validateThrows e he

theorem anotherError_validateFields {fields : List Field} :
    ∀ e ∈ validateFields types fields, AnotherError e := by
  intro e he
  obtain ⟨f, -, he⟩ := List.mem_flatMap.mp he
  exact anotherError_validateType e he

theorem anotherError_checkDuplicateFields {fields : List Field} :
    ∀ e ∈ checkDuplicateFields ast types fields name, AnotherError e := by
  intro e he
  rw [checkDuplicateFields, List.mem_append] at he
  rcases he with he | he
  · exact anotherError_duplicateErrors e he
  · cases hb : types.baseOf name with
    | none => rw [hb] at he; cases he
    | some base =>
      rw [hb] at he
      obtain ⟨f, -, rfl⟩ := List.mem_map.mp he
      exact ⟨_, 70, _, rfl, by decide⟩

theorem cycleError_mem_checkBase :
    cycleError kind name loc ∈ checkBase types name base kind loc ↔
      Revisits types.baseOf name := by
  unfold checkBase
  rw [← hasInheritanceCycle_iff, List.mem_append]
  constructor
  · rintro (he | he)
    · cases base with
      | none => cases he
      | some b => exact absurd rfl (anotherError_validateInheritance _ he).ne_cycleError
    · by_contra hc
      rw [if_neg hc] at he
      cases he
  · intro hc
    rw [if_pos hc]
    exact .inr (List.mem_singleton_self _)

theorem cycleError_mem_validateStruct {s : StructDef} :
    cycleError .structKind s.name s.loc ∈ validateStruct ast types s ↔
      Revisits types.baseOf s.name := by
  rw [validateStruct, List.mem_append, List.mem_append, ← cycleError_mem_checkBase]
  refine ⟨?_, fun h => .inl (.inl h)⟩
  rintro ((he | he) | he)
  · exact he
  · exact absurd rfl (anotherError_validateFields _ he).ne_cycleError
  · exact absurd rfl (anotherError_checkDuplicateFields _ he).ne_cycleError

theorem cycleError_mem_validateErrorDef {d : ErrorDef} :
    cycleError .errorKind d.name d.loc ∈ validateErrorDef ast types d ↔
      Revisits types.baseOf d.name := by
  rw [validateErrorDef, List.mem_append, List.mem_append, ← cycleError_mem_checkBase]
  refine ⟨?_, fun h => .inl (.inl h)⟩
  rintro ((he | he) | he)
  · exact he
  · exact absurd rfl (anotherError_validateFields _ he).ne_cycleError
  · exact absurd rfl (anotherError_checkDuplicateFields _ he).ne_cycleError

theorem cycleError_mem_validateClass {c : ClassDef} :
    cycleError .classKind c.name c.loc ∈ validateClass types c ↔
      Revisits types.baseOf c.name := by
  rw [validateClass, List.mem_append, List.mem_append, List.mem_append, List.mem_append,
    ← cycleError_mem_checkBase]
  refine ⟨?_, fun h => .inl (.inl (.inl (.inl h)))⟩
  rintro ((((he | he) | he) | he) | he)
  · exact he
  · obtain ⟨p, -, he⟩ := List.mem_flatMap.mp he
    exact absurd rfl (anotherError_validateType _ he).ne_cycleError
  · obtain ⟨k, -, he⟩ := List.mem_flatMap.mp he
    obtain ⟨p, -, he⟩ := List.mem_flatMap.mp he
    exact absurd rfl (anotherError_validateType _ he).ne_cycleError
  · obtain ⟨m, -, he⟩ := List.mem_flatMap.mp he
    exact absurd rfl (anotherError_validateMethod _ he).ne_cycleError
  · exact absurd rfl (anotherError_duplicateErrors _ he).ne_cycleError

end

/-! ## Acceptance -/

/-- Definitions, each the base of the one in front of it, the last one without a base. -/
inductive BaseChain {δ : Type} (name : δ → Str) (base : δ → Option Str) (defs : List δ) :
    List δ → Prop
  | root {d : δ} (hd : d ∈ defs) (hb : base d = none) : BaseChain name base defs [d]
  | derived {d e : δ} {rest : List δ} (hd : d ∈ defs) (hb : base d = some (name e))
      (he : BaseChain name base defs (e :: rest)) : BaseChain name base defs (d :: e :: rest)

/-- The table has the definitions of a kind, and has nothing else of that kind. -/
structure SymbolTable.Lists {δ : Type} (types : SymbolTable) (kind : TypeKind) (name : δ → Str)
    (base : δ → Option Str) (defs : List δ) : Prop where
  registered : ∀ d ∈ defs, ∃ loc, types.lookup (name d) = some ⟨name d, kind, loc, base d⟩
  defined : ∀ n info, types.lookup n = some info → info.kind = kind → ∃ d ∈ defs, name d = n

/-- The base links of `d` lead along `chain` through the registered types, all of one kind, and
then end. -/
structure EndsWithin {δ : Type} (types : SymbolTable) (kind : TypeKind) (name : δ → Str)
    (base : δ → Option Str) (defs : List δ) (d : δ) (chain : List δ) : Prop where
  defs : BaseChain name base defs (d :: chain)
  links : Chain types.baseOf (name d) ((d :: chain).map name)
  kinds : ∀ e ∈ d :: chain, (types.lookup (name e)).map TypeInfo.kind = some kind

section
variable {types : SymbolTable} {name : Str} {kind : TypeKind} {loc : SourceLoc}

theorem validateInheritance_of_checkBase {b : Str}
    (h : checkBase types name (some b) kind loc = []) :
    validateInheritance types name b kind loc = [] :=
  (List.append_eq_nil_iff.mp h).1

theorem chain_of_checkBase {base : Option Str} (h : checkBase types name base kind loc = []) :
    ∃ l, Chain types.baseOf name l := by
  have hno := mt cycleError_mem_checkBase.mpr (h ▸ List.not_mem_nil)
  rwa [← hasInheritanceCycle_iff, hasInheritanceCycle_iff_not_chain, not_not] at hno

end

section
variable {δ : Type} {types : SymbolTable} {kind : TypeKind} {name : δ → Str}
  {base : δ → Option Str} {defs : List δ} (hlists : types.Lists kind name base defs)

theorem BaseChain.mem {chain : List δ} (h : BaseChain name base defs chain) :
    ∀ d ∈ chain, d ∈ defs := by
  induction h with
  | root hd _ => exact List.forall_mem_singleton.mpr hd
  | derived hd _ _ ih => exact List.forall_mem_cons.mpr ⟨hd, ih⟩

include hlists

theorem SymbolTable.Lists.baseOf {d : δ} (hd : d ∈ defs) : types.baseOf (name d) = base d := by
  obtain ⟨loc, hl⟩ := hlists.registered d hd
  rw [SymbolTable.baseOf, hl]
  rfl

theorem SymbolTable.Lists.kind_eq {d : δ} (hd : d ∈ defs) :
    (types.lookup (name d)).map TypeInfo.kind = some kind := by
  obtain ⟨loc, hl⟩ := hlists.registered d hd
  rw [hl]
  rfl

theorem BaseChain.links {d : δ} {rest : List δ} (h : BaseChain name base defs (d :: rest)) :
    Chain types.baseOf (name d) ((d :: rest).map name) := by
  generalize hl : d :: rest = l at h
  induction h generalizing d rest with
  | root hd hb =>
    cases hl
    exact .last ((hlists.baseOf hd).trans hb)
  | derived hd hb _ ih =>
    cases hl
    exact .link ((hlists.baseOf hd).trans hb) (ih rfl)

variable {loc : δ → SourceLoc}
  (hcheck : ∀ d ∈ defs, checkBase types (name d) (base d) kind (loc d) = [])
include hcheck

theorem exists_base {d : δ} {b : Str} (hd : d ∈ defs) (hb : base d = some b) :
    ∃ e ∈ defs, name e = b := by
  have hv := validateInheritance_of_checkBase (hb ▸ hcheck d hd)
  simp only [validateInheritance] at hv
  cases hl : types.lookup b with
  | none => rw [hl] at hv; cases hv
  | some info =>
    simp only [hl] at hv
    by_cases hk : info.kind ≠ kind
    · rw [if_pos hk] at hv
      cases hv
    · exact hlists.defined b info hl (not_not.mp hk)

theorem baseChain_of_chain {d : δ} {l : List Str} (hd : d ∈ defs)
    (hl : Chain types.baseOf (name d) l) : ∃ chain, BaseChain name base defs (d :: chain) := by
  generalize hn : name d = n at hl
  induction hl generalizing d with
  | last h =>
    rw [← hn, hlists.baseOf hd] at h
    exact ⟨[], .root hd h⟩
  | link h _ ih =>
    rw [← hn, hlists.baseOf hd] at h
    obtain ⟨e, he, hname⟩ := exists_base hlists hcheck hd h
    obtain ⟨chain, hchain⟩ := ih he hname
    exact ⟨e :: chain, .derived hd (hname ▸ h) hchain⟩

theorem exists_endsWithin {d : δ} (hd : d ∈ defs) :
    ∃ chain, EndsWithin types kind name base defs d chain := by
  obtain ⟨l, hl⟩ := chain_of_checkBase (hcheck d hd)
  obtain ⟨chain, hchain⟩ := baseChain_of_chain hlists hcheck hd hl
  exact ⟨chain, hchain, hchain.links hlists, fun e he => hlists.kind_eq (hchain.mem e he)⟩

end

/-! ### The field names -/

section
variable {ast : AST} {types : SymbolTable} {fields : List Field} {parent : Str}

theorem nodup_of_checkDuplicateFields (h : checkDuplicateFields ast types fields parent = []) :
    (fields.map Field.name).Nodup := by
  unfold checkDuplicateFields at h
  have hd := (List.append_eq_nil_iff.mp h).1
  rw [duplicateErrors, List.map_eq_nil_iff, duplicates_eq_nil_iff, List.map_map] at hd
  exact hd.1

/-- The fields are none of an ancestor's. -/
theorem not_mem_ancestors {base : Str} {l : List Str}
    (h : checkDuplicateFields ast types fields parent = []) (hb : types.baseOf parent = some base)
    (hl : Chain types.baseOf base l) : ∀ f ∈ fields, f.name ∉ l.flatMap ast.fieldNames := by
  unfold checkDuplicateFields at h
  have hs := (List.append_eq_nil_iff.mp h).2
  simp only [hb, ancestorFields_run_nil.chain hl (List.disjoint_nil_right l), List.map_eq_nil_iff,
    List.filter_eq_nil_iff, decide_eq_true_eq] at hs
  exact hs

variable {δ : Type} {kind : TypeKind} {name : δ → Str} {base : δ → Option Str} {defs : List δ}
  {fieldsOf : δ → List Field}

theorem BaseChain.nodup_fields {chain : List δ} (h : BaseChain name base defs chain)
    (hlists : types.Lists kind name base defs)
    (hnames : ∀ d ∈ defs, ∀ f ∈ fieldsOf d, f.name ∈ ast.fieldNames (name d))
    (hcheck : ∀ d ∈ defs, checkDuplicateFields ast types (fieldsOf d) (name d) = []) :
    (chain.flatMap fun d => (fieldsOf d).map Field.name).Nodup := by
  induction h with
  | root hd _ =>
    rw [List.flatMap_singleton]
    exact nodup_of_checkDuplicateFields (hcheck _ hd)
  | @derived d e rest hd hb he ih =>
    rw [List.flatMap_cons, List.nodup_append']
    refine ⟨nodup_of_checkDuplicateFields (hcheck d hd), ih, fun n hn hmem => ?_⟩
    obtain ⟨f, hf, rfl⟩ := List.mem_map.mp hn
    obtain ⟨a, ha, hfa⟩ := List.mem_flatMap.mp hmem
    obtain ⟨g, hg, hgf⟩ := List.mem_map.mp hfa
    refine not_mem_ancestors (hcheck d hd) ((hlists.baseOf hd).trans hb) (he.links hlists) f hf ?_
    refine List.mem_flatMap.mpr ⟨name a, List.mem_map_of_mem ha, ?_⟩
    rw [← hgf]
    exact hnames a (he.mem a ha) g hg

end

/-! ### The definitions of a tree -/

def AST.structs (ast : AST) : List StructDef := ast.namespaces.flatMap Namespace.structs

def AST.classes (ast : AST) : List ClassDef := ast.namespaces.flatMap Namespace.classes

def AST.errors (ast : AST) : List ErrorDef := ast.namespaces.flatMap Namespace.errors

section
variable {ast : AST}

theorem mem_typeInfos {info : TypeInfo} :
    info ∈ ast.namespaces.flatMap Namespace.typeInfos ↔
      (∃ ns ∈ ast.namespaces, ∃ e ∈ ns.enums, info = ⟨e.name, .enumKind, e.loc, none⟩) ∨
      (∃ s ∈ ast.structs, info = ⟨s.name, .structKind, s.loc, s.base⟩) ∨
      (∃ c ∈ ast.classes, info = ⟨c.name, .classKind, c.loc, c.base⟩) ∨
      (∃ ns ∈ ast.namespaces, ∃ s ∈ ns.services, info = ⟨s.name, .serviceKind, s.loc, none⟩) ∨
      (∃ d ∈ ast.errors, info = ⟨d.name, .errorKind, d.loc, d.base⟩) := by
  simp only [AST.structs, AST.classes, AST.errors, Namespace.typeInfos, List.mem_flatMap,
    List.mem_append, List.mem_map, eq_comm (b := info)]
  grind

variable (h : accepts ast = true)
include h

theorem lists_structs :
    (registerTypes ast).types.Lists .structKind StructDef.name StructDef.base ast.structs where
  registered s hs :=
    ⟨s.loc, (lookup_registered h).mpr ⟨mem_typeInfos.mpr (.inr (.inl ⟨s, hs, rfl⟩)), rfl⟩⟩
  defined n info hl hk := by
    obtain ⟨hmem, rfl⟩ := (lookup_registered h).mp hl
    rcases mem_typeInfos.mp hmem with ⟨_, _, _, _, rfl⟩ | ⟨s, hs, rfl⟩ | ⟨_, _, rfl⟩ |
      ⟨_, _, _, _, rfl⟩ | ⟨_, _, rfl⟩
    · cases hk
    · exact ⟨s, hs, rfl⟩
    · cases hk
    · cases hk
    · cases hk

theorem lists_classes :
    (registerTypes ast).types.Lists .classKind ClassDef.name ClassDef.base ast.classes where
  registered c hc :=
    ⟨c.loc, (lookup_registered h).mpr ⟨mem_typeInfos.mpr (.inr (.inr (.inl ⟨c, hc, rfl⟩))), rfl⟩⟩
  defined n info hl hk := by
    obtain ⟨hmem, rfl⟩ := (lookup_registered h).mp hl
    rcases mem_typeInfos.mp hmem with ⟨_, _, _, _, rfl⟩ | ⟨_, _, rfl⟩ | ⟨c, hc, rfl⟩ |
      ⟨_, _, _, _, rfl⟩ | ⟨_, _, rfl⟩
    · cases hk
    · cases hk
    · exact ⟨c, hc, rfl⟩
    · cases hk
    · cases hk

theorem lists_errors :
    (registerTypes ast).types.Lists .errorKind ErrorDef.name ErrorDef.base ast.errors where
  registered d hd :=
    ⟨d.loc, (lookup_registered h).mpr
      ⟨mem_typeInfos.mpr (.inr (.inr (.inr (.inr ⟨d, hd, rfl⟩)))), rfl⟩⟩
  defined n info hl hk := by
    obtain ⟨hmem, rfl⟩ := (lookup_registered h).mp hl
    rcases mem_typeInfos.mp hmem with ⟨_, _, _, _, rfl⟩ | ⟨_, _, rfl⟩ | ⟨_, _, rfl⟩ |
      ⟨_, _, _, _, rfl⟩ | ⟨d, hd, rfl⟩
    · cases hk
    · cases hk
    · cases hk
    · cases hk
    · exact ⟨d, hd, rfl⟩

theorem validateStruct_eq_nil : ∀ s ∈ ast.structs,
    validateStruct ast (registerTypes ast).types s = [] := by
  intro s hs
  obtain ⟨ns, hns, hs⟩ := List.mem_flatMap.mp hs
  have hv := validated h hns
  simp only [validateNamespace, List.append_eq_nil_iff, List.flatMap_eq_nil_iff] at hv
  exact hv.1.1.1.2 s hs

theorem validateClass_eq_nil : ∀ c ∈ ast.classes,
    validateClass (registerTypes ast).types c = [] := by
  intro c hc
  obtain ⟨ns, hns, hc⟩ := List.mem_flatMap.mp hc
  have hv := validated h hns
  simp only [validateNamespace, List.append_eq_nil_iff, List.flatMap_eq_nil_iff] at hv
  exact hv.1.1.2 c hc

theorem validateErrorDef_eq_nil : ∀ d ∈ ast.errors,
    validateErrorDef ast (registerTypes ast).types d = [] := by
  intro d hd
  obtain ⟨ns, hns, hd⟩ := List.mem_flatMap.mp hd
  have hv := validated h hns
  simp only [validateNamespace, List.append_eq_nil_iff, List.flatMap_eq_nil_iff] at hv
  exact hv.2 d hd

theorem struct_endsWithin {s : StructDef} (hs : s ∈ ast.structs) :
    ∃ chain, EndsWithin (registerTypes ast).types .structKind StructDef.name StructDef.base
      ast.structs s chain ∧
        ((s :: chain).flatMap fun d => d.fields.map Field.name).Nodup := by
  have hv : ∀ d ∈ ast.structs,
      checkBase (registerTypes ast).types d.name d.base .structKind d.loc = [] ∧
        checkDuplicateFields ast (registerTypes ast).types d.fields d.name = [] := by
    intro d hd
    have := validateStruct_eq_nil h d hd
    rw [validateStruct, List.append_eq_nil_iff, List.append_eq_nil_iff] at this
    exact ⟨this.1.1, this.2⟩
  obtain ⟨chain, hchain⟩ := exists_endsWithin (lists_structs h) (fun d hd => (hv d hd).1) hs
  refine ⟨chain, hchain, hchain.defs.nodup_fields (lists_structs h) (fun d hd f hf => ?_)
    fun d hd => (hv d hd).2⟩
  obtain ⟨ns, hns, hd⟩ := List.mem_flatMap.mp hd
  refine List.mem_flatMap.mpr ⟨ns, hns, List.mem_append_left _ ?_⟩
  exact List.mem_flatMap.mpr ⟨d, List.mem_filter.mpr ⟨hd, beq_self_eq_true _⟩,
    List.mem_map_of_mem hf⟩

theorem class_endsWithin {c : ClassDef} (hc : c ∈ ast.classes) :
    ∃ chain, EndsWithin (registerTypes ast).types .classKind ClassDef.name ClassDef.base
      ast.classes c chain := by
  have hv : ∀ d ∈ ast.classes,
      checkBase (registerTypes ast).types d.name d.base .classKind d.loc = [] := by
    intro d hd
    have := validateClass_eq_nil h d hd
    simp only [validateClass, List.append_eq_nil_iff] at this
    exact this.1.1.1.1
  exact exists_endsWithin (lists_classes h) hv hc

theorem error_endsWithin {e : ErrorDef} (he : e ∈ ast.errors) :
    ∃ chain, EndsWithin (registerTypes ast).types .errorKind ErrorDef.name ErrorDef.base
      ast.errors e chain ∧
        ((e :: chain).flatMap fun d => d.fields.map Field.name).Nodup := by
  have hv : ∀ d ∈ ast.errors,
      checkBase (registerTypes ast).types d.name d.base .errorKind d.loc = [] ∧
        checkDuplicateFields ast (registerTypes ast).types d.fields d.name = [] := by
    intro d hd
    have := validateErrorDef_eq_nil h d hd
    rw [validateErrorDef, List.append_eq_nil_iff, List.append_eq_nil_iff] at this
    exact ⟨this.1.1, this.2⟩
  obtain ⟨chain, hchain⟩ := exists_endsWithin (lists_errors h) (fun d hd => (hv d hd).1) he
  refine ⟨chain, hchain, hchain.defs.nodup_fields (lists_errors h) (fun d hd f hf => ?_)
    fun d hd => (hv d hd).2⟩
  obtain ⟨ns, hns, hd⟩ := List.mem_flatMap.mp hd
  refine List.mem_flatMap.mpr ⟨ns, hns, List.mem_append_right _ ?_⟩
  exact List.mem_flatMap.mpr ⟨d, List.mem_filter.mpr ⟨hd, beq_self_eq_true _⟩,
    List.mem_map_of_mem hf⟩

end

/-- Both walks end. A cycle is reported for a definition exactly when its base links revisit a
type; in an accepted tree they never do, stay within their kind, and meet no field name twice. -/
theorem baseChains_checked (ast : AST) :
    (∀ name, ∃ r, DetectCycle (registerTypes ast).types name [] [] r ∧
      r.1 = hasInheritanceCycle (registerTypes ast).types name) ∧
    (∀ name, AncestorFields ast (registerTypes ast).types name [] (ancestorFields ast
      (registerTypes ast).types ((registerTypes ast).types.keys.length + 2) name [])) ∧
    (∀ s ∈ ast.structs, cycleError .structKind s.name s.loc ∈
      validateStruct ast (registerTypes ast).types s ↔
        Revisits (registerTypes ast).types.baseOf s.name) ∧
    (∀ c ∈ ast.classes, cycleError .classKind c.name c.loc ∈
      validateClass (registerTypes ast).types c ↔
        Revisits (registerTypes ast).types.baseOf c.name) ∧
    (∀ e ∈ ast.errors, cycleError .errorKind e.name e.loc ∈
      validateErrorDef ast (registerTypes ast).types e ↔
        Revisits (registerTypes ast).types.baseOf e.name) ∧
    (accepts ast = true →
      (∀ s ∈ ast.structs, ∃ chain, EndsWithin (registerTypes ast).types .structKind
        StructDef.name StructDef.base ast.structs s chain ∧
          ((s :: chain).flatMap fun d => d.fields.map Field.name).Nodup) ∧
      (∀ c ∈ ast.classes, ∃ chain, EndsWithin (registerTypes ast).types .classKind
        ClassDef.name ClassDef.base ast.classes c chain) ∧
      ∀ e ∈ ast.errors, ∃ chain, EndsWithin (registerTypes ast).types .errorKind
        ErrorDef.name ErrorDef.base ast.errors e chain ∧
          ((e :: chain).flatMap fun d => d.fields.map Field.name).Nodup) :=
  ⟨fun _ => hasInheritanceCycle_run, fun _ => ancestorFields_run_nil,
    fun _ _ => cycleError_mem_validateStruct, fun _ _ => cycleError_mem_validateClass,
    fun _ _ => cycleError_mem_validateErrorDef, fun h => ⟨fun _ => struct_endsWithin h,
      fun _ => class_endsWithin h, fun _ => error_endsWithin h⟩⟩

/-- `struct Shape { i32 id; }` -/
def shape : StructDef where
  name := lit "Shape"
  fields := [{ name := lit "id", type := { base := .primitive .i32 } }]

/-- `struct Circle : Shape { i32 radius; }` -/
def circle : StructDef where
  name := lit "Circle"
  base := some (lit "Shape")
  fields := [{ name := lit "radius", type := { base := .primitive .i32 } }]

theorem baseChains_checked_circle :
    ∃ chain, EndsWithin (registerTypes ⟨[{ structs := [circle, shape] }]⟩).types .structKind
      StructDef.name StructDef.base (AST.structs ⟨[{ structs := [circle, shape] }]⟩) circle chain ∧
        ((circle :: chain).flatMap fun d => d.fields.map Field.name).Nodup :=
  (baseChains_checked ⟨[{ structs := [circle, shape] }]⟩).2.2.2.2.2 (by decide +kernel) |>.1
    circle List.mem_cons_self

end Song.Compiler
