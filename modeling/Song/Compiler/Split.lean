import Song.Compiler.SelfContained

/-!
# The split files

With `--split` the codecs of the structs are declared as external in the types header and
defined `inline` in the wire source, so no other file can call them; their array helpers are
not declared at all. So for a namespace whose single header is self-contained the split files
are exactly when it has no structs (`splitSelfContained_iff`).
-/

namespace Song.Compiler.CppText

open Supply (given wanted given_append wanted_append given_flatMap wanted_flatMap)

/-! ## Declarations -/

def Mark.declaration : Mark → List (Helper × Linkage)
  | declares h linkage => [(h, linkage)]
  | _ => []

/-- The helpers that a file declares, with how it does. -/
def declarations (lines : List Line) : List (Helper × Linkage) :=
  lines.flatMap fun l => l.code.flatMap fun p => p.marks.flatMap Mark.declaration

/-- The helpers that a file only declares, not `inline`. -/
def externals (lines : List Line) : List Helper :=
  ((declarations lines).filter fun d => d.2 = .external).map Prod.fst

/-- How often a file defines a helper that is not `inline`. -/
def definitions (h : Helper) (lines : List Line) : Nat := (declarations lines).count (h, ⟨false, true⟩)

section
variable {lines lines' : List Line} {h : Helper} {linkage : Linkage}

theorem declarations_append :
    declarations (lines ++ lines') = declarations lines ++ declarations lines' := List.flatMap_append

theorem declarations_flatMap {α : Type} (f : α → List Line) (xs : List α) :
    declarations (xs.flatMap f) = xs.flatMap fun x => declarations (f x) := List.flatMap_assoc

/-- A declared helper is given. -/
theorem given_of_declared (hd : (h, linkage) ∈ declarations lines) :
    .helper h ∈ given (supply lines) := by
  obtain ⟨l, hl, hd⟩ := List.mem_flatMap.mp hd
  obtain ⟨p, hp, hd⟩ := List.mem_flatMap.mp hd
  obtain ⟨m, hm, hd⟩ := List.mem_flatMap.mp hd
  have hg : .helper h ∈ given m.supply := by
    cases m with
    | declares h' _ =>
      cases List.mem_singleton.mp hd
      exact List.mem_cons_self
    | call _ => cases hd
    | member _ => cases hd
    | closes _ => cases hd
  rw [supply, given_flatMap]
  refine List.mem_flatMap.mpr ⟨l, hl, ?_⟩
  rw [Code.supply, given_flatMap]
  refine List.mem_flatMap.mpr ⟨p, hp, ?_⟩
  rw [given_flatMap]
  exact List.mem_flatMap.mpr ⟨m, hm, hg⟩

theorem declarations_eq_nil (hg : ∀ h, .helper h ∉ given (supply lines)) :
    declarations lines = [] :=
  List.eq_nil_iff_forall_not_mem.mpr fun d hd => hg d.1 (given_of_declared hd)

theorem declarations_of_given_nil (hg : given (supply lines) = []) : declarations lines = [] :=
  declarations_eq_nil fun h => by rw [hg]; exact List.not_mem_nil

end

/-! ## The declarations of the files -/

section
variable (ns : Namespace) (s : StructDef) (e : EnumDef)

theorem declarations_structCodec :
    declarations (structCodec s) = [(.encode s.name, .inlineBody), (.decode s.name, .inlineBody)] := by
  have henc : declarations (s.fields.map fun f =>
      line ([t "    "] ++ encode f.type [t "val.", raw f.name] (t "buf") ++ [t ";"])) = [] :=
    declarations_of_given_nil (by simp [given_flatMap])
  have hdec : declarations (s.fields.map fun f =>
      line ([t "    val.", raw f.name, t " = "] ++ decode f.type (t "buf") ++ [t ";"])) = [] :=
    declarations_of_given_nil (by simp [given_flatMap])
  simp only [structCodec, generateStructEncode, generateStructDecode, declarations_append, hdec,
    ← List.singleton_append (l := List.map _ _), henc]
  rfl

theorem declarations_enumCodecs :
    declarations (enumCodecs e) = [(.encode e.name, .inlineBody), (.decode e.name, .inlineBody),
      (.encodeArray e.name, .inlineBody), (.decodeArray e.name, .inlineBody)] := rfl

theorem declarations_types :
    declarations (generateTypesHeader ns) =
      ns.enums.flatMap (fun e => declarations (enumCodecs e)) ++
      ns.structs.flatMap fun s => [(.encode s.name, .external), (.decode s.name, .external)] := by
  have hforward : declarations (forwardStructs ns) = [] :=
    declarations_of_given_nil (by rw [supply_forwardStructs]; rfl)
  have henums : declarations (ns.enums.flatMap fun e => generateEnumDef e ++ [blank]) = [] :=
    declarations_eq_nil fun h => by simp [supply_enumDef, given_flatMap, given]
  have hstructs : declarations (ns.structs.flatMap fun s => generateStructDef s ++ [blank]) = [] :=
    declarations_eq_nil fun h => by simp [supply_structDef, given_flatMap, given]
  have hclose : declarations (closeNamespace ns) = [] := rfl
  have hblank : declarations [blank] = [] := rfl
  have hserial : declarations [line [t "// Serialization functions"]] = [] := rfl
  simp only [generateTypesHeader, declarations_append, hforward, henums, hstructs,
    declarations_flatMap, List.append_nil, hclose, hblank, hserial]
  rfl

theorem declarations_wire :
    declarations (generateWireImpl ns) =
      ns.structs.flatMap fun s => [(.encode s.name, .inlineBody), (.decode s.name, .inlineBody)] := by
  have hclose : declarations (closeNamespace ns) = [] := rfl
  simp only [generateWireImpl, declarations_append, declarations_flatMap, declarations_structCodec,
    hclose, List.append_nil]
  rfl

theorem supply_wire : supply (generateWireImpl ns) = ns.structs.flatMap fun s => supply (structCodec s) := by
  simp [generateWireImpl, openNamespace, closeNamespace, usingSong]

theorem supply_client :
    supply (generateClientHeader ns) = ns.services.flatMap fun s => supply (generateServiceProxy s) := by
  simp [generateClientHeader, openNamespace, closeNamespace, usingSong, supply_serviceIds,
    supply_parts]

theorem supply_server :
    supply (generateServerHeader ns) =
      ns.services.flatMap fun s => supply (generateServiceDispatcher s) := by
  simp [generateServerHeader, openNamespace, closeNamespace, usingSong, supply_serviceIds,
    supply_serviceInterface]

theorem declarations_client : declarations (generateClientHeader ns) = [] := by
  refine declarations_of_given_nil ?_
  rw [supply_client]
  simp [supply_serviceProxy, given_flatMap, given_paramsEncode]

theorem declarations_server : declarations (generateServerHeader ns) = [] := by
  refine declarations_of_given_nil ?_
  rw [supply_server]
  simp [supply_serviceDispatcher, given_flatMap, given_paramsDecode]

/-! ## Self-contained files -/

def splitFiles : List (List Line) :=
  [generateTypesHeader ns, generateWireImpl ns, generateClientHeader ns, generateServerHeader ns]

/-- What the files that include the types header call is declared in it, and what it leaves to
be defined elsewhere one file defines. -/
structure SplitSelfContained : Prop where
  declared : ∀ file ∈ [generateWireImpl ns, generateClientHeader ns, generateServerHeader ns],
    ∀ h, .helper h ∈ wanted (supply file) → .helper h ∈ given (supply (generateTypesHeader ns))
  defined : ∀ h ∈ externals (generateTypesHeader ns),
    ((splitFiles ns).map (definitions h)).sum = 1

/-- No file defines a helper that is not `inline`. -/
theorem definitions_eq_zero (h : Helper) : ∀ file ∈ splitFiles ns, definitions h file = 0 := by
  have hno : ∀ file ∈ splitFiles ns, ∀ d ∈ declarations file, d.2 ≠ ⟨false, true⟩ := by
    intro file hf
    simp only [splitFiles, List.mem_cons, List.not_mem_nil, or_false] at hf
    rcases hf with rfl | rfl | rfl | rfl
    · rw [declarations_types]
      refine List.forall_mem_append.mpr ⟨List.forall_mem_flatMap.mpr fun e _ => ?_,
        List.forall_mem_flatMap.mpr fun s _ => ?_⟩
      · simp only [declarations_enumCodecs, List.forall_mem_cons, List.not_mem_nil, false_imp_iff,
    implies_true, and_true]
        decide
      · simp only [List.forall_mem_cons, List.not_mem_nil, false_imp_iff, implies_true, and_true]
        decide
    · rw [declarations_wire]
      refine List.forall_mem_flatMap.mpr fun s _ => ?_
      simp only [List.forall_mem_cons, List.not_mem_nil, false_imp_iff, implies_true, and_true]
      decide
    · rw [declarations_client]
      exact fun d hd => (by cases hd)
    · rw [declarations_server]
      exact fun d hd => (by cases hd)
  intro file hf
  exact List.count_eq_zero.mpr fun hd => hno file hf _ hd rfl

theorem mem_externals_types {s : StructDef} (hs : s ∈ ns.structs) :
    .encode s.name ∈ externals (generateTypesHeader ns) := by
  refine List.mem_map.mpr ⟨(.encode s.name, .external), List.mem_filter.mpr ⟨?_, rfl⟩, rfl⟩
  rw [declarations_types]
  exact List.mem_append_right _ (List.mem_flatMap.mpr ⟨s, hs, List.mem_cons_self⟩)

theorem externals_of_no_structs (hs : ns.structs = []) : externals (generateTypesHeader ns) = [] := by
  rw [externals, declarations_types, hs, List.flatMap_nil, List.append_nil, List.map_eq_nil_iff,
    List.filter_eq_nil_iff]
  refine List.forall_mem_flatMap.mpr fun e _ => ?_
  simp only [declarations_enumCodecs, List.forall_mem_cons, List.not_mem_nil, false_imp_iff,
    implies_true, and_true, decide_eq_true_eq]
  decide

/-- The helpers of the enums are declared in the types header. -/
theorem helper_mem_typesHeader {h : Helper} (he : h.type ∈ ns.enums.map EnumDef.name) :
    .helper h ∈ given (supply (generateTypesHeader ns)) := by
  obtain ⟨e, he, hn⟩ := List.mem_map.mp he
  have hd : (h, Linkage.inlineBody) ∈ declarations (enumCodecs e) := by
    rw [declarations_enumCodecs, hn]
    cases h <;> simp [Helper.type]
  suffices hm : (h, Linkage.inlineBody) ∈ declarations (generateTypesHeader ns) from
    given_of_declared hm
  rw [declarations_types]
  exact List.mem_append_left _ (List.mem_flatMap.mpr ⟨e, he, hd⟩)

/-- Where the single header is self-contained, the split files are for a namespace without
structs only. -/
theorem splitSelfContained_iff (hself : HelpersEmitted ns) :
    SplitSelfContained ns ↔ ns.structs = [] := by
  constructor
  · intro hsplit
    refine List.eq_nil_iff_forall_not_mem.mpr fun s hs => ?_
    have hone := hsplit.defined _ (mem_externals_types ns hs)
    have hzero : (splitFiles ns).map (definitions (.encode s.name)) = [0, 0, 0, 0] :=
      List.map_congr_left (definitions_eq_zero ns (.encode s.name))
    rw [hzero] at hone
    cases hone
  · intro hs
    have hcodecs : codecNames ns = ns.enums.map EnumDef.name := by
      rw [codecNames, hs]
      exact List.append_nil _
    have hmembers : ∀ s ∈ ns.services, ∀ m ∈ s.methods, ∀ type ∈ methodTypes m,
        Called (· ∈ codecNames ns) type := by
      intro s hs' m hm type ht
      refine (helpersEmitted_iff ns).mp hself type (List.mem_append_right _ ?_)
      exact List.mem_append_left _ (List.mem_flatMap.mpr ⟨s, hs', List.mem_flatMap.mpr ⟨m, hm, ht⟩⟩)
    have hfiles : ∀ file ∈ [generateWireImpl ns, generateClientHeader ns, generateServerHeader ns],
        ∀ x ∈ wanted (supply file), Emitted ns x := by
      simp only [List.forall_mem_cons, List.not_mem_nil, false_imp_iff, implies_true, and_true]
      refine ⟨?_, ?_, ?_⟩
      · rw [supply_wire, hs]
        exact fun x hx => (by cases hx)
      · rw [supply_client, wanted_flatMap]
        refine List.forall_mem_flatMap.mpr fun s hs' => ?_
        rw [supply_serviceProxy, wanted_flatMap]
        exact List.forall_mem_flatMap.mpr fun m hm =>
          (forall_proxy_iff (emitted_helper ns)).mpr (hmembers s hs' m hm)
      · rw [supply_server, wanted_flatMap]
        exact List.forall_mem_flatMap.mpr fun s hs' =>
          forall_serviceDispatcher_of (emitted_helper ns) (hmembers s hs')
    refine ⟨fun file hf h hh => helper_mem_typesHeader ns ?_, fun h hh => ?_⟩
    · rw [← hcodecs]
      exact hfiles file hf _ hh h rfl
    · rw [externals_of_no_structs ns hs] at hh
      cases hh

end

/-! ## Two small namespaces -/

/-- `enum Color { Red }` and a service that passes colors on. -/
def palette : Namespace where
  enums := [{ name := lit "Color", items := [{ name := lit "Red" }] }]
  services := [{ name := lit "Palette", methods := [{
    name := lit "next"
    params := [{ name := lit "color", type := { base := .user (lit "Color") } }]
    returnType := { base := .user (lit "Color"), isArray := true } }] }]

theorem splitSelfContained_palette : SplitSelfContained palette :=
  (splitSelfContained_iff palette ((helpersEmitted_iff palette).mpr (by decide +kernel))).mpr rfl

/-- `Point` by itself: every other file is left without its codecs. -/
theorem not_splitSelfContained_point :
    ¬ ∀ ast ns, accepts ast = true → ns ∈ ast.namespaces → HeaderOrdered ns →
      SplitSelfContained ns := by
  intro h
  have hsplit := h ⟨[{ structs := [point] }]⟩ { structs := [point] } (by decide +kernel)
    List.mem_cons_self (by unfold HeaderOrdered; decide +kernel)
  exact absurd (hsplit.defined (.encode (lit "Point")) (by decide +kernel)) (by decide +kernel)

end Song.Compiler.CppText
