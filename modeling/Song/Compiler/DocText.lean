import Mathlib.Tactic.Tauto
import Song.Compiler.Parser

/-!
# Documentation in a tree

What `m_pending_doc` makes of the lines of a comment, and a tree with its documentation changed:
`withDocs g` applies `g` to every `doc` and forgets the positions.
-/

namespace Song.Compiler

/-! ## Lines -/

/-- The pending documentation after these lines. -/
def gather (doc : Str) (lines : List Str) : Str := lines.foldl pendingDoc.add doc

/-- Lines joined by newlines. -/
def joinLines (lines : List Str) : Str := List.intercalate (lit "\n") lines

theorem gather_append (doc : Str) (ls ls' : List Str) :
    gather doc (ls ++ ls') = gather (gather doc ls) ls' :=
  List.foldl_append

theorem joinLines_cons (l : Str) (ls : List Str) :
    joinLines (l :: ls) = l ++ ls.flatMap fun l => ch '\n' :: l := by
  induction ls generalizing l with
  | nil => simp [joinLines]
  | cons l' ls ih =>
    have h := ih l'
    rw [joinLines] at h ⊢
    rw [List.intercalate_cons_cons, h]
    simp [lit, ch]

theorem gather_of_ne_nil {doc : Str} (h : doc ≠ []) (ls : List Str) :
    gather doc ls = joinLines (doc :: ls) := by
  induction ls generalizing doc with
  | nil => simp [gather, joinLines]
  | cons l ls ih =>
    have hadd : pendingDoc.add doc l = doc ++ ch '\n' :: l := by
      have hempty : doc.isEmpty = false := by
        cases doc with
        | nil => exact absurd rfl h
        | cons => rfl
      simp only [pendingDoc, hempty]
      rw [if_neg Bool.false_ne_true, List.append_assoc]
      rfl
    rw [gather, List.foldl_cons, ← gather, hadd, ih (List.append_ne_nil_of_left_ne_nil h _),
      joinLines_cons, joinLines_cons, List.flatMap_cons, List.append_assoc]

/-- Empty lines in front of the first other one are lost. -/
theorem gather_nil (ls : List Str) : gather [] ls = joinLines (ls.dropWhile List.isEmpty) := by
  induction ls with
  | nil => rfl
  | cons l ls ih =>
    cases l with
    | nil =>
      rw [List.dropWhile_cons_of_pos rfl, ← ih]
      rfl
    | cons c cs =>
      rw [List.dropWhile_cons_of_neg (by simp), ← gather_of_ne_nil (List.cons_ne_nil _ _)]
      rfl

/-- A text without the newlines in front. -/
def trimDoc (doc : Str) : Str := doc.dropWhile (· == ch '\n')

theorem gather_splitOn (doc : Str) : gather [] (doc.splitOn 10) = trimDoc doc := by
  induction doc with
  | nil => rfl
  | cons c cs ih =>
    rw [List.splitOn_cons_eq_if_modifyHead, trimDoc, List.dropWhile_cons]
    show gather [] (if (c == 10) = true then _ else _) = if (c == 10) = true then _ else _
    by_cases hc : (c == 10) = true
    · rw [if_pos hc, if_pos hc, ← trimDoc, ← ih]
      rfl
    · rw [if_neg hc, if_neg hc]
      have hjoin := @List.intercalate_splitOn _ cs _ _ 10
      cases hls : cs.splitOn 10 with
      | nil => exact absurd hls (List.splitOn_ne_nil _ _)
      | cons l ls =>
        have hcs : joinLines (l :: ls) = cs := by
          rw [← hls]
          exact hjoin
        rw [List.modifyHead_cons, gather_nil, List.dropWhile_cons_of_neg (by simp), joinLines_cons,
          List.cons_append, ← joinLines_cons, hcs]

theorem trimDoc_eq_self {doc : Str} : trimDoc doc = doc ↔ doc.head? ≠ some (ch '\n') := by
  cases doc with
  | nil => exact iff_of_true rfl (by simp)
  | cons c cs =>
    rw [trimDoc]
    by_cases hc : (c == ch '\n') = true
    · rw [List.dropWhile_cons, if_pos hc]
      refine iff_of_false (fun h => ?_) fun h => h (congrArg some (eq_of_beq hc))
      have hlen := congrArg List.length h
      have hle := (List.dropWhile_suffix (l := cs) (· == ch '\n')).length_le
      rw [List.length_cons] at hlen
      omega
    · rw [List.dropWhile_cons, if_neg hc]
      refine iff_of_true rfl fun h => hc ?_
      rw [Option.some.inj h]
      exact beq_self_eq_true _

theorem newline_not_mem_splitOn {doc l : Str} (h : l ∈ doc.splitOn 10) : ch '\n' ∉ l := by
  induction doc generalizing l with
  | nil =>
    rw [List.splitOn_nil, List.mem_singleton] at h
    rw [h]
    exact List.not_mem_nil
  | cons c cs ih =>
    rw [List.splitOn_cons_eq_if_modifyHead] at h
    split at h
    · rcases List.mem_cons.mp h with rfl | h
      · exact List.not_mem_nil
      · exact ih h
    · next hc =>
      cases hls : cs.splitOn 10 with
      | nil => exact absurd hls (List.splitOn_ne_nil _ _)
      | cons l' ls =>
        rw [hls, List.modifyHead_cons] at h
        rcases List.mem_cons.mp h with rfl | h
        · intro hmem
          rcases List.mem_cons.mp hmem with hc' | hmem
          · rw [← hc'] at hc
            exact hc rfl
          · exact ih (hls ▸ List.mem_cons_self) hmem
        · exact ih (hls ▸ List.mem_cons_of_mem _ h)

/-! ## Trees -/

def Param.unplaced (p : Param) : Param := { p with loc := {} }

section
variable (g : Str → Str)

def Field.withDocs (f : Field) : Field := { f with loc := {}, doc := g f.doc }

def StructDef.withDocs (d : StructDef) : StructDef :=
  { d with fields := d.fields.map (Field.withDocs g), loc := {}, doc := g d.doc }

def ErrorDef.withDocs (d : ErrorDef) : ErrorDef :=
  { d with fields := d.fields.map (Field.withDocs g), loc := {}, doc := g d.doc }

def EnumItem.withDocs (i : EnumItem) : EnumItem := { i with loc := {}, doc := g i.doc }

def EnumDef.withDocs (d : EnumDef) : EnumDef :=
  { d with items := d.items.map (EnumItem.withDocs g), loc := {}, doc := g d.doc }

def Property.withDocs (p : Property) : Property := { p with loc := {}, doc := g p.doc }

def Constructor.withDocs (c : Constructor) : Constructor :=
  { params := c.params.map Param.unplaced, doc := g c.doc }

def Method.withDocs (m : Method) : Method :=
  { m with params := m.params.map Param.unplaced, loc := {}, doc := g m.doc }

def ClassDef.withDocs (d : ClassDef) : ClassDef :=
  { d with
    properties := d.properties.map (Property.withDocs g)
    constructors := d.constructors.map (Constructor.withDocs g)
    methods := d.methods.map (Method.withDocs g)
    loc := {}
    doc := g d.doc }

def ServiceDef.withDocs (d : ServiceDef) : ServiceDef :=
  { d with methods := d.methods.map (Method.withDocs g), loc := {}, doc := g d.doc }

def Namespace.withDocs (ns : Namespace) : Namespace where
  name := ns.name
  enums := ns.enums.map (EnumDef.withDocs g)
  structs := ns.structs.map (StructDef.withDocs g)
  classes := ns.classes.map (ClassDef.withDocs g)
  services := ns.services.map (ServiceDef.withDocs g)
  errors := ns.errors.map (ErrorDef.withDocs g)

end

/-! ### All the documentation -/

def StructDef.docs (d : StructDef) : List Str := d.doc :: d.fields.map Field.doc

def ErrorDef.docs (d : ErrorDef) : List Str := d.doc :: d.fields.map Field.doc

def EnumDef.docs (d : EnumDef) : List Str := d.doc :: d.items.map EnumItem.doc

def ClassDef.docs (d : ClassDef) : List Str :=
  d.doc :: (d.properties.map Property.doc ++ d.constructors.map Constructor.doc ++
    d.methods.map Method.doc)

def ServiceDef.docs (d : ServiceDef) : List Str := d.doc :: d.methods.map Method.doc

def Namespace.docs (ns : Namespace) : List Str :=
  ns.enums.flatMap EnumDef.docs ++ ns.structs.flatMap StructDef.docs ++
    ns.classes.flatMap ClassDef.docs ++ ns.services.flatMap ServiceDef.docs ++
      ns.errors.flatMap ErrorDef.docs

section
variable {g h : Str → Str}

theorem Field.withDocs_eq_iff {f : Field} : f.withDocs g = f.withDocs h ↔ g f.doc = h f.doc := by
  simp [withDocs]

theorem EnumItem.withDocs_eq_iff {i : EnumItem} :
    i.withDocs g = i.withDocs h ↔ g i.doc = h i.doc := by
  simp [withDocs]

theorem Property.withDocs_eq_iff {p : Property} :
    p.withDocs g = p.withDocs h ↔ g p.doc = h p.doc := by
  simp [withDocs]

theorem Constructor.withDocs_eq_iff {c : Constructor} :
    c.withDocs g = c.withDocs h ↔ g c.doc = h c.doc := by
  simp [withDocs]

theorem Method.withDocs_eq_iff {m : Method} :
    m.withDocs g = m.withDocs h ↔ g m.doc = h m.doc := by
  simp [withDocs]

theorem StructDef.withDocs_eq_iff {d : StructDef} :
    d.withDocs g = d.withDocs h ↔ ∀ doc ∈ d.docs, g doc = h doc := by
  simp only [withDocs, StructDef.mk.injEq, List.map_inj_left, Field.withDocs_eq_iff, docs,
    List.forall_mem_cons, List.forall_mem_map]
  tauto

theorem ErrorDef.withDocs_eq_iff {d : ErrorDef} :
    d.withDocs g = d.withDocs h ↔ ∀ doc ∈ d.docs, g doc = h doc := by
  simp only [withDocs, ErrorDef.mk.injEq, List.map_inj_left, Field.withDocs_eq_iff, docs,
    List.forall_mem_cons, List.forall_mem_map]
  tauto

theorem EnumDef.withDocs_eq_iff {d : EnumDef} :
    d.withDocs g = d.withDocs h ↔ ∀ doc ∈ d.docs, g doc = h doc := by
  simp only [withDocs, EnumDef.mk.injEq, List.map_inj_left, EnumItem.withDocs_eq_iff, docs,
    List.forall_mem_cons, List.forall_mem_map]
  tauto

theorem ServiceDef.withDocs_eq_iff {d : ServiceDef} :
    d.withDocs g = d.withDocs h ↔ ∀ doc ∈ d.docs, g doc = h doc := by
  simp only [withDocs, ServiceDef.mk.injEq, List.map_inj_left, Method.withDocs_eq_iff, docs,
    List.forall_mem_cons, List.forall_mem_map]
  tauto

theorem ClassDef.withDocs_eq_iff {d : ClassDef} :
    d.withDocs g = d.withDocs h ↔ ∀ doc ∈ d.docs, g doc = h doc := by
  simp only [withDocs, ClassDef.mk.injEq, List.map_inj_left, Property.withDocs_eq_iff,
    Constructor.withDocs_eq_iff, Method.withDocs_eq_iff, docs, List.forall_mem_cons,
    List.forall_mem_append, List.forall_mem_map]
  tauto

theorem Namespace.withDocs_eq_iff {ns : Namespace} :
    ns.withDocs g = ns.withDocs h ↔ ∀ doc ∈ ns.docs, g doc = h doc := by
  simp only [withDocs, Namespace.mk.injEq, List.map_inj_left, EnumDef.withDocs_eq_iff,
    StructDef.withDocs_eq_iff, ClassDef.withDocs_eq_iff, ServiceDef.withDocs_eq_iff,
    ErrorDef.withDocs_eq_iff, docs, List.forall_mem_append, List.forall_mem_flatMap]
  tauto

end

/-! ### Documentation that is written out -/

section
variable (D E : Set Str)

/-- What becomes a documentation string too is in `E`, what becomes a comment only in `D`. -/
structure StructDef.DocsIn (d : StructDef) : Prop where
  doc : d.doc ∈ E
  fields : ∀ f ∈ d.fields, f.doc ∈ D

structure EnumDef.DocsIn (d : EnumDef) : Prop where
  doc : d.doc ∈ E
  items : ∀ i ∈ d.items, i.doc ∈ D

/-- The documentation of constructors is not written. -/
structure ClassDef.DocsIn (d : ClassDef) : Prop where
  doc : d.doc ∈ D
  properties : ∀ p ∈ d.properties, p.doc ∈ D
  methods : ∀ m ∈ d.methods, m.doc ∈ D

structure ServiceDef.DocsIn (d : ServiceDef) : Prop where
  doc : d.doc ∈ E
  methods : ∀ m ∈ d.methods, m.doc ∈ E

/-- That of errors is not written either. -/
structure Namespace.DocsIn (ns : Namespace) : Prop where
  enums : ∀ d ∈ ns.enums, d.DocsIn D E
  structs : ∀ d ∈ ns.structs, d.DocsIn D E
  classes : ∀ d ∈ ns.classes, d.DocsIn D
  services : ∀ d ∈ ns.services, d.DocsIn E

end

theorem Namespace.DocsIn.mono {D D' E E' : Set Str} {ns : Namespace} (h : ns.DocsIn D E)
    (hD : ∀ d ∈ D, d ∈ D') (hE : ∀ e ∈ E, e ∈ E') : ns.DocsIn D' E' where
  enums e he :=
    have hin := h.enums e he
    ⟨hE _ hin.doc, fun i hi => hD _ (hin.items i hi)⟩
  structs s hs :=
    have hin := h.structs s hs
    ⟨hE _ hin.doc, fun f hf => hD _ (hin.fields f hf)⟩
  classes c hc :=
    have hin := h.classes c hc
    ⟨hD _ hin.doc, fun p hp => hD _ (hin.properties p hp), fun m hm => hD _ (hin.methods m hm)⟩
  services s hs :=
    have hin := h.services s hs
    ⟨hE _ hin.doc, fun m hm => hE _ (hin.methods m hm)⟩

end Song.Compiler
