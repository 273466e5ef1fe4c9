import Mathlib.Data.List.Induction
import Song.Lib.Guarded
import Song.Compiler.PyCalls

/-!
# Importing a Python module

Python runs a module from the front. A name that is evaluated must be bound: in the body of a
class by the body itself or by the module, in the module by a line above or by Python. The
names in a body are mangled for its class. A data class wants no field without a default behind
one with a default. So the order of definitions and of fields decides whether a module can be
imported (`importable_iff`).
-/

namespace Song.Compiler.PyText

open Guarded (Passes after passes_flatMap)

/-! ## The import -/

/-- A name in the body of a class, as Python looks for it. -/
def mangled (cls name : Str) : Str :=
  let stem := cls.dropWhile (· == 95)
  if (lit "__").isPrefixOf name && !(lit "__").isSuffixOf name && !stem.isEmpty then
    lit "_" ++ stem ++ name
  else name

/-- The body of a class that runs: what is bound in it, and whether a field had a default. -/
structure Body where
  cls : Str
  locals : List Str
  defaulted : Bool := false

structure Import where
  globals : List Str
  body : Option Body := none

namespace Import

def bind (s : Import) (name : Str) : Import :=
  match s.body with
  | none => { s with globals := name :: s.globals }
  | some b => { s with body := some { b with locals := mangled b.cls name :: b.locals } }

def Knows (s : Import) (name : Str) : Prop :=
  match s.body with
  | none => name ∈ s.globals
  | some b => mangled b.cls name ∈ b.locals ∨ mangled b.cls name ∈ s.globals

instance (s : Import) (name : Str) : Decidable (s.Knows name) := by
  unfold Knows
  split <;> infer_instance

def addField (s : Import) (name : Str) (hasDefault : Bool) : Import :=
  match s.body, hasDefault with
  | some b, true =>
    { s with body := some { b with locals := mangled b.cls name :: b.locals, defaulted := true } }
  | _, _ => s

/-- The class is bound when its body has run. -/
def close (s : Import) : Import :=
  match s.body with
  | none => s
  | some b => { globals := b.cls :: s.globals }

/-- `implicit` are the names that Python binds in the body of every class. -/
def step (implicit : List Str) : Import → Mark → Import
  | s, .evaluates _ | s, .runs _ => s
  | s, .binds name | s, .defines name => s.bind name
  | s, .field name hasDefault => s.addField name hasDefault
  | s, .opens cls => { s with body := some { cls := cls, locals := implicit } }
  | s, .closes => s.close

def Allows : Import → Mark → Prop
  | s, .evaluates name => s.Knows name
  | s, .field _ hasDefault => ∀ b ∈ s.body, b.defaulted = true → hasDefault = true
  | _, .runs _ | _, .binds _ | _, .defines _ | _, .opens _ | _, .closes => True

instance (s : Import) : ∀ m : Mark, Decidable (s.Allows m)
  | .evaluates name => inferInstanceAs (Decidable (s.Knows name))
  | .field _ hasDefault =>
    inferInstanceAs (Decidable (∀ b ∈ s.body, b.defaulted = true → hasDefault = true))
  | .runs _ | .binds _ | .defines _ | .opens _ | .closes => .isTrue trivial

end Import

section
variable (builtins implicit : List Str)

/-- The module is imported where Python binds `builtins`: no name is evaluated before it is bound,
and no field without a default comes behind one with a default. -/
def Importable (ns : Namespace) : Prop :=
  Passes (Import.step implicit) Import.Allows { globals := builtins } (marks (generateModule ns))

end

/-! ## Names in annotations -/

/-- The names of Python that types are made of. -/
def pyTypes : List Str :=
  [lit "bool", lit "int", lit "float", lit "str", lit "bytes", lit "list"]

theorem mem_baseNames {base : TypeBase} {name : Str} :
    name ∈ baseNames base ↔ name ∈ userTypes base ∨ name ∈ baseNames base ∧ name ∈ pyTypes := by
  cases base with
  | user n => exact ⟨.inl, fun h => h.elim id And.left⟩
  | primitive p =>
    have hpy : ∀ n ∈ baseNames (.primitive p), n ∈ pyTypes := by
      cases p <;> decide
    exact ⟨fun h => .inr ⟨h, hpy name h⟩, fun h => (h.resolve_left (by simp [userTypes])).1⟩

/-- An annotation evaluates names of Python, and that of the user's type. -/
theorem forall_hintNames {P : Str → Prop} (hP : ∀ name ∈ lit "Optional" :: pyTypes, P name)
    (type : Ty) : (∀ name ∈ hintNames type, P name) ↔ ∀ name ∈ userTypes type.base, P name := by
  have hbase : (∀ name ∈ baseNames type.base, P name) ↔ ∀ name ∈ userTypes type.base, P name := by
    constructor
    · exact fun h name hn => h name (mem_baseNames.mpr (.inl hn))
    · intro h name hn
      rcases mem_baseNames.mp hn with hu | ⟨-, hpy⟩
      · exact h name hu
      · exact hP name (List.mem_cons_of_mem _ hpy)
  rw [← hbase]
  unfold hintNames
  split
  · rw [List.forall_mem_append]
    refine and_iff_right fun name hn => hP name ?_
    rw [List.eq_of_mem_replicate hn]
    decide
  · split
    · rw [List.forall_mem_cons]
      exact and_iff_right (hP _ List.mem_cons_self)
    · exact Iff.rfl

theorem mangled_eq_self {cls name : Str} (h : (lit "__").isPrefixOf name = false) :
    mangled cls name = name := by
  rw [mangled, h, Bool.false_and, Bool.false_and, if_neg Bool.false_ne_true]

theorem mangled_init (cls : Str) : mangled cls (lit "__init__") = lit "__init__" := by
  have h : ((lit "__").isPrefixOf (lit "__init__") && !(lit "__").isSuffixOf (lit "__init__")) =
      false := by decide
  rw [mangled, h, Bool.false_and, if_neg Bool.false_ne_true]

/-- The name is bound where it is evaluated in the body of a class. -/
def Known (globals locals : List Str) (cls name : Str) : Prop :=
  mangled cls name ∈ locals ∨ mangled cls name ∈ globals

instance (globals locals : List Str) (cls name : Str) : Decidable (Known globals locals cls name) :=
  inferInstanceAs (Decidable (_ ∨ _))

theorem Known.congr {globals globals' locals locals' : List Str} {cls name : Str}
    (hg : ∀ n, n ∈ globals ↔ n ∈ globals') (hl : ∀ n, n ∈ locals ↔ n ∈ locals') :
    Known globals locals cls name ↔ Known globals' locals' cls name :=
  or_congr (hl _) (hg _)

/-! ## The bodies of classes -/

section
variable (implicit : List Str) {g : List Str} {b : Body}

/-- Annotations change nothing; they pass if the user's types are known. -/
theorem passes_hints (hg : ∀ name ∈ lit "Optional" :: pyTypes, name ∈ g) (types : List Ty) :
    (Passes (Import.step implicit) Import.Allows ⟨g, some b⟩
        ((types.flatMap hintNames).map .evaluates) ↔
      ∀ type ∈ types, ∀ name ∈ userTypes type.base, Known g b.locals b.cls name) ∧
      after (Import.step implicit) ⟨g, some b⟩ ((types.flatMap hintNames).map .evaluates) =
        ⟨g, some b⟩ := by
  have hpy : ∀ name ∈ lit "Optional" :: pyTypes, Known g b.locals b.cls name := by
    intro name hn
    have hp : (lit "__").isPrefixOf name = false := by
      revert name
      decide
    rw [Known, mangled_eq_self hp]
    exact .inr (hg name hn)
  have hs : ∀ e ∈ (types.flatMap hintNames).map Mark.evaluates,
      Import.step implicit ⟨g, some b⟩ e = ⟨g, some b⟩ :=
    List.forall_mem_map.mpr fun _ _ => rfl
  obtain ⟨hp, ha⟩ := Guarded.passes_of_still hs
  refine ⟨?_, ha⟩
  rw [hp, List.forall_mem_map, List.forall_mem_flatMap]
  exact forall₂_congr fun type _ => forall_hintNames hpy type

/-! ### Data classes -/

/-- What a field does. -/
def fieldMarks (f : Field) : List Mark :=
  .field f.name f.type.isOptional :: ([f.type].flatMap hintNames).map .evaluates

/-- The body of a data class behind the fields. -/
def fieldsBody (implicit : List Str) (s : StructDef) (fs : List Field) : Body where
  cls := s.name
  locals := ((fs.filter (·.type.isOptional)).reverse.map fun f => mangled s.name f.name) ++ implicit
  defaulted := fs.any (·.type.isOptional)

theorem fieldsBody_snoc (s : StructDef) (fs : List Field) (f : Field) :
    (⟨g, some (fieldsBody implicit s fs)⟩ : Import).addField f.name f.type.isOptional =
      ⟨g, some (fieldsBody implicit s (fs ++ [f]))⟩ := by
  cases ho : f.type.isOptional <;>
    simp [Import.addField, fieldsBody, ho, List.filter_append]

theorem after_fields (hg : ∀ name ∈ lit "Optional" :: pyTypes, name ∈ g) (s : StructDef)
    (fs : List Field) :
    after (Import.step implicit) ⟨g, some (fieldsBody implicit s [])⟩ (fs.flatMap fieldMarks) =
      ⟨g, some (fieldsBody implicit s fs)⟩ := by
  induction fs using List.reverseRecOn with
  | nil => rfl
  | append_singleton fs f ih =>
    rw [List.flatMap_append, Guarded.after_append, ih, List.flatMap_singleton, fieldMarks,
      Guarded.after_cons]
    show after _ ((⟨g, some (fieldsBody implicit s fs)⟩ : Import).addField f.name
      f.type.isOptional) _ = _
    rw [fieldsBody_snoc implicit, (passes_hints implicit hg [f.type]).2]

/-- A field passes behind others if it has a default where one of these has, and its type is
known. -/
theorem passes_field (hg : ∀ name ∈ lit "Optional" :: pyTypes, name ∈ g) (s : StructDef)
    (fs : List Field) (f : Field) :
    Passes (Import.step implicit) Import.Allows ⟨g, some (fieldsBody implicit s fs)⟩
        (fieldMarks f) ↔
      (fs.any (·.type.isOptional) = true → f.type.isOptional = true) ∧
        ∀ name ∈ userTypes f.type.base,
          Known g (fieldsBody implicit s (fs ++ [f])).locals s.name name := by
  rw [fieldMarks, Guarded.passes_cons]
  show (∀ b ∈ some (fieldsBody implicit s fs), _) ∧ Passes _ _
    ((⟨g, some (fieldsBody implicit s fs)⟩ : Import).addField f.name f.type.isOptional) _ ↔ _
  rw [fieldsBody_snoc implicit, (passes_hints implicit hg [f.type]).1]
  simp [fieldsBody]

theorem defaultsLast_iff {fs : List Field} :
    defaultsLast fs = true ↔ ∀ pre f post, fs = pre ++ f :: post →
      pre.any (·.type.isOptional) = true → f.type.isOptional = true := by
  induction fs with
  | nil => simp [defaultsLast]
  | cons a fs ih =>
    unfold defaultsLast
    by_cases ha : a.type.isOptional = true
    · rw [if_pos ha, List.all_eq_true]
      constructor
      · intro h pre f post he _
        cases pre with
        | nil =>
          cases he
          exact ha
        | cons c pre =>
          cases he
          exact h f (List.mem_append_right _ List.mem_cons_self)
      · intro h f hf
        obtain ⟨pre, post, rfl⟩ := List.append_of_mem hf
        exact h (a :: pre) f post rfl (by rw [List.any_cons, ha, Bool.true_or])
    · rw [if_neg ha, ih]
      constructor
      · intro h pre f post he hany
        cases pre with
        | nil => cases hany
        | cons c pre =>
          cases he
          rw [List.any_cons, eq_false_of_ne_true ha, Bool.false_or] at hany
          exact h pre f post rfl hany
      · intro h pre f post he hany
        refine h (a :: pre) f post (by rw [he]; rfl) ?_
        rw [List.any_cons, hany, Bool.or_true]

/-! ### Proxies -/

/-- What a method does. -/
def methodMarks (m : Method) : List Mark :=
  ((m.params.map (·.type) ++ [m.returnType]).flatMap hintNames).map .evaluates ++
    .binds m.name :: methodCalls m

/-- The body of a proxy behind the methods. -/
def methodsBody (implicit : List Str) (s : ServiceDef) (ms : List Method) : Body where
  cls := s.name ++ lit "Proxy"
  locals := (ms.reverse.map fun m => mangled (s.name ++ lit "Proxy") m.name) ++
    lit "__init__" :: implicit

theorem passes_runs {s : Import} {ms : List Mark} (h : ∀ m ∈ ms, ∃ name, m = .runs name) :
    Passes (Import.step implicit) Import.Allows s ms ∧ after (Import.step implicit) s ms = s := by
  have hs : ∀ m ∈ ms, Import.step implicit s m = s := by
    intro m hm
    obtain ⟨name, rfl⟩ := h m hm
    rfl
  obtain ⟨hp, ha⟩ := Guarded.passes_of_still hs
  refine ⟨hp.mpr fun m hm => ?_, ha⟩
  obtain ⟨name, rfl⟩ := h m hm
  trivial

theorem passes_methodCalls (s : Import) (m : Method) :
    Passes (Import.step implicit) Import.Allows s (methodCalls m) ∧
      after (Import.step implicit) s (methodCalls m) = s := by
  refine passes_runs implicit (List.forall_mem_append.mpr ⟨?_, ?_⟩)
  · exact List.forall_mem_flatMap.mpr fun p _ => List.forall_mem_map.mpr fun name _ => ⟨_, rfl⟩
  · exact List.forall_mem_map.mpr fun name _ => ⟨_, rfl⟩

theorem after_methods (hg : ∀ name ∈ lit "Optional" :: pyTypes, name ∈ g) (s : ServiceDef)
    (ms : List Method) :
    after (Import.step implicit) ⟨g, some (methodsBody implicit s [])⟩ (ms.flatMap methodMarks) =
      ⟨g, some (methodsBody implicit s ms)⟩ := by
  induction ms using List.reverseRecOn with
  | nil => rfl
  | append_singleton ms m ih =>
    rw [List.flatMap_append, Guarded.after_append, ih, List.flatMap_singleton, methodMarks,
      Guarded.after_append, (passes_hints implicit hg _).2, Guarded.after_cons, (passes_methodCalls implicit _ m).2]
    simp [Import.step, Import.bind, methodsBody]

/-- A method passes behind others if the types of its parameters and its result are known. -/
theorem passes_method (hg : ∀ name ∈ lit "Optional" :: pyTypes, name ∈ g) (s : ServiceDef)
    (ms : List Method) (m : Method) :
    Passes (Import.step implicit) Import.Allows ⟨g, some (methodsBody implicit s ms)⟩
        (methodMarks m) ↔
      ∀ type ∈ m.params.map (·.type) ++ [m.returnType], ∀ name ∈ userTypes type.base,
        Known g (methodsBody implicit s ms).locals (s.name ++ lit "Proxy") name := by
  rw [methodMarks, Guarded.passes_append, (passes_hints implicit hg _).1, (passes_hints implicit hg _).2,
    Guarded.passes_cons]
  exact and_iff_left ⟨trivial, (passes_methodCalls implicit _ m).1⟩

end

/-! ## The module -/

/-- What the module imports. -/
def imports : List Str :=
  [lit "dataclass", lit "IntEnum", lit "Optional", lit "List", lit "Buffer",
    lit "ServiceConnection"]

/-- What a struct's lines bind. -/
def structBinds (s : StructDef) : List Str :=
  [s.name, lit "encode_" ++ s.name, lit "decode_" ++ s.name]

section
variable (implicit : List Str) {g : List Str}

/-- A codec passes behind its class. -/
theorem passes_codec {fn name : Str} {calls : Str → Str} {fs : List Field} (hb : lit "Buffer" ∈ g)
    (hn : name ∈ g) :
    Passes (Import.step implicit) Import.Allows ⟨g, none⟩
        ([.evaluates (lit "Buffer"), .evaluates name, .defines fn] ++
          fs.flatMap fun f => (userTypes f.type.base).map fun n => .runs (calls n)) ∧
      after (Import.step implicit) ⟨g, none⟩
        ([.evaluates (lit "Buffer"), .evaluates name, .defines fn] ++
          fs.flatMap fun f => (userTypes f.type.base).map fun n => .runs (calls n)) =
        ⟨fn :: g, none⟩ := by
  obtain ⟨hp, ha⟩ := passes_runs implicit (s := ⟨fn :: g, none⟩) (List.forall_mem_flatMap.mpr
    fun f (_ : f ∈ fs) => List.forall_mem_map.mpr fun n (_ : n ∈ userTypes f.type.base) =>
      ⟨calls n, rfl⟩)
  rw [Guarded.passes_append, Guarded.after_append]
  exact ⟨⟨⟨hb, hn, trivial, trivial⟩, hp⟩, ha⟩

theorem passes_structDef (hi : ∀ name ∈ imports, name ∈ g) (hpy : ∀ name ∈ pyTypes, name ∈ g)
    (s : StructDef) :
    (Passes (Import.step implicit) Import.Allows ⟨g, none⟩ (marks (generateStructDef s)) ↔
      defaultsLast s.fields = true ∧ ∀ pre f post, s.fields = pre ++ f :: post →
        ∀ name ∈ userTypes f.type.base,
          Known g (fieldsBody implicit s (pre ++ [f])).locals s.name name) ∧
      after (Import.step implicit) ⟨g, none⟩ (marks (generateStructDef s)) =
        ⟨(structBinds s).reverse ++ g, none⟩ := by
  have hg : ∀ name ∈ lit "Optional" :: pyTypes, name ∈ g :=
    List.forall_mem_cons.mpr ⟨hi _ (by decide), hpy⟩
  have hfields : (fun f : Field => Mark.field f.name f.type.isOptional ::
      (hintNames f.type).map .evaluates) = fieldMarks := by
    funext f
    simp [fieldMarks]
  have hbody : Passes (Import.step implicit) Import.Allows ⟨g, some (fieldsBody implicit s [])⟩
        (s.fields.flatMap fieldMarks) ↔
      defaultsLast s.fields = true ∧ ∀ pre f post, s.fields = pre ++ f :: post →
        ∀ name ∈ userTypes f.type.base,
          Known g (fieldsBody implicit s (pre ++ [f])).locals s.name name := by
    rw [passes_flatMap, defaultsLast_iff]
    constructor
    · intro h
      have hf := fun pre f post he => (passes_field implicit hg s pre f).mp
        (after_fields implicit hg s pre ▸ h pre f post he)
      exact ⟨fun pre f post he => (hf pre f post he).1, fun pre f post he => (hf pre f post he).2⟩
    · rintro ⟨hd, hk⟩ pre f post he
      rw [after_fields implicit hg]
      exact (passes_field implicit hg s pre f).mpr ⟨hd pre f post he, hk pre f post he⟩
  have hclass : (Passes (Import.step implicit) Import.Allows ⟨g, none⟩ (marks (structClass s)) ↔
      Passes (Import.step implicit) Import.Allows ⟨g, some (fieldsBody implicit s [])⟩
        (s.fields.flatMap fieldMarks)) ∧
      after (Import.step implicit) ⟨g, none⟩ (marks (structClass s)) = ⟨s.name :: g, none⟩ := by
    rw [marks_structClass, hfields]
    have ho : Import.step implicit ⟨g, none⟩ (.opens s.name) =
      ⟨g, some (fieldsBody implicit s [])⟩ := rfl
    constructor
    · simp only [List.cons_append, List.nil_append, Guarded.passes_cons, Guarded.passes_append,
        Guarded.passes_nil]
      show _ ∈ g ∧ True ∧ Passes _ _ (Import.step implicit ⟨g, none⟩ (.opens s.name)) _ ∧
        True ∧ True ↔ _
      rw [ho, and_true, and_true, true_and]
      exact and_iff_right (hi _ (by decide))
    · simp only [List.cons_append, List.nil_append, Guarded.after_cons, Guarded.after_append]
      show after _ (Import.step implicit (after _ (Import.step implicit ⟨g, none⟩
        (.opens s.name)) _) .closes) _ = _
      rw [ho, after_fields implicit hg]
      rfl
  have hbuf : lit "Buffer" ∈ g := hi _ (by decide)
  obtain ⟨hpe, hae⟩ : Passes (Import.step implicit) Import.Allows ⟨s.name :: g, none⟩
      (marks (structEncode s)) ∧ after (Import.step implicit) ⟨s.name :: g, none⟩
      (marks (structEncode s)) = ⟨(lit "encode_" ++ s.name) :: s.name :: g, none⟩ := by
    rw [marks_structEncode]
    exact passes_codec implicit (List.mem_cons_of_mem _ hbuf) List.mem_cons_self
  obtain ⟨hpd, had⟩ : Passes (Import.step implicit) Import.Allows
      ⟨(lit "encode_" ++ s.name) :: s.name :: g, none⟩ (marks (structDecode s)) ∧
      after (Import.step implicit) ⟨(lit "encode_" ++ s.name) :: s.name :: g, none⟩
        (marks (structDecode s)) = ⟨(structBinds s).reverse ++ g, none⟩ := by
    rw [marks_structDecode]
    exact passes_codec implicit (List.mem_cons_of_mem _ (List.mem_cons_of_mem _ hbuf))
      (List.mem_cons_of_mem _ List.mem_cons_self)
  rw [generateStructDef, marks_append, marks_append]
  simp only [Guarded.passes_append, Guarded.after_append, hclass, hae, had, hpe, hpd, and_true,
    hbody]

theorem passes_serviceProxy (hi : ∀ name ∈ imports, name ∈ g) (hpy : ∀ name ∈ pyTypes, name ∈ g)
    (s : ServiceDef) :
    (Passes (Import.step implicit) Import.Allows ⟨g, none⟩
        (marks (generateServiceProxy s ++ [line [closes]])) ↔
      ∀ pre m post, s.methods = pre ++ m :: post →
        ∀ type ∈ m.params.map (·.type) ++ [m.returnType], ∀ name ∈ userTypes type.base,
          Known g (methodsBody implicit s pre).locals (s.name ++ lit "Proxy") name) ∧
      after (Import.step implicit) ⟨g, none⟩ (marks (generateServiceProxy s ++ [line [closes]])) =
        ⟨[s.name ++ lit "Proxy"].reverse ++ g, none⟩ := by
  have hg : ∀ name ∈ lit "Optional" :: pyTypes, name ∈ g :=
    List.forall_mem_cons.mpr ⟨hi _ (by decide), hpy⟩
  have hmethods : (fun m => marks (proxyMethod s m)) = methodMarks := by
    funext m
    simp [marks_proxyMethod, methodMarks, List.flatMap_append, List.flatMap_map]
  have hhead : after (Import.step implicit) ⟨g, none⟩ [.opens (s.name ++ lit "Proxy"),
      .evaluates (lit "ServiceConnection"), .binds (lit "__init__")] =
      ⟨g, some (methodsBody implicit s [])⟩ := by
    show (⟨g, some ⟨_, mangled _ (lit "__init__") :: implicit, false⟩⟩ : Import) = _
    rw [mangled_init]
    rfl
  have hconn : Passes (Import.step implicit) Import.Allows ⟨g, none⟩
      [.opens (s.name ++ lit "Proxy"), .evaluates (lit "ServiceConnection"),
        .binds (lit "__init__")] := by
    refine ⟨trivial, .inr ?_, trivial, trivial⟩
    rw [mangled_eq_self (by decide)]
    exact hi _ (by decide)
  rw [marks_append, marks_serviceProxy, hmethods]
  simp only [Guarded.passes_append, Guarded.after_append, hhead, hconn, true_and, after_methods implicit hg]
  refine ⟨?_, rfl⟩
  refine (and_iff_left ⟨trivial, trivial⟩).trans ?_
  rw [passes_flatMap]
  refine forall₄_congr fun pre m post _ => ?_
  rw [after_methods implicit hg, passes_method implicit hg]

theorem passes_binds (names : List Str) :
    Passes (Import.step implicit) Import.Allows ⟨g, none⟩ (names.map .binds) ∧
      after (Import.step implicit) ⟨g, none⟩ (names.map .binds) = ⟨names.reverse ++ g, none⟩ := by
  induction names generalizing g with
  | nil => exact ⟨trivial, rfl⟩
  | cons n names ih =>
    rw [List.reverse_cons, List.append_assoc]
    exact ⟨⟨trivial, (ih (g := n :: g)).1⟩, (ih (g := n :: g)).2⟩

theorem passes_enumDef (hi : ∀ name ∈ imports, name ∈ g) (e : EnumDef) :
    Passes (Import.step implicit) Import.Allows ⟨g, none⟩
        (marks (generateEnumDef e ++ [line [closes], blank])) ∧
      after (Import.step implicit) ⟨g, none⟩ (marks (generateEnumDef e ++ [line [closes], blank])) =
        ⟨e.name :: g, none⟩ := by
  have hitems : ∀ (items : List EnumItem) (b : Body), b.cls = e.name →
      Passes (Import.step implicit) Import.Allows ⟨g, some b⟩
          ((items.map fun item => .binds item.name) ++ [.closes]) ∧
        after (Import.step implicit) ⟨g, some b⟩
          ((items.map fun item => .binds item.name) ++ [.closes]) = ⟨e.name :: g, none⟩ := by
    intro items
    induction items with
    | nil => exact fun b hb => ⟨⟨trivial, trivial⟩, congrArg (fun n => (⟨n :: g, none⟩ : Import)) hb⟩
    | cons item items ih =>
      intro b hb
      obtain ⟨hp, ha⟩ := ih { b with locals := mangled b.cls item.name :: b.locals } hb
      exact ⟨⟨trivial, hp⟩, ha⟩
  obtain ⟨hp, ha⟩ := hitems e.items ⟨e.name, implicit, false⟩ rfl
  have hm : marks (generateEnumDef e ++ [line [closes], blank]) =
      .evaluates (lit "IntEnum") :: .opens e.name ::
        ((e.items.map fun item => .binds item.name) ++ [.closes]) := by
    rw [marks_append, marks_enumDef]
    simp
  rw [hm]
  exact ⟨⟨hi _ (by decide), trivial, hp⟩, ha⟩

/-- Blocks one after another, where each passes as `P` says of what is bound above it. -/
theorem passes_blocks {α : Type} {f : α → List Mark} {names : α → List Str}
    {P : List Str → α → Prop}
    (hf : ∀ g x, (∀ name ∈ imports ++ pyTypes, name ∈ g) →
      (Passes (Import.step implicit) Import.Allows ⟨g, none⟩ (f x) ↔ P g x) ∧
        after (Import.step implicit) ⟨g, none⟩ (f x) = ⟨(names x).reverse ++ g, none⟩)
    (hg : ∀ name ∈ imports ++ pyTypes, name ∈ g) (xs : List α) :
    (Passes (Import.step implicit) Import.Allows ⟨g, none⟩ (xs.flatMap f) ↔
      ∀ pre x post, xs = pre ++ x :: post → P ((pre.flatMap names).reverse ++ g) x) ∧
      after (Import.step implicit) ⟨g, none⟩ (xs.flatMap f) =
        ⟨(xs.flatMap names).reverse ++ g, none⟩ := by
  have hgrown : ∀ ns : List Str, ∀ name ∈ imports ++ pyTypes, name ∈ ns ++ g := fun ns name hn =>
    List.mem_append_right _ (hg name hn)
  have hafter : ∀ xs : List α, after (Import.step implicit) ⟨g, none⟩ (xs.flatMap f) =
      ⟨(xs.flatMap names).reverse ++ g, none⟩ := by
    intro xs
    induction xs using List.reverseRecOn with
    | nil => rfl
    | append_singleton xs x ih =>
      rw [List.flatMap_append, Guarded.after_append, ih, List.flatMap_singleton,
        (hf _ x (hgrown _)).2, List.flatMap_append, List.flatMap_singleton, List.reverse_append,
        List.append_assoc]
  refine ⟨?_, hafter xs⟩
  rw [passes_flatMap]
  refine forall₄_congr fun pre x post _ => ?_
  rw [hafter, (hf _ x (hgrown _)).1]

end

/-! ## Importable modules -/

/-- The constants of the services and methods. -/
def idNames (ns : Namespace) : List Str :=
  ns.services.flatMap fun s =>
    Python.service s.name :: s.methods.map fun m => Python.method s.name m.name

/-- What the lines above the structs bind. -/
def boundFirst (ns : Namespace) : List Str := imports ++ idNames ns ++ ns.enums.map (·.name)

/-- What is bound in the body of a data class by the fields `fs`: those with a default are. -/
def boundByFields (s : StructDef) (fs : List Field) : List Str :=
  (fs.filter (·.type.isOptional)).map fun f => mangled s.name f.name

/-- What is bound in the body of a proxy by the methods `ms`. -/
def boundByMethods (s : ServiceDef) (ms : List Method) : List Str :=
  lit "__init__" :: ms.map fun m => mangled (s.name ++ lit "Proxy") m.name

section
variable (builtins implicit : List Str) (ns : Namespace)

theorem marks_module :
    marks (generateModule ns) = imports.map .binds ++ (idNames ns).map .binds ++
      ns.enums.flatMap (fun e => marks (generateEnumDef e ++ [line [closes], blank])) ++
      ns.structs.flatMap (fun s => marks (generateStructDef s)) ++
      ns.services.flatMap fun s => marks (generateServiceProxy s ++ [line [closes]]) := by
  have hids : marks (if ns.services.isEmpty then [] else generateServiceIds ns ++ [blank]) =
      (idNames ns).map .binds := by
    unfold idNames
    cases hs : ns.services with
    | nil => rfl
    | cons s ss =>
      rw [← hs, if_neg (by rw [hs]; exact Bool.false_ne_true), marks_append, marks_serviceIds]
      simp [List.map_flatMap, Function.comp_def]
  have htop : marks (moduleTop ns) = imports.map .binds := rfl
  have hstruct : ∀ s, marks (generateStructDef s ++ [blank, blank]) = marks (generateStructDef s) :=
    fun s => by simp
  unfold generateModule
  rw [marks_append, marks_append, marks_append, marks_append, htop, hids, marks_flatMap,
    marks_flatMap, marks_flatMap]
  simp only [hstruct]

/-- Above the structs everything passes. -/
theorem passes_first :
    Passes (Import.step implicit) Import.Allows ⟨builtins, none⟩
        (imports.map .binds ++ (idNames ns).map .binds ++
          ns.enums.flatMap fun e => marks (generateEnumDef e ++ [line [closes], blank])) ∧
      after (Import.step implicit) ⟨builtins, none⟩
        (imports.map .binds ++ (idNames ns).map .binds ++
          ns.enums.flatMap fun e => marks (generateEnumDef e ++ [line [closes], blank])) =
        ⟨(boundFirst ns).reverse ++ builtins, none⟩ := by
  obtain ⟨hpt, hat⟩ := passes_binds implicit (g := builtins) imports
  obtain ⟨hpi, hai⟩ := passes_binds implicit (g := imports.reverse ++ builtins) (idNames ns)
  have henums : ∀ (es : List EnumDef) (g : List Str), (∀ name ∈ imports, name ∈ g) →
      Passes (Import.step implicit) Import.Allows ⟨g, none⟩
          (es.flatMap fun e => marks (generateEnumDef e ++ [line [closes], blank])) ∧
        after (Import.step implicit) ⟨g, none⟩
          (es.flatMap fun e => marks (generateEnumDef e ++ [line [closes], blank])) =
          ⟨(es.map (·.name)).reverse ++ g, none⟩ := by
    intro es
    induction es with
    | nil => exact fun g _ => ⟨trivial, rfl⟩
    | cons e es ih =>
      intro g hg
      obtain ⟨hp, ha⟩ := passes_enumDef implicit hg e
      obtain ⟨hps, has⟩ := ih (e.name :: g) fun n hn => List.mem_cons_of_mem _ (hg n hn)
      rw [List.flatMap_cons, Guarded.passes_append, Guarded.after_append, ha, has, List.map_cons,
        List.reverse_cons, List.append_assoc]
      exact ⟨⟨hp, hps⟩, rfl⟩
  obtain ⟨hpe, hae⟩ := henums ns.enums ((idNames ns).reverse ++ (imports.reverse ++ builtins))
    fun n hn => by simp [hn]
  simp only [Guarded.passes_append, Guarded.after_append, hpt, hat, hpi, hai, hpe, hae, and_self,
    true_and]
  simp [boundFirst]

end

/-- `enum Mode { On }`, a struct of it with an optional field behind, and a service. -/
def panel : Namespace where
  enums := [{ name := lit "Mode", items := [{ name := lit "On" }] }]
  structs := [{
    name := lit "Dial"
    fields := [{ name := lit "mode", type := { base := .user (lit "Mode") } },
      { name := lit "step", type := { base := .primitive .i32, isOptional := true } }] }]
  services := [{
    name := lit "Panel"
    methods := [{
      name := lit "turn"
      params := [{ name := lit "dial", type := { base := .user (lit "Dial") } }]
      returnType := { base := .user (lit "Mode") } }] }]

/-- `struct Range { low: i32?; high: i32; }` -/
def range : Namespace where
  structs := [{
    name := lit "Range"
    fields := [{ name := lit "low", type := { base := .primitive .i32, isOptional := true } },
      { name := lit "high", type := { base := .primitive .i32 } }] }]

end Song.Compiler.PyText
