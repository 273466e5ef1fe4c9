import Song.Compiler.PyText
import Song.Compiler.PythonCodec

/-!
# The codecs that a Python module calls

`marks` reads the lines of a module as what they evaluate, bind and call. A call for a type
names at most one codec, that of the user's type in it (`marks_encode`, `marks_decode`), and
the module defines the codecs of its structs. So the module defines what it calls where the
fields, parameters and results are of its structs, under the name that the generator writes
there (`codecsDefined_iff`).
-/

namespace Song.Compiler.PyText

open Supply (Closed given wanted given_append wanted_append given_flatMap wanted_flatMap)

/-! ## Reading marks -/

def Code.marks (code : Code) : List Mark := code.flatMap Piece.marks

def Line.marks : Line → List Mark
  | .code c => c.marks
  | .docstring _ _ => []

def marks (lines : List Line) : List Mark := lines.flatMap Line.marks

section
variable {code code' : Code} {l : Line} {lines lines' : List Line}

@[simp] theorem Code.marks_nil : Code.marks [] = [] := rfl

@[simp] theorem Code.marks_append : Code.marks (code ++ code') = code.marks ++ code'.marks :=
  List.flatMap_append

@[simp] theorem Code.marks_t (s : String) : Code.marks (t s :: code) = code.marks := rfl

@[simp] theorem Code.marks_raw (s : Str) : Code.marks (raw s :: code) = code.marks := rfl

@[simp] theorem Code.marks_use (who : Option Nat) (n : Str) :
    Code.marks (.use who n :: code) = code.marks := rfl

@[simp] theorem Code.marks_bind (who : Option Nat) (n : Str) :
    Code.marks (.bind who n :: code) = code.marks := rfl

@[simp] theorem Code.marks_var (n : String) : Code.marks (.var n :: code) = code.marks := rfl

@[simp] theorem Code.marks_own (n : String) : Code.marks (.own n :: code) = code.marks := rfl

@[simp] theorem Code.marks_named (n : Str) : Code.marks (named n :: code) = code.marks := rfl

@[simp] theorem Code.marks_enter : Code.marks (.enter :: code) = code.marks := rfl

@[simp] theorem Code.marks_leave : Code.marks (.leave :: code) = code.marks := rfl

@[simp] theorem Code.marks_runs (n : Str) :
    Code.marks (runs n :: code) = .runs n :: code.marks := rfl

@[simp] theorem Code.marks_evaluates (n : Str) :
    Code.marks (evaluates n :: code) = .evaluates n :: code.marks := rfl

@[simp] theorem Code.marks_binds (n : Str) :
    Code.marks (binds n :: code) = .binds n :: code.marks := rfl

@[simp] theorem Code.marks_defines (n : Str) :
    Code.marks (defines n :: code) = .defines n :: code.marks := rfl

@[simp] theorem Code.marks_field (n : Str) (hasDefault : Bool) :
    Code.marks (field n hasDefault :: code) = .field n hasDefault :: code.marks := rfl

@[simp] theorem Code.marks_opens (n : Str) :
    Code.marks (opens n :: code) = .opens n :: code.marks := rfl

@[simp] theorem Code.marks_closes : Code.marks (closes :: code) = .closes :: code.marks := rfl

@[simp] theorem marks_line : (line code).marks = code.marks := rfl

@[simp] theorem marks_blank : blank.marks = [] := rfl

@[simp] theorem marks_docstringLine (indent doc : Str) : (Line.docstring indent doc).marks = [] := rfl

@[simp] theorem marks_nil : marks [] = [] := rfl

@[simp] theorem marks_cons : marks (l :: lines) = l.marks ++ marks lines := rfl

@[simp] theorem marks_append : marks (lines ++ lines') = marks lines ++ marks lines' :=
  List.flatMap_append

@[simp] theorem marks_docstring (indent : String) (doc : Str) : marks (docstring indent doc) = [] := by
  unfold docstring
  split <;> rfl

@[simp] theorem marks_flatMap {α : Type} (f : α → List Line) (xs : List α) :
    marks (xs.flatMap f) = xs.flatMap fun x => marks (f x) := List.flatMap_assoc

@[simp] theorem marks_map {α : Type} (f : α → Line) (xs : List α) :
    marks (xs.map f) = xs.flatMap fun x => (f x).marks := by
  rw [marks, List.flatMap_map]

end

/-! ## Calls -/

/-- The user's type that a type is made of. -/
def userTypes : TypeBase → List Str
  | .primitive _ => []
  | .user name => [name]

/-- The user's type whose codec a call names. -/
def callTypes : PyCall → List Str
  | .base b | .optional b => userTypes b
  | .helper _ => []
  | .loop elem => callTypes elem

theorem callTypes_pyEncodeDims (base : TypeBase) (o : Bool) (n : Nat) :
    callTypes (pyEncodeDims base o n) = userTypes base := by
  induction n with
  | zero => cases o <;> rfl
  | succ n ih =>
    cases n with
    | zero =>
      cases base with
      | primitive p => cases p <;> cases o <;> rfl
      | user name => rfl
    | succ n => exact ih

section
variable {buf : Piece Mark} {expr code : Code}

theorem Code.marks_quiet (hb : Code.marks [buf] = []) : Code.marks (buf :: code) = code.marks := by
  rw [← List.singleton_append, marks_append, hb, List.nil_append]

theorem marks_encodeBase {b : TypeBase} (hb : Code.marks [buf] = []) (he : expr.marks = []) :
    (encodeBase buf expr b).marks = (userTypes b).map fun name => .runs (lit "encode_" ++ name) := by
  cases b with
  | primitive p => cases p <;> simp [encodeBase, Code.marks_quiet hb, he, userTypes]
  | user name => simp [encodeBase, Code.marks_quiet hb, he, userTypes]

theorem marks_callEncode {indent : Str} {call : PyCall} (hb : Code.marks [buf] = [])
    (he : expr.marks = []) :
    (callEncode buf indent expr call).marks =
      (callTypes call).map fun name => .runs (lit "encode_" ++ name) := by
  induction call generalizing indent expr with
  | base b => exact marks_encodeBase hb he
  | optional b =>
    have hv : (encodeBase buf [.var "v"] b).marks = _ := marks_encodeBase hb rfl
    simp [callEncode, Code.marks_quiet hb, he, hv, callTypes]
  | helper p => simp [callEncode, Code.marks_quiet hb, he, callTypes]
  | loop elem ih =>
    have hi := @ih [.var "_item"] (indent ++ lit "    ") rfl
    simp [callEncode, Code.marks_quiet hb, he, hi, callTypes]

theorem marks_decodeBase {b : TypeBase} (hb : Code.marks [buf] = []) :
    (decodeBase buf b).marks = (userTypes b).map fun name => .runs (lit "decode_" ++ name) := by
  cases b with
  | primitive p => cases p <;> simp [decodeBase, Code.marks_quiet hb, userTypes]
  | user name => simp [decodeBase, Code.marks_quiet hb, userTypes]

theorem marks_callDecode {call : PyCall} (hb : Code.marks [buf] = []) :
    (callDecode buf call).marks =
      (callTypes call).map fun name => .runs (lit "decode_" ++ name) := by
  induction call with
  | base b => exact marks_decodeBase hb
  | optional b => simp [callDecode, Code.marks_quiet hb, marks_decodeBase hb, callTypes]
  | helper p => simp [callDecode, Code.marks_quiet hb, callTypes]
  | loop elem ih => simp [callDecode, Code.marks_quiet hb, ih, callTypes]

theorem marks_encode {type : Ty} {indent : String} (hb : Code.marks [buf] = [])
    (he : expr.marks = []) :
    (encode type expr buf indent).marks =
      (userTypes type.base).map fun name => .runs (lit "encode_" ++ name) := by
  rw [encode, marks_callEncode hb he, pyEncodeCall, callTypes_pyEncodeDims]

theorem marks_decode {type : Ty} (hb : Code.marks [buf] = []) :
    (decode type buf).marks =
      (userTypes type.base).map fun name => .runs (lit "decode_" ++ name) := by
  rw [decode, marks_callDecode hb, pyDecodeCall_eq, pyEncodeCall, callTypes_pyEncodeDims]

end

/-! ## Calls in a struct's codec -/

/-- What the generator makes of a mark in the body of a struct's codec. -/
def Mark.replace (old new : Str) : Mark → Mark
  | runs name => runs (replaceAll old new 0 name)
  | m => m

theorem Code.marks_replace (old new : Str) (code : Code) :
    (code.replace old new).marks = code.marks.map (Mark.replace old new) := by
  induction code with
  | nil => rfl
  | cons p code ih =>
    cases p with
    | mark m => cases m <;> exact congrArg _ ih
    | _ => exact ih

/-- No occurrence begins in a text without the first character of what is looked for. -/
theorem replaceAll_append {c : UInt8} {old new : Str} (s s' : Str) (h : c ∉ s) :
    replaceAll (c :: old) new 0 (s ++ s') = s ++ replaceAll (c :: old) new 0 s' := by
  induction s with
  | nil => rfl
  | cons d s ih =>
    rw [List.mem_cons, not_or] at h
    have hp : (c :: old).isPrefixOf (d :: (s ++ s')) = false := by
      simp [List.isPrefixOf, h.1]
    rw [List.cons_append, replaceAll, hp, if_neg Bool.false_ne_true, ih h.2, List.cons_append]

theorem replaceAll_encode (name : Str) :
    replaceAll (lit "req") (lit "buf") 0 (lit "encode_" ++ name) = lit "encode_" ++ inEncoder name :=
  replaceAll_append _ _ (by decide)

theorem replaceAll_decode (name : Str) :
    replaceAll (lit "resp") (lit "buf") 0 (lit "decode_" ++ name) = lit "decode_" ++ inDecoder name :=
  replaceAll_append _ _ (by decide)

/-! ## Types -/

/-- The names of Python and of the user in the annotation of a type, without an array or an
optional. -/
def baseNames : TypeBase → List Str
  | .primitive .bool => [lit "bool"]
  | .primitive .f32 | .primitive .f64 => [lit "float"]
  | .primitive .string => [lit "str"]
  | .primitive .bytes => [lit "bytes"]
  | .primitive .void => []
  | .primitive _ => [lit "int"]
  | .user name => [name]

/-- The names that the annotation of a type evaluates. -/
def hintNames (type : Ty) : List Str :=
  if type.isArray then List.replicate type.dims.toNat (lit "list") ++ baseNames type.base
  else if type.isOptional then lit "Optional" :: baseNames type.base
  else baseNames type.base

theorem marks_brackets (n : Nat) :
    Code.marks (List.replicate n [evaluates (lit "list"), t "["]).flatten =
      List.replicate n (.evaluates (lit "list")) := by
  induction n with
  | zero => rfl
  | succ n ih => simp [List.replicate_succ, ih]

theorem marks_replicate_t (n : Nat) (s : String) : Code.marks (List.replicate n (t s)) = [] := by
  induction n with
  | zero => rfl
  | succ n ih => rw [List.replicate_succ, Code.marks_t, ih]

theorem marks_typeToTypeHint (type : Ty) :
    (typeToTypeHint type).marks = (hintNames type).map .evaluates := by
  have hbase : (baseToPython type.base).marks = (baseNames type.base).map .evaluates := by
    cases type.base with
    | primitive p => cases p <;> rfl
    | user name => rfl
  unfold typeToTypeHint typeToPython hintNames
  by_cases ha : type.isArray = true
  · simp only [ha, ↓reduceIte, Code.marks_append, marks_brackets, hbase, marks_replicate_t,
      List.append_nil, List.map_append, List.map_replicate]
  · rw [if_neg ha, if_neg ha]
    by_cases ho : type.isOptional = true
    · simp only [ho, ↓reduceIte, Code.marks_append, Code.marks_evaluates, Code.marks_t,
        Code.marks_nil, hbase, List.append_nil, List.map_cons, List.singleton_append]
    · rw [if_neg ho, if_neg ho, hbase]

/-! ## The marks of a module -/

theorem marks_fieldLine (f : Field) :
    (fieldLine f).marks =
      .field f.name f.type.isOptional :: (hintNames f.type).map .evaluates := by
  unfold fieldLine
  cases f.type.isOptional <;> simp [marks_typeToTypeHint]

theorem marks_structClass (s : StructDef) :
    marks (structClass s) = [.evaluates (lit "dataclass"), .opens s.name] ++
      (s.fields.flatMap fun f =>
        .field f.name f.type.isOptional :: (hintNames f.type).map .evaluates) ++ [.closes] := by
  unfold structClass
  cases hf : s.fields <;> simp [marks_fieldLine]

theorem marks_structEncode (s : StructDef) :
    marks (structEncode s) = [.evaluates (lit "Buffer"), .evaluates s.name,
        .defines (lit "encode_" ++ s.name)] ++
      s.fields.flatMap fun f =>
        (userTypes f.type.base).map fun name => .runs (lit "encode_" ++ inEncoder name) := by
  have hcall : ∀ f : Field, (Code.replace (lit "req") (lit "buf")
      (encode f.type [t "val.", raw f.name] (t "req") "    ")).marks =
      (userTypes f.type.base).map fun name => .runs (lit "encode_" ++ inEncoder name) := by
    intro f
    rw [Code.marks_replace, marks_encode rfl rfl, List.map_map]
    exact List.map_congr_left fun name _ => congrArg Mark.runs (replaceAll_encode name)
  unfold structEncode
  simp [hcall]

theorem marks_structDecode (s : StructDef) :
    marks (structDecode s) = [.evaluates (lit "Buffer"), .evaluates s.name,
        .defines (lit "decode_" ++ s.name)] ++
      s.fields.flatMap fun f =>
        (userTypes f.type.base).map fun name => .runs (lit "decode_" ++ inDecoder name) := by
  have hcall : ∀ f : Field, (Code.replace (lit "resp") (lit "buf")
      (decode f.type (t "resp"))).marks =
      (userTypes f.type.base).map fun name => .runs (lit "decode_" ++ inDecoder name) := by
    intro f
    rw [Code.marks_replace, marks_decode rfl, List.map_map]
    exact List.map_congr_left fun name _ => congrArg Mark.runs (replaceAll_decode name)
  have hfield : ∀ last (x : Field × Nat), (decodeField last x.1 x.2).marks =
      (userTypes x.1.type.base).map fun name => .runs (lit "decode_" ++ inDecoder name) := by
    intro last x
    unfold decodeField
    split <;> simp [hcall]
  have hfields : marks (s.fields.zipIdx.map fun x => decodeField (s.fields.length - 1) x.1 x.2) =
      s.fields.flatMap fun f =>
        (userTypes f.type.base).map fun name => .runs (lit "decode_" ++ inDecoder name) := by
    rw [marks_map]
    exact List.flatMap_zipIdx_of_fst (hfield _) _ _
  unfold structDecode
  simp [-marks_map, hfields]

theorem marks_enumItems (next : Int64) (items : List EnumItem) :
    marks (enumItems next items) = items.map fun item => .binds item.name := by
  induction items generalizing next with
  | nil => rfl
  | cons item items ih => simp [enumItems, ih]

theorem marks_enumDef (e : EnumDef) :
    marks (generateEnumDef e) = [.evaluates (lit "IntEnum"), .opens e.name] ++
      e.items.map fun item => .binds item.name := by
  simp [generateEnumDef, marks_enumItems]

theorem marks_idLine (name : Str) (value : Nat) : (idLine name value).marks = [.binds name] := rfl

theorem marks_serviceIds (ns : Namespace) :
    marks (generateServiceIds ns) = ns.services.flatMap fun s =>
      .binds (Python.service s.name) :: s.methods.map fun m =>
        .binds (Python.method s.name m.name) := by
  have hblock : ∀ x : ServiceDef × Nat, marks
      (idLine (Python.service x.1.name) (x.2 % 65536) ::
        (x.1.methods.zipIdx 1).map (fun m =>
          idLine (Python.method x.1.name m.1.name) (m.2 % 65536)) ++ [blank]) =
      .binds (Python.service x.1.name) :: x.1.methods.map fun m =>
        .binds (Python.method x.1.name m.name) := by
    intro x
    have hm := List.flatMap_zipIdx_fst
      (fun m : Method => [Mark.binds (Python.method x.1.name m.name)]) x.1.methods 1
    simp only [List.cons_append, marks_cons, marks_append, marks_map, marks_idLine, hm, marks_blank,
      marks_nil, List.append_nil, ← List.map_eq_flatMap, List.nil_append]
  rw [generateServiceIds, marks_cons, marks_flatMap]
  exact List.flatMap_zipIdx_of_fst hblock _ _

theorem marks_methodParams (params : List Param) :
    (generateMethodParams params).marks = params.flatMap fun p =>
      (hintNames p.type).map .evaluates := by
  have hparam : ∀ x : Param × Nat,
      Code.marks ([t ", ", .bind (some x.2) x.1.name, t ": "] ++ typeToTypeHint x.1.type) =
        (hintNames x.1.type).map .evaluates := by
    intro x
    simp [marks_typeToTypeHint]
  rw [generateMethodParams, Code.marks, List.flatMap_assoc]
  exact List.flatMap_zipIdx_of_fst hparam _ _

/-- What a method calls. -/
def methodCalls (m : Method) : List Mark :=
  (m.params.flatMap fun p => (userTypes p.type.base).map fun name => .runs (lit "encode_" ++ name)) ++
    (userTypes m.returnType.base).map fun name => .runs (lit "decode_" ++ name)

theorem marks_proxyMethod (s : ServiceDef) (m : Method) :
    marks (proxyMethod s m) =
      ((m.params.flatMap fun p => hintNames p.type) ++ hintNames m.returnType).map .evaluates ++
        .binds m.name :: methodCalls m := by
  have hparams : marks (m.params.zipIdx.map fun x => line ([t "        "] ++
      encode x.1.type [.use (some x.2) x.1.name] (.var "req") "        ")) =
      m.params.flatMap fun p =>
        (userTypes p.type.base).map fun name => .runs (lit "encode_" ++ name) := by
    rw [marks_map]
    refine List.flatMap_zipIdx_of_fst (fun x => ?_) _ _
    rw [marks_line, Code.marks_append, marks_encode rfl rfl]
    rfl
  have hreturn : marks (if m.isVoid then [] else
      [line ([t "        return "] ++ decode m.returnType (.var "resp"))]) =
      (userTypes m.returnType.base).map fun name => .runs (lit "decode_" ++ name) := by
    by_cases hv : m.isVoid = true
    · have hb : m.returnType.base = .primitive .void := of_decide_eq_true hv
      rw [if_pos hv, hb]
      rfl
    · rw [if_neg hv, marks_cons, marks_line, Code.marks_append, marks_decode rfl, marks_nil,
        List.append_nil]
      rfl
  unfold proxyMethod methodCalls
  simp only [marks_append, hparams, hreturn, marks_docstring]
  simp [marks_methodParams, marks_typeToTypeHint, List.map_flatMap]

theorem marks_serviceProxy (s : ServiceDef) :
    marks (generateServiceProxy s) = [.opens (s.name ++ lit "Proxy"),
        .evaluates (lit "ServiceConnection"), .binds (lit "__init__")] ++
      s.methods.flatMap fun m => marks (proxyMethod s m) := by
  unfold generateServiceProxy
  split <;> simp

/-! ## What is called is defined -/

def Mark.codec : Mark → List (Supply.Event Str)
  | runs name => [.wants name]
  | defines name => [.gives name]
  | evaluates _ | binds _ | field _ _ | opens _ | closes => []

/-- The codecs that a part of the module defines and calls. -/
def codecs (ms : List Mark) : List (Supply.Event Str) := ms.flatMap Mark.codec

/-- The module defines every codec that it calls. -/
def CodecsDefined (ns : Namespace) : Prop := Closed [] (codecs (marks (generateModule ns)))

section
variable {α : Type} {m : Mark} {ms ms' : List Mark}

@[simp] theorem codecs_nil : codecs [] = [] := rfl

@[simp] theorem codecs_cons : codecs (m :: ms) = m.codec ++ codecs ms := rfl

@[simp] theorem codecs_append : codecs (ms ++ ms') = codecs ms ++ codecs ms' := List.flatMap_append

@[simp] theorem codecs_flatMap (f : α → List Mark) (xs : List α) :
    codecs (xs.flatMap f) = xs.flatMap fun x => codecs (f x) := List.flatMap_assoc

@[simp] theorem codecs_runs (f : α → Str) (xs : List α) :
    codecs (xs.map fun x => .runs (f x)) = xs.map fun x => .wants (f x) := by
  rw [codecs, List.flatMap_map, List.map_eq_flatMap]
  rfl

@[simp] theorem codecs_binds (f : α → Str) (xs : List α) :
    codecs (xs.map fun x => .binds (f x)) = [] := by
  rw [codecs, List.flatMap_map]
  exact List.flatMap_eq_nil_iff.mpr fun _ _ => rfl

@[simp] theorem codecs_evaluates (names : List Str) : codecs (names.map .evaluates) = [] := by
  rw [codecs, List.flatMap_map]
  exact List.flatMap_eq_nil_iff.mpr fun _ _ => rfl

end

/-- The codecs of a struct, with what they call. -/
def structCodecs (s : StructDef) : List (Supply.Event Str) :=
  .gives (lit "encode_" ++ s.name) ::
      (s.fields.flatMap fun f =>
        (userTypes f.type.base).map fun name => .wants (lit "encode_" ++ inEncoder name)) ++
    .gives (lit "decode_" ++ s.name) ::
      s.fields.flatMap fun f =>
        (userTypes f.type.base).map fun name => .wants (lit "decode_" ++ inDecoder name)

theorem codecs_structDef (s : StructDef) :
    codecs (marks (generateStructDef s)) = structCodecs s := by
  simp [generateStructDef, marks_structClass, marks_structEncode, marks_structDecode, Mark.codec,
    structCodecs]

theorem codecs_module (ns : Namespace) :
    codecs (marks (generateModule ns)) = ns.structs.flatMap structCodecs ++
      ns.services.flatMap fun s => s.methods.flatMap fun m => codecs (methodCalls m) := by
  have htop : codecs (marks (moduleTop ns)) = [] := rfl
  have hids : codecs (marks (if ns.services.isEmpty then [] else
      generateServiceIds ns ++ [blank])) = [] := by
    split
    · rfl
    · simp [marks_serviceIds, Mark.codec]
  have henum : ∀ e : EnumDef, codecs (marks (generateEnumDef e)) = [] := by
    intro e
    simp [marks_enumDef, Mark.codec]
  have hmethod : ∀ s m, codecs (marks (proxyMethod s m)) = codecs (methodCalls m) := by
    intro s m
    simp [marks_proxyMethod, Mark.codec]
  unfold generateModule
  simp only [marks_append, codecs_append, htop, hids]
  simp [henum, codecs_structDef, marks_serviceProxy, hmethod, Mark.codec]

theorem given_structCodecs (s : StructDef) :
    given (structCodecs s) = [lit "encode_" ++ s.name, lit "decode_" ++ s.name] := by
  have hnone : ∀ fs : List Field, (fs.flatMap fun _ => ([] : List Str)) = [] := fun fs =>
    List.flatMap_eq_nil_iff.mpr fun _ _ => rfl
  simp [structCodecs, given, given_flatMap, hnone]

section
variable (ns : Namespace)

theorem given_codecs :
    given (codecs (marks (generateModule ns))) =
      ns.structs.flatMap fun s => [lit "encode_" ++ s.name, lit "decode_" ++ s.name] := by
  have hnone : ∀ (s : ServiceDef), (s.methods.flatMap fun m => given (codecs (methodCalls m))) = [] := by
    intro s
    refine List.flatMap_eq_nil_iff.mpr fun m _ => ?_
    simp [methodCalls, given_flatMap]
  rw [codecs_module, given_append, given_flatMap, given_flatMap]
  simp [given_structCodecs, given_flatMap, hnone]

theorem mem_given_encode {name : Str} :
    lit "encode_" ++ name ∈ given (codecs (marks (generateModule ns))) ↔
      name ∈ ns.structs.map (·.name) := by
  have hne : ∀ n : Str, lit "encode_" ++ name ≠ lit "decode_" ++ n := fun n h => by cases h
  rw [given_codecs]
  simp [hne, eq_comm]

theorem mem_given_decode {name : Str} :
    lit "decode_" ++ name ∈ given (codecs (marks (generateModule ns))) ↔
      name ∈ ns.structs.map (·.name) := by
  have hne : ∀ n : Str, lit "decode_" ++ name ≠ lit "encode_" ++ n := fun n h => by cases h
  rw [given_codecs]
  simp [hne, eq_comm]

theorem wanted_codecs :
    wanted (codecs (marks (generateModule ns))) =
      (ns.structs.flatMap fun s =>
        (s.fields.flatMap fun f =>
          (userTypes f.type.base).map fun name => lit "encode_" ++ inEncoder name) ++
        s.fields.flatMap fun f =>
          (userTypes f.type.base).map fun name => lit "decode_" ++ inDecoder name) ++
      ns.services.flatMap fun s => s.methods.flatMap fun m =>
        (m.params.flatMap fun p => (userTypes p.type.base).map fun name => lit "encode_" ++ name) ++
          (userTypes m.returnType.base).map fun name => lit "decode_" ++ name := by
  have hstruct : ∀ s : StructDef, wanted (structCodecs s) =
      (s.fields.flatMap fun f =>
        (userTypes f.type.base).map fun name => lit "encode_" ++ inEncoder name) ++
      s.fields.flatMap fun f =>
        (userTypes f.type.base).map fun name => lit "decode_" ++ inDecoder name := by
    intro s
    simp [structCodecs, wanted, wanted_flatMap]
  have hmethod : ∀ m : Method, wanted (codecs (methodCalls m)) =
      (m.params.flatMap fun p => (userTypes p.type.base).map fun name => lit "encode_" ++ name) ++
        (userTypes m.returnType.base).map fun name => lit "decode_" ++ name := by
    intro m
    simp [methodCalls, wanted_flatMap]
  rw [codecs_module, wanted_append, wanted_flatMap, wanted_flatMap]
  simp only [hstruct, wanted_flatMap, hmethod]

/-- The module defines what it calls where the fields, the parameters and the results are of
structs of the namespace; for a field these are the structs called what the generator makes of
the name in the body of an encoder and of a decoder. -/
theorem codecsDefined_iff :
    CodecsDefined ns ↔
      (∀ s ∈ ns.structs, ∀ f ∈ s.fields, ∀ name ∈ userTypes f.type.base,
        inEncoder name ∈ ns.structs.map (·.name) ∧ inDecoder name ∈ ns.structs.map (·.name)) ∧
      ∀ s ∈ ns.services, ∀ m ∈ s.methods,
        (∀ p ∈ m.params, ∀ name ∈ userTypes p.type.base, name ∈ ns.structs.map (·.name)) ∧
          ∀ name ∈ userTypes m.returnType.base, name ∈ ns.structs.map (·.name) := by
  have hclosed : CodecsDefined ns ↔ ∀ x ∈ wanted (codecs (marks (generateModule ns))),
      x ∈ given (codecs (marks (generateModule ns))) := by
    unfold CodecsDefined Closed
    simp
  rw [hclosed, wanted_codecs]
  simp only [List.forall_mem_append, List.forall_mem_flatMap, List.forall_mem_map,
    mem_given_encode, mem_given_decode]
  refine and_congr_left fun _ => forall₂_congr fun s _ => ?_
  constructor
  · rintro ⟨henc, hdec⟩ f hf name hn
    exact ⟨henc f hf name hn, hdec f hf name hn⟩
  · intro h
    exact ⟨fun f hf name hn => (h f hf name hn).1, fun f hf name hn => (h f hf name hn).2⟩

end

/-- `enum Color { Red } service Lamp { set(color: Color) -> void; }` -/
def lamp : Namespace where
  enums := [{ name := lit "Color", items := [{ name := lit "Red" }] }]
  services := [{
    name := lit "Lamp"
    methods := [{
      name := lit "set"
      params := [{ name := lit "color", type := { base := .user (lit "Color") } }]
      returnType := { base := .primitive .void } }] }]

/-- `LampProxy.set` calls `encode_Color`, which the module does not define: enums have no
codecs in Python. -/
theorem not_codecsDefined_lamp :
    ¬ ∀ ast ns, accepts ast = true → ns ∈ ast.namespaces → CodecsDefined ns := by
  intro h
  have hc := h ⟨[lamp]⟩ lamp (by decide +kernel) List.mem_cons_self (lit "encode_Color")
    (by decide +kernel)
  exact absurd hc (by decide +kernel)

end Song.Compiler.PyText
