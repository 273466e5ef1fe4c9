import Song.Compiler.Constants
import Song.Lib.Diff

/-!
# Comparing a service with what is there (`scaffold.hpp`, `scaffold.cpp`)

`ScaffoldGenerator` compares the methods, structs and enums of the IDL with those found in
existing files. Each of the three comparisons is `Diff.diff` on its own names and contents: a
method's content is its normalized signature, a struct's its normalized fields, an enum's its
normalized values. With distinct names on both sides the report says of every item what became
of it (`compare_exact`).
-/

namespace Song.Compiler

structure ExistingMethod where
  name : Str
  returnType : Str
  params : Str
  lineNumber : Int
  deriving DecidableEq, Repr

structure ExistingField where
  name : Str
  type : Str
  deriving DecidableEq, Repr

structure ExistingStruct where
  name : Str
  fields : List ExistingField
  deriving DecidableEq, Repr

structure ExistingEnumValue where
  name : Str
  value : Option Int64
  deriving DecidableEq

structure ExistingEnum where
  name : Str
  isFlags : Bool
  values : List ExistingEnumValue
  deriving DecidableEq

structure SyncReport where
  newMethods : List Method
  removedMethods : List ExistingMethod
  modifiedMethods : List (ExistingMethod × Method)
  newStructs : List StructDef
  removedStructs : List ExistingStruct
  modifiedStructs : List (ExistingStruct × StructDef)
  newEnums : List EnumDef
  removedEnums : List ExistingEnum
  modifiedEnums : List (ExistingEnum × EnumDef)

def SyncReport.hasChanges (r : SyncReport) : Bool :=
  !r.newMethods.isEmpty || !r.removedMethods.isEmpty || !r.modifiedMethods.isEmpty ||
    !r.newStructs.isEmpty || !r.removedStructs.isEmpty || !r.modifiedStructs.isEmpty ||
    !r.newEnums.isEmpty || !r.removedEnums.isEmpty || !r.modifiedEnums.isEmpty

namespace ScaffoldGenerator

/-! ## Normalized contents -/

/-- `\s` of a regular expression. -/
def isSpace (b : UInt8) : Bool := b == 32 || (9 ≤ b && b ≤ 13)

/-- `regex_replace` of `\s+` by a blank; the flag says that a match is going on. -/
def collapse : Bool → Str → Str
  | _, [] => []
  | inMatch, b :: s =>
    if isSpace b then (if inMatch then collapse true s else 32 :: collapse true s)
    else b :: collapse false s

/-- `regex_replace` of `\s*c\s*` by `by`. Whitespace is held until it is known whether a `c`
follows; that behind a `c` (`none`) belongs to the match. -/
def replaceAround (c : UInt8) (by_ : Str) : Option Str → Str → Str
  | none, [] => []
  | some held, [] => held
  | none, b :: s =>
    if isSpace b then replaceAround c by_ none s
    else if b = c then by_ ++ replaceAround c by_ none s
    else b :: replaceAround c by_ (some []) s
  | some held, b :: s =>
    if isSpace b then replaceAround c by_ (some (held ++ [b])) s
    else if b = c then by_ ++ replaceAround c by_ none s
    else held ++ b :: replaceAround c by_ (some []) s

def paramsToString (params : List Param) : Str :=
  (lit ", ").intercalate (params.map fun p => typeToParam p.type p.name)

def normalizeExistingFields (fields : List ExistingField) : Str :=
  (lit ";").intercalate (fields.map fun f => collapse false f.type ++ lit " " ++ f.name)

def normalizeFields (fields : List Field) : Str :=
  (lit ";").intercalate (fields.map fun f => typeToCpp f.type ++ lit " " ++ f.name)

/-- One value of an enum, with its number if it has one. -/
def enumValueText (name : Str) (value : Option Int64) : Str :=
  match value with
  | none => name
  | some v => name ++ lit "=" ++ toStr v.toInt

def normalizeExistingValues (values : List ExistingEnumValue) : Str :=
  (lit ";").intercalate (values.map fun v => enumValueText v.name v.value)

def normalizeEnumValues (values : List EnumItem) : Str :=
  (lit ";").intercalate (values.map fun v => enumValueText v.name v.value)

def normalizeSignature (returnType params : Str) : Str :=
  let sig := returnType ++ lit "(" ++ params ++ lit ")"
  let sig := collapse false sig
  let sig := replaceAround 44 (lit ", ") (some []) sig
  let sig := replaceAround 40 (lit "(") (some []) sig
  let sig := replaceAround 41 (lit ")") (some []) sig
  replaceAround 38 (lit "& ") (some []) sig

/-! ## What normalized contents tell apart -/

theorem cut_inj {x x' y y' : Str} {c : UInt8} (hx : c ∉ x) (hx' : c ∉ x')
    (h : x ++ c :: y = x' ++ c :: y') : x = x' ∧ y = y' := by
  rcases List.append_eq_append_iff.mp h with ⟨z, hz, he⟩ | ⟨z, hz, he⟩
  · cases z with
    | nil => exact ⟨(hz.trans (List.append_nil x)).symm, (List.cons.inj he).2⟩
    | cons b z =>
      rw [hz, (List.cons.inj he).1] at hx'
      exact absurd (List.mem_append_right x List.mem_cons_self) hx'
  · cases z with
    | nil => exact ⟨hz.trans (List.append_nil x'), (List.cons.inj he).2.symm⟩
    | cons b z =>
      rw [hz, (List.cons.inj he).1] at hx
      exact absurd (List.mem_append_right x' List.mem_cons_self) hx

/-- Pieces of which none is empty or has a semicolon are known from their joined text. -/
theorem joined_inj {ps qs : List Str} (hp : ∀ p ∈ ps, p ≠ [] ∧ 59 ∉ p)
    (hq : ∀ q ∈ qs, q ≠ [] ∧ 59 ∉ q) (h : (lit ";").intercalate ps = (lit ";").intercalate qs) :
    ps = qs := by
  have hne : ∀ {ps : List Str}, (∀ p ∈ ps, p ≠ [] ∧ 59 ∉ p) → (lit ";").intercalate ps = [] →
      ps = [] := by
    intro ps hp h
    cases ps with
    | nil => rfl
    | cons p ps =>
      cases ps with
      | nil => exact absurd (by simpa using h) (hp p List.mem_cons_self).1
      | cons q ps =>
        rw [List.intercalate_cons_cons, List.append_assoc, List.append_eq_nil_iff] at h
        exact absurd h.1 (hp p List.mem_cons_self).1
  by_cases hps : ps = []
  · subst hps
    exact (hne hq h.symm).symm
  · by_cases hqs : qs = []
    · subst hqs
      exact absurd (hne hp h) hps
    · have hs := List.splitOn_intercalate (59 : UInt8) (fun p hm => (hp p hm).2) hps
      have hs' := List.splitOn_intercalate (59 : UInt8) (fun q hm => (hq q hm).2) hqs
      rw [← hs, ← hs']
      exact congrArg _ h

theorem mem_collapse {b : UInt8} {inMatch : Bool} {s : Str} (h : b ∈ collapse inMatch s) :
    b = 32 ∨ b ∈ s := by
  induction s generalizing inMatch with
  | nil => cases h
  | cons c s ih =>
    unfold collapse at h
    split at h
    · split at h
      · exact (ih h).imp_right (List.mem_cons_of_mem c)
      · rcases List.mem_cons.mp h with h | h
        · exact .inl h
        · exact (ih h).imp_right (List.mem_cons_of_mem c)
    · rcases List.mem_cons.mp h with rfl | h
      · exact .inr List.mem_cons_self
      · exact (ih h).imp_right (List.mem_cons_of_mem c)

/-! ## The comparisons -/

/-- `operator<=` of `std::string`. -/
def strLe (s t : Str) : Bool := !t.lex s

def signatureDiffers (old : ExistingMethod) (m : Method) : Bool :=
  normalizeSignature (typeToCpp m.returnType) (paramsToString m.params) !=
    normalizeSignature old.returnType old.params

def fieldsDiffer (old : ExistingStruct) (s : StructDef) : Bool :=
  normalizeFields s.fields != normalizeExistingFields old.fields

def valuesDiffer (old : ExistingEnum) (e : EnumDef) : Bool :=
  normalizeEnumValues e.items != normalizeExistingValues old.values

def compare (service : ServiceDef) (existing : List ExistingMethod) : SyncReport :=
  let r := Diff.diff ExistingMethod.name Method.name signatureDiffers strLe existing service.methods
  { newMethods := r.added, removedMethods := r.removed, modifiedMethods := r.changed
    newStructs := [], removedStructs := [], modifiedStructs := []
    newEnums := [], removedEnums := [], modifiedEnums := [] }

def compareStructs (ns : Namespace) (existing : List ExistingStruct) (report : SyncReport) :
    SyncReport :=
  let r := Diff.diff ExistingStruct.name StructDef.name fieldsDiffer strLe existing ns.structs
  { report with
    newStructs := report.newStructs ++ r.added
    removedStructs := report.removedStructs ++ r.removed
    modifiedStructs := report.modifiedStructs ++ r.changed }

def compareEnums (ns : Namespace) (existing : List ExistingEnum) (report : SyncReport) :
    SyncReport :=
  let r := Diff.diff ExistingEnum.name EnumDef.name valuesDiffer strLe existing ns.enums
  { report with
    newEnums := report.newEnums ++ r.added
    removedEnums := report.removedEnums ++ r.removed
    modifiedEnums := report.modifiedEnums ++ r.changed }

/-! ### Contents that are told apart -/

/-- No semicolon in the type or name of a field, and no blank in its name. -/
def PlainField (type name : Str) : Prop := 59 ∉ type ∧ 59 ∉ name ∧ 32 ∉ name

def pairText (p : Str × Str) : Str := p.1 ++ lit " " ++ p.2

theorem pairText_inj {p q : Str × Str} (hp : PlainField p.1 p.2) (hq : PlainField q.1 q.2)
    (he : pairText p = pairText q) : p = q := by
  have hr := congrArg List.reverse he
  simp only [pairText, List.reverse_append, List.append_assoc] at hr
  have hc := cut_inj (fun hm => hp.2.2 (List.mem_reverse.mp hm))
    (fun hm => hq.2.2 (List.mem_reverse.mp hm)) hr
  exact Prod.ext (List.reverse_injective hc.2) (List.reverse_injective hc.1)

theorem pairText_ok {p : Str × Str} (h : PlainField p.1 p.2) :
    pairText p ≠ [] ∧ 59 ∉ pairText p := by
  refine ⟨fun he => ?_, fun hm => ?_⟩
  · have hl := congrArg List.length he
    simp only [pairText, List.length_append, List.length_nil] at hl
    have h1 : (lit " ").length = 1 := rfl
    omega
  · rcases List.mem_append.mp hm with hm | hm
    · rcases List.mem_append.mp hm with hm | hm
      · exact h.1 hm
      · exact absurd hm (by decide)
    · exact h.2.1 hm

/-- Two lists of pieces are equal if the pairs they were made from are. -/
theorem map_inj_of_pieces {γ : Type} {f : γ → Str} {ps qs : List γ}
    (hf : ∀ p ∈ ps, ∀ q ∈ qs, f p = f q → p = q) (h : ps.map f = qs.map f) : ps = qs := by
  induction ps generalizing qs with
  | nil => exact (List.map_eq_nil_iff.mp h.symm).symm
  | cons p ps ih =>
    cases qs with
    | nil => cases h
    | cons q qs =>
      obtain ⟨hpq, ht⟩ := List.cons.inj h
      rw [hf p List.mem_cons_self q List.mem_cons_self hpq,
        ih (fun p hp q hq => hf p (List.mem_cons_of_mem _ hp) q (List.mem_cons_of_mem _ hq)) ht]

/-- Plain fields differ exactly if their names and types do, up to the whitespace in the types. -/
theorem fieldsDiffer_eq_false (old : ExistingStruct) (s : StructDef)
    (ho : ∀ f ∈ old.fields, PlainField f.type f.name)
    (hs : ∀ f ∈ s.fields, PlainField (typeToCpp f.type) f.name) :
    fieldsDiffer old s = false ↔
      s.fields.map (fun f => (typeToCpp f.type, f.name)) =
        old.fields.map fun f => (collapse false f.type, f.name) := by
  have hnew : ∀ p ∈ s.fields.map (fun f => (typeToCpp f.type, f.name)), PlainField p.1 p.2 := by
    intro p hp
    obtain ⟨f, hf, rfl⟩ := List.mem_map.mp hp
    exact hs f hf
  have hold : ∀ p ∈ old.fields.map (fun f => (collapse false f.type, f.name)),
      PlainField p.1 p.2 := by
    intro p hp
    obtain ⟨f, hf, rfl⟩ := List.mem_map.mp hp
    refine ⟨fun hm => ?_, (ho f hf).2⟩
    rcases mem_collapse hm with h | h
    · exact absurd h (by decide)
    · exact (ho f hf).1 h
  have hjoin : fieldsDiffer old s = false ↔
      (lit ";").intercalate ((s.fields.map fun f => (typeToCpp f.type, f.name)).map pairText) =
        (lit ";").intercalate
          ((old.fields.map fun f => (collapse false f.type, f.name)).map pairText) := by
    rw [List.map_map, List.map_map]
    exact bne_eq_false_iff_eq
  rw [hjoin]
  refine ⟨fun h => ?_, fun h => by rw [h]⟩
  have hpieces := joined_inj (fun p hp => ?_) (fun p hp => ?_) h
  · exact map_inj_of_pieces (fun p hp q hq => pairText_inj (hnew p hp) (hold q hq)) hpieces
  · obtain ⟨q, hq, rfl⟩ := List.mem_map.mp hp
    exact pairText_ok (hnew q hq)
  · obtain ⟨q, hq, rfl⟩ := List.mem_map.mp hp
    exact pairText_ok (hold q hq)

/-- Neither a semicolon nor an equals sign in the name of a value, and not nothing. -/
def PlainValue (name : Str) : Prop := name ≠ [] ∧ 59 ∉ name ∧ 61 ∉ name

theorem enumValueText_inj {n n' : Str} {v v' : Option Int64} (h : PlainValue n)
    (h' : PlainValue n') (he : enumValueText n v = enumValueText n' v') : (n, v) = (n', v') := by
  have hdiff : ∀ {n n' : Str} {v : Int64}, PlainValue n → enumValueText n none ≠
      enumValueText n' (some v) := by
    intro n n' v h he
    refine h.2.2 ?_
    rw [show n = n' ++ lit "=" ++ toStr v.toInt from he]
    exact List.mem_append_left _ (List.mem_append_right _ List.mem_cons_self)
  cases v with
  | none =>
    cases v' with
    | none => rw [show n = n' from he]
    | some v' => exact absurd he (hdiff h)
  | some v =>
    cases v' with
    | none => exact absurd he.symm (hdiff h')
    | some v' =>
      simp only [enumValueText, List.append_assoc] at he
      obtain ⟨hn, hv⟩ := cut_inj h.2.2 h'.2.2 he
      rw [hn, Int64.toInt_inj.mp (toStr_int_injective hv)]

theorem enumValueText_ok {n : Str} (v : Option Int64) (h : PlainValue n) :
    enumValueText n v ≠ [] ∧ 59 ∉ enumValueText n v := by
  cases v with
  | none => exact ⟨h.1, h.2.1⟩
  | some v =>
    refine ⟨fun he => ?_, fun hm => ?_⟩
    · exact h.1 (List.append_eq_nil_iff.mp (List.append_eq_nil_iff.mp he).1).1
    · rcases List.mem_append.mp hm with hm | hm
      · rcases List.mem_append.mp hm with hm | hm
        · exact h.2.1 hm
        · exact absurd hm (by decide)
      · exact notMem_toStr_int (by decide) (by decide) _ hm

/-- Plainly named values differ exactly if their names or written numbers do. -/
theorem valuesDiffer_eq_false (old : ExistingEnum) (e : EnumDef)
    (ho : ∀ v ∈ old.values, PlainValue v.name) (he : ∀ v ∈ e.items, PlainValue v.name) :
    valuesDiffer old e = false ↔
      e.items.map (fun v => (v.name, v.value)) = old.values.map fun v => (v.name, v.value) := by
  have hnew : ∀ p ∈ e.items.map (fun v => (v.name, v.value)), PlainValue p.1 := by
    intro p hp
    obtain ⟨v, hv, rfl⟩ := List.mem_map.mp hp
    exact he v hv
  have hold : ∀ p ∈ old.values.map (fun v => (v.name, v.value)), PlainValue p.1 := by
    intro p hp
    obtain ⟨v, hv, rfl⟩ := List.mem_map.mp hp
    exact ho v hv
  have hjoin : valuesDiffer old e = false ↔
      (lit ";").intercalate ((e.items.map fun v => (v.name, v.value)).map
          fun p => enumValueText p.1 p.2) =
        (lit ";").intercalate ((old.values.map fun v => (v.name, v.value)).map
          fun p => enumValueText p.1 p.2) := by
    rw [List.map_map, List.map_map]
    exact bne_eq_false_iff_eq
  rw [hjoin]
  refine ⟨fun h => ?_, fun h => by rw [h]⟩
  have hpieces := joined_inj (fun p hp => ?_) (fun p hp => ?_) h
  · exact map_inj_of_pieces
      (fun p hp q hq => enumValueText_inj (hnew p hp) (hold q hq)) hpieces
  · obtain ⟨q, hq, rfl⟩ := List.mem_map.mp hp
    exact enumValueText_ok q.2 (hnew q hq)
  · obtain ⟨q, hq, rfl⟩ := List.mem_map.mp hp
    exact enumValueText_ok q.2 (hold q hq)

/-! ### The report -/

/-- What the report should say of a service, the structs and the enums. -/
structure Exact (ns : Namespace) (service : ServiceDef) (oldMethods : List ExistingMethod)
    (oldStructs : List ExistingStruct) (oldEnums : List ExistingEnum) (r : SyncReport) : Prop where
  methods : Diff.Classifies ExistingMethod.name Method.name signatureDiffers oldMethods
    service.methods ⟨r.newMethods, r.removedMethods, r.modifiedMethods⟩
  structs : Diff.Classifies ExistingStruct.name StructDef.name fieldsDiffer oldStructs
    ns.structs ⟨r.newStructs, r.removedStructs, r.modifiedStructs⟩
  enums : Diff.Classifies ExistingEnum.name EnumDef.name valuesDiffer oldEnums
    ns.enums ⟨r.newEnums, r.removedEnums, r.modifiedEnums⟩
  /-- Nothing changed exactly if both sides say the same of the methods, structs and enums. -/
  unchanged : r.hasChanges = false ↔
    Diff.Same ExistingMethod.name Method.name signatureDiffers oldMethods service.methods ∧
    Diff.Same ExistingStruct.name StructDef.name fieldsDiffer oldStructs ns.structs ∧
    Diff.Same ExistingEnum.name EnumDef.name valuesDiffer oldEnums ns.enums

theorem hasChanges_eq_false (r : SyncReport) :
    r.hasChanges = false ↔
      (r.newMethods = [] ∧ r.removedMethods = [] ∧ r.modifiedMethods = []) ∧
      (r.newStructs = [] ∧ r.removedStructs = [] ∧ r.modifiedStructs = []) ∧
      (r.newEnums = [] ∧ r.removedEnums = [] ∧ r.modifiedEnums = []) := by
  simp only [SyncReport.hasChanges, Bool.or_eq_false_iff, Bool.not_eq_false', List.isEmpty_iff,
    and_assoc]

/-- With distinct names on both sides, the report of the three comparisons in a row is exact. -/
theorem compare_exact (ns : Namespace) (service : ServiceDef) (methods : List ExistingMethod)
    (structs : List ExistingStruct) (enums : List ExistingEnum)
    (hm : (service.methods.map Method.name).Nodup) (hs : (ns.structs.map StructDef.name).Nodup)
    (he : (ns.enums.map EnumDef.name).Nodup) (hem : (methods.map ExistingMethod.name).Nodup)
    (hes : (structs.map ExistingStruct.name).Nodup)
    (hee : (enums.map ExistingEnum.name).Nodup) :
    Exact ns service methods structs enums
      (compareEnums ns enums (compareStructs ns structs (compare service methods))) := by
  have hmethods := Diff.classifies_diff signatureDiffers strLe hem hm
  have hstructs := Diff.classifies_diff fieldsDiffer strLe hes hs
  have henums := Diff.classifies_diff valuesDiffer strLe hee he
  refine ⟨hmethods, hstructs, henums, ?_⟩
  rw [hasChanges_eq_false]
  exact and_congr hmethods.empty_iff (and_congr hstructs.empty_iff henums.empty_iff)

/-- A method that was kept, one that is new and one that is gone. -/
def greeter : ServiceDef where
  name := lit "Greeter"
  methods := [{ name := lit "greet", params := [], returnType := { base := .primitive .string } },
    { name := lit "leave", params := [], returnType := { base := .primitive .void } }]

theorem compare_exact_greeter :
    Exact {} greeter [⟨lit "greet", lit "std::string", [], 3⟩, ⟨lit "stay", lit "void", [], 4⟩] [] []
      (compareEnums {} [] (compareStructs {} []
        (compare greeter [⟨lit "greet", lit "std::string", [], 3⟩, ⟨lit "stay", lit "void", [], 4⟩]))) :=
  compare_exact {} greeter _ [] [] (by decide) (by decide) (by decide) (by decide) (by decide)
    (by decide)

end ScaffoldGenerator

end Song.Compiler
