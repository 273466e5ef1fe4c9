import Mathlib.Data.List.DropRight
import Song.Compiler.Scaffold
import Song.Compiler.DocText
import Song.Compiler.Written
import Song.Lib.List
import Song.Lib.Regex

/-!
# Synchronizing an implementation (`scaffold.cpp`)

`generate` writes a skeleton where no implementation is there yet. To one that is there it
appends a report of what the IDL and the two existing files do not share, as comment lines. The
existing files are read with regular expressions.
-/

namespace Song.Compiler.ScaffoldGenerator

open Regex Pattern

/-! ## The skeleton -/

def generateSkeleton (ns : Namespace) (service : ServiceDef) : Str :=
  lit "// " ++ service.name ++ lit " Implementation\n" ++
  lit "// Generated scaffold - safe to edit\n" ++
  lit "// Source: " ++ ns.name ++ lit ".song\n\n" ++
  lit "#include \"" ++ ns.name ++ lit ".hpp\"\n\n" ++
  lit "namespace song::" ++ ns.name ++ lit " \x7b\n\n" ++
  lit "class " ++ service.name ++ lit "Impl : public I" ++ service.name ++ lit " \x7b\n" ++
  lit "public:\n" ++
  service.methods.flatMap (fun m =>
    (if m.doc = [] then [] else lit "    /// " ++ m.doc ++ lit "\n") ++
    lit "    " ++ typeToCpp m.returnType ++ lit " " ++ m.name ++ lit "(" ++
    paramsToString m.params ++ lit ") override \x7b\n" ++
    lit "        // TODO: implement\n" ++
    lit "        throw std::runtime_error(\"" ++ m.name ++ lit " not implemented\");\n" ++
    lit "    \x7d\n\n") ++
  lit "\x7d;\n\n" ++
  lit "\x7d // namespace song::" ++ ns.name ++ lit "\n"

/-! ## Reading the existing files -/

/-- `std::getline` to the end. -/
def getLines (s : Str) : List Str :=
  let lines := s.splitOn 10
  if lines.getLast? = some [] then lines.dropLast else lines

/-- `regex_replace` of `^\s+|\s+$` by nothing. -/
def trim (s : Str) : Str := (s.dropWhile isSpace).rdropWhile isSpace

/-- `\s*` -/
def spaces : Pattern UInt8 := star false isSpace

/-- `(\w+)` -/
def word (n : Nat) : Pattern UInt8 := group n (plus false isWordChar)

/-- The return type, the name and the parameters of a method that overrides one. -/
def methodRegex : Pattern UInt8 := seqs [
  spaces,
  group 1 (seqs [plus false fun b => isWordChar b || b == ch ':' || b == ch '<' || b == ch '>',
    opt (seqs [spaces, text (lit "<"), plus false (· != ch '>'), text (lit ">")])]),
  plus false isSpace, word 2, spaces, text (lit "("), group 3 (star false (· != ch ')')),
  text (lit ")"), spaces, opt (seqs [text (lit "const"), spaces]), text (lit "override")]

/-- A comment, or nothing. -/
def isCommentLine (line : Str) : Bool :=
  let trimmed := match line.dropWhile fun b => b == ch ' ' || b == ch '\t' with
    | [] => line
    | b :: rest => b :: rest
  trimmed.head?.all fun b => b == ch '/' || b == ch '*'

/-- The method on a line, if there is one. -/
def existingMethod (line : Str) (lineNumber : Nat) : Option ExistingMethod :=
  if isCommentLine line then none
  else (run methodRegex line).head?.map fun m => {
    name := m.groups.get 2
    returnType := trim (m.groups.get 1)
    params := trim (m.groups.get 3)
    lineNumber := lineNumber }

def parseExistingImpl (content : Str) : List ExistingMethod :=
  ((getLines content).zipIdx 1).filterMap fun x => existingMethod x.1 x.2

def structRegex : Pattern UInt8 := seqs [
  text (lit "struct"), plus false isSpace, word 1, spaces, text (lit "\x7b"),
  group 2 (star false (· != ch '\x7d')), text (lit "\x7d")]

def fieldRegex : Pattern UInt8 := seqs [
  group 1 (plus true (· != ch ';')), plus false isSpace, word 2, spaces, text (lit ";")]

/-- A field; what looks like a comment is left out. -/
def existingField (gs : Groups UInt8) : Option ExistingField :=
  let type := trim (gs.get 1)
  if type = [] ∨ type.head? = some (ch '/') ∨ lit "//" <:+: type then none
  else some ⟨gs.get 2, type⟩

def parseExistingStructs (content : Str) : List ExistingStruct :=
  (findAll structRegex content).map fun gs =>
    ⟨gs.get 1, (findAll fieldRegex (gs.get 2)).filterMap existingField⟩

def enumRegex : Pattern UInt8 := seqs [
  text (lit "enum"), plus false isSpace, text (lit "class"), plus false isSpace, word 1, spaces,
  text (lit ":"), spaces, plus false isWordChar, spaces, text (lit "\x7b"),
  group 2 (star false (· != ch '\x7d')), text (lit "\x7d")]

def valueRegex : Pattern UInt8 := seqs [
  word 1, opt (seqs [spaces, text (lit "="), spaces,
    group 2 (seqs [opt (text (lit "-")), plus false isDigit])])]

/-- `std::stoll`, or nothing for its `std::out_of_range`. -/
def stollSigned : Str → Option Int64
  | 45 :: digits =>
    let n := digits.foldl (fun n c => n * 10 + digitValue c) 0
    if n ≤ 2 ^ 63 then some (Int64.ofInt (-n)) else none
  | digits => (stoll 10 digits).toOption

/-- The value of an enum, which throws if its number is out of range. -/
def existingEnumValue (gs : Groups UInt8) : Option ExistingEnumValue :=
  match gs.lookup 2 with
  | none => some ⟨gs.get 1, none⟩
  | some digits => (stollSigned digits).map fun v => ⟨gs.get 1, some v⟩

/-- The matches of a body that are read as values. -/
def valueMatches (body : Str) : List (Groups UInt8) :=
  (findAll valueRegex body).filter fun gs =>
    !(gs.get 1 == lit "class" || gs.get 1 == lit "enum" || gs.get 1 == lit "struct")

def existingEnum (gs : Groups UInt8) : Option ExistingEnum :=
  ((valueMatches (gs.get 2)).mapM existingEnumValue).map fun values => {
    name := gs.get 1
    isFlags := values.any fun v => v.value.any fun n => decide (0 < n) && n &&& (n - 1) == 0
    values := values }

/-- The enums of a header, or nothing where `std::stoll` throws. -/
def parseExistingEnums (content : Str) : Option (List ExistingEnum) :=
  (findAll enumRegex content).mapM existingEnum

/-! ## The report -/

/-- The local time. -/
structure Time where
  year : Nat
  month : Nat
  day : Nat
  hour : Nat
  minute : Nat
  second : Nat

def twoDigits (n : Nat) : Str := (if n < 10 then lit "0" else []) ++ toStr n

/-- `put_time` with `%Y-%m-%d %H:%M:%S`. -/
def Time.str (now : Time) : Str :=
  toStr now.year ++ lit "-" ++ twoDigits now.month ++ lit "-" ++ twoDigits now.day ++ lit " " ++
    twoDigits now.hour ++ lit ":" ++ twoDigits now.minute ++ lit ":" ++ twoDigits now.second

def reportTop (ns : Namespace) (now : Time) : List Str :=
  [[], lit "// ============================================================",
    lit "// SCAFFOLD SYNC REPORT - " ++ ns.name ++ lit ".song",
    lit "// Generated: " ++ now.str,
    lit "// ============================================================"]

/-- A part of the report, left out if there is nothing in it. -/
def part {γ : Type} (title : List Str) (xs : List γ) (lines : γ → List Str)
    (bottom : List Str := []) : List Str :=
  if xs.isEmpty then [] else [lit "//"] ++ title ++ [lit "//"] ++ xs.flatMap lines ++ bottom

def newMethodLines (m : Method) : List Str :=
  (if m.doc = [] then [] else [lit "//     /// " ++ m.doc]) ++
  [lit "//     " ++ typeToCpp m.returnType ++ lit " " ++ m.name ++ lit "(" ++
      paramsToString m.params ++ lit ") override \x7b",
    lit "//         // TODO: implement",
    lit "//         throw std::runtime_error(\"" ++ m.name ++ lit " not implemented\");",
    lit "//     \x7d",
    lit "//"]

def removedMethodLines (m : ExistingMethod) : List Str :=
  [lit "//     " ++ m.returnType ++ lit " " ++ m.name ++ lit "(" ++ m.params ++ lit ")",
    lit "//     ^ Line " ++ toStr m.lineNumber ++ lit " - consider removing",
    lit "//"]

def modifiedMethodLines (e : ExistingMethod × Method) : List Str :=
  [lit "//     " ++ e.2.name ++ lit ":",
    lit "//       WAS: " ++ e.1.returnType ++ lit " " ++ e.1.name ++ lit "(" ++ e.1.params ++ lit ")",
    lit "//       NOW: " ++ typeToCpp e.2.returnType ++ lit " " ++ e.2.name ++ lit "(" ++
      paramsToString e.2.params ++ lit ")",
    lit "//       Line " ++ toStr e.1.lineNumber ++ lit " in your implementation",
    lit "//"]

def fieldLine (type name : Str) : Str := lit "//         " ++ type ++ lit " " ++ name

def newStructLines (s : StructDef) : List Str :=
  [lit "//     " ++ s.name ++ lit ":"] ++
  s.fields.map (fun f => fieldLine (typeToCpp f.type) f.name) ++ [lit "//"]

def modifiedStructLines (e : ExistingStruct × StructDef) : List Str :=
  [lit "//     " ++ e.2.name ++ lit ":", lit "//       WAS:"] ++
  e.1.fields.map (fun f => fieldLine f.type f.name) ++ [lit "//       NOW:"] ++
  e.2.fields.map (fun f => fieldLine (typeToCpp f.type) f.name) ++ [lit "//"]

def valueLine (name : Str) (value : Option Int64) : Str :=
  lit "//         " ++ name ++ (match value with
    | none => []
    | some v => lit " = " ++ toStr v.toInt)

def newEnumLines (e : EnumDef) : List Str :=
  [lit "//     " ++ lit (if e.isFlags then "flags " else "enum ") ++ e.name ++ lit ":"] ++
  e.items.map (fun v => valueLine v.name v.value) ++ [lit "//"]

def modifiedEnumLines (e : ExistingEnum × EnumDef) : List Str :=
  [lit "//     " ++ e.2.name ++ lit ":", lit "//       WAS:"] ++
  e.1.values.map (fun v => valueLine v.name v.value) ++ [lit "//       NOW:"] ++
  e.2.items.map (fun v => valueLine v.name v.value) ++ [lit "//"]

def reportLines (ns : Namespace) (report : SyncReport) (now : Time) : List Str :=
  reportTop ns now ++
  part [lit "// ----- NEW METHODS (add to your class) ----------------------"]
    report.newMethods newMethodLines ++
  part [lit "// ----- REMOVED FROM IDL (consider deleting) -----------------"]
    report.removedMethods removedMethodLines ++
  part [lit "// ----- SIGNATURE CHANGED (update your implementation) -------"]
    report.modifiedMethods modifiedMethodLines ++
  part [lit "// ----- NEW STRUCTS -----------------------------------------"]
    report.newStructs newStructLines ++
  part [lit "// ----- STRUCTS REMOVED FROM IDL ----------------------------",
      lit "//     ^ Your code may reference these types"]
    report.removedStructs (fun s => [lit "//     " ++ s.name]) [lit "//"] ++
  part [lit "// ----- STRUCT FIELDS CHANGED -------------------------------"]
    report.modifiedStructs modifiedStructLines ++
  part [lit "// ----- NEW ENUMS -------------------------------------------"]
    report.newEnums newEnumLines ++
  part [lit "// ----- ENUMS REMOVED FROM IDL ------------------------------",
      lit "//     ^ Your code may reference these types"]
    report.removedEnums (fun e => [lit "//     " ++ e.name]) [lit "//"] ++
  part [lit "// ----- ENUM VALUES CHANGED ---------------------------------"]
    report.modifiedEnums modifiedEnumLines ++
  [lit "// ============================================================"]

def endLine (s : Str) : Str := s ++ lit "\n"

def generateSyncReport (ns : Namespace) (report : SyncReport) (now : Time) : Str :=
  (reportLines ns report now).flatMap endLine

/-! ## The whole -/

/-- What has changed; nothing where `parse_existing_enums` throws. -/
def sync (ns : Namespace) (service : ServiceDef) (impl : Str) (header : Option Str) :
    Option SyncReport :=
  let report := compare service (parseExistingImpl impl)
  match header with
  | none => some report
  | some header => (parseExistingEnums header).map fun enums =>
      compareEnums ns enums (compareStructs ns (parseExistingStructs header) report)

def generate (ns : Namespace) (service : ServiceDef) (impl header : Option Str) (now : Time) :
    Option Str :=
  match impl with
  | none => some (generateSkeleton ns service)
  | some impl => (sync ns service impl header).map fun report =>
      if report.hasChanges then impl ++ generateSyncReport ns report now
      else impl ++ lit "\n// Scaffold sync: all methods up to date\n"

/-! ## What is read -/

/-- A match of `\w+`. -/
def IsWord (s : Str) : Prop := s ≠ [] ∧ ∀ b ∈ s, isWordChar b = true

theorem IsWord.newline {s : Str} (h : IsWord s) : 10 ∉ s := fun hm =>
  absurd (h.2 10 hm) (by decide)

section
variable {t content : Str} {gs : Groups UInt8}

theorem structRegex_groups (h : structRegex.Matches t gs) :
    ∃ name body, gs = [(1, name), (2, body)] ∧ IsWord name := by
  obtain ⟨t', h⟩ := h.captures
  have hparts : (seqs [word 1, group 2 (star false (· != ch '\x7d'))]).Matches t' gs := h
  simp only [seqs, Matches, word, matches_plus] at hparts
  obtain ⟨name, _, _, _, -, rfl, ⟨_, rfl, hname, rfl⟩, body, _, _, _, -, rfl, ⟨_, rfl, -, rfl⟩,
    -, rfl⟩ := hparts
  exact ⟨name, body, rfl, hname⟩

theorem fieldRegex_groups (h : fieldRegex.Matches t gs) :
    ∃ type name, gs = [(1, type), (2, name)] ∧ IsWord name := by
  obtain ⟨t', h⟩ := h.captures
  have hparts : (seqs [group 1 (plus true (· != ch ';')), word 2]).Matches t' gs := h
  simp only [seqs, Matches, word, matches_plus] at hparts
  obtain ⟨type, _, _, _, -, rfl, ⟨_, rfl, -, rfl⟩, name, _, _, _, -, rfl, ⟨_, rfl, hname, rfl⟩,
    -, rfl⟩ := hparts
  exact ⟨type, name, rfl, hname⟩

theorem enumRegex_groups (h : enumRegex.Matches t gs) :
    ∃ name body, gs = [(1, name), (2, body)] ∧ IsWord name := by
  obtain ⟨t', h⟩ := h.captures
  have hparts : (seqs [word 1, group 2 (star false (· != ch '\x7d'))]).Matches t' gs := h
  simp only [seqs, Matches, word, matches_plus] at hparts
  obtain ⟨name, _, _, _, -, rfl, ⟨_, rfl, hname, rfl⟩, body, _, _, _, -, rfl, ⟨_, rfl, -, rfl⟩,
    -, rfl⟩ := hparts
  exact ⟨name, body, rfl, hname⟩

theorem valueRegex_name (h : valueRegex.Matches t gs) : IsWord (gs.get 1) := by
  simp only [valueRegex, seqs, Matches, word, spaces, matches_text, matches_plus] at h
  obtain ⟨_, _, _, _, -, rfl, ⟨_, rfl, hname, rfl⟩, -⟩ := h
  exact hname

theorem infix_trim (s : Str) : trim s <:+: s :=
  (List.rdropWhile_prefix _ _).isInfix.trans (List.dropWhile_suffix _).isInfix

theorem newline_of_mem_getLines {line : Str} (h : line ∈ getLines content) : 10 ∉ line := by
  have hmem : line ∈ content.splitOn 10 := by
    rw [getLines] at h
    split at h
    · exact List.mem_of_mem_dropLast h
    · exact h
  exact newline_not_mem_splitOn hmem

end

/-- A method that stands on one line. -/
structure OneLine (m : ExistingMethod) : Prop where
  name : 10 ∉ m.name
  returnType : 10 ∉ m.returnType
  params : 10 ∉ m.params

theorem oneLine_of_mem {content : Str} {m : ExistingMethod} (h : m ∈ parseExistingImpl content) :
    OneLine m := by
  obtain ⟨⟨line, n⟩, hx, hm⟩ := List.mem_filterMap.mp h
  have hline : 10 ∉ line := newline_of_mem_getLines (List.fst_mem_of_mem_zipIdx hx)
  rw [existingMethod] at hm
  split at hm
  · cases hm
  · obtain ⟨mt, hmt, rfl⟩ := Option.map_eq_some_iff.mp hm
    obtain ⟨t, ht, hr⟩ := mem_run_iff.mp (List.mem_of_head? hmt)
    have hsub : t <:+: line := ⟨[], mt.rest, ht.symm⟩
    have hget : ∀ n, 10 ∉ mt.groups.get n := fun n h =>
      hline (((infix_get hr n).trans hsub).subset h)
    exact ⟨hget 2, fun h => hget 1 ((infix_trim _).subset h),
      fun h => hget 3 ((infix_trim _).subset h)⟩

/-- A field has a name, and no comment in its type. -/
structure Fieldlike (f : ExistingField) : Prop where
  name : IsWord f.name
  type : ¬ lit "//" <:+: f.type

theorem of_mem_parseExistingStructs {content : Str} {s : ExistingStruct}
    (h : s ∈ parseExistingStructs content) :
    IsWord s.name ∧ ∀ f ∈ s.fields, Fieldlike f := by
  obtain ⟨gs, hgs, rfl⟩ := List.mem_map.mp h
  obtain ⟨t, -, ht⟩ := matches_of_mem_findAll hgs
  obtain ⟨name, body, rfl, hname⟩ := structRegex_groups ht
  refine ⟨hname, fun f hf => ?_⟩
  obtain ⟨gs', hgs', hf⟩ := List.mem_filterMap.mp hf
  obtain ⟨t', -, ht'⟩ := matches_of_mem_findAll hgs'
  obtain ⟨type, fname, rfl, hfname⟩ := fieldRegex_groups ht'
  simp only [existingField] at hf
  split at hf
  · cases hf
  · next hno =>
    obtain rfl := Option.some.inj hf
    exact ⟨hfname, fun h => hno (.inr (.inr h))⟩

theorem isWord_existingEnumValue {t : Str} {gs : Groups UInt8} {v : ExistingEnumValue}
    (ht : valueRegex.Matches t gs) (h : existingEnumValue gs = some v) : IsWord v.name := by
  have hname := valueRegex_name ht
  rw [existingEnumValue] at h
  split at h
  · obtain rfl := Option.some.inj h
    exact hname
  · obtain ⟨n, -, rfl⟩ := Option.map_eq_some_iff.mp h
    exact hname

theorem of_mem_parseExistingEnums {content : Str} {enums : List ExistingEnum} {e : ExistingEnum}
    (h : parseExistingEnums content = some enums) (he : e ∈ enums) :
    IsWord e.name ∧ ∀ v ∈ e.values, IsWord v.name := by
  obtain ⟨gs, hgs, hval⟩ := List.exists_of_forall₂_right (List.forall₂_of_mapM h) he
  obtain ⟨t, -, ht⟩ := matches_of_mem_findAll hgs
  obtain ⟨name, body, rfl, hname⟩ := enumRegex_groups ht
  obtain ⟨values, hvalues, rfl⟩ := Option.map_eq_some_iff.mp hval
  refine ⟨hname, fun v hv => ?_⟩
  obtain ⟨gs', hgs', hv'⟩ := List.exists_of_forall₂_right (List.forall₂_of_mapM hvalues) hv
  obtain ⟨t', -, ht'⟩ := matches_of_mem_findAll (List.mem_filter.mp hgs').1
  exact isWord_existingEnumValue ht' hv'

/-! ## Comment lines -/

/-- Every line is blank or begins with `//`. -/
def Commented (s : Str) : Prop := ∀ l ∈ s.splitOn 10, l.all isSpace = true ∨ lit "//" <+: l

/-- So is every line but the first one. -/
def Continued (s : Str) : Prop := ∀ l ∈ (s.splitOn 10).tail, l.all isSpace = true ∨ lit "//" <+: l

instance (s : Str) : Decidable (Commented s) :=
  inferInstanceAs (Decidable (∀ l ∈ s.splitOn 10, _))

instance (s : Str) : Decidable (Continued s) :=
  inferInstanceAs (Decidable (∀ l ∈ (s.splitOn 10).tail, _))

section
variable {s t : Str}

theorem commented_endLine : Commented (endLine s ++ t) ↔ Commented s ∧ Commented t := by
  have hs : endLine s ++ t = s ++ 10 :: t := List.append_assoc s [10] t
  rw [Commented, hs, List.splitOn_append_cons_self, List.forall_mem_append]
  exact Iff.rfl

theorem commented_lines {ls : List Str} :
    Commented (ls.flatMap endLine) ↔ ∀ l ∈ ls, Commented l := by
  induction ls with
  | nil => exact iff_of_true (List.forall_mem_singleton.mpr (.inl rfl)) (List.forall_mem_nil _)
  | cons l ls ih => rw [List.flatMap_cons, commented_endLine, ih, List.forall_mem_cons]

theorem splitOn_append (hs : 10 ∉ s) : (s ++ t).splitOn 10 = (t.splitOn 10).modifyHead (s ++ ·) := by
  induction s with
  | nil =>
    show _ = (t.splitOn 10).modifyHead id
    rw [List.modifyHead_id]
    rfl
  | cons b s ih =>
    obtain ⟨hb, hs⟩ := not_or.mp (mt List.mem_cons.mpr hs)
    rw [List.cons_append, List.splitOn_cons_eq_if_modifyHead, if_neg (by simpa using Ne.symm hb), ih hs,
      List.modifyHead_modifyHead]
    rfl

/-- A line that begins with `//`, with some text behind it. -/
theorem commented_append (hs : 10 ∉ s) (h : lit "//" <+: s) : Commented (s ++ t) ↔ Continued t := by
  rw [Commented, splitOn_append hs, Continued]
  cases hsp : t.splitOn 10 with
  | nil => exact absurd hsp (List.splitOn_ne_nil _ _)
  | cons l ls =>
    rw [List.modifyHead_cons, List.forall_mem_cons]
    exact and_iff_right (.inr (h.trans (List.prefix_append _ _)))

theorem continued_of_newline (h : 10 ∉ s) : Continued s := by
  rw [Continued, List.splitOn_eq_singleton h]
  exact List.forall_mem_nil _

end

/-- One comment line. -/
def IsComment (s : Str) : Prop := lit "//" <+: s ∧ 10 ∉ s

instance (s : Str) : Decidable (IsComment s) := inferInstanceAs (Decidable (_ ∧ _))

namespace IsComment

variable {s t : Str}

theorem append (h : IsComment s) (ht : 10 ∉ t) : IsComment (s ++ t) :=
  ⟨h.1.trans (List.prefix_append s t), fun hm => (List.mem_append.mp hm).elim h.2 ht⟩

theorem commented (h : IsComment s) : Commented s := by
  have hc := (commented_append (t := []) h.2 h.1).mpr (continued_of_newline List.not_mem_nil)
  rwa [List.append_nil] at hc

end IsComment

/-! ### Texts of the tree -/

theorem newline_append {s t : Str} (hs : 10 ∉ s) (ht : 10 ∉ t) : 10 ∉ s ++ t := fun hm =>
  (List.mem_append.mp hm).elim hs ht

theorem newline_name {s : Str} (h : IsName s) : 10 ∉ s := fun hm =>
  absurd (List.all_eq_true.mp h.chars 10 hm) (by decide)

theorem newline_toStr (n : Int) : 10 ∉ toStr n := notMem_toStr_int (by decide) (by decide) n

theorem newline_repeated {n : Nat} {s : Str} (h : 10 ∉ s) : 10 ∉ repeated n s := by
  intro hm
  obtain ⟨l, hl, hm⟩ := List.mem_flatten.mp hm
  rw [List.eq_of_mem_replicate hl] at hm
  exact h hm

theorem newline_baseType {base : TypeBase} : base.Writable →
    10 ∉ (match base with
      | .primitive p => primitiveToCpp p
      | .user name => name) := by
  intro h
  cases base with
  | primitive p => cases p <;> decide
  | user name => exact newline_name h

theorem newline_typeToCpp {type : Ty} (h : type.Writable) : 10 ∉ typeToCpp type := by
  have hbase := newline_baseType h.base
  rw [typeToCpp]
  split
  · exact newline_append (newline_append (newline_repeated (by decide)) hbase)
      (newline_repeated (by decide))
  split
  · exact newline_append (newline_append (by decide) hbase) (by decide)
  · exact hbase

theorem newline_typeToParam {type : Ty} {name : Str} (h : type.Writable) (hn : 10 ∉ name) :
    10 ∉ typeToParam type name := by
  rw [typeToParam]
  split
  · exact newline_append (newline_append (newline_append (by decide) (newline_typeToCpp h))
      (by decide)) hn
  · exact newline_append (newline_append (newline_typeToCpp h) (by decide)) hn

theorem newline_intercalate {sep : Str} {ls : List Str} (hsep : 10 ∉ sep)
    (h : ∀ l ∈ ls, 10 ∉ l) : 10 ∉ sep.intercalate ls := by
  induction ls with
  | nil => exact List.not_mem_nil
  | cons l ls ih =>
    obtain ⟨hl, hls⟩ := List.forall_mem_cons.mp h
    cases ls with
    | nil =>
      rw [List.intercalate_singleton]
      exact hl
    | cons l' ls =>
      rw [List.intercalate_cons_cons]
      exact newline_append (newline_append hl hsep) (ih hls)

theorem newline_paramsToString {params : List Param} (h : ∀ p ∈ params, p.Writable) :
    10 ∉ paramsToString params := by
  refine newline_intercalate (by decide) fun l hl => ?_
  obtain ⟨p, hp, rfl⟩ := List.mem_map.mp hl
  exact newline_typeToParam (h p hp).type (newline_name (h p hp).name)

theorem newline_valueLine {name : Str} (value : Option Int64) (h : 10 ∉ name) :
    IsComment (valueLine name value) := by
  have hvalue : 10 ∉ (match value with
      | none => []
      | some v => lit " = " ++ toStr v.toInt) := by
    cases value with
    | none => exact List.not_mem_nil
    | some v => exact newline_append (by decide) (newline_toStr _)
  exact .append (.append (by decide) h) hvalue

theorem newline_time (now : Time) : 10 ∉ now.str := by
  have htwo : ∀ n : Nat, 10 ∉ twoDigits n := by
    intro n
    refine newline_append ?_ (newline_toStr _)
    split <;> decide
  have hdash : (10 : UInt8) ∉ lit "-" := by decide
  have hcolon : (10 : UInt8) ∉ lit ":" := by decide
  have hdate := newline_append (newline_append (newline_append (newline_append
    (newline_toStr now.year) hdash) (htwo now.month)) hdash) (htwo now.day)
  have hblank : (10 : UInt8) ∉ lit " " := by decide
  have hhour := newline_append (newline_append hdate hblank) (htwo now.hour)
  exact newline_append (newline_append (newline_append (newline_append hhour hcolon)
    (htwo now.minute)) hcolon) (htwo now.second)

/-! ### Parts of the report -/

section
variable {γ : Type} {title bottom : List Str} {xs : List γ} {lines : γ → List Str}

/-- A part is commented if what it lists is. -/
theorem forall_part (ht : ∀ l ∈ title, IsComment l) (hb : ∀ l ∈ bottom, IsComment l) :
    (∀ l ∈ part title xs lines bottom, Commented l) ↔ ∀ x ∈ xs, ∀ l ∈ lines x, Commented l := by
  rw [part]
  split
  · next hx =>
    rw [List.isEmpty_iff.mp hx]
    exact iff_of_true (List.forall_mem_nil _) (List.forall_mem_nil _)
  · simp only [List.forall_mem_append, List.forall_mem_singleton, List.forall_mem_flatMap]
    have hslash : Commented (lit "//") := IsComment.commented (by decide)
    exact ⟨fun h => h.1.2, fun h =>
      ⟨⟨⟨⟨hslash, fun l hl => (ht l hl).commented⟩, hslash⟩, h⟩, fun l hl => (hb l hl).commented⟩⟩

theorem commented_part (ht : ∀ l ∈ title, IsComment l) (hb : ∀ l ∈ bottom, IsComment l)
    (h : ∀ x ∈ xs, ∀ l ∈ lines x, IsComment l) :
    ∀ l ∈ part title xs lines bottom, Commented l :=
  (forall_part ht hb).mpr fun x hx l hl => (h x hx l hl).commented

end

/-- The lines about a new method are comments if those of its documentation are. -/
theorem commented_newMethod {m : Method} (h : m.Writable) :
    (∀ l ∈ newMethodLines m, Commented l) ↔ Continued m.doc := by
  have hname := newline_name h.name
  have hsig : IsComment (lit "//     " ++ typeToCpp m.returnType ++ lit " " ++ m.name ++ lit "(" ++
      paramsToString m.params ++ lit ") override \x7b") :=
    .append (.append (.append (.append (.append (.append (by decide)
      (newline_typeToCpp h.returnType)) (by decide)) hname) (by decide))
      (newline_paramsToString h.params)) (by decide)
  have hthrow : IsComment (lit "//         throw std::runtime_error(\"" ++ m.name ++
      lit " not implemented\");") := .append (.append (by decide) hname) (by decide)
  have htodo : IsComment (lit "//         // TODO: implement") := by decide
  have hclose : IsComment (lit "//     \x7d") := by decide
  have hslash : IsComment (lit "//") := by decide
  have hdoc : (∀ l ∈ (if m.doc = [] then [] else [lit "//     /// " ++ m.doc]), Commented l) ↔
      Continued m.doc := by
    split
    · next hm =>
      rw [hm]
      exact iff_of_true (List.forall_mem_nil _) (continued_of_newline List.not_mem_nil)
    · rw [List.forall_mem_singleton]
      exact commented_append (by decide) (by decide)
  simp only [newMethodLines, List.forall_mem_append, List.forall_mem_cons, hdoc, hsig.commented,
    hthrow.commented, htodo.commented, hclose.commented, hslash.commented, List.not_mem_nil,
    false_imp_iff, implies_true, and_true]

theorem comment_removedMethod {m : ExistingMethod} (h : OneLine m) :
    ∀ l ∈ removedMethodLines m, IsComment l := by
  simp only [removedMethodLines, List.forall_mem_cons]
  refine ⟨?_, ?_, by decide⟩
  · exact .append (.append (.append (.append (.append (.append (by decide) h.returnType) (by decide))
      h.name) (by decide)) h.params) (by decide)
  · exact .append (.append (by decide) (newline_toStr _)) (by decide)

theorem comment_modifiedMethod {e : ExistingMethod × Method} (h : OneLine e.1) (hm : e.2.Writable) :
    ∀ l ∈ modifiedMethodLines e, IsComment l := by
  have hname := newline_name hm.name
  simp only [modifiedMethodLines, List.forall_mem_cons]
  refine ⟨?_, ?_, ?_, ?_, by decide⟩
  · exact .append (.append (by decide) hname) (by decide)
  · exact .append (.append (.append (.append (.append (.append (by decide) h.returnType) (by decide))
      h.name) (by decide)) h.params) (by decide)
  · exact .append (.append (.append (.append (.append (.append (by decide)
      (newline_typeToCpp hm.returnType)) (by decide)) hname) (by decide))
      (newline_paramsToString hm.params)) (by decide)
  · exact .append (.append (by decide) (newline_toStr _)) (by decide)

theorem comment_fieldLine {f : Field} (h : f.Writable) :
    IsComment (fieldLine (typeToCpp f.type) f.name) :=
  .append (.append (.append (by decide) (newline_typeToCpp h.type)) (by decide)) (newline_name h.name)

theorem comment_newStruct {s : StructDef} (h : s.Writable) :
    ∀ l ∈ newStructLines s, IsComment l := by
  simp only [newStructLines, List.forall_mem_append, List.forall_mem_singleton,
    List.forall_mem_map]
  exact ⟨⟨.append (.append (by decide) (newline_name h.name)) (by decide),
    fun f hf => comment_fieldLine (h.fields f hf)⟩, by decide⟩

theorem comment_newEnum {e : EnumDef} (h : e.Writable) : ∀ l ∈ newEnumLines e, IsComment l := by
  have hkind : (10 : UInt8) ∉ lit (if e.isFlags then "flags " else "enum ") := by
    split <;> decide
  simp only [newEnumLines, List.forall_mem_append, List.forall_mem_singleton, List.forall_mem_map]
  exact ⟨⟨.append (.append (.append (by decide) hkind) (newline_name h.name)) (by decide),
    fun v hv => newline_valueLine v.value (newline_name (h.items v hv))⟩, by decide⟩

theorem comment_modifiedEnum {e : ExistingEnum × EnumDef} (h : ∀ v ∈ e.1.values, 10 ∉ v.name)
    (he : e.2.Writable) : ∀ l ∈ modifiedEnumLines e, IsComment l := by
  simp only [modifiedEnumLines, List.forall_mem_append, List.forall_mem_cons, List.forall_mem_map]
  exact ⟨⟨⟨⟨⟨.append (.append (by decide) (newline_name he.name)) (by decide), by decide⟩,
    fun v hv => newline_valueLine v.value (h v hv)⟩, by decide⟩,
    fun v hv => newline_valueLine v.value (newline_name (he.items v hv))⟩, by decide⟩

/-! ### Fields of the header -/

theorem not_isSpace_of_isWordChar {b : UInt8} (h : isWordChar b = true) : isSpace b = false := by
  have h0 : (ch '0').toNat = 48 := rfl
  have ha : (ch 'a').toNat = 97 := rfl
  have hA : (ch 'A').toNat = 65 := rfl
  have h_ : (ch '_').toNat = 95 := rfl
  have h32 : (32 : UInt8).toNat = 32 := rfl
  have h13 : (13 : UInt8).toNat = 13 := rfl
  simp only [isWordChar, isAlpha, isDigit, isSpace, Bool.or_eq_true, Bool.and_eq_true,
    decide_eq_true_eq, beq_iff_eq, Bool.or_eq_false_iff, Bool.and_eq_false_iff,
    decide_eq_false_iff_not, beq_eq_false_iff_ne, UInt8.le_iff_toNat_le, ne_eq,
    ← UInt8.toNat_inj] at h ⊢
  omega

/-- The line of a field stays one if its type does. What stands behind a newline in the type is
no comment, as the type has none. -/
theorem commented_fieldLine {f : ExistingField} (h : Fieldlike f) :
    Commented (fieldLine f.type f.name) ↔ 10 ∉ f.type := by
  have hname := h.name.newline
  constructor
  · intro hc hm
    obtain ⟨w, u, hw, hnw⟩ := List.eq_append_cons_of_mem (List.mem_reverse.mpr hm)
    have htype : f.type = u.reverse ++ 10 :: w.reverse := by
      rw [← List.reverse_reverse f.type, hw, List.reverse_append, List.reverse_cons,
        List.append_assoc]
      rfl
    have hlast : 10 ∉ w.reverse ++ lit " " ++ f.name :=
      newline_append (newline_append (fun hr => hnw (List.mem_reverse.mp hr)) (by decide)) hname
    have hline : fieldLine f.type f.name =
        (lit "//         " ++ u.reverse) ++ 10 :: (w.reverse ++ lit " " ++ f.name) := by
      rw [fieldLine, htype]
      simp only [List.append_assoc, List.cons_append]
    rw [hline, Commented, List.splitOn_append_cons_self, List.splitOn_eq_singleton hlast,
      List.forall_mem_append, List.forall_mem_singleton] at hc
    rcases hc.2 with hblank | hslash
    · obtain ⟨b, rest, hb⟩ := List.exists_cons_of_ne_nil h.name.1
      have hbm : b ∈ f.name := by
        rw [hb]
        exact List.mem_cons_self
      have hspace := List.all_eq_true.mp hblank b (List.mem_append_right _ hbm)
      rw [not_isSpace_of_isWordChar (h.name.2 b hbm)] at hspace
      cases hspace
    · -- a prefix `//` would be in the type, as a blank stands behind it
      obtain ⟨rest, hrest⟩ := hslash
      rw [show lit "//" = [47, 47] from rfl] at hrest
      cases hwr : w.reverse with
      | nil =>
        rw [hwr] at hrest
        exact absurd (List.cons.inj hrest).1 (by decide)
      | cons b v =>
        cases v with
        | nil =>
          rw [hwr] at hrest
          exact absurd (List.cons.inj (List.cons.inj hrest).2).1 (by decide)
        | cons b' v =>
          rw [hwr] at hrest
          obtain ⟨hb, hrest⟩ := List.cons.inj hrest
          obtain ⟨hb', -⟩ := List.cons.inj hrest
          refine h.type ?_
          rw [htype, hwr, ← hb, ← hb']
          exact ⟨u.reverse ++ [10], v, by simp [lit]⟩
  · intro hm
    exact (IsComment.append (.append (.append (by decide) hm) (by decide)) hname).commented

theorem commented_modifiedStruct {e : ExistingStruct × StructDef}
    (h : ∀ f ∈ e.1.fields, Fieldlike f) (hs : e.2.Writable) :
    (∀ l ∈ modifiedStructLines e, Commented l) ↔ ∀ f ∈ e.1.fields, 10 ∉ f.type := by
  have hname : IsComment (lit "//     " ++ e.2.name ++ lit ":") :=
    .append (.append (by decide) (newline_name hs.name)) (by decide)
  have hwas : IsComment (lit "//       WAS:") := by decide
  have hnow : IsComment (lit "//       NOW:") := by decide
  have hslash : IsComment (lit "//") := by decide
  have hnew : ∀ f ∈ e.2.fields, Commented (fieldLine (typeToCpp f.type) f.name) :=
    fun f hf => (comment_fieldLine (hs.fields f hf)).commented
  have hold : (∀ f ∈ e.1.fields, Commented (fieldLine f.type f.name)) ↔
      ∀ f ∈ e.1.fields, 10 ∉ f.type :=
    forall₂_congr fun f hf => commented_fieldLine (h f hf)
  simp only [modifiedStructLines, List.forall_mem_append, List.forall_mem_cons,
    List.forall_mem_map, hname.commented, hwas.commented, hnow.commented, hslash.commented, hold,
    List.not_mem_nil, false_imp_iff, implies_true, and_true, true_and]
  exact and_iff_left hnew

/-! ## The whole report -/

/-- The items of a report, of the tree and of files that were read. -/
structure Reportable (report : SyncReport) : Prop where
  newMethods : ∀ m ∈ report.newMethods, m.Writable
  removedMethods : ∀ m ∈ report.removedMethods, OneLine m
  modifiedMethods : ∀ e ∈ report.modifiedMethods, OneLine e.1 ∧ e.2.Writable
  newStructs : ∀ s ∈ report.newStructs, s.Writable
  removedStructs : ∀ s ∈ report.removedStructs, 10 ∉ s.name
  modifiedStructs : ∀ e ∈ report.modifiedStructs, (∀ f ∈ e.1.fields, Fieldlike f) ∧ e.2.Writable
  newEnums : ∀ e ∈ report.newEnums, e.Writable
  removedEnums : ∀ e ∈ report.removedEnums, 10 ∉ e.name
  modifiedEnums : ∀ e ∈ report.modifiedEnums, (∀ v ∈ e.1.values, 10 ∉ v.name) ∧ e.2.Writable

/-- The report is made of comment lines unless the documentation of a new method or the type of
a field in the header goes on in another line. -/
theorem commented_report_iff {ns : Namespace} (hns : IsName ns.name) {report : SyncReport}
    (h : Reportable report) (now : Time) :
    Commented (generateSyncReport ns report now) ↔
      (∀ m ∈ report.newMethods, Continued m.doc) ∧
        ∀ e ∈ report.modifiedStructs, ∀ f ∈ e.1.fields, 10 ∉ f.type := by
  have htop : ∀ l ∈ reportTop ns now, Commented l := by
    have hrule : IsComment (lit "// ============================================================") := by
      decide
    have hnil : Commented [] := List.forall_mem_singleton.mpr (.inl rfl)
    have hname : IsComment (lit "// SCAFFOLD SYNC REPORT - " ++ ns.name ++ lit ".song") :=
      .append (.append (by decide) (newline_name hns)) (by decide)
    have htime : IsComment (lit "// Generated: " ++ now.str) := .append (by decide) (newline_time now)
    simp only [reportTop, List.forall_mem_cons, hrule.commented, hnil, hname.commented,
      htime.commented, List.not_mem_nil, false_imp_iff, implies_true, and_true]
  have hbottom : Commented (lit "// ============================================================") :=
    IsComment.commented (by decide)
  have hnone : ∀ l ∈ ([] : List Str), IsComment l := List.forall_mem_nil _
  rw [generateSyncReport, commented_lines]
  simp only [reportLines, List.forall_mem_append, List.forall_mem_singleton]
  constructor
  · rintro ⟨⟨⟨⟨⟨⟨⟨⟨⟨⟨-, hnew⟩, -⟩, -⟩, -⟩, -⟩, hfields⟩, -⟩, -⟩, -⟩, -⟩
    refine ⟨fun m hm => ?_, fun e he => ?_⟩
    · exact (commented_newMethod (h.newMethods m hm)).mp
        ((forall_part (by decide) hnone).mp hnew m hm)
    · obtain ⟨hold, hs⟩ := h.modifiedStructs e he
      exact (commented_modifiedStruct hold hs).mp ((forall_part (by decide) hnone).mp hfields e he)
  · rintro ⟨hnew, hfields⟩
    refine ⟨⟨⟨⟨⟨⟨⟨⟨⟨⟨htop, ?_⟩, ?_⟩, ?_⟩, ?_⟩, ?_⟩, ?_⟩, ?_⟩, ?_⟩, ?_⟩, hbottom⟩
    · exact (forall_part (by decide) hnone).mpr fun m hm =>
        (commented_newMethod (h.newMethods m hm)).mpr (hnew m hm)
    · exact commented_part (by decide) hnone fun m hm =>
        comment_removedMethod (h.removedMethods m hm)
    · exact commented_part (by decide) hnone fun e he =>
        comment_modifiedMethod (h.modifiedMethods e he).1 (h.modifiedMethods e he).2
    · exact commented_part (by decide) hnone fun s hs => comment_newStruct (h.newStructs s hs)
    · exact commented_part (by decide) (by decide) fun s hs =>
        List.forall_mem_singleton.mpr (.append (by decide) (h.removedStructs s hs))
    · exact (forall_part (by decide) hnone).mpr fun e he =>
        (commented_modifiedStruct (h.modifiedStructs e he).1 (h.modifiedStructs e he).2).mpr
          (hfields e he)
    · exact commented_part (by decide) hnone fun e he => comment_newEnum (h.newEnums e he)
    · exact commented_part (by decide) (by decide) fun e he =>
        List.forall_mem_singleton.mpr (.append (by decide) (h.removedEnums e he))
    · exact commented_part (by decide) hnone fun e he =>
        comment_modifiedEnum (h.modifiedEnums e he).1 (h.modifiedEnums e he).2

/-! ## What is appended -/

section
variable {ns : Namespace} {service : ServiceDef} {impl : Str} {header : Option Str}
  {report : SyncReport} {now : Time} {out : Str}

/-- The report is that of the three comparisons, or of the first one. -/
theorem sync_cases (h : sync ns service impl header = some report) :
    (header = none ∧ report = compare service (parseExistingImpl impl)) ∨
      ∃ text enums, header = some text ∧ parseExistingEnums text = some enums ∧
        report = compareEnums ns enums (compareStructs ns (parseExistingStructs text)
          (compare service (parseExistingImpl impl))) := by
  cases header with
  | none => exact .inl ⟨rfl, (Option.some.inj h).symm⟩
  | some text =>
    obtain ⟨enums, henums, rfl⟩ := Option.map_eq_some_iff.mp h
    exact .inr ⟨text, enums, rfl, henums, rfl⟩

theorem reportable_sync (hns : ns.Writable) (hs : service.Writable)
    (h : sync ns service impl header = some report) : Reportable report := by
  have hnew : ∀ m ∈ (compare service (parseExistingImpl impl)).newMethods, m.Writable :=
    fun m hm => hs.methods m ((Diff.sublist_added _ _).subset hm)
  have hremoved : ∀ m ∈ (compare service (parseExistingImpl impl)).removedMethods, OneLine m :=
    fun m hm => oneLine_of_mem (Diff.mem_of_mem_removed hm)
  have hmodified : ∀ e ∈ (compare service (parseExistingImpl impl)).modifiedMethods,
      OneLine e.1 ∧ e.2.Writable := by
    intro e he
    obtain ⟨hold, hm⟩ := Diff.mem_of_mem_changed he
    exact ⟨oneLine_of_mem hold, hs.methods _ hm⟩
  rcases sync_cases h with ⟨-, rfl⟩ | ⟨text, enums, -, henums, rfl⟩
  · exact ⟨hnew, hremoved, hmodified, nofun, nofun, nofun, nofun, nofun, nofun⟩
  · refine ⟨hnew, hremoved, hmodified, ?_, ?_, ?_, ?_, ?_, ?_⟩
    · exact fun s hs => hns.structs s ((Diff.sublist_added _ _).subset hs)
    · exact fun s hs =>
        (of_mem_parseExistingStructs (Diff.mem_of_mem_removed hs)).1.newline
    · intro e he
      obtain ⟨hold, hs⟩ := Diff.mem_of_mem_changed he
      exact ⟨(of_mem_parseExistingStructs hold).2, hns.structs _ hs⟩
    · exact fun e he => hns.enums e ((Diff.sublist_added _ _).subset he)
    · exact fun e he => (of_mem_parseExistingEnums henums (Diff.mem_of_mem_removed he)).1.newline
    · intro e he
      obtain ⟨hold, hs⟩ := Diff.mem_of_mem_changed he
      exact ⟨fun v hv => ((of_mem_parseExistingEnums henums hold).2 v hv).newline, hns.enums _ hs⟩

/-- A method of the service that the implementation does not have, or that has the name of an
earlier one, is documented by comment lines only. -/
def NewDocsFit (service : ServiceDef) (methods : List ExistingMethod) : Prop :=
  ∀ pre m post, service.methods = pre ++ m :: post →
    m.name ∉ methods.map ExistingMethod.name ∨ m.name ∈ pre.map Method.name → Continued m.doc

/-- A struct of the header that the namespace has with other fields, has its types on one line
each. -/
def OldFieldsFit (ns : Namespace) (structs : List ExistingStruct) : Prop :=
  ∀ pre s post, ns.structs = pre ++ s :: post → s.name ∉ pre.map StructDef.name →
    ∀ old, structs.reverse.find? (fun a => a.name = s.name) = some old →
      fieldsDiffer old s = true → ∀ f ∈ old.fields, 10 ∉ f.type

theorem newDocsFit_iff {methods : List ExistingMethod} :
    (∀ m ∈ (compare service methods).newMethods, Continued m.doc) ↔ NewDocsFit service methods := by
  constructor
  · intro h pre m post hm hnew
    refine h m ((Diff.mem_added_iff m).mpr ⟨pre, post, hm, hnew.imp_left ?_⟩)
    exact Diff.lookup_ofList_eq_none.mpr
  · intro h m hm
    obtain ⟨pre, post, he, hnew⟩ := (Diff.mem_added_iff m).mp hm
    exact h pre m post he (hnew.imp_left Diff.lookup_ofList_eq_none.mp)

theorem oldFieldsFit_iff {structs : List ExistingStruct} {r : SyncReport}
    (hr : r.modifiedStructs = []) :
    (∀ e ∈ (compareStructs ns structs r).modifiedStructs, ∀ f ∈ e.1.fields, 10 ∉ f.type) ↔
      OldFieldsFit ns structs := by
  have hmod : (compareStructs ns structs r).modifiedStructs =
      (Diff.diff ExistingStruct.name StructDef.name fieldsDiffer strLe structs ns.structs).changed := by
    show r.modifiedStructs ++ _ = _
    rw [hr, List.nil_append]
  rw [hmod]
  constructor
  · intro h pre s post he hs old hold hd
    refine h (old, s) ((Diff.mem_changed_iff old s).mpr ⟨pre, post, he, hs, ?_, hd⟩)
    rw [Diff.lookup_ofList_eq, hold]
  · rintro h ⟨old, s⟩ hm
    obtain ⟨pre, post, he, hs, hl, hd⟩ := (Diff.mem_changed_iff old s).mp hm
    rw [Diff.lookup_ofList_eq] at hl
    exact h pre s post he hs old hl hd

/-- The output is the implementation with comment lines behind it. -/
def Appends (impl out : Str) : Prop := ∃ app, out = impl ++ app ∧ Commented app

/-- Whatever there is to report, the output is what was there and the report. -/
theorem appends_iff (hns : ns.Writable) (hs : service.Writable)
    (h : generate ns service (some impl) header now = some out) :
    Appends impl out ↔ NewDocsFit service (parseExistingImpl impl) ∧
      ∀ text ∈ header, OldFieldsFit ns (parseExistingStructs text) := by
  obtain ⟨report, hsync, hout⟩ := Option.map_eq_some_iff.mp h
  have hrep := reportable_sync hns hs hsync
  have hfit : ((∀ m ∈ report.newMethods, Continued m.doc) ∧
      ∀ e ∈ report.modifiedStructs, ∀ f ∈ e.1.fields, 10 ∉ f.type) ↔
      NewDocsFit service (parseExistingImpl impl) ∧
        ∀ text ∈ header, OldFieldsFit ns (parseExistingStructs text) := by
    rcases sync_cases hsync with ⟨rfl, rfl⟩ | ⟨text, enums, rfl, -, rfl⟩
    · exact and_congr newDocsFit_iff (iff_of_true nofun nofun)
    · refine and_congr newDocsFit_iff ?_
      rw [show (∀ text' ∈ some text, OldFieldsFit ns (parseExistingStructs text')) ↔
        OldFieldsFit ns (parseExistingStructs text) from
          ⟨fun h => h text rfl, fun h _ he => Option.some.inj he ▸ h⟩]
      exact oldFieldsFit_iff rfl
  rw [← hfit]
  split at hout
  · -- a report is appended
    subst hout
    rw [← commented_report_iff hns.name hrep now]
    constructor
    · rintro ⟨app, he, hc⟩
      rwa [List.append_cancel_left he]
    · exact fun hc => ⟨_, rfl, hc⟩
  · next hno =>
    -- nothing has changed, so that no list of the report has an element
    subst hout
    have hnot : report.hasChanges = false := Bool.eq_false_iff.mpr hno
    have hempty := (hasChanges_eq_false report).mp hnot
    refine iff_of_true ⟨_, rfl, by decide⟩ ⟨?_, ?_⟩
    · rw [hempty.1.1]
      exact List.forall_mem_nil _
    · rw [hempty.2.1.2.2]
      exact List.forall_mem_nil _

/-- There is an output unless a number in an enum of the header is out of range. It is the
implementation with comment lines behind it exactly if the documentation of the new methods and
the types of the fields that have changed fit. -/
theorem generate_appends_iff (hns : ns.Writable) (hs : service.Writable) (impl : Str)
    (header : Option Str) (now : Time) :
    (generate ns service (some impl) header now = none ↔
      ∃ text ∈ header, parseExistingEnums text = none) ∧
    ∀ out, generate ns service (some impl) header now = some out →
      (Appends impl out ↔ NewDocsFit service (parseExistingImpl impl) ∧
        ∀ text ∈ header, OldFieldsFit ns (parseExistingStructs text)) := by
  refine ⟨?_, fun out => appends_iff hns hs⟩
  rw [generate, Option.map_eq_none_iff]
  cases header with
  | none => exact iff_of_false nofun nofun
  | some text =>
    rw [sync, Option.map_eq_none_iff]
    exact ⟨fun h => ⟨text, rfl, h⟩, fun ⟨_, he, h⟩ => Option.some.inj he ▸ h⟩

end

/-- A method documented in two lines. -/
def store : ServiceDef where
  name := lit "Store"
  methods := [{ name := lit "flush", params := [], returnType := { base := .primitive .void }
                doc := lit "Writes everything.\nBlocks until it is done." }]

theorem writable_store : store.Writable where
  name := ⟨rfl, rfl, rfl⟩
  methods := List.forall_mem_singleton.mpr
    { name := ⟨rfl, rfl, rfl⟩, params := nofun, returnType := ⟨trivial, by decide, rfl⟩
      throws := nofun, modifier := nofun }

theorem writable_depot : Namespace.Writable { name := lit "depot" } :=
  ⟨⟨rfl, rfl, rfl⟩, nofun, nofun, nofun, nofun, nofun⟩

/-- A class that does not have the method yet. -/
def storeImpl : Str := lit "class StoreImpl : public IStore \x7b\n\x7d;\n"

def noon : Time := ⟨2026, 1, 1, 12, 0, 0⟩

theorem generate_appends_store :
    (generate { name := lit "depot" } store (some storeImpl) none noon = none ↔
      ∃ text ∈ (none : Option Str), parseExistingEnums text = none) ∧
    ∀ out, generate { name := lit "depot" } store (some storeImpl) none noon = some out →
      (Appends storeImpl out ↔ NewDocsFit store (parseExistingImpl storeImpl) ∧
        ∀ text ∈ (none : Option Str), OldFieldsFit { name := lit "depot" }
          (parseExistingStructs text)) :=
  generate_appends_iff writable_depot writable_store storeImpl none noon

/-- The second line of the documentation stands behind the implementation as it is. -/
theorem not_appends_store :
    ¬ ∀ (ns : Namespace) (service : ServiceDef) (impl : Str) (header : Option Str) (now : Time)
      (out : Str), ns.Writable → service.Writable →
        generate ns service (some impl) header now = some out → Appends impl out := by
  intro h
  have hgen : generate { name := lit "depot" } store (some storeImpl) none noon = some _ := rfl
  have happ := h _ _ _ _ _ _ writable_depot writable_store hgen
  have hfit := ((appends_iff writable_depot writable_store hgen).mp happ).1
  exact absurd (hfit [] _ [] rfl (.inl (by decide))) (by decide)

end Song.Compiler.ScaffoldGenerator
