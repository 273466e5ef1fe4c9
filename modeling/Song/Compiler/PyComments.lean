import Song.Compiler.Constants
import Song.Compiler.DocText
import Song.Compiler.Lexical
import Song.Compiler.Written

/-!
# The lines of the module and their documentation

Whatever the names of a namespace are, the code of its module has no quotation marks. So where
every documentation string ends where it should, all the code is read (`closed_module`).
-/

namespace Song.Compiler

open PyText (unquoted)

namespace PyText

/-! ## Text without quotation marks -/

theorem unquoted_lit {cs : List Char} (h : unquoted (cs.map fun c => UInt8.ofNat c.toNat) = true) :
    unquoted (lit (String.ofList cs)) = true := by
  rwa [lit, String.toList_ofList]

section
variable {s s' : Str}

theorem unquoted_append : unquoted (s ++ s') = true ↔ unquoted s = true ∧ unquoted s' = true := by
  rw [unquoted, List.all_append, Bool.and_eq_true]
  exact Iff.rfl

theorem unquoted_of_ne (h34 : 34 ∉ s) (h39 : 39 ∉ s) : unquoted s = true := by
  refine List.all_eq_true.mpr fun b hb => ?_
  rw [Bool.and_eq_true, bne_iff_ne, bne_iff_ne]
  exact ⟨fun he => h34 (he ▸ hb), fun he => h39 (he ▸ hb)⟩

theorem unquoted_toStr (n : Int) : unquoted (toStr n) = true :=
  unquoted_of_ne (notMem_toStr_int (by decide) (by decide) n)
    (notMem_toStr_int (by decide) (by decide) n)

theorem unquoted_suffix (p : PrimitiveType) : unquoted p.suffix = true := by
  cases p <;> exact unquoted_lit rfl

theorem unquoted_replaceAll {old new : Str} (hn : unquoted new = true) (h : unquoted s = true)
    (k : Nat) : unquoted (replaceAll old new k s) = true := by
  induction s generalizing k with
  | nil =>
    cases k with
    | zero => exact h
    | succ k => exact h
  | cons b s ih =>
    have hs : unquoted s = true := (Bool.and_eq_true_iff.mp h).2
    have hb : unquoted [b] = true := Bool.and_eq_true_iff.mpr ⟨(Bool.and_eq_true_iff.mp h).1, rfl⟩
    cases k with
    | zero =>
      rw [replaceAll]
      split
      · exact unquoted_append.mpr ⟨hn, ih hs _⟩
      · exact unquoted_append.mpr ⟨hb, ih hs _⟩
    | succ k => exact ih hs k

end

end PyText

theorem IsName.unquoted {s : Str} (h : IsName s) : unquoted s = true := by
  have hne : ∀ c : UInt8, isWordChar c = false → c ∉ s := by
    intro c hc hm
    have hw := List.all_eq_true.mp h.chars c hm
    rw [hc] at hw
    cases hw
  exact PyText.unquoted_of_ne (hne 34 rfl) (hne 39 rfl)

namespace PyText

open Piece (var own)

/-! ## Lines -/

/-- No piece has quotation marks. -/
def Plain (c : Code) : Prop := ∀ p ∈ c, unquoted (p.str Mark.str) = true

def Closed (ls : List Line) : Prop := ∀ l ∈ ls, l.Closed

section
variable {c c' : Code} {p : Piece Mark} {s : String} {n : Str} {l : Line} {ls ls' : List Line}

theorem unquoted_str : unquoted c.str = true ↔ Plain c := by
  induction c with
  | nil => exact iff_of_true rfl (List.forall_mem_nil _)
  | cons p c ih =>
    rw [show Code.str (p :: c) = p.str Mark.str ++ Code.str c from rfl, unquoted_append, ih]
    exact (List.forall_mem_cons (p := fun p : Piece Mark => unquoted (p.str Mark.str) = true)).symm

@[simp] theorem plain_nil : Plain [] := List.forall_mem_nil _

theorem plain_cons : Plain (p :: c) ↔ unquoted (p.str Mark.str) = true ∧ Plain c :=
  List.forall_mem_cons

@[simp] theorem plain_append : Plain (c ++ c') ↔ Plain c ∧ Plain c' := List.forall_mem_append

@[simp] theorem plain_t (h : unquoted (lit s) = true) : Plain (t s :: c) ↔ Plain c :=
  plain_cons.trans (and_iff_right h)

@[simp] theorem plain_own (h : unquoted (lit s) = true) : Plain (own s :: c) ↔ Plain c :=
  plain_cons.trans (and_iff_right h)

@[simp] theorem plain_var (h : unquoted (lit s) = true) : Plain (var s :: c) ↔ Plain c :=
  plain_cons.trans (and_iff_right h)

@[simp] theorem plain_raw : Plain (raw n :: c) ↔ unquoted n = true ∧ Plain c := plain_cons

@[simp] theorem plain_named : Plain (named n :: c) ↔ unquoted n = true ∧ Plain c := plain_cons

@[simp] theorem plain_bind {who : Option Nat} :
    Plain (.bind who n :: c) ↔ unquoted n = true ∧ Plain c := plain_cons

@[simp] theorem plain_use {who : Option Nat} :
    Plain (.use who n :: c) ↔ unquoted n = true ∧ Plain c := plain_cons

@[simp] theorem plain_enter : Plain (.enter :: c) ↔ Plain c := plain_cons.trans (and_iff_right rfl)

@[simp] theorem plain_leave : Plain (.leave :: c) ↔ Plain c := plain_cons.trans (and_iff_right rfl)

@[simp] theorem plain_runs : Plain (runs n :: c) ↔ unquoted n = true ∧ Plain c := plain_cons

theorem plain_evaluates : Plain (evaluates n :: c) ↔ unquoted n = true ∧ Plain c := plain_cons

@[simp] theorem plain_evaluates_lit (h : unquoted (lit s) = true) :
    Plain (evaluates (lit s) :: c) ↔ Plain c := plain_cons.trans (and_iff_right h)

@[simp] theorem plain_binds : Plain (binds n :: c) ↔ Plain c := plain_cons.trans (and_iff_right rfl)

@[simp] theorem plain_defines : Plain (defines n :: c) ↔ Plain c :=
  plain_cons.trans (and_iff_right rfl)

@[simp] theorem plain_field {b : Bool} : Plain (field n b :: c) ↔ Plain c :=
  plain_cons.trans (and_iff_right rfl)

@[simp] theorem plain_opens : Plain (opens n :: c) ↔ Plain c := plain_cons.trans (and_iff_right rfl)

@[simp] theorem plain_closes : Plain (closes :: c) ↔ Plain c := plain_cons.trans (and_iff_right rfl)

@[simp] theorem plain_unless {q : Prop} [Decidable q] :
    Plain (if q then c else []) ↔ q → Plain c := by
  split
  · next hq => exact ⟨fun h _ => h, fun h => h hq⟩
  · next hq => exact iff_of_true plain_nil fun h => absurd h hq

theorem plain_replace {old new : Str} (hn : unquoted new = true) (h : Plain c) :
    Plain (c.replace old new) := by
  refine List.forall_mem_map.mpr fun p hp => ?_
  have hstr := h p hp
  cases p with
  | mark m =>
    cases m with
    | runs name => exact unquoted_replaceAll hn hstr 0
    | _ => exact hstr
  | enter | leave => exact hstr
  | _ => exact unquoted_replaceAll hn hstr 0

@[simp] theorem closed_nil : Closed [] := List.forall_mem_nil _

@[simp] theorem closed_cons : Closed (l :: ls) ↔ l.Closed ∧ Closed ls := List.forall_mem_cons

@[simp] theorem closed_append : Closed (ls ++ ls') ↔ Closed ls ∧ Closed ls' :=
  List.forall_mem_append

@[simp] theorem closed_flatMap {α : Type} {f : α → List Line} {xs : List α} :
    Closed (xs.flatMap f) ↔ ∀ x ∈ xs, Closed (f x) := List.forall_mem_flatMap

@[simp] theorem closed_map {α : Type} {f : α → Line} {xs : List α} :
    Closed (xs.map f) ↔ ∀ x ∈ xs, (f x).Closed := List.forall_mem_map

@[simp] theorem closed_line : (line c).Closed ↔ Plain c := unquoted_str

@[simp] theorem closed_blank : blank.Closed := closed_line.mpr plain_nil

theorem closed_docstring {indent : String} {doc : Str} (hi : ∀ b ∈ lit indent, b = 32)
    (h : Inert doc) : Closed (docstring indent doc) := by
  unfold docstring
  split
  · exact closed_nil
  · exact List.forall_mem_singleton.mpr ⟨hi, h⟩

end

/-! ## Types and calls -/

/-- The name in a call has no quotation marks. -/
def UnquotedBase : TypeBase → Prop
  | .primitive _ => True
  | .user name => unquoted name = true

def UnquotedCall : PyCall → Prop
  | .base b | .optional b => UnquotedBase b
  | .helper _ => True
  | .loop elem => UnquotedCall elem

section
variable {type : Ty} {b : TypeBase} {buf : Piece Mark} {expr : Code} {call : PyCall}
  {params : List Param}

theorem unquotedBase (h : b.Writable) : UnquotedBase b := by
  cases b with
  | primitive p => trivial
  | user name => exact IsName.unquoted h

theorem plain_baseToPython (h : b.Writable) : Plain (baseToPython b) := by
  cases b with
  | primitive p =>
    cases p <;> simp (disch := exact unquoted_lit rfl) [baseToPython, primitiveToPython]
  | user name => exact plain_evaluates.mpr ⟨IsName.unquoted h, plain_nil⟩

theorem plain_replicate {p : Piece Mark} (hp : unquoted (p.str Mark.str) = true) (n : Nat) :
    Plain (List.replicate n p) := fun q hq => by
  rw [List.eq_of_mem_replicate hq]
  exact hp

theorem plain_typeToTypeHint (h : type.Writable) : Plain (typeToTypeHint type) := by
  have hbase := plain_baseToPython h.base
  have hopen : ∀ n : Nat, Plain (List.replicate n [evaluates (lit "list"), t "["]).flatten := by
    intro n
    refine List.forall_mem_flatten.mpr fun c hc => ?_
    rw [List.eq_of_mem_replicate hc]
    show Plain _
    simp (disch := exact unquoted_lit rfl)
  unfold typeToTypeHint typeToPython
  split
  · rw [plain_append, plain_append]
    exact ⟨⟨hopen _, hbase⟩, plain_replicate (p := t "]") (unquoted_lit rfl) _⟩
  · split
    · simp (disch := exact unquoted_lit rfl) [hbase]
    · exact hbase

theorem unquotedCall_encode (h : type.base.Writable) : UnquotedCall (pyEncodeCall type) := by
  have hdims : ∀ n, UnquotedCall (pyEncodeDims type.base type.isOptional n) := by
    intro n
    induction n with
    | zero =>
      rw [pyEncodeDims]
      split
      · exact unquotedBase h
      · exact unquotedBase h
    | succ n ih =>
      cases n with
      | zero =>
        cases hb : type.base with
        | primitive p =>
          rw [hb] at ih
          cases p <;> trivial
        | user name =>
          rw [hb] at h
          exact unquotedBase h
      | succ n => exact ih
  exact hdims _

theorem unquotedCall_decode (h : type.base.Writable) : UnquotedCall (pyDecodeCall type) := by
  have hsame : ∀ n, pyDecodeDims type.base type.isOptional n =
      pyEncodeDims type.base type.isOptional n := by
    intro n
    induction n with
    | zero => rfl
    | succ n ih =>
      cases n with
      | zero => cases type.base with
        | primitive p => cases p <;> rfl
        | user name => rfl
      | succ n => exact congrArg PyCall.loop ih
  rw [pyDecodeCall, hsame]
  exact unquotedCall_encode h

theorem plain_encodeBase (hbuf : unquoted (buf.str Mark.str) = true) (he : Plain expr)
    (h : UnquotedBase b) : Plain (encodeBase buf expr b) := by
  cases b with
  | primitive p =>
    cases p with
    | void => exact plain_nil
    | _ =>
      simp (disch := exact unquoted_lit rfl) [encodeBase, plain_cons (p := buf), hbuf, he,
        unquoted_suffix]
  | user name =>
    have hname : unquoted (lit "encode_" ++ name) = true := unquoted_append.mpr ⟨unquoted_lit rfl, h⟩
    simp (disch := exact unquoted_lit rfl) [encodeBase, plain_cons (p := buf), hbuf, he, hname]

theorem plain_callEncode {indent : Str} (hbuf : unquoted (buf.str Mark.str) = true)
    (he : Plain expr) (hi : unquoted indent = true) (h : UnquotedCall call) :
    Plain (callEncode buf indent expr call) := by
  induction call generalizing indent expr with
  | base b => exact plain_encodeBase hbuf he h
  | optional b =>
    have hv : Plain (encodeBase buf [Piece.var "v"] b) :=
      plain_encodeBase hbuf (by simp (disch := exact unquoted_lit rfl)) h
    simp (disch := exact unquoted_lit rfl) [callEncode, plain_cons (p := buf), hbuf, he, hv]
  | helper p =>
    simp (disch := exact unquoted_lit rfl) [callEncode, plain_cons (p := buf), hbuf, he,
      unquoted_suffix]
  | loop elem ih =>
    have hitem : Plain (callEncode buf (indent ++ lit "    ") [Piece.var "_item"] elem) :=
      ih (by simp (disch := exact unquoted_lit rfl)) (unquoted_append.mpr ⟨hi, unquoted_lit rfl⟩) h
    simp (disch := exact unquoted_lit rfl) [callEncode, plain_cons (p := buf), hbuf, he, hi, hitem]

theorem plain_callDecode (hbuf : unquoted (buf.str Mark.str) = true) (h : UnquotedCall call) :
    Plain (callDecode buf call) := by
  have hbase : ∀ b, UnquotedBase b → Plain (decodeBase buf b) := by
    intro b hb
    cases b with
    | primitive p =>
      cases p with
      | void => exact plain_nil
      | _ =>
        simp (disch := exact unquoted_lit rfl) [decodeBase, plain_cons (p := buf), hbuf,
          unquoted_suffix]
    | user name =>
      have hname : unquoted (lit "decode_" ++ name) = true :=
        unquoted_append.mpr ⟨unquoted_lit rfl, hb⟩
      simp (disch := exact unquoted_lit rfl) [decodeBase, plain_cons (p := buf), hbuf, hname]
  induction call with
  | base b => exact hbase b h
  | optional b =>
    simp (disch := exact unquoted_lit rfl) [callDecode, plain_cons (p := buf), hbuf, hbase b h]
  | helper p =>
    simp (disch := exact unquoted_lit rfl) [callDecode, plain_cons (p := buf), hbuf,
      unquoted_suffix]
  | loop elem ih =>
    simp (disch := exact unquoted_lit rfl) [callDecode, plain_cons (p := buf), hbuf, ih h]

theorem plain_encode (h : type.Writable) (hbuf : unquoted (buf.str Mark.str) = true)
    (he : Plain expr) {indent : String} (hi : unquoted (lit indent) = true) :
    Plain (encode type expr buf indent) :=
  plain_callEncode hbuf he hi (unquotedCall_encode h.base)

theorem plain_decode (h : type.Writable) (hbuf : unquoted (buf.str Mark.str) = true) :
    Plain (decode type buf) :=
  plain_callDecode hbuf (unquotedCall_decode h.base)

theorem plain_methodParams (h : ∀ p ∈ params, p.Writable) : Plain (generateMethodParams params) := by
  refine List.forall_mem_flatMap.mpr fun x hx => ?_
  have hp := h x.1 (List.fst_mem_of_mem_zipIdx hx)
  show Plain ([t ", ", .bind (some x.2) x.1.name, t ": "] ++ typeToTypeHint x.1.type)
  simp (disch := exact unquoted_lit rfl) [hp.name.unquoted, plain_typeToTypeHint hp.type]

end

/-! ## The module -/

section
variable {s : StructDef} {e : EnumDef} {v : ServiceDef} {m : Method} {ns : Namespace}

/-- A documentation string that the generator makes up. -/
theorem inert_about {name : Str} {before after : String} (h : IsName name)
    (hb : (lit before).all (fun b => b ≠ 34 ∧ b ≠ 92) = true)
    (ha : (lit after).all (fun b => b ≠ 34 ∧ b ≠ 92) = true) :
    Inert (lit before ++ name ++ lit after) := by
  have hword : ∀ b ∈ name, b ≠ 34 ∧ b ≠ 92 := by
    intro b hb
    have hw := List.all_eq_true.mp h.chars b hb
    constructor
    · rintro rfl
      cases hw
    · rintro rfl
      cases hw
  refine inert_of_clear fun b hm => ?_
  rcases List.mem_append.mp hm with hm | hm
  · rcases List.mem_append.mp hm with hm | hm
    · exact of_decide_eq_true (List.all_eq_true.mp hb b hm)
    · exact hword b hm
  · exact of_decide_eq_true (List.all_eq_true.mp ha b hm)

theorem closed_structClass (h : s.Writable) (hd : Inert s.doc) : Closed (structClass s) := by
  have hfields : ∀ f ∈ s.fields, (fieldLine f).Closed := by
    intro f hf
    have hw := h.fields f hf
    have hnone : Plain (if f.type.isOptional then [t " = None"] else []) := by
      split
      · simp (disch := exact unquoted_lit rfl)
      · exact plain_nil
    unfold fieldLine
    rw [closed_line, plain_append, plain_append]
    refine ⟨⟨?_, plain_typeToTypeHint hw.type⟩, hnone⟩
    simp (disch := exact unquoted_lit rfl) [hw.name.unquoted]
  have hdoc : Closed (docstring "    " s.doc) := closed_docstring (spaces rfl) hd
  unfold structClass
  simp only [closed_append]
  refine ⟨⟨⟨?_, hdoc⟩, ?_⟩, ?_⟩
  · simp (disch := exact unquoted_lit rfl) [h.name.unquoted]
  · split
    · simp (disch := exact unquoted_lit rfl)
    · exact closed_map.mpr hfields
  · simp

theorem closed_structEncode (h : s.Writable) : Closed (structEncode s) := by
  have habout : Inert (lit "Encode " ++ s.name ++ lit " to buffer.") :=
    inert_about h.name rfl rfl
  have hindent : ∀ b ∈ lit "    ", b = 32 := spaces rfl
  unfold structEncode
  simp only [closed_append, closed_cons, closed_map]
  refine ⟨⟨⟨?_, ⟨hindent, habout⟩, closed_nil⟩, fun f hf => ?_⟩, ?_⟩
  · simp (disch := exact unquoted_lit rfl) [h.name.unquoted, plain_evaluates (n := s.name)]
  · have hw := h.fields f hf
    rw [closed_line, plain_append]
    refine ⟨by simp (disch := exact unquoted_lit rfl), plain_replace (unquoted_lit rfl) ?_⟩
    refine plain_encode hw.type ?_ ?_ (unquoted_lit rfl)
    · exact unquoted_lit rfl
    · simp (disch := exact unquoted_lit rfl) [hw.name.unquoted]
  · simp

theorem closed_structDecode (h : s.Writable) : Closed (structDecode s) := by
  have habout : Inert (lit "Decode " ++ s.name ++ lit " from buffer.") :=
    inert_about h.name rfl rfl
  have hindent : ∀ b ∈ lit "    ", b = 32 := spaces rfl
  unfold structDecode
  simp only [closed_append, closed_cons, closed_map]
  refine ⟨⟨⟨?_, ⟨hindent, habout⟩, ?_, closed_nil⟩, fun x hx => ?_⟩, ?_⟩
  · simp (disch := exact unquoted_lit rfl) [h.name.unquoted, plain_evaluates (n := s.name)]
  · simp (disch := exact unquoted_lit rfl) [h.name.unquoted]
  · have hw := h.fields x.1 (List.fst_mem_of_mem_zipIdx hx)
    unfold decodeField
    rw [closed_line, plain_append, plain_append]
    refine ⟨⟨?_, plain_replace (unquoted_lit rfl) (plain_decode hw.type (unquoted_lit rfl))⟩, ?_⟩
    · simp (disch := exact unquoted_lit rfl) [hw.name.unquoted]
    · simp (disch := exact unquoted_lit rfl)
  · simp (disch := exact unquoted_lit rfl)

theorem closed_structDef (h : s.Writable) (hd : Inert s.doc) : Closed (generateStructDef s) := by
  unfold generateStructDef
  rw [closed_append, closed_append]
  exact ⟨⟨closed_structClass h hd, closed_structEncode h⟩, closed_structDecode h⟩

theorem closed_enumItems {items : List EnumItem} (h : ∀ i ∈ items, IsName i.name) (next : Int64) :
    Closed (enumItems next items) := by
  induction items generalizing next with
  | nil => exact closed_nil
  | cons i items ih =>
    obtain ⟨hi, hs⟩ := List.forall_mem_cons.mp h
    rw [enumItems, closed_cons]
    refine ⟨?_, ih hs _⟩
    simp (disch := exact unquoted_lit rfl) [hi.unquoted, unquoted_toStr]

theorem closed_enumDef (h : e.Writable) (hd : Inert e.doc) : Closed (generateEnumDef e) := by
  unfold generateEnumDef
  rw [closed_append, closed_append]
  refine ⟨⟨?_, closed_docstring (spaces rfl) hd⟩, closed_enumItems h.items 0⟩
  simp (disch := exact unquoted_lit rfl) [h.name.unquoted]

theorem unquoted_service {name : Str} (h : unquoted name = true) :
    unquoted (Python.service name) = true :=
  unquoted_append.mpr ⟨unquoted_lit rfl, h⟩

theorem unquoted_method {owner name : Str} (ho : unquoted owner = true) (h : unquoted name = true) :
    unquoted (Python.method owner name) = true :=
  unquoted_append.mpr ⟨unquoted_lit rfl,
    unquoted_append.mpr ⟨unquoted_append.mpr ⟨ho, unquoted_lit rfl⟩, h⟩⟩

theorem closed_idLine {name : Str} (h : unquoted name = true) (n : Nat) :
    (idLine name n).Closed := by
  simp (disch := exact unquoted_lit rfl) [idLine, h, unquoted_toStr]

theorem closed_serviceIds (h : ns.Writable) : Closed (generateServiceIds ns) := by
  unfold generateServiceIds
  rw [closed_cons, closed_flatMap]
  refine ⟨by simp (disch := exact unquoted_lit rfl), fun x hx => ?_⟩
  have hv := h.services x.1 (List.fst_mem_of_mem_zipIdx hx)
  simp only [closed_append, closed_cons, closed_map, closed_blank, closed_nil, and_true]
  refine ⟨closed_idLine (unquoted_service hv.name.unquoted) _, fun m hm => ?_⟩
  have hname := (hv.methods m.1 (List.fst_mem_of_mem_zipIdx hm)).name.unquoted
  exact closed_idLine (unquoted_method hv.name.unquoted hname) _

theorem closed_proxyMethod (hv : unquoted v.name = true) (hm : m.Writable) (hd : Inert m.doc) :
    Closed (proxyMethod v m) := by
  have hparams : ∀ x ∈ m.params.zipIdx, (line ([t "        "] ++
      encode x.1.type [.use (some x.2) x.1.name] (Piece.var "req") "        ")).Closed := by
    intro x hx
    have hp := hm.params x.1 (List.fst_mem_of_mem_zipIdx hx)
    rw [closed_line, plain_append]
    refine ⟨by simp (disch := exact unquoted_lit rfl), ?_⟩
    refine plain_encode hp.type ?_ ?_ (unquoted_lit rfl)
    · exact unquoted_lit rfl
    · simp [hp.name.unquoted]
  have hdoc : Closed (docstring "        " m.doc) := closed_docstring (spaces rfl) hd
  unfold proxyMethod
  simp only [closed_append, closed_map]
  refine ⟨⟨⟨⟨⟨⟨?_, hdoc⟩, ?_⟩, hparams⟩, ?_⟩, ?_⟩, ?_⟩
  · simp (disch := exact unquoted_lit rfl) [hm.name.unquoted, plain_methodParams hm.params,
      plain_typeToTypeHint hm.returnType]
  · simp (disch := exact unquoted_lit rfl)
  · simp (disch := exact unquoted_lit rfl) [unquoted_service hv,
      unquoted_method hv hm.name.unquoted]
  · split
    · exact closed_nil
    · have hresp : Plain (decode m.returnType (Piece.var "resp")) :=
        plain_decode hm.returnType (unquoted_lit rfl)
      simp (disch := exact unquoted_lit rfl) [hresp]
  · simp

theorem closed_serviceProxy (h : v.Writable) (hd : v.DocsIn {d | Inert d}) :
    Closed (generateServiceProxy v) := by
  have hindent : ∀ b ∈ lit "    ", b = 32 := spaces rfl
  have habout : Inert (lit "Client proxy for " ++ v.name ++ lit " service.") :=
    inert_about h.name rfl rfl
  unfold generateServiceProxy
  rw [closed_append, closed_append, closed_append, closed_flatMap]
  refine ⟨⟨⟨?_, ?_⟩, ?_⟩, fun m hm => ?_⟩
  · simp (disch := exact unquoted_lit rfl) [h.name.unquoted]
  · split
    · exact List.forall_mem_singleton.mpr ⟨hindent, habout⟩
    · exact List.forall_mem_singleton.mpr ⟨hindent, hd.doc⟩
  · simp (disch := exact unquoted_lit rfl)
  · exact closed_proxyMethod h.name.unquoted (h.methods m hm) (hd.methods m hm)

theorem closed_moduleTop (h : ns.Writable) : Closed (moduleTop ns) := by
  simp (disch := exact unquoted_lit rfl) [moduleTop, h.name.unquoted]

/-- All the code of the module is read where every documentation string ends where it should. -/
theorem closed_module (h : ns.Writable) {D : Set Str} (hd : ns.DocsIn D {d | Inert d}) :
    Closed (generateModule ns) := by
  unfold generateModule
  simp only [closed_append, closed_flatMap]
  refine ⟨⟨⟨⟨closed_moduleTop h, ?_⟩, fun e he => ⟨?_, ?_⟩⟩, fun s hs => ⟨?_, ?_⟩⟩, fun v hv => ⟨?_, ?_⟩⟩
  · split
    · exact closed_nil
    · simp [closed_serviceIds h]
  · exact closed_enumDef (h.enums e he) (hd.enums e he).doc
  · simp
  · exact closed_structDef (h.structs s hs) (hd.structs s hs).doc
  · simp
  · exact closed_serviceProxy (h.services v hv) (hd.services v hv)
  · simp

end

end PyText

end Song.Compiler
