import Song.Lib.List
import Song.Compiler.CppHygiene
import Song.Compiler.PyText

/-!
# Names in the Python proxy

A method of the proxy binds `self`, its parameters, the buffers and, where it encodes an array
in a loop, the item, all in one scope. The rest of a module has no parameter of a method. So a
module is sound where no parameter is called as one of these (`module_sound_iff`). With the
header's names (`header_sound_iff`) that says which parameters both generators get right.
-/

namespace Song.Compiler

open Hygiene

namespace PyText

open Piece (var own)

def Line.scope : Line → List (Event Str)
  | .code c => scopesOf c
  | .docstring _ _ => []

/-- What the lines of a module do to the scopes. -/
def scopes (lines : List Line) : List (Event Str) := lines.flatMap Line.scope

section
variable (code : Code) (s : String) (n : Str) {l : Line} {lines lines' : List Line}

@[simp] theorem scopesOf_t : scopesOf (t s :: code) = scopesOf code := rfl

@[simp] theorem scopesOf_raw : scopesOf (raw n :: code) = scopesOf code := rfl

@[simp] theorem scopesOf_named : scopesOf (named n :: code) = .use none n :: scopesOf code := rfl

@[simp] theorem scopesOf_runs : scopesOf (runs n :: code) = scopesOf code := rfl

@[simp] theorem scopesOf_evaluates : scopesOf (evaluates n :: code) = scopesOf code := rfl

@[simp] theorem scopesOf_binds : scopesOf (binds n :: code) = scopesOf code := rfl

@[simp] theorem scopesOf_defines : scopesOf (defines n :: code) = scopesOf code := rfl

@[simp] theorem scopesOf_field (d : Bool) : scopesOf (field n d :: code) = scopesOf code := rfl

@[simp] theorem scopesOf_opens : scopesOf (opens n :: code) = scopesOf code := rfl

@[simp] theorem scopesOf_closes : scopesOf (closes :: code) = scopesOf code := rfl

@[simp] theorem scope_line : (line code).scope = scopesOf code := rfl

@[simp] theorem scope_blank : blank.scope = [] := rfl

@[simp] theorem scope_docstring (indent doc : Str) : (Line.docstring indent doc).scope = [] := rfl

@[simp] theorem scopes_nil : scopes [] = [] := rfl

@[simp] theorem scopes_cons : scopes (l :: lines) = l.scope ++ scopes lines := rfl

@[simp] theorem scopes_append : scopes (lines ++ lines') = scopes lines ++ scopes lines' :=
  List.flatMap_append

@[simp] theorem scopes_flatMap {α : Type} (f : α → List Line) (xs : List α) :
    scopes (xs.flatMap f) = xs.flatMap fun x => scopes (f x) := List.flatMap_assoc

@[simp] theorem scopes_map {α : Type} (f : α → Line) (xs : List α) :
    scopes (xs.map f) = xs.flatMap fun x => (f x).scope := by
  rw [scopes, List.flatMap_map]

@[simp] theorem scopes_docstring (indent : String) (doc : Str) :
    scopes (docstring indent doc) = [] := by
  unfold docstring
  split <;> rfl

end

@[simp] theorem scopesOf_typeToTypeHint (type : Ty) : scopesOf (typeToTypeHint type) = [] := by
  have hbase : scopesOf (baseToPython type.base) = [] := by
    cases type.base with
    | primitive p => cases p <;> rfl
    | user name => rfl
  have hopen : ∀ k, scopesOf (List.replicate k [evaluates (lit "list"), t "["]).flatten = [] := by
    intro k
    induction k with
    | zero => rfl
    | succ k ih => simpa [List.replicate_succ] using ih
  have hclose : ∀ k, scopesOf (List.replicate k (t "]")) = [] := by
    intro k
    induction k with
    | zero => rfl
    | succ k ih => simpa [List.replicate_succ] using ih
  unfold typeToTypeHint typeToPython
  split
  · simp [hbase, hopen, hclose]
  · split <;> simp [hbase]

/-! ## Calls in a method -/

/-- The names that an encoding call binds around it. -/
def itemNames : PyCall → List Str
  | .loop elem => lit "_item" :: itemNames elem
  | _ => []

/-- Whether an encoding call is a loop. -/
def loops : PyCall → Bool
  | .loop _ => true
  | _ => false

theorem mem_itemNames {call : PyCall} {n : Str} :
    n ∈ itemNames call ↔ loops call = true ∧ n = lit "_item" := by
  induction call with
  | loop elem ih =>
    rw [itemNames, List.mem_cons, ih]
    simp only [loops, true_and]
    exact ⟨fun h => h.elim id And.right, .inl⟩
  | _ => simp [itemNames, loops]

section
variable {names known : List Str} {n : Str} {who : Option Nat}

theorem scopesOf_encodeBase (buf expr : Piece Mark) (b : TypeBase) :
    scopesOf (encodeBase buf [expr] b) =
      if b = .primitive .void then [] else buf.scope ++ expr.scope := by
  cases b with
  | primitive p => cases p <;> simp [encodeBase, scopesOf, t, raw, Piece.scope]
  | user name => simp [encodeBase, scopesOf, t, runs, Piece.scope]

theorem sound_encodeBase {S : Scopes Str} {buf : Str} {b : TypeBase} (hb : S.means buf = none)
    (hn : S.means n = who) :
    Sound S (scopesOf (encodeBase (.use none buf) [.use who n] b)) := by
  rw [scopesOf_encodeBase]
  split
  · trivial
  · exact ⟨hb, hn, trivial⟩

theorem still_encodeBase (buf : Str) (b : TypeBase) :
    Still (scopesOf (encodeBase (.use none buf) [.use who n] b)) := by
  rw [scopesOf_encodeBase]
  split
  · exact still_nil
  · exact (still_use _ _).append (still_use _ _)

/-- The lambda for the value of an optional. -/
theorem scopesOf_encodeOptional (buf expr : Piece Mark) (indent : Str) (b : TypeBase) :
    scopesOf (callEncode buf indent [expr] (.optional b)) =
      buf.scope ++ (expr.scope ++ scopeWith [lit "v", lit "b"]
        (scopesOf (encodeBase buf [var "v"] b))) := by
  have hv : own "v" = (Piece.bind none (lit "v") : Piece Mark) := rfl
  have hb : own "b" = (Piece.bind none (lit "b") : Piece Mark) := rfl
  simp only [callEncode, scopesOf, hv, hb, t, Piece.scope, List.flatMap_append, List.flatMap_cons,
    List.flatMap_nil, List.nil_append, List.append_nil, List.cons_append,
    List.reverse_cons, List.reverse_nil, List.map_cons, List.map_nil, scopeWith]

/-- An encoding call in a method claims `_item` for each loop. -/
theorem around_callEncode {call : PyCall} {indent : Str} (hb : lit "req" ∈ known)
    (hn : ∀ S : Scopes Str, (∀ m ∈ known, S.means m = none) →
      (∀ i m, names[i]? = some m → S.means m = some i) → S.means n = who) :
    Around names known (scopesOf (callEncode (var "req") indent [.use who n] call))
      (itemNames call) := by
  induction call generalizing known indent who n with
  | base b =>
    rw [← List.append_nil (scopesOf _)]
    refine .part (fun S hk hg => ?_) (still_encodeBase _ b) .nil
    exact sound_encodeBase (hk _ hb) (hn S hk hg)
  | optional b =>
    rw [scopesOf_encodeOptional, ← List.append_nil (_ ++ _)]
    have hinner : Still (scopesOf (encodeBase (var "req") [var "v"] b)) := still_encodeBase _ b
    refine .part (fun S hk hg => ?_) ?_ .nil
    · have hlambda := sound_scope [lit "v", lit "b"] S hinner.balanced
      refine ⟨hk _ hb, hn S hk hg, hlambda.1.mpr (sound_encodeBase ?_ ?_)⟩
      · exact means_inner _ (.inr (hk _ hb))
      · exact means_inner _ (.inl List.mem_cons_self)
    · exact (still_use _ _).append ((still_use _ _).append
        (sound_scope [lit "v", lit "b"] [] hinner.balanced).2)
  | helper p =>
    exact .part (p := [.use none (lit "req"), .use who n])
      (fun S hk hg => ⟨hk _ hb, hn S hk hg, trivial⟩) (still_use _ _ |>.append (still_use _ _)) .nil
  | loop elem ih =>
    have hshape : scopesOf (callEncode (var "req") indent [.use who n] (.loop elem)) =
        [.use none (lit "req"), .use who n] ++ .bind none (lit "_item") :: ([.use who n] ++
          scopesOf (callEncode (var "req") (indent ++ lit "    ") [var "_item"] elem)) := by
      simp [callEncode]
    have hrest : Around names (lit "_item" :: known)
        (scopesOf (callEncode (var "req") (indent ++ lit "    ") [var "_item"] elem))
        (itemNames elem) :=
      ih (List.mem_cons_of_mem _ hb) fun S hk _ => hk _ List.mem_cons_self
    rw [hshape]
    refine .part (fun S hk hg => ⟨hk _ hb, hn S hk hg, trivial⟩)
      (still_use _ _ |>.append (still_use _ _)) (.bind (.part (fun S hk hg => ⟨?_, trivial⟩)
        (still_use _ _) hrest))
    exact hn S (fun m hm => hk m (List.mem_cons_of_mem _ hm)) hg

theorem scopesOf_decodeBase (buf : Piece Mark) (b : TypeBase) :
    scopesOf (decodeBase buf b) = if b = .primitive .void then [] else buf.scope := by
  cases b with
  | primitive p => cases p <;> simp [decodeBase, scopesOf, t, raw, Piece.scope]
  | user name => simp [decodeBase, scopesOf, t, runs, Piece.scope]

/-- A decoding call uses the buffer, also in a lambda. -/
theorem around_callDecode {call : PyCall} (hb : lit "resp" ∈ known) :
    Around names known (scopesOf (callDecode (var "resp") call)) [] := by
  have hbase : ∀ {S : Scopes Str} (b : TypeBase), S.means (lit "resp") = none →
      Sound S (scopesOf (decodeBase (var "resp") b)) ∧
        Still (scopesOf (decodeBase (var "resp") b)) := by
    intro S b hS
    rw [scopesOf_decodeBase]
    split
    · exact ⟨trivial, still_nil⟩
    · exact ⟨⟨hS, trivial⟩, still_use _ _⟩
  induction call with
  | base b =>
    rw [← List.append_nil (scopesOf _)]
    exact .part (fun S hk _ => (hbase b (hk _ hb)).1) (hbase b (S := []) rfl).2 .nil
  | optional b =>
    have hinner : Still (scopesOf (decodeBase (var "resp") b)) := (hbase b (S := []) rfl).2
    have hshape : scopesOf (callDecode (var "resp") (.optional b)) =
        .use none (lit "resp") ::
          (scopeWith [lit "b"] (scopesOf (decodeBase (var "resp") b)) ++ []) := by
      simp [callDecode, scopeWith]
    rw [hshape]
    refine .reuse hb (.part (fun S hk _ => ?_) (sound_scope [lit "b"] [] hinner.balanced).2 .nil)
    exact (sound_scope _ S hinner.balanced).1.mpr (hbase b (means_inner _ (.inr (hk _ hb)))).1
  | helper p => exact .reuse hb .nil
  | loop elem ih =>
    have hshape : scopesOf (callDecode (var "resp") (.loop elem)) =
        scopesOf (callDecode (var "resp") elem) ++ [.use none (lit "resp")] := by
      simp [callDecode]
    rw [hshape]
    exact ih.append (.reuse hb .nil)

end

/-! ## Methods -/

section
variable (s : ServiceDef) (m : Method)

/-- What the parameters of a method must not be called in the proxy. -/
def methodNames : List Str :=
  [lit "self", lit "req", lit "resp", Python.service s.name, Python.method s.name m.name] ++
    if m.params.any (fun p => loops (pyEncodeCall p.type)) then [lit "_item"] else []

/-- The line that returns the result, if there is one. -/
def returnLine : List Line :=
  if m.isVoid then [] else [line ([t "        return "] ++ decode m.returnType (var "resp"))]

theorem around_return {names known : List Str} (h : lit "resp" ∈ known) :
    Around names known (scopes (returnLine m)) [] := by
  unfold returnLine
  split
  · exact .nil
  · simpa [decode] using (around_callDecode h :
      Around names known (scopesOf (callDecode _ (pyDecodeCall m.returnType))) [])

/-- The lines that encode the parameters. -/
def encodeParams : List Line :=
  m.params.zipIdx.map fun x => line ([t "        "] ++
    encode x.1.type [.use (some x.2) x.1.name] (var "req") "        ")

theorem around_encodeParams :
    Around (m.params.map (·.name)) [lit "req"] (scopes (encodeParams m))
      (m.params.flatMap fun p => itemNames (pyEncodeCall p.type)) := by
  rw [encodeParams, scopes_map, ← List.flatMap_zipIdx_fst _ m.params 0]
  refine .each fun x hx => ?_
  have hparam : (m.params.map (·.name))[x.2]? = some x.1.name := by
    rw [List.getElem?_map, List.mem_zipIdx_iff_getElem?.mp hx]
    rfl
  have hline : (line ([t "        "] ++
      encode x.1.type [.use (some x.2) x.1.name] (var "req") "        ")).scope =
      scopesOf (encode x.1.type [.use (some x.2) x.1.name] (var "req") "        ") := by
    simp
  rw [hline]
  exact around_callEncode List.mem_cons_self fun S _ hg => hg _ _ hparam

theorem scopes_proxyMethod :
    scopes (proxyMethod s m) = scopeWith [lit "self"] (arrivals (·.name) (fun _ => []) 0 m.params ++
        .bind none (lit "req") :: (scopes (encodeParams m) ++
          .bind none (lit "resp") :: .use none (lit "self") ::
            .use none (Python.service s.name) :: .use none (Python.method s.name m.name) ::
            .use none (lit "req") :: scopes (returnLine m))) := by
  have hparams : scopesOf (generateMethodParams m.params) =
      arrivals (·.name) (fun _ => []) 0 m.params := by
    rw [generateMethodParams, scopesOf, List.flatMap_assoc, arrivals]
    refine List.flatMap_congr fun x _ => ?_
    show scopesOf _ = _
    simp
  have hlines : proxyMethod s m =
      [line ([t "    def ", raw m.name, t "(", .enter, own "self"] ++ generateMethodParams m.params ++
        [t ") -> "] ++ typeToTypeHint m.returnType ++ [t ":", binds m.name])] ++
      docstring "        " m.doc ++ [line [t "        ", own "req", t " = Buffer()"]] ++
      encodeParams m ++
      [line [t "        ", own "resp", t " = ", var "self", t "._conn.call(",
          named (Python.service s.name), t ", ", named (Python.method s.name m.name), t ", ",
          var "req", t ")"]] ++ returnLine m ++ [line [.leave]] := rfl
  rw [hlines]
  simp [hparams, scopeWith]

theorem proxyMethod_sound :
    (Sound [] (scopes (proxyMethod s m)) ↔ Fresh (m.params.map (·.name)) (methodNames s m)) ∧
      Still (scopes (proxyMethod s m)) := by
  have hreserved : ∀ n, n ∈ [lit "self"] ++ Scopes.inView [] ++
      lit "req" :: (m.params.flatMap (fun p => itemNames (pyEncodeCall p.type)) ++
        [lit "resp", Python.service s.name, Python.method s.name m.name]) ↔ n ∈ methodNames s m := by
    intro n
    have hitems : n ∈ m.params.flatMap (fun p => itemNames (pyEncodeCall p.type)) ↔
        n ∈ if m.params.any (fun p => loops (pyEncodeCall p.type)) then [lit "_item"] else [] := by
      simp only [List.mem_flatMap, mem_itemNames, List.mem_ite_nil_right, List.any_eq_true,
        List.mem_singleton]
      exact ⟨fun ⟨p, hp, hl, hn⟩ => ⟨⟨p, hp, hl⟩, hn⟩, fun ⟨⟨p, hp, hl⟩, hn⟩ => ⟨p, hp, hl, hn⟩⟩
    have hview : Scopes.inView ([] : Scopes Str) = [] := rfl
    simp only [methodNames, List.mem_append, List.mem_cons, hitems, hview, List.not_mem_nil,
      or_false]
    tauto
  rw [scopes_proxyMethod]
  have hbody : Around (m.params.map (·.name)) [lit "self"]
      (.bind none (lit "req") :: (scopes (encodeParams m) ++
        .bind none (lit "resp") :: .use none (lit "self") ::
          .use none (Python.service s.name) :: .use none (Python.method s.name m.name) ::
          .use none (lit "req") :: scopes (returnLine m)))
      (lit "req" :: (m.params.flatMap (fun p => itemNames (pyEncodeCall p.type)) ++
        [lit "resp", Python.service s.name, Python.method s.name m.name])) := by
    refine .bind (((around_encodeParams m).mono fun n hn => ?_).append
      (.bind (.reuse ?_ (.use (.use (.reuse ?_ (around_return m ?_)))))))
    · exact List.mem_cons.mpr (.inl (List.mem_singleton.mp hn))
    · simp
    · simp
    · simp
  obtain ⟨hs, hst⟩ := sound_member [lit "self"] owned_nil (fun _ _ h => absurd h List.not_mem_nil)
    (fun n hn => List.mem_append_left _ hn) hbody
  exact ⟨hs.trans (Fresh.congr hreserved), hst⟩

end

/-! ## Structs -/

theorem scopesOf_replace (old new : Str) (code : Code) :
    scopesOf (code.replace old new) = (scopesOf code).map (.rename (replaceAll old new 0)) := by
  induction code with
  | nil => rfl
  | cons p code ih =>
    cases p with
    | text s => exact ih
    | bind who n => exact congrArg _ ih
    | use who n => exact congrArg _ ih
    | enter => exact congrArg _ ih
    | leave => exact congrArg _ ih
    | mark m => cases m <;> exact ih

section
variable (f : Str → Str) {expr : Code}

/-- A call of a struct's codec, with the names replaced as the generator does it. -/
theorem hosted_encodeBase (buf : String) (b : TypeBase)
    (he : Hosted ((scopesOf expr).map (.rename f))) :
    Hosted ((scopesOf (encodeBase (t buf) expr b)).map (.rename f)) := by
  cases b with
  | primitive p => cases p <;> first | exact .nil | simpa [encodeBase] using he
  | user name => simpa [encodeBase] using he

theorem hosted_callEncode (buf : String) (indent : Str) (call : PyCall)
    (he : Hosted ((scopesOf expr).map (.rename f))) :
    Hosted ((scopesOf (callEncode (t buf) indent expr call)).map (.rename f)) := by
  induction call generalizing expr indent with
  | base b => exact hosted_encodeBase f buf b he
  | optional b =>
    have hv : Hosted ((scopesOf (encodeBase (t buf) [var "v"] b)).map (.rename f)) :=
      hosted_encodeBase f buf b (.use _)
    have hlambda := ((Hosted.bind (f (lit "b"))).append (.append (.bind (f (lit "v"))) hv)).block
    simpa [callEncode, Event.rename] using he.append hlambda.hosted
  | helper p => simpa [callEncode] using he
  | loop elem ih =>
    have hrest := (Hosted.bind (f (lit "_item"))).append (he.append
      (@ih [var "_item"] (indent ++ lit "    ") (.use (f (lit "_item")))))
    simpa [callEncode, Event.rename] using he.append hrest

theorem hosted_callDecode (buf : String) (call : PyCall) :
    Hosted ((scopesOf (callDecode (t buf) call)).map (.rename f)) := by
  have hbase : ∀ b, scopesOf (decodeBase (t buf) b) = [] := by
    intro b
    rw [scopesOf_decodeBase]
    split <;> rfl
  induction call with
  | base b => simpa [callDecode, hbase] using Hosted.nil
  | optional b =>
    simpa [callDecode, hbase, Event.rename] using (Hosted.bind (f (lit "b"))).block.hosted
  | helper p => exact .nil
  | loop elem ih => simpa [callDecode] using ih

end

theorem quiet_structDef (s : StructDef) : Quiet (scopes (generateStructDef s)) := by
  have hfield : ∀ f, (fieldLine f).scope = [] := by
    intro f
    unfold fieldLine
    split <;> simp
  have hclass : scopes (structClass s) = [] := by
    unfold structClass
    split <;> simp [hfield]
  have hencode : Quiet (scopes (structEncode s)) := by
    have hlines : Hosted (s.fields.flatMap fun f => scopesOf
        ((encode f.type [t "val.", raw f.name] (t "req") "    ").replace (lit "req") (lit "buf"))) :=
      .flatMap fun f _ => by
        rw [scopesOf_replace]
        exact hosted_callEncode _ _ _ _ .nil
    simpa [structEncode] using hlines.block
  have hdecode : Quiet (scopes (structDecode s)) := by
    have harg : ∀ last (x : Field × Nat), (decodeField last x.1 x.2).scope =
        scopesOf ((decode x.1.type (t "resp")).replace (lit "resp") (lit "buf")) := by
      intro last x
      unfold decodeField
      split <;> simp
    have hlines : Hosted (s.fields.zipIdx.flatMap fun x => scopesOf
        ((decode x.1.type (t "resp")).replace (lit "resp") (lit "buf"))) :=
      .flatMap fun x _ => by
        rw [scopesOf_replace]
        exact hosted_callDecode _ _ _
    simpa [structDecode, harg] using hlines.block
  rw [generateStructDef, scopes_append, scopes_append, hclass]
  exact hencode.append hdecode

/-! ## The module -/

/-- The names of a module and the parameters' do not get in each other's way where every method
has distinct parameters, none of them called as a name of the generator's there. -/
theorem module_sound_iff (ns : Namespace) :
    Sound [] (scopes (generateModule ns)) ↔
      ∀ s ∈ ns.services, ∀ m ∈ s.methods, Fresh (m.params.map (·.name)) (methodNames s m) := by
  have hnone : ∀ {α : Type} (xs : List α), (xs.flatMap fun _ => ([] : List (Event Str))) = [] :=
    fun xs => List.flatMap_eq_nil_iff.mpr fun _ _ => rfl
  have htop : scopes (moduleTop ns) = [] := rfl
  have hids : scopes (if ns.services.isEmpty then [] else generateServiceIds ns ++ [blank]) = [] := by
    split
    · rfl
    · simp [generateServiceIds, idLine, hnone]
  have henums : ∀ e : EnumDef, scopes (generateEnumDef e) = [] := by
    intro e
    have hitems : ∀ (items : List EnumItem) next, scopes (enumItems next items) = [] := by
      intro items
      induction items with
      | nil => exact fun _ => rfl
      | cons item items ih => simpa [enumItems] using fun next => ih _
    simp [generateEnumDef, hitems]
  have hproxy : ∀ s : ServiceDef, scopes (generateServiceProxy s) =
      s.methods.flatMap fun m => scopes (proxyMethod s m) := by
    intro s
    unfold generateServiceProxy
    split <;> simp
  have hstructs : Quiet (ns.structs.flatMap fun s => scopes (generateStructDef s)) :=
    .flatMap fun s _ => quiet_structDef s
  have hmethods := sound_each (fun s : ServiceDef => sound_each (proxyMethod_sound s) s.methods)
    ns.services
  have hmodule : scopes (generateModule ns) =
      (ns.structs.flatMap fun s => scopes (generateStructDef s)) ++
        ns.services.flatMap fun s => s.methods.flatMap fun m => scopes (proxyMethod s m) := by
    unfold generateModule
    rw [scopes_append, scopes_append, scopes_append, scopes_append, htop, hids]
    simp [henums, hproxy, hnone]
  rw [hmodule, sound_append, hstructs.still, and_iff_right (hstructs.sound owned_nil), hmethods.1]

end PyText

/-! ## Both languages -/

/-- In the header and in the module every parameter used is the parameter, every variable of the
generator used is the generator's, and no parameter stands in for one of these. -/
def Hygienic (ns : Namespace) : Prop :=
  Sound [] (CppText.scopes (CppText.generateHeader ns)) ∧
    Sound [] (PyText.scopes (PyText.generateModule ns))

/-- `service Door { open(req: i32) -> bool; }` -/
def door : Namespace where
  services := [{
    name := lit "Door"
    methods := [{
      name := lit "open"
      params := [{ name := lit "req", type := { base := .primitive .i32 } }]
      returnType := { base := .primitive .bool } }] }]

end Song.Compiler
