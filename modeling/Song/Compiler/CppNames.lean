import Song.Compiler.CppText.Files

/-!
# Names in the C++ header

The header binds and uses the parameters of methods and constructors between names of its own:
in a proxy the members and the buffers, in a dispatcher the function's parameters and the result,
in a factory the type of the implementation and the runtime. `unaryNames` and the lists beside it
are the names that a member's text claims for itself; the text is sound where no parameter has one
of them.
-/

namespace Song.Compiler.CppText

open Piece (var own)
open Hygiene

/-- What the lines of a file do to the scopes. -/
def scopes (lines : List Line) : List (Event Str) := lines.flatMap fun l => scopesOf l.code

section
variable (code : Code) (s : String) (n : Str) {l : Line} {lines lines' : List Line}

@[simp] theorem scopesOf_t : scopesOf (t s :: code) = scopesOf code := rfl

@[simp] theorem scopesOf_raw : scopesOf (raw n :: code) = scopesOf code := rfl

@[simp] theorem scopesOf_named : scopesOf (named n :: code) = .use none n :: scopesOf code := rfl

@[simp] theorem scopesOf_calls (h : Helper) : scopesOf (calls h :: code) = scopesOf code := rfl

@[simp] theorem scopesOf_declares (h : Helper) (linkage : Linkage) :
    scopesOf (declares h linkage :: code) = scopesOf code := rfl

@[simp] theorem scopesOf_member (type : Ty) : scopesOf (member type :: code) = scopesOf code := rfl

@[simp] theorem scopesOf_closes : scopesOf (closes n :: code) = scopesOf code := rfl

@[simp] theorem scopesOf_line : scopesOf (line code).code = scopesOf code := rfl

@[simp] theorem scopesOf_documented (doc : Str) (indent suffix : String) :
    scopesOf (documented doc indent code suffix).code = scopesOf code := rfl

@[simp] theorem scopesOf_blank : scopesOf blank.code = [] := rfl

@[simp] theorem scopes_nil : scopes [] = [] := rfl

@[simp] theorem scopes_cons : scopes (l :: lines) = scopesOf l.code ++ scopes lines := rfl

@[simp] theorem scopes_append : scopes (lines ++ lines') = scopes lines ++ scopes lines' :=
  List.flatMap_append

@[simp] theorem scopes_flatMap {α : Type} (f : α → List Line) (xs : List α) :
    scopes (xs.flatMap f) = xs.flatMap fun x => scopes (f x) := List.flatMap_assoc

@[simp] theorem scopes_map {α : Type} (f : α → Line) (xs : List α) :
    scopes (xs.map f) = xs.flatMap fun x => scopesOf (f x).code := by
  rw [scopes, List.flatMap_map]

end

/-! ## Calls -/

section
variable {buf n : Str} {who : Option Nat} {S : Scopes Str}

theorem scopesOf_encodeOptional (buf : Piece Mark) (expr : Code) (inner : Call) :
    scopesOf (callEncode buf expr (.optional inner)) =
      scopesOf [buf] ++ (scopesOf expr ++ .enter :: ((.bind none (lit "v") ::
        scopesOf (callEncode buf [var "v"] inner)) ++ [.leave])) := by
  have hv : own "v" = (Piece.bind none (lit "v") : Piece Mark) := rfl
  simp only [callEncode, scopesOf, hv, t, Piece.scope, List.flatMap_append, List.flatMap_cons,
    List.flatMap_nil, List.nil_append, List.append_nil, List.append_assoc, List.cons_append]

/-- An encoding call uses the buffer and what it encodes, this also in a lambda. -/
theorem sound_callEncode {call : Call} (hb : S.means buf = none) (hn : S.means n = who) :
    Sound S (scopesOf (callEncode (.use none buf) [.use who n] call)) := by
  induction call generalizing S n who with
  | optional inner ih =>
    rw [scopesOf_encodeOptional]
    refine ⟨hb, hn, sound_block.mpr ⟨rfl, ih ?_ ?_⟩⟩
    · exact means_inner [lit "v"] (.inr hb)
    · exact means_inner [lit "v"] (.inl List.mem_cons_self)
  | prim p => cases p <;> trivial
  | _ => exact ⟨hb, hn, trivial⟩

end

/-- Whatever the buffer and the value are, if they bind nothing. -/
theorem still_callEncode {buf : Piece Mark} {expr : Code} {call : Call} (hb : Still buf.scope)
    (he : Still (scopesOf expr)) : Still (scopesOf (callEncode buf expr call)) := by
  have hflat : ∀ (f : Piece Mark) (expr : Code), f.scope = [] → Still (scopesOf expr) →
      Still (scopesOf ([f, t "(", buf, t ", "] ++ expr ++ [t ")"])) := by
    intro f expr hf he
    have hfront : scopesOf [f, t "(", buf, t ", "] = f.scope ++ (buf.scope ++ []) := rfl
    rw [scopesOf_append, scopesOf_append, hfront, hf, List.nil_append, List.append_nil]
    exact (hb.append he).append still_nil
  induction call generalizing expr with
  | optional inner ih =>
    rw [scopesOf_encodeOptional]
    have hi : Still (scopesOf (callEncode buf [var "v"] inner)) := ih (still_use none (lit "v"))
    exact (hb.append still_nil).append
      (he.append ((balanced_bind none (lit "v")).append hi.balanced).still_block)
  | prim p => cases p <;> first | exact still_nil | exact hflat _ _ rfl he
  | _ => exact hflat _ _ rfl he

theorem scopesOf_callDecode {buf : Piece Mark} {inner : Str} {call : Call} {e : Event Str}
    (h : e ∈ scopesOf (callDecode inner buf call)) : e ∈ buf.scope := by
  induction call with
  | optional call ih =>
    rw [callDecode, scopesOf_append, scopesOf_append] at h
    rcases List.mem_append.mp h with h | h
    · rcases List.mem_append.mp h with h | h
      · simpa [scopesOf, t, raw, Piece.scope] using h
      · exact ih h
    · cases h
  | prim p => cases p <;> simp_all [callDecode, scopesOf, t, raw, Piece.scope]
  | _ => simpa [callDecode, scopesOf, t, raw, calls, Piece.scope] using h

/-- A decoding call uses the buffer. -/
theorem uses_decode {type : Ty} {buf : String} {e : Event Str}
    (h : e ∈ scopesOf (decode type (var buf))) : e = .use none (lit buf) :=
  List.mem_singleton.mp (scopesOf_callDecode h)

/-! ## Parameters -/

theorem scopesOf_methodParams (params : List Param) :
    scopesOf (generateMethodParams params) = arrivals (·.name) (fun _ => []) 0 params := by
  have hs : (t ", ").scope = [] := rfl
  rw [generateMethodParams, scopesOf, flatMap_separated hs, paramPieces, List.flatMap_map]
  rfl

theorem scopes_decodeParams (buf : String) (params : List Param) :
    scopes (decodeParams buf params) =
      arrivals (·.name) (fun x => scopesOf (decode x.1.type (var buf))) 0 params := by
  rw [decodeParams, scopes_map, arrivals]
  refine List.flatMap_congr fun x _ => ?_
  simp

/-- The parameters' own uses of their names. -/
theorem getElem?_names {params : List Param} {x : Param × Nat} (h : x ∈ params.zipIdx) :
    (params.map (·.name))[x.2]? = some x.1.name := by
  rw [List.getElem?_map, List.mem_zipIdx_iff_getElem?.mp h]
  rfl

theorem around_encodeParams (indent buf : String) (params : List Param) :
    Around (params.map (·.name)) [lit buf] (scopes (encodeParams indent buf params)) [] := by
  rw [encodeParams, scopes_map]
  refine .flatMap fun x hx => ?_
  have hline : scopesOf (line ([t indent] ++
      encode x.1.type [.use (some x.2) x.1.name] (var buf) ++ [t ";"])).code =
      scopesOf (encode x.1.type [.use (some x.2) x.1.name] (var buf)) ++ [] := by
    simp
  rw [hline]
  refine .part (fun S hb hn => ?_) (still_callEncode (still_use _ _) (still_use _ _)) .nil
  exact sound_callEncode (hb _ List.mem_cons_self) (hn _ _ (getElem?_names hx))

theorem around_args {params : List Param} {known : List Str} :
    Around (params.map (·.name)) known
      (scopesOf (separated (t ", ") (argPieces params))) [] := by
  have hs : (t ", ").scope = [] := rfl
  rw [scopesOf, flatMap_separated hs, argPieces, List.flatMap_map]
  refine .flatMap fun x hx => ?_
  exact .part (fun S _ hn => ⟨hn _ _ (getElem?_names hx), trivial⟩) (still_use _ _) .nil

theorem around_decode {names : List Str} {type : Ty} {buf : String} {known : List Str}
    (h : lit buf ∈ known) : Around names known (scopesOf (decode type (var buf))) [] := by
  rw [← List.append_nil (scopesOf _)]
  refine .part (fun S hk _ => sound_uses fun e he => ?_) (still_uses fun e he => ?_) .nil
  · exact ⟨none, lit buf, hk _ h, uses_decode he⟩
  · exact ⟨none, lit buf, uses_decode he⟩

/-! ## Members -/

theorem around_encode_result {names known : List Str} {type : Ty} {result buf : String}
    (hr : lit result ∈ known) (hb : lit buf ∈ known) :
    Around names known (scopesOf (encode type [var result] (var buf))) [] := by
  rw [← List.append_nil (scopesOf _)]
  refine .part (fun S hk _ => ?_) (still_callEncode (still_use _ _) (still_use _ _)) .nil
  exact sound_callEncode (hk _ hb) (hk _ hr)

/-- The line that returns the result, if there is one. -/
def returnLine (m : Method) : List Line :=
  if m.isVoid then [] else
    [line ([t "        return "] ++ decode m.returnType (var "resp") ++ [t ";"])]

theorem around_return {names known : List Str} (m : Method) (h : lit "resp" ∈ known) :
    Around names known (scopes (returnLine m)) [] := by
  unfold returnLine
  split
  · exact .nil
  · simpa using (around_decode h : Around names known (scopesOf (decode m.returnType _)) [])

section
variable (s : ServiceDef) (c : ClassDef) (m : Method)

/-- The names that the proxy's method claims. -/
def unaryNames : List Str :=
  [lit "req", lit "resp", lit "m_conn", Cpp.kService s.name, Cpp.kMethod s.name m.name]

theorem scopes_unaryMethod :
    scopes (unaryMethod s m) = scopeWith [] (arrivals (·.name) (fun _ => []) 0 m.params ++
        .bind none (lit "req") :: (scopes (encodeParams "        " "req" m.params) ++
          .bind none (lit "resp") :: .use none (lit "m_conn") :: .use none (Cpp.kService s.name) ::
            .use none (Cpp.kMethod s.name m.name) :: .use none (lit "req") ::
            scopes (returnLine m))) := by
  simp [unaryMethod, scopesOf_methodParams, returnLine, scopeWith]

theorem unaryMethod_sound {outer : Scopes Str} (ho : Owned outer) :
    (Sound outer (scopes (unaryMethod s m)) ↔
      Fresh (m.params.map (·.name)) (outer.inView ++ unaryNames s m)) ∧
      Still (scopes (unaryMethod s m)) := by
  rw [scopes_unaryMethod]
  refine sound_member [] ho (fun _ _ h => absurd h List.not_mem_nil)
    (fun _ h => absurd h List.not_mem_nil) (?_ : Around _ [] _ (unaryNames s m))
  refine .bind ((around_encodeParams _ _ _).append (.bind (.use (.use (.use (.reuse ?_ ?_))))))
  · simp
  · exact around_return m (by simp)

/-- The names that the proxy's method of a stream claims. -/
def streamNames : List Str :=
  [lit "on_chunk", lit "chunk_timeout_ms", lit "req", lit "m_conn", Cpp.kServiceStream s.name,
    Cpp.kMethod s.name m.name]

/-- The lambda that takes the chunks. -/
def chunkScope : List (Event Str) :=
  .enter :: (.bind none (lit "song_chunk") :: .bind none (lit "value") ::
    (scopesOf (decode m.returnType (var "song_chunk")) ++
      [.use none (lit "on_chunk"), .use none (lit "value")]) ++ [.leave])

theorem still_chunkScope : Still (chunkScope m) := by
  have hd : Still (scopesOf (decode m.returnType (var "song_chunk"))) :=
    still_uses fun e he => ⟨none, lit "song_chunk", uses_decode he⟩
  refine Balanced.still_block ?_
  refine (balanced_bind none (lit "song_chunk")).append ((balanced_bind none (lit "value")).append ?_)
  exact hd.balanced.append
    ((still_use none (lit "on_chunk")).append (still_use none (lit "value"))).balanced

theorem sound_chunkScope {S : Scopes Str} (h : S.means (lit "on_chunk") = none) :
    Sound S (chunkScope m) := by
  have hinner : ∀ n ∈ [lit "song_chunk", lit "on_chunk", lit "value"],
      Scopes.means ([lit "value", lit "song_chunk"].map (·, none) :: S) n = none := by
    intro n hn
    refine means_inner _ ?_
    by_cases hc : n = lit "on_chunk"
    · exact .inr (hc ▸ h)
    · refine .inl ?_
      simp only [List.mem_cons, List.not_mem_nil, or_false] at hn ⊢
      tauto
  refine sound_block.mpr ⟨rfl, rfl, ?_⟩
  refine sound_append.mpr ⟨sound_uses fun e he => ?_, ?_⟩
  · exact ⟨none, lit "song_chunk", hinner _ (by simp), uses_decode he⟩
  · have hd : Still (scopesOf (decode m.returnType (var "song_chunk"))) :=
      still_uses fun e he => ⟨none, lit "song_chunk", uses_decode he⟩
    rw [hd]
    exact ⟨hinner _ (by simp), hinner _ (by simp), trivial⟩

theorem scopes_streamMethod :
    scopes (streamMethod s m) = scopeWith [] (arrivals (·.name) (fun _ => []) 0 m.params ++
        .bind none (lit "on_chunk") :: .bind none (lit "chunk_timeout_ms") ::
          .bind none (lit "req") :: (scopes (encodeParams "        " "req" m.params) ++
          .use none (lit "m_conn") :: .use none (Cpp.kServiceStream s.name) ::
            .use none (Cpp.kMethod s.name m.name) :: .use none (lit "req") ::
            .use none (lit "on_chunk") :: (chunkScope m ++
              [.use none (lit "chunk_timeout_ms")]))) := by
  have hc : ∀ ps, scopesOf (comma ps) = [] := fun ps => by
    unfold comma
    split <;> rfl
  simp [streamMethod, scopesOf_methodParams, hc, chunkScope, scopeWith]

theorem streamMethod_sound {outer : Scopes Str} (ho : Owned outer) :
    (Sound outer (scopes (streamMethod s m)) ↔
      Fresh (m.params.map (·.name)) (outer.inView ++ streamNames s m)) ∧
      Still (scopes (streamMethod s m)) := by
  have hparams := (around_encodeParams "        " "req" m.params).mono
    (fun n hn => List.mem_cons.mpr (.inl (List.mem_singleton.mp hn)) :
      ∀ n ∈ [lit "req"], n ∈ [lit "req", lit "chunk_timeout_ms", lit "on_chunk"])
  rw [scopes_streamMethod]
  refine sound_member [] ho (fun _ _ h => absurd h List.not_mem_nil)
    (fun _ h => absurd h List.not_mem_nil) (?_ : Around _ [] _ (streamNames s m))
  refine .bind (.bind (.bind (hparams.append (.use (.use (.use (.reuse ?_ (.reuse ?_
    (.part (fun S hk _ => ?_) (still_chunkScope m) (.reuse ?_ .nil))))))))))
  · simp
  · simp
  · exact sound_chunkScope m (hk _ (by simp))
  · simp

/-- The names that a method of the proxy of an object claims. -/
def objectNames : List Str :=
  [lit "args", lit "resp", lit "m_conn", lit "m_type_id", lit "m_object_id",
    Cpp.kMethod c.name m.name]

theorem scopes_proxyMethod :
    scopes (proxyMethod c m) = scopeWith [] (arrivals (·.name) (fun _ => []) 0 m.params ++
        .bind none (lit "args") :: (scopes (encodeParams "        " "args" m.params) ++
          .bind none (lit "resp") :: .use none (lit "m_conn") :: .use none (lit "m_type_id") ::
            .use none (lit "m_object_id") :: .use none (Cpp.kMethod c.name m.name) ::
            .use none (lit "args") :: scopes (returnLine m))) := by
  simp [proxyMethod, scopesOf_methodParams, returnLine, scopeWith]

theorem proxyMethod_sound {outer : Scopes Str} (ho : Owned outer) :
    (Sound outer (scopes (proxyMethod c m)) ↔
      Fresh (m.params.map (·.name)) (outer.inView ++ objectNames c m)) ∧
      Still (scopes (proxyMethod c m)) := by
  rw [scopes_proxyMethod]
  refine sound_member [] ho (fun _ _ h => absurd h List.not_mem_nil)
    (fun _ h => absurd h List.not_mem_nil) (?_ : Around _ [] _ (objectNames c m))
  refine .bind ((around_encodeParams _ _ _).append
    (.bind (.use (.use (.use (.use (.reuse ?_ ?_)))))))
  · simp
  · exact around_return m (by simp)

/-- The names that the function that creates an object claims. -/
def createNames : List Str := [lit "conn", lit "args", lit "ref", Cpp.kType c.name]

theorem scopes_createFunction (ctor : Constructor) (i : Nat) :
    scopes (createFunction c ctor i) =
      scopeWith [lit "conn"] (arrivals (·.name) (fun _ => []) 0 ctor.params ++
        .bind none (lit "args") :: (scopes (encodeParams "    " "args" ctor.params) ++
          [.bind none (lit "ref"), .use none (lit "conn"), .use none (Cpp.kType c.name),
            .use none (lit "args"), .use none (lit "conn"), .use none (lit "ref"),
            .use none (lit "ref")])) := by
  have hps : scopesOf ((paramPieces ctor.params typeToParam).flatMap ([t ", "] ++ ·)) =
      arrivals (·.name) (fun _ => []) 0 ctor.params := by
    rw [scopesOf, List.flatMap_assoc, paramPieces, List.flatMap_map]
    rfl
  simp only [List.singleton_append] at hps
  simp [createFunction, hps, scopeWith]

theorem createFunction_sound (ctor : Constructor) (i : Nat) :
    (Sound [] (scopes (createFunction c ctor i)) ↔
      Fresh (ctor.params.map (·.name)) (createNames c)) ∧
      Still (scopes (createFunction c ctor i)) := by
  have hparams := (around_encodeParams "    " "args" ctor.params).mono
    (fun n hn => List.mem_cons.mpr (.inl (List.mem_singleton.mp hn)) :
      ∀ n ∈ [lit "args"], n ∈ [lit "args", lit "conn"])
  rw [scopes_createFunction]
  refine sound_member [lit "conn"] (fun _ h => absurd h List.not_mem_nil)
    (fun _ _ h => absurd h List.not_mem_nil) (fun n hn => List.mem_append_left _ hn)
    (?_ : Around _ [lit "conn"] _ [lit "args", lit "ref", Cpp.kType c.name])
  refine .bind (hparams.append (.bind (.reuse ?_ (.use (.reuse ?_ (.reuse ?_ (.reuse ?_
    (.reuse ?_ .nil)))))))) <;> simp

/-! ## Cases of a dispatcher -/

/-- The result, where there is one. -/
def resultNames : List Str := if m.isVoid then [] else [lit "result"]

/-- A call, of something that claims `cl`, with the result put into a buffer. -/
theorem around_callWithResult {callee : Code} {cl known : List Str} {buf : String}
    (hc : ∀ known' es claimed, (∀ n ∈ known, n ∈ known') →
      Around (m.params.map (·.name)) known' es claimed →
      Around (m.params.map (·.name)) known' (scopesOf callee ++ es) (cl ++ claimed))
    (hb : lit buf ∈ known) :
    Around (m.params.map (·.name)) known
      (scopesOf (callWithResult m callee).code ++ scopes (encodeResult m buf))
      (resultNames m ++ (cl ++ [])) := by
  have hcode : scopesOf (callWithResult m callee).code =
      scopesOf (if m.isVoid then [] else [t "auto ", own "result", t " = "]) ++
        (scopesOf callee ++ scopesOf (separated (t ", ") (argPieces m.params))) := by
    simp [callWithResult]
  rw [hcode, encodeResult, resultNames, List.append_assoc, List.append_assoc]
  by_cases hv : m.isVoid = true
  · rw [if_pos hv, if_pos hv, if_pos hv]
    exact hc _ _ _ (fun n hn => hn) (around_args.append .nil)
  · rw [if_neg hv, if_neg hv, if_neg hv]
    have hr : Around (m.params.map (·.name)) (lit "result" :: known)
        (scopesOf (encode m.returnType [var "result"] (var buf))) [] :=
      around_encode_result List.mem_cons_self (List.mem_cons_of_mem _ hb)
    refine .bind (hc _ _ _ (fun n hn => List.mem_cons_of_mem _ hn) (around_args.append ?_))
    simpa using hr

section
variable {outer : Scopes Str} {view : List Str}

/-- A case that takes the parameters from `buf`, a name in view. -/
theorem case_sound {params : List Param} {es : List (Event Str)} {claimed : List Str} (id : Str)
    (buf : String) (ho : Owned outer) (hv : outer.inView = view) (hb : lit buf ∈ view)
    (h : Around (params.map (·.name)) view es claimed) :
    (Sound outer (.use none id :: .enter :: (arrivals (·.name)
        (fun x => scopesOf (decode x.1.type (var buf))) 0 params ++ es ++ [.leave])) ↔
      Fresh (params.map (·.name)) (view ++ claimed)) ∧
      Still (.use none id :: .enter :: (arrivals (·.name)
        (fun x => scopesOf (decode x.1.type (var buf))) 0 params ++ es ++ [.leave])) := by
  subst hv
  obtain ⟨hs, hst⟩ := sound_member [] ho (fun x e he => ⟨lit buf, hb, uses_decode he⟩)
    (fun n hn => hn) h
  exact ⟨(and_iff_right (means_owned ho id)).trans hs, (still_use none id).append hst⟩

end

/-- The names in view in the cases of a service's dispatcher. -/
def dispatchNames : List Str := [lit "response", lit "request", lit "method_id", lit "impl"]

theorem dispatchCase_sound :
    (Sound [dispatchNames.map (·, none)] (scopes (dispatchCase s m)) ↔
      Fresh (m.params.map (·.name)) (dispatchNames ++ resultNames m)) ∧
      Still (scopes (dispatchCase s m)) := by
  have hshape : scopes (dispatchCase s m) = .use none (Cpp.kMethod s.name m.name) :: .enter ::
      (arrivals (·.name) (fun x => scopesOf (decode x.1.type (var "request"))) 0 m.params ++
        (scopesOf (callWithResult m [var "impl", t ".", raw m.name]).code ++
          scopes (encodeResult m "response")) ++ [.leave]) := by
    simp [dispatchCase, scopes_decodeParams, caseEnd]
  have hcall : Around (m.params.map (·.name)) dispatchNames
      (scopesOf (callWithResult m [var "impl", t ".", raw m.name]).code ++
        scopes (encodeResult m "response")) (resultNames m ++ ([] ++ [])) :=
    around_callWithResult m (fun known' es claimed hk h => .reuse (hk (lit "impl") (by decide)) h)
      (by decide)
  rw [hshape, ← List.append_nil (resultNames m)]
  exact case_sound _ "request" (owned_hosts _ owned_nil) (inView_hosts dispatchNames rfl)
    (by decide) hcall

/-- The names in view in the cases of a streaming dispatcher. -/
def streamDispatchNames : List Str := [lit "writer", lit "request", lit "method_id", lit "impl"]

theorem streamCase_sound :
    (Sound [streamDispatchNames.map (·, none)] (scopes (streamCase s m)) ↔
      Fresh (m.params.map (·.name)) (streamDispatchNames ++ [])) ∧
      Still (scopes (streamCase s m)) := by
  have hargs : scopesOf ((argPieces m.params).flatMap (· ++ [t ", "])) =
      scopesOf (separated (t ", ") (argPieces m.params)) := by
    have hs : (t ", ").scope = [] := rfl
    rw [scopesOf, scopesOf, flatMap_separated hs, List.flatMap_assoc]
    refine List.flatMap_congr fun ps _ => ?_
    rw [List.flatMap_append, List.flatMap_singleton, hs, List.append_nil]
  have hshape : scopes (streamCase s m) = .use none (Cpp.kMethod s.name m.name) :: .enter ::
      (arrivals (·.name) (fun x => scopesOf (decode x.1.type (var "request"))) 0 m.params ++
        (.use none (lit "impl") :: (scopesOf (separated (t ", ") (argPieces m.params)) ++
          [.use none (lit "writer")])) ++ [.leave]) := by
    rw [← hargs]
    simp [streamCase, scopes_decodeParams, caseEnd]
  rw [hshape]
  refine case_sound _ "request" (owned_hosts _ owned_nil) (inView_hosts streamDispatchNames rfl)
    (by decide) ?_
  exact .reuse (by decide) (around_args.append (.reuse (by decide) .nil))

/-- The names in view in the cases of a class's dispatcher. -/
def classDispatchNames : List Str := [lit "resp", lit "req", lit "method_id"]

theorem classCase_sound :
    (Sound [classDispatchNames.map (·, none)] (scopes (classCase c m)) ↔
      Fresh (m.params.map (·.name)) (classDispatchNames ++ (resultNames m ++ [m.name]))) ∧
      Still (scopes (classCase c m)) := by
  have hshape : scopes (classCase c m) = .use none (Cpp.kMethod c.name m.name) :: .enter ::
      (arrivals (·.name) (fun x => scopesOf (decode x.1.type (var "req"))) 0 m.params ++
        (scopesOf (callWithResult m [named m.name]).code ++
          scopes (encodeResult m "resp")) ++ [.leave]) := by
    simp [classCase, scopes_decodeParams, caseEnd]
  have hcall : Around (m.params.map (·.name)) classDispatchNames
      (scopesOf (callWithResult m [named m.name]).code ++ scopes (encodeResult m "resp"))
      (resultNames m ++ ([m.name] ++ [])) :=
    around_callWithResult m (fun known' es claimed hk h =>
      .use (h.mono fun n hn => List.mem_cons_of_mem _ hn)) (by decide)
  rw [hshape]
  exact case_sound _ "req" (owned_hosts _ owned_nil) (inView_hosts classDispatchNames rfl)
    (by decide) hcall

/-- The names in view in the cases of a factory. -/
def factoryNames : List Str :=
  [lit "args", lit "constructor_id", lit "runtime", lit "Impl"]

/-- The scopes around these cases. -/
def factoryScopes : Scopes Str :=
  [[lit "args", lit "constructor_id"].map (·, none), [lit "runtime", lit "Impl"].map (·, none)]

theorem factoryCase_sound (ctor : Constructor) (i : Nat) :
    (Sound factoryScopes (scopes (factoryCase c ctor i)) ↔
      Fresh (ctor.params.map (·.name)) (factoryNames ++ [])) ∧
      Still (scopes (factoryCase c ctor i)) := by
  have hshape : scopes (factoryCase c ctor i) = .use none (Cpp.kCtor c.name i) :: .enter ::
      (arrivals (·.name) (fun x => scopesOf (decode x.1.type (var "args"))) 0 ctor.params ++
        ((if ctor.params.isEmpty then [.use none (lit "args")] else []) ++
          .use none (lit "Impl") :: (scopesOf (separated (t ", ") (argPieces ctor.params)) ++ [])) ++
        [.leave]) := by
    cases hp : ctor.params with
    | nil => simp [factoryCase, hp, decodeParams, arrivals]
    | cons p ps => simp [factoryCase, hp, scopes_decodeParams]
  rw [hshape]
  refine case_sound _ "args" (owned_hosts _ (owned_hosts _ owned_nil)) rfl (by decide) ?_
  split
  · exact .reuse (by decide) (.reuse (by decide) (around_args.append .nil))
  · exact .reuse (by decide) (around_args.append .nil)

end

end Song.Compiler.CppText
