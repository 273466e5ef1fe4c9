import Song.Compiler.CppNames

/-!
# The header's names

The header puts the members' texts into classes and functions with names of their own; the rest
of it has no parameter of a method. So it is sound where every method and every constructor has
distinct parameters that are none of the names in view or claimed where they stand
(`header_sound_iff`).
-/

namespace Song.Compiler.CppText

open Piece (var own)
open Hygiene

/-! ## Text without parameters -/

theorem host_callEncode {buf : Piece Mark} {expr : Code} {call : Call}
    (hb : ∀ e ∈ buf.scope, e.IsHost) (he : ∀ e ∈ scopesOf expr, e.IsHost) :
    ∀ e ∈ scopesOf (callEncode buf expr call), e.IsHost := by
  have hflat : ∀ (f : Piece Mark) (expr : Code), f.scope = [] → (∀ e ∈ scopesOf expr, e.IsHost) →
      ∀ e ∈ scopesOf ([f, t "(", buf, t ", "] ++ expr ++ [t ")"]), e.IsHost := by
    intro f expr hf he
    have hfront : scopesOf [f, t "(", buf, t ", "] = f.scope ++ (buf.scope ++ []) := rfl
    rw [scopesOf_append, scopesOf_append, hfront, hf, List.nil_append, List.append_nil]
    exact List.forall_mem_append.mpr ⟨List.forall_mem_append.mpr ⟨hb, he⟩,
      fun _ h => absurd h List.not_mem_nil⟩
  induction call generalizing expr with
  | optional inner ih =>
    have hi : ∀ e ∈ scopesOf (callEncode buf [var "v"] inner), e.IsHost :=
      ih (List.forall_mem_singleton.mpr rfl)
    rw [scopesOf_encodeOptional]
    simp only [List.forall_mem_append, List.forall_mem_cons]
    refine ⟨?_, he, trivial, ⟨rfl, hi⟩, trivial, fun _ h => absurd h List.not_mem_nil⟩
    exact List.forall_mem_append.mpr ⟨hb, fun _ h => absurd h List.not_mem_nil⟩
  | prim p =>
    cases p <;> first | exact fun _ h => absurd h List.not_mem_nil | exact hflat _ _ rfl he
  | _ => exact hflat _ _ rfl he

/-- Encoding what is no variable, into a buffer that is none. -/
theorem quiet_encode {type : Ty} {buf : String} {expr : Code} (he : scopesOf expr = []) :
    Quiet (scopesOf (encode type expr (t buf))) :=
  ⟨still_callEncode still_nil (by rw [he]; exact still_nil),
    host_callEncode (fun _ h => absurd h List.not_mem_nil)
      (by rw [he]; exact fun _ h => absurd h List.not_mem_nil)⟩

@[simp] theorem scopesOf_decode_text (type : Ty) (buf : String) :
    scopesOf (decode type (t buf)) = [] :=
  List.eq_nil_iff_forall_not_mem.mpr fun _ h => absurd (scopesOf_callDecode h) List.not_mem_nil

theorem scopes_structCodec (s : StructDef) :
    scopes (structCodec s) = s.fields.flatMap fun f =>
      scopesOf (encode f.type [t "val.", raw f.name] (t "buf")) := by
  have hdec : ∀ fs : List Field, (fs.flatMap fun f => ([] : List (Event Str))) = [] := fun fs =>
    List.flatMap_eq_nil_iff.mpr fun _ _ => rfl
  simp [structCodec, generateStructEncode, generateStructDecode, hdec]

theorem quiet_headerTypes (ns : Namespace) : Quiet (scopes (headerTypes ns)) := by
  have hitems : ∀ (last : Nat) (x : EnumItem × Nat), scopesOf (enumItem last x.1 x.2).code = [] := by
    intro last x
    unfold enumItem
    cases x.1.value <;> by_cases hl : x.2 < last <;> simp [hl]
  have hcases : ∀ (e : EnumDef) (seen : List Int64) (next : Int64) (items : List EnumItem),
      scopes (enumCases e seen next items) = [] := by
    intro e seen next items
    induction items generalizing seen next with
    | nil => rfl
    | cons item items ih =>
      unfold enumCases
      dsimp only
      split
      · exact ih _ _
      · exact ih _ _
  have henums : ∀ e : EnumDef, scopes (generateEnumDef e) = [] ∧
      scopes (generateEnumName e) = [] ∧ scopes (enumCodecs e) = [] := by
    intro e
    refine ⟨?_, ?_, rfl⟩
    · simp [generateEnumDef, hitems]
    · simp [generateEnumName, hcases]
  have hdefs : ∀ s : StructDef, scopes (generateStructDef s) = [] := by
    intro s
    simp [generateStructDef]
  have hcodec : ∀ s : StructDef, Quiet (scopes (structCodec s)) := by
    intro s
    rw [scopes_structCodec]
    exact .flatMap fun f _ => quiet_encode rfl
  have hforward : ∀ s : StructDef, scopes (forwardArrays s) = [] := fun _ => rfl
  have harrays : ∀ s : StructDef, scopes (structArrays s) = [] := fun _ => rfl
  have hser : Quiet (scopes (structSerialization ns)) := by
    unfold structSerialization
    split
    · exact .nil
    · simp only [scopes_append, scopes_flatMap, hforward, harrays]
      refine Quiet.append (.append ?_ (.flatMap fun s _ => hcodec s)) (.flatMap fun _ _ => .nil)
      refine Quiet.append (.append .nil (.flatMap fun _ _ => .nil)) .nil
  unfold headerTypes
  simp only [scopes_append, scopes_flatMap, henums, hdefs]
  exact ((Quiet.flatMap fun _ _ => .nil).append (.flatMap fun _ _ => .nil)).append
    (.flatMap fun _ _ => .nil) |>.append hser

/-! ## Services -/

section
variable (s : ServiceDef)

/-- The names that a method's parameters must not have in the proxy. -/
def proxyNames (m : Method) : List Str :=
  lit "m_conn" :: if m.isStream then streamNames s m else unaryNames s m

theorem serviceProxy_sound :
    (Sound [] (scopes (generateServiceProxy s)) ↔
      ∀ m ∈ s.methods, Fresh (m.params.map (·.name)) (proxyNames s m)) ∧
      Still (scopes (generateServiceProxy s)) := by
  have hmethod : ∀ m, (Sound [[lit "m_conn"].map (·, none)]
      (scopes (if m.isStream then streamMethod s m else unaryMethod s m)) ↔
        Fresh (m.params.map (·.name)) (proxyNames s m)) ∧
      Still (scopes (if m.isStream then streamMethod s m else unaryMethod s m)) := by
    intro m
    unfold proxyNames
    split
    · exact streamMethod_sound s m (owned_hosts _ owned_nil)
    · exact unaryMethod_sound s m (owned_hosts _ owned_nil)
  have hshape : scopes (generateServiceProxy s) =
      scopeWith [lit "m_conn"] ([] ++
        ((s.methods.flatMap fun m =>
          scopes (if m.isStream then streamMethod s m else unaryMethod s m)) ++ [])) := by
    simp [generateServiceProxy, scopeWith]
  obtain ⟨hm, hstm⟩ := sound_each hmethod s.methods
  obtain ⟨hs, hst⟩ := sound_function [lit "m_conn"] owned_nil .nil hstm .nil
  rw [hshape]
  exact ⟨hs.trans hm, hst⟩

theorem interfaceMethod_sound (m : Method) :
    (Sound [] (scopesOf (interfaceMethod m).code) ↔
      Fresh (m.params.map (·.name)) (if m.isStream then [lit "writer"] else [])) ∧
      Still (scopesOf (interfaceMethod m).code) := by
  have hc : ∀ ps, scopesOf (comma ps) = [] := fun ps => by
    unfold comma
    split <;> rfl
  have hshape : scopesOf (interfaceMethod m).code =
      scopeWith [] (arrivals (·.name) (fun _ => []) 0 m.params ++
          if m.isStream then [.bind none (lit "writer")] else []) := by
    cases hm : m.isStream <;> simp [interfaceMethod, hm, hc, scopesOf_methodParams, scopeWith]
  have htail : Around (m.params.map (·.name)) []
      (if m.isStream then [.bind none (lit "writer")] else [])
      (if m.isStream then [lit "writer"] else []) := by
    split
    · exact .bind .nil
    · exact .nil
  rw [hshape]
  exact sound_member [] owned_nil (fun _ _ h => absurd h List.not_mem_nil)
    (fun _ h => absurd h List.not_mem_nil) htail

theorem serviceInterface_sound :
    (Sound [] (scopes (generateServiceInterface s)) ↔
      ∀ m ∈ s.methods,
        Fresh (m.params.map (·.name)) (if m.isStream then [lit "writer"] else [])) ∧
      Still (scopes (generateServiceInterface s)) := by
  have hshape : scopes (generateServiceInterface s) =
      s.methods.flatMap fun m => scopesOf (interfaceMethod m).code := by
    simp [generateServiceInterface]
  rw [hshape]
  exact sound_each interfaceMethod_sound s.methods

/-- A dispatcher: a switch over the ids with a case for each member. -/
theorem dispatcher_sound {α : Type} (hosts : List Str) {outer : Scopes Str}
    {pre post : List (Event Str)} {f : α → List (Event Str)} {P : α → Prop} (ho : Owned outer)
    (hpre : Quiet pre) (hpost : Quiet post)
    (hf : ∀ x, (Sound (hosts.map (·, none) :: outer) (f x) ↔ P x) ∧ Still (f x)) (xs : List α) :
    (Sound outer (scopeWith hosts (pre ++ (xs.flatMap f ++ post))) ↔ ∀ x ∈ xs, P x) ∧
      Still (scopeWith hosts (pre ++ (xs.flatMap f ++ post))) := by
  obtain ⟨hm, hstm⟩ := sound_each hf xs
  obtain ⟨hs, hst⟩ := sound_function hosts ho hpre hstm hpost
  exact ⟨hs.trans hm, hst⟩

/-- The names that a method's parameters must not have in its dispatcher. -/
def caseNames (m : Method) : List Str :=
  if m.isStream then streamDispatchNames else dispatchNames ++ resultNames m

theorem serviceDispatcher_sound :
    (Sound [] (scopes (generateServiceDispatcher s)) ↔
      ∀ m ∈ s.methods, Fresh (m.params.map (·.name)) (caseNames m)) ∧
      Still (scopes (generateServiceDispatcher s)) := by
  have hunary := dispatcher_sound dispatchNames owned_nil (.use (lit "method_id"))
    (.use (lit "method_id")) (dispatchCase_sound s) (s.methods.filter fun m => !m.isStream)
  have hstream := dispatcher_sound streamDispatchNames owned_nil (.use (lit "method_id"))
    (.use (lit "method_id")) (streamCase_sound s) (s.methods.filter fun m => m.isStream)
  have hshape : scopes (generateServiceDispatcher s) =
      scopeWith dispatchNames ([.use none (lit "method_id")] ++
        ((s.methods.filter fun m => !m.isStream).flatMap (fun m => scopes (dispatchCase s m)) ++
          [.use none (lit "method_id")])) ++
      if s.hasStream then
        scopeWith streamDispatchNames ([.use none (lit "method_id")] ++
          ((s.methods.filter fun m => m.isStream).flatMap (fun m => scopes (streamCase s m)) ++
            [.use none (lit "method_id")]))
      else [] := by
    cases hs : s.hasStream <;>
      simp [generateServiceDispatcher, hs, dispatchDefault, dispatchNames, streamDispatchNames,
        scopeWith]
  have hsplit : (∀ m ∈ s.methods, Fresh (m.params.map (·.name)) (caseNames m)) ↔
      (∀ m ∈ s.methods.filter fun m => !m.isStream,
        Fresh (m.params.map (·.name)) (dispatchNames ++ resultNames m)) ∧
      ∀ m ∈ s.methods.filter fun m => m.isStream,
        Fresh (m.params.map (·.name)) (streamDispatchNames ++ []) := by
    simp only [List.mem_filter, List.append_nil, Bool.not_eq_true', and_imp]
    constructor
    · intro h
      refine ⟨fun m hm hf => ?_, fun m hm ht => ?_⟩
      · simpa [caseNames, hf] using h m hm
      · simpa [caseNames, ht] using h m hm
    · rintro ⟨hu, hst⟩ m hm
      unfold caseNames
      split
      · exact hst m hm ‹_›
      · exact hu m hm (eq_false_of_ne_true ‹_›)
  rw [hshape, hsplit]
  cases hs : s.hasStream with
  | true =>
    rw [if_pos rfl]
    exact sound_both hunary hstream
  | false =>
    have hnone : s.methods.filter (fun m => m.isStream) = [] :=
      List.filter_eq_nil_iff.mpr fun m hm => List.any_eq_false.mp hs m hm
    rw [if_neg Bool.false_ne_true, List.append_nil]
    refine ⟨?_, hunary.2⟩
    rw [hunary.1, hnone]
    simp

end

/-! ## Classes -/

section
variable (c : ClassDef)

theorem quiet_proxyProperty (p : Property) : Quiet (scopes (proxyProperty c p)) := by
  have hparam : ∀ type, scopesOf (typeToParam type (t "value")) = [] := fun _ => rfl
  cases hr : p.readonly with
  | true => simpa [proxyProperty, hr] using Quiet.nil
  | false => simpa [proxyProperty, hr, hparam] using quiet_encode rfl

theorem quiet_skeletonProperty (p : Property) : Quiet (scopes (skeletonProperty c p)) := by
  have hparam : ∀ type, scopesOf (typeToParam type (t "value")) = [] := fun _ => rfl
  cases hr : p.readonly with
  | true => simpa [skeletonProperty, hr] using Quiet.nil
  | false => simpa [skeletonProperty, hr, hparam] using quiet_encode rfl

theorem quiet_propGetCase (p : Property) : Quiet (scopes (propGetCase c p)) := by
  simpa [propGetCase] using quiet_encode rfl

theorem quiet_propSetCase (p : Property) : Quiet (scopes (propSetCase c p)) := by
  cases hr : p.readonly with
  | true => simpa [propSetCase, hr] using Quiet.nil
  | false => simpa [propSetCase, hr] using quiet_encode rfl

/-- The members of every proxy. -/
def memberNames : List Str := [lit "m_object_id", lit "m_type_id", lit "m_conn"]

theorem classProxy_sound :
    (Sound [] (scopes (generateClassProxy c)) ↔
      (∀ m ∈ c.methods, Fresh (m.params.map (·.name)) (memberNames ++ objectNames c m)) ∧
      ∀ ctor ∈ c.constructors, Fresh (ctor.params.map (·.name)) (createNames c)) ∧
      Still (scopes (generateClassProxy c)) := by
  have hmethod : ∀ m, (Sound [memberNames.map (·, none)] (scopes (proxyMethod c m)) ↔
      Fresh (m.params.map (·.name)) (memberNames ++ objectNames c m)) ∧
      Still (scopes (proxyMethod c m)) := fun m =>
    proxyMethod_sound c m (owned_hosts memberNames owned_nil)
  have hbasics : scopes (proxyBasics c) = memberNames.reverse.map (.bind none) := by
    simp [proxyBasics, memberNames]
  have hshape : scopes (generateClassProxy c) =
      scopeWith memberNames (c.properties.flatMap (fun p => scopes (proxyProperty c p)) ++
          (c.methods.flatMap (fun m => scopes (proxyMethod c m)) ++ [])) ++
      c.constructors.zipIdx.flatMap fun x => scopes (createFunction c x.1 x.2) := by
    rw [scopeWith, ← hbasics]
    simp [generateClassProxy]
  obtain ⟨hm, hstm⟩ := sound_each hmethod c.methods
  obtain ⟨hs, hst⟩ := sound_function memberNames owned_nil
    (.flatMap fun p (_ : p ∈ c.properties) => quiet_proxyProperty c p) hstm .nil
  have hcreate := sound_each (fun x : Constructor × Nat => createFunction_sound c x.1 x.2)
    c.constructors.zipIdx
  have hctors : (∀ ctor ∈ c.constructors, Fresh (ctor.params.map (·.name)) (createNames c)) ↔
      ∀ x ∈ c.constructors.zipIdx, Fresh (x.1.params.map (·.name)) (createNames c) := by
    conv_lhs => rw [← List.zipIdx_map_fst 0 c.constructors]
    rw [List.forall_mem_map]
  rw [hshape, hctors]
  exact sound_both ⟨hs.trans hm, hst⟩ hcreate

theorem classSkeleton_sound :
    (Sound [] (scopes (generateClassSkeleton c)) ↔
      ∀ m ∈ c.methods, Fresh (m.params.map (·.name)) []) ∧
      Still (scopes (generateClassSkeleton c)) := by
  have hmethod : ∀ m, (Sound [] (scopesOf (skeletonMethod m).code) ↔
      Fresh (m.params.map (·.name)) []) ∧ Still (scopesOf (skeletonMethod m).code) := by
    intro m
    have hshape : scopesOf (skeletonMethod m).code =
        scopeWith [] (arrivals (·.name) (fun _ => []) 0 m.params ++ []) := by
      simp [skeletonMethod, scopesOf_methodParams, scopeWith]
    rw [hshape]
    exact sound_member [] owned_nil (fun _ _ h => absurd h List.not_mem_nil)
      (fun _ h => absurd h List.not_mem_nil) (.nil : Around _ [] _ _)
  have hfields : (c.properties.flatMap fun _ => ([] : List (Event Str))) = [] :=
    List.flatMap_eq_nil_iff.mpr fun _ _ => rfl
  have hshape : scopes (generateClassSkeleton c) =
      c.properties.flatMap (fun p => scopes (skeletonProperty c p)) ++
        c.methods.flatMap fun m => scopesOf (skeletonMethod m).code := by
    simp [generateClassSkeleton, hfields]
  have hq : Quiet (c.properties.flatMap fun p => scopes (skeletonProperty c p)) :=
    .flatMap fun p _ => quiet_skeletonProperty c p
  obtain ⟨hs, hst⟩ := sound_both ⟨iff_true_intro (hq.sound owned_nil), hq.still⟩
    (sound_each hmethod c.methods)
  rw [hshape]
  exact ⟨hs.trans (and_iff_right trivial), hst⟩

theorem classDispatcher_sound :
    (Sound [] (scopes (generateClassDispatcher c)) ↔
      ∀ m ∈ c.methods,
        Fresh (m.params.map (·.name)) (classDispatchNames ++ (resultNames m ++ [m.name]))) ∧
      Still (scopes (generateClassDispatcher c)) := by
  have hbase : ∀ (base : String) (message id : String),
      scopes (orBase c [t base] message (t id)) = [] := by
    intro base message id
    unfold orBase
    cases c.base <;> rfl
  have hpost : Quiet (scopes (orBase c [t "dispatch(", var "method_id", t ", ", var "req", t ", ",
      var "resp", t ")"] "Unknown method ID" (var "method_id"))) := by
    unfold orBase
    cases c.base with
    | some name => exact (Quiet.use _).append ((Quiet.use _).append (.use _))
    | none => exact .use _
  have hget : Quiet (c.properties.flatMap fun p => scopes (propGetCase c p)) :=
    .flatMap fun p _ => quiet_propGetCase c p
  have hset : Quiet (c.properties.flatMap fun p => scopes (propSetCase c p)) :=
    .flatMap fun p _ => quiet_propSetCase c p
  have hshape : scopes (generateClassDispatcher c) =
      (c.properties.flatMap fun p => scopes (propGetCase c p)) ++
      ((c.properties.flatMap fun p => scopes (propSetCase c p)) ++
      scopeWith classDispatchNames ([.use none (lit "method_id")] ++
        (c.methods.flatMap (fun m => scopes (classCase c m)) ++
          scopes (orBase c [t "dispatch(", var "method_id", t ", ", var "req", t ", ",
            var "resp", t ")"] "Unknown method ID" (var "method_id"))))) := by
    simp [generateClassDispatcher, hbase, classDispatchNames, scopeWith]
  obtain ⟨hs, hst⟩ := dispatcher_sound classDispatchNames owned_nil (.use (lit "method_id")) hpost
    (classCase_sound c) c.methods
  rw [hshape]
  refine ⟨?_, hget.still.append (hset.still.append hst)⟩
  rw [sound_append, hget.still, sound_append, hset.still, and_iff_right (hget.sound owned_nil),
    and_iff_right (hset.sound owned_nil), hs]

theorem classFactory_sound :
    (Sound [] (scopes (generateClassFactory c)) ↔
      ∀ ctor ∈ c.constructors, Fresh (ctor.params.map (·.name)) factoryNames) ∧
      Still (scopes (generateClassFactory c)) := by
  have hcases : ∀ x : Constructor × Nat,
      (Sound factoryScopes (scopes (factoryCase c x.1 x.2)) ↔
        Fresh (x.1.params.map (·.name)) factoryNames) ∧
      Still (scopes (factoryCase c x.1 x.2)) := fun x => factoryCase_sound c x.1 x.2
  have hpre : Quiet (if c.constructors.isEmpty then
      [.use none (lit "args"), .use none (lit "constructor_id"), .use none (lit "Impl")]
      else [.use none (lit "constructor_id")] : List (Event Str)) := by
    split
    · exact (Quiet.use _).append ((Quiet.use _).append (.use _))
    · exact .use _
  have houter : Owned [[lit "runtime", lit "Impl"].map (·, (none : Option Nat))] :=
    owned_hosts _ owned_nil
  obtain ⟨hsi, hsti⟩ := dispatcher_sound [lit "args", lit "constructor_id"] houter hpre
    (.use (lit "constructor_id")) hcases c.constructors.zipIdx
  obtain ⟨hs, hst⟩ := sound_function [lit "runtime", lit "Impl"] owned_nil
    ((Quiet.use (lit "runtime")).append (.use (Cpp.kType c.name))) hsti .nil
  have hshape : scopes (generateClassFactory c) =
      scopeWith [lit "runtime", lit "Impl"] ([.use none (lit "runtime")] ++ [.use none (Cpp.kType c.name)] ++
          (scopeWith [lit "args", lit "constructor_id"] ((if c.constructors.isEmpty then
                [.use none (lit "args"), .use none (lit "constructor_id"), .use none (lit "Impl")]
                else [.use none (lit "constructor_id")]) ++
              (c.constructors.zipIdx.flatMap (fun x => scopes (factoryCase c x.1 x.2)) ++
                [.use none (lit "constructor_id")])) ++ [])) := by
    cases hc : c.constructors <;> simp [generateClassFactory, hc, scopeWith]
  rw [hshape]
  refine ⟨?_, hst⟩
  rw [hs, hsi]
  conv_rhs => rw [← List.zipIdx_map_fst 0 c.constructors]
  rw [List.forall_mem_map]

end

/-! ## The header -/

section
variable (ns : Namespace)

@[simp] theorem scopes_parts {α : Type} (xs : List α) (f : α → List Line) :
    scopes (parts xs f) = xs.flatMap fun x => scopes (f x) := by
  simp [parts]

/-- In front of the types nothing is bound. -/
theorem scopes_header :
    scopes (generateHeader ns) = scopes (headerTypes ns) ++ scopes (headerMembers ns) := by
  have hnone : ∀ {α : Type} (xs : List α), (xs.flatMap fun _ => ([] : List (Event Str))) = [] :=
    fun xs => List.flatMap_eq_nil_iff.mpr fun _ _ => rfl
  have htop : scopes (headerTop ns ++ openNamespace ns ++ usingSong) = [] := rfl
  have hids : scopes (if ns.services.isEmpty then [] else generateServiceIds ns) = [] := by
    split
    · rfl
    · simp [generateServiceIds, constantLine, hnone]
  have hclassIds : scopes (if ns.classes.isEmpty then [] else generateClassIds ns) = [] := by
    split
    · rfl
    · simp [generateClassIds, constantLine, hnone]
  have hforward : scopes (forwardStructs ns) = [] ∧ scopes (forwardClasses ns) = [] := by
    constructor
    · unfold forwardStructs
      split <;> simp [hnone]
    · unfold forwardClasses
      split <;> simp [hnone]
  have hend : scopes (closeNamespace ns) = [] := rfl
  unfold generateHeader
  rw [scopes_append, scopes_append, scopes_append, scopes_append, scopes_append, scopes_append,
    scopes_append, htop, hids, hclassIds, hforward.1, hforward.2, hend]
  simp

/-- What the parameters of a service's method must not be called in the header. -/
def methodNames (s : ServiceDef) (m : Method) : List Str :=
  proxyNames s m ++ caseNames m

/-- What the parameters of a class's method must not be called. -/
def objectMethodNames (c : ClassDef) (m : Method) : List Str :=
  memberNames ++ objectNames c m ++ (classDispatchNames ++ (resultNames m ++ [m.name]))

/-- What the parameters of a constructor must not be called. -/
def constructorNames (c : ClassDef) : List Str := createNames c ++ factoryNames

/-- What the interface binds is bound in the dispatcher. -/
theorem interfaceNames_mem (m : Method) :
    ∀ n ∈ if m.isStream then [lit "writer"] else [], n ∈ caseNames m := by
  unfold caseNames
  split
  · exact List.forall_mem_singleton.mpr List.mem_cons_self
  · exact fun _ h => absurd h List.not_mem_nil

/-- The header's names and the parameters' do not get in each other's way where every method
and constructor has distinct parameters, none of them called as a name of the generator's
there. -/
theorem header_sound_iff :
    Sound [] (scopes (generateHeader ns)) ↔
      (∀ s ∈ ns.services, ∀ m ∈ s.methods, Fresh (m.params.map (·.name)) (methodNames s m)) ∧
      ∀ c ∈ ns.classes,
        (∀ m ∈ c.methods, Fresh (m.params.map (·.name)) (objectMethodNames c m)) ∧
        ∀ ctor ∈ c.constructors, Fresh (ctor.params.map (·.name)) (constructorNames c) := by
  have htypes : (Sound [] (scopes (headerTypes ns)) ↔ True) ∧ Still (scopes (headerTypes ns)) :=
    ⟨iff_true_intro ((quiet_headerTypes ns).sound owned_nil), (quiet_headerTypes ns).still⟩
  have hmembers := sound_both (sound_both (sound_both (sound_both (sound_both (sound_both
    (sound_each serviceProxy_sound ns.services) (sound_each serviceInterface_sound ns.services))
    (sound_each serviceDispatcher_sound ns.services)) (sound_each classProxy_sound ns.classes))
    (sound_each classSkeleton_sound ns.classes)) (sound_each classDispatcher_sound ns.classes))
    (sound_each classFactory_sound ns.classes)
  rw [scopes_header]
  unfold headerMembers
  simp only [scopes_append, scopes_parts]
  rw [(sound_both htypes hmembers).1]
  simp only [methodNames, objectMethodNames, constructorNames, fresh_append]
  constructor
  · rintro ⟨-, ⟨⟨⟨⟨⟨hproxy, -⟩, hcase⟩, hobject⟩, -⟩, hdispatch⟩, hfactory⟩
    refine ⟨fun s hs m hm => ⟨hproxy s hs m hm, hcase s hs m hm⟩, fun c hc => ⟨fun m hm => ?_, ?_⟩⟩
    · exact ⟨(hobject c hc).1 m hm, hdispatch c hc m hm⟩
    · exact fun ctor hctor => ⟨(hobject c hc).2 ctor hctor, hfactory c hc ctor hctor⟩
  · rintro ⟨hservices, hclasses⟩
    refine ⟨trivial, ⟨⟨⟨⟨⟨?_, ?_⟩, ?_⟩, ?_⟩, ?_⟩, ?_⟩, ?_⟩
    · exact fun s hs m hm => (hservices s hs m hm).1
    · exact fun s hs m hm => (hservices s hs m hm).2.mono (interfaceNames_mem m)
    · exact fun s hs m hm => (hservices s hs m hm).2
    · refine fun c hc => ⟨fun m hm => ((hclasses c hc).1 m hm).1, fun ctor hctor => ?_⟩
      exact ((hclasses c hc).2 ctor hctor).1
    · exact fun c hc m hm => ((hclasses c hc).1 m hm).1.1.mono fun _ h => absurd h List.not_mem_nil
    · exact fun c hc m hm => ((hclasses c hc).1 m hm).2
    · exact fun c hc ctor hctor => ((hclasses c hc).2 ctor hctor).2

end

end Song.Compiler.CppText
