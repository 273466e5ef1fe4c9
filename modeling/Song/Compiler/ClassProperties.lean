import Song.Compiler.ClassCalls
import Song.Runtime.Lasting

/-!
# Reading a property back

What `set_<p>` stored is what `<p>()` returns, whatever any client has the service do in between,
as long as the object is registered and the property is not set again. That is so where the
property is left to the generated code (`Untouched`): the accessors are virtual for an
implementation to override, and the storage is `protected`.
-/

namespace Song.Compiler

section
variable {σ ω Ω : Type} {c : ClassDef} {ns : Namespace} {depth : Nat} {impl : Implementation σ ω}
  {pos : Nat} {p : Property} {id : UInt16}

/-- The implementation's own functions do not assign the storage of a property. -/
structure LeavesAlone (impl : Implementation σ ω) (pos : Nat) : Prop where
  method : ∀ i args s, (impl.method i args s).state.1.props pos = s.1.props pos
  getter : ∀ i f, impl.getter i = some f → ∀ s, (f s).state.1.props pos = s.1.props pos
  setter : ∀ i f, impl.setter i = some f → ∀ v s, (f v s).state.1.props pos = s.1.props pos

/-- A property of the generated code alone: no accessor is overridden, no method hides the getter,
and the storage is left alone. -/
structure Untouched (impl : Implementation σ ω) (c : ClassDef) (p : Property) (pos : Nat) :
    Prop where
  getter : impl.getter pos = none
  setter : impl.setter pos = none
  unhidden : ∀ m ∈ c.methods, ¬ (m.name = lit "get_" ++ p.name ∧ m.params = [])
  alone : LeavesAlone impl pos

/-! ## The functions of an object -/

theorem Ran.next_state {τ ν α β : Type} {r : Ran τ ν α} {f : α → τ → Ran τ ν β} {P : τ → Prop}
    (h : P r.state) (hf : ∀ a s, P s → P (f a s).state) : P (r.next f).state := by
  unfold Ran.next
  split
  · exact hf _ _ h
  · exact h

theorem ClassDef.setProp_state (v : Val) (s : Members ω × σ) :
    (c.setProp ns p pos v s).state = (s.1.set pos v, s.2) := by
  unfold setProp
  dsimp only
  split
  · rfl
  · rfl
  · rfl

namespace LeavesAlone

variable (h : LeavesAlone impl pos)
include h

theorem runFunction {f : Handler} {args : List Val}
    (hf : ∀ cls v, f = .setter cls pos → args ≠ [v]) (s : Members ω × σ) :
    (c.runFunction ns impl f args s).state.1.props pos = s.1.props pos := by
  unfold ClassDef.runFunction
  split
  · split
    · next f hf => exact h.getter _ f hf s
    · rfl
  · next cls pos' v =>
    split
    · next f hf => exact h.setter _ f hf v s
    · have hne : pos ≠ pos' := by
        rintro rfl
        exact hf cls v rfl rfl
      rw [ClassDef.setProp_state]
      exact Function.update_of_ne hne _ _
    · rfl
  · rfl
  · exact h.method _ _ s

theorem respond (q : Property) (i : Nat) (s : Members ω × σ) :
    (c.respond ns impl q i s).state.1.props pos = s.1.props pos :=
  Ran.next_state (P := fun s' : Members ω × σ => s'.1.props pos = s.1.props pos)
    (h.runFunction (fun _ _ _ hargs => by cases hargs) s) fun _ _ hs => hs

theorem baseGet (id : UInt16) (s : Members ω × σ) :
    (c.baseGet ns impl id s).state.1.props pos = s.1.props pos := by
  unfold ClassDef.baseGet
  split
  · exact h.respond _ _ s
  · rfl

theorem baseSet (hprog : c.IsProgram ns) (hp : c.properties[pos]? = some p)
    (hid : c.propId ns p ≠ some id) (req : Buffer) (s : Members ω × σ) :
    (c.baseSet ns depth impl id req s).state.1.props pos = s.1.props pos := by
  unfold ClassDef.baseSet
  split
  · next q i hcase =>
    obtain ⟨hq, hr, hqid⟩ := ClassDef.propCase_set hcase
    split
    · rfl
    · next v _ _ =>
      refine Ran.next_state (P := fun s' : Members ω × σ => s'.1.props pos = s.1.props pos) ?_
        fun _ s' hs => (h.respond q i s').trans hs
      rw [ClassDef.callFunction, hprog.handler_eq (calls_setter hq hr)]
      refine h.runFunction (fun cls v' he _ => ?_) s
      cases he
      cases hp.symm.trans hq
      exact hid hqid
  · rfl

theorem baseDispatch (hprog : c.IsProgram ns) (id : UInt16) (req : Buffer) (s : Members ω × σ) :
    (c.baseDispatch ns depth impl id req s).state.1.props pos = s.1.props pos := by
  unfold ClassDef.baseDispatch
  split
  · next m i hcase =>
    have hm := List.mk_mem_zipIdx_iff_getElem?.mp (List.mem_of_find?_eq_some hcase)
    split
    · rfl
    · refine Ran.next_state (P := fun s' : Members ω × σ => s'.1.props pos = s.1.props pos) ?_
        fun _ _ hs => hs
      rw [hprog.callFunction_method hm]
      exact h.method _ _ s
  · rfl

end LeavesAlone

namespace Untouched

variable (hu : Untouched impl c p pos) (hprog : c.IsProgram ns)
  (hp : c.properties[pos]? = some p) (hid : c.propId ns p = some id)
include hu hprog hp hid

theorem baseGet {w : Bytes} {s : Members ω × σ} (hw : encodeAs ns p.type (s.1.props pos) = .ok w) :
    c.baseGet ns impl id s = ⟨s, [], .ok w⟩ := by
  have hcall : c.callFunction ns impl (c.getterFn p pos) [] s =
      ⟨s, [], .ok (some (s.1.props pos))⟩ := by
    rw [ClassDef.callFunction, hprog.handler_eq (calls_getter hp hu.unhidden)]
    dsimp only [ClassDef.getterFn, ClassDef.runFunction]
    rw [hu.getter]
  rw [ClassDef.baseGet, hprog.getCase hp hid]
  dsimp only [ClassDef.respond]
  rw [hcall, Ran.next]
  dsimp only [encodeResult]
  rw [hw]
  rfl

theorem baseSet (hr : p.readonly = false) {req rest : Buffer} {v : Val}
    (hread : (decodeAs ns depth p.type).run req = .ok v rest) (s : Members ω × σ) :
    (c.baseSet ns depth impl id req s).state.1.props pos = v := by
  have hcall : c.callFunction ns impl (c.setterFn p pos) [v] s = c.setProp ns p pos v s := by
    rw [ClassDef.callFunction, hprog.handler_eq (calls_setter hp hr)]
    dsimp only [ClassDef.setterFn, ClassDef.runFunction]
    rw [hu.setter, hp]
  rw [ClassDef.baseSet, hprog.setCase hp hr hid]
  dsimp only
  rw [hread]
  dsimp only
  rw [hcall]
  refine Ran.next_state (P := fun s' : Members ω × σ => s'.1.props pos = v) ?_ fun _ s' hs =>
    (hu.alone.respond p pos s').trans hs
  rw [ClassDef.setProp_state]
  exact Function.update_self ..

end Untouched

end

/-! ## Between two requests -/

section
variable {σ ω Ω : Type} (env : Env σ Ω) (c : ClassDef) (ns : Namespace) (depth : Nat)
  (impl : Implementation σ ω) (mk : Members ω → Ω) (type : UInt16)

/-- Where the constructor returns, an object with the members it made is registered, and the client
gets its reference. -/
def Constructs : Prop :=
  ∀ (rt : Rt σ Ω) i args d, (impl.construct i args rt.user).out = .ok d →
    ∃ rt' obj, (constructing env impl mk type i args).run rt =
        .ok (encodeObjectRef ⟨type.toUInt32, rt.registry.nextId⟩) rt' ∧
      rt'.registry.get rt.registry.nextId = some obj ∧ obj.data = mk d

/-- An object of the class is one as long as it is registered. -/
def Remains : Prop :=
  ∀ (rt rt' : Rt σ Ω) objectId xs, Has objectId (fun data => ∃ d, data = mk d) rt →
    Lts.Run (happen env) (Spares objectId fun _ => True) rt xs rt' →
      Has objectId (fun data => ∃ d, data = mk d) rt'

/-- After `set_<p>(v)` of a proxy, `<p>()` returns `v` until the next set, while the object is
registered. -/
def ReadsBack (p : Property) : Prop :=
  ∀ (x : ClassProxy) (rt : Rt σ Ω) obj d v, rt.registry.get x.objectId = some obj →
    obj.data = mk d → Fits ns depth p.type v →
      ∃ set get id w, x.setOp c ns p v = .ok set ∧ x.getOp c ns p = .ok get ∧
        c.propId ns p = some id ∧ Carries ns depth p.type v w ∧
        ∀ seq tp xs rt', Lts.Run (happen env) (Spares x.objectId (· ≠ id))
            (Eff.after (handled env tp (set.frame seq)) rt) xs rt' →
          ∀ obj', rt'.registry.get x.objectId = some obj' → ∀ seq' tp',
            (handled env tp' (get.frame seq')).run rt' =
              (answered env seq' (.transport tp') .propertyError (pure w)).run
                (putBack rt' x.objectId obj')

variable {env c ns depth impl mk type} {p : Property} {pos : Nat}

variable (env impl mk type) in
theorem constructs : Constructs env impl mk type := by
  intro rt i args d hd
  obtain ⟨s, hs⟩ := @runCallback_run _ _ env _ (impl.construct i args) rt
  rw [hd] at hs
  have hid : s.registry.nextId = rt.registry.nextId := by
    have haside : Aside rt s := Eff.Within.ok (Aside.runCallback (impl.construct i args)) hs
    rw [haside]
  refine ⟨{ s with
      registry := (s.registry.add type.toUInt32 (mk d)).2
      tracked := s.tracked.insert s.registry.nextId },
    ⟨s.registry.nextId, type.toUInt32, 1, false, mk d⟩, ?_, ?_, rfl⟩
  · rw [← hid]
    exact Eff.run_bind_ok hs
  · rw [← hid, ObjectRegistry.get, ObjectRegistry.add, AList.lookup_insert]

theorem has_put {s s' : Rt σ Ω} {P : Ω → Prop} {objectId : Int32} {obj : Obj Ω}
    (hr : s'.registry = s.registry.put objectId obj) (hP : P obj.data) : Has objectId P s' := by
  intro obj' hobj'
  rw [hr, ObjectRegistry.get, ObjectRegistry.put, AList.lookup_insert] at hobj'
  cases hobj'
  exact hP

/-- What holds of the data that a function leaves holds after the answer. -/
theorem has_answered {s : Rt σ Ω} {P : Ω → Prop} {objectId : Int32} {obj : Obj Ω} {seq : UInt32}
    {port : Port} {code : ErrorCode} {f : Ω × σ → Ran (Ω × σ) Note Bytes}
    (hP : P (f (obj.data, s.user)).state.1) :
    Has objectId P
      (Eff.after (answered env seq port code (runVirtual env objectId obj f)) s) := by
  have hran := @runVirtual_run _ _ env _ objectId obj f s
  have hput : Has objectId P (ranOn env objectId obj (f (obj.data, s.user)).state
      (f (obj.data, s.user)).pushed s) :=
    (KeepsHas.frame.within (Aside.notifyAll _)).after _ (has_put rfl hP)
  rw [Eff.after_congr (answered_congr (hran.trans rfl))]
  exact (KeepsHas.frame.within (Aside.tryReport
    (Aside.bind (Aside.ofExcept _) fun _ => Aside.reply port _))).after _ hput

namespace Registered

variable (h : Registered env c ns depth impl mk type)
include h

theorem remains : Remains env mk := by
  intro rt rt' objectId xs hhas hrun
  refine hhas.run ⟨?_, ?_, ?_⟩ hrun
  · rintro id _ user ⟨d, rfl⟩
    rw [h.propGet]
    exact ⟨_, rfl⟩
  · rintro id req _ user - ⟨d, rfl⟩
    rw [h.propSet]
    exact ⟨_, rfl⟩
  · rintro id req _ user ⟨d, rfl⟩
    rw [h.dispatch]
    exact ⟨_, rfl⟩

/-- The functions of the class's objects keep what a property is. -/
theorem keeps (hp : c.properties[pos]? = some p) (ha : LeavesAlone impl pos) {id : UInt16}
    (hid : c.propId ns p = some id) (v : Val) :
    env.Keeps (fun data => ∃ d, data = mk d ∧ d.props pos = v) (· ≠ id) where
  propGet id' data user := by
    rintro ⟨d, rfl, hd⟩
    rw [h.propGet]
    exact ⟨_, rfl, (ha.baseGet id' (d, user)).trans hd⟩
  propSet id' req data user := by
    rintro hne ⟨d, rfl, hd⟩
    rw [h.propSet]
    refine ⟨_, rfl, (ha.baseSet h.program hp (fun he => hne ?_) req (d, user)).trans hd⟩
    exact Option.some.inj (he.symm.trans hid)
  dispatch id' req data user := by
    rintro ⟨d, rfl, hd⟩
    rw [h.dispatch]
    exact ⟨_, rfl, (ha.baseDispatch h.program id' req (d, user)).trans hd⟩

theorem readsBack (hp : c.properties[pos]? = some p) (hr : p.readonly = false)
    (hu : Untouched impl c p pos) : ReadsBack env c ns depth mk p := by
  intro x rt obj d v hobj hdata hfit
  have hmem := List.mem_of_getElem? hp
  obtain ⟨id, hid⟩ := Option.isSome_iff_exists.mp (h.program.props p hmem)
  obtain ⟨w, hw, hread⟩ := hfit.carries (h.supported.properties p hmem)
  refine ⟨.setProperty x.typeId x.objectId id w, .getProperty x.typeId x.objectId id, id, w,
    ?_, ?_, hid, ⟨hw, hread⟩, fun seq tp xs rt' hrun obj' hobj' seq' tp' => ?_⟩
  · rw [ClassProxy.setOp, hw, hid]
    rfl
  · rw [ClassProxy.getOp, hid]
    rfl
  · have hset : Has x.objectId (fun data => ∃ d, data = mk d ∧ d.props pos = v)
        (Eff.after (handled env tp
          ((Op.setProperty x.typeId x.objectId id w).frame seq)) rt) := by
      obtain ⟨pre, hm⟩ := handled_setProperty env seq hobj tp x.typeId id w
      rw [Eff.after_congr hm]
      refine has_answered ?_
      rw [hdata, h.propSet]
      exact ⟨_, rfl, hu.baseSet h.program hp hid hr (hread pre) (d, rt.user)⟩
    obtain ⟨d', hd', hv⟩ := (hset.run (h.keeps hp hu.alone hid v) hrun) obj' hobj'
    have hget : env.propGet id (obj'.data, rt'.user) = ⟨(obj'.data, rt'.user), [], .ok w⟩ := by
      have hw' : encodeAs ns p.type (d'.props pos) = .ok w := by rw [hv, hw]
      rw [hd', h.propGet, @Untouched.baseGet _ _ _ _ _ _ _ _ hu h.program hp hid w
        (d', rt'.user) hw']
      rfl
    refine (handled_getProperty env seq' hobj' tp' x.typeId id).trans (answered_congr ?_)
    rw [runVirtual_run, hget]
    rfl

end Registered

/-- What the proxy of a class without a base asks for is what its implementation does. -/
theorem Registered.faithful (h : Registered env c ns depth impl mk type) :
    (Creates env c ns depth impl mk type ∧ Constructs env impl mk type ∧ Remains env mk) ∧
      (∀ pos p, c.properties[pos]? = some p → p.readonly = false → Untouched impl c p pos →
        ReadsBack env c ns depth mk p) ∧
      (Refuses env c ns mk ∧ RefusesCreate env c ns type) ∧
      Calls env c ns depth impl mk :=
  ⟨⟨h.creates, constructs env impl mk type, h.remains⟩,
    fun _ _ hp hr hu => h.readsBack hp hr hu, ⟨h.refuses, h.refusesCreate⟩, h.calls⟩

end

/-! ## A dimmer -/

section
variable {σ ω : Type}

/-- A runtime that serves the objects of one class. -/
def served (c : ClassDef) (ns : Namespace) (depth : Nat) (impl : Implementation σ ω)
    (type : UInt16) : Env σ (Members ω) where
  dispatchers := ∅
  streamDispatchers := ∅
  factories := (∅ : Map _ _).insert type.toUInt32 fun id args user =>
    mapRan some (c.factory ns depth impl id args user)
  propGet := fun id s => c.baseGet ns impl id s
  propSet := fun id req s => c.baseSet ns depth impl id req s
  dispatch := fun id req s => c.baseDispatch ns depth impl id req s
  methods := []
  localCapabilities := 0
  sendOutcome := fun _ _ => none
  writeOutcome := fun _ => true

theorem registered_served {c : ClassDef} {ns : Namespace} {type : UInt16} (hroot : c.base = none)
    (hc : c ∈ ns.classes) (hprog : c.IsProgram ns) (hsup : c.Supported ns)
    (htype : c.typeId ns = some type) (depth : Nat) (impl : Implementation σ ω) :
    Registered (served c ns depth impl type) c ns depth impl id type where
  root := hroot
  declared := hc
  program := hprog
  supported := hsup
  typeId := htype
  factory := AList.lookup_insert _
  propGet _ _ _ := rfl
  propSet _ _ _ _ := rfl
  dispatch _ _ _ _ := rfl

end

namespace Dimmer

def u8 : Ty := { base := .primitive .u8 }

def level : Property := { name := lit "level", type := u8 }

/-- `u8 boost(u8 by)` -/
def boost : Method where
  name := lit "boost"
  params := [{ name := lit "by", type := u8 }]
  returnType := u8

/-- `class Dimmer { property u8 level; constructor(u8 start); … }` -/
def dimmer (methods : List Method) : ClassDef where
  name := lit "Dimmer"
  properties := [level]
  constructors := [{ params := [{ name := lit "start", type := u8 }] }]
  methods := methods

def dimmerNs (methods : List Method) : Namespace := { classes := [dimmer methods] }

/-- The level that was asked for, and no function of its own that touches it. -/
def dimmerImpl : Implementation Unit Unit where
  construct _ args user := ⟨user, [], .ok ⟨fun _ => args.headD (.u8 0), ()⟩⟩
  method _ args s := ⟨s, [], .ok args.head?⟩
  getter _ := none
  setter _ := none

/-- `set_level` is overridden and stores at most 100. -/
def cappedImpl : Implementation Unit Unit :=
  { dimmerImpl with
    setter := fun _ => some fun v s =>
      match v with
      | .u8 level => ⟨(s.1.set 0 (.u8 (min level 100)), s.2), [], .ok none⟩
      | _ => ⟨s, [], .ok none⟩ }

/-- `boost` assigns the level. -/
def boostingImpl : Implementation Unit Unit :=
  { dimmerImpl with
    method := fun _ args s => ⟨(s.1.set 0 (args.headD (.u8 0)), s.2), [], .ok args.head?⟩ }

/-- `u8 get_level()`, which is called in the place of the generated getter. -/
def getLevel : Method where
  name := lit "get_level"
  params := []
  returnType := u8

def hidingImpl : Implementation Unit Unit :=
  { dimmerImpl with method := fun _ _ s => ⟨s, [], .ok (some (.u8 0))⟩ }

theorem compilable_u8 (ns : Namespace) : Compilable ns u8 := by
  intro t ht
  cases ht with
  | refl => exact ⟨by decide, rfl⟩
  | field hb _ _ _ => cases hb

theorem fits_u8 (ns : Namespace) (v : UInt8) : Fits ns 1 u8 (.u8 v) where
  typed := by simp [HasType, BaseHas, PrimitiveType.Has, u8]
  depth := by simp [Val.depth]

theorem registered_boost {σ ω : Type} (impl : Implementation σ ω) :
    Registered (served (dimmer [boost]) (dimmerNs [boost]) 1 impl 1) (dimmer [boost])
      (dimmerNs [boost]) 1 impl id 1 := by
  refine registered_served rfl List.mem_cons_self ?_ ?_ rfl 1 impl
  · constructor <;> decide
  · constructor <;> simp [dimmer, level, boost, compilable_u8]

theorem faithful_boost :
    ReadsBack (served (dimmer [boost]) (dimmerNs [boost]) 1 dimmerImpl 1) (dimmer [boost])
        (dimmerNs [boost]) 1 id level ∧
      Calls (served (dimmer [boost]) (dimmerNs [boost]) 1 dimmerImpl 1) (dimmer [boost])
        (dimmerNs [boost]) 1 dimmerImpl id := by
  have hall := Registered.faithful (registered_boost dimmerImpl)
  refine ⟨hall.2.1 0 level rfl rfl ⟨rfl, rfl, by decide, ?_⟩, hall.2.2.2⟩
  exact ⟨fun _ _ _ => rfl, (fun _ _ h => by cases h), (fun _ _ h => by cases h)⟩

def dimmerRt : Rt Unit (Members Unit) :=
  ⟨(ObjectRegistry.empty.add 1 ⟨fun _ => .u8 0, ()⟩).2, ⟨∅⟩, (), .empty, ∅, [], 0, []⟩

/-- `boost(7)` -/
def boosts : Frame := (Op.callObject 1 (-1) 1 [7]).frame 5

/-- What `level()` gets, in a run behind `set_level(200)`. -/
theorem sent_of_readsBack {methods : List Method} {impl : Implementation Unit Unit}
    (h : ReadsBack (served (dimmer methods) (dimmerNs methods) 1 impl 1) (dimmer methods)
      (dimmerNs methods) 1 id level)
    (hid : (dimmer methods).propId (dimmerNs methods) level = some 1)
    {xs : List Happening} {rt' : Rt Unit (Members Unit)}
    (hrun : Lts.Run (happen (served (dimmer methods) (dimmerNs methods) 1 impl 1))
      (Spares (-1) (· ≠ 1)) (Eff.after (handled (served (dimmer methods) (dimmerNs methods) 1
        impl 1) 0 ((Op.setProperty 1 (-1) 1 [200]).frame 1)) dimmerRt) xs rt')
    (hobj : (rt'.registry.get (-1)).isSome) :
    (Eff.after (handled (served (dimmer methods) (dimmerNs methods) 1 impl 1) 0
        ((Op.getProperty 1 (-1) 1).frame 2)) rt').sent =
      rt'.sent ++ [(.transport 0, createResultMessage 2 [200])] := by
  obtain ⟨obj', hobj'⟩ := Option.isSome_iff_exists.mp hobj
  obtain ⟨set, get, id, w, hset, hget, hid', ⟨hw, -⟩, hreads⟩ :=
    h ⟨1, -1⟩ dimmerRt _ ⟨fun _ => .u8 0, ()⟩ (.u8 200) rfl rfl (fits_u8 _ 200)
  cases hid'.symm.trans hid
  have hw' : w = [200] := (Except.ok.inj hw).symm
  rw [ClassProxy.setOp, hid] at hset
  rw [ClassProxy.getOp, hid] at hget
  have hset' : set = .setProperty 1 (-1) 1 [200] := (Except.ok.inj hset).symm
  have hget' : get = .getProperty 1 (-1) 1 := (Except.ok.inj hget).symm
  subst hset' hget' hw'
  rw [Eff.after_congr (hreads 1 0 xs rt' hrun obj' hobj' 2 0)]
  rfl

/-- An overridden setter, a method that assigns the storage and a method that hides the getter:
`level()` is not what `set_level` was given. -/
theorem not_readsBack :
    ¬ ReadsBack (served (dimmer [boost]) (dimmerNs [boost]) 1 cappedImpl 1) (dimmer [boost])
        (dimmerNs [boost]) 1 id level ∧
      ¬ ReadsBack (served (dimmer [boost]) (dimmerNs [boost]) 1 boostingImpl 1) (dimmer [boost])
        (dimmerNs [boost]) 1 id level ∧
      ¬ ReadsBack (served (dimmer [getLevel]) (dimmerNs [getLevel]) 1 hidingImpl 1)
        (dimmer [getLevel]) (dimmerNs [getLevel]) 1 id level := by
  refine ⟨fun h => ?_, fun h => ?_, fun h => ?_⟩
  · exact absurd (sent_of_readsBack h rfl .nil (by decide)) (by decide)
  · have hstep : ∀ s, happen (served (dimmer [boost]) (dimmerNs [boost]) 1 boostingImpl 1) s
        (.message 0 .empty boosts.hdr boosts.body) = some (Eff.after
          (handled (served (dimmer [boost]) (dimmerNs [boost]) 1 boostingImpl 1) 0 boosts)
          { s with tracked := .empty }) := fun _ => rfl
    refine absurd (sent_of_readsBack h rfl (.snoc .nil ?_ (hstep _)) (by decide)) (by decide)
    exact ⟨fun ht => absurd ht (by decide), fun ht => absurd ht (by decide)⟩
  · exact absurd (sent_of_readsBack h rfl .nil (by decide)) (by decide)

end Dimmer

end Song.Compiler
