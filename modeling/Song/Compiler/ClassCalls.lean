import Mathlib.Data.List.NodupEquivFin
import Song.Compiler.ClassCode
import Song.Compiler.RoundTrip
import Song.Runtime.Answer
import Song.Runtime.Pipe

/-!
# Calls of an object through its proxy

What `handle_message` runs for a request of a class's proxy, told on the implementation's own
functions and values: a constructor or a method on the arguments the proxy was given, a property
as it was last set. Where a request has an id without a `case`, the object is not touched.
-/

namespace Song.Compiler

open Cursor (Reads each)

/-! ## Values on the wire -/

/-- A value of the type, which the codecs take. -/
structure Fits (ns : Namespace) (depth : Nat) (t : Ty) (v : Val) : Prop where
  typed : HasType cppLimits ns t v
  depth : v.depth ≤ depth

def FitsAll (ns : Namespace) (depth : Nat) (ps : List Param) (vs : List Val) : Prop :=
  List.Forall₂ (fun p v => Fits ns depth p.type v) ps vs

/-- The members' types have codecs. -/
structure ClassDef.Supported (c : ClassDef) (ns : Namespace) : Prop where
  properties : ∀ p ∈ c.properties, Compilable ns p.type
  ctors : ∀ ctor ∈ c.constructors, ∀ p ∈ ctor.params, Compilable ns p.type
  params : ∀ m ∈ c.methods, ∀ p ∈ m.params, Compilable ns p.type
  results : ∀ m ∈ c.methods, ¬ m.isVoid → Compilable ns m.returnType

/-- A value is sent as `w`, and `w` is read as the value. -/
def Carries (ns : Namespace) (depth : Nat) (t : Ty) (v : Val) (w : Bytes) : Prop :=
  encodeAs ns t v = .ok w ∧
    ∀ pre, (decodeAs ns depth t).run (.cut pre w) = .ok v (.cut (pre ++ w) [])

section
variable {ns : Namespace} {depth : Nat} {t : Ty} {v : Val} {ps : List Param} {vs : List Val}
  {w : Bytes}

theorem toDec_run {α : Type} {d : GenDec α} {a : α} (h : Reads Buffer.cut d w a)
    (pre : Bytes) : (GenDec.toDec d).run (.cut pre w) = .ok a (.cut (pre ++ w) []) := by
  have hrun := h pre []
  rw [List.append_nil] at hrun
  simp only [EStateM.run] at hrun ⊢
  simp only [GenDec.toDec, EStateM.run, hrun]

theorem Fits.encodeVal_ok (h : Fits ns depth t v) (hc : Compilable ns t) :
    ∃ w, encodeVal ns (encodeCall t) v = .ok w :=
  (encodeVal_ok_iff (Nat.le_refl _) hc h.typed).mpr h.typed

theorem Fits.carries (h : Fits ns depth t v) (hc : Compilable ns t) :
    ∃ w, Carries ns depth t v w := by
  obtain ⟨w, hw⟩ := h.encodeVal_ok hc
  refine ⟨w, ?_, toDec_run (reads_decodeVal h.depth hc h.typed hw)⟩
  rw [encodeAs, hw]
  rfl

/-- What is sent of the arguments is read as the arguments, in order. -/
theorem FitsAll.args (h : FitsAll ns depth ps vs) (hc : ∀ p ∈ ps, Compilable ns p.type) :
    ∃ w, encodeArgs ns ps vs = .ok w ∧
      ∀ pre, (decodeArgs ns depth ps).run (.cut pre w) = .ok vs (.cut (pre ++ w) []) := by
  have hlen : (ps.map Param.field).length = vs.length := by
    rw [List.length_map]
    exact h.length_eq
  have hzip : ∀ q ∈ (ps.map Param.field).zip vs, Compilable ns q.1.type ∧
      Fits ns depth q.1.type q.2 := by
    intro q hq
    rw [List.zip_map_left] at hq
    obtain ⟨⟨p, v⟩, hpv, rfl⟩ := List.mem_map.mp hq
    exact ⟨hc p (List.of_mem_zip hpv).1, List.forall₂_zip h hpv⟩
  obtain ⟨w, hw⟩ : ∃ w, each (fun q => encodeVal ns (encodeCall q.1.type) q.2)
      ((ps.map Param.field).zip vs) = .ok w :=
    Cursor.each_ok_iff.mpr fun q hq => (hzip q hq).2.encodeVal_ok (hzip q hq).1
  refine ⟨w, by rw [encodeArgs, encodeFields_eq hlen, hw]; rfl, fun pre => toDec_run ?_ pre⟩
  refine reads_decodeFields hlen (fun q hq w hw => ?_) hw
  obtain ⟨hcq, hfit⟩ := hzip q hq
  exact reads_decodeVal hfit.depth hcq hfit.typed hw

end

/-! ## The cases and the functions they call -/

section
variable {σ ω : Type} {c : ClassDef} {ns : Namespace} {impl : Implementation σ ω} {pos : Nat}
  {id : UInt16}

theorem find?_zipIdx {α : Type} {xs : List α} {label : α → Option UInt16} {x : α}
    (hnd : (xs.map label).Nodup) (hx : xs[pos]? = some x) (hid : label x = some id) :
    xs.zipIdx.find? (fun y => label y.1 = some id) = some (x, pos) := by
  refine List.find?_eq_some_of_unique (List.mk_mem_zipIdx_iff_getElem?.mpr hx)
    (decide_eq_true hid) fun ⟨y, j⟩ hy hlabel => ?_
  have hj := List.mk_mem_zipIdx_iff_getElem?.mp hy
  cases List.index_unique hnd hx hj (hid.trans (of_decide_eq_true hlabel).symm)
  cases hx.symm.trans hj
  rfl

theorem ClassDef.propCase_set {p : Property}
    (hcase : c.propCase ns c.setCases id = some (p, pos)) :
    c.properties[pos]? = some p ∧ p.readonly = false ∧ c.propId ns p = some id := by
  have hmem := List.mem_filter.mp (List.mem_of_find?_eq_some hcase)
  unfold propCase at hcase
  have hlabel := List.find?_some hcase
  refine ⟨List.mk_mem_zipIdx_iff_getElem?.mp hmem.1, ?_, of_decide_eq_true hlabel⟩
  simpa using hmem.2

namespace ClassDef.IsProgram

variable (h : c.IsProgram ns)
include h

theorem getCase {p : Property} (hp : c.properties[pos]? = some p)
    (hid : c.propId ns p = some id) : c.propCase ns c.getCases id = some (p, pos) :=
  find?_zipIdx h.propLabels hp hid

theorem setCase {p : Property} (hp : c.properties[pos]? = some p) (hr : p.readonly = false)
    (hid : c.propId ns p = some id) : c.propCase ns c.setCases id = some (p, pos) := by
  refine List.find?_eq_some_of_unique ?_ (decide_eq_true hid) fun y hy hlabel => ?_
  · exact List.mem_filter.mpr ⟨List.mk_mem_zipIdx_iff_getElem?.mpr hp, by rw [hr]; rfl⟩
  · have hget := h.getCase hp hid
    have hj := List.mk_mem_zipIdx_iff_getElem?.mp (List.mem_filter.mp hy).1
    exact Option.some.inj ((h.getCase hj (of_decide_eq_true hlabel)).symm.trans hget)

theorem callCase {m : Method} (hm : c.methods[pos]? = some m) (hid : c.methodId ns m = some id) :
    c.methodCase ns id = some (m, pos) :=
  find?_zipIdx h.methodLabels hm hid

variable (hc : c ∈ ns.classes)

include hc in
/-- The counter of the constants' names is a `u16`: a class with more constructors defines the
first constant again. -/
theorem fewCtors : c.constructors.length ≤ 65536 := by
  by_contra hmany
  obtain ⟨v, hv⟩ := Option.isSome_iff_exists.mp (h.ctors 0 (by omega))
  have hone := (Table.single_eq_some_iff.mp hv).1
  have hsub : (c.constructors.zipIdx.map fun x => Cpp.kCtor c.name (x.2 % 65536)).Sublist
      ((Cpp.headerConstants .single ns).map Prod.fst) := by
    obtain ⟨k, hk⟩ := List.mem_iff_getElem?.mp hc
    have hclass : (Cpp.classConstants c (k + 1)).Sublist (Cpp.generateClassIds ns) :=
      List.sublist_flatten_of_mem (List.mem_map.mpr
        ⟨(c, k + 1), List.mem_zipIdx_one.mpr ⟨k, hk, rfl⟩, rfl⟩)
    have hctors : (c.constructors.zipIdx.map fun x =>
        (Cpp.kCtor c.name (x.2 % 65536), UInt16.ofNat x.2)).Sublist
          (Cpp.classConstants c (k + 1)) :=
      .cons _ (((List.sublist_append_right _ _).trans (List.sublist_append_left _ _)))
    have hall := ((hctors.trans hclass).trans
      (List.sublist_append_right (Cpp.generateServiceIds ns) _)).map Prod.fst
    rwa [List.map_map] at hall
  have hdup : (c.constructors.zipIdx.map fun x =>
      Cpp.kCtor c.name (x.2 % 65536)).Duplicate (Cpp.kCtor c.name 0) := by
    refine List.duplicate_iff_exists_distinct_get.mpr ⟨⟨0, ?_⟩, ⟨65536, ?_⟩, ?_, ?_, ?_⟩
    · rw [List.length_map, List.length_zipIdx]; omega
    · rw [List.length_map, List.length_zipIdx]; omega
    · exact Nat.zero_lt_succ _
    · simp
    · simp
  have htwo := ((List.duplicate_iff_sublist.mp hdup).trans hsub).count_le (Cpp.kCtor c.name 0)
  rw [hone, List.count_cons_self, List.count_singleton_self] at htwo
  exact absurd htwo (by decide)

include hc in
/-- A constructor's constant is its position, which the proxy sends. -/
theorem ctorId_eq {i : Nat} (hi : i < c.constructors.length) :
    c.ctorId ns i = some (.ofNat i) := by
  have hfew := h.fewCtors hc
  obtain ⟨v, hv⟩ := Option.isSome_iff_exists.mp (h.ctors i hi)
  have hmem : (Cpp.kCtor c.name i, UInt16.ofNat i) ∈ Cpp.headerConstants .single ns := by
    obtain ⟨k, hk⟩ := List.mem_iff_getElem?.mp hc
    refine List.mem_append_right _ (List.mem_flatMap.mpr
      ⟨(c, k + 1), List.mem_zipIdx_one.mpr ⟨k, hk, rfl⟩, ?_⟩)
    refine List.mem_cons_of_mem _ (List.mem_append_left _ (List.mem_append_right _ ?_))
    refine List.mem_map.mpr ⟨(c.constructors[i], i), ?_, by rw [Nat.mod_eq_of_lt (by omega)]⟩
    exact List.mk_mem_zipIdx_iff_getElem?.mpr (List.getElem?_eq_getElem hi)
  rw [hv, Table.single_unique hv hmem]

include hc in
theorem ctorCase {i : Nat} {ctor : Constructor} (hctor : c.constructors[i]? = some ctor) :
    c.ctorCase ns (.ofNat i) = some (ctor, i) := by
  have hi := (List.getElem?_eq_some_iff.mp hctor).1
  refine List.find?_eq_some_of_unique (List.mk_mem_zipIdx_iff_getElem?.mpr hctor)
    (decide_eq_true (h.ctorId_eq hc hi)) fun ⟨ctor', j⟩ hmem hlabel => ?_
  have hj := List.mk_mem_zipIdx_iff_getElem?.mp hmem
  have hjlt := (List.getElem?_eq_some_iff.mp hj).1
  have hij := List.index_unique h.ctorLabels (List.getElem?_range hi) (List.getElem?_range hjlt)
    ((h.ctorId_eq hc hi).trans (of_decide_eq_true hlabel).symm)
  subst hij
  cases hctor.symm.trans hj
  rfl

theorem handler_eq {f : VirtualFn} (hf : c.Calls f) :
    (virtualCall [c] c f).handler = f.handler := by
  refine virtualCall_handler List.mem_cons_self hf fun d hd g hg hsig => ?_
  cases List.mem_singleton.mp hd
  rw [h.functions f hf.1 g hg hsig]

theorem callFunction_method {m : Method} (hm : c.methods[pos]? = some m) (args : List Val)
    (s : Members ω × σ) :
    c.callFunction ns impl (c.methodFn m pos) args s = impl.method pos args s := by
  rw [ClassDef.callFunction, h.handler_eq (calls_method hm)]
  rfl

end ClassDef.IsProgram

end

/-! ## Requests -/

section
variable {σ Ω α : Type} (env : Env σ Ω)

/-- What is done with a request of a client. -/
def handled (tp : TransportPtr) (f : Frame) : Srv σ Ω Unit := handleMessage env f.hdr f.body tp

/-- Run `x` and answer with what it returns, or with what it throws. -/
def answered (seq : UInt32) (port : Port) (code : ErrorCode) (x : Srv σ Ω Bytes) : Srv σ Ω Unit :=
  catchStd (do
    let response ← x
    reply env port (createResultMessage seq response)) fun e => sendError env port seq code e.what

variable {env} {seq : UInt32} {port : Port} {code : ErrorCode} {rt rt' : Rt σ Ω}

theorem answered_congr {x y : Srv σ Ω Bytes} (h : x.run rt = y.run rt') :
    (answered env seq port code x).run rt = (answered env seq port code y).run rt' :=
  Eff.run_catchIf_congr (Eff.run_bind_congr h)

theorem answered_error {x : Srv σ Ω Bytes} {e : Exn} (h : x.run rt = .error e rt')
    (he : e.isStd = true) :
    (answered env seq port code x).run rt = (sendError env port seq code e.what).run rt' := by
  rw [answered, catchStd, Eff.run_catchIf_error (Eff.run_bind_error h), if_pos he]

theorem runVirtual_congr {objectId : Int32} {obj : Obj Ω}
    {f g : Ω × σ → Ran (Ω × σ) Note α} (h : f (obj.data, rt.user) = g (obj.data, rt.user)) :
    (runVirtual env objectId obj f).run rt = (runVirtual env objectId obj g).run rt := by
  unfold runVirtual
  simp only [EStateM.run, h]

variable {objectId : Int32} {obj : Obj Ω} (hobj : rt.registry.get objectId = some obj)
include hobj

theorem handleObject_run (f : Ω × σ → Ran (Ω × σ) Note Bytes) :
    (handleObject env seq port code objectId f).run rt =
      (answered env seq port code (runVirtual env objectId obj f)).run rt := by
  refine Eff.run_catchIf_congr ?_
  unfold objectBody
  simp only [EStateM.run, hobj]

variable (env seq) (tp : TransportPtr) (typeId : UInt32) (id : UInt16)

theorem handled_getProperty :
    (handled env tp ((Op.getProperty typeId objectId id).frame seq)).run rt =
      (answered env seq (.transport tp) .propertyError
        (runVirtual env objectId obj (env.propGet id))).run rt := by
  let f := (Op.getProperty typeId objectId id).frame seq
  obtain ⟨pre, hd⟩ := Op.decode_getProperty typeId objectId id seq
  have hm : handled env tp f = handlePropGet env f.hdr f.body (.transport tp) := rfl
  rw [hm, handlePropGet, decodeThen_ok hd]
  exact handleObject_run hobj (env.propGet id)

theorem handled_setProperty (value : Bytes) : ∃ pre,
    (handled env tp ((Op.setProperty typeId objectId id value).frame seq)).run rt =
      (answered env seq (.transport tp) .propertyError
        (runVirtual env objectId obj (env.propSet id (.cut pre value)))).run rt := by
  let f := (Op.setProperty typeId objectId id value).frame seq
  obtain ⟨pre, hd⟩ := Op.decode_setProperty typeId objectId id value seq
  have hm : handled env tp f = handlePropSet env f.hdr f.body (.transport tp) := rfl
  refine ⟨pre, ?_⟩
  rw [hm, handlePropSet, decodeThen_ok hd]
  exact handleObject_run hobj (env.propSet id (.cut pre value))

theorem handled_callObject (args : Bytes) : ∃ pre,
    (handled env tp ((Op.callObject typeId objectId id args).frame seq)).run rt =
      (answered env seq (.transport tp) .unknownMethod
        (runVirtual env objectId obj (env.dispatch id (.cut pre args)))).run rt := by
  let f := (Op.callObject typeId objectId id args).frame seq
  obtain ⟨pre, hd⟩ := decodeObjectMethodHeader_cut (encodeHeader f.hdr) typeId objectId id args
  have hm : handled env tp f = handleObjectCall env f.hdr (.cut (encodeHeader f.hdr)
      (encodeObjectMethod typeId objectId id args)) (.transport tp) := rfl
  refine ⟨pre, ?_⟩
  rw [hm, handleObjectCall, decodeThen_ok hd]
  exact handleObject_run hobj (env.dispatch id (.cut pre args))

end

theorem handled_createObject {σ Ω : Type} (env : Env σ Ω) (seq : UInt32) (tp : TransportPtr)
    (typeId : UInt32) (id : UInt16) (args : Bytes) : ∃ pre,
    handled env tp ((Op.createObject typeId id args).frame seq) =
      answered env seq (.transport tp) .objectCreationFailed (do
        let objectId ← createObject env typeId id (.cut pre args)
        modify fun s => { s with tracked := s.tracked.insert objectId }
        return encodeObjectRef ⟨typeId, objectId⟩) := by
  let f := (Op.createObject typeId id args).frame seq
  obtain ⟨pre, hd⟩ := decodeObjectCreateHeader_cut (encodeHeader f.hdr) typeId id args
  have hm : handled env tp f = handleCreate env f.hdr (.cut (encodeHeader f.hdr)
      (encodeObjectCreate typeId id args)) (.transport tp) := rfl
  refine ⟨pre, ?_⟩
  rw [hm, handleCreate, decodeThen_ok hd, answered]
  simp only [bind_assoc, pure_bind]
  rfl

/-! ## The server -/

section
variable {σ ω Ω α β τ ν : Type}

/-- A run on an object's members, as one on the runtime's object. -/
def liftRan (mk : Members ω → Ω) (r : Ran (Members ω × σ) ν α) : Ran (Ω × σ) ν α :=
  ⟨(mk r.state.1, r.state.2), r.pushed, r.out⟩

def mapRan (f : α → β) (r : Ran τ ν α) : Ran τ ν β := { r with out := r.out.map f }

variable (env : Env σ Ω) (c : ClassDef) (ns : Namespace) (depth : Nat) (impl : Implementation σ ω)
  (mk : Members ω → Ω) (type : UInt16)

/-- `register_<Name>` has been called for the implementation, and its objects, which `mk` makes,
have the generated functions of a class without a base. -/
structure Registered : Prop where
  root : c.base = none
  declared : c ∈ ns.classes
  program : c.IsProgram ns
  supported : c.Supported ns
  typeId : c.typeId ns = some type
  factory : env.factories.lookup type.toUInt32 = some fun id args user =>
    mapRan (fun d => some (mk d)) (c.factory ns depth impl id args user)
  propGet : ∀ id d user, env.propGet id (mk d, user) = liftRan mk (c.baseGet ns impl id (d, user))
  propSet : ∀ id req d user,
    env.propSet id req (mk d, user) = liftRan mk (c.baseSet ns depth impl id req (d, user))
  dispatch : ∀ id req d user,
    env.dispatch id req (mk d, user) = liftRan mk (c.baseDispatch ns depth impl id req (d, user))

/-- Constructor `i` on `args`; the object is registered, and tracked by the connection. -/
def constructing (i : Nat) (args : List Val) : Srv σ Ω Bytes := do
  let d ← runCallback env (impl.construct i args)
  let objectId ← registerObject type.toUInt32 (mk d)
  modify fun s => { s with tracked := s.tracked.insert objectId }
  return encodeObjectRef ⟨type.toUInt32, objectId⟩

/-- Method `pos` of an object with the members `d`, on `args`; its result is encoded. -/
def calling (m : Method) (pos : Nat) (args : List Val) (objectId : Int32) (obj : Obj Ω)
    (d : Members ω) : Srv σ Ω Bytes := do
  let v ← runVirtual env objectId obj fun s => liftRan mk (impl.method pos args (d, s.2))
  if m.isVoid then return [] else ofExcept (encodeResult ns m.returnType v)

/-! ## What the proxy's requests are to do -/

/-- `create_<Name>`, overload `i`, has constructor `i` run on its arguments. -/
def Creates : Prop :=
  ∀ i ctor args, c.constructors[i]? = some ctor → FitsAll ns depth ctor.params args →
    ∃ op, c.createOp ns i ctor args = .ok op ∧ ∀ seq tp,
      handled env tp (op.frame seq) = answered env seq (.transport tp) .objectCreationFailed
        (constructing env impl mk type i args)

/-- A method of a proxy has that method of the object run on its arguments, and the proxy reads
what it returned. -/
def Calls : Prop :=
  ∀ (x : ClassProxy) (rt : Rt σ Ω) obj d pos m args, rt.registry.get x.objectId = some obj →
    obj.data = mk d → c.methods[pos]? = some m → FitsAll ns depth m.params args →
      (∃ op, x.callOp c ns m args = .ok op ∧ ∀ seq tp,
        (handled env tp (op.frame seq)).run rt = (answered env seq (.transport tp) .unknownMethod
          (calling env ns impl mk m pos args x.objectId obj d)).run rt) ∧
      ∀ v, ¬ m.isVoid → Fits ns depth m.returnType v →
        ∃ w, Carries ns depth m.returnType v w ∧ encodeResult ns m.returnType (some v) = .ok w

/-- The runtime with the object stored back as it was. -/
def putBack (rt : Rt σ Ω) (objectId : Int32) (obj : Obj Ω) : Rt σ Ω :=
  { rt with registry := rt.registry.put objectId obj }

/-- A request of an object with an id that no `case` has is answered with an error, and no function
of the object runs. For a set, the ids of readonly properties are such ids too. -/
def Refuses : Prop :=
  ∀ (rt : Rt σ Ω) objectId obj d, rt.registry.get objectId = some obj → obj.data = mk d →
    ∀ typeId id (arg : Bytes) seq tp,
      ((∀ p ∈ c.properties, c.propId ns p = some id → p.readonly = true) →
        (handled env tp ((Op.setProperty typeId objectId id arg).frame seq)).run rt =
          (sendError env (.transport tp) seq .propertyError
            (unknownOrReadonly ++ toStr id.toNat)).run (putBack rt objectId obj)) ∧
      ((∀ p ∈ c.properties, c.propId ns p ≠ some id) →
        (handled env tp ((Op.getProperty typeId objectId id).frame seq)).run rt =
          (sendError env (.transport tp) seq .propertyError
            (unknownProperty ++ toStr id.toNat)).run (putBack rt objectId obj)) ∧
      ((∀ m ∈ c.methods, c.methodId ns m ≠ some id) →
        (handled env tp ((Op.callObject typeId objectId id arg).frame seq)).run rt =
          (sendError env (.transport tp) seq .unknownMethod
            (unknownMethod ++ toStr id.toNat)).run (putBack rt objectId obj))

/-- So is a create with the id of no constructor. -/
def RefusesCreate : Prop :=
  ∀ (rt : Rt σ Ω) id (args : Bytes) seq tp, (c.constructors = [] → id ≠ 0) →
    (∀ i < c.constructors.length, c.ctorId ns i ≠ some id) →
      (handled env tp ((Op.createObject type.toUInt32 id args).frame seq)).run rt =
        (sendError env (.transport tp) seq .objectCreationFailed
          (c.unknownConstructor id).what).run rt

/-! ## They do it -/

variable {env c ns depth impl mk type}

theorem runCallback_mapRan (f : σ → Ran σ Push α) (g : α → β) :
    runCallback env (fun user => mapRan g (f user)) = (do
      let a ← runCallback env f
      return g a) := by
  funext s
  obtain ⟨s', h⟩ := notifyAll_run env (f s.user).pushed { s with user := (f s.user).state }
  have hleft : (runCallback env fun user => mapRan g (f user)).run s =
      (ofExcept (mapRan g (f s.user)).out).run s' := Eff.run_bind_ok h
  have hright : (runCallback env f).run s = (ofExcept (f s.user).out).run s' := Eff.run_bind_ok h
  refine hleft.trans (Eq.trans ?_ (EStateM.run_bind ..).symm)
  rw [hright, mapRan]
  cases (f s.user).out with
  | ok a => rfl
  | error e => rfl

theorem runVirtual_next (objectId : Int32) (obj : Obj Ω)
    (f : Ω × σ → Ran (Members ω × σ) Note α) (g : α → Except Exn β) :
    runVirtual env objectId obj (fun s => liftRan mk ((f s).next fun a s' => ⟨s', [], g a⟩)) = (do
      let a ← runVirtual env objectId obj fun s => liftRan mk (f s)
      ofExcept (g a)) := by
  funext s
  refine (runVirtual_run objectId obj _ s).trans (Eq.trans ?_ (EStateM.run_bind ..).symm)
  rw [runVirtual_run, Ran.next]
  cases hout : (f (obj.data, s.user)).out with
  | ok a => simp only [liftRan, hout, List.append_nil, ofExcept, EStateM.run]
  | error e => simp only [liftRan, hout, ofExcept, EStateM.run]

theorem Registered.creates (h : Registered env c ns depth impl mk type) :
    Creates env c ns depth impl mk type := by
  intro i ctor args hctor hfit
  obtain ⟨w, hw, hread⟩ := hfit.args (h.supported.ctors ctor (List.mem_of_getElem? hctor))
  refine ⟨.createObject type.toUInt32 (.ofNat i) w, ?_, fun seq tp => ?_⟩
  · rw [ClassDef.createOp, hw, h.typeId]
    rfl
  · obtain ⟨pre, hm⟩ := handled_createObject env seq tp type.toUInt32 (.ofNat i) w
    have hne : c.constructors ≠ [] := by
      intro hnil
      rw [hnil] at hctor
      cases hctor
    have hfactory : c.factory ns depth impl (.ofNat i) (.cut pre w) = impl.construct i args := by
      funext user
      rw [ClassDef.factory, if_neg hne, h.program.ctorCase h.declared hctor]
      dsimp only
      rw [hread]
    have hcreate : createObject env type.toUInt32 (.ofNat i) (.cut pre w) = (do
        let d ← runCallback env (impl.construct i args)
        registerObject type.toUInt32 (mk d)) := by
      unfold createObject
      rw [h.factory]
      dsimp only
      rw [runCallback_mapRan, hfactory, bind_assoc]
      simp only [pure_bind]
    rw [hm, hcreate, constructing]
    simp only [bind_assoc]

theorem Registered.calls (h : Registered env c ns depth impl mk type) :
    Calls env c ns depth impl mk := by
  intro x rt obj d pos m args hobj hdata hm hfit
  have hmem := List.mem_of_getElem? hm
  obtain ⟨w, hw, hread⟩ := hfit.args (h.supported.params m hmem)
  obtain ⟨id, hid⟩ := Option.isSome_iff_exists.mp (h.program.methods m hmem)
  refine ⟨⟨.callObject x.typeId x.objectId id w, ?_, fun seq tp => ?_⟩, fun v hv hfitv => ?_⟩
  · rw [ClassProxy.callOp, hw, hid]
    rfl
  · obtain ⟨pre, hrun⟩ := handled_callObject env seq hobj tp x.typeId id w
    refine hrun.trans (answered_congr ?_)
    have hdispatch : env.dispatch id (.cut pre w) (obj.data, rt.user) =
        liftRan mk ((impl.method pos args (d, rt.user)).next fun v s' =>
          ⟨s', [], if m.isVoid then .ok [] else encodeResult ns m.returnType v⟩) := by
      rw [hdata, h.dispatch, ClassDef.baseDispatch, h.program.callCase hm hid]
      dsimp only
      rw [hread]
      dsimp only
      rw [h.program.callFunction_method hm]
    refine (@runVirtual_congr _ _ _ _ _ x.objectId obj _ (fun s => liftRan mk
      ((impl.method pos args (d, s.2)).next fun v s' =>
        ⟨s', [], if m.isVoid then .ok [] else encodeResult ns m.returnType v⟩)) hdispatch).trans ?_
    rw [runVirtual_next x.objectId obj (fun s => impl.method pos args (d, s.2)), calling]
    cases m.isVoid with
    | true => rfl
    | false => rfl
  · obtain ⟨w, hw⟩ := hfitv.carries (h.supported.results m hmem hv)
    exact ⟨w, hw, hw.1⟩

/-- A function of the object that throws at once. -/
theorem answered_throw {rt : Rt σ Ω} {objectId : Int32} {obj : Obj Ω} {seq : UInt32} {port : Port}
    {code : ErrorCode} {f : Ω × σ → Ran (Ω × σ) Note Bytes} {text : Str}
    (hf : f (obj.data, rt.user) = .throw (obj.data, rt.user) (.runtimeError text)) :
    (answered env seq port code (runVirtual env objectId obj f)).run rt =
      (sendError env port seq code text).run (putBack rt objectId obj) := by
  have hrun := @runVirtual_run _ _ env _ objectId obj f rt
  rw [hf] at hrun
  exact answered_error hrun rfl

theorem Registered.refuses (h : Registered env c ns depth impl mk type) :
    Refuses env c ns mk := by
  intro rt objectId obj d hobj hdata typeId id arg seq tp
  refine ⟨fun hnone => ?_, fun hnone => ?_, fun hnone => ?_⟩
  · obtain ⟨pre, hrun⟩ := handled_setProperty env seq hobj tp typeId id arg
    refine hrun.trans (answered_throw ?_)
    have hcase : c.propCase ns c.setCases id = none := by
      refine List.find?_eq_none.mpr fun y hy hlabel => ?_
      obtain ⟨hy, hset⟩ := List.mem_filter.mp hy
      have hr := hnone y.1 (List.mem_of_getElem? (List.mk_mem_zipIdx_iff_getElem?.mp hy))
        (of_decide_eq_true hlabel)
      rw [hr] at hset
      cases hset
    rw [hdata, h.propSet, ClassDef.baseSet, hcase]
    rfl
  · refine (handled_getProperty env seq hobj tp typeId id).trans (answered_throw ?_)
    have hcase : c.propCase ns c.getCases id = none :=
      List.find?_eq_none.mpr fun y hy hlabel =>
        hnone y.1 (List.mem_of_getElem? (List.mk_mem_zipIdx_iff_getElem?.mp hy))
          (of_decide_eq_true hlabel)
    rw [hdata, h.propGet, ClassDef.baseGet, hcase]
    rfl
  · obtain ⟨pre, hrun⟩ := handled_callObject env seq hobj tp typeId id arg
    refine hrun.trans (answered_throw ?_)
    have hcase : c.methodCase ns id = none :=
      List.find?_eq_none.mpr fun y hy hlabel =>
        hnone y.1 (List.mem_of_getElem? (List.mk_mem_zipIdx_iff_getElem?.mp hy))
          (of_decide_eq_true hlabel)
    rw [hdata, h.dispatch, ClassDef.baseDispatch, hcase]
    rfl

theorem Registered.refusesCreate (h : Registered env c ns depth impl mk type) :
    RefusesCreate env c ns type := by
  intro rt id args seq tp hdefault hnone
  obtain ⟨pre, hm⟩ := handled_createObject env seq tp type.toUInt32 id args
  have hfactory : c.factory ns depth impl id (.cut pre args) =
      fun user => .throw user (c.unknownConstructor id) := by
    funext user
    unfold ClassDef.factory
    split
    · next hnil => rw [if_neg (hdefault hnil)]
    · have hcase : c.ctorCase ns id = none := by
        refine List.find?_eq_none.mpr fun y hy hlabel => ?_
        have hlt := (List.getElem?_eq_some_iff.mp (List.mk_mem_zipIdx_iff_getElem?.mp hy)).1
        exact hnone y.2 hlt (of_decide_eq_true hlabel)
      rw [hcase]
  have hcreate : (createObject env type.toUInt32 id (.cut pre args)).run rt =
      .error (c.unknownConstructor id) rt := by
    unfold createObject
    rw [h.factory]
    dsimp only
    rw [runCallback_mapRan, hfactory, bind_assoc]
    rfl
  rw [hm]
  exact answered_error (Eff.run_bind_error hcreate) rfl

end

end Song.Compiler
