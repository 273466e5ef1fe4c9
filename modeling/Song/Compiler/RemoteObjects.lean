import Song.Compiler.ClassProperties
import Song.Session.Facade

/-!
# The objects of a class behind their proxies

A client creates objects of a class, uses them through its proxies and releases them, while other
clients do the same. For it there is one store of objects: a constructor runs once and its object
gets the next id, a property or a method runs once on the members of its object, and an object is
gone with its last reference (`Store`). That is so in every run, whatever happens in between.
-/

namespace Song.Compiler

/-! ## The store -/

/-- The objects of a class, and what the implementation keeps beside them. -/
structure Store (σ ω : Type) where
  user : σ
  /-- Members and reference counts. -/
  objects : Int32 → Option (Members ω × Int32)
  nextId : Int32

/-- What a proxy does with its object. -/
inductive Use where
  | get (p : Property) (pos : Nat)
  | set (p : Property) (pos : Nat) (v : Val)
  | call (m : Method) (pos : Nat) (args : List Val)

inductive ObjectCall where
  | create (i : Nat) (ctor : Constructor) (args : List Val)
  | on (x : ClassProxy) (use : Use)

inductive Got where
  | proxy (ref : ObjectRef)
  | value (v : Option Val)

def createFailed (text : Str) : Exn :=
  Op.failed (.createObject 0 0 []) .objectCreationFailed text

namespace Use

variable {σ ω : Type} (c : ClassDef) (ns : Namespace) (depth : Nat) (impl : Implementation σ ω)

/-- The functions of the object that run; a set is read back. -/
def function (s : Members ω × σ) : Use → Ran (Members ω × σ) Note (Option Val)
  | .get p pos => c.callFunction ns impl (c.getterFn p pos) [] s
  | .set p pos v => (c.callFunction ns impl (c.setterFn p pos) [v] s).next fun _ s' =>
      c.callFunction ns impl (c.getterFn p pos) [] s'
  | .call _ pos args => impl.method pos args s

/-- The type of the value in the reply. -/
def sentType : Use → Option Ty
  | .get p _ => some p.type
  | .set p _ _ => some p.type
  | .call m _ _ => if m.isVoid then none else some m.returnType

/-- The type of the value that the proxy reads of it. -/
def readType : Use → Option Ty
  | .set _ _ _ => none
  | use => use.sentType

def op (x : ClassProxy) : Use → Except Exn Op
  | .get p _ => x.getOp c ns p
  | .set p _ v => x.setOp c ns p v
  | .call m _ args => x.callOp c ns m args

def errorCode : Use → ErrorCode
  | .call _ _ _ => .unknownMethod
  | _ => .propertyError

/-- What a proxy throws for an error reply. -/
def failed (code : ErrorCode) (text : Str) : Use → Exn
  | .get _ _ => Op.failed (.getProperty 0 0 0) code text
  | .set _ _ _ => Op.failed (.setProperty 0 0 0 []) code text
  | .call _ _ _ => Op.failed (.callObject 0 0 0 []) code text

/-- It is one that a program with the proxy can make. -/
def Of : Use → Prop
  | .get p pos => c.properties[pos]? = some p
  | .set p pos v => c.properties[pos]? = some p ∧ p.readonly = false ∧ Fits ns depth p.type v
  | .call m pos args => c.methods[pos]? = some m ∧ FitsAll ns depth m.params args

/-- What the proxy returns of a result. -/
def returned (use : Use) (v : Option Val) : Option Val := if use.readType = none then none else v

/-- What is sent of a result. -/
def encode (use : Use) (v : Option Val) : Except Exn Bytes :=
  match use.sentType with
  | none => .ok []
  | some t => encodeResult ns t v

def reads (use : Use) (response : Bytes) : Except Exn (Option Val) :=
  match use.readType with
  | none => .ok none
  | some t =>
    match (decodeAs ns depth t).run (.ofBytes response) with
    | .ok v _ => .ok (some v)
    | .error e _ => .error e

/-- The functions push, return and throw what can be sent. -/
structure Behaves (use : Use) (ran : Ran (Members ω × σ) Note (Option Val)) : Prop where
  pushed : ∀ note ∈ ran.pushed, 12 + note.value.length ≤ kMaxPayloadSize
  returned : ∀ v t, ran.out = .ok v → use.sentType = some t → ∃ x w, v = some x ∧
    Fits ns depth t x ∧ encodeAs ns t x = .ok w ∧ w.length ≤ kMaxPayloadSize
  thrown : ∀ e, ran.out = .error e → e.Reported

end Use

section
variable {σ ω : Type} (c : ClassDef) (ns : Namespace) (depth : Nat) (impl : Implementation σ ω)
  (type : UInt16)

/-- Use an object of the store. -/
def Store.use (objectId : Int32) (use : Use) (st : Store σ ω) : Store σ ω × Except Exn Got :=
  match st.objects objectId with
  | none => (st, .error (use.failed .objectNotFound (lit "Object not found")))
  | some (d, refs) =>
    let ran := use.function c ns impl (d, st.user)
    ({ st with
        user := ran.state.2
        objects := Function.update st.objects objectId (some (ran.state.1, refs)) },
      match ran.out with
      | .ok v => .ok (.value (use.returned v))
      | .error e => .error (use.failed use.errorCode e.what))

/-- Add an object to the store. -/
def Store.create (i : Nat) (args : List Val) (st : Store σ ω) : Store σ ω × Except Exn Got :=
  let ran := impl.construct i args st.user
  match ran.out with
  | .ok d => (⟨ran.state, Function.update st.objects st.nextId (some (d, 1)), st.nextId - 1⟩,
      .ok (.proxy ⟨type.toUInt32, st.nextId⟩))
  | .error e => ({ st with user := ran.state }, .error (createFailed e.what))

/-- Drop a reference. -/
def Store.release (objectId : Int32) (st : Store σ ω) : Store σ ω :=
  match st.objects objectId with
  | none => st
  | some (d, refs) =>
    { st with
      objects := Function.update st.objects objectId
        (if refs = 1 then none else some (d, refs - 1)) }

def Store.call : ObjectCall → Store σ ω → Store σ ω × Except Exn Got
  | .create i _ args => Store.create impl type i args
  | .on x use => Store.use c ns impl x.objectId use

/-- What the proxies make of what the connection returned. -/
def ObjectCall.reads : ObjectCall → Except Exn Value → Except Exn Got
  | .create _ _ _, .ok (.ref ref) => .ok (.proxy ref)
  | .on _ use, .ok (.bytes b) => (use.reads ns depth b).map .value
  | _, .ok _ => .error Fault.illFormed.exn
  | _, .error e => .error e

/-- A call that a program with the proxies can make, and the operation that makes it. -/
def ObjectCall.Asks (op : Op) : ObjectCall → Prop
  | .create i ctor args => c.constructors[i]? = some ctor ∧ FitsAll ns depth ctor.params args ∧
      c.createOp ns i ctor args = .ok op
  | .on x use => use.Of c ns depth ∧ use.op c ns x = .ok op

variable {Ω : Type} (mk : Members ω → Ω)

/-- What the call runs can be answered, and an object that it uses is one of the class. -/
def ObjectCall.Behaves (rt : Rt σ Ω) : ObjectCall → Prop
  | .create i _ args =>
    (∀ p ∈ (impl.construct i args rt.user).pushed, 12 + p.value.length ≤ kMaxPayloadSize) ∧
      ∀ e, (impl.construct i args rt.user).out = .error e → e.Reported
  | .on x use => ∀ obj, rt.registry.get x.objectId = some obj → ∃ d, obj.data = mk d ∧
      use.Behaves ns depth (use.function c ns impl (d, rt.user))

/-- The part of the runtime with the objects of the class. -/
def storeOf (unmk : Ω → Option (Members ω)) (rt : Rt σ Ω) : Store σ ω where
  user := rt.user
  objects id := (rt.registry.get id).bind fun obj => (unmk obj.data).map (·, obj.refCount)
  nextId := rt.registry.nextId

/-- A class, as the users of its proxies see it. -/
def ClassDef.facade (unmk : Ω → Option (Members ω)) :
    Facade σ Ω (Store σ ω) ObjectCall (Except Exn Got) where
  view := storeOf unmk
  asks i op := i.Asks c ns depth op
  reads i := i.reads ns depth
  behaves i rt := i.Behaves c ns depth impl mk rt
  call := Store.call c ns impl type
  releases _ _ := True
  release := Store.release

end

/-! ## What the runtime does -/

section
variable {σ ω Ω τ ν α β γ : Type} {c : ClassDef} {ns : Namespace} {depth : Nat}
  {impl : Implementation σ ω} {env : Env σ Ω} {mk : Members ω → Ω} {type : UInt16}
  {tp : TransportPtr} {seq : UInt32} {rt : Rt σ Ω}

theorem Ran.next_next (r : Ran τ ν α) (f : α → τ → Ran τ ν β) (g : β → τ → Ran τ ν γ) :
    (r.next f).next g = r.next fun a s => (f a s).next g := by
  unfold Ran.next
  cases r.out with
  | error e => rfl
  | ok a =>
    dsimp only
    cases (f a r.state).out with
    | error e => rfl
    | ok b => simp only [List.append_assoc]

theorem Use.encode_call (m : Method) (pos : Nat) (args : List Val) (v : Option Val) :
    (Use.call m pos args).encode ns v =
      if m.isVoid then .ok [] else encodeResult ns m.returnType v := by
  have htype : (Use.call m pos args).sentType = if m.isVoid then none else some m.returnType := rfl
  rw [Use.encode, htype]
  by_cases hvoid : m.isVoid
  · rw [if_pos hvoid, if_pos hvoid]
  · rw [if_neg hvoid, if_neg hvoid]

theorem handleObject_none {objectId : Int32} (h : rt.registry.get objectId = none)
    (hok : SendsOk env (.transport tp)) (seq : UInt32) (code : ErrorCode)
    (f : Ω × σ → Ran (Ω × σ) Note Bytes) :
    ∃ m, (handleObject env seq (.transport tp) code objectId f).run rt =
        .ok () (rt.put (.transport tp) m) ∧ IsReplyFrame seq m ∧
      ∀ op : Op, op.finish (.ofBytes m) =
        .error (op.failed .objectNotFound (lit "Object not found")) := by
  obtain ⟨m, hrun, hreply, hfinish⟩ := sendError_run hok seq .objectNotFound
    (show (lit "Object not found").length ≤ kMaxStringSize by decide) rt
  refine ⟨m, Eff.run_catchIf_ok ?_, hreply, hfinish⟩
  unfold objectBody
  simp only [EStateM.run, h]
  exact hrun

/-- What is sent of what the functions returned, and read of it again. -/
theorem Use.Behaves.encoded {use : Use} {ran : Ran (Members ω × σ) Note (Option Val)}
    (hb : use.Behaves ns depth ran) (hc : ∀ t, use.sentType = some t → Compilable ns t) :
    ∃ out, ran.next (fun v s' => ⟨s', [], use.encode ns v⟩) = ⟨ran.state, ran.pushed, out⟩ ∧
      (∀ w, out = .ok w → w.length ≤ kMaxPayloadSize) ∧ (∀ e, out = .error e → e.Reported) ∧
      ((∃ v w, ran.out = .ok v ∧ out = .ok w ∧ use.reads ns depth w = .ok (use.returned v)) ∨
        ∃ e, ran.out = .error e ∧ out = .error e) := by
  cases hout : ran.out with
  | error e =>
    refine ⟨.error e, ?_, fun _ hw => (by cases hw), fun _ he => ?_, .inr ⟨e, rfl, rfl⟩⟩
    · unfold Ran.next
      rw [hout]
    · cases he
      exact hb.thrown e hout
  | ok v =>
    have hnext : ran.next (fun v s' => (⟨s', [], use.encode ns v⟩ : Ran _ Note Bytes)) =
        ⟨ran.state, ran.pushed, use.encode ns v⟩ := by
      unfold Ran.next
      rw [hout]
      dsimp only
      rw [List.append_nil]
    have hread : ∀ t, use.readType = some t → use.sentType = some t := by
      intro t ht
      cases use with
      | get p pos => exact ht
      | set p pos v => cases ht
      | call m pos args => exact ht
    cases ht : use.sentType with
    | none =>
      have hencode : use.encode ns v = .ok [] := by rw [Use.encode, ht]
      have hnone : use.readType = none := by
        by_contra hsome
        obtain ⟨t, hsome⟩ := Option.ne_none_iff_exists'.mp hsome
        cases ht.symm.trans (hread t hsome)
      rw [hencode] at hnext
      refine ⟨.ok [], hnext, fun _ hw => ?_, fun _ he => (by cases he),
        .inl ⟨v, [], rfl, rfl, ?_⟩⟩
      · cases hw
        exact Nat.zero_le _
      · rw [Use.reads, Use.returned, hnone, if_pos rfl]
    | some t =>
      obtain ⟨x, w, rfl, hfit, hw, hlen⟩ := hb.returned v t hout ht
      have hencode : use.encode ns (some x) = .ok w := by
        rw [Use.encode, ht]
        exact hw
      obtain ⟨w', hcarry⟩ := hfit.carries (hc t ht)
      cases hw.symm.trans hcarry.1
      rw [hencode] at hnext
      refine ⟨.ok w, hnext, fun _ hw => (by cases hw; exact hlen), fun _ he => (by cases he),
        .inl ⟨some x, w, rfl, rfl, ?_⟩⟩
      unfold Use.reads Use.returned
      cases hr : use.readType with
      | none => rw [if_pos rfl]
      | some t' =>
        cases ht.symm.trans (hread t' hr)
        have hdecode := hcarry.2 []
        rw [← Buffer.ofBytes_eq_cut] at hdecode
        dsimp only
        rw [hdecode, if_neg (by simp)]

/-- Where a registry has changed at one id, the store has. -/
theorem storeOf_change (unmk : Ω → Option (Members ω)) {rt' : Rt σ Ω} {objectId : Int32}
    (hother : ∀ id, id ≠ objectId → rt'.registry.get id = rt.registry.get id) :
    storeOf unmk rt' = ⟨rt'.user, Function.update (storeOf unmk rt).objects objectId
      ((storeOf unmk rt').objects objectId), rt'.registry.nextId⟩ := by
  have hobjects : (storeOf unmk rt').objects = Function.update (storeOf unmk rt).objects objectId
      ((storeOf unmk rt').objects objectId) := by
    funext id
    by_cases hid : id = objectId
    · subst hid
      rw [Function.update_self]
    · rw [Function.update_of_ne hid]
      exact congrArg (fun found => found.bind fun obj => (unmk obj.data).map (·, obj.refCount))
        (hother id hid)
  exact congrArg (fun objects => (⟨rt'.user, objects, rt'.registry.nextId⟩ : Store σ ω)) hobjects

theorem storeOf_objects {unmk : Ω → Option (Members ω)} {objectId : Int32} {obj : Obj Ω}
    (hobj : rt.registry.get objectId = some obj) :
    (storeOf unmk rt).objects objectId = (unmk obj.data).map (·, obj.refCount) :=
  (congrArg (Option.bind · _) hobj).trans (Option.bind_some ..)

theorem storeOf_none {unmk : Ω → Option (Members ω)} {objectId : Int32}
    (hobj : rt.registry.get objectId = none) : (storeOf unmk rt).objects objectId = none :=
  congrArg (Option.bind · _) hobj

theorem storeOf_put {unmk : Ω → Option (Members ω)} (hunmk : ∀ d, unmk (mk d) = some d)
    {rt' : Rt σ Ω} {objectId : Int32} {obj : Obj Ω} {d : Members ω}
    (hr : rt'.registry = rt.registry.put objectId { obj with data := mk d }) :
    storeOf unmk rt' = ⟨rt'.user, Function.update (storeOf unmk rt).objects objectId
      (some (d, obj.refCount)), rt.registry.nextId⟩ := by
  have hobj : rt'.registry.get objectId = some { obj with data := mk d } := by
    rw [hr, ObjectRegistry.get, ObjectRegistry.put, AList.lookup_insert]
  rw [storeOf_change unmk fun id hid => ?_, storeOf_objects hobj, hunmk, hr]
  · rfl
  · rw [hr]
    exact AList.lookup_insert_ne hid

theorem storeOf_user (unmk : Ω → Option (Members ω)) {rt' : Rt σ Ω}
    (hr : rt'.registry = rt.registry) :
    storeOf unmk rt' = { storeOf unmk rt with user := rt'.user } := by
  unfold storeOf
  rw [hr]

theorem storeOf_add {unmk : Ω → Option (Members ω)} (hunmk : ∀ d, unmk (mk d) = some d)
    {rt' : Rt σ Ω} {typeId : UInt32} {d : Members ω}
    (hr : rt'.registry = (rt.registry.add typeId (mk d)).2) :
    storeOf unmk rt' = ⟨rt'.user, Function.update (storeOf unmk rt).objects rt.registry.nextId
      (some (d, 1)), rt.registry.nextId - 1⟩ := by
  have hobj : rt'.registry.get rt.registry.nextId =
      some ⟨rt.registry.nextId, typeId, 1, false, mk d⟩ := by
    rw [hr]
    exact AList.lookup_insert _
  rw [storeOf_change unmk fun id hid => ?_, storeOf_objects hobj, hunmk, hr]
  · rfl
  · rw [hr]
    exact AList.lookup_insert_ne hid

theorem storeOf_release (unmk : Ω → Option (Members ω)) {rt' : Rt σ Ω} {objectId : Int32}
    (huser : rt'.user = rt.user) (hr : rt'.registry = rt.registry.release objectId) :
    storeOf unmk rt' = Store.release objectId (storeOf unmk rt) := by
  unfold ObjectRegistry.release at hr
  cases hobj : rt.registry.get objectId with
  | none =>
    rw [hobj] at hr
    rw [storeOf_user unmk hr, huser, Store.release, storeOf_none hobj]
    rfl
  | some obj =>
    rw [hobj] at hr
    dsimp only at hr
    have hself : (storeOf unmk rt).objects objectId = _ := storeOf_objects hobj
    have hchange : ∀ found, rt'.registry.nextId = rt.registry.nextId →
        (∀ id, id ≠ objectId → rt'.registry.get id = rt.registry.get id) →
        (storeOf unmk rt').objects objectId = found →
        storeOf unmk rt' = { storeOf unmk rt with
          objects := Function.update (storeOf unmk rt).objects objectId found } := by
      intro found hnext hother hfound
      rw [storeOf_change unmk hother, hfound, hnext, huser]
      rfl
    have hstored : storeOf unmk rt' = { storeOf unmk rt with
        objects := Function.update (storeOf unmk rt).objects objectId
          (if obj.refCount = 1 then none
            else (unmk obj.data).map (·, obj.refCount - 1)) } := by
      split at hr
      · next hone =>
        rw [if_pos hone]
        refine hchange none (by rw [hr]) (fun id hid => ?_) ?_
        · rw [hr]
          exact AList.lookup_erase_ne hid
        · have hgone : rt'.registry.get objectId = none := by
            rw [hr]
            exact AList.lookup_erase ..
          exact storeOf_none hgone
      · next hmany =>
        rw [if_neg hmany]
        have hleft : rt'.registry.get objectId =
            some { obj with refCount := obj.refCount - 1 } := by
          rw [hr]
          exact AList.lookup_insert _
        refine hchange _ (by rw [hr]; rfl) (fun id hid => ?_) (storeOf_objects hleft)
        rw [hr]
        exact AList.lookup_insert_ne hid
    rw [hstored, Store.release, hself]
    cases hdata : unmk obj.data with
    | none =>
      rw [hdata] at hself
      have hsame : Function.update (storeOf unmk rt).objects objectId none =
          (storeOf unmk rt).objects := Function.update_eq_self_iff.mpr hself.symm
      dsimp only [Option.map_none]
      rw [ite_self, hsame]
    | some d => rfl

namespace Registered

variable (h : Registered env c ns depth impl mk type)
include h

/-- A request of a proxy has the functions of its use run on the object, and their result
encoded. -/
theorem handled_use {x : ClassProxy} {use : Use} (hof : use.Of c ns depth) {op : Op}
    (hop : use.op c ns x = .ok op) (seq : UInt32) (tp : TransportPtr) :
    ∃ f, handled env tp (op.frame seq) =
        handleObject env seq (.transport tp) use.errorCode x.objectId f ∧
      (∀ code text, op.failed code text = use.failed code text) ∧ (∀ b, op.Reads b (.bytes b)) ∧
      ∀ d user, f (mk d, user) = liftRan mk ((use.function c ns impl (d, user)).next
        fun v s' => ⟨s', [], use.encode ns v⟩) := by
  cases use with
  | get p pos =>
    obtain ⟨id, hid⟩ := Option.isSome_iff_exists.mp
      (h.program.props p (List.mem_of_getElem? hof))
    have hop' : x.getOp c ns p = .ok op := hop
    rw [ClassProxy.getOp, hid] at hop'
    cases hop'
    let f := (Op.getProperty x.typeId x.objectId id).frame seq
    obtain ⟨pre, hd⟩ := Op.decode_getProperty x.typeId x.objectId id seq
    have hm : handled env tp f = handlePropGet env f.hdr f.body (.transport tp) := rfl
    refine ⟨env.propGet id, ?_, fun _ _ => rfl, fun _ => rfl, fun d user => ?_⟩
    · show handled env tp f = _
      rw [hm, handlePropGet, decodeThen_ok hd]
      rfl
    · rw [h.propGet, ClassDef.baseGet, h.program.getCase hof hid]
      rfl
  | set p pos v =>
    obtain ⟨hp, hr, hfit⟩ := hof
    have hmem := List.mem_of_getElem? hp
    obtain ⟨id, hid⟩ := Option.isSome_iff_exists.mp (h.program.props p hmem)
    obtain ⟨w, hw, hread⟩ := hfit.carries (h.supported.properties p hmem)
    have hop' : x.setOp c ns p v = .ok op := hop
    rw [ClassProxy.setOp, hw, hid] at hop'
    cases hop'
    let f := (Op.setProperty x.typeId x.objectId id w).frame seq
    obtain ⟨pre, hd⟩ := Op.decode_setProperty x.typeId x.objectId id w seq
    have hm : handled env tp f = handlePropSet env f.hdr f.body (.transport tp) := rfl
    refine ⟨env.propSet id (.cut pre w), ?_, fun _ _ => rfl, fun _ => rfl, fun d user => ?_⟩
    · show handled env tp f = _
      rw [hm, handlePropSet, decodeThen_ok hd]
      rfl
    · rw [h.propSet, ClassDef.baseSet, h.program.setCase hp hr hid]
      dsimp only
      rw [hread]
      dsimp only [Use.function]
      rw [Ran.next_next]
      rfl
  | call m pos args =>
    obtain ⟨hm, hfit⟩ := hof
    have hmem := List.mem_of_getElem? hm
    obtain ⟨w, hw, hread⟩ := hfit.args (h.supported.params m hmem)
    obtain ⟨id, hid⟩ := Option.isSome_iff_exists.mp (h.program.methods m hmem)
    have hop' : x.callOp c ns m args = .ok op := hop
    rw [ClassProxy.callOp, hw, hid] at hop'
    cases hop'
    let f := (Op.callObject x.typeId x.objectId id w).frame seq
    obtain ⟨pre, hd⟩ := decodeObjectMethodHeader_cut (encodeHeader f.hdr) x.typeId x.objectId id w
    have hm' : handled env tp f = handleObjectCall env f.hdr (.cut (encodeHeader f.hdr)
        (encodeObjectMethod x.typeId x.objectId id w)) (.transport tp) := rfl
    refine ⟨env.dispatch id (.cut pre w), ?_, fun _ _ => rfl, fun _ => rfl, fun d user => ?_⟩
    · show handled env tp f = _
      rw [hm', handleObjectCall, decodeThen_ok hd]
      rfl
    · rw [h.dispatch, ClassDef.baseDispatch, h.program.callCase hm hid]
      dsimp only
      rw [hread]
      dsimp only
      rw [h.program.callFunction_method hm]
      refine congrArg (liftRan mk) (congrArg (Ran.next _) ?_)
      funext v s'
      rw [Use.encode_call]

theorem compilable_use {use : Use} (hof : use.Of c ns depth) {t : Ty}
    (ht : use.sentType = some t) : Compilable ns t := by
  cases use with
  | get p pos =>
    cases ht
    exact h.supported.properties p (List.mem_of_getElem? hof)
  | set p pos v =>
    cases ht
    exact h.supported.properties p (List.mem_of_getElem? hof.1)
  | call m pos args =>
    have htype : (if m.isVoid then none else some m.returnType) = some t := ht
    by_cases hvoid : m.isVoid
    · rw [if_pos hvoid] at htype
      cases htype
    · rw [if_neg hvoid] at htype
      cases htype
      exact h.supported.results m (List.mem_of_getElem? hof.1) hvoid

/-- A use of an object runs once, and one message tells the client of it. -/
theorem use_served {unmk : Ω → Option (Members ω)} (hunmk : ∀ d, unmk (mk d) = some d)
    (hok : SendsOk env (.transport tp)) {x : ClassProxy} {use : Use} (hof : use.Of c ns depth)
    {op : Op} (hop : use.op c ns x = .ok op)
    (hb : ObjectCall.Behaves c ns depth impl mk rt (.on x use)) (seq : UInt32) :
    ∃ rt' pre m, (clientStep env (op.message seq) tp).run rt = .ok .stay rt' ∧
      storeOf unmk rt' = (Store.use c ns impl x.objectId use (storeOf unmk rt)).1 ∧
      arrived tp rt rt' = pre ++ [m] ∧ (∀ y ∈ pre, IsNote y) ∧ IsReplyFrame seq m ∧
      ObjectCall.reads ns depth (.on x use) (op.finish (.ofBytes m)) =
        (Store.use c ns impl x.objectId use (storeOf unmk rt)).2 := by
  obtain ⟨f, hhandled, hfailed, hreads, hf⟩ := h.handled_use hof hop seq tp
  have hobjects : (storeOf unmk rt).objects x.objectId =
      (rt.registry.get x.objectId).bind fun obj => (unmk obj.data).map (·, obj.refCount) := rfl
  cases hobj : rt.registry.get x.objectId with
  | none =>
    rw [hobj] at hobjects
    obtain ⟨m, hrun, hreply, hfinish⟩ := handleObject_none hobj hok seq use.errorCode f
    rw [← hhandled] at hrun
    obtain ⟨pre, harr, hpre⟩ := arrived_put (Notes.refl rt) tp m
    refine ⟨_, pre, m, clientStep_handled hrun, ?_, harr, hpre, hreply, ?_⟩
    · rw [Store.use, hobjects]
      rfl
    · rw [Store.use, hobjects, hfinish, hfailed]
      rfl
  | some obj =>
    obtain ⟨d, hdata, hbehaves⟩ := hb obj hobj
    rw [hobj, Option.bind_some, hdata, hunmk, Option.map_some] at hobjects
    obtain ⟨out, hserved, hsmall, hreported, hout⟩ :=
      hbehaves.encoded fun t ht => h.compilable_use hof ht
    let ran := use.function c ns impl (d, rt.user)
    have hfd : f (obj.data, rt.user) = ⟨(mk ran.state.1, ran.state.2), ran.pushed, out⟩ := by
      rw [hdata, hf, hserved]
      rfl
    let s' := ranOn env x.objectId obj (mk ran.state.1, ran.state.2) ran.pushed rt
    have hx : (runVirtual env x.objectId obj f).run rt = (ofExcept out).run s' := by
      rw [runVirtual_run, hfd]
    obtain ⟨m, hrun, hreply, hvalue, herror⟩ :=
      tryReply_run hok hx hsmall hreported seq use.errorCode
    have hran : (handled env tp (op.frame seq)).run rt = .ok () (s'.put (.transport tp) m) := by
      rw [hhandled, handleObject_run hobj]
      exact hrun
    obtain ⟨hnotes, huser, hregistry⟩ := ranOn_passes env x.objectId obj
      (mk ran.state.1, ran.state.2) hbehaves.pushed rt
    obtain ⟨pre, harr, hpre⟩ := arrived_put hnotes tp m
    refine ⟨_, pre, m, clientStep_handled hran, ?_, harr, hpre, hreply, ?_⟩
    · have hput : (s'.put (.transport tp) m).registry =
          rt.registry.put x.objectId { obj with data := mk ran.state.1 } := hregistry
      rw [storeOf_put hunmk hput, Store.use, hobjects]
      show (⟨s'.user, _, _⟩ : Store σ ω) = _
      rw [huser]
      rfl
    · have hstart : (storeOf unmk rt).user = rt.user := rfl
      rw [Store.use, hobjects]
      dsimp only
      rw [hstart]
      rcases hout with ⟨v, w, hv, rfl, hread⟩ | ⟨e, he, rfl⟩
      · rw [hvalue op w (.bytes w) rfl (hreads w)]
        dsimp only [ObjectCall.reads]
        rw [hread, hv]
        rfl
      · rw [herror op e rfl, hfailed]
        dsimp only [ObjectCall.reads]
        rw [he]

/-- A constructor runs once, and one message tells the client of it. -/
theorem create_served {unmk : Ω → Option (Members ω)} (hunmk : ∀ d, unmk (mk d) = some d)
    (hok : SendsOk env (.transport tp)) {i : Nat} {ctor : Constructor} {args : List Val}
    (hctor : c.constructors[i]? = some ctor) (hfit : FitsAll ns depth ctor.params args) {op : Op}
    (hop : c.createOp ns i ctor args = .ok op)
    (hb : ObjectCall.Behaves c ns depth impl mk rt (.create i ctor args)) (seq : UInt32) :
    ∃ rt' pre m, (clientStep env (op.message seq) tp).run rt = .ok .stay rt' ∧
      storeOf unmk rt' = (Store.create impl type i args (storeOf unmk rt)).1 ∧
      arrived tp rt rt' = pre ++ [m] ∧ (∀ y ∈ pre, IsNote y) ∧ IsReplyFrame seq m ∧
      ObjectCall.reads ns depth (.create i ctor args) (op.finish (.ofBytes m)) =
        (Store.create impl type i args (storeOf unmk rt)).2 := by
  obtain ⟨op', hop', hhandled⟩ := h.creates i ctor args hctor hfit
  cases hop'.symm.trans hop
  obtain ⟨w, hw⟩ : ∃ w, op = .createObject type.toUInt32 (.ofNat i) w := by
    obtain ⟨w, hw, -⟩ := hfit.args (h.supported.ctors ctor (List.mem_of_getElem? hctor))
    rw [ClassDef.createOp, hw, h.typeId] at hop
    exact ⟨w, (Except.ok.inj hop).symm⟩
  obtain ⟨s', hnotes, huser, hregistry, hcallback⟩ :=
    runCallback_passes env (impl.construct i args) hb.1
  have hstart : (storeOf unmk rt).user = rt.user := rfl
  cases hout : (impl.construct i args rt.user).out with
  | error e =>
    rw [hout] at hcallback
    have hx : (constructing env impl mk type i args).run rt =
        (ofExcept (.error e : Except Exn Bytes)).run s' := Eff.run_bind_error hcallback
    obtain ⟨m, hrun, hreply, -, herror⟩ := tryReply_run hok hx (fun _ hb => by cases hb)
      (fun _ he => by cases he; exact hb.2 e hout) seq .objectCreationFailed
    have hran : (handled env tp (op.frame seq)).run rt = .ok () (s'.put (.transport tp) m) := by
      rw [hhandled]
      exact hrun
    obtain ⟨pre, harr, hpre⟩ := arrived_put hnotes tp m
    refine ⟨_, pre, m, clientStep_handled hran, ?_, harr, hpre, hreply, ?_⟩
    · rw [Store.create, hstart, hout, ← huser]
      exact storeOf_user unmk hregistry
    · rw [Store.create, hstart, hout, herror op e rfl, hw]
      rfl
  | ok d =>
    rw [hout] at hcallback
    let s'' : Rt σ Ω := { s' with
      registry := (s'.registry.add type.toUInt32 (mk d)).2
      tracked := s'.tracked.insert s'.registry.nextId }
    have hx : (constructing env impl mk type i args).run rt =
        (ofExcept (.ok (encodeObjectRef ⟨type.toUInt32, s'.registry.nextId⟩))).run s'' :=
      Eff.run_bind_ok hcallback
    have hlen : (encodeObjectRef ⟨type.toUInt32, s'.registry.nextId⟩).length ≤
        kMaxPayloadSize := by
      rw [encodeObjectRef, List.length_append, length_encodeU32, length_encodeI32]
      decide
    obtain ⟨m, hrun, hreply, hvalue, -⟩ := tryReply_run hok hx
      (fun b hb => by cases hb; exact hlen) (fun _ he => by cases he) seq .objectCreationFailed
    have hran : (handled env tp (op.frame seq)).run rt = .ok () (s''.put (.transport tp) m) := by
      rw [hhandled]
      exact hrun
    have hnotes' : Notes rt s'' := hnotes
    obtain ⟨pre, harr, hpre⟩ := arrived_put hnotes' tp m
    refine ⟨_, pre, m, clientStep_handled hran, ?_, harr, hpre, hreply, ?_⟩
    · have hadd : (s''.put (.transport tp) m).registry =
          (rt.registry.add type.toUInt32 (mk d)).2 := by
        rw [← hregistry]
        rfl
      rw [storeOf_add hunmk hadd, Store.create, hstart, hout, ← huser]
      rfl
    · have hreads : ∀ ref, op.Reads (encodeObjectRef ref) (.ref ref) := by
        intro ref
        rw [hw]
        exact ⟨ref, rfl, rfl⟩
      rw [hvalue op _ _ rfl (hreads _)]
      rw [Store.create, hstart, hout, hregistry]
      rfl

/-- The runtime is the store. -/
theorem served_store {unmk : Ω → Option (Members ω)} (hunmk : ∀ d, unmk (mk d) = some d)
    (hok : SendsOk env (.transport tp)) :
    (c.facade ns depth impl type mk unmk).Served env tp where
  call {i op} seq rt hi hb := by
    cases i with
    | create i ctor args =>
      obtain ⟨hctor, hfit, hop⟩ := hi
      exact h.create_served hunmk hok hctor hfit hop hb seq
    | on x use =>
      obtain ⟨hof, hop⟩ := hi
      exact h.use_served hunmk hok hof hop hb seq
  release typeId objectId rt _ := by
    have hrun := clientStep_release_run env tp typeId objectId rt
    exact ⟨_, hrun, storeOf_release unmk rfl rfl, (Notes.of_sent rfl).arrived⟩

end Registered

end

/-! ## Runs -/

/-- In every run in which a client uses a class through its proxies, it is told what the store
tells, whatever other clients do to the objects; if they do nothing, what calls and releases in
turn return. -/
theorem objects_refine {κ σ ω Ω : Type} {c : ClassDef} {ns : Namespace} {depth : Nat}
    {impl : Implementation σ ω} {env : Env σ Ω} {mk : Members ω → Ω} {type : UInt16}
    (h : Registered env c ns depth impl mk type) {unmk : Ω → Option (Members ω)}
    (hunmk : ∀ d, unmk (mk d) = some d) {tp : TransportPtr} (hok : SendsOk env (.transport tp))
    (propCallbacks : Map SubscriptionKey κ) (rt : Rt σ Ω) (ls : List (NetLabel σ Ω))
    (t : Net κ σ Ω)
    (hrun : Lts.Run (Net.step env tp) ((c.facade ns depth impl type mk unmk).Proper tp)
      (.init propCallbacks rt) ls t) :
    ∃ as a, (c.facade ns depth impl type mk unmk).Afar rt ls t as a :=
  (h.served_store hunmk hok).refines hrun

/-! ### A lamp -/

namespace Lamp

open Dimmer

/-- A dimmer that keeps its level itself. -/
def lampImpl : Implementation Unit UInt8 where
  construct _ args user :=
    match args with
    | [.u8 start] => ⟨user, [], .ok ⟨fun _ => .u8 0, start⟩⟩
    | _ => .throw user (.runtimeError [])
  method _ args s :=
    match args with
    | [.u8 by'] => ⟨({ s.1 with own := s.1.own + by' }, s.2), [], .ok (some (.u8 (s.1.own + by')))⟩
    | _ => .throw s (.runtimeError [])
  getter _ := some fun s => ⟨s, [], .ok (some (.u8 s.1.own))⟩
  setter _ := some fun v s =>
    match v with
    | .u8 level => ⟨({ s.1 with own := level }, s.2), [], .ok none⟩
    | _ => .throw s (.runtimeError [])

def lampEnv : Env Unit (Members UInt8) := served (dimmer [boost]) (dimmerNs [boost]) 1 lampImpl 1

def lampRt : Rt Unit (Members UInt8) := ⟨.empty, ⟨∅⟩, (), .empty, ∅, [], 0, []⟩

/-- Make a lamp of level 7 and read it. -/
def lampRun : List (NetLabel Unit (Members UInt8)) :=
  [.ask (.createObject 1 0 [7]), .serve, .receive, .ask (.getProperty 1 (-1) 1), .serve, .receive]

theorem behaves_u8 {use : Use} (hu : use.sentType = some u8) (s : Members UInt8 × Unit)
    (b : UInt8) : use.Behaves (dimmerNs [boost]) 1 ⟨s, [], .ok (some (.u8 b))⟩ where
  pushed _ hp := by cases hp
  returned v t hv ht := by
    cases hv
    cases hu.symm.trans ht
    have hlen : ([b] : Bytes).length ≤ kMaxPayloadSize := Nat.le_trans (Nat.le_refl 1) (by decide)
    exact ⟨_, [b], rfl, fits_u8 _ b, rfl, hlen⟩
  thrown _ he := by cases he

theorem u8_of_fits {v : Val} (h : Fits (dimmerNs [boost]) 1 u8 v) : ∃ b, v = .u8 b := by
  have ht := h.typed
  cases v <;> simp [HasType, BaseHas, PrimitiveType.Has, u8] at ht ⊢

theorem calls_level : (dimmer [boost]).Calls ((dimmer [boost]).getterFn level 0) ∧
    (dimmer [boost]).Calls ((dimmer [boost]).setterFn level 0) := by
  refine ⟨calls_getter rfl fun m hm => ?_, calls_setter rfl rfl⟩
  cases List.mem_singleton.mp hm
  rintro ⟨hname, -⟩
  cases hname

theorem eq_level {p : Property} {pos : Nat} (h : (dimmer [boost]).properties[pos]? = some p) :
    p = level ∧ pos = 0 := by
  cases pos with
  | zero =>
    cases h
    exact ⟨rfl, rfl⟩
  | succ n => cases h

theorem behaves_lamp {i : ObjectCall} {op : Op}
    (hi : i.Asks (dimmer [boost]) (dimmerNs [boost]) 1 op) (rt : Rt Unit (Members UInt8)) :
    i.Behaves (dimmerNs [boost]) 1 lampImpl id (c := dimmer [boost]) rt := by
  have hprog := (registered_boost lampImpl).program
  have hget : ∀ s, (dimmer [boost]).callFunction (dimmerNs [boost]) lampImpl
      ((dimmer [boost]).getterFn level 0) [] s = ⟨s, [], .ok (some (.u8 s.1.own))⟩ := by
    intro s
    rw [ClassDef.callFunction, hprog.handler_eq calls_level.1]
    rfl
  cases i with
  | create i ctor args =>
    unfold ObjectCall.Behaves lampImpl
    dsimp only
    split
    · exact ⟨fun _ hp => (by cases hp), fun _ he => by cases he⟩
    · refine ⟨fun _ hp => (by cases hp), fun _ he => ?_⟩
      cases he
      exact ⟨rfl, Nat.zero_le _⟩
  | on x use =>
    obtain ⟨hof, -⟩ := hi
    refine fun obj _ => ⟨obj.data, rfl, ?_⟩
    cases use with
    | get p pos =>
      obtain ⟨rfl, rfl⟩ := eq_level hof
      rw [Use.function, hget]
      exact behaves_u8 rfl _ _
    | set p pos v =>
      obtain ⟨hp, -, hfit⟩ := hof
      obtain ⟨rfl, rfl⟩ := eq_level hp
      obtain ⟨b, rfl⟩ := u8_of_fits hfit
      rw [Use.function, ClassDef.callFunction, hprog.handler_eq calls_level.2]
      have hset : (dimmer [boost]).runFunction (dimmerNs [boost]) lampImpl
          ((dimmer [boost]).setterFn level 0).handler [.u8 b] (obj.data, rt.user) =
            ⟨({ obj.data with own := b }, rt.user), [], .ok none⟩ := rfl
      rw [hset, Ran.next]
      dsimp only
      rw [hget]
      exact behaves_u8 rfl _ _
    | call m pos args =>
      obtain ⟨hm, hargs⟩ := hof
      cases pos with
      | zero =>
        cases hm
        cases hargs with
        | cons hfit hargs =>
          cases hargs
          obtain ⟨b, rfl⟩ := u8_of_fits hfit
          exact behaves_u8 rfl _ _
      | succ n => cases hm

theorem objects_refine_lamp :
    ∃ t, Lts.follow (Net.step lampEnv 2) (Net.init (∅ : Map SubscriptionKey Unit) lampRt)
        lampRun = some t ∧
      t.sys.done.map (·.outcome) = [.ok (.ref ⟨1, -1⟩), .ok (.bytes [7])] ∧
      ∃ as a, ((dimmer [boost]).facade (dimmerNs [boost]) 1 lampImpl 1 id some).Afar lampRt lampRun
        t as a := by
  have h : (Lts.follow (Net.step lampEnv 2) (Net.init (∅ : Map SubscriptionKey Unit) lampRt)
      lampRun).map (fun t => t.sys.done.map (·.outcome)) =
        some [.ok (.ref ⟨1, -1⟩), .ok (.bytes [7])] := by decide +kernel
  obtain ⟨t, ht, hdone⟩ := Option.map_eq_some_iff.mp h
  refine ⟨t, ht, hdone, ?_⟩
  let F := (dimmer [boost]).facade (dimmerNs [boost]) 1 lampImpl 1 id some
  have hmake : F.asks (.create 0 { params := [{ name := lit "start", type := u8 }] } [.u8 7])
      (.createObject 1 0 [7]) := ⟨rfl, .cons (fits_u8 _ _) .nil, rfl⟩
  have hread : F.asks (.on ⟨1, -1⟩ (.get level 0)) (.getProperty 1 (-1) 1) := ⟨rfl, rfl⟩
  have hrun : Lts.Run (Net.step lampEnv 2) (F.Proper 2) (.init ∅ lampRt) lampRun t :=
    Lts.Run.nil.follow (fun l hl u => by
      simp only [List.mem_cons, List.not_mem_nil, or_false] at hl
      rcases hl with rfl | rfl | rfl | rfl | rfl | rfl
      · exact ⟨_, hmake⟩
      · exact fun i op _ _ hi _ _ => behaves_lamp hi _
      · trivial
      · exact ⟨_, hread⟩
      · exact fun i op _ _ hi _ _ => behaves_lamp hi _
      · trivial) ht
  exact objects_refine (registered_boost lampImpl) (fun _ => rfl) (fun _ => rfl) ∅ lampRt _ t hrun

end Lamp

end Song.Compiler
