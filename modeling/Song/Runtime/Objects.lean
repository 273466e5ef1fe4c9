import Song.Lib.Refs
import Song.Lib.Run
import Song.Runtime.Message

/-!
# The objects of a service over all its clients (`object.cpp`, `runtime.cpp`)

Any number of clients create and release objects, in any order and each other's as well, and the
server adds and releases references of its own. A client that disconnects releases what it has
tracked one by one, with anything in between. `log` is what has happened to the registry's ids; it
is read off the registry before and after a call.

The registry's counts are those of the log (`Refs.Tallied`) as long as no reference is added to an
object with `2 ^ 31 - 1` of them, where its `int` wraps.
-/

namespace Song

variable {σ ω : Type}

/-! ## The registry as a table of counts -/

theorem toInt_add_one {n : Int32} (h : n.toInt < 2 ^ 31 - 1) : (n + 1).toInt = n.toInt + 1 := by
  have hle := n.le_toInt
  have hone : (1 : Int32).toInt = 1 := rfl
  rw [Int32.toInt_add, hone]
  exact Int.bmod_eq_of_le (by omega) (by omega)

theorem toInt_sub_one {n : Int32} (h : -2 ^ 31 < n.toInt) : (n - 1).toInt = n.toInt - 1 := by
  have hlt := n.toInt_lt
  have hone : (1 : Int32).toInt = 1 := rfl
  rw [Int32.toInt_sub, hone]
  exact Int.bmod_eq_of_le (by omega) (by omega)

namespace ObjectRegistry

variable {r : ObjectRegistry ω}

/-- The reference counts. -/
def live (r : ObjectRegistry ω) (id : Int32) : Option Int := (r.get id).map (·.refCount.toInt)

theorem live_of {id : Int32} {obj : Obj ω} (h : r.get id = some obj) :
    r.live id = some obj.refCount.toInt := by
  rw [live, h, Option.map_some]

theorem live_put (r : ObjectRegistry ω) (id : Int32) (obj : Obj ω) :
    (r.put id obj).live = Function.update r.live id (some obj.refCount.toInt) := by
  funext id'
  by_cases h : id' = id
  · subst h
    rw [Function.update_self]
    exact live_of (AList.lookup_insert _)
  · rw [Function.update_of_ne h, live, live, get, put, AList.lookup_insert_ne h]
    rfl

theorem live_add (r : ObjectRegistry ω) (typeId : UInt32) (data : ω) :
    (r.add typeId data).2.live = Function.update r.live r.nextId (some 1) :=
  live_put r r.nextId ⟨r.nextId, typeId, 1, false, data⟩

theorem step_add (r : ObjectRegistry ω) (typeId : UInt32) (data : ω) :
    Refs.Step r.live (.issued r.nextId) (r.add typeId data).2.live := by
  rw [live_add]
  exact .issued _

theorem step_addRef {id : Int32} {obj : Obj ω} (h : r.get id = some obj)
    (hlt : obj.refCount.toInt < 2 ^ 31 - 1) :
    (r.addRef id).1 = true ∧ Refs.Step r.live (.retained id) (r.addRef id).2.live := by
  rw [addRef, h]
  refine ⟨rfl, ?_⟩
  dsimp only
  rw [live_put, toInt_add_one hlt]
  exact .retained (live_of h)

theorem step_release {id : Int32} {obj : Obj ω} (h : r.get id = some obj)
    (hpos : 1 ≤ obj.refCount.toInt) :
    Refs.Step r.live (.released id ((r.release id).get id).isNone) (r.release id).live := by
  unfold release
  rw [h]
  dsimp only
  split
  · next hone =>
    have hget : get { r with objects := r.objects.erase id } id = none := AList.lookup_erase ..
    have hlive : live { r with objects := r.objects.erase id } = Function.update r.live id none := by
      funext id'
      by_cases h : id' = id
      · subst h
        rw [Function.update_self, live, hget]
        rfl
      · rw [Function.update_of_ne h, live, live, get, AList.lookup_erase_ne h]
        rfl
    rw [hget, hlive]
    refine .last ?_
    rw [live_of h, hone]
    rfl
  · next hone =>
    have hget : (r.put id { obj with refCount := obj.refCount - 1 }).get id =
        some { obj with refCount := obj.refCount - 1 } := AList.lookup_insert _
    rw [hget, live_put, toInt_sub_one (by omega)]
    refine .released (live_of h) fun he => hone ?_
    exact Int32.toInt_inj.mp he

end ObjectRegistry

/-! ## The handlers -/

section
variable {env : Env σ ω}

/-- A create message makes at most one object, which its connection tracks. -/
def Made (s s' : Rt σ ω) : Prop :=
  s'.registry = s.registry ∧ s'.tracked = s.tracked ∨
    ∃ typeId data, s'.registry = (s.registry.add typeId data).2 ∧
      s'.tracked = s.tracked.insert s.registry.nextId

theorem Made.aside {s s' s'' : Rt σ ω} (h : Made s s') (h' : Aside s' s'') : Made s s'' := by
  unfold Made at h ⊢
  rw [h']
  exact h

theorem createObject_made (typeId : UInt32) (constructorId : UInt16) (args : Buffer)
    (s : Rt σ ω) :
    Eff.Ends (createObject env typeId constructorId args) s
      (fun id s' => id = s.registry.nextId ∧ s'.tracked = s.tracked ∧
        ∃ data, s'.registry = (s.registry.add typeId data).2)
      fun _ s' => Aside s s' := by
  unfold createObject
  split
  · exact .throw (Aside.refl s)
  · next factory _ =>
    refine .bind ((Aside.runCallback (factory constructorId args) s).mono (fun made s' h => ?_)
      fun _ _ h => h)
    split
    · exact .throw h
    · next data =>
      refine ⟨?_, ?_, data, ?_⟩
      all_goals rw [h]
      all_goals rfl

theorem createBody_made (seq : UInt32) (port : Port) (createHdr : ObjectCreateHeader)
    (args : Buffer) : Eff.Within Made (createBody env seq port createHdr args) := by
  intro s
  refine .bind ((createObject_made createHdr.typeId createHdr.constructorId args s).mono
    (fun id s' h => ?_) fun _ s' h => (Made.aside (.inl ⟨rfl, rfl⟩) h))
  obtain ⟨rfl, ht, data, hr⟩ := h
  refine .bind ?_
  have hm : Made s { s' with tracked := s'.tracked.insert s.registry.nextId } :=
    .inr ⟨createHdr.typeId, data, hr, by rw [ht]⟩
  exact (Aside.reply port _ _).mono (fun _ _ h => hm.aside h) fun _ _ h => hm.aside h

theorem handleCreate_made (hdr : Header) (payload : Buffer) (port : Port) :
    Eff.Within Made (handleCreate env hdr payload port) := by
  refine within_decodeThen (fun _ => .inl ⟨rfl, rfl⟩) fun createHdr args s => ?_
  refine .catchIf ((createBody_made hdr.sequenceId port createHdr args s).mono (fun _ _ h => h)
    fun e s' h => ?_)
  split
  · exact (Aside.sendError port _ _ _ s').mono (fun _ _ h' => h.aside h') fun _ _ h' => h.aside h'
  · exact h

end

namespace Objects

/-! ## The service -/

/-- A connection, from the side of its `client_loop`. -/
inductive Conn where
  | serving (tracked : IdSet)
  /-- In `release_connection_objects`, with these ids still to release. -/
  | leaving (rest : List Int32)
  | left
  /-- An exception has left the loop. -/
  | failed

/-- Whether the connection is going to release an id, or never will. -/
def Conn.Holds : Conn → Int32 → Prop
  | .serving tracked, id => id ∈ tracked.ids
  | .leaving rest, id => id ∈ rest
  | .left, _ => False
  | .failed, _ => True

structure Service (σ ω : Type) where
  rt : Rt σ ω
  conns : Nat → Option Conn
  log : List (Refs.Event Int32)

/-- A runtime without objects or clients. -/
def Service.start (rt : Rt σ ω) : Service σ ω :=
  ⟨{ rt with registry := .empty }, fun _ => none, []⟩

inductive Act where
  | connect (i : Nat)
  /-- Client `i` has sent a message. -/
  | message (i : Nat) (hdr : Header) (payload : Buffer)
  /-- The loop of client `i` is left in order; the set it tracked is gone through in some order. -/
  | disconnect (i : Nat) (order : List Int32)
  | cleanUp (i : Nat)
  /-- The server's own calls. -/
  | addRef (id : Int32)
  | release (id : Int32)

/-! ### What the log says of a call -/

def issued (before after : ObjectRegistry ω) : List (Refs.Event Int32) :=
  if after.nextId = before.nextId then [] else [.issued before.nextId]

/-- A release of an id that was there; the last one if it is not there any more. -/
def released (before after : ObjectRegistry ω) (id : Int32) : List (Refs.Event Int32) :=
  if (before.get id).isSome then [.released id (after.get id).isNone] else []

/-- A create or a release message. -/
def messageEvents (hdr : Header) (payload : Buffer) (before after : ObjectRegistry ω) :
    List (Refs.Event Int32) :=
  if hdr.type = .create then issued before after
  else
    match decodeObjectReleaseHeader.run payload with
    | .ok releaseHdr _ => released before after releaseHdr.objectId
    | .error _ _ => []

/-- The runtime and the connection after a message. -/
def afterMessage : EStateM.Result Exn (Rt σ ω) Unit → Rt σ ω × Conn
  | .ok _ rt => (rt, .serving rt.tracked)
  | .error _ rt => (rt, .failed)

section
variable (env : Env σ ω)

def step (s : Service σ ω) : Act → Option (Service σ ω)
  | .connect i =>
    match s.conns i with
    | none => some { s with conns := Function.update s.conns i (some (.serving .empty)) }
    | some _ => none
  | .message i hdr payload =>
    match s.conns i with
    | some (.serving tracked) =>
      if hdr.type = .create ∨ hdr.type = .release then
        let r := afterMessage ((handleMessage env hdr payload i).run
          { s.rt with tracked := tracked })
        some ⟨r.1, Function.update s.conns i (some r.2),
          s.log ++ messageEvents hdr payload s.rt.registry r.1.registry⟩
      else none
    | _ => none
  | .disconnect i order =>
    match s.conns i with
    | some (.serving tracked) =>
      if order.isPerm tracked.ids then
        some { s with conns := Function.update s.conns i (some (.leaving order)) }
      else none
    | _ => none
  | .cleanUp i =>
    match s.conns i with
    | some (.leaving (id :: rest)) =>
      let rt := s.rt.releaseTracked id
      some ⟨rt, Function.update s.conns i (some (.leaving rest)),
        s.log ++ released s.rt.registry rt.registry id⟩
    | some (.leaving []) =>
      some { s with
        rt := { s.rt with tracked := .empty, subs := s.rt.subs.unsubscribeAll i }
        conns := Function.update s.conns i (some .left) }
    | _ => none
  | .addRef id =>
    let found := s.rt.registry.addRef id
    some { s with
      rt := { s.rt with registry := found.2 }
      log := s.log ++ if found.1 then [.retained id] else [] }
  | .release id =>
    let registry := s.rt.registry.release id
    some { s with
      rt := { s.rt with registry := registry }
      log := s.log ++ released s.rt.registry registry id }

end

/-! ## What holds of every service -/

/-- Someone is going to release the id, or has failed to. -/
def Held (conns : Nat → Option Conn) (id : Int32) : Prop :=
  ∃ i c, conns i = some c ∧ c.Holds id

structure Sound (r : ObjectRegistry ω) (conns : Nat → Option Conn)
    (log : List (Refs.Event Int32)) : Prop where
  tallied : Refs.Tallied r.live log
  next : r.nextId.toInt = -1 - Refs.issues log
  issued_between : ∀ id, .issued id ∈ log → r.nextId.toInt < id.toInt ∧ id.toInt < 0
  named : ∀ id obj, r.get id = some obj → obj.objectId = id
  held : ∀ id, .issued id ∈ log → (∀ last, .released id last ∉ log) → Held conns id

theorem sound_start (rt : Rt σ ω) :
    Sound (Service.start rt).rt.registry (Service.start rt).conns (Service.start rt).log where
  tallied := Refs.tallied_nil
  next := rfl
  issued_between _ h := absurd h List.not_mem_nil
  named _ _ h := by cases h
  held _ h := absurd h List.not_mem_nil

theorem held_update {conns : Nat → Option Conn} {i : Nat} {c : Conn} {id : Int32}
    (h : Held conns id) (hc : ∀ c', conns i = some c' → c'.Holds id → c.Holds id) :
    Held (Function.update conns i (some c)) id := by
  obtain ⟨j, c', hj, hid⟩ := h
  by_cases hji : j = i
  · subst hji
    exact ⟨j, c, Function.update_self .., hc c' hj hid⟩
  · exact ⟨j, c', by rw [Function.update_of_ne hji, hj], hid⟩

theorem held_self {conns : Nat → Option Conn} (i : Nat) {c : Conn} {id : Int32} (h : c.Holds id) :
    Held (Function.update conns i (some c)) id :=
  ⟨i, c, Function.update_self .., h⟩

namespace Sound

variable {r : ObjectRegistry ω} {conns conns' : Nat → Option Conn}
  {log : List (Refs.Event Int32)} (h : Sound r conns log)
include h

/-- Connections that hold what they held. -/
theorem reconnect (hconns : ∀ id, Held conns id → Held conns' id) : Sound r conns' log :=
  { h with held := fun id hid hr => hconns id (h.held id hid hr) }

theorem one_le {id : Int32} {obj : Obj ω} (hobj : r.get id = some obj) : 1 ≤ obj.refCount.toInt :=
  (h.tallied.counted id _ (ObjectRegistry.live_of hobj)).2

/-- A new object, which its connection tracks, while there are ids left. -/
theorem add (typeId : UInt32) (data : ω) (hfew : Refs.issues log + 1 < 2 ^ 31)
    (hconns : ∀ id, id = r.nextId ∨ Held conns id → Held conns' id) :
    Sound (r.add typeId data).2 conns' (log ++ [.issued r.nextId]) := by
  have hnext := h.next
  have hsub : (r.nextId - 1).toInt = r.nextId.toInt - 1 := toInt_sub_one (by omega)
  have hfresh : .issued r.nextId ∉ log := fun hmem => by
    have := (h.issued_between _ hmem).1
    omega
  refine ⟨?_, ?_, ?_, ?_, ?_⟩
  · refine h.tallied.step (r.step_add typeId data) fun i he => ?_
    cases he
    exact hfresh
  · show (r.nextId - 1).toInt = _
    rw [hsub, Refs.issues_append, hnext]
    show _ = -1 - ((Refs.issues log + 1 : Nat) : Int)
    omega
  · intro id hid
    show (r.nextId - 1).toInt < _ ∧ _
    rcases List.mem_append.mp hid with hid | hid
    · have := h.issued_between id hid
      omega
    · cases List.mem_singleton.mp hid
      omega
  · intro id obj hobj
    by_cases hid : id = r.nextId
    · subst hid
      have hget : (r.add typeId data).2.get r.nextId =
          some ⟨r.nextId, typeId, 1, false, data⟩ := AList.lookup_insert _
      rw [hget] at hobj
      cases hobj
      rfl
    · have hget : (r.add typeId data).2.get id = r.get id := AList.lookup_insert_ne hid
      rw [hget] at hobj
      exact h.named id obj hobj
  · intro id hid hr
    refine hconns id ?_
    rcases List.mem_append.mp hid with hid | hid
    · exact .inr (h.held id hid fun last hmem => hr last (List.mem_append_left _ hmem))
    · cases List.mem_singleton.mp hid
      exact .inl rfl

theorem addRef (id : Int32) (hlt : ∀ obj, r.get id = some obj → obj.refCount.toInt < 2 ^ 31 - 1) :
    Sound (r.addRef id).2 conns (log ++ if (r.addRef id).1 then [.retained id] else []) := by
  cases hobj : r.get id with
  | none =>
    rw [ObjectRegistry.addRef, hobj]
    simpa using h
  | some obj =>
    obtain ⟨hfound, hstep⟩ := ObjectRegistry.step_addRef hobj (hlt obj hobj)
    have hr : (r.addRef id).2 = r.put id { obj with refCount := obj.refCount + 1 } := by
      rw [ObjectRegistry.addRef, hobj]
    rw [if_pos hfound]
    refine ⟨h.tallied.step hstep (fun _ he => by cases he), ?_, ?_, ?_, ?_⟩
    · rw [hr, Refs.issues_append]
      exact h.next
    · intro id' hid
      rw [hr]
      exact h.issued_between id' (by simpa using hid)
    · intro id' obj' hobj'
      rw [hr] at hobj'
      by_cases hid : id' = id
      · subst hid
        rw [ObjectRegistry.get, ObjectRegistry.put, AList.lookup_insert] at hobj'
        cases hobj'
        exact h.named id' obj hobj
      · rw [ObjectRegistry.get, ObjectRegistry.put, AList.lookup_insert_ne hid] at hobj'
        exact h.named id' obj' hobj'
    · intro id' hid hrel
      exact h.held id' (by simpa using hid) fun last hmem => hrel last (List.mem_append_left _ hmem)

/-- A release, by whoever holds the id or not. -/
theorem release (id : Int32) (hconns : ∀ id', id' ≠ id → Held conns id' → Held conns' id') :
    Sound (r.release id) conns' (log ++ released r (r.release id) id) := by
  have hnext : (r.release id).nextId = r.nextId := by
    unfold ObjectRegistry.release
    split
    · rfl
    · split <;> rfl
  have hnamed : ∀ id' obj, (r.release id).get id' = some obj → obj.objectId = id' := by
    intro id' obj' hobj'
    cases hobj : r.get id with
    | none =>
      rw [ObjectRegistry.release, hobj] at hobj'
      exact h.named id' obj' hobj'
    | some obj =>
      rw [ObjectRegistry.release, hobj] at hobj'
      dsimp only at hobj'
      by_cases hid : id' = id
      · subst hid
        split at hobj'
        · rw [ObjectRegistry.get, AList.lookup_erase] at hobj'
          cases hobj'
        · rw [ObjectRegistry.get, ObjectRegistry.put, AList.lookup_insert] at hobj'
          cases hobj'
          exact h.named id' obj hobj
      · split at hobj'
        · rw [ObjectRegistry.get, AList.lookup_erase_ne hid] at hobj'
          exact h.named id' obj' hobj'
        · rw [ObjectRegistry.get, ObjectRegistry.put, AList.lookup_insert_ne hid] at hobj'
          exact h.named id' obj' hobj'
  unfold released
  cases hobj : r.get id with
  | none =>
    have hr : r.release id = r := by
      rw [ObjectRegistry.release, hobj]
    rw [hr, Option.isSome_none, if_neg Bool.false_ne_true, List.append_nil]
    refine { h with held := fun id' hid hrel => hconns id' ?_ (h.held id' hid hrel) }
    rintro rfl
    -- an id that has been issued and is not there has been released
    have hlive : r.live id' ≠ none := (h.tallied.standing id').mpr ⟨hid, hrel true⟩
    exact hlive (by rw [ObjectRegistry.live, hobj, Option.map_none])
  | some obj =>
    rw [Option.isSome_some, if_pos rfl]
    have hstep := ObjectRegistry.step_release hobj (h.one_le hobj)
    refine ⟨h.tallied.step hstep (fun _ he => by cases he), ?_, ?_, hnamed, ?_⟩
    · rw [hnext, Refs.issues_append]
      exact h.next
    · intro id' hid
      rw [hnext]
      exact h.issued_between id' (by simpa using hid)
    · intro id' hid hrel
      refine hconns id' ?_ (h.held id' (by simpa using hid) fun last hmem =>
        hrel last (List.mem_append_left _ hmem))
      rintro rfl
      exact hrel _ (List.mem_append_right _ (List.mem_singleton.mpr rfl))

end Sound

/-! ## Steps and runs -/

theorem issued_add (r : ObjectRegistry ω) (typeId : UInt32) (data : ω) :
    issued r (r.add typeId data).2 = [.issued r.nextId] := by
  refine if_neg fun h => ?_
  have h : r.nextId - 1 = r.nextId := h
  have hbits := congrArg Int32.toBitVec h
  rw [Int32.toBitVec_sub] at hbits
  have hone : (1 : Int32).toBitVec = 1#32 := rfl
  rw [hone] at hbits
  bv_omega

variable {env : Env σ ω} {s s' : Service σ ω} {i : Nat} {tracked : IdSet} {hdr : Header}
  {payload : Buffer}

theorem sound_made (h : Sound s.rt.registry s.conns s.log)
    (hi : s.conns i = some (.serving tracked)) {rt : Rt σ ω}
    (hm : Made { s.rt with tracked := tracked } rt)
    (hfew : Refs.issues (s.log ++ issued s.rt.registry rt.registry) < 2 ^ 31) {c : Conn}
    (hc : ∀ id ∈ rt.tracked.ids, c.Holds id) :
    Sound rt.registry (Function.update s.conns i (some c))
      (s.log ++ issued s.rt.registry rt.registry) := by
  have hkept : ∀ id, (id ∈ tracked.ids → id ∈ rt.tracked.ids) → Held s.conns id →
      Held (Function.update s.conns i (some c)) id := by
    intro id hsub hheld
    refine held_update hheld fun c' hc' hid => ?_
    rw [hi] at hc'
    cases hc'
    exact hc id (hsub hid)
  rcases hm with ⟨hr, ht⟩ | ⟨typeId, data, hr, ht⟩
  · have hnone : issued s.rt.registry rt.registry = [] := if_pos (by rw [hr])
    rw [hnone, List.append_nil, hr]
    exact h.reconnect fun id => hkept id fun hid => by rw [ht]; exact hid
  · dsimp only at hr ht
    rw [hr, issued_add] at hfew ⊢
    rw [Refs.issues_append] at hfew
    refine h.add typeId data hfew fun id hid => ?_
    rcases hid with rfl | hheld
    · exact held_self i (hc _ (by rw [ht]; exact List.mem_insert_self ..))
    · exact hkept id (fun hid => by rw [ht]; exact List.mem_insert_of_mem hid) hheld

/-- Whatever a client sends as a create message. -/
theorem sound_create (h : Sound s.rt.registry s.conns s.log)
    (hi : s.conns i = some (.serving tracked)) (ht : hdr.type = .create) {r : Rt σ ω × Conn}
    (hr : r = afterMessage ((handleMessage env hdr payload i).run
      { s.rt with tracked := tracked }))
    (hfew : Refs.issues (s.log ++ messageEvents hdr payload s.rt.registry r.1.registry) < 2 ^ 31) :
    Sound r.1.registry (Function.update s.conns i (some r.2))
      (s.log ++ messageEvents hdr payload s.rt.registry r.1.registry) := by
  have hhandler : handleMessage env hdr payload i = handleCreate env hdr payload (.transport i) := by
    rw [handleMessage, ht]
    rfl
  have hmade : Eff.Within Made (handleCreate env hdr payload (.transport i)) :=
    handleCreate_made hdr payload _
  rw [hhandler] at hr
  rw [messageEvents, if_pos ht] at hfew ⊢
  cases hrun : (handleCreate env hdr payload (.transport i)).run
      { s.rt with tracked := tracked } with
  | ok _ rt =>
    rw [hrun] at hr
    subst hr
    exact sound_made h hi (hmade.ok hrun) hfew fun _ hid => hid
  | error e rt =>
    rw [hrun] at hr
    subst hr
    exact sound_made h hi (hmade.error hrun) hfew fun _ _ => trivial

/-- Whatever a client sends as a release message. -/
theorem sound_release (h : Sound s.rt.registry s.conns s.log)
    (hi : s.conns i = some (.serving tracked)) (ht : hdr.type = .release) {r : Rt σ ω × Conn}
    (hr : r = afterMessage ((handleMessage env hdr payload i).run
      { s.rt with tracked := tracked })) :
    Sound r.1.registry (Function.update s.conns i (some r.2))
      (s.log ++ messageEvents hdr payload s.rt.registry r.1.registry) := by
  have hhandler : handleMessage env hdr payload i = handleRelease payload := by
    rw [handleMessage, ht]
    rfl
  rw [hhandler, handleRelease] at hr
  rw [messageEvents, if_neg (by rw [ht]; decide)]
  cases hd : decodeObjectReleaseHeader.run payload with
  | ok releaseHdr rest =>
    rw [decodeThen_ok hd] at hr
    subst hr
    refine h.release releaseHdr.objectId fun id' hne hheld => ?_
    refine held_update hheld fun c' hc' hid => ?_
    rw [hi] at hc'
    cases hc'
    exact (List.mem_erase_of_ne hne).mpr hid
  | error e rest =>
    rw [decodeThen_error hd] at hr
    subst hr
    dsimp only
    rw [List.append_nil]
    exact h.reconnect fun id hheld => held_update hheld fun _ _ _ => trivial

/-- The reference count does not wrap: none is added to an object with `2 ^ 31 - 1` of them. -/
def Bounded (s : Service σ ω) : Act → Prop
  | .addRef id => ∀ obj, s.rt.registry.get id = some obj → obj.refCount.toInt < 2 ^ 31 - 1
  | .connect _ | .message _ _ _ | .disconnect _ _ | .cleanUp _ | .release _ => True

theorem sound_step {act : Act} (h : Sound s.rt.registry s.conns s.log)
    (hstep : step env s act = some s') (hact : Bounded s act) (hfew : Refs.issues s'.log < 2 ^ 31) :
    Sound s'.rt.registry s'.conns s'.log := by
  cases act with
  | connect i =>
    simp only [step] at hstep
    split at hstep
    · next hi =>
      cases hstep
      refine h.reconnect fun id hheld => held_update hheld fun c' hc' _ => ?_
      rw [hi] at hc'
      cases hc'
    · cases hstep
  | message i hdr payload =>
    simp only [step] at hstep
    split at hstep
    · next tracked hi =>
      split at hstep
      · next ht =>
        cases hstep
        rcases ht with ht | ht
        · exact sound_create h hi ht rfl hfew
        · exact sound_release h hi ht rfl
      · cases hstep
    · cases hstep
  | disconnect i order =>
    simp only [step] at hstep
    split at hstep
    · next tracked hi =>
      split at hstep
      · next hperm =>
        cases hstep
        refine h.reconnect fun id hheld => held_update hheld fun c' hc' hid => ?_
        rw [hi] at hc'
        cases hc'
        exact (List.isPerm_iff.mp hperm).mem_iff.mpr hid
      · cases hstep
    · cases hstep
  | cleanUp i =>
    simp only [step] at hstep
    split at hstep
    · next id rest hi =>
      cases hstep
      refine h.release id fun id' hne hheld => held_update hheld fun c' hc' hid => ?_
      rw [hi] at hc'
      cases hc'
      exact (List.mem_cons.mp hid).resolve_left hne
    · next hi =>
      cases hstep
      refine h.reconnect fun id hheld => held_update hheld fun c' hc' hid => ?_
      rw [hi] at hc'
      cases hc'
      exact absurd hid List.not_mem_nil
    · cases hstep
  | addRef id =>
    cases hstep
    exact h.addRef id hact
  | release id =>
    cases hstep
    exact h.release id fun _ _ hheld => hheld

theorem log_step {act : Act} (hstep : step env s act = some s') :
    ∃ events, s'.log = s.log ++ events := by
  cases act with
  | connect i =>
    simp only [step] at hstep
    split at hstep
    · cases hstep
      exact ⟨[], (List.append_nil _).symm⟩
    · cases hstep
  | message i hdr payload =>
    simp only [step] at hstep
    split at hstep
    · split at hstep
      · cases hstep
        exact ⟨_, rfl⟩
      · cases hstep
    · cases hstep
  | disconnect i order =>
    simp only [step] at hstep
    split at hstep
    · split at hstep
      · cases hstep
        exact ⟨[], (List.append_nil _).symm⟩
      · cases hstep
    · cases hstep
  | cleanUp i =>
    simp only [step] at hstep
    split at hstep
    · cases hstep
      exact ⟨_, rfl⟩
    · cases hstep
      exact ⟨[], (List.append_nil _).symm⟩
    · cases hstep
  | addRef id =>
    cases hstep
    exact ⟨_, rfl⟩
  | release id =>
    cases hstep
    exact ⟨_, rfl⟩

theorem sound_run {rt : Rt σ ω} {acts : List Act}
    (hrun : Lts.Run (step env) Bounded (.start rt) acts s) (hfew : Refs.issues s.log < 2 ^ 31) :
    Sound s.rt.registry s.conns s.log := by
  refine hrun.invariant (fun s => Refs.issues s.log < 2 ^ 31 → Sound s.rt.registry s.conns s.log)
    (fun _ => sound_start rt) (fun s act s' ih hact hstep hfew => ?_) hfew
  obtain ⟨events, hlog⟩ := log_step hstep
  rw [hlog, Refs.issues_append] at hfew
  refine sound_step (ih (by omega)) hstep hact ?_
  rw [hlog, Refs.issues_append]
  exact hfew

theorem registry_foldl_releaseTracked (ids : List Int32) (rt : Rt σ ω) :
    (ids.foldl Rt.releaseTracked rt).registry = ids.foldl ObjectRegistry.release rt.registry := by
  induction ids generalizing rt with
  | nil => rfl
  | cons id ids ih =>
    rw [List.foldl_cons, List.foldl_cons, ih]
    rfl

theorem registry_releaseConnectionObjects (rt : Rt σ ω) :
    rt.releaseConnectionObjects.registry =
      rt.tracked.ids.foldl ObjectRegistry.release rt.registry :=
  registry_foldl_releaseTracked rt.tracked.ids rt

theorem follow_cleanUps {rest : List Int32} (hi : s.conns i = some (.leaving rest)) :
    ∃ s', Lts.follow (step env) s (List.replicate (rest.length + 1) (.cleanUp i)) = some s' ∧
      s'.conns i = some .left ∧
        s'.rt.registry = rest.foldl ObjectRegistry.release s.rt.registry := by
  induction rest generalizing s with
  | nil =>
    refine ⟨{ s with
      rt := { s.rt with tracked := .empty, subs := s.rt.subs.unsubscribeAll i }
      conns := Function.update s.conns i (some .left) }, ?_, Function.update_self .., rfl⟩
    rw [List.length_nil, List.replicate_one, Lts.follow, List.foldlM_cons, step, hi]
    rfl
  | cons id rest ih =>
    obtain ⟨s', hfollow, hleft, hregistry⟩ := ih
      (s := ⟨s.rt.releaseTracked id, Function.update s.conns i (some (.leaving rest)),
        s.log ++ released s.rt.registry (s.rt.releaseTracked id).registry id⟩)
      (Function.update_self ..)
    refine ⟨s', ?_, hleft, hregistry⟩
    rw [List.length_cons, List.replicate_succ, Lts.follow, List.foldlM_cons, step, hi]
    exact hfollow

/-- With nothing in between, a client leaves as `release_connection_objects` has it. -/
theorem follow_disconnect (hi : s.conns i = some (.serving tracked)) :
    ∃ s', Lts.follow (step env) s
        (.disconnect i tracked.ids :: List.replicate (tracked.ids.length + 1) (.cleanUp i)) =
          some s' ∧
      s'.conns i = some .left ∧ s'.rt.registry =
        ({ s.rt with tracked := tracked } : Rt σ ω).releaseConnectionObjects.registry := by
  obtain ⟨s', hfollow, hleft, hregistry⟩ := @follow_cleanUps _ _ env
    { s with conns := Function.update s.conns i (some (.leaving tracked.ids)) } i tracked.ids
    (Function.update_self ..)
  refine ⟨s', ?_, hleft, ?_⟩
  · have hperm : tracked.ids.isPerm tracked.ids = true := List.isPerm_iff.mpr (.refl _)
    rw [Lts.follow, List.foldlM_cons, step, hi]
    dsimp only
    rw [if_pos hperm]
    exact hfollow
  · rw [hregistry, registry_releaseConnectionObjects]

/-- Ids are negative and issued once, and the log counts the references of what is registered.
An id that was issued and is not registered was taken out by its one last release. -/
structure Counted (s : Service σ ω) : Prop where
  issued_once : ∀ id, .issued id ∈ s.log → id.toInt < 0 ∧ s.log.count (.issued id) = 1
  registered : ∀ id obj, s.rt.registry.get id = some obj →
    obj.objectId = id ∧ .issued id ∈ s.log ∧ obj.refCount.toInt = Refs.refs id s.log ∧
      1 ≤ obj.refCount.toInt
  deleted_iff : ∀ id, .issued id ∈ s.log →
    (s.rt.registry.get id = none ↔ s.log.count (.released id true) = 1)
  deleted_once : ∀ id, s.log.count (.released id true) ≤ 1
  at_zero : ∀ before id last after, s.log = before ++ .released id last :: after →
    (last = true ↔ Refs.refs id (before ++ [.released id last]) = 0)
  /-- When the clients are gone and the server has added no references. -/
  none_left : (∀ i c, s.conns i = some c → c = .left) → (∀ id, .retained id ∉ s.log) →
    ∀ id, s.rt.registry.get id = none

theorem Sound.counted (h : Sound s.rt.registry s.conns s.log) : Counted s where
  issued_once id hid :=
    ⟨(h.issued_between id hid).2,
      Nat.le_antisymm (h.tallied.issued_once id) (List.one_le_count_iff.mpr hid)⟩
  registered id obj hobj := by
    have hlive := ObjectRegistry.live_of hobj
    obtain ⟨hcount, hpos⟩ := h.tallied.counted id _ hlive
    exact ⟨h.named id obj hobj, h.tallied.issued_mem hlive, hcount, hpos⟩
  deleted_iff id hid := by
    have hstanding := h.tallied.standing id
    have honce := h.tallied.last_once id
    have hnone : s.rt.registry.live id ≠ none ↔ s.rt.registry.get id ≠ none := by
      rw [ObjectRegistry.live, ne_eq, Option.map_eq_none_iff]
    have hcount : .released id true ∈ s.log ↔ s.log.count (.released id true) = 1 := by
      rw [← List.one_le_count_iff]
      omega
    rw [← hcount]
    rw [hnone] at hstanding
    refine ⟨fun hget => ?_, fun hmem => ?_⟩
    · by_contra hmem
      exact hstanding.mpr ⟨hid, hmem⟩ hget
    · by_contra hget
      exact (hstanding.mp hget).2 hmem
  deleted_once := h.tallied.last_once
  at_zero := h.tallied.last_iff
  none_left hgone hnone id := by
    by_contra hget
    obtain ⟨obj, hobj⟩ := Option.ne_none_iff_exists'.mp hget
    have hlive := ObjectRegistry.live_of hobj
    obtain ⟨hcount, hpos⟩ := h.tallied.counted id _ hlive
    -- nobody is left to hold the id, so that it was released; no reference made up for it
    have hreleased : ∃ last, .released id last ∈ s.log := by
      by_contra hno
      obtain ⟨i, c, hc, hid⟩ := h.held id (h.tallied.issued_mem hlive) (not_exists.mp hno)
      rw [hgone i c hc] at hid
      exact hid
    obtain ⟨last, hmem⟩ := hreleased
    have hretained : s.log.count (.retained id) = 0 := List.count_eq_zero.mpr (hnone id)
    have hone := List.one_le_count_iff.mpr hmem
    rw [hcount, Refs.refs, hretained] at hpos
    cases last with
    | false => omega
    | true => omega

/-- Every state that a service reaches without a wrap of a count and with ids left. -/
theorem counted_of_run {rt : Rt σ ω} {acts : List Act}
    (hrun : Lts.Run (step env) Bounded (.start rt) acts s) (hfew : Refs.issues s.log < 2 ^ 31) :
    Counted s :=
  (sound_run hrun hfew).counted

/-- A service with one class, whose objects have no data. -/
def makerEnv : Env Unit Unit :=
  { bareEnv with factories := AList.singleton 1 fun _ _ s => ⟨s, [], .ok (some ())⟩ }

/-- A client connects and makes an object. -/
def makerActs : List Act :=
  let msg := message .create 1 (encodeObjectCreate 1 0 [])
  [.connect 0, .message 0 msg.hdr (.ofBytes msg.payload)]

theorem makerActs_run {C : Service Unit Unit → Act → Prop} (hC : ∀ act ∈ makerActs, ∀ s, C s act) :
    ∃ s, Lts.Run (step makerEnv) C (.start bareRt) makerActs s ∧
      s.rt.registry = ((ObjectRegistry.empty : ObjectRegistry Unit).add 1 ()).2 ∧
        s.log = [.issued (-1)] := by
  have hfollow : ∃ s, Lts.follow (step makerEnv) (.start bareRt) makerActs = some s ∧
      s.rt.registry = ((ObjectRegistry.empty : ObjectRegistry Unit).add 1 ()).2 ∧
        s.log = [.issued (-1)] := ⟨_, rfl, rfl, rfl⟩
  obtain ⟨s, hf, hr, hl⟩ := hfollow
  exact ⟨s, Lts.Run.nil.follow hC hf, hr, hl⟩

/-- A client makes an object, and the server holds on to it. -/
theorem counted_of_run_makerActs : ∃ s,
    Lts.Run (step makerEnv) Bounded (.start bareRt) (makerActs ++ [.addRef (-1)]) s ∧ Counted s := by
  obtain ⟨s, hrun, hr, hl⟩ := @makerActs_run Bounded fun act hact s => by
    rcases List.mem_pair.mp hact with rfl | rfl
    · trivial
    · trivial
  have hone : Bounded s (.addRef (-1)) := by
    intro obj hobj
    rw [hr] at hobj
    cases hobj
    decide
  obtain ⟨obj, hobj⟩ : ∃ obj, s.rt.registry.get (-1) = some obj := by
    rw [hr]
    exact ⟨_, rfl⟩
  have hrun' := hrun.snoc hone rfl
  refine ⟨_, hrun', counted_of_run hrun' ?_⟩
  rw [ObjectRegistry.addRef, hobj, hl]
  show Refs.issues [.issued (-1), .retained (-1)] < 2 ^ 31
  decide

/-- References that the server adds, however many. -/
theorem addRefs_run {start : Service σ ω} {acts : List Act} {id : Int32} {obj : Obj ω}
    (hrun : Lts.Run (step env) (fun _ _ => True) start acts s)
    (hobj : s.rt.registry.get id = some obj) (n : Nat) :
    ∃ s', Lts.Run (step env) (fun _ _ => True) start (acts ++ List.replicate n (.addRef id)) s' ∧
      s'.rt.registry.get id = some { obj with refCount := obj.refCount + Int32.ofNat n } ∧
        Refs.issues s'.log = Refs.issues s.log := by
  induction n with
  | zero =>
    refine ⟨s, by rwa [List.replicate_zero, List.append_nil], ?_, rfl⟩
    have hzero : Int32.ofNat 0 = 0 := rfl
    rw [hobj, hzero, Int32.add_zero]
  | succ n ih =>
    obtain ⟨s', hrun', hobj', hfew⟩ := ih
    rw [List.replicate_succ', ← List.append_assoc]
    refine ⟨_, hrun'.snoc trivial rfl, ?_, ?_⟩
    · dsimp only
      rw [ObjectRegistry.addRef, hobj']
      dsimp only
      rw [ObjectRegistry.get, ObjectRegistry.put, AList.lookup_insert, Int32.ofNat_add,
        Int32.add_assoc]
      rfl
    · dsimp only
      rw [ObjectRegistry.addRef, hobj', Refs.issues_append, hfew]
      rfl

/-- `2 ^ 31 - 1` references more, and the count of the one object is negative. -/
theorem not_counted_wrapped : ¬ ∀ acts s,
    Lts.Run (step makerEnv) (fun _ _ => True) (.start bareRt) acts s →
      Refs.issues s.log < 2 ^ 31 → Counted s := by
  intro h
  obtain ⟨s, hrun, hr, hl⟩ := @makerActs_run (fun _ _ => True) fun _ _ _ => trivial
  obtain ⟨obj, hobj⟩ : ∃ obj, s.rt.registry.get (-1) = some obj ∧ obj.refCount = 1 := by
    rw [hr]
    exact ⟨_, rfl, rfl⟩
  obtain ⟨s', hrun', hobj', hfew⟩ := addRefs_run hrun hobj.1 (2 ^ 31 - 1)
  have hcounted := h _ s' hrun' (by rw [hfew, hl]; decide)
  have hpos := (hcounted.registered _ _ hobj').2.2.2
  dsimp only at hpos
  rw [hobj.2] at hpos
  exact absurd hpos (by decide)

end Objects

end Song
