import Song.Lib.Run
import Song.Runtime.Objects
import Song.Runtime.Returns

/-!
# What lasts of an object's data

Between two requests of a client a service takes messages of any clients, and clients leave. A
property of an object's data that its functions keep holds as long as the object is registered:
`Has.run` carries it over every such run. The functions that need not keep it are sets of some
of the object's properties, which the run then has to spare.
-/

namespace Song

variable {σ ω : Type}

/-- What is registered under an id, if anything is, has data with the property. -/
def Has (objectId : Int32) (P : ω → Prop) (s : Rt σ ω) : Prop :=
  ∀ obj, s.registry.get objectId = some obj → P obj.data

/-- What happens to a service between two requests of a client. `tracked` is a local of the loop
that it happens in. -/
inductive Happening where
  | message (tp : TransportPtr) (tracked : IdSet) (hdr : Header) (payload : Buffer)
  | disconnect (tp : TransportPtr) (tracked : IdSet)

def happen (env : Env σ ω) (s : Rt σ ω) : Happening → Option (Rt σ ω)
  | .message tp tracked hdr payload =>
    some (Eff.after (handleMessage env hdr payload tp) { s with tracked := tracked })
  | .disconnect tp tracked => some (Eff.after (disconnect tp) { s with tracked := tracked })

/-- The id is not issued again, and only spared properties of its object are set. -/
def Spares (objectId : Int32) (spared : UInt16 → Prop) (s : Rt σ ω) : Happening → Prop
  | .message _ _ hdr payload =>
    (hdr.type = .create → s.registry.nextId ≠ objectId) ∧
      (hdr.type = .propSet → Decoded decodePropertyHeader payload fun propHdr _ =>
        propHdr.objectId = objectId → spared propHdr.propertyId)
  | .disconnect _ _ => True

/-- The functions of objects keep the property of the data. -/
structure Env.Keeps (env : Env σ ω) (P : ω → Prop) (spared : UInt16 → Prop) : Prop where
  propGet : ∀ id data user, P data → P (env.propGet id (data, user)).state.1
  propSet : ∀ id req data user, spared id → P data → P (env.propSet id req (data, user)).state.1
  dispatch : ∀ id req data user, P data → P (env.dispatch id req (data, user)).state.1

section
variable {env : Env σ ω} {objectId : Int32} {P : ω → Prop} {spared : UInt16 → Prop}
  {s s' : Rt σ ω}

/-- `Has` holds after if it did before. -/
def KeepsHas (objectId : Int32) (P : ω → Prop) (s s' : Rt σ ω) : Prop :=
  Has objectId P s → Has objectId P s'

namespace KeepsHas

theorem of_registry (h : s'.registry = s.registry) : KeepsHas objectId P s s' := by
  intro hs
  rw [Has, h]
  exact hs

theorem frame : IsFrame (KeepsHas objectId P : Rt σ ω → Rt σ ω → Prop) where
  aside h := of_registry (by rw [h])
  trans h h' hs := h' (h hs)

theorem put {id : Int32} {obj : Obj ω} (hr : s'.registry = s.registry.put id obj)
    (h : Has objectId P s → id = objectId → P obj.data) : KeepsHas objectId P s s' := by
  intro hs obj' hobj'
  rw [hr] at hobj'
  by_cases hid : id = objectId
  · subst hid
    rw [ObjectRegistry.get, ObjectRegistry.put, AList.lookup_insert] at hobj'
    cases hobj'
    exact h hs rfl
  · rw [ObjectRegistry.get, ObjectRegistry.put, AList.lookup_insert_ne (Ne.symm hid)] at hobj'
    exact hs obj' hobj'

theorem release {id : Int32} (hr : s'.registry = s.registry.release id) :
    KeepsHas objectId P s s' := by
  unfold ObjectRegistry.release at hr
  split at hr
  · exact of_registry hr
  · next obj hobj =>
    split at hr
    · intro hs obj' hobj'
      rw [hr] at hobj'
      by_cases hid : id = objectId
      · subst hid
        rw [ObjectRegistry.get, AList.lookup_erase] at hobj'
        cases hobj'
      · rw [ObjectRegistry.get, AList.lookup_erase_ne (Ne.symm hid)] at hobj'
        exact hs obj' hobj'
    · refine put hr fun hs hid => ?_
      subst hid
      exact hs obj hobj

theorem handleObject {id : Int32} {f : ω × σ → Ran (ω × σ) Note Bytes}
    (hf : id = objectId → ∀ data user, P data → P (f (data, user)).state.1)
    (seq : UInt32) (port : Port) (code : ErrorCode) :
    Eff.Within (KeepsHas objectId P) (handleObject env seq port code id f) := by
  refine frame.handleObject (fun s obj hobj => put rfl fun hs hid => ?_) seq port code
  subst hid
  exact hf rfl _ _ (hs obj hobj)

theorem disconnect (tp : TransportPtr) :
    Eff.Within (KeepsHas objectId P) (disconnect tp : Srv σ ω Unit) := by
  refine Eff.Within.bind (R := KeepsHas objectId P) frame.trans (fun s => ?_) fun _ =>
    Eff.Within.modify fun s => of_registry rfl
  have hfold : ∀ (ids : List Int32) (s : Rt σ ω),
      KeepsHas objectId P s (ids.foldl Rt.releaseTracked s) := by
    intro ids
    induction ids with
    | nil => exact frame.refl
    | cons id ids ih => exact fun s => frame.trans (release rfl) (ih (s.releaseTracked id))
  exact frame.trans (hfold s.tracked.ids s) (of_registry rfl)

theorem made (hid : s.registry.nextId ≠ objectId) (h : Made s s') : KeepsHas objectId P s s' := by
  obtain ⟨hr, -⟩ | ⟨typeId, data, hr, -⟩ := h
  · exact of_registry hr
  · intro hs obj hobj
    rw [hr, ObjectRegistry.get, ObjectRegistry.add, AList.lookup_insert_ne (Ne.symm hid)] at hobj
    exact hs obj hobj

theorem handleMessage (hk : env.Keeps P spared) {tp : TransportPtr} {tracked : IdSet}
    {hdr : Header} {payload : Buffer}
    (hsp : Spares objectId spared s (.message tp tracked hdr payload)) :
    KeepsHas objectId P s (Eff.after (handleMessage env hdr payload tp) s) := by
  obtain ⟨hcreate, hset⟩ := hsp
  unfold Song.handleMessage
  split
  · refine (within_decodeThen frame.refl fun propHdr _ => Eff.Within.modify fun s => ?_).after s
    cases hobj : s.registry.get propHdr.objectId with
    | none => exact of_registry rfl
    | some obj =>
      refine put rfl fun hs hid => ?_
      subst hid
      exact hs obj hobj
  split
  · refine (within_decodeThen frame.refl fun propHdr _ => Eff.Within.modify fun s => ?_).after s
    exact of_registry rfl
  split
  · exact (frame.within (Aside.handleCall hdr payload _)).after s
  split
  · next hc => exact made (hcreate hc) ((handleCreate_made hdr payload _).after s)
  split
  · exact (within_decodeThen frame.refl fun _ _ => Eff.Within.modify fun _ => release rfl).after s
  split
  · exact (within_decodeThen frame.refl fun propHdr _ =>
      handleObject (fun _ => hk.propGet propHdr.propertyId) _ _ _).after s
  split
  · next hs =>
    unfold handlePropSet
    cases hd : decodePropertyHeader.run payload with
    | error e rest =>
      rw [decodeThen_error hd]
      exact frame.refl s
    | ok propHdr value =>
      rw [decodeThen_ok hd]
      exact (handleObject (fun hid data user =>
        hk.propSet propHdr.propertyId value data user (hset hs propHdr value hd hid)) _ _ _).after s
  split
  · exact (within_decodeThen frame.refl fun methodHdr args =>
      handleObject (fun _ => hk.dispatch methodHdr.methodId args) _ _ _).after s
  · exact frame.refl s

end KeepsHas

theorem Has.happen (hk : env.Keeps P spared) (h : Has objectId P s) {x : Happening}
    (hsp : Spares objectId spared s x) (hx : happen env s x = some s') : Has objectId P s' := by
  cases x with
  | message tp tracked hdr payload =>
    cases hx
    have hspares : Spares objectId spared { s with tracked := tracked }
        (.message tp tracked hdr payload) := hsp
    exact KeepsHas.handleMessage hk hspares h
  | disconnect tp tracked =>
    cases hx
    exact (KeepsHas.disconnect tp).after _ h

theorem Has.run (hk : env.Keeps P spared) (h : Has objectId P s) {xs : List Happening}
    (hrun : Lts.Run (Song.happen env) (Spares objectId spared) s xs s') : Has objectId P s' :=
  hrun.invariant (Has objectId P) h fun _ _ _ ht hsp hx => ht.happen hk hsp hx

end

end Song
