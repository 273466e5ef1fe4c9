import Song.Compiler.Classes
import Song.Runtime.Objects
import Song.Subscription.Fanout

/-!
# Notifying the subscribers of a property (`runtime.cpp`, `object.cpp`)

Any number of clients create objects of generated classes, subscribe to their properties, set
them and leave, in any order. `log` is what has happened, the latest first, and says who is
subscribed to a property.

A setter's notification gets to the subscribers through the object's `sub_registry_`, and that is
set by a subscribe message that finds the object. An object that is made after the subscriptions
to it notifies nobody, until some client subscribes to any of its properties once more.
-/

namespace Song

variable {σ ω : Type}

/-! ## Objects of generated classes -/

section
open Compiler

/-- An object by its classes, from its own to the last base, its implementation and its data. -/
structure Instance (σ ω : Type) where
  chain : List ClassDef
  impl : Impl ω σ
  data : ObjectData ω

namespace Instance

/-- Run a function on the object's data. -/
def run (f : ObjectData ω × σ → Ran (ObjectData ω × σ) Note Bytes) (s : Instance σ ω × σ) :
    Ran (Instance σ ω × σ) Note Bytes :=
  let ran := f (s.1.data, s.2)
  ⟨({ s.1 with data := ran.state.1 }, ran.state.2), ran.pushed, ran.out⟩

variable (decode : Ty → Dec Bytes)

/-- What a set stores, and to which property: a setter and a getter that were generated run. -/
def stores (x : Instance σ ω) (id : UInt16) (req : Buffer) : Option Note :=
  match findCase ClassDef.setCases unknownOrReadonly x.chain id with
  | .error _ => none
  | .ok (c, p) =>
    match (decode p.1.type).run req, setHandlers x.chain c p with
    | .ok value _, (.setter _ pos, .getter _ _) => some ⟨memberId pos, value⟩
    | _, _ => none

variable {decode} in
theorem propSet_stores {x : Instance σ ω} {id : UInt16} {req : Buffer} {note : Note}
    (h : x.stores decode id req = some note) (user : σ) :
    ∃ data resp, run (propSet decode x.impl x.chain id req) (x, user) =
      ⟨({ x with data }, user), [note], .ok resp⟩ := by
  unfold stores at h
  split at h
  · cases h
  · next c p hcase =>
    split at h
    · next value rest cls pos cls' pos' hdec hset =>
      cases h
      refine ⟨x.data.set cls pos value, (x.data.set cls pos value).props cls' pos', ?_⟩
      unfold run propSet
      simp only [hcase, hdec, hset, runHandler, Ran.next, List.flatten_cons, List.flatten_nil,
        List.append_nil]
    · cases h

end Instance

/-- The runtime's objects are those of generated classes. -/
def Env.generated (decode : Ty → Dec Bytes) (env : Env σ (Instance σ ω)) :
    Env σ (Instance σ ω) :=
  { env with
    propGet := fun id s => Instance.run (Compiler.propGet s.1.impl s.1.chain id) s
    propSet := fun id req s => Instance.run (Compiler.propSet decode s.1.impl s.1.chain id req) s
    dispatch := fun id req s =>
      Instance.run (Compiler.dispatch decode s.1.impl s.1.chain id req) s }

end
namespace Delivery

/-! ## What has happened -/

inductive Event where
  | created (id : Int32)
  | subscribed (i : Nat) (key : SubscriptionKey)
  | unsubscribed (i : Nat) (key : SubscriptionKey)
  | left (i : Nat)

/-- Client `i` has not left, and its latest subscribe or unsubscribe message for `key` was a
subscribe. -/
def isSubscribed (i : Nat) (key : SubscriptionKey) : List Event → Bool
  | [] => false
  | .created _ :: log => isSubscribed i key log
  | .subscribed j k :: log => (i = j && key = k) || isSubscribed i key log
  | .unsubscribed j k :: log => !(i = j && key = k) && isSubscribed i key log
  | .left j :: log => i ≠ j && isSubscribed i key log

/-- A subscribe message has named the object since it was created. -/
def isWatched (id : Int32) : List Event → Bool
  | [] => false
  | .created id' :: log => id ≠ id' && isWatched id log
  | .subscribed _ key :: log => key.objectId = id || isWatched id log
  | .unsubscribed _ _ :: log => isWatched id log
  | .left _ :: log => isWatched id log

/-- The subscriptions of a log. -/
def roll : List Event → Roll
  | [] => .empty
  | .created _ :: log => roll log
  | .subscribed i key :: log => (roll log).join ⟨key, ⟨i, i⟩⟩
  | .unsubscribed i key :: log => (roll log).keep (· ≠ ⟨i, key⟩)
  | .left i :: log => (roll log).keep (·.subscriber ≠ i)

section
variable {i : Nat} {key : SubscriptionKey} {log : List Event}

theorem mem_roll : ⟨i, key⟩ ∈ (roll log).triples ↔ isSubscribed i key log = true := by
  induction log with
  | nil => simp [roll, isSubscribed, Roll.empty, Roll.triples]
  | cons event log ih =>
    cases event with
    | created id => exact ih
    | subscribed j k =>
      rw [roll, Roll.triples_join, Finset.mem_insert, ih]
      simp [isSubscribed, Subscription.triple]
    | unsubscribed j k =>
      rw [roll, Roll.triples_keep, Finset.mem_filter, ih]
      simp [isSubscribed, and_comm]
    | left j =>
      rw [roll, Roll.triples_keep, Finset.mem_filter, ih]
      simp [isSubscribed, and_comm]

/-- A client subscribes with its own transport. -/
theorem transport_eq_id {x : Subscription} (h : x ∈ (roll log).held) :
    x.sub.transport = x.sub.id := by
  induction log with
  | nil => cases h
  | cons event log ih =>
    cases event with
    | created id => exact ih h
    | subscribed j k =>
      rw [roll, Roll.join] at h
      split at h
      · exact ih h
      · rcases List.mem_append.mp h with h | h
        · exact ih h
        · cases List.mem_singleton.mp h
          rfl
    | unsubscribed j k => exact ih (List.mem_filter.mp h).1
    | left j => exact ih (List.mem_filter.mp h).1

theorem transports_eq : ((roll log).subscribers key).map Subscriber.transport =
    ((roll log).subscribers key).map Subscriber.id :=
  List.map_congr_left fun _ hsub => transport_eq_id (Roll.mem_subscribers.mp hsub)

/-- The transports a notification goes to are those of the subscribed clients, each once. -/
theorem nodup_transports : (((roll log).subscribers key).map Subscriber.transport).Nodup := by
  have h := @Roll.nodup_subscribers (roll log) key
  rw [transports_eq]
  refine List.Nodup.of_map (fun id => (⟨id, key⟩ : Triple)) ?_
  rw [List.map_map]
  exact h

theorem mem_transports : i ∈ ((roll log).subscribers key).map Subscriber.transport ↔
    isSubscribed i key log = true := by
  rw [transports_eq, ← mem_roll, ← Roll.any_subscribers, List.mem_map, List.any_eq_true]
  simp only [beq_iff_eq]

end

/-! ## The service -/

structure Service (σ ω : Type) where
  rt : Rt σ ω
  /-- A client that has left in order is not in the list any more. -/
  conns : Nat → Option Objects.Conn
  log : List Event

/-- A runtime without objects, subscriptions or clients. -/
def Service.start (rt : Rt σ ω) : Service σ ω :=
  ⟨{ rt with registry := .empty, subs := ⟨∅⟩ }, fun _ => none, []⟩

inductive Act where
  | connect (i : Nat)
  /-- Client `i` has sent a create, a subscribe, an unsubscribe or a property set. -/
  | message (i : Nat) (hdr : Header) (payload : Buffer)
  /-- The loop of client `i` is left in order. -/
  | disconnect (i : Nat)

/-- What a message has done, from the registry before and after it. -/
def messageEvents (i : Nat) (hdr : Header) (payload : Buffer) (before after : ObjectRegistry ω) :
    List Event :=
  if hdr.type = .create then
    if after.nextId = before.nextId then [] else [.created before.nextId]
  else
    match decodePropertyHeader.run payload with
    | .error _ _ => []
    | .ok propHdr _ =>
      if hdr.type = .propSubscribe then [.subscribed i ⟨propHdr.objectId, propHdr.propertyId⟩]
      else if hdr.type = .propUnsubscribe then
        [.unsubscribed i ⟨propHdr.objectId, propHdr.propertyId⟩]
      else []

def kinds : List MsgType := [.create, .propSubscribe, .propUnsubscribe, .propSet]

def step (env : Env σ ω) (s : Service σ ω) : Act → Option (Service σ ω)
  | .connect i =>
    match s.conns i with
    | none => some { s with conns := Function.update s.conns i (some (.serving .empty)) }
    | some _ => none
  | .message i hdr payload =>
    match s.conns i with
    | some (.serving tracked) =>
      if hdr.type ∈ kinds then
        let r := Objects.afterMessage ((handleMessage env hdr payload i).run
          { s.rt with tracked := tracked })
        some ⟨r.1, Function.update s.conns i (some r.2),
          messageEvents i hdr payload s.rt.registry r.1.registry ++ s.log⟩
      else none
    | _ => none
  | .disconnect i =>
    match s.conns i with
    | some (.serving tracked) =>
      some ⟨Eff.after (Song.disconnect i) { s.rt with tracked := tracked },
        Function.update s.conns i none, .left i :: s.log⟩
    | _ => none

/-! ## What a message leaves alone -/

/-- The objects of `r'` are those of `r`, as far as who they are and whom they notify. -/
def Kept (r r' : ObjectRegistry ω) : Prop :=
  ∀ id obj', r'.get id = some obj' → ∃ obj, r.get id = some obj ∧
    obj'.objectId = obj.objectId ∧ obj'.subRegistry = obj.subRegistry

namespace Kept

variable {r r' r'' : ObjectRegistry ω}

theorem refl (r : ObjectRegistry ω) : Kept r r := fun _ obj h => ⟨obj, h, rfl, rfl⟩

theorem trans (h : Kept r r') (h' : Kept r' r'') : Kept r r'' := by
  intro id obj'' hobj''
  obtain ⟨obj', hobj', hid', hsub'⟩ := h' id obj'' hobj''
  obtain ⟨obj, hobj, hid, hsub⟩ := h id obj' hobj'
  exact ⟨obj, hobj, hid'.trans hid, hsub'.trans hsub⟩

theorem put {id : Int32} {obj obj' : Obj ω} (h : r.get id = some obj)
    (hid : obj'.objectId = obj.objectId) (hsub : obj'.subRegistry = obj.subRegistry) :
    Kept r (r.put id obj') := by
  intro id' obj'' hobj
  by_cases heq : id' = id
  · subst heq
    rw [ObjectRegistry.get, ObjectRegistry.put, AList.lookup_insert] at hobj
    cases hobj
    exact ⟨obj, h, hid, hsub⟩
  · rw [ObjectRegistry.get, ObjectRegistry.put, AList.lookup_insert_ne heq] at hobj
    exact ⟨obj'', hobj, rfl, rfl⟩

theorem release (r : ObjectRegistry ω) (id : Int32) : Kept r (r.release id) := by
  unfold ObjectRegistry.release
  split
  · exact refl r
  · next obj hobj =>
    split
    · intro id' obj' hobj'
      by_cases heq : id' = id
      · subst heq
        rw [ObjectRegistry.get, AList.lookup_erase] at hobj'
        cases hobj'
      · rw [ObjectRegistry.get, AList.lookup_erase_ne heq] at hobj'
        exact ⟨obj', hobj', rfl, rfl⟩
    · exact put hobj rfl rfl

theorem releaseAll (ids : List Int32) (r : ObjectRegistry ω) :
    Kept r (ids.foldl ObjectRegistry.release r) := by
  induction ids generalizing r with
  | nil => exact refl r
  | cons id ids ih => exact (release r id).trans (ih _)

end Kept

section
variable {env : Env σ ω} {s s' s'' : Rt σ ω}

/-- The subscriptions are as they were, and the objects but for their data. -/
def Steady (s s' : Rt σ ω) : Prop := s'.subs = s.subs ∧ Kept s.registry s'.registry

namespace Steady

theorem frame : IsFrame (Steady : Rt σ ω → Rt σ ω → Prop) where
  aside h := by
    rw [h]
    exact ⟨rfl, .refl _⟩
  trans h h' := ⟨h'.1.trans h.1, h.2.trans h'.2⟩

theorem handlePropSet (hdr : Header) (payload : Buffer) (port : Port) :
    Eff.Within Steady (handlePropSet env hdr payload port) :=
  within_decodeThen frame.refl fun _ _ =>
    frame.handleObject (fun _ _ hobj => ⟨rfl, .put hobj rfl rfl⟩) _ _ _

end Steady

def SameSubs (s s' : Rt σ ω) : Prop := s'.subs = s.subs

namespace SameSubs

theorem frame : IsFrame (SameSubs : Rt σ ω → Rt σ ω → Prop) where
  aside h := by rw [SameSubs, h]
  trans h h' := Eq.trans h' h

/-- Making an object changes no subscription. -/
theorem handleCreate (hdr : Header) (payload : Buffer) (port : Port) :
    Eff.Within SameSubs (handleCreate env hdr payload port) :=
  within_decodeThen frame.refl fun _ _ =>
    frame.tryReport (frame.createBody (fun _ _ _ => rfl) (fun _ _ => rfl) _ _ _ _)

end SameSubs

end

/-! ## What holds of every service -/

/-- The subscriptions are those of the log, and an object notifies them if it is watched. -/
structure Sound (rt : Rt σ ω) (log : List Event) : Prop where
  stores : rt.subs.Stores (roll log)
  watched : ∀ id obj, rt.registry.get id = some obj →
    obj.objectId = id ∧ obj.subRegistry = isWatched id log

namespace Sound

variable {rt rt' : Rt σ ω} {log : List Event} {i : Nat} {key : SubscriptionKey}

theorem start (rt : Rt σ ω) : Sound (Service.start rt).rt (Service.start rt).log :=
  ⟨SubscriptionRegistry.stores_empty, fun _ _ h => by cases h⟩

variable (h : Sound rt log)
include h

theorem steady (h' : Steady rt rt') : Sound rt' log where
  stores := by
    rw [h'.1]
    exact h.stores
  watched id obj' hobj' := by
    obtain ⟨obj, hobj, hid, hsub⟩ := h'.2 id obj' hobj'
    rw [hid, hsub]
    exact h.watched id obj hobj

theorem made (h' : Made rt rt') (hsubs : SameSubs rt rt') :
    Sound rt' ((if rt'.registry.nextId = rt.registry.nextId then []
      else [.created rt.registry.nextId]) ++ log) := by
  rcases h' with ⟨hr, -⟩ | ⟨typeId, data, hr, -⟩
  · rw [if_pos (by rw [hr])]
    refine h.steady ⟨hsubs, ?_⟩
    rw [hr]
    exact .refl _
  · have hnext : rt'.registry.nextId ≠ rt.registry.nextId := by
      rw [hr]
      intro heq
      have hone : (1 : Int32) = 0 := Int32.left_eq_add.mp (Int32.sub_eq_iff_eq_add.mp heq)
      exact absurd hone (by decide)
    rw [if_neg hnext]
    refine ⟨?_, fun id obj hobj => ?_⟩
    · rw [hsubs]
      exact h.stores
    · rw [hr] at hobj
      by_cases hid : id = rt.registry.nextId
      · subst hid
        rw [ObjectRegistry.get, ObjectRegistry.add, AList.lookup_insert] at hobj
        cases hobj
        exact ⟨rfl, by simp [isWatched]⟩
      · rw [ObjectRegistry.get, ObjectRegistry.add, AList.lookup_insert_ne hid] at hobj
        obtain ⟨hobjectId, hsub⟩ := h.watched id obj hobj
        refine ⟨hobjectId, ?_⟩
        rw [hsub]
        simp [isWatched, hid]

theorem subscribe (subscriptions : Finset SubscriptionKey) :
    Sound { rt with
      subscriptions := subscriptions
      subs := rt.subs.subscribe i key.objectId key.propertyId i
      registry := match rt.registry.get key.objectId with
        | none => rt.registry
        | some obj => rt.registry.put key.objectId { obj with subRegistry := true } }
      (.subscribed i key :: log) where
  stores := h.stores.subscribe i key.objectId key.propertyId i
  watched id obj' hobj' := by
    dsimp only at hobj'
    cases hobj : rt.registry.get key.objectId with
    | none =>
      rw [hobj] at hobj'
      have hid : key.objectId ≠ id := by
        rintro rfl
        rw [hobj] at hobj'
        cases hobj'
      obtain ⟨hobjectId, hsub⟩ := h.watched id obj' hobj'
      exact ⟨hobjectId, by simp [isWatched, hid, hsub]⟩
    | some obj =>
      rw [hobj] at hobj'
      dsimp only at hobj'
      by_cases hid : id = key.objectId
      · subst hid
        rw [ObjectRegistry.get, ObjectRegistry.put, AList.lookup_insert] at hobj'
        cases hobj'
        exact ⟨(h.watched _ obj hobj).1, by simp [isWatched]⟩
      · rw [ObjectRegistry.get, ObjectRegistry.put, AList.lookup_insert_ne hid] at hobj'
        obtain ⟨hobjectId, hsub⟩ := h.watched id obj' hobj'
        exact ⟨hobjectId, by simp [isWatched, Ne.symm hid, hsub]⟩

theorem unsubscribe (subscriptions : Finset SubscriptionKey) :
    Sound { rt with
      subscriptions := subscriptions
      subs := rt.subs.unsubscribe i key.objectId key.propertyId }
      (.unsubscribed i key :: log) :=
  ⟨h.stores.unsubscribe i key.objectId key.propertyId, h.watched⟩

theorem disconnect (i : Nat) : Sound (Eff.after (Song.disconnect i) rt) (.left i :: log) := by
  have hregistry := Objects.registry_releaseConnectionObjects rt
  have hsubs : rt.releaseConnectionObjects.subs = rt.subs := by
    have hfold : ∀ (ids : List Int32) (rt : Rt σ ω),
        (ids.foldl Rt.releaseTracked rt).subs = rt.subs := by
      intro ids
      induction ids with
      | nil => exact fun _ => rfl
      | cons id ids ih => exact fun rt => ih _
    exact hfold _ _
  have hsteady : Steady rt rt.releaseConnectionObjects := by
    refine ⟨hsubs, ?_⟩
    rw [hregistry]
    exact .releaseAll _ _
  have hs := h.steady hsteady
  exact ⟨hs.stores.unsubscribeAll i, hs.watched⟩

end Sound

section
variable {env : Env σ ω} {s s' : Service σ ω}

theorem afterMessage_rt (x : Srv σ ω Unit) (rt : Rt σ ω) :
    (Objects.afterMessage (x.run rt)).1 = Eff.after x rt := by
  unfold Objects.afterMessage Eff.after
  cases x.run rt with
  | ok _ rt' => rfl
  | error e rt' => rfl

theorem Sound.message {rt : Rt σ ω} {log : List Event} (h : Sound rt log) (i : Nat) {hdr : Header}
    (payload : Buffer) (ht : hdr.type ∈ kinds) :
    Sound (Eff.after (handleMessage env hdr payload i) rt)
      (messageEvents i hdr payload rt.registry
        (Eff.after (handleMessage env hdr payload i) rt).registry ++ log) := by
  simp only [kinds, List.mem_cons, List.not_mem_nil, or_false] at ht
  rcases ht with ht | ht | ht | ht
  · have hhandler : handleMessage env hdr payload i =
        handleCreate env hdr payload (.transport i) := by
      rw [handleMessage, ht]
      rfl
    rw [hhandler, messageEvents, if_pos ht]
    have hmade : Eff.Within Made (handleCreate env hdr payload (.transport i)) :=
      handleCreate_made hdr payload _
    exact h.made (hmade.after rt) ((SameSubs.handleCreate hdr payload _).after rt)
  · have hhandler : handleMessage env hdr payload i = handleSubscribe payload i := by
      rw [handleMessage, ht]
      rfl
    rw [hhandler, messageEvents, if_neg (by rw [ht]; decide), handleSubscribe]
    cases hd : decodePropertyHeader.run payload with
    | ok propHdr rest =>
      rw [decodeThen_ok hd]
      dsimp only
      rw [if_pos ht]
      exact @Sound.subscribe _ _ _ _ i ⟨propHdr.objectId, propHdr.propertyId⟩ h _
    | error e rest =>
      rw [decodeThen_error hd]
      exact h
  · have hhandler : handleMessage env hdr payload i = handleUnsubscribe payload i := by
      rw [handleMessage, ht]
      rfl
    rw [hhandler, messageEvents, if_neg (by rw [ht]; decide), handleUnsubscribe]
    cases hd : decodePropertyHeader.run payload with
    | ok propHdr rest =>
      rw [decodeThen_ok hd]
      dsimp only
      rw [if_neg (by rw [ht]; decide), if_pos ht]
      exact @Sound.unsubscribe _ _ _ _ i ⟨propHdr.objectId, propHdr.propertyId⟩ h _
    | error e rest =>
      rw [decodeThen_error hd]
      exact h
  · have hhandler : handleMessage env hdr payload i =
        handlePropSet env hdr payload (.transport i) := by
      rw [handleMessage, ht]
      rfl
    have hnone : ∀ r r' : ObjectRegistry ω, messageEvents i hdr payload r r' = [] := by
      intro r r'
      rw [messageEvents, if_neg (by rw [ht]; decide)]
      split
      · rfl
      · rw [if_neg (by rw [ht]; decide), if_neg (by rw [ht]; decide)]
    rw [hhandler, hnone, List.nil_append]
    exact h.steady ((Steady.handlePropSet hdr payload _).after rt)

theorem sound_step {act : Act} (h : Sound s.rt s.log) (hstep : step env s act = some s') :
    Sound s'.rt s'.log := by
  cases act with
  | connect i =>
    simp only [step] at hstep
    split at hstep
    · cases hstep
      exact h
    · cases hstep
  | message i hdr payload =>
    simp only [step] at hstep
    split at hstep
    · next tracked hi =>
      split at hstep
      · next ht =>
        cases hstep
        dsimp only
        rw [afterMessage_rt]
        have htracked : Sound { s.rt with tracked := tracked } s.log := ⟨h.stores, h.watched⟩
        exact htracked.message i payload ht
      · cases hstep
    · cases hstep
  | disconnect i =>
    simp only [step] at hstep
    split at hstep
    · next tracked hi =>
      cases hstep
      have htracked : Sound { s.rt with tracked := tracked } s.log := ⟨h.stores, h.watched⟩
      exact htracked.disconnect i
    · cases hstep

end

/-! ## What a set sends -/

/-- A reply to a request of client `i`. -/
def IsReply (i : Nat) (seq : UInt32) (m : Port × Bytes) : Prop :=
  m.1 = .transport i ∧ ((∃ result, m.2 = createResultMessage seq result) ∨
    ∃ code text, createErrorMessage seq code text = .ok m.2)

/-- From `s` to `s'` nothing but replies to the request was sent. -/
def Replied (i : Nat) (seq : UInt32) (s s' : Rt σ ω) : Prop :=
  ∃ new, s'.sent = s.sent ++ new ∧ ∀ m ∈ new, IsReply i seq m

namespace Replied

variable {env : Env σ ω} {i : Nat} {seq : UInt32} {s s' s'' : Rt σ ω}

theorem trans (h : Replied i seq s s') (h' : Replied i seq s' s'') : Replied i seq s s'' := by
  obtain ⟨new, hs, hn⟩ := h
  obtain ⟨new', hs', hn'⟩ := h'
  exact ⟨new ++ new', by rw [hs', hs, List.append_assoc], List.forall_mem_append.mpr ⟨hn, hn'⟩⟩

theorem send {msg : Bytes} (h : IsReply i seq (.transport i, msg)) :
    Eff.Within (Replied i seq) (reply env (.transport i) msg) := by
  intro s
  unfold Eff.Ends reply transportSend
  simp only [EStateM.run]
  cases env.sendOutcome i s.attempts with
  | none => exact ⟨_, rfl, List.forall_mem_singleton.mpr h⟩
  | some e => exact ⟨[], (List.append_nil _).symm, fun _ hm => nomatch hm⟩

theorem error (code : ErrorCode) (text : Str) :
    Eff.Within (Replied i seq) (sendError env (.transport i) seq code text) := by
  unfold sendError
  cases hmsg : createErrorMessage seq code text with
  | ok msg => exact send ⟨rfl, .inr ⟨code, text, hmsg⟩⟩
  | error e => exact fun s => ⟨[], (List.append_nil _).symm, fun _ hm => nomatch hm⟩

theorem result (code : ErrorCode) (response : Bytes) :
    Eff.Within (Replied i seq) (catchStd
      (reply env (.transport i) (createResultMessage seq response)) fun e =>
        sendError env (.transport i) seq code e.what) :=
  Eff.Within.catchIf (fun h h' => h.trans h') (send ⟨rfl, .inl ⟨response, rfl⟩⟩) fun _ => error _ _

end Replied

section
open Compiler

variable (decode : Ty → Dec Bytes)

/-- The message sets a property of an object by a generated setter, which is to notify of `p`. -/
def Sets (rt : Rt σ (Instance σ ω)) (hdr : Header) (payload : Buffer) (p : Push) : Prop :=
  hdr.type = .propSet ∧ ∃ propHdr value obj note,
    decodePropertyHeader.run payload = .ok propHdr value ∧
      rt.registry.get propHdr.objectId = some obj ∧
        obj.data.stores decode propHdr.propertyId value = some note ∧
          p = ⟨obj.typeId, propHdr.objectId, note.propertyId, note.value⟩

def notice (p : Push) : Bytes :=
  createPropertyNotifyMessage p.typeId p.objectId p.propertyId p.value

/-- However the sends end: besides replies to client `i`, the message has one notification sent to
every client that is subscribed, and to no other. -/
def Announced (env : Env σ ω) (s : Service σ ω) (i : Nat) (hdr : Header) (payload : Buffer)
    (p : Push) : Prop :=
  ∀ sendOutcome tracked, ∃ tps : List TransportPtr, tps.Nodup ∧
    (∀ j, j ∈ tps ↔ isSubscribed j ⟨p.objectId, p.propertyId⟩ s.log = true) ∧
      ∃ replies, (Eff.after (handleMessage { env with sendOutcome := sendOutcome } hdr payload i)
          { s.rt with tracked := tracked }).sent =
        s.rt.sent ++ delivered { env with sendOutcome := sendOutcome } (notice p) s.rt.attempts
          tps ++ replies ∧ ∀ m ∈ replies, IsReply i hdr.sequenceId m

/-- Every set is announced. -/
def Notified (env : Env σ (Instance σ ω)) (s : Service σ (Instance σ ω)) : Act → Prop
  | .message i hdr payload => ∀ p, Sets decode s.rt hdr payload p → Announced env s i hdr payload p
  | .connect _ | .disconnect _ => True

/-- Where a property is set, the object is watched, or nobody is subscribed to the property. -/
def Heard (s : Service σ (Instance σ ω)) : Act → Prop
  | .message _ hdr payload => ∀ p, Sets decode s.rt hdr payload p →
    isWatched p.objectId s.log = true ∨
      ∀ j, isSubscribed j ⟨p.objectId, p.propertyId⟩ s.log = false
  | .connect _ | .disconnect _ => True

variable {decode} {env : Env σ (Instance σ ω)} {hdr : Header} {payload : Buffer} {p : Push}

/-- Whom the object notifies: those who are subscribed, if it is watched. -/
def reached (p : Push) (log : List Event) : List TransportPtr :=
  if isWatched p.objectId log then
    ((roll log).subscribers ⟨p.objectId, p.propertyId⟩).map Subscriber.transport
  else []

/-- `rt` with the notification sent. -/
def noticed (env : Env σ ω) (p : Push) (log : List Event) (rt : Rt σ ω) : Rt σ ω :=
  { rt with
    attempts := rt.attempts + (reached p log).length
    sent := rt.sent ++ delivered env (notice p) rt.attempts (reached p log) }

theorem Sound.notifies {env : Env σ ω} {rt s : Rt σ ω} {log : List Event} {id : Int32}
    {obj : Obj ω} {note : Note} (h : Sound rt log) (hobj : rt.registry.get id = some obj)
    (hp : p = ⟨obj.typeId, id, note.propertyId, note.value⟩) (hsubs : s.subs = rt.subs) :
    (notifyAll env ([note].filterMap obj.push)).run s = .ok () (noticed env p log s) := by
  obtain ⟨hid, hsub⟩ := h.watched id obj hobj
  subst hp
  unfold noticed reached
  dsimp only
  cases hw : isWatched id log with
  | false =>
    have hpush : [note].filterMap obj.push = [] := by simp [Obj.push, hsub, hw]
    rw [hpush, if_neg Bool.false_ne_true, delivered, List.append_nil]
    rfl
  | true =>
    have hpush : [note].filterMap obj.push = [⟨obj.typeId, id, note.propertyId, note.value⟩] := by
      simp [Obj.push, hsub, hw, hid]
    have hsend := @sendEach_run _ _ env (notice ⟨obj.typeId, id, note.propertyId, note.value⟩)
      (s.subs.targets id note.propertyId) s
    have htargets : s.subs.targets id note.propertyId =
        ((roll log).subscribers ⟨id, note.propertyId⟩).map Subscriber.transport := by
      rw [hsubs, SubscriptionRegistry.targets, h.stores.bucket]
    rw [hpush, if_pos rfl, ← htargets]
    exact Eff.run_bind_ok hsend

variable (env) in
theorem Sets.sent {rt : Rt σ (Instance σ ω)} {log : List Event}
    (h : Sets decode rt hdr payload p) (hs : Sound rt log) (i : Nat) :
    ∃ replies, (Eff.after (handleMessage (env.generated decode) hdr payload i) rt).sent =
      rt.sent ++ delivered (env.generated decode) (notice p) rt.attempts (reached p log) ++
        replies ∧ ∀ m ∈ replies, IsReply i hdr.sequenceId m := by
  obtain ⟨ht, propHdr, value, obj, note, hd, hobj, hstores, hp⟩ := h
  obtain ⟨data, response, hset⟩ := Instance.propSet_stores hstores rt.user
  have hvirtual : (runVirtual (env.generated decode) propHdr.objectId obj
      ((env.generated decode).propSet propHdr.propertyId value)).run rt = .ok response
        (noticed (env.generated decode) p log { rt with
          registry := rt.registry.put propHdr.objectId
            { obj with data := { obj.data with data := data } } }) := by
    have hrun : (env.generated decode).propSet propHdr.propertyId value (obj.data, rt.user) =
        ⟨({ obj.data with data := data }, rt.user), [note], .ok response⟩ := hset
    unfold runVirtual
    simp only [EStateM.run]
    rw [hrun]
    exact Eff.run_bind_ok (hs.notifies hobj hp rfl)
  have hhandler : handleMessage (env.generated decode) hdr payload i =
      handlePropSet (env.generated decode) hdr payload (.transport i) := by
    rw [handleMessage, ht]
    rfl
  -- what is left of the `try` is the reply
  have hreply : (handleMessage (env.generated decode) hdr payload i).run rt =
      (catchStd (reply (env.generated decode) (.transport i)
        (createResultMessage hdr.sequenceId response)) fun e =>
          sendError (env.generated decode) (.transport i) hdr.sequenceId .propertyError e.what).run
        (noticed (env.generated decode) p log { rt with
          registry := rt.registry.put propHdr.objectId
            { obj with data := { obj.data with data := data } } }) := by
    rw [hhandler, handlePropSet, decodeThen_ok hd]
    refine Eff.run_catchIf_congr ?_
    unfold objectBody
    simp only [EStateM.run]
    rw [hobj]
    exact Eff.run_bind_ok hvirtual
  rw [Eff.after_congr hreply]
  exact (Replied.result _ response).after _

theorem IsReply.ne_notice {i : Nat} {seq : UInt32} {m : Port × Bytes} (h : IsReply i seq m) :
    m.2 ≠ notice p := by
  have htype : ∀ (type : MsgType) (seq : UInt32) (body : Bytes),
      (createMessage type seq body)[5]? = some type.code := fun _ _ _ => rfl
  intro hm
  have hnotify : m.2[5]? = some MsgType.propNotify.code := by
    rw [hm]
    exact htype _ _ _
  obtain ⟨-, ⟨result, hr⟩ | ⟨code, text, he⟩⟩ := h
  · rw [hr] at hnotify
    exact absurd ((htype _ _ _).symm.trans hnotify) (by decide)
  · unfold createErrorMessage at he
    cases htext : encodeString text with
    | ok b =>
      rw [htext] at he
      rw [← Except.ok.inj he] at hnotify
      exact absurd ((htype _ _ _).symm.trans hnotify) (by decide)
    | error e =>
      rw [htext] at he
      cases he

variable {s : Service σ (Instance σ ω)}

theorem Sets.announced_iff (h : Sets decode s.rt hdr payload p) (hs : Sound s.rt s.log) (i : Nat) :
    Announced (env.generated decode) s i hdr payload p ↔
      isWatched p.objectId s.log = true ∨
        ∀ j, isSubscribed j ⟨p.objectId, p.propertyId⟩ s.log = false := by
  -- what is sent, whatever comes of the sends
  have hsent : ∀ sendOutcome tracked, ∃ replies, (Eff.after (handleMessage
        { env.generated decode with sendOutcome := sendOutcome } hdr payload i)
        { s.rt with tracked := tracked }).sent =
      s.rt.sent ++ delivered { env.generated decode with sendOutcome := sendOutcome } (notice p)
        s.rt.attempts (reached p s.log) ++ replies ∧ ∀ m ∈ replies, IsReply i hdr.sequenceId m := by
    intro sendOutcome tracked
    have htracked : Sound { s.rt with tracked := tracked } s.log := ⟨hs.stores, hs.watched⟩
    have hsets : Sets decode { s.rt with tracked := tracked } hdr payload p := h
    exact hsets.sent { env with sendOutcome := sendOutcome } htracked i
  constructor
  · intro hann
    by_contra hnot
    obtain ⟨hw, hsub⟩ := not_or.mp hnot
    obtain ⟨j, hj⟩ := not_forall.mp hsub
    have hnone : reached p s.log = [] := if_neg hw
    obtain ⟨tps, -, hmem, replies, heq, -⟩ := hann (fun _ _ => none) s.rt.tracked
    obtain ⟨replies', heq', hreplies⟩ := hsent (fun _ _ => none) s.rt.tracked
    have hjt : j ∈ tps := (hmem j).mpr (Bool.not_eq_false _ ▸ hj)
    rw [heq', hnone, delivered_eq (fun _ _ => rfl), delivered_eq (fun _ _ => rfl), List.map_nil,
      List.append_nil, List.append_assoc] at heq
    have hin : (Port.transport j, notice p) ∈ replies' := by
      rw [List.append_cancel_left heq]
      exact List.mem_append_left _ (List.mem_map_of_mem hjt)
    exact (hreplies _ hin).ne_notice rfl
  · intro hheard sendOutcome tracked
    obtain ⟨replies, heq, hreplies⟩ := hsent sendOutcome tracked
    refine ⟨reached p s.log, ?_, fun j => ?_, replies, heq, hreplies⟩
    · unfold reached
      split
      · exact nodup_transports
      · exact List.nodup_nil
    · unfold reached
      split
      · exact mem_transports
      · next hw =>
        rw [hheard.resolve_left hw j]
        simp

theorem notified_iff_heard (hs : Sound s.rt s.log) (act : Act) :
    Notified decode (env.generated decode) s act ↔ Heard decode s act := by
  cases act with
  | message i hdr payload =>
    exact forall_congr' fun p => forall_congr' fun h => h.announced_iff hs i
  | connect i => exact Iff.rfl
  | disconnect i => exact Iff.rfl

/-- In every history of a service with objects of generated classes: a set that stores a value is
announced once to every client whose latest subscribe or unsubscribe message for the property was
a subscribe, and to no other, exactly if a subscribe message has named the object since it was
created, or nobody is subscribed to the property. -/
theorem notified_run_iff (decode : Ty → Dec Bytes) (env : Env σ (Instance σ ω))
    (rt : Rt σ (Instance σ ω)) (acts : List Act) (s : Service σ (Instance σ ω)) :
    Lts.Run (step (env.generated decode)) (Notified decode (env.generated decode)) (.start rt) acts
        s ↔
      Lts.Run (step (env.generated decode)) (Heard decode) (.start rt) acts s := by
  have hsteps : ∀ (t : Service σ (Instance σ ω)) (act : Act) (t' : Service σ (Instance σ ω)),
      Sound t.rt t.log → step (env.generated decode) t act = some t' → Sound t'.rt t'.log :=
    fun _ _ _ ht hstep => sound_step ht hstep
  constructor
  · intro hrun
    exact hrun.congr (fun t => Sound t.rt t.log) (.start rt) hsteps
      fun t act _ ht _ => (notified_iff_heard ht act).mp
  · intro hrun
    exact hrun.congr (fun t => Sound t.rt t.log) (.start rt) hsteps
      fun t act _ ht _ => (notified_iff_heard ht act).mpr

end

/-! ## A subscription that comes first -/

/-- A class with one property, of one byte. -/
def lamp : Compiler.ClassDef where
  name := lit "Lamp"
  properties := [{ name := lit "level", type := { base := .primitive .u8 } }]
  methods := []

def decodeByte (_ : Compiler.Ty) : Dec Bytes := do
  let b ← decodeU8
  return encodeU8 b

/-- A service that makes lamps. -/
def lampEnv : Env Unit (Instance Unit Unit) where
  dispatchers := ∅
  streamDispatchers := ∅
  factories := AList.singleton 1 fun _ _ s =>
    ⟨s, [], .ok (some ⟨[lamp], fun _ _ _ s => ⟨s, [], .ok []⟩, fun _ _ => [0], ()⟩)⟩
  propGet := fun _ s => ⟨s, [], .ok []⟩
  propSet := fun _ _ s => ⟨s, [], .ok []⟩
  dispatch := fun _ _ s => ⟨s, [], .ok []⟩
  methods := []
  localCapabilities := 0
  sendOutcome := fun _ _ => none
  writeOutcome := fun _ => true

def lampRt : Rt Unit (Instance Unit Unit) := ⟨.empty, ⟨∅⟩, (), .empty, ∅, [], 0, []⟩

def Act.of (i : Nat) (f : Frame) : Act := .message i f.hdr (.ofBytes f.payload)

/-- A client subscribes to the level of the first lamp, and one makes it. -/
def lampActs : List Act :=
  [.connect 0, .connect 1, .of 0 (message .propSubscribe 1 (encodePropertySet 1 (-1) 1 [])),
    .of 1 (message .create 2 (encodeObjectCreate 1 0 []))]

def dimming : Frame := message .propSet 3 (encodePropertySet 1 (-1) 1 [7])

theorem lampActs_follow : ∃ s, Lts.follow (step (lampEnv.generated decodeByte)) (.start lampRt)
    lampActs = some s ∧ s.log = [.created (-1), .subscribed 0 ⟨-1, 1⟩] ∧
      Sets decodeByte s.rt dimming.hdr (.ofBytes dimming.payload) ⟨1, -1, 1, [7]⟩ ∧
        ∃ s', step (lampEnv.generated decodeByte) s (.of 1 dimming) = some s' := by
  exact ⟨_, rfl, rfl, ⟨rfl, _, _, _, ⟨1, [7]⟩, rfl, rfl, rfl, rfl⟩, _, rfl⟩

/-- The lamp's level is set, and the client that subscribed to it is not told. -/
theorem unwatched_not_notified : ¬ ∀ (acts : List Act) (s : Service Unit (Instance Unit Unit)),
    Lts.Run (step (lampEnv.generated decodeByte)) (fun _ _ => True) (.start lampRt) acts s →
      Lts.Run (step (lampEnv.generated decodeByte))
        (Notified decodeByte (lampEnv.generated decodeByte)) (.start lampRt) acts s := by
  intro h
  obtain ⟨s, hfollow, hlog, hsets, s', hstep⟩ := lampActs_follow
  have hrun : Lts.Run (step (lampEnv.generated decodeByte)) (fun _ _ => True) (.start lampRt)
      lampActs s := Lts.Run.nil.follow (fun _ _ _ => trivial) hfollow
  obtain ⟨t, hrun', hnotified, -⟩ := (h _ s' (hrun.snoc trivial hstep)).snoc_cases
  cases hfollow.symm.trans hrun'.follow_eq
  have hsound : Sound s.rt s.log := hrun.invariant (fun s => Sound s.rt s.log) (.start lampRt)
    fun _ _ _ hs _ hstep => sound_step hs hstep
  rcases (hsets.announced_iff hsound 1).mp (hnotified _ hsets) with hwatched | hnobody
  · rw [hlog] at hwatched
    exact absurd hwatched (by decide)
  · have hzero := hnobody 0
    rw [hlog] at hzero
    exact absurd hzero (by decide)

end Delivery

end Song
