import Song.Connection.Reply
import Song.Handshake
import Song.Lib.Owned
import Song.Lib.Run
import Song.Lib.Table

/-!
# Connections that move (`process.cpp`)

`ServiceConnection` objects are made, subscribed on, moved from one to another and destroyed in
any order. The ledger says which connection lives in which object, and of each connection the
calls of `subscribe_property` and `unsubscribe_property` made on it. A notification should invoke
the callback of the latest subscription of its connection (`Delivers`). The moves carry every
member except `prop_callbacks_`, so that is lost exactly at a move of a connection between
objects whose callbacks differ (`delivers_iff`).
-/

namespace Song

variable {κ : Type}

namespace ServiceConnection

/-- Where a request goes: `proc_` if there is one, else `transport_`. -/
def channel (conn : ServiceConnection κ) : Option (ProcPtr ⊕ TransportPtr) :=
  match conn.proc with
  | some proc => some (.inl proc)
  | none => conn.transport.map .inr

/-- What the operations of `Conn` see of the object. -/
def toConn (conn : ServiceConnection κ) : Conn κ :=
  ⟨conn.nextSeq, conn.propCallbacks, [], 0, [], [], []⟩

/-- The object and the request it sends. -/
def subscribeProperty (conn : ServiceConnection κ) (typeId : UInt32) (key : SubscriptionKey)
    (callback : κ) : ServiceConnection κ × Option ((ProcPtr ⊕ TransportPtr) × Bytes) :=
  ({ conn with propCallbacks := conn.propCallbacks.insert key callback },
    conn.channel.map fun ch =>
      (ch, createPropertySubscribeMessage typeId key.objectId key.propertyId))

def unsubscribeProperty (conn : ServiceConnection κ) (typeId : UInt32) (key : SubscriptionKey) :
    ServiceConnection κ × Option ((ProcPtr ⊕ TransportPtr) × Bytes) :=
  ({ conn with propCallbacks := conn.propCallbacks.erase key },
    conn.channel.map fun ch =>
      (ch, createPropertyUnsubscribeMessage typeId key.objectId key.propertyId))

end ServiceConnection

namespace ConnectionMoves

/-- What a `ServiceConnection` is made on: a process, a transport it borrows or one it owns. -/
inductive Endpoint where
  | process (proc : ProcPtr)
  | borrowed (transport : TransportPtr)
  | owned (transport : TransportPtr)

def Endpoint.connection : Endpoint → ServiceConnection κ
  | process proc => .ofProcess proc
  | borrowed transport => ⟨none, some transport, none, 1, 0, 0, 0, 0, [], ∅⟩
  | owned transport => .ofTransport transport

/-- The default constructor. -/
def unconnected : ServiceConnection κ := ⟨none, none, none, 1, 0, 0, 0, 0, [], ∅⟩

/-- An operation on the objects, which have addresses. -/
inductive Op (κ : Type) where
  | construct (x : Nat) (endpoint : Option Endpoint)
  | subscribe (x : Nat) (typeId : UInt32) (key : SubscriptionKey) (callback : κ)
  | unsubscribe (x : Nat) (typeId : UInt32) (key : SubscriptionKey)
  | moveConstruct (x y : Nat)
  | moveAssign (x y : Nat)
  | destroy (x : Nat)

structure Sys (κ : Type) where
  objects : Nat → Option (ServiceConnection κ)
  /-- The requests, in order. -/
  sent : List ((ProcPtr ⊕ TransportPtr) × Bytes)

namespace Sys

def start : Sys κ := ⟨fun _ => none, []⟩

def set (s : Sys κ) (x : Nat) (conn : Option (ServiceConnection κ)) : Sys κ :=
  { s with objects := Function.update s.objects x conn }

theorem set_set (s : Sys κ) (x : Nat) (v v' : Option (ServiceConnection κ)) :
    (s.set x v).set x v' = s.set x v' := by
  simp only [set, Function.update_idem]

/-- Keep the object and send the request. -/
def request (s : Sys κ) (x : Nat)
    (r : ServiceConnection κ × Option ((ProcPtr ⊕ TransportPtr) × Bytes)) : Sys κ :=
  { s.set x (some r.1) with sent := s.sent ++ r.2.toList }

end Sys

/-- An object can only be made where there is none, and used where there is one. -/
def step (s : Sys κ) : Op κ → Option (Sys κ)
  | .construct x endpoint =>
    match s.objects x with
    | some _ => none
    | none => some (s.set x (some ((endpoint.map Endpoint.connection).getD unconnected)))
  | .subscribe x typeId key callback =>
    (s.objects x).map fun conn => s.request x (conn.subscribeProperty typeId key callback)
  | .unsubscribe x typeId key =>
    (s.objects x).map fun conn => s.request x (conn.unsubscribeProperty typeId key)
  | .moveConstruct x y =>
    match s.objects x, s.objects y with
    | none, some other =>
      some ((s.set x (some other.moveConstruct.1)).set y (some other.moveConstruct.2))
    | _, _ => none
  | .moveAssign x y =>
    match s.objects x, s.objects y with
    | some this, some other =>
      if x = y then some s
      else some ((s.set x (some (this.moveAssign other).1)).set y (some (this.moveAssign other).2))
    | _, _ => none
  | .destroy x => (s.objects x).map fun _ => s.set x none

/-! ## The ledger -/

/-- The calls on a connection: a subscription with its callback, or the end of one. -/
abbrev Calls (κ : Type) := List (SubscriptionKey × Option κ)

/-- The callback of the latest subscription, if it was not ended. -/
def latest (calls : Calls κ) (key : SubscriptionKey) : Option κ := (Table.last calls key).join

theorem latest_append (calls : Calls κ) (key key' : SubscriptionKey) (call : Option κ) :
    latest (calls ++ [(key', call)]) key = if key = key' then call else latest calls key := by
  unfold latest
  rw [Table.last_append]
  by_cases hk : key = key'
  · subst hk
    rw [if_pos rfl]
    have h : Table.last [(key, call)] key = some call := by
      simp [Table.last]
    rw [h]
    rfl
  · have h : Table.last [(key', call)] key = none := by
      rw [Table.last_eq_none_iff]
      simp [hk]
    rw [if_neg hk, h]
    rfl

/-- Which connection lives in which object, and the calls on each. -/
abbrev Ledger (κ : Type) := Owned.State Nat (Calls κ)

namespace Ledger

/-- A constructed object without an endpoint has no connection, and a connection whose object is
destroyed or assigned to lives nowhere any more. -/
def apply (led : Ledger κ) : Op κ → Ledger κ
  | .construct x endpoint => if endpoint.isSome then led.put x [] else led
  | .subscribe x _ key callback => led.alter x (· ++ [(key, some callback)])
  | .unsubscribe x _ key => led.alter x (· ++ [(key, none)])
  | .moveConstruct x y => led.move x y
  | .moveAssign x y => if x = y then led else (led.retire x id).move x y
  | .destroy x => led.retire x id

def after (ops : List (Op κ)) : Ledger κ := ops.foldl apply Owned.empty

theorem after_snoc (ops : List (Op κ)) (op : Op κ) : after (ops ++ [op]) = (after ops).apply op :=
  List.foldl_append

end Ledger

/-- If a connection lives in `x`, of which these are the calls and which is in the object `v`,
then `P` holds of the two. -/
def Living (led : Ledger κ) (P : ServiceConnection κ → Calls κ → Prop) (x : Nat)
    (v : Option (ServiceConnection κ)) : Prop :=
  ∀ conn k calls, v = some conn → led.holds x = some k → led.items[k]? = some calls → P conn calls

/-- A notification, whatever its value, invokes the callback of the latest subscription, and
nothing else. -/
def Answers (conn : ServiceConnection κ) (calls : Calls κ) : Prop :=
  ∀ pre typeId key reserved value,
    (dispatchNotification (.cut pre (propertyPayload typeId key reserved value))).run conn.toConn =
      .ok () { conn.toConn with
        invoked := (latest calls key).toList.map fun callback => (callback, value) }

/-- Every object answers a notification on its connection. -/
def Delivers (led : Ledger κ) (s : Sys κ) : Prop := ∀ x, Living led Answers x (s.objects x)

/-- The callbacks are those of the latest subscriptions. -/
def Agrees (conn : ServiceConnection κ) (calls : Calls κ) : Prop :=
  ∀ key, conn.propCallbacks.lookup key = latest calls key

theorem dispatch_run (conn : ServiceConnection κ) (pre : Bytes) (typeId : UInt32)
    (key : SubscriptionKey) (reserved : UInt16) (value : Bytes) :
    (dispatchNotification (.cut pre (propertyPayload typeId key reserved value))).run conn.toConn =
      .ok () { conn.toConn with invoked :=
        (conn.propCallbacks.lookup key).toList.map fun callback => (callback, value) } := by
  rw [dispatchNotification_run, Conn.notified, List.filterMap_cons, List.filterMap_nil,
    Conn.invocation]
  have hc : conn.toConn.propCallbacks = conn.propCallbacks := rfl
  rw [hc]
  cases conn.propCallbacks.lookup key with
  | none => rfl
  | some callback => rfl

theorem answers_iff_agrees (conn : ServiceConnection κ) (calls : Calls κ) :
    Answers conn calls ↔ Agrees conn calls := by
  constructor
  · intro h key
    have hd := h [] 0 key 0 []
    rw [dispatch_run] at hd
    injection hd with _ hd
    have hi := congrArg Conn.invoked hd
    have hinj : Function.Injective fun callback : κ => (callback, ([] : Bytes)) :=
      fun _ _ he => (Prod.mk.inj he).1
    have hh := congrArg List.head? (List.map_injective_iff.mpr hinj hi)
    rwa [Option.head?_toList, Option.head?_toList] at hh
  · intro h pre typeId key reserved value
    rw [dispatch_run, h key]

theorem answers_eq_agrees : (Answers : ServiceConnection κ → Calls κ → Prop) = Agrees :=
  funext fun conn => funext fun calls => propext (answers_iff_agrees conn calls)

/-! ## One operation -/

/-- The objects' callbacks are those of the latest subscriptions. -/
def Current (led : Ledger κ) (s : Sys κ) : Prop := ∀ x, Living led Agrees x (s.objects x)

/-- An object has a channel exactly if a connection lives in it. -/
def Fits (led : Ledger κ) (x : Nat) : Option (ServiceConnection κ) → Prop
  | none => led.holds x = none
  | some conn => conn.channel = none ↔ led.holds x = none

structure Inv (led : Ledger κ) (s : Sys κ) : Prop where
  sound : Owned.Sound led
  fits : ∀ x, Fits led x (s.objects x)

/-- Where a connection moves from one object to another, the callbacks it leaves behind are those
it finds there. -/
def Carries (s : Sys κ) : Op κ → Prop
  | .moveConstruct _ y => ∀ other, s.objects y = some other → other.channel ≠ none →
      ∀ key, other.propCallbacks.lookup key = none
  | .moveAssign x y => x ≠ y → ∀ this other, s.objects x = some this →
      s.objects y = some other → other.channel ≠ none →
        ∀ key, this.propCallbacks.lookup key = other.propCallbacks.lookup key
  | _ => True

section

variable {led : Ledger κ} {s s' : Sys κ} {x y : Nat}

theorem inv_start : Inv (Owned.empty : Ledger κ) .start :=
  ⟨Owned.sound_empty, fun _ => rfl⟩

/-- All that a step can do. -/
theorem step_cases {op : Op κ} (h : step s op = some s') :
    (∃ x endpoint, op = .construct x endpoint ∧ s.objects x = none ∧
      s' = s.set x (some ((endpoint.map Endpoint.connection).getD unconnected))) ∨
    (∃ x typeId key callback conn, op = .subscribe x typeId key callback ∧
      s.objects x = some conn ∧
      s' = s.request x (conn.subscribeProperty typeId key callback)) ∨
    (∃ x typeId key conn, op = .unsubscribe x typeId key ∧ s.objects x = some conn ∧
      s' = s.request x (conn.unsubscribeProperty typeId key)) ∨
    (∃ x y other, op = .moveConstruct x y ∧ s.objects x = none ∧ s.objects y = some other ∧
      s' = (s.set x (some other.moveConstruct.1)).set y (some other.moveConstruct.2)) ∨
    (∃ x, op = .moveAssign x x ∧ s' = s) ∨
    (∃ x y this other, op = .moveAssign x y ∧ x ≠ y ∧ s.objects x = some this ∧
      s.objects y = some other ∧
      s' = (s.set x (some (this.moveAssign other).1)).set y (some (this.moveAssign other).2)) ∨
    (∃ x conn, op = .destroy x ∧ s.objects x = some conn ∧ s' = s.set x none) := by
  cases op with
  | construct x endpoint =>
    cases hx : s.objects x with
    | some conn =>
      simp only [step, hx] at h
      cases h
    | none =>
      simp only [step, hx] at h
      exact .inl ⟨x, endpoint, rfl, hx, (Option.some.inj h).symm⟩
  | subscribe x typeId key callback =>
    obtain ⟨conn, hx, he⟩ := Option.map_eq_some_iff.mp h
    exact .inr (.inl ⟨x, typeId, key, callback, conn, rfl, hx, he.symm⟩)
  | unsubscribe x typeId key =>
    obtain ⟨conn, hx, he⟩ := Option.map_eq_some_iff.mp h
    exact .inr (.inr (.inl ⟨x, typeId, key, conn, rfl, hx, he.symm⟩))
  | moveConstruct x y =>
    cases hx : s.objects x with
    | some conn =>
      simp only [step, hx] at h
      cases h
    | none =>
      cases hy : s.objects y with
      | none =>
        simp only [step, hx, hy] at h
        cases h
      | some other =>
        simp only [step, hx, hy] at h
        exact .inr (.inr (.inr (.inl ⟨x, y, other, rfl, hx, hy, (Option.some.inj h).symm⟩)))
  | moveAssign x y =>
    cases hx : s.objects x with
    | none =>
      simp only [step, hx] at h
      cases h
    | some this =>
      cases hy : s.objects y with
      | none =>
        simp only [step, hx, hy] at h
        cases h
      | some other =>
        simp only [step, hx, hy] at h
        by_cases hxy : x = y
        · subst hxy
          rw [if_pos rfl] at h
          exact .inr (.inr (.inr (.inr (.inl ⟨x, rfl, (Option.some.inj h).symm⟩))))
        · rw [if_neg hxy] at h
          exact .inr (.inr (.inr (.inr (.inr (.inl
            ⟨x, y, this, other, rfl, hxy, hx, hy, (Option.some.inj h).symm⟩)))))
  | destroy x =>
    obtain ⟨conn, hx, he⟩ := Option.map_eq_some_iff.mp h
    exact .inr (.inr (.inr (.inr (.inr (.inr ⟨x, conn, rfl, hx, he.symm⟩)))))

theorem Fits.congr {led' : Ledger κ} {v : Option (ServiceConnection κ)} (h : Fits led x v)
    (hh : led'.holds x = led.holds x) : Fits led' x v := by
  cases v with
  | none => exact hh.trans h
  | some conn =>
    unfold Fits at h ⊢
    rw [hh]
    exact h

theorem Living.congr {led' : Ledger κ} {P : ServiceConnection κ → Calls κ → Prop}
    {v : Option (ServiceConnection κ)} (h : Living led P x v) (hh : led'.holds x = led.holds x)
    (hi : ∀ k, led.holds x = some k → led'.items[k]? = led.items[k]?) : Living led' P x v := by
  intro conn k calls hv hk hc
  rw [hh] at hk
  rw [hi k hk] at hc
  exact h conn k calls hv hk hc

/-- In an object that holds nothing lives no connection. -/
theorem living_of_none {P : ServiceConnection κ → Calls κ → Prop}
    (v : Option (ServiceConnection κ)) (h : led.holds x = none) : Living led P x v := by
  intro conn k calls _ hk
  rw [h] at hk
  cases hk

theorem forall_update {P : Nat → Option (ServiceConnection κ) → Prop}
    {f : Nat → Option (ServiceConnection κ)} {v : Option (ServiceConnection κ)} (hx : P x v)
    (h : ∀ z, z ≠ x → P z (f z)) : ∀ z, P z (Function.update f x v z) :=
  (Function.forall_update_iff f P).mpr ⟨hx, h⟩

theorem forall_update_update {P : Nat → Option (ServiceConnection κ) → Prop}
    {f : Nat → Option (ServiceConnection κ)} {v w : Option (ServiceConnection κ)} (hxy : x ≠ y) :
    (∀ z, P z (Function.update (Function.update f x v) y w z)) ↔
      P x v ∧ P y w ∧ ∀ z, z ≠ x → z ≠ y → P z (f z) := by
  constructor
  · intro h
    refine ⟨?_, ?_, fun z hzx hzy => ?_⟩
    · have hx := h x
      rwa [Function.update_of_ne hxy, Function.update_self] at hx
    · have hy := h y
      rwa [Function.update_self] at hy
    · have hz := h z
      rwa [Function.update_of_ne hzy, Function.update_of_ne hzx] at hz
  · rintro ⟨hx, hy, h⟩
    refine forall_update hy fun z hzy => ?_
    by_cases hzx : z = x
    · subst hzx
      rwa [Function.update_self]
    · rw [Function.update_of_ne hzx]
      exact h z hzx hzy

theorem construct_ok (hi : Inv led s) (hc : Current led s) (hx : s.objects x = none)
    (endpoint : Option Endpoint) {s' : Sys κ}
    (hs : s' = s.set x (some ((endpoint.map Endpoint.connection).getD unconnected))) :
    Inv (led.apply (.construct x endpoint : Op κ)) s' ∧
      Current (led.apply (.construct x endpoint : Op κ)) s' := by
  subst hs
  have hf := hi.fits x
  rw [hx] at hf
  cases endpoint with
  | none =>
    refine ⟨⟨hi.sound, forall_update ?_ fun z _ => hi.fits z⟩, forall_update ?_ fun z _ => hc z⟩
    · exact iff_of_true rfl hf
    · exact living_of_none _ hf
  | some e =>
    have hne : ∀ z, z ≠ x → (led.put x []).holds z = led.holds z :=
      fun z hz => Function.update_of_ne hz _ _
    have hself : (led.put x []).holds x = some led.items.length := Function.update_self _ _ _
    refine ⟨⟨Owned.sound_put hi.sound x [], forall_update ?_ fun z hz => ?_⟩,
      forall_update ?_ fun z hz => ?_⟩
    · show _ = none ↔ (led.put x []).holds x = none
      rw [hself]
      refine iff_of_false (fun h => ?_) fun h => by cases h
      cases e <;> cases h
    · exact (hi.fits z).congr (hne z hz)
    · intro conn k calls hv hk hcalls
      have hk' : (led.put x []).holds x = some k := hk
      rw [hself] at hk'
      cases hk'
      have hnil : (led.put x []).items[led.items.length]? = some [] :=
        List.getElem?_concat_length
      obtain rfl : [] = calls := Option.some.inj (hnil.symm.trans hcalls)
      cases hv
      intro key
      cases e <;> rfl
    · exact (hc z).congr (hne z hz) fun k hk => List.getElem?_append_left (hi.sound.issued z k hk)

/-- A call on the object, which keeps its channel. -/
theorem call_ok (hi : Inv led s) (hc : Current led s) {conn conn' : ServiceConnection κ}
    (hx : s.objects x = some conn) (hch : conn'.channel = conn.channel)
    (r : Option ((ProcPtr ⊕ TransportPtr) × Bytes)) {f : Calls κ → Calls κ}
    (hf : ∀ calls, Agrees conn calls → Agrees conn' (f calls)) :
    Inv (led.alter x f) (s.request x (conn', r)) ∧
      Current (led.alter x f) (s.request x (conn', r)) := by
  have hfit := hi.fits x
  have hcur := hc x
  rw [hx] at hfit hcur
  have hholds : ∀ z, (led.alter x f).holds z = led.holds z := fun z => by rw [Owned.holds_alter]
  refine ⟨⟨Owned.sound_alter hi.sound x f, forall_update ?_ fun z _ => (hi.fits z).congr (hholds z)⟩,
    forall_update ?_ fun z hz => (hc z).congr (hholds z) fun k hk => ?_⟩
  · show conn'.channel = none ↔ (led.alter x f).holds x = none
    rw [hch, hholds]
    exact hfit
  · intro conn₁ k calls hv hk hcalls
    cases hv
    rw [hholds] at hk
    rw [Owned.getElem?_alter, if_pos hk] at hcalls
    obtain ⟨calls₀, h₀, rfl⟩ := Option.map_eq_some_iff.mp hcalls
    exact hf calls₀ (hcur conn k calls₀ rfl hk h₀)
  · rw [Owned.getElem?_alter, if_neg fun h => hz (hi.sound.unique z x k hk h)]

theorem destroy_ok (hi : Inv led s) (hc : Current led s) (x : Nat) :
    Inv (led.retire x id) (s.set x none) ∧ Current (led.retire x id) (s.set x none) := by
  have hholds : ∀ z, z ≠ x → (led.retire x id).holds z = led.holds z :=
    fun z hz => Function.update_of_ne hz _ _
  refine ⟨⟨Owned.sound_retire hi.sound x id, forall_update (Owned.holds_retire_self led x id)
    fun z hz => (hi.fits z).congr (hholds z hz)⟩,
    forall_update (living_of_none _ (Owned.holds_retire_self led x id))
      fun z hz => (hc z).congr (hholds z hz) fun k _ => ?_⟩
  show (led.alter x id).items[k]? = led.items[k]?
  rw [Owned.getElem?_alter, Option.map_id_fun, id]
  exact ite_self _

/-- A connection moves from `y` to `x`: what is delivered then depends on the callbacks of the
object that is in `x` afterwards. -/
theorem arrive (hi : Inv led s) (hc : Current led s) (hx : s.objects x = none)
    {other conn rest : ServiceConnection κ} (hy : s.objects y = some other)
    (hch : conn.channel = other.channel) (hrest : rest.channel = none) :
    Inv (led.move x y) ((s.set x (some conn)).set y (some rest)) ∧
      (Current (led.move x y) ((s.set x (some conn)).set y (some rest)) ↔
        (other.channel ≠ none →
          ∀ key, conn.propCallbacks.lookup key = other.propCallbacks.lookup key)) := by
  have hxy : x ≠ y := by
    rintro rfl
    rw [hx] at hy
    cases hy
  have hholdsx : (led.move x y).holds x = led.holds y := by
    show Function.update _ _ _ _ = _
    rw [Function.update_of_ne hxy, Function.update_self]
  have hholdsy : (led.move x y).holds y = none := Function.update_self _ _ _
  have hholds : ∀ z, z ≠ x → z ≠ y → (led.move x y).holds z = led.holds z := by
    intro z hzx hzy
    show Function.update _ _ _ _ = _
    rw [Function.update_of_ne hzy, Function.update_of_ne hzx]
  have hfit := hi.fits y
  have hcur := hc y
  rw [hy] at hfit hcur
  constructor
  · refine ⟨Owned.sound_move hi.sound x y, (forall_update_update hxy).mpr ⟨?_, ?_, ?_⟩⟩
    · show conn.channel = none ↔ (led.move x y).holds x = none
      rw [hch, hholdsx]
      exact hfit
    · exact iff_of_true hrest hholdsy
    · exact fun z hzx hzy => (hi.fits z).congr (hholds z hzx hzy)
  · refine (forall_update_update hxy).trans ⟨fun h hne key => ?_, fun h => ⟨?_, ?_, ?_⟩⟩
    · obtain ⟨k, hk⟩ := Option.ne_none_iff_exists'.mp fun hn => hne (hfit.mpr hn)
      have hcalls := List.getElem?_eq_getElem (hi.sound.issued y k hk)
      rw [h.1 conn k _ rfl (hholdsx.trans hk) hcalls key, hcur other k _ rfl hk hcalls key]
    · intro conn₁ k calls hv hk hcalls key
      cases hv
      rw [hholdsx] at hk
      have hne : other.channel ≠ none := fun hn => by
        rw [hfit.mp hn] at hk
        cases hk
      rw [h hne key]
      exact hcur other k calls rfl hk hcalls key
    · exact living_of_none _ hholdsy
    · exact fun z hzx hzy => (hc z).congr (hholds z hzx hzy) fun _ _ => rfl

theorem agrees_subscribe {conn : ServiceConnection κ} {calls : Calls κ} (h : Agrees conn calls)
    (typeId : UInt32) (key : SubscriptionKey) (callback : κ) :
    Agrees (conn.subscribeProperty typeId key callback).1 (calls ++ [(key, some callback)]) := by
  intro key'
  rw [latest_append]
  show (conn.propCallbacks.insert key callback).lookup key' = _
  by_cases hk : key' = key
  · subst hk
    rw [if_pos rfl, AList.lookup_insert]
  · rw [if_neg hk, AList.lookup_insert_ne hk]
    exact h key'

theorem agrees_unsubscribe {conn : ServiceConnection κ} {calls : Calls κ} (h : Agrees conn calls)
    (typeId : UInt32) (key : SubscriptionKey) :
    Agrees (conn.unsubscribeProperty typeId key).1 (calls ++ [(key, none)]) := by
  intro key'
  rw [latest_append]
  show (conn.propCallbacks.erase key).lookup key' = _
  by_cases hk : key' = key
  · subst hk
    rw [if_pos rfl, AList.lookup_erase]
  · rw [if_neg hk, AList.lookup_erase_ne hk]
    exact h key'

/-- What one operation keeps, and when. -/
theorem step_ok (hi : Inv led s) (hc : Current led s) {op : Op κ} (h : step s op = some s') :
    Inv (led.apply op) s' ∧ (Current (led.apply op) s' ↔ Carries s op) := by
  rcases step_cases h with ⟨x, endpoint, rfl, hx, hs⟩ |
    ⟨x, typeId, key, callback, conn, rfl, hx, rfl⟩ | ⟨x, typeId, key, conn, rfl, hx, rfl⟩ |
    ⟨x, y, other, rfl, hx, hy, rfl⟩ | ⟨x, rfl, rfl⟩ | ⟨x, y, this, other, rfl, hxy, hx, hy, rfl⟩ |
    ⟨x, conn, rfl, hx, rfl⟩
  · obtain ⟨hi', hc'⟩ := construct_ok hi hc hx endpoint hs
    exact ⟨hi', iff_of_true hc' trivial⟩
  · have hch : (conn.subscribeProperty typeId key callback).1.channel = conn.channel := rfl
    obtain ⟨hi', hc'⟩ := call_ok hi hc hx hch (conn.subscribeProperty typeId key callback).2
      fun _ ha => agrees_subscribe ha typeId key callback
    exact ⟨hi', iff_of_true hc' trivial⟩
  · have hch : (conn.unsubscribeProperty typeId key).1.channel = conn.channel := rfl
    obtain ⟨hi', hc'⟩ := call_ok hi hc hx hch (conn.unsubscribeProperty typeId key).2
      fun _ ha => agrees_unsubscribe ha typeId key
    exact ⟨hi', iff_of_true hc' trivial⟩
  · have hch : other.moveConstruct.1.channel = other.channel := rfl
    have hrest : other.moveConstruct.2.channel = none := rfl
    obtain ⟨hi', hc'⟩ := arrive hi hc hx hy hch hrest
    refine ⟨hi', hc'.trans ⟨fun h other' hy' hne key => ?_, fun h hne key => ?_⟩⟩
    · obtain rfl : other = other' := Option.some.inj (hy.symm.trans hy')
      exact (h hne key).symm
    · exact (h other hy hne key).symm
  · have ha : led.apply (.moveAssign x x : Op κ) = led := if_pos rfl
    rw [ha]
    exact ⟨hi, iff_of_true hc fun h => absurd rfl h⟩
  · -- the object is emptied, and then the connection moves in
    obtain ⟨hi₁, hc₁⟩ := destroy_ok hi hc x
    have hx₁ : (s.set x none).objects x = none := Function.update_self _ _ _
    have hy₁ : (s.set x none).objects y = some other :=
      (Function.update_of_ne (Ne.symm hxy) _ _).trans hy
    have hch : (this.moveAssign other).1.channel = other.channel := rfl
    have hrest : (this.moveAssign other).2.channel = none := rfl
    obtain ⟨hi', hc'⟩ := arrive hi₁ hc₁ hx₁ hy₁ hch hrest
    rw [Sys.set_set] at hi' hc'
    have ha : led.apply (.moveAssign x y : Op κ) = (led.retire x id).move x y := if_neg hxy
    rw [ha]
    refine ⟨hi', hc'.trans ⟨fun h _ this' other' hx' hy' hne key => ?_, fun h hne key => ?_⟩⟩
    · obtain rfl : this = this' := Option.some.inj (hx.symm.trans hx')
      obtain rfl : other = other' := Option.some.inj (hy.symm.trans hy')
      exact h hne key
    · exact h hxy this other hx hy hne key
  · obtain ⟨hi', hc'⟩ := destroy_ok hi hc x
    exact ⟨hi', iff_of_true hc' trivial⟩

/-! ## Runs -/

/-- A run of operations each of which meets `C`. -/
abbrev Ops (C : Sys κ → Op κ → Prop) : List (Op κ) → Sys κ → Prop := Lts.Run step C .start

theorem current_run {ops : List (Op κ)} (h : Ops Carries ops s) :
    Inv (Ledger.after ops) s ∧ Current (Ledger.after ops) s := by
  refine h.induction (fun ops s => Inv (Ledger.after ops) s ∧ Current (Ledger.after ops) s)
    ⟨inv_start, fun _ => living_of_none _ rfl⟩ ?_
  rintro ops t op t' ⟨hi, hc⟩ hop hstep
  rw [Ledger.after_snoc]
  obtain ⟨hi', hc'⟩ := step_ok hi hc hstep
  exact ⟨hi', hc'.mpr hop⟩

/-- The operations determine the state. -/
theorem ops_unique {C C' : Sys κ → Op κ → Prop} {ops : List (Op κ)} (h : Ops C ops s)
    (h' : Ops C' ops s') : s = s' :=
  Option.some.inj (h.follow_eq.symm.trans h'.follow_eq)

/-- In every state of a run notifications are delivered exactly if each of its moves finds the
callbacks that it leaves behind. -/
theorem delivers_iff {ops : List (Op κ)} (h : Ops (fun _ _ => True) ops s) :
    (∀ ops₁ t, ops₁ <+: ops → Ops (fun _ _ => True) ops₁ t → Delivers (Ledger.after ops₁) t) ↔
      Ops Carries ops s := by
  unfold Delivers
  rw [answers_eq_agrees]
  induction h with
  | nil =>
    refine iff_of_true (fun ops₁ t hp ht => ?_) .nil
    obtain rfl := List.prefix_nil.mp hp
    have hnil : Ops Carries [] (.start : Sys κ) := .nil
    obtain rfl := ops_unique ht hnil
    exact (current_run hnil).2
  | @snoc ops t t' op h _ hstep ih =>
    constructor
    · intro hall
      have hcar := ih.mp fun ops₁ u hp => hall ops₁ u (hp.trans (List.prefix_append _ _))
      obtain ⟨hi, hc⟩ := current_run hcar
      have hnow := hall (ops ++ [op]) t' List.prefix_rfl (h.snoc trivial hstep)
      rw [Ledger.after_snoc] at hnow
      exact hcar.snoc ((step_ok hi hc hstep).2.mp hnow) hstep
    · intro hcar ops₁ u hp hu
      rcases List.prefix_concat_iff.mp hp with rfl | hp
      · obtain rfl := ops_unique hu hcar
        exact (current_run hcar).2
      · obtain ⟨v, hv, hop, hstep'⟩ := hcar.snoc_cases
        obtain rfl := ops_unique h hv
        exact ih.mpr hv ops₁ u hp hu

end

/-- A connection on which a property is watched, and then handed on. -/
def watched : List (Op Nat) :=
  [.construct 0 (some (.borrowed 3)), .subscribe 0 1 ⟨5, 2⟩ 77]

/-- As long as it is not moved, the callback is invoked. -/
theorem delivers_watched : ∃ s : Sys Nat, Ops (fun _ _ => True) watched s ∧
    ((∀ ops₁ t, ops₁ <+: watched → Ops (fun _ _ => True) ops₁ t →
      Delivers (Ledger.after ops₁) t) ↔ Ops Carries watched s) := by
  have hs : ∃ s, Lts.follow step (Sys.start : Sys Nat) watched = some s := ⟨_, rfl⟩
  obtain ⟨s, hs⟩ := hs
  have hrun : Ops (fun _ _ => True) watched s := Lts.Run.nil.follow (fun _ _ _ => trivial) hs
  exact ⟨s, hrun, delivers_iff hrun⟩

/-- Once it is moved, it is not. -/
theorem not_delivers_moved : ¬ ∀ (ops : List (Op Nat)) (s : Sys Nat),
    Ops (fun _ _ => True) ops s → Delivers (Ledger.after ops) s := by
  intro h
  have hs : ∃ s, Lts.follow step (Sys.start : Sys Nat) (watched ++ [.moveConstruct 1 0]) = some s ∧
      ∃ conn, s.objects 1 = some conn ∧ conn.propCallbacks.lookup ⟨5, 2⟩ = none :=
    ⟨_, rfl, _, rfl, rfl⟩
  obtain ⟨s, hs, conn, hconn, hlook⟩ := hs
  have hrun : Ops (fun _ _ => True) (watched ++ [.moveConstruct 1 0]) s :=
    Lts.Run.nil.follow (fun _ _ _ => trivial) hs
  have ha := (answers_iff_agrees _ _).mp
    (h _ s hrun 1 conn 0 [(⟨5, 2⟩, some 77)] hconn rfl rfl) ⟨5, 2⟩
  rw [hlook] at ha
  exact absurd ha (by decide)

end ConnectionMoves

end Song
