import Song.Wire
import Song.Lib.Map

/-!
# The subscription registry (`subscription.hpp`, `subscription.cpp`)

A map from (object, property) to the subscribers in subscription order. A
bucket that loses its last subscriber is erased.
-/

namespace Song

/-- The address of a `Transport`; a subscriber is identified by it. -/
abbrev TransportPtr := Nat

structure SubscriptionKey where
  objectId : Int32
  propertyId : UInt16
  deriving DecidableEq, Repr

structure Subscriber where
  id : TransportPtr
  transport : TransportPtr
  deriving DecidableEq, Repr

structure SubscriptionRegistry where
  subs : Map SubscriptionKey (List Subscriber)

namespace SubscriptionRegistry

def bucket (r : SubscriptionRegistry) (key : SubscriptionKey) : List Subscriber :=
  (r.subs.lookup key).getD []

def subscribe (r : SubscriptionRegistry) (subscriberId : TransportPtr) (objectId : Int32)
    (propertyId : UInt16) (transport : TransportPtr) : SubscriptionRegistry :=
  let key := ⟨objectId, propertyId⟩
  if (r.bucket key).any (·.id == subscriberId) then r
  else ⟨r.subs.insert key (r.bucket key ++ [⟨subscriberId, transport⟩])⟩

/-- Take a subscriber out of one bucket, and the bucket out of the map once empty. -/
def leave (r : SubscriptionRegistry) (subscriberId : TransportPtr) (key : SubscriptionKey) :
    SubscriptionRegistry :=
  match r.subs.lookup key with
  | none => r
  | some subscribers =>
    let kept := subscribers.filter (·.id != subscriberId)
    if kept.isEmpty then ⟨r.subs.erase key⟩ else ⟨r.subs.insert key kept⟩

def unsubscribe (r : SubscriptionRegistry) (subscriberId : TransportPtr) (objectId : Int32)
    (propertyId : UInt16) : SubscriptionRegistry :=
  r.leave subscriberId ⟨objectId, propertyId⟩

def unsubscribeAll (r : SubscriptionRegistry) (subscriberId : TransportPtr) :
    SubscriptionRegistry :=
  r.subs.keys.foldl (fun r key => r.leave subscriberId key) r

/-- The transports `notify` copies under the lock and sends to. -/
def targets (r : SubscriptionRegistry) (objectId : Int32) (propertyId : UInt16) :
    List TransportPtr :=
  (r.bucket ⟨objectId, propertyId⟩).map (·.transport)

/-- Some subscription is held under this id. -/
def Holds (r : SubscriptionRegistry) (subscriberId : TransportPtr) : Prop :=
  ∃ key, ∃ sub ∈ r.bucket key, sub.id = subscriberId

theorem bucket_leave (r : SubscriptionRegistry) (subscriberId : TransportPtr)
    (key k : SubscriptionKey) :
    (r.leave subscriberId key).bucket k =
      if k = key then (r.bucket k).filter (·.id != subscriberId) else r.bucket k := by
  unfold leave bucket
  cases hl : r.subs.lookup key with
  | none =>
    by_cases hk : k = key
    · subst hk; simp [hl]
    · simp [hk]
  | some subscribers =>
    by_cases he : (subscribers.filter (·.id != subscriberId)).isEmpty = true
    · simp only [he, ↓reduceIte]
      by_cases hk : k = key
      · subst hk
        simp only [AList.lookup_erase, hl, ↓reduceIte, Option.getD_none, Option.getD_some]
        exact (List.isEmpty_iff.mp he).symm
      · simp [AList.lookup_erase_ne hk, hk]
    · simp only [he, Bool.false_eq_true, ↓reduceIte]
      by_cases hk : k = key
      · subst hk; simp [hl]
      · simp [AList.lookup_insert_ne hk, hk]

theorem bucket_foldl_leave (subscriberId : TransportPtr) (keys : List SubscriptionKey)
    (r : SubscriptionRegistry) (k : SubscriptionKey) :
    (keys.foldl (fun r key => r.leave subscriberId key) r).bucket k =
      if k ∈ keys then (r.bucket k).filter (·.id != subscriberId) else r.bucket k := by
  induction keys generalizing r with
  | nil => simp
  | cons key keys ih =>
    rw [List.foldl_cons, ih, bucket_leave]
    by_cases hk : k = key
    · subst hk; by_cases hm : k ∈ keys <;> simp [hm]
    · by_cases hm : k ∈ keys <;> simp [hk, hm]

theorem bucket_of_not_mem {r : SubscriptionRegistry} {k : SubscriptionKey}
    (h : k ∉ r.subs.keys) : r.bucket k = [] := by
  have hn : r.subs.lookup k = none := AList.lookup_eq_none.mpr h
  simp [bucket, hn]

/-- `unsubscribe_all` takes the subscriber out of every bucket and leaves the others. -/
theorem bucket_unsubscribeAll (r : SubscriptionRegistry) (subscriberId : TransportPtr)
    (k : SubscriptionKey) :
    (r.unsubscribeAll subscriberId).bucket k = (r.bucket k).filter (·.id != subscriberId) := by
  rw [unsubscribeAll, bucket_foldl_leave]
  split
  · rfl
  · next h => rw [bucket_of_not_mem h]; rfl

theorem not_holds_unsubscribeAll (r : SubscriptionRegistry) (subscriberId : TransportPtr) :
    ¬ (r.unsubscribeAll subscriberId).Holds subscriberId := by
  rintro ⟨key, sub, hm, hid⟩
  rw [bucket_unsubscribeAll, List.mem_filter] at hm
  simp [hid] at hm

theorem bucket_subscribe (r : SubscriptionRegistry) (subscriberId : TransportPtr)
    (objectId : Int32) (propertyId : UInt16) (transport : TransportPtr) (k : SubscriptionKey) :
    (r.subscribe subscriberId objectId propertyId transport).bucket k =
      if k = ⟨objectId, propertyId⟩ ∧ (r.bucket k).any (·.id == subscriberId) = false then
        r.bucket k ++ [⟨subscriberId, transport⟩]
      else r.bucket k := by
  unfold subscribe
  by_cases ha : (r.bucket ⟨objectId, propertyId⟩).any (·.id == subscriberId) = true
  · simp only [ha, ↓reduceIte]
    rw [if_neg]
    rintro ⟨rfl, hn⟩
    rw [ha] at hn; cases hn
  · simp only [ha, Bool.false_eq_true, ↓reduceIte]
    by_cases hk : k = ⟨objectId, propertyId⟩
    · subst hk
      simp only [Bool.not_eq_true] at ha
      simp only [ha, and_self, ↓reduceIte]
      simp [bucket]
    · simp [bucket, hk, AList.lookup_insert_ne hk]

end SubscriptionRegistry

end Song
