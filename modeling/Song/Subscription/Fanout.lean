import Mathlib.Algebra.BigOperators.Group.Finset.Basic
import Mathlib.Algebra.Order.BigOperators.Group.Finset
import Song.Runtime.State

/-!
# Subscriptions as a set (`subscription.cpp`)

A subscription is a subscriber, an object and a property. `Roll` is what the registry is for: the
subscriptions that are held, in the order in which they were made. The registry's map of buckets
`Stores` a roll: every bucket is the roll's subscriptions to its key, and no bucket is empty. Every
operation keeps that, so after any sequence of them each subscription is stored once, the counts
are those of the set, and `notify` sends to the roll's subscribers in their order.
-/

namespace Song

/-- A subscriber, an object and a property. -/
structure Triple where
  subscriber : TransportPtr
  key : SubscriptionKey
  deriving DecidableEq

/-- A subscription, with the transport that was given for it. -/
structure Subscription where
  key : SubscriptionKey
  sub : Subscriber
  deriving DecidableEq

def Subscription.triple (x : Subscription) : Triple := ⟨x.sub.id, x.key⟩

/-- The subscriptions that are held, in the order in which they were made. -/
structure Roll where
  held : List Subscription
  nodup : (held.map Subscription.triple).Nodup

namespace Roll

def empty : Roll := ⟨[], List.nodup_nil⟩

/-- A subscription that is held already is not held twice. -/
def join (roll : Roll) (x : Subscription) : Roll :=
  if h : x.triple ∈ roll.held.map Subscription.triple then roll
  else ⟨roll.held ++ [x], by
    rw [List.map_append, List.map_singleton, ← List.concat_eq_append]
    exact roll.nodup.concat h⟩

def keep (roll : Roll) (p : Triple → Bool) : Roll :=
  ⟨roll.held.filter fun x => p x.triple, roll.nodup.sublist (List.filter_sublist.map _)⟩

def triples (roll : Roll) : Finset Triple := ⟨roll.held.map Subscription.triple, roll.nodup⟩

/-- Who is subscribed to a key, in the order of subscription. -/
def subscribers (roll : Roll) (key : SubscriptionKey) : List Subscriber :=
  (roll.held.filter fun x => x.key = key).map Subscription.sub

variable {roll : Roll} {x : Subscription} {t : Triple} {key : SubscriptionKey}

theorem mem_triples : t ∈ roll.triples ↔ ∃ x ∈ roll.held, x.triple = t := List.mem_map

theorem mem_subscribers {sub : Subscriber} :
    sub ∈ roll.subscribers key ↔ ⟨key, sub⟩ ∈ roll.held := by
  rw [subscribers, List.mem_map]
  constructor
  · rintro ⟨x, hx, rfl⟩
    obtain ⟨hx, hkey⟩ := List.mem_filter.mp hx
    rw [← of_decide_eq_true hkey]
    exact hx
  · intro h
    exact ⟨_, List.mem_filter.mpr ⟨h, decide_eq_true rfl⟩, rfl⟩

theorem triples_join : (roll.join x).triples = insert x.triple roll.triples := by
  unfold join
  split
  · next h => exact (Finset.insert_eq_of_mem h).symm
  · ext t
    rw [Finset.mem_insert, mem_triples, mem_triples]
    simp only [List.mem_append, List.mem_singleton, or_and_right, exists_or, exists_eq_left]
    rw [or_comm, eq_comm]

theorem triples_keep (p : Triple → Bool) : (roll.keep p).triples = roll.triples.filter (p ·) := by
  ext t
  rw [Finset.mem_filter, mem_triples, mem_triples]
  constructor
  · rintro ⟨x, hx, rfl⟩
    obtain ⟨hx, hp⟩ := List.mem_filter.mp hx
    exact ⟨⟨x, hx, rfl⟩, hp⟩
  · rintro ⟨⟨x, hx, rfl⟩, hp⟩
    exact ⟨x, List.mem_filter.mpr ⟨hx, hp⟩, rfl⟩

theorem subscribers_keep (p : Triple → Bool) :
    (roll.keep p).subscribers key = (roll.subscribers key).filter fun sub => p ⟨sub.id, key⟩ := by
  rw [subscribers, subscribers, keep, List.filter_map, List.filter_filter, List.filter_filter]
  refine congrArg _ (List.filter_congr fun x _ => ?_)
  by_cases hx : x.key = key
  · subst hx
    simp [Subscription.triple]
  · simp [hx]

/-- Whether a subscription is held can be seen in its bucket. -/
theorem any_subscribers {id : TransportPtr} :
    (roll.subscribers key).any (·.id == id) = true ↔ ⟨id, key⟩ ∈ roll.triples := by
  rw [List.any_eq_true, mem_triples]
  constructor
  · rintro ⟨sub, hsub, hid⟩
    refine ⟨_, mem_subscribers.mp hsub, ?_⟩
    rw [← eq_of_beq hid]
    rfl
  · rintro ⟨⟨key', sub⟩, hx, ht⟩
    cases ht
    exact ⟨sub, mem_subscribers.mpr hx, beq_self_eq_true _⟩

theorem subscribers_join :
    (roll.join x).subscribers key =
      if key = x.key ∧ (roll.subscribers key).any (·.id == x.sub.id) = false then
        roll.subscribers key ++ [x.sub]
      else roll.subscribers key := by
  unfold join
  split
  · next h =>
    have hheld : x.triple ∈ roll.triples := h
    rw [if_neg]
    rintro ⟨rfl, hnone⟩
    rw [any_subscribers.mpr hheld] at hnone
    cases hnone
  · next h =>
    have hheld : x.triple ∉ roll.triples := h
    by_cases hkey : key = x.key
    · subst hkey
      have hnone : (roll.subscribers x.key).any (·.id == x.sub.id) = false :=
        Bool.eq_false_iff.mpr fun hany => hheld (any_subscribers.mp hany)
      rw [if_pos ⟨rfl, hnone⟩, subscribers, List.filter_append, List.map_append]
      simp [subscribers]
    · rw [if_neg fun hc => hkey hc.1, subscribers, List.filter_append]
      simp [subscribers, Ne.symm hkey]

theorem nodup_subscribers :
    ((roll.subscribers key).map fun sub => (⟨sub.id, key⟩ : Triple)).Nodup := by
  have hmap : (roll.subscribers key).map (fun sub => (⟨sub.id, key⟩ : Triple)) =
      (roll.held.filter fun x => x.key = key).map Subscription.triple := by
    rw [subscribers, List.map_map]
    refine List.map_congr_left fun x hx => ?_
    rw [← of_decide_eq_true (List.mem_filter.mp hx).2]
    rfl
  rw [hmap]
  exact roll.nodup.sublist (List.filter_sublist.map _)

/-- Those who are subscribed to a key, counted. -/
theorem length_subscribers :
    (roll.subscribers key).length = (roll.triples.filter (·.key = key)).card := by
  have hcard : (roll.triples.filter (·.key = key)).card =
      ((roll.held.map Subscription.triple).filter fun t => t.key = key).length := rfl
  rw [hcard, List.filter_map, List.length_map, subscribers, List.length_map]
  rfl

end Roll

namespace SubscriptionRegistry

variable {r : SubscriptionRegistry} {roll : Roll}

/-! ## What is stored -/

/-- Every subscription in the buckets. -/
def stored (r : SubscriptionRegistry) : List Triple :=
  r.subs.entries.flatMap fun bucket => bucket.2.map fun sub => ⟨sub.id, bucket.1⟩

def subscriberCount (r : SubscriptionRegistry) (objectId : Int32) (propertyId : UInt16) : Nat :=
  match r.subs.lookup ⟨objectId, propertyId⟩ with
  | none => 0
  | some subscribers => subscribers.length

def totalSubscriptions (r : SubscriptionRegistry) : Nat :=
  r.subs.entries.foldl (fun total bucket => total + bucket.2.length) 0

/-- The buckets are the roll's subscriptions to their keys, and none is empty. -/
structure Stores (r : SubscriptionRegistry) (roll : Roll) : Prop where
  bucket : ∀ key, r.bucket key = roll.subscribers key
  nonempty : ∀ key, r.subs.lookup key ≠ some []

theorem stores_empty : Stores ⟨∅⟩ .empty := ⟨fun _ => rfl, fun _ => nofun⟩

/-! ## Operations -/

theorem Stores.subscribe (h : Stores r roll) (subscriberId : TransportPtr) (objectId : Int32)
    (propertyId : UInt16) (transport : TransportPtr) :
    Stores (r.subscribe subscriberId objectId propertyId transport)
      (roll.join ⟨⟨objectId, propertyId⟩, ⟨subscriberId, transport⟩⟩) where
  bucket key := by
    rw [bucket_subscribe, Roll.subscribers_join, h.bucket]
  nonempty key := by
    unfold SubscriptionRegistry.subscribe
    dsimp only
    split
    · exact h.nonempty key
    · dsimp only
      by_cases hkey : key = ⟨objectId, propertyId⟩
      · subst hkey
        rw [AList.lookup_insert]
        simp
      · rw [AList.lookup_insert_ne hkey]
        exact h.nonempty key

theorem leave_nonempty (h : ∀ key, r.subs.lookup key ≠ some []) (subscriberId : TransportPtr)
    (key key' : SubscriptionKey) : (r.leave subscriberId key).subs.lookup key' ≠ some [] := by
  unfold leave
  split
  · exact h key'
  · dsimp only
    split
    · dsimp only
      by_cases hkey : key' = key
      · subst hkey
        rw [AList.lookup_erase]
        exact nofun
      · rw [AList.lookup_erase_ne hkey]
        exact h key'
    · next hkept =>
      dsimp only
      by_cases hkey : key' = key
      · subst hkey
        rw [AList.lookup_insert]
        intro hnil
        rw [Option.some.inj hnil] at hkept
        exact hkept rfl
      · rw [AList.lookup_insert_ne hkey]
        exact h key'

theorem Stores.unsubscribe (h : Stores r roll) (subscriberId : TransportPtr) (objectId : Int32)
    (propertyId : UInt16) :
    Stores (r.unsubscribe subscriberId objectId propertyId)
      (roll.keep (· ≠ ⟨subscriberId, ⟨objectId, propertyId⟩⟩)) where
  bucket key := by
    rw [SubscriptionRegistry.unsubscribe, bucket_leave, Roll.subscribers_keep, h.bucket]
    by_cases hkey : key = ⟨objectId, propertyId⟩
    · rw [if_pos hkey]
      refine List.filter_congr fun sub _ => ?_
      by_cases hid : sub.id = subscriberId <;> simp [hkey, hid]
    · rw [if_neg hkey, eq_comm, List.filter_eq_self]
      intro sub _
      simp [hkey]
  nonempty key := leave_nonempty h.nonempty _ _ key

theorem foldl_leave_nonempty (subscriberId : TransportPtr) (keys : List SubscriptionKey)
    (h : ∀ key, r.subs.lookup key ≠ some []) (key : SubscriptionKey) :
    (keys.foldl (fun r key => r.leave subscriberId key) r).subs.lookup key ≠ some [] := by
  induction keys generalizing r with
  | nil => exact h key
  | cons key' keys ih => exact ih (leave_nonempty h subscriberId key')

theorem Stores.unsubscribeAll (h : Stores r roll) (subscriberId : TransportPtr) :
    Stores (r.unsubscribeAll subscriberId) (roll.keep (·.subscriber ≠ subscriberId)) where
  bucket key := by
    rw [bucket_unsubscribeAll, Roll.subscribers_keep, h.bucket]
    refine List.filter_congr fun sub _ => ?_
    by_cases hid : sub.id = subscriberId <;> simp [hid]
  nonempty key := foldl_leave_nonempty _ _ h.nonempty key

/-! ## Counting -/

namespace Stores

variable (h : Stores r roll)
include h

theorem lookup_of_mem {key : SubscriptionKey} {subscribers : List Subscriber}
    (hmem : ⟨key, subscribers⟩ ∈ r.subs.entries) : subscribers = roll.subscribers key := by
  have hlookup : r.subs.lookup key = some subscribers := AList.mem_lookup_iff.mpr hmem
  have hbucket := h.bucket key
  rw [SubscriptionRegistry.bucket, hlookup] at hbucket
  exact hbucket

/-- A key with a subscriber has a bucket. -/
theorem mem_entries {key : SubscriptionKey} (hne : roll.subscribers key ≠ []) :
    ⟨key, roll.subscribers key⟩ ∈ r.subs.entries := by
  have hbucket := h.bucket key
  rw [SubscriptionRegistry.bucket] at hbucket
  cases hlookup : r.subs.lookup key with
  | none =>
    rw [hlookup] at hbucket
    exact absurd hbucket.symm hne
  | some subscribers =>
    rw [hlookup, Option.getD_some] at hbucket
    rw [← hbucket]
    exact AList.mem_lookup_iff.mp hlookup

theorem mem_stored {t : Triple} : t ∈ r.stored ↔ t ∈ roll.triples := by
  rw [stored, List.mem_flatMap, Roll.mem_triples]
  constructor
  · rintro ⟨⟨key, subscribers⟩, hmem, ht⟩
    obtain ⟨sub, hsub, rfl⟩ := List.mem_map.mp ht
    rw [h.lookup_of_mem hmem] at hsub
    exact ⟨_, Roll.mem_subscribers.mp hsub, rfl⟩
  · rintro ⟨⟨key, sub⟩, hx, rfl⟩
    have hsub : sub ∈ roll.subscribers key := Roll.mem_subscribers.mpr hx
    exact ⟨_, h.mem_entries (List.ne_nil_of_mem hsub), List.mem_map.mpr ⟨sub, hsub, rfl⟩⟩

theorem nodup_stored : r.stored.Nodup := by
  rw [stored, List.nodup_flatMap]
  constructor
  · rintro ⟨key, subscribers⟩ hmem
    dsimp only
    rw [h.lookup_of_mem hmem]
    exact roll.nodup_subscribers
  · refine (List.nodupKeys_iff_pairwise.mp r.subs.nodupKeys).imp fun {a b} hne => ?_
    rw [Function.onFun, List.disjoint_left]
    intro t hta htb
    obtain ⟨sub, -, rfl⟩ := List.mem_map.mp hta
    obtain ⟨sub', -, heq⟩ := List.mem_map.mp htb
    exact hne (congrArg Triple.key heq).symm

theorem subscriberCount_eq (objectId : Int32) (propertyId : UInt16) :
    r.subscriberCount objectId propertyId =
      (roll.triples.filter (·.key = ⟨objectId, propertyId⟩)).card := by
  rw [← Roll.length_subscribers, ← h.bucket, SubscriptionRegistry.bucket, subscriberCount]
  cases r.subs.lookup ⟨objectId, propertyId⟩ <;> rfl

theorem totalSubscriptions_eq : r.totalSubscriptions = roll.triples.card := by
  have hperm : r.stored.toFinset = roll.triples := by
    ext t
    rw [List.mem_toFinset, h.mem_stored]
  rw [← hperm, List.toFinset_card_of_nodup h.nodup_stored, stored, List.length_flatMap,
    totalSubscriptions, List.sum_eq_foldl, List.foldl_map]
  simp only [List.length_map]

end Stores

end SubscriptionRegistry

/-! ## What a notification sends -/

section
variable {σ ω : Type} (env : Env σ ω)

/-- What arrives of a message that is sent to the transports in turn, from the `n`-th send on. -/
def delivered (msg : Bytes) : Nat → List TransportPtr → List (Port × Bytes)
  | _, [] => []
  | n, tp :: tps =>
    (match env.sendOutcome tp n with
      | none => [(.transport tp, msg)]
      | some _ => []) ++ delivered msg (n + 1) tps

variable {env}

/-- Where no send throws, everything arrives. -/
theorem delivered_eq (h : ∀ tp n, env.sendOutcome tp n = none) (msg : Bytes) (n : Nat)
    (tps : List TransportPtr) :
    delivered env msg n tps = tps.map fun tp => (.transport tp, msg) := by
  induction tps generalizing n with
  | nil => rfl
  | cons tp tps ih => rw [delivered, h, ih, List.map_cons, List.singleton_append]

/-- A send that throws keeps no other from being made. -/
theorem sendEach_run (msg : Bytes) (tps : List TransportPtr) (s : Rt σ ω) :
    (sendEach env msg tps).run s = .ok () { s with
      attempts := s.attempts + tps.length
      sent := s.sent ++ delivered env msg s.attempts tps } := by
  induction tps generalizing s with
  | nil =>
    rw [delivered, List.append_nil]
    rfl
  | cons tp tps ih =>
    rw [sendEach, Eff.run_bind_ok (quietly_run _ s), ih, delivered]
    cases hsend : env.sendOutcome tp s.attempts with
    | none =>
      have hafter : Eff.after (transportSend env tp msg) s =
          { s with attempts := s.attempts + 1, sent := s.sent ++ [(.transport tp, msg)] } := by
        simp only [Eff.after, EStateM.run, transportSend, hsend]
      rw [hafter, List.length_cons, Nat.add_assoc, Nat.add_comm 1, List.append_assoc]
    | some e =>
      have hafter : Eff.after (transportSend env tp msg) s =
          { s with attempts := s.attempts + 1 } := by
        simp only [Eff.after, EStateM.run, transportSend, hsend]
      rw [hafter, List.length_cons, Nat.add_assoc, Nat.add_comm 1, List.nil_append]

end

/-! ## Runs -/

namespace SubscriptionRegistry

inductive Act where
  | subscribe (subscriberId : TransportPtr) (objectId : Int32) (propertyId : UInt16)
    (transport : TransportPtr)
  | unsubscribe (subscriberId : TransportPtr) (objectId : Int32) (propertyId : UInt16)
  | unsubscribeAll (subscriberId : TransportPtr)
  | notify (p : Push)

namespace Act

variable {σ ω : Type}

def run (env : Env σ ω) : Act → Srv σ ω Unit
  | subscribe id objectId propertyId transport =>
    modify fun s => { s with subs := s.subs.subscribe id objectId propertyId transport }
  | unsubscribe id objectId propertyId =>
    modify fun s => { s with subs := s.subs.unsubscribe id objectId propertyId }
  | unsubscribeAll id => modify fun s => { s with subs := s.subs.unsubscribeAll id }
  | notify p => Song.notify env p

def runAll (env : Env σ ω) : List Act → Srv σ ω Unit
  | [] => pure ()
  | act :: acts => do
    act.run env
    runAll env acts

/-- On the set of subscriptions. -/
def onSet : Act → Finset Triple → Finset Triple
  | subscribe id objectId propertyId _, held => insert ⟨id, ⟨objectId, propertyId⟩⟩ held
  | unsubscribe id objectId propertyId, held => held.erase ⟨id, ⟨objectId, propertyId⟩⟩
  | unsubscribeAll id, held => held.filter (·.subscriber ≠ id)
  | notify _, held => held

/-- On the subscriptions in the order in which they were made. -/
def onRoll : Act → Roll → Roll
  | subscribe id objectId propertyId transport, roll =>
    roll.join ⟨⟨objectId, propertyId⟩, ⟨id, transport⟩⟩
  | unsubscribe id objectId propertyId, roll =>
    roll.keep (· ≠ ⟨id, ⟨objectId, propertyId⟩⟩)
  | unsubscribeAll id, roll => roll.keep (·.subscriber ≠ id)
  | notify _, roll => roll

theorem triples_onRoll (act : Act) (roll : Roll) :
    (act.onRoll roll).triples = act.onSet roll.triples := by
  cases act with
  | subscribe id objectId propertyId transport => exact Roll.triples_join
  | unsubscribe id objectId propertyId =>
    rw [onRoll, Roll.triples_keep, onSet, ← Finset.filter_ne']
    simp only [decide_eq_true_eq]
  | unsubscribeAll id =>
    rw [onRoll, Roll.triples_keep, onSet]
    simp only [decide_eq_true_eq]
  | notify p => rfl

theorem run_stores (env : Env σ ω) (act : Act) {s : Rt σ ω} {roll : Roll}
    (h : s.subs.Stores roll) :
    ∃ t, (act.run env).run s = .ok () t ∧ t.subs.Stores (act.onRoll roll) := by
  cases act with
  | subscribe id objectId propertyId transport =>
    exact ⟨_, rfl, h.subscribe id objectId propertyId transport⟩
  | unsubscribe id objectId propertyId => exact ⟨_, rfl, h.unsubscribe id objectId propertyId⟩
  | unsubscribeAll id => exact ⟨_, rfl, h.unsubscribeAll id⟩
  | notify p => exact ⟨_, sendEach_run _ _ s, h⟩

theorem runAll_stores (env : Env σ ω) (acts : List Act) {s : Rt σ ω} {roll : Roll}
    (h : s.subs.Stores roll) :
    ∃ t, (runAll env acts).run s = .ok () t ∧
      t.subs.Stores (acts.foldl (fun roll act => act.onRoll roll) roll) := by
  induction acts generalizing s roll with
  | nil => exact ⟨s, rfl, h⟩
  | cons act acts ih =>
    obtain ⟨s', hrun, h'⟩ := act.run_stores env h
    obtain ⟨t, hrest, ht⟩ := ih h'
    exact ⟨t, by rw [runAll, Eff.run_bind_ok hrun, hrest], ht⟩

theorem triples_foldl (acts : List Act) (roll : Roll) :
    (acts.foldl (fun roll act => act.onRoll roll) roll).triples =
      acts.foldl (fun held act => act.onSet held) roll.triples := by
  induction acts generalizing roll with
  | nil => rfl
  | cons act acts ih => rw [List.foldl_cons, ih, triples_onRoll, List.foldl_cons]

end Act

end SubscriptionRegistry

end Song
