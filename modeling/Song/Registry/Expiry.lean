import Song.Registry

/-!
# Stale services

A history is a list of operations with the readings of the clock at which they run. Calls of
`cleanup_stale` put into it may change its results: `register_service`, `unregister_service` and
`heartbeat` do not look whether the entry they find is stale. They change none exactly if none of
these finds a stale entry (`Unexpired`).

Two registries run side by side, of which one has been cleaned up more often (`Swept`).
-/

namespace Song

namespace MemoryRegistry

variable {r r' : MemoryRegistry} {now now' : Int}

/-! ## Histories -/

/-- The clock does not go back. -/
def Timed {α : Type} (h : List (Int × α)) : Prop := (h.map Prod.fst).IsChain (· ≤ ·)

def calls (h : List (Int × Operation)) : List (Int × Call) :=
  h.map fun x => (x.1, .operation x.2)

/-- The history without its clean-ups. -/
def operations (h : List (Int × Call)) : List (Int × Operation) :=
  h.filterMap fun x => x.2.operation?.map (x.1, ·)

/-- The name whose entry the operation uses without a look at its age. -/
def Operation.unchecked : Operation → Option Str
  | registerService info => if info.isValid then some info.name else none
  | unregisterService name | heartbeat name => some name
  | discover _ | listAll => none

/-- No operation that does not check finds a stale entry. -/
def Unexpired (r : MemoryRegistry) : List (Int × Operation) → Prop
  | [] => True
  | (now, op) :: h =>
    (∀ name entry, op.unchecked = some name → r.services.lookup name = some entry →
      r.stale now entry = false) ∧ Unexpired (op.run now r).2 h

/-! ## Side by side -/

theorem stale_mono {entry : Entry} (hle : now ≤ now') (h : r.stale now entry = true) :
    r.stale now' entry = true := by
  unfold stale at h ⊢
  rw [decide_eq_true_eq] at h ⊢
  omega

/-- `r'` is `r` without some of the entries that are stale. -/
structure Swept (now : Int) (r r' : MemoryRegistry) : Prop where
  expiryTime : r'.expiryTime = r.expiryTime
  lookup : ∀ name, r'.services.lookup name = r.services.lookup name ∨
    r'.services.lookup name = none ∧
      ∃ entry, r.services.lookup name = some entry ∧ r.stale now entry = true

namespace Swept

theorem refl (now : Int) (r : MemoryRegistry) : Swept now r r := ⟨rfl, fun _ => .inl rfl⟩

theorem stale_eq (h : Swept now r r') (now : Int) (entry : Entry) :
    r'.stale now entry = r.stale now entry := by
  unfold stale
  rw [h.expiryTime]

theorem mono (h : Swept now r r') (hle : now ≤ now') : Swept now' r r' :=
  ⟨h.expiryTime, fun name => (h.lookup name).imp id fun ⟨hnone, entry, he, hs⟩ =>
    ⟨hnone, entry, he, stale_mono hle hs⟩⟩

theorem lookup_cleanupStale (r : MemoryRegistry) (now : Int) (name : Str) :
    (r.cleanupStale now).services.lookup name =
      (r.services.lookup name).filter fun entry => !r.stale now entry :=
  Map.lookup_filter _ _ _

theorem cleanupStale (h : Swept now r r') : Swept now r (r'.cleanupStale now) := by
  refine ⟨h.expiryTime, fun name => ?_⟩
  rw [lookup_cleanupStale]
  rcases h.lookup name with heq | ⟨hnone, hstale⟩
  · rw [heq]
    cases hr : r.services.lookup name with
    | none => exact .inl rfl
    | some entry =>
      rw [Option.filter_some, h.stale_eq]
      cases hs : r.stale now entry with
      | false => exact .inl rfl
      | true => exact .inr ⟨rfl, entry, rfl, hs⟩
  · rw [hnone]
    exact .inr ⟨rfl, hstale⟩

/-- After a clean-up of both there is no difference. -/
theorem lookup_cleaned (h : Swept now r r') (name : Str) :
    (r'.cleanupStale now).services.lookup name = (r.cleanupStale now).services.lookup name := by
  rw [lookup_cleanupStale, lookup_cleanupStale]
  rcases h.lookup name with heq | ⟨hnone, entry, hr, hs⟩
  · rw [heq]
    refine congrArg (Option.filter · _) (funext fun entry => ?_)
    rw [h.stale_eq]
  · rw [hnone, hr, Option.filter_some, hs]
    rfl

/-- An entry that is not stale is in both or in none. -/
theorem lookup_eq (h : Swept now r r') {name : Str}
    (hfresh : ∀ entry, r.services.lookup name = some entry → r.stale now entry = false) :
    r'.services.lookup name = r.services.lookup name := by
  rcases h.lookup name with heq | ⟨-, entry, hr, hs⟩
  · exact heq
  · rw [hfresh entry hr] at hs
    cases hs

theorem insert (h : Swept now r r') (name : Str) (entry : Entry) :
    Swept now { r with services := r.services.insert name entry }
      { r' with services := r'.services.insert name entry } := by
  refine ⟨h.expiryTime, fun name' => ?_⟩
  by_cases hname : name' = name
  · subst hname
    rw [AList.lookup_insert, AList.lookup_insert]
    exact .inl rfl
  · rw [AList.lookup_insert_ne hname, AList.lookup_insert_ne hname]
    exact h.lookup name'

theorem erase (h : Swept now r r') (name : Str) :
    Swept now { r with services := r.services.erase name }
      { r' with services := r'.services.erase name } := by
  refine ⟨h.expiryTime, fun name' => ?_⟩
  by_cases hname : name' = name
  · subst hname
    rw [AList.lookup_erase, AList.lookup_erase]
    exact .inl rfl
  · rw [AList.lookup_erase_ne hname, AList.lookup_erase_ne hname]
    exact h.lookup name'

/-! ### Operations -/

theorem registerService (h : Swept now r r') {info : ServiceInfo}
    (hfresh : info.isValid = true → ∀ entry, r.services.lookup info.name = some entry →
      r.stale now entry = false) :
    (r'.registerService now info).1 = (r.registerService now info).1 ∧
      Swept now (r.registerService now info).2 (r'.registerService now info).2 := by
  unfold MemoryRegistry.registerService
  cases hvalid : info.isValid with
  | false => exact ⟨rfl, h⟩
  | true =>
    rw [h.lookup_eq (hfresh hvalid)]
    cases (r.services.lookup info.name).isSome with
    | true => exact ⟨rfl, h⟩
    | false => exact ⟨rfl, h.insert info.name ⟨info, now⟩⟩

theorem unregisterService (h : Swept now r r') {name : Str}
    (hfresh : ∀ entry, r.services.lookup name = some entry → r.stale now entry = false) :
    (r'.unregisterService name).1 = (r.unregisterService name).1 ∧
      Swept now (r.unregisterService name).2 (r'.unregisterService name).2 :=
  ⟨congrArg Option.isSome (h.lookup_eq hfresh), h.erase name⟩

theorem discover (h : Swept now r r') (name : Str) :
    (r'.discover now name).1 = (r.discover now name).1 ∧
      Swept now (r.discover now name).2 (r'.discover now name).2 := by
  unfold MemoryRegistry.discover
  rcases h.lookup name with heq | ⟨hnone, entry, hr, hs⟩
  · rw [heq]
    cases r.services.lookup name with
    | none => exact ⟨rfl, h⟩
    | some entry =>
      dsimp only
      rw [h.stale_eq]
      cases r.stale now entry with
      | true => exact ⟨rfl, h.erase name⟩
      | false => exact ⟨rfl, h⟩
  · rw [hnone, hr]
    dsimp only
    rw [hs, if_pos rfl]
    refine ⟨rfl, h.expiryTime, fun name' => ?_⟩
    by_cases hname : name' = name
    · subst hname
      refine .inl (hnone.trans (Eq.symm ?_))
      exact AList.lookup_erase name' r.services
    · refine (h.lookup name').imp (fun heq => ?_) fun hstale => ?_
      · exact heq.trans (AList.lookup_erase_ne hname).symm
      · obtain ⟨hnone', entry', hr', hs'⟩ := hstale
        exact ⟨hnone', entry', (AList.lookup_erase_ne hname).trans hr', hs'⟩

theorem listAll (h : Swept now r r') :
    (r'.listAll now).1 = (r.listAll now).1 ∧ Swept now (r.listAll now).2 (r'.listAll now).2 := by
  refine ⟨?_, h.expiryTime, fun name => .inl (h.lookup_cleaned name)⟩
  have hperm := Map.perm_of_lookup h.lookup_cleaned
  exact Multiset.coe_eq_coe.mpr (hperm.map _)

theorem heartbeat (h : Swept now r r') {name : Str}
    (hfresh : ∀ entry, r.services.lookup name = some entry → r.stale now entry = false) :
    (r'.heartbeat now name).1 = (r.heartbeat now name).1 ∧
      Swept now (r.heartbeat now name).2 (r'.heartbeat now name).2 := by
  unfold MemoryRegistry.heartbeat
  rw [h.lookup_eq hfresh]
  cases r.services.lookup name with
  | none => exact ⟨rfl, h⟩
  | some entry => exact ⟨rfl, h.insert name _⟩

theorem run (h : Swept now r r') {op : Operation}
    (hfresh : ∀ name entry, op.unchecked = some name → r.services.lookup name = some entry →
      r.stale now entry = false) :
    (op.run now r').1 = (op.run now r).1 ∧ Swept now (op.run now r).2 (op.run now r').2 := by
  cases op with
  | registerService info =>
    obtain ⟨hres, hswept⟩ := h.registerService fun hvalid entry he =>
      hfresh info.name entry (if_pos hvalid) he
    exact ⟨congrArg Result.answer hres, hswept⟩
  | unregisterService name =>
    obtain ⟨hres, hswept⟩ := h.unregisterService fun entry he => hfresh name entry rfl he
    exact ⟨congrArg Result.answer hres, hswept⟩
  | discover name =>
    obtain ⟨hres, hswept⟩ := h.discover name
    exact ⟨congrArg Result.found hres, hswept⟩
  | listAll =>
    obtain ⟨hres, hswept⟩ := h.listAll
    exact ⟨congrArg Result.all hres, hswept⟩
  | heartbeat name =>
    obtain ⟨hres, hswept⟩ := h.heartbeat fun entry he => hfresh name entry rfl he
    exact ⟨congrArg Result.answer hres, hswept⟩

end Swept

/-! ## Clean-ups in a history -/

theorem results_swept {h : List (Int × Call)} (hswept : Swept now r r')
    (htimed : (now :: h.map Prod.fst).IsChain (· ≤ ·)) (hfresh : Unexpired r (operations h)) :
    results r' h = results r (calls (operations h)) := by
  induction h generalizing now r r' with
  | nil => rfl
  | cons x h ih =>
    obtain ⟨now', call⟩ := x
    obtain ⟨hle, htimed⟩ := List.isChain_cons_cons.mp htimed
    have hswept' := hswept.mono hle
    cases call with
    | operation op =>
      obtain ⟨hnow, hrest⟩ := hfresh
      obtain ⟨hres, hnext⟩ := hswept'.run hnow
      exact congrArg₂ List.cons hres (ih hnext htimed hrest)
    | cleanupStale => exact ih hswept'.cleanupStale htimed hfresh

/-- A clean-up in front changes what an operation returns that does not check and finds a stale
entry. -/
theorem run_cleanupStale_ne {op : Operation} {name : Str} {entry : Entry}
    (hop : op.unchecked = some name) (hentry : r.services.lookup name = some entry)
    (hstale : r.stale now entry = true) :
    (op.run now (r.cleanupStale now)).1 ≠ (op.run now r).1 := by
  have hgone : (r.cleanupStale now).services.lookup name = none := by
    rw [Swept.lookup_cleanupStale, hentry, Option.filter_some, hstale]
    rfl
  cases op with
  | registerService info =>
    rw [Operation.unchecked] at hop
    split at hop
    · next hvalid =>
      cases hop
      simp [Operation.run, MemoryRegistry.registerService, hvalid, hgone, hentry]
    · cases hop
  | unregisterService name =>
    cases hop
    simp [Operation.run, MemoryRegistry.unregisterService, hgone, hentry]
  | discover name => cases hop
  | listAll => cases hop
  | heartbeat name =>
    cases hop
    simp [Operation.run, MemoryRegistry.heartbeat, hgone, hentry]

theorem operations_calls (h : List (Int × Operation)) : operations (calls h) = h := by
  induction h with
  | nil => rfl
  | cons x h ih => exact congrArg (x :: ·) ih

theorem unexpired_of_results {h : List (Int × Operation)}
    (htimed : (now :: h.map Prod.fst).IsChain (· ≤ ·))
    (hres : ∀ h', (now :: h'.map Prod.fst).IsChain (· ≤ ·) → operations h' = h →
      results r h' = results r (calls h)) : Unexpired r h := by
  induction h generalizing now r with
  | nil => trivial
  | cons x h ih =>
    obtain ⟨now', op⟩ := x
    obtain ⟨hle, htimed⟩ := List.isChain_cons_cons.mp htimed
    have htimes : (calls h).map Prod.fst = h.map Prod.fst := List.map_map
    refine ⟨fun name entry hop hentry => ?_, ih htimed fun h' htimed' hops => ?_⟩
    · rw [← Bool.not_eq_true]
      intro hstale
      have heq := hres ((now', .cleanupStale) :: (now', .operation op) :: calls h) (by
        rw [List.map_cons, List.map_cons, htimes]
        exact .cons_cons hle (.cons_cons (le_refl _) htimed))
        (congrArg ((now', op) :: ·) (operations_calls h))
      exact run_cleanupStale_ne hop hentry hstale (List.cons.inj heq).1
    · have heq := hres ((now', .operation op) :: h') (.cons_cons hle htimed')
        (congrArg ((now', op) :: ·) hops)
      exact (List.cons.inj heq).2

theorem Timed.bounded {α : Type} {h : List (Int × α)} (ht : Timed h) :
    ∃ now, (now :: h.map Prod.fst).IsChain (· ≤ ·) := by
  cases h with
  | nil => exact ⟨0, .singleton 0⟩
  | cons x h => exact ⟨x.1, .cons_cons (le_refl _) ht⟩

def calculator : ServiceInfo := ⟨lit "calculator", lit "localhost", 9000⟩

end MemoryRegistry

end Song
