import Mathlib.Data.List.Nodup

/-!
# Names of guests in a text

A generator writes a text with names of its own (the host's) around names that are given
to it (the guests', numbered). What binds and uses names is a list of events, read with a
stack of open scopes. The text is `Sound` when every use means whom it is for, no guest's
name is that of a visible name, and no name of the host takes the place of a guest's in
its scope. A name that no scope binds is the host's.
-/

namespace Hygiene

/-- `none` is the host, `some i` the guest `i`. -/
inductive Event (ν : Type) where
  | enter
  | leave
  | bind (who : Option Nat) (name : ν)
  | use (who : Option Nat) (name : ν)
  deriving DecidableEq, Repr

/-- The open scopes, the innermost first, each with what it binds. -/
abbrev Scopes (ν : Type) := List (List (ν × Option Nat))

variable {ν α : Type}

namespace Scopes

section
variable [DecidableEq ν]

/-- Who a name is bound to, if it is. -/
def resolve : Scopes ν → ν → Option (Option Nat)
  | [], _ => none
  | scope :: outer, n => (scope.lookup n).or (resolve outer n)

/-- Who a name means. -/
def means (scopes : Scopes ν) (n : ν) : Option Nat := (scopes.resolve n).getD none

/-- A guest's name must be new. The host may bind a name again, in an inner scope also a
guest's. -/
def MayBind : Scopes ν → Option Nat → ν → Prop
  | scopes, some _, n => scopes.resolve n = none
  | [], none, _ => True
  | scope :: _, none, n => (scope.lookup n).getD none = none

instance (scopes : Scopes ν) (who : Option Nat) (n : ν) : Decidable (scopes.MayBind who n) := by
  unfold MayBind
  split <;> infer_instance

end

def insert (e : ν × Option Nat) : Scopes ν → Scopes ν
  | [] => [[e]]
  | scope :: outer => (e :: scope) :: outer

end Scopes

open Scopes

def step : Scopes ν → Event ν → Scopes ν
  | scopes, .enter => [] :: scopes
  | scopes, .leave => scopes.tail
  | scopes, .bind who n => scopes.insert (n, who)
  | scopes, .use _ _ => scopes

/-- The scopes behind a text. -/
def after (scopes : Scopes ν) (es : List (Event ν)) : Scopes ν := es.foldl step scopes

def Sound [DecidableEq ν] : Scopes ν → List (Event ν) → Prop
  | _, [] => True
  | scopes, .enter :: es => Sound (step scopes .enter) es
  | scopes, .leave :: es => Sound (step scopes .leave) es
  | scopes, .bind who n :: es => scopes.MayBind who n ∧ Sound (step scopes (.bind who n)) es
  | scopes, .use who n :: es => scopes.means n = who ∧ Sound scopes es

instance decidableSound [DecidableEq ν] : ∀ (scopes : Scopes ν) (es : List (Event ν)), Decidable (Sound scopes es)
  | _, [] => .isTrue trivial
  | scopes, .enter :: es => decidableSound (step scopes .enter) es
  | scopes, .leave :: es => decidableSound (step scopes .leave) es
  | scopes, .bind who n :: es => @instDecidableAnd _ _ _ (decidableSound (scopes.insert (n, who)) es)
  | scopes, .use _ _ :: es => @instDecidableAnd _ _ _ (decidableSound scopes es)

/-! ## Parts of a text -/

section
variable {scopes : Scopes ν} {es fs : List (Event ν)}

theorem after_append : after scopes (es ++ fs) = after (after scopes es) fs := List.foldl_append

theorem sound_append [DecidableEq ν] : Sound scopes (es ++ fs) ↔ Sound scopes es ∧ Sound (after scopes es) fs := by
  induction es generalizing scopes with
  | nil => exact (and_iff_right trivial).symm
  | cons e es ih =>
    cases e with
    | enter => exact ih
    | leave => exact ih
    | bind who n =>
      show scopes.MayBind who n ∧ Sound _ (es ++ fs) ↔ (scopes.MayBind who n ∧ Sound _ es) ∧ _
      rw [ih, and_assoc]
      exact Iff.rfl
    | use who n =>
      show scopes.means n = who ∧ Sound _ (es ++ fs) ↔ (scopes.means n = who ∧ Sound _ es) ∧ _
      rw [ih, and_assoc]
      exact Iff.rfl

/-- The text closes the scopes it opens, and no others. -/
def Balanced (es : List (Event ν)) : Prop :=
  ∀ scope outer, ∃ scope', after (scope :: outer) es = scope' :: outer

/-- The text leaves the scopes as they are. -/
def Still (es : List (Event ν)) : Prop := ∀ scopes, after scopes es = scopes

theorem Still.balanced (h : Still es) : Balanced es := fun scope _ => ⟨scope, h _⟩

theorem still_nil : Still ([] : List (Event ν)) := fun _ => rfl

theorem still_use (who : Option Nat) (n : ν) : Still [.use who n] := fun _ => rfl

theorem Still.append (hes : Still es) (hfs : Still fs) : Still (es ++ fs) := fun scopes => by
  rw [after_append, hes, hfs]

theorem balanced_bind (who : Option Nat) (n : ν) : Balanced [.bind who n] :=
  fun scope _ => ⟨(n, who) :: scope, rfl⟩

theorem Balanced.append (hes : Balanced es) (hfs : Balanced fs) : Balanced (es ++ fs) := by
  intro scope outer
  obtain ⟨scope', h⟩ := hes scope outer
  rw [after_append, h]
  exact hfs scope' outer

theorem Still.flatMap {f : α → List (Event ν)} {xs : List α} (h : ∀ x ∈ xs, Still (f x)) :
    Still (xs.flatMap f) := by
  induction xs with
  | nil => exact still_nil
  | cons x xs ih =>
    rw [List.forall_mem_cons] at h
    exact h.1.append (ih h.2)

theorem Balanced.flatMap {f : α → List (Event ν)} {xs : List α} (h : ∀ x ∈ xs, Balanced (f x)) :
    Balanced (xs.flatMap f) := by
  induction xs with
  | nil => exact still_nil.balanced
  | cons x xs ih =>
    rw [List.forall_mem_cons] at h
    exact h.1.append (ih h.2)

/-- A scope with all that is in it. -/
theorem Balanced.still_block (h : Balanced es) : Still (.enter :: (es ++ [.leave])) := by
  intro scopes
  obtain ⟨scope, hs⟩ := h [] scopes
  show after ([] :: scopes) (es ++ [.leave]) = scopes
  rw [after_append, hs]
  rfl

theorem sound_block [DecidableEq ν] :
    Sound scopes (.enter :: (es ++ [.leave])) ↔ Sound ([] :: scopes) es := by
  show Sound ([] :: scopes) (es ++ [.leave]) ↔ _
  rw [sound_append]
  exact and_iff_left trivial

/-- Two parts that leave the scopes as they are. -/
theorem sound_both [DecidableEq ν] {P Q : Prop} (hes : (Sound scopes es ↔ P) ∧ Still es)
    (hfs : (Sound scopes fs ↔ Q) ∧ Still fs) :
    (Sound scopes (es ++ fs) ↔ P ∧ Q) ∧ Still (es ++ fs) := by
  refine ⟨?_, hes.2.append hfs.2⟩
  rw [sound_append, hes.2, hes.1, hfs.1]

/-- Such a part for each element of a list. -/
theorem sound_each [DecidableEq ν] {f : α → List (Event ν)} {P : α → Prop}
    (hf : ∀ x, (Sound scopes (f x) ↔ P x) ∧ Still (f x)) (xs : List α) :
    (Sound scopes (xs.flatMap f) ↔ ∀ x ∈ xs, P x) ∧ Still (xs.flatMap f) := by
  induction xs with
  | nil => exact ⟨by simp [Sound], still_nil⟩
  | cons x xs ih =>
    rw [List.flatMap_cons, List.forall_mem_cons]
    exact sound_both (hf x) ih

end

/-! ## Guests -/

/-- What a scope binds when the guests `names` have been bound in it, numbered from `k`. -/
def guests (k : Nat) (names : List ν) : List (ν × Option Nat) :=
  ((names.zipIdx k).map fun x => (x.1, some x.2)).reverse

section
variable {outer : Scopes ν} {scope : List (ν × Option Nat)} {names : List ν} {k i : Nat} {n : ν}

theorem guests_cons : guests k (n :: names) = guests (k + 1) names ++ [(n, some k)] := by
  rw [guests, List.zipIdx_cons, List.map_cons, List.reverse_cons]
  rfl

variable [DecidableEq ν]

theorem resolve_cons : resolve (scope :: outer) n = (scope.lookup n).or (resolve outer n) := rfl

theorem lookup_guests_of_notMem (h : n ∉ names) : (guests k names).lookup n = none := by
  rw [List.lookup_eq_none_iff]
  intro p hp
  obtain ⟨y, hy, rfl⟩ := List.mem_map.mp (List.mem_reverse.mp hp)
  have hm : y.1 ∈ names := List.fst_mem_of_mem_zipIdx hy
  simp only [bne_iff_ne, ne_eq]
  rintro rfl
  exact h hm

theorem lookup_guests (hnd : names.Nodup) (hi : names[i]? = some n) :
    (guests k names).lookup n = some (some (k + i)) := by
  induction names generalizing k i with
  | nil => cases hi
  | cons a names ih =>
    rw [List.nodup_cons] at hnd
    rw [guests_cons, List.lookup_append]
    cases i with
    | zero =>
      cases hi
      rw [lookup_guests_of_notMem hnd.1]
      simp
    | succ i =>
      rw [ih hnd.2 hi, Option.some_or, Nat.add_right_comm, Nat.add_assoc]

end

/-! ## Scopes of the host with guests in one -/

/-- Nothing in the scopes is a guest's. -/
def Owned (scopes : Scopes ν) : Prop := ∀ scope ∈ scopes, ∀ e ∈ scope, e.2 = none

/-- The host's names `top` bound behind the guests `names`, these behind the host's `bottom`. -/
def frame (top names bottom : List ν) : List (ν × Option Nat) :=
  top.map (·, none) ++ (guests 0 names ++ bottom.map (·, none))

section
variable [DecidableEq ν] {outer : Scopes ν} {top names bottom : List ν} {n : ν} {i : Nat}

theorem lookup_owned {scope : List (ν × Option Nat)} (h : ∀ e ∈ scope, e.2 = none) (n : ν) :
    scope.lookup n = if n ∈ scope.map Prod.fst then some none else none := by
  induction scope with
  | nil => rfl
  | cons e scope ih =>
    rw [List.forall_mem_cons] at h
    obtain ⟨m, who⟩ := e
    obtain rfl : who = none := h.1
    rw [List.lookup_cons, ih h.2, List.map_cons]
    by_cases hn : n = m
    · simp [hn]
    · by_cases hm : n ∈ scope.map Prod.fst
      · rw [if_pos hm, if_pos (List.mem_cons_of_mem m hm), beq_eq_false_iff_ne.mpr hn]
      · rw [if_neg hm, if_neg (List.not_mem_cons_of_ne_of_not_mem hn hm),
          beq_eq_false_iff_ne.mpr hn]

theorem resolve_owned (h : Owned outer) (n : ν) :
    outer.resolve n = none ∨ outer.resolve n = some none := by
  induction outer with
  | nil => exact .inl rfl
  | cons scope outer ih =>
    obtain ⟨hs, ho⟩ := List.forall_mem_cons.mp h
    rw [resolve_cons, lookup_owned hs]
    split
    · exact .inr rfl
    · exact ih ho

theorem means_owned (h : Owned outer) (n : ν) : outer.means n = none := by
  unfold means
  rcases resolve_owned h n with hr | hr <;> rw [hr] <;> rfl

theorem lookup_hosts (hosts : List ν) (n : ν) :
    (hosts.map fun m => (m, (none : Option Nat))).lookup n = if n ∈ hosts then some none else none := by
  have h := @lookup_owned _ _ (hosts.map fun m => (m, (none : Option Nat)))
    (List.forall_mem_map.mpr fun _ _ => rfl) n
  rwa [List.map_map, Function.comp_def, List.map_id'] at h

/-- In an inner scope of the host's names everything of the host's still is. -/
theorem means_inner {scopes : Scopes ν} (hosts : List ν) (h : n ∈ hosts ∨ scopes.means n = none) :
    Scopes.means (hosts.map (·, none) :: scopes) n = none := by
  rw [means, resolve_cons, lookup_hosts]
  by_cases hn : n ∈ hosts
  · rw [if_pos hn]
    rfl
  · rw [if_neg hn]
    exact h.resolve_left hn

theorem exists_lookup_guests {k : Nat} (h : n ∈ names) :
    ∃ j, (guests k names).lookup n = some (some j) := by
  induction names generalizing k with
  | nil => cases h
  | cons a names ih =>
    rw [guests_cons, List.lookup_append]
    by_cases hn : n ∈ names
    · obtain ⟨j, hj⟩ := ih hn
      exact ⟨j, by rw [hj]; rfl⟩
    · obtain rfl := (List.mem_cons.mp h).resolve_right hn
      rw [lookup_guests_of_notMem hn]
      exact ⟨k, by simp⟩

theorem lookup_frame_of_notMem (h : n ∉ names) :
    (frame top names bottom).lookup n = if n ∈ top ∨ n ∈ bottom then some none else none := by
  rw [frame, List.lookup_append, List.lookup_append, lookup_hosts, lookup_hosts,
    lookup_guests_of_notMem h]
  by_cases ht : n ∈ top <;> by_cases hb : n ∈ bottom <;> simp [ht, hb]

theorem exists_lookup_frame (bottom : List ν) (ht : n ∉ top) (h : n ∈ names) :
    ∃ j, (frame top names bottom).lookup n = some (some j) := by
  obtain ⟨j, hj⟩ := exists_lookup_guests (k := 0) h
  refine ⟨j, ?_⟩
  rw [frame, List.lookup_append, List.lookup_append, lookup_hosts, if_neg ht, hj]
  rfl

/-- A name means the host where it is not a guest's. -/
theorem means_frame_iff (ho : Owned outer) (ht : ∀ m ∈ top, m ∉ names) :
    Scopes.means (frame top names bottom :: outer) n = none ↔ n ∉ names := by
  by_cases hn : n ∈ names
  · obtain ⟨j, hj⟩ := exists_lookup_frame bottom (fun h => ht n h hn) hn
    rw [means, resolve_cons, hj]
    exact ⟨fun h => (by cases h), fun h => absurd hn h⟩
  · refine iff_of_true ?_ hn
    rw [means, resolve_cons, lookup_frame_of_notMem hn]
    split
    · rfl
    · exact means_owned ho n

theorem means_frame_guest (hnd : names.Nodup) (ht : ∀ m ∈ top, m ∉ names)
    (hi : names[i]? = some n) :
    Scopes.means (frame top names bottom :: outer) n = some i := by
  have hn : n ∉ top := fun h => ht n h (List.mem_of_getElem? hi)
  rw [means, resolve_cons, frame, List.lookup_append, List.lookup_append, lookup_hosts, if_neg hn,
    lookup_guests hnd hi, Nat.zero_add]
  rfl

theorem mayBind_frame_iff (ht : ∀ m ∈ top, m ∉ names) :
    Scopes.MayBind (frame top names bottom :: outer) none n ↔ n ∉ names := by
  show ((frame top names bottom).lookup n).getD none = none ↔ _
  by_cases hn : n ∈ names
  · obtain ⟨j, hj⟩ := exists_lookup_frame bottom (fun h => ht n h hn) hn
    rw [hj]
    exact ⟨fun h => (by cases h), fun h => absurd hn h⟩
  · refine iff_of_true ?_ hn
    rw [lookup_frame_of_notMem hn]
    split <;> rfl

/-- A guest's name is new behind others where it is not one of theirs, and no name in view. -/
theorem mayBind_guest_iff :
    Scopes.MayBind (frame [] names bottom :: outer) (some i) n ↔
      n ∉ names ∧ n ∉ bottom ∧ outer.resolve n = none := by
  show resolve _ n = none ↔ _
  rw [resolve_cons]
  by_cases hn : n ∈ names
  · obtain ⟨j, hj⟩ := exists_lookup_frame bottom (List.not_mem_nil (a := n)) hn
    rw [hj]
    exact ⟨fun h => (by cases h), fun h => absurd hn h.1⟩
  · rw [lookup_frame_of_notMem hn]
    by_cases hb : n ∈ bottom <;> simp [hn, hb]

end

/-! ## Names in view -/

/-- The names in view. -/
def Scopes.inView (scopes : Scopes ν) : List ν := scopes.flatMap fun scope => scope.map Prod.fst

theorem resolve_eq_none_iff [DecidableEq ν] {scopes : Scopes ν} {n : ν} :
    scopes.resolve n = none ↔ n ∉ scopes.inView := by
  induction scopes with
  | nil => exact iff_of_true rfl List.not_mem_nil
  | cons scope scopes ih =>
    have hv : inView (scope :: scopes) = scope.map Prod.fst ++ inView scopes := rfl
    rw [resolve_cons, Option.or_eq_none_iff, ih, hv, List.mem_append, not_or,
      List.lookup_eq_none_iff]
    refine and_congr_left fun _ => ?_
    rw [List.mem_map, not_exists]
    refine forall_congr' fun e => ?_
    rw [bne_iff_ne, not_and]
    exact forall_congr' fun _ => ⟨fun h he => h he.symm, fun h he => h he.symm⟩

theorem owned_nil : Owned ([] : Scopes ν) := fun _ h => absurd h List.not_mem_nil

section
variable {outer : Scopes ν} {view : List ν}

theorem owned_hosts (hosts : List ν) (ho : Owned outer) :
    Owned (hosts.map (·, (none : Option Nat)) :: outer) :=
  List.forall_mem_cons.mpr ⟨List.forall_mem_map.mpr fun _ _ => rfl, ho⟩

theorem inView_hosts (hosts : List ν) (hv : outer.inView = view) :
    Scopes.inView (hosts.map (·, (none : Option Nat)) :: outer) = hosts ++ view := by
  rw [← hv, Scopes.inView, List.flatMap_cons, List.map_map]
  simp [Function.comp_def, Scopes.inView]

end

/-- The guests' names are distinct, and none of the `reserved`. -/
def Fresh (names reserved : List ν) : Prop := names.Nodup ∧ ∀ n ∈ names, n ∉ reserved

instance [DecidableEq ν] (names reserved : List ν) : Decidable (Fresh names reserved) :=
  inferInstanceAs (Decidable (_ ∧ _))

theorem Fresh.congr {names reserved reserved' : List ν} (h : ∀ n, n ∈ reserved ↔ n ∈ reserved') :
    Fresh names reserved ↔ Fresh names reserved' :=
  and_congr_right fun _ => forall₂_congr fun n _ => not_congr (h n)

theorem fresh_append {names reserved reserved' : List ν} :
    Fresh names (reserved ++ reserved') ↔ Fresh names reserved ∧ Fresh names reserved' := by
  simp only [Fresh, List.mem_append, not_or, forall_and]
  tauto

theorem Fresh.mono {names reserved reserved' : List ν} (h : Fresh names reserved)
    (hr : ∀ n ∈ reserved', n ∈ reserved) : Fresh names reserved' :=
  ⟨h.1, fun n hn hm => h.2 n hn (hr n hm)⟩

/-! ## Text of the host -/

def Event.IsHost : Event ν → Prop
  | enter | leave => True
  | bind who _ | use who _ => who = none

/-- The names replaced. -/
def Event.rename (f : ν → ν) : Event ν → Event ν
  | enter => enter
  | leave => leave
  | bind who n => bind who (f n)
  | use who n => use who (f n)

/-- Text of the host alone that leaves the scopes as they are. -/
structure Quiet (es : List (Event ν)) : Prop where
  still : Still es
  host : ∀ e ∈ es, e.IsHost

namespace Quiet

variable {es fs : List (Event ν)}

theorem nil : Quiet ([] : List (Event ν)) := ⟨still_nil, fun _ h => (by cases h)⟩

theorem append (hes : Quiet es) (hfs : Quiet fs) : Quiet (es ++ fs) :=
  ⟨hes.still.append hfs.still, List.forall_mem_append.mpr ⟨hes.host, hfs.host⟩⟩

theorem flatMap {f : α → List (Event ν)} {xs : List α} (h : ∀ x ∈ xs, Quiet (f x)) :
    Quiet (xs.flatMap f) :=
  ⟨.flatMap fun x hx => (h x hx).still,
    List.forall_mem_flatMap.mpr fun x hx => (h x hx).host⟩

theorem use (n : ν) : Quiet [.use none n] :=
  ⟨still_use none n, List.forall_mem_singleton.mpr rfl⟩

theorem sound [DecidableEq ν] {scopes : Scopes ν} (h : Quiet es) (ho : Owned scopes) :
    Sound scopes es := by
  obtain ⟨-, h⟩ := h
  induction es generalizing scopes with
  | nil => trivial
  | cons e es ih =>
    obtain ⟨he, hes⟩ := List.forall_mem_cons.mp h
    cases e with
    | enter => exact ih (List.forall_mem_cons.mpr ⟨fun _ h => (by cases h), ho⟩) hes
    | leave => exact ih (fun scope hs => ho scope (List.mem_of_mem_tail hs)) hes
    | bind who n =>
      obtain rfl : who = none := he
      cases scopes with
      | nil =>
        exact ⟨trivial, ih (List.forall_mem_singleton.mpr (List.forall_mem_singleton.mpr rfl)) hes⟩
      | cons scope outer =>
        obtain ⟨hs, ho'⟩ := List.forall_mem_cons.mp ho
        refine ⟨?_, ih (List.forall_mem_cons.mpr ⟨List.forall_mem_cons.mpr ⟨rfl, hs⟩, ho'⟩) hes⟩
        show (scope.lookup n).getD none = none
        rw [lookup_owned hs]
        split <;> rfl
    | use who n =>
      obtain rfl : who = none := he
      exact ⟨means_owned ho n, ih ho hes⟩

end Quiet

/-- Text of the host alone that closes the scopes it opens. -/
structure Hosted (es : List (Event ν)) : Prop where
  balanced : Balanced es
  host : ∀ e ∈ es, e.IsHost

namespace Hosted

variable {es fs : List (Event ν)}

theorem nil : Hosted ([] : List (Event ν)) := ⟨still_nil.balanced, fun _ h => (by cases h)⟩

theorem append (hes : Hosted es) (hfs : Hosted fs) : Hosted (es ++ fs) :=
  ⟨hes.balanced.append hfs.balanced, List.forall_mem_append.mpr ⟨hes.host, hfs.host⟩⟩

theorem flatMap {f : α → List (Event ν)} {xs : List α} (h : ∀ x ∈ xs, Hosted (f x)) :
    Hosted (xs.flatMap f) :=
  ⟨.flatMap fun x hx => (h x hx).balanced,
    List.forall_mem_flatMap.mpr fun x hx => (h x hx).host⟩

theorem bind (n : ν) : Hosted [.bind none n] :=
  ⟨balanced_bind none n, List.forall_mem_singleton.mpr rfl⟩

theorem use (n : ν) : Hosted [.use none n] :=
  ⟨(still_use none n).balanced, List.forall_mem_singleton.mpr rfl⟩

/-- A scope of its own around such a text. -/
theorem block (h : Hosted es) : Quiet (.enter :: (es ++ [.leave])) := by
  refine ⟨h.balanced.still_block, List.forall_mem_cons.mpr ⟨trivial, ?_⟩⟩
  exact List.forall_mem_append.mpr ⟨h.host, List.forall_mem_singleton.mpr trivial⟩

end Hosted

theorem Quiet.hosted {es : List (Event ν)} (h : Quiet es) : Hosted es := ⟨h.still.balanced, h.host⟩

/-- A scope of its own in which the host binds `hosts` first. -/
def scopeWith (hosts : List ν) (es : List (Event ν)) : List (Event ν) :=
  .enter :: (hosts.reverse.map (.bind none) ++ es ++ [.leave])

theorem sound_scope [DecidableEq ν] (hosts : List ν) (outer : Scopes ν) {es : List (Event ν)}
    (h : Balanced es) :
    (Sound outer (scopeWith hosts es) ↔
      Sound (hosts.map (·, none) :: outer) es) ∧
      Still (scopeWith hosts es) := by
  have hbinds : ∀ names : List ν, Balanced (names.map (Event.bind none)) ∧ ∀ scope : List ν,
      Sound (scope.map (·, none) :: outer) (names.map (.bind none)) ∧
      after (scope.map (·, none) :: outer) (names.map (.bind none)) =
        (names.reverse ++ scope).map (·, none) :: outer := by
    intro names
    induction names with
    | nil => exact ⟨still_nil.balanced, fun scope => ⟨trivial, rfl⟩⟩
    | cons n names ih =>
      refine ⟨(balanced_bind none n).append ih.1, fun scope => ?_⟩
      obtain ⟨hs, ha⟩ := ih.2 (n :: scope)
      refine ⟨⟨?_, hs⟩, ?_⟩
      · show ((scope.map (·, none)).lookup n).getD none = none
        rw [lookup_hosts]
        split <;> rfl
      · rw [List.reverse_cons, List.append_assoc]
        exact ha
  obtain ⟨hbal, hb⟩ := hbinds hosts.reverse
  obtain ⟨hsb, hab⟩ := hb []
  rw [List.reverse_reverse, List.append_nil] at hab
  refine ⟨?_, (hbal.append h).still_block⟩
  rw [scopeWith, sound_block, sound_append]
  show Sound (([] : List ν).map (·, none) :: outer) _ ∧
    Sound (after (([] : List ν).map (·, none) :: outer) _) _ ↔ _
  rw [hab]
  exact and_iff_right hsb

/-- Such a scope where only the middle has guests. -/
theorem sound_function [DecidableEq ν] (hosts : List ν) {outer : Scopes ν} (ho : Owned outer)
    {pre mid post : List (Event ν)} (hpre : Quiet pre) (hmid : Still mid) (hpost : Quiet post) :
    (Sound outer (scopeWith hosts (pre ++ (mid ++ post))) ↔
      Sound (hosts.map (·, none) :: outer) mid) ∧
      Still (scopeWith hosts (pre ++ (mid ++ post))) := by
  have ho' : Owned (hosts.map (·, (none : Option Nat)) :: outer) :=
    List.forall_mem_cons.mpr ⟨List.forall_mem_map.mpr fun _ _ => rfl, ho⟩
  obtain ⟨hs, hst⟩ := sound_scope hosts outer (hpre.still.append (hmid.append hpost.still)).balanced
  refine ⟨hs.trans ?_, hst⟩
  rw [sound_append, hpre.still, sound_append, hmid, and_iff_right (hpre.sound ho'),
    and_iff_left (hpost.sound ho')]

/-! ## Guests that arrive -/

/-- The guests bound one after another, numbered from `k`, each with what follows it. -/
def arrivals (name : α → ν) (extra : α × Nat → List (Event ν)) (k : Nat) (xs : List α) :
    List (Event ν) :=
  (xs.zipIdx k).flatMap fun x => .bind (some x.2) (name x.1) :: extra x

theorem frame_snoc {names bottom : List ν} {n : ν} :
    (n, some names.length) :: frame [] names bottom = frame [] (names ++ [n]) bottom := by
  rw [frame, frame, guests, guests, List.zipIdx_append, List.map_append, List.reverse_append]
  simp

theorem still_uses {es : List (Event ν)} (h : ∀ e ∈ es, ∃ who m, e = .use who m) : Still es := by
  induction es with
  | nil => exact still_nil
  | cons e es ih =>
    obtain ⟨⟨who, m, rfl⟩, hes⟩ := List.forall_mem_cons.mp h
    exact (still_use who m).append (ih hes)

section
variable {name : α → ν} {extra : α × Nat → List (Event ν)} {outer : Scopes ν} {names bottom : List ν}

theorem arrivals_cons (x : α) (xs : List α) :
    arrivals name extra names.length (x :: xs) =
      .bind (some names.length) (name x) :: (extra (x, names.length) ++
        arrivals name extra (names ++ [name x]).length xs) := by
  rw [List.length_append]
  rfl

theorem step_arrival (n : ν) :
    step (frame [] names bottom :: outer) (.bind (some names.length) n) =
      frame [] (names ++ [n]) bottom :: outer := by
  show ((n, some names.length) :: frame [] names bottom) :: outer = _
  rw [frame_snoc]

theorem after_arrivals (he : ∀ x, Still (extra x)) (xs : List α) :
    after (frame [] names bottom :: outer) (arrivals name extra names.length xs) =
      frame [] (names ++ xs.map name) bottom :: outer := by
  induction xs generalizing names with
  | nil =>
    rw [List.map_nil, List.append_nil]
    rfl
  | cons x xs ih =>
    rw [arrivals_cons]
    show after (step _ _) (_ ++ _) = _
    rw [step_arrival, after_append, he, ih, List.append_assoc]
    rfl

theorem balanced_arrivals (he : ∀ x, Still (extra x)) {k : Nat} (xs : List α) :
    Balanced (arrivals name extra k xs) :=
  .flatMap fun x _ => (balanced_bind (some x.2) (name x.1)).append (he x).balanced

end

section
variable [DecidableEq ν] {outer : Scopes ν} {names bottom : List ν}

theorem sound_uses {scopes : Scopes ν} {es : List (Event ν)}
    (h : ∀ e ∈ es, ∃ who m, scopes.means m = who ∧ e = .use who m) : Sound scopes es := by
  induction es with
  | nil => trivial
  | cons e es ih =>
    obtain ⟨⟨who, m, hm, rfl⟩, hes⟩ := List.forall_mem_cons.mp h
    exact ⟨hm, ih hes⟩

section
variable {name : α → ν} {extra : α × Nat → List (Event ν)}

/-- Guests can arrive where their names are distinct and no name in view; what follows each may
use names of the host in view. -/
theorem sound_arrivals (ho : Owned outer)
    (he : ∀ x, ∀ e ∈ extra x, ∃ m, ¬ (m ∉ bottom ∧ outer.resolve m = none) ∧ e = .use none m)
    (hv : ∀ n ∈ names, n ∉ bottom ∧ outer.resolve n = none) (xs : List α) :
    Sound (frame [] names bottom :: outer) (arrivals name extra names.length xs) ↔
      (xs.map name).Nodup ∧
        ∀ n ∈ xs.map name, n ∉ names ∧ n ∉ bottom ∧ outer.resolve n = none := by
  induction xs generalizing names with
  | nil => simp [arrivals, Sound]
  | cons x xs ih =>
    have hstill : Still (extra (x, names.length)) := still_uses fun e hm => by
      obtain ⟨m, -, rfl⟩ := he _ e hm
      exact ⟨none, m, rfl⟩
    have huses : (∀ n ∈ names ++ [name x], n ∉ bottom ∧ outer.resolve n = none) →
        Sound (frame [] (names ++ [name x]) bottom :: outer) (extra (x, names.length)) := by
      intro hx
      refine sound_uses fun e hm => ?_
      obtain ⟨m, hview, rfl⟩ := he _ e hm
      exact ⟨none, m, (means_frame_iff ho fun _ h => (by cases h)).mpr fun hmem =>
        hview (hx m hmem), rfl⟩
    have hnew : name x ∉ bottom ∧ outer.resolve (name x) = none →
        ∀ n ∈ names ++ [name x], n ∉ bottom ∧ outer.resolve n = none := by
      intro hx
      exact List.forall_mem_append.mpr ⟨hv, List.forall_mem_singleton.mpr hx⟩
    rw [arrivals_cons]
    show Scopes.MayBind _ _ _ ∧ Sound (step _ _) (_ ++ _) ↔ _
    rw [step_arrival, sound_append, hstill, mayBind_guest_iff, List.map_cons, List.nodup_cons,
      List.forall_mem_cons]
    constructor
    · rintro ⟨⟨hn, hx⟩, -, hs⟩
      obtain ⟨hnd, hall⟩ := (ih (hnew hx)).mp hs
      refine ⟨⟨fun hm => ?_, hnd⟩, ⟨hn, hx⟩, fun n hm => ⟨fun h => ?_, (hall n hm).2⟩⟩
      · exact (hall _ hm).1 (List.mem_append_right _ List.mem_cons_self)
      · exact (hall n hm).1 (List.mem_append_left _ h)
    · rintro ⟨⟨hx', hnd⟩, ⟨hn, hx⟩, hall⟩
      refine ⟨⟨hn, hx⟩, huses (hnew hx), (ih (hnew hx)).mpr ⟨hnd, fun n hm => ⟨fun h => ?_, ?_⟩⟩⟩
      · rcases List.mem_append.mp h with h | h
        · exact (hall n hm).1 h
        · exact hx' (List.mem_singleton.mp h ▸ hm)
      · exact (hall n hm).2

end

/-! ## Text around guests -/

/-- A text behind the guests `names`, in their scope, with no further guests. It may rely on the
host's names `known` to be no guest's; `claimed` are those that it claims by binding or using
them itself. -/
inductive Around (names : List ν) : List ν → List (Event ν) → List ν → Prop
  | nil {known : List ν} : Around names known [] []
  | bind {known claimed : List ν} {n : ν} {es : List (Event ν)} :
    Around names (n :: known) es claimed → Around names known (.bind none n :: es) (n :: claimed)
  | use {known claimed : List ν} {n : ν} {es : List (Event ν)} :
    Around names (n :: known) es claimed → Around names known (.use none n :: es) (n :: claimed)
  /-- A part that is sound where what it uses means whom it should, and leaves the scopes. -/
  | part {known claimed : List ν} {p es : List (Event ν)} :
    (∀ scopes, (∀ n ∈ known, Scopes.means scopes n = none) →
      (∀ i n, names[i]? = some n → Scopes.means scopes n = some i) → Sound scopes p) →
    Still p → Around names known es claimed → Around names known (p ++ es) claimed

/-- A name that is known to be the host's is claimed already. -/
theorem Around.reuse {known claimed : List ν} {n : ν} {es : List (Event ν)} (hn : n ∈ known)
    (h : Around names known es claimed) : Around names known (.use none n :: es) claimed :=
  .part (p := [.use none n]) (fun _ hk _ => ⟨hk n hn, trivial⟩) (still_use none n) h

theorem Around.mono {known known' claimed : List ν} {es : List (Event ν)}
    (h : Around names known es claimed) (hk : ∀ n ∈ known, n ∈ known') :
    Around names known' es claimed := by
  induction h generalizing known' with
  | nil => exact .nil
  | bind _ ih =>
    refine .bind (ih fun n hn => ?_)
    exact (List.mem_cons.mp hn).elim (fun h => h ▸ List.mem_cons_self)
      fun h => List.mem_cons_of_mem _ (hk n h)
  | use _ ih =>
    refine .use (ih fun n hn => ?_)
    exact (List.mem_cons.mp hn).elim (fun h => h ▸ List.mem_cons_self)
      fun h => List.mem_cons_of_mem _ (hk n h)
  | part hp hs _ ih => exact .part (fun S hS => hp S fun n hn => hS n (hk n hn)) hs (ih hk)

theorem Around.append {known claimed claimed' : List ν} {es es' : List (Event ν)}
    (h : Around names known es claimed) (h' : Around names known es' claimed') :
    Around names known (es ++ es') (claimed ++ claimed') := by
  induction h with
  | nil => exact h'
  | bind _ ih => exact .bind (ih (h'.mono fun n hn => List.mem_cons_of_mem _ hn))
  | use _ ih => exact .use (ih (h'.mono fun n hn => List.mem_cons_of_mem _ hn))
  | part hp hs _ ih =>
    rw [List.append_assoc]
    exact .part hp hs (ih h')

theorem Around.each {β : Type} {known : List ν} {f : β → List (Event ν)} {claims : β → List ν}
    {xs : List β} (h : ∀ x ∈ xs, Around names known (f x) (claims x)) :
    Around names known (xs.flatMap f) (xs.flatMap claims) := by
  induction xs with
  | nil => exact .nil
  | cons x xs ih =>
    rw [List.forall_mem_cons] at h
    exact h.1.append (ih h.2)

theorem Around.flatMap {β : Type} {known : List ν} {f : β → List (Event ν)} {xs : List β}
    (h : ∀ x ∈ xs, Around names known (f x) []) : Around names known (xs.flatMap f) [] := by
  have hnone : (xs.flatMap fun _ => ([] : List ν)) = [] := List.flatMap_eq_nil_iff.mpr fun _ _ => rfl
  rw [← hnone]
  exact .each h

theorem Around.balanced {known claimed : List ν} {es : List (Event ν)}
    (h : Around names known es claimed) : Balanced es := by
  induction h with
  | nil => exact still_nil.balanced
  | bind _ ih => exact (balanced_bind none _).append ih
  | use _ ih => exact (still_use none _).balanced.append ih
  | part _ hs _ ih => exact hs.balanced.append ih

/-- The text is sound where no guest has a name that it claims. -/
theorem Around.sound_iff {known claimed top : List ν} {es : List (Event ν)}
    (h : Around names known es claimed) (ho : Owned outer) (hnd : names.Nodup)
    (ht : ∀ n ∈ top, n ∉ names) (hk : ∀ n ∈ known, n ∉ names) :
    Sound (frame top names bottom :: outer) es ↔ ∀ n ∈ claimed, n ∉ names := by
  induction h generalizing top with
  | nil => simp [Sound]
  | @bind known claimed n es _ ih =>
    show Scopes.MayBind _ _ _ ∧ Sound (frame (n :: top) names bottom :: outer) es ↔ _
    rw [mayBind_frame_iff ht, List.forall_mem_cons]
    refine and_congr_right fun hn => ?_
    exact ih (List.forall_mem_cons.mpr ⟨hn, ht⟩) (List.forall_mem_cons.mpr ⟨hn, hk⟩)
  | @use known claimed n es _ ih =>
    show Scopes.means _ _ = none ∧ Sound _ es ↔ _
    rw [means_frame_iff ho ht, List.forall_mem_cons]
    exact and_congr_right fun hn => ih ht (List.forall_mem_cons.mpr ⟨hn, hk⟩)
  | @part known claimed p es hp hs _ ih =>
    rw [sound_append, hs, ih ht hk]
    refine and_iff_right (hp _ (fun n hn => (means_frame_iff ho ht).mpr (hk n hn)) ?_)
    exact fun i n hi => means_frame_guest hnd ht hi

section
variable {name : α → ν} {extra : α × Nat → List (Event ν)} {xs : List α} {known claimed : List ν}
  {es : List (Event ν)}

/-- A scope in which guests arrive and are used is sound where their names are distinct, no names
in view and none that the text claims. -/
theorem sound_guests (ho : Owned outer)
    (he : ∀ x, ∀ e ∈ extra x, ∃ m ∈ bottom ++ outer.inView, e = .use none m)
    (hk : ∀ m ∈ known, m ∈ bottom ++ outer.inView) (h : Around (xs.map name) known es claimed) :
    Sound (bottom.map (·, none) :: outer) (arrivals name extra 0 xs ++ es) ↔
      Fresh (xs.map name) (bottom ++ outer.inView ++ claimed) := by
  have hview : ∀ n, n ∉ bottom ∧ outer.resolve n = none ↔ n ∉ bottom ++ outer.inView := fun n => by
    rw [resolve_eq_none_iff, List.mem_append, not_or]
  have hstill : ∀ x, Still (extra x) := fun x => still_uses fun e hm => by
    obtain ⟨m, -, rfl⟩ := he x e hm
    exact ⟨none, m, rfl⟩
  have hs : Sound (frame [] [] bottom :: outer) (arrivals name extra ([] : List ν).length xs) ↔ _ :=
    sound_arrivals ho (fun x e hmem => by
      obtain ⟨m, hm, rfl⟩ := he x e hmem
      exact ⟨m, fun h => (hview m).mp h hm, rfl⟩) (fun n hn => by cases hn) xs
  have ha : after (frame [] [] bottom :: outer) (arrivals name extra ([] : List ν).length xs) = _ :=
    after_arrivals hstill xs
  show Sound (frame [] [] bottom :: outer) (arrivals name extra ([] : List ν).length xs ++ es) ↔ _
  rw [sound_append, hs, ha, List.nil_append, fresh_append]
  simp only [hview]
  constructor
  · rintro ⟨⟨hnd, hn⟩, hes⟩
    have hfresh : ∀ n ∈ xs.map name, n ∉ bottom ++ outer.inView := fun n hm => (hn n hm).2
    refine ⟨⟨hnd, hfresh⟩, hnd, fun n hm hc => ?_⟩
    exact (h.sound_iff ho hnd (fun n hm => by cases hm)
      fun n hm hmem => hfresh n hmem (hk n hm)).mp hes n hc hm
  · rintro ⟨⟨hnd, hn⟩, -, hc⟩
    refine ⟨⟨hnd, fun n hm => ⟨List.not_mem_nil, hn n hm⟩⟩, ?_⟩
    exact (h.sound_iff ho hnd (fun n hm => by cases hm)
      fun n hm hmem => hn n hmem (hk n hm)).mpr fun n hm hmem => hc n hmem hm

/-- A scope of its own around a text with guests, with a name of the host bound in front. -/
theorem sound_member (bottom : List ν) (ho : Owned outer)
    (he : ∀ x, ∀ e ∈ extra x, ∃ m ∈ bottom ++ outer.inView, e = .use none m)
    (hk : ∀ m ∈ known, m ∈ bottom ++ outer.inView) (h : Around (xs.map name) known es claimed) :
    (Sound outer (scopeWith bottom (arrivals name extra 0 xs ++ es)) ↔
        Fresh (xs.map name) (bottom ++ outer.inView ++ claimed)) ∧
      Still (scopeWith bottom (arrivals name extra 0 xs ++ es)) := by
  have hstill : ∀ x, Still (extra x) := fun x => still_uses fun e hm => by
    obtain ⟨m, -, rfl⟩ := he x e hm
    exact ⟨none, m, rfl⟩
  obtain ⟨hs, hst⟩ := sound_scope bottom outer ((balanced_arrivals hstill xs).append h.balanced)
  exact ⟨hs.trans (sound_guests ho he hk h), hst⟩

end

end

end Hygiene
