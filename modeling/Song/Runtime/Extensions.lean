import Song.Error
import Song.Lib.Seats

/-!
# Named extensions (`runtime.cpp`)

`register_extension` gives a name one of the eight capability bits `ext_0` to
`ext_7`, and a name it knows the bit that name has. Over all sequences of calls
the names in use are those `Seats.seated` finds a seat for. The code looks for a
free slot before it looks for the name, so `Registers`, what the bits of a
sequence of calls should be, holds up to the point where a known name is given
again with no slot free (`registers_iff`).
-/

namespace Song

open Seats (seated)

/-- `wire::Capability::ext_0`. -/
def ext0 : UInt32 := 0x00010000

/-- `static_cast<u32>(wire::Capability::ext_0) << i`. -/
def extBit (i : Nat) : UInt32 := ext0 <<< UInt32.ofNat i

/-- The members of `ServiceRuntime` that `register_extension` works on. -/
structure Extensions where
  extensionNames : Vector Str 8
  nextExtensionSlot : Nat
  localCapabilities : UInt32
  slot_le : nextExtensionSlot ≤ 8

namespace Extensions

/-- A `ServiceRuntime` on which only `set_capability` was called so far. -/
def fresh (caps : UInt32) : Extensions := ⟨Vector.replicate 8 [], 0, caps, Nat.zero_le _⟩

def setCapability (e : Extensions) (cap : UInt32) : Extensions :=
  { e with localCapabilities := e.localCapabilities ||| cap }

/-- The `for` loop of the duplicate check: the first slot in use with this name. -/
def slotOf (e : Extensions) (name : Str) : Option Nat :=
  (List.range e.nextExtensionSlot).find? fun i => e.extensionNames[i]? == some name

def registerExtension (e : Extensions) (name : Str) : Except Exn UInt32 × Extensions :=
  if h : 8 ≤ e.nextExtensionSlot then
    (.error (.runtimeError (lit "All 8 extension capability slots are in use")), e)
  else
    match e.slotOf name with
    | some i => (.ok (extBit i), e)
    | none =>
      let slot := e.nextExtensionSlot
      let bit := extBit slot
      let e' : Extensions :=
        { e with
          extensionNames := e.extensionNames.set slot name (by omega)
          nextExtensionSlot := slot + 1
          slot_le := by omega }
      (.ok bit, e'.setCapability bit)

def hasExtension (e : Extensions) (name : Str) : Bool :=
  (List.range e.nextExtensionSlot).any fun i => e.extensionNames[i]? == some name

/-! ## The names in use -/

/-- The names in the slots in use, by slot. -/
def used (e : Extensions) : List Str := e.extensionNames.toList.take e.nextExtensionSlot

theorem length_used (e : Extensions) : e.used.length = e.nextExtensionSlot := by
  rw [used, List.length_take, Vector.length_toList]
  exact Nat.min_eq_left e.slot_le

theorem used_getElem? (e : Extensions) {i : Nat} (hi : i < e.nextExtensionSlot) :
    e.used[i]? = e.extensionNames[i]? := by
  have hlt : i < 8 := Nat.lt_of_lt_of_le hi e.slot_le
  rw [used, List.getElem?_take_of_lt hi, Vector.getElem?_eq_getElem hlt,
    List.getElem?_eq_getElem (by rw [Vector.length_toList]; exact hlt), Vector.getElem_toList]

theorem hasExtension_iff (e : Extensions) (name : Str) :
    e.hasExtension name = true ↔ name ∈ e.used := by
  rw [hasExtension, List.any_eq_true, List.mem_iff_getElem?]
  constructor
  · rintro ⟨i, hi, hn⟩
    rw [List.mem_range] at hi
    exact ⟨i, by rw [e.used_getElem? hi]; exact eq_of_beq hn⟩
  · rintro ⟨i, hi⟩
    have hlt : i < e.nextExtensionSlot := by
      rw [← e.length_used]
      exact (List.getElem?_eq_some_iff.mp hi).1
    rw [e.used_getElem? hlt] at hi
    exact ⟨i, List.mem_range.mpr hlt, beq_iff_eq.mpr hi⟩

/-- The slot found is one that holds the name. -/
theorem slotOf_eq_some {e : Extensions} {name : Str} {i : Nat} (h : e.slotOf name = some i) :
    e.used[i]? = some name := by
  have hi := List.mem_range.mp (List.mem_of_find?_eq_some h)
  have hb : (e.extensionNames[i]? == some name) = true :=
    List.find?_some (p := fun i => e.extensionNames[i]? == some name) h
  rw [e.used_getElem? hi]
  exact eq_of_beq hb

theorem slotOf_eq_none {e : Extensions} {name : Str} :
    e.slotOf name = none ↔ name ∉ e.used := by
  rw [← e.hasExtension_iff, hasExtension, slotOf, List.find?_eq_none, List.any_eq_true]
  simp only [not_exists, not_and]

/-! ## One call -/

theorem registerExtension_full {e : Extensions} (h : e.used.length = 8) (name : Str) :
    e.registerExtension name =
      (.error (.runtimeError (lit "All 8 extension capability slots are in use")), e) :=
  dif_pos (by rw [← e.length_used, h])

theorem registerExtension_known {e : Extensions} (h : e.used.length < 8) {name : Str}
    (hn : name ∈ e.used) :
    ∃ i, e.used[i]? = some name ∧ e.registerExtension name = (.ok (extBit i), e) := by
  rw [e.length_used] at h
  unfold registerExtension
  rw [dif_neg (Nat.not_le.mpr h)]
  cases hs : e.slotOf name with
  | none => exact absurd hn (slotOf_eq_none.mp hs)
  | some i => exact ⟨i, slotOf_eq_some hs, rfl⟩

theorem registerExtension_new {e : Extensions} (h : e.used.length < 8) {name : Str}
    (hn : name ∉ e.used) :
    (e.registerExtension name).1 = .ok (extBit e.used.length) ∧
      (e.registerExtension name).2.used = e.used ++ [name] := by
  rw [e.length_used] at h
  rw [e.length_used]
  unfold registerExtension
  rw [dif_neg (Nat.not_le.mpr h), slotOf_eq_none.mpr hn]
  refine ⟨rfl, ?_⟩
  show (e.extensionNames.set e.nextExtensionSlot name h).toList.take (e.nextExtensionSlot + 1) = _
  rw [List.take_add_one, Vector.toList_set, List.take_set_of_le (Nat.le_refl _),
    List.getElem?_set_self (by rw [Vector.length_toList]; exact h)]
  rfl

/-- A call seats its name. -/
theorem used_registerExtension (e : Extensions) (name : Str) :
    (e.registerExtension name).2.used = Seats.seat 8 e.used name := by
  rcases Nat.lt_or_ge e.used.length 8 with h | h
  · by_cases hn : name ∈ e.used
    · obtain ⟨_, _, he⟩ := registerExtension_known h hn
      rw [he, Seats.seat_of_mem hn]
    · rw [Seats.seat_of_room hn h]
      exact (registerExtension_new h hn).2
  · have h8 : e.used.length = 8 := by
      have := e.slot_le
      rw [e.length_used] at h ⊢
      omega
    rw [registerExtension_full h8, Seats.seat_of_full h]

/-- A call that returns, returns the bit of the slot that holds the name. -/
theorem registerExtension_ok {e : Extensions} {name : Str} {b : UInt32}
    (h : (e.registerExtension name).1 = .ok b) :
    e.used.length < 8 ∧
      ∃ i, b = extBit i ∧ (e.registerExtension name).2.used[i]? = some name := by
  rcases Nat.lt_or_ge e.used.length 8 with hl | hl
  · refine ⟨hl, ?_⟩
    by_cases hn : name ∈ e.used
    · obtain ⟨i, hi, he⟩ := registerExtension_known hl hn
      rw [he] at h ⊢
      cases h
      exact ⟨i, rfl, hi⟩
    · obtain ⟨hb, hu⟩ := registerExtension_new hl hn
      rw [hb] at h
      cases h
      exact ⟨_, rfl, by rw [hu, List.getElem?_concat_length]⟩
  · have h8 : e.used.length = 8 := by
      have := e.slot_le
      rw [e.length_used] at hl ⊢
      omega
    rw [registerExtension_full h8] at h
    cases h

/-! ## Sequences of calls -/

/-- The runtime after some calls. -/
def after (e : Extensions) (names : List Str) : Extensions :=
  names.foldl (fun e n => (e.registerExtension n).2) e

/-- What a call returns or throws after some calls. -/
def outcome (e : Extensions) (names : List Str) (name : Str) : Except Exn UInt32 :=
  ((e.after names).registerExtension name).1

theorem after_snoc (e : Extensions) (names : List Str) (name : Str) :
    e.after (names ++ [name]) = ((e.after names).registerExtension name).2 :=
  List.foldl_append

theorem used_after (caps : UInt32) (names : List Str) :
    ((fresh caps).after names).used = seated 8 names := by
  induction names using List.reverseRecOn with
  | nil => rfl
  | append_singleton names name ih =>
    rw [after_snoc, used_registerExtension, ih, Seats.seated_snoc]

theorem hasExtension_after (caps : UInt32) (names : List Str) (name : Str) :
    ((fresh caps).after names).hasExtension name = true ↔ name ∈ seated 8 names := by
  rw [hasExtension_iff, used_after]

/-- The call at `i` returned. -/
def Returned (e : Extensions) (names : List Str) (i : Nat) (n : Str) (b : UInt32) : Prop :=
  names[i]? = some n ∧ e.outcome (names.take i) n = .ok b

/-- What the calls of a sequence should do. -/
structure Registers (e : Extensions) (names : List Str) : Prop where
  /-- The registered names are those a call has returned for. -/
  registered : ∀ (j : Nat) (n : Str), (e.after (names.take j)).hasExtension n = true ↔
    ∃ i < j, ∃ b, e.Returned names i n b
  /-- A registered name given again gets its bit again, and nothing changes. -/
  again : ∀ {i j : Nat} {n : Str} {b : UInt32}, i < j → e.Returned names i n b →
    names[j]? = some n → e.Returned names j n b ∧
      e.after (names.take (j + 1)) = e.after (names.take j)
  distinct : ∀ {i j : Nat} {n n' : Str} {b : UInt32}, e.Returned names i n b →
    e.Returned names j n' b → n = n'
  ext : ∀ {i : Nat} {n : Str} {b : UInt32}, e.Returned names i n b → ∃ k < 8, b = extBit k
  /-- Only a ninth name throws. -/
  ninth : ∀ {j : Nat} {n : Str} {x : Exn}, names[j]? = some n →
    e.outcome (names.take j) n = .error x →
      (e.after (names.take j)).hasExtension n = false ∧
        ∃ known : List Str, known.Nodup ∧ known.length = 8 ∧
          ∀ m ∈ known, (e.after (names.take j)).hasExtension m = true

/-- A name that has a slot is given only while there is a free slot. -/
def Room (names : List Str) : Prop :=
  ∀ (j : Nat) (n : Str), names[j]? = some n → n ∈ seated 8 (names.take j) →
    (seated 8 (names.take j)).length < 8

theorem extBit_inj {i j : Nat} (hi : i < 8) (hj : j < 8) (h : extBit i = extBit j) : i = j := by
  have hall : ∀ i j : Fin 8, extBit i = extBit j → i = j := by decide
  exact congrArg Fin.val (hall ⟨i, hi⟩ ⟨j, hj⟩ h)

section

variable {caps : UInt32} {names : List Str} {i j : Nat} {n : Str} {b : UInt32}

theorem take_snoc (h : names[i]? = some n) : names.take i ++ [n] = names.take (i + 1) := by
  rw [List.take_add_one, h]
  rfl

theorem seated_take_le (names : List Str) (i : Nat) :
    seated 8 (names.take i) <+: seated 8 names := by
  have h := Seats.seated_le 8 (names.take i) (names.drop i)
  rwa [List.take_append_drop] at h

/-- A bit that was returned is that of the seat the name has in the end. -/
theorem Returned.seat (h : (fresh caps).Returned names i n b) :
    ∃ k < 8, b = extBit k ∧ (seated 8 names)[k]? = some n := by
  obtain ⟨hi, ho⟩ := h
  obtain ⟨_, k, hb, hk⟩ := registerExtension_ok ho
  rw [← after_snoc, used_after, take_snoc hi] at hk
  have hlt := (List.getElem?_eq_some_iff.mp hk).1
  have hle := Seats.length_seated_le 8 (names.take (i + 1))
  refine ⟨k, by omega, hb, ?_⟩
  obtain ⟨rest, hrest⟩ := seated_take_le names (i + 1)
  rw [← hrest, List.getElem?_append_left hlt, hk]

/-- While there is a free slot a call returns. -/
theorem returned_of_room (hi : names[i]? = some n) (h : (seated 8 (names.take i)).length < 8) :
    ∃ b, (fresh caps).Returned names i n b := by
  rw [← used_after caps] at h
  by_cases hn : n ∈ ((fresh caps).after (names.take i)).used
  · obtain ⟨k, _, he⟩ := registerExtension_known h hn
    exact ⟨_, hi, by rw [outcome, he]⟩
  · exact ⟨_, hi, (registerExtension_new h hn).1⟩

theorem Returned.room (h : (fresh caps).Returned names i n b) :
    (seated 8 (names.take i)).length < 8 := by
  rw [← used_after caps]
  exact (registerExtension_ok h.2).1

/-- With no slot free a call throws. -/
theorem full_of_error {x : Exn} (hj : names[j]? = some n)
    (h : (fresh caps).outcome (names.take j) n = .error x) :
    (seated 8 (names.take j)).length = 8 := by
  have hle := Seats.length_seated_le 8 (names.take j)
  by_contra hne
  have hroom : (seated 8 (names.take j)).length < 8 := by omega
  obtain ⟨b, _, hb⟩ : ∃ b, (fresh caps).Returned names j n b := returned_of_room hj hroom
  rw [hb] at h
  cases h

/-- The names with a slot are those for which a call has returned. -/
theorem registered_iff (caps : UInt32) (names : List Str) (j : Nat) (n : Str) :
    ((fresh caps).after (names.take j)).hasExtension n = true ↔
      ∃ i < j, ∃ b, (fresh caps).Returned names i n b := by
  rw [hasExtension_after]
  constructor
  · intro h
    obtain ⟨i, hi, hl⟩ := Seats.exists_of_mem_seated h
    have hlt : i < j := Nat.lt_of_lt_of_le (List.getElem?_eq_some_iff.mp hi).1
      (List.length_take_le j names)
    rw [List.getElem?_take_of_lt hlt] at hi
    rw [List.take_take, Nat.min_eq_left (Nat.le_of_lt hlt)] at hl
    exact ⟨i, hlt, returned_of_room hi hl⟩
  · rintro ⟨i, hlt, b, h⟩
    have hr := h.room
    refine Seats.mem_seated_of_room (i := i) ?_ ?_
    · rw [List.getElem?_take_of_lt hlt, h.1]
    · rwa [List.take_take, Nat.min_eq_left (Nat.le_of_lt hlt)]

/-- A name given again while there is a free slot gets its bit again. -/
theorem again_of_room (hij : i < j) (h : (fresh caps).Returned names i n b)
    (hj : names[j]? = some n) (hr : (seated 8 (names.take j)).length < 8) :
    (fresh caps).Returned names j n b ∧
      (fresh caps).after (names.take (j + 1)) = (fresh caps).after (names.take j) := by
  have hmem := (registered_iff caps names j n).mpr ⟨i, hij, b, h⟩
  rw [hasExtension_iff] at hmem
  rw [← used_after caps] at hr
  obtain ⟨k, _, he⟩ := registerExtension_known hr hmem
  have hret : (fresh caps).Returned names j n (extBit k) := ⟨hj, by rw [outcome, he]⟩
  -- both bits are that of the one seat the name has
  obtain ⟨k₁, _, rfl, hk₁⟩ := h.seat
  obtain ⟨k₂, _, hk, hk₂⟩ := hret.seat
  have hlt := (List.getElem?_eq_some_iff.mp hk₁).1
  obtain rfl := (List.getElem?_inj hlt (Seats.nodup_seated 8 names)).mp (hk₁.trans hk₂.symm)
  rw [hk] at hret
  refine ⟨hret, ?_⟩
  rw [← take_snoc hj, after_snoc, he]

end

/-- The calls of a sequence do what they should exactly when no name that has a slot is given
with all eight slots in use. -/
theorem registers_iff (caps : UInt32) (names : List Str) :
    (fresh caps).Registers names ↔ Room names := by
  constructor
  · intro h j n hj hn
    by_contra hfull
    obtain ⟨i, hij, b, hret⟩ :=
      (registered_iff caps names j n).mp ((hasExtension_after caps (names.take j) n).mpr hn)
    exact hfull (h.again hij hret hj).1.room
  · intro h
    refine ⟨registered_iff caps names, ?_, ?_, ?_, ?_⟩
    · intro i j n b hij hret hj
      have hn := (hasExtension_after caps (names.take j) n).mp
        ((registered_iff caps names j n).mpr ⟨i, hij, b, hret⟩)
      exact again_of_room hij hret hj (h j n hj hn)
    · intro i j n n' b hret hret'
      obtain ⟨k, hk8, hb, hk⟩ := hret.seat
      obtain ⟨k', hk8', hb', hk'⟩ := hret'.seat
      obtain rfl := extBit_inj hk8 hk8' (hb.symm.trans hb')
      exact Option.some.inj (hk.symm.trans hk')
    · intro i n b hret
      obtain ⟨k, hk, hb, _⟩ := hret.seat
      exact ⟨k, hk, hb⟩
    · intro j n x hj hx
      have hfull := full_of_error hj hx
      refine ⟨Bool.eq_false_iff.mpr fun hn => ?_, seated 8 (names.take j),
        Seats.nodup_seated _ _, hfull, fun m hm => (hasExtension_after _ _ m).mpr hm⟩
      have := h j n hj ((hasExtension_after _ _ n).mp hn)
      omega

/-- Eight names that fill the slots, and the first of them once more. -/
def nineCalls : List Str := [[0], [1], [2], [3], [4], [5], [6], [7], [0]]

theorem not_registers_nineCalls : ¬ (fresh 0).Registers nineCalls := by
  intro h
  have hx : (fresh 0).outcome (nineCalls.take 8) [0] =
      .error (.runtimeError (lit "All 8 extension capability slots are in use")) := by decide
  obtain ⟨hn, _⟩ := h.ninth (j := 8) rfl hx
  exact absurd hn (by decide)

end Extensions

end Song
