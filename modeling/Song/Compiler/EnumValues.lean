import Song.Compiler.Chains
import Song.Compiler.Calls
import Song.Compiler.CppText.Types
import Song.Compiler.PyText
import Song.PyWire

/-!
# The values of enum items

The Resolver, `<Enum>_name` and the Python class number the items of an enum each by
themselves, in 64 bits; the enumerators of the C++ class are numbered by the C++ compiler. The
numberings agree. Nothing checks that a value fits in the 32 bits it is encoded in.
-/

namespace Song.Compiler

open Cursor (Reads)

/-! ## Numbering -/

/-- The values that the code gives to the items; `next` is the one after the last. -/
def itemValues : Int64 → List EnumItem → List Int64
  | _, [] => []
  | next, item :: items => item.value.getD next :: itemValues (item.value.getD next + 1) items

/-- The value of an enumerator in C++: the one given, else the previous one and 1, else 0. -/
def enumeratorValue (previous : Option Int) (item : EnumItem) : Int :=
  match item.value, previous with
  | some v, _ => v.toInt
  | none, some p => p + 1
  | none, none => 0

def enumeratorValues : Option Int → List EnumItem → List Int
  | _, [] => []
  | previous, item :: items =>
    enumeratorValue previous item ::
      enumeratorValues (some (enumeratorValue previous item)) items

def EnumDef.itemNumbers (e : EnumDef) : List Int := enumeratorValues none e.items

/-- The collision check on items with their values. -/
def valueCollisions (parent : Str) : List (Int64 × Str) → List (Int64 × EnumItem) →
    List ResolverError
  | _, [] => []
  | seen, (val, item) :: rest =>
    (match seen.lookup val with
      | none => []
      | some other => [resolverError item.loc (lit "Enum value " ++ toStr val.toInt ++
          lit " for '" ++ item.name ++ lit "' collides with '" ++ other ++ lit "' in " ++
          parent)]) ++
    valueCollisions parent ((val, item.name) :: seen) rest

/-- The items that have a value no item in front of them has. -/
def firstItems : List Int64 → List (Int64 × EnumItem) → List EnumItem
  | _, [] => []
  | seen, (value, item) :: rest =>
    if value ∈ seen then firstItems seen rest else item :: firstItems (value :: seen) rest

section
open CppText in
/-- `case E::item: return "item";` -/
def caseLine (e : EnumDef) (item : EnumItem) : CppText.Line :=
  line [t "        case ", raw e.name, t "::", raw item.name, t ": return \"", raw item.name,
    t "\";"]

open PyText in
/-- `item = value` -/
def memberLine (item : EnumItem) (value : Int) : PyText.Line :=
  line [t "    ", raw item.name, t " = ", raw (toStr value), binds item.name]
end

section
variable {e : EnumDef} {parent : Str} {next : Int64} {items : List EnumItem}

@[simp] theorem length_itemValues : (itemValues next items).length = items.length := by
  induction items generalizing next with
  | nil => rfl
  | cons item items ih => rw [itemValues, List.length_cons, ih, List.length_cons]

@[simp] theorem length_enumeratorValues {previous : Option Int} :
    (enumeratorValues previous items).length = items.length := by
  induction items generalizing previous with
  | nil => rfl
  | cons item items ih => rw [enumeratorValues, List.length_cons, ih, List.length_cons]

theorem enumCollisions_eq {seen : List (Int64 × Str)} :
    enumCollisions parent seen next items =
      valueCollisions parent seen ((itemValues next items).zip items) := by
  induction items generalizing seen next with
  | nil => rfl
  | cons item items ih => exact congrArg (List.append _) ih

theorem enumCases_eq {seen : List Int64} :
    CppText.enumCases e seen next items =
      (firstItems seen ((itemValues next items).zip items)).map (caseLine e) := by
  induction items generalizing seen next with
  | nil => rfl
  | cons item items ih =>
    rw [CppText.enumCases, itemValues, List.zip_cons_cons, firstItems]
    by_cases hv : item.value.getD next ∈ seen
    · rw [if_pos hv, if_pos hv, ih]
    · rw [if_neg hv, if_neg hv, ih, List.map_cons]
      rfl

theorem pyEnumItems_eq :
    PyText.enumItems next items =
      List.zipWith memberLine items ((itemValues next items).map Int64.toInt) := by
  induction items generalizing next with
  | nil => rfl
  | cons item items ih =>
    rw [PyText.enumItems, itemValues, List.map_cons, List.zipWith_cons_cons, ih]
    rfl

theorem valueCollisions_eq_nil_iff {seen : List (Int64 × Str)} {xs : List (Int64 × EnumItem)} :
    valueCollisions parent seen xs = [] ↔
      (xs.map Prod.fst).Nodup ∧ ∀ x ∈ xs, x.1 ∉ seen.map Prod.fst := by
  induction xs generalizing seen with
  | nil => simp [valueCollisions]
  | cons x xs ih =>
    obtain ⟨val, item⟩ := x
    simp only [valueCollisions, List.append_eq_nil_iff, ih, List.map_cons, List.nodup_cons,
      List.mem_cons, not_or, forall_eq_or_imp]
    cases hl : seen.lookup val with
    | none =>
      have hval : val ∉ seen.map Prod.fst := by
        rw [List.lookup_eq_none_iff] at hl
        rintro hmem
        obtain ⟨y, hy, rfl⟩ := List.mem_map.mp hmem
        simpa using hl y hy
      refine ⟨fun ⟨_, hnd, hn⟩ => ⟨⟨?_, hnd⟩, hval, fun y hy => (hn y hy).2⟩,
        fun ⟨⟨hnot, hnd⟩, _, hn⟩ => ⟨rfl, hnd, fun y hy => ⟨?_, hn y hy⟩⟩⟩
      · rintro hmem
        obtain ⟨y, hy, he⟩ := List.mem_map.mp hmem
        exact (hn y hy).1 he
      · exact fun he => hnot (he ▸ List.mem_map_of_mem hy)
    | some other =>
      have hval : val ∈ seen.map Prod.fst := by
        obtain ⟨l₁, l₂, rfl, -⟩ := List.lookup_eq_some_iff.mp hl
        simp
      refine iff_of_false (fun h => ?_) fun h => h.2.1 hval
      cases h.1

theorem firstItems_eq {seen : List Int64} {xs : List (Int64 × EnumItem)}
    (hnd : (xs.map Prod.fst).Nodup) (hseen : ∀ x ∈ xs, x.1 ∉ seen) :
    firstItems seen xs = xs.map Prod.snd := by
  induction xs generalizing seen with
  | nil => rfl
  | cons x xs ih =>
    obtain ⟨hx, hseen⟩ := List.forall_mem_cons.mp hseen
    rw [List.map_cons, List.nodup_cons] at hnd
    rw [firstItems, if_neg hx, List.map_cons, ih hnd.2 fun y hy => ?_]
    rw [List.mem_cons, not_or]
    exact ⟨fun he => hnd.1 (he ▸ List.mem_map_of_mem hy), hseen y hy⟩

end

/-! ## The numberings agree -/

/-- What `E::item` is. -/
def EnumDef.enumerator (e : EnumDef) (item : Str) : Option Int :=
  ((e.items.map EnumItem.name).zip e.itemNumbers).lookup item

/-- `<Enum>_name`: the switch goes to the case of the enumerator with the value. -/
def EnumDef.nameOf (e : EnumDef) (v : Int) : Str :=
  match (firstItems [] ((itemValues 0 e.items).zip e.items)).find? fun item =>
      e.enumerator item.name == some v with
  | some item => item.name
  | none => lit "<unknown>"

/-- Every value is in 64 bits. -/
def EnumDef.InInt64 (e : EnumDef) : Prop := ∀ v ∈ e.itemNumbers, -2 ^ 63 ≤ v ∧ v < 2 ^ 63

/-- `vs` are the values by all four numberings. -/
structure EnumDef.Agreement (e : EnumDef) (vs : List Int64) : Prop where
  enumerators : e.itemNumbers = vs.map Int64.toInt
  collisions : enumCollisions e.name [] 0 e.items = valueCollisions e.name [] (vs.zip e.items)
  cases : CppText.enumCases e [] 0 e.items =
    (firstItems [] (vs.zip e.items)).map (caseLine e)
  members : PyText.enumItems 0 e.items = List.zipWith memberLine e.items (vs.map Int64.toInt)

section
variable {items : List EnumItem} {p : Int}

theorem Int64.add_one_eq_ofInt (v : Int64) : v + 1 = Int64.ofInt (v.toInt + 1) := by
  rw [Int64.ofInt_add, Int64.ofInt_toInt]
  rfl

/-- A first item without a value is numbered as behind a -1. -/
theorem enumeratorValues_none : enumeratorValues none items = enumeratorValues (some (-1)) items := by
  cases items with
  | nil => rfl
  | cons item items =>
    have : enumeratorValue none item = enumeratorValue (some (-1)) item := by
      unfold enumeratorValue
      cases item.value with
      | none => rfl
      | some v => rfl
    rw [enumeratorValues, enumeratorValues, this]

theorem map_itemValues (h : ∀ v ∈ enumeratorValues (some p) items, -2 ^ 63 ≤ v ∧ v < 2 ^ 63) :
    (itemValues (Int64.ofInt (p + 1)) items).map Int64.toInt = enumeratorValues (some p) items := by
  induction items generalizing p with
  | nil => rfl
  | cons item items ih =>
    rw [enumeratorValues, List.forall_mem_cons] at h
    have hval : (item.value.getD (Int64.ofInt (p + 1))).toInt = enumeratorValue (some p) item := by
      unfold enumeratorValue at h ⊢
      cases hv : item.value with
      | some v => rfl
      | none =>
        simp only [hv] at h
        exact Int64.toInt_ofInt_of_le h.1.1 h.1.2
    rw [itemValues, enumeratorValues, List.map_cons, hval, Int64.add_one_eq_ofInt, hval, ih h.2]

theorem EnumDef.InInt64.values_eq {e : EnumDef} (h : e.InInt64) :
    (itemValues 0 e.items).map Int64.toInt = e.itemNumbers := by
  rw [EnumDef.InInt64, EnumDef.itemNumbers, enumeratorValues_none] at h
  rw [EnumDef.itemNumbers, enumeratorValues_none]
  exact map_itemValues h

end

section
variable {ast : AST} {ns : Namespace} {e : EnumDef} (h : accepts ast = true)
  (hns : ns ∈ ast.namespaces) (he : e ∈ ns.enums)
include h hns he

theorem checkDuplicateEnumItems_eq_nil : checkDuplicateEnumItems e.items e.name = [] := by
  have hv := validated h hns
  simp only [validateNamespace, List.append_eq_nil_iff, List.flatMap_eq_nil_iff] at hv
  exact hv.1.1.1.1 e he

theorem nodup_itemNames : (e.items.map EnumItem.name).Nodup := by
  have hd := (List.append_eq_nil_iff.mp (checkDuplicateEnumItems_eq_nil h hns he)).1
  rw [duplicateErrors, List.map_eq_nil_iff, duplicates_eq_nil_iff, List.map_map] at hd
  exact hd.1

theorem nodup_itemValues : (itemValues 0 e.items).Nodup := by
  have hc := (List.append_eq_nil_iff.mp (checkDuplicateEnumItems_eq_nil h hns he)).2
  rw [enumCollisions_eq, valueCollisions_eq_nil_iff, List.map_fst_zip (by simp)] at hc
  exact hc.1

theorem firstItems_accepted : firstItems [] ((itemValues 0 e.items).zip e.items) = e.items := by
  rw [firstItems_eq _ fun _ _ => List.not_mem_nil, List.map_snd_zip (by simp)]
  rw [List.map_fst_zip (by simp)]
  exact nodup_itemValues h hns he

variable (h64 : e.InInt64)
include h64

theorem nodup_values : e.itemNumbers.Nodup := by
  rw [← h64.values_eq]
  exact (nodup_itemValues h hns he).map fun _ _ => Int64.toInt_inj.mp

end

/-- What stands beside a key of a list without repetition. -/
theorem lookup_zip_of_nodup {α β : Type} [BEq α] [LawfulBEq α] {ks : List α} {vs : List β} {i : Nat}
    {k : α} (hnd : ks.Nodup) (hlen : ks.length = vs.length) (hk : ks[i]? = some k) :
    (ks.zip vs).lookup k = vs[i]? := by
  induction ks generalizing vs i with
  | nil => cases hk
  | cons a ks ih =>
    cases vs with
    | nil => cases hlen
    | cons b vs =>
      rw [List.nodup_cons] at hnd
      cases i with
      | zero =>
        obtain rfl := Option.some.inj hk
        simp
      | succ i =>
        have hne : k ≠ a := fun he => hnd.1 (he ▸ List.mem_of_getElem? hk)
        rw [List.zip_cons_cons, List.lookup_cons, beq_false_of_ne hne]
        exact ih hnd.2 (Nat.succ.inj hlen) hk

section
variable {ast : AST} {ns : Namespace} {e : EnumDef} {item : EnumItem} {i : Nat}
  (h : accepts ast = true) (hns : ns ∈ ast.namespaces) (he : e ∈ ns.enums)
include h hns he

theorem enumerator_eq (hi : e.items[i]? = some item) : e.enumerator item.name = e.itemNumbers[i]? :=
  lookup_zip_of_nodup (nodup_itemNames h hns he) (by rw [List.length_map, EnumDef.itemNumbers,
    length_enumeratorValues]) (by rw [List.getElem?_map, hi]; rfl)

theorem nameOf_eq {v : Int} (h64 : e.InInt64) (hi : e.items[i]? = some item)
    (hv : e.itemNumbers[i]? = some v) : e.nameOf v = item.name := by
  have hfind : (e.items.find? fun item => e.enumerator item.name == some v) = some item := by
    refine List.find?_eq_some_of_unique (List.mem_of_getElem? hi) ?_ fun b hb hbv => ?_
    · rw [enumerator_eq h hns he hi, hv]
      exact beq_self_eq_true _
    · obtain ⟨j, hj⟩ := List.mem_iff_getElem?.mp hb
      rw [enumerator_eq h hns he hj, beq_iff_eq] at hbv
      have hlt : j < e.itemNumbers.length := (List.getElem?_eq_some_iff.mp hbv).1
      have hji := (List.getElem?_inj hlt (nodup_values h hns he h64)).mp (hbv.trans hv.symm)
      rw [hji, hi] at hj
      exact (Option.some.inj hj).symm
  rw [EnumDef.nameOf, firstItems_accepted h hns he, hfind]

/-- The Resolver, C++, `<Enum>_name` and Python number the items of an accepted enum alike, and
`<Enum>_name` takes each value back to its item. -/
theorem enumNumberings_agree (h64 : e.InInt64) :
    (∃ vs, e.Agreement vs) ∧ CppText.enumCases e [] 0 e.items = e.items.map (caseLine e) ∧
      ∀ (i : Nat) (item : EnumItem) (v : Int), e.items[i]? = some item → e.itemNumbers[i]? = some v →
        e.nameOf v = item.name := by
  refine ⟨⟨itemValues 0 e.items, h64.values_eq.symm, enumCollisions_eq, enumCases_eq,
    pyEnumItems_eq⟩, ?_, fun i item v hi hv => nameOf_eq h hns he h64 hi hv⟩
  rw [enumCases_eq, firstItems_accepted h hns he]

end

/-- `enum Priority { low = 1, medium, high = 10, top }` -/
def priority : EnumDef where
  name := lit "Priority"
  items := [{ name := lit "low", value := some 1 }, { name := lit "medium" },
    { name := lit "high", value := some 10 }, { name := lit "top" }]

theorem enumNumberings_agree_priority :
    (∃ vs, priority.Agreement vs) ∧ priority.nameOf 11 = lit "top" :=
  have hacc : accepts ⟨[{ enums := [priority] }]⟩ = true := by decide +kernel
  have h := enumNumberings_agree hacc List.mem_cons_self List.mem_cons_self
    (show ∀ v ∈ priority.itemNumbers, -2 ^ 63 ≤ v ∧ v < 2 ^ 63 by decide +kernel)
  ⟨h.1, h.2.2 3 _ _ rfl rfl⟩

/-! ## The range of the values -/

/-- The least and the greatest value of the underlying type. -/
def EnumDef.least (e : EnumDef) : Int := if e.isFlags then 0 else -2 ^ 31

def EnumDef.greatest (e : EnumDef) : Int := if e.isFlags then 2 ^ 32 - 1 else 2 ^ 31 - 1

/-- `static_cast` of a value to the underlying type. -/
def EnumDef.cast (e : EnumDef) (v : Int) : Val :=
  if e.isFlags then .u32 (UInt32.ofInt v) else .i32 (Int32.ofInt v)

/-- The number in a value of the underlying type. -/
def Val.number : Val → Option Int
  | .i32 v => some v.toInt
  | .u32 v => some v.toNat
  | _ => none

/-- `encode_i32` and `encode_u32` of the Python buffer: `struct.pack` raises out of range. -/
def EnumDef.pyPack (e : EnumDef) (v : Int) : Except PyError Bytes :=
  if e.isFlags then PyWire.pack 4 v
  else if -2 ^ 31 ≤ v ∧ v < 2 ^ 31 then .ok (encodeI32 (Int32.ofInt v)) else .error .structError

/-- The values are in the range of the underlying type: in C++ each item comes back from its
encoding, in Python each can be packed. -/
structure EnumDef.InRange (e : EnumDef) : Prop where
  noOverflow : e.InInt64
  range : ∀ v ∈ e.itemNumbers, e.least ≤ v ∧ v ≤ e.greatest
  roundTrip : ∀ (i : Nat) (v : Int), e.itemNumbers[i]? = some v →
    ∃ w back, encodeEnum e (e.cast v) = .ok w ∧ Reads Buffer.cut (decodeEnum e) w back ∧
      ∀ j : Nat, e.itemNumbers[j]? = back.number ↔ j = i
  packs : ∀ v ∈ e.itemNumbers, ∃ w, e.pyPack v = .ok w

/-- How many items without a value come first. -/
def implicitRun (items : List EnumItem) : Nat :=
  (items.takeWhile fun item => item.value.isNone).length

/-- The values that are written are in the range and leave room for the items behind them that
have none. -/
structure EnumDef.LeavesRoom (e : EnumDef) : Prop where
  explicit : ∀ pre item post, e.items = pre ++ item :: post → ∀ v, item.value = some v →
    e.least ≤ v.toInt ∧ v.toInt + implicitRun post ≤ e.greatest
  implicit : (implicitRun e.items : Int) ≤ e.greatest + 1

section
variable {items : List EnumItem} {item : EnumItem} {p lo hi : Int}

/-- Splittings of a list at an element: at the first one, or further on. -/
theorem forall_split_cons {α : Type} {P : α → List α → Prop} {a : α} {l : List α} :
    (∀ pre x post, a :: l = pre ++ x :: post → P x post) ↔
      P a l ∧ ∀ pre x post, l = pre ++ x :: post → P x post := by
  constructor
  · intro h
    exact ⟨h [] a l rfl, fun pre x post hl => h (a :: pre) x post (by rw [hl]; rfl)⟩
  · rintro ⟨ha, h⟩ pre x post hl
    cases pre with
    | nil =>
      obtain ⟨rfl, rfl⟩ := List.cons.inj hl
      exact ha
    | cons b pre => exact h pre x post (List.cons.inj hl).2

theorem implicitRun_cons_none (hv : item.value = none) :
    implicitRun (item :: items) = implicitRun items + 1 := by
  rw [implicitRun, List.takeWhile_cons_of_pos (by rw [hv]; rfl), List.length_cons, implicitRun]

theorem implicitRun_cons_some {v : Int64} (hv : item.value = some v) :
    implicitRun (item :: items) = 0 := by
  rw [implicitRun, List.takeWhile_cons_of_neg (by rw [hv]; simp), List.length_nil]

/-- The values behind `p` stay in a range when each value written leaves room for the items
behind it, and `p` does. -/
theorem enumeratorValues_range (hp : lo ≤ p + 1) :
    (∀ v ∈ enumeratorValues (some p) items, lo ≤ v ∧ v ≤ hi) ↔
      (∀ pre item post, items = pre ++ item :: post → ∀ v, item.value = some v →
        lo ≤ v.toInt ∧ v.toInt + implicitRun post ≤ hi) ∧
      (0 < implicitRun items → p + implicitRun items ≤ hi) := by
  induction items generalizing p with
  | nil =>
    refine iff_of_true (fun v hv => (by cases hv)) ⟨fun pre x post h => ?_, fun h => ?_⟩
    · exact absurd h.symm (by simp)
    · exact absurd h (by decide)
  | cons item items ih =>
    rw [enumeratorValues, List.forall_mem_cons, forall_split_cons]
    cases hv : item.value with
    | none =>
      have hval : enumeratorValue (some p) item = p + 1 := by
        unfold enumeratorValue
        rw [hv]
      rw [hval, ih (by omega), implicitRun_cons_none hv]
      push_cast
      constructor
      · rintro ⟨⟨_, _⟩, hex, hrun⟩
        exact ⟨⟨fun v h => (by cases h), hex⟩, fun _ => by omega⟩
      · rintro ⟨⟨_, hex⟩, hrun⟩
        exact ⟨⟨hp, by omega⟩, hex, fun _ => by omega⟩
    | some v =>
      have hval : enumeratorValue (some p) item = v.toInt := by
        unfold enumeratorValue
        rw [hv]
      rw [hval, implicitRun_cons_some hv]
      constructor
      · rintro ⟨⟨hlo, hhi⟩, hrest⟩
        obtain ⟨hex, hrun⟩ := (ih (by omega)).mp hrest
        refine ⟨⟨fun v' h => ?_, hex⟩, fun h => (by cases h)⟩
        cases h
        exact ⟨hlo, by omega⟩
      · rintro ⟨⟨hv', hex⟩, -⟩
        obtain ⟨hlo, hroom⟩ := hv' v rfl
        exact ⟨⟨hlo, by omega⟩, (ih (by omega)).mpr ⟨hex, fun _ => hroom⟩⟩

variable {e : EnumDef}

theorem EnumDef.least_le (e : EnumDef) : e.least ≤ -1 + 1 := by
  rw [EnumDef.least]
  split <;> omega

theorem EnumDef.itemNumbers_range_iff :
    (∀ v ∈ e.itemNumbers, e.least ≤ v ∧ v ≤ e.greatest) ↔ e.LeavesRoom := by
  have hgreat : 0 ≤ e.greatest := by
    rw [EnumDef.greatest]
    split <;> omega
  rw [EnumDef.itemNumbers, enumeratorValues_none, enumeratorValues_range e.least_le]
  constructor
  · rintro ⟨hex, hrun⟩
    exact ⟨hex, by omega⟩
  · rintro ⟨hex, hrun⟩
    exact ⟨hex, fun _ => by omega⟩

/-! ## Values in their range -/

variable {v : Int} (hv : e.least ≤ v ∧ v ≤ e.greatest)
include hv

theorem EnumDef.number_cast : (e.cast v).number = some v := by
  unfold EnumDef.least EnumDef.greatest at hv
  unfold EnumDef.cast
  by_cases hf : e.isFlags = true
  · rw [if_pos hf, if_pos hf] at hv
    rw [if_pos hf, Val.number, Option.some.injEq, UInt32.ofInt, UInt32.toNat_ofNat']
    omega
  · rw [if_neg hf, if_neg hf] at hv
    rw [if_neg hf, Val.number, Option.some.injEq]
    exact Int32.toInt_ofInt_of_le hv.1 (by omega)

theorem EnumDef.pyPack_ok : ∃ w, e.pyPack v = .ok w := by
  unfold EnumDef.least EnumDef.greatest at hv
  unfold EnumDef.pyPack
  by_cases hf : e.isFlags = true
  · rw [if_pos hf, if_pos hf] at hv
    rw [if_pos hf, PyWire.pack, if_pos (by omega)]
    exact ⟨_, rfl⟩
  · rw [if_neg hf, if_neg hf] at hv
    rw [if_neg hf, if_pos (by omega)]
    exact ⟨_, rfl⟩

omit hv

theorem EnumDef.encode_cast (e : EnumDef) (v : Int) :
    ∃ w, encodeEnum e (e.cast v) = .ok w ∧ Reads Buffer.cut (decodeEnum e) w (e.cast v) := by
  have hok : ∃ w, encodeEnum e (e.cast v) = .ok w := by
    unfold encodeEnum EnumDef.cast
    by_cases hf : e.isFlags = true
    · rw [if_pos hf, if_pos hf]
      exact ⟨_, rfl⟩
    · rw [if_neg hf, if_neg hf]
      exact ⟨_, rfl⟩
  obtain ⟨w, hw⟩ := hok
  exact ⟨w, hw, reads_decodePrim hw⟩

end

/-- The items of an accepted enum go through 32 bits exactly when the values written leave room
for the others. -/
theorem enumInRange_iff {ast : AST} {ns : Namespace} {e : EnumDef} (h : accepts ast = true)
    (hns : ns ∈ ast.namespaces) (he : e ∈ ns.enums) : e.InRange ↔ e.LeavesRoom := by
  rw [← EnumDef.itemNumbers_range_iff]
  refine ⟨EnumDef.InRange.range, fun hrange => ?_⟩
  have h64 : e.InInt64 := by
    intro v hv
    have := hrange v hv
    unfold EnumDef.least EnumDef.greatest at this
    split at this <;> omega
  refine ⟨h64, hrange, fun i v hi => ?_, fun v hv => EnumDef.pyPack_ok (hrange v hv)⟩
  obtain ⟨w, hw, hreads⟩ := e.encode_cast v
  refine ⟨w, e.cast v, hw, hreads, fun j => ?_⟩
  rw [EnumDef.number_cast (hrange v (List.mem_of_getElem? hi))]
  constructor
  · intro hj
    have hlt : j < e.itemNumbers.length := (List.getElem?_eq_some_iff.mp hj).1
    exact (List.getElem?_inj hlt (nodup_values h hns he h64)).mp (hj.trans hi.symm)
  · rintro rfl
    exact hi

theorem enumInRange_priority : priority.InRange ↔ priority.LeavesRoom := by
  have hacc : accepts ⟨[{ enums := [priority] }]⟩ = true := by decide +kernel
  exact enumInRange_iff hacc List.mem_cons_self List.mem_cons_self

/-- `enum Port { last = 2147483647, none }` -/
def port : EnumDef where
  name := lit "Port"
  items := [{ name := lit "last", value := some 2147483647 }, { name := lit "none" }]

/-- An accepted enum whose second item is past the range. -/
theorem not_enumInRange_port :
    ¬ ∀ ast ns e, accepts ast = true → ns ∈ ast.namespaces → e ∈ ns.enums → e.InRange := by
  intro h
  have := (h ⟨[{ enums := [port] }]⟩ _ port (by decide +kernel) List.mem_cons_self
    List.mem_cons_self).range 2147483648 (by decide +kernel)
  exact absurd this (by decide)

end Song.Compiler
