import Song.Compiler.Codec

/-!
# Values of IDL types

`HasType L ns t v`: `v` is a value of the type `t`, its strings, byte strings and arrays
within the sizes `L`. A type marked optional that is an array means the plain array.

A type `Reaches` the types of the fields of the structs it names, and theirs; it is
`Compilable` when the generated calls of everything it reaches compile. Structs may
contain themselves through arrays.
-/

namespace Song.Compiler

/-- The largest sizes of the parts of a value. -/
structure Limits where
  string : Nat
  bytes : Nat
  /-- The elements of an array of primitives or of arrays. -/
  elems : Nat
  /-- The elements of an array of a user's type. -/
  objects : Nat

/-- The sizes the C++ runtime encodes; the count of `encode_array_<name>` is a `u32`. -/
def cppLimits : Limits where
  string := kMaxStringSize
  bytes := kMaxBytesSize
  elems := kMaxArrayCount
  objects := 2 ^ 32 - 1

/-- The type of an array's elements. Optional belongs to no element. -/
def Ty.elemTy (t : Ty) : Ty := { t.elem with isOptional := false }

def Limits.array (L : Limits) (t : Ty) : Nat :=
  match t.elem.isArray, t.elem.base with
  | false, .user _ => L.objects
  | _, _ => L.elems

section
variable (L : Limits)

/-- The values of a primitive type. -/
def PrimitiveType.Has : PrimitiveType → Val → Prop
  | .bool, .bool _ => True
  | .i8, .i8 _ => True
  | .i16, .i16 _ => True
  | .i32, .i32 _ => True
  | .i64, .i64 _ => True
  | .u8, .u8 _ => True
  | .u16, .u16 _ => True
  | .u32, .u32 _ => True
  | .u64, .u64 _ => True
  | .f32, .f32 _ => True
  | .f64, .f64 _ => True
  | .string, .string s => s.length ≤ L.string
  | .bytes, .bytes bs => bs.length ≤ L.bytes
  | _, _ => False

/-- The values of an enum: any of its underlying type. -/
def EnumDef.Has (e : EnumDef) (v : Val) : Prop :=
  (if e.isFlags then PrimitiveType.u32 else .i32).Has L v

variable (ns : Namespace)

/-- The values of a type that is neither an array nor a struct nor optional. -/
def BaseHas (base : TypeBase) (v : Val) : Prop :=
  match base with
  | .primitive p => p.Has L v
  | .user name =>
    match ns.userDef name with
    | some (.enum e) => e.Has L v
    | _ => False

mutual

def HasType : Ty → Val → Prop
  | t, .array vs => t.isArray = true ∧ vs.length ≤ L.array t ∧ EachHasType t.elemTy vs
  | t, .struct name vs =>
    t.isArray = false ∧ t.isOptional = false ∧ t.base = .user name ∧
      match ns.userDef name with
      | some (.struct s) => FieldsHaveType s.fields vs
      | _ => False
  | t, .absent => t.isArray = false ∧ t.isOptional = true
  | t, .present v =>
    t.isArray = false ∧ t.isOptional = true ∧ HasType { t with isOptional := false } v
  | t, v => t.isArray = false ∧ t.isOptional = false ∧ BaseHas L ns t.base v

def EachHasType (t : Ty) : List Val → Prop
  | [] => True
  | v :: vs => HasType t v ∧ EachHasType t vs

def FieldsHaveType : List Field → List Val → Prop
  | [], [] => True
  | f :: fs, v :: vs => HasType f.type v ∧ FieldsHaveType fs vs
  | _, _ => False

end

end

namespace Ty

variable (t : Ty)

theorem one_le_dims : 1 ≤ t.dims := by
  unfold dims; split <;> omega

theorem elem_isArray_iff : t.elem.isArray = true ↔ 1 < t.dims := by
  simp only [elem, decide_eq_true_eq]; omega

variable {t}

theorem elem_dims (h : 1 < t.dims) : t.elem.dims = t.dims - 1 := by
  show (if t.dims - 1 > 0 then t.dims - 1 else 1) = t.dims - 1
  rw [if_pos (by omega)]

end Ty

theorem Limits.array_prim (L : Limits) {t : Ty} {p : PrimitiveType} (hb : t.base = .primitive p) :
    L.array t = L.elems := by
  have he : t.elem.base = .primitive p := hb
  simp only [Limits.array, he]
  split
  · rename_i h; cases h
  · rfl

theorem eachHasType_iff {L : Limits} {ns : Namespace} {t : Ty} {vs : List Val} :
    EachHasType L ns t vs ↔ ∀ v ∈ vs, HasType L ns t v := by
  induction vs with
  | nil => simp [EachHasType]
  | cons v vs ih => simp [EachHasType, ih]

theorem fieldsHaveType_iff {L : Limits} {ns : Namespace} {fs : List Field} {vs : List Val} :
    FieldsHaveType L ns fs vs ↔ List.Forall₂ (fun f v => HasType L ns f.type v) fs vs := by
  induction fs generalizing vs with
  | nil => cases vs <;> simp [FieldsHaveType]
  | cons f fs ih => cases vs <;> simp [FieldsHaveType, ih]

mutual

/-- How deep the calls for a value are nested. -/
def Val.depth : Val → Nat
  | .struct _ vs => depthEach vs + 1
  | .array vs => depthEach vs + 1
  | .present v => v.depth + 1
  | _ => 1

def Val.depthEach : List Val → Nat
  | [] => 0
  | v :: vs => max v.depth (depthEach vs)

end

theorem Val.depth_pos (v : Val) : 0 < v.depth := by
  cases v <;> simp [depth]

theorem Val.depth_le_depthEach {v : Val} {vs : List Val} (h : v ∈ vs) :
    v.depth ≤ depthEach vs := by
  induction vs with
  | nil => cases h
  | cons u vs ih =>
    simp only [depthEach]
    rcases List.mem_cons.mp h with rfl | h
    · exact Nat.le_max_left _ _
    · exact Nat.le_trans (ih h) (Nat.le_max_right _ _)

section
variable {vs : List Val} {n : Nat}

theorem Val.depth_elem {v : Val} (h : (Val.array vs).depth ≤ n + 1) (hv : v ∈ vs) :
    v.depth ≤ n := by
  rw [depth] at h
  exact Nat.le_trans (depth_le_depthEach hv) (by omega)

theorem Val.depth_field {name : Str} {fs : List Field} (h : (Val.struct name vs).depth ≤ n + 1)
    {p : Field × Val} (hp : p ∈ fs.zip vs) : p.2.depth ≤ n := by
  rw [depth] at h
  exact Nat.le_trans (depth_le_depthEach (List.of_mem_zip hp).2) (by omega)

end

/-- With nothing in it. -/
def Val.isLeaf : Val → Bool
  | .struct _ _ | .array _ | .present _ => false
  | _ => true

/-- Induction over values, the parts of a list all at once. -/
@[elab_as_elim]
theorem Val.nested {motive : Val → Prop} (leaf : ∀ v, v.isLeaf = true → motive v)
    (struct : ∀ name vs, (∀ v ∈ vs, motive v) → motive (.struct name vs))
    (array : ∀ vs, (∀ v ∈ vs, motive v) → motive (.array vs))
    (present : ∀ v, motive v → motive (.present v)) (v : Val) : motive v := by
  have h : ∀ n v, v.depth ≤ n → motive v := by
    intro n
    induction n with
    | zero => exact fun v hv => absurd v.depth_pos (by omega)
    | succ n ih =>
      intro v hv
      cases v with
      | struct name vs =>
        rw [depth] at hv
        exact struct name vs fun u hu => ih u (Nat.le_trans (depth_le_depthEach hu) (by omega))
      | array vs => exact array vs fun u hu => ih u (depth_elem hv hu)
      | present u =>
        rw [depth] at hv
        exact present u (ih u (by omega))
      | _ => exact leaf _ rfl
  exact h v.depth v (Nat.le_refl _)

theorem Namespace.mem_structs {ns : Namespace} {name : Str} {s : StructDef}
    (h : ns.userDef name = some (.struct s)) : s ∈ ns.structs ∧ s.name = name := by
  unfold Namespace.userDef at h
  cases hf : ns.structs.find? (·.name == name) with
  | none =>
    simp only [hf, Option.map_eq_some_iff, reduceCtorEq, and_false, exists_false] at h
  | some s' =>
    simp only [hf, Option.some.injEq, UserDef.struct.injEq] at h
    subst h
    exact ⟨List.mem_of_find?_eq_some hf, by simpa using List.find?_some hf⟩

/-! ## Types that compile -/

section
variable (ns : Namespace)

/-- The codecs of the type itself compile: there is no `encode_optional`, no void value, no
array template over `bool`, `bytes` or a user's type. The mark of an optional array is left
on its innermost elements. -/
def Compiles (t : Ty) : Prop :=
  match t.base with
  | .primitive p =>
    p ≠ .void ∧
      if t.isArray then p ≠ .bool ∧ p ≠ .bytes ∧ (t.isOptional = true → 1 < t.dims)
      else t.isOptional = false
  | .user name =>
    (ns.userDef name).isSome ∧ if t.isArray then t.dims = 1 else t.isOptional = false

/-- `u` is `t` or the type of a field below it. -/
inductive Reaches : Ty → Ty → Prop where
  | refl (t : Ty) : Reaches t t
  | field {t u : Ty} {name : Str} {s : StructDef} {f : Field} (hb : t.base = .user name)
      (hs : ns.userDef name = some (.struct s)) (hf : f ∈ s.fields) (h : Reaches f.type u) :
      Reaches t u

/-- Everything below the type compiles. -/
def Compilable (t : Ty) : Prop := ∀ u, Reaches ns t u → Compiles ns u

end

section
variable {ns : Namespace} {t u : Ty}

theorem Reaches.base_congr (h : Reaches ns t u) {r : Ty} (hb : r.base = t.base) :
    u = t ∨ Reaches ns r u := by
  cases h with
  | refl => exact .inl rfl
  | field hb' hs hf h => exact .inr (.field (hb.trans hb') hs hf h)

/-- A set of types that contains the fields of its structs contains all that it reaches. -/
theorem Reaches.mem {S : Ty → Prop} (h : Reaches ns t u)
    (hS : ∀ t name s, S t → t.base = .user name → ns.userDef name = some (.struct s) →
      ∀ f ∈ s.fields, S f.type) (ht : S t) : S u := by
  induction h with
  | refl t => exact ht
  | field hb hs hf _ ih => exact ih (hS _ _ _ ht hb hs _ hf)

theorem Compilable.compiles (h : Compilable ns t) : Compiles ns t := h t (.refl t)

theorem Compilable.field {name : Str} {s : StructDef} {f : Field} (h : Compilable ns t)
    (hb : t.base = .user name) (hs : ns.userDef name = some (.struct s)) (hf : f ∈ s.fields) :
    Compilable ns f.type := fun u hu => h u (.field hb hs hf hu)

theorem Compiles.elemTy (h : Compiles ns t) (ha : t.isArray = true) : Compiles ns t.elemTy := by
  have hb : t.elemTy.base = t.base := rfl
  unfold Compiles at h ⊢
  rw [hb]
  cases htb : t.base with
  | primitive p =>
    simp only [htb, ha, ↓reduceIte] at h ⊢
    refine ⟨h.1, ?_⟩
    split
    · exact ⟨h.2.1, h.2.2.1, fun ho => by cases ho⟩
    · rfl
  | user name =>
    simp only [htb, ha, ↓reduceIte] at h ⊢
    have hn : t.elemTy.isArray = false := by
      show decide (t.dims - 1 > 0) = false
      rw [h.2]; rfl
    rw [hn]
    exact ⟨h.1, rfl⟩

theorem Compilable.elemTy (h : Compilable ns t) (ha : t.isArray = true) :
    Compilable ns t.elemTy := by
  intro u hu
  rcases hu.base_congr (r := t) rfl with rfl | hu
  · exact h.compiles.elemTy ha
  · exact h u hu

theorem Compiles.notOptional (h : Compiles ns t) (ha : t.isArray = false) :
    t.isOptional = false := by
  unfold Compiles at h
  cases hb : t.base with
  | primitive p =>
    simp only [hb, ha, Bool.false_eq_true, ↓reduceIte] at h
    exact h.2
  | user name =>
    simp only [hb, ha, Bool.false_eq_true, ↓reduceIte] at h
    exact h.2

end

/-! ## The forms of a value -/

section
variable {L : Limits} {ns : Namespace} {name : Str} {t : Ty}

/-- The fields of a struct value are typed by its definition. -/
theorem hasType_struct_iff {vs : List Val} :
    HasType L ns t (.struct name vs) ↔ t.isArray = false ∧ t.isOptional = false ∧
      t.base = .user name ∧ ∃ s, ns.userDef name = some (.struct s) ∧
        List.Forall₂ (fun f v => HasType L ns f.type v) s.fields vs := by
  rw [HasType]
  refine and_congr_right fun _ => and_congr_right fun _ => and_congr_right fun _ => ?_
  cases h : ns.userDef name with
  | none => simp
  | some d => cases d <;> simp [fieldsHaveType_iff]

theorem hasType_array_iff {vs : List Val} :
    HasType L ns t (.array vs) ↔
      t.isArray = true ∧ vs.length ≤ L.array t ∧ ∀ v ∈ vs, HasType L ns t.elemTy v := by
  rw [HasType, eachHasType_iff]

/-- A value of a type that compiles is an array, a struct, or of the base type. -/
theorem HasType.forms {v : Val} (h : HasType L ns t v) (hc : Compiles ns t) :
    (∃ vs, v = .array vs ∧ t.isArray = true ∧ vs.length ≤ L.array t ∧
      ∀ u ∈ vs, HasType L ns t.elemTy u) ∨
    (∃ name s vs, v = .struct name vs ∧ t.isArray = false ∧ t.isOptional = false ∧
      t.base = .user name ∧ ns.userDef name = some (.struct s) ∧
      List.Forall₂ (fun f v => HasType L ns f.type v) s.fields vs) ∨
    (t.isArray = false ∧ t.isOptional = false ∧ BaseHas L ns t.base v) := by
  cases v with
  | array vs => exact .inl ⟨vs, rfl, hasType_array_iff.mp h⟩
  | struct name vs =>
    obtain ⟨ha, ho, hb, s, hs, hvs⟩ := hasType_struct_iff.mp h
    exact .inr (.inl ⟨name, s, vs, rfl, ha, ho, hb, hs, hvs⟩)
  | absent =>
    rw [HasType] at h
    rw [hc.notOptional h.1] at h
    cases h.2
  | present u =>
    rw [HasType] at h
    rw [hc.notOptional h.1] at h
    cases h.2.1
  | _ =>
    simp only [HasType] at h
    exact .inr (.inr h)

end

theorem PrimitiveType.has_ne {L : Limits} {p : PrimitiveType} {v : Val} (h : p.Has L v) :
    (∀ vs, v ≠ .array vs) ∧ (∀ name vs, v ≠ .struct name vs) ∧ v ≠ .absent ∧
      ∀ u, v ≠ .present u := by
  refine ⟨?_, ?_, ?_, ?_⟩
  · rintro vs rfl; cases p <;> exact h
  · rintro name vs rfl; cases p <;> exact h
  · rintro rfl; cases p <;> exact h
  · rintro u rfl; cases p <;> exact h

theorem userDef_of_baseHas {L : Limits} {ns : Namespace} {name : Str} {v : Val}
    (h : BaseHas L ns (.user name) v) :
    ∃ e, ns.userDef name = some (.enum e) ∧ e.Has L v := by
  simp only [BaseHas] at h
  cases hd : ns.userDef name with
  | none => rw [hd] at h; exact h.elim
  | some d =>
    rw [hd] at h
    cases d with
    | struct s => exact h.elim
    | enum e => exact ⟨e, rfl, h⟩

theorem hasType_of_base {L : Limits} {ns : Namespace} {t : Ty} {v : Val} (ha : t.isArray = false)
    (ho : t.isOptional = false) (h : BaseHas L ns t.base v) : HasType L ns t v := by
  have hp : ∃ p : PrimitiveType, p.Has L v := by
    cases hb : t.base with
    | primitive p =>
      rw [hb] at h
      exact ⟨p, h⟩
    | user name =>
      rw [hb] at h
      obtain ⟨e, -, he⟩ := userDef_of_baseHas h
      exact ⟨_, he⟩
  obtain ⟨p, hp⟩ := hp
  obtain ⟨hna, hns, hn, hnp⟩ := PrimitiveType.has_ne hp
  cases v with
  | array vs => exact absurd rfl (hna vs)
  | struct name vs => exact absurd rfl (hns name vs)
  | absent => exact absurd rfl hn
  | present u => exact absurd rfl (hnp u)
  | _ =>
    simp only [HasType]
    exact ⟨ha, ho, h⟩

end Song.Compiler
