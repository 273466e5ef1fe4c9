import Song.Compiler.Calls

/-!
# The helpers that emitted calls name

A call of a generated codec names functions of the runtime (`buffer.hpp`) or helpers that
are generated for a user's type. `CallsDefined` is what the C++ compiler asks of the calls
for a type over a primitive: that the runtime has every function they name, and that the
array templates are instantiated where they can be and at the type of the field.
-/

namespace Song.Compiler

/-! ## Names -/

/-- What a primitive is called in the names of its codecs. -/
def PrimitiveType.suffix : PrimitiveType → Str
  | .bool => lit "bool"
  | .i8 => lit "i8"
  | .i16 => lit "i16"
  | .i32 => lit "i32"
  | .i64 => lit "i64"
  | .u8 => lit "u8"
  | .u16 => lit "u16"
  | .u32 => lit "u32"
  | .u64 => lit "u64"
  | .f32 => lit "f32"
  | .f64 => lit "f64"
  | .string => lit "string"
  | .bytes => lit "bytes"
  | .void => lit "void"

/-- The primitives that `buffer.hpp` has codecs for. -/
def codecPrimitives : List PrimitiveType :=
  [.bool, .i8, .i16, .i32, .i64, .u8, .u16, .u32, .u64, .f32, .f64, .string, .bytes]

/-- The codecs and templates of `buffer.hpp`. -/
def runtimeHelpers : List Str :=
  codecPrimitives.map (lit "encode_" ++ ·.suffix) ++
    codecPrimitives.map (lit "decode_" ++ ·.suffix) ++ [lit "encode_array", lit "decode_array"]

namespace Call

/-- The functions named in the text of an encoding call. -/
def encodeHelpers : Call → List Str
  | prim .void => []
  | prim p => [lit "encode_" ++ p.suffix]
  | user name => [lit "encode_" ++ name]
  | userArray name => [lit "encode_array_" ++ name]
  | template _ => [lit "encode_array"]
  | optional inner => lit "encode_optional" :: inner.encodeHelpers

/-- The functions named in the text of a decoding call. -/
def decodeHelpers : Call → List Str
  | prim .void => []
  | prim p => [lit "decode_" ++ p.suffix]
  | user name => [lit "decode_" ++ name]
  | userArray name => [lit "decode_array_" ++ name]
  | template _ => [lit "decode_array"]
  | optional inner => lit "decode_optional" :: inner.decodeHelpers

end Call

/-! ## The array templates -/

/-- The `if constexpr` chain of `encode_array<T>` and of `decode_array<T>` takes a branch for
`T`, and for the elements of `T` where that is a vector. -/
def chainSupports : CppType → Bool
  | .prim .bytes | .prim .void => false
  | .prim _ => true
  | .vector elem => chainSupports elem
  | .user _ | .optional _ => false

/-- The arguments of `encode_array<T>` and of the calls in it are `std::span<const _>` of
vectors. -/
def spanConverts : CppType → Bool
  | .prim .bool => false
  | .vector elem => spanConverts elem
  | _ => true

/-- The calls for the type compile: the runtime defines what they name, and an array template
is instantiated at a supported element type, that of the field. -/
def CallsDefined (t : Ty) : Prop :=
  (∀ helper ∈ (encodeCall t).encodeHelpers ++ (decodeCall t).decodeHelpers,
    helper ∈ runtimeHelpers) ∧
  (∀ elem, encodeCall t = .template elem →
    chainSupports elem = true ∧ spanConverts elem = true ∧ cppType t = .vector elem) ∧
  ∀ elem, decodeCall t = .template elem → chainSupports elem = true ∧ cppType t = .vector elem

theorem chainSupports_nested (n : Nat) (t : CppType) :
    chainSupports (.nested n t) = chainSupports t := by
  induction n with
  | zero => rfl
  | succ n ih => rw [CppType.nested, chainSupports, ih]

theorem spanConverts_nested (n : Nat) (t : CppType) :
    spanConverts (.nested n t) = spanConverts t := by
  induction n with
  | zero => rfl
  | succ n ih => rw [CppType.nested, spanConverts, ih]

section
variable {t : Ty} {p : PrimitiveType}

/-- One dimension marked optional: the template is asked for optional elements. -/
theorem cppType_elem_optional (hb : t.base = .primitive p) (ho : t.isOptional = true)
    (hd : ¬ 1 < t.dims) : cppType t.elem = .optional (.prim p) := by
  have hf : t.elem.isArray = false := by
    rw [← Bool.not_eq_true, t.elem_isArray_iff]; exact hd
  have hoe : t.elem.isOptional = true := ho
  have hbe : t.elem.base = .primitive p := hb
  simp only [cppType, hf, hoe, hbe, CppType.ofBase, Bool.false_eq_true, ↓reduceIte]

/-- Otherwise for the elements themselves, some vectors deep. -/
theorem cppType_elem_nested (hb : t.base = .primitive p)
    (ho : 1 < t.dims ∨ t.isOptional = false) : ∃ n, cppType t.elem = .nested n (.prim p) := by
  have hbe : t.elem.base = .primitive p := hb
  by_cases hd : 1 < t.dims
  · refine ⟨t.elem.dims.toNat, ?_⟩
    simp only [cppType, t.elem_isArray_iff.mpr hd, ↓reduceIte, hbe, CppType.ofBase]
  · have hf : t.elem.isArray = false := by
      rw [← Bool.not_eq_true, t.elem_isArray_iff]; exact hd
    have hno : t.elem.isOptional = false := ho.resolve_left hd
    refine ⟨0, ?_⟩
    simp only [cppType, hf, hno, hbe, CppType.ofBase, Bool.false_eq_true, ↓reduceIte,
      CppType.nested]

theorem callsDefined_scalar_iff (ha : t.isArray = false) (hb : t.base = .primitive p)
    (hp : p ≠ .void) : CallsDefined t ↔ t.isOptional = false := by
  cases ho : t.isOptional with
  | true =>
    have hc : encodeCall t = .optional (.prim p) := by
      simp only [encodeCall, ha, ho, hb, Bool.false_eq_true, ↓reduceIte]
    refine ⟨fun h => ?_, fun h => by cases h⟩
    have hm := h.1 (lit "encode_optional") (by rw [hc]; exact List.mem_cons_self)
    exact absurd hm (by decide)
  | false =>
    have hc := encodeCall_prim ha ho hb
    refine iff_of_true ⟨?_, ?_, ?_⟩ rfl
    · rw [decodeCall_eq, hc]
      cases p <;> first | exact absurd rfl hp | decide
    · rw [hc]
      exact fun _ h => by cases h
    · rw [decodeCall_eq, hc]
      exact fun _ h => by cases h

theorem callsDefined_array_iff (ha : t.isArray = true) (hb : t.base = .primitive p)
    (hp : p ≠ .void) :
    CallsDefined t ↔ (p ≠ .bool ∧ p ≠ .bytes) ∧ (t.isOptional = true → 1 < t.dims) := by
  have hc := encodeCall_primArray ha hb
  have hnames : ∀ helper ∈ (encodeCall t).encodeHelpers ++ (decodeCall t).decodeHelpers,
      helper ∈ runtimeHelpers := by
    rw [decodeCall_eq, hc]
    show ∀ helper ∈ [lit "encode_array", lit "decode_array"], helper ∈ runtimeHelpers
    decide
  have hiff : CallsDefined t ↔ chainSupports (cppType t.elem) = true ∧
      spanConverts (cppType t.elem) = true ∧ cppType t = .vector (cppType t.elem) := by
    unfold CallsDefined
    rw [decodeCall_eq, hc, ← hc]
    constructor
    · rintro ⟨-, he, -⟩
      exact he _ hc
    · intro h
      refine ⟨hnames, fun elem he => ?_, fun elem he => ?_⟩
      · rw [hc] at he
        cases he
        exact h
      · rw [hc] at he
        cases he
        exact ⟨h.1, h.2.2⟩
  rw [hiff]
  by_cases hd : t.isOptional = true → 1 < t.dims
  · have ho : 1 < t.dims ∨ t.isOptional = false := by
      cases h : t.isOptional with
      | true => exact .inl (hd h)
      | false => exact .inr rfl
    obtain ⟨n, hn⟩ := cppType_elem_nested hb ho
    rw [cppType_elem ha ho, hn, chainSupports_nested, spanConverts_nested, and_iff_left hd,
      and_iff_left (Eq.refl _)]
    cases p <;> first | exact absurd rfl hp | simp [chainSupports, spanConverts]
  · have hd' := Classical.not_imp.mp hd
    rw [cppType_elem_optional hb hd'.1 hd'.2, chainSupports]
    exact ⟨fun h => absurd h.1 Bool.false_ne_true, fun h => absurd h.2 hd⟩

end

/-- The calls for a type over a primitive compile where it is not optional, an array of
`bool` or of `bytes`; in an array of arrays the mark is dropped. -/
theorem callsDefined_iff {t : Ty} {p : PrimitiveType} (hb : t.base = .primitive p)
    (hp : p ≠ .void) :
    CallsDefined t ↔
      if t.isArray then p ≠ .bool ∧ p ≠ .bytes ∧ (t.isOptional = true → 1 < t.dims)
      else t.isOptional = false := by
  cases ha : t.isArray with
  | true => rw [if_pos rfl, callsDefined_array_iff ha hb hp, and_assoc]
  | false => rw [if_neg Bool.false_ne_true, callsDefined_scalar_iff ha hb hp]

theorem callsDefined_numberGrid :
    CallsDefined { base := .primitive .i32, isArray := true, arrayDimensions := 2 } :=
  (callsDefined_iff (p := .i32) rfl (by decide)).mpr (by decide)

/-- `i32?`: nothing defines `encode_optional`. -/
theorem not_callsDefined_optional :
    ¬ CallsDefined { base := .primitive .i32, isOptional := true } := by
  intro h
  have hm : lit "encode_optional" ∈ runtimeHelpers := h.1 _ (by decide)
  exact absurd hm (by decide)

end Song.Compiler
