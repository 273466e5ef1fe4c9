import Song.Compiler.Typing
import Song.Lib.List

/-!
# The calls of the generated codecs

What the emitted calls are, by the type: the two generators emit the same ones, and an
array template calls for its elements what the generators would. What encoding each kind
of call comes to, and the primitive codecs and the fields of a struct as readers.
-/

namespace Song.Compiler

open Cursor (Reads Takes many each)

/-! ## Runtime codecs inside generated code -/

section
variable {α : Type}

theorem Dec.lift_run_ok_iff {d : Dec α} {b b' : Buffer} {a : α} :
    (Dec.lift d).run b = .ok a b' ↔ d.run b = .ok a b' := by
  cases h : d.run b with
  | ok a' b'' => simp only [Dec.lift, EStateM.run] at h ⊢; rw [h]; simp
  | error e b'' => simp only [Dec.lift, EStateM.run] at h ⊢; rw [h]; simp

theorem reads_lift {d : Dec α} {w : Bytes} {a : α} (h : Reads Buffer.cut d w a) :
    Reads Buffer.cut (Dec.lift d) w a :=
  fun pre rest => Dec.lift_run_ok_iff.mpr (h pre rest)

theorem takes_lift {d : Dec α} {P : Bytes → α → Prop} (h : Takes Buffer.cut d P) :
    Takes Buffer.cut (Dec.lift d) P :=
  fun pre rest a s hd => h pre rest a s (Dec.lift_run_ok_iff.mp hd)

theorem thrown_ok_iff {x : Except Exn α} {a : α} : thrown x = .ok a ↔ x = .ok a := by
  cases x <;> simp [thrown, Except.mapError]

end

theorem length_le_of_encodeString {s w : Bytes} (h : encodeString s = .ok w) :
    s.length ≤ kMaxStringSize := by
  unfold encodeString at h
  split at h
  · cases h
  · omega

theorem length_le_of_encodeBytes {bs w : Bytes} (h : encodeBytes bs = .ok w) :
    bs.length ≤ kMaxBytesSize := by
  unfold encodeBytes at h
  split at h
  · cases h
  · omega

theorem encodePrim_ok_iff {p : PrimitiveType} {v : Val} :
    (∃ w, encodePrim p v = .ok w) ↔ p.Has cppLimits v := by
  cases p <;> cases v <;>
    first
    | exact ⟨fun _ => trivial, fun _ => ⟨_, rfl⟩⟩
    | exact ⟨fun h => (by obtain ⟨w, hw⟩ := h; cases hw), fun h => h.elim⟩
    | skip
  case string.string s =>
    refine ⟨fun ⟨w, hw⟩ => length_le_of_encodeString (thrown_ok_iff.mp hw), fun h => ?_⟩
    exact ⟨_, thrown_ok_iff.mpr (if_neg (Nat.not_lt.mpr h))⟩
  case bytes.bytes bs =>
    refine ⟨fun ⟨w, hw⟩ => length_le_of_encodeBytes (thrown_ok_iff.mp hw), fun h => ?_⟩
    exact ⟨_, thrown_ok_iff.mpr (if_neg (Nat.not_lt.mpr h))⟩

theorem reads_decodePrim {p : PrimitiveType} {v : Val} {w : Bytes} (h : encodePrim p v = .ok w) :
    Reads Buffer.cut (decodePrim p) w v := by
  cases p <;> cases v <;> first | cases h | skip
  case bool.bool v => exact (reads_lift (reads_decodeBool v)).map Val.bool
  case i8.i8 v => exact (reads_lift (reads_decodeI8 v)).map Val.i8
  case i16.i16 v => exact (reads_lift (reads_decodeI16 v)).map Val.i16
  case i32.i32 v => exact (reads_lift (reads_decodeI32 v)).map Val.i32
  case i64.i64 v => exact (reads_lift (reads_decodeI64 v)).map Val.i64
  case u8.u8 v => exact (reads_lift (reads_decodeU8 v)).map Val.u8
  case u16.u16 v => exact (reads_lift (reads_decodeU16 v)).map Val.u16
  case u32.u32 v => exact (reads_lift (reads_decodeU32 v)).map Val.u32
  case u64.u64 v => exact (reads_lift (reads_decodeU64 v)).map Val.u64
  case f32.f32 v => exact (reads_lift (reads_decodeU32 v)).map Val.f32
  case f64.f64 v => exact (reads_lift (reads_decodeU64 v)).map Val.f64
  case string.string s => exact (reads_lift (reads_decodeString (thrown_ok_iff.mp h))).map Val.string
  case bytes.bytes bs => exact (reads_lift (reads_decodeBytes (thrown_ok_iff.mp h))).map Val.bytes

/-- A decoded primitive is a value of its type. -/
def Decoded (p : PrimitiveType) (w : Bytes) (v : Val) : Prop :=
  encodePrim p v = .ok w ∧ p.Has cppLimits v

theorem takes_made {α : Type} {p : PrimitiveType} {d : Dec α} {make : α → Val}
    {enc : α → Bytes} (h : Takes Buffer.cut d fun w a => enc a = w)
    (he : ∀ a, encodePrim p (make a) = .ok (enc a)) (hh : ∀ a, p.Has cppLimits (make a)) :
    Takes Buffer.cut (do return make (← Dec.lift d)) (Decoded p) := by
  refine .map ((takes_lift h).mono fun w a hw => ⟨?_, hh a⟩)
  rw [he, hw]

theorem takes_decodePrim {p : PrimitiveType} (hp : p ≠ .bool) :
    Takes Buffer.cut (decodePrim p) (Decoded p) := by
  cases p with
  | bool => exact absurd rfl hp
  | i8 => exact takes_made takes_decodeI8 (fun _ => rfl) fun _ => trivial
  | i16 => exact takes_made takes_decodeI16 (fun _ => rfl) fun _ => trivial
  | i32 => exact takes_made takes_decodeI32 (fun _ => rfl) fun _ => trivial
  | i64 => exact takes_made takes_decodeI64 (fun _ => rfl) fun _ => trivial
  | u8 => exact takes_made takes_decodeU8 (fun _ => rfl) fun _ => trivial
  | u16 => exact takes_made takes_decodeU16 (fun _ => rfl) fun _ => trivial
  | u32 => exact takes_made takes_decodeU32 (fun _ => rfl) fun _ => trivial
  | u64 => exact takes_made takes_decodeU64 (fun _ => rfl) fun _ => trivial
  | f32 => exact takes_made takes_decodeU32 (fun _ => rfl) fun _ => trivial
  | f64 => exact takes_made takes_decodeU64 (fun _ => rfl) fun _ => trivial
  | string =>
    refine .map ((takes_lift takes_decodeString).mono fun w s h => ⟨thrown_ok_iff.mpr h, ?_⟩)
    exact length_le_of_encodeString h
  | bytes =>
    refine .map ((takes_lift takes_decodeBytes).mono fun w bs h => ⟨thrown_ok_iff.mpr h, ?_⟩)
    exact length_le_of_encodeBytes h
  | void => exact .throw _

/-! ## Calls -/

theorem decodeCall_eq (t : Ty) : decodeCall t = encodeCall t := rfl

theorem decodeElem_of_encodeElem {elem : CppType} {call : Call} (h : encodeElem elem = some call) :
    decodeElem elem = some call := by
  induction elem generalizing call with
  | prim p => cases p <;> first | exact h | cases h
  | user name => cases h
  | vector elem ih =>
    obtain ⟨inner, hi, rfl⟩ := Option.map_eq_some_iff.mp h
    simp [decodeElem, ih hi]
  | optional inner => cases h

/-- The text of an IDL type is the text of its C++ type. -/
theorem text_nested (n : Nat) (t : CppType) :
    (CppType.nested n t).text = repeated n (lit "std::vector<") ++ t.text ++ repeated n (lit ">") := by
  induction n with
  | zero => simp [CppType.nested, repeated]
  | succ n ih =>
    have h : repeated (n + 1) (lit ">") = repeated n (lit ">") ++ lit ">" := by
      simp [repeated, List.replicate_succ']
    rw [h, CppType.nested, CppType.text, ih]
    simp [repeated, List.replicate_succ]

theorem text_cppType (t : Ty) : (cppType t).text = typeToCpp t := by
  have hd : t.dims.toNat = if t.arrayDimensions > 0 then t.arrayDimensions.toNat else 1 := by
    unfold Ty.dims; split <;> rfl
  unfold cppType typeToCpp
  simp only
  split
  · rw [text_nested, hd]
    cases t.base <;> rfl
  · split
    · cases t.base <;> rfl
    · cases t.base <;> rfl

/-- The elements of an array are of its C++ type with one `std::vector` less. -/
theorem cppType_elem {t : Ty} (ha : t.isArray = true) (ho : 1 < t.dims ∨ t.isOptional = false) :
    cppType t = .vector (cppType t.elem) := by
  obtain ⟨n, hn⟩ := Int.eq_ofNat_of_zero_le (show 0 ≤ t.dims - 1 by have := t.one_le_dims; omega)
  have hs : t.dims.toNat = n + 1 := by omega
  simp only [cppType, ha, ↓reduceIte, hs, CppType.nested]
  by_cases hd : 1 < t.dims
  · have he : t.elem.dims.toNat = n := by rw [Ty.elem_dims hd]; omega
    rw [if_pos (t.elem_isArray_iff.mpr hd), he]
    rfl
  · have hz : n = 0 := by omega
    have hf : t.elem.isArray = false := by
      rw [← Bool.not_eq_true, t.elem_isArray_iff]; exact hd
    have hno : t.elem.isOptional = false := ho.resolve_left hd
    rw [hf, hno, hz]
    rfl

theorem encodeCall_primArray {t : Ty} {p : PrimitiveType} (ha : t.isArray = true)
    (hb : t.base = .primitive p) : encodeCall t = .template (cppType t.elem) := by
  have he : t.elem.base = .primitive p := hb
  simp only [encodeCall, ha, ↓reduceIte, he]
  split
  · rename_i h; cases h
  · rfl

theorem exists_encodeElem_nested {p : PrimitiveType} (hv : p ≠ .void) (hb : p ≠ .bool)
    (hy : p ≠ .bytes) (n : Nat) : ∃ call, encodeElem (.nested n (.prim p)) = some call := by
  induction n with
  | zero => cases p <;> first | exact ⟨_, rfl⟩ | contradiction
  | succ n ih =>
    obtain ⟨call, hc⟩ := ih
    exact ⟨.template (.nested n (.prim p)), by simp [CppType.nested, encodeElem, hc]⟩

/-- The array template calls for an element what the generators emit for its type. -/
theorem encodeElem_cppType {t : Ty} {p : PrimitiveType} (ht : t.base = .primitive p)
    (ho : t.isOptional = false) (hv : p ≠ .void) (hb : p ≠ .bool) (hy : p ≠ .bytes) :
    encodeElem (cppType t) = some (encodeCall t) := by
  by_cases ha : t.isArray = true
  · have hs : ∃ call, encodeElem (cppType t) = some call := by
      simp only [cppType, ha, ↓reduceIte, ht, CppType.ofBase]
      exact exists_encodeElem_nested hv hb hy _
    obtain ⟨call, hc⟩ := hs
    rw [cppType_elem ha (.inr ho)] at hc ⊢
    obtain ⟨inner, hi, rfl⟩ := Option.map_eq_some_iff.mp hc
    rw [hc, encodeCall_primArray ha ht]
  · have hf : t.isArray = false := Bool.not_eq_true _ ▸ ha
    simp only [cppType, encodeCall, hf, ho, ht, CppType.ofBase, Bool.false_eq_true, ↓reduceIte]
    cases p <;> first | rfl | contradiction

section
variable {ns : Namespace} {t : Ty}

theorem encodeCall_prim {p : PrimitiveType} (ha : t.isArray = false) (ho : t.isOptional = false)
    (hb : t.base = .primitive p) : encodeCall t = .prim p := by
  simp only [encodeCall, ha, ho, hb, Bool.false_eq_true, ↓reduceIte]

theorem encodeCall_user {name : Str} (ha : t.isArray = false) (ho : t.isOptional = false)
    (hb : t.base = .user name) : encodeCall t = .user name := by
  simp only [encodeCall, ha, ho, hb, Bool.false_eq_true, ↓reduceIte]

/-- The call for an array, and what it calls for the elements. -/
theorem encodeCall_array (h : Compiles ns t) (ha : t.isArray = true) :
    (∃ name, t.base = .user name ∧ encodeCall t = .userArray name ∧
      encodeCall t.elemTy = .user name ∧ ∀ L : Limits, L.array t = L.objects) ∨
    (∃ p, t.base = .primitive p) ∧ encodeCall t = .template (cppType t.elemTy) ∧
      encodeElem (cppType t.elemTy) = some (encodeCall t.elemTy) ∧
        ∀ L : Limits, L.array t = L.elems := by
  unfold Compiles at h
  cases hb : t.base with
  | user name =>
    have hbe : t.elem.base = .user name := hb
    simp only [hb, ha, ↓reduceIte] at h
    have hn : t.elem.isArray = false := by
      show decide (t.dims - 1 > 0) = false
      rw [h.2]; rfl
    refine .inl ⟨name, rfl, ?_, encodeCall_user (t := t.elemTy) hn rfl hb, fun L => ?_⟩
    · simp only [encodeCall, ha, ↓reduceIte, hn, hbe]
    · simp only [Limits.array, hn, hbe]
  | primitive p =>
    have hbe : t.elemTy.base = .primitive p := hb
    simp only [hb, ha, ↓reduceIte] at h
    obtain ⟨hv, hbool, hbytes, ho⟩ := h
    have hcpp : cppType t.elem = cppType t.elemTy := by
      by_cases hd : 1 < t.dims
      · have hea : t.elem.isArray = true := t.elem_isArray_iff.mpr hd
        have hea' : t.elemTy.isArray = true := hea
        simp only [cppType, hea, hea', ↓reduceIte]
        rfl
      · have hno : t.isOptional = false := Bool.not_eq_true _ ▸ fun hot => hd (ho hot)
        have hee : t.elem = t.elemTy := by
          show t.elem = { t.elem with isOptional := false }
          rw [← hno]; rfl
        rw [← hee]
    refine .inr ⟨⟨p, rfl⟩, ?_, encodeElem_cppType hbe rfl hv hbool hbytes, fun L =>
      L.array_prim hb⟩
    rw [← hcpp]
    exact encodeCall_primArray ha hb

end

/-! ## What encoding comes to -/

theorem encodeEach_eq {ns : Namespace} {call : Call} {vs : List Val} :
    encodeEach ns call vs = each (encodeVal ns call) vs := by
  induction vs with
  | nil => rfl
  | cons v vs ih => simp only [encodeEach, each, ih]

section
variable {L : Limits} {ns : Namespace} {name : Str} {t : Ty}

theorem encodeVal_struct {s : StructDef} {vs : List Val}
    (hs : ns.userDef name = some (.struct s)) :
    encodeVal ns (.user name) (.struct name vs) = encodeFields ns s.fields vs := by
  simp only [encodeVal, hs, ↓reduceIte]

theorem encodeVal_enum {e : EnumDef} {v : Val} (he : ns.userDef name = some (.enum e)) :
    encodeVal ns (.user name) v = encodeEnum e v := by
  simp only [encodeVal, he]

/-- An array, encoded: its length in front of its elements. -/
def ArrayBytes (ns : Namespace) (call : Call) (vs : List Val) (w : Bytes) : Prop :=
  ∃ ws, each (encodeVal ns call) vs = .ok ws ∧ w = encodeCount vs.length ++ ws

theorem encodeVal_userArray_ok_iff {vs : List Val} {w : Bytes} :
    encodeVal ns (.userArray name) (.array vs) = .ok w ↔ ArrayBytes ns (.user name) vs w := by
  rw [encodeVal, encodeEach_eq, ArrayBytes]
  cases each (encodeVal ns (.user name)) vs <;>
    simp [bind, Except.bind, pure, Except.pure, eq_comm]

theorem encodeVal_template_ok_iff {elem : CppType} {call : Call} {vs : List Val} {w : Bytes}
    (hc : encodeElem elem = some call) :
    encodeVal ns (.template elem) (.array vs) = .ok w ↔
      vs.length ≤ kMaxArrayCount ∧ ArrayBytes ns call vs w := by
  simp only [encodeVal, hc, encodeEach_eq, ArrayBytes]
  by_cases hl : vs.length ≤ kMaxArrayCount
  · rw [if_neg (Nat.not_lt.mpr hl)]
    cases each (encodeVal ns call) vs <;>
      simp [bind, Except.bind, pure, Except.pure, hl, eq_comm]
  · rw [if_pos (Nat.lt_of_not_le hl)]
    exact ⟨fun h => (by cases h), fun h => absurd h.1 hl⟩

end

/-! ## Fields -/

theorem encodeFields_eq {ns : Namespace} {fs : List Field} {vs : List Val}
    (h : fs.length = vs.length) :
    encodeFields ns fs vs = each (fun p => encodeVal ns (encodeCall p.1.type) p.2) (fs.zip vs) := by
  induction fs generalizing vs with
  | nil =>
    rw [List.length_eq_zero_iff.mp h.symm, encodeFields]
    rfl
  | cons f fs ih =>
    cases vs with
    | nil => cases h
    | cons v vs => rw [encodeFields, ih (Nat.succ.inj h), List.zip_cons_cons, each]

section
variable {ε ε' : Type} {field : Ty → EStateM ε Buffer Val} {fs : List Field} {vs : List Val}

theorem decodeFields_congr {field' : Ty → EStateM ε Buffer Val}
    (h : ∀ f ∈ fs, field f.type = field' f.type) :
    decodeFields field fs = decodeFields field' fs := by
  induction fs with
  | nil => rfl
  | cons f fs ih =>
    rw [List.forall_mem_cons] at h
    simp only [decodeFields, h.1, ih h.2]

/-- Fields that were written one after another are read one after another. -/
theorem reads_decodeFields {F : Field × Val → Except ε' Bytes} {w : Bytes}
    (hl : fs.length = vs.length)
    (h : ∀ p ∈ fs.zip vs, ∀ w, F p = .ok w → Reads Buffer.cut (field p.1.type) w p.2)
    (hw : each F (fs.zip vs) = .ok w) : Reads Buffer.cut (decodeFields field fs) w vs := by
  induction fs generalizing vs w with
  | nil =>
    rw [List.length_eq_zero_iff.mp hl.symm] at hw ⊢
    cases hw
    exact .pure []
  | cons f fs ih =>
    cases vs with
    | nil => cases hl
    | cons v vs =>
      rw [List.zip_cons_cons] at h hw
      obtain ⟨w₁, w₂, h₁, h₂, rfl⟩ := Cursor.each_cons_ok_iff.mp hw
      have hf := h (f, v) List.mem_cons_self w₁ h₁
      have hfs := ih (Nat.succ.inj hl) (fun p hp => h p (List.mem_cons_of_mem _ hp)) h₂
      exact hf.bind (hfs.map (v :: ·))

theorem takes_decodeFields {P : Field → Bytes → Val → Prop}
    (h : ∀ f ∈ fs, Takes Buffer.cut (field f.type) (P f)) :
    Takes Buffer.cut (decodeFields field fs) fun w vs => fs.length = vs.length ∧
      ∃ ws, List.Forall₂ (fun w p => P p.1 w p.2) ws (fs.zip vs) ∧ w = ws.flatten := by
  induction fs with
  | nil => exact .pure ⟨rfl, [], .nil, rfl⟩
  | cons f fs ih =>
    have hfs := ih fun g hg => h g (List.mem_cons_of_mem f hg)
    refine (h f List.mem_cons_self).bind fun w₁ v h₁ => .map (hfs.mono ?_)
    rintro w₂ vs ⟨hl, ws, hws, rfl⟩
    exact ⟨congrArg (· + 1) hl, w₁ :: ws, .cons h₁ hws, rfl⟩

end

end Song.Compiler
