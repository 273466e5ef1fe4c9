import Song.Compiler.Python
import Song.Compiler.Calls

/-!
# The Python codecs on their own

Over the types of the format, the codecs as they are before the replacement in their text
(`g` is `id`): a value is encoded if and only if it `Fits` (`pyEncodeVal_ok_iff`), an
encoding that runs no `encode_optional` is read back (`reads_pyDecodeVal`), and a decoder
takes as many bytes as the encoding of what it returns has (`takes_pyDecodeVal`).

The code for an array goes by its dimensions, whose base type may be marked optional:
the statements are about `pyEncodeDims base mark n`, and about the values of the array type
without the mark (`plainTy base n`).
-/

namespace Song.Compiler

open Cursor (Reads Takes many each)

/-! ## Values -/

mutual

/-- `P` of the value and of everything in it. -/
def Val.All (P : Val → Prop) : Val → Prop
  | .struct name vs => P (.struct name vs) ∧ AllIn P vs
  | .array vs => P (.array vs) ∧ AllIn P vs
  | .present v => P (.present v) ∧ Val.All P v
  | v => P v

def Val.AllIn (P : Val → Prop) : List Val → Prop
  | [] => True
  | v :: vs => Val.All P v ∧ AllIn P vs

end

theorem Val.allIn_iff {P : Val → Prop} {vs : List Val} : AllIn P vs ↔ ∀ v ∈ vs, All P v := by
  induction vs with
  | nil => simp [AllIn]
  | cons v vs ih => simp [AllIn, ih]

/-- A string is the encoding of a text, as every Python string is. -/
def PartUtf8 : Val → Prop
  | .string s => validUtf8 s = true
  | _ => True

/-- A part that Python encodes: lengths go in 32 bits. -/
def PartFits : Val → Prop
  | .string s => validUtf8 s = true ∧ s.length < 2 ^ 32
  | .bytes bs => bs.length < 2 ^ 32
  | .array vs => vs.length < 2 ^ 32
  | _ => True

def Val.Utf8 : Val → Prop := All PartUtf8

def Val.Fits : Val → Prop := All PartFits

/-- Neither missing nor marked as present. -/
def Val.isBare : Val → Bool
  | .absent | .present _ => false
  | _ => true

theorem Val.fits_array_iff {vs : List Val} :
    (Val.array vs).Fits ↔ vs.length < 2 ^ 32 ∧ ∀ v ∈ vs, v.Fits := by
  rw [Fits, All, allIn_iff]
  exact Iff.rfl

theorem Val.fits_struct_iff {name : Str} {vs : List Val} :
    (Val.struct name vs).Fits ↔ ∀ v ∈ vs, v.Fits := by
  rw [Fits, All, allIn_iff]
  exact and_iff_right trivial

theorem Val.fits_present_iff {v : Val} : (Val.present v).Fits ↔ v.Fits := by
  rw [Fits, All]
  exact and_iff_right trivial

/-! ## Types -/

/-- The array type of so many dimensions, not optional. -/
def plainTy (base : TypeBase) (n : Nat) : Ty where
  base := base
  isArray := decide (0 < n)
  arrayDimensions := n

theorem plainTy_dims (base : TypeBase) (n : Nat) : (plainTy base (n + 1)).dims = n + 1 :=
  if_pos (by simp [plainTy])

theorem Ty.dimCount_pos {t : Ty} (ha : t.isArray = true) :
    ∃ n, t.dimCount = n + 1 ∧ t.dims = n + 1 := by
  have h := t.one_le_dims
  obtain ⟨n, hn⟩ := Int.eq_ofNat_of_zero_le (show 0 ≤ t.dims - 1 by omega)
  exact ⟨n, by rw [dimCount, if_pos ha]; omega, by omega⟩

/-- The elements of an array are of the plain type of one dimension less. -/
theorem elemTy_eq_plainTy {t : Ty} {n : Nat} (h : t.dims = n + 1) :
    t.elemTy = plainTy t.base n := by
  simp only [Ty.elemTy, Ty.elem, h, plainTy]
  congr 1
  · simp
  · omega

theorem plainTy_elemTy (base : TypeBase) (n : Nat) :
    (plainTy base (n + 1)).elemTy = plainTy base n := elemTy_eq_plainTy (plainTy_dims base n)

section
variable {L : Limits} {ns : Namespace} {t : Ty} {v : Val}

theorem array_plainTy {n : Nat} (h : t.dims = n + 1) :
    L.array t = L.array (plainTy t.base (n + 1)) := by
  simp only [Limits.array, Ty.elem, h, plainTy_dims]
  rfl

/-- Of a type that is neither an array nor optional only the base counts. -/
theorem hasType_scalar_iff (ha : t.isArray = false) (ho : t.isOptional = false) :
    HasType L ns t v ↔ HasType L ns (plainTy t.base 0) v := by
  have ha' : (plainTy t.base 0).isArray = false := rfl
  have ho' : (plainTy t.base 0).isOptional = false := rfl
  have hb' : (plainTy t.base 0).base = t.base := rfl
  cases v <;> simp only [HasType, ha, ho, ha', ho', hb', Bool.false_eq_true, false_and, and_false]

/-- A value of a type is one of the plain type, or the type is optional and no array. -/
theorem HasType.plain (h : HasType L ns t v) :
    HasType L ns (plainTy t.base t.dimCount) v ∨
    t.isArray = false ∧ t.isOptional = true ∧
      (v = .absent ∨ ∃ u, v = .present u ∧ HasType L ns (plainTy t.base 0) u) := by
  by_cases ha : t.isArray = true
  · cases v with
    | array vs =>
      obtain ⟨-, hl, hvs⟩ := hasType_array_iff.mp h
      obtain ⟨n, hn, hd⟩ := t.dimCount_pos ha
      rw [hn]
      refine .inl (hasType_array_iff.mpr ⟨by simp [plainTy], ?_, ?_⟩)
      · rwa [← array_plainTy hd]
      · rwa [plainTy_elemTy, ← elemTy_eq_plainTy hd]
    | _ => simp [HasType, ha] at h
  · have hf : t.isArray = false := Bool.not_eq_true _ ▸ ha
    have hz : t.dimCount = 0 := by rw [Ty.dimCount, if_neg ha]
    by_cases ho : t.isOptional = true
    · refine .inr ⟨hf, ho, ?_⟩
      cases v with
      | absent => exact .inl rfl
      | present u =>
        rw [HasType] at h
        exact .inr ⟨u, rfl, (hasType_scalar_iff (t := { t with isOptional := false }) hf rfl).mp h.2.2⟩
      | _ => simp [HasType, ha, ho] at h
    · have hof : t.isOptional = false := Bool.not_eq_true _ ▸ ho
      rw [hz]
      exact .inl ((hasType_scalar_iff hf hof).mp h)

/-- A value of a plain type is an array, a struct, or of the base type. -/
theorem HasType.plain_forms {base : TypeBase} {n : Nat} (h : HasType L ns (plainTy base n) v) :
    (∃ m vs, n = m + 1 ∧ v = .array vs ∧ vs.length ≤ L.array (plainTy base (m + 1)) ∧
      ∀ u ∈ vs, HasType L ns (plainTy base m) u) ∨
    (∃ name s vs, n = 0 ∧ v = .struct name vs ∧ base = .user name ∧
      ns.userDef name = some (.struct s) ∧
      List.Forall₂ (fun f v => HasType L ns f.type v) s.fields vs) ∨
    (n = 0 ∧ BaseHas L ns base v) := by
  have ha : (plainTy base n).isArray = true ↔ 0 < n := by simp [plainTy]
  have hz : (plainTy base n).isArray = false → n = 0 := fun h => by
    rcases Nat.eq_zero_or_pos n with hn | hn
    · exact hn
    · rw [ha.mpr hn] at h; cases h
  cases v with
  | array vs =>
    obtain ⟨hp, hl, hvs⟩ := hasType_array_iff.mp h
    obtain ⟨m, rfl⟩ := Nat.exists_eq_succ_of_ne_zero (Nat.pos_iff_ne_zero.mp (ha.mp hp))
    rw [plainTy_elemTy] at hvs
    exact .inl ⟨m, vs, rfl, rfl, hl, hvs⟩
  | struct name vs =>
    obtain ⟨hf, -, hb, s, hs, hvs⟩ := hasType_struct_iff.mp h
    exact .inr (.inl ⟨name, s, vs, hz hf, rfl, hb, hs, hvs⟩)
  | absent =>
    rw [HasType] at h
    cases h.2
  | present u =>
    rw [HasType] at h
    cases h.2.1
  | _ =>
    simp only [HasType] at h
    exact .inr (.inr ⟨hz h.1, h.2.2⟩)

end

/-! ## The types of the format -/

section
variable (ns : Namespace)

/-- A primitive with values, or a struct whose fields have names of their own. -/
def InFormat (t : Ty) : Prop :=
  match t.base with
  | .primitive p => p ≠ .void
  | .user name => ∃ s, ns.userDef name = some (.struct s) ∧ (s.fields.map (·.name)).Nodup

/-- Everything below the type is of the format. -/
def PyTyped (t : Ty) : Prop := ∀ u, Reaches ns t u → InFormat ns u

end

section
variable {ns : Namespace} {t : Ty} {name : Str} {s : StructDef}

theorem Namespace.pyStruct?_eq (hs : ns.userDef name = some (.struct s)) :
    ns.pyStruct? name = some s := by
  unfold Namespace.userDef at hs
  unfold Namespace.pyStruct?
  cases hf : ns.structs.find? (·.name == name) with
  | none => simp [hf] at hs
  | some s' =>
    simp only [hf, Option.some.injEq, UserDef.struct.injEq] at hs
    rw [hs]

theorem PyTyped.field {f : Field} (h : PyTyped ns t) (hb : t.base = .user name)
    (hs : ns.userDef name = some (.struct s)) (hf : f ∈ s.fields) : PyTyped ns f.type :=
  fun u hu => h u (.field hb hs hf hu)

theorem PyTyped.struct (h : PyTyped ns t) (hb : t.base = .user name) :
    ∃ s, ns.userDef name = some (.struct s) ∧ (s.fields.map (·.name)).Nodup := by
  have hf := h t (.refl t)
  unfold InFormat at hf
  rwa [hb] at hf

theorem TypeBase.rename_id (base : TypeBase) : base.rename id = base := by
  cases base <;> rfl

theorem PyCall.rename_id (c : PyCall) : c.rename id = c := by
  induction c with
  | base b => rw [PyCall.rename, b.rename_id]
  | optional b => rw [PyCall.rename, b.rename_id]
  | helper p => rfl
  | loop elem ih => rw [PyCall.rename, ih]

theorem rename_pyEncodeDims (base : TypeBase) (g : Str → Str) (o : Bool) (n : Nat) :
    (pyEncodeDims base o n).rename g = pyEncodeDims (base.rename g) o n := by
  have h0 : (pyEncodeDims base o 0).rename g = pyEncodeDims (base.rename g) o 0 := by
    cases o <;> rfl
  induction n with
  | zero => exact h0
  | succ n ih =>
    cases n with
    | zero =>
      cases base with
      | user name => rfl
      | primitive p => cases p <;> first | rfl | exact congrArg PyCall.loop h0
    | succ n => simp only [pyEncodeDims, PyCall.rename, ih]

theorem pyDecodeDims_eq (base : TypeBase) (o : Bool) (n : Nat) :
    pyDecodeDims base o n = pyEncodeDims base o n := by
  induction n with
  | zero => rfl
  | succ n ih =>
    cases n with
    | zero =>
      cases base with
      | user name => rfl
      | primitive p => cases p <;> rfl
    | succ n => simp only [pyDecodeDims, pyEncodeDims, ih]

theorem pyDecodeCall_eq (t : Ty) : pyDecodeCall t = pyEncodeCall t := pyDecodeDims_eq _ _ _

end

/-! ## Arrays -/

/-- The mark that the code for the elements of an array of `n + 1` dimensions has. -/
def elemMark (base : TypeBase) (mark : Bool) : Nat → Bool
  | 0 =>
    match base with
    | .primitive .i32 | .primitive .i64 | .primitive .string | .user _ => false
    | .primitive _ => mark
  | _ + 1 => mark

mutual

/-- No `encode_optional` runs when the code encodes the value. -/
def Unmarked (ns : Namespace) : PyCall → Val → Prop
  | .optional _, _ => False
  | .loop elem, .array vs => UnmarkedEach ns elem vs
  | .base (.user name), .struct _ vs =>
    match ns.pyStruct? name with
    | some s => UnmarkedFields ns s.fields vs
    | none => True
  | _, _ => True

def UnmarkedEach (ns : Namespace) (elem : PyCall) : List Val → Prop
  | [] => True
  | v :: vs => Unmarked ns elem v ∧ UnmarkedEach ns elem vs

def UnmarkedFields (ns : Namespace) : List Field → List Val → Prop
  | f :: fs, v :: vs => Unmarked ns (pyEncodeCall f.type) v ∧ UnmarkedFields ns fs vs
  | _, _ => True

end

section
variable {ns : Namespace} {g : Str → Str} {base : TypeBase} {o : Bool} {n depth : Nat}
  {vs : List Val}

theorem unmarkedEach_iff {elem : PyCall} :
    UnmarkedEach ns elem vs ↔ ∀ v ∈ vs, Unmarked ns elem v := by
  induction vs with
  | nil => simp [UnmarkedEach]
  | cons v vs ih => simp [UnmarkedEach, ih]

theorem unmarkedFields_iff {fs : List Field} :
    UnmarkedFields ns fs vs ↔ ∀ p ∈ fs.zip vs, Unmarked ns (pyEncodeCall p.1.type) p.2 := by
  induction fs generalizing vs with
  | nil => cases vs <;> simp [UnmarkedFields]
  | cons f fs ih => cases vs <;> simp [UnmarkedFields, ih]

theorem pyEncodeVal_array :
    pyEncodeVal ns g (depth + 1) (pyEncodeDims base o (n + 1)) (.array vs) =
      pyEncodeArray (pyEncodeVal ns g depth (pyEncodeDims base (elemMark base o n) n)) vs := by
  cases n with
  | zero =>
    cases base with
    | user name => rfl
    | primitive p => cases p <;> rfl
  | succ n => rfl

theorem pyDecodeVal_array :
    pyDecodeVal ns g (depth + 1) (pyEncodeDims base o (n + 1)) =
      pyDecodeArray (pyDecodeVal ns g depth (pyEncodeDims base (elemMark base o n) n)) := by
  cases n with
  | zero =>
    cases base with
    | user name => rfl
    | primitive p => cases p <;> rfl
  | succ n => rfl

theorem unmarked_array_iff :
    Unmarked ns (pyEncodeDims base o (n + 1)) (.array vs) ↔
      ∀ v ∈ vs, Unmarked ns (pyEncodeDims base (elemMark base o n) n) v := by
  cases n with
  | zero =>
    cases base with
    | user name => exact unmarkedEach_iff
    | primitive p =>
      cases p <;> first | exact unmarkedEach_iff | simp [pyEncodeDims, elemMark, Unmarked]
  | succ n => exact unmarkedEach_iff

theorem pyEncodeArray_ok_iff {elem : Val → Except PyError Bytes} {w : Bytes} :
    pyEncodeArray elem vs = .ok w ↔
      vs.length < 2 ^ 32 ∧ ∃ ws, each elem vs = .ok ws ∧ w = encodeCount vs.length ++ ws := by
  unfold pyEncodeArray pyEncodeCount
  by_cases h : vs.length < 2 ^ 32
  · rw [if_pos h]
    cases each elem vs with
    | error e => exact ⟨fun he => (by cases he), fun ⟨_, _, he, _⟩ => by cases he⟩
    | ok ws =>
      refine ⟨fun he => ⟨h, ws, rfl, by cases he; rfl⟩, fun ⟨_, _, he, hw⟩ => ?_⟩
      cases he
      rw [hw]
      rfl
  · rw [if_neg h]
    exact ⟨fun he => (by cases he), fun he => absurd he.1 h⟩

/-- The code for a base type, marked or not. -/
theorem pyEncodeDims_zero : pyEncodeDims base o 0 = if o then .optional base else .base base := rfl

/-- Around a value that is there, `encode_optional` writes one byte. -/
theorem pyEncodeVal_optional {v : Val} (hv : v.isBare = true) :
    pyEncodeVal ns g (depth + 1) (.optional base) v =
      (pyEncodeVal ns g (depth + 1) (.base base) v).map (encodeBool true ++ ·) := by
  have h : pyEncodeVal ns g (depth + 1) (.optional base) v = do
      return encodeBool true ++ (← pyEncodeBase ns g (pyEncodeVal ns g depth) base v) := by
    cases v <;> first | rfl | cases hv
  rw [h, pyEncodeVal]
  cases pyEncodeBase ns g (pyEncodeVal ns g depth) base v <;> rfl

theorem pyEncodeVal_present {v : Val} (hv : v.isBare = true) :
    pyEncodeVal ns g depth (.optional base) (.present v) = pyEncodeVal ns g depth (.optional base) v := by
  cases depth with
  | zero => rfl
  | succ depth => cases v <;> first | rfl | cases hv

end

/-! ## Structs -/

section
variable {ns : Namespace} {t : Ty} {name : Str} {s : StructDef} {vs : List Val} {depth : Nat}

theorem pyGetattr_field (hs : ns.userDef name = some (.struct s))
    (hnd : (s.fields.map (·.name)).Nodup) {p : Field × Val} (hp : p ∈ s.fields.zip vs) :
    pyGetattr ns p.1.name (.struct name vs) = .ok p.2 := by
  have hz : (p.1.name, p.2) ∈ (s.fields.map (·.name)).zip vs := by
    rw [List.zip_map_left]
    exact List.mem_map.mpr ⟨p, hp, rfl⟩
  simp only [pyGetattr, Namespace.pyStruct?_eq hs, List.lookup_zip_of_mem hnd hz]

/-- The fields are encoded as the attributes they are, each by the code for its type. -/
theorem pyEncodeBase_struct (hp : PyTyped ns t) (hb : t.base = .user name)
    (hs : ns.userDef name = some (.struct s)) (hl : s.fields.length = vs.length) :
    pyEncodeBase ns id (pyEncodeVal ns id depth) (.user name) (.struct name vs) =
      each (fun p => pyEncodeVal ns id depth (pyEncodeCall p.1.type) p.2) (s.fields.zip vs) := by
  obtain ⟨s', hs', hnd⟩ := hp.struct hb
  rw [hs] at hs'
  cases hs'
  have hf : s.fields = (s.fields.zip vs).map Prod.fst := (List.map_fst_zip (Nat.le_of_eq hl)).symm
  simp only [pyEncodeBase, Namespace.pyStruct?_eq hs]
  conv_lhs => rw [hf]
  rw [Cursor.each_map]
  refine Cursor.each_congr fun p hmem => ?_
  rw [PyCall.rename_id, id, pyGetattr_field hs hnd hmem]
  rfl

theorem pyDecodeBase_struct (hs : ns.userDef name = some (.struct s)) :
    pyDecodeBase ns id (pyDecodeVal ns id depth) (.user name) = do
      return .struct name
        (← decodeFields (fun t => pyDecodeVal ns id depth (pyEncodeCall t)) s.fields) := by
  simp only [pyDecodeBase, Namespace.pyStruct?_eq hs]
  rw [decodeFields_congr fun f hf => ?_]
  rw [PyCall.rename_id, pyDecodeCall_eq]

end

/-! ## Primitives -/

theorem reads_pyRead {w : Bytes} {n : Nat} (h : w.length = n) :
    Reads Buffer.cut (pyRead n) w w := by
  intro pre rest
  have hc : (Buffer.cut pre (w ++ rest)).readPos + n ≤ (Buffer.cut pre (w ++ rest)).data.length := by
    simp only [Buffer.cut_readPos, Buffer.cut_data, List.length_append]; omega
  simp only [EStateM.run, pyRead, hc, ↓reduceDIte, Buffer.cut_unread]
  simp [Buffer.cut, ← h]

theorem takes_pyRead (n : Nat) : Takes Buffer.cut (pyRead n) fun w a => w = a ∧ a.length = n := by
  intro pre rest a s h
  by_cases hn : n ≤ rest.length
  · have hl : (rest.take n).length = n := by
      rw [List.length_take]; omega
    have hr := reads_pyRead hl pre (rest.drop n)
    rw [List.take_append_drop, h] at hr
    cases hr
    exact ⟨_, _, (List.take_append_drop n rest).symm, rfl, rfl, hl⟩
  · have hc : ¬ ((Buffer.cut pre rest).readPos + n ≤ (Buffer.cut pre rest).data.length) := by
      simp only [Buffer.cut_readPos, Buffer.cut_data, List.length_append]; omega
    simp only [EStateM.run, pyRead, hc, ↓reduceDIte] at h
    cases h

section
variable {p : PrimitiveType} {v : Val} {w : Bytes}

/-- Words and floats are packed as C++ copies them. -/
theorem pyEncodePrim_word (hp : 0 < width p) :
    pyEncodePrim p v = .ok w ↔ encodePrim p v = .ok w := by
  have h : pyEncodePrim p v = (encodePrim p v).mapError fun _ => .typeError := by
    cases p <;> first | rfl | exact absurd hp (Nat.lt_irrefl 0)
  rw [h]
  cases encodePrim p v <;> simp [Except.mapError]

theorem leNat_encodeU8 (v : UInt8) : leNat (encodeU8 v) = v.toNat := by
  simp [encodeU8, leNat]

theorem leNat_encodeU16 (v : UInt16) : leNat (encodeU16 v) = v.toNat :=
  Words.leNat_leBytes v.toNat_lt

theorem leNat_encodeU32 (v : UInt32) : leNat (encodeU32 v) = v.toNat :=
  Words.leNat_leBytes v.toNat_lt

theorem leNat_encodeU64 (v : UInt64) : leNat (encodeU64 v) = v.toNat :=
  Words.leNat_leBytes v.toNat_lt

@[simp] theorem length_encodeU64 (v : UInt64) : (encodeU64 v).length = 8 := Words.length_leBytes _ _

theorem unpack_encodePrim (hp : 0 < width p) (h : encodePrim p v = .ok w) :
    w.length = width p ∧ unpack p (leNat w) = v := by
  cases p <;> cases v <;> first | cases h | skip
  case bool.bool v => cases v <;> exact ⟨rfl, rfl⟩
  case i8.i8 v => simp [width, unpack, encodeI8, leNat_encodeU8]
  case i16.i16 v => simp [width, unpack, encodeI16, leNat_encodeU16]
  case i32.i32 v => simp [width, unpack, encodeI32, leNat_encodeU32]
  case i64.i64 v => simp [width, unpack, encodeI64, leNat_encodeU64]
  case u8.u8 v => simp [width, unpack, leNat_encodeU8]
  case u16.u16 v => simp [width, unpack, leNat_encodeU16]
  case u32.u32 v => simp [width, unpack, leNat_encodeU32]
  case u64.u64 v => simp [width, unpack, leNat_encodeU64]
  case f32.f32 v => simp [width, unpack, encodeF32, leNat_encodeU32]
  case f64.f64 v => simp [width, unpack, encodeF64, leNat_encodeU64]
  case string.string s => exact absurd hp (Nat.lt_irrefl 0)
  case bytes.bytes bs => exact absurd hp (Nat.lt_irrefl 0)

/-- Whatever word is unpacked, it packs to as many bytes. -/
theorem encodePrim_unpack (hp : 0 < width p) (x : Nat) :
    ∃ w, encodePrim p (unpack p x) = .ok w ∧ w.length = width p := by
  cases p <;>
    first
    | exact ⟨_, rfl, by
        simp [width, encodeBool, encodeI8, encodeI16, encodeI64, encodeF32, encodeF64]⟩
    | exact absurd hp (Nat.lt_irrefl 0)

theorem pyEncode_string_ok_iff {s : Str} :
    pyEncodePrim .string (.string s) = .ok w ↔
      (Val.string s).Fits ∧ w = encodeCount s.length ++ s := by
  have hf : (Val.string s).Fits ↔ validUtf8 s = true ∧ s.length < 2 ^ 32 := Iff.rfl
  rw [pyEncodePrim, hf]
  by_cases hu : validUtf8 s = true
  · rw [if_pos hu]
    by_cases hl : s.length > 0xFFFFFFFF
    · rw [if_pos hl]
      exact ⟨fun h => (by cases h), fun h => absurd h.1.2 (by omega)⟩
    · rw [if_neg hl]
      refine ⟨fun h => ⟨⟨hu, by omega⟩, by cases h; rfl⟩, fun h => by rw [h.2]⟩
  · rw [if_neg hu]
    exact ⟨fun h => (by cases h), fun h => absurd h.1.1 hu⟩

theorem pyEncode_bytes_ok_iff {bs : Bytes} :
    pyEncodePrim .bytes (.bytes bs) = .ok w ↔
      (Val.bytes bs).Fits ∧ w = encodeCount bs.length ++ bs := by
  have hf : (Val.bytes bs).Fits ↔ bs.length < 2 ^ 32 := Iff.rfl
  rw [pyEncodePrim, hf]
  by_cases hl : bs.length > 0xFFFFFFFF
  · rw [if_pos hl]
    exact ⟨fun h => (by cases h), fun h => absurd h.1 (by omega)⟩
  · rw [if_neg hl]
    refine ⟨fun h => ⟨by omega, by cases h; rfl⟩, fun h => by rw [h.2]⟩

theorem pyEncodePrim_ok_iff {L : Limits} (h : p.Has L v) :
    (∃ w, pyEncodePrim p v = .ok w) ↔ v.Fits := by
  cases p <;> cases v <;>
    first
    | exact h.elim
    | exact ⟨fun _ => trivial, fun _ => ⟨_, rfl⟩⟩
    | skip
  case string.string s =>
    simp only [pyEncode_string_ok_iff, exists_and_left, exists_eq, and_true]
  case bytes.bytes bs =>
    simp only [pyEncode_bytes_ok_iff, exists_and_left, exists_eq, and_true]

theorem isBare_of_has {L : Limits} (h : p.Has L v) : v.isBare = true := by
  cases v <;> first | rfl | (cases p <;> exact h.elim)

/-! The decoders of the primitives. -/

theorem reads_pyDecodeU32 {n : Nat} (h : n < 2 ^ 32) :
    Reads Buffer.cut pyDecodeU32 (encodeCount n) n := by
  have hr := (reads_pyRead (length_encodeU32 (UInt32.ofNat n))).map leNat
  rwa [leNat_encodeU32, toNat_count h] at hr

theorem takes_pyDecodeU32 :
    Takes Buffer.cut pyDecodeU32 fun w n => w.length = 4 ∧ n < 2 ^ 32 := by
  refine .map ((takes_pyRead 4).mono fun w a ⟨hw, hl⟩ => ⟨by rw [hw, hl], ?_⟩)
  have h := Words.leNat_lt a
  rw [hl] at h
  exact h

theorem pyDecodePrim_word (hp : 0 < width p) :
    pyDecodePrim p = do return unpack p (leNat (← pyRead (width p))) := by
  cases p <;> first | rfl | exact absurd hp (Nat.lt_irrefl 0)

theorem reads_pyDecodePrim (h : pyEncodePrim p v = .ok w) :
    Reads Buffer.cut (pyDecodePrim p) w v := by
  by_cases hp : 0 < width p
  · obtain ⟨hl, hv⟩ := unpack_encodePrim hp ((pyEncodePrim_word hp).mp h)
    rw [pyDecodePrim_word hp]
    have hr := (reads_pyRead hl).map fun a => unpack p (leNat a)
    rwa [hv] at hr
  · cases p <;> first | exact absurd (by decide) hp | skip
    case string =>
      cases v <;> first | cases h | skip
      case string s =>
        obtain ⟨⟨hu, hl⟩, rfl⟩ := pyEncode_string_ok_iff.mp h
        refine (reads_pyDecodeU32 hl).bind ?_
        have hs : Reads Buffer.cut (pyRead s.length) s s := reads_pyRead rfl
        have hb : Reads Buffer.cut (do
            let text ← pyRead s.length
            if validUtf8 text then return Val.string text else throw PyError.unicodeError)
            (s ++ []) (.string s) := hs.bind (by rw [if_pos hu]; exact .pure _)
        rwa [List.append_nil] at hb
    case bytes =>
      cases v <;> first | cases h | skip
      case bytes bs =>
        obtain ⟨hl, rfl⟩ := pyEncode_bytes_ok_iff.mp h
        exact (reads_pyDecodeU32 hl).bind ((reads_pyRead rfl).map Val.bytes)
    case void => cases h

/-- A decoder takes as many bytes as the encoding of what it returns has. -/
def SameSize (enc : Val → Except PyError Bytes) (w : Bytes) (v : Val) : Prop :=
  ∃ w', enc v = .ok w' ∧ w'.length = w.length

theorem takes_pyDecodePrim :
    Takes Buffer.cut (pyDecodePrim p) fun w v =>
      v.isBare = true ∧ SameSize (pyEncodePrim p) w v := by
  by_cases hp : 0 < width p
  · rw [pyDecodePrim_word hp]
    refine .map ((takes_pyRead (width p)).mono fun w a ⟨hw, hl⟩ => ?_)
    obtain ⟨w', hw', hl'⟩ := encodePrim_unpack hp (leNat a)
    refine ⟨?_, w', (pyEncodePrim_word hp).mpr hw', by rw [hl', hw, hl]⟩
    exact isBare_of_has (encodePrim_ok_iff.mp ⟨w', hw'⟩)
  · cases p <;> first | exact absurd (by decide) hp | skip
    case string =>
      refine takes_pyDecodeU32.bind fun w n ⟨hw, hn⟩ => (takes_pyRead n).bind fun w' s ⟨hw', hl⟩ => ?_
      by_cases hu : validUtf8 s = true
      · rw [if_pos hu]
        refine .pure ⟨rfl, _, pyEncode_string_ok_iff.mpr ⟨⟨hu, by omega⟩, rfl⟩, ?_⟩
        simp [encodeCount, hw, hw']
      · rw [if_neg hu]
        exact .throw _
    case bytes =>
      refine takes_pyDecodeU32.bind fun w n ⟨hw, hn⟩ => .map ((takes_pyRead n).mono ?_)
      rintro w' bs ⟨hw', hl⟩
      refine ⟨rfl, _, pyEncode_bytes_ok_iff.mpr ⟨by show bs.length < 2 ^ 32; omega, rfl⟩, ?_⟩
      simp [encodeCount, hw, hw']
    case void => exact .throw _

end

/-! ## What is encoded -/

section
variable {L : Limits} {ns : Namespace}

theorem isBare_of_baseHas {base : TypeBase} {v : Val} (h : BaseHas L ns base v) :
    v.isBare = true := by
  cases base with
  | primitive p => exact isBare_of_has h
  | user name =>
    obtain ⟨e, -, he⟩ := userDef_of_baseHas h
    exact isBare_of_has he

theorem isBare_of_plain {base : TypeBase} {n : Nat} {v : Val}
    (h : HasType L ns (plainTy base n) v) : v.isBare = true := by
  rcases h.plain_forms with ⟨_, _, _, rfl, _⟩ | ⟨_, _, _, _, rfl, _⟩ | ⟨_, hv⟩
  · rfl
  · rfl
  · exact isBare_of_baseHas hv

/-- The base types of the format have no enum. -/
theorem PyTyped.baseHas {t : Ty} {v : Val} (hp : PyTyped ns t) (hv : BaseHas L ns t.base v) :
    ∃ p, t.base = .primitive p ∧ p.Has L v := by
  cases hb : t.base with
  | primitive p =>
    rw [hb] at hv
    exact ⟨p, rfl, hv⟩
  | user name =>
    rw [hb] at hv
    obtain ⟨e, he, -⟩ := userDef_of_baseHas hv
    obtain ⟨s, hs, -⟩ := hp.struct hb
    rw [he] at hs
    cases hs

/-- That a marked base type is encoded does not depend on the mark. -/
theorem ok_of_mark {t : Ty} {o : Bool} {v : Val} {depth : Nat} (hv : v.isBare = true) :
    (∃ w, pyEncodeVal ns id (depth + 1) (pyEncodeDims t.base o 0) v = .ok w) ↔
      ∃ w, pyEncodeVal ns id (depth + 1) (.base t.base) v = .ok w := by
  rw [pyEncodeDims_zero]
  cases o with
  | false => exact Iff.rfl
  | true =>
    rw [if_pos rfl, pyEncodeVal_optional hv]
    simp only [Eff.map_ok_iff]
    exact ⟨fun ⟨_, w, hw, _⟩ => ⟨w, hw⟩, fun ⟨w, hw⟩ => ⟨_, w, hw, rfl⟩⟩

/-- From the code for arrays to the code for any type: an optional type that is no array is
encoded as its base, marked. -/
theorem pyEncodeCall_ok_iff {depth : Nat}
    (ih : ∀ {t : Ty} {o n v}, PyTyped ns t → HasType L ns (plainTy t.base n) v → v.depth ≤ depth →
      ((∃ w, pyEncodeVal ns id depth (pyEncodeDims t.base o n) v = .ok w) ↔ v.Fits))
    {t : Ty} {v : Val} (hp : PyTyped ns t) (ht : HasType L ns t v) (hd : v.depth ≤ depth) :
    (∃ w, pyEncodeVal ns id depth (pyEncodeCall t) v = .ok w) ↔ v.Fits := by
  rcases ht.plain with hv | ⟨ha, ho, rfl | ⟨u, rfl, hu⟩⟩
  · exact ih hp hv hd
  · obtain ⟨k, rfl⟩ := Nat.exists_eq_succ_of_ne_zero (Nat.pos_iff_ne_zero.mp hd)
    have hc : pyEncodeCall t = .optional t.base := by
      rw [pyEncodeCall, Ty.dimCount, ha, ho]; rfl
    rw [hc]
    exact ⟨fun _ => trivial, fun _ => ⟨_, rfl⟩⟩
  · have hc : pyEncodeCall t = pyEncodeDims t.base true 0 := by
      rw [pyEncodeCall, Ty.dimCount, ha, ho]; rfl
    rw [Val.depth] at hd
    rw [hc, Val.fits_present_iff, ← ih (o := true) hp hu (by omega), pyEncodeDims_zero, if_pos rfl,
      pyEncodeVal_present (isBare_of_plain hu)]

/-- A value is encoded if and only if it fits. -/
theorem pyEncodeDims_ok_iff {depth n : Nat} {t : Ty} {o : Bool} {v : Val} (hp : PyTyped ns t)
    (ht : HasType L ns (plainTy t.base n) v) (hd : v.depth ≤ depth) :
    (∃ w, pyEncodeVal ns id depth (pyEncodeDims t.base o n) v = .ok w) ↔ v.Fits := by
  induction depth generalizing t o n v with
  | zero => exact absurd v.depth_pos (by omega)
  | succ depth ih =>
    rcases ht.plain_forms with ⟨m, vs, rfl, rfl, hl, hvs⟩ | ⟨name, s, vs, rfl, rfl, hb, hs, hvs⟩ |
      ⟨rfl, hv⟩
    · simp only [pyEncodeVal_array, pyEncodeArray_ok_iff, Val.fits_array_iff]
      have hel : (∃ ws, each (pyEncodeVal ns id depth (pyEncodeDims t.base (elemMark t.base o m) m)) vs =
          .ok ws) ↔ ∀ v ∈ vs, v.Fits := by
        rw [Cursor.each_ok_iff]
        exact forall₂_congr fun u hu => ih hp (hvs u hu) (Val.depth_elem hd hu)
      rw [← hel]
      exact ⟨fun ⟨_, hlt, ws, hws, _⟩ => ⟨hlt, ws, hws⟩,
        fun ⟨hlt, ws, hws⟩ => ⟨_, hlt, ws, hws, rfl⟩⟩
    · rw [ok_of_mark (isBare_of_plain ht), pyEncodeVal, hb,
        pyEncodeBase_struct hp hb hs hvs.length_eq, Cursor.each_ok_iff, Val.fits_struct_iff]
      have hf : ∀ p ∈ s.fields.zip vs,
          ((∃ w, pyEncodeVal ns id depth (pyEncodeCall p.1.type) p.2 = .ok w) ↔ p.2.Fits) :=
        fun p hmem => pyEncodeCall_ok_iff (fun hp hv hd => ih hp hv hd)
          (hp.field hb hs (List.of_mem_zip hmem).1) (List.forall₂_zip hvs hmem)
          (Val.depth_field hd hmem)
      rw [forall₂_congr hf]
      have hsnd : vs = (s.fields.zip vs).map Prod.snd :=
        (List.map_snd_zip (Nat.le_of_eq hvs.length_eq.symm)).symm
      conv_rhs => rw [hsnd]
      simp only [List.forall_mem_map]
    · obtain ⟨p, hb, hv⟩ := hp.baseHas hv
      rw [ok_of_mark (isBare_of_plain ht), pyEncodeVal, hb, pyEncodeBase]
      exact pyEncodePrim_ok_iff hv

theorem pyEncodeVal_ok_iff {depth : Nat} {t : Ty} {v : Val} (hp : PyTyped ns t)
    (ht : HasType L ns t v) (hd : v.depth ≤ depth) :
    (∃ w, pyEncodeVal ns id depth (pyEncodeCall t) v = .ok w) ↔ v.Fits :=
  pyEncodeCall_ok_iff pyEncodeDims_ok_iff hp ht hd

end

/-! ## Decoding -/

section
variable {L : Limits} {ns : Namespace} {vs : List Val} {w : Bytes}

theorem reads_pyDecodeArray {elem : PyDec Val} (hl : vs.length < 2 ^ 32)
    (h : Reads Buffer.cut (many vs.length elem) w vs) :
    Reads Buffer.cut (pyDecodeArray elem) (encodeCount vs.length ++ w) (.array vs) :=
  (reads_pyDecodeU32 hl).bind (h.map Val.array)

theorem not_unmarked_optional {base : TypeBase} {v : Val} : ¬ Unmarked ns (.optional base) v := by
  rw [Unmarked]
  exact id

theorem unmarked_base {base : TypeBase} {o : Bool} {v : Val}
    (h : Unmarked ns (pyEncodeDims base o 0) v) : o = false := by
  cases o with
  | false => rfl
  | true => exact absurd h not_unmarked_optional

theorem Unmarked.field {s : StructDef} {name : Str} (hs : ns.userDef name = some (.struct s))
    (h : Unmarked ns (.base (.user name)) (.struct name vs)) {p : Field × Val}
    (hp : p ∈ s.fields.zip vs) : Unmarked ns (pyEncodeCall p.1.type) p.2 := by
  rw [Unmarked, Namespace.pyStruct?_eq hs] at h
  exact unmarkedFields_iff.mp h p hp

/-- What the encoder wrote without a mark is read back. -/
theorem reads_pyDecodeVal {depth n : Nat} {t : Ty} {o : Bool} {v : Val} (hp : PyTyped ns t)
    (ht : HasType L ns (plainTy t.base n) v) (hu : Unmarked ns (pyEncodeDims t.base o n) v)
    (hw : pyEncodeVal ns id depth (pyEncodeDims t.base o n) v = .ok w) :
    Reads Buffer.cut (pyDecodeVal ns id depth (pyEncodeDims t.base o n)) w v := by
  induction depth generalizing t o n v w with
  | zero => cases hw
  | succ depth ih =>
    rcases ht.plain_forms with ⟨m, vs, rfl, rfl, hl, hvs⟩ | ⟨name, s, vs, rfl, rfl, hb, hs, hvs⟩ |
      ⟨rfl, hv⟩
    · rw [pyEncodeVal_array, pyEncodeArray_ok_iff] at hw
      obtain ⟨hlt, ws, hws, rfl⟩ := hw
      rw [unmarked_array_iff] at hu
      rw [pyDecodeVal_array]
      exact reads_pyDecodeArray hlt (.many (fun u hm w hw => ih hp (hvs u hm) (hu u hm) hw) hws)
    · obtain rfl := unmarked_base hu
      have hc : pyEncodeDims t.base false 0 = .base (.user name) := by rw [hb]; rfl
      rw [hc] at hu hw ⊢
      rw [pyEncodeVal, pyEncodeBase_struct hp hb hs hvs.length_eq] at hw
      rw [pyDecodeVal, pyDecodeBase_struct hs]
      refine .map _ (reads_decodeFields hvs.length_eq (fun p hm w hw => ?_) hw)
      rcases (List.forall₂_zip hvs hm).plain with hpv | ⟨ha, ho, -⟩
      · exact ih (hp.field hb hs (List.of_mem_zip hm).1) hpv (hu.field hs hm) hw
      · have hup := hu.field hs hm
        rw [pyEncodeCall, Ty.dimCount, ha, ho] at hup
        exact absurd hup not_unmarked_optional
    · obtain rfl := unmarked_base hu
      obtain ⟨p, hb, -⟩ := hp.baseHas hv
      have hc : pyEncodeDims t.base false 0 = .base (.primitive p) := by rw [hb]; rfl
      rw [hc] at hw ⊢
      rw [pyEncodeVal, pyEncodeBase] at hw
      rw [pyDecodeVal, pyDecodeBase]
      exact reads_pyDecodePrim hw

/-! ## Sizes -/

/-- Parts that were taken one after another take as many bytes together as their
encodings. -/
theorem exists_each_of_sizes {α : Type} {enc : α → Except PyError Bytes} {ws : List Bytes}
    {as : List α} (h : List.Forall₂ (fun w a => ∃ w', enc a = .ok w' ∧ w'.length = w.length) ws as) :
    ∃ w', each enc as = .ok w' ∧ w'.length = ws.flatten.length := by
  induction h with
  | nil => exact ⟨[], rfl, rfl⟩
  | cons h _ ih =>
    obtain ⟨w₁, h₁, hl₁⟩ := h
    obtain ⟨w₂, h₂, hl₂⟩ := ih
    refine ⟨w₁ ++ w₂, Cursor.each_cons_ok_iff.mpr ⟨w₁, w₂, h₁, h₂, rfl⟩, ?_⟩
    simp only [List.length_append, List.flatten_cons, hl₁, hl₂]

theorem takes_pyDecodeArray {elem : PyDec Val} {enc : Val → Except PyError Bytes}
    (h : Takes Buffer.cut elem (SameSize enc)) :
    Takes Buffer.cut (pyDecodeArray elem) fun w v =>
      ∃ vs, v = .array vs ∧ ∃ w', pyEncodeArray enc vs = .ok w' ∧ w'.length = w.length := by
  refine takes_pyDecodeU32.bind fun w n ⟨hw, hn⟩ => .map ((h.many n).mono ?_)
  rintro w₂ vs ⟨hl, ws, hws, rfl⟩
  obtain ⟨w', hw', hlen⟩ := exists_each_of_sizes hws
  refine ⟨vs, rfl, _, pyEncodeArray_ok_iff.mpr ⟨by omega, w', hw', rfl⟩, ?_⟩
  simp only [encodeCount, List.length_append, length_encodeU32, hw, hlen]

theorem takes_pyDecodeStruct {depth : Nat} {t : Ty} {name : Str} {s : StructDef}
    (hp : PyTyped ns t) (hb : t.base = .user name) (hs : ns.userDef name = some (.struct s))
    (h : ∀ f ∈ s.fields, Takes Buffer.cut (pyDecodeVal ns id depth (pyEncodeCall f.type))
      (SameSize (pyEncodeVal ns id depth (pyEncodeCall f.type)))) :
    Takes Buffer.cut (pyDecodeBase ns id (pyDecodeVal ns id depth) (.user name)) fun w v =>
      v.isBare = true ∧ SameSize (pyEncodeBase ns id (pyEncodeVal ns id depth) (.user name)) w v := by
  rw [pyDecodeBase_struct hs]
  refine .map ((takes_decodeFields h).mono ?_)
  rintro w vs ⟨hl, ws, hws, rfl⟩
  refine ⟨rfl, ?_⟩
  rw [SameSize, pyEncodeBase_struct hp hb hs hl]
  exact exists_each_of_sizes hws

/-- A decoder takes as many bytes as the encoding of what it returns has, the byte of
`decode_optional` counted. -/
theorem takes_pyDecodeVal {depth n : Nat} {t : Ty} {o : Bool} (hp : PyTyped ns t) :
    Takes Buffer.cut (pyDecodeVal ns id depth (pyEncodeDims t.base o n))
      (SameSize (pyEncodeVal ns id depth (pyEncodeDims t.base o n))) := by
  induction depth generalizing t o n with
  | zero => exact .throw _
  | succ depth ih =>
    cases n with
    | succ n =>
      rw [pyDecodeVal_array]
      refine (takes_pyDecodeArray (ih hp)).mono ?_
      rintro w v ⟨vs, rfl, h⟩
      rwa [SameSize, pyEncodeVal_array]
    | zero =>
      have hbase : Takes Buffer.cut (pyDecodeBase ns id (pyDecodeVal ns id depth) t.base) fun w v =>
          v.isBare = true ∧ SameSize (pyEncodeBase ns id (pyEncodeVal ns id depth) t.base) w v := by
        cases hb : t.base with
        | primitive p => exact takes_pyDecodePrim
        | user name =>
          obtain ⟨s, hs, -⟩ := hp.struct hb
          exact takes_pyDecodeStruct hp hb hs fun f hf => ih (hp.field hb hs hf)
      rw [pyEncodeDims_zero]
      cases o with
      | false => exact hbase.mono fun w v h => h.2
      | true =>
        refine (takes_pyRead 1).bind fun w present ⟨hw, hl⟩ => ?_
        by_cases h1 : (leNat present != 0) = true
        · rw [if_pos h1]
          refine hbase.mono fun w₂ v ⟨hv, w', hw', hlen⟩ => ?_
          rw [SameSize, if_pos rfl, pyEncodeVal_optional hv, pyEncodeVal, hw']
          refine ⟨_, rfl, ?_⟩
          simp only [encodeBool, List.length_append, List.length_cons, List.length_nil, hlen, hw, hl]
        · rw [if_neg h1]
          refine .pure ⟨encodeBool false, rfl, ?_⟩
          simp [encodeBool, hw, hl]

end

end Song.Compiler
