import Song.Compiler.Calls

/-!
# Round trips of the generated codecs

The two generators emit the same calls, and an array template calls for its elements what
the generators would. So both directions go by the nesting of the calls, over any type
whose codecs compile: what encoding a value wrote is read back as that value
(`reads_decodeVal`), and what is read, where no `bool` is in reach, is the encoding of the
value returned (`takes_decodeVal`).
-/

namespace Song.Compiler

open Cursor (Reads Takes many each)

/-! ## Encoding -/

section
variable {ns : Namespace} {L : Limits}

/-- The runtime's limits, an array of a user's type as long as `L` has it. -/
def Limits.inCpp (L : Limits) : Limits := { cppLimits with objects := L.objects }

theorem PrimitiveType.has_inCpp {p : PrimitiveType} {v : Val} :
    p.Has L.inCpp v ↔ p.Has cppLimits v := by
  cases p <;> exact Iff.rfl

/-- The bytes of a value of a base type, as the call for the type makes them. -/
theorem encodeVal_base_ok_iff {t : Ty} {v : Val} (ha : t.isArray = false)
    (ho : t.isOptional = false) (hv : BaseHas L ns t.base v) :
    (∃ w, encodeVal ns (encodeCall t) v = .ok w) ↔ BaseHas L.inCpp ns t.base v := by
  cases hb : t.base with
  | primitive p =>
    rw [encodeCall_prim ha ho hb]
    simp only [encodeVal]
    exact encodePrim_ok_iff.trans PrimitiveType.has_inCpp.symm
  | user name =>
    rw [hb] at hv
    obtain ⟨e, he, -⟩ := userDef_of_baseHas hv
    simp only [encodeCall_user ha ho hb, encodeVal_enum he, BaseHas, he]
    exact encodePrim_ok_iff.trans PrimitiveType.has_inCpp.symm

/-- A value is encoded if and only if it is within the limits of the runtime. -/
theorem encodeVal_ok_iff {n : Nat} {t : Ty} {v : Val} (hn : v.depth ≤ n) (hc : Compilable ns t)
    (ht : HasType L ns t v) :
    (∃ w, encodeVal ns (encodeCall t) v = .ok w) ↔ HasType L.inCpp ns t v := by
  induction n generalizing t v with
  | zero => exact absurd v.depth_pos (by omega)
  | succ n ih =>
    rcases ht.forms hc.compiles with ⟨vs, rfl, ha, hl, hvs⟩ |
      ⟨name, s, vs, rfl, ha, ho, hb, hs, hvs⟩ | ⟨ha, ho, hv⟩
    · have hel : (∃ w, ArrayBytes ns (encodeCall t.elemTy) vs w) ↔
          ∀ u ∈ vs, HasType L.inCpp ns t.elemTy u := by
        have he : (∃ w, ArrayBytes ns (encodeCall t.elemTy) vs w) ↔
            ∃ ws, each (encodeVal ns (encodeCall t.elemTy)) vs = .ok ws :=
          ⟨fun ⟨_, ws, hws, _⟩ => ⟨ws, hws⟩, fun ⟨ws, hws⟩ => ⟨_, ws, hws, rfl⟩⟩
        rw [he, Cursor.each_ok_iff]
        exact forall₂_congr fun u hu => ih (Val.depth_elem hn hu) (hc.elemTy ha) (hvs u hu)
      rw [hasType_array_iff, ← hel]
      rcases encodeCall_array hc.compiles ha with
        ⟨name, -, hcall, helem, hL⟩ | ⟨-, hcall, helem, hL⟩
      · rw [hL] at hl
        simp only [hcall, encodeVal_userArray_ok_iff, helem, hL, ha, true_and]
        exact (and_iff_right hl).symm
      · simp only [hcall, encodeVal_template_ok_iff helem, hL, ha, true_and, exists_and_left]
        exact Iff.rfl
    · have hlen := hvs.length_eq
      rw [encodeCall_user ha ho hb, encodeVal_struct hs, encodeFields_eq hlen, Cursor.each_ok_iff,
        hasType_struct_iff]
      have hf : (∀ p ∈ s.fields.zip vs, ∃ w, encodeVal ns (encodeCall p.1.type) p.2 = .ok w) ↔
          List.Forall₂ (fun f v => HasType L.inCpp ns f.type v) s.fields vs := by
        rw [List.forall₂_iff_zip]
        refine ⟨fun h => ⟨hlen, fun {f u} hp => ?_⟩, fun h p hp => ?_⟩
        · exact (ih (Val.depth_field hn hp) (hc.field hb hs (List.of_mem_zip hp).1)
            (List.forall₂_zip hvs hp)).mp (h _ hp)
        · exact (ih (Val.depth_field hn hp) (hc.field hb hs (List.of_mem_zip hp).1)
            (List.forall₂_zip hvs hp)).mpr (h.2 hp)
      rw [hf]
      exact ⟨fun h => ⟨ha, ho, hb, s, hs, h⟩, fun ⟨_, _, _, s', hs', h⟩ => by
        rw [hs] at hs'; cases hs'; exact h⟩
    · rw [encodeVal_base_ok_iff ha ho hv]
      exact ⟨hasType_of_base ha ho, fun h => (h.forms hc.compiles).elim
        (fun ⟨_, _, ha', _⟩ => by rw [ha] at ha'; cases ha') fun h => h.elim
        (fun ⟨name, s, vs, hvs, _, _, hb, hs, _⟩ => by
          subst hvs
          rw [hb] at hv
          obtain ⟨e, he, _⟩ := userDef_of_baseHas hv
          rw [hs] at he; cases he)
        fun h => h.2.2⟩

end

/-! ## Decoding what was encoded -/

section
variable {ns : Namespace} {L : Limits} {elem : GenDec Val} {vs : List Val} {w : Bytes}

theorem reads_count (n : Nat) :
    Reads Buffer.cut (Dec.lift decodeU32) (encodeCount n) (UInt32.ofNat n) :=
  reads_lift (reads_decodeU32 _)

theorem reads_decodeUserArray (hl : vs.length < 2 ^ 32)
    (h : Reads Buffer.cut (many vs.length elem) w vs) :
    Reads Buffer.cut (decodeUserArray elem) (encodeCount vs.length ++ w) (.array vs) := by
  refine (reads_count _).bind ?_
  rw [toNat_count hl]
  exact h.map Val.array

theorem reads_decodeTemplate (hl : vs.length ≤ kMaxArrayCount)
    (h : Reads Buffer.cut (many vs.length elem) w vs) :
    Reads Buffer.cut (decodeTemplate elem) (encodeCount vs.length ++ w) (.array vs) := by
  have hlt : vs.length < 2 ^ 32 := by
    simp only [kMaxArrayCount] at hl; omega
  refine (reads_count _).bind ?_
  rw [toNat_count hlt, if_neg (Nat.not_lt.mpr hl)]
  exact h.map Val.array

/-- Whatever follows, the decoder takes an encoding and returns the value it is of. -/
theorem reads_decodeVal {depth : Nat} {t : Ty} {v : Val} {w : Bytes} (hn : v.depth ≤ depth)
    (hc : Compilable ns t) (ht : HasType cppLimits ns t v)
    (hw : encodeVal ns (encodeCall t) v = .ok w) :
    Reads Buffer.cut (decodeVal ns depth (decodeCall t)) w v := by
  rw [decodeCall_eq]
  induction depth generalizing t v w with
  | zero => exact absurd v.depth_pos (by omega)
  | succ depth ih =>
    rcases ht.forms hc.compiles with ⟨vs, rfl, ha, hl, hvs⟩ |
      ⟨name, s, vs, rfl, ha, ho, hb, hs, hvs⟩ | ⟨ha, ho, hv⟩
    · have hmany : ∀ w, each (encodeVal ns (encodeCall t.elemTy)) vs = .ok w →
          Reads Buffer.cut (many vs.length (decodeVal ns depth (encodeCall t.elemTy))) w vs :=
        fun w hw => .many (fun u hu w hw =>
          ih (Val.depth_elem hn hu) (hc.elemTy ha) (hvs u hu) hw) hw
      rcases encodeCall_array hc.compiles ha with
        ⟨name, -, hcall, helem, hL⟩ | ⟨-, hcall, helem, hL⟩
      · rw [hL] at hl
        rw [hcall, encodeVal_userArray_ok_iff, ← helem] at hw
        obtain ⟨w', hw', rfl⟩ := hw
        rw [hcall, decodeVal, ← helem]
        exact reads_decodeUserArray (Nat.lt_of_le_pred (by decide) hl) (hmany w' hw')
      · rw [hcall, encodeVal_template_ok_iff helem] at hw
        obtain ⟨hle, w', hw', rfl⟩ := hw
        simp only [hcall, decodeVal, decodeElem_of_encodeElem helem]
        exact reads_decodeTemplate hle (hmany w' hw')
    · rw [encodeCall_user ha ho hb] at hw ⊢
      rw [encodeVal_struct hs, encodeFields_eq hvs.length_eq] at hw
      simp only [decodeVal, hs]
      have hfields : Reads Buffer.cut
          (decodeFields (fun t => decodeVal ns depth (decodeCall t)) s.fields) w vs :=
        reads_decodeFields hvs.length_eq (fun p hp w hw =>
          ih (Val.depth_field hn hp) (hc.field hb hs (List.of_mem_zip hp).1)
            (List.forall₂_zip hvs hp) hw) hw
      exact hfields.map (Val.struct name)
    · cases hb : t.base with
      | primitive p =>
        rw [encodeCall_prim ha ho hb, encodeVal] at hw
        rw [encodeCall_prim ha ho hb, decodeVal]
        exact reads_decodePrim hw
      | user name =>
        rw [encodeCall_user ha ho hb] at hw ⊢
        rw [hb] at hv
        obtain ⟨e, he, -⟩ := userDef_of_baseHas hv
        rw [encodeVal_enum he] at hw
        simp only [decodeVal, he]
        exact reads_decodePrim hw

end

/-! ## Encoding what was decoded -/

section
variable {ns : Namespace} {t : Ty}

/-- No `bool` at or below the type. -/
def BoolFree (ns : Namespace) (t : Ty) : Prop :=
  ∀ u, Reaches ns t u → u.base ≠ .primitive .bool

theorem BoolFree.elemTy (h : BoolFree ns t) : BoolFree ns t.elemTy := by
  intro u hu
  rcases hu.base_congr (r := t) rfl with rfl | hu
  · exact h t (.refl t)
  · exact h u hu

theorem BoolFree.field {name : Str} {s : StructDef} {f : Field} (h : BoolFree ns t)
    (hb : t.base = .user name) (hs : ns.userDef name = some (.struct s)) (hf : f ∈ s.fields) :
    BoolFree ns f.type := fun u hu => h u (.field hb hs hf hu)

/-- `v` is a value of the type, and `w` its encoding. -/
def Encodes (ns : Namespace) (t : Ty) (w : Bytes) (v : Val) : Prop :=
  encodeVal ns (encodeCall t) v = .ok w ∧ HasType cppLimits ns t v

variable {elem : GenDec Val} {call : Call} {Q : Val → Prop}

theorem takes_count :
    Takes Buffer.cut (Dec.lift decodeU32) fun w n => encodeCount n.toNat = w :=
  takes_lift (takes_decodeU32.mono fun w n h => by rwa [encodeCount, UInt32.ofNat_toNat])

theorem takes_decodeUserArray
    (h : Takes Buffer.cut elem fun w v => encodeVal ns call v = .ok w ∧ Q v) :
    Takes Buffer.cut (decodeUserArray elem) fun w v => ∃ vs, v = .array vs ∧
      ArrayBytes ns call vs w ∧ vs.length ≤ cppLimits.objects ∧ ∀ u ∈ vs, Q u := by
  refine takes_count.bind fun w count hw => .map ((h.many_each count.toNat).mono ?_)
  rintro w' vs ⟨hvs, hl, hq⟩
  have hlt := count.toNat_lt
  exact ⟨vs, rfl, ⟨w', hvs, by rw [hl, hw]⟩, by simp only [cppLimits]; omega, hq⟩

theorem takes_decodeTemplate
    (h : Takes Buffer.cut elem fun w v => encodeVal ns call v = .ok w ∧ Q v) :
    Takes Buffer.cut (decodeTemplate elem) fun w v => ∃ vs, v = .array vs ∧
      ArrayBytes ns call vs w ∧ vs.length ≤ cppLimits.elems ∧ ∀ u ∈ vs, Q u := by
  refine takes_count.bind fun w count hw => ?_
  by_cases hmax : count.toNat > kMaxArrayCount
  · rw [if_pos hmax]
    exact Takes.bind (.throw _) fun _ _ (hf : False) => hf.elim
  · rw [if_neg hmax]
    refine .map ((h.many_each count.toNat).mono ?_)
    rintro w' vs ⟨hvs, hl, hq⟩
    exact ⟨vs, rfl, ⟨w', hvs, by rw [hl, hw]⟩, by simp only [cppLimits]; omega, hq⟩

/-- The fields taken are those of a struct value, its encoding what was taken for them. -/
theorem takes_structFields {field : Ty → GenDec Val} {fs : List Field}
    (h : ∀ f ∈ fs, Takes Buffer.cut (field f.type) (Encodes ns f.type)) :
    Takes Buffer.cut (decodeFields field fs) fun w vs => encodeFields ns fs vs = .ok w ∧
      List.Forall₂ (fun f v => HasType cppLimits ns f.type v) fs vs := by
  refine (takes_decodeFields h).mono ?_
  rintro w vs ⟨hl, ws, hws, rfl⟩
  rw [encodeFields_eq hl]
  refine ⟨Cursor.each_of_forall₂ (hws.imp fun _ _ h => h.1), List.forall₂_iff_zip.mpr ⟨hl, ?_⟩⟩
  intro f v hp
  obtain ⟨w, -, hw⟩ := List.exists_of_forall₂_right hws hp
  exact hw.2

/-- Whatever the decoder takes is the encoding of what it returns. -/
theorem takes_decodeVal {depth : Nat} (hc : Compilable ns t) (hf : BoolFree ns t) :
    Takes Buffer.cut (decodeVal ns depth (decodeCall t)) (Encodes ns t) := by
  rw [decodeCall_eq]
  induction depth generalizing t with
  | zero => exact .throw _
  | succ depth ih =>
    by_cases ha : t.isArray = true
    · have hel := ih (hc.elemTy ha) hf.elemTy
      rcases encodeCall_array hc.compiles ha with
        ⟨name, -, hcall, helem, hL⟩ | ⟨-, hcall, helem, hL⟩
      · unfold Encodes at hel
        rw [helem] at hel
        rw [hcall, decodeVal]
        refine (takes_decodeUserArray hel).mono ?_
        rintro w v ⟨vs, rfl, hw, hl, hvs⟩
        refine ⟨?_, hasType_array_iff.mpr ⟨ha, by rwa [hL], hvs⟩⟩
        rwa [hcall, encodeVal_userArray_ok_iff]
      · simp only [hcall, decodeVal, decodeElem_of_encodeElem helem]
        refine (takes_decodeTemplate hel).mono ?_
        rintro w v ⟨vs, rfl, hw, hl, hvs⟩
        refine ⟨?_, hasType_array_iff.mpr ⟨ha, by rwa [hL], hvs⟩⟩
        rw [hcall, encodeVal_template_ok_iff helem]
        exact ⟨hl, hw⟩
    · have ha' : t.isArray = false := Bool.not_eq_true _ ▸ ha
      have ho := hc.compiles.notOptional ha'
      cases hb : t.base with
      | primitive p =>
        have hp : p ≠ .bool := fun hp => hf t (.refl t) (hp ▸ hb)
        rw [encodeCall_prim ha' ho hb, decodeVal]
        refine (takes_decodePrim hp).mono ?_
        rintro w v ⟨hw, hv⟩
        refine ⟨?_, ?_⟩
        · rwa [encodeCall_prim ha' ho hb, encodeVal]
        · exact hasType_of_base ha' ho (hb ▸ hv)
      | user name =>
        rw [encodeCall_user ha' ho hb]
        cases hd : ns.userDef name with
        | none =>
          simp only [decodeVal, hd]
          exact .throw _
        | some d =>
          cases d with
          | struct s =>
            simp only [decodeVal, hd]
            refine .map ((takes_structFields fun f hfs =>
              ih (hc.field hb hd hfs) (hf.field hb hd hfs)).mono ?_)
            rintro w vs ⟨hw, hvs⟩
            refine ⟨?_, ?_⟩
            · rwa [encodeCall_user ha' ho hb, encodeVal_struct hd]
            · exact hasType_struct_iff.mpr ⟨ha', ho, hb, s, hd, hvs⟩
          | enum e =>
            have hp : (if e.isFlags then PrimitiveType.u32 else .i32) ≠ .bool := by
              split <;> exact PrimitiveType.noConfusion
            simp only [decodeVal, hd, decodeEnum]
            refine (takes_decodePrim hp).mono ?_
            rintro w v ⟨hw, hv⟩
            refine ⟨?_, ?_⟩
            · rwa [encodeCall_user ha' ho hb, encodeVal_enum hd]
            · refine hasType_of_base ha' ho ?_
              simp only [hb, BaseHas, hd]
              exact hv

end

/-! ## Both directions -/

section
variable (ns : Namespace)

/-- A type of the format: a primitive that is not void, a declared enum or struct, an array
of any depth over primitives other than `bool` and `bytes`, or an array of one dimension
over an enum or a struct. -/
def Serializable (t : Ty) : Prop :=
  t.isOptional = false ∧
    match t.base with
    | .primitive p => p ≠ .void ∧ (t.isArray = true → p ≠ .bool ∧ p ≠ .bytes)
    | .user name => (ns.userDef name).isSome ∧ (t.isArray = true → t.dims = 1)

variable {ns}

theorem Serializable.compiles {t : Ty} (h : Serializable ns t) : Compiles ns t := by
  obtain ⟨ho, h⟩ := h
  unfold Compiles
  cases hb : t.base with
  | primitive p =>
    simp only [hb] at h
    refine ⟨h.1, ?_⟩
    split
    · rename_i ha
      exact ⟨(h.2 ha).1, (h.2 ha).2, fun hot => by rw [ho] at hot; cases hot⟩
    · exact ho
  | user name =>
    simp only [hb] at h
    refine ⟨h.1, ?_⟩
    split
    · rename_i ha
      exact h.2 ha
    · exact ho

end

/-- The generated codecs are inverse to each other. Any value is encoded, and, whatever was
read before its encoding and whatever follows, decoded from it with the read position left
at what follows. Without a `bool` in reach, what a decoder takes is the encoding of what
it returns. -/
theorem codec_roundTrip {ns : Namespace} {t : Ty} (h : ∀ u, Reaches ns t u → Serializable ns u) :
    (∀ v, HasType cppLimits ns t v → ∃ w, encodeVal ns (encodeCall t) v = .ok w ∧
      ∀ depth, v.depth ≤ depth → ∀ pre suffix,
        (decodeVal ns depth (decodeCall t)).run (.cut pre (w ++ suffix)) =
          .ok v (.cut (pre ++ w) suffix)) ∧
    (BoolFree ns t → ∀ depth b v b', (decodeVal ns depth (decodeCall t)).run b = .ok v b' →
      ∃ pre w rest, b = .cut pre (w ++ rest) ∧ b' = .cut (pre ++ w) rest ∧
        encodeVal ns (encodeCall t) v = .ok w) := by
  have hc : Compilable ns t := fun u hu => (h u hu).compiles
  refine ⟨fun v hv => ?_, fun hf depth b v b' hd => ?_⟩
  · obtain ⟨w, hw⟩ := (encodeVal_ok_iff (Nat.le_refl _) hc hv).mpr hv
    exact ⟨w, hw, fun depth hn => reads_decodeVal hn hc hv hw⟩
  · rw [b.eq_cut] at hd ⊢
    obtain ⟨w, rest, hr, hb', hw, -⟩ := takes_decodeVal hc hf _ _ _ _ hd
    exact ⟨_, w, rest, by rw [hr], hb', hw⟩

/-- A tree whose nodes hold a grid of numbers, a kind and their children. -/
def treeSpace : Namespace where
  enums := [{ name := lit "Kind", items := [], isFlags := true }]
  structs := [{
    name := lit "Node"
    fields := [
      { name := lit "label", type := { base := .primitive .string } },
      { name := lit "kind", type := { base := .user (lit "Kind") } },
      { name := lit "grid",
        type := { base := .primitive .i16, isArray := true, arrayDimensions := 2 } },
      { name := lit "kids",
        type := { base := .user (lit "Node"), isArray := true, arrayDimensions := 1 } }] }]

def leafNode : Val :=
  .struct (lit "Node") [.string (lit "b"), .u32 4, .array [], .array []]

def rootNode : Val :=
  .struct (lit "Node") [.string [], .u32 3, .array [.array [.i16 1, .i16 2], .array []],
    .array [leafNode]]

def nodeTy : Ty := { base := .user (lit "Node") }

theorem mem_nodeTypes {u : Ty} (h : Reaches treeSpace nodeTy u) :
    u ∈ nodeTy :: treeSpace.structs.flatMap (·.fields.map Field.type) := by
  refine h.mem (fun t name s _ _ hs f hf => ?_) List.mem_cons_self
  refine List.mem_cons_of_mem _ (List.mem_flatMap.mpr ⟨s, (Namespace.mem_structs hs).1, ?_⟩)
  exact List.mem_map_of_mem hf

theorem serializable_node {u : Ty} (h : Reaches treeSpace nodeTy u) :
    Serializable treeSpace u ∧ u.base ≠ .primitive .bool := by
  have hu := mem_nodeTypes h
  simp only [treeSpace, List.flatMap_cons, List.flatMap_nil, List.append_nil, List.map,
    List.mem_cons, List.not_mem_nil, or_false] at hu
  rcases hu with rfl | rfl | rfl | rfl | rfl <;> exact ⟨⟨rfl, by decide, by decide⟩, by decide⟩

theorem hasType_leafNode : HasType cppLimits treeSpace nodeTy leafNode :=
  ⟨rfl, rfl, rfl, ⟨rfl, rfl, (by decide : 1 ≤ kMaxStringSize)⟩, ⟨rfl, rfl, trivial⟩,
    ⟨rfl, by decide, trivial⟩, ⟨rfl, by decide, trivial⟩, trivial⟩

theorem hasType_rootNode : HasType cppLimits treeSpace nodeTy rootNode :=
  ⟨rfl, rfl, rfl, ⟨rfl, rfl, (by decide : 0 ≤ kMaxStringSize)⟩, ⟨rfl, rfl, trivial⟩,
    ⟨rfl, by decide, ⟨rfl, by decide, ⟨rfl, rfl, trivial⟩, ⟨rfl, rfl, trivial⟩, trivial⟩,
      ⟨rfl, by decide, trivial⟩, trivial⟩,
    ⟨rfl, by decide, hasType_leafNode, trivial⟩, trivial⟩

theorem codec_roundTrip_tree :
    (∃ w, encodeVal treeSpace (encodeCall nodeTy) rootNode = .ok w ∧
      ∀ depth, rootNode.depth ≤ depth → ∀ pre suffix,
        (decodeVal treeSpace depth (decodeCall nodeTy)).run (.cut pre (w ++ suffix)) =
          .ok rootNode (.cut (pre ++ w) suffix)) ∧
    ∀ depth b v b', (decodeVal treeSpace depth (decodeCall nodeTy)).run b = .ok v b' →
      ∃ pre w rest, b = .cut pre (w ++ rest) ∧ b' = .cut (pre ++ w) rest ∧
        encodeVal treeSpace (encodeCall nodeTy) v = .ok w :=
  ⟨(codec_roundTrip fun _ hu => (serializable_node hu).1).1 rootNode hasType_rootNode,
    (codec_roundTrip fun _ hu => (serializable_node hu).1).2 fun _ hu => (serializable_node hu).2⟩

end Song.Compiler
