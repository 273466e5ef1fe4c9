import Song.Compiler.PythonCodec

/-!
# Names in the text of the Python codecs

The replacement of `req` and `resp` changes names that contain them. Where no changed name
is declared as well (`Namespace.NamesApart`), the emitted code runs as the code before the
replacement does on the values that have no changed name in them, and raises on all others
(`pyEncodeVal_inEncoder_iff`, `pyDecodeVal_inDecoder_iff`).
-/

namespace Song.Compiler

open Cursor (Restricts many each)

/-! ## Names that are left alone -/

section
variable (g : Str → Str)

/-- A name that `g` changes is changed to none of the names. -/
def Apart (names : List Str) : Prop := ∀ name ∈ names, g name = name ∨ g name ∉ names

def Namespace.NamesApart (ns : Namespace) : Prop :=
  Apart inEncoder (ns.structs.map (·.name)) ∧ Apart inDecoder (ns.structs.map (·.name)) ∧
    ∀ s ∈ ns.structs, Apart inEncoder (s.fields.map (·.name))

/-- The name of a struct, left alone. -/
def PartNamed : Val → Prop
  | .struct name _ => g name = name
  | _ => True

/-- The names of all structs in the value are left alone. -/
def Val.Named : Val → Prop := All (PartNamed g)

/-- The codec of a struct calls those of the structs in it. -/
def PartBelow : Val → Prop
  | .struct _ vs => ∀ v ∈ vs, v.Named g
  | _ => True

/-- It takes the fields by their names. -/
def PartFields (ns : Namespace) : Val → Prop
  | .struct name _ => ∀ s, ns.pyStruct? name = some s → ∀ f ∈ s.fields, g f.name = f.name
  | _ => True

end

/-- Encoding the value comes by no name that is changed. -/
def EncKept (ns : Namespace) : Val → Prop :=
  Val.All fun v => PartFields inEncoder ns v ∧ PartBelow inEncoder v

/-- Decoding it comes by none. -/
def DecKept : Val → Prop := Val.All (PartBelow inDecoder)

section
variable {ns : Namespace} {g : Str → Str} {name : Str} {vs : List Val} {v : Val}

theorem Val.all_true {P : Val → Prop} (h : ∀ v, P v) (v : Val) : v.All P := by
  induction v using Val.nested with
  | leaf v hv => cases v <;> first | exact h _ | cases hv
  | struct name vs ih => exact ⟨h _, allIn_iff.mpr ih⟩
  | array vs ih => exact ⟨h _, allIn_iff.mpr ih⟩
  | present v ih => exact ⟨h _, ih⟩

theorem Val.named_id (v : Val) : v.Named id :=
  Val.all_true (fun v => by cases v <;> first | rfl | trivial) v

theorem Val.named_struct_iff : (Val.struct name vs).Named g ↔ g name = name ∧ ∀ v ∈ vs, v.Named g := by
  rw [Named, All, allIn_iff]
  exact Iff.rfl

theorem Val.named_array_iff : (Val.array vs).Named g ↔ ∀ v ∈ vs, v.Named g := by
  rw [Named, All, allIn_iff]
  exact and_iff_right trivial

theorem Val.named_present_iff : (Val.present v).Named g ↔ v.Named g := by
  rw [Named, All]
  exact and_iff_right trivial

theorem encKept_struct_iff {s : StructDef} (hs : ns.pyStruct? name = some s) :
    EncKept ns (.struct name vs) ↔ (∀ f ∈ s.fields, inEncoder f.name = f.name) ∧
      (∀ v ∈ vs, v.Named inEncoder) ∧ ∀ v ∈ vs, EncKept ns v := by
  rw [EncKept, Val.All, Val.allIn_iff, and_assoc]
  refine and_congr_left fun _ => ⟨fun h => h s hs, fun h s' hs' => ?_⟩
  rw [hs] at hs'
  cases hs'
  exact h

theorem encKept_array_iff : EncKept ns (.array vs) ↔ ∀ v ∈ vs, EncKept ns v := by
  rw [EncKept, Val.All, Val.allIn_iff]
  exact and_iff_right ⟨trivial, trivial⟩

theorem encKept_present_iff : EncKept ns (.present v) ↔ EncKept ns v := by
  rw [EncKept, Val.All]
  exact and_iff_right ⟨trivial, trivial⟩

theorem decKept_struct_iff :
    DecKept (.struct name vs) ↔ (∀ v ∈ vs, v.Named inDecoder) ∧ ∀ v ∈ vs, DecKept v := by
  rw [DecKept, Val.All, Val.allIn_iff]
  exact Iff.rfl

theorem decKept_array_iff : DecKept (.array vs) ↔ ∀ v ∈ vs, DecKept v := by
  rw [DecKept, Val.All, Val.allIn_iff]
  exact and_iff_right trivial

/-- A primitive has no names. -/
theorem kept_of_has {L : Limits} {p : PrimitiveType} (h : p.Has L v) :
    v.Named g ∧ EncKept ns v ∧ DecKept v := by
  cases v <;> first
    | exact ⟨trivial, ⟨trivial, trivial⟩, trivial⟩
    | (cases p <;> exact h.elim)

/-- A struct that a changed name does not reach. -/
theorem Apart.pyStruct? (h : Apart g (ns.structs.map (·.name))) {s : StructDef}
    (hs : ns.userDef name = some (.struct s)) :
    g name = name ∨ ns.pyStruct? (g name) = none := by
  obtain ⟨hm, hn⟩ := Namespace.mem_structs hs
  refine (h name (List.mem_map.mpr ⟨s, hm, hn⟩)).imp_right fun hg => ?_
  refine List.find?_eq_none.mpr fun s' hs' he => hg (List.mem_map.mpr ⟨s', hs', ?_⟩)
  simpa using he

/-- A changed name is none of the attributes. -/
theorem pyGetattr_changed {s : StructDef} (hs : ns.userDef name = some (.struct s)) {attr : Str}
    (ha : attr ∉ s.fields.map (·.name)) :
    pyGetattr ns attr (.struct name vs) = .error .attributeError := by
  have hl : ((s.fields.map (·.name)).zip vs).lookup attr = none := by
    refine List.lookup_eq_none_iff.mpr fun p hp => ?_
    have hm := (List.of_mem_zip hp).1
    have hne : attr ≠ p.1 := fun he => ha (he ▸ hm)
    simpa using hne
  simp only [pyGetattr, Namespace.pyStruct?_eq hs, hl]

end

/-! ## Encoding -/

section
variable {L : Limits} {ns : Namespace} {w : Bytes}

/-- What is encoded, of a value whose struct codecs are called by names changed by `h`. -/
def SameEncoding (ns : Namespace) (h : Str → Str) (depth : Nat) (base : TypeBase) (o : Bool)
    (n : Nat) (v : Val) : Prop :=
  ∀ w, pyEncodeVal ns inEncoder depth (pyEncodeDims (base.rename h) o n) v = .ok w ↔
    (v.Named h ∧ EncKept ns v) ∧ pyEncodeVal ns id depth (pyEncodeDims base o n) v = .ok w

/-- The code for any type, from that for arrays and bases. -/
theorem pyEncodeCall_rewritten {depth : Nat} {h : Str → Str} {t : Ty} {v : Val}
    (ht : HasType L ns t v)
    (ih : ∀ {n : Nat} {o : Bool} {v : Val}, HasType L ns (plainTy t.base n) v →
      SameEncoding ns h depth t.base o n v) :
    pyEncodeVal ns inEncoder depth ((pyEncodeCall t).rename h) v = .ok w ↔
      (v.Named h ∧ EncKept ns v) ∧ pyEncodeVal ns id depth (pyEncodeCall t) v = .ok w := by
  rw [pyEncodeCall, rename_pyEncodeDims]
  rcases ht.plain with hv | ⟨ha, ho, rfl | ⟨u, rfl, hu⟩⟩
  · exact ih hv w
  · have hk : Val.absent.Named h ∧ EncKept ns .absent := ⟨trivial, trivial, trivial⟩
    rw [and_iff_right hk, Ty.dimCount, ha, ho]
    cases depth <;> exact Iff.rfl
  · have hb := isBare_of_plain hu
    have hi := ih (o := true) hu w
    rw [Ty.dimCount, ha, ho]
    rw [pyEncodeDims_zero, pyEncodeDims_zero] at hi
    rw [Val.named_present_iff, encKept_present_iff]
    show pyEncodeVal ns inEncoder depth (.optional (t.base.rename h)) (.present u) = .ok w ↔
      _ ∧ pyEncodeVal ns id depth (.optional t.base) (.present u) = .ok w
    rw [pyEncodeVal_present hb, pyEncodeVal_present hb]
    exact hi

/-- A struct: its own name, the names of its fields, and what is in them. -/
theorem pyEncodeBase_rewritten {depth : Nat} {h : Str → Str} {t : Ty} {name : Str}
    {s : StructDef} {vs : List Val} (hh : h = id ∨ h = inEncoder) (hp : PyTyped ns t)
    (ha : ns.NamesApart) (hb : t.base = .user name) (hs : ns.userDef name = some (.struct s))
    (hvs : List.Forall₂ (fun f v => HasType L ns f.type v) s.fields vs)
    (hf : ∀ p ∈ s.fields.zip vs, ∀ w,
      pyEncodeVal ns inEncoder depth ((pyEncodeCall p.1.type).rename inEncoder) p.2 = .ok w ↔
        (p.2.Named inEncoder ∧ EncKept ns p.2) ∧
          pyEncodeVal ns id depth (pyEncodeCall p.1.type) p.2 = .ok w) :
    pyEncodeBase ns inEncoder (pyEncodeVal ns inEncoder depth) (.user (h name))
        (.struct name vs) = .ok w ↔
      ((Val.struct name vs).Named h ∧ EncKept ns (.struct name vs)) ∧
        pyEncodeBase ns id (pyEncodeVal ns id depth) (.user name) (.struct name vs) = .ok w := by
  have hlen := hvs.length_eq
  have hns := Namespace.pyStruct?_eq hs
  by_cases hn : h name = name
  · obtain ⟨s', hs', hnd⟩ := hp.struct hb
    rw [hs] at hs'
    cases hs'
    have hnamed : (Val.struct name vs).Named h ↔ (∀ v ∈ vs, v.Named inEncoder) ∨ h = id := by
      rw [Val.named_struct_iff, and_iff_right hn]
      rcases hh with rfl | rfl
      · exact ⟨fun _ => .inr rfl, fun _ v _ => v.named_id⟩
      · exact ⟨.inl, fun h => h.elim id fun h v _ => h ▸ v.named_id⟩
    have hfs : s.fields = (s.fields.zip vs).map Prod.fst :=
      (List.map_fst_zip (Nat.le_of_eq hlen)).symm
    rw [hn, pyEncodeBase_struct hp hb hs hlen, hnamed, encKept_struct_iff hns]
    simp only [pyEncodeBase, hns]
    conv_lhs => rw [hfs]
    rw [Cursor.each_map, Cursor.each_restrict (f := fun p =>
      pyEncodeVal ns id depth (pyEncodeCall p.1.type) p.2) (P := fun p =>
        inEncoder p.1.name = p.1.name ∧ p.2.Named inEncoder ∧ EncKept ns p.2) fun p hm w => ?_]
    · refine and_congr_left fun _ => ?_
      rw [List.forall_zip_iff hlen (P := fun f => inEncoder f.name = f.name)
        (Q := fun v => v.Named inEncoder ∧ EncKept ns v)]
      rw [forall₂_and]
      exact ⟨fun h => ⟨.inl h.2.1, h⟩, fun h => h.2⟩
    · by_cases hk : inEncoder p.1.name = p.1.name
      · rw [hk, pyGetattr_field hs hnd hm, and_iff_right rfl]
        exact hf p hm w
      · have hpf := (List.of_mem_zip hm).1
        have hu := (ha.2.2 s (Namespace.mem_structs hs).1 p.1.name
          (List.mem_map.mpr ⟨p.1, hpf, rfl⟩)).resolve_left hk
        rw [pyGetattr_changed hs hu]
        exact ⟨fun h => (by cases h), fun h => absurd h.1.1 hk⟩
  · have hno : ns.pyStruct? (h name) = none := by
      rcases hh with rfl | rfl
      · exact absurd rfl hn
      · exact (ha.1.pyStruct? hs).resolve_left hn
    simp only [pyEncodeBase, hno]
    exact ⟨fun h => (by cases h), fun h => absurd (Val.named_struct_iff.mp h.1.1).1 hn⟩

/-- Marked or not, as the base is. -/
theorem pyEncodeDims_zero_rewritten {depth : Nat} {h : Str → Str} {base : TypeBase} {o : Bool}
    {v : Val} {P : Prop} (hv : v.isBare = true)
    (hb : ∀ w, pyEncodeVal ns inEncoder (depth + 1) (.base (base.rename h)) v = .ok w ↔
      P ∧ pyEncodeVal ns id (depth + 1) (.base base) v = .ok w) :
    pyEncodeVal ns inEncoder (depth + 1) (pyEncodeDims (base.rename h) o 0) v = .ok w ↔
      P ∧ pyEncodeVal ns id (depth + 1) (pyEncodeDims base o 0) v = .ok w := by
  rw [pyEncodeDims_zero, pyEncodeDims_zero]
  cases o with
  | false => exact hb w
  | true =>
    rw [if_pos rfl, if_pos rfl, pyEncodeVal_optional hv, pyEncodeVal_optional hv, Eff.map_ok_iff,
      Eff.map_ok_iff]
    constructor
    · rintro ⟨w', hw, rfl⟩
      obtain ⟨hp, hw⟩ := (hb w').mp hw
      exact ⟨hp, w', hw, rfl⟩
    · rintro ⟨hp, w', hw, rfl⟩
      exact ⟨w', (hb w').mpr ⟨hp, hw⟩, rfl⟩

theorem elemMark_rename (base : TypeBase) (g : Str → Str) (o : Bool) (n : Nat) :
    elemMark (base.rename g) o n = elemMark base o n := by
  cases n with
  | zero => cases base <;> rfl
  | succ n => rfl

theorem pyEncodeVal_rewritten {depth n : Nat} {h : Str → Str} {t : Ty} {o : Bool} {v : Val}
    (hh : h = id ∨ h = inEncoder) (hp : PyTyped ns t) (ha : ns.NamesApart)
    (ht : HasType L ns (plainTy t.base n) v) : SameEncoding ns h depth t.base o n v := by
  induction depth generalizing h t n o v with
  | zero => exact fun w => ⟨fun hw => (by cases hw), fun hw => by cases hw.2⟩
  | succ depth ih =>
    intro w
    have hbare := isBare_of_plain ht
    rcases ht.plain_forms with ⟨m, vs, rfl, rfl, hl, hvs⟩ | ⟨name, s, vs, rfl, rfl, hb, hs, hvs⟩ |
      ⟨rfl, hv⟩
    · rw [pyEncodeVal_array, pyEncodeVal_array, pyEncodeArray_ok_iff, pyEncodeArray_ok_iff,
        elemMark_rename, Val.named_array_iff, encKept_array_iff, ← forall₂_and]
      have hel : ∀ ws, each (pyEncodeVal ns inEncoder depth
          (pyEncodeDims (t.base.rename h) (elemMark t.base o m) m)) vs = .ok ws ↔
            (∀ u ∈ vs, u.Named h ∧ EncKept ns u) ∧
              each (pyEncodeVal ns id depth (pyEncodeDims t.base (elemMark t.base o m) m)) vs =
                .ok ws :=
        fun ws => Cursor.each_restrict fun u hu => ih hh hp (hvs u hu)
      simp only [hel]
      exact ⟨fun ⟨hlt, ws, ⟨hk, hws⟩, hw⟩ => ⟨hk, hlt, ws, hws, hw⟩,
        fun ⟨hk, hlt, ws, hws, hw⟩ => ⟨hlt, ws, ⟨hk, hws⟩, hw⟩⟩
    · refine pyEncodeDims_zero_rewritten hbare fun w => ?_
      rw [hb, pyEncodeVal, pyEncodeVal]
      exact pyEncodeBase_rewritten hh hp ha hb hs hvs fun p hm w =>
        pyEncodeCall_rewritten (List.forall₂_zip hvs hm) fun hv =>
          ih (.inr rfl) (hp.field hb hs (List.of_mem_zip hm).1) hv
    · obtain ⟨p, hb, hv⟩ := hp.baseHas hv
      have hkept : v.Named h ∧ EncKept ns v ∧ DecKept v := kept_of_has hv
      obtain ⟨hn, hk, -⟩ := hkept
      refine pyEncodeDims_zero_rewritten hbare fun w => ?_
      rw [hb, and_iff_right ⟨hn, hk⟩]
      exact Iff.rfl

/-- What the emitted encoder writes: what the code before the replacement does, for values
with no changed name in them. -/
theorem pyEncodeVal_inEncoder_iff {depth : Nat} {t : Ty} {v : Val} (hp : PyTyped ns t)
    (ha : ns.NamesApart) (ht : HasType L ns t v) :
    pyEncodeVal ns inEncoder depth (pyEncodeCall t) v = .ok w ↔
      EncKept ns v ∧ pyEncodeVal ns id depth (pyEncodeCall t) v = .ok w := by
  have h : pyEncodeVal ns inEncoder depth ((pyEncodeCall t).rename id) v = .ok w ↔
      (v.Named id ∧ EncKept ns v) ∧ pyEncodeVal ns id depth (pyEncodeCall t) v = .ok w :=
    pyEncodeCall_rewritten ht fun hv => pyEncodeVal_rewritten (.inl rfl) hp ha hv
  rwa [PyCall.rename_id, and_iff_right v.named_id] at h

end

/-! ## Decoding -/

section
variable {ns : Namespace}

theorem pyEncodePrim_ok {p : PrimitiveType} {v : Val} {w : Bytes} (h : pyEncodePrim p v = .ok w) :
    ∃ L : Limits, p.Has L v := by
  cases p <;> cases v <;> first | exact ⟨cppLimits, trivial⟩ | cases h | skip
  case string.string s => exact ⟨{ cppLimits with string := s.length }, Nat.le_refl _⟩
  case bytes.bytes bs => exact ⟨{ cppLimits with bytes := bs.length }, Nat.le_refl _⟩

theorem restricts_pyDecodeArray {elem elem' : PyDec Val} {P Q : Val → Prop}
    (h : Restricts elem' elem P) (hq : ∀ vs, Q (.array vs) ↔ ∀ v ∈ vs, P v) :
    Restricts (pyDecodeArray elem') (pyDecodeArray elem) Q :=
  .bind fun n => (h.many n).map hq

theorem restricts_decodeFields {field field' : Ty → PyDec Val} {P : Val → Prop}
    {fs : List Field} (h : ∀ f ∈ fs, Restricts (field' f.type) (field f.type) P) :
    Restricts (decodeFields field' fs) (decodeFields field fs) fun vs => ∀ v ∈ vs, P v := by
  induction fs with
  | nil =>
    refine .refl fun s vs s' hd => ?_
    cases hd
    exact fun v hv => by cases hv
  | cons f fs ih =>
    rw [List.forall_mem_cons] at h
    exact h.1.cons (ih h.2)

/-- What is decoded by the code before the replacement, with no changed name in it. -/
def KeptBy (h : Str → Str) (v : Val) : Prop := v.Named h ∧ DecKept v

theorem restricts_pyDecodePrim {h : Str → Str} (p : PrimitiveType) :
    Restricts (pyDecodePrim p) (pyDecodePrim p) (KeptBy h) := by
  refine .refl fun s v s' hd => ?_
  rw [s.eq_cut] at hd
  obtain ⟨-, -, -, -, -, w, hw, -⟩ := takes_pyDecodePrim _ _ _ _ hd
  obtain ⟨L, hv⟩ := pyEncodePrim_ok hw
  have hkept : v.Named h ∧ EncKept {} v ∧ DecKept v := kept_of_has hv
  exact ⟨hkept.1, hkept.2.2⟩

/-- A struct: the name of its codec, and what is in it. -/
theorem restricts_pyDecodeStruct {depth : Nat} {h : Str → Str} {name : Str} {s : StructDef}
    (hh : h = id ∨ h = inDecoder) (ha : ns.NamesApart)
    (hs : ns.userDef name = some (.struct s))
    (hf : ∀ f ∈ s.fields, Restricts (pyDecodeVal ns inDecoder depth
      ((pyDecodeCall f.type).rename inDecoder)) (pyDecodeVal ns id depth (pyEncodeCall f.type))
        (KeptBy inDecoder)) :
    Restricts (pyDecodeBase ns inDecoder (pyDecodeVal ns inDecoder depth) (.user (h name)))
      (pyDecodeBase ns id (pyDecodeVal ns id depth) (.user name)) (KeptBy h) := by
  have hns := Namespace.pyStruct?_eq hs
  rw [pyDecodeBase_struct hs]
  by_cases hn : h name = name
  · have hkept : ∀ vs, KeptBy h (.struct name vs) ↔ ∀ v ∈ vs, KeptBy inDecoder v := by
      intro vs
      rw [KeptBy, Val.named_struct_iff, decKept_struct_iff, and_iff_right hn]
      refine Iff.trans (and_iff_right_of_imp fun hv => ?_) forall₂_and.symm
      rcases hh with rfl | rfl
      · exact fun v _ => v.named_id
      · exact hv.1
    simp only [hn, pyDecodeBase, hns]
    exact (restricts_decodeFields hf).map hkept
  · have hno : ns.pyStruct? (h name) = none := by
      rcases hh with rfl | rfl
      · exact absurd rfl hn
      · exact (ha.2.1.pyStruct? hs).resolve_left hn
    simp only [pyDecodeBase, hno]
    refine .throw fun b v b' hd hk => ?_
    obtain ⟨vs, _, -, hv⟩ := Eff.run_bind_ok_iff.mp hd
    cases hv
    exact hn (Val.named_struct_iff.mp hk.1).1

theorem pyDecodeVal_rewritten {depth n : Nat} {h : Str → Str} {t : Ty} {o : Bool}
    (hh : h = id ∨ h = inDecoder) (hp : PyTyped ns t) (ha : ns.NamesApart) :
    Restricts (pyDecodeVal ns inDecoder depth (pyEncodeDims (t.base.rename h) o n))
      (pyDecodeVal ns id depth (pyEncodeDims t.base o n)) (KeptBy h) := by
  induction depth generalizing h t n o with
  | zero => exact .throw fun s a s' hd => by cases hd
  | succ depth ih =>
    cases n with
    | succ n =>
      rw [pyDecodeVal_array, pyDecodeVal_array, elemMark_rename]
      refine restricts_pyDecodeArray (ih hh hp) fun vs => ?_
      rw [KeptBy, Val.named_array_iff, decKept_array_iff, ← forall₂_and]
      exact Iff.rfl
    | zero =>
      have hbase : Restricts
          (pyDecodeBase ns inDecoder (pyDecodeVal ns inDecoder depth) (t.base.rename h))
          (pyDecodeBase ns id (pyDecodeVal ns id depth) t.base) (KeptBy h) := by
        cases hb : t.base with
        | primitive p => exact restricts_pyDecodePrim p
        | user name =>
          obtain ⟨s, hs, -⟩ := hp.struct hb
          refine restricts_pyDecodeStruct hh ha hs fun f hf => ?_
          rw [pyDecodeCall_eq, pyEncodeCall, rename_pyEncodeDims]
          exact ih (.inr rfl) (hp.field hb hs hf)
      rw [pyEncodeDims_zero, pyEncodeDims_zero]
      cases o with
      | false => exact hbase
      | true =>
        refine .bind fun present => ?_
        by_cases h1 : (leNat present != 0) = true
        · rw [if_pos h1, if_pos h1]
          exact hbase
        · rw [if_neg h1, if_neg h1]
          refine .refl fun b v b' hd => ?_
          cases hd
          exact ⟨trivial, trivial⟩

/-- What the emitted decoder returns: what the code before the replacement does, of that
the values with no changed name in them. -/
theorem pyDecodeVal_inDecoder_iff {depth : Nat} {t : Ty} (hp : PyTyped ns t)
    (ha : ns.NamesApart) :
    Restricts (pyDecodeVal ns inDecoder depth (pyDecodeCall t))
      (pyDecodeVal ns id depth (pyEncodeCall t)) DecKept := by
  intro b v b'
  have h : Restricts
      (pyDecodeVal ns inDecoder depth (pyEncodeDims (t.base.rename id) t.isOptional t.dimCount))
      (pyDecodeVal ns id depth (pyEncodeCall t)) (KeptBy id) :=
    pyDecodeVal_rewritten (.inl rfl) hp ha
  have hb := h b v b'
  rw [TypeBase.rename_id, KeptBy, and_iff_right v.named_id] at hb
  rw [pyDecodeCall_eq]
  exact hb

end

end Song.Compiler
