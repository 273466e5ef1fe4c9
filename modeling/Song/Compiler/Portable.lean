import Song.Compiler.RoundTrip
import Song.Compiler.Rewriting

/-!
# C++ and Python

The two codecs of a type side by side. Where both encode a value, they write the same
bytes if no `encode_optional` runs, and Python writes more otherwise (`compared_encodeVal`).
From that, when each accepts what the other wrote (`agrees_iff_portable`).
-/

namespace Song.Compiler

open Cursor (Reads Takes many each)

/-! ## One encoding beside another -/

/-- The same bytes, or the first longer, as `N` has it. -/
def Compared (N : Prop) (w w' : Bytes) : Prop := N ∧ w = w' ∨ ¬ N ∧ w'.length < w.length

namespace Compared

variable {N N' : Prop} {w w' : Bytes}

theorem length_le (h : Compared N w w') : w'.length ≤ w.length := by
  rcases h with ⟨-, rfl⟩ | ⟨-, h⟩
  · exact Nat.le_refl _
  · exact Nat.le_of_lt h

theorem of_length_eq (h : Compared N w w') (hl : w'.length = w.length) : N ∧ w = w' := by
  rcases h with h | ⟨-, h⟩
  · exact h
  · omega

theorem append {u u' : Bytes} (h : Compared N w w') (h' : Compared N' u u') :
    Compared (N ∧ N') (w ++ u) (w' ++ u') := by
  have hl := h.length_le
  have hl' := h'.length_le
  rcases h with ⟨hn, rfl⟩ | ⟨hn, h⟩
  · rcases h' with ⟨hn', rfl⟩ | ⟨hn', h'⟩
    · exact .inl ⟨⟨hn, hn'⟩, rfl⟩
    · refine .inr ⟨fun hf => hn' hf.2, ?_⟩
      simp only [List.length_append]
      omega
  · refine .inr ⟨fun hf => hn hf.1, ?_⟩
    simp only [List.length_append]
    omega

theorem prepend (h : Compared N w w') (pre : Bytes) : Compared N (pre ++ w) (pre ++ w') := by
  have ht : Compared True pre pre := .inl ⟨trivial, rfl⟩
  have hp := ht.append h
  rwa [true_and] at hp

theorem congr (h : Compared N w w') (hn : N' ↔ N) : Compared N' w w' := by
  rwa [Compared, hn]

end Compared

theorem compared_each {α ε ε' : Type} {f : α → Except ε Bytes} {f' : α → Except ε' Bytes}
    {N : α → Prop} {as : List α} {w w' : Bytes}
    (h : ∀ a ∈ as, ∀ w w', f a = .ok w → f' a = .ok w' → Compared (N a) w w')
    (hw : each f as = .ok w) (hw' : each f' as = .ok w') : Compared (∀ a ∈ as, N a) w w' := by
  induction as generalizing w w' with
  | nil =>
    cases hw
    cases hw'
    exact .inl ⟨fun a ha => (by cases ha), rfl⟩
  | cons a as ih =>
    obtain ⟨w₁, w₂, h₁, h₂, rfl⟩ := Cursor.each_cons_ok_iff.mp hw
    obtain ⟨w₁', w₂', h₁', h₂', rfl⟩ := Cursor.each_cons_ok_iff.mp hw'
    rw [List.forall_mem_cons] at h
    exact ((h.1 _ _ h₁ h₁').append (ih h.2 h₂ h₂')).congr List.forall_mem_cons

/-! ## Both encode -/

theorem encodePrim_eq_py {p : PrimitiveType} {v : Val} {w w' : Bytes}
    (hw : pyEncodePrim p v = .ok w) (hw' : encodePrim p v = .ok w') : w = w' := by
  by_cases hp : 0 < width p
  · rw [(pyEncodePrim_word hp).mp hw] at hw'
    cases hw'
    rfl
  · cases p <;> first | exact absurd (by decide) hp | skip
    case string =>
      cases v <;> first | cases hw | skip
      case string s =>
        obtain ⟨-, rfl⟩ := pyEncode_string_ok_iff.mp hw
        have hs := thrown_ok_iff.mp hw'
        unfold encodeString at hs
        split at hs
        · cases hs
        · cases hs; rfl
    case bytes =>
      cases v <;> first | cases hw | skip
      case bytes bs =>
        obtain ⟨-, rfl⟩ := pyEncode_bytes_ok_iff.mp hw
        have hs := thrown_ok_iff.mp hw'
        unfold encodeBytes at hs
        split at hs
        · cases hs
        · cases hs; rfl
    case void => cases hw

section
variable {L : Limits} {ns : Namespace} {t : Ty}

theorem Compiles.plainTy (h : Compiles ns t) : Compiles ns (plainTy t.base t.dimCount) := by
  by_cases ha : t.isArray = true
  · obtain ⟨n, hn, hd⟩ := t.dimCount_pos ha
    have hp : (Compiler.plainTy t.base (n + 1)).isArray = true := by simp [Compiler.plainTy]
    have hb : (Compiler.plainTy t.base (n + 1)).base = t.base := rfl
    have ho : (Compiler.plainTy t.base (n + 1)).isOptional = false := rfl
    rw [hn]
    unfold Compiles at h ⊢
    simp only [hp, hb, ho, plainTy_dims, ha, hd, ↓reduceIte, Bool.false_eq_true, false_implies,
      and_true] at h ⊢
    split at h
    · exact ⟨h.1, h.2.1, h.2.2.1⟩
    · exact h
  · have hf : t.isArray = false := Bool.not_eq_true _ ▸ ha
    have hz : t.dimCount = 0 := by rw [Ty.dimCount, if_neg ha]
    have hp : (Compiler.plainTy t.base 0).isArray = false := rfl
    have hb : (Compiler.plainTy t.base 0).base = t.base := rfl
    have ho : (Compiler.plainTy t.base 0).isOptional = false := rfl
    rw [hz]
    unfold Compiles at h ⊢
    simp only [hp, hb, ho, hf, Bool.false_eq_true, ↓reduceIte, and_true] at h ⊢
    split at h
    · exact h.1
    · exact h.1

theorem plainTy_isArray (base : TypeBase) (n : Nat) : (plainTy base (n + 1)).isArray = true := by
  simp [plainTy]

/-- The C++ call for a type is that for the plain type. -/
theorem encodeCall_plainTy (h : Compiles ns t) :
    encodeCall t = encodeCall (plainTy t.base t.dimCount) := by
  by_cases ha : t.isArray = true
  · have hp := h.plainTy
    obtain ⟨n, hn, hd⟩ := t.dimCount_pos ha
    rw [hn] at hp ⊢
    have he : t.elemTy = (plainTy t.base (n + 1)).elemTy := by
      rw [elemTy_eq_plainTy hd, plainTy_elemTy]
    rcases encodeCall_array h ha with ⟨name, hb, hc, -⟩ | ⟨⟨p, hb⟩, hc, -⟩
    · rcases encodeCall_array hp (plainTy_isArray _ n) with ⟨name', hb', hc', -⟩ | ⟨⟨p', hb'⟩, -⟩
      · rw [hc, hc']
        rw [show (plainTy t.base (n + 1)).base = t.base from rfl, hb] at hb'
        cases hb'
        rfl
      · rw [show (plainTy t.base (n + 1)).base = t.base from rfl, hb] at hb'
        cases hb'
    · rcases encodeCall_array hp (plainTy_isArray _ n) with ⟨name', hb', -⟩ | ⟨-, hc', -⟩
      · rw [show (plainTy t.base (n + 1)).base = t.base from rfl, hb] at hb'
        cases hb'
      · rw [hc, hc', he]
  · have hf : t.isArray = false := Bool.not_eq_true _ ▸ ha
    have hz : t.dimCount = 0 := by rw [Ty.dimCount, if_neg ha]
    have ho := h.notOptional hf
    rw [hz]
    cases hb : t.base with
    | primitive p =>
      rw [encodeCall_prim hf ho hb, encodeCall_prim (t := plainTy (.primitive p) 0) rfl rfl rfl]
    | user name =>
      rw [encodeCall_user hf ho hb, encodeCall_user (t := plainTy (.user name) 0) rfl rfl rfl]

/-- The bytes of an array of a plain type are its count and its elements. -/
theorem arrayBytes_of_encodeVal {m : Nat} {vs : List Val} {w : Bytes}
    (hc : Compiles ns (plainTy t.base (m + 1)))
    (hw : encodeVal ns (encodeCall (plainTy t.base (m + 1))) (.array vs) = .ok w) :
    ArrayBytes ns (encodeCall (plainTy t.base m)) vs w := by
  rcases encodeCall_array hc (plainTy_isArray _ m) with ⟨name, -, hcall, helem, -⟩ |
    ⟨-, hcall, helem, -⟩
  · rw [plainTy_elemTy] at helem
    rw [hcall, encodeVal_userArray_ok_iff] at hw
    rwa [helem]
  · rw [plainTy_elemTy] at hcall helem
    rw [hcall, encodeVal_template_ok_iff helem] at hw
    exact hw.2

/-- Marked, the code for a base writes a byte more than C++ does. -/
theorem compared_mark {depth : Nat} {o : Bool} {v : Val} {w w' : Bytes} {N : Prop}
    (hv : v.isBare = true)
    (hb : ∀ w, pyEncodeVal ns id (depth + 1) (.base t.base) v = .ok w → Compared N w w')
    (hn : Unmarked ns (.base t.base) v ↔ N)
    (hw : pyEncodeVal ns id (depth + 1) (pyEncodeDims t.base o 0) v = .ok w) :
    Compared (Unmarked ns (pyEncodeDims t.base o 0) v) w w' := by
  rw [pyEncodeDims_zero] at hw ⊢
  cases o with
  | false => exact (hb w hw).congr hn
  | true =>
    rw [if_pos rfl, pyEncodeVal_optional hv, Eff.map_ok_iff] at hw
    obtain ⟨w₀, hw₀, rfl⟩ := hw
    have hl := (hb w₀ hw₀).length_le
    refine .inr ⟨not_unmarked_optional, ?_⟩
    simp only [encodeBool, List.length_append, List.length_cons, List.length_nil]
    omega

theorem unmarked_struct_iff {name : Str} {s : StructDef} {vs : List Val}
    (hs : ns.userDef name = some (.struct s)) :
    Unmarked ns (.base (.user name)) (.struct name vs) ↔
      ∀ p ∈ s.fields.zip vs, Unmarked ns (pyEncodeCall p.1.type) p.2 := by
  rw [Unmarked, Namespace.pyStruct?_eq hs]
  exact unmarkedFields_iff

/-- Where both languages encode a value, Python writes what C++ does if nothing is marked,
and more if something is. -/
theorem compared_encodeVal {depth n : Nat} {o : Bool} {v : Val} {w w' : Bytes}
    (hp : PyTyped ns t) (hc : Compilable ns t) (hcn : Compiles ns (plainTy t.base n))
    (ht : HasType L ns (plainTy t.base n) v)
    (hw : pyEncodeVal ns id depth (pyEncodeDims t.base o n) v = .ok w)
    (hw' : encodeVal ns (encodeCall (plainTy t.base n)) v = .ok w') :
    Compared (Unmarked ns (pyEncodeDims t.base o n) v) w w' := by
  induction depth generalizing t n o v w w' with
  | zero => cases hw
  | succ depth ih =>
    have hbare := isBare_of_plain ht
    rcases ht.plain_forms with ⟨m, vs, rfl, rfl, hl, hvs⟩ | ⟨name, s, vs, rfl, rfl, hb, hs, hvs⟩ |
      ⟨rfl, hv⟩
    · rw [pyEncodeVal_array, pyEncodeArray_ok_iff] at hw
      obtain ⟨-, ws, hws, rfl⟩ := hw
      obtain ⟨ws', hws', rfl⟩ := arrayBytes_of_encodeVal hcn hw'
      have hcm := hcn.elemTy (plainTy_isArray _ m)
      rw [plainTy_elemTy] at hcm
      refine Compared.congr (.prepend (compared_each (fun u hu w w' => ?_) hws hws') _)
        unmarked_array_iff
      exact ih hp hc hcm (hvs u hu)
    · refine compared_mark hbare (N := ∀ p ∈ s.fields.zip vs, Unmarked ns (pyEncodeCall p.1.type) p.2)
        (fun w hw => ?_) ?_ hw
      · rw [hb, pyEncodeVal, pyEncodeBase_struct hp hb hs hvs.length_eq] at hw
        rw [hb, encodeCall_user (t := plainTy (.user name) 0) rfl rfl rfl, encodeVal_struct hs,
          encodeFields_eq hvs.length_eq] at hw'
        refine compared_each (fun p hm w w' h h' => ?_) hw hw'
        have hpf := (List.of_mem_zip hm).1
        have hcf := hc.field hb hs hpf
        rw [encodeCall_plainTy hcf.compiles] at h'
        rcases (List.forall₂_zip hvs hm).plain with hpv | ⟨ha, ho, -⟩
        · exact ih (hp.field hb hs hpf) hcf hcf.compiles.plainTy hpv h h'
        · rw [hcf.compiles.notOptional ha] at ho
          cases ho
      · rw [hb]
        exact unmarked_struct_iff hs
    · obtain ⟨p, hb, hv⟩ := hp.baseHas hv
      refine compared_mark hbare (N := True) (fun w hw => ?_) ?_ hw
      · rw [hb, pyEncodeVal, pyEncodeBase] at hw
        rw [hb, encodeCall_prim (t := plainTy (.primitive p) 0) rfl rfl rfl, encodeVal] at hw'
        exact .inl ⟨trivial, encodePrim_eq_py hw hw'⟩
      · rw [hb]
        simp [Unmarked]

theorem BaseHas.objects {base : TypeBase} {v : Val} {k : Nat} (h : BaseHas L ns base v) :
    BaseHas { L with objects := k } ns base v := by
  have hp : ∀ p : PrimitiveType, p.Has L v → p.Has { L with objects := k } v := fun p hv => by
    cases p <;> exact hv
  cases base with
  | primitive p => exact hp p h
  | user name =>
    obtain ⟨e, he, hv⟩ := userDef_of_baseHas h
    simp only [BaseHas, he]
    exact hp _ hv

/-- Lengths that Python encodes are lengths of arrays of structs in C++. -/
theorem HasType.tighten {v : Val} (h : HasType L ns t v) (hf : v.Fits) :
    HasType { L with objects := cppLimits.objects } ns t v := by
  induction v using Val.nested generalizing t with
  | leaf v hv =>
    cases v with
    | struct => cases hv
    | array => cases hv
    | present => cases hv
    | absent =>
      rw [HasType] at h ⊢
      exact h
    | _ =>
      simp only [HasType] at h ⊢
      exact ⟨h.1, h.2.1, h.2.2.objects⟩
  | struct name vs ih =>
    obtain ⟨ha, ho, hb, s, hs, hvs⟩ := hasType_struct_iff.mp h
    rw [Val.fits_struct_iff] at hf
    refine hasType_struct_iff.mpr ⟨ha, ho, hb, s, hs, List.forall₂_iff_zip.mpr ⟨hvs.length_eq, ?_⟩⟩
    intro f v hp
    have hv := (List.of_mem_zip hp).2
    exact ih v hv (List.forall₂_zip hvs hp) (hf v hv)
  | array vs ih =>
    obtain ⟨ha, hl, hvs⟩ := hasType_array_iff.mp h
    rw [Val.fits_array_iff] at hf
    refine hasType_array_iff.mpr ⟨ha, ?_, fun v hv => ih v hv (hvs v hv) (hf.2 v hv)⟩
    have hlt : vs.length ≤ cppLimits.objects := by
      show vs.length ≤ 2 ^ 32 - 1
      omega
    unfold Limits.array at hl ⊢
    split at hl
    · exact hlt
    · exact hl
  | present v ih =>
    rw [HasType] at h ⊢
    exact ⟨h.1, h.2.1, ih h.2.2 (Val.fits_present_iff.mp hf)⟩

end

/-! ## Each reads the other -/

section
variable (ns : Namespace)

/-- The Python module can be imported. -/
def PyLoads : Prop := ∀ s ∈ ns.structs, pyClassLoads ns s = true

/-- The C++ header compiles, with the codecs of the type. -/
def CppBuilds (t : Ty) : Prop :=
  Compiles ns t ∧ ∀ s ∈ ns.structs, cppStructLoads ns s = true ∧ ∀ f ∈ s.fields, Compiles ns f.type

/-- What Python encodes is what C++ encodes, and C++ reads it; and Python reads what C++
encodes. -/
def Agrees (t : Ty) (v : Val) : Prop :=
  (PyLoads ns → ∀ depth, v.depth ≤ depth → ∀ w,
    pyEncodeVal ns inEncoder depth (pyEncodeCall t) v = .ok w →
      CppBuilds ns t ∧ encodeVal ns (encodeCall t) v = .ok w ∧
        ∀ depth, v.depth ≤ depth → ∀ pre suffix,
          (decodeVal ns depth (decodeCall t)).run (.cut pre (w ++ suffix)) =
            .ok v (.cut (pre ++ w) suffix)) ∧
  (CppBuilds ns t → v.Utf8 → ∀ w, encodeVal ns (encodeCall t) v = .ok w →
    PyLoads ns ∧ ∀ depth, v.depth ≤ depth → ∀ pre suffix,
      (pyDecodeVal ns inDecoder depth (pyDecodeCall t)).run (.cut pre (w ++ suffix)) =
        .ok v (.cut (pre ++ w) suffix))

/-- The value is within the sizes of the C++ runtime, arrays of structs of any length. -/
def CppFits (t : Ty) (v : Val) : Prop := ∃ n, HasType { cppLimits with objects := n } ns t v

/-- What Python encodes, C++ does, and what C++ encodes, Python does; and nothing marked
optional runs. -/
def Portable (t : Ty) (v : Val) : Prop :=
  (PyLoads ns → v.Fits → EncKept ns v →
    CppBuilds ns t ∧ CppFits ns t v ∧ Unmarked ns (pyEncodeCall t) v) ∧
  (CppBuilds ns t → CppFits ns t v → v.Utf8 →
    PyLoads ns ∧ v.Fits ∧ DecKept v ∧ Unmarked ns (pyEncodeCall t) v)

end

section
variable {L : Limits} {ns : Namespace} {t : Ty} {v : Val}

theorem CppBuilds.compilable (h : CppBuilds ns t) : Compilable ns t := fun _ hu =>
  hu.mem (S := Compiles ns) (fun _ _ _ _ _ hs f hf => (h.2 _ (Namespace.mem_structs hs).1).2 f hf)
    h.1

theorem HasType.plain_of_compiles (h : HasType L ns t v) (hc : Compiles ns t) :
    HasType L ns (plainTy t.base t.dimCount) v := by
  rcases h.plain with hv | ⟨ha, ho, -⟩
  · exact hv
  · rw [hc.notOptional ha] at ho
    cases ho

theorem Val.All.imp {P Q : Val → Prop} (h : v.All P) (hpq : ∀ v, P v → Q v) : v.All Q := by
  induction v using Val.nested with
  | leaf v hv => cases v <;> first | exact hpq _ h | cases hv
  | struct name vs ih =>
    exact ⟨hpq _ h.1, allIn_iff.mpr fun v hv => ih v hv (allIn_iff.mp h.2 v hv)⟩
  | array vs ih =>
    exact ⟨hpq _ h.1, allIn_iff.mpr fun v hv => ih v hv (allIn_iff.mp h.2 v hv)⟩
  | present v ih => exact ⟨hpq _ h.1, ih h.2⟩

/-- The code for a type as a whole. -/
theorem compared_encodeCall {depth : Nat} {w w' : Bytes} (hp : PyTyped ns t)
    (hc : Compilable ns t) (ht : HasType L ns t v)
    (hw : pyEncodeVal ns id depth (pyEncodeCall t) v = .ok w)
    (hw' : encodeVal ns (encodeCall t) v = .ok w') :
    Compared (Unmarked ns (pyEncodeCall t) v) w w' := by
  rw [encodeCall_plainTy hc.compiles] at hw'
  exact compared_encodeVal hp hc hc.compiles.plainTy (ht.plain_of_compiles hc.compiles) hw hw'

theorem cppFits_iff (hc : Compilable ns t) (ht : HasType L ns t v) :
    CppFits ns t v ↔ ∃ w, encodeVal ns (encodeCall t) v = .ok w := by
  constructor
  · rintro ⟨n, h⟩
    exact (encodeVal_ok_iff (Nat.le_refl _) hc h).mpr h
  · intro h
    exact ⟨L.objects, (encodeVal_ok_iff (Nat.le_refl _) hc ht).mp h⟩

theorem length_eq_of_cut_eq {pre pre' rest rest' : Bytes}
    (h : Buffer.cut pre rest = Buffer.cut pre' rest') : pre.length = pre'.length :=
  congrArg Buffer.readPos h

theorem Agrees.portable (h : Agrees ns t v) (hp : PyTyped ns t) (ha : ns.NamesApart)
    (ht : HasType L ns t v) : Portable ns t v := by
  refine ⟨fun hpy hf hk => ?_, fun hb hfits hu => ?_⟩
  · obtain ⟨w, hw⟩ := (pyEncodeVal_ok_iff hp ht (Nat.le_refl _)).mpr hf
    obtain ⟨hb, hw', -⟩ := h.1 hpy v.depth (Nat.le_refl _) w
      ((pyEncodeVal_inEncoder_iff hp ha ht).mpr ⟨hk, hw⟩)
    have hc := hb.compilable
    exact ⟨hb, (cppFits_iff hc ht).mpr ⟨w, hw'⟩,
      ((compared_encodeCall hp hc ht hw hw').of_length_eq rfl).1⟩
  · have hc := hb.compilable
    obtain ⟨w', hw'⟩ := (cppFits_iff hc ht).mp hfits
    obtain ⟨hpy, hd⟩ := h.2 hb hu w' hw'
    obtain ⟨hk, hrun⟩ := (pyDecodeVal_inDecoder_iff hp ha _ _ _).mp
      (hd v.depth (Nat.le_refl _) [] [])
    obtain ⟨w₁, rest, -, hs, w, hw, hl⟩ := takes_pyDecodeVal hp _ _ _ _ hrun
    have hlen : w'.length = w.length := by
      rw [hl]
      exact length_eq_of_cut_eq hs
    exact ⟨hpy, (pyEncodeVal_ok_iff hp ht (Nat.le_refl _)).mp ⟨w, hw⟩, hk,
      ((compared_encodeCall hp hc ht hw hw').of_length_eq hlen).1⟩

theorem Portable.agrees (h : Portable ns t v) (hp : PyTyped ns t) (ha : ns.NamesApart)
    (ht : HasType L ns t v) : Agrees ns t v := by
  refine ⟨fun hpy depth hd w hw => ?_, fun hb hu w' hw' => ?_⟩
  · obtain ⟨hk, hw⟩ := (pyEncodeVal_inEncoder_iff hp ha ht).mp hw
    have hf := (pyEncodeVal_ok_iff hp ht hd).mp ⟨w, hw⟩
    obtain ⟨hb, hfits, hun⟩ := h.1 hpy hf hk
    have hc := hb.compilable
    obtain ⟨w', hw'⟩ := (cppFits_iff hc ht).mp hfits
    rcases compared_encodeCall hp hc ht hw hw' with ⟨-, rfl⟩ | ⟨hn, -⟩
    · obtain ⟨n, hn⟩ := hfits
      exact ⟨hb, hw', fun depth hd => reads_decodeVal hd hc (hn.tighten hf) hw'⟩
    · exact absurd hun hn
  · have hc := hb.compilable
    obtain ⟨hpy, hf, hk, hun⟩ := h.2 hb ((cppFits_iff hc ht).mpr ⟨w', hw'⟩) hu
    refine ⟨hpy, fun depth hd pre suffix => ?_⟩
    obtain ⟨w, hw⟩ := (pyEncodeVal_ok_iff hp ht hd).mpr hf
    rcases compared_encodeCall hp hc ht hw hw' with ⟨-, rfl⟩ | ⟨hn, -⟩
    · refine (pyDecodeVal_inDecoder_iff hp ha _ _ _).mpr ⟨hk, ?_⟩
      exact reads_pyDecodeVal hp (ht.plain_of_compiles hc.compiles) hun hw pre suffix
    · exact absurd hun hn

end

/-- A label and some readings. -/
def sampleSpace : Namespace where
  structs := [{
    name := lit "Sample"
    fields := [
      { name := lit "label", type := { base := .primitive .string } },
      { name := lit "readings",
        type := { base := .primitive .i32, isArray := true, arrayDimensions := 1 } }] }]

def sampleTy : Ty := { base := .user (lit "Sample") }

def sample : Val := .struct (lit "Sample") [.string (lit "a"), .array [.i32 1, .i32 2]]

theorem hasType_sample : HasType cppLimits sampleSpace sampleTy sample :=
  ⟨rfl, rfl, rfl, ⟨rfl, rfl, (by decide : 1 ≤ kMaxStringSize)⟩,
    ⟨rfl, by decide, ⟨rfl, rfl, trivial⟩, ⟨rfl, rfl, trivial⟩, trivial⟩, trivial⟩

theorem inFormat_sample {u : Ty} (h : Reaches sampleSpace sampleTy u) : InFormat sampleSpace u := by
  refine h.mem (fun t name s _ _ hs f hf => ?_) ⟨_, rfl, by decide⟩
  have hs := (Namespace.mem_structs hs).1
  simp only [sampleSpace, List.mem_singleton] at hs
  subst hs
  simp only [List.mem_cons, List.not_mem_nil, or_false] at hf
  rcases hf with rfl | rfl <;> exact PrimitiveType.noConfusion

theorem namesApart_sample : sampleSpace.NamesApart := by
  unfold Namespace.NamesApart Apart
  decide

theorem portable_sample : Portable sampleSpace sampleTy sample := by
  have hun : Unmarked sampleSpace (pyEncodeCall sampleTy) sample := ⟨trivial, trivial, trivial⟩
  have hfits : sample.Fits :=
    ⟨trivial, ⟨by decide, by decide⟩, ⟨(by decide : 2 < 2 ^ 32), trivial, trivial, trivial⟩, trivial⟩
  have hdec : DecKept sample := by
    refine ⟨?_, trivial, ⟨trivial, trivial, trivial, trivial⟩, trivial⟩
    exact List.forall_mem_cons.mpr ⟨trivial, List.forall_mem_singleton.mpr
      ⟨trivial, trivial, trivial, trivial⟩⟩
  have hcpp : CppBuilds sampleSpace sampleTy := by
    refine ⟨⟨rfl, rfl⟩, List.forall_mem_singleton.mpr ⟨by decide, List.forall_mem_cons.mpr
      ⟨?_, List.forall_mem_singleton.mpr ?_⟩⟩⟩
    · exact ⟨PrimitiveType.noConfusion, rfl⟩
    · exact ⟨PrimitiveType.noConfusion, PrimitiveType.noConfusion, PrimitiveType.noConfusion,
        Bool.noConfusion⟩
  have hpy : PyLoads sampleSpace := List.forall_mem_singleton.mpr (by decide)
  exact ⟨fun _ _ _ => ⟨hcpp, ⟨_, hasType_sample⟩, hun⟩, fun _ _ _ => ⟨hpy, hfits, hdec, hun⟩⟩

end Song.Compiler
