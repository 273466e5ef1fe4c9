import Mathlib.Data.List.Flatten
import Mathlib.Data.List.Perm.Basic
import Song.Compiler.Agreement

/-!
# The constants of a header

When the names that `generate_service_ids` and `generate_class_ids` define are all different,
and the ids of each kind too (`constantsDistinct_iff`). A name joins an owner and a member by
`_`, so the member `u_m` of `o` is called as the member `m` of `o_u` is. The Resolver sees to
it that no two types have one name, and no two methods of one type; the names of the
properties of a class it does not look at.
-/

namespace Song.Compiler

/-! ## Joined names -/

theorem toStr_nat (n : Nat) :
    toStr n = (Nat.toDigits 10 n).map fun c => UInt8.ofNat c.toNat := by
  show (Nat.repr n).toList.map _ = _
  rw [Nat.toList_repr]

theorem digit_toNat {c : Char} (h : c.isDigit = true) : 48 ≤ c.toNat ∧ c.toNat ≤ 57 := by
  simp only [Char.isDigit, ge_iff_le, Bool.and_eq_true, decide_eq_true_eq] at h
  exact h

theorem toStr_injective {m n : Nat} (h : toStr m = toStr n) : m = n := by
  have hback : ∀ n : Nat, (toStr n).map (fun b => Char.ofNat b.toNat) = Nat.toDigits 10 n := by
    intro n
    rw [toStr_nat, List.map_map]
    refine (List.map_congr_left fun c hc => ?_).trans (List.map_id _)
    have hd := digit_toNat (Nat.isDigit_of_mem_toDigits (by decide) (by decide) hc)
    have hm : (UInt8.ofNat c.toNat).toNat = c.toNat := by
      rw [UInt8.toNat_ofNat']
      omega
    rw [Function.comp_apply, hm, Char.ofNat_toNat, id]
  rw [← Nat.ofDigitChars_ten_toDigits (n := m), ← Nat.ofDigitChars_ten_toDigits (n := n),
    ← hback, ← hback, h]

theorem digit_of_mem_toStr {n : Nat} {b : UInt8} (h : b ∈ toStr n) :
    48 ≤ b.toNat ∧ b.toNat ≤ 57 := by
  rw [toStr_nat] at h
  obtain ⟨c, hc, rfl⟩ := List.mem_map.mp h
  have hd := digit_toNat (Nat.isDigit_of_mem_toDigits (by decide) (by decide) hc)
  rw [UInt8.toNat_ofNat']
  omega

theorem underscore_notMem_toStr (n : Nat) : (95 : UInt8) ∉ toStr n := fun h =>
  absurd (digit_of_mem_toStr h).2 (by decide)

theorem toStr_negSucc (n : Nat) : toStr (Int.negSucc n) = 45 :: toStr (n + 1 : Nat) := by
  show (("-" ++ Nat.repr (n + 1)).toList.map _ : Str) = _
  rw [String.toList_append, List.map_append]
  rfl

theorem toStr_int_injective {m n : Int} (h : toStr m = toStr n) : m = n := by
  have hsign : ∀ m n : Nat, toStr m ≠ 45 :: toStr n := by
    intro m n he
    have hm : (45 : UInt8) ∈ toStr m := by
      rw [he]
      exact List.mem_cons_self
    exact absurd (digit_of_mem_toStr hm).1 (by decide)
  cases m with
  | ofNat m =>
    cases n with
    | ofNat n => exact congrArg _ (toStr_injective h)
    | negSucc n =>
      rw [toStr_negSucc] at h
      exact absurd h (hsign m (n + 1))
  | negSucc m =>
    cases n with
    | ofNat n =>
      rw [toStr_negSucc] at h
      exact absurd h.symm (hsign n (m + 1))
    | negSucc n =>
      rw [toStr_negSucc, toStr_negSucc] at h
      rw [Nat.succ.inj (toStr_injective (List.cons.inj h).2)]

/-- A number is written with digits and a sign only. -/
theorem notMem_toStr_int {b : UInt8} (hd : ¬(48 ≤ b.toNat ∧ b.toNat ≤ 57)) (hs : b ≠ 45)
    (n : Int) : b ∉ toStr n := by
  cases n with
  | ofNat n => exact fun h => hd (digit_of_mem_toStr h)
  | negSucc n =>
    rw [toStr_negSucc]
    intro h
    rcases List.mem_cons.mp h with h | h
    · exact hs h
    · exact hd (digit_of_mem_toStr h)

theorem qualified_injective (owner : Str) : Function.Injective (qualified owner) :=
  fun _ _ h => List.append_cancel_left h

/-- Two members are called alike if they are one, or if the owner of one takes a part of the
other's name. -/
theorem qualified_eq_iff {o o' m m' : Str} :
    qualified o m = qualified o' m' ↔
      (o = o' ∧ m = m') ∨ (∃ u, o' = qualified o u ∧ m = qualified u m') ∨
        ∃ u, o = qualified o' u ∧ m' = qualified u m := by
  have key : ∀ {o o' m m' : Str} {u : Str}, o' = o ++ u → lit "_" ++ m = u ++ (lit "_" ++ m') →
      (o = o' ∧ m = m') ∨ ∃ v, o' = qualified o v ∧ m = qualified v m' := by
    intro o o' m m' u ho hm
    cases u with
    | nil =>
      rw [List.append_nil] at ho
      exact .inl ⟨ho.symm, List.append_cancel_left hm⟩
    | cons c v =>
      have hc : c = 95 ∧ m = v ++ (lit "_" ++ m') := by
        have hl : lit "_" = [95] := rfl
        rw [hl] at hm ⊢
        exact ⟨(List.cons.inj hm).1.symm, (List.cons.inj hm).2⟩
      refine .inr ⟨v, ?_, ?_⟩
      · rw [ho, hc.1, qualified, List.append_assoc]
        rfl
      · rw [hc.2, qualified, List.append_assoc]
  constructor
  · intro h
    rw [qualified, qualified, List.append_assoc, List.append_assoc, List.append_eq_append_iff] at h
    rcases h with ⟨u, ho, hm⟩ | ⟨u, ho, hm⟩
    · exact (key ho hm).imp_right .inl
    · rcases key ho hm with ⟨rfl, rfl⟩ | h
      · exact .inl ⟨rfl, rfl⟩
      · exact .inr (.inr h)
  · rintro (⟨rfl, rfl⟩ | ⟨u, rfl, rfl⟩ | ⟨u, rfl, rfl⟩)
    · rfl
    · simp only [qualified, List.append_assoc]
    · simp only [qualified, List.append_assoc]

/-- No owner is called as another owner with a part of the name of one of its members. -/
def NoOverlap (owners : List (Str × List Str)) : Prop :=
  ∀ o ∈ owners, ∀ o' ∈ owners, ∀ m ∈ o.2, ∀ m' ∈ o'.2, ∀ u,
    o'.1 = qualified o.1 u → m ≠ qualified u m'

/-- The joined names of the members of all the owners. -/
def joined (owners : List (Str × List Str)) : List Str :=
  owners.flatMap fun o => o.2.map (qualified o.1)

theorem nodup_joined_iff {owners : List (Str × List Str)} (hnd : (owners.map Prod.fst).Nodup) :
    (joined owners).Nodup ↔
      (∀ o ∈ owners, o.2.Nodup) ∧ NoOverlap owners := by
  have hmap : ∀ o : Str × List Str, (o.2.map (qualified o.1)).Nodup ↔ o.2.Nodup :=
    fun o => List.nodup_map_iff (qualified_injective o.1)
  rw [joined, List.nodup_flatMap]
  simp only [hmap]
  refine and_congr_right fun _ => ⟨fun h o ho o' ho' m hm m' hm' u hu he => ?_, fun h => ?_⟩
  · have hne : o ≠ o' := by
      rintro rfl
      have hl := congrArg List.length hu
      simp only [qualified, List.length_append] at hl
      have h1 : (lit "_").length = 1 := rfl
      omega
    have hsymm : Std.Symm (Function.onFun List.Disjoint
        fun o : Str × List Str => o.2.map (qualified o.1)) := ⟨fun _ _ h =>
          List.disjoint_symm h⟩
    have hdis := h.forall ho ho' hne
    refine hdis (List.mem_map_of_mem hm) ?_
    rw [qualified_eq_iff.mpr (.inr (.inl ⟨u, hu, he⟩))]
    exact List.mem_map_of_mem hm'
  · refine (List.Nodup.of_map _ hnd).pairwise_of_forall_ne fun o ho o' ho' hne x hx hx' => ?_
    obtain ⟨m, hm, rfl⟩ := List.mem_map.mp hx
    obtain ⟨m', hm', he⟩ := List.mem_map.mp hx'
    rcases qualified_eq_iff.mp he with ⟨hn, -⟩ | ⟨u, hu, hv⟩ | ⟨u, hu, hv⟩
    · exact hne (List.inj_on_of_nodup_map hnd ho ho' hn.symm)
    · exact h o' ho' o ho m' hm' m hm u hu hv
    · exact h o ho o' ho' m hm m' hm' u hu hv

/-- A prefix in front of each list of names, none the beginning of another. -/
theorem nodup_prefixed_iff {blocks : List (Str × List Str)}
    (h : blocks.Pairwise fun a b => ¬ a.1 <+: b.1 ∧ ¬ b.1 <+: a.1) :
    (blocks.flatMap fun b => b.2.map (b.1 ++ ·)).Nodup ↔ ∀ b ∈ blocks, b.2.Nodup := by
  have hmap : ∀ b : Str × List Str, (b.2.map (b.1 ++ ·)).Nodup ↔ b.2.Nodup :=
    fun b => List.nodup_map_iff (List.append_right_injective b.1)
  rw [List.nodup_flatMap]
  simp only [hmap]
  refine and_iff_left (h.imp fun {a b} hab x hx hx' => ?_)
  obtain ⟨y, -, rfl⟩ := List.mem_map.mp hx
  obtain ⟨z, -, he⟩ := List.mem_map.mp hx'
  rcases List.prefix_or_prefix_of_prefix (List.prefix_append a.1 y)
    (he ▸ List.prefix_append b.1 z) with hp | hp
  · exact hab.1 hp
  · exact hab.2 hp

/-! ## The names of a header -/

section
variable (ns : Namespace)

/-- The names of the service constants, after `kService_`. -/
def serviceNames : List Str :=
  ns.services.flatMap fun s =>
    s.name :: if s.hasStream then [s.name ++ lit "_Stream"] else []

/-- Services and classes share a prefix. -/
def methodOwners : List (Str × List Str) :=
  ns.services.map (fun s => (s.name, s.methods.map Method.name)) ++
    ns.classes.map fun c => (c.name, c.methods.map Method.name)

def propertyOwners : List (Str × List Str) :=
  ns.classes.map fun c => (c.name, c.properties.map Property.name)

def ctorOwners : List (Str × List Str) :=
  ns.classes.map fun c => (c.name, (List.range c.constructors.length).map fun i : Nat =>
    toStr (i % 65536 : Nat))

def headerNames : List (Str × List Str) :=
  [(lit "kService_", serviceNames ns), (lit "kMethod_", joined (methodOwners ns)),
    (lit "kType_", ns.classes.map ClassDef.name), (lit "kProp_", joined (propertyOwners ns)),
    (lit "kCtor_", joined (ctorOwners ns))]

theorem map_fst_generateClassIds :
    (Cpp.generateClassIds ns).map Prod.fst = ns.classes.flatMap fun c =>
      Cpp.kType c.name :: (c.properties.map (fun p => Cpp.kProp c.name p.name) ++
        (List.range c.constructors.length).map (fun i => Cpp.kCtor c.name (i % 65536)) ++
        c.methods.map fun m => Cpp.kMethod c.name m.name) := by
  have hclass : ∀ c : ClassDef, ∀ typeId, (Cpp.classConstants c typeId).map Prod.fst =
      Cpp.kType c.name :: (c.properties.map (fun p => Cpp.kProp c.name p.name) ++
        (List.range c.constructors.length).map (fun i => Cpp.kCtor c.name (i % 65536)) ++
        c.methods.map fun m => Cpp.kMethod c.name m.name) := by
    intro c typeId
    have hp : c.properties = (c.properties.zipIdx 1).map Prod.fst := by rw [List.zipIdx_map_fst]
    have hc : List.range c.constructors.length = c.constructors.zipIdx.map Prod.snd := by
      rw [List.zipIdx_map_snd, List.range_eq_range']
    conv_rhs => rw [hp, hc]
    rw [Cpp.classConstants, List.map_cons, List.map_append, List.map_append,
      Cpp.map_fst_methodConstants, List.map_map, List.map_map, List.map_map, List.map_map]
    rfl
  have hfst : ns.classes = (ns.classes.zipIdx 1).map Prod.fst := by rw [List.zipIdx_map_fst]
  conv_rhs => rw [hfst]
  rw [List.flatMap_map, Cpp.generateClassIds, List.map_flatMap]
  exact List.flatMap_congr fun x _ => hclass x.1 x.2

theorem map_fst_generateServiceIds_perm :
    ((Cpp.generateServiceIds ns).map Prod.fst).Perm
      ((serviceNames ns).map (lit "kService_" ++ ·) ++
        ns.services.flatMap fun s => s.methods.map fun m => Cpp.kMethod s.name m.name) := by
  have hnames : (serviceNames ns).map (lit "kService_" ++ ·) = ns.services.flatMap fun s =>
      Cpp.kService s.name :: if s.hasStream then [Cpp.kServiceStream s.name] else [] := by
    rw [serviceNames, List.map_flatMap]
    refine List.flatMap_congr fun s _ => ?_
    cases s.hasStream with
    | true => simp [Cpp.kService, Cpp.kServiceStream]
    | false => rfl
  rw [hnames, Cpp.map_fst_generateServiceIds]
  exact (List.flatMap_append_perm ns.services (fun s => Cpp.kService s.name ::
    if s.hasStream then [Cpp.kServiceStream s.name] else []) _).symm

theorem map_fst_generateClassIds_perm :
    ((Cpp.generateClassIds ns).map Prod.fst).Perm
      (ns.classes.map (fun c => Cpp.kType c.name) ++
        (ns.classes.flatMap (fun c => c.properties.map fun p => Cpp.kProp c.name p.name) ++
          ns.classes.flatMap fun c => (List.range c.constructors.length).map fun i =>
            Cpp.kCtor c.name (i % 65536)) ++
        ns.classes.flatMap fun c => c.methods.map fun m => Cpp.kMethod c.name m.name) := by
  rw [map_fst_generateClassIds, List.map_eq_flatMap, List.append_assoc]
  refine ((List.flatMap_append_perm ns.classes (fun c => [Cpp.kType c.name]) _).symm).trans ?_
  refine .append_left _ ((List.flatMap_append_perm ns.classes _ _).symm.trans ?_)
  exact .append_right _ (List.flatMap_append_perm ns.classes _ _).symm

omit ns in
theorem map_joined (tag : Str) (owners : List (Str × List Str)) :
    (joined owners).map (tag ++ ·) =
      owners.flatMap fun o => o.2.map fun m => tag ++ qualified o.1 m := by
  rw [joined, List.map_flatMap]
  refine List.flatMap_congr fun o _ => ?_
  rw [List.map_map]
  rfl

theorem headerConstants_perm :
    ((Cpp.headerConstants .single ns).map Prod.fst).Perm
      ((headerNames ns).flatMap fun b => b.2.map (b.1 ++ ·)) := by
  rw [Cpp.headerConstants, List.map_append]
  refine ((map_fst_generateServiceIds_perm ns).append (map_fst_generateClassIds_perm ns)).trans ?_
  have hm : (joined (methodOwners ns)).map (lit "kMethod_" ++ ·) =
      (ns.services.flatMap fun s => s.methods.map fun m => Cpp.kMethod s.name m.name) ++
        ns.classes.flatMap fun c => c.methods.map fun m => Cpp.kMethod c.name m.name := by
    rw [map_joined, methodOwners, List.flatMap_append, List.flatMap_map, List.flatMap_map]
    simp only [List.map_map]
    rfl
  have hp : (joined (propertyOwners ns)).map (lit "kProp_" ++ ·) =
      ns.classes.flatMap fun c => c.properties.map fun p => Cpp.kProp c.name p.name := by
    rw [map_joined, propertyOwners, List.flatMap_map]
    simp only [List.map_map]
    rfl
  have hc : (joined (ctorOwners ns)).map (lit "kCtor_" ++ ·) =
      ns.classes.flatMap fun c => (List.range c.constructors.length).map fun i =>
        Cpp.kCtor c.name (i % 65536) := by
    rw [map_joined, ctorOwners, List.flatMap_map]
    simp only [List.map_map]
    rfl
  have ht : (ns.classes.map ClassDef.name).map (lit "kType_" ++ ·) =
      ns.classes.map fun c => Cpp.kType c.name := by
    rw [List.map_map]
    rfl
  simp only [headerNames, List.flatMap_cons, List.flatMap_nil, List.append_nil]
  rw [hm, hp, hc, ht]
  refine List.perm_iff_count.mpr fun x => ?_
  simp only [List.count_append]
  omega

end

section
variable {ast : AST} {ns : Namespace} (h : accepts ast = true) (hns : ns ∈ ast.namespaces)
include h hns

theorem nodup_methodOwners : ((methodOwners ns).map Prod.fst).Nodup := by
  have he : (methodOwners ns).map Prod.fst =
      ns.services.map ServiceDef.name ++ ns.classes.map ClassDef.name := by
    rw [methodOwners, List.map_append, List.map_map, List.map_map]
    rfl
  have ht : ns.typeInfos.map TypeInfo.name = ns.enums.map EnumDef.name ++
      ns.structs.map StructDef.name ++ (ns.classes.map ClassDef.name ++
        ns.services.map ServiceDef.name) ++ ns.errors.map ErrorDef.name := by
    simp only [Namespace.typeInfos, List.map_append, List.map_map, List.append_assoc]
    rfl
  have hnd := nodup_typeInfos h hns
  rw [ht] at hnd
  rw [he, List.perm_append_comm.nodup_iff]
  exact (List.nodup_append.mp (List.nodup_append.mp hnd).1).2.1

omit h hns in
theorem nodup_serviceNames_iff (hnd : (ns.services.map ServiceDef.name).Nodup) :
    (serviceNames ns).Nodup ↔ ∀ s ∈ ns.services, s.hasStream = true →
      s.name ++ lit "_Stream" ∉ ns.services.map ServiceDef.name := by
  have hp : (serviceNames ns).Perm (ns.services.map ServiceDef.name ++
      ns.services.flatMap fun s => if s.hasStream then [s.name ++ lit "_Stream"] else []) := by
    rw [serviceNames, List.map_eq_flatMap]
    exact (List.flatMap_append_perm ns.services (fun s => [s.name]) _).symm
  have hmem : ∀ {x}, (x ∈ ns.services.flatMap fun s =>
      if s.hasStream then [s.name ++ lit "_Stream"] else []) ↔
      ∃ s ∈ ns.services, s.hasStream = true ∧ x = s.name ++ lit "_Stream" := by
    simp
  have hstream : (ns.services.flatMap fun s =>
      if s.hasStream then [s.name ++ lit "_Stream"] else []).Nodup := by
    refine (hnd.map (List.append_left_injective (lit "_Stream"))).sublist ?_
    rw [List.map_map, List.map_eq_flatMap]
    refine List.Sublist.flatMap_right _ fun s _ => ?_
    cases s.hasStream with
    | true => exact .refl _
    | false => exact List.nil_sublist _
  rw [hp.nodup_iff, List.nodup_append]
  constructor
  · rintro ⟨-, -, hne⟩ s hs hst hm
    exact hne _ hm _ (hmem.mpr ⟨s, hs, hst, rfl⟩) rfl
  · intro hno
    refine ⟨hnd, hstream, fun x hx y hy he => ?_⟩
    obtain ⟨s, hs, hst, rfl⟩ := hmem.mp hy
    exact hno s hs hst (he ▸ hx)

theorem nodup_names_iff :
    ((Cpp.headerConstants .single ns).map Prod.fst).Nodup ↔
      (serviceNames ns).Nodup ∧ (joined (methodOwners ns)).Nodup ∧
        (joined (propertyOwners ns)).Nodup ∧ (joined (ctorOwners ns)).Nodup := by
  have hpre : (headerNames ns).Pairwise fun a b => ¬ a.1 <+: b.1 ∧ ¬ b.1 <+: a.1 := by
    have : ((headerNames ns).map Prod.fst).Pairwise fun a b => ¬ a <+: b ∧ ¬ b <+: a := by
      show [lit "kService_", lit "kMethod_", lit "kType_", lit "kProp_", lit "kCtor_"].Pairwise _
      decide
    exact List.pairwise_map.mp this
  rw [(headerConstants_perm ns).nodup_iff, nodup_prefixed_iff hpre]
  simp only [headerNames, List.forall_mem_cons, List.not_mem_nil, false_imp_iff, implies_true,
    and_true, nodup_classes h hns, true_and]

theorem nodup_ctorNames_iff :
    (joined (ctorOwners ns)).Nodup ↔ ∀ c ∈ ns.classes, c.constructors.length ≤ 65536 := by
  have howners : (ctorOwners ns).map Prod.fst = ns.classes.map ClassDef.name := by
    rw [ctorOwners, List.map_map]
    rfl
  have hover : NoOverlap (ctorOwners ns) := by
    intro o ho o' _ m hm m' _ u _ he
    obtain ⟨c, -, rfl⟩ := List.mem_map.mp ho
    obtain ⟨i, -, rfl⟩ := List.mem_map.mp hm
    apply underscore_notMem_toStr (i % 65536 : Nat)
    rw [he, qualified]
    simp [lit]
  have hnum : ∀ n : Nat, ((List.range n).map fun i : Nat => toStr (i % 65536 : Nat)).Nodup ↔ n ≤ 65536 := by
    intro n
    constructor
    · intro hnd
      by_contra hn
      have h0 : (List.range n)[0]? = some 0 := List.getElem?_range (by omega)
      have h1 : (List.range n)[65536]? = some 65536 := List.getElem?_range (by omega)
      have := List.index_unique hnd h0 h1 rfl
      omega
    · intro hn
      refine List.Nodup.map_on (fun i hi j hj he => ?_) List.nodup_range
      rw [List.mem_range] at hi hj
      have := toStr_injective he
      omega
  rw [nodup_joined_iff (howners ▸ nodup_classes h hns), and_iff_left hover, ctorOwners,
    List.forall_mem_map]
  simp only [hnum]

end

/-! ## The ids -/

/-- The values of the constants whose names begin with `tag`. -/
def idsOf (tag : Str) (table : List (Str × UInt16)) : List UInt16 :=
  (table.filter fun e => tag.isPrefixOf e.1).map Prod.snd

section
variable {tag : Str}

theorem idsOf_append (s t : List (Str × UInt16)) :
    idsOf tag (s ++ t) = idsOf tag s ++ idsOf tag t := by
  rw [idsOf, List.filter_append, List.map_append]
  rfl

theorem idsOf_flatMap {α : Type} (xs : List α) (f : α → List (Str × UInt16)) :
    idsOf tag (xs.flatMap f) = xs.flatMap fun x => idsOf tag (f x) := by
  induction xs with
  | nil => rfl
  | cons x xs ih => rw [List.flatMap_cons, idsOf_append, ih, List.flatMap_cons]

theorem idsOf_eq_map {table : List (Str × UInt16)} (h : ∀ e ∈ table, tag.isPrefixOf e.1 = true) :
    idsOf tag table = table.map Prod.snd := by
  rw [idsOf, List.filter_eq_self.mpr h]

theorem idsOf_eq_nil {table : List (Str × UInt16)}
    (h : ∀ e ∈ table, tag.isPrefixOf e.1 = false) : idsOf tag table = [] := by
  rw [idsOf, List.filter_eq_nil_iff.mpr fun e he => by rw [h e he]; exact Bool.false_ne_true]
  rfl

/-- The constants of some members, numbered by a counter. -/
theorem idsOf_numbered {α : Type} (xs : List α) (n : Nat) {name : α × Nat → Str}
    (h : ∀ x, tag.isPrefixOf (name x) = true) :
    idsOf tag ((xs.zipIdx n).map fun x => (name x, UInt16.ofNat x.2)) =
      (List.range' n xs.length).map UInt16.ofNat := by
  rw [idsOf_eq_map (List.forall_mem_map.mpr fun x _ => h x), List.map_map,
    ← List.zipIdx_map_snd n xs, List.map_map]
  rfl

end

theorem nodup_range_ids {n : Nat} : ((List.range' 1 n).map UInt16.ofNat).Nodup ↔ n ≤ 65536 := by
  rw [← nodup_ids, List.range'_eq_map_range, List.map_map,
    ← List.nodup_map_iff (Option.some_injective UInt16), List.map_map]
  simp only [Function.comp_def, Nat.add_comm 1]

theorem number_serviceIds (services : List ServiceDef) (n : Nat) :
    ((Table.number Cpp.idsTaken n services).flatMap fun x =>
      UInt16.ofNat x.2 :: if x.1.hasStream then [UInt16.ofNat (x.2 + 1)] else []) =
      (List.range' n (services.map Cpp.idsTaken).sum).map UInt16.ofNat := by
  induction services generalizing n with
  | nil => rfl
  | cons s services ih =>
    rw [Table.number, List.flatMap_cons, ih, List.map_cons, List.sum_cons, Cpp.idsTaken]
    cases s.hasStream with
    | true =>
      rw [if_pos rfl, if_pos rfl, Nat.add_comm 2, List.range'_succ, List.range'_succ]
      rfl
    | false =>
      rw [if_neg Bool.false_ne_true, if_neg Bool.false_ne_true, Nat.add_comm 1, List.range'_succ]
      rfl

section
variable (ns : Namespace)

theorem idsOf_services :
    idsOf (lit "kService_") (Cpp.generateServiceIds ns) =
      (List.range' 1 (ns.services.map Cpp.idsTaken).sum).map UInt16.ofNat := by
  rw [Cpp.generateServiceIds, idsOf_flatMap, ← number_serviceIds]
  refine List.flatMap_congr fun x _ => ?_
  have hm : idsOf (lit "kService_") (Cpp.methodConstants x.1.name x.1.methods) = [] :=
    idsOf_eq_nil (List.forall_mem_map.mpr fun m _ => rfl)
  rw [Cpp.serviceConstants, ← List.cons_append, idsOf_append, hm, List.append_nil]
  cases x.1.hasStream with
  | true => rfl
  | false => rfl

/-- The constants of the members of a class. -/
theorem idsOf_class {tag : Str} (c : ClassDef) (typeId : Nat)
    (ht : tag.isPrefixOf (lit "kType_" ++ c.name) = false)
    (hc : ∀ i : Nat, tag.isPrefixOf (Cpp.kCtor c.name i) = false) :
    idsOf tag (Cpp.classConstants c typeId) =
      idsOf tag ((c.properties.zipIdx 1).map fun x =>
        (Cpp.kProp c.name x.1.name, UInt16.ofNat x.2)) ++
      idsOf tag (Cpp.methodConstants c.name c.methods) := by
  have htype : idsOf tag [(Cpp.kType c.name, UInt16.ofNat typeId)] = [] :=
    idsOf_eq_nil (List.forall_mem_singleton.mpr ht)
  have hctors : idsOf tag (c.constructors.zipIdx.map fun x =>
      (Cpp.kCtor c.name (x.2 % 65536), UInt16.ofNat x.2)) = [] :=
    idsOf_eq_nil (List.forall_mem_map.mpr fun x _ => hc _)
  rw [Cpp.classConstants, ← List.singleton_append, idsOf_append, idsOf_append, idsOf_append,
    htype, hctors, List.nil_append, List.append_nil]

theorem idsOf_methods (owner : Str) (methods : List Method) :
    idsOf (lit "kMethod_") (Cpp.methodConstants owner methods) =
      (List.range' 1 methods.length).map UInt16.ofNat :=
  idsOf_numbered methods 1 fun _ => rfl

theorem idsOf_types :
    idsOf (lit "kType_") (Cpp.generateClassIds ns) =
      (List.range' 1 ns.classes.length).map UInt16.ofNat := by
  have hone : ∀ x : ClassDef × Nat, idsOf (lit "kType_") (Cpp.classConstants x.1 x.2) =
      [UInt16.ofNat x.2] := by
    intro x
    have hmembers : idsOf (lit "kType_") ((x.1.properties.zipIdx 1).map (fun y =>
          (Cpp.kProp x.1.name y.1.name, UInt16.ofNat y.2)) ++
        x.1.constructors.zipIdx.map (fun y =>
          (Cpp.kCtor x.1.name (y.2 % 65536), UInt16.ofNat y.2)) ++
        Cpp.methodConstants x.1.name x.1.methods) = [] := by
      refine idsOf_eq_nil (List.forall_mem_append.mpr ⟨List.forall_mem_append.mpr ⟨?_, ?_⟩, ?_⟩)
      · exact List.forall_mem_map.mpr fun _ _ => rfl
      · exact List.forall_mem_map.mpr fun _ _ => rfl
      · exact List.forall_mem_map.mpr fun _ _ => rfl
    rw [Cpp.classConstants, ← List.singleton_append, idsOf_append, hmembers]
    rfl
  rw [Cpp.generateClassIds, idsOf_flatMap, List.flatMap_congr fun x _ => hone x,
    ← List.map_eq_flatMap, ← List.zipIdx_map_snd 1 ns.classes, List.map_map]
  rfl

end

/-! ## Distinct constants -/

/-- Fewer than 65535 services, methods and properties in each scope. -/
structure FewMembers (ns : Namespace) : Prop where
  services : ns.services.length < 65535
  serviceMethods : ∀ s ∈ ns.services, s.methods.length < 65535
  classMethods : ∀ c ∈ ns.classes, c.methods.length < 65535
  properties : ∀ c ∈ ns.classes, c.properties.length < 65535

/-- What the constants of one header are to be. -/
structure ConstantsDistinct (ns : Namespace) : Prop where
  names : ((Cpp.headerConstants .single ns).map Prod.fst).Nodup
  serviceIds : (idsOf (lit "kService_") (Cpp.generateServiceIds ns)).Nodup
  typeIds : (idsOf (lit "kType_") (Cpp.generateClassIds ns)).Nodup
  serviceMethodIds : ∀ x ∈ Table.number Cpp.idsTaken 1 ns.services,
    (idsOf (lit "kMethod_") (Cpp.serviceConstants x.1 x.2)).Nodup
  classMethodIds : ∀ x ∈ ns.classes.zipIdx 1,
    (idsOf (lit "kMethod_") (Cpp.classConstants x.1 x.2)).Nodup
  propertyIds : ∀ x ∈ ns.classes.zipIdx 1,
    (idsOf (lit "kProp_") (Cpp.classConstants x.1 x.2)).Nodup

theorem nodup_serviceMethodIds {s : ServiceDef} {serviceId : Nat} (h : s.methods.length < 65535) :
    (idsOf (lit "kMethod_") (Cpp.serviceConstants s serviceId)).Nodup := by
  have hs : idsOf (lit "kMethod_") ((Cpp.kService s.name, UInt16.ofNat serviceId) ::
      if s.hasStream then [(Cpp.kServiceStream s.name, UInt16.ofNat (serviceId + 1))] else []) =
      [] := by
    cases s.hasStream with
    | true => rfl
    | false => rfl
  rw [Cpp.serviceConstants, ← List.cons_append, idsOf_append, hs, List.nil_append, idsOf_methods,
    nodup_range_ids]
  omega

theorem nodup_classMethodIds {c : ClassDef} {typeId : Nat} (h : c.methods.length < 65535) :
    (idsOf (lit "kMethod_") (Cpp.classConstants c typeId)).Nodup := by
  have hp : idsOf (lit "kMethod_") ((c.properties.zipIdx 1).map fun x =>
      (Cpp.kProp c.name x.1.name, UInt16.ofNat x.2)) = [] :=
    idsOf_eq_nil (List.forall_mem_map.mpr fun _ _ => rfl)
  rw [idsOf_class c typeId rfl fun _ => rfl, hp, List.nil_append, idsOf_methods, nodup_range_ids]
  omega

theorem nodup_propertyIds {c : ClassDef} {typeId : Nat} (h : c.properties.length < 65535) :
    (idsOf (lit "kProp_") (Cpp.classConstants c typeId)).Nodup := by
  have hm : idsOf (lit "kProp_") (Cpp.methodConstants c.name c.methods) = [] :=
    idsOf_eq_nil (List.forall_mem_map.mpr fun _ _ => rfl)
  rw [idsOf_class c typeId rfl fun _ => rfl, hm, List.append_nil,
    idsOf_numbered c.properties 1 fun _ => rfl, nodup_range_ids]
  omega

/-- The constants of a header are distinct exactly when no service is called as another with
`_Stream` behind it while that one has a `stream` method, no joined name is another's, no
class has two properties of one name, and there are ids enough. -/
theorem constantsDistinct_iff {ast : AST} {ns : Namespace} (h : accepts ast = true)
    (hns : ns ∈ ast.namespaces) (hfew : FewMembers ns) :
    ConstantsDistinct ns ↔
      (∀ s ∈ ns.services, s.hasStream = true →
        s.name ++ lit "_Stream" ∉ ns.services.map ServiceDef.name) ∧
      (NoOverlap (methodOwners ns) ∧ NoOverlap (propertyOwners ns)) ∧
      (∀ c ∈ ns.classes, (c.properties.map Property.name).Nodup) ∧
      (ns.services.map Cpp.idsTaken).sum ≤ 65536 ∧ ns.classes.length ≤ 65536 ∧
        ∀ c ∈ ns.classes, c.constructors.length ≤ 65536 := by
  have hmethods : ∀ o ∈ methodOwners ns, o.2.Nodup := by
    refine List.forall_mem_append.mpr ⟨List.forall_mem_map.mpr fun s hs => ?_,
      List.forall_mem_map.mpr fun c hc => nodup_classMethods h hns hc⟩
    have hv := validated h hns
    simp only [validateNamespace, List.append_eq_nil_iff, List.flatMap_eq_nil_iff] at hv
    have := hv.1.2 s hs
    rw [validateService, List.append_eq_nil_iff] at this
    exact checkDuplicateMethods_eq_nil_iff.mp this.2
  have hprops : (∀ o ∈ propertyOwners ns, o.2.Nodup) ↔
      ∀ c ∈ ns.classes, (c.properties.map Property.name).Nodup := List.forall_mem_map
  have hpowners : (propertyOwners ns).map Prod.fst = ns.classes.map ClassDef.name := by
    rw [propertyOwners, List.map_map]
    rfl
  have hnames := nodup_names_iff h hns
  rw [nodup_serviceNames_iff (nodup_services h hns), nodup_joined_iff (nodup_methodOwners h hns),
    nodup_joined_iff (hpowners ▸ nodup_classes h hns), nodup_ctorNames_iff h hns, hprops,
    and_iff_right hmethods] at hnames
  have hids : (idsOf (lit "kService_") (Cpp.generateServiceIds ns)).Nodup ↔
      (ns.services.map Cpp.idsTaken).sum ≤ 65536 := by rw [idsOf_services, nodup_range_ids]
  have htypes : (idsOf (lit "kType_") (Cpp.generateClassIds ns)).Nodup ↔
      ns.classes.length ≤ 65536 := by rw [idsOf_types, nodup_range_ids]
  constructor
  · intro hd
    obtain ⟨hs, hm, ⟨hp, ho⟩, hc⟩ := hnames.mp hd.names
    exact ⟨hs, ⟨hm, ho⟩, hp, hids.mp hd.serviceIds, htypes.mp hd.typeIds, hc⟩
  · rintro ⟨hs, ⟨hm, ho⟩, hp, hid, ht, hc⟩
    refine ⟨hnames.mpr ⟨hs, hm, ⟨hp, ho⟩, hc⟩, hids.mpr hid, htypes.mpr ht, ?_, ?_, ?_⟩
    · intro x hx
      refine nodup_serviceMethodIds (hfew.serviceMethods x.1 ?_)
      rw [← Table.map_fst_number Cpp.idsTaken 1 ns.services]
      exact List.mem_map_of_mem hx
    · intro x hx
      exact nodup_classMethodIds (hfew.classMethods x.1 (List.fst_mem_of_mem_zipIdx hx))
    · intro x hx
      exact nodup_propertyIds (hfew.properties x.1 (List.fst_mem_of_mem_zipIdx hx))

def gauge : ClassDef where
  name := lit "Gauge"
  properties := [{ name := lit "value", type := { base := .primitive .i32 } }]
  constructors := [{ params := [] }]
  methods := [fetch (lit "get") false]

theorem constantsDistinct_store :
    ConstantsDistinct { services := [feed true, store], classes := [gauge] } := by
  have h : accepts ⟨[{ services := [feed true, store], classes := [gauge] }]⟩ = true := by
    decide +kernel
  refine (constantsDistinct_iff h List.mem_cons_self
    ⟨by decide, by decide, by decide, by decide⟩).mpr
    ⟨by decide, ⟨?_, ?_⟩, by decide, by decide, by decide, by decide⟩
  · exact ((nodup_joined_iff (by decide)).mp (by decide +kernel)).2
  · exact ((nodup_joined_iff (by decide)).mp (by decide +kernel)).2

/-- The method `size_get` of `Store` and the method `get` of `Store_size`. -/
def overlapping : Namespace where
  services := [{ name := lit "Store", methods := [fetch (lit "size_get") false] },
    { name := lit "Store_size", methods := [fetch (lit "get") false] }]

theorem not_constantsDistinct_overlapping :
    ¬ ∀ ast ns, accepts ast = true → ns ∈ ast.namespaces → FewMembers ns →
      ConstantsDistinct ns := by
  intro h
  have hd := h ⟨[overlapping]⟩ overlapping (by decide +kernel) List.mem_cons_self
    ⟨by decide, by decide, by decide, by decide⟩
  exact absurd hd.names (by decide +kernel)

end Song.Compiler
