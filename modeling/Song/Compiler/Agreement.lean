import Song.Compiler.Ids
import Song.Lib.List

/-!
# When the two generators agree

Both number the methods of a service alike. They number the services alike up to
the first service with a `stream` method: there the C++ counter takes one id more,
and from that service's stream methods on the pairs differ. Apart from that, what
is asked of the namespace is that the names of the ids stay theirs.
-/

namespace Song.Compiler

open Cpp (Layout)

/-! ## Membership -/

/-- `v` is the number of a method with the qualified name `q`. -/
def MethodId (ns : Namespace) (q : Str) (v : UInt16) : Prop :=
  ∃ s ∈ ns.services, ∃ j m, s.methods[j]? = some m ∧ q = qualified s.name m.name ∧
    v = .ofNat (j + 1)

section
variable {ns : Namespace} {layout : Layout} {q x : Str} {v : UInt16}

theorem Cpp.mem_methodConstants {owner : Str} {methods : List Method} {n : Str} :
    (n, v) ∈ methodConstants owner methods ↔
      ∃ j m, methods[j]? = some m ∧ n = kMethod owner m.name ∧ v = .ofNat (j + 1) := by
  simp only [methodConstants, List.mem_map, Prod.exists, List.mem_zipIdx_one, Prod.mk.injEq]
  constructor
  · rintro ⟨m, _, ⟨j, hj, rfl⟩, rfl, rfl⟩
    exact ⟨j, m, hj, rfl, rfl⟩
  · rintro ⟨j, m, hj, rfl, rfl⟩
    exact ⟨m, _, ⟨j, hj, rfl⟩, rfl, rfl⟩

theorem Cpp.mem_header {e : Str × UInt16} (h : e ∈ generateServiceIds ns) :
    e ∈ headerConstants layout ns := by
  cases layout with
  | single => exact List.mem_append_left _ h
  | split => exact h

theorem Cpp.mem_header_method (h : MethodId ns q v) :
    (lit "kMethod_" ++ q, v) ∈ headerConstants layout ns := by
  obtain ⟨s, hs, j, m, hm, rfl, rfl⟩ := h
  have hs' : s ∈ (Table.number idsTaken 1 ns.services).map Prod.fst := by
    rwa [Table.map_fst_number]
  obtain ⟨⟨_, id⟩, hid, rfl⟩ := List.mem_map.mp hs'
  refine mem_header (List.mem_flatMap.mpr ⟨_, hid, ?_⟩)
  refine List.mem_cons_of_mem _ (List.mem_append_right _ ?_)
  exact mem_methodConstants.mpr ⟨j, m, hm, rfl, rfl⟩

theorem Python.mem_serviceIds_method {w : Value} :
    (lit "METHOD_" ++ q, w) ∈ generateServiceIds ns ↔ ∃ v, MethodId ns q v ∧ w = .int v := by
  simp only [generateServiceIds, serviceIds, List.mem_flatMap, Prod.exists, List.mem_cons,
    List.mem_map, List.mem_zipIdx_one, Prod.mk.injEq, MethodId]
  constructor
  · rintro ⟨s, _, ⟨k, hk, rfl⟩, ⟨hn, _⟩ | ⟨m, _, ⟨j, hj, rfl⟩, hn, rfl⟩⟩
    · simp [service, lit] at hn
    · exact ⟨_, ⟨s, List.mem_of_getElem? hk, j, m, hj,
        (List.append_cancel_left hn).symm, rfl⟩, rfl⟩
  · rintro ⟨_, ⟨s, hs, j, m, hj, rfl, rfl⟩, rfl⟩
    obtain ⟨k, hk⟩ := List.mem_iff_getElem?.mp hs
    exact ⟨s, _, ⟨k, hk, rfl⟩, .inr ⟨m, _, ⟨j, hj, rfl⟩, rfl, rfl⟩⟩

theorem Python.mem_serviceIds_service {w : Value} :
    (service x, w) ∈ generateServiceIds ns ↔
      ∃ k s, ns.services[k]? = some s ∧ x = s.name ∧ w = .int (.ofNat (k + 1)) := by
  simp only [generateServiceIds, serviceIds, List.mem_flatMap, Prod.exists, List.mem_cons,
    List.mem_map, List.mem_zipIdx_one, Prod.mk.injEq]
  constructor
  · rintro ⟨s, _, ⟨k, hk, rfl⟩, ⟨hn, rfl⟩ | ⟨m, _, ⟨j, hj, rfl⟩, hn, rfl⟩⟩
    · exact ⟨k, s, hk, List.append_cancel_left hn, rfl⟩
    · simp [service, method, lit] at hn
  · rintro ⟨k, s, hk, rfl, rfl⟩
    exact ⟨s, _, ⟨k, hk, rfl⟩, .inl ⟨rfl, rfl⟩⟩

end

/-! ## How often a name is defined -/

/-- The qualified names of the methods whose constants a header defines. -/
def methodNames : Layout → Namespace → List Str
  | .single, ns =>
    ns.services.flatMap (fun s => s.methods.map fun m => qualified s.name m.name) ++
    ns.classes.flatMap (fun c => c.methods.map fun m => qualified c.name m.name)
  | .split, ns => ns.services.flatMap fun s => s.methods.map fun m => qualified s.name m.name

theorem count_flatMap_congr {α β γ : Type} [BEq β] [BEq γ] {xs : List α}
    {f : α → List β} {g : α → List γ} {b : β} {c : γ}
    (h : ∀ x ∈ xs, (f x).count b = (g x).count c) :
    (xs.flatMap f).count b = (xs.flatMap g).count c := by
  rw [List.count_flatMap, List.count_flatMap]
  exact congrArg List.sum (List.map_congr_left h)

namespace Cpp

section
variable {ns : Namespace} {layout : Layout} {q : Str}

theorem map_fst_methodConstants (owner : Str) (methods : List Method) :
    (methodConstants owner methods).map Prod.fst = methods.map fun m => kMethod owner m.name := by
  have : methods.map (fun m => kMethod owner m.name) =
      ((methods.zipIdx 1).map Prod.fst).map fun m => kMethod owner m.name := by
    rw [List.zipIdx_map_fst]
  rw [this, methodConstants, List.map_map, List.map_map]
  rfl

theorem map_fst_generateServiceIds (ns : Namespace) :
    (generateServiceIds ns).map Prod.fst = ns.services.flatMap fun s =>
      kService s.name :: ((if s.hasStream then [kServiceStream s.name] else []) ++
        s.methods.map fun m => kMethod s.name m.name) := by
  conv_rhs => rw [← Table.map_fst_number idsTaken 1 ns.services]
  rw [List.flatMap_map, generateServiceIds, List.map_flatMap]
  refine List.flatMap_congr fun x _ => ?_
  rw [serviceConstants, List.map_cons, List.map_append, map_fst_methodConstants]
  split
  · rfl
  · rfl

theorem count_methodNames (owner : Str) (methods : List Method) :
    (methods.map fun m => kMethod owner m.name).count (lit "kMethod_" ++ q) =
      (methods.map fun m => qualified owner m.name).count q := by
  rw [← List.count_map_of_injective (methods.map fun m => qualified owner m.name) _
    (List.append_right_injective (lit "kMethod_")), List.map_map]
  rfl

theorem count_kMethod_services :
    ((generateServiceIds ns).map Prod.fst).count (lit "kMethod_" ++ q) =
      (methodNames .split ns).count q := by
  rw [map_fst_generateServiceIds]
  refine count_flatMap_congr fun s _ => ?_
  rw [List.count_cons_of_ne (by simp [kService, lit]), List.count_append, count_methodNames,
    List.count_eq_zero_of_not_mem, Nat.zero_add]
  split
  · simp [kServiceStream, lit]
  · exact List.not_mem_nil

theorem count_kMethod_classes :
    ((generateClassIds ns).map Prod.fst).count (lit "kMethod_" ++ q) =
      (ns.classes.flatMap fun c => c.methods.map fun m => qualified c.name m.name).count q := by
  have hfst : ns.classes = (ns.classes.zipIdx 1).map Prod.fst := by rw [List.zipIdx_map_fst]
  conv_rhs => rw [hfst]
  rw [List.flatMap_map, generateClassIds, List.map_flatMap]
  refine count_flatMap_congr fun x _ => ?_
  rw [classConstants, List.map_cons, List.count_cons_of_ne (by simp [kType, lit]),
    List.map_append, List.count_append, map_fst_methodConstants, count_methodNames,
    List.count_eq_zero_of_not_mem, Nat.zero_add]
  rw [List.map_append, List.mem_append, List.map_map, List.map_map]
  simp [kProp, kCtor, lit]

/-- A method constant is defined once for each method with its qualified name. -/
theorem count_kMethod :
    ((headerConstants layout ns).map Prod.fst).count (lit "kMethod_" ++ q) =
      (methodNames layout ns).count q := by
  cases layout with
  | single =>
    rw [headerConstants, methodNames, List.map_append, List.count_append, List.count_append,
      count_kMethod_services, count_kMethod_classes, methodNames]
  | split => exact count_kMethod_services

/-- Without `stream` methods the only service constants are the `kService_S`. -/
theorem count_kService {x : Str} (h : ∀ s ∈ ns.services, s.hasStream = false) :
    ((headerConstants layout ns).map Prod.fst).count (kService x) =
      (ns.services.map ServiceDef.name).count x := by
  have hs : ((generateServiceIds ns).map Prod.fst).count (kService x) =
      (ns.services.map ServiceDef.name).count x := by
    rw [map_fst_generateServiceIds, List.map_eq_flatMap]
    refine count_flatMap_congr fun s hs => ?_
    rw [h s hs]
    simp only [Bool.false_eq_true, ↓reduceIte, List.nil_append, List.count_cons, kService,
      beq_iff_eq, List.append_cancel_left_eq, List.count_nil]
    rw [List.count_eq_zero_of_not_mem]
    simp [kMethod, lit]
  cases layout with
  | single =>
    have hc : kService x ∉ (generateClassIds ns).map Prod.fst := by
      rw [generateClassIds, List.map_flatMap]
      simp [classConstants, methodConstants, kService, kType, kProp, kCtor, kMethod, lit]
    rw [headerConstants, List.map_append, List.count_append, hs,
      List.count_eq_zero_of_not_mem hc, Nat.add_zero]
  | split => exact hs

end

end Cpp

/-! ## What a name means -/

/-- The names that the call of `m` needs mean the ids of `s` and `m`: the method constant is
not that of another method as well, and no class, function or local name of the module hides
one of the two. -/
structure NamesKept (layout : Layout) (ns : Namespace) (s : ServiceDef) (m : Method) : Prop where
  once : (methodNames layout ns).count (qualified s.name m.name) = 1
  service : Python.service s.name ∉ Python.locals m ∧
    Python.service s.name ∉ Python.objectNames ns
  method : Python.method s.name m.name ∉ Python.locals m ∧
    Python.method s.name m.name ∉ Python.objectNames ns

section
variable {ns : Namespace} {layout : Layout} {s : ServiceDef} {m : Method} {q n : Str}
  {v : UInt16}

instance : Decidable (NamesKept layout ns s m) :=
  decidable_of_iff ((methodNames layout ns).count (qualified s.name m.name) = 1 ∧
      (Python.service s.name ∉ Python.locals m ∧
        Python.service s.name ∉ Python.objectNames ns) ∧
      Python.method s.name m.name ∉ Python.locals m ∧
        Python.method s.name m.name ∉ Python.objectNames ns)
    ⟨fun ⟨ho, hs, hm⟩ => ⟨ho, hs, hm⟩, fun ⟨ho, hs, hm⟩ => ⟨ho, hs, hm⟩⟩

theorem Python.idIn_eq_some_iff :
    idIn ns m n = some v ↔
      (n ∉ locals m ∧ n ∉ objectNames ns) ∧ Table.last (generateServiceIds ns) n = some (.int v) := by
  have hobj : ∀ w, Table.last ((objectNames ns).map fun n => (n, Value.object)) n = some w →
      w = .object := fun w hw => by
    obtain ⟨_, _, he⟩ := List.mem_map.mp (Table.mem_of_last hw)
    exact (Prod.mk.inj he).2.symm
  have hnone : Table.last ((objectNames ns).map fun n => (n, Value.object)) n = none ↔
      n ∉ objectNames ns := by
    rw [Table.last_eq_none_iff, List.map_map]
    simp [Function.comp_def]
  rw [idIn, generateModule, Table.last_append]
  by_cases hl : n ∈ locals m
  · simp [hl]
  · rw [if_neg hl, ← hnone]
    cases ho : Table.last ((objectNames ns).map fun n => (n, Value.object)) n with
    | some w =>
      rw [hobj w ho]
      simp
    | none =>
      rw [Option.none_or]
      cases Table.last (generateServiceIds ns) n with
      | none => simp
      | some w => cases w with
        | int u => simp [hl]
        | object => simp

theorem Python.last_service {k : Nat} (hnd : (ns.services.map ServiceDef.name).Nodup)
    (hk : ns.services[k]? = some s) :
    Table.last (generateServiceIds ns) (service s.name) = some (.int (.ofNat (k + 1))) := by
  refine Table.last_eq_some (mem_serviceIds_service.mpr ⟨k, s, hk, rfl, rfl⟩) fun w hw => ?_
  obtain ⟨k', s', hk', hn, rfl⟩ := mem_serviceIds_service.mp hw
  rw [List.index_unique hnd hk hk' hn]

theorem Cpp.value_method_unique (hv : value layout ns (lit "kMethod_" ++ q) = some v) {w : UInt16}
    (hw : MethodId ns q w) : w = v :=
  (Table.single_unique hv (mem_header_method hw)).symm

theorem Python.last_method (hv : Cpp.value layout ns (lit "kMethod_" ++ q) = some v)
    (hq : MethodId ns q v) :
    Table.last (generateServiceIds ns) (lit "METHOD_" ++ q) = some (.int v) := by
  refine Table.last_eq_some (mem_serviceIds_method.mpr ⟨v, hq, rfl⟩) fun w hw => ?_
  obtain ⟨u, hu, rfl⟩ := mem_serviceIds_method.mp hw
  rw [Cpp.value_method_unique hv hu]

end

/-! ## The two pairs -/

section
variable {ns : Namespace} {layout : Layout} {s : ServiceDef} {m : Method}
  {pair : UInt16 × UInt16}

theorem Python.sentPair_eq_some_iff :
    sentPair ns s m = some pair ↔
      idIn ns m (service s.name) = some pair.1 ∧
        idIn ns m (method s.name m.name) = some pair.2 := by
  obtain ⟨a, b⟩ := pair
  simp only [sentPair, Option.bind_eq_bind, Option.bind_eq_some_iff, Option.some.injEq,
    Prod.mk.injEq]
  constructor
  · rintro ⟨_, ha, _, hb, rfl, rfl⟩
    exact ⟨ha, hb⟩
  · rintro ⟨ha, hb⟩
    exact ⟨a, ha, b, hb, rfl, rfl⟩

theorem Cpp.dispatchPair_eq_some_iff :
    dispatchPair layout ns s m = some pair ↔
      value layout ns (if m.isStream then kServiceStream s.name else kService s.name) =
          some pair.1 ∧
        value layout ns (kMethod s.name m.name) = some pair.2 ∧
        (caseLabels layout ns s m.isStream).count (some pair.2) = 1 := by
  obtain ⟨a, b⟩ := pair
  simp only [dispatchPair, Option.bind_eq_bind, Option.bind_eq_some_iff,
    Option.ite_none_right_eq_some, Option.some.injEq, Prod.mk.injEq]
  constructor
  · rintro ⟨_, ha, _, hb, hc, rfl, rfl⟩
    exact ⟨ha, hb, hc⟩
  · rintro ⟨ha, hb, hc⟩
    exact ⟨a, ha, b, hb, hc, rfl, rfl⟩

end

theorem sum_idsTaken {services : List ServiceDef} (h : ∀ s ∈ services, s.hasStream = false) :
    (services.map Cpp.idsTaken).sum = services.length := by
  have : services.map Cpp.idsTaken = services.map fun _ => 1 :=
    List.map_congr_left fun s hs => by rw [Cpp.idsTaken, h s hs]; rfl
  rw [this, List.map_const', List.sum_replicate_nat, Nat.mul_one]

theorem Cpp.mem_serviceConstants {ns : Namespace} {layout : Layout} {s : ServiceDef} {k : Nat}
    {e : Str × UInt16} (hk : ns.services[k]? = some s)
    (h : ∀ t ∈ ns.services.take k, t.hasStream = false)
    (he : e ∈ serviceConstants s (k + 1)) : e ∈ headerConstants layout ns := by
  refine mem_header (List.mem_flatMap.mpr ⟨(s, k + 1), Table.mem_number_iff.mpr ⟨k, hk, ?_⟩, he⟩)
  have hlt := (List.getElem?_eq_some_iff.mp hk).1
  rw [sum_idsTaken h, List.length_take]
  omega

theorem Cpp.value_service {ns : Namespace} {layout : Layout} {s : ServiceDef} {k : Nat}
    (hnd : (ns.services.map ServiceDef.name).Nodup) (hk : ns.services[k]? = some s)
    (h : ∀ t ∈ ns.services, t.hasStream = false) :
    value layout ns (kService s.name) = some (.ofNat (k + 1)) := by
  refine Table.single_eq_some ?_ (mem_serviceConstants hk (fun t ht => h t (List.mem_of_mem_take ht))
    List.mem_cons_self)
  rw [count_kService h]
  exact List.count_eq_one_of_mem hnd (List.mem_map_of_mem (List.mem_of_getElem? hk))

/-- A `u16` counter from 1 numbers up to 65536 things apart. -/
theorem nodup_ids {n : Nat} :
    ((List.range n).map fun j => some (UInt16.ofNat (j + 1))).Nodup ↔ n ≤ 65536 := by
  constructor
  · intro h
    by_contra hn
    have h0 : (List.range n)[0]? = some 0 := List.getElem?_range (by omega)
    have h1 : (List.range n)[65536]? = some 65536 := List.getElem?_range (by omega)
    have := List.index_unique h h0 h1 (by decide)
    omega
  · intro h
    refine List.Nodup.map_on (fun i hi j hj he => ?_) List.nodup_range
    rw [List.mem_range] at hi hj
    have := congrArg UInt16.toNat (Option.some.inj he)
    simp only [UInt16.toNat_ofNat'] at this
    omega

theorem Cpp.caseLabels_eq {ns : Namespace} {layout : Layout} {s : ServiceDef}
    (hs : ∀ m ∈ s.methods, m.isStream = false)
    (hv : ∀ j m, s.methods[j]? = some m →
      value layout ns (kMethod s.name m.name) = some (.ofNat (j + 1))) :
    caseLabels layout ns s false =
      (List.range s.methods.length).map fun j => some (UInt16.ofNat (j + 1)) := by
  have hf : (s.methods.filter fun m => m.isStream = false) = s.methods :=
    List.filter_eq_self.mpr fun m hm => decide_eq_true (hs m hm)
  rw [caseLabels, hf]
  refine List.ext_getElem? fun j => ?_
  rw [List.getElem?_map, List.getElem?_map]
  cases hj : s.methods[j]? with
  | none => rw [List.getElem?_eq_none (by simpa using hj)]; rfl
  | some m =>
    rw [List.getElem?_range (List.getElem?_eq_some_iff.mp hj).1, Option.map_some, Option.map_some,
      hv j m hj]

/-! ## The agreement -/

section
variable {ast : AST} {ns : Namespace} {layout : Layout} (h : accepts ast = true)
  (hns : ns ∈ ast.namespaces)
include h hns

/-- Where the pairs agree no service has a `stream` method: the first one that has takes two
ids in C++ and one in Python. -/
theorem IdsAgree.hasStream (hag : IdsAgree layout ns) : ∀ s ∈ ns.services, s.hasStream = false := by
  rcases List.forall_or_first (fun s => s.hasStream = false) ns.services with hall |
    ⟨pre, s, post, he, hpre, hs⟩
  · exact hall
  · exfalso
    have hk : ns.services[pre.length]? = some s := by rw [he]; simp
    rw [Bool.not_eq_false, ServiceDef.hasStream, List.any_eq_true] at hs
    obtain ⟨m, hm, hstream⟩ := hs
    obtain ⟨pair, hpy, hcpp⟩ := hag s (List.mem_of_getElem? hk) m hm
    have hpy := (Python.idIn_eq_some_iff.mp (Python.sentPair_eq_some_iff.mp hpy).1).2
    rw [Python.last_service (nodup_services h hns) hk, Option.some.injEq,
      Python.Value.int.injEq] at hpy
    have hcpp := (Cpp.dispatchPair_eq_some_iff.mp hcpp).1
    rw [if_pos hstream] at hcpp
    have hmem : (Cpp.kServiceStream s.name, UInt16.ofNat (pre.length + 1 + 1)) ∈
        Cpp.headerConstants layout ns := by
      refine Cpp.mem_serviceConstants hk (fun t ht => hpre t ?_) ?_
      · rw [he, List.take_left'] at ht
        · exact ht
        · rfl
      · have hs : s.hasStream = true := List.any_eq_true.mpr ⟨m, hm, hstream⟩
        rw [Cpp.serviceConstants, if_pos hs]
        exact List.mem_cons_of_mem _ List.mem_cons_self
    have := congrArg UInt16.toNat (hpy.trans (Table.single_unique hcpp hmem))
    simp only [UInt16.toNat_ofNat'] at this
    omega

omit h hns in
theorem IdsAgree.value_method (hag : IdsAgree layout ns) {s : ServiceDef} (hs : s ∈ ns.services)
    (j : Nat) (m : Method) (hj : s.methods[j]? = some m) :
    Cpp.value layout ns (Cpp.kMethod s.name m.name) = some (.ofNat (j + 1)) := by
  obtain ⟨pair, _, hcpp⟩ := hag s hs m (List.mem_of_getElem? hj)
  have hv := (Cpp.dispatchPair_eq_some_iff.mp hcpp).2.1
  rw [hv, Cpp.value_method_unique hv ⟨s, hs, j, m, hj, rfl, rfl⟩]

/-- For a namespace of an accepted tree, the two generators agree exactly when no method is
a `stream` method, the names of the ids are kept, and no service has more methods than there
are ids. -/
theorem idsAgree_iff :
    IdsAgree layout ns ↔ ∀ s ∈ ns.services, ∀ m ∈ s.methods,
      m.isStream = false ∧ s.methods.length ≤ 65536 ∧ NamesKept layout ns s m := by
  have hnd := nodup_services h hns
  constructor
  · intro hag s hs m hm
    have hno : ∀ m ∈ s.methods, m.isStream = false := fun m hm => by
      simpa using List.any_eq_false.mp (hag.hasStream h hns s hs) m hm
    have hlabels := Cpp.caseLabels_eq hno (hag.value_method hs)
    obtain ⟨pair, hpy, hcpp⟩ := hag s hs m hm
    have hpy := Python.sentPair_eq_some_iff.mp hpy
    have hcpp := Cpp.dispatchPair_eq_some_iff.mp hcpp
    refine ⟨hno m hm, ?_, ?_, (Python.idIn_eq_some_iff.mp hpy.1).1,
      (Python.idIn_eq_some_iff.mp hpy.2).1⟩
    · -- every label of the switch is the `case` of a method that is dispatched
      rw [← nodup_ids, ← hlabels, List.nodup_iff_count_eq_one]
      intro label hlabel
      obtain ⟨m', hm', rfl⟩ := List.mem_map.mp hlabel
      have hm' := (List.mem_filter.mp hm').1
      obtain ⟨pair', _, hcpp'⟩ := hag s hs m' hm'
      have hcpp' := Cpp.dispatchPair_eq_some_iff.mp hcpp'
      rw [hno m' hm'] at hcpp'
      rw [hcpp'.2.1]
      exact hcpp'.2.2
    · rw [← Cpp.count_kMethod]
      exact (Table.single_eq_some_iff.mp hcpp.2.1).1
  · intro hcond s hs m hm
    obtain ⟨k, hk⟩ := List.mem_iff_getElem?.mp hs
    obtain ⟨j, hj⟩ := List.mem_iff_getElem?.mp hm
    have hno : ∀ t ∈ ns.services, t.hasStream = false := fun t ht =>
      List.any_eq_false.mpr fun m hm => by simp [(hcond t ht m hm).1]
    have hv : ∀ j m, s.methods[j]? = some m →
        Cpp.value layout ns (Cpp.kMethod s.name m.name) = some (.ofNat (j + 1)) := by
      intro j m hj
      refine Table.single_eq_some ?_ (Cpp.mem_header_method ⟨s, hs, j, m, hj, rfl, rfl⟩)
      rw [Cpp.kMethod, Cpp.count_kMethod]
      exact (hcond s hs m (List.mem_of_getElem? hj)).2.2.once
    obtain ⟨hstream, hlen, hkept⟩ := hcond s hs m hm
    refine ⟨(.ofNat (k + 1), .ofNat (j + 1)), Python.sentPair_eq_some_iff.mpr ⟨?_, ?_⟩,
      Cpp.dispatchPair_eq_some_iff.mpr ⟨?_, hv j m hj, ?_⟩⟩
    · exact Python.idIn_eq_some_iff.mpr ⟨hkept.service, Python.last_service hnd hk⟩
    · exact Python.idIn_eq_some_iff.mpr ⟨hkept.method,
        Python.last_method (hv j m hj) ⟨s, hs, j, m, hj, rfl, rfl⟩⟩
    · rw [hstream]
      exact Cpp.value_service hnd hk hno
    · have hlabels := Cpp.caseLabels_eq (fun m hm => (hcond s hs m hm).1) hv
      have hnodup := nodup_ids.mpr hlen
      rw [hstream, hlabels]
      refine List.nodup_iff_count_eq_one.mp hnodup _ ?_
      exact List.mem_map.mpr ⟨j, List.mem_range.mpr (List.getElem?_eq_some_iff.mp hj).1, rfl⟩

end

/-! ## Two small namespaces -/

/-- `name() -> i32;`, after `stream` or not. -/
def fetch (name : Str) (isStream : Bool) : Method where
  name := name
  params := []
  returnType := { base := .primitive .i32 }
  isStream := isStream

def feed (stream : Bool) : ServiceDef where
  name := lit "Feed"
  methods := [fetch (lit "watch") stream]

def store : ServiceDef where
  name := lit "Store"
  methods := [fetch (lit "get") false, fetch (lit "size") false]

def feedAndStore (stream : Bool) : Namespace := { services := [feed stream, store] }

theorem idsAgree_feedAndStore : IdsAgree .single (feedAndStore false) := by
  have h : accepts ⟨[feedAndStore false]⟩ = true := by decide +kernel
  exact (idsAgree_iff h List.mem_cons_self).mpr (by decide +kernel)

/-- With `stream watch`, the proxy of `Store` calls service 2, which is the stream dispatcher
of `Feed` in C++. -/
theorem idsDiffer_feedAndStore :
    ¬ ∀ layout ast ns, accepts ast = true → ns ∈ ast.namespaces → IdsAgree layout ns := by
  intro h
  obtain ⟨pair, hpy, hcpp⟩ := h .single ⟨[feedAndStore true]⟩ (feedAndStore true)
    (by decide +kernel) List.mem_cons_self store
    (List.mem_cons_of_mem _ List.mem_cons_self) (fetch (lit "get") false) List.mem_cons_self
  have hne : Python.sentPair (feedAndStore true) store (fetch (lit "get") false) ≠
      Cpp.dispatchPair .single (feedAndStore true) store (fetch (lit "get") false) := by
    decide +kernel
  exact hne (hpy.trans hcpp.symm)

end Song.Compiler
