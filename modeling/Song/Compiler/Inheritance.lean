import Song.Compiler.Classes
import Song.Lib.List

/-!
# Who handles a request in a derived class

The members of every class of a hierarchy are numbered from 1, and the switch of a
derived class goes on in its base only for ids it has no `case` for itself. So a
class hides its bases' members one by one: the requests for the members of every
class get to their own member exactly when one class declares all the properties
and one all the methods, and no declared name overrides or overloads another.
-/

namespace Song.Compiler

/-- `Derived : … : Base`, from the derived class on. -/
inductive Hierarchy (ns : Namespace) : List ClassDef → Prop where
  | base {c : ClassDef} (hc : c ∈ ns.classes) (hb : c.base = none) : Hierarchy ns [c]
  | derived {c d : ClassDef} {rest : List ClassDef} (hc : c ∈ ns.classes)
      (hb : c.base = some d.name) (hd : Hierarchy ns (d :: rest)) : Hierarchy ns (c :: d :: rest)

/-- Each member of each class handles the requests with its id, and a set of a readonly
property is refused with the object as it was. -/
structure HandledByOwn (chain : List ClassDef) : Prop where
  get : ∀ c ∈ chain, ∀ pos p, c.properties[pos]? = some p →
    getHandler chain (memberId pos) = .ok (.getter c.name pos)
  set : ∀ c ∈ chain, ∀ pos p, c.properties[pos]? = some p → p.readonly = false →
    setHandler chain (memberId pos) = .ok (.setter c.name pos, .getter c.name pos)
  call : ∀ c ∈ chain, ∀ pos m, c.methods[pos]? = some m →
    callHandler chain (memberId pos) = .ok (.method c.name pos)
  refuse : ∀ c ∈ chain, ∀ pos p, c.properties[pos]? = some p → p.readonly = true →
    ∀ (ω σ : Type) (decode : Ty → Dec Bytes) (impl : Impl ω σ) (req : Buffer)
      (s : ObjectData ω × σ), propSet decode impl chain (memberId pos) req s =
        .throw s (.runtimeError (unknownOrReadonly ++ toStr (memberId pos).toNat))

/-- One class of the chain has all the properties and one all the methods, with an id each. -/
structure IdsApart (chain : List ClassDef) : Prop where
  properties : ∀ c ∈ chain, ∀ d ∈ chain, c.properties ≠ [] → d.properties ≠ [] → c.name = d.name
  methods : ∀ c ∈ chain, ∀ d ∈ chain, c.methods ≠ [] → d.methods ≠ [] → c.name = d.name
  fewProperties : ∀ c ∈ chain, c.properties.length ≤ 65536
  fewMethods : ∀ c ∈ chain, c.methods.length ≤ 65536

/-- No property is declared twice, and no method is named like an accessor that would be called
with its arguments. -/
structure NamesApart (chain : List ClassDef) : Prop where
  properties : ∀ c ∈ chain, (c.properties.map Property.name).Nodup
  getters : ∀ c ∈ chain, ∀ p ∈ c.properties, ∀ m ∈ c.methods,
    ¬ (m.name = lit "get_" ++ p.name ∧ m.params = [])
  setters : ∀ c ∈ chain, ∀ p ∈ c.properties, p.readonly = false → ∀ d ∈ chain, ∀ m ∈ d.methods,
    ¬ (m.name = lit "set_" ++ p.name ∧
      m.params.map (fun q => paramType q.type) = [paramType p.type])

/-! ## The constants -/

theorem memberId_inj {i j : Nat} (hi : i < 65536) (hj : j < 65536)
    (h : memberId i = memberId j) : i = j := by
  have := congrArg UInt16.toNat h
  simp only [memberId, UInt16.toNat_ofNat'] at this
  omega

/-! ## The switches -/

section
variable {β : Type} {labels : ClassDef → List (β × Nat)} {unknown : Str}
  {chain : List ClassDef}

/-- An id with one `case` on the whole chain gets there. -/
theorem findCase_eq_ok {c : ClassDef} {x : β × Nat} (hc : c ∈ chain) (hx : x ∈ labels c)
    (hu : ∀ d ∈ chain, ∀ y ∈ labels d, memberId y.2 = memberId x.2 → d = c ∧ y = x) :
    findCase labels unknown chain (memberId x.2) = .ok (c, x) := by
  induction chain with
  | nil => cases hc
  | cons d ds ih =>
    rw [findCase]
    cases hf : (labels d).find? fun y => memberId y.2 = memberId x.2 with
    | some y =>
      obtain ⟨rfl, rfl⟩ := hu d List.mem_cons_self y (List.mem_of_find?_eq_some hf)
        (by simpa using List.find?_some hf)
      rfl
    | none =>
      have hcd : c ≠ d := by
        rintro rfl
        simpa using List.find?_eq_none.mp hf x hx
      exact ih (List.mem_of_ne_of_mem hcd hc) fun e he => hu e (List.mem_cons_of_mem _ he)

theorem findCase_eq_error {id : UInt16}
    (h : ∀ d ∈ chain, ∀ y ∈ labels d, memberId y.2 ≠ id) :
    findCase labels unknown chain id = .error (.runtimeError (unknown ++ toStr id.toNat)) := by
  induction chain with
  | nil => rfl
  | cons d ds ih =>
    have hf : (labels d).find? (fun y => memberId y.2 = id) = none :=
      List.find?_eq_none.mpr fun y hy => by simpa using h d List.mem_cons_self y hy
    rw [findCase, hf]
    exact ih fun e he => h e (List.mem_cons_of_mem _ he)

end

/-! ## The virtual calls -/

theorem VirtualFn.sameSignature_iff {f g : VirtualFn} :
    f.sameSignature g = true ↔ f.name = g.name ∧ f.params = g.params ∧ f.isConst = g.isConst := by
  simp [sameSignature, and_assoc]

theorem VirtualFn.sameSignature_congr {f g : VirtualFn} (h : f.sameSignature g = true) :
    f.sameSignature = g.sameSignature := by
  obtain ⟨hn, hp, hc⟩ := sameSignature_iff.mp h
  funext e
  simp only [sameSignature, hn, hp, hc]

theorem ClassDef.mem_skeleton {c : ClassDef} {f : VirtualFn} :
    f ∈ c.skeleton ↔
      (∃ pos p, c.properties[pos]? = some p ∧
        (f = c.getterFn p pos ∨ p.readonly = false ∧ f = c.setterFn p pos)) ∨
      ∃ pos m, c.methods[pos]? = some m ∧ f = c.methodFn m pos := by
  have hacc : ∀ x : Property × Nat, f ∈ c.accessors x ↔
      f = c.getterFn x.1 x.2 ∨ x.1.readonly = false ∧ f = c.setterFn x.1 x.2 := fun x => by
    rw [accessors]
    cases x.1.readonly with
    | true => simp
    | false => simp
  simp only [skeleton, List.mem_append, List.mem_flatMap, List.mem_map, Prod.exists,
    List.mk_mem_zipIdx_iff_getElem?, hacc]
  refine or_congr ⟨?_, ?_⟩ ⟨?_, ?_⟩
  · rintro ⟨p, pos, hp, h⟩
    exact ⟨pos, p, hp, h⟩
  · rintro ⟨pos, p, hp, h⟩
    exact ⟨p, pos, hp, h⟩
  · rintro ⟨m, pos, hm, rfl⟩
    exact ⟨pos, m, hm, rfl⟩
  · rintro ⟨pos, m, hm, rfl⟩
    exact ⟨m, pos, hm, rfl⟩

/-- The switches of `c` that call `f` mean `f`: it is non-const, or has no non-const overload. -/
def ClassDef.Calls (c : ClassDef) (f : VirtualFn) : Prop :=
  f ∈ c.skeleton ∧ (f.isConst = true →
    ∀ g ∈ c.skeleton, g.isConst = false → ¬ (g.name = f.name ∧ g.params = f.params))

section
variable {chain : List ClassDef} {c d : ClassDef} {f g : VirtualFn}

theorem ClassDef.Calls.overload (hf : c.Calls f) : f.sameSignature (c.overload f) = true := by
  rw [ClassDef.overload]
  cases ho : c.skeleton.find? (VirtualFn.sameSignature { f with isConst := false }) with
  | none => simp [VirtualFn.sameSignature_iff]
  | some g =>
    obtain ⟨hn, hp, hconst⟩ := VirtualFn.sameSignature_iff.mp (List.find?_some ho)
    refine VirtualFn.sameSignature_iff.mpr ⟨hn, hp, ?_⟩
    cases hfc : f.isConst with
    | false => exact hconst
    | true =>
      exact absurd ⟨hn.symm, hp.symm⟩ (hf.2 hfc g (List.mem_of_find?_eq_some ho) hconst.symm)

/-- Which overload is called depends on the name and the parameters alone. -/
theorem ClassDef.overload_congr (hg : g ∈ c.skeleton) (hconst : g.isConst = false)
    (hn : f.name = g.name) (hp : f.params = g.params) : c.overload f = c.overload g := by
  have hfind : (c.skeleton.find? (VirtualFn.sameSignature { f with isConst := false })).isSome :=
    List.find?_isSome.mpr ⟨g, hg, VirtualFn.sameSignature_iff.mpr ⟨hn, hp, hconst.symm⟩⟩
  obtain ⟨o, ho⟩ := Option.isSome_iff_exists.mp hfind
  have hsig : VirtualFn.sameSignature { g with isConst := false } =
      VirtualFn.sameSignature { f with isConst := false } := by
    funext e
    simp only [VirtualFn.sameSignature, hn, hp]
  rw [ClassDef.overload, ClassDef.overload, hsig, ho]
  rfl

/-- The function that runs is the first along the chain with the signature of the one called. -/
theorem virtualCall_eq (hc : c ∈ chain) (hf : c.Calls f) :
    (chain.findSome? fun d => d.skeleton.find? f.sameSignature) =
      some (virtualCall chain c f) := by
  rw [virtualCall, finalOverrider, ← VirtualFn.sameSignature_congr hf.overload]
  cases ho : chain.findSome? fun d => d.skeleton.find? f.sameSignature with
  | some g => rfl
  | none =>
    have := List.find?_eq_none.mp (List.findSome?_eq_none_iff.mp ho c hc) f hf.1
    exact absurd (VirtualFn.sameSignature_iff.mpr ⟨rfl, rfl, rfl⟩) this

/-- Calls of functions with one signature run one function. -/
theorem virtualCall_congr (hc : c ∈ chain) (hf : c.Calls f) (hd : d ∈ chain) (hg : d.Calls g)
    (h : f.sameSignature g = true) : virtualCall chain c f = virtualCall chain d g := by
  have := virtualCall_eq hc hf
  rw [VirtualFn.sameSignature_congr h, virtualCall_eq hd hg] at this
  exact (Option.some.inj this).symm

theorem virtualCall_handler (hc : c ∈ chain) (hf : c.Calls f)
    (hu : ∀ d ∈ chain, ∀ g ∈ d.skeleton, f.sameSignature g = true → g.handler = f.handler) :
    (virtualCall chain c f).handler = f.handler := by
  obtain ⟨d, hd, hg⟩ := List.exists_of_findSome?_eq_some (virtualCall_eq hc hf)
  exact hu d hd _ (List.mem_of_find?_eq_some hg) (List.find?_some hg)

end

/-! ## The chain of an accepted class -/

section
variable {ast : AST} {ns : Namespace} {chain rest rest' : List ClassDef} {c : ClassDef}

theorem Hierarchy.mem (h : Hierarchy ns chain) : ∀ c ∈ chain, c ∈ ns.classes := by
  induction h with
  | base hc _ => exact fun d hd => by rwa [List.mem_singleton.mp hd]
  | derived hc _ _ ih => exact List.forall_mem_cons.mpr ⟨hc, ih⟩

theorem Hierarchy.of_append {pre : List ClassDef} (h : Hierarchy ns (pre ++ c :: rest)) :
    Hierarchy ns (c :: rest) := by
  induction pre with
  | nil => exact h
  | cons d pre ih =>
    refine ih ?_
    rw [List.cons_append] at h
    cases hr : pre ++ c :: rest with
    | nil => simp at hr
    | cons e es =>
      rw [hr] at h
      cases h with
      | derived _ _ hd => exact hd

variable (hacc : accepts ast = true) (hns : ns ∈ ast.namespaces)
include hacc hns

theorem classes_eq_of_name {d : ClassDef} (hc : c ∈ ns.classes) (hd : d ∈ ns.classes)
    (h : c.name = d.name) : c = d :=
  List.inj_on_of_nodup_map (nodup_classes hacc hns) hc hd h

/-- A class has one chain. -/
theorem Hierarchy.unique (h : Hierarchy ns (c :: rest)) (h' : Hierarchy ns (c :: rest')) :
    rest = rest' := by
  generalize hl : c :: rest = l at h
  induction h generalizing c rest rest' with
  | base hc hb =>
    cases hl
    cases h' with
    | base _ _ => rfl
    | derived _ hb' _ => rw [hb] at hb'; cases hb'
  | derived hc hb hd ih =>
    cases hl
    cases h' with
    | base _ hb' => rw [hb] at hb'; cases hb'
    | derived _ hb' hd' =>
      rw [hb, Option.some.injEq] at hb'
      have he := classes_eq_of_name hacc hns (hd.mem _ List.mem_cons_self)
        (hd'.mem _ List.mem_cons_self) hb'
      subst he
      rw [ih hd' rfl]

/-- The classes of a chain have different names: a repeated class would repeat its chain. -/
theorem Hierarchy.nodup (h : Hierarchy ns chain) : (chain.map ClassDef.name).Nodup := by
  induction h with
  | base _ _ => simp
  | @derived c d rest hc hb hd ih =>
    rw [List.map_cons, List.nodup_cons]
    refine ⟨fun hmem => ?_, ih⟩
    obtain ⟨e, he, hname⟩ := List.mem_map.mp hmem
    obtain rfl := classes_eq_of_name hacc hns (hd.mem e he) hc hname
    obtain ⟨pre, post, hsplit⟩ := List.append_of_mem he
    have hpost : Hierarchy ns (e :: post) := Hierarchy.of_append (hsplit ▸ hd)
    have := (Hierarchy.derived hc hb hd).unique hacc hns hpost
    have hlen := congrArg List.length hsplit
    rw [← this] at hlen
    simp only [List.length_append, List.length_cons] at hlen
    omega

end

/-! ## Exactness -/

section
variable {chain : List ClassDef} {c d : ClassDef}
  (hnames : (chain.map ClassDef.name).Nodup)
  (hmethods : ∀ c ∈ chain, (c.methods.map Method.name).Nodup)

include hnames in
theorem chain_eq_of_name (hc : c ∈ chain) (hd : d ∈ chain) (h : c.name = d.name) : c = d :=
  List.inj_on_of_nodup_map hnames hc hd h

/-- Two properties with one id are one property. -/
theorem HandledByOwn.get_inj (h : HandledByOwn chain) (hc : c ∈ chain) (hd : d ∈ chain)
    {i j : Nat} (hi : i < c.properties.length) (hj : j < d.properties.length)
    (he : memberId i = memberId j) : c.name = d.name ∧ i = j := by
  have hg := h.get c hc i _ (List.getElem?_eq_getElem hi)
  rw [he, h.get d hd j _ (List.getElem?_eq_getElem hj), Except.ok.injEq,
    Handler.getter.injEq] at hg
  exact ⟨hg.1.symm, hg.2.symm⟩

theorem HandledByOwn.call_inj (h : HandledByOwn chain) (hc : c ∈ chain) (hd : d ∈ chain)
    {i j : Nat} (hi : i < c.methods.length) (hj : j < d.methods.length)
    (he : memberId i = memberId j) : c.name = d.name ∧ i = j := by
  have hg := h.call c hc i _ (List.getElem?_eq_getElem hi)
  rw [he, h.call d hd j _ (List.getElem?_eq_getElem hj), Except.ok.injEq,
    Handler.method.injEq] at hg
  exact ⟨hg.1.symm, hg.2.symm⟩

/-- The first members of two classes have one id, as have those at 0 and at 65536. -/
theorem HandledByOwn.idsApart (h : HandledByOwn chain) : IdsApart chain where
  properties c hc d hd hcp hdp := (h.get_inj hc hd (List.length_pos_of_ne_nil hcp)
    (List.length_pos_of_ne_nil hdp) rfl).1
  methods c hc d hd hcm hdm := (h.call_inj hc hd (List.length_pos_of_ne_nil hcm)
    (List.length_pos_of_ne_nil hdm) rfl).1
  fewProperties c hc := by
    by_contra hlen
    have := (h.get_inj hc hc (i := 0) (j := 65536) (by omega) (by omega) (by decide)).2
    omega
  fewMethods c hc := by
    by_contra hlen
    have := (h.call_inj hc hc (i := 0) (j := 65536) (by omega) (by omega) (by decide)).2
    omega

variable (hids : IdsApart chain)
include hnames hids

theorem IdsApart.eq_of_property {i j : Nat} {p q : Property} (hc : c ∈ chain) (hd : d ∈ chain)
    (hp : c.properties[i]? = some p) (hq : d.properties[j]? = some q) : c = d :=
  chain_eq_of_name hnames hc hd (hids.properties c hc d hd
    (List.ne_nil_of_mem (List.mem_of_getElem? hp)) (List.ne_nil_of_mem (List.mem_of_getElem? hq)))

theorem IdsApart.eq_of_method {i j : Nat} {m n : Method} (hc : c ∈ chain) (hd : d ∈ chain)
    (hm : c.methods[i]? = some m) (hn : d.methods[j]? = some n) : c = d :=
  chain_eq_of_name hnames hc hd (hids.methods c hc d hd
    (List.ne_nil_of_mem (List.mem_of_getElem? hm)) (List.ne_nil_of_mem (List.mem_of_getElem? hn)))

/-- With the ids apart, an id of a property belongs to it alone. -/
theorem IdsApart.property_unique {i j : Nat} {p q : Property} (hc : c ∈ chain) (hd : d ∈ chain)
    (hp : c.properties[i]? = some p) (hq : d.properties[j]? = some q)
    (he : memberId j = memberId i) : d = c ∧ (q, j) = (p, i) := by
  obtain rfl := hids.eq_of_property hnames hd hc hq hp
  have hfew := hids.fewProperties d hd
  have hi := (List.getElem?_eq_some_iff.mp hp).1
  have hj := (List.getElem?_eq_some_iff.mp hq).1
  obtain rfl := memberId_inj (by omega) (by omega) he
  rw [hp, Option.some.injEq] at hq
  exact ⟨rfl, by rw [hq]⟩

theorem IdsApart.findCase_get {pos : Nat} {p : Property} (hc : c ∈ chain)
    (hp : c.properties[pos]? = some p) :
    findCase ClassDef.getCases unknownProperty chain (memberId pos) = .ok (c, p, pos) :=
  findCase_eq_ok (x := (p, pos)) hc (List.mk_mem_zipIdx_iff_getElem?.mpr hp) fun _ hd _ hy he =>
    hids.property_unique hnames hc hd hp (List.mk_mem_zipIdx_iff_getElem?.mp hy) he

theorem IdsApart.findCase_set {pos : Nat} {p : Property} (hc : c ∈ chain)
    (hp : c.properties[pos]? = some p) (hr : p.readonly = false) :
    findCase ClassDef.setCases unknownOrReadonly chain (memberId pos) = .ok (c, p, pos) := by
  refine findCase_eq_ok (x := (p, pos)) hc ?_ fun _ hd y hy he =>
    hids.property_unique hnames hc hd hp
      (List.mk_mem_zipIdx_iff_getElem?.mp (List.mem_filter.mp hy).1) he
  exact List.mem_filter.mpr ⟨List.mk_mem_zipIdx_iff_getElem?.mpr hp, by rw [hr]; rfl⟩

theorem IdsApart.findCase_readonly {pos : Nat} {p : Property} (hc : c ∈ chain)
    (hp : c.properties[pos]? = some p) (hr : p.readonly = true) :
    findCase ClassDef.setCases unknownOrReadonly chain (memberId pos) =
      .error (.runtimeError (unknownOrReadonly ++ toStr (memberId pos).toNat)) := by
  refine findCase_eq_error fun d hd y hy he => ?_
  have hy := List.mem_filter.mp hy
  have hyp := (hids.property_unique hnames hc hd hp
    (List.mk_mem_zipIdx_iff_getElem?.mp hy.1) he).2
  rw [(Prod.mk.inj hyp).1, hr] at hy
  exact Bool.noConfusion hy.2

theorem IdsApart.findCase_call {pos : Nat} {m : Method} (hc : c ∈ chain)
    (hm : c.methods[pos]? = some m) :
    findCase ClassDef.callCases unknownMethod chain (memberId pos) = .ok (c, m, pos) := by
  refine findCase_eq_ok (x := (m, pos)) hc (List.mk_mem_zipIdx_iff_getElem?.mpr hm)
    fun d hd y hy he => ?_
  have hy := List.mk_mem_zipIdx_iff_getElem?.mp hy
  obtain rfl := hids.eq_of_method hnames hd hc hy hm
  have hfew := hids.fewMethods d hd
  have hi := (List.getElem?_eq_some_iff.mp hm).1
  have hj := (List.getElem?_eq_some_iff.mp hy).1
  have hpos := memberId_inj (by omega) (by omega) he
  rw [hpos, hm, Option.some.injEq] at hy
  exact ⟨rfl, Prod.ext hy.symm hpos⟩

omit hnames hids

/-! ### The functions that are called -/

theorem calls_getter {pos : Nat} {p : Property} (hp : c.properties[pos]? = some p)
    (h : ∀ m ∈ c.methods, ¬ (m.name = lit "get_" ++ p.name ∧ m.params = [])) :
    c.Calls (c.getterFn p pos) := by
  refine ⟨ClassDef.mem_skeleton.mpr (.inl ⟨pos, p, hp, .inl rfl⟩), fun _ g hg hconst => ?_⟩
  rintro ⟨hname, hparams⟩
  obtain ⟨_, q, _, rfl | ⟨_, rfl⟩⟩ | ⟨_, m, hm, rfl⟩ := ClassDef.mem_skeleton.mp hg
  · cases hconst
  · cases hparams
  · exact h m (List.mem_of_getElem? hm) ⟨hname, List.map_eq_nil_iff.mp hparams⟩

theorem calls_setter {pos : Nat} {p : Property} (hp : c.properties[pos]? = some p)
    (hr : p.readonly = false) : c.Calls (c.setterFn p pos) :=
  ⟨ClassDef.mem_skeleton.mpr (.inl ⟨pos, p, hp, .inr ⟨hr, rfl⟩⟩), fun hconst => by cases hconst⟩

theorem calls_method {pos : Nat} {m : Method} (hm : c.methods[pos]? = some m) :
    c.Calls (c.methodFn m pos) :=
  ⟨ClassDef.mem_skeleton.mpr (.inr ⟨pos, m, hm, rfl⟩), fun hconst => by cases hconst⟩

include hnames

theorem property_eq_of_name (hn : NamesApart chain) (hids : IdsApart chain) {i j : Nat}
    {p q : Property} (hc : c ∈ chain) (hd : d ∈ chain) (hp : c.properties[i]? = some p)
    (hq : d.properties[j]? = some q) (he : p.name = q.name) : d = c ∧ j = i := by
  obtain rfl := hids.eq_of_property hnames hd hc hq hp
  exact ⟨rfl, (List.index_unique (hn.properties d hd) hp hq he).symm⟩

theorem NamesApart.getter (hn : NamesApart chain) (hids : IdsApart chain) {pos : Nat}
    {p : Property} (hc : c ∈ chain) (hp : c.properties[pos]? = some p) :
    (virtualCall chain c (c.getterFn p pos)).handler = .getter c.name pos := by
  refine virtualCall_handler hc
    (calls_getter hp (hn.getters c hc p (List.mem_of_getElem? hp))) fun d hd g hg hsig => ?_
  obtain ⟨hname, -, hconst⟩ := VirtualFn.sameSignature_iff.mp hsig
  obtain ⟨i, q, hq, rfl | ⟨_, rfl⟩⟩ | ⟨_, _, _, rfl⟩ := ClassDef.mem_skeleton.mp hg
  · obtain ⟨rfl, rfl⟩ := property_eq_of_name hnames hn hids hc hd hp hq
      (List.append_cancel_left hname)
    rfl
  · cases hconst
  · cases hconst

theorem NamesApart.setter (hn : NamesApart chain) (hids : IdsApart chain) {pos : Nat}
    {p : Property} (hc : c ∈ chain) (hp : c.properties[pos]? = some p)
    (hr : p.readonly = false) :
    (virtualCall chain c (c.setterFn p pos)).handler = .setter c.name pos := by
  refine virtualCall_handler hc (calls_setter hp hr) fun d hd g hg hsig => ?_
  obtain ⟨hname, hparams, hconst⟩ := VirtualFn.sameSignature_iff.mp hsig
  obtain ⟨i, q, hq, rfl | ⟨_, rfl⟩⟩ | ⟨_, m, hm, rfl⟩ := ClassDef.mem_skeleton.mp hg
  · cases hconst
  · obtain ⟨rfl, rfl⟩ := property_eq_of_name hnames hn hids hc hd hp hq
      (List.append_cancel_left hname)
    rfl
  · exact absurd ⟨hname.symm, hparams.symm⟩
      (hn.setters c hc p (List.mem_of_getElem? hp) hr d hd m (List.mem_of_getElem? hm))

include hmethods

theorem NamesApart.method (hn : NamesApart chain) (hids : IdsApart chain) {pos : Nat}
    {m : Method} (hc : c ∈ chain) (hm : c.methods[pos]? = some m) :
    (virtualCall chain c (c.methodFn m pos)).handler = .method c.name pos := by
  refine virtualCall_handler hc (calls_method hm) fun d hd g hg hsig => ?_
  obtain ⟨hname, hparams, hconst⟩ := VirtualFn.sameSignature_iff.mp hsig
  obtain ⟨i, q, hq, rfl | ⟨hr, rfl⟩⟩ | ⟨j, n, hj, rfl⟩ := ClassDef.mem_skeleton.mp hg
  · cases hconst
  · exact absurd ⟨hname, hparams⟩
      (hn.setters d hd q (List.mem_of_getElem? hq) hr c hc m (List.mem_of_getElem? hm))
  · obtain rfl := hids.eq_of_method hnames hd hc hj hm
    rw [List.index_unique (hmethods d hd) hm hj hname]
    rfl

/-- What is asked of a chain is enough. -/
theorem handledByOwn_of_apart (hids : IdsApart chain) (hn : NamesApart chain) :
    HandledByOwn chain where
  get c hc pos p hp := by
    rw [getHandler, hids.findCase_get hnames hc hp]
    exact congrArg Except.ok (hn.getter hnames hids hc hp)
  set c hc pos p hp hr := by
    rw [setHandler, hids.findCase_set hnames hc hp hr]
    exact congrArg Except.ok (Prod.ext (hn.setter hnames hids hc hp hr)
      (hn.getter hnames hids hc hp))
  call c hc pos m hm := by
    rw [callHandler, hids.findCase_call hnames hc hm]
    exact congrArg Except.ok (hn.method hnames hmethods hids hc hm)
  refuse c hc pos p hp hr ω σ decode impl req s := by
    rw [propSet, hids.findCase_readonly hnames hc hp hr]

omit hmethods

/-! ### Necessity -/

section
variable (h : HandledByOwn chain)
include h

theorem HandledByOwn.getter {pos : Nat} {p : Property} (hc : c ∈ chain)
    (hp : c.properties[pos]? = some p) :
    (virtualCall chain c (c.getterFn p pos)).handler = .getter c.name pos := by
  have hg := h.get c hc pos p hp
  rw [getHandler, h.idsApart.findCase_get hnames hc hp] at hg
  exact Except.ok.inj hg

theorem HandledByOwn.setter {pos : Nat} {p : Property} (hc : c ∈ chain)
    (hp : c.properties[pos]? = some p) (hr : p.readonly = false) :
    (virtualCall chain c (c.setterFn p pos)).handler = .setter c.name pos := by
  have hs := h.set c hc pos p hp hr
  rw [setHandler, h.idsApart.findCase_set hnames hc hp hr] at hs
  exact (Prod.mk.inj (Except.ok.inj hs)).1

theorem HandledByOwn.method {pos : Nat} {m : Method} (hc : c ∈ chain)
    (hm : c.methods[pos]? = some m) :
    (virtualCall chain c (c.methodFn m pos)).handler = .method c.name pos := by
  have hm' := h.call c hc pos m hm
  rw [callHandler, h.idsApart.findCase_call hnames hc hm] at hm'
  exact Except.ok.inj hm'

/-- Calls of functions with one signature have one handler. -/
theorem HandledByOwn.namesApart : NamesApart chain := by
  have hgetters : ∀ c ∈ chain, ∀ p ∈ c.properties, ∀ m ∈ c.methods,
      ¬ (m.name = lit "get_" ++ p.name ∧ m.params = []) := by
    rintro c hc p hp m hm ⟨hname, hparams⟩
    obtain ⟨i, hi⟩ := List.mem_iff_getElem?.mp hp
    obtain ⟨j, hj⟩ := List.mem_iff_getElem?.mp hm
    have hget := h.getter hnames hc hi
    have hover : c.overload (c.getterFn p i) = c.overload (c.methodFn m j) :=
      ClassDef.overload_congr (calls_method hj).1 rfl hname.symm
        (by rw [ClassDef.methodFn, hparams]; rfl)
    rw [virtualCall, hover, ← virtualCall, h.method hnames hc hj] at hget
    cases hget
  refine ⟨fun c hc => ?_, hgetters, ?_⟩
  · rw [List.nodup_iff_getElem?_ne_getElem?]
    intro i j hij hj he
    rw [List.length_map] at hj
    have hi : i < c.properties.length := by omega
    rw [List.getElem?_map, List.getElem?_map, List.getElem?_eq_getElem hi,
      List.getElem?_eq_getElem hj, Option.map_some, Option.map_some, Option.some.injEq] at he
    have hcalls : ∀ k (hk : k < c.properties.length), c.Calls (c.getterFn c.properties[k] k) :=
      fun k hk => calls_getter (List.getElem?_eq_getElem hk)
        (hgetters c hc _ (List.getElem_mem hk))
    have := virtualCall_congr hc (hcalls i hi) hc (hcalls j hj)
      (VirtualFn.sameSignature_iff.mpr ⟨congrArg (lit "get_" ++ ·) he, rfl, rfl⟩)
    have hget := h.getter hnames hc (List.getElem?_eq_getElem hi)
    rw [this, h.getter hnames hc (List.getElem?_eq_getElem hj), Handler.getter.injEq] at hget
    omega
  · rintro c hc p hp hr d hd m hm ⟨hname, hparams⟩
    obtain ⟨i, hi⟩ := List.mem_iff_getElem?.mp hp
    obtain ⟨j, hj⟩ := List.mem_iff_getElem?.mp hm
    have hset := h.setter hnames hc hi hr
    rw [virtualCall_congr hc (calls_setter hi hr) hd (calls_method hj)
      (VirtualFn.sameSignature_iff.mpr ⟨hname.symm, hparams.symm, rfl⟩),
      h.method hnames hd hj] at hset
    cases hset

end

include hmethods

theorem handledByOwn_iff_apart : HandledByOwn chain ↔ IdsApart chain ∧ NamesApart chain :=
  ⟨fun h => ⟨h.idsApart, h.namesApart hnames⟩,
    fun ⟨hids, hn⟩ => handledByOwn_of_apart hnames hmethods hids hn⟩

end

instance (chain : List ClassDef) : Decidable (IdsApart chain) :=
  decidable_of_iff ((∀ c ∈ chain, ∀ d ∈ chain, c.properties ≠ [] → d.properties ≠ [] →
      c.name = d.name) ∧
    (∀ c ∈ chain, ∀ d ∈ chain, c.methods ≠ [] → d.methods ≠ [] → c.name = d.name) ∧
    (∀ c ∈ chain, c.properties.length ≤ 65536) ∧ ∀ c ∈ chain, c.methods.length ≤ 65536)
    ⟨fun ⟨hp, hm, hfp, hfm⟩ => ⟨hp, hm, hfp, hfm⟩, fun ⟨hp, hm, hfp, hfm⟩ => ⟨hp, hm, hfp, hfm⟩⟩

/-- In the objects of an accepted class, every request for a member gets to that member
exactly when the ids and the names of the members are apart. -/
theorem handledByOwn_iff {ast : AST} {ns : Namespace} {chain : List ClassDef}
    (hacc : accepts ast = true) (hns : ns ∈ ast.namespaces) (h : Hierarchy ns chain) :
    HandledByOwn chain ↔ IdsApart chain ∧ NamesApart chain :=
  handledByOwn_iff_apart (h.nodup hacc hns) fun _ hc =>
    nodup_classMethods hacc hns (h.mem _ hc)

/-! ## Two small hierarchies -/

/-- `class Counter { readonly i32 total; }` -/
def counter : ClassDef where
  name := lit "Counter"
  properties := [{ name := lit "total", type := { base := .primitive .i32 }, readonly := true }]
  methods := []

/-- `class Stepper : Counter`, with the properties and methods given. -/
def stepper (properties : List Property) (methods : List Method) : ClassDef where
  name := lit "Stepper"
  base := some (lit "Counter")
  properties := properties
  methods := methods

/-- `i32 step;` -/
def step : Property := { name := lit "step", type := { base := .primitive .i32 } }

/-- `bump() -> void;` -/
def bump : Method where
  name := lit "bump"
  params := []
  returnType := { base := .primitive .void }

theorem Hierarchy.stepper (properties : List Property) (methods : List Method) :
    Hierarchy { classes := [counter, Compiler.stepper properties methods] }
      [Compiler.stepper properties methods, counter] :=
  .derived (by simp) rfl (.base (by simp) rfl)

/-- A class with methods only on a class with properties only. -/
theorem handledByOwn_bump : HandledByOwn [stepper [] [bump], counter] := by
  have hacc : accepts ⟨[{ classes := [counter, stepper [] [bump]] }]⟩ = true := by
    decide +kernel
  refine (handledByOwn_iff hacc List.mem_cons_self (.stepper [] [bump])).mpr
    ⟨by decide +kernel, ?_⟩
  refine ⟨by decide +kernel, by decide +kernel, ?_⟩
  intro c hc p hp hr
  simp only [List.mem_cons, List.not_mem_nil, or_false] at hc
  rcases hc with rfl | rfl
  · cases hp
  · rw [List.mem_singleton.mp hp] at hr
    cases hr

/-- A get of `Counter`'s `total` from a `Stepper` with a `step` reads `step`. -/
theorem not_handledByOwn_step :
    ¬ ∀ ast ns chain, accepts ast = true → ns ∈ ast.namespaces → Hierarchy ns chain →
      HandledByOwn chain := by
  intro h
  have hown := h ⟨[{ classes := [counter, stepper [step] []] }]⟩ _ _ (by decide +kernel)
    List.mem_cons_self (.stepper [step] [])
  have hget := hown.get counter (by simp) 0 _ rfl
  have hstep : getHandler [stepper [step] [], counter] (memberId 0) =
      .ok (.getter (lit "Stepper") 0) := by decide +kernel
  rw [hstep, Except.ok.injEq, Handler.getter.injEq] at hget
  exact absurd hget.1 (by decide +kernel)

end Song.Compiler
