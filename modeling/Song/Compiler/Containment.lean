import Song.Compiler.Chains
import Song.Compiler.Calls
import Mathlib.Data.Set.Finite.Lattice

/-!
# Structs inside structs

A field whose type is a struct, not an array and not optional, holds a value of that struct, and
the codec of the struct calls the one of the field. The Resolver asks only that the type exists.
Values and codecs come to an end exactly when the structs can be numbered so that each has a
greater number than those that it holds; then a decoder nests no deeper than the numbers and the
arrays in the input allow.
-/

namespace Song.Compiler

open Cursor (many each Takes)
open Eff (Ends)

/-! ## Containment -/

/-- A field that holds a struct of that name by value. -/
def Field.HoldsValue (f : Field) (name : Str) : Prop :=
  f.type.base = .user name ∧ f.type.isArray = false ∧ f.type.isOptional = false

/-- `S` has a field of type `T` that is neither an array nor optional. -/
def Holds (structs : List StructDef) (s t : StructDef) : Prop :=
  s ∈ structs ∧ t ∈ structs ∧ ∃ f ∈ s.fields, f.HoldsValue t.name

/-- A finite value of a struct, as far as the structs that it holds are concerned. -/
inductive IsValue (structs : List StructDef) : StructDef → Val → Prop
  | mk {s : StructDef} {vs : List Val} (hlen : vs.length = s.fields.length)
      (hvs : ∀ p ∈ s.fields.zip vs, ∀ t ∈ structs, p.1.HoldsValue t.name →
        IsValue structs t p.2) : IsValue structs s (.struct s.name vs)

/-- The calls of `decode_<S>` come to an end on every buffer: some depth of calls is enough. -/
def DecodeEnds (ns : Namespace) (s : StructDef) : Prop :=
  ∀ b, ∃ depth, ∀ n, depth ≤ n → Ends (decodeVal ns n (.user s.name)) b (fun _ _ => True)
    fun e _ => e ≠ .tooDeep

/-- The numbers fall from each struct to those that it holds. -/
def Ranked (structs : List StructDef) (rank : StructDef → Nat) : Prop :=
  ∀ s t, Holds structs s t → rank t < rank s

/-! ## Values -/

section
variable {structs : List StructDef} {rank : StructDef → Nat}
  (hnames : (structs.map StructDef.name).Nodup) (hrank : Ranked structs rank)
include hnames hrank

theorem exists_value {s : StructDef} (hs : s ∈ structs) : ∃ v, IsValue structs s v := by
  induction hn : rank s using Nat.strong_induction_on generalizing s with
  | _ n ih =>
    -- a value for each field, of the struct that it holds if it holds one
    have hfield : ∀ f ∈ s.fields, ∃ v, ∀ t ∈ structs, f.HoldsValue t.name →
        IsValue structs t v := by
      intro f hf
      by_cases hh : ∃ t ∈ structs, f.HoldsValue t.name
      · obtain ⟨t, ht, hft⟩ := hh
        obtain ⟨v, hv⟩ := ih (rank t) (hn ▸ hrank s t ⟨hs, ht, f, hf, hft⟩) ht rfl
        refine ⟨v, fun u hu hfu => ?_⟩
        have hname : u.name = t.name := TypeBase.user.inj (hfu.1.symm.trans hft.1)
        rwa [List.inj_on_of_nodup_map hnames hu ht hname]
      · exact ⟨.absent, fun t ht hft => absurd ⟨t, ht, hft⟩ hh⟩
    have : Nonempty Val := ⟨.absent⟩
    choose! value hvalue using hfield
    have hzip : s.fields.zip (s.fields.map value) = s.fields.map fun f => (f, value f) := by
      have hmap := @List.zip_map' _ _ _ id value s.fields
      rwa [List.map_id] at hmap
    refine ⟨.struct s.name (s.fields.map value), .mk (List.length_map _) fun p hp t ht hft => ?_⟩
    rw [hzip, List.mem_map] at hp
    obtain ⟨f, hf, rfl⟩ := hp
    exact hvalue f hf t ht hft

end

/-! ## Decoders that come to an end -/

/-- From a buffer with at most `n` unread bytes, `x` returns without reading backwards, or throws,
but not for want of depth. -/
def Settles {α : Type} (n : Nat) (x : GenDec α) : Prop :=
  ∀ b, b.unread.length ≤ n → Ends x b (fun _ b' => b'.unread.length ≤ b.unread.length)
    fun e _ => e ≠ .tooDeep

namespace Settles

variable {α β : Type} {n m : Nat} {x : GenDec α} {f : α → GenDec β}

theorem pure (a : α) : Settles n (pure a : GenDec α) := fun _ _ => Ends.pure (Nat.le_refl _)

theorem throw {e : Fault} (h : e ≠ .tooDeep) : Settles n (throw e : GenDec α) := fun _ _ =>
  Ends.throw h

theorem bind (hx : Settles n x) (hf : ∀ a, Settles n (f a)) : Settles n (x >>= f) := by
  intro b hb
  refine Ends.bind ((hx b hb).mono (fun a b' hle => ?_) fun _ _ h => h)
  exact (hf a b' (hle.trans hb)).mono (fun _ _ h => h.trans hle) fun _ _ h => h

theorem map (hx : Settles n x) (g : α → β) : Settles n (do return g (← x)) :=
  hx.bind fun _ => pure _

theorem mono (hx : Settles n x) (h : m ≤ n) : Settles m x := fun b hb => hx b (hb.trans h)

theorem many (hx : Settles n x) (count : Nat) : Settles n (Cursor.many count x) := by
  induction count with
  | zero => exact pure []
  | succ count ih => exact hx.bind fun a => ih.bind fun as => pure _

/-- A decoder of the runtime takes from the front, or throws an exception of its own. -/
theorem ends_lift {d : Dec α} {P : Bytes → α → Prop} (h : Takes Buffer.cut d P) (b : Buffer) :
    Ends (Dec.lift d) b (fun a b' => ∃ w, b.unread = w ++ b'.unread ∧ P w a)
      fun e _ => e ≠ .tooDeep := by
  cases hd : d.run b with
  | ok a b' =>
    have hrun := hd
    rw [b.eq_cut] at hrun
    obtain ⟨w, rest', hrest, rfl, hp⟩ := h _ _ _ _ hrun
    refine .of_ok (Dec.lift_run_ok_iff.mpr hd) ⟨w, ?_, hp⟩
    rw [hrest, Buffer.cut_unread]
  | error e b' =>
    have hrun : (Dec.lift d).run b = .error (.throws e) b' := by
      simp only [EStateM.run] at hd
      simp only [Dec.lift, EStateM.run, hd]
    exact .of_error hrun Fault.noConfusion

theorem lift {d : Dec α} {P : Bytes → α → Prop} (h : Takes Buffer.cut d P) :
    Settles n (Dec.lift d) := by
  intro b _
  refine (ends_lift h b).mono ?_ fun _ _ h => h
  rintro a b' ⟨w, hw, -⟩
  rw [hw, List.length_append]
  exact Nat.le_add_left _ _

/-- A count of four bytes, then as much from what is left. -/
theorem counted {f : UInt32 → GenDec β} (hf : ∀ c, 4 ≤ n → Settles (n - 4) (f c)) :
    Settles n (Dec.lift decodeU32 >>= f) := by
  intro b hb
  refine Ends.bind ((ends_lift takes_decodeU32 b).mono ?_ fun _ _ h => h)
  rintro c b' ⟨w, hw, rfl⟩
  have hlen := congrArg List.length hw
  rw [List.length_append, length_encodeU32] at hlen
  refine (hf c (by omega) b' (by omega)).mono (fun _ _ h => ?_) fun _ _ h => h
  omega

theorem decodePrim (p : PrimitiveType) : Settles n (decodePrim p) := by
  cases p with
  | bool =>
    have h : Takes Buffer.cut decodeBool fun _ _ => True :=
      .map (takes_decodeU8.mono fun _ _ _ => trivial)
    exact (lift h).map _
  | i8 => exact (lift takes_decodeI8).map _
  | i16 => exact (lift takes_decodeI16).map _
  | i32 => exact (lift takes_decodeI32).map _
  | i64 => exact (lift takes_decodeI64).map _
  | u8 => exact (lift takes_decodeU8).map _
  | u16 => exact (lift takes_decodeU16).map _
  | u32 => exact (lift takes_decodeU32).map _
  | u64 => exact (lift takes_decodeU64).map _
  | f32 => exact (lift takes_decodeU32).map _
  | f64 => exact (lift takes_decodeU64).map _
  | string => exact (lift takes_decodeString).map _
  | bytes => exact (lift takes_decodeBytes).map _
  | void => exact throw Fault.noConfusion

theorem decodeFields {field : Ty → GenDec Val} {fs : List Field}
    (h : ∀ f ∈ fs, Settles n (field f.type)) : Settles n (Compiler.decodeFields field fs) := by
  induction fs with
  | nil => exact pure []
  | cons f fs ih =>
    obtain ⟨hf, hfs⟩ := List.forall_mem_cons.mp h
    exact hf.bind fun v => (ih hfs).bind fun vs => pure _

end Settles

/-! ## How deep the calls nest -/

/-- The depth that a call needs besides that for the arrays: a struct's is by its number. -/
def ownDepth (ns : Namespace) (rank : StructDef → Nat) : Call → Nat
  | .user name =>
    match ns.userDef name with
    | some (.struct s) => rank s + 2
    | _ => 1
  | _ => 1

section
variable {ast : AST} {ns : Namespace} {rank : StructDef → Nat} {top : Nat}

theorem one_le_ownDepth (call : Call) : 1 ≤ ownDepth ns rank call := by
  unfold ownDepth
  split
  · split <;> omega
  · exact Nat.le_refl 1

theorem ownDepth_of_decodeElem {elem : CppType} {call : Call} (h : decodeElem elem = some call) :
    ownDepth ns rank call = 1 := by
  cases elem with
  | prim p => cases p <;> cases h <;> rfl
  | vector elem =>
    obtain ⟨inner, -, rfl⟩ := Option.map_eq_some_iff.mp h
    rfl
  | user _ => cases h
  | optional _ => cases h

theorem mem_structs (hns : ns ∈ ast.namespaces) {s : StructDef} (hs : s ∈ ns.structs) :
    s ∈ ast.structs := List.mem_flatMap.mpr ⟨ns, hns, hs⟩

/-- An array whose count has been read leaves depth for one more struct. -/
theorem depth_after_count {n depth : Nat} (h4 : 4 ≤ n) (h : n * (top + 2) + 1 ≤ depth + 1) :
    (n - 4) * (top + 2) + (top + 2) ≤ depth := by
  obtain ⟨m, rfl⟩ : ∃ m, n = m + 4 := ⟨n - 4, by omega⟩
  rw [Nat.add_mul] at h
  rw [Nat.add_sub_cancel]
  omega

variable (hrank : Ranked ast.structs rank) (hns : ns ∈ ast.namespaces)
include hrank hns

/-- The call for a field needs less than the struct's codec. -/
theorem ownDepth_field {s : StructDef} {f : Field} (hs : s ∈ ns.structs) (hf : f ∈ s.fields) :
    ownDepth ns rank (decodeCall f.type) ≤ rank s + 1 := by
  have hone : (1 : Nat) ≤ rank s + 1 := by omega
  unfold decodeCall
  by_cases ha : f.type.isArray = true
  · rw [if_pos ha]
    split <;> exact hone
  · rw [if_neg ha]
    by_cases ho : f.type.isOptional = true
    · rw [if_pos ho]
      exact hone
    · rw [if_neg ho]
      cases hb : f.type.base with
      | primitive p => exact hone
      | user name =>
        simp only [ownDepth]
        cases hd : ns.userDef name with
        | none => exact hone
        | some d =>
          cases d with
          | enum e => exact hone
          | struct t =>
            obtain ⟨ht, rfl⟩ := Namespace.mem_structs hd
            have := hrank s t ⟨mem_structs hns hs, mem_structs hns ht, f, hf, hb,
              Bool.not_eq_true _ ▸ ha, Bool.not_eq_true _ ▸ ho⟩
            show rank t + 2 ≤ rank s + 1
            omega

variable (htop : ∀ s ∈ ast.structs, rank s ≤ top)
include htop

omit hrank in
theorem ownDepth_le (call : Call) : ownDepth ns rank call ≤ top + 2 := by
  unfold ownDepth
  split
  · split
    · rename_i hd
      have := htop _ (mem_structs hns (Namespace.mem_structs hd).1)
      omega
    · omega
  · omega

/-- Each array that a call goes into has taken four bytes, which are worth the depth that the
greatest number asks for. -/
theorem settles_decodeVal {n depth : Nat} {call : Call}
    (hdepth : n * (top + 2) + ownDepth ns rank call ≤ depth) :
    Settles n (decodeVal ns depth call) := by
  induction depth generalizing n call with
  | zero =>
    have := @one_le_ownDepth ns rank call
    omega
  | succ depth ih =>
    cases call with
    | prim p => exact .decodePrim p
    | optional inner => exact .throw Fault.noConfusion
    | user name =>
      rw [decodeVal]
      cases hd : ns.userDef name with
      | none => exact .throw Fault.noConfusion
      | some d =>
        cases d with
        | enum e => exact .decodePrim _
        | struct s =>
          refine .map (.decodeFields fun f hf => ih ?_) _
          have := ownDepth_field hrank hns (Namespace.mem_structs hd).1 hf
          simp only [ownDepth, hd] at hdepth
          omega
    | userArray name =>
      rw [decodeVal, decodeUserArray]
      refine .counted fun c h4 => .map (.many (ih ?_) _) _
      have := ownDepth_le hns htop (.user name)
      have := depth_after_count h4 hdepth
      omega
    | template elem =>
      rw [decodeVal]
      cases he : decodeElem elem with
      | none => exact .throw Fault.noConfusion
      | some call =>
        have hcall := @ownDepth_of_decodeElem ns rank elem call he
        refine .counted fun c h4 => ?_
        have := depth_after_count h4 hdepth
        by_cases hmax : c.toNat > kMaxArrayCount
        · rw [if_pos hmax]
          exact .bind (.throw Fault.noConfusion) fun _ => .map (.many (ih (by omega)) _) _
        · rw [if_neg hmax]
          exact .map (.many (ih (by omega)) _) _

end

theorem decodeEnds_of_ranked {ast : AST} {ns : Namespace} {rank : StructDef → Nat}
    (hrank : Ranked ast.structs rank) (hns : ns ∈ ast.namespaces) (s : StructDef) :
    DecodeEnds ns s := by
  obtain ⟨top, htop⟩ := (ast.structs.map rank).finite_toSet.bddAbove
  have hle : ∀ s ∈ ast.structs, rank s ≤ top := fun s hs => htop (List.mem_map_of_mem hs)
  intro b
  refine ⟨b.unread.length * (top + 2) + ownDepth ns rank (.user s.name), fun n hn => ?_⟩
  have hsettles := settles_decodeVal hrank hns hle hn
  exact (hsettles b (Nat.le_refl _)).mono (fun _ _ _ => trivial) fun _ _ h => h

/-! ## Exactness -/

/-- Containment is acyclic, every struct has a finite value, and every decoder comes to an end; an
encoder follows the value that it is given. -/
structure ContainmentEnds (ast : AST) : Prop where
  acyclic : ∀ s, ¬ Relation.TransGen (Holds ast.structs) s s
  values : ∀ s ∈ ast.structs, ∃ v, IsValue ast.structs s v
  decodes : ∀ ns ∈ ast.namespaces, ∀ s ∈ ns.structs, DecodeEnds ns s

theorem nodup_structNames {ast : AST} (h : accepts ast = true) :
    (ast.structs.map StructDef.name).Nodup := by
  refine (nodup_typeNames h).sublist ?_
  rw [AST.structs, List.map_flatMap, List.map_flatMap]
  refine List.Sublist.flatMap_right _ fun ns _ => ?_
  have he : ns.structs.map StructDef.name =
      (ns.structs.map fun s => (⟨s.name, .structKind, s.loc, s.base⟩ : TypeInfo)).map
        TypeInfo.name := by
    rw [List.map_map]; rfl
  rw [he, Namespace.typeInfos]
  refine List.Sublist.map _ ?_
  exact ((((List.sublist_append_right _ _).trans (List.sublist_append_left _ _)).trans
    (List.sublist_append_left _ _))).trans (List.sublist_append_left _ _)

/-- In an accepted tree, values and codecs come to an end exactly when the structs can be numbered
so that each has a greater number than those it holds. -/
theorem containmentEnds_iff {ast : AST} (h : accepts ast = true) :
    ContainmentEnds ast ↔ ∃ rank, Ranked ast.structs rank := by
  have hrank : (∃ rank, Ranked ast.structs rank) ↔
      ∀ s, ¬ Relation.TransGen (Holds ast.structs) s s :=
    Links.exists_rank_iff fun s t (ht : Holds ast.structs s t) => ht.2.1
  refine ⟨fun hends => hrank.mpr hends.acyclic, fun hranked => ?_⟩
  obtain ⟨rank, hr⟩ := hranked
  exact ⟨hrank.mp ⟨rank, hr⟩, fun s hs => exists_value (nodup_structNames h) hr hs,
    fun ns hns s _ => decodeEnds_of_ranked hr hns s⟩

theorem containmentEnds_circle :
    ContainmentEnds ⟨[{ structs := [circle, shape] }]⟩ ↔
      ∃ rank, Ranked (AST.structs ⟨[{ structs := [circle, shape] }]⟩) rank :=
  containmentEnds_iff (by decide +kernel)

/-- `struct Link { Link next; }` -/
def link : StructDef where
  name := lit "Link"
  fields := [{ name := lit "next", type := { base := .user (lit "Link") } }]

/-- A struct that holds itself is accepted. -/
theorem not_containmentEnds_link : ¬ ∀ ast, accepts ast = true → ContainmentEnds ast := by
  intro h
  have hacc : accepts ⟨[{ structs := [link] }]⟩ = true := by decide +kernel
  refine (h _ hacc).acyclic link (.single ⟨List.mem_cons_self, List.mem_cons_self, ?_⟩)
  exact ⟨_, List.mem_cons_self, rfl, rfl, rfl⟩

end Song.Compiler
