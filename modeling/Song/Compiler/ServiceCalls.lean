import Song.Compiler.ServiceCode
import Song.Compiler.ClassCalls

/-!
# Calls of a service through its proxy

What the dispatcher does with a proxy's request, told on the implementation's own methods and
values: the method that was called runs on the arguments the proxy was given.
-/

namespace Song.Compiler

variable {σ : Type} {s : ServiceDef} {layout : Cpp.Layout} {ns : Namespace} {depth : Nat}
  {m : Method} {pos : Nat} {args : List Val}

/-- Of two elements with a property that one element has, none is the other. -/
theorem index_unique_of_count {α : Type} {p : α → Bool} {xs : List α} {i j : Nat} {a b : α}
    (hcount : xs.countP p = 1) (hi : xs[i]? = some a) (ha : p a = true) (hj : xs[j]? = some b)
    (hb : p b = true) : i = j := by
  induction xs generalizing i j with
  | nil => cases hi
  | cons x xs ih =>
    rw [List.countP_cons] at hcount
    have hnone : ∀ {k : Nat} {c : α}, p x = true → xs[k]? = some c → p c = true → False := by
      intro k c hx hk hc
      rw [if_pos hx] at hcount
      exact List.countP_eq_zero.mp (Nat.succ.inj hcount) c (List.mem_of_getElem? hk) hc
    cases i with
    | zero =>
      cases j with
      | zero => rfl
      | succ j =>
        cases hi
        exact (hnone ha hj hb).elim
    | succ i =>
      cases j with
      | zero =>
        cases hj
        exact (hnone hb hi ha).elim
      | succ j =>
        have hx : ¬ p x = true := fun hx => hnone hx hi ha
        rw [if_neg hx] at hcount
        rw [ih hcount hi hj]

namespace ServiceDef

/-- The methods' types have codecs. -/
structure Supported (s : ServiceDef) (ns : Namespace) : Prop where
  params : ∀ m ∈ s.methods, ∀ p ∈ m.params, Compilable ns p.type
  results : ∀ m ∈ s.methods, ¬ m.isVoid → Compilable ns m.returnType

/-- A method has its ids, and under its own the `case` of the switch. -/
theorem IsProgram.case (h : s.IsProgram layout ns) (hm : s.methods[pos]? = some m) :
    ∃ serviceId methodId, s.serviceId layout ns m.isStream = some serviceId ∧
      s.methodId layout ns m = some methodId ∧
      s.methodCase layout ns m.isStream methodId = some (m, pos) := by
  obtain ⟨⟨serviceId, methodId⟩, hpair⟩ :=
    Option.isSome_iff_exists.mp (h m (List.mem_of_getElem? hm))
  obtain ⟨hservice, hmethod, hcount⟩ := Cpp.dispatchPair_eq_some_iff.mp hpair
  refine ⟨serviceId, methodId, hservice, hmethod, ?_⟩
  rw [Cpp.caseLabels, List.count_eq_countP, List.countP_map, List.countP_filter] at hcount
  refine List.find?_eq_some_of_unique (List.mk_mem_zipIdx_iff_getElem?.mpr hm)
    (decide_eq_true ⟨rfl, hmethod⟩) ?_
  rintro ⟨m', j⟩ hmem hlabel
  have hj := List.mk_mem_zipIdx_iff_getElem?.mp hmem
  obtain ⟨hstream, hid⟩ := of_decide_eq_true hlabel
  have hij := index_unique_of_count hcount hm (by simp [hmethod]) hj (by
    have hid' : Cpp.value layout ns (Cpp.kMethod s.name m'.name) = some methodId := hid
    have hstream' : m'.isStream = m.isStream := hstream
    simp [hstream', hid'])
  subst hij
  cases hm.symm.trans hj
  rfl

/-- What a proxy's method sends has the dispatcher run the method on its arguments. -/
theorem IsProgram.dispatch_request (impl : ServiceImpl σ) (h : s.IsProgram layout ns)
    (hsup : s.Supported ns) (hm : s.methods[pos]? = some m)
    (hfit : FitsAll ns depth m.params args) :
    ∃ serviceId methodId w, s.request layout ns m args = .ok (serviceId, methodId, w) ∧
      s.serviceId layout ns m.isStream = some serviceId ∧
      (m.isStream = false → ∀ pre user,
        s.dispatch layout ns depth impl methodId (.cut pre w) user =
          serve ns impl m pos args user) ∧
      (m.isStream = true → ∀ pre user,
        s.dispatchStream layout ns depth impl methodId (.cut pre w) user =
          impl.stream pos args user) := by
  obtain ⟨serviceId, methodId, hservice, hmethod, hcase⟩ := h.case hm
  obtain ⟨w, hw, hread⟩ := hfit.args (hsup.params m (List.mem_of_getElem? hm))
  refine ⟨serviceId, methodId, w, ?_, hservice, fun hstream pre user => ?_,
    fun hstream pre user => ?_⟩
  · rw [request, hw, hservice, hmethod]
    rfl
  · rw [hstream] at hcase
    rw [dispatch, hcase]
    dsimp only
    rw [hread]
  · rw [hstream] at hcase
    rw [dispatchStream, hcase]
    dsimp only
    rw [hread]

/-- A value that was encoded for the response is the one that the proxy reads. -/
theorem valueOf_encoded {v : Val} {w : Bytes} (hw : Carries ns depth m.returnType v w) :
    valueOf ns depth m w = .ok v := by
  have hread := hw.2 []
  rw [valueOf, Buffer.ofBytes_eq_cut, hread]

end ServiceDef

end Song.Compiler
