import Mathlib.Data.List.AList

/-!
# Finite maps

`Map κ v` is Mathlib's `AList` at a constant value type: an association list
whose keys are distinct by construction.
-/

abbrev Map (κ v : Type) := AList fun _ : κ => v

namespace Map

variable {κ v : Type}

/-- The keys whose values satisfy `p`. -/
def filter (m : Map κ v) (p : v → Bool) : Map κ v :=
  ⟨m.entries.filter fun e => p e.2, m.nodupKeys.sublist List.filter_sublist⟩

theorem lookup_filter [DecidableEq κ] (m : Map κ v) (p : v → Bool) (k : κ) :
    (m.filter p).lookup k = (m.lookup k).filter p := by
  refine Option.ext fun x => ?_
  rw [← Option.mem_def, AList.mem_lookup_iff, filter, List.mem_filter, ← AList.mem_lookup_iff,
    Option.filter_eq_some_iff, Option.mem_def]

/-- Maps with the same values at the same keys have the same entries. -/
theorem perm_of_lookup [DecidableEq κ] {m m' : Map κ v} (h : ∀ k, m.lookup k = m'.lookup k) :
    m.entries.Perm m'.entries :=
  List.lookup_ext m.nodupKeys m'.nodupKeys fun k x => by
    show x ∈ m.lookup k ↔ x ∈ m'.lookup k
    rw [h]

end Map
