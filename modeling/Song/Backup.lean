import Mathlib.Data.List.TakeWhile
import Song.Error

/-!
# The paths of the backup agent (`backup_service.cpp`)

`safe_resolve` decides about a request with the texts of two canonical paths. `Inside` says what
is asked for, of their components. What `weakly_canonical` makes of a path depends on the links of
the file system, so it is a parameter; where it throws, no path is returned.
-/

namespace Song.Backup

def separator : UInt8 := 47

/-- A normalized absolute path: the names behind the root directory, and whether a separator
stands behind the last of them. -/
structure CanonicalPath where
  names : List Str
  slash : Bool
  proper : ∀ n ∈ names, n ≠ [] ∧ separator ∉ n ∧ n ≠ lit "." ∧ n ≠ lit ".."
  root : names = [] → slash = true
  deriving DecidableEq

/-- The separators and the names. -/
def spell (names : List Str) : Str := names.flatMap (separator :: ·)

namespace CanonicalPath

/-- `path::string`. -/
def string (p : CanonicalPath) : Str := spell p.names ++ if p.slash then [separator] else []

/-- Strictly inside the directory. -/
def Inside (directory p : CanonicalPath) : Prop :=
  directory.names <+: p.names ∧ directory.names ≠ p.names

instance (directory p : CanonicalPath) : Decidable (directory.Inside p) :=
  inferInstanceAs (Decidable (_ ∧ _))

end CanonicalPath

/-- `root / rel`, for a relative path. -/
def append (root rel : Str) : Str :=
  if root.getLast?.all (· == separator) then root ++ rel else root ++ separator :: rel

/-- Refused before a path is resolved. -/
def refused (rel : Str) : Bool :=
  rel.isEmpty || rel.head? == some separator || (rel.splitOn separator).contains (lit "..")

/-- Validate and resolve a path safely within the root. -/
def safeResolve (weaklyCanonical : Str → CanonicalPath) (root rel : Str) : Option CanonicalPath :=
  if refused rel then none
  else
    let canonicalRoot := weaklyCanonical root
    let canonicalPath := weaklyCanonical (append root rel)
    let rootStr := canonicalRoot.string
    let pathStr := canonicalPath.string
    if pathStr.length ≤ rootStr.length || pathStr.take rootStr.length != rootStr then none
    else some canonicalPath

/-! ## Names and texts -/

/-- Two names in front of what cannot go on with a name. -/
theorem name_eq {n m s t : Str} (hn : separator ∉ n) (hm : separator ∉ m)
    (hs : s.head?.all (· == separator) = true) (ht : t.head?.all (· == separator) = true)
    (h : n ++ s = m ++ t) : n = m ∧ s = t := by
  have htake : ∀ {k u : Str}, separator ∉ k → u.head?.all (· == separator) = true →
      (k ++ u).takeWhile (· != separator) = k := by
    intro k u hk hu
    have hall : ∀ c ∈ k, (c != separator) = true := fun c hc => by
      rw [bne_iff_ne]
      rintro rfl
      exact hk hc
    rw [List.takeWhile_append_of_pos hall]
    cases u with
    | nil => rw [List.takeWhile_nil, List.append_nil]
    | cons c u => rw [List.takeWhile_cons_of_neg (by simpa using hu), List.append_nil]
  have hname : n = m := by rw [← htake hn hs, h, htake hm ht]
  subst hname
  exact ⟨rfl, List.append_cancel_left h⟩

theorem head_spell (names : List Str) (slash : Bool) :
    (spell names ++ if slash then [separator] else []).head?.all (· == separator) = true := by
  cases names with
  | cons n names => rfl
  | nil => cases slash <;> rfl

/-- Where a separator follows the names in a text, its names begin with them; something behind
the separator is one more name. -/
theorem prefix_of_spell {names names' : List Str} {slash : Bool} {s : Str}
    (hnames : ∀ n ∈ names, separator ∉ n) (hnames' : ∀ n ∈ names', separator ∉ n) (hs : s ≠ [])
    (h : spell names ++ separator :: s = spell names' ++ if slash then [separator] else []) :
    ∃ n ns, names' = names ++ n :: ns := by
  induction names generalizing names' with
  | nil =>
    cases names' with
    | cons n ns => exact ⟨n, ns, rfl⟩
    | nil =>
      cases slash <;> cases h
      exact absurd rfl hs
  | cons n names ih =>
    cases names' with
    | nil =>
      have hlength := congrArg List.length h
      cases slash <;> simp [spell] at hlength
    | cons m names' =>
      have hcons : ∀ (k : Str) (ks : List Str), spell (k :: ks) = separator :: (k ++ spell ks) :=
        fun k ks => rfl
      rw [hcons, hcons, List.cons_append, List.cons_append, List.append_assoc, List.append_assoc,
        List.cons.injEq] at h
      have hhead : (spell names ++ separator :: s).head?.all (· == separator) = true := by
        cases names <;> rfl
      obtain ⟨rfl, hrest⟩ := name_eq (hnames n List.mem_cons_self) (hnames' m List.mem_cons_self)
        hhead (head_spell names' slash) h.2
      obtain ⟨k, ks, rfl⟩ := ih (fun k hk => hnames k (List.mem_cons_of_mem _ hk))
        (fun k hk => hnames' k (List.mem_cons_of_mem _ hk)) hrest
      exact ⟨k, ks, rfl⟩

namespace CanonicalPath

variable {directory p : CanonicalPath}

theorem separator_notMem (p : CanonicalPath) : ∀ n ∈ p.names, separator ∉ n :=
  fun n hn => (p.proper n hn).2.1

/-- Only what stands behind the last name. -/
theorem getLast_string (p : CanonicalPath) :
    p.string.getLast? = some separator ↔ p.slash = true := by
  rw [string]
  cases hslash : p.slash with
  | true => simp
  | false =>
    refine iff_of_false (fun hlast => ?_) Bool.false_ne_true
    rw [if_neg Bool.false_ne_true, List.append_nil] at hlast
    rcases List.eq_nil_or_concat p.names with hnil | ⟨ns, n, hconcat⟩
    · rw [p.root hnil] at hslash
      cases hslash
    · rw [List.concat_eq_append] at hconcat
      have hmem : n ∈ p.names := by
        rw [hconcat]
        exact List.mem_append_right _ List.mem_cons_self
      obtain ⟨hne, hsep, -⟩ := p.proper n hmem
      have htext : spell p.names = (spell ns ++ [separator]) ++ n := by
        rw [hconcat, spell, List.flatMap_append, List.append_assoc]
        simp [spell]
      rw [htext, List.getLast?_append_of_ne_nil _ hne] at hlast
      exact hsep (List.mem_of_getLast? hlast)

/-- Of a text that goes on behind the directory's. -/
theorem inside_iff {s : Str} (hs : s ≠ []) (h : p.string = directory.string ++ s) :
    directory.Inside p ↔ directory.string.getLast? = some separator ∨
      ∃ s', s' ≠ [] ∧ s = separator :: s' := by
  have hinside : ∀ s', s' ≠ [] → spell directory.names ++ separator :: s' = p.string →
      directory.Inside p := by
    intro s' hs' htext
    obtain ⟨n, ns, hnames⟩ :=
      prefix_of_spell directory.separator_notMem p.separator_notMem hs' htext
    refine ⟨⟨n :: ns, hnames.symm⟩, fun heq => ?_⟩
    rw [← heq] at hnames
    exact List.cons_ne_nil n ns (List.self_eq_append_right.mp hnames)
  rw [getLast_string]
  cases hslash : directory.slash with
  | true =>
    refine iff_of_true (hinside s hs ?_) (.inl rfl)
    rw [h, string, hslash, if_pos rfl, List.append_assoc]
    rfl
  | false =>
    rw [string.eq_1 directory, hslash, if_neg Bool.false_ne_true, List.append_nil] at h
    constructor
    · rintro ⟨⟨t, ht⟩, hne⟩
      cases t with
      | nil => exact absurd (by rw [← ht, List.append_nil]) hne
      | cons n ns =>
        have hn := (p.proper n (by rw [← ht]; exact List.mem_append_right _ List.mem_cons_self)).1
        have htext : p.string = spell directory.names ++
            separator :: (n ++ (spell ns ++ if p.slash then [separator] else [])) := by
          rw [string, ← ht, spell, List.flatMap_append, List.append_assoc]
          simp [spell]
        have hs' := List.append_cancel_left (h.symm.trans htext)
        exact .inr ⟨_, List.append_ne_nil_of_left_ne_nil hn _, hs'⟩
    · rintro (hfalse | ⟨s', hs', rfl⟩)
      · cases hfalse
      · exact hinside s' hs' h.symm

end CanonicalPath

/-! ## Where the agent's paths lie -/

theorem safeResolve_eq_some_iff {weaklyCanonical : Str → CanonicalPath} {root rel : Str}
    {p : CanonicalPath} : safeResolve weaklyCanonical root rel = some p ↔
      refused rel = false ∧ p = weaklyCanonical (append root rel) ∧
        ∃ s, s ≠ [] ∧ p.string = (weaklyCanonical root).string ++ s := by
  have hpasses : ∀ path directory : Str, (path.length ≤ directory.length ||
      path.take directory.length != directory) = false ↔
        ∃ s, s ≠ [] ∧ path = directory ++ s := by
    intro path directory
    rw [Bool.or_eq_false_iff, decide_eq_false_iff_not, bne_eq_false_iff_eq, Nat.not_le]
    constructor
    · rintro ⟨hlonger, htake⟩
      refine ⟨path.drop directory.length, ?_, ?_⟩
      · rw [← List.length_pos_iff, List.length_drop]
        omega
      · conv_lhs => rw [← List.take_append_drop directory.length path, htake]
    · rintro ⟨s, hs, rfl⟩
      rw [List.length_append, List.take_left]
      exact ⟨Nat.lt_add_of_pos_right (List.length_pos_iff.mpr hs), rfl⟩
  rw [safeResolve]
  cases hrefused : refused rel with
  | true => simp
  | false =>
    dsimp only
    rw [if_neg Bool.false_ne_true]
    split
    · next hbad =>
      refine iff_of_false (fun h => by cases h) ?_
      rintro ⟨-, rfl, hs⟩
      rw [(hpasses _ _).mpr hs] at hbad
      cases hbad
    · next hgood =>
      have hs := (hpasses _ _).mp (Bool.eq_false_iff.mpr hgood)
      constructor
      · intro h
        cases h
        exact ⟨rfl, rfl, hs⟩
      · rintro ⟨-, rfl, -⟩
        rfl

/-- What is returned is strictly inside the root directory exactly when no name goes on where the
text of the root ends. -/
theorem safeResolve_inside_iff (weaklyCanonical : Str → CanonicalPath) (root rel : Str) :
    (∀ p, safeResolve weaklyCanonical root rel = some p → (weaklyCanonical root).Inside p) ↔
      ∀ s, refused rel = false → s ≠ [] →
        (weaklyCanonical (append root rel)).string = (weaklyCanonical root).string ++ s →
        (weaklyCanonical root).string.getLast? = some separator ∨
          ∃ s', s' ≠ [] ∧ s = separator :: s' := by
  constructor
  · intro h s hrefused hs htext
    exact (CanonicalPath.inside_iff hs htext).mp
      (h _ (safeResolve_eq_some_iff.mpr ⟨hrefused, rfl, s, hs, htext⟩))
  · intro h p hp
    obtain ⟨hrefused, rfl, s, hs, htext⟩ := safeResolve_eq_some_iff.mp hp
    exact (CanonicalPath.inside_iff hs htext).mpr (h s hrefused hs htext)

/-- The root directory is `/r`, and `/r/x` is a link to `/r2`. -/
def linked (text : Str) : CanonicalPath :=
  if text = lit "/r/x/f" then ⟨[lit "r2", lit "f"], false, by decide, by decide⟩
  else ⟨[lit "r"], false, by decide, by decide⟩

/-- A file in a directory beside the root, whose name begins with the root's. -/
theorem safeResolve_beside :
    ¬ ∀ p, safeResolve linked (lit "/r") (lit "x/f") = some p →
      (linked (lit "/r")).Inside p := by
  intro h
  exact absurd (h ⟨[lit "r2", lit "f"], false, by decide, by decide⟩ (by decide)) (by decide)

end Song.Backup
