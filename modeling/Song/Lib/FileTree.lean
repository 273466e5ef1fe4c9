import Mathlib.Data.List.Infix
import Song.Lib.Map

/-!
# A tree of files

Regular files and directories, by the names on the way to them from the root directory, which is
always there. A tree is well formed where everything in it lies in a directory; the operations that
put, remove and make what they should keep it so.
-/

namespace FileTree

variable {N F : Type}

inductive Node (F : Type) where
  | file (f : F)
  | directory
  deriving DecidableEq

def Node.isFile : Node F → Bool
  | .file _ => true
  | .directory => false

abbrev Tree (N F : Type) := Map (List N) (Node F)

variable [DecidableEq N]

def node (t : Tree N F) (names : List N) : Option (Node F) :=
  if names = [] then some .directory else t.lookup names

/-- What lies somewhere lies in a directory. -/
def WellFormed (t : Tree N F) : Prop :=
  ∀ names n, (node t (names ++ [n])).isSome → node t names = some .directory

def put (t : Tree N F) (names : List N) (f : F) : Tree N F := t.insert names (.file f)

def remove (t : Tree N F) (names : List N) : Tree N F := t.erase names

/-- Make the directories on the way that are missing; nothing is made where a file is on it. -/
def createDirectories (t : Tree N F) (names : List N) : Option (Tree N F) :=
  if names.inits.any fun ms => (node t ms).any Node.isFile then none
  else some (names.inits.foldl (fun t' ms => if (t'.lookup ms).isSome then t' else
    t'.insert ms .directory) t)

variable {t t' : Tree N F} {names ms : List N} {n : N} {f : F}

@[simp] theorem node_nil : node t [] = some .directory := rfl

theorem node_put (h : names ≠ []) :
    node (put t names f) ms = if ms = names then some (.file f) else node t ms := by
  unfold node put
  by_cases hm : ms = names
  · subst hm
    rw [if_neg h, if_pos rfl, AList.lookup_insert]
  · rw [if_neg hm, AList.lookup_insert_ne hm]

theorem node_remove (h : names ≠ []) :
    node (remove t names) ms = if ms = names then none else node t ms := by
  unfold node remove
  by_cases hm : ms = names
  · subst hm
    rw [if_neg h, if_pos rfl, AList.lookup_erase]
  · rw [if_neg hm, AList.lookup_erase_ne hm]

/-- Where the parent of a name is a directory and the name itself is none, a file can be put. -/
theorem WellFormed.put (h : WellFormed t) (hparent : node t names = some .directory)
    (hself : node t (names ++ [n]) ≠ some .directory) : WellFormed (put t (names ++ [n]) f) := by
  intro ks k hk
  have hne : names ++ [n] ≠ [] := List.concat_ne_nil _ _
  rw [node_put hne] at hk ⊢
  by_cases hks : ks = names ++ [n]
  · -- nothing lies in what is no directory
    rw [if_neg (by rw [hks]; simp)] at hk
    exact absurd (hks ▸ h ks k hk) hself
  · rw [if_neg hks]
    by_cases hkk : ks ++ [k] = names ++ [n]
    · obtain ⟨rfl, -⟩ := List.append_inj' hkk rfl
      exact hparent
    · rw [if_neg hkk] at hk
      exact h ks k hk

theorem WellFormed.remove (h : WellFormed t) (hfile : node t names = some (.file f)) :
    WellFormed (remove t names) := by
  have hne : names ≠ [] := by
    rintro rfl
    cases hfile
  intro ks k hk
  rw [node_remove hne] at hk ⊢
  by_cases hkk : ks ++ [k] = names
  · rw [if_pos hkk] at hk
    cases hk
  · rw [if_neg hkk] at hk
    have hdir := h ks k hk
    rw [if_neg (fun he => by rw [he, hfile] at hdir; cases hdir)]
    exact hdir

theorem lookup_makeAll (ks : List (List N)) (t : Tree N F) (ms : List N) :
    (ks.foldl (fun t' ms => if (t'.lookup ms).isSome then t' else t'.insert ms .directory)
      t).lookup ms = if ms ∈ ks ∧ t.lookup ms = none then some .directory else t.lookup ms := by
  induction ks generalizing t with
  | nil => simp
  | cons k ks ih =>
    rw [List.foldl_cons, ih]
    by_cases hk : (t.lookup k).isSome
    · rw [if_pos hk]
      by_cases hm : ms = k
      · subst hm
        have hsome : t.lookup ms ≠ none := by
          intro hnone
          rw [hnone] at hk
          cases hk
        rw [if_neg (fun hc => hsome hc.2), if_neg (fun hc => hsome hc.2)]
      · simp only [List.mem_cons, hm, false_or]
    · rw [if_neg hk]
      by_cases hm : ms = k
      · subst hm
        rw [Option.not_isSome_iff_eq_none] at hk
        simp [hk]
      · rw [AList.lookup_insert_ne hm]
        simp only [List.mem_cons, hm, false_or]

/-- The directories on the way are there, and everything else as before. -/
theorem node_createDirectories (h : createDirectories t names = some t') :
    node t' ms = if ms <+: names ∧ node t ms = none then some .directory else node t ms := by
  unfold createDirectories at h
  split at h
  · cases h
  · cases h
    unfold node
    by_cases hm : ms = []
    · rw [if_pos hm, if_pos hm, if_neg (by simp)]
    · rw [if_neg hm, if_neg hm, lookup_makeAll]
      simp only [List.mem_inits]

theorem createDirectories_directory (h : createDirectories t names = some t') (hm : ms <+: names) :
    node t' ms = some .directory := by
  rw [node_createDirectories h]
  cases hn : node t ms with
  | none => rw [if_pos ⟨hm, rfl⟩]
  | some x =>
    rw [if_neg (by simp)]
    unfold createDirectories at h
    split at h
    · cases h
    · next hnone =>
      cases x with
      | directory => rfl
      | file f =>
        rw [List.any_eq_true] at hnone
        exact absurd ⟨ms, (List.mem_inits _ _).mpr hm, by rw [hn]; rfl⟩ hnone

/-- Only directories are new. -/
theorem createDirectories_file (h : createDirectories t names = some t') :
    node t' ms = some (.file f) ↔ node t ms = some (.file f) := by
  rw [node_createDirectories h]
  split
  · next hm => rw [hm.2]; simp
  · exact Iff.rfl

theorem WellFormed.createDirectories (hwf : WellFormed t)
    (h : createDirectories t names = some t') : WellFormed t' := by
  intro ks k hk
  rw [node_createDirectories h] at hk
  split at hk
  · next hm => exact createDirectories_directory h ((List.prefix_append ks [k]).trans hm.1)
  · rw [node_createDirectories h, hwf ks k hk]
    simp

end FileTree
