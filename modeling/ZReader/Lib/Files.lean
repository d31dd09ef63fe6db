import Mathlib

namespace Lib.Files

/-! ## Trees of files and directories -/

inductive Node (B : Type)
  | file (content : List B)
  | dir
  deriving DecidableEq

/-- A map from paths to files and directories, for names `N` and content made of `B`. Only a
directory has something below it. -/
structure FileSystem (N B : Type) where
  node : List N → Option (Node B)
  /-- A list of paths that misses none of those in use. -/
  paths : List (List N)
  listed : ∀ p, node p ≠ none → p ∈ paths
  root : node [] = some .dir
  parent : ∀ p name, node (p ++ [name]) ≠ none → node p = some .dir

namespace FileSystem

variable {N B : Type} [DecidableEq N] {fs : FileSystem N B} {p q : List N}

def empty : FileSystem N B where
  node p := if p = [] then some .dir else none
  paths := [[]]
  listed := by simp
  root := by simp
  parent := by simp

omit [DecidableEq N] in
theorem parent_of_append (fs : FileSystem N B) {p k : List N} (hk : k ≠ [])
    (h : fs.node (p ++ k) ≠ none) : fs.node p = some .dir := by
  induction k using List.reverseRecOn with
  | nil => exact absurd rfl hk
  | append_singleton k name ih =>
      have hdir := fs.parent (p ++ k) name (by rwa [List.append_assoc])
      cases k with
      | nil => rwa [List.append_nil] at hdir
      | cons c k => exact ih (List.cons_ne_nil c k) (by simp [hdir])

omit [DecidableEq N] in
theorem parent_of_prefix (fs : FileSystem N B) {p q : List N} (hpq : p <+: q) (hne : p ≠ q)
    (h : fs.node q ≠ none) : fs.node p = some .dir := by
  obtain ⟨k, rfl⟩ := hpq
  exact fs.parent_of_append (by rintro rfl; simp at hne) h

omit [DecidableEq N] in
/-- Below what is no directory there is nothing. -/
theorem none_below (fs : FileSystem N B) (hp : fs.node p ≠ some .dir) (hpq : p <+: q) (hne : p ≠ q) :
    fs.node q = none := by
  by_contra h
  exact hp (fs.parent_of_prefix hpq hne h)

/-! ## Changes -/

/-- There is a directory to hold the path, and no directory in its place. -/
def CanPut (fs : FileSystem N B) (p : List N) : Prop :=
  p ≠ [] ∧ fs.node p.dropLast = some .dir ∧ fs.node p ≠ some .dir

instance [DecidableEq B] (fs : FileSystem N B) (p : List N) : Decidable (fs.CanPut p) :=
  inferInstanceAs (Decidable (_ ∧ _))

def put (fs : FileSystem N B) (p : List N) (n : Node B) (h : fs.CanPut p) : FileSystem N B where
  node := Function.update fs.node p (some n)
  paths := p :: fs.paths
  listed := by
    intro q hq
    by_cases hqp : q = p
    · exact hqp ▸ List.mem_cons_self
    · rw [Function.update_of_ne hqp] at hq
      exact List.mem_cons_of_mem _ (fs.listed q hq)
  root := by rw [Function.update_of_ne (Ne.symm h.1), fs.root]
  parent := by
    intro q name hq
    by_cases hqp : q ++ [name] = p
    · rw [Function.update_of_ne (by rintro rfl; simp at hqp), ← h.2.1, ← hqp, List.dropLast_concat]
    · rw [Function.update_of_ne hqp] at hq
      have hdir := fs.parent q name hq
      rw [Function.update_of_ne (by rintro rfl; exact h.2.2 hdir), hdir]

/-- The path is taken away with all that is below it. -/
def removeAll (fs : FileSystem N B) (p : List N) : FileSystem N B :=
  if hp : p = [] then fs
  else
    { node := fun q => if p <+: q then none else fs.node q
      paths := fs.paths
      listed := by
        intro q hq
        split at hq
        · exact absurd rfl hq
        · exact fs.listed q hq
      root := by rw [if_neg (by simpa using hp), fs.root]
      parent := by
        intro q name hq
        split at hq
        · exact absurd rfl hq
        · next hnot =>
          rw [if_neg (fun hpre => hnot (hpre.trans (List.prefix_append q [name])))]
          exact fs.parent q name hq }

/-- The name of the last step from `p` to a path. -/
def childName (p q : List N) : Option N := if q.dropLast = p then q.getLast? else none

def children [LE N] [DecidableLE N] (fs : FileSystem N B) (p : List N) : List N :=
  ((fs.paths.filterMap (childName p)).filter fun name => (fs.node (p ++ [name])).isSome).dedup.insertionSort
    (· ≤ ·)

/-- A file or an empty directory is taken away. -/
def remove [LE N] [DecidableLE N] (fs : FileSystem N B) (p : List N) : FileSystem N B :=
  if fs.children p = [] then fs.removeAll p else fs

/-- `p` is in use and can take the place of `q`: no directory is moved into itself, and at
most a file makes way for a file. -/
def CanRename (fs : FileSystem N B) (p q : List N) : Prop :=
  p ≠ [] ∧ fs.node p ≠ none ∧ ¬ p <+: q ∧ q ≠ [] ∧ fs.node q.dropLast = some .dir ∧
    (fs.node q = none ∨ fs.node p ≠ some .dir ∧ fs.node q ≠ some .dir)

instance [DecidableEq B] (fs : FileSystem N B) (p q : List N) : Decidable (fs.CanRename p q) :=
  inferInstanceAs (Decidable (_ ∧ _))

/-- The paths below `q` are those that were below `p`. -/
def moved (node : List N → Option (Node B)) (p q k : List N) : Option (Node B) :=
  if q <+: k then node (p ++ k.drop q.length) else if p <+: k then none else node k

theorem moved_below (node : List N → Option (Node B)) (p q k : List N) :
    moved node p q (q ++ k) = node (p ++ k) := by
  rw [moved, if_pos (List.prefix_append q k), List.drop_left]

theorem moved_source (node : List N → Option (Node B)) {p q k : List N} (hq : ¬ q <+: k)
    (hp : p <+: k) : moved node p q k = none := by
  rw [moved, if_neg hq, if_pos hp]

theorem moved_other (node : List N → Option (Node B)) {p q k : List N} (hq : ¬ q <+: k)
    (hp : ¬ p <+: k) : moved node p q k = node k := by
  rw [moved, if_neg hq, if_neg hp]

def rename (fs : FileSystem N B) (p q : List N) (h : fs.CanRename p q) : FileSystem N B where
  node := moved fs.node p q
  paths := fs.paths ++ fs.paths.map fun k => q ++ k.drop p.length
  listed := by
    intro k hk
    by_cases hqk : q <+: k
    · obtain ⟨r, rfl⟩ := hqk
      rw [moved_below] at hk
      apply List.mem_append_right
      exact List.mem_map.mpr ⟨_, fs.listed _ hk, by rw [List.drop_left]⟩
    · by_cases hpk : p <+: k
      · rw [moved_source _ hqk hpk] at hk
        exact absurd rfl hk
      · rw [moved_other _ hqk hpk] at hk
        exact List.mem_append_left _ (fs.listed k hk)
  root := by
    rw [moved_other _ (by simpa using h.2.2.2.1) (by simpa using h.1), fs.root]
  parent := by
    obtain ⟨-, -, hpq, hq, hdir, -⟩ := h
    intro k name hk
    by_cases hqk : q <+: k
    · obtain ⟨r, rfl⟩ := hqk
      rw [List.append_assoc, moved_below] at hk
      rw [moved_below]
      exact fs.parent (p ++ r) name (by rwa [List.append_assoc])
    · by_cases hlast : q = k ++ [name]
      · subst hlast
        rw [List.dropLast_concat] at hdir
        rw [moved_other _ hqk (fun hpk => hpq (hpk.trans (List.prefix_append k [name]))), hdir]
      · have hqk' : ¬ q <+: k ++ [name] := by
          intro hpre
          rcases List.prefix_concat_iff.mp hpre with heq | hpre
          · exact hlast heq
          · exact hqk hpre
        by_cases hpk : p <+: k ++ [name]
        · rw [moved_source _ hqk' hpk] at hk
          exact absurd rfl hk
        · rw [moved_other _ hqk' hpk] at hk
          rw [moved_other _ hqk (fun hpre => hpk (hpre.trans (List.prefix_append k [name])))]
          exact fs.parent k name hk

/-! ## What they leave -/

@[simp] theorem put_node (fs : FileSystem N B) (p : List N) (n : Node B) (h : fs.CanPut p) :
    (fs.put p n h).node = Function.update fs.node p (some n) := rfl

@[simp] theorem rename_node (fs : FileSystem N B) (p q : List N) (h : fs.CanRename p q) :
    (fs.rename p q h).node = moved fs.node p q := rfl

theorem removeAll_node (fs : FileSystem N B) (hp : p ≠ []) (q : List N) :
    (fs.removeAll p).node q = if p <+: q then none else fs.node q := by
  rw [removeAll, dif_neg hp]

theorem childName_eq_some {name : N} : childName p q = some name ↔ q = p ++ [name] := by
  rw [childName]
  constructor
  · intro h
    split at h
    · next hp =>
      rw [← hp]
      exact (List.dropLast_append_getLast? name h).symm
    · cases h
  · rintro rfl
    rw [List.dropLast_concat, if_pos rfl, List.getLast?_concat]

section Children

variable [LE N] [DecidableLE N]

theorem mem_children {name : N} : name ∈ fs.children p ↔ fs.node (p ++ [name]) ≠ none := by
  rw [children, List.mem_insertionSort, List.mem_dedup, List.mem_filter, List.mem_filterMap,
    Option.isSome_iff_ne_none]
  constructor
  · exact And.right
  · intro h
    exact ⟨⟨p ++ [name], fs.listed _ h, childName_eq_some.mpr rfl⟩, h⟩

theorem nodup_children : (fs.children p).Nodup := by
  rw [children]
  exact (List.perm_insertionSort _ _).nodup_iff.mpr (List.nodup_dedup _)

theorem remove_of_not_dir (hp : fs.node p ≠ some .dir) : fs.remove p = fs.removeAll p := by
  rw [remove, if_pos]
  rw [List.eq_nil_iff_forall_not_mem]
  intro name hname
  exact hp (fs.parent p name (mem_children.mp hname))

end Children

end FileSystem

end Lib.Files
