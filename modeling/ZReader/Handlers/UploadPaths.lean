import ZReader.Backup.Archive
import ZReader.Lib.Containment
import ZReader.Lib.Strings

namespace ZReader.Handlers

open Lib.Utf8 Lib.LexicalPath Backup
open Lib.Strings (trimSpace)
open Storage (ascii)

/-! ## Paths of uploads -/

inductive PathError
  | text (message : String)
  /-- An error of the working directory or of `Rel`. -/
  | system
  deriving DecidableEq

def resolveUploadPath (workingDirectory : Option Bytes) (uploadDir name : Bytes) :
    Except PathError Bytes :=
  if trimSpace name = [] then .error (.text "empty upload path")
  else
    match Abs workingDirectory uploadDir with
    | none => .error .system
    | some uploadDirAbs =>
        match Abs workingDirectory (Join uploadDirAbs name) with
        | none => .error .system
        | some resolved =>
            match Rel uploadDirAbs resolved with
            | none => .error .system
            | some rel =>
                if rel = dotDot ∨ (dotDot ++ [slash]) <+: rel ∨ isAbs rel then
                  .error (.text "upload path escapes base directory")
                else .ok resolved

/-! ## Where a path leads -/

/-- One step from a directory, given by the names from the root on. -/
def enter (directory : List Bytes) (part : Bytes) : List Bytes :=
  if part = [] ∨ part = dot then directory
  else if part = dotDot then directory.dropLast
  else directory ++ [part]

/-- The place that a path names, seen from a directory. -/
def locate (directory : List Bytes) (path : Bytes) : List Bytes :=
  (path.splitOn slash).foldl enter directory

/-- A path below another one. -/
def Below (base target : Bytes) : Prop :=
  isAbs target = isAbs base ∧ ∃ rest, rest ≠ [] ∧ dotDot ∉ rest ∧
    cleanParts target = cleanParts base ++ rest

/-- A path that leaves its base upwards and comes back through the last names of the base. From
the root no step leads up. -/
def Reenters (base path : Bytes) : Prop :=
  ∃ k names rest, 0 < k ∧ rest ≠ [] ∧ dotDot ∉ names ++ rest ∧
    names = (cleanParts base).drop ((cleanParts base).length - k) ∧
    (isAbs base = true ∨ k ≤ (cleanParts base).length) ∧
    cleanParts path = List.replicate k dotDot ++ (names ++ rest)

/-! ## Uploads -/

/-- From the root, the parts of a path are put together as the path leads. -/
theorem resolve_rooted {directory parts : List Bytes} (h : Normal true directory)
    (hparts : ∀ part ∈ parts, slash ∉ part) :
    resolve true directory parts = parts.foldl enter directory := by
  induction parts generalizing directory with
  | nil => rw [resolve, List.foldl_nil, List.foldl_nil, List.reverse_reverse]
  | cons part parts ih =>
      have hone : resolve true directory [part] = enter directory part := by
        rw [enter]
        obtain hskip | rfl | hname := part_cases part
        · rw [resolve_skip true _ hskip, if_pos hskip]
        · rw [if_neg (by decide), if_pos rfl]
          rcases List.eq_nil_or_concat directory with rfl | ⟨front, name, rfl⟩
          · rfl
          · rw [List.concat_eq_append] at h ⊢
            rw [resolve_name_up true front (h.name (by simp)), List.dropLast_concat]
        · rw [resolve_name true _ hname, if_neg (by tauto), if_neg hname.2.2]
      have hnormal : Normal true (resolve true directory [part]) := by
        rw [resolve]
        exact foldl_cleanStep_normal (by rwa [List.reverse_reverse]) fun p hp =>
          hparts p (by simp [List.mem_singleton.mp hp])
      rw [← List.singleton_append, resolve_append, ih hnormal fun p hp =>
        hparts p (List.mem_cons_of_mem part hp), hone]
      rfl

theorem cleanParts_rooted {path : Bytes} (h : isAbs path = true) : cleanParts path = locate [] path := by
  rw [cleanParts_eq, h, locate]
  exact resolve_rooted ⟨0, [], rfl, by simp, fun _ => rfl⟩ fun _ => slash_not_mem_of_mem_splitOn

theorem Join_rooted {base : Bytes} (name : Bytes) (h : isAbs base = true) :
    isAbs (Join base name) = true ∧ cleanParts (Join base name) = locate (locate [] base) name := by
  have hne : base ≠ [] := by
    rintro rfl
    cases h
  obtain ⟨habs, hparts⟩ := Join_parts (b := name) (.inl hne)
  have hnormal : Normal true (cleanParts base) := h ▸ cleanParts_normal base
  rw [habs, hparts, h, resolve_rooted hnormal fun _ => slash_not_mem_of_mem_splitOn,
    cleanParts_rooted h]
  exact ⟨rfl, rfl⟩

/-- What `resolveUploadPath` does with a rooted directory. -/
theorem resolveUploadPath_rooted (workingDirectory : Option Bytes) {uploadDir : Bytes} (name : Bytes)
    (h : isAbs uploadDir = true) :
    resolveUploadPath workingDirectory uploadDir name =
      if trimSpace name = [] then .error (.text "empty upload path")
      else if locate [] uploadDir <+: locate (locate [] uploadDir) name then
        .ok (render true (locate (locate [] uploadDir) name))
      else .error (.text "upload path escapes base directory") := by
  have hclean : isAbs (Clean uploadDir) = true := (isAbs_Clean uploadDir).trans h
  have hlocate : locate [] (Clean uploadDir) = locate [] uploadDir := by
    rw [← cleanParts_rooted hclean, cleanParts_Clean, cleanParts_rooted h]
  obtain ⟨hjoin, hparts⟩ := Join_rooted name hclean
  rw [hlocate] at hparts
  obtain ⟨rel, hrel, hrelative, hclimbs⟩ := Rel_rooted hclean ((isAbs_Clean _).trans hjoin)
  rw [cleanParts_Clean, cleanParts_Clean, cleanParts_rooted h, hparts] at hclimbs
  have hresolved : Clean (Join (Clean uploadDir) name) =
      render true (locate (locate [] uploadDir) name) := by rw [Clean, hjoin, hparts]
  have hescape : (rel = dotDot ∨ (dotDot ++ [slash]) <+: rel ∨ isAbs rel = true) ↔
      ¬ locate [] uploadDir <+: locate (locate [] uploadDir) name := by
    rw [← or_assoc, hrelative]
    simpa using hclimbs
  rw [hresolved] at hrel
  rw [resolveUploadPath, Abs, if_pos h]
  simp only [Abs, if_pos hjoin, hresolved, hrel, hescape, ite_not]

/-! ## Packages -/

/-- The test on the cleaned text. -/
theorem safeRelativePath_text (path : Bytes) :
    safeRelativePath path =
      if path = [] ∨ isAbs path then false
      else Clean path ≠ dot && Clean path ≠ dotDot && !(dotDot ++ [slash]).isPrefixOf (Clean path) := by
  rw [safeRelativePath]
  split_ifs with h
  · rfl
  · have habs : isAbs path = false := by
      simp only [not_or, Bool.not_eq_true] at h
      exact h.2
    have hdot := Clean_eq_dot_iff habs
    have hclimbs := Clean_climbs_iff habs
    rw [Bool.eq_iff_iff]
    simp only [Bool.and_eq_true, decide_eq_true_eq, Bool.not_eq_true', ← Bool.not_eq_true,
      List.isPrefixOf_iff_prefix, ne_eq, hdot, ← hclimbs, not_or]
    tauto

/-- Steps up take back names. -/
theorem resolve_names_up (rooted : Bool) (base : List Bytes) {names : List Bytes}
    (h : ∀ name ∈ names, IsName name) :
    resolve rooted (base ++ names) (List.replicate names.length dotDot) = base := by
  induction names using List.reverseRecOn with
  | nil => simp [resolve]
  | append_singleton names name ih =>
      rw [List.length_append, List.length_singleton, Nat.add_comm, List.replicate_add, resolve_append,
        ← List.append_assoc, List.replicate_one, resolve_name_up rooted _ (h name (by simp))]
      exact ih fun n hn => h n (List.mem_append_left _ hn)

theorem resolve_root_up (k : Nat) : resolve true [] (List.replicate k dotDot) = [] := by
  induction k with
  | zero => rfl
  | succ k ih => rw [List.replicate_succ', resolve_append, ih]; rfl

theorem resolve_up_up (j k : Nat) :
    resolve false (List.replicate j dotDot) (List.replicate k dotDot) =
      List.replicate (j + k) dotDot := by
  induction k with
  | zero => simp [resolve]
  | succ k ih =>
      rw [List.replicate_succ', resolve_append, ih, resolve_ups, ← List.replicate_succ', Nat.add_assoc]

theorem Join_relative (base : Bytes) {path : Bytes} (h : isAbs path = false) :
    isAbs (Join base path) = isAbs base ∧
      cleanParts (Join base path) = resolve (isAbs base) (cleanParts base) (cleanParts path) := by
  obtain ⟨habs, hparts⟩ := Join_parts (a := base) (.inr h)
  have hclean := resolve_clean (isAbs base) (cleanParts base)
    (fun part (hpart : part ∈ path.splitOn slash) => slash_not_mem_of_mem_splitOn hpart)
  rw [cleanParts_eq path, h, hclean]
  exact ⟨habs, hparts⟩

theorem not_mem_of_names {names : List Bytes} (h : ∀ name ∈ names, IsName name) : dotDot ∉ names :=
  fun hmem => (h _ hmem).2.2.1 rfl

theorem ups_unique {k m : Nat} {a b : List Bytes} (ha : dotDot ∉ a) (hb : dotDot ∉ b)
    (h : List.replicate k dotDot ++ a = List.replicate m dotDot ++ b) : k = m ∧ a = b := by
  induction k generalizing m with
  | zero =>
      cases m with
      | zero => exact ⟨rfl, h⟩
      | succ m => exact absurd (by rw [show a = _ from h, List.replicate_succ]; simp) ha
  | succ k ih =>
      cases m with
      | zero => exact absurd (by rw [← show _ = b from h, List.replicate_succ]; simp) hb
      | succ m =>
          rw [List.replicate_succ, List.replicate_succ, List.cons_append, List.cons_append] at h
          obtain ⟨rfl, hab⟩ := ih (List.cons.inj h).2
          exact ⟨rfl, hab⟩

/-- The names by which a path comes back, once its own form is known. -/
theorem Reenters_iff {base path : Bytes} {k : Nat} (hk : 0 < k) {names : List Bytes}
    (hnames : ∀ name ∈ names, IsName name)
    (hparts : cleanParts path = List.replicate k dotDot ++ names) :
    Reenters base path ↔ (isAbs base = true ∨ k ≤ (cleanParts base).length) ∧
      ∃ rest, rest ≠ [] ∧ names = (cleanParts base).drop ((cleanParts base).length - k) ++ rest := by
  constructor
  · rintro ⟨m, front, rest, hm, hrest, hfree, rfl, hup, hpath⟩
    rw [hparts] at hpath
    obtain ⟨rfl, hnames'⟩ := ups_unique (not_mem_of_names hnames) hfree hpath
    exact ⟨hup, rest, hrest, hnames'⟩
  · rintro ⟨hup, rest, hrest, hback⟩
    exact ⟨k, _, rest, hk, hrest, hback ▸ not_mem_of_names hnames, rfl, hup, hback ▸ hparts⟩

/-- After steps up and names, a path is below its base only if the steps up are taken back. -/
theorem Below_climbing_iff {base path : Bytes} (h : isAbs path = false) {k : Nat} (hk : 0 < k)
    {names : List Bytes} (hnames : ∀ name ∈ names, IsName name)
    (hparts : cleanParts path = List.replicate k dotDot ++ names) :
    Below base (Join base path) ↔ Reenters base path := by
  obtain ⟨j, own, hbase, hown, hj⟩ := cleanParts_normal base
  obtain ⟨habs, hjoin⟩ := Join_relative base h
  rw [hparts, resolve_append, resolve_names _ _ hnames, hbase] at hjoin
  rw [Reenters_iff hk hnames hparts, Below, habs, hjoin, hbase]
  by_cases hle : k ≤ own.length
  · -- The steps up take back names of the base.
    obtain ⟨front, back, rfl, rfl⟩ : ∃ front back, own = front ++ back ∧ back.length = k :=
      ⟨own.take (own.length - k), own.drop (own.length - k), (List.take_append_drop _ _).symm, by
        rw [List.length_drop]
        omega⟩
    have hup := resolve_names_up (isAbs base) (List.replicate j dotDot ++ front) fun name hname =>
      hown name (List.mem_append_right front hname)
    have hdrop : (List.replicate j dotDot ++ front ++ back).drop
        ((List.replicate j dotDot ++ front ++ back).length - back.length) = back := by
      rw [List.length_append, Nat.add_sub_cancel, List.drop_left]
    have hlength : back.length ≤ (List.replicate j dotDot ++ front ++ back).length := by
      rw [List.length_append]
      omega
    rw [← List.append_assoc, hup, hdrop]
    constructor
    · rintro ⟨-, rest, hrest, -, hnames'⟩
      rw [List.append_assoc _ back, List.append_cancel_left_eq] at hnames'
      exact ⟨.inr hlength, rest, hrest, hnames'⟩
    · rintro ⟨-, rest, hrest, rfl⟩
      refine ⟨rfl, rest, hrest, ?_, (List.append_assoc _ back rest).symm⟩
      exact not_mem_of_names fun name hname => hnames name (List.mem_append_right back hname)
  · -- Some steps up leave the base.
    have hk' : k = own.length + (k - own.length) := by omega
    have hup : resolve (isAbs base) (List.replicate j dotDot ++ own) (List.replicate k dotDot) =
        resolve (isAbs base) (List.replicate j dotDot) (List.replicate (k - own.length) dotDot) := by
      rw [hk', List.replicate_add, resolve_append, resolve_names_up _ _ hown, ← hk']
    rw [hup]
    cases hrooted : isAbs base with
    | true =>
        obtain rfl := hj hrooted
        rw [List.replicate_zero, List.nil_append, resolve_root_up, List.nil_append,
          show own.length - k = 0 by omega, List.drop_zero]
        constructor
        · rintro ⟨-, rest, hrest, -, hnames'⟩
          exact ⟨.inl rfl, rest, hrest, hnames'⟩
        · rintro ⟨-, rest, hrest, rfl⟩
          refine ⟨rfl, rest, hrest, ?_, rfl⟩
          exact not_mem_of_names fun name hname => hnames name (List.mem_append_right own hname)
    | false =>
        rw [resolve_up_up]
        constructor
        · rintro ⟨-, rest, hrest, hfree, hnames'⟩
          rw [List.append_assoc] at hnames'
          have hunique := ups_unique (not_mem_of_names hnames)
            (by
              intro hmem
              rcases List.mem_append.mp hmem with hmem | hmem
              · exact not_mem_of_names hown hmem
              · exact hfree hmem) hnames'
          omega
        · rintro ⟨hlen, rest, hrest, rfl⟩
          have hlen := hlen.resolve_left (by simp)
          -- The base has steps up of its own among the parts that would have to come back.
          have hback : dotDot ∈ (List.replicate j dotDot ++ own).drop
              ((List.replicate j dotDot ++ own).length - k) := by
            simp only [List.length_append, List.length_replicate] at hlen ⊢
            rw [List.drop_append_of_le_length (by rw [List.length_replicate]; omega),
              List.drop_replicate]
            exact List.mem_append_left own (List.mem_replicate.mpr ⟨by omega, rfl⟩)
          exact absurd (List.mem_append_left rest hback) (not_mem_of_names hnames)

/-- An accepted path stays below every base. -/
theorem Below_of_safe (base : Bytes) {path : Bytes} (h : safeRelativePath path = true) :
    Below base (Join base path) := by
  rw [safeRelativePath] at h
  split_ifs at h with hpath
  have habs : isAbs path = false := by
    simp only [not_or, Bool.not_eq_true] at hpath
    exact hpath.2
  obtain ⟨k, names, hparts, hnames, -⟩ := cleanParts_normal path
  simp only [Bool.and_eq_true, decide_eq_true_eq] at h
  cases k with
  | succ k => exact absurd (by rw [hparts]; rfl) h.2
  | zero =>
      rw [List.replicate_zero, List.nil_append] at hparts
      obtain ⟨habs', hjoin⟩ := Join_relative base habs
      rw [hparts, resolve_names _ _ hnames] at hjoin
      exact ⟨habs', names, hparts ▸ h.1, not_mem_of_names hnames, hjoin⟩

/-- A rejected relative path leads below a base only by coming back into it. -/
theorem Below_iff_of_rejected (base : Bytes) {path : Bytes} (hne : path ≠ []) (habs : isAbs path = false)
    (h : safeRelativePath path = false) : Below base (Join base path) ↔ Reenters base path := by
  obtain ⟨k, names, hparts, hnames, -⟩ := cleanParts_normal path
  cases k with
  | succ k => exact Below_climbing_iff habs (Nat.succ_pos k) hnames hparts
  | zero =>
      rw [List.replicate_zero, List.nil_append] at hparts
      have hempty : names = [] := by
        by_contra hnames'
        rw [safeRelativePath, if_neg (by simp [hne, habs]), hparts] at h
        obtain ⟨name, rest, rfl⟩ := List.exists_cons_of_ne_nil hnames'
        simp [(hnames name (by simp)).2.2.1] at h
      subst hempty
      obtain ⟨-, hjoin⟩ := Join_relative base habs
      rw [hparts] at hjoin
      constructor
      · rintro ⟨-, rest, hrest, -, hsame⟩
        rw [hjoin, resolve, List.foldl_nil, List.reverse_reverse] at hsame
        exact absurd (List.self_eq_append_right.mp hsame) hrest
      · rintro ⟨k, front, rest, hk, -, -, -, -, hpath⟩
        rw [hparts] at hpath
        cases k with
        | zero => omega
        | succ k => cases hpath

/-- Uploads stay in their directory, packages below their base. -/
theorem paths_contained :
    (∀ (workingDirectory : Option Bytes) (uploadDir name : Bytes), isAbs uploadDir = true →
      ∀ resolved, resolveUploadPath workingDirectory uploadDir name = .ok resolved ↔
        trimSpace name ≠ [] ∧ locate [] uploadDir <+: locate (locate [] uploadDir) name ∧
          resolved = render true (locate (locate [] uploadDir) name)) ∧
    (∀ base path, safeRelativePath path = true → Below base (Join base path)) ∧
    ∀ base path, path ≠ [] → isAbs path = false → safeRelativePath path = false →
      (Below base (Join base path) ↔ Reenters base path) := by
  refine ⟨fun wd uploadDir name h resolved => ?_, fun base _ h => Below_of_safe base h,
    fun base _ hne habs h => Below_iff_of_rejected base hne habs h⟩
  rw [resolveUploadPath_rooted wd name h]
  split_ifs with hblank hinside
  · simp [hblank]
  · simp [hblank, hinside, eq_comm]
  · simp [hinside]

theorem paths_contained_sample :
    resolveUploadPath none (ascii "/srv/./up") (ascii "x/..//b.epub") = .ok (ascii "/srv/up/b.epub") ∧
      Below (ascii "../p") (Join (ascii "../p") (ascii "uploads/..x")) ∧
      Below (ascii "/p") (Join (ascii "/p") (ascii "../p/q")) := by
  obtain ⟨hupload, haccepted, hrejected⟩ := paths_contained
  refine ⟨?_, haccepted _ _ (by decide), ?_⟩
  · exact (hupload none (ascii "/srv/./up") (ascii "x/..//b.epub") (by decide) _).mpr
      ⟨by decide, by decide, by decide⟩
  · rw [hrejected _ _ (by decide) (by decide) (by decide)]
    exact ⟨1, [ascii "p"], [ascii "q"], by decide, by decide, by decide, by decide, by decide, by decide⟩

/-- A rejected path may leave a base and come back into it. -/
theorem rejected_below :
    ¬ ∀ base path, path ≠ [] → isAbs path = false → safeRelativePath path = false →
      ¬ Below base (Join base path) := by
  intro h
  apply h (ascii "/a") (ascii "../a/b") (by decide) (by decide) (by decide)
  exact ⟨by decide, [ascii "b"], by decide, by decide, by decide⟩

end ZReader.Handlers
