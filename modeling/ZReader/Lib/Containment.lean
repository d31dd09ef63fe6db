import ZReader.Lib.LexicalPath

namespace Lib.LexicalPath

open Utf8

/-! ## Paths as texts -/

def render (rooted : Bool) (parts : List Bytes) : Bytes :=
  if rooted then slash :: [slash].intercalate parts
  else if parts = [] then dot
  else [slash].intercalate parts

def Clean (path : Bytes) : Bytes := render (isAbs path) (cleanParts path)

/-- `Join` of two elements; empty ones are ignored. -/
def Join (a b : Bytes) : Bytes :=
  if a = [] then (if b = [] then [] else Clean b) else Clean (a ++ slash :: b)

/-- The working directory is not needed for a rooted path. -/
def Abs (workingDirectory : Option Bytes) (path : Bytes) : Option Bytes :=
  if isAbs path then some (Clean path) else workingDirectory.map (Join · path)

/-- What is left of two lists after the parts that they share. -/
def strip : List Bytes → List Bytes → List Bytes × List Bytes
  | a :: as, b :: bs => if a = b then strip as bs else (a :: as, b :: bs)
  | as, bs => (as, bs)

/-- `Rel`, between rooted paths or between relative ones. -/
def Rel (base target : Bytes) : Option Bytes :=
  if Clean target = Clean base then some dot
  else if isAbs base ≠ isAbs target then none
  else
    let left := strip (cleanParts base) (cleanParts target)
    if left.1.head? = some dotDot then none
    else some ([slash].intercalate (left.1.map (fun _ => dotDot) ++ left.2))

/-! ## The form of clean paths -/

/-- A part that is neither empty nor special. -/
def IsName (part : Bytes) : Prop := part ≠ [] ∧ part ≠ dot ∧ part ≠ dotDot ∧ slash ∉ part

theorem IsName.special {part : Bytes} (h : IsName part) : part ≠ [] ∧ part ≠ dot ∧ part ≠ dotDot :=
  ⟨h.1, h.2.1, h.2.2.1⟩

/-- Steps up, for a relative path only, and names. -/
def Normal (rooted : Bool) (parts : List Bytes) : Prop :=
  ∃ k names, parts = List.replicate k dotDot ++ names ∧ (∀ name ∈ names, IsName name) ∧
    (rooted = true → k = 0)

theorem slash_not_mem_of_mem_splitOn {path part : Bytes} (h : part ∈ path.splitOn slash) :
    slash ∉ part := by
  induction path generalizing part with
  | nil =>
      obtain rfl : part = [] := by simpa using h
      simp
  | cons b path ih =>
      rw [List.splitOn_cons_eq_if_modifyHead] at h
      split at h
      · rcases List.mem_cons.mp h with rfl | h
        · simp
        · exact ih h
      · next hb =>
        obtain ⟨first, rest, hsplit⟩ := List.exists_cons_of_ne_nil (List.splitOn_ne_nil slash path)
        rw [hsplit] at h ih
        rcases List.mem_cons.mp h with rfl | h
        · have hfirst := ih (List.mem_cons_self ..)
          simp only [beq_iff_eq] at hb
          simp [hfirst, Ne.symm hb]
        · exact ih (List.mem_cons_of_mem first h)

theorem cleanStep_up (rooted : Bool) (stack : List Bytes) :
    cleanStep rooted stack dotDot =
      match stack with
      | [] => if rooted then [] else [dotDot]
      | top :: rest => if top = dotDot then dotDot :: stack else rest := by
  cases stack <;> rfl

theorem cleanStep_skip (rooted : Bool) (stack : List Bytes) {part : Bytes}
    (h : part = [] ∨ part = dot) : cleanStep rooted stack part = stack := by
  cases stack <;> (rw [cleanStep]; exact if_pos h)

theorem cleanStep_name (rooted : Bool) (stack : List Bytes) {part : Bytes}
    (h : part ≠ [] ∧ part ≠ dot ∧ part ≠ dotDot) : cleanStep rooted stack part = part :: stack := by
  cases stack <;> (rw [cleanStep, if_neg (by tauto), if_neg h.2.2])

theorem part_cases (part : Bytes) :
    (part = [] ∨ part = dot) ∨ part = dotDot ∨ part ≠ [] ∧ part ≠ dot ∧ part ≠ dotDot := by
  tauto

theorem cleanStep_normal {rooted : Bool} {stack : List Bytes} {part : Bytes}
    (h : Normal rooted stack.reverse) (hpart : slash ∉ part) :
    Normal rooted (cleanStep rooted stack part).reverse := by
  obtain hskip | rfl | hname := part_cases part
  · rw [cleanStep_skip rooted stack hskip]
    exact h
  · obtain ⟨k, names, hparts, hnames, hk⟩ := h
    have hstack := congrArg List.reverse hparts
    rw [List.reverse_reverse, List.reverse_append, List.reverse_replicate] at hstack
    rw [cleanStep_up]
    rcases hlast : names.reverse with _ | ⟨name, rest⟩
    · obtain rfl := List.reverse_eq_nil_iff.mp hlast
      subst hstack
      cases k with
      | zero =>
          cases rooted with
          | true => exact ⟨0, [], rfl, by simp, fun _ => rfl⟩
          | false => exact ⟨1, [], rfl, by simp, by simp⟩
      | succ k =>
          refine ⟨k + 2, [], ?_, by simp, fun hr => absurd (hk hr) (by omega)⟩
          have hups : (dotDot :: List.replicate (k + 1) dotDot).reverse =
              List.replicate (k + 2) dotDot := by
            rw [← List.replicate_succ, List.reverse_replicate]
          rw [List.append_nil, ← hups]
          rfl
    · have hname : IsName name := hnames name (by rw [← List.mem_reverse, hlast]; simp)
      rw [hlast] at hstack
      subst hstack
      simp only [List.cons_append, hname.2.2.1, if_false]
      refine ⟨k, rest.reverse, by simp, fun n hn => ?_, hk⟩
      exact hnames n
        (by rw [← List.mem_reverse, hlast]; exact List.mem_cons_of_mem name (by simpa using hn))
  · obtain ⟨k, names, hparts, hnames, hk⟩ := h
    rw [cleanStep_name rooted stack hname]
    refine ⟨k, names ++ [part], ?_, ?_, hk⟩
    · rw [List.reverse_cons, hparts, List.append_assoc]
    · intro name hmem
      rcases List.mem_append.mp hmem with hmem | hmem
      · exact hnames name hmem
      · obtain rfl := List.mem_singleton.mp hmem
        exact ⟨hname.1, hname.2.1, hname.2.2, hpart⟩

theorem foldl_cleanStep_normal {rooted : Bool} {stack parts : List Bytes}
    (h : Normal rooted stack.reverse) (hparts : ∀ part ∈ parts, slash ∉ part) :
    Normal rooted (parts.foldl (cleanStep rooted) stack).reverse := by
  induction parts generalizing stack with
  | nil => exact h
  | cons part parts ih =>
      exact ih (cleanStep_normal h (hparts part (by simp))) fun p hp =>
        hparts p (List.mem_cons_of_mem part hp)

theorem cleanParts_normal (path : Bytes) : Normal (isAbs path) (cleanParts path) :=
  foldl_cleanStep_normal ⟨0, [], rfl, by simp, fun _ => rfl⟩ fun _ => slash_not_mem_of_mem_splitOn

theorem Normal.part {rooted : Bool} {parts : List Bytes} (h : Normal rooted parts) {part : Bytes}
    (hpart : part ∈ parts) : part ≠ [] ∧ part ≠ dot ∧ slash ∉ part := by
  obtain ⟨k, names, rfl, hnames, _⟩ := h
  rcases List.mem_append.mp hpart with hpart | hpart
  · obtain rfl := List.eq_of_mem_replicate hpart
    decide
  · exact ⟨(hnames part hpart).1, (hnames part hpart).2.1, (hnames part hpart).2.2.2⟩

theorem Normal.name {parts : List Bytes} (h : Normal true parts) {part : Bytes}
    (hpart : part ∈ parts) : IsName part := by
  obtain ⟨k, names, rfl, hnames, hk⟩ := h
  rw [hk rfl] at hpart
  exact hnames part (by simpa using hpart)

/-! ## Parts of joined paths -/

/-- Parts are put on what is there in their order. -/
def resolve (rooted : Bool) (base parts : List Bytes) : List Bytes :=
  (parts.foldl (cleanStep rooted) base.reverse).reverse

theorem cleanParts_eq (path : Bytes) :
    cleanParts path = resolve (isAbs path) [] (path.splitOn slash) := rfl

theorem resolve_append (rooted : Bool) (base a b : List Bytes) :
    resolve rooted base (a ++ b) = resolve rooted (resolve rooted base a) b := by
  simp only [resolve, List.foldl_append, List.reverse_reverse]

theorem resolve_skip (rooted : Bool) (base : List Bytes) {part : Bytes} (h : part = [] ∨ part = dot) :
    resolve rooted base [part] = base := by
  rw [resolve, List.foldl_cons, cleanStep_skip rooted _ h, List.foldl_nil, List.reverse_reverse]

theorem resolve_name (rooted : Bool) (base : List Bytes) {part : Bytes}
    (h : part ≠ [] ∧ part ≠ dot ∧ part ≠ dotDot) : resolve rooted base [part] = base ++ [part] := by
  rw [resolve, List.foldl_cons, cleanStep_name rooted _ h, List.foldl_nil, List.reverse_cons,
    List.reverse_reverse]

theorem resolve_names (rooted : Bool) (base : List Bytes) {names : List Bytes}
    (h : ∀ name ∈ names, IsName name) : resolve rooted base names = base ++ names := by
  induction names generalizing base with
  | nil => simp [resolve]
  | cons name names ih =>
      rw [← List.singleton_append, resolve_append, resolve_name rooted base (h name (by simp)).special,
        ih _ fun n hn => h n (List.mem_cons_of_mem name hn), List.append_assoc]

/-- A step up takes back a name. -/
theorem resolve_name_up (rooted : Bool) (base : List Bytes) {name : Bytes} (h : IsName name) :
    resolve rooted (base ++ [name]) [dotDot] = base := by
  rw [resolve, List.foldl_cons, cleanStep_up, List.reverse_append]
  simp [h.2.2.1]

/-- Steps up that nothing takes back add up. -/
theorem resolve_ups (k : Nat) : resolve false (List.replicate k dotDot) [dotDot] =
    List.replicate k dotDot ++ [dotDot] := by
  rw [resolve, List.foldl_cons, cleanStep_up, List.reverse_replicate]
  cases k with
  | zero => rfl
  | succ k =>
      rw [List.replicate_succ]
      simp [← List.replicate_succ', List.replicate_succ]

/-- It makes no difference if a relative path is cleaned before. -/
theorem resolve_clean (rooted : Bool) (base : List Bytes) {parts : List Bytes}
    (h : ∀ part ∈ parts, slash ∉ part) :
    resolve rooted base (resolve false [] parts) = resolve rooted base parts := by
  induction parts using List.reverseRecOn with
  | nil => rfl
  | append_singleton parts part ih =>
      have ih := ih fun p hp => h p (List.mem_append_left _ hp)
      have hnormal : Normal false (resolve false [] parts) :=
        foldl_cleanStep_normal ⟨0, [], rfl, by simp, by simp⟩ fun p hp => h p (List.mem_append_left _ hp)
      rw [resolve_append false, resolve_append rooted, ← ih]
      obtain hskip | rfl | hname := part_cases part
      · rw [resolve_skip false _ hskip, resolve_skip rooted _ hskip]
      · obtain ⟨k, names, hparts, hnames, _⟩ := hnormal
        rw [hparts]
        rcases List.eq_nil_or_concat names with rfl | ⟨front, name, rfl⟩
        · rw [List.append_nil, resolve_ups, resolve_append]
        · have hname := hnames name (by simp)
          rw [List.concat_eq_append, ← List.append_assoc, resolve_name_up false _ hname,
            resolve_append rooted base _ [name], resolve_name rooted _ hname.special,
              resolve_name_up rooted _ hname]
      · rw [resolve_name false _ hname, resolve_append]

/-! ## Cleaning twice -/

theorem resolve_normal {rooted : Bool} {parts : List Bytes} (h : Normal rooted parts) :
    resolve rooted [] parts = parts := by
  obtain ⟨k, names, rfl, hnames, hk⟩ := h
  have hups : resolve rooted [] (List.replicate k dotDot) = List.replicate k dotDot := by
    cases rooted with
    | true => rw [hk rfl]; rfl
    | false =>
        clear hk
        induction k with
        | zero => rfl
        | succ k ih => rw [List.replicate_succ', resolve_append, ih, resolve_ups]
  rw [resolve_append, hups, resolve_names rooted _ hnames]

theorem isAbs_intercalate {parts : List Bytes} (h : ∀ part ∈ parts, part ≠ [] ∧ slash ∉ part) :
    isAbs ([slash].intercalate parts) = false := by
  cases parts with
  | nil => rfl
  | cons part parts =>
      obtain ⟨b, rest, rfl⟩ := List.exists_cons_of_ne_nil (h part (by simp)).1
      have hb : b ≠ slash := fun he => (h _ (List.mem_cons_self ..)).2 (by simp [he])
      rw [isAbs]
      cases parts with
      | nil => simpa using hb
      | cons next parts => simpa using hb

theorem isAbs_render {rooted : Bool} {parts : List Bytes} (h : Normal rooted parts) :
    isAbs (render rooted parts) = rooted := by
  rw [render]
  cases rooted with
  | true => rfl
  | false =>
      rw [if_neg (by simp)]
      split_ifs
      · rfl
      · exact isAbs_intercalate fun part hpart => ⟨(h.part hpart).1, (h.part hpart).2.2⟩

theorem cleanParts_render {rooted : Bool} {parts : List Bytes} (h : Normal rooted parts) :
    cleanParts (render rooted parts) = parts := by
  have hslash : ∀ part ∈ parts, slash ∉ part := fun part hpart => (h.part hpart).2.2
  rw [cleanParts_eq, isAbs_render h]
  by_cases hparts : parts = []
  · subst hparts
    cases rooted <;> decide
  · cases rooted with
    | true =>
        have hsplit : (render true parts).splitOn slash = [[]] ++ parts := by
          rw [render, if_pos rfl, List.splitOn_cons_eq_if_modifyHead, if_pos (by simp),
            List.splitOn_intercalate slash hslash hparts]
          rfl
        rw [hsplit, resolve_append, resolve_skip true _ (.inl rfl), resolve_normal h]
    | false =>
        rw [render, if_neg (by simp), if_neg hparts, List.splitOn_intercalate slash hslash hparts,
          resolve_normal h]

theorem isAbs_Clean (path : Bytes) : isAbs (Clean path) = isAbs path :=
  isAbs_render (cleanParts_normal path)

theorem cleanParts_Clean (path : Bytes) : cleanParts (Clean path) = cleanParts path :=
  cleanParts_render (cleanParts_normal path)

/-- The parts of the second path are resolved from the first one. -/
theorem Join_parts {a b : Bytes} (h : a ≠ [] ∨ isAbs b = false) :
    isAbs (Join a b) = isAbs a ∧
      cleanParts (Join a b) = resolve (isAbs a) (cleanParts a) (b.splitOn slash) := by
  rw [Join]
  by_cases ha : a = []
  · have hb := h.resolve_left (fun hne => hne ha)
    subst ha
    rw [if_pos rfl]
    split_ifs with hnil
    · subst hnil
      exact ⟨rfl, rfl⟩
    · rw [isAbs_Clean, cleanParts_Clean, cleanParts_eq, hb]
      exact ⟨rfl, rfl⟩
  · obtain ⟨c, rest, rfl⟩ := List.exists_cons_of_ne_nil ha
    rw [if_neg ha, isAbs_Clean, cleanParts_Clean, cleanParts_eq, List.splitOn_append_cons_self,
      resolve_append]
    exact ⟨rfl, rfl⟩

/-! ## Tests on the texts -/

/-- A text of parts begins with two dots as a part of their own. -/
theorem climbs_iff {parts : List Bytes} (hne : parts ≠ [])
    (hslash : ∀ part ∈ parts, slash ∉ part) :
    ([slash].intercalate parts = dotDot ∨ (dotDot ++ [slash]) <+: [slash].intercalate parts) ↔
      parts.head? = some dotDot := by
  have hsplit := List.splitOn_intercalate slash hslash hne
  constructor
  · rintro (htext | ⟨rest, htext⟩)
    · rw [htext, List.splitOn_eq_singleton (by decide)] at hsplit
      rw [← hsplit]
      rfl
    · rw [← htext, List.append_assoc, List.singleton_append,
        List.splitOn_append_cons_self_of_not_mem (by decide)] at hsplit
      rw [← hsplit]
      rfl
  · intro hhead
    obtain ⟨part, rest, rfl⟩ := List.exists_cons_of_ne_nil hne
    obtain rfl : part = dotDot := by simpa using hhead
    cases rest with
    | nil => exact .inl (by simp)
    | cons next rest => exact .inr ⟨[slash].intercalate (next :: rest), by simp⟩

theorem Clean_eq_dot_iff {path : Bytes} (h : isAbs path = false) :
    Clean path = dot ↔ cleanParts path = [] := by
  rw [Clean, h, render, if_neg (by simp)]
  split_ifs with hparts
  · simp [hparts]
  · refine ⟨fun htext => ?_, fun hnil => absurd hnil hparts⟩
    have hnormal := cleanParts_normal path
    have hsplit := List.splitOn_intercalate slash (fun part hpart => (hnormal.part hpart).2.2) hparts
    rw [htext, List.splitOn_eq_singleton (by decide)] at hsplit
    exact absurd rfl (hnormal.part (by rw [← hsplit]; simp)).2.1

theorem Clean_climbs_iff {path : Bytes} (h : isAbs path = false) :
    (Clean path = dotDot ∨ (dotDot ++ [slash]) <+: Clean path) ↔
      (cleanParts path).head? = some dotDot := by
  have hnormal := cleanParts_normal path
  rw [Clean, h, render, if_neg (by simp)]
  split_ifs with hparts
  · rw [hparts]
    decide
  · exact climbs_iff hparts fun part hpart => (hnormal.part hpart).2.2

/-! ## Relative paths -/

theorem strip_append (a b : List Bytes) : strip a (a ++ b) = ([], b) := by
  induction a with
  | nil => cases b <;> rfl
  | cons part a ih => rw [List.cons_append, strip, if_pos rfl, ih]

theorem strip_fst_eq_nil_iff (a b : List Bytes) : (strip a b).1 = [] ↔ a <+: b := by
  induction a generalizing b with
  | nil => cases b <;> simp [strip]
  | cons part a ih =>
      cases b with
      | nil => simp [strip]
      | cons other b =>
          rw [strip, List.cons_prefix_cons]
          split_ifs with he
          · rw [ih]
            exact (and_iff_right he).symm
          · simp [he]

theorem strip_fst_subset (a b : List Bytes) : ∀ part ∈ (strip a b).1, part ∈ a := by
  induction a generalizing b with
  | nil => cases b <;> simp [strip]
  | cons part a ih =>
      cases b with
      | nil => simp [strip]
      | cons other b =>
          rw [strip]
          split_ifs
          · exact fun p hp => List.mem_cons_of_mem part (ih b p hp)
          · simp

theorem strip_snd_subset (a b : List Bytes) : ∀ part ∈ (strip a b).2, part ∈ b := by
  induction a generalizing b with
  | nil => cases b <;> simp [strip]
  | cons part a ih =>
      cases b with
      | nil => simp [strip]
      | cons other b =>
          rw [strip]
          split_ifs
          · exact fun p hp => List.mem_cons_of_mem other (ih b p hp)
          · simp

/-- The path between two rooted paths exists; it begins with a step up unless the second path lies
at the first one or below it. -/
theorem Rel_rooted {base target : Bytes} (hbase : isAbs base = true) (htarget : isAbs target = true) :
    ∃ rel, Rel base target = some rel ∧ isAbs rel = false ∧
      ((rel = dotDot ∨ (dotDot ++ [slash]) <+: rel) ↔ ¬ cleanParts base <+: cleanParts target) := by
  have hb : Normal true (cleanParts base) := hbase ▸ cleanParts_normal base
  have ht : Normal true (cleanParts target) := htarget ▸ cleanParts_normal target
  rw [Rel]
  split_ifs with hsame habs
  · have hparts := congrArg cleanParts hsame
    rw [cleanParts_Clean, cleanParts_Clean] at hparts
    refine ⟨dot, rfl, rfl, ?_⟩
    rw [hparts]
    exact iff_of_false (by decide) (by simp)
  · exact absurd (hbase.trans htarget.symm) habs
  · have hhead : (strip (cleanParts base) (cleanParts target)).1.head? ≠ some dotDot := by
      intro hhead
      exact (hb.name (strip_fst_subset _ _ _ (List.mem_of_mem_head? hhead))).2.2.1 rfl
    simp only [if_neg hhead]
    have hparts : ∀ part ∈ (strip (cleanParts base) (cleanParts target)).1.map (fun _ => dotDot) ++
        (strip (cleanParts base) (cleanParts target)).2, part ≠ [] ∧ slash ∉ part := by
      intro part hpart
      rcases List.mem_append.mp hpart with hpart | hpart
      · obtain ⟨_, _, rfl⟩ := List.mem_map.mp hpart
        decide
      · have hname := ht.name (strip_snd_subset _ _ _ hpart)
        exact ⟨hname.1, hname.2.2.2⟩
    refine ⟨_, rfl, isAbs_intercalate hparts, ?_⟩
    rw [← strip_fst_eq_nil_iff]
    have hne : (strip (cleanParts base) (cleanParts target)).1.map (fun _ => dotDot) ++
        (strip (cleanParts base) (cleanParts target)).2 ≠ [] := by
      intro hnil
      obtain ⟨hfst, hsnd⟩ := List.append_eq_nil_iff.mp hnil
      obtain ⟨rest, hrest⟩ := (strip_fst_eq_nil_iff _ _).mp (List.map_eq_nil_iff.mp hfst)
      rw [← hrest, strip_append] at hsnd
      apply hsame
      rw [Clean, Clean, hbase, htarget, ← hrest, show rest = [] from hsnd, List.append_nil]
    rw [climbs_iff hne fun part hpart => (hparts part hpart).2]
    cases hfst : (strip (cleanParts base) (cleanParts target)).1 with
    | cons part rest => simp
    | nil =>
        simp only [List.map_nil, List.nil_append, not_true_eq_false, iff_false]
        intro hhead
        exact (ht.name (strip_snd_subset _ _ _ (List.mem_of_mem_head? hhead))).2.2.1 rfl

end Lib.LexicalPath
