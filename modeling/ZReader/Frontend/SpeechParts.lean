import ZReader.Frontend.SpeechContent

namespace ZReader.Frontend.SpeechTree

/-! ## Empty elements -/

/-- The slice holds an empty element. -/
def kept (start stop : Nat) (x : EmptyElement) : Bool :=
  start ≤ x.offset && x.offset < stop && !(x.offset == start && x.closed)

mutual

theorem empties_within (ancestors : List Ancestor) (offset : Nat) (node : Node) :
    ∀ x ∈ empties ancestors offset node, offset ≤ x.offset ∧ x.offset ≤ offset + length node := by
  match node with
  | .text data => simp [empties]
  | .element element children =>
      rw [empties]
      split
      · simp
      · split
        · intro x hx
          rw [List.mem_singleton.mp hx]
          exact ⟨le_rfl, Nat.le_add_right _ _⟩
        · exact emptiesAll_within _ offset children

theorem emptiesAll_within (ancestors : List Ancestor) (offset : Nat) (nodes : List Node) :
    ∀ x ∈ emptiesAll ancestors offset nodes, offset ≤ x.offset ∧ x.offset ≤ offset + lengths nodes := by
  match nodes with
  | [] => simp [emptiesAll]
  | child :: children =>
      intro x hx
      rw [emptiesAll, List.mem_append] at hx
      rw [lengths_cons]
      rcases hx with hx | hx
      · have := empties_within ancestors offset child x hx
        omega
      · have := emptiesAll_within ancestors (offset + length child) children x hx
        omega

end

mutual

theorem empties_sorted (ancestors : List Ancestor) (offset : Nat) (node : Node) :
    (empties ancestors offset node).Pairwise fun x y => x.offset ≤ y.offset := by
  match node with
  | .text data => simp [empties]
  | .element element children =>
      rw [empties]
      split
      · exact .nil
      · split
        · exact List.pairwise_singleton _ _
        · exact emptiesAll_sorted _ offset children

theorem emptiesAll_sorted (ancestors : List Ancestor) (offset : Nat) (nodes : List Node) :
    (emptiesAll ancestors offset nodes).Pairwise fun x y => x.offset ≤ y.offset := by
  match nodes with
  | [] => exact .nil
  | child :: children =>
      rw [emptiesAll, List.pairwise_append]
      refine ⟨empties_sorted ancestors offset child,
        emptiesAll_sorted ancestors (offset + length child) children, fun x hx y hy => ?_⟩
      have hleft := empties_within ancestors offset child x hx
      have hright := emptiesAll_within ancestors (offset + length child) children y hy
      omega

end

mutual

theorem empties_ancestors (ancestors : List Ancestor) (offset : Nat) (node : Node) :
    ∀ x ∈ empties ancestors offset node, ancestors ⊆ x.ancestors := by
  match node with
  | .text data => simp [empties]
  | .element element children =>
      rw [empties]
      split
      · simp
      · split
        · intro x hx
          rw [List.mem_singleton.mp hx]
          exact List.Subset.refl _
        · intro x hx
          exact fun y hy => emptiesAll_ancestors _ offset children x hx (List.mem_append_left _ hy)

theorem emptiesAll_ancestors (ancestors : List Ancestor) (offset : Nat) (nodes : List Node) :
    ∀ x ∈ emptiesAll ancestors offset nodes, ancestors ⊆ x.ancestors := by
  match nodes with
  | [] => simp [emptiesAll]
  | child :: children =>
      intro x hx
      rw [emptiesAll, List.mem_append] at hx
      exact hx.elim (empties_ancestors ancestors offset child x)
        (emptiesAll_ancestors ancestors (offset + length child) children x)

end

theorem emptiesAll_append (ancestors : List Ancestor) (offset : Nat) (a b : List Node) :
    emptiesAll ancestors offset (a ++ b) =
      emptiesAll ancestors offset a ++ emptiesAll ancestors (offset + lengths a) b := by
  induction a generalizing offset with
  | nil => rfl
  | cons child children ih =>
      rw [List.cons_append, emptiesAll, ih, emptiesAll, lengths_cons, List.append_assoc, Nat.add_assoc]

section Cut

variable {Seconds Rate : Type} [Zero Seconds] {estimator : Estimator Seconds Rate}
  {start stop : Nat} {tooLong : Seconds → Bool}

theorem outside_iff {first last : Nat} :
    outside start stop first last = true ↔ last < start ∨ stop ≤ first ∨ last = start ∧ first < start := by
  simp [outside, or_assoc]

theorem outside_false {first last : Nat} : outside start stop first last = false ↔
    start ≤ last ∧ first < stop ∧ (last = start → ¬ first < start) := by
  simp [outside, and_assoc]

/-- What lies in a node that is left out is not held by the slice. -/
theorem kept_of_outside {ancestors : List Ancestor} {offset : Nat} {node : Node}
    (h : outside start stop offset (offset + length node) = true) :
    ∀ x ∈ empties ancestors offset node, kept start stop x = false := by
  intro x hx
  have hwithin := empties_within ancestors offset node x hx
  rw [outside_iff] at h
  have hclosed : offset + length node = start → offset < start → x.offset = start → x.closed = true := by
    intro hstop hstart hoffset
    cases node with
    | text data => simp [empties] at hx
    | element element children =>
        rw [empties] at hx
        split at hx
        · cases hx
        · split at hx
          · next hchildren =>
            rw [List.isEmpty_iff.mp hchildren, length_element, lengths_nil] at hstop
            omega
          · have hmem := emptiesAll_ancestors _ offset children x hx
              (List.mem_append_right _ List.mem_cons_self)
            refine List.any_eq_true.mpr ⟨_, hmem, ?_⟩
            simp only [Bool.and_eq_true, beq_iff_eq, decide_eq_true_eq]
            rw [length_element] at hstop
            omega
  cases hkept : kept start stop x with
  | false => rfl
  | true =>
      simp only [kept, Bool.and_eq_true, decide_eq_true_eq, Bool.not_eq_true',
        Bool.and_eq_false_iff, beq_eq_false_iff_ne] at hkept
      grind

theorem cut_eq_none_iff (inside : Bool) (offset : Nat) (node : Node) :
    cut estimator start stop tooLong inside offset node = none ↔
      outside start stop offset (offset + length node) = true := by
  cases node with
  | text data =>
      rw [cut, length_text]
      split
      · next h => simp [h]
      · next h => simp [h]
  | element element children =>
      rw [cut, length_element]
      split
      · next h => simp [h]
      · next h => split <;> simp [h]

/-- A slice within an element holds something of it, where the element has any content. -/
theorem cutAll_ne_nil (hlt : start < stop) (inside : Bool) {offset : Nat} {nodes : List Node}
    (hnodes : nodes ≠ []) (hin : outside start stop offset (offset + lengths nodes) = false) :
    cutAll estimator start stop tooLong inside offset nodes ≠ [] := by
  induction nodes generalizing offset with
  | nil => exact absurd rfl hnodes
  | cons child children ih =>
      rw [cutAll]
      cases hchild : outside start stop offset (offset + length child) with
      | false =>
          have hcut : cut estimator start stop tooLong inside offset child ≠ none := by
            rw [Ne, cut_eq_none_iff, hchild]
            exact Bool.false_ne_true
          obtain ⟨copy, hcopy⟩ := Option.ne_none_iff_exists'.mp hcut
          simp [hcopy]
      | true =>
          rw [lengths_cons] at hin
          rw [outside_iff] at hchild
          rw [outside_false] at hin
          -- The child ends where the slice begins or before, so the rest reaches into the slice.
          have hrest : 0 < lengths children := by omega
          have hchildren : children ≠ [] := by
            rintro rfl
            exact absurd hrest (lt_irrefl 0)
          refine List.append_ne_nil_of_right_ne_nil _ (ih hchildren ?_)
          rw [outside_false]
          omega

/-- An empty element between elements that the slice holds. -/
theorem leaf_kept {ancestors : List Ancestor} (hin : ∀ y ∈ ancestors, y.stop = start → ¬ y.start < start)
    {offset : Nat} (hnode : outside start stop offset (offset + lengths []) = false) :
    clamp start stop offset = offset ∧ ∀ element, kept start stop ⟨ancestors, offset, element⟩ = true := by
  obtain ⟨hstop, hstart, -⟩ := outside_false.mp hnode
  rw [lengths_nil, Nat.add_zero] at hstop
  refine ⟨by rw [clamp]; omega, fun element => ?_⟩
  have hopen : offset = start → (EmptyElement.mk ancestors offset element).closed = false := by
    rintro rfl
    rw [EmptyElement.closed, List.any_eq_false]
    intro y hy hends
    simp only [Bool.and_eq_true, beq_iff_eq, decide_eq_true_eq] at hends
    exact hin y hy hends.1 hends.2
  simp only [kept, Bool.and_eq_true, decide_eq_true_eq, Bool.not_eq_true', Bool.and_eq_false_iff,
    beq_eq_false_iff_ne]
  exact ⟨⟨hstop, hstart⟩, or_iff_not_imp_left.mpr fun h => hopen (not_not.mp h)⟩

mutual

theorem empties_cut (hlt : start < stop) (inside : Bool) {ancestors copied : List Ancestor}
    (hcopied : copied.map Ancestor.element = ancestors.map Ancestor.element)
    (hin : ∀ y ∈ ancestors, y.stop = start → ¬ y.start < start) (offset : Nat) (node : Node) :
    (emptiesAll copied (clamp start stop offset)
      (cut estimator start stop tooLong inside offset node).toList).map EmptyElement.place =
      ((empties ancestors offset node).filter (kept start stop)).map EmptyElement.place := by
  cases hnode : outside start stop offset (offset + length node) with
  | true =>
      rw [List.filter_eq_nil_iff.mpr fun x hx => by rw [kept_of_outside hnode x hx]; decide]
      rw [(cut_eq_none_iff inside offset node).mpr hnode]
      rfl
  | false =>
      match node with
      | .text data =>
          rw [length_text] at hnode
          rw [cut, hnode, if_neg Bool.false_ne_true]
          rfl
      | .element element children =>
          rw [length_element] at hnode
          rw [cut, hnode, if_neg Bool.false_ne_true]
          cases helement : isPronunciation element with
          | true =>
              rw [empties, if_pos helement]
              split <;> simp [emptiesAll, empties, helement]
          | false =>
              have hplain : ¬ isPronunciation element = true := by simp [helement]
              rw [broken, helement, Bool.false_and, if_neg Bool.false_ne_true, Bool.or_false,
                Option.toList_some, emptiesAll, emptiesAll, List.append_nil, empties, if_neg hplain,
                empties, if_neg hplain]
              cases children with
              | nil =>
                  obtain ⟨hoffset, hkept⟩ := leaf_kept hin hnode
                  simp [cutAll, hkept element, EmptyElement.place, hcopied, hoffset]
              | cons child children =>
                  have hcut : cutAll estimator start stop tooLong inside offset (child :: children) ≠ [] :=
                    cutAll_ne_nil hlt inside (List.cons_ne_nil child children) hnode
                  rw [if_neg (by simpa using hcut), if_neg (by simp)]
                  refine empties_cutAll hlt inside ?_ ?_ offset (child :: children)
                  · simp [hcopied]
                  · intro y hy
                    rcases List.mem_append.mp hy with hy | hy
                    · exact hin y hy
                    · rw [List.mem_singleton.mp hy]
                      exact outside_false.mp hnode |>.2.2

theorem empties_cutAll (hlt : start < stop) (inside : Bool) {ancestors copied : List Ancestor}
    (hcopied : copied.map Ancestor.element = ancestors.map Ancestor.element)
    (hin : ∀ y ∈ ancestors, y.stop = start → ¬ y.start < start) (offset : Nat) (nodes : List Node) :
    (emptiesAll copied (clamp start stop offset)
      (cutAll estimator start stop tooLong inside offset nodes)).map EmptyElement.place =
      ((emptiesAll ancestors offset nodes).filter (kept start stop)).map EmptyElement.place := by
  match nodes with
  | [] => rfl
  | child :: children =>
      rw [cutAll, emptiesAll_append, clamp_cut hlt.le, emptiesAll, List.filter_append, List.map_append,
        List.map_append, empties_cut hlt inside hcopied hin offset child,
        empties_cutAll hlt inside hcopied hin (offset + length child) children]

end

end Cut

/-! ## Pronunciations -/

section Pronunciations

variable {Seconds Rate : Type} [Zero Seconds] {estimator : Estimator Seconds Rate}
  {start stop : Nat} {tooLong : Seconds → Bool}

theorem pronunciationsAll_append (offset : Nat) (a b : List Node) :
    pronunciationsAll offset (a ++ b) =
      pronunciationsAll offset a ++ pronunciationsAll (offset + lengths a) b := by
  induction a generalizing offset with
  | nil => rfl
  | cons child children ih =>
      rw [List.cons_append, pronunciationsAll, ih, pronunciationsAll, lengths_cons, List.append_assoc,
        Nat.add_assoc]

theorem clamp_cutAll (hle : start ≤ stop) (inside : Bool) (offset : Nat) (nodes : List Node) :
    clamp start stop offset + lengths (cutAll estimator start stop tooLong inside offset nodes) =
      clamp start stop (offset + lengths nodes) := by
  rw [lengths, text_cutAll, clamp_window hle, lengths]

mutual

theorem pronunciations_cut (hle : start ≤ stop) (inside : Bool) (offset : Nat) (node : Node) :
    ∀ x ∈ pronunciationsAll (clamp start stop offset)
      (cut estimator start stop tooLong inside offset node).toList,
      x ∈ pronunciations offset node ∧ start ≤ x.start ∧ x.stop ≤ stop := by
  match node with
  | .text data =>
      rw [cut]
      split <;> simp [pronunciationsAll, pronunciations]
  | .element element children =>
      rw [cut]
      split
      · simp [pronunciationsAll]
      · split
        · simp [pronunciationsAll, pronunciations]
        · next hbroken =>
          have hchildren := pronunciations_cutAll hle (inside || isPronunciation element) offset children
          rw [Option.toList_some, pronunciationsAll, pronunciationsAll, List.append_nil, pronunciations,
            pronunciations]
          intro x hx
          rcases List.mem_append.mp hx with hx | hx
          · split at hx
            · next helement =>
              have hwithin : start ≤ offset ∧ offset + lengths children ≤ stop := by
                simp only [broken, helement, Bool.true_and, Bool.or_eq_true, decide_eq_true_eq, not_or,
                  not_lt] at hbroken
                exact hbroken.1
              have hlength : clamp start stop offset +
                  lengths (cutAll estimator start stop tooLong (inside || isPronunciation element)
                    offset children) =
                    clamp start stop (offset + lengths children) :=
                clamp_cutAll hle _ offset children
              have hfirst : clamp start stop offset = offset := by
                rw [clamp]
                omega
              have hlast : clamp start stop (offset + lengths children) = offset + lengths children := by
                rw [clamp]
                omega
              rw [hlength, hlast, hfirst] at hx
              rw [if_pos helement, List.mem_singleton.mp hx]
              exact ⟨List.mem_append_left _ (List.mem_singleton.mpr rfl), hwithin⟩
            · cases hx
          · obtain ⟨hmem, hwithin⟩ := hchildren x hx
            exact ⟨List.mem_append_right _ hmem, hwithin⟩

theorem pronunciations_cutAll (hle : start ≤ stop) (inside : Bool) (offset : Nat) (nodes : List Node) :
    ∀ x ∈ pronunciationsAll (clamp start stop offset)
      (cutAll estimator start stop tooLong inside offset nodes),
      x ∈ pronunciationsAll offset nodes ∧ start ≤ x.start ∧ x.stop ≤ stop := by
  match nodes with
  | [] => simp [cutAll, pronunciationsAll]
  | child :: children =>
      rw [cutAll, pronunciationsAll_append, clamp_cut hle, pronunciationsAll]
      intro x hx
      rcases List.mem_append.mp hx with hx | hx
      · obtain ⟨hmem, hwithin⟩ := pronunciations_cut hle inside offset child x hx
        exact ⟨List.mem_append_left _ hmem, hwithin⟩
      · obtain ⟨hmem, hwithin⟩ := pronunciations_cutAll hle inside (offset + length child) children x hx
        exact ⟨List.mem_append_right _ hmem, hwithin⟩

end

end Pronunciations

/-! ## Consecutive parts -/

section Parts

variable {start stop : Nat} {parts : List (Nat × Nat)}

theorem Consecutive.le (h : Consecutive start stop parts) : start ≤ stop := by
  induction parts generalizing start with
  | nil => exact h.le
  | cons part parts ih => exact h.2.1.le.trans (ih h.2.2)

theorem Consecutive.mem (h : Consecutive start stop parts) {part : Nat × Nat} (hpart : part ∈ parts) :
    start ≤ part.1 ∧ part.1 < part.2 ∧ part.2 ≤ stop := by
  induction parts generalizing start with
  | nil => cases hpart
  | cons first parts ih =>
      obtain ⟨rfl, hlt, hrest⟩ := h
      rcases List.mem_cons.mp hpart with rfl | hpart
      · exact ⟨le_rfl, hlt, hrest.le⟩
      · have := ih hrest hpart
        omega

/-- The windows of consecutive parts make up the text. -/
theorem windows (h : Consecutive start stop parts) (data : Text) :
    parts.flatMap (fun part => window part.1 part.2 0 data) = window start stop 0 data := by
  induction parts generalizing start with
  | nil =>
      rw [show start = stop from h]
      simp [window]
  | cons part parts ih =>
      obtain ⟨rfl, hlt, hrest⟩ := h
      have hle := hrest.le
      rw [List.flatMap_cons, ih hrest]
      apply List.ext_getElem?
      intro i
      simp only [window, List.getElem?_append, List.getElem?_drop, List.getElem?_take, List.length_drop,
        List.length_take]
      grind

/-- Some part holds an empty element. -/
def Held (start stop : Nat) (parts : List (Nat × Nat)) (x : EmptyElement) : Prop :=
  start ≤ x.offset ∧ x.offset < stop ∧ ¬ (x.closed = true ∧ x.offset ∈ parts.map Prod.fst)

instance (start stop : Nat) (parts : List (Nat × Nat)) (x : EmptyElement) :
    Decidable (Held start stop parts x) :=
  inferInstanceAs (Decidable (_ ∧ _ ∧ _))

theorem filter_append_filter {α : Type} {p q r : α → Bool} {l : List α}
    (hor : ∀ x ∈ l, r x = (p x || q x)) (hpairs : l.Pairwise fun x y => q x = true → p y = false)
    (hdisjoint : ∀ x ∈ l, p x = true → q x = false) : l.filter p ++ l.filter q = l.filter r := by
  induction l with
  | nil => rfl
  | cons x l ih =>
      rw [List.pairwise_cons] at hpairs
      have hrest := ih (fun y hy => hor y (List.mem_cons_of_mem x hy)) hpairs.2
        fun y hy => hdisjoint y (List.mem_cons_of_mem x hy)
      have hx := hor x List.mem_cons_self
      cases hq : q x with
      | true =>
          have hp : p x = false := by
            cases hp : p x with
            | false => rfl
            | true => simp [hdisjoint x List.mem_cons_self hp] at hq
          have hnone : l.filter p = [] := List.filter_eq_nil_iff.mpr fun y hy => by simp [hpairs.1 y hy hq]
          rw [hnone, List.nil_append] at hrest
          simp [hx, hp, hq, hnone, hrest]
      | false =>
          cases hp : p x with
          | true => simp [hx, hp, hq, hrest]
          | false => simp [hx, hp, hq, hrest]

/-- The parts hold empty elements in the order of the document. -/
theorem flatMap_kept (h : Consecutive start stop parts) {l : List EmptyElement}
    (hsorted : l.Pairwise fun x y => x.offset ≤ y.offset) :
    parts.flatMap (fun part => l.filter (kept part.1 part.2)) =
      l.filter fun x => Held start stop parts x := by
  induction parts generalizing start with
  | nil =>
      rw [show start = stop from h]
      refine (List.filter_eq_nil_iff.mpr fun x _ hx => ?_).symm
      have hheld := of_decide_eq_true hx
      exact absurd hheld.1 (not_le.mpr hheld.2.1)
  | cons part parts ih =>
      obtain ⟨rfl, hlt, hrest⟩ := h
      have hstarts : ∀ offset ∈ parts.map Prod.fst, part.2 ≤ offset := by
        intro offset hoffset
        obtain ⟨p, hp, rfl⟩ := List.mem_map.mp hoffset
        exact (hrest.mem hp).1
      have hend := hrest.le
      rw [List.flatMap_cons, ih hrest]
      have hkept : ∀ x, kept part.1 part.2 x = true ↔
          part.1 ≤ x.offset ∧ x.offset < part.2 ∧ ¬ (x.offset = part.1 ∧ x.closed = true) := by
        intro x
        simp [kept, and_assoc, imp_iff_not_or]
      refine filter_append_filter (fun x _ => ?_) (hsorted.imp fun {x y} hxy hx => ?_) fun x _ hx => ?_
      · rw [Bool.eq_iff_iff, Bool.or_eq_true, hkept, decide_eq_true_eq, decide_eq_true_eq, Held, Held,
          List.map_cons, List.mem_cons]
        by_cases hin : x.offset < part.2
        · have hlater : x.offset ∉ parts.map Prod.fst :=
            fun hmem => absurd (hstarts _ hmem) (not_le.mpr hin)
          simp only [hlater, or_false]
          grind
        · grind
      · rw [decide_eq_true_eq] at hx
        rw [Bool.eq_false_iff, Ne, hkept]
        have := hx.1
        omega
      · rw [hkept] at hx
        rw [decide_eq_false_iff_not, Held]
        omega

end Parts

/-! ## The slices of a tree -/

section Slices

variable {Seconds Rate : Type} [Zero Seconds] [Div Seconds] [LT Seconds]
  [DecidableLT Seconds] (estimator : Estimator Seconds Rate)

/-- The slices over consecutive parts hold all of a tree exactly if no empty element stands at the
end of the text, and none that ends an element stands where a part begins. -/
theorem sliceSSML_whole_iff (root : Node) (parts : List (Nat × Nat))
    (hparts : Consecutive 0 (length root) parts)
    (rate : Nat × Nat → Rate) (budget : Nat × Nat → Seconds) :
    Whole root parts (fun part =>
        sliceSSML estimator (indexSSML estimator root) part.1 part.2 (rate part) (budget part)) ↔
      ∀ x ∈ empties [] 0 root,
        x.offset < length root ∧ ¬ (x.closed = true ∧ x.offset ∈ parts.map Prod.fst) := by
  have hclamp : ∀ part ∈ parts, clamp part.1 part.2 0 = part.1 := by
    intro part hpart
    have := hparts.mem hpart
    rw [clamp]
    omega
  have hempties : parts.flatMap (fun part => (emptiesAll [] part.1
      (sliceSSML estimator (indexSSML estimator root) part.1 part.2 (rate part) (budget part)).toList).map
        EmptyElement.place) =
      ((empties [] 0 root).filter fun x => Held 0 (length root) parts x).map EmptyElement.place := by
    rw [← flatMap_kept hparts (empties_sorted [] 0 root), List.map_flatMap]
    refine List.flatMap_congr fun part hpart => ?_
    have hcut : (emptiesAll [] (clamp part.1 part.2 0) (cut estimator part.1 part.2
        (fun seconds => seconds / estimator.speechSpeed (rate part) > budget part) false 0 root).toList).map
          EmptyElement.place = ((empties [] 0 root).filter (kept part.1 part.2)).map EmptyElement.place :=
      empties_cut (hparts.mem hpart).2.1 false rfl (by simp) 0 root
    rwa [hclamp part hpart, ← sliceSSML_eq] at hcut
  constructor
  · intro hwhole x hx
    have hall := congrArg List.length (hempties.symm.trans hwhole.empties)
    rw [List.length_map, List.length_map, List.length_filter_eq_length_iff] at hall
    exact (of_decide_eq_true (hall x hx)).2
  · intro hheld
    refine ⟨fun part hpart => ?_, ?_, ?_, fun part hpart => ?_⟩
    · rw [sliceSSML_eq, ← Option.ne_none_iff_isSome, Ne, cut_eq_none_iff, outside_iff]
      have := hparts.mem hpart
      omega
    · have htext := windows hparts (textContent root)
      simp only [sliceSSML_eq, text_cut, htext]
      simp [window, length]
    · rw [hempties, List.filter_eq_self.mpr]
      exact fun x hx => decide_eq_true ⟨Nat.zero_le _, hheld x hx⟩
    · have hcut : ∀ x ∈ pronunciationsAll (clamp part.1 part.2 0) (cut estimator part.1 part.2
          (fun seconds => seconds / estimator.speechSpeed (rate part) > budget part) false 0 root).toList,
            x ∈ pronunciations 0 root ∧ part.1 ≤ x.start ∧ x.stop ≤ part.2 :=
        pronunciations_cut (hparts.mem hpart).2.1.le false 0 root
      rwa [hclamp part hpart, ← sliceSSML_eq] at hcut

end Slices

/-- Each unit of a text takes one second. -/
def sampleEstimator : Estimator Nat Nat := ⟨List.length, fun _ text => text.length, fun _ => 1⟩

def named (localName : String) : Element := ⟨localName, []⟩

/-- A pause within the text and a pronunciation at its end. -/
theorem sliceSSML_whole_iff_pause :
    Whole (.element (named "speak")
        [.text [97, 98], .element (named "break") [], .element (named "sub") [.text [99, 100]]])
      [(0, 1), (1, 2), (2, 4)]
      fun part => sliceSSML sampleEstimator (indexSSML sampleEstimator (.element (named "speak")
        [.text [97, 98], .element (named "break") [], .element (named "sub") [.text [99, 100]]]))
        part.1 part.2 0 10 :=
  (sliceSSML_whole_iff sampleEstimator _ _ (by decide) _ _).mpr (by decide)

/-- A pause at the end of the text, or at the end of an element where a part begins, is in no
slice. -/
theorem pause_lost :
    (¬ Whole (.element (named "speak") [.text [97, 98], .element (named "break") []]) [(0, 2)]
      fun part => sliceSSML sampleEstimator (indexSSML sampleEstimator
        (.element (named "speak") [.text [97, 98], .element (named "break") []])) part.1 part.2 0 10) ∧
    ¬ Whole (.element (named "speak") [.element (named "s") [.text [97, 98], .element (named "break") []],
        .element (named "s") [.text [99, 100]]]) [(0, 2), (2, 4)]
      fun part => sliceSSML sampleEstimator (indexSSML sampleEstimator
        (.element (named "speak") [.element (named "s") [.text [97, 98], .element (named "break") []],
          .element (named "s") [.text [99, 100]]])) part.1 part.2 0 10 := by
  constructor
  · intro h
    have hempties := h.empties
    simp only [sliceSSML_eq] at hempties
    revert hempties
    decide
  · intro h
    have hempties := h.empties
    simp only [sliceSSML_eq] at hempties
    revert hempties
    decide

end ZReader.Frontend.SpeechTree
