import ZReader.Frontend.SpeechTree

namespace ZReader.Frontend.SpeechTree

open Lib.Bisection

/-! ## Nodes -/

def length (node : Node) : Nat := (textContent node).length

def lengths (nodes : List Node) : Nat := (textContents nodes).length

@[simp] theorem length_text (data : Text) : length (.text data) = data.length := rfl

@[simp] theorem length_element (element : Element) (children : List Node) :
    length (.element element children) = lengths children := rfl

@[simp] theorem lengths_nil : lengths [] = 0 := rfl

@[simp] theorem lengths_cons (child : Node) (children : List Node) :
    lengths (child :: children) = length child + lengths children := List.length_append

theorem textContents_append (a b : List Node) :
    textContents (a ++ b) = textContents a ++ textContents b := by
  induction a with
  | nil => rfl
  | cons child children ih => rw [List.cons_append, textContents, textContents, ih, List.append_assoc]

/-! ## The slice of a node -/

section Cut

variable {Seconds Rate : Type} [Zero Seconds] (estimator : Estimator Seconds Rate)
  (start stop : Nat) (tooLong : Seconds → Bool)

/-- The part of a text at an offset that lies in the slice. -/
def window (offset : Nat) (data : Text) : Text := (data.take (stop - offset)).drop (start - offset)

/-- A pronunciation that the slice holds a part of only, or that takes too long. -/
def broken (insideAtomic : Bool) (offset : Nat) (element : Element) (children : List Node) : Bool :=
  isPronunciation element && (offset < start || offset + lengths children > stop ||
    tooLong (if isPronunciation element && !insideAtomic then
      estimator.pronunciationSeconds element (textContents children) else 0))

mutual

/-- The copy of a node at an offset, without the index. -/
def cut (insideAtomic : Bool) (offset : Nat) : Node → Option Node
  | .text data =>
      if outside start stop offset (offset + data.length) then none
      else some (.text (window start stop offset data))
  | .element element children =>
      if outside start stop offset (offset + lengths children) then none
      else if broken estimator start stop tooLong insideAtomic offset element children then
        some (.text (window start stop offset (textContents children)))
      else some (.element element (cutAll (insideAtomic || isPronunciation element) offset children))

def cutAll (insideAtomic : Bool) (offset : Nat) : List Node → List Node
  | [] => []
  | child :: children =>
      (cut insideAtomic offset child).toList ++ cutAll insideAtomic (offset + length child) children

end

end Cut

/-! ### The index has the offsets of the text -/

section Index

variable {Seconds Rate : Type} [Zero Seconds] (estimator : Estimator Seconds Rate)

theorem visit_start (inside : Bool) (offset : Nat) (node : Node) :
    (visit estimator inside offset node).start = offset := by
  cases node <;> rfl

mutual

theorem visit_stop (inside : Bool) (offset : Nat) (node : Node) :
    (visit estimator inside offset node).stop = offset + length node := by
  match node with
  | .text data => rfl
  | .element element children =>
      exact visitAll_stop (inside || isPronunciation element) offset children

theorem visitAll_stop (inside : Bool) (offset : Nat) (nodes : List Node) :
    ((visitAll estimator inside offset nodes).getLast?.map SpeechNode.stop).getD offset =
      offset + lengths nodes := by
  match nodes with
  | [] => rfl
  | [child] => simp [visitAll, visit_stop inside offset child]
  | child :: next :: children =>
      have hnext := visitAll_stop inside (offset + length child) (next :: children)
      rw [visitAll, visit_stop inside offset child, lengths_cons, ← Nat.add_assoc, ← hnext, visitAll,
        List.getLast?_cons_cons, List.getLast?_eq_getLast_of_ne_nil (List.cons_ne_nil _ _)]
      rfl

end

/-- The entries lie one after the other. -/
theorem visitAll_laid (inside : Bool) (offset : Nat) (nodes : List Node) :
    (∀ entry ∈ visitAll estimator inside offset nodes, offset ≤ entry.start ∧
      entry.start ≤ entry.stop) ∧
    (visitAll estimator inside offset nodes).Pairwise fun a b => a.stop ≤ b.start := by
  induction nodes generalizing offset with
  | nil => simp [visitAll]
  | cons child children ih =>
      obtain ⟨hmem, hlaid⟩ := ih (offset + length child)
      rw [visitAll, visit_stop]
      constructor
      · intro entry hentry
        rcases List.mem_cons.mp hentry with rfl | hentry
        · rw [visit_start, visit_stop]
          omega
        · have := hmem entry hentry
          omega
      · rw [List.pairwise_cons]
        refine ⟨fun entry hentry => ?_, hlaid⟩
        rw [visit_stop]
        exact (hmem entry hentry).1

end Index

/-! ### The copy is the slice -/

section Copy

variable {Seconds Rate : Type} {text : Text} {start stop : Nat} {tooLong : Seconds → Bool}

theorem copy_outside {entry : SpeechNode Seconds}
    (h : outside start stop entry.start entry.stop = true) :
    copy text start stop tooLong entry = none := by
  obtain ⟨node, first, last, children, atomic, seconds⟩ := entry
  cases node <;> (rw [copy]; exact if_pos h)

theorem copyFrom_zero {entries : List (SpeechNode Seconds)}
    (hlaid : entries.Pairwise fun a b => a.start ≤ b.start) :
    copyFrom text start stop tooLong 0 entries =
      entries.filterMap (copy text start stop tooLong) := by
  induction entries with
  | nil => rfl
  | cons entry entries ih =>
      rw [List.pairwise_cons] at hlaid
      rw [copyFrom, ih hlaid.2]
      split
      · cases hcopy : copy text start stop tooLong entry with
        | none => simp [hcopy]
        | some node => simp [hcopy]
      · have hnone : ∀ e ∈ entry :: entries, copy text start stop tooLong e = none := by
          intro e he
          apply copy_outside
          have hle : entry.start ≤ e.start := by
            rcases List.mem_cons.mp he with rfl | he
            · exact le_refl _
            · exact hlaid.1 e he
          simp only [outside, Bool.or_eq_true, decide_eq_true_eq]
          omega
        exact (List.filterMap_eq_nil_iff.mpr hnone).symm

theorem copyFrom_append (front back : List (SpeechNode Seconds)) :
    copyFrom text start stop tooLong front.length (front ++ back) =
      copyFrom text start stop tooLong 0 back := by
  induction front with
  | nil => rfl
  | cons entry front ih => rw [List.length_cons, List.cons_append, copyFrom, ih]

/-- The search skips nothing that the copy would keep. -/
theorem copyFrom_firstEndingAfter {entries : List (SpeechNode Seconds)}
    (hwithin : ∀ entry ∈ entries, entry.start ≤ entry.stop)
    (hlaid : entries.Pairwise fun a b => a.stop ≤ b.start) :
    copyFrom text start stop tooLong (firstEndingAfter SpeechNode.stop entries start true) entries =
      entries.filterMap (copy text start stop tooLong) := by
  have hmono : entries.Pairwise fun a b =>
      decide (a.stop ≥ start) = true → decide (b.stop ≥ start) = true := by
    refine hlaid.imp_of_mem fun {a b} _ hb hab => ?_
    have := hwithin b hb
    simp only [decide_eq_true_eq]
    omega
  obtain ⟨front, back, rfl, hfront, hback, hfirst⟩ := exists_first _ hmono
  have hstarts : back.Pairwise fun a b => a.start ≤ b.start := by
    refine (List.pairwise_append.mp hlaid).2.1.imp_of_mem fun {a b} ha hb hab => ?_
    have := hwithin a (List.mem_append_right front ha)
    omega
  have hskip : front.filterMap (copy text start stop tooLong) = [] := by
    rw [List.filterMap_eq_nil_iff]
    intro entry hentry
    apply copy_outside
    have := hfront entry hentry
    simp only [decide_eq_false_iff_not] at this
    simp only [outside, Bool.or_eq_true, decide_eq_true_eq]
    omega
  have hindex : firstEndingAfter SpeechNode.stop (front ++ back) start true = front.length := hfirst
  rw [hindex, copyFrom_append, copyFrom_zero hstarts, List.filterMap_append, hskip, List.nil_append]

theorem slice_window (start stop : Nat) (front data back : Text) :
    slice (front ++ data ++ back) (max start front.length)
      (min stop (front.length + data.length)) = window start stop front.length data := by
  apply List.ext_getElem?
  intro i
  simp only [slice, window, List.getElem?_drop, List.getElem?_take, List.getElem?_append]
  grind

variable [Zero Seconds] (estimator : Estimator Seconds Rate)

mutual

theorem copy_visit (inside : Bool) (node : Node) (front back : Text)
    (htext : text = front ++ textContent node ++ back) :
    copy text start stop tooLong (visit estimator inside front.length node) =
      cut estimator start stop tooLong inside front.length node := by
  match node with
  | .text data =>
      rw [visit, copy, cut]
      split
      · rfl
      · rw [htext]
        exact congrArg (fun data => some (Node.text data)) (slice_window _ _ front data back)
  | .element element children =>
      have hstop := visitAll_stop estimator (inside || isPronunciation element) front.length children
      have hlaid := visitAll_laid estimator (inside || isPronunciation element) front.length children
      have hslice := slice_window start stop front (textContents children) back
      rw [textContent] at htext
      rw [visit, copy, cut]
      simp only [hstop, copyFrom_firstEndingAfter (fun entry he => (hlaid.1 entry he).2) hlaid.2,
        copyAll_visitAll (inside || isPronunciation element) children front back htext]
      rw [htext, ← hslice]
      rfl

theorem copyAll_visitAll (inside : Bool) (nodes : List Node)
    (front back : Text) (htext : text = front ++ textContents nodes ++ back) :
    (visitAll estimator inside front.length nodes).filterMap (copy text start stop tooLong) =
      cutAll estimator start stop tooLong inside front.length nodes := by
  match nodes with
  | [] => rfl
  | child :: children =>
      have hhead := copy_visit inside child front (textContents children ++ back)
        (htext.trans (by rw [textContents]; simp only [List.append_assoc]))
      have htail := copyAll_visitAll inside children (front ++ textContent child) back
        (htext.trans (by rw [textContents]; simp only [List.append_assoc]))
      rw [List.length_append] at htail
      rw [visitAll, cutAll, visit_stop, List.filterMap_cons, hhead]
      rw [length, htail]
      cases cut estimator start stop tooLong inside front.length child <;> rfl

end

end Copy

end ZReader.Frontend.SpeechTree
