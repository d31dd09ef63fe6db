import ZReader.Frontend.SpeechSlices

namespace ZReader.Frontend.SpeechTree

/-! ## What a tree holds besides text -/

structure Ancestor where
  element : Element
  start : Nat
  stop : Nat
  deriving DecidableEq

/-- An element without content, with the elements around it from the outside in. -/
structure EmptyElement where
  ancestors : List Ancestor
  offset : Nat
  element : Element
  deriving DecidableEq

namespace EmptyElement

/-- An element around it that began earlier ends where it stands. -/
def closed (x : EmptyElement) : Bool :=
  x.ancestors.any fun y => y.stop == x.offset && y.start < x.offset

/-- Where an element is: the chain of elements around it and its offset in the text. -/
def place (x : EmptyElement) : List Element × Nat × Element :=
  (x.ancestors.map Ancestor.element, x.offset, x.element)

end EmptyElement

mutual

/-- The empty elements outside pronunciations. -/
def empties (ancestors : List Ancestor) (offset : Nat) : Node → List EmptyElement
  | .text _ => []
  | .element element children =>
      if isPronunciation element then []
      else if children.isEmpty then [⟨ancestors, offset, element⟩]
      else emptiesAll (ancestors ++ [⟨element, offset, offset + lengths children⟩]) offset children

def emptiesAll (ancestors : List Ancestor) (offset : Nat) : List Node → List EmptyElement
  | [] => []
  | child :: children =>
      empties ancestors offset child ++ emptiesAll ancestors (offset + length child) children

end

structure Pronunciation where
  element : Element
  start : Nat
  stop : Nat
  deriving DecidableEq

mutual

def pronunciations (offset : Nat) : Node → List Pronunciation
  | .text _ => []
  | .element element children =>
      (if isPronunciation element then [⟨element, offset, offset + lengths children⟩] else []) ++
        pronunciationsAll offset children

def pronunciationsAll (offset : Nat) : List Node → List Pronunciation
  | [] => []
  | child :: children => pronunciations offset child ++ pronunciationsAll (offset + length child) children

end

/-- Intervals without gaps from one offset to another, none of them empty. -/
def Consecutive : Nat → Nat → List (Nat × Nat) → Prop
  | start, stop, [] => start = stop
  | start, stop, part :: parts =>
      part.1 = start ∧ start < part.2 ∧ Consecutive part.2 stop parts

instance : ∀ start stop parts, Decidable (Consecutive start stop parts)
  | start, stop, [] => inferInstanceAs (Decidable (start = stop))
  | start, stop, part :: parts =>
    have := instDecidableConsecutive part.2 stop parts
    inferInstanceAs (Decidable (part.1 = start ∧ start < part.2 ∧ Consecutive part.2 stop parts))

/-- Slices over the parts of a text hold what the tree holds: the text, each empty element once
and in its place, and only whole pronunciations. -/
structure Whole (root : Node) (parts : List (Nat × Nat)) (part : Nat × Nat → Option Node) : Prop where
  some : ∀ p ∈ parts, (part p).isSome
  text : parts.flatMap (fun p => textContents (part p).toList) = textContent root
  empties : parts.flatMap (fun p => (emptiesAll [] p.1 (part p).toList).map EmptyElement.place) =
    (empties [] 0 root).map EmptyElement.place
  pronunciations : ∀ p ∈ parts, ∀ x ∈ pronunciationsAll p.1 (part p).toList,
    x ∈ pronunciations 0 root ∧ p.1 ≤ x.start ∧ x.stop ≤ p.2

/-! ## Text -/

section Text

variable {start stop : Nat}

theorem window_append (offset : Nat) (a b : Text) :
    window start stop offset (a ++ b) =
      window start stop offset a ++ window start stop (offset + a.length) b := by
  apply List.ext_getElem?
  intro i
  simp only [window, List.getElem?_drop, List.getElem?_take, List.getElem?_append,
    List.length_drop, List.length_take]
  grind

theorem window_outside {offset : Nat} {data : Text}
    (h : outside start stop offset (offset + data.length) = true) :
    window start stop offset data = [] := by
  simp only [outside, Bool.or_eq_true, Bool.and_eq_true, decide_eq_true_eq, beq_iff_eq] at h
  rw [window, List.drop_eq_nil_iff, List.length_take]
  omega

/-- An offset, moved into the slice. -/
def clamp (start stop offset : Nat) : Nat := min stop (max start offset)

theorem clamp_window (hle : start ≤ stop) (offset : Nat) (data : Text) :
    clamp start stop offset + (window start stop offset data).length =
      clamp start stop (offset + data.length) := by
  rw [clamp, clamp, window, List.length_drop, List.length_take]
  omega

variable {Seconds Rate : Type} [Zero Seconds] {estimator : Estimator Seconds Rate}
  {tooLong : Seconds → Bool}

mutual

theorem text_cut (inside : Bool) (offset : Nat) (node : Node) :
    textContents (cut estimator start stop tooLong inside offset node).toList =
      window start stop offset (textContent node) := by
  match node with
  | .text data =>
      rw [cut]
      split
      · next h => exact (window_outside h).symm
      · exact List.append_nil _
  | .element element children =>
      rw [cut]
      split
      · next h => exact (window_outside h).symm
      · split
        · exact List.append_nil _
        · exact (List.append_nil _).trans (text_cutAll _ offset children)

theorem text_cutAll (inside : Bool) (offset : Nat) (nodes : List Node) :
    textContents (cutAll estimator start stop tooLong inside offset nodes) =
      window start stop offset (textContents nodes) := by
  match nodes with
  | [] => simp [cutAll, textContents, window]
  | child :: children =>
      rw [cutAll, textContents_append, text_cut inside offset child,
        text_cutAll inside _ children, textContents, window_append]
      rfl

end

theorem clamp_cut (hle : start ≤ stop) (inside : Bool) (offset : Nat) (node : Node) :
    clamp start stop offset + lengths (cut estimator start stop tooLong inside offset node).toList =
      clamp start stop (offset + length node) := by
  rw [lengths, text_cut, clamp_window hle, length]

end Text

/-! ## The slices of a tree -/

section Slices

variable {Seconds Rate : Type} [Zero Seconds] [Div Seconds] [LT Seconds]
  [DecidableLT Seconds] (estimator : Estimator Seconds Rate)

theorem sliceSSML_eq (root : Node) (start stop : Nat) (rate : Rate) (budget : Seconds) :
    sliceSSML estimator (indexSSML estimator root) start stop rate budget =
      cut estimator start stop
        (fun seconds => seconds / estimator.speechSpeed rate > budget) false 0 root :=
  copy_visit estimator false root [] [] (by simp [indexSSML])

/-- A slice of a tree has its part of the text. -/
theorem text_sliceSSML (root : Node) (start stop : Nat) (rate : Rate) (budget : Seconds) :
    textContents (sliceSSML estimator (indexSSML estimator root) start stop rate budget).toList =
      slice (textContent root) start stop := by
  rw [sliceSSML_eq, text_cut]
  rfl

end Slices

end ZReader.Frontend.SpeechTree
