import ZReader.Lib.Bisection
import ZReader.Lib.Ecma

namespace ZReader.Frontend

namespace SpeechTree

open Lib.Bisection

/-- Strings, as the code units of their UTF-16 form. -/
abbrev Text := List UInt16

/-- `text.slice(start, end)`. -/
def slice (text : Text) (start stop : Nat) : Text := (text.take stop).drop start

structure Element where
  localName : String
  attributes : List (String × Text)
  deriving DecidableEq

inductive Node
  /-- A text node or a CDATA section. -/
  | text (data : Text)
  | element (element : Element) (children : List Node)

mutual

def textContent : Node → Text
  | .text data => data
  | .element _ children => textContents children

def textContents : List Node → Text
  | [] => []
  | child :: children => textContent child ++ textContents children

end

/-! ## The index -/

/-- `firstEndingAfter`: looks for an offset among entries in the order of their ends. -/
def firstEndingAfter {T : Type} (stop : T → Nat) (entries : List T) (offset : Nat)
    (inclusive : Bool) : Nat :=
  first (fun i => (entries[i]?).any fun entry =>
    if inclusive then stop entry ≥ offset else stop entry > offset) 0 entries.length

def isPronunciation (element : Element) : Bool :=
  element.localName.toList.map Char.toLower ∈ ["phoneme".toList, "sub".toList, "say-as".toList]

/-- The timing of speech. Its arithmetic is that of floating-point numbers, of which nothing is
assumed. -/
structure Estimator (Seconds Rate : Type) where
  estimateTTSDuration : Text → Seconds
  /-- The longest of the estimates for the text, for the override and for its spelling. -/
  pronunciationSeconds : Element → Text → Seconds
  speechSpeed : Rate → Seconds

/-- An indexed node, with the element for `node` unless it is text. -/
inductive SpeechNode (Seconds : Type)
  | mk (node : Option Element) (start stop : Nat) (children : List (SpeechNode Seconds))
    (atomic : Bool) (pronunciationSeconds : Seconds)

namespace SpeechNode

variable {Seconds : Type}

def start : SpeechNode Seconds → Nat
  | ⟨_, start, _, _, _, _⟩ => start

def stop : SpeechNode Seconds → Nat
  | ⟨_, _, stop, _, _, _⟩ => stop

def atomic : SpeechNode Seconds → Bool
  | ⟨_, _, _, _, atomic, _⟩ => atomic

def pronunciationSeconds : SpeechNode Seconds → Seconds
  | ⟨_, _, _, _, _, seconds⟩ => seconds

end SpeechNode

end SpeechTree

structure SpeechTree (Seconds : Type) where
  root : SpeechTree.SpeechNode Seconds
  text : SpeechTree.Text
  atomics : List (SpeechTree.SpeechNode Seconds)

namespace SpeechTree

variable {Seconds Rate : Type}

section Index

variable [Zero Seconds] (estimator : Estimator Seconds Rate)

mutual

/-- Only the outermost pronunciation elements get their own timing. -/
def visit (insideAtomic : Bool) (offset : Nat) : Node → SpeechNode Seconds
  | .text data => ⟨none, offset, offset + data.length, [], false, 0⟩
  | .element element children =>
      let atomic := isPronunciation element
      let entries := visitAll (insideAtomic || atomic) offset children
      ⟨some element, offset, (entries.getLast?.map SpeechNode.stop).getD offset, entries, atomic,
        if atomic && !insideAtomic then
          estimator.pronunciationSeconds element (textContents children) else 0⟩

def visitAll (insideAtomic : Bool) (offset : Nat) : List Node → List (SpeechNode Seconds)
  | [] => []
  | child :: children =>
      let entry := visit insideAtomic offset child
      entry :: visitAll insideAtomic entry.stop children

end

mutual

/-- The outermost pronunciation elements in the order of the document. -/
def atomicsOf : SpeechNode Seconds → List (SpeechNode Seconds)
  | ⟨node, start, stop, children, atomic, seconds⟩ =>
      if atomic then [⟨node, start, stop, children, atomic, seconds⟩] else atomicsOfAll children

def atomicsOfAll : List (SpeechNode Seconds) → List (SpeechNode Seconds)
  | [] => []
  | entry :: entries => atomicsOf entry ++ atomicsOfAll entries

end

/-- The order by start, and from the longest to the shortest at one place. -/
def before (a b : SpeechNode Seconds) : Bool :=
  a.start < b.start || a.start == b.start && b.stop ≤ a.stop

def indexSSML (root : Node) : SpeechTree Seconds :=
  let indexedRoot := visit estimator false 0 root
  ⟨indexedRoot, textContent root, (atomicsOf indexedRoot).mergeSort before⟩

end Index

/-! ## Slices -/

section Copy

variable (text : Text) (start stop : Nat) (tooLong : Seconds → Bool)

/-- A child that a slice starting or ending at the given offsets leaves out. -/
def outside (first last : Nat) : Bool :=
  last < start || first ≥ stop || last == start && first < start

mutual

def copy : SpeechNode Seconds → Option Node
  | ⟨node, first, last, children, atomic, seconds⟩ =>
      if outside start stop first last then none
      else
        match node with
        | none => some (.text (slice text (max start first) (min stop last)))
        | some element =>
            -- A pronunciation cannot be given for a part of a text.
            if atomic && (first < start || last > stop || tooLong seconds) then
              some (.text (slice text (max start first) (min stop last)))
            else
              some (.element element
                (copyFrom (firstEndingAfter SpeechNode.stop children start true) children))

/-- The copies of the children from an index on, up to the first that starts too late. -/
def copyFrom : Nat → List (SpeechNode Seconds) → List Node
  | _, [] => []
  | index + 1, _ :: entries => copyFrom index entries
  | 0, entry :: entries =>
      if entry.start < stop then (copy entry).toList ++ copyFrom 0 entries else []

end

end Copy

section Duration

variable [Add Seconds] [Sub Seconds] [Div Seconds] [LT Seconds] [DecidableLT Seconds]
  (estimator : Estimator Seconds Rate)

def sliceSSML (tree : SpeechTree Seconds) (start stop : Nat) (rate : Rate) (budget : Seconds) :
    Option Node :=
  copy tree.text start stop (fun seconds => seconds / estimator.speechSpeed rate > budget) tree.root

/-- Adds what pronunciations take longer than their texts, from the first that ends after the
start on. -/
def pronunciationsWithin (text : Text) (start stop : Nat) (tooLong : Seconds → Bool) :
    Seconds → List (SpeechNode Seconds) → Seconds
  | seconds, [] => seconds
  | seconds, atomic :: atomics =>
      if atomic.start < stop then
        if atomic.start < start || atomic.stop > stop || tooLong atomic.pronunciationSeconds then
          pronunciationsWithin text start stop tooLong seconds atomics
        else
          pronunciationsWithin text start stop tooLong
            (seconds + (atomic.pronunciationSeconds -
              estimator.estimateTTSDuration (slice text atomic.start atomic.stop))) atomics
      else seconds

def slicedDuration (tree : SpeechTree Seconds) (start stop : Nat) (rate : Rate)
    (budget : Seconds) : Seconds :=
  let speed := estimator.speechSpeed rate
  pronunciationsWithin estimator tree.text start stop (fun seconds => seconds / speed > budget)
    (estimator.estimateTTSDuration (slice tree.text start stop))
    (tree.atomics.drop (firstEndingAfter SpeechNode.stop tree.atomics start false)) / speed

end Duration

end SpeechTree

end ZReader.Frontend
