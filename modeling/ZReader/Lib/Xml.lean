import ZReader.Lib.Ecma

namespace Lib.Xml

open Ecma

/-! ## Attribute values -/

/-- The characters that a document may hold. -/
def isXmlChar (c : Char) : Bool :=
  c = '\t' || c = '\n' || c = '\r' || (' ' ≤ c && c ≠ '\uFFFE' && c ≠ '\uFFFF')

def hexDigit (c : Char) : Option Nat :=
  if '0' ≤ c ∧ c ≤ '9' then some (c.toNat - 48)
  else if 'a' ≤ c ∧ c ≤ 'f' then some (c.toNat - 87)
  else if 'A' ≤ c ∧ c ≤ 'F' then some (c.toNat - 55)
  else none

def digit (c : Char) : Option Nat := if '0' ≤ c ∧ c ≤ '9' then some (c.toNat - 48) else none

def number (base : Nat) (digit : Char → Option Nat) : Text → Option Nat
  | [] => none
  | s => s.foldlM (fun n c => (digit c).map (n * base + ·)) 0

/-- A character by its number, unless a document may not hold it. -/
def character (n : Nat) : Option Char :=
  if h : n.isValidChar then
    let c := Char.ofNatAux n h
    if isXmlChar c then some c else none
  else none

/-- What stands between `&` and `;` in a reference to a character. -/
def reference (name : Text) : Option Char :=
  match name with
  | ['a', 'm', 'p'] => some '&'
  | ['l', 't'] => some '<'
  | ['g', 't'] => some '>'
  | ['q', 'u', 'o', 't'] => some '"'
  | ['a', 'p', 'o', 's'] => some '\''
  | '#' :: 'x' :: digits => (number 16 hexDigit digits).bind character
  | '#' :: digits => (number 10 digit digits).bind character
  | _ => none

/-- The value of an attribute, from inside a reference or not. White space is read as blanks, a
line end of two characters as one; a value that is not well-formed has none. -/
def decodeFrom : Option Text → Text → Option Text
  | none, [] => some []
  | some _, [] => none
  | none, c :: s =>
      if c = '&' then decodeFrom (some []) s
      else if c = '<' ∨ isXmlChar c = false then none
      else if c = '\r' ∧ s.head? = some '\n' then decodeFrom none s
      else (decodeFrom none s).map ((if c = '\t' ∨ c = '\n' ∨ c = '\r' then ' ' else c) :: ·)
  | some name, c :: s =>
      if c = ';' then (reference name).bind fun d => (decodeFrom none s).map (d :: ·)
      else decodeFrom (some (name ++ [c])) s

def decodeAttribute (s : Text) : Option Text := decodeFrom none s

/-- An attribute can hold the character and keeps it. -/
def isPlain (c : Char) : Bool := isXmlChar c && c ≠ '\t' && c ≠ '\n' && c ≠ '\r'

/-! ## Escaping -/

/-- `s.replace(/c/g, r)`. -/
def replaceAll (c : Char) (r s : Text) : Text := s.flatMap fun d => if d = c then r else [d]

/-- The four characters that writers of documents escape. -/
def escapeChar (c : Char) : Text :=
  if c = '&' then ['&', 'a', 'm', 'p', ';']
  else if c = '"' then ['&', 'q', 'u', 'o', 't', ';']
  else if c = '<' then ['&', 'l', 't', ';']
  else if c = '>' then ['&', 'g', 't', ';']
  else [c]

/-- What a reader makes of the characters of a value: white space is read as blanks, a line end
of two characters as one. -/
def normalizeAttribute : Text → Option Text
  | [] => some []
  | c :: s =>
      if isXmlChar c = false then none
      else if c = '\r' ∧ s.head? = some '\n' then normalizeAttribute s
      else (normalizeAttribute s).map ((if c = '\t' ∨ c = '\n' ∨ c = '\r' then ' ' else c) :: ·)

theorem head?_flatMap_escapeChar (s : Text) :
    (s.flatMap escapeChar).head? = some '\n' ↔ s.head? = some '\n' := by
  cases s with
  | nil => rfl
  | cons c s =>
      rw [List.flatMap_cons, escapeChar, List.head?_cons]
      split_ifs with hamp hquot hlt hgt
      · subst hamp
        simp
      · subst hquot
        simp
      · subst hlt
        simp
      · subst hgt
        simp
      · rfl

/-- A reader reads escaped text as characters. -/
theorem decodeAttribute_escape (s : Text) :
    decodeAttribute (s.flatMap escapeChar) = normalizeAttribute s := by
  induction s with
  | nil => rfl
  | cons c s ih =>
      rw [decodeAttribute] at ih ⊢
      rw [List.flatMap_cons, escapeChar]
      by_cases hamp : c = '&'
      · subst hamp
        simp [decodeFrom, reference, ih, normalizeAttribute, isXmlChar]
      by_cases hquot : c = '"'
      · subst hquot
        simp [decodeFrom, reference, ih, normalizeAttribute, isXmlChar]
      by_cases hlt : c = '<'
      · subst hlt
        simp [decodeFrom, reference, ih, normalizeAttribute, isXmlChar]
      by_cases hgt : c = '>'
      · subst hgt
        simp [decodeFrom, reference, ih, normalizeAttribute, isXmlChar]
      · simp only [hamp, hquot, hlt, hgt, if_false, List.singleton_append, decodeFrom, false_or,
          head?_flatMap_escapeChar, ih, normalizeAttribute]

/-- Text that attributes can hold is kept. -/
theorem normalizeAttribute_plain {s : Text} (h : ∀ c ∈ s, isPlain c = true) :
    normalizeAttribute s = some s := by
  induction s with
  | nil => rfl
  | cons c s ih =>
      have hc := h c (by simp)
      have hs := ih fun d hd => h d (List.mem_cons_of_mem c hd)
      simp only [isPlain, Bool.and_eq_true, decide_eq_true_eq, ne_eq] at hc
      simp [normalizeAttribute, hc, hs]

end Lib.Xml
