import ZReader.Lib.Unicode

namespace Lib.Ecma

open Unicode

/-! ## Trimming -/

/-- The text of a script, read by code points. -/
abbrev Text := List Char

instance : LawfulBEq Text := inferInstance

def byteOrderMark : Char := '\uFEFF'

/-- White space and line terminators. Unlike elsewhere, the byte order mark is one of them and
the next line control is not. -/
def isWhiteSpace (c : Char) : Bool := c = byteOrderMark || isSpace c && c ≠ '\u0085'

/-- `String.prototype.trim`. -/
def trim (s : Text) : Text := (s.dropWhile isWhiteSpace).rdropWhile isWhiteSpace

/-- The text neither begins nor ends with a byte order mark. -/
def Unmarked (s : Text) : Prop := s.head? ≠ some byteOrderMark ∧ s.getLast? ≠ some byteOrderMark

instance (s : Text) : Decidable (Unmarked s) := inferInstanceAs (Decidable (_ ∧ _))

theorem dropWhile_eq_self_iff {p : Char → Bool} {s : Text} :
    s.dropWhile p = s ↔ ∀ c ∈ s.head?, p c = false := by
  cases s with
  | nil => simp
  | cons c rest =>
      by_cases hc : p c = true
      · rw [List.dropWhile_cons_of_pos hc]
        have hlen := (List.dropWhile_suffix (l := rest) p).length_le
        constructor
        · intro h
          rw [h, List.length_cons] at hlen
          omega
        · intro h
          simp [hc] at h
      · rw [List.dropWhile_cons_of_neg hc]
        simpa using hc

theorem rdropWhile_eq_self_iff {p : Char → Bool} {s : Text} :
    s.rdropWhile p = s ↔ ∀ c ∈ s.getLast?, p c = false := by
  rw [List.rdropWhile, ← List.head?_reverse, ← dropWhile_eq_self_iff]
  exact List.reverse_eq_iff

theorem trim_eq_self_iff {s : Text} :
    trim s = s ↔ (∀ c ∈ s.head?, isWhiteSpace c = false) ∧
      ∀ c ∈ s.getLast?, isWhiteSpace c = false := by
  rw [← dropWhile_eq_self_iff, ← rdropWhile_eq_self_iff, trim]
  constructor
  · intro h
    have hlen := (List.rdropWhile_prefix isWhiteSpace (s.dropWhile isWhiteSpace)).length_le
    have hdrop : s.dropWhile isWhiteSpace = s := by
      refine (List.dropWhile_suffix isWhiteSpace).eq_of_length_le ?_
      rwa [h] at hlen
    rw [hdrop] at h
    exact ⟨hdrop, h⟩
  · rintro ⟨hfront, hback⟩
    rw [hfront, hback]

/-- A text without white space of the other kind at its ends is changed by trimming exactly when a
byte order mark is there. -/
theorem trim_eq_self_iff_unmarked {s : Text} (hfront : s.dropWhile isSpace = s)
    (hback : s.rdropWhile isSpace = s) : trim s = s ↔ Unmarked s := by
  rw [dropWhile_eq_self_iff] at hfront
  rw [rdropWhile_eq_self_iff] at hback
  have hspace {c : Char} (hc : isSpace c = false) :
      isWhiteSpace c = false ↔ c ≠ byteOrderMark := by
    simp [isWhiteSpace, hc]
  rw [trim_eq_self_iff, Unmarked]
  constructor
  · rintro ⟨h₁, h₂⟩
    refine ⟨fun h => ?_, fun h => ?_⟩
    · exact (hspace (hfront _ h)).mp (h₁ _ h) rfl
    · exact (hspace (hback _ h)).mp (h₂ _ h) rfl
  · rintro ⟨h₁, h₂⟩
    refine ⟨fun c hc => (hspace (hfront c hc)).mpr ?_, fun c hc => (hspace (hback c hc)).mpr ?_⟩
    · rintro rfl
      exact h₁ hc
    · rintro rfl
      exact h₂ hc

/-! ## Plain objects -/

/-- What a property holds: a number, or another value that counts as true. -/
inductive Value
  | number (n : Int)
  | notANumber
  | truthy
  deriving DecidableEq

/-- The own properties of an object literal, the latest assignment first. -/
abbrev Properties := List (Text × Value)

/-- The properties that every object literal inherits. -/
def objectPrototype : List Text :=
  ["constructor".toList, "__defineGetter__".toList, "__defineSetter__".toList,
   "hasOwnProperty".toList, "__lookupGetter__".toList, "__lookupSetter__".toList,
   "isPrototypeOf".toList, "propertyIsEnumerable".toList, "toString".toList, "valueOf".toList,
   "__proto__".toList, "toLocaleString".toList]

/-- `o[name]`. -/
def get (o : Properties) (name : Text) : Option Value :=
  match o.lookup name with
  | some value => some value
  | none => if name ∈ objectPrototype then some .truthy else none

/-- `o[name] = value` for a number or a text: the inherited setter of `__proto__` ignores it. -/
def assign (o : Properties) (name : Text) (value : Value) : Properties :=
  if name = "__proto__".toList ∧ o.lookup name = none then o else (name, value) :: o

/-- `value || 0`. -/
def orZero : Option Value → Value
  | some .truthy => .truthy
  | some (.number n) => .number n
  | some .notANumber | none => .number 0

/-- `value + 1`, where another value is turned into a text. -/
def plusOne : Option Value → Value
  | some .truthy => .truthy
  | some (.number n) => .number (n + 1)
  | some .notANumber | none => .notANumber

/-- `o[name] || 0`. -/
def count (o : Properties) (name : Text) : Value := orZero (get o name)

/-- `o[name] = (o[name] || 0) + 1`. -/
def bump (o : Properties) (name : Text) : Properties := assign o name (plusOne (some (count o name)))

/-- `o[name] += 1`. -/
def addOne (o : Properties) (name : Text) : Properties := assign o name (plusOne (get o name))

theorem get_cons (o : Properties) (name other : Text) (value : Value) :
    get ((name, value) :: o) other = if other = name then some value else get o other := by
  by_cases h : other = name
  · simp [get, h]
  · have hne : (other == name) = false := beq_eq_false_iff_ne.mpr h
    simp [get, List.lookup_cons, h, hne]

/-- The object counts as `f` says, except under the inherited names. -/
def Tallies (f : Text → Int) (o : Properties) : Prop :=
  ∀ name, count o name = if name ∈ objectPrototype then .truthy else .number (f name)

theorem tallies_nil : Tallies (fun _ => 0) [] := by
  intro name
  rw [count, get, List.lookup_nil]
  simp only
  split <;> rfl

theorem Tallies.put {f : Text → Int} {o : Properties} (h : Tallies f o) {name : Text}
    (hname : name ∉ objectPrototype) (n : Int) :
    Tallies (Function.update f name n) ((name, .number n) :: o) := by
  intro other
  rw [count, get_cons]
  by_cases he : other = name
  · subst he
    rw [if_pos rfl, if_neg hname, Function.update_self]
    rfl
  · rw [if_neg he, Function.update_of_ne he]
    exact h other

theorem Tallies.bump {f : Text → Int} {o : Properties} (h : Tallies f o) (name : Text) :
    Tallies (Function.update f name (f name + 1)) (bump o name) := by
  rw [Ecma.bump, h name, assign]
  by_cases hname : name ∈ objectPrototype
  · -- an inherited value is not a number, and stays so when one is added
    have hother (other : Text) (ho : other ∉ objectPrototype) :
        Function.update f name (f name + 1) other = f other := by
      apply Function.update_of_ne
      rintro rfl
      exact ho hname
    intro other
    rw [if_pos hname]
    have hbase : count o other =
        if other ∈ objectPrototype then .truthy
        else .number (Function.update f name (f name + 1) other) := by
      rw [h other]
      split
      · rfl
      · next ho => rw [hother other ho]
    split
    · exact hbase
    · rw [count, get_cons]
      by_cases he : other = name
      · rw [if_pos he, he, if_pos hname]
        rfl
      · rw [if_neg he]
        exact hbase
  · have hproto : name ≠ "__proto__".toList := by
      rintro rfl
      exact hname (by decide +kernel)
    rw [if_neg hname, if_neg fun hc => hproto hc.1]
    exact h.put hname (f name + 1)

theorem Tallies.eq_of_get {f : Text → Int} {o : Properties} (h : Tallies f o) {name : Text}
    (hname : name ∉ objectPrototype) {n : Int} (hget : get o name = some (.number n)) :
    n = f name := by
  have hcount := h name
  rw [if_neg hname, count, hget] at hcount
  exact Value.number.inj hcount

theorem Tallies.addOne {f : Text → Int} {o : Properties} (h : Tallies f o) {name : Text}
    (hname : name ∉ objectPrototype) {n : Int} (hget : get o name = some (.number n)) :
    Tallies (Function.update f name (f name + 1)) (addOne o name) := by
  have hproto : name ≠ "__proto__".toList := by
    rintro rfl
    exact hname (by decide +kernel)
  rw [Ecma.addOne, hget, h.eq_of_get hname hget, assign, if_neg fun hc => hproto hc.1]
  exact h.put hname (f name + 1)

theorem get_assign_number {o : Properties} {name other : Text} {n : Int}
    (hget : get o name = some (.number n)) (value : Value)
    (hvalue : other = name → ∃ m, value = .number m) :
    ∃ m, get (assign o other value) name = some (.number m) := by
  rw [assign]
  split
  · exact ⟨n, hget⟩
  · rw [get_cons]
    split
    · next he =>
      obtain ⟨m, rfl⟩ := hvalue he.symm
      exact ⟨m, rfl⟩
    · exact ⟨n, hget⟩

/-- A number that is counted up stays a number. -/
theorem get_bump_number {o : Properties} {name : Text} {n : Int}
    (hget : get o name = some (.number n)) (other : Text) :
    ∃ m, get (bump o other) name = some (.number m) := by
  refine get_assign_number hget _ ?_
  rintro rfl
  exact ⟨n + 1, by rw [count, hget]; rfl⟩

theorem get_addOne_number {o : Properties} {name : Text} {n : Int}
    (hget : get o name = some (.number n)) (other : Text) :
    ∃ m, get (addOne o other) name = some (.number m) := by
  refine get_assign_number hget _ ?_
  rintro rfl
  exact ⟨n + 1, by rw [hget]; rfl⟩

/-- Properties that are spread over others. -/
theorem get_append (l : List (Text × Int)) (o : Properties) (name : Text) :
    get (l.map (fun p => (p.1, Value.number p.2)) ++ o) name =
      match l.lookup name with
      | some n => some (.number n)
      | none => get o name := by
  induction l with
  | nil => rfl
  | cons p l ih =>
      rw [List.map_cons, List.cons_append, get_cons, List.lookup_cons]
      by_cases he : name = p.1
      · simp [he]
      · have hne : (name == p.1) = false := beq_eq_false_iff_ne.mpr he
        rw [if_neg he, hne, ih]

end Lib.Ecma
