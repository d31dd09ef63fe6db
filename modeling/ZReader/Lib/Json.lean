import Mathlib

namespace Lib.Json

/-! ## Values -/

/-- A number as it is written. -/
structure Number where
  negative : Bool
  whole : Nat
  /-- The digits behind the point. -/
  fraction : Option (List Nat)
  exponent : Option Int
  deriving DecidableEq

namespace Number

/-- Written without a fraction and without an exponent. -/
def Plain (n : Number) : Prop := n.fraction = none ∧ n.exponent = none

instance (n : Number) : Decidable n.Plain := inferInstanceAs (Decidable (_ ∧ _))

def sign (n : Number) : Int := if n.negative then -1 else 1

def value (n : Number) : ℚ :=
  n.sign * (n.whole + (n.fraction.getD []).foldr (fun d v => ((d : ℚ) + v) / 10) 0) * 10 ^ n.exponent.getD 0

theorem value_plain {n : Number} (h : n.Plain) : n.value = (n.sign * n.whole : Int) := by
  simp [value, h.1, h.2]

end Number

inductive Value
  | null
  | bool (b : Bool)
  | number (n : Number)
  | string (s : List Char)
  | array (values : List Value)
  | object (members : List (List Char × Value))

mutual

/-- How deep arrays and objects are nested. -/
def depth : Value → Nat
  | .array values => depths values + 1
  | .object members => memberDepths members + 1
  | _ => 0

def depths : List Value → Nat
  | [] => 0
  | v :: values => max (depth v) (depths values)

def memberDepths : List (List Char × Value) → Nat
  | [] => 0
  | (_, v) :: members => max (depth v) (memberDepths members)

end

/-! ## Reading -/

def isBlank (c : Char) : Bool := c = ' ' || c = '\t' || c = '\n' || c = '\r'

def skip (s : List Char) : List Char := s.dropWhile isBlank

def isDigit (c : Char) : Bool := '0' ≤ c && c ≤ '9'

def digits (s : List Char) : List Nat := (s.takeWhile isDigit).map fun c => c.toNat - 48

def afterDigits (s : List Char) : List Char := s.dropWhile isDigit

def natural (ds : List Nat) : Nat := ds.foldl (fun n d => n * 10 + d) 0

/-- The digits behind a point, if there is one. -/
def fraction : List Char → Option (Option (List Nat) × List Char)
  | '.' :: s => if digits s = [] then none else some (some (digits s), afterDigits s)
  | s => some (none, s)

def exponentDigits (negative : Bool) (s : List Char) : Option (Option Int × List Char) :=
  if digits s = [] then none
  else some (some (if negative then -natural (digits s) else natural (digits s)), afterDigits s)

def exponent : List Char → Option (Option Int × List Char)
  | c :: s =>
      if c = 'e' ∨ c = 'E' then
        match s with
        | '+' :: s => exponentDigits false s
        | '-' :: s => exponentDigits true s
        | s => exponentDigits false s
      else some (none, c :: s)
  | [] => some (none, [])

def unsigned (negative : Bool) (s : List Char) : Option (Number × List Char) :=
  -- No digit may follow a leading zero.
  if digits s = [] ∨ (digits s).head? = some 0 ∧ (digits s).length ≠ 1 then none
  else
    (fraction (afterDigits s)).bind fun f =>
      (exponent f.2).map fun e => (⟨negative, natural (digits s), f.1, e.1⟩, e.2)

def number : List Char → Option (Number × List Char)
  | '-' :: s => unsigned true s
  | s => unsigned false s

def hexDigit (c : Char) : Option Nat :=
  if '0' ≤ c ∧ c ≤ '9' then some (c.toNat - 48)
  else if 'a' ≤ c ∧ c ≤ 'f' then some (c.toNat - 87)
  else if 'A' ≤ c ∧ c ≤ 'F' then some (c.toNat - 55)
  else none

/-- A character behind a backslash. -/
def escaped : Char → Option Char
  | '"' => some '"'
  | '\\' => some '\\'
  | '/' => some '/'
  | 'b' => some '\x08'
  | 'f' => some '\x0c'
  | 'n' => some '\n'
  | 'r' => some '\r'
  | 't' => some '\t'
  | _ => none

/-- The characters and the escaped code units of a string, up to the quote at its end. -/
def units : List Char → Option (List (Char ⊕ Nat) × List Char)
  | [] => none
  | '"' :: s => some ([], s)
  | '\\' :: 'u' :: a :: b :: c :: d :: s =>
      match hexDigit a, hexDigit b, hexDigit c, hexDigit d with
      | some a, some b, some c, some d =>
          (units s).map fun p => (.inr (((a * 16 + b) * 16 + c) * 16 + d) :: p.1, p.2)
      | _, _, _, _ => none
  | '\\' :: c :: s =>
      match escaped c with
      | some c => (units s).map fun p => (.inl c :: p.1, p.2)
      | none => none
  | c :: s => if c = '\\' ∨ c < ' ' then none else (units s).map fun p => (.inl c :: p.1, p.2)

/-- Two escaped surrogates make a character; others become U+FFFD. -/
def join : List (Char ⊕ Nat) → List Char
  | [] => []
  | .inl c :: us => c :: join us
  | .inr u :: us =>
      if u < 0xD800 ∨ 0xDFFF < u then Char.ofNat u :: join us
      else
        match us with
        | .inr v :: rest =>
            if u < 0xDC00 ∧ 0xDC00 ≤ v ∧ v ≤ 0xDFFF then
              Char.ofNat (0x10000 + (u - 0xD800) * 0x400 + (v - 0xDC00)) :: join rest
            else '\uFFFD' :: join (.inr v :: rest)
        | us => '\uFFFD' :: join us

def string (s : List Char) : Option (List Char × List Char) :=
  (units s).map fun p => (join p.1, p.2)

mutual

/-- A value and what follows it, with a bound on the number of calls. -/
def readValue : Nat → List Char → Option (Value × List Char)
  | 0, _ => none
  | n + 1, s =>
      match skip s with
      | 'n' :: 'u' :: 'l' :: 'l' :: s => some (.null, s)
      | 't' :: 'r' :: 'u' :: 'e' :: s => some (.bool true, s)
      | 'f' :: 'a' :: 'l' :: 's' :: 'e' :: s => some (.bool false, s)
      | '"' :: s => (string s).map fun p => (.string p.1, p.2)
      | '[' :: s =>
          match skip s with
          | ']' :: s => some (.array [], s)
          | s => (elements n s).map fun p => (.array p.1, p.2)
      | '{' :: s =>
          match skip s with
          | '}' :: s => some (.object [], s)
          | s => (members n s).map fun p => (.object p.1, p.2)
      | s => (number s).map fun p => (.number p.1, p.2)

def elements : Nat → List Char → Option (List Value × List Char)
  | 0, _ => none
  | n + 1, s =>
      (readValue n s).bind fun v =>
        match skip v.2 with
        | ',' :: s => (elements n s).map fun p => (v.1 :: p.1, p.2)
        | ']' :: s => some ([v.1], s)
        | _ => none

def members : Nat → List Char → Option (List (List Char × Value) × List Char)
  | 0, _ => none
  | n + 1, s =>
      match skip s with
      | '"' :: s =>
          (string s).bind fun name =>
            match skip name.2 with
            | ':' :: s =>
                (readValue n s).bind fun v =>
                  match skip v.2 with
                  | ',' :: s => (members n s).map fun p => ((name.1, v.1) :: p.1, p.2)
                  | '}' :: s => some ([(name.1, v.1)], s)
                  | _ => none
            | _ => none
      | _ => none

end

/-- A text that is one value. -/
def parse (s : List Char) : Option Value :=
  (readValue (2 * s.length + 1) s).bind fun p => if skip p.2 = [] then some p.1 else none

/-! ### The bound is large enough -/

theorem skip_le (s : List Char) : (skip s).length ≤ s.length := List.length_dropWhile_le _ _

theorem afterDigits_le (s : List Char) : (afterDigits s).length ≤ s.length :=
  List.length_dropWhile_le _ _

theorem afterDigits_lt {s : List Char} (h : digits s ≠ []) : (afterDigits s).length < s.length := by
  cases s with
  | nil => exact absurd rfl h
  | cons c s =>
      have hc : isDigit c = true := by
        by_contra hc
        exact h (by simp [digits, hc])
      rw [afterDigits, List.dropWhile_cons, if_pos hc, List.length_cons]
      have := List.length_dropWhile_le isDigit s
      omega

theorem fraction_le {s rest : List Char} {f : Option (List Nat)} (h : fraction s = some (f, rest)) :
    rest.length ≤ s.length := by
  rw [fraction.eq_def] at h
  split at h
  · next t =>
    split_ifs at h
    cases h
    have := afterDigits_le t
    rw [List.length_cons]
    omega
  · cases h
    exact Nat.le_refl _

theorem exponentDigits_le {negative : Bool} {s rest : List Char} {e : Option Int}
    (h : exponentDigits negative s = some (e, rest)) : rest.length ≤ s.length := by
  rw [exponentDigits] at h
  by_cases hnil : digits s = []
  · rw [if_pos hnil] at h
    cases h
  · rw [if_neg hnil] at h
    cases h
    exact afterDigits_le s

theorem exponent_le {s rest : List Char} {e : Option Int} (h : exponent s = some (e, rest)) :
    rest.length ≤ s.length := by
  rw [exponent.eq_def] at h
  split at h
  · next c s =>
    split_ifs at h
    · split at h
      · have := exponentDigits_le h
        simp only [List.length_cons]
        omega
      · have := exponentDigits_le h
        simp only [List.length_cons]
        omega
      · have := exponentDigits_le h
        rw [List.length_cons]
        omega
    · cases h
      exact Nat.le_refl _
  · cases h
    exact Nat.le_refl _

theorem unsigned_lt {negative : Bool} {s rest : List Char} {n : Number}
    (h : unsigned negative s = some (n, rest)) : rest.length < s.length := by
  rw [unsigned] at h
  split_ifs at h with hdigits
  obtain ⟨f, hf, h⟩ := Option.bind_eq_some_iff.mp h
  obtain ⟨e, he, h⟩ := Option.map_eq_some_iff.mp h
  cases h
  have := afterDigits_lt (s := s) (fun hnil => hdigits (.inl hnil))
  have := fraction_le hf
  have := exponent_le he
  omega

theorem number_lt {s rest : List Char} {n : Number} (h : number s = some (n, rest)) :
    rest.length < s.length := by
  rw [number.eq_def] at h
  split at h
  · have := unsigned_lt h
    rw [List.length_cons]
    omega
  · exact unsigned_lt h

theorem units_lt {s rest : List Char} {us : List (Char ⊕ Nat)} (h : units s = some (us, rest)) :
    rest.length < s.length := by
  fun_induction units s generalizing us with
  | case1 => cases h
  | case2 s =>
      cases h
      simp
  | case3 a b c d s _ _ _ _ _ _ _ _ ih =>
      obtain ⟨p, hp, h⟩ := Option.map_eq_some_iff.mp h
      cases h
      have := ih hp
      simp only [List.length_cons]
      omega
  | case4 => cases h
  | case5 c s _ _ _ ih =>
      obtain ⟨p, hp, h⟩ := Option.map_eq_some_iff.mp h
      cases h
      have := ih hp
      simp only [List.length_cons]
      omega
  | case6 => cases h
  | case7 => cases h
  | case8 c s _ _ _ _ ih =>
      obtain ⟨p, hp, h⟩ := Option.map_eq_some_iff.mp h
      cases h
      have := ih hp
      simp only [List.length_cons]
      omega

theorem string_lt {s rest text : List Char} (h : string s = some (text, rest)) :
    rest.length < s.length := by
  obtain ⟨p, hp, h⟩ := Option.map_eq_some_iff.mp h
  cases h
  exact units_lt hp

/-- What is read is taken from the text. -/
theorem read_lt (n : Nat) :
    (∀ s v rest, readValue n s = some (v, rest) → rest.length < s.length) ∧
    (∀ s vs rest, elements n s = some (vs, rest) → rest.length < s.length) ∧
    ∀ s ms rest, members n s = some (ms, rest) → rest.length < s.length := by
  induction n with
  | zero =>
      refine ⟨fun _ _ _ h => ?_, fun _ _ _ h => ?_, fun _ _ _ h => ?_⟩
      · cases h
      · cases h
      · cases h
  | succ n ih =>
      obtain ⟨hvalue, helements, hmembers⟩ := ih
      refine ⟨fun s v rest h => ?_, fun s vs rest h => ?_, fun s ms rest h => ?_⟩
      · have hs := skip_le s
        rw [readValue] at h
        split at h
        · next t ht =>
          cases h
          rw [ht] at hs
          simp only [List.length_cons] at hs
          omega
        · next t ht =>
          cases h
          rw [ht] at hs
          simp only [List.length_cons] at hs
          omega
        · next t ht =>
          cases h
          rw [ht] at hs
          simp only [List.length_cons] at hs
          omega
        · next t ht =>
          obtain ⟨p, hp, h⟩ := Option.map_eq_some_iff.mp h
          cases h
          have := string_lt hp
          rw [ht, List.length_cons] at hs
          omega
        · next t ht =>
          have ht' := skip_le t
          rw [ht, List.length_cons] at hs
          split at h
          · next u hu =>
            cases h
            rw [hu, List.length_cons] at ht'
            omega
          · obtain ⟨p, hp, h⟩ := Option.map_eq_some_iff.mp h
            cases h
            have := helements _ _ _ hp
            omega
        · next t ht =>
          have ht' := skip_le t
          rw [ht, List.length_cons] at hs
          split at h
          · next u hu =>
            cases h
            rw [hu, List.length_cons] at ht'
            omega
          · obtain ⟨p, hp, h⟩ := Option.map_eq_some_iff.mp h
            cases h
            have := hmembers _ _ _ hp
            omega
        · obtain ⟨p, hp, h⟩ := Option.map_eq_some_iff.mp h
          cases h
          have := number_lt hp
          omega
      · rw [elements] at h
        obtain ⟨v, hv, h⟩ := Option.bind_eq_some_iff.mp h
        have hlt := hvalue _ _ _ hv
        have hs := skip_le v.2
        split at h
        · next t ht =>
          obtain ⟨p, hp, h⟩ := Option.map_eq_some_iff.mp h
          cases h
          have := helements _ _ _ hp
          rw [ht, List.length_cons] at hs
          omega
        · next t ht =>
          cases h
          rw [ht, List.length_cons] at hs
          omega
        · cases h
      · rw [members] at h
        have hs := skip_le s
        split at h
        · next t ht =>
          obtain ⟨name, hname, h⟩ := Option.bind_eq_some_iff.mp h
          have hlt := string_lt hname
          have hs' := skip_le name.2
          rw [ht, List.length_cons] at hs
          split at h
          · next u hu =>
            obtain ⟨v, hv, h⟩ := Option.bind_eq_some_iff.mp h
            have hlt' := hvalue _ _ _ hv
            have hs'' := skip_le v.2
            rw [hu, List.length_cons] at hs'
            split at h
            · next w hw =>
              obtain ⟨p, hp, h⟩ := Option.map_eq_some_iff.mp h
              cases h
              have := hmembers _ _ _ hp
              rw [hw, List.length_cons] at hs''
              omega
            · next w hw =>
              cases h
              rw [hw, List.length_cons] at hs''
              omega
            · cases h
          · cases h
        · cases h

/-- More calls do not read more: a text has no room for deeper calls than its length allows. -/
theorem read_enough (n m : Nat) :
    (∀ s, 2 * s.length + 1 ≤ n → 2 * s.length + 1 ≤ m → readValue n s = readValue m s) ∧
    (∀ s, 2 * s.length + 2 ≤ n → 2 * s.length + 2 ≤ m → elements n s = elements m s) ∧
    ∀ s, 2 * s.length + 2 ≤ n → 2 * s.length + 2 ≤ m → members n s = members m s := by
  induction n generalizing m with
  | zero => exact ⟨fun _ h _ => by omega, fun _ h _ => by omega, fun _ h _ => by omega⟩
  | succ n ih =>
      cases m with
      | zero => exact ⟨fun _ _ h => by omega, fun _ _ h => by omega, fun _ _ h => by omega⟩
      | succ m =>
          obtain ⟨hvalue, helements, hmembers⟩ := ih m
          refine ⟨fun s hn hm => ?_, fun s hn hm => ?_, fun s hn hm => ?_⟩
          · have hs := skip_le s
            rw [readValue, readValue]
            split
            · rfl
            · rfl
            · rfl
            · rfl
            · next t ht =>
              have ht' := skip_le t
              rw [ht, List.length_cons] at hs
              split
              · rfl
              · rw [helements _ (by omega) (by omega)]
            · next t ht =>
              have ht' := skip_le t
              rw [ht, List.length_cons] at hs
              split
              · rfl
              · rw [hmembers _ (by omega) (by omega)]
            · rfl
          · rw [elements, elements, hvalue s (by omega) (by omega)]
            cases hv : readValue m s with
            | none => rfl
            | some v =>
                have hlt := (read_lt m).1 _ _ _ hv
                have hs := skip_le v.2
                simp only [Option.bind_some]
                split
                · next t ht =>
                  rw [ht, List.length_cons] at hs
                  rw [helements _ (by omega) (by omega)]
                · rfl
                · rfl
          · have hs := skip_le s
            rw [members, members]
            split
            · next t ht =>
              rw [ht, List.length_cons] at hs
              cases hname : string t with
              | none => rfl
              | some name =>
                  have hlt := string_lt hname
                  have hs' := skip_le name.2
                  simp only [Option.bind_some]
                  split
                  · next u hu =>
                    rw [hu, List.length_cons] at hs'
                    rw [hvalue _ (by omega) (by omega)]
                    cases hv : readValue m u with
                    | none => rfl
                    | some v =>
                        have hlt' := (read_lt m).1 _ _ _ hv
                        have hs'' := skip_le v.2
                        simp only [Option.bind_some]
                        split
                        · next w hw =>
                          rw [hw, List.length_cons] at hs''
                          rw [hmembers _ (by omega) (by omega)]
                        · rfl
                        · rfl
                  · rfl
            · rfl

/-- The bound does not decide what a text reads as. -/
theorem parse_eq {n : Nat} {s : List Char} (h : 2 * s.length + 1 ≤ n) :
    parse s = (readValue n s).bind fun p => if skip p.2 = [] then some p.1 else none := by
  rw [parse, (read_enough (2 * s.length + 1) n).1 s (Nat.le_refl _) h]

end Lib.Json
