import ZReader.Lib.Utf8

namespace Lib.Integers

open Utf8

/-! ## Signed 64-bit integers -/

/-- The value that a 64-bit register keeps of an integer. -/
def int64 (x : Int) : Int := x.bmod (2 ^ 64)

theorem int64_range (x : Int) : -2 ^ 63 ≤ int64 x ∧ int64 x < 2 ^ 63 := by
  have hle := Int.le_bmod (x := x) (m := 2 ^ 64) (by decide)
  have hlt := Int.bmod_lt (x := x) (m := 2 ^ 64) (by decide)
  rw [int64]
  omega

theorem int64_eq_self {x : Int} (h₀ : -2 ^ 63 ≤ x) (h₁ : x < 2 ^ 63) : int64 x = x := by
  rw [int64, Int.bmod_def]
  omega

theorem int64_int64 (x : Int) : int64 (int64 x) = int64 x :=
  int64_eq_self (int64_range x).1 (int64_range x).2

/-- A sum does not depend on when it is cut down to 64 bits. -/
theorem int64_add_left (x y : Int) : int64 (int64 x + y) = int64 (x + y) := by
  rw [int64, int64, int64, Int.bmod_add_bmod]

/-! ## Decimal notation -/

inductive Parsed
  | value (n : Nat)
  | syntaxError
  | rangeError
  deriving DecidableEq

/-- The digits of an unsigned 64-bit number, after some that gave `n`. The first byte that is
no digit and the first digit that leaves the range end the parse. -/
def parseUintFrom (n : Nat) : Bytes → Parsed
  | [] => .value n
  | c :: s =>
      if c < 48 ∨ 57 < c then .syntaxError
      else
        let n' := n * 10 + (c.toNat - 48)
        if n' < 2 ^ 64 then parseUintFrom n' s else .rangeError

def parseUint (s : Bytes) : Parsed :=
  if s = [] then .syntaxError else parseUintFrom 0 s

/-- A magnitude that may be too large for a signed integer is clamped. -/
def signedValue (negative : Bool) : Parsed → Int
  | .value n =>
      if negative then (if n ≤ 2 ^ 63 then -(n : Int) else -2 ^ 63)
      else if n < 2 ^ 63 then n else 2 ^ 63 - 1
  | .syntaxError => 0
  | .rangeError => if negative then -2 ^ 63 else 2 ^ 63 - 1

/-- The first result of `strconv.Atoi`, also where the second one is an error. -/
def atoi : Bytes → Int
  | 43 :: s => signedValue false (parseUint s)
  | 45 :: s => signedValue true (parseUint s)
  | s => signedValue false (parseUint s)

/-- The value of a parse without an error. -/
def signedValue? (negative : Bool) : Parsed → Option Int
  | .value n =>
      if negative then (if n ≤ 2 ^ 63 then some (-(n : Int)) else none)
      else if n < 2 ^ 63 then some (n : Int) else none
  | _ => none

/-- `strconv.Atoi` where an error is `none`. -/
def atoi? : Bytes → Option Int
  | 43 :: s => signedValue? false (parseUint s)
  | 45 :: s => signedValue? true (parseUint s)
  | s => signedValue? false (parseUint s)

theorem signedValue_range (negative : Bool) (p : Parsed) :
    -2 ^ 63 ≤ signedValue negative p ∧ signedValue negative p < 2 ^ 63 := by
  cases p with
  | value n =>
      simp only [signedValue]
      split
      · split <;> omega
      · split <;> omega
  | syntaxError => simp [signedValue]
  | rangeError =>
      simp only [signedValue]
      split <;> omega

theorem atoi_range (s : Bytes) : -2 ^ 63 ≤ atoi s ∧ atoi s < 2 ^ 63 := by
  unfold atoi
  split
  · exact signedValue_range _ _
  · exact signedValue_range _ _
  · exact signedValue_range _ _

end Lib.Integers
