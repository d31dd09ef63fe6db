import Mathlib

namespace Lib.Doubles

/-! ## Rounding -/

/-- The nearest whole number, the even one of two. -/
def nearestEven (x : ℚ) : ℤ :=
  if x - ⌊x⌋ < 1 / 2 ∨ x - ⌊x⌋ = 1 / 2 ∧ Even ⌊x⌋ then ⌊x⌋ else ⌊x⌋ + 1

/-- How far the doubles of the size of a number are apart. -/
def spacing (x : ℚ) : ℚ := 2 ^ max (Int.log 2 x - 52) (-1074)

/-- A double that is not negative, a fraction or infinity. -/
abbrev Double := WithTop ℚ

/-- The nearest double of a number that is not negative. -/
def nearest (x : ℚ) : Double :=
  if nearestEven (x / spacing x) * spacing x < 2 ^ 1024 then
    (nearestEven (x / spacing x) * spacing x : ℚ)
  else ⊤

/-- An operation on doubles is exact but for its result. -/
def Double.apply (f : ℚ → ℚ) : Double → Double
  | ⊤ => ⊤
  | (x : ℚ) => nearest (f x)

/-! ## Whole numbers -/

theorem nearestEven_intCast (n : ℤ) : nearestEven n = n := by
  rw [nearestEven, Int.floor_intCast, if_pos]
  left
  norm_num

theorem spacing_pos (x : ℚ) : 0 < spacing x := zpow_pos (by norm_num) _

/-- A multiple of its spacing is a double. -/
theorem nearest_eq_self {x : ℚ} (n : ℤ) (hx : x = n * spacing x) (hmax : x < 2 ^ 1024) : nearest x = x := by
  have hquot : x / spacing x = n := by
    rw [div_eq_iff (spacing_pos x).ne']
    exact hx
  rw [nearest, hquot, nearestEven_intCast, ← hx, if_pos hmax]

theorem spacing_natCast {n : ℕ} (h : n ≤ 2 ^ 53) : ∃ k : ℤ, (n : ℚ) = k * spacing n := by
  rw [spacing, Int.log_natCast]
  by_cases hlog : Nat.log 2 n ≤ 52
  · -- below 2 ^ 53 the spacing divides 1
    refine ⟨n * 2 ^ (52 - Nat.log 2 n), ?_⟩
    have hexp : max ((Nat.log 2 n : ℤ) - 52) (-1074) = -((52 - Nat.log 2 n : ℕ) : ℤ) := by omega
    rw [hexp, zpow_neg, zpow_natCast]
    push_cast
    rw [mul_assoc, mul_inv_cancel₀ (by positivity), mul_one]
  · have hn : n = 2 ^ 53 := by
      have hle : 2 ^ 53 ≤ n := Nat.pow_le_of_le_log (by rintro rfl; simp at hlog) (by omega)
      omega
    refine ⟨2 ^ 52, ?_⟩
    rw [hn, Nat.log_pow (by norm_num)]
    norm_num

theorem nearest_natCast {n : ℕ} (h : n ≤ 2 ^ 53) : nearest n = (n : ℚ) := by
  obtain ⟨k, hk⟩ := spacing_natCast h
  refine nearest_eq_self k hk ?_
  calc (n : ℚ) ≤ 2 ^ 53 := by exact_mod_cast h
    _ < 2 ^ 1024 := pow_lt_pow_right₀ (by norm_num) (by norm_num)

end Lib.Doubles
