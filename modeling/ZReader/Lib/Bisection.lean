import Mathlib

namespace Lib.Bisection

/-! ## The first index -/

/-- `while (low < high)`, for at most the given number of rounds. -/
def firstWithin (p : Nat → Bool) : Nat → Nat → Nat → Nat
  | 0, low, _ => low
  | n + 1, low, high =>
      if low < high then
        if p ((low + high) / 2) then firstWithin p n low ((low + high) / 2)
        else firstWithin p n ((low + high) / 2 + 1) high
      else low

/-- Looks between two bounds for the first index with a property that later ones keep. -/
def first (p : Nat → Bool) (low high : Nat) : Nat := firstWithin p (high - low) low high

theorem firstWithin_spec (p : Nat → Bool) (n low high : Nat) (hn : high ≤ low + n) (hle : low ≤ high) :
    low ≤ firstWithin p n low high ∧ firstWithin p n low high ≤ high := by
  induction n generalizing low high with
  | zero => exact ⟨le_refl low, hle⟩
  | succ n ih =>
      rw [firstWithin]
      split
      · split
        · obtain ⟨hlow, hhigh⟩ := ih low ((low + high) / 2) (by omega) (by omega)
          exact ⟨hlow, by omega⟩
        · obtain ⟨hlow, hhigh⟩ := ih ((low + high) / 2 + 1) high (by omega) (by omega)
          exact ⟨by omega, hhigh⟩
      · exact ⟨le_refl low, hle⟩

theorem first_bounds (p : Nat → Bool) {low high : Nat} (h : low ≤ high) :
    low ≤ first p low high ∧ first p low high ≤ high :=
  firstWithin_spec p (high - low) low high (by omega) h

theorem firstWithin_eq {p : Nat → Bool} {r : Nat} (n low high : Nat) (hn : high ≤ low + n)
    (hlow : low ≤ r) (hhigh : r ≤ high) (hbelow : ∀ i, low ≤ i → i < r → p i = false)
    (habove : ∀ i, r ≤ i → i < high → p i = true) : firstWithin p n low high = r := by
  induction n generalizing low high with
  | zero =>
      rw [firstWithin]
      omega
  | succ n ih =>
      rw [firstWithin]
      by_cases hlt : low < high
      · rw [if_pos hlt]
        by_cases hr : r ≤ (low + high) / 2
        · rw [if_pos (habove _ hr (by omega))]
          exact ih low _ (by omega) hlow hr hbelow fun i hi hi' => habove i hi (by omega)
        · rw [if_neg (by simp [hbelow ((low + high) / 2) (by omega) (by omega)])]
          exact ih _ high (by omega) (by omega) hhigh (fun i hi => hbelow i (by omega)) habove
      · rw [if_neg hlt]
        omega

/-- The search ends where the property begins. -/
theorem first_eq {p : Nat → Bool} {low high r : Nat} (hlow : low ≤ r) (hhigh : r ≤ high)
    (hbelow : ∀ i, low ≤ i → i < r → p i = false) (habove : ∀ i, r ≤ i → i < high → p i = true) :
    first p low high = r :=
  firstWithin_eq (high - low) low high (by omega) hlow hhigh hbelow habove

/-- In a list whose entries get the property at some place and keep it, the search finds that
place. -/
theorem first_append {T : Type} {p : T → Bool} {front back : List T}
    (hfront : ∀ a ∈ front, p a = false) (hback : ∀ a ∈ back, p a = true) :
    first (fun i => ((front ++ back)[i]?).any p) 0 (front ++ back).length = front.length := by
  apply first_eq (Nat.zero_le _) (by rw [List.length_append]; omega)
  · intro i _ hi
    rw [List.getElem?_append_left hi, List.getElem?_eq_getElem hi, Option.any_some]
    exact hfront _ (List.getElem_mem hi)
  · intro i hi hlt
    rw [List.length_append] at hlt
    rw [List.getElem?_append_right hi, List.getElem?_eq_getElem (by omega), Option.any_some]
    exact hback _ (List.getElem_mem _)

/-- A list whose entries keep the property once they have it. -/
theorem exists_first {T : Type} (p : T → Bool) {l : List T}
    (hl : l.Pairwise fun a b => p a = true → p b = true) :
    ∃ front back, l = front ++ back ∧ (∀ a ∈ front, p a = false) ∧ (∀ a ∈ back, p a = true) ∧
      first (fun i => (l[i]?).any p) 0 l.length = front.length := by
  have hsplit : ∃ front back, l = front ++ back ∧ (∀ a ∈ front, p a = false) ∧
      ∀ a ∈ back, p a = true := by
    induction l with
    | nil => exact ⟨[], [], rfl, by simp, by simp⟩
    | cons a l ih =>
        rw [List.pairwise_cons] at hl
        cases hp : p a with
        | true => exact ⟨[], a :: l, rfl, by simp, by simpa [hp] using fun b hb => hl.1 b hb hp⟩
        | false =>
            obtain ⟨front, back, rfl, hfront, hback⟩ := ih hl.2
            exact ⟨a :: front, back, rfl, by simpa [hp] using hfront, hback⟩
  obtain ⟨front, back, rfl, hfront, hback⟩ := hsplit
  exact ⟨front, back, rfl, hfront, hback, first_append hfront hback⟩

/-! ## The last index -/

/-- `while (low <= high)`: remembers the last index tried that had the property. Without one it
is the given index. -/
def lastWithin (p : Nat → Bool) : Nat → Nat → Nat → Nat → Nat
  | 0, _, _, best => best
  | n + 1, low, high, best =>
      if low ≤ high then
        if p ((low + high) / 2) then lastWithin p n ((low + high) / 2 + 1) high ((low + high) / 2)
        else lastWithin p n low ((low + high) / 2 - 1) best
      else best

def last (p : Nat → Bool) (low high best : Nat) : Nat :=
  lastWithin p (high + 1 - low) low high best

theorem lastWithin_bounds (p : Nat → Bool) (n low high best : Nat) (hlow : 1 ≤ low) :
    lastWithin p n low high best = best ∨
      low ≤ lastWithin p n low high best ∧ lastWithin p n low high best ≤ high := by
  induction n generalizing low high best with
  | zero => exact .inl rfl
  | succ n ih =>
      rw [lastWithin]
      split
      · split
        · right
          rcases ih ((low + high) / 2 + 1) high ((low + high) / 2) (by omega) with h | h
          · omega
          · omega
        · rcases ih low ((low + high) / 2 - 1) best hlow with h | h
          · exact .inl h
          · right
            omega
      · exact .inl rfl

/-- Nothing is known of the property in between: the result is the given index, or between the
bounds. -/
theorem last_bounds (p : Nat → Bool) {low high best : Nat} (hlow : 1 ≤ low) :
    last p low high best = best ∨ low ≤ last p low high best ∧ last p low high best ≤ high :=
  lastWithin_bounds p _ low high best hlow

end Lib.Bisection
