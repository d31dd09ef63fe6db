import Mathlib

namespace Lib.Tokens

/-! ## Buffered channels of tokens -/

/-- A buffered channel whose messages carry nothing. -/
structure Channel where
  capacity : Nat
  held : Nat
  bounded : held ≤ capacity
  deriving DecidableEq

namespace Channel

def make (capacity : Nat) : Channel := ⟨capacity, 0, Nat.zero_le capacity⟩

/-- None when the channel is full and the sender has to wait. -/
def send (c : Channel) : Option Channel :=
  if h : c.held < c.capacity then some ⟨c.capacity, c.held + 1, h⟩ else none

/-- None when the channel is empty and the receiver has to wait. -/
def receive (c : Channel) : Option Channel :=
  if 0 < c.held then some ⟨c.capacity, c.held - 1, by have := c.bounded; omega⟩ else none

theorem send_eq_some {c d : Channel} (h : c.send = some d) :
    d.capacity = c.capacity ∧ d.held = c.held + 1 := by
  rw [send] at h
  split at h
  · cases h
    exact ⟨rfl, rfl⟩
  · cases h

theorem receive_eq_some {c d : Channel} (h : c.receive = some d) :
    d.capacity = c.capacity ∧ d.held + 1 = c.held := by
  rw [receive] at h
  split at h
  · next hpos =>
    cases h
    exact ⟨rfl, Nat.succ_pred_eq_of_pos hpos⟩
  · cases h

theorem exists_receive {c : Channel} (h : 0 < c.held) : ∃ d, c.receive = some d := by
  rw [receive, if_pos h]
  exact ⟨_, rfl⟩

end Channel

/-! ## Actors that hold tokens -/

variable {A : Type}

theorem getElem?_set_cases {l : List A} {i j : ℕ} {a b : A} (h : (l.set i a)[j]? = some b) :
    (j = i ∧ b = a) ∨ (j ≠ i ∧ l[j]? = some b) := by
  by_cases hij : i = j
  · subst hij
    rw [List.getElem?_set_self'] at h
    obtain ⟨-, -, rfl⟩ := Option.map_eq_some_iff.mp h
    exact Or.inl ⟨rfl, rfl⟩
  · rw [List.getElem?_set_ne hij] at h
    exact Or.inr ⟨Ne.symm hij, h⟩

theorem getElem?_set_of_some {l : List A} {i : ℕ} {a : A} (hi : l[i]? = some a) (b : A) :
    (l.set i b)[i]? = some b := by
  rw [List.getElem?_set_self', hi]
  rfl

theorem getElem?_concat_cases {l : List A} {a b : A} {i : ℕ} (h : (l ++ [a])[i]? = some b) :
    l[i]? = some b ∨ i = l.length ∧ b = a := by
  rw [List.getElem?_append] at h
  split at h
  · exact Or.inl h
  · next hge =>
    right
    obtain ⟨hi, rfl⟩ := List.getElem?_eq_some_iff.mp h
    simp only [List.length_singleton] at hi
    exact ⟨by omega, by simp⟩

/-- What the actors hold together. -/
def total (weight : A → ℕ) (l : List A) : ℕ := (l.map weight).sum

variable {weight : A → ℕ} {l : List A} {i : ℕ} {a b : A}

theorem total_of_getElem? (hi : l[i]? = some a) :
    total weight l = weight a + total weight (l.eraseIdx i) := by
  obtain ⟨hlt, rfl⟩ := List.getElem?_eq_some_iff.mp hi
  rw [total, ← ((List.getElem_cons_eraseIdx_perm hlt).map weight).sum_eq, List.map_cons, List.sum_cons,
    total]

theorem total_set (hi : l[i]? = some a) (b : A) :
    total weight (l.set i b) = weight b + total weight (l.eraseIdx i) := by
  obtain ⟨hlt, -⟩ := List.getElem?_eq_some_iff.mp hi
  rw [total, ((List.set_perm_cons_eraseIdx hlt b).map weight).sum_eq, List.map_cons, List.sum_cons,
    total]

theorem total_concat (l : List A) (a : A) : total weight (l ++ [a]) = total weight l + weight a := by
  simp [total]

theorem weight_le_total (hi : l[i]? = some a) : weight a ≤ total weight l := by
  rw [total_of_getElem? hi]
  exact Nat.le_add_right _ _

theorem total_eq_zero (h : ∀ a ∈ l, weight a = 0) : total weight l = 0 := by
  rw [total, List.sum_eq_zero_iff]
  simpa using h

end Lib.Tokens
