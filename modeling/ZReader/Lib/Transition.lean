import Mathlib

namespace Lib.Transition

variable {S A : Type}

/-- The states a transition system reaches from its initial ones. -/
inductive Reachable (init : S → Prop) (step : S → A → S → Prop) : S → Prop
  | start {s : S} : init s → Reachable init step s
  | next {s t : S} {a : A} : Reachable init step s → step s a t → Reachable init step t

/-- What holds initially and is kept by every step holds in every reachable state. -/
theorem Reachable.invariant {init : S → Prop} {step : S → A → S → Prop} (I : S → Prop)
    (h₀ : ∀ s, init s → I s) (hstep : ∀ s a t, I s → step s a t → I t) {s : S}
    (h : Reachable init step s) : I s := by
  induction h with
  | start hs => exact h₀ _ hs
  | next _ hst ih => exact hstep _ _ _ ih hst

theorem Reachable.mono {init : S → Prop} {step step' : S → A → S → Prop} {s : S}
    (h : Reachable init step s) (hsub : ∀ s a t, step s a t → step' s a t) :
    Reachable init step' s := by
  induction h with
  | start hs => exact .start hs
  | next _ hst ih => exact ih.next (hsub _ _ _ hst)

section Replay

variable (step : S → A → Option S) (ok : S → A → Prop) [∀ s a, Decidable (ok s a)]

/-- The steps of a deterministic system that meet a side condition. -/
def Steps (s : S) (a : A) (t : S) : Prop := ok s a ∧ step s a = some t

def replay : S → List A → Option S
  | s, [] => some s
  | s, a :: l => if ok s a then (step s a).bind (replay · l) else none

theorem replay_reachable {init : S → Prop} {s t : S} {l : List A}
    (hs : Reachable init (Steps step ok) s) (h : replay step ok s l = some t) :
    Reachable init (Steps step ok) t := by
  induction l generalizing s with
  | nil =>
      cases h
      exact hs
  | cons a l ih =>
      rw [replay] at h
      split at h
      · next hok =>
        obtain ⟨u, hu, h⟩ := Option.bind_eq_some_iff.mp h
        exact ih (hs.next ⟨hok, hu⟩) h
      · cases h

end Replay

section Along

variable (step : S → A → Option S) (P : S → A → S → Prop)

/-- A condition on every step of a run, as far as the actions can be taken. -/
def Along : S → List A → Prop
  | _, [] => True
  | s, a :: l => (step s a).elim True fun t => P s a t ∧ Along t l

instance [∀ s a t, Decidable (P s a t)] : ∀ s l, Decidable (Along step P s l)
  | _, [] => .isTrue trivial
  | s, a :: l =>
    match h : step s a with
    | none => .isTrue (by rw [Along, h]; trivial)
    | some t =>
      have := instDecidableAlong t l
      decidable_of_iff (P s a t ∧ Along step P t l) (by rw [Along, h, Option.elim_some])

variable {step P}

/-- Two conditions that agree at the reachable states hold along the same runs. -/
theorem along_congr {Q : S → A → S → Prop} {init : S → Prop}
    (h : ∀ s a t, Reachable init (Steps step fun _ _ => True) s → step s a = some t →
      (P s a t ↔ Q s a t)) {s : S} (hs : Reachable init (Steps step fun _ _ => True) s)
    (l : List A) : Along step P s l ↔ Along step Q s l := by
  induction l generalizing s with
  | nil => exact Iff.rfl
  | cons a l ih =>
      rw [Along, Along]
      cases hstep : step s a with
      | none => exact Iff.rfl
      | some t => exact and_congr (h s a t hs hstep) (ih (hs.next ⟨trivial, hstep⟩))

/-- Two conditions that agree wherever an invariant holds hold along the same runs, when the first
one keeps the invariant. -/
theorem along_congr_of_invariant {Q : S → A → S → Prop} {I : S → Prop}
    (h : ∀ s a t, I s → step s a = some t → (P s a t ↔ Q s a t))
    (hI : ∀ s a t, I s → step s a = some t → P s a t → I t) {s : S} (hs : I s) (l : List A) :
    Along step P s l ↔ Along step Q s l := by
  induction l generalizing s with
  | nil => exact Iff.rfl
  | cons a l ih =>
      rw [Along, Along]
      cases hstep : step s a with
      | none => exact Iff.rfl
      | some t =>
          rw [Option.elim_some, Option.elim_some, ← h s a t hs hstep]
          exact and_congr_right fun hP => ih (hI s a t hs hstep hP)

/-- Two conditions that agree wherever an invariant holds hold along the same runs of those whose
steps meet a condition that keeps the invariant. -/
theorem along_congr_when {Q K : S → A → S → Prop} {I : S → Prop}
    (h : ∀ s a t, I s → step s a = some t → K s a t → (P s a t ↔ Q s a t) ∧ I t) {s : S} (hs : I s)
    {l : List A} (hl : Along step K s l) : Along step P s l ↔ Along step Q s l := by
  induction l generalizing s with
  | nil => exact Iff.rfl
  | cons a l ih =>
      rw [Along] at hl ⊢
      rw [Along]
      cases hstep : step s a with
      | none => exact Iff.rfl
      | some t =>
          rw [hstep, Option.elim_some] at hl
          obtain ⟨hiff, ht⟩ := h s a t hs hstep hl.1
          exact and_congr hiff (ih ht hl.2)

/-- A condition that holds at every step that starts from an invariant and meets another condition
holds along each run whose steps meet the other one. -/
theorem Along.of_invariant {Q : S → A → S → Prop} {I : S → Prop}
    (h : ∀ s a t, I s → step s a = some t → P s a t → Q s a t ∧ I t) {s : S} (hs : I s) {l : List A}
    (hl : Along step P s l) : Along step Q s l := by
  induction l generalizing s with
  | nil => trivial
  | cons a l ih =>
      rw [Along] at hl ⊢
      cases hstep : step s a with
      | none => trivial
      | some t =>
          rw [hstep, Option.elim_some] at hl
          obtain ⟨hQ, ht⟩ := h s a t hs hstep hl.1
          exact ⟨hQ, ih ht hl.2⟩

end Along

end Lib.Transition
