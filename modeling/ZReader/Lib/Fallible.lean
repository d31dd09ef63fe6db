import Mathlib

namespace Lib.Fallible

variable {α β ε : Type}

theorem bind_eq_ok {x : Except ε α} {f : α → Except ε β} {b : β} :
    (x >>= f) = .ok b ↔ ∃ a, x = .ok a ∧ f a = .ok b := by
  cases x with
  | error e => simp [bind, Except.bind]
  | ok a => simp [bind, Except.bind]

theorem bind_congr_ok {x : Except ε α} {f g : α → Except ε β} (h : ∀ a, x = .ok a → f a = g a) :
    (x >>= f) = (x >>= g) := by
  cases x with
  | error e => rfl
  | ok a => exact h a rfl

theorem foldlM_nil_eq_ok {f : β → α → Except ε β} {b c : β} :
    [].foldlM f b = .ok c ↔ b = c := by
  simp [pure, Except.pure]

theorem foldlM_cons_eq_ok {f : β → α → Except ε β} {b c : β} {a : α} {l : List α} :
    (a :: l).foldlM f b = .ok c ↔ ∃ d, f b a = .ok d ∧ l.foldlM f d = .ok c := by
  rw [List.foldlM_cons, bind_eq_ok]

/-- What every successful step keeps, a successful loop keeps. -/
theorem foldlM_invariant {f : β → α → Except ε β} (I : β → Prop) {l : List α} {b c : β}
    (hstep : ∀ a ∈ l, ∀ b c, I b → f b a = .ok c → I c) (hb : I b) (h : l.foldlM f b = .ok c) :
    I c := by
  induction l generalizing b with
  | nil => exact foldlM_nil_eq_ok.mp h ▸ hb
  | cons a l ih =>
      obtain ⟨d, hd, hc⟩ := foldlM_cons_eq_ok.mp h
      exact ih (fun x hx => hstep x (by simp [hx])) (hstep a (by simp) b d hb hd) hc

/-- The loop rule for an invariant that refers to the elements already handled. -/
theorem foldlM_induction {f : β → α → Except ε β} (I : List α → β → Prop) {l : List α} {b c : β}
    (hstep : ∀ pre a suf, l = pre ++ a :: suf → ∀ b c, I pre b → f b a = .ok c → I (pre ++ [a]) c)
    (hb : I [] b) (h : l.foldlM f b = .ok c) : I l c := by
  suffices hgen : ∀ suf pre b, l = pre ++ suf → I pre b → suf.foldlM f b = .ok c → I l c from
    hgen l [] b rfl hb h
  intro suf
  induction suf with
  | nil =>
      intro pre b hl hI hc
      rw [foldlM_nil_eq_ok] at hc
      rw [hl, List.append_nil]
      exact hc ▸ hI
  | cons a suf ih =>
      intro pre b hl hI hc
      obtain ⟨d, hd, hc⟩ := foldlM_cons_eq_ok.mp hc
      exact ih (pre ++ [a]) d (by simp [hl]) (hstep pre a suf hl b d hI hd) hc

/-- A loop succeeds when every step does in the states the invariant allows. -/
theorem foldlM_total {f : β → α → Except ε β} (I : β → Prop) {l : List α} {b : β}
    (hstep : ∀ a ∈ l, ∀ b, I b → ∃ c, f b a = .ok c ∧ I c) (hb : I b) :
    ∃ c, l.foldlM f b = .ok c := by
  induction l generalizing b with
  | nil => exact ⟨b, foldlM_nil_eq_ok.mpr rfl⟩
  | cons a l ih =>
      obtain ⟨d, hd, hI⟩ := hstep a (by simp) b hb
      obtain ⟨c, hc⟩ := ih (fun x hx => hstep x (by simp [hx])) hI
      exact ⟨c, foldlM_cons_eq_ok.mpr ⟨d, hd, hc⟩⟩

/-- The loop rule for success and an invariant that refers to the elements already handled. -/
theorem foldlM_total_induction {f : β → α → Except ε β} (I : List α → β → Prop) {l : List α} {b : β}
    (hstep : ∀ pre a suf, l = pre ++ a :: suf → ∀ b, I pre b → ∃ c, f b a = .ok c ∧ I (pre ++ [a]) c)
    (hb : I [] b) : ∃ c, l.foldlM f b = .ok c ∧ I l c := by
  suffices hgen : ∀ suf pre b, l = pre ++ suf → I pre b → ∃ c, suf.foldlM f b = .ok c ∧ I l c from
    hgen l [] b rfl hb
  intro suf
  induction suf with
  | nil =>
      intro pre b hl hI
      refine ⟨b, foldlM_nil_eq_ok.mpr rfl, ?_⟩
      rw [hl, List.append_nil]
      exact hI
  | cons a suf ih =>
      intro pre b hl hI
      obtain ⟨d, hd, hI⟩ := hstep pre a suf hl b hI
      obtain ⟨c, hc, hI⟩ := ih (pre ++ [a]) d (by simp [hl]) hI
      exact ⟨c, foldlM_cons_eq_ok.mpr ⟨d, hd, hc⟩, hI⟩

/-- Two loops whose bodies agree wherever the first one gets. The invariant speaks of what is still
to be done. -/
theorem foldlM_congr {f g : β → α → Except ε β} (I : List α → β → Prop) {l : List α} {b : β}
    (hstep : ∀ a l b, I (a :: l) b → f b a = g b a ∧ ∀ c, f b a = .ok c → I l c) (hb : I l b) :
    l.foldlM f b = l.foldlM g b := by
  induction l generalizing b with
  | nil => rfl
  | cons a l ih =>
      obtain ⟨hsame, hnext⟩ := hstep a l b hb
      rw [List.foldlM_cons, List.foldlM_cons, ← hsame]
      cases hrun : f b a with
      | error e => rfl
      | ok c => exact ih (hnext c hrun)

/-- Two loops over the same elements stay related when their steps do. -/
theorem foldlM_lockstep {γ : Type} {f : β → α → Except ε β} {g : γ → α → Except ε γ}
    (R : β → γ → Prop) {l : List α} {b b' : β} {c c' : γ}
    (hstep : ∀ a b c b' c', R b c → f b a = .ok b' → g c a = .ok c' → R b' c') (hb : R b c)
    (hf : l.foldlM f b = .ok b') (hg : l.foldlM g c = .ok c') : R b' c' := by
  induction l generalizing b c with
  | nil =>
      rw [foldlM_nil_eq_ok] at hf hg
      rw [← hf, ← hg]
      exact hb
  | cons a l ih =>
      obtain ⟨d, hd, hf⟩ := foldlM_cons_eq_ok.mp hf
      obtain ⟨e, he, hg⟩ := foldlM_cons_eq_ok.mp hg
      exact ih (hstep a b c d e hb hd he) hf hg

end Lib.Fallible
