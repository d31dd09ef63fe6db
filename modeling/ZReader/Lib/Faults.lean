import Mathlib

namespace Lib.Faults

variable {ω σ ε α β : Type}

/-- A program over a state `σ` whose operations can fail. An endless script says how each
operation goes; the program reads it from a position on. -/
def Faulty (ω σ ε α : Type) : Type := (ℕ → ω) → ℕ → σ → Except ε α × ℕ × σ

namespace Faulty

instance : Monad (Faulty ω σ ε) where
  pure a := fun _ n s => (.ok a, n, s)
  bind m f := fun script n s =>
    match m script n s with
    | (.ok a, n', s') => f a script n' s'
    | (.error e, n', s') => (.error e, n', s')

def operation (f : ω → σ → Except ε α × σ) : Faulty ω σ ε α :=
  fun script n s => ((f (script n) s).1, n + 1, (f (script n) s).2)

def raise (e : ε) : Faulty ω σ ε α := fun _ n s => (.error e, n, s)

/-- An error passes through with something said about it. -/
def context (g : ε → ε) (m : Faulty ω σ ε α) : Faulty ω σ ε α :=
  fun script n s =>
    match m script n s with
    | (.ok a, n', s') => (.ok a, n', s')
    | (.error e, n', s') => (.error (g e), n', s')

/-- `defer`, for a clean-up that does not fail. -/
def deferring (cleanUp : σ → σ) (m : Faulty ω σ ε α) : Faulty ω σ ε α :=
  fun script n s => ((m script n s).1, (m script n s).2.1, cleanUp (m script n s).2.2)

/-- A clean-up on the way out with an error. -/
def onError (cleanUp : σ → σ) (m : Faulty ω σ ε α) : Faulty ω σ ε α :=
  fun script n s =>
    match m script n s with
    | (.ok a, n', s') => (.ok a, n', s')
    | (.error e, n', s') => (.error e, n', cleanUp s')

/-- A loop with an accumulator. -/
def fold (body : α → β → Faulty ω σ ε α) : α → List β → Faulty ω σ ε α
  | a, [] => pure a
  | a, b :: l => do
      let a' ← body a b
      fold body a' l

theorem bind_assoc {γ : Type} (m : Faulty ω σ ε α) (f : α → Faulty ω σ ε β)
    (g : β → Faulty ω σ ε γ) : (m >>= f) >>= g = m >>= fun a => f a >>= g := by
  funext script n s
  simp only [bind]
  rcases m script n s with ⟨_ | _, _, _⟩ <;> rfl

end Faulty

/-! ## Triples -/

variable {turns turns' : ω → Prop} {P P' : σ → Prop} {Q Q' : α → σ → Prop} {R : β → σ → Prop}
  {E E' : σ → Prop}

/-- Where all turns are of a kind, the program takes a state in `P` to a value and a state
in `Q`, or to an error and a state in `E`. -/
def Triple (turns : ω → Prop) (P : σ → Prop) (m : Faulty ω σ ε α) (Q : α → σ → Prop)
    (E : σ → Prop) : Prop :=
  ∀ script, (∀ n, turns (script n)) → ∀ n s, P s →
    match m script n s with
    | (.ok a, _, s') => Q a s'
    | (.error _, _, s') => E s'

namespace Triple

theorem ret (a : α) : Triple turns (Q a) (pure a : Faulty ω σ ε α) Q E := fun _ _ _ _ h => h

theorem raise (e : ε) : Triple turns E (Faulty.raise e : Faulty ω σ ε α) Q E := fun _ _ _ _ h => h

theorem mono {m : Faulty ω σ ε α} (h : Triple turns P m Q E) (hP : ∀ s, P' s → P s)
    (hQ : ∀ a s, Q a s → Q' a s) (hE : ∀ s, E s → E' s) : Triple turns P' m Q' E' := by
  intro script hturns n s hs
  have hrun := h script hturns n s (hP s hs)
  rcases hm : m script n s with ⟨_ | _, n', s'⟩
  · rw [hm] at hrun
    exact hE s' hrun
  · rw [hm] at hrun
    exact hQ _ s' hrun

theorem pre {m : Faulty ω σ ε α} (h : Triple turns P m Q E) (hP : ∀ s, P' s → P s) :
    Triple turns P' m Q E := h.mono hP (fun _ _ => id) (fun _ => id)

theorem post {m : Faulty ω σ ε α} (h : Triple turns P m Q E) (hQ : ∀ a s, Q a s → Q' a s) :
    Triple turns P m Q' E := h.mono (fun _ => id) hQ (fun _ => id)

theorem exit {m : Faulty ω σ ε α} (h : Triple turns P m Q E) (hE : ∀ s, E s → E' s) :
    Triple turns P m Q E' := h.mono (fun _ => id) (fun _ _ => id) hE

/-- What holds of many turns holds of some of them. -/
theorem weaken {m : Faulty ω σ ε α} (h : Triple turns P m Q E) (hturns : ∀ w, turns' w → turns w) :
    Triple turns' P m Q E := fun script ht => h script fun n => hturns _ (ht n)

theorem seq {m : Faulty ω σ ε α} {f : α → Faulty ω σ ε β} (hm : Triple turns P m Q E)
    (hf : ∀ a, Triple turns (Q a) (f a) R E) : Triple turns P (m >>= f) R E := by
  intro script hturns n s hs
  have hrun := hm script hturns n s hs
  simp only [bind]
  rcases hms : m script n s with ⟨_ | _, n', s'⟩
  · rw [hms] at hrun
    exact hrun
  · rw [hms] at hrun
    exact hf _ script hturns n' s' hrun

/-- A fact that does not depend on the state can be used to prove the triple. -/
theorem of_pure {p : Prop} {m : Faulty ω σ ε α} (h : p → Triple turns P m Q E) :
    Triple turns (fun s => p ∧ P s) m Q E := fun script ht n s hs => h hs.1 script ht n s hs.2

theorem of_state {m : Faulty ω σ ε α} (h : ∀ s₀, P s₀ → Triple turns (· = s₀) m Q E) :
    Triple turns P m Q E := fun script ht n s hs => h s hs script ht n s rfl

theorem operation {f : ω → σ → Except ε α × σ}
    (hok : ∀ w s a s', turns w → P s → f w s = (.ok a, s') → Q a s')
    (herror : ∀ w s e s', turns w → P s → f w s = (.error e, s') → E s') :
    Triple turns P (Faulty.operation f) Q E := by
  intro script hturns n s hs
  rcases hf : f (script n) s with ⟨e | a, s'⟩
  · have := herror _ s e s' (hturns n) hs hf
    simpa [Faulty.operation, hf] using this
  · have := hok _ s a s' (hturns n) hs hf
    simpa [Faulty.operation, hf] using this

theorem context {m : Faulty ω σ ε α} (g : ε → ε) (h : Triple turns P m Q E) :
    Triple turns P (m.context g) Q E := by
  intro script hturns n s hs
  have hrun := h script hturns n s hs
  rw [Faulty.context]
  rcases hm : m script n s with ⟨_ | _, n', s'⟩ <;> (rw [hm] at hrun; exact hrun)

theorem deferring {m : Faulty ω σ ε α} {cleanUp : σ → σ}
    (h : Triple turns P m (fun a s => Q a (cleanUp s)) (fun s => E (cleanUp s))) :
    Triple turns P (m.deferring cleanUp) Q E := by
  intro script hturns n s hs
  have hrun := h script hturns n s hs
  rw [Faulty.deferring]
  rcases hm : m script n s with ⟨_ | _, n', s'⟩ <;> (rw [hm] at hrun; exact hrun)

theorem onError {m : Faulty ω σ ε α} {cleanUp : σ → σ}
    (h : Triple turns P m Q (fun s => E (cleanUp s))) :
    Triple turns P (m.onError cleanUp) Q E := by
  intro script hturns n s hs
  have hrun := h script hturns n s hs
  rw [Faulty.onError]
  rcases hm : m script n s with ⟨_ | _, n', s'⟩ <;> (rw [hm] at hrun; exact hrun)

/-- The loop rule, for an invariant that refers to the elements already handled. -/
theorem fold {body : α → β → Faulty ω σ ε α} (I : List β → α → σ → Prop) {l : List β}
    (hbody : ∀ done b rest, l = done ++ b :: rest → ∀ a,
      Triple turns (I done a) (body a b) (fun a' => I (done ++ [b]) a') E) (a : α) :
    Triple turns (I [] a) (Faulty.fold body a l) (fun a' => I l a') E := by
  suffices hgen : ∀ rest done, l = done ++ rest → ∀ a,
      Triple turns (I done a) (Faulty.fold body a rest) (fun a' => I l a') E from hgen l [] rfl a
  intro rest
  induction rest with
  | nil =>
      intro done hl a
      rw [hl, List.append_nil]
      exact fun _ _ _ _ h => h
  | cons b rest ih =>
      intro done hl a
      apply (hbody done b rest hl a).seq
      exact fun a' => ih (done ++ [b]) (by rw [hl, List.append_assoc, List.singleton_append]) a'

theorem and {m : Faulty ω σ ε α} (h : Triple turns P m Q E) (h' : Triple turns P' m Q' E') :
    Triple turns (fun s => P s ∧ P' s) m (fun a s => Q a s ∧ Q' a s) (fun s => E s ∧ E' s) := by
  intro script hturns n s hs
  have hrun := h script hturns n s hs.1
  have hrun' := h' script hturns n s hs.2
  rcases hm : m script n s with ⟨_ | _, n', s'⟩ <;>
    (rw [hm] at hrun hrun'; exact ⟨hrun, hrun'⟩)

end Triple

/-- What the triple says of a run that gives a value. -/
theorem Triple.value {m : Faulty ω σ ε α} (h : Triple turns P m Q E) {script : ℕ → ω}
    (hturns : ∀ n, turns (script n)) {n : ℕ} {s : σ} (hs : P s) {a : α}
    (hrun : (m script n s).1 = .ok a) : Q a (m script n s).2.2 := by
  have hspec := h script hturns n s hs
  rcases hm : m script n s with ⟨_ | _, n', s'⟩
  · rw [hm] at hrun
    cases hrun
  · rw [hm] at hrun hspec
    cases hrun
    exact hspec

theorem Triple.error {m : Faulty ω σ ε α} (h : Triple turns P m Q E) {script : ℕ → ω}
    (hturns : ∀ n, turns (script n)) {n : ℕ} {s : σ} (hs : P s) {e : ε}
    (hrun : (m script n s).1 = .error e) : E (m script n s).2.2 := by
  have hspec := h script hturns n s hs
  rcases hm : m script n s with ⟨_ | _, n', s'⟩
  · rw [hm] at hspec
    exact hspec
  · rw [hm] at hrun
    cases hrun

end Lib.Faults
