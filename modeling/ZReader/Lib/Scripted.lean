import Mathlib

namespace Lib.Scripted

/-- How a program ends: with a value, with an exception, or cut off in the middle. -/
inductive Exit (α : Type)
  | value (a : α)
  | thrown
  | killed
  deriving DecidableEq

/-- A program over a state `σ`. Each of its operations takes a turn from the script, which
decides how the operation goes; where the script ends the program is cut off. -/
def Program (ω σ α : Type) : Type := List ω → σ → Exit α × List ω × σ

namespace Program

variable {ω σ α β : Type}

instance : Monad (Program ω σ) where
  pure a := fun script s => (.value a, script, s)
  bind m f := fun script s =>
    match m script s with
    | (.value a, script', s') => f a script' s'
    | (.thrown, script', s') => (.thrown, script', s')
    | (.killed, script', s') => (.killed, script', s')

def operation (f : ω → σ → Option α × σ) : Program ω σ α
  | [], s => (.killed, [], s)
  | w :: script, s =>
      match f w s with
      | (some a, s') => (.value a, script, s')
      | (none, s') => (.thrown, script, s')

/-- What the program does to the state without waiting. -/
def atOnce (f : σ → α × σ) : Program ω σ α :=
  fun script s => (.value (f s).1, script, (f s).2)

def raise : Program ω σ α := fun script s => (.thrown, script, s)

/-- `try`: an exception gives `none`. -/
def attempt (m : Program ω σ α) : Program ω σ (Option α) :=
  fun script s =>
    match m script s with
    | (.value a, script', s') => (.value (some a), script', s')
    | (.thrown, script', s') => (.value none, script', s')
    | (.killed, script', s') => (.killed, script', s')

theorem bind_run {m : Program ω σ α} {script script' : List ω} {s s' : σ} {a : α}
    (h : m script s = (.value a, script', s')) (f : α → Program ω σ β) :
    (m >>= f) script s = f a script' s' := by
  simp only [bind, h]

theorem attempt_run {m : Program ω σ α} {script script' : List ω} {s s' : σ} {a : α}
    (h : m script s = (.value a, script', s')) :
    m.attempt script s = (.value (some a), script', s') := by
  simp only [attempt, h]

def repeatFor (body : α → Program ω σ (α ⊕ β)) : Nat → α → Program ω σ β
  | 0, _ => fun script s => (.killed, script, s)
  | n + 1, a => do
      match ← body a with
      | .inl a' => repeatFor body n a'
      | .inr b => return b

/-- `while (true)`, for a body that takes at least one turn each time round. -/
def forever (body : α → Program ω σ (α ⊕ β)) (a : α) : Program ω σ β :=
  fun script s => repeatFor body (script.length + 1) a script s

/-! ## The script is long enough for a loop -/

/-- Each time round that does not end the loop takes a turn. -/
def Takes (body : α → Program ω σ (α ⊕ β)) : Prop :=
  ∀ a script s a' script' s', body a script s = (.value (.inl a'), script', s') →
    script'.length < script.length

theorem repeatFor_enough {body : α → Program ω σ (α ⊕ β)} (h : Takes body) (n m : Nat) (a : α)
    (script : List ω) (s : σ) (hn : script.length < n) (hm : script.length < m) :
    repeatFor body n a script s = repeatFor body m a script s := by
  induction n generalizing m a script s with
  | zero => omega
  | succ n ih =>
      cases m with
      | zero => omega
      | succ m =>
          simp only [repeatFor, bind]
          rcases hb : body a script s with ⟨(_ | _) | _ | _, script', s'⟩
          · have hlt := h a script s _ script' s' hb
            exact ih m _ script' s' (by omega) (by omega)
          · rfl
          · rfl
          · rfl

theorem forever_eq {body : α → Program ω σ (α ⊕ β)} (h : Takes body) (a : α) :
    forever body a = do
      match ← body a with
      | .inl a' => forever body a'
      | .inr b => return b := by
  funext script s
  simp only [forever, repeatFor, bind]
  rcases hb : body a script s with ⟨(_ | _) | _ | _, script', s'⟩
  · have hlt := h a script s _ script' s' hb
    exact repeatFor_enough h _ _ _ script' s' (by omega) (by omega)
  · rfl
  · rfl
  · rfl

end Program

/-! ## Triples -/

variable {ω σ α β : Type} {P P' : σ → Prop} {Q Q' : α → σ → Prop} {R : β → σ → Prop}
  {C C' : σ → Prop}

/-- From a state in `P` the program ends with a value and a state in `Q`, or without one in
a state in `C`. -/
def Triple (P : σ → Prop) (m : Program ω σ α) (Q : α → σ → Prop) (C : σ → Prop) : Prop :=
  ∀ script s, P s →
    match m script s with
    | (.value a, _, s') => Q a s'
    | (.thrown, _, s') | (.killed, _, s') => C s'

/-- The program keeps `I`, however it ends. -/
def Keeps (I : σ → Prop) (m : Program ω σ α) : Prop := Triple I m (fun _ => I) I

namespace Triple

theorem ret (a : α) : Triple (Q a) (pure a : Program ω σ α) Q C := fun _ _ h => h

theorem raise : Triple C (Program.raise : Program ω σ α) Q C := fun _ _ h => h

theorem mono {m : Program ω σ α} (h : Triple P m Q C) (hP : ∀ s, P' s → P s)
    (hQ : ∀ a s, Q a s → Q' a s) (hC : ∀ s, C s → C' s) : Triple P' m Q' C' := by
  intro script s hs
  have hrun := h script s (hP s hs)
  rcases hm : m script s with ⟨_ | _ | _, script', s'⟩
  · rw [hm] at hrun
    exact hQ _ s' hrun
  · rw [hm] at hrun
    exact hC s' hrun
  · rw [hm] at hrun
    exact hC s' hrun

theorem pre {m : Program ω σ α} (h : Triple P m Q C) (hP : ∀ s, P' s → P s) : Triple P' m Q C :=
  h.mono hP (fun _ _ => id) (fun _ => id)

theorem post {m : Program ω σ α} (h : Triple P m Q C) (hQ : ∀ a s, Q a s → Q' a s) :
    Triple P m Q' C :=
  h.mono (fun _ => id) hQ (fun _ => id)

theorem exit {m : Program ω σ α} (h : Triple P m Q C) (hC : ∀ s, C s → C' s) : Triple P m Q C' :=
  h.mono (fun _ => id) (fun _ _ => id) hC

theorem seq {m : Program ω σ α} {f : α → Program ω σ β} (hm : Triple P m Q C)
    (hf : ∀ a, Triple (Q a) (f a) R C) : Triple P (m >>= f) R C := by
  intro script s hs
  have hrun := hm script s hs
  simp only [bind]
  rcases hms : m script s with ⟨_ | _ | _, script', s'⟩
  · rw [hms] at hrun
    exact hf _ script' s' hrun
  · rw [hms] at hrun
    exact hrun
  · rw [hms] at hrun
    exact hrun

/-- A fact that does not depend on the state can be used to prove the triple. -/
theorem of_pure {p : Prop} {m : Program ω σ α} (h : p → Triple P m Q C) :
    Triple (fun s => p ∧ P s) m Q C := fun script s hs => h hs.1 script s hs.2

/-- A triple for each state that the precondition allows. -/
theorem of_state {m : Program ω σ α} (h : ∀ s₀, P s₀ → Triple (· = s₀) m Q C) :
    Triple P m Q C := fun script s hs => h s hs script s rfl

theorem of_exists {ι : Type} {P : ι → σ → Prop} {m : Program ω σ α} (h : ∀ i, Triple (P i) m Q C) :
    Triple (fun s => ∃ i, P i s) m Q C := fun script s ⟨i, hs⟩ => h i script s hs

theorem operation {f : ω → σ → Option α × σ} (hcut : ∀ s, P s → C s)
    (hok : ∀ w s a s', P s → f w s = (some a, s') → Q a s')
    (hthrow : ∀ w s s', P s → f w s = (none, s') → C s') :
    Triple P (Program.operation f) Q C := by
  intro script s hs
  cases script with
  | nil => exact hcut s hs
  | cons w script =>
      rw [Program.operation]
      rcases hf : f w s with ⟨_ | a, s'⟩
      · exact hthrow w s s' hs hf
      · exact hok w s a s' hs hf

theorem atOnce {f : σ → α × σ} (h : ∀ s, P s → Q (f s).1 (f s).2) :
    Triple P (Program.atOnce f : Program ω σ α) Q C := fun _ s hs => h s hs

theorem attempt {m : Program ω σ α} {R : Option α → σ → Prop} (hm : Triple P m Q C)
    (hQ : ∀ a s, Q a s → R (some a) s) (hC : ∀ s, C s → R none s) :
    Triple P m.attempt R C := by
  intro script s hs
  have hrun := hm script s hs
  rw [Program.attempt]
  rcases hms : m script s with ⟨_ | _ | _, script', s'⟩
  · rw [hms] at hrun
    exact hQ _ s' hrun
  · rw [hms] at hrun
    exact hC s' hrun
  · rw [hms] at hrun
    exact hrun

/-- The loop rule: what holds each time round holds when the loop ends. -/
theorem forever {body : α → Program ω σ (α ⊕ β)} {I : α → σ → Prop}
    (hbody : ∀ a, Triple (I a) (body a) (fun r s => r.elim (I · s) (R · s)) C)
    (hcut : ∀ a s, I a s → C s) (a : α) :
    Triple (I a) (Program.forever body a) R C := by
  have hfor : ∀ n a, Triple (I a) (Program.repeatFor body n a) R C := by
    intro n
    induction n with
    | zero => exact fun a _ s hs => hcut a s hs
    | succ n ih =>
        intro a
        apply (hbody a).seq
        rintro (a' | b)
        · exact ih a'
        · exact ret b
  exact fun script s hs => hfor (script.length + 1) a script s hs

end Triple

/-- What the triple says of a run that gives a value. -/
theorem Triple.value {m : Program ω σ α} (h : Triple P m Q C) {script : List ω} {s : σ} {a : α} (hs : P s)
    (hrun : (m script s).1 = .value a) : Q a (m script s).2.2 := by
  have hspec := h script s hs
  rcases hms : m script s with ⟨_ | _ | _, script', s'⟩
  · rw [hms] at hspec hrun
    cases hrun
    exact hspec
  · rw [hms] at hrun
    cases hrun
  · rw [hms] at hrun
    cases hrun

namespace Keeps

variable {I : σ → Prop}

theorem ret (a : α) : Keeps I (pure a : Program ω σ α) := fun _ _ h => h

theorem raise : Keeps I (Program.raise : Program ω σ α) := fun _ _ h => h

theorem seq {m : Program ω σ α} {f : α → Program ω σ β} (hm : Keeps I m) (hf : ∀ a, Keeps I (f a)) :
    Keeps I (m >>= f) := Triple.seq hm hf

theorem attempt {m : Program ω σ α} (hm : Keeps I m) : Keeps I m.attempt :=
  Triple.attempt hm (fun _ _ => id) (fun _ => id)

theorem operation {f : ω → σ → Option α × σ} (h : ∀ w s, I s → I (f w s).2) :
    Keeps I (Program.operation f) := by
  apply Triple.operation
  · exact fun _ => id
  · intro w s a s' hs hf
    have hkeep := h w s hs
    rwa [hf] at hkeep
  · intro w s s' hs hf
    have hkeep := h w s hs
    rwa [hf] at hkeep

theorem atOnce {f : σ → α × σ} (h : ∀ s, I s → I (f s).2) :
    Keeps I (Program.atOnce f : Program ω σ α) := Triple.atOnce h

theorem forever {body : α → Program ω σ (α ⊕ β)} (h : ∀ a, Keeps I (body a)) (a : α) :
    Keeps I (Program.forever body a) := by
  refine Triple.forever (fun a => (h a).post ?_) (fun _ _ => id) a
  rintro (_ | _) s hs
  · exact hs
  · exact hs

/-- The state after a run of the program, whatever its exit. -/
theorem final {m : Program ω σ α} (h : Keeps I m) (script : List ω) {s : σ} (hs : I s) :
    I (m script s).2.2 := by
  have hrun := h script s hs
  rcases hms : m script s with ⟨_ | _ | _, script', s'⟩ <;> (rw [hms] at hrun; exact hrun)

end Keeps

end Lib.Scripted
