import Mathlib

namespace Lib.Isolation

variable {U S V E A B : Type}

/-! ## Computations on behalf of one user -/

/-- What `f` answers, and what `u` sees after it, depend on what `u` sees before, and nobody
else sees a change. -/
structure Isolated (view : U → S → V) (I : S → Prop) (u : U) (f : S → Except E (A × S)) : Prop where
  reads : ∀ s t, I s → I t → view u s = view u t →
    (f s).map (Prod.map id (view u)) = (f t).map (Prod.map id (view u))
  keeps : ∀ s a t w, I s → w ≠ u → f s = .ok (a, t) → view w t = view w s
  inv : ∀ s a t, I s → f s = .ok (a, t) → I t

/-- A computation whose answer is the new state alone. -/
def silent (f : S → Except E S) (s : S) : Except E (Unit × S) := (f s).map (Prod.mk ())

abbrev Acts (view : U → S → V) (I : S → Prop) (u : U) (f : S → Except E S) : Prop :=
  Isolated view I u (silent f)

variable {view : U → S → V} {I : S → Prop} {u : U}

theorem map_view_eq {v : S → V} {x y : Except E (A × S)}
    (h : x.map (Prod.map id v) = y.map (Prod.map id v)) :
    (∃ e, x = .error e ∧ y = .error e) ∨
      ∃ a s t, x = .ok (a, s) ∧ y = .ok (a, t) ∧ v s = v t := by
  cases x with
  | error e =>
      cases y with
      | error e' =>
          cases h
          exact .inl ⟨e, rfl, rfl⟩
      | ok r => cases h
  | ok r =>
      cases y with
      | error e' => cases h
      | ok r' =>
          simp only [Except.map, Prod.map, id, Except.ok.injEq, Prod.mk.injEq] at h
          exact .inr ⟨r.1, r.2, r'.2, rfl, by rw [h.1], h.2⟩

/-- A value that `u` sees. -/
def Seen (view : U → S → V) (I : S → Prop) (u : U) (g : S → B) : Prop :=
  ∀ s t, I s → I t → view u s = view u t → g s = g t

theorem Isolated.answer {g : S → Except E A} (hg : Seen view I u g) :
    Isolated view I u (fun s => (g s).map (·, s)) where
  reads := by
    intro s t hs ht h
    rw [hg s t hs ht h]
    cases g t with
    | error e => rfl
    | ok a => exact congrArg (fun v => Except.ok (a, v)) h
  keeps := by
    intro s a t w _ _ hf
    cases hg : g s with
    | error e =>
        rw [hg] at hf
        cases hf
    | ok b =>
        rw [hg] at hf
        cases hf
        rfl
  inv := by
    intro s a t hs hf
    cases hg : g s with
    | error e =>
        rw [hg] at hf
        cases hf
    | ok b =>
        rw [hg] at hf
        cases hf
        exact hs

/-- Acting on what `u` has read. -/
theorem Isolated.read {g : S → B} {f : B → S → Except E (A × S)} (hg : Seen view I u g)
    (hf : ∀ s, I s → Isolated view I u (f (g s))) : Isolated view I u (fun s => f (g s) s) where
  reads := by
    intro s t hs ht h
    simp only [← hg s t hs ht h]
    exact (hf s hs).reads s t hs ht h
  keeps := fun s a t w hs hw h => (hf s hs).keeps s a t w hs hw h
  inv := fun s a t hs h => (hf s hs).inv s a t hs h

theorem Isolated.bind {f : S → Except E (A × S)} {g : A → S → Except E (B × S)}
    (hf : Isolated view I u f) (hg : ∀ s a t, I s → f s = .ok (a, t) → Isolated view I u (g a)) :
    Isolated view I u (fun s => f s >>= fun r => g r.1 r.2) where
  reads := by
    intro s t hs ht h
    rcases map_view_eq (hf.reads s t hs ht h) with ⟨e, hx, hy⟩ | ⟨a, s', t', hx, hy, hst⟩
    · simp only [hx, hy]
    · simp only [hx, hy]
      exact (hg s a s' hs hx).reads s' t' (hf.inv s a s' hs hx) (hf.inv t a t' ht hy) hst
  keeps := by
    intro s b t w hs hw h
    cases hx : f s with
    | error e =>
        simp only [hx] at h
        cases h
    | ok r =>
        simp only [hx] at h
        have hr := hf.inv s r.1 r.2 hs hx
        exact ((hg s r.1 r.2 hs hx).keeps r.2 b t w hr hw h).trans (hf.keeps s r.1 r.2 w hs hw hx)
  inv := by
    intro s b t hs h
    cases hx : f s with
    | error e =>
        simp only [hx] at h
        cases h
    | ok r =>
        simp only [hx] at h
        exact (hg s r.1 r.2 hs hx).inv r.2 b t (hf.inv s r.1 r.2 hs hx) h

theorem silent_eq_ok {f : S → Except E S} {s t : S} {a : Unit} :
    silent f s = .ok (a, t) ↔ f s = .ok t := by
  rw [silent]
  cases f s with
  | error e => simp [Except.map]
  | ok t' => simp [Except.map]

theorem ok_bind (s : A) (f : A → Except E B) : (Except.ok s >>= f) = f s := rfl

theorem silent_bind (f g : S → Except E S) :
    silent (fun s => f s >>= g) = fun s => silent f s >>= fun r => silent g r.2 := by
  funext s
  simp only [silent]
  cases f s with
  | error e => rfl
  | ok t => rfl

theorem Acts.seq {f g : S → Except E S} (hf : Acts view I u f) (hg : Acts view I u g) :
    Acts view I u (fun s => f s >>= g) := by
  rw [Acts, silent_bind]
  exact Isolated.bind hf fun _ _ _ _ _ => hg

theorem Acts.pure : Acts view I u (fun s => (.ok s : Except E S)) where
  reads := by
    intro s t _ _ h
    exact congrArg (fun v => Except.ok ((), v)) h
  keeps := by
    intro s a t w _ _ h
    cases h
    rfl
  inv := by
    intro s a t hs h
    cases h
    exact hs

theorem Acts.fail (e : E) : Acts view I u (fun _ => (.error e : Except E S)) where
  reads _ _ _ _ _ := rfl
  keeps := by
    intro s a t w _ _ h
    cases h
  inv := by
    intro s a t _ h
    cases h

/-- An update that cannot fail. -/
theorem Acts.update {f : S → S} (hr : ∀ s t, I s → I t → view u s = view u t → view u (f s) = view u (f t))
    (hk : ∀ s w, I s → w ≠ u → view w (f s) = view w s) (hI : ∀ s, I s → I (f s)) :
    Acts view I u (fun s => (.ok (f s) : Except E S)) where
  reads := by
    intro s t hs ht h
    exact congrArg (fun v => Except.ok ((), v)) (hr s t hs ht h)
  keeps := by
    intro s a t w hs hw h
    cases h
    exact hk s w hs hw
  inv := by
    intro s a t hs h
    cases h
    exact hI s hs

theorem Acts.fold {f : S → A → Except E S} {l : List A} (hf : ∀ a ∈ l, Acts view I u (f · a)) :
    Acts view I u (fun s => l.foldlM f s) := by
  induction l with
  | nil => exact Acts.pure
  | cons a l ih =>
      simp only [List.foldlM_cons]
      exact Acts.seq (hf a (by simp)) (ih fun b hb => hf b (by simp [hb]))

theorem Acts.ite {c : Prop} [Decidable c] {f g : S → Except E S} (hf : Acts view I u f)
    (hg : Acts view I u g) : Acts view I u (fun s => if c then f s else g s) := by
  by_cases hc : c
  · simp only [if_pos hc]
    exact hf
  · simp only [if_neg hc]
    exact hg

theorem Acts.read {g : S → B} {f : B → S → Except E S} (hg : Seen view I u g)
    (hf : ∀ s, I s → Acts view I u (f (g s))) : Acts view I u (fun s => f (g s) s) :=
  Isolated.read (f := fun b => silent (f b)) hg hf

theorem Seen.map {C : Type} {g : S → B} (hg : Seen view I u g) (k : B → C) :
    Seen view I u (fun s => k (g s)) := by
  intro s t hs ht h
  exact congrArg k (hg s t hs ht h)

/-- Branching on what `u` has read. -/
theorem Acts.branch {c : S → Bool} {f g : S → Except E S} (hc : Seen view I u c)
    (hf : Acts view I u f) (hg : Acts view I u g) :
    Acts view I u (fun s => bif c s then f s else g s) := by
  refine Acts.read (f := fun b s => bif b then f s else g s) hc ?_
  intro s _
  cases c s with
  | true => exact hf
  | false => exact hg

/-- The same in all states that satisfy the invariant. -/
theorem Isolated.congr {f g : S → Except E (A × S)} (hf : Isolated view I u f)
    (h : ∀ s, I s → g s = f s) : Isolated view I u g where
  reads := by
    intro s t hs ht hv
    rw [h s hs, h t ht]
    exact hf.reads s t hs ht hv
  keeps := by
    intro s a t w hs hw hg
    rw [h s hs] at hg
    exact hf.keeps s a t w hs hw hg
  inv := by
    intro s a t hs hg
    rw [h s hs] at hg
    exact hf.inv s a t hs hg

theorem Acts.congr {f g : S → Except E S} (hf : Acts view I u f) (h : ∀ s, I s → g s = f s) :
    Acts view I u g :=
  Isolated.congr hf fun s hs => by rw [silent, h s hs, silent]

/-- Passing a check that `u` can follow, and going on with what it has established. -/
theorem Isolated.guard {J : S → Prop} {g : S → Except E B} {f : B → S → Except E (A × S)}
    (hg : Seen view I u g) (hJ : ∀ s b, I s → g s = .ok b → J s) (hI : ∀ s, J s → I s)
    (hf : ∀ s b, I s → g s = .ok b → Isolated view J u (f b)) :
    Isolated view I u (fun s => g s >>= fun b => f b s) where
  reads := by
    intro s t hs ht h
    have hst := hg s t hs ht h
    cases hb : g s with
    | error e =>
        rw [← hst, hb]
        rfl
    | ok b =>
        rw [← hst, hb]
        exact (hf s b hs hb).reads s t (hJ s b hs hb) (hJ t b ht (hst ▸ hb)) h
  keeps := by
    intro s a t w hs hw h
    cases hb : g s with
    | error e =>
        rw [hb] at h
        cases h
    | ok b =>
        rw [hb] at h
        exact (hf s b hs hb).keeps s a t w (hJ s b hs hb) hw h
  inv := by
    intro s a t hs h
    cases hb : g s with
    | error e =>
        rw [hb] at h
        cases h
    | ok b =>
        rw [hb] at h
        exact hI t ((hf s b hs hb).inv s a t (hJ s b hs hb) h)

/-- Reporting something else. -/
theorem Isolated.map {f : S → Except E (A × S)} (hf : Isolated view I u f) (g : A → B) :
    Isolated view I u (fun s => (f s).map (Prod.map g id)) where
  reads := by
    intro s t hs ht h
    rcases map_view_eq (hf.reads s t hs ht h) with ⟨e, hx, hy⟩ | ⟨a, s', t', hx, hy, hst⟩
    · rw [hx, hy]
    · rw [hx, hy]
      exact congrArg (fun v => Except.ok (g a, v)) hst
  keeps := by
    intro s b t w hs hw h
    cases hx : f s with
    | error e =>
        rw [hx] at h
        cases h
    | ok r =>
        rw [hx] at h
        cases h
        exact hf.keeps s r.1 r.2 w hs hw hx
  inv := by
    intro s b t hs h
    cases hx : f s with
    | error e =>
        rw [hx] at h
        cases h
    | ok r =>
        rw [hx] at h
        cases h
        exact hf.inv s r.1 r.2 hs hx

theorem Acts.report {f : S → Except E S} (hf : Acts view I u f) (a : A) :
    Isolated view I u (fun s => f s >>= fun t => .ok (a, t)) := by
  refine Isolated.congr (Isolated.map hf fun _ => a) ?_
  intro s _
  rw [silent]
  cases f s with
  | error e => rfl
  | ok t => rfl

theorem Isolated.silence {f : S → Except E (A × S)} (hf : Isolated view I u f) :
    Acts view I u (fun s => f s >>= fun r => .ok r.2) := by
  refine Isolated.congr (hf.map fun _ => ()) ?_
  intro s _
  rw [silent]
  cases f s with
  | error e => rfl
  | ok r => rfl

/-- Collecting an answer step by step. -/
theorem Isolated.fold {f : B → A → S → Except E (B × S)} (hf : ∀ b a, Isolated view I u (f b a))
    (l : List A) (b : B) : Isolated view I u (fun s => l.foldlM (fun r a => f r.1 a r.2) (b, s)) := by
  induction l generalizing b with
  | nil =>
      exact Isolated.congr (Acts.pure.map fun _ => b) fun s _ => rfl
  | cons a l ih =>
      simp only [List.foldlM_cons]
      exact Isolated.bind (hf b a) fun _ c _ _ _ => ih c

/-! ## Runs of many users -/

section Runs

variable {Act K : Type}

/-- Where actions are allowed, `u` is answered and shown by what `u` sees and asks for, and sees
nothing of the actions of others. -/
structure Separated (view : U → S → V) (I : S → Prop) (ok : S → Act → Prop) (actor : Act → U)
    (asked : Act → K) (act : Act → S → Except E (A × S)) (u : U) : Prop where
  reads : ∀ a b s t, actor a = u → actor b = u → asked a = asked b → I s → I t → ok s a → ok t b →
    view u s = view u t →
      (act a s).map (Prod.map id (view u)) = (act b t).map (Prod.map id (view u))
  keeps : ∀ a s b t, actor a ≠ u → I s → ok s a → act a s = .ok (b, t) → view u t = view u s
  inv : ∀ a s b t, I s → ok s a → act a s = .ok (b, t) → I t

variable (ok : S → Act → Prop) (actor : Act → U) (asked : Act → K)
  (act : Act → S → Except E (A × S))

/-- The answer to an action, and the state after it; a failed one is rolled back. -/
def perform (a : Act) (s : S) : Except E A × S :=
  match act a s with
  | .ok (b, t) => (.ok b, t)
  | .error e => (.error e, s)

def final (s : S) (l : List Act) : S := l.foldl (fun s a => (perform act a s).2) s

def Allowed : S → List Act → Prop
  | _, [] => True
  | s, a :: l => ok s a ∧ Allowed (perform act a s).2 l

variable {ok actor asked act}

theorem Separated.perform_inv (h : Separated view I ok actor asked act u) {a : Act} {s : S} (hs : I s)
    (ha : ok s a) : I (perform act a s).2 := by
  rw [perform]
  split
  · next b t hact => exact h.inv a s b t hs ha hact
  · exact hs

theorem Separated.perform_keeps (h : Separated view I ok actor asked act u) {a : Act} {s : S}
    (hs : I s) (ha : ok s a) (hother : actor a ≠ u) : view u (perform act a s).2 = view u s := by
  rw [perform]
  split
  · next b t hact => exact h.keeps a s b t hother hs ha hact
  · rfl

theorem Separated.perform_reads (h : Separated view I ok actor asked act u) {a b : Act} {s t : S}
    (ha : actor a = u) (hb : actor b = u) (hab : asked a = asked b) (hs : I s) (ht : I t)
    (has : ok s a) (hbt : ok t b) (hv : view u s = view u t) :
    (perform act a s).1 = (perform act b t).1 ∧
      view u (perform act a s).2 = view u (perform act b t).2 := by
  rw [perform, perform]
  rcases map_view_eq (h.reads a b s t ha hb hab hs ht has hbt hv) with
    ⟨e, hx, hy⟩ | ⟨b, s', t', hx, hy, hst⟩
  · rw [hx, hy]
    exact ⟨rfl, hv⟩
  · rw [hx, hy]
    exact ⟨rfl, hst⟩

variable [DecidableEq U] (actor act)

/-- What a user is answered along a run. -/
def answers (u : U) : S → List Act → List (Except E A)
  | _, [] => []
  | s, a :: l =>
      let r := perform act a s
      if actor a = u then r.1 :: answers u r.2 l else answers u r.2 l

variable {actor act}

/-- Actions of others before the next own one show nothing. -/
theorem Separated.others (h : Separated view I ok actor asked act u) {s : S} (hs : I s)
    {l m : List Act} (hl : ∀ a ∈ l, actor a ≠ u) (hok : Allowed ok act s (l ++ m)) :
    I (final act s l) ∧ view u (final act s l) = view u s ∧ Allowed ok act (final act s l) m ∧
      answers actor act u s (l ++ m) = answers actor act u (final act s l) m := by
  induction l generalizing s with
  | nil => exact ⟨hs, rfl, hok, rfl⟩
  | cons a l ih =>
      have ha := hl a (by simp)
      obtain ⟨hI, hview, hallowed, hanswers⟩ :=
        ih (h.perform_inv hs hok.1) (fun b hb => hl b (by simp [hb])) hok.2
      refine ⟨hI, hview.trans (h.perform_keeps hs hok.1 ha), hallowed, ?_⟩
      rw [List.cons_append, answers, if_neg ha]
      exact hanswers

/-- A user cannot tell two runs apart in which the user asks for the same: neither by the answers
nor by what is seen in the end. -/
theorem Separated.noninterference (h : Separated view I ok actor asked act u) {s t : S} (hs : I s)
    (ht : I t) (hv : view u s = view u t) {l m : List Act} (hl : Allowed ok act s l)
    (hm : Allowed ok act t m)
    (hsame : (l.filter fun a => decide (actor a = u)).map asked =
      (m.filter fun a => decide (actor a = u)).map asked) :
    answers actor act u s l = answers actor act u t m ∧
      view u (final act s l) = view u (final act t m) := by
  induction l generalizing s t m with
  | nil =>
      have hnone : ∀ a ∈ m, actor a ≠ u := by
        intro a ha he
        have hmem : asked a ∈ (m.filter fun a => decide (actor a = u)).map asked :=
          List.mem_map_of_mem (by simp [ha, he])
        rw [← hsame] at hmem
        cases hmem
      rw [← List.append_nil m] at hm
      obtain ⟨-, hview, -, hanswers⟩ := h.others ht hnone hm
      rw [List.append_nil] at hanswers
      exact ⟨hanswers.symm, hv.trans hview.symm⟩
  | cons a l ih =>
      by_cases ha : actor a = u
      · rw [List.filter_cons_of_pos (by simpa using ha), List.map_cons, eq_comm,
          List.map_eq_cons_iff] at hsame
        obtain ⟨b, own, hown, hab, hrest⟩ := hsame
        obtain ⟨pre, suf, rfl, hpre, hb, rfl⟩ := List.filter_eq_cons_iff.mp hown
        have hbu : actor b = u := of_decide_eq_true hb
        have hothers : ∀ c ∈ pre, actor c ≠ u := by
          intro c hc he
          simpa [he] using hpre c hc
        obtain ⟨hI, hview, hallowed, hanswers⟩ := h.others ht hothers hm
        obtain ⟨hanswer, hafter⟩ :=
          h.perform_reads ha hbu hab.symm hs hI hl.1 hallowed.1 (hv.trans hview.symm)
        obtain ⟨hrest, hfinal⟩ := ih (h.perform_inv hs hl.1) (h.perform_inv hI hallowed.1) hafter hl.2
          hallowed.2 hrest.symm
        constructor
        · rw [hanswers, answers, answers, if_pos ha, if_pos hbu, hanswer, hrest]
        · rw [final, final, List.foldl_append]
          exact hfinal
      · rw [List.filter_cons_of_neg (by simpa using ha)] at hsame
        rw [answers, if_neg ha]
        exact ih (h.perform_inv hs hl.1) ht ((h.perform_keeps hs hl.1 ha).trans hv) hl.2 hm hsame

end Runs

end Lib.Isolation
