import Mathlib

namespace Lib.Paging

/-! ## Pages over a changing set of keys -/

section

variable {K : Type} (lt : K → K → Prop)

/-- The key comes after the cursor; without a cursor every key does. -/
def After (cursor : Option K) (k : K) : Prop := ∀ c ∈ cursor, lt c k

/-- A page sees the keys from the cursor to the place where it stops, which is one of the keys, or
to their end. -/
structure Page (keys : Set K) (cursor stop : Option K) (seen : Set K) : Prop where
  sees : ∀ k ∈ keys, After lt cursor k → (∀ c ∈ stop, ¬lt c k) → k ∈ seen
  stops : ∀ c ∈ stop, c ∈ keys ∧ After lt cursor c

/-- Pages one after the other, each from where the last one stopped. -/
structure Pages (keys : ℕ → Set K) (cursor : ℕ → Option K) (seen : ℕ → Set K) : Prop where
  start : cursor 0 = none
  page : ∀ n, n = 0 ∨ cursor n ≠ none → Page lt (keys n) (cursor n) (cursor (n + 1)) (seen n)

variable {lt} {keys : ℕ → Set K} {cursor : ℕ → Option K} {seen : ℕ → Set K}

/-- A key that is there until the pages have come to it is seen. -/
theorem Pages.visits (h : Pages lt keys cursor seen) {N : ℕ}
    (hgoes : ∀ n < N, cursor (n + 1) ≠ none) (hend : cursor (N + 1) = none) {k : K}
    (hk : ∀ n ≤ N, After lt (cursor n) k → k ∈ keys n) : ∃ n ≤ N, k ∈ seen n := by
  by_contra hunseen
  have hnot (n : ℕ) (hn : n ≤ N) : k ∉ seen n := fun hseen => hunseen ⟨n, hn, hseen⟩
  have hpage (n : ℕ) (hn : n ≤ N) : Page lt (keys n) (cursor n) (cursor (n + 1)) (seen n) := by
    refine h.page n ?_
    cases n with
    | zero => exact .inl rfl
    | succ n => exact .inr (hgoes n (by omega))
  -- as long as the key is not seen, the cursor stays before it
  have hafter (n : ℕ) (hn : n ≤ N) : After lt (cursor n) k := by
    induction n with
    | zero =>
        rw [h.start]
        nofun
    | succ n ih =>
        have hbefore := ih (by omega)
        by_contra hpassed
        refine hnot n (by omega) ((hpage n (by omega)).sees k (hk n (by omega) hbefore) hbefore ?_)
        intro c hc hlt
        refine hpassed fun d hd => ?_
        rw [hc] at hd
        cases hd
        exact hlt
  refine hnot N le_rfl ((hpage N le_rfl).sees k (hk N le_rfl (hafter N le_rfl)) (hafter N le_rfl) ?_)
  rw [hend]
  nofun

/-- Where only finitely many keys ever appear, the pages end. -/
theorem Pages.terminates [IsStrictOrder K lt] (h : Pages lt keys cursor seen) (all : Finset K)
    (hall : ∀ n, ∀ k ∈ keys n, k ∈ all) : ∃ N ≤ all.card, cursor (N + 1) = none := by
  by_contra hnever
  have hsome (n : ℕ) (hn : n ≤ all.card) : ∃ c, cursor (n + 1) = some c := by
    rw [← Option.ne_none_iff_exists']
    exact fun hnone => hnever ⟨n, hn, hnone⟩
  have hpage (n : ℕ) (hn : n ≤ all.card) :
      Page lt (keys n) (cursor n) (cursor (n + 1)) (seen n) := by
    refine h.page n ?_
    cases n with
    | zero => exact .inl rfl
    | succ n =>
        obtain ⟨c, hc⟩ := hsome n (by omega)
        rw [hc]
        exact .inr nofun
  -- the cursors are as many different keys as there are pages
  have hlt {m n : ℕ} (hmn : m < n) (hn : n ≤ all.card) {c d : K} (hc : cursor (m + 1) = some c)
      (hd : cursor (n + 1) = some d) : lt c d := by
    induction n generalizing d with
    | zero => omega
    | succ n ih =>
        obtain ⟨e, he⟩ := hsome n (by omega)
        have hstep : lt e d := ((hpage (n + 1) hn).stops d hd).2 e he
        rcases Nat.lt_succ_iff_lt_or_eq.mp hmn with hbefore | heq
        · exact IsTrans.trans _ _ _ (ih hbefore (by omega) he) hstep
        · subst heq
          rw [hc] at he
          cases he
          exact hstep
  have : Nonempty K := (hsome 0 (Nat.zero_le _)).nonempty
  choose! f hf using hsome
  have hmaps : ∀ n ∈ Finset.range (all.card + 1), f n ∈ all := by
    intro n hn
    have hle : n ≤ all.card := Nat.lt_succ_iff.mp (Finset.mem_range.mp hn)
    exact hall n _ ((hpage n hle).stops _ (hf n hle)).1
  have hinj : Set.InjOn f (Finset.range (all.card + 1)) := by
    intro m hm n hn heq
    have hm : m ≤ all.card := Nat.lt_succ_iff.mp (Finset.mem_range.mp hm)
    have hn : n ≤ all.card := Nat.lt_succ_iff.mp (Finset.mem_range.mp hn)
    rcases lt_trichotomy m n with hlt' | rfl | hlt'
    · have hself := hlt hlt' hn (hf m hm) (hf n hn)
      rw [heq] at hself
      exact absurd hself (irrefl _)
    · rfl
    · have hself := hlt hlt' hm (hf n hn) (hf m hm)
      rw [heq] at hself
      exact absurd hself (irrefl _)
  have hcard := Finset.card_le_card_of_injOn f hmaps hinj
  rw [Finset.card_range] at hcard
  omega

end

end Lib.Paging
