import Mathlib

/-! # Counting in fixed windows

A counter that starts a window at the first request it sees, counts up to `m` requests
until the window is over and starts the next window at the first request after that. -/

namespace Lib.Windows

variable {m : Nat} {w : Int}

/-- The requests that a counter lets pass, from its current window, if any, as its start and
the number of requests it has seen. -/
def passed (m : Nat) (w : Int) : Option (Int × Nat) → List Int → List Int
  | _, [] => []
  | none, t :: l => t :: passed m w (some (t, 1)) l
  | some (s, c), t :: l =>
      if t - s > w then t :: passed m w (some (t, 1)) l
      else if c + 1 > m then passed m w (some (s, c + 1)) l
      else t :: passed m w (some (s, c + 1)) l

/-- What is left of the window that started at `s`, and the windows after it. -/
def windowsFrom (w : Int) : Int → List Int → List Int × List (List Int)
  | _, [] => ([], [])
  | s, t :: l =>
      if t - s > w then ([], (t :: (windowsFrom w t l).1) :: (windowsFrom w t l).2)
      else (t :: (windowsFrom w s l).1, (windowsFrom w s l).2)

/-- The windows of a sequence of times: each starts at the first time more than `w` after
the start of the one before. -/
def windows (w : Int) : List Int → List (List Int)
  | [] => []
  | t :: l => (t :: (windowsFrom w t l).1) :: (windowsFrom w t l).2

/-- Every closed interval of length `w` holds at most `m` of the times. -/
def Bounded (m : Nat) (w : Int) (l : List Int) : Prop :=
  ∀ t, l.countP (fun a => t ≤ a ∧ a ≤ t + w) ≤ m

/-- The `r`-th request of a window is preceded by at most `m - r` requests of the window
before within time `w`, among the first `m` requests of each. -/
def Steady (m : Nat) (w : Int) : List (List Int) → Prop
  | A :: B :: ws =>
      (∀ p ∈ (B.take m).zipIdx 1, (A.take m).countP (fun a => p.1 - a ≤ w) + p.2 ≤ m) ∧
        Steady m w (B :: ws)
  | _ => True

instance Steady.decidable : ∀ ws, Decidable (Steady m w ws)
  | [] => .isTrue trivial
  | [_] => .isTrue trivial
  | _ :: B :: ws =>
      have := Steady.decidable (B :: ws)
      inferInstanceAs (Decidable (_ ∧ _))

/-! ## The counter lets the first `m` requests of each window pass -/

theorem passed_from (hm : 1 ≤ m) (s : Int) (c : Nat) (l : List Int) :
    passed m w (some (s, c)) l =
      (windowsFrom w s l).1.take (m - c) ++ (windowsFrom w s l).2.flatMap (List.take m) := by
  induction l generalizing s c with
  | nil => simp [passed, windowsFrom]
  | cons t l ih =>
      rw [passed, windowsFrom]
      by_cases hnew : t - s > w
      · obtain ⟨n, rfl⟩ := Nat.exists_eq_add_of_le' hm
        simp only [if_pos hnew, ih, List.take_nil, List.nil_append, List.flatMap_cons,
          List.take_succ_cons, List.cons_append, Nat.add_sub_cancel]
      · simp only [if_neg hnew, ih]
        by_cases hfull : c + 1 > m
        · rw [if_pos hfull, Nat.sub_eq_zero_of_le (by omega : m ≤ c + 1),
            Nat.sub_eq_zero_of_le (by omega : m ≤ c)]
          simp
        · obtain ⟨n, hn⟩ := Nat.exists_eq_add_of_lt (by omega : c < m)
          rw [if_neg hfull, (by omega : m - c = (m - (c + 1)) + 1), List.take_succ_cons,
            List.cons_append]

theorem passed_none (hm : 1 ≤ m) (l : List Int) :
    passed m w none l = (windows w l).flatMap (List.take m) := by
  cases l with
  | nil => rfl
  | cons t l =>
      obtain ⟨n, rfl⟩ := Nat.exists_eq_add_of_le' hm
      rw [passed, passed_from hm, windows, List.flatMap_cons, List.take_succ_cons,
        List.cons_append, Nat.add_sub_cancel]

/-- A window that is over before the next request may as well be forgotten. -/
theorem passed_expired {s : Int} {c : Nat} {l : List Int} (h : ∀ t ∈ l, t - s > w) :
    passed m w (some (s, c)) l = passed m w none l := by
  cases l with
  | nil => rfl
  | cons t l =>
      have ht := h t (by simp)
      simp only [passed, if_pos ht]

/-! ## How windows of sorted times lie -/

/-- Each window is sorted, and what it holds lies within `w` of its start, unlike all that
comes after it. -/
def Laid (w : Int) : List (List Int) → Prop
  | [] => True
  | [] :: _ => False
  | (s :: A) :: ws =>
      (s :: A).Pairwise (· ≤ ·) ∧ (∀ a ∈ s :: A, a - s ≤ w) ∧ (∀ B ∈ ws, ∀ b ∈ B, b - s > w) ∧
        Laid w ws

theorem windowsFrom_flatten (s : Int) (l : List Int) :
    (windowsFrom w s l).1 ++ (windowsFrom w s l).2.flatten = l := by
  induction l generalizing s with
  | nil => rfl
  | cons t l ih =>
      rw [windowsFrom]
      split
      · rw [List.nil_append, List.flatten_cons, List.cons_append, ih]
      · rw [List.cons_append, ih]

theorem mem_of_mem_windowsFrom {s x : Int} {l : List Int} (h : x ∈ (windowsFrom w s l).1) :
    x ∈ l := by
  rw [← windowsFrom_flatten (w := w) s l]
  exact List.mem_append_left _ h

theorem mem_of_mem_later {s x : Int} {l B : List Int} (hB : B ∈ (windowsFrom w s l).2)
    (h : x ∈ B) : x ∈ l := by
  rw [← windowsFrom_flatten (w := w) s l]
  exact List.mem_append_right _ (List.mem_flatten_of_mem hB h)

theorem laid_windowsFrom (hw : 0 ≤ w) {s : Int} {l : List Int}
    (hl : (s :: l).Pairwise (· ≤ ·)) :
    Laid w ((s :: (windowsFrom w s l).1) :: (windowsFrom w s l).2) := by
  induction l generalizing s with
  | nil => simp [windowsFrom, Laid, hw]
  | cons t l ih =>
      obtain ⟨hs, hl⟩ := List.pairwise_cons.mp hl
      obtain ⟨ht, htail⟩ := List.pairwise_cons.mp hl
      have hst := hs t (by simp)
      rw [windowsFrom]
      by_cases hnew : t - s > w
      · rw [if_pos hnew]
        refine ⟨by simp, by simpa using hw, ?_, ih hl⟩
        intro B hB b hb
        have htb : t ≤ b := by
          obtain rfl | hB := List.mem_cons.mp hB
          · obtain rfl | hb := List.mem_cons.mp hb
            · exact le_rfl
            · exact ht b (mem_of_mem_windowsFrom hb)
          · exact ht b (mem_of_mem_later hB hb)
        omega
      · rw [if_neg hnew]
        have hsl : (s :: l).Pairwise (· ≤ ·) :=
          List.pairwise_cons.mpr ⟨fun b hb => hs b (List.mem_cons_of_mem t hb), htail⟩
        obtain ⟨hsorted, hin, hout, hrest⟩ := ih hsl
        obtain ⟨hmin, hsorted⟩ := List.pairwise_cons.mp hsorted
        refine ⟨?_, ?_, hout, hrest⟩
        · refine List.pairwise_cons.mpr ⟨?_, List.pairwise_cons.mpr ⟨?_, hsorted⟩⟩
          · intro b hb
            obtain rfl | hb := List.mem_cons.mp hb
            · exact hst
            · exact hmin b hb
          · exact fun b hb => ht b (mem_of_mem_windowsFrom hb)
        · intro a ha
          obtain rfl | ha := List.mem_cons.mp ha
          · exact hin a (by simp)
          · obtain rfl | ha := List.mem_cons.mp ha
            · omega
            · exact hin a (List.mem_cons_of_mem s ha)

theorem laid_windows (hw : 0 ≤ w) {l : List Int} (hl : l.Pairwise (· ≤ ·)) :
    Laid w (windows w l) := by
  cases l with
  | nil => trivial
  | cons t l => exact laid_windowsFrom hw hl

theorem Laid.tail {A : List Int} {ws : List (List Int)} (h : Laid w (A :: ws)) : Laid w ws := by
  cases A with
  | nil => exact h.elim
  | cons s A => exact h.2.2.2

/-- Two requests of one window lie within `w`. -/
theorem Laid.within {A : List Int} {ws : List (List Int)} (h : Laid w (A :: ws)) {a b : Int}
    (ha : a ∈ A) (hb : b ∈ A) : b - a ≤ w := by
  cases A with
  | nil => exact h.elim
  | cons s A =>
      obtain ⟨hsorted, hin, -, -⟩ := h
      have hsa : s ≤ a := by
        obtain rfl | ha := List.mem_cons.mp ha
        · exact le_rfl
        · exact (List.pairwise_cons.mp hsorted).1 a ha
      have := hin b hb
      omega

theorem Laid.sorted {A : List Int} {ws : List (List Int)} (h : Laid w (A :: ws)) :
    A.Pairwise (· ≤ ·) := by
  cases A with
  | nil => exact h.elim
  | cons s A => exact h.1

theorem Laid.lt_later {A B : List Int} {ws : List (List Int)} (h : Laid w (A :: ws)) {a b : Int}
    (ha : a ∈ A) (hB : B ∈ ws) (hb : b ∈ B) : a < b := by
  cases A with
  | nil => exact h.elim
  | cons s A =>
      have hin := h.2.1 a ha
      have hout := h.2.2.1 B hB b hb
      omega

/-- Requests that are two windows apart are more than `w` apart. -/
theorem Laid.far {A B C : List Int} {ws : List (List Int)} (h : Laid w (A :: B :: ws)) {a c : Int}
    (ha : a ∈ A) (hC : C ∈ ws) (hc : c ∈ C) : c - a > w := by
  cases B with
  | nil => exact h.tail.elim
  | cons s B =>
      have hlt := h.lt_later ha (by simp : s :: B ∈ (s :: B) :: ws) (by simp : s ∈ s :: B)
      have hout := h.tail.2.2.1 C hC c hc
      omega

/-! ## When every interval is bounded -/

variable {α : Type}

/-- The last element of a property stands at least as far as the property has elements. -/
theorem exists_mem_zipIdx {p : α → Bool} (l : List α) (k : Nat) (h : 0 < l.countP p) :
    ∃ q ∈ l.zipIdx k, p q.1 ∧ l.countP p + k ≤ q.2 + 1 := by
  induction l generalizing k with
  | nil => simp at h
  | cons x l ih =>
      rw [List.zipIdx_cons]
      have hcount := List.countP_cons (p := p) (a := x) (l := l)
      by_cases hl : 0 < l.countP p
      · obtain ⟨q, hq, hp, hle⟩ := ih (k + 1) hl
        refine ⟨q, List.mem_cons_of_mem _ hq, hp, ?_⟩
        split at hcount <;> omega
      · refine ⟨(x, k), by simp, ?_, ?_⟩
        · by_contra hx
          rw [if_neg hx] at hcount
          omega
        · show (x :: l).countP p + k ≤ k + 1
          split at hcount <;> omega

theorem index_lt_count {l : List Int} (hl : l.Pairwise (· ≤ ·)) (k : Nat) {q : Int × Nat}
    (hq : q ∈ l.zipIdx k) : q.2 < l.countP (fun b => decide (b ≤ q.1)) + k := by
  induction l generalizing k with
  | nil => simp at hq
  | cons x l ih =>
      obtain ⟨hx, hl⟩ := List.pairwise_cons.mp hl
      rw [List.zipIdx_cons] at hq
      obtain rfl | hq := List.mem_cons.mp hq
      · rw [List.countP_cons_of_pos (by simp)]
        omega
      · have hlt := ih hl (k + 1) hq
        have hmem := List.fst_mem_of_mem_zipIdx hq
        rw [List.countP_cons_of_pos (by simpa using hx q.1 hmem)]
        omega

theorem Steady.bounded {ws : List (List Int)} (hl : Laid w ws) (h : Steady m w ws) :
    Bounded m w (ws.flatMap (List.take m)) := by
  induction ws with
  | nil => simp [Bounded]
  | cons A ws ih =>
      intro t
      rw [List.flatMap_cons, List.countP_append]
      cases ws with
      | nil => simpa using List.countP_le_length.trans (List.length_take_le m A)
      | cons B ws =>
          have hrest := ih hl.tail h.2 t
          by_cases hA : (A.take m).countP (fun a => decide (t ≤ a ∧ a ≤ t + w)) = 0
          · omega
          -- An interval that meets a window reaches no further than the next one.
          obtain ⟨a, haA, ha⟩ := List.countP_pos_iff.mp (Nat.pos_of_ne_zero hA)
          have haA := List.mem_of_mem_take haA
          have hfar : (ws.flatMap (List.take m)).countP (fun a => decide (t ≤ a ∧ a ≤ t + w)) = 0 := by
            rw [List.countP_eq_zero]
            intro c hc
            obtain ⟨C, hC, hc⟩ := List.mem_flatMap.mp hc
            have := hl.far haA hC (List.mem_of_mem_take hc)
            simp only [decide_eq_true_eq] at ha ⊢
            omega
          rw [List.flatMap_cons, List.countP_append, hfar, Nat.add_zero]
          by_cases hB : 0 < (B.take m).countP (fun a => decide (t ≤ a ∧ a ≤ t + w))
          · obtain ⟨q, hq, hin, hle⟩ := exists_mem_zipIdx (B.take m) 1 hB
            have hq := h.1 q hq
            have hmono : (A.take m).countP (fun a => decide (t ≤ a ∧ a ≤ t + w)) ≤
                (A.take m).countP (fun a => decide (q.1 - a ≤ w)) := by
              apply List.countP_mono_left
              intro b _ hb
              simp only [decide_eq_true_eq] at hin hb ⊢
              omega
            omega
          · have hcount := List.countP_le_length
              (p := fun a => decide (t ≤ a ∧ a ≤ t + w)) (l := A.take m)
            have hshort := List.length_take_le m A
            omega

theorem Bounded.steady {ws : List (List Int)} (hl : Laid w ws)
    (h : Bounded m w (ws.flatMap (List.take m))) : Steady m w ws := by
  induction ws with
  | nil => trivial
  | cons A ws ih =>
      cases ws with
      | nil => trivial
      | cons B ws =>
          refine ⟨?_, ih hl.tail ?_⟩
          · intro q hq
            have hmem := List.mem_of_mem_take (List.fst_mem_of_mem_zipIdx hq)
            have hall := h (q.1 - w)
            simp only [List.flatMap_cons, List.countP_append] at hall
            have hA : (A.take m).countP (fun a => decide (q.1 - a ≤ w)) ≤
                (A.take m).countP (fun a => decide (q.1 - w ≤ a ∧ a ≤ q.1 - w + w)) := by
              apply List.countP_mono_left
              intro a ha haw
              have := hl.lt_later (List.mem_of_mem_take ha) (by simp : B ∈ B :: ws) hmem
              simp only [decide_eq_true_eq] at haw ⊢
              omega
            have hB : (B.take m).countP (fun b => decide (b ≤ q.1)) ≤
                (B.take m).countP (fun a => decide (q.1 - w ≤ a ∧ a ≤ q.1 - w + w)) := by
              apply List.countP_mono_left
              intro b hb hbq
              have := hl.tail.within (List.mem_of_mem_take hb) hmem
              simp only [decide_eq_true_eq] at hbq ⊢
              omega
            have hlt := index_lt_count (hl.tail.sorted.sublist (List.take_sublist m B)) 1 hq
            omega
          · intro t
            have hall := h t
            rw [List.flatMap_cons, List.countP_append] at hall
            omega

/-- A counter in fixed windows keeps the bound in every interval exactly when no two
consecutive windows come too close. -/
theorem bounded_passed (hm : 1 ≤ m) (hw : 0 ≤ w) {l : List Int} (hl : l.Pairwise (· ≤ ·)) :
    Bounded m w (passed m w none l) ↔ Steady m w (windows w l) := by
  rw [passed_none hm]
  have hlaid := laid_windows hw hl
  exact ⟨Bounded.steady hlaid, Steady.bounded hlaid⟩

end Lib.Windows
