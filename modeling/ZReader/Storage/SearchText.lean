import ZReader.Storage.Rows

namespace ZReader.Storage

open Lib.Utf8 Lib.Unicode Lib.Strings

/-- Runs of lower-case runes without blanks and NULs. -/
structure NormalText (ws : List (List Char)) : Prop where
  isWord : ∀ w ∈ ws, IsWord isSpace w
  lower : ∀ w ∈ ws, ∀ c ∈ w, toLowerRune c = c
  nonzero : ∀ w ∈ ws, ∀ c ∈ w, c ≠ '\x00'

def spaced (ws : List (List Char)) : List Char := List.intercalate [' '] ws

/-! ## Normalisation yields normal text -/

theorem encode_zero : encode ['\x00'] = [nul] := by decide

theorem nul_mem_utf8EncodeChar {c : Char} (h : nul ∈ String.utf8EncodeChar c) : c = '\x00' := by
  have hinfix : encode ['\x00'] <:+: encode [c] := by
    rw [encode_zero, List.singleton_infix_iff]
    simpa [encode] using h
  have hc := encode_infix hinfix
  rw [List.singleton_infix_iff, List.mem_singleton] at hc
  exact hc.symm

theorem withoutSeparator_encode (cs : List Char) :
    withoutSeparator (encode cs) = encode (cs.filter (· ≠ '\x00')) := by
  induction cs with
  | nil => rfl
  | cons c cs ih =>
      rw [withoutSeparator] at ih ⊢
      rw [encode_cons, List.filter_append, ih, List.filter_cons]
      by_cases hc : c = '\x00'
      · have hzero : String.utf8EncodeChar '\x00' = [nul] := by decide
        simp [hc, hzero]
      · have hkeep : (String.utf8EncodeChar c).filter (· ≠ nul) = String.utf8EncodeChar c := by
          rw [List.filter_eq_self]
          intro b hb
          rw [decide_eq_true_eq]
          rintro rfl
          exact hc (nul_mem_utf8EncodeChar hb)
        rw [hkeep, if_pos (by simp [hc]), encode_cons]

theorem normalizeBookSearchText_eq (v : Bytes) :
    ∃ ws, NormalText ws ∧ normalizeBookSearchText v = encode (spaced ws) := by
  let cs := ((runes (trimSpace v)).map toLowerRune).filter (· ≠ '\x00')
  refine ⟨words isSpace cs, ⟨words_isWord isSpace cs, ?_, ?_⟩, ?_⟩
  · intro w hw c hc
    have hmem := (List.mem_filter.mp (mem_of_mem_words hw hc)).1
    obtain ⟨d, -, rfl⟩ := List.mem_map.mp hmem
    exact toLowerRune_idem d
  · intro w hw c hc
    simpa using (List.mem_filter.mp (mem_of_mem_words hw hc)).2
  · have hsep : ascii " " = encode [' '] := rfl
    rw [normalizeBookSearchText, toLower, withoutSeparator_encode, fields_encode, hsep, join_encode]
    rfl

/-! ## Normal text is a fixed point -/

theorem spaced_cons_cons (w v : List Char) (vs : List (List Char)) :
    spaced (w :: v :: vs) = w ++ ' ' :: spaced (v :: vs) := by
  simp [spaced, List.intercalate]

theorem spaced_singleton (w : List Char) : spaced [w] = w := by
  simp [spaced, List.intercalate]

theorem mem_spaced {ws : List (List Char)} {c : Char} (h : c ∈ spaced ws) :
    c = ' ' ∨ ∃ w ∈ ws, c ∈ w := by
  induction ws with
  | nil => simp [spaced, List.intercalate] at h
  | cons w ws ih =>
      cases ws with
      | nil =>
          rw [spaced_singleton] at h
          exact Or.inr ⟨w, by simp, h⟩
      | cons v vs =>
          rw [spaced_cons_cons, List.mem_append, List.mem_cons] at h
          rcases h with h | h | h
          · exact Or.inr ⟨w, by simp, h⟩
          · exact Or.inl h
          · rcases ih h with hs | ⟨u, hu, hc⟩
            · exact Or.inl hs
            · exact Or.inr ⟨u, by simp [hu], hc⟩

/-- The text starts and ends inside a word. -/
theorem spaced_ends {ws : List (List Char)} (h : ∀ w ∈ ws, IsWord isSpace w) (hne : ws ≠ []) :
    (∃ a t, spaced ws = a :: t ∧ isSpace a = false) ∧
      ∃ t b, spaced ws = t ++ [b] ∧ isSpace b = false := by
  induction ws with
  | nil => exact absurd rfl hne
  | cons w ws ih =>
      obtain ⟨hw, hall⟩ := h w (by simp)
      have hhead : ∃ a t, w = a :: t ∧ isSpace a = false := by
        cases w with
        | nil => exact absurd rfl hw
        | cons a t => exact ⟨a, t, rfl, hall a (by simp)⟩
      obtain ⟨a, t, ha, hspace⟩ := hhead
      cases ws with
      | nil =>
          rw [spaced_singleton]
          refine ⟨⟨a, t, ha, hspace⟩, w.dropLast, w.getLast hw, ?_, hall _ (List.getLast_mem hw)⟩
          exact (List.dropLast_append_getLast hw).symm
      | cons v vs =>
          obtain ⟨-, s, b, hs, hb⟩ := ih (fun u hu => h u (by simp [hu])) (by simp)
          rw [spaced_cons_cons]
          refine ⟨⟨a, t ++ ' ' :: spaced (v :: vs), by rw [ha]; rfl, hspace⟩,
            w ++ ' ' :: s, b, by rw [hs]; simp, hb⟩

theorem trim_spaced {ws : List (List Char)} (h : ∀ w ∈ ws, IsWord isSpace w) :
    ((spaced ws).dropWhile isSpace).rdropWhile isSpace = spaced ws := by
  by_cases hne : ws = []
  · subst hne
    rfl
  · obtain ⟨⟨a, t, ha, hspace⟩, s, b, hb, hspace'⟩ := spaced_ends h hne
    have hdrop : (spaced ws).dropWhile isSpace = spaced ws := by
      rw [ha, List.dropWhile_cons, hspace]
      rfl
    rw [hdrop, hb, List.rdropWhile_concat_neg _ _ _ (by simp [hspace'])]

theorem normalizeBookSearchText_spaced {ws : List (List Char)} (h : NormalText ws) :
    normalizeBookSearchText (encode (spaced ws)) = encode (spaced ws) := by
  have hlower : (spaced ws).map toLowerRune = spaced ws := by
    conv_rhs => rw [← List.map_id (spaced ws)]
    apply List.map_congr_left
    intro c hc
    rcases mem_spaced hc with rfl | ⟨w, hw, hc⟩
    · decide
    · exact h.lower w hw c hc
  have hnonzero : (spaced ws).filter (· ≠ '\x00') = spaced ws := by
    rw [List.filter_eq_self]
    intro c hc
    rw [decide_eq_true_eq]
    rcases mem_spaced hc with rfl | ⟨w, hw, hc⟩
    · decide
    · exact h.nonzero w hw c hc
  have hsep : ascii " " = encode [' '] := rfl
  rw [normalizeBookSearchText, trimSpace_encode, trim_spaced h.isWord, toLower_encode, hlower,
    withoutSeparator_encode, hnonzero, fields_encode, hsep, join_encode]
  rw [spaced, words_intercalate (by decide) ws h.isWord]

theorem normalizeBookSearchText_idem (v : Bytes) :
    normalizeBookSearchText (normalizeBookSearchText v) = normalizeBookSearchText v := by
  obtain ⟨ws, hws, he⟩ := normalizeBookSearchText_eq v
  rw [he, normalizeBookSearchText_spaced hws]

/-! ## The grams of a normal text -/

theorem bookSearchGrams_spaced {ws : List (List Char)} (h : NormalText ws) :
    bookSearchGrams (encode (spaced ws)) = distinct ((runePairs (spaced ws)).map encode) := by
  rw [bookSearchGrams, normalizeBookSearchText_spaced h, runes_encode]

theorem runePairs_append_left (s : List Char) (r : List Char) :
    ∀ x ∈ runePairs r, x ∈ runePairs (s ++ r) := by
  induction s with
  | nil => simp
  | cons a s ih =>
      intro x hx
      have hmem := ih x hx
      cases hs : s ++ r with
      | nil => rw [hs] at hmem; simp [runePairs] at hmem
      | cons b t =>
          rw [List.cons_append, hs, runePairs, List.mem_cons]
          rw [hs] at hmem
          exact Or.inr hmem

theorem runePairs_append_right (r t : List Char) :
    ∀ x ∈ runePairs r, x ∈ runePairs (r ++ t) := by
  induction r with
  | nil => simp [runePairs]
  | cons a r ih =>
      cases r with
      | nil => simp [runePairs]
      | cons b r =>
          intro x hx
          rw [runePairs, List.mem_cons] at hx
          rw [List.cons_append, List.cons_append, runePairs, List.mem_cons]
          rcases hx with hx | hx
          · exact Or.inl hx
          · exact Or.inr (ih x hx)

/-- A text contains every gram of the texts it contains. -/
theorem bookSearchGrams_subset {x y g : Bytes}
    (h : normalizeBookSearchText x <:+: normalizeBookSearchText y)
    (hg : g ∈ bookSearchGrams (normalizeBookSearchText x)) :
    g ∈ bookSearchGrams (normalizeBookSearchText y) := by
  obtain ⟨ws, hws, hx⟩ := normalizeBookSearchText_eq x
  obtain ⟨vs, hvs, hy⟩ := normalizeBookSearchText_eq y
  rw [hx, bookSearchGrams_spaced hws, mem_distinct, List.mem_map] at hg
  rw [hy, bookSearchGrams_spaced hvs, mem_distinct, List.mem_map]
  obtain ⟨p, hp, rfl⟩ := hg
  rw [hx, hy] at h
  obtain ⟨s, t, hst⟩ := encode_infix h
  refine ⟨p, ?_, rfl⟩
  rw [← hst]
  exact runePairs_append_right _ t p (runePairs_append_left s _ p hp)

end ZReader.Storage
