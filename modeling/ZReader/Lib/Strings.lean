import ZReader.Lib.Unicode

namespace Lib.Strings

open Utf8 Unicode

variable {α β : Type}

/-- The maximal runs of elements outside `p`, with the pending run carried along. -/
def wordsFrom (p : α → Bool) : List α → List α → List (List α)
  | acc, [] => if acc.isEmpty then [] else [acc]
  | acc, a :: l =>
      if p a then
        if acc.isEmpty then wordsFrom p [] l else acc :: wordsFrom p [] l
      else wordsFrom p (acc ++ [a]) l

def words (p : α → Bool) (l : List α) : List (List α) := wordsFrom p [] l

/-- A word: a non-empty run without separators. -/
def IsWord (p : α → Bool) (w : List α) : Prop := w ≠ [] ∧ ∀ a ∈ w, p a = false

theorem wordsFrom_isWord (p : α → Bool) (l acc : List α) (hacc : ∀ a ∈ acc, p a = false) :
    ∀ w ∈ wordsFrom p acc l, IsWord p w := by
  induction l generalizing acc with
  | nil =>
      intro w hw
      cases acc with
      | nil => simp [wordsFrom] at hw
      | cons a acc =>
          simp only [wordsFrom, List.isEmpty_cons, Bool.false_eq_true, if_false,
            List.mem_singleton] at hw
          exact hw ▸ ⟨by simp, hacc⟩
  | cons a l ih =>
      intro w hw
      simp only [wordsFrom] at hw
      split at hw
      · split at hw
        · exact ih [] (by simp) w hw
        · next hne =>
          obtain rfl | hw := List.mem_cons.mp hw
          · exact ⟨by simpa using hne, hacc⟩
          · exact ih [] (by simp) w hw
      · next ha =>
        refine ih (acc ++ [a]) ?_ w hw
        intro b hb
        obtain hb | hb := List.mem_append.mp hb
        · exact hacc b hb
        · rw [List.mem_singleton.mp hb]; simpa using ha

theorem words_isWord (p : α → Bool) (l : List α) : ∀ w ∈ words p l, IsWord p w :=
  wordsFrom_isWord p l [] (by simp)

theorem mem_wordsFrom (p : α → Bool) (l acc w : List α) (hw : w ∈ wordsFrom p acc l) :
    ∀ a ∈ w, a ∈ acc ∨ a ∈ l := by
  induction l generalizing acc with
  | nil =>
      intro a ha
      cases acc with
      | nil => simp [wordsFrom] at hw
      | cons b acc =>
          simp only [wordsFrom, List.isEmpty_cons, Bool.false_eq_true, if_false,
            List.mem_singleton] at hw
          exact Or.inl (hw ▸ ha)
  | cons b l ih =>
      intro a ha
      simp only [wordsFrom] at hw
      split at hw
      · split at hw
        · have := ih [] hw a ha; simp_all
        · obtain rfl | hw := List.mem_cons.mp hw
          · exact Or.inl ha
          · have := ih [] hw a ha; simp_all
      · have := ih (acc ++ [b]) hw a ha
        simp only [List.mem_append, List.mem_cons] at this ⊢
        tauto

theorem mem_of_mem_words {p : α → Bool} {l w : List α} (hw : w ∈ words p l) {a : α}
    (ha : a ∈ w) : a ∈ l := by
  simpa using mem_wordsFrom p l [] w hw a ha

theorem wordsFrom_map (f : α → β) (p : β → Bool) (l acc : List α) :
    wordsFrom p (acc.map f) (l.map f) = (wordsFrom (p ∘ f) acc l).map (List.map f) := by
  induction l generalizing acc with
  | nil => cases acc <;> simp [wordsFrom]
  | cons a l ih =>
      have h0 := ih []
      have h1 := ih (acc ++ [a])
      simp only [List.map_nil] at h0
      simp only [List.map_append, List.map_cons, List.map_nil] at h1
      simp only [List.map_cons, wordsFrom, Function.comp_apply, List.isEmpty_map, h0, h1]
      split
      · split <;> simp
      · rfl

theorem words_map (f : α → β) (p : β → Bool) (l : List α) :
    words p (l.map f) = (words (p ∘ f) l).map (List.map f) := by
  simpa [words] using wordsFrom_map f p l []

theorem wordsFrom_word {p : α → Bool} (w acc l : List α) (hw : ∀ a ∈ w, p a = false) :
    wordsFrom p acc (w ++ l) = wordsFrom p (acc ++ w) l := by
  induction w generalizing acc with
  | nil => simp
  | cons a w ih =>
      have ha : p a = false := hw a (by simp)
      rw [List.cons_append, wordsFrom, ha, if_neg (by simp),
        ih (acc ++ [a]) (fun b hb => hw b (by simp [hb]))]
      simp

/-- Splitting undoes joining with a single separator. -/
theorem words_intercalate {p : α → Bool} {sep : α} (hsep : p sep = true) (ws : List (List α))
    (h : ∀ w ∈ ws, IsWord p w) : words p (List.intercalate [sep] ws) = ws := by
  induction ws with
  | nil => rfl
  | cons w ws ih =>
      obtain ⟨hne, hw⟩ := h w (by simp)
      have he : w.isEmpty = false := by simpa using hne
      cases ws with
      | nil =>
          have hj : List.intercalate [sep] [w] = w ++ [] := by simp [List.intercalate]
          rw [hj, words, wordsFrom_word w [] [] hw]
          simp [wordsFrom, he]
      | cons v vs =>
          have hj : List.intercalate [sep] (w :: v :: vs) =
              w ++ sep :: List.intercalate [sep] (v :: vs) := by
            simp [List.intercalate]
          have ih' := ih (fun u hu => h u (by simp [hu]))
          rw [hj, words, wordsFrom_word w [] _ hw, wordsFrom, hsep, if_pos rfl]
          simp only [List.nil_append, he, Bool.false_eq_true, if_false]
          rw [words] at ih'
          rw [ih']

/-- `strings.TrimSpace`. -/
def trimSpace (s : Bytes) : Bytes :=
  raw (((segments s).dropWhile (isSpace ·.1)).rdropWhile (isSpace ·.1))

theorem dropWhile_of_front {p : α → Bool} {l r : List α} (h : r <+: l.dropWhile p) :
    r.dropWhile p = r := by
  cases r with
  | nil => rfl
  | cons a r =>
      obtain ⟨t, ht⟩ := h
      have hne : l.dropWhile p ≠ [] := by simp [← ht]
      have ha : p ((l.dropWhile p).head hne) = false := List.head_dropWhile_not p hne
      have hhead : (l.dropWhile p).head hne = a := by simp [← ht]
      rw [hhead] at ha
      rw [List.dropWhile_cons, ha]
      rfl

theorem trimSpace_idem (s : Bytes) : trimSpace (trimSpace s) = trimSpace s := by
  generalize hd : (segments s).dropWhile (isSpace ·.1) = d
  generalize hr : d.rdropWhile (isSpace ·.1) = r
  have hfront : r <+: d := hr ▸ List.rdropWhile_prefix _ _
  have hseg : segments (raw r) = r := by
    obtain ⟨t, ht⟩ := hfront
    have hsuf : segments s = (segments s).takeWhile (isSpace ·.1) ++ d := by
      rw [← hd, List.takeWhile_append_dropWhile]
    exact segments_raw_of_front ((segments_raw_of_suffix hsuf).trans ht.symm)
  have htrim : trimSpace s = raw r := by rw [trimSpace, hd, hr]
  have hkeep : r.dropWhile (isSpace ·.1) = r := dropWhile_of_front (hd ▸ hfront)
  have hkeep' : r.rdropWhile (isSpace ·.1) = r := by rw [← hr, List.rdropWhile_idempotent]
  rw [htrim, trimSpace, hseg, hkeep, hkeep']

theorem mem_of_mem_trimSpace {s : Bytes} {x : UInt8} (h : x ∈ trimSpace s) : x ∈ s := by
  rw [trimSpace, raw, List.mem_flatMap] at h
  obtain ⟨a, ha, hx⟩ := h
  have hfront := (List.rdropWhile_prefix _ _).subset ha
  rw [← raw_segments s, raw, List.mem_flatMap]
  exact ⟨a, (List.dropWhile_suffix _).subset hfront, hx⟩

/-- `strings.ToLower`: rune by rune, an invalid byte becoming U+FFFD. -/
def toLower (s : Bytes) : Bytes := encode ((runes s).map toLowerRune)

/-- `strings.Fields`. -/
def fields (s : Bytes) : List Bytes := (words (isSpace ·.1) (segments s)).map raw

/-- `strings.Join`. -/
def join (sep : Bytes) (parts : List Bytes) : Bytes := List.intercalate sep parts

theorem trimSpace_encode (cs : List Char) :
    trimSpace (encode cs) = encode ((cs.dropWhile isSpace).rdropWhile isSpace) := by
  rw [trimSpace, segments_encode, List.dropWhile_map]
  have h : ((cs.dropWhile isSpace).map fun c => (c, String.utf8EncodeChar c)).rdropWhile
      (fun p => isSpace p.1) =
      ((cs.dropWhile isSpace).rdropWhile isSpace).map fun c => (c, String.utf8EncodeChar c) := by
    simp only [List.rdropWhile, ← List.map_reverse, List.dropWhile_map]
    rfl
  rw [show ((fun x : Char × Bytes => isSpace x.1) ∘ fun c => (c, String.utf8EncodeChar c)) = isSpace
    from rfl, h, raw_map_encode]

theorem toLower_encode (cs : List Char) : toLower (encode cs) = encode (cs.map toLowerRune) := by
  rw [toLower, runes_encode]

theorem fields_encode (cs : List Char) : fields (encode cs) = (words isSpace cs).map encode := by
  rw [fields, segments_encode, words_map, List.map_map]
  exact List.map_congr_left fun w _ => raw_map_encode w

theorem join_encode (sep : Char) (ws : List (List Char)) :
    join (encode [sep]) (ws.map encode) = encode (List.intercalate [sep] ws) := by
  induction ws with
  | nil => rfl
  | cons w ws ih =>
      cases ws with
      | nil => simp [join, List.intercalate]
      | cons v vs =>
          simp only [join, List.intercalate, List.map_cons, List.intersperse_cons_cons,
            List.flatten_cons] at ih ⊢
          rw [ih]
          simp

end Lib.Strings
