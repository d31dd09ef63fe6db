import ZReader.Lib.Fallible
import ZReader.Storage.Indexes

namespace ZReader.Storage

open Lib.Utf8 Lib.Strings Lib.KeyValue Lib.DerivedIndex Lib.Fallible Std

/-- A record that the listing indexes leave out. -/
abbrev Unindexed (b : Book) : Prop := b.userID = [] ∨ b.id = []

def userBooksRows (b : Book) : List (Bytes × Bytes) :=
  if Unindexed b then [] else [(userBooksKey b.userID b.id, [])]

def sortRows (b : Book) : List (Bytes × Bytes) :=
  if Unindexed b then [] else supportedBookSorts.map (fun s => (bookSortIndexKey b s, b.id))

def categorySortRows (b : Book) : List (Bytes × Bytes) :=
  if Unindexed b then [] else supportedBookSorts.map (fun s => (bookCategorySortIndexKey b s, b.id))

def searchRows (b : Book) : List (Bytes × Bytes) :=
  if Unindexed b then [] else [(bookSearchIndexKey b.userID b.id, bookSearchValue b)]

def bookGrams (b : Book) : List Bytes := bookSearchGrams (bookSearchValue b)

def gramRows (b : Book) : List (Bytes × Bytes) :=
  if Unindexed b then []
  else (bookGrams b).map (fun g => (bookSearchGramIndexKey b.userID g b.id, []))

def gramKeys (b : Book) : List Bytes :=
  if Unindexed b then [] else (bookGrams b).map (bookSearchGramIndexPrefix b.userID)

def missingRows (b : Book) : List (Bytes × Bytes) :=
  if b.id = [] ∨ b.contentHash ≠ [] then [] else [(bookSearchIndexKey b.userID b.id, b.id)]

/-- A book with an identifier of its own among the books of a library. -/
def Fresh (b : Book) (l : List Book) : Prop :=
  WellFormedID b.id ∧ ∀ s ∈ l, WellFormedID s.id ∧ s.id ≠ b.id

theorem Fresh.ne_nil {b : Book} {l : List Book} (h : Fresh b l) : b.id ≠ [] := h.1.1

theorem append_cons_inj {sep : UInt8} {x y a b : Bytes} (ha : sep ∉ a) (hb : sep ∉ b)
    (h : x ++ sep :: a = y ++ sep :: b) : x = y ∧ a = b := by
  rw [List.append_eq_append_iff] at h
  obtain ⟨u, rfl, hu⟩ | ⟨u, rfl, hu⟩ := h
  · cases u with
    | nil => simpa using hu
    | cons c u =>
        rw [List.cons_append, List.cons.injEq] at hu
        exact absurd (by simp [hu.2]) ha
  · cases u with
    | nil =>
        rw [List.nil_append, List.cons.injEq] at hu
        exact ⟨by simp, hu.2.symm⟩
    | cons c u =>
        rw [List.cons_append, List.cons.injEq] at hu
        exact absurd (by simp [hu.2]) hb

/-- Rows whose keys end in the identifier of their record never collide between
records with different identifiers. -/
theorem separate_of_key_id {V : Type} {rows : Book → List (Bytes × V)} {sep : UInt8}
    (hsep : ∀ id, WellFormedID id → sep ∉ id)
    (hkey : ∀ b k v, (k, v) ∈ rows b → ∃ x, k = x ++ sep :: b.id)
    {b : Book} {l : List Book} (h : Fresh b l) : Separate rows b l := by
  intro s hs k v w hv hw
  obtain ⟨x, hx⟩ := hkey b k v hv
  obtain ⟨y, hy⟩ := hkey s k w hw
  obtain ⟨hs, hne⟩ := h.2 s hs
  exact hne (append_cons_inj (hsep _ hs) (hsep _ h.1) (hy.symm.trans hx)).2

theorem nul_notMem {id : Bytes} (h : WellFormedID id) : nul ∉ id := h.2.2

theorem colon_notMem {id : Bytes} (h : WellFormedID id) : colon ∉ id := h.2.1

theorem bookSortIndexKey_eq (b : Book) (s : SortKey) :
    bookSortIndexKey b s = (s.name ++ nul :: b.userID ++ nul :: bookSortValue b s) ++ nul :: b.id := by
  simp [bookSortIndexKey, join, List.intercalate]

theorem userBooksRows_separate {b : Book} {l : List Book} (h : Fresh b l) :
    Separate userBooksRows b l := by
  refine separate_of_key_id (fun _ => colon_notMem) ?_ h
  intro b k v hv
  rw [userBooksRows] at hv
  split at hv
  · simp at hv
  · simp only [List.mem_singleton, Prod.mk.injEq] at hv
    exact ⟨b.userID, by simp [hv.1, userBooksKey]⟩

theorem sortRows_separate {b : Book} {l : List Book} (h : Fresh b l) : Separate sortRows b l := by
  refine separate_of_key_id (fun _ => nul_notMem) ?_ h
  intro b k v hv
  rw [sortRows] at hv
  split at hv
  · simp at hv
  · obtain ⟨s, -, hs⟩ := List.mem_map.mp hv
    rw [Prod.mk.injEq] at hs
    exact ⟨_, hs.1.symm.trans (bookSortIndexKey_eq b s)⟩

theorem categorySortRows_separate {b : Book} {l : List Book} (h : Fresh b l) :
    Separate categorySortRows b l := by
  refine separate_of_key_id (fun _ => nul_notMem) ?_ h
  intro b k v hv
  rw [categorySortRows] at hv
  split at hv
  · simp at hv
  · obtain ⟨s, -, hs⟩ := List.mem_map.mp hv
    rw [Prod.mk.injEq] at hs
    refine ⟨bookCategorySortPrefix b.userID (categoryForBook b) s ++ bookSortValue b s, ?_⟩
    rw [← hs.1, bookCategorySortIndexKey]
    simp

theorem searchRows_separate {b : Book} {l : List Book} (h : Fresh b l) :
    Separate searchRows b l := by
  refine separate_of_key_id (fun _ => nul_notMem) ?_ h
  intro b k v hv
  rw [searchRows] at hv
  split at hv
  · simp at hv
  · simp only [List.mem_singleton, Prod.mk.injEq] at hv
    exact ⟨b.userID, by simp [hv.1, bookSearchIndexKey]⟩

theorem gramRows_separate {b : Book} {l : List Book} (h : Fresh b l) : Separate gramRows b l := by
  refine separate_of_key_id (fun _ => nul_notMem) ?_ h
  intro b k v hv
  rw [gramRows] at hv
  split at hv
  · simp at hv
  · obtain ⟨g, -, hg⟩ := List.mem_map.mp hv
    rw [Prod.mk.injEq] at hg
    exact ⟨b.userID ++ nul :: g, by simp [← hg.1, bookSearchGramIndexKey]⟩

theorem missingRows_separate {b : Book} {l : List Book} (h : Fresh b l) :
    Separate missingRows b l := by
  refine separate_of_key_id (fun _ => nul_notMem) ?_ h
  intro b k v hv
  rw [missingRows] at hv
  split at hv
  · simp at hv
  · simp only [List.mem_singleton, Prod.mk.injEq] at hv
    exact ⟨b.userID, by simp [hv.1, bookSearchIndexKey]⟩

/-- Every listing row of a book carries the book's identifier. -/
theorem functional_of_value {V : Type} {l : List (Bytes × V)} {x : V} (h : ∀ r ∈ l, r.2 = x) :
    Functional l := by
  intro k v w hv hw
  exact (h (k, v) hv).trans (h (k, w) hw).symm

theorem userBooksRows_functional (b : Book) : Functional (userBooksRows b) := by
  refine functional_of_value (x := []) ?_
  intro r hr
  rw [userBooksRows] at hr
  split at hr <;> simp_all

theorem sortRows_functional (b : Book) : Functional (sortRows b) := by
  refine functional_of_value (x := b.id) ?_
  intro r hr
  rw [sortRows] at hr
  split at hr
  · simp at hr
  · obtain ⟨s, -, rfl⟩ := List.mem_map.mp hr
    rfl

theorem categorySortRows_functional (b : Book) : Functional (categorySortRows b) := by
  refine functional_of_value (x := b.id) ?_
  intro r hr
  rw [categorySortRows] at hr
  split at hr
  · simp at hr
  · obtain ⟨s, -, rfl⟩ := List.mem_map.mp hr
    rfl

theorem searchRows_functional (b : Book) : Functional (searchRows b) := by
  refine functional_of_value (x := bookSearchValue b) ?_
  intro r hr
  rw [searchRows] at hr
  split at hr <;> simp_all

theorem missingRows_functional (b : Book) : Functional (missingRows b) := by
  refine functional_of_value (x := b.id) ?_
  intro r hr
  rw [missingRows] at hr
  split at hr <;> simp_all

theorem mem_distinctFrom (l acc : List Bytes) (g : Bytes) :
    g ∈ l.foldl (fun seen g => if g ∈ seen then seen else seen ++ [g]) acc ↔ g ∈ acc ∨ g ∈ l := by
  induction l generalizing acc with
  | nil => simp
  | cons a l ih =>
      rw [List.foldl_cons, ih]
      by_cases ha : a ∈ acc
      · simp only [ha, if_true, List.mem_cons]
        constructor
        · rintro (h | h)
          · exact Or.inl h
          · exact Or.inr (Or.inr h)
        · rintro (h | rfl | h)
          · exact Or.inl h
          · exact Or.inl ha
          · exact Or.inr h
      · simp only [ha, if_false, List.mem_append, List.mem_cons, List.not_mem_nil, or_false]
        tauto

theorem mem_distinct {l : List Bytes} {g : Bytes} : g ∈ distinct l ↔ g ∈ l := by
  simpa [distinct] using mem_distinctFrom l [] g

theorem nodup_distinctFrom (l acc : List Bytes) (h : acc.Nodup) :
    (l.foldl (fun seen g => if g ∈ seen then seen else seen ++ [g]) acc).Nodup := by
  induction l generalizing acc with
  | nil => exact h
  | cons a l ih =>
      rw [List.foldl_cons]
      apply ih
      split
      · exact h
      · next ha =>
        refine List.nodup_append.mpr ⟨h, List.nodup_singleton a, ?_⟩
        intro x hx y hy hxy
        exact ha (List.mem_singleton.mp hy ▸ hxy ▸ hx)

theorem nodup_bookGrams (b : Book) : (bookGrams b).Nodup := nodup_distinctFrom _ _ List.nodup_nil

theorem bookSearchGramIndexKey_inj {u g g' id : Bytes}
    (h : bookSearchGramIndexKey u g id = bookSearchGramIndexKey u g' id) : g = g' := by
  simpa [bookSearchGramIndexKey] using h

theorem bookSearchGramIndexPrefix_inj {u g g' : Bytes}
    (h : bookSearchGramIndexPrefix u g = bookSearchGramIndexPrefix u g') : g = g' := by
  simpa [bookSearchGramIndexPrefix] using h

end ZReader.Storage
