import ZReader.Storage.Rows

namespace ZReader.Storage

open Lib.Utf8 Lib.Strings Lib.KeyValue Lib.DerivedIndex Lib.Fallible Std

def UserCoherent (l : List Book) (tx : Tx) : Prop := Mirrors userBooksRows l tx.userBooksIndex

def SortCoherent (l : List Book) (tx : Tx) : Prop :=
  Mirrors sortRows l tx.bookSortIndex ∧
    ∃ c, tx.bookCategorySortIndex = some c ∧ Mirrors categorySortRows l c

def SearchCoherent (l : List Book) (tx : Tx) : Prop := Mirrors searchRows l tx.bookSearchIndex

def GramCoherent (l : List Book) (tx : Tx) : Prop :=
  Mirrors gramRows l tx.bookSearchGramIndex ∧
    ∃ c, tx.bookSearchGramCounts = some c ∧ Tallies gramKeys l c

def MissingCoherent (l : List Book) (tx : Tx) : Prop :=
  ∃ c, tx.bookMissingHashIndex = some c ∧ Mirrors missingRows l c

theorem store_eq_ok {V : Type} {b c : Bucket V} {k : Bytes} {v : V} :
    store b k v = .ok c ↔ b.put k v = .ok c := by
  rw [store]
  split <;> simp_all

theorem store_of_valid {V : Type} (b : Bucket V) {k : Bytes} (hk : ValidKey k) (v : V) :
    ∃ c, store b k v = .ok c := by
  obtain ⟨c, hc⟩ := b.put_of_valid hk v
  exact ⟨c, store_eq_ok.mpr hc⟩

theorem putRows_singleton {V : Type} {b c : Bucket V} {k : Bytes} {v : V} (h : store b k v = .ok c) :
    putRows b [(k, v)] = .ok c := by
  rw [putRows_cons, store_eq_ok.mp h]
  rfl

/-! ## The books of a user -/

theorem UserCoherent.add {tx tx' : Tx} {b : Book} {l : List Book} (hl : UserCoherent l tx)
    (hf : Fresh b l) (h : addBookToUserIndex tx b.id b.userID = .ok tx') :
    ∃ i, tx' = { tx with userBooksIndex := i } ∧ UserCoherent (b :: l) tx' := by
  rw [addBookToUserIndex] at h
  split at h
  · next hu =>
    cases h
    refine ⟨tx.userBooksIndex, rfl, ?_⟩
    refine Mirrors.add hl (userBooksRows_functional b) (userBooksRows_separate hf) ?_
    simp only [userBooksRows, Unindexed, if_pos hu]
    rfl
  · next hu =>
    obtain ⟨i, hi, he⟩ := bind_eq_ok.mp h
    cases he
    refine ⟨i, rfl, Mirrors.add hl (userBooksRows_functional b) (userBooksRows_separate hf) ?_⟩
    simp only [userBooksRows, Unindexed, if_neg hu]
    exact putRows_singleton hi

theorem UserCoherent.remove {tx : Tx} {b : Book} {l : List Book} (hl : UserCoherent (b :: l) tx)
    (hf : Fresh b l) :
    ∃ i, removeBookFromUserIndex tx b.id b.userID = { tx with userBooksIndex := i } ∧
      UserCoherent l (removeBookFromUserIndex tx b.id b.userID) := by
  have he : removeBookFromUserIndex tx b.id b.userID =
      { tx with userBooksIndex := deleteRows tx.userBooksIndex (userBooksRows b) } := by
    rw [removeBookFromUserIndex]
    split
    · next hu => simp [userBooksRows, Unindexed, hu, deleteRows]
    · next hu => simp [userBooksRows, Unindexed, hu, deleteRows]
  rw [he]
  exact ⟨_, rfl, Mirrors.remove hl (userBooksRows_separate hf)⟩

/-! ## The sort indexes -/

theorem foldlM_addSortKey {b : Book} {l : List SortKey} {tx tx' : Tx} {c : Bucket Bytes}
    (hc : tx.bookCategorySortIndex = some c) (h : l.foldlM (addSortKey b) tx = .ok tx') :
    ∃ s d, tx' = { tx with bookSortIndex := s, bookCategorySortIndex := some d } ∧
      putRows tx.bookSortIndex (l.map fun s => (bookSortIndexKey b s, b.id)) = .ok s ∧
      putRows c (l.map fun s => (bookCategorySortIndexKey b s, b.id)) = .ok d := by
  induction l generalizing tx c with
  | nil =>
      rw [foldlM_nil_eq_ok] at h
      subst h
      exact ⟨tx.bookSortIndex, c, by rw [← hc], rfl, rfl⟩
  | cons k l ih =>
      obtain ⟨tx₁, h₁, h₂⟩ := foldlM_cons_eq_ok.mp h
      rw [addSortKey] at h₁
      obtain ⟨s₁, hs₁, h₁⟩ := bind_eq_ok.mp h₁
      simp only [hc] at h₁
      obtain ⟨c₁, hc₁, h₁⟩ := bind_eq_ok.mp h₁
      cases h₁
      obtain ⟨s, d, he, hs, hd⟩ := ih rfl h₂
      refine ⟨s, d, he, ?_, ?_⟩
      · rw [List.map_cons, putRows_cons, store_eq_ok.mp hs₁]
        exact hs
      · rw [List.map_cons, putRows_cons, store_eq_ok.mp hc₁]
        exact hd

theorem addBookToSortIndex_ok {tx tx' : Tx} {b : Book} {c : Bucket Bytes}
    (hc : tx.bookCategorySortIndex = some c) (h : addBookToSortIndex tx b = .ok tx') :
    ∃ s d, tx' = { tx with bookSortIndex := s, bookCategorySortIndex := some d } ∧
      putRows tx.bookSortIndex (sortRows b) = .ok s ∧ putRows c (categorySortRows b) = .ok d := by
  rw [addBookToSortIndex] at h
  split at h
  · next hu =>
    cases h
    refine ⟨tx.bookSortIndex, c, by rw [← hc], ?_, ?_⟩
    · simp only [sortRows, Unindexed, if_pos hu]; rfl
    · simp only [categorySortRows, Unindexed, if_pos hu]; rfl
  · next hu =>
    obtain ⟨s, d, he, hs, hd⟩ := foldlM_addSortKey hc h
    refine ⟨s, d, he, ?_, ?_⟩
    · simpa only [sortRows, Unindexed, if_neg hu] using hs
    · simpa only [categorySortRows, Unindexed, if_neg hu] using hd

theorem SortCoherent.add {tx tx' : Tx} {b : Book} {l : List Book} (hl : SortCoherent l tx)
    (hf : Fresh b l) (h : addBookToSortIndex tx b = .ok tx') :
    ∃ s d, tx' = { tx with bookSortIndex := s, bookCategorySortIndex := d } ∧
      SortCoherent (b :: l) tx' := by
  obtain ⟨hs, c, hc, hd⟩ := hl
  obtain ⟨s, d, rfl, hps, hpd⟩ := addBookToSortIndex_ok hc h
  exact ⟨s, some d, rfl, hs.add (sortRows_functional b) (sortRows_separate hf) hps, d, rfl,
    hd.add (categorySortRows_functional b) (categorySortRows_separate hf) hpd⟩

theorem foldl_removeSortKey (b : Book) (l : List SortKey) (tx : Tx) :
    l.foldl (removeSortKey b) tx = { tx with
      bookSortIndex :=
        deleteRows tx.bookSortIndex (l.map fun s => (bookSortIndexKey b s, b.id))
      bookCategorySortIndex := tx.bookCategorySortIndex.map fun c =>
        deleteRows c (l.map fun s => (bookCategorySortIndexKey b s, b.id)) } := by
  induction l generalizing tx with
  | nil => simp [deleteRows]
  | cons k l ih =>
      rw [List.foldl_cons, ih]
      simp [removeSortKey, deleteRows, Option.map_map, Function.comp_def]

theorem removeBookFromSortIndex_eq (tx : Tx) (b : Book) :
    removeBookFromSortIndex tx b = { tx with
      bookSortIndex := deleteRows tx.bookSortIndex (sortRows b)
      bookCategorySortIndex := tx.bookCategorySortIndex.map (deleteRows · (categorySortRows b)) } := by
  rw [removeBookFromSortIndex]
  split
  · next hu => simp [sortRows, categorySortRows, Unindexed, hu, deleteRows]
  · next hu =>
    rw [foldl_removeSortKey]
    simp only [sortRows, categorySortRows, Unindexed, if_neg hu]

theorem SortCoherent.remove {tx : Tx} {b : Book} {l : List Book} (hl : SortCoherent (b :: l) tx)
    (hf : Fresh b l) :
    ∃ s d, removeBookFromSortIndex tx b =
        { tx with bookSortIndex := s, bookCategorySortIndex := d } ∧
      SortCoherent l (removeBookFromSortIndex tx b) := by
  rw [removeBookFromSortIndex_eq]
  refine ⟨_, _, rfl, ?_⟩
  obtain ⟨hs, c, hc, hd⟩ := hl
  refine ⟨hs.remove (sortRows_separate hf), _, by rw [hc]; rfl, ?_⟩
  exact hd.remove (categorySortRows_separate hf)

/-! ## The search values -/

theorem SearchCoherent.add {tx tx' : Tx} {b : Book} {l : List Book} (hl : SearchCoherent l tx)
    (hf : Fresh b l) (h : addBookToSearchIndex tx b = .ok tx') :
    ∃ s, tx' = { tx with bookSearchIndex := s } ∧ SearchCoherent (b :: l) tx' := by
  rw [addBookToSearchIndex] at h
  split at h
  · next hu =>
    cases h
    refine ⟨tx.bookSearchIndex, rfl, ?_⟩
    refine Mirrors.add hl (searchRows_functional b) (searchRows_separate hf) ?_
    simp only [searchRows, Unindexed, if_pos hu]
    rfl
  · next hu =>
    obtain ⟨s, hs, he⟩ := bind_eq_ok.mp h
    cases he
    refine ⟨s, rfl, Mirrors.add hl (searchRows_functional b) (searchRows_separate hf) ?_⟩
    simp only [searchRows, Unindexed, if_neg hu]
    exact putRows_singleton hs

/-- Writing the search value of an edited book over the old one. -/
theorem SearchCoherent.replace {tx tx' : Tx} {b b' : Book} {l : List Book}
    (hl : SearchCoherent (b :: l) tx) (hf : Fresh b l) (hid : b'.id = b.id)
    (hu : b'.userID = b.userID) (h : addBookToSearchIndex tx b' = .ok tx') :
    ∃ s, tx' = { tx with bookSearchIndex := s } ∧ SearchCoherent (b' :: l) tx' := by
  rw [addBookToSearchIndex] at h
  split at h
  · next hn =>
    cases h
    refine ⟨tx.bookSearchIndex, rfl, Mirrors.exchange hl (searchRows_separate hf) ?_⟩
    intro k v
    rw [hid, hu] at hn
    simp [searchRows, Unindexed, hid, hu, hn]
  · next hn =>
    obtain ⟨s, hs, he⟩ := bind_eq_ok.mp h
    cases he
    refine ⟨s, rfl, Mirrors.exchange hl (searchRows_separate hf) ?_⟩
    intro k v
    rw [hid, hu] at hn
    have hput := Bucket.get_put (store_eq_ok.mp hs) k
    simp only [hput, searchRows, Unindexed, hid, hu, if_neg hn, List.map_cons, List.map_nil,
      List.mem_singleton, Prod.mk.injEq]
    by_cases hk : bookSearchIndexKey b.userID b.id = k
    · simp [hk, eq_comm]
    · simp [hk, Ne.symm hk]

theorem SearchCoherent.remove {tx : Tx} {b : Book} {l : List Book}
    (hl : SearchCoherent (b :: l) tx) (hf : Fresh b l) :
    ∃ s, removeBookFromSearchIndex tx b = { tx with bookSearchIndex := s } ∧
      SearchCoherent l (removeBookFromSearchIndex tx b) := by
  have he : removeBookFromSearchIndex tx b =
      { tx with bookSearchIndex := deleteRows tx.bookSearchIndex (searchRows b) } := by
    rw [removeBookFromSearchIndex]
    split
    · next hu => simp [searchRows, Unindexed, hu, deleteRows]
    · next hu => simp [searchRows, Unindexed, hu, deleteRows]
  rw [he]
  exact ⟨_, rfl, Mirrors.remove hl (searchRows_separate hf)⟩

end ZReader.Storage
