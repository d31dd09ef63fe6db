import ZReader.Storage.Coherence

namespace ZReader.Storage

open Lib.Utf8 Lib.Strings Lib.KeyValue Lib.DerivedIndex Lib.Fallible Std

/-! ## Deleting a book -/

/-- The part of a deletion that concerns progress and bookmarks. -/
def dropReadingData (passed : Bytes → Bool) (tx : Tx) (id userID : Bytes) : Tx :=
  let tx := match tx.progress.get (progressKey userID id) with
    | some progress => removeProgressFromTimeIndex tx progress
    | none => tx
  let tx := { tx with progress := tx.progress.delete (progressKey userID id) }
  deleteBookmarksWithPrefix passed tx (bookmarkBookPrefix userID id)

theorem removeProgressFromTimeIndex_eq (tx : Tx) (p : Progress) :
    ∃ t, removeProgressFromTimeIndex tx p = { tx with progressTimeIndex := t } := by
  rw [removeProgressFromTimeIndex]
  split
  · exact ⟨_, rfl⟩
  · exact ⟨_, rfl⟩

theorem dropReadingData_eq (passed : Bytes → Bool) (tx : Tx) (id u : Bytes) :
    ∃ p t m, dropReadingData passed tx id u =
      { tx with progress := p, progressTimeIndex := t, bookmarks := m } := by
  rw [dropReadingData]
  split
  · next p _ =>
    obtain ⟨t, ht⟩ := removeProgressFromTimeIndex_eq tx p
    simp only [ht]
    exact ⟨_, _, _, rfl⟩
  · exact ⟨_, _, _, rfl⟩

theorem deleteBookDataInTx_eq (passed : Bytes → Bool) (tx : Tx) (id u : Bytes) :
    deleteBookDataInTx passed tx id u = (do
      let book ← ownedBook tx id u
      let tx ← adjustLibrarySummary tx book (-1)
      let tx ← removeBookFromContentIndex tx book
      let tx := removeBookFromSortIndex tx book
      let tx := removeBookFromUserIndex { tx with books := tx.books.delete id } id u
      let tx := removeBookFromSearchIndex (dropReadingData passed tx id u) book
      let tx ← removeBookFromSearchGramIndex tx book
      .ok (book, tx)) := rfl

theorem deleteBookDataInTx_ok {passed : Bytes → Bool} {tx tx' : Tx} {id u : Bytes} {b : Book}
    (hc : Coherent tx) (h : deleteBookDataInTx passed tx id u = .ok (b, tx')) :
    tx.books.get id = some b ∧ b.userID = u ∧ tx'.books = tx.books.delete id ∧ Coherent tx' := by
  rw [deleteBookDataInTx_eq] at h
  obtain ⟨b', hown, h⟩ := bind_eq_ok.mp h
  obtain ⟨tx₁, h₁, h⟩ := bind_eq_ok.mp h
  obtain ⟨tx₂, h₂, h⟩ := bind_eq_ok.mp h
  obtain ⟨tx₃, h₃, h⟩ := bind_eq_ok.mp h
  cases h
  obtain ⟨hget, rfl⟩ := ownedBook_eq_ok.mp hown
  obtain ⟨rfl, hf, hu, hl⟩ := hc.focus hget
  obtain ⟨s₁, rfl, hsum⟩ := hl.summary.remove h₁
  obtain ⟨c, m, rfl, hmiss⟩ := MissingCoherent.remove (by exact hl.missing) hf h₂
  have hsort₀ : SortCoherent (b :: (tx.books.delete b.id).values) { tx with
    librarySummaryIndex := s₁, bookContentIndex := c, bookMissingHashIndex := m } := hl.sort
  obtain ⟨s, d, he, hsort⟩ := hsort₀.remove hf
  simp only [he] at h₃ hsort
  have hu₀ : UserCoherent (b :: (tx.books.delete b.id).values) { tx with
    librarySummaryIndex := s₁, bookContentIndex := c, bookMissingHashIndex := m, bookSortIndex := s
    bookCategorySortIndex := d, books := tx.books.delete b.id } := hu
  obtain ⟨i, he, huser⟩ := hu₀.remove hf
  simp only [he] at h₃ huser
  obtain ⟨p, t, k, he⟩ := dropReadingData_eq passed { tx with
    librarySummaryIndex := s₁, bookContentIndex := c, bookMissingHashIndex := m, bookSortIndex := s
    bookCategorySortIndex := d, books := tx.books.delete b.id, userBooksIndex := i } b.id b.userID
  simp only [he] at h₃
  have hsearch₀ : SearchCoherent (b :: (tx.books.delete b.id).values) { tx with
    librarySummaryIndex := s₁, bookContentIndex := c, bookMissingHashIndex := m, bookSortIndex := s
    bookCategorySortIndex := d, books := tx.books.delete b.id, userBooksIndex := i, progress := p
    progressTimeIndex := t, bookmarks := k } := hl.search
  obtain ⟨v, he, hsearch⟩ := hsearch₀.remove hf
  simp only [he] at h₃ hsearch
  obtain ⟨g, n, rfl, hgram⟩ := GramCoherent.remove (by exact hl.gram) hf h₃
  exact ⟨hget, rfl, rfl, hc.keyed.delete b.id, huser, hsort, hsearch, hgram, hmiss, hsum⟩

theorem deleteBookData_coherent {tx tx' : Tx} {id u : Bytes} (hc : Coherent tx)
    (h : deleteBookData id u tx = .ok tx') : Coherent tx' := by
  rw [deleteBookData] at h
  obtain ⟨⟨b, tx₁⟩, h₁, h⟩ := bind_eq_ok.mp h
  cases h
  exact (deleteBookDataInTx_ok hc h₁).2.2.2

theorem deleteBooksData_coherent {passed : Bytes → Bool} {tx tx' : Tx} {ids : List Bytes} {u : Bytes}
    {bs : List Book} (hc : Coherent tx) (h : deleteBooksData ids u passed tx = .ok (bs, tx')) :
      Coherent tx' := by
  refine foldlM_invariant (fun r : List Book × Tx => Coherent r.2) ?_ hc h
  intro id _ r r' hr hstep
  obtain ⟨⟨b, tx₁⟩, h₁, hstep⟩ := bind_eq_ok.mp hstep
  cases hstep
  exact (deleteBookDataInTx_ok hr h₁).2.2.2

/-! ## Moving books between categories -/

theorem updateBookCategory_ok {tx tx' : Tx} {id u : Bytes} {category : Option Bytes} {b : Book}
    (hc : Coherent tx) (h : updateBookCategory u category tx id = .ok (b, tx')) : Coherent tx' := by
  simp only [updateBookCategory] at h
  obtain ⟨old, hown, h⟩ := bind_eq_ok.mp h
  obtain ⟨tx₁, h₁, h⟩ := bind_eq_ok.mp h
  obtain ⟨tx₂, h₂, h⟩ := bind_eq_ok.mp h
  obtain ⟨bs, hbs, h⟩ := bind_eq_ok.mp h
  obtain ⟨tx₃, h₃, h⟩ := bind_eq_ok.mp h
  obtain ⟨tx₄, h₄, h⟩ := bind_eq_ok.mp h
  obtain ⟨tx₅, h₅, h⟩ := bind_eq_ok.mp h
  obtain ⟨tx₆, h₆, h⟩ := bind_eq_ok.mp h
  cases h
  obtain ⟨hget, rfl⟩ := ownedBook_eq_ok.mp hown
  obtain ⟨rfl, hf, hu, hl⟩ := hc.focus hget
  have hw : WellFormedID old.id := hf.1
  have hf' : Fresh { old with category := category } (tx.books.delete old.id).values := hf
  obtain ⟨s₁, rfl, hsum⟩ := hl.summary.remove h₁
  have hsort₀ : SortCoherent (old :: (tx.books.delete old.id).values)
    { tx with librarySummaryIndex := s₁ } := hl.sort
  obtain ⟨s, d, he, hsort⟩ := hsort₀.remove hf
  simp only [he] at h₂ hsort
  obtain ⟨g, n, rfl, hgram⟩ := GramCoherent.remove (by exact hl.gram) hf h₂
  simp only at hbs h₃ hgram
  obtain ⟨v, rfl, hsearch⟩ := SearchCoherent.replace (by exact hl.search) hf (by rfl) (by rfl) h₃
  simp only at h₄ hsearch
  obtain ⟨s', d', rfl, hsort'⟩ := SortCoherent.add (by exact hsort) hf' h₄
  simp only at h₅ hsort'
  obtain ⟨g', n', rfl, hgram'⟩ := GramCoherent.add (by exact hgram) hf' h₅
  simp only at h₆ hgram'
  obtain ⟨s₂, rfl, hsum'⟩ := SummaryCoherent.add (by exact hsum) h₆
  have hp : bs.values.Perm ({ old with category := category } :: (tx.books.delete old.id).values) :=
    Bucket.values_put_perm (store_eq_ok.mp hbs)
  have hkeyed : Keyed { tx with books := bs } :=
    hc.keyed.put (b := { old with category := category }) hw hbs
  have husers : Mirrors userBooksRows
      ({ old with category := category } :: (tx.books.delete old.id).values) tx.userBooksIndex :=
    Mirrors.congr_head hu rfl
  obtain ⟨c, hmc, hm⟩ := hl.missing
  have hmissing : Mirrors missingRows
      ({ old with category := category } :: (tx.books.delete old.id).values) c :=
    hm.congr_head rfl
  exact Coherent.of_perm hkeyed hp husers
    ⟨hsort', hsearch, hgram', ⟨c, hmc, hmissing⟩, hsum'⟩

theorem updateBooksCategoryInTx_coherent {tx tx' : Tx} {ids : List Bytes} {u : Bytes}
    {category : Option Bytes} {bs : List Book} (hc : Coherent tx)
    (h : updateBooksCategoryInTx tx ids u category = .ok (bs, tx')) : Coherent tx' := by
  refine foldlM_invariant (fun r : List Book × Tx => Coherent r.2) ?_ hc h
  intro id _ r r' hr hstep
  obtain ⟨⟨b, tx₁⟩, h₁, hstep⟩ := bind_eq_ok.mp hstep
  cases hstep
  exact updateBookCategory_ok hr h₁

theorem renameBookCategory_coherent {tx tx' : Tx} {u source : Bytes} {target : Option Bytes}
    {ids : List Bytes} (hc : Coherent tx) (h : renameBookCategory u source target tx = .ok (ids, tx')) :
    Coherent tx' := by
  simp only [renameBookCategory] at h
  split at h
  · cases h
    exact hc
  · split at h
    · cases h
    · obtain ⟨⟨bs, tx₁⟩, h₁, h⟩ := bind_eq_ok.mp h
      cases h
      exact updateBooksCategoryInTx_coherent hc h₁

/-! ## Records that differ in a field or two -/

/-- Books that differ at most in what no listing shows. -/
structure SameListing (b b' : Book) : Prop where
  sort : sortRows b' = sortRows b
  categorySort : categorySortRows b' = categorySortRows b
  search : searchRows b' = searchRows b
  gram : gramRows b' = gramRows b
  gramKeys : gramKeys b' = gramKeys b
  userID : b'.userID = b.userID
  category : categoryForBook b' = categoryForBook b

theorem SummaryOf.congr_head {b b' : Book} {l : List Book} {u : Bytes} {s : BookLibrarySummary}
    (h : SummaryOf (b :: l) u s) (hu : b'.userID = b.userID)
    (hc : categoryForBook b' = categoryForBook b) : SummaryOf (b' :: l) u s where
  total := by
    rw [h.total, List.countP_cons, List.countP_cons, hu]
  uncategorized := by
    rw [h.uncategorized, List.countP_cons, List.countP_cons, hu, hc]
  categories := by
    intro c
    rw [h.categories c, List.countP_cons, List.countP_cons, hu, hc]

theorem backfillBookContentHash_coherent {tx tx' : Tx} {snapshot : Book} (hc : Coherent tx)
    (h : backfillBookContentHash tx snapshot = .ok tx') : Coherent tx' := by
  rw [backfillBookContentHash] at h
  split at h
  · cases h
    exact hc
  · next hhash =>
    split at h
    · cases h
      exact hc
    · next old hget =>
      split at h
      · cases h
        exact hc
      · obtain ⟨bs, hbs, h⟩ := bind_eq_ok.mp h
        obtain ⟨hid, hf, hu, hl⟩ := hc.focus hget
        rw [← hid] at hf hu hl
        have hw : WellFormedID old.id := hf.1
        generalize hb : { old with contentHash := snapshot.contentHash } = b at hbs h
        have hbid : b.id = old.id := by rw [← hb]
        have hbuser : b.userID = old.userID := by rw [← hb]
        have hbhash : b.contentHash ≠ [] := by rw [← hb]; exact hhash
        have hrows : SameListing old b := by rw [← hb]; exact ⟨rfl, rfl, rfl, rfl, rfl, rfl, rfl⟩
        have husers : userBooksRows b = userBooksRows old := by rw [← hb]; rfl
        obtain ⟨c, m, rfl, hmiss⟩ :=
          MissingCoherent.hashed (by exact hl.missing) hf hbid hbuser hbhash h
        have hp := Bucket.values_put_perm (store_eq_ok.mp hbs)
        rw [hbid] at hp
        have hkeyed : Keyed { tx with books := bs } := hc.keyed.put (hbid ▸ hw) hbs
        obtain ⟨hs, d, hd, hcs⟩ := hl.sort
        obtain ⟨hg, n, hn, ht⟩ := hl.gram
        refine Coherent.of_perm hkeyed hp (Mirrors.congr_head hu husers) ?_
        refine ⟨⟨hs.congr_head hrows.sort, d, hd, hcs.congr_head hrows.categorySort⟩,
          Mirrors.congr_head hl.search hrows.search,
          ⟨hg.congr_head hrows.gram, n, hn, ht.congr_head hrows.gramKeys⟩, hmiss, ?_⟩
        intro u hu
        exact (hl.summary u hu).congr_head hrows.userID hrows.category

theorem backfillBookContentHashes_coherent {tx tx' : Tx} {hashes : List Book} (hc : Coherent tx)
    (h : backfillBookContentHashes hashes tx = .ok tx') : Coherent tx' :=
  foldlM_invariant Coherent (fun _ _ _ _ hb hstep => backfillBookContentHash_coherent hb hstep) hc h

end ZReader.Storage
