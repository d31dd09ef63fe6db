import ZReader.Storage.Operations
import ZReader.Storage.Postings
import ZReader.Storage.Summaries

namespace ZReader.Storage

open Lib.Utf8 Lib.Strings Lib.KeyValue Lib.DerivedIndex Lib.Fallible Std

/-- The records, the user index and the progress index agree in two states. -/
structure SameRecords (tx tx' : Tx) : Prop where
  books : tx'.books = tx.books
  progress : tx'.progress = tx.progress
  bookmarks : tx'.bookmarks = tx.bookmarks
  users : tx'.users = tx.users
  usernames : tx'.usernameIndex = tx.usernameIndex
  progressTimes : tx'.progressTimeIndex = tx.progressTimeIndex
  userBooks : tx'.userBooksIndex = tx.userBooksIndex

theorem SameRecords.refl (tx : Tx) : SameRecords tx tx := ⟨rfl, rfl, rfl, rfl, rfl, rfl, rfl⟩

theorem SameRecords.trans {tx tx' tx'' : Tx} (h : SameRecords tx tx') (h' : SameRecords tx' tx'') :
    SameRecords tx tx'' where
  books := h'.books.trans h.books
  progress := h'.progress.trans h.progress
  bookmarks := h'.bookmarks.trans h.bookmarks
  users := h'.users.trans h.users
  usernames := h'.usernames.trans h.usernames
  progressTimes := h'.progressTimes.trans h.progressTimes
  userBooks := h'.userBooks.trans h.userBooks

/-! ## What index maintenance leaves alone -/

theorem addBookToSortIndex_frame {tx tx' : Tx} {b : Book} (h : addBookToSortIndex tx b = .ok tx') :
    SameRecords tx tx' := by
  rw [addBookToSortIndex] at h
  split at h
  · cases h
    exact .refl tx
  · refine foldlM_invariant (SameRecords tx) ?_ (.refl tx) h
    intro k _ t t' ht hstep
    rw [addSortKey] at hstep
    obtain ⟨s, -, hstep⟩ := bind_eq_ok.mp hstep
    refine ht.trans ?_
    simp only at hstep
    split at hstep
    · cases hstep
      exact ⟨rfl, rfl, rfl, rfl, rfl, rfl, rfl⟩
    · obtain ⟨c, -, hstep⟩ := bind_eq_ok.mp hstep
      cases hstep
      exact ⟨rfl, rfl, rfl, rfl, rfl, rfl, rfl⟩

theorem removeBookFromSortIndex_frame (tx : Tx) (b : Book) :
    SameRecords tx (removeBookFromSortIndex tx b) := by
  rw [removeBookFromSortIndex_eq]
  exact ⟨rfl, rfl, rfl, rfl, rfl, rfl, rfl⟩

theorem addBookToSearchIndex_frame {tx tx' : Tx} {b : Book}
    (h : addBookToSearchIndex tx b = .ok tx') : SameRecords tx tx' := by
  rw [addBookToSearchIndex] at h
  split at h
  · cases h
    exact .refl tx
  · obtain ⟨s, -, h⟩ := bind_eq_ok.mp h
    cases h
    exact ⟨rfl, rfl, rfl, rfl, rfl, rfl, rfl⟩

theorem removeBookFromSearchIndex_frame (tx : Tx) (b : Book) :
    SameRecords tx (removeBookFromSearchIndex tx b) := by
  rw [removeBookFromSearchIndex]
  split
  · exact .refl tx
  · exact ⟨rfl, rfl, rfl, rfl, rfl, rfl, rfl⟩

theorem adjustBookSearchGramCount_frame {tx tx' : Tx} {u g : Bytes} {d : Int}
    (h : adjustBookSearchGramCount tx u g d = .ok tx') : SameRecords tx tx' := by
  rw [adjustBookSearchGramCount] at h
  split at h
  · cases h
    exact .refl tx
  · simp only at h
    split at h
    · cases h
      exact ⟨rfl, rfl, rfl, rfl, rfl, rfl, rfl⟩
    · obtain ⟨s, -, h⟩ := bind_eq_ok.mp h
      cases h
      exact ⟨rfl, rfl, rfl, rfl, rfl, rfl, rfl⟩

theorem addBookToSearchGramIndex_frame {tx tx' : Tx} {b : Book}
    (h : addBookToSearchGramIndex tx b = .ok tx') : SameRecords tx tx' := by
  rw [addBookToSearchGramIndex] at h
  split at h
  · cases h
    exact .refl tx
  · refine foldlM_invariant (SameRecords tx) ?_ (.refl tx) h
    intro g _ t t' ht hstep
    simp only [addSearchGram] at hstep
    refine ht.trans ?_
    split at hstep
    · cases hstep
      exact .refl t
    · obtain ⟨s, -, hstep⟩ := bind_eq_ok.mp hstep
      refine SameRecords.trans ?_ (adjustBookSearchGramCount_frame hstep)
      exact ⟨rfl, rfl, rfl, rfl, rfl, rfl, rfl⟩

theorem removeBookFromSearchGramIndex_frame {tx tx' : Tx} {b : Book}
    (h : removeBookFromSearchGramIndex tx b = .ok tx') : SameRecords tx tx' := by
  rw [removeBookFromSearchGramIndex] at h
  split at h
  · cases h
    exact .refl tx
  · refine foldlM_invariant (SameRecords tx) ?_ (.refl tx) h
    intro g _ t t' ht hstep
    simp only [removeSearchGram] at hstep
    refine ht.trans ?_
    split at hstep
    · cases hstep
      exact .refl t
    · refine SameRecords.trans ?_ (adjustBookSearchGramCount_frame hstep)
      exact ⟨rfl, rfl, rfl, rfl, rfl, rfl, rfl⟩

theorem trackMissingBookHash_frame {tx tx' : Tx} {b : Book}
    (h : trackMissingBookHash tx b = .ok tx') : SameRecords tx tx' := by
  rw [trackMissingBookHash] at h
  split at h
  · cases h
    exact .refl tx
  · split at h
    · cases h
      exact .refl tx
    · simp only at h
      split at h
      · cases h
        exact ⟨rfl, rfl, rfl, rfl, rfl, rfl, rfl⟩
      · obtain ⟨s, -, h⟩ := bind_eq_ok.mp h
        cases h
        exact ⟨rfl, rfl, rfl, rfl, rfl, rfl, rfl⟩

theorem addBookToContentIndex_frame {tx tx' : Tx} {b : Book}
    (h : addBookToContentIndex tx b = .ok tx') : SameRecords tx tx' := by
  obtain ⟨c, tx₁, ht, rfl⟩ := addBookToContentIndex_ok h
  exact (trackMissingBookHash_frame ht).trans ⟨rfl, rfl, rfl, rfl, rfl, rfl, rfl⟩

theorem removeBookFromContentIndex_frame {tx tx' : Tx} {b : Book}
    (h : removeBookFromContentIndex tx b = .ok tx') : SameRecords tx tx' := by
  obtain ⟨c, rfl⟩ := removeBookFromContentIndex_ok h
  exact ⟨rfl, rfl, rfl, rfl, rfl, rfl, rfl⟩

theorem adjustLibrarySummary_frame {tx tx' : Tx} {b : Book} {d : Int}
    (h : adjustLibrarySummary tx b d = .ok tx') : SameRecords tx tx' := by
  rw [adjustLibrarySummary, saveLibrarySummary] at h
  split at h
  · cases h
    exact .refl tx
  · split at h
    · cases h
      exact .refl tx
    · obtain ⟨s, -, h⟩ := bind_eq_ok.mp h
      cases h
      exact ⟨rfl, rfl, rfl, rfl, rfl, rfl, rfl⟩

/-! ## Listing a record and taking it off the lists -/

/-- The indexes that every listing, search and summary reads. -/
structure Listed (l : List Book) (tx : Tx) : Prop where
  sort : SortCoherent l tx
  search : SearchCoherent l tx
  gram : GramCoherent l tx
  missing : MissingCoherent l tx
  summary : SummaryCoherent l tx

theorem Listed.perm {l m : List Book} {tx : Tx} (h : Listed l tx) (hp : l.Perm m) :
    Listed m tx where
  sort := by
    obtain ⟨hs, c, hc, hd⟩ := h.sort
    exact ⟨hs.perm hp, c, hc, hd.perm hp⟩
  search := Mirrors.perm h.search hp
  gram := by
    obtain ⟨hg, c, hc, ht⟩ := h.gram
    exact ⟨hg.perm hp, c, hc, ht.perm hp⟩
  missing := by
    obtain ⟨c, hc, hm⟩ := h.missing
    exact ⟨c, hc, hm.perm hp⟩
  summary := fun u hu => (h.summary u hu).perm hp

/-- The removals `saveBook` makes for the record it replaces. -/
def unlistBook (tx : Tx) (book : Book) : Result Tx := do
  let tx ← adjustLibrarySummary tx book (-1)
  let tx ← removeBookFromContentIndex tx book
  let tx := removeBookFromSortIndex tx book
  let tx := removeBookFromSearchIndex tx book
  removeBookFromSearchGramIndex tx book

/-- The insertions `saveBook` and `createBook` make for the record they write. -/
def listBook (tx : Tx) (book : Book) : Result Tx := do
  let tx ← addBookToSortIndex tx book
  let tx ← addBookToSearchIndex tx book
  let tx ← addBookToSearchGramIndex tx book
  let tx ← addBookToContentIndex tx book
  adjustLibrarySummary tx book 1

theorem unlistBook_frame {tx tx' : Tx} {b : Book} (h : unlistBook tx b = .ok tx') :
    SameRecords tx tx' := by
  rw [unlistBook] at h
  obtain ⟨tx₁, h₁, h⟩ := bind_eq_ok.mp h
  obtain ⟨tx₂, h₂, h⟩ := bind_eq_ok.mp h
  refine (adjustLibrarySummary_frame h₁).trans ?_
  refine (removeBookFromContentIndex_frame h₂).trans ?_
  refine (removeBookFromSortIndex_frame tx₂ b).trans ?_
  exact (removeBookFromSearchIndex_frame _ b).trans (removeBookFromSearchGramIndex_frame h)

theorem listBook_frame {tx tx' : Tx} {b : Book} (h : listBook tx b = .ok tx') :
    SameRecords tx tx' := by
  rw [listBook] at h
  obtain ⟨tx₁, h₁, h⟩ := bind_eq_ok.mp h
  obtain ⟨tx₂, h₂, h⟩ := bind_eq_ok.mp h
  obtain ⟨tx₃, h₃, h⟩ := bind_eq_ok.mp h
  obtain ⟨tx₄, h₄, h⟩ := bind_eq_ok.mp h
  refine (addBookToSortIndex_frame h₁).trans ?_
  refine (addBookToSearchIndex_frame h₂).trans ?_
  refine (addBookToSearchGramIndex_frame h₃).trans ?_
  exact (addBookToContentIndex_frame h₄).trans (adjustLibrarySummary_frame h)

theorem Listed.unlist {tx tx' : Tx} {b : Book} {l : List Book} (hl : Listed (b :: l) tx)
    (hf : Fresh b l) (h : unlistBook tx b = .ok tx') : Listed l tx' := by
  rw [unlistBook] at h
  obtain ⟨tx₁, h₁, h⟩ := bind_eq_ok.mp h
  obtain ⟨tx₂, h₂, h⟩ := bind_eq_ok.mp h
  obtain ⟨s₁, rfl, hsum⟩ := hl.summary.remove h₁
  obtain ⟨c, m, rfl, hmiss⟩ := MissingCoherent.remove (by exact hl.missing) hf h₂
  have hsort₀ : SortCoherent (b :: l) { tx with
    librarySummaryIndex := s₁, bookContentIndex := c, bookMissingHashIndex := m } := hl.sort
  obtain ⟨s, d, he, hsort⟩ := hsort₀.remove hf
  simp only [he] at h hsort
  have hsearch₀ : SearchCoherent (b :: l) { tx with
    librarySummaryIndex := s₁, bookContentIndex := c, bookMissingHashIndex := m
    bookSortIndex := s, bookCategorySortIndex := d } := hl.search
  obtain ⟨v, he, hsearch⟩ := hsearch₀.remove hf
  simp only [he] at h hsearch
  obtain ⟨g, n, rfl, hgram⟩ := GramCoherent.remove (by exact hl.gram) hf h
  exact ⟨hsort, hsearch, hgram, hmiss, hsum⟩

theorem Listed.list {tx tx' : Tx} {b : Book} {l : List Book} (hl : Listed l tx)
    (hf : Fresh b l) (h : listBook tx b = .ok tx') : Listed (b :: l) tx' := by
  rw [listBook] at h
  obtain ⟨tx₁, h₁, h⟩ := bind_eq_ok.mp h
  obtain ⟨tx₂, h₂, h⟩ := bind_eq_ok.mp h
  obtain ⟨tx₃, h₃, h⟩ := bind_eq_ok.mp h
  obtain ⟨tx₄, h₄, h⟩ := bind_eq_ok.mp h
  obtain ⟨s, d, rfl, hsort⟩ := hl.sort.add hf h₁
  obtain ⟨v, rfl, hsearch⟩ := SearchCoherent.add (by exact hl.search) hf h₂
  obtain ⟨g, n, rfl, hgram⟩ := GramCoherent.add (by exact hl.gram) hf h₃
  obtain ⟨c, m, rfl, hmiss⟩ := MissingCoherent.add (by exact hl.missing) hf h₄
  obtain ⟨s₁, rfl, hsum⟩ := SummaryCoherent.add (by exact hl.summary) h
  exact ⟨hsort, hsearch, hgram, hmiss, hsum⟩

end ZReader.Storage
