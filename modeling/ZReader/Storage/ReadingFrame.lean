import ZReader.Storage.Runs

namespace ZReader.Storage

open Lib.Utf8 Lib.Strings Lib.KeyValue Lib.DerivedIndex Lib.Fallible Lib.Transition

/-- The progress records and their time index agree in two states. -/
structure SameReading (tx tx' : Tx) : Prop where
  progress : tx'.progress = tx.progress
  times : tx'.progressTimeIndex = tx.progressTimeIndex

theorem SameReading.refl (tx : Tx) : SameReading tx tx := ⟨rfl, rfl⟩

theorem SameReading.trans {tx tx' tx'' : Tx} (h : SameReading tx tx') (h' : SameReading tx' tx'') :
    SameReading tx tx'' :=
  ⟨h'.progress.trans h.progress, h'.times.trans h.times⟩

/-- At most books and their indexes differ in two states. -/
structure BooksOnly (tx tx' : Tx) : Prop extends SameReading tx tx' where
  bookmarks : tx'.bookmarks = tx.bookmarks
  users : tx'.users = tx.users
  usernames : tx'.usernameIndex = tx.usernameIndex

theorem BooksOnly.refl (tx : Tx) : BooksOnly tx tx := ⟨⟨rfl, rfl⟩, rfl, rfl, rfl⟩

theorem BooksOnly.trans {tx tx' tx'' : Tx} (h : BooksOnly tx tx') (h' : BooksOnly tx' tx'') :
    BooksOnly tx tx'' :=
  ⟨h.toSameReading.trans h'.toSameReading, h'.bookmarks.trans h.bookmarks,
    h'.users.trans h.users, h'.usernames.trans h.usernames⟩

theorem SameRecords.reading {tx tx' : Tx} (h : SameRecords tx tx') : BooksOnly tx tx' :=
  ⟨⟨h.progress, h.progressTimes⟩, h.bookmarks, h.users, h.usernames⟩

/-- Books may have been written before a step that leaves the records alone. -/
theorem BooksOnly.books {tx tx' : Tx} (bs : Bucket Book) (h : BooksOnly { tx with books := bs } tx') :
    BooksOnly tx tx' :=
  ⟨⟨h.progress, h.times⟩, h.bookmarks, h.users, h.usernames⟩

theorem addBookToUserIndex_reading {tx tx' : Tx} {id u : Bytes}
    (h : addBookToUserIndex tx id u = .ok tx') : BooksOnly tx tx' := by
  rw [addBookToUserIndex] at h
  split at h
  · cases h
    exact .refl tx
  · obtain ⟨i, -, h⟩ := bind_eq_ok.mp h
    cases h
    exact ⟨⟨rfl, rfl⟩, rfl, rfl, rfl⟩

theorem removeBookFromUserIndex_reading (tx : Tx) (id u : Bytes) :
    BooksOnly tx (removeBookFromUserIndex tx id u) := by
  rw [removeBookFromUserIndex]
  split
  · exact .refl tx
  · exact ⟨⟨rfl, rfl⟩, rfl, rfl, rfl⟩

theorem reassignBook_reading {tx tx' : Tx} {id old u : Bytes}
    (h : reassignBook tx id old u = .ok tx') : BooksOnly tx tx' := by
  rw [reassignBook] at h
  split at h
  · refine BooksOnly.trans ?_ (addBookToUserIndex_reading h)
    split
    · exact removeBookFromUserIndex_reading tx id old
    · exact .refl tx
  · cases h
    exact .refl tx

theorem unlistOldBook_reading {tx tx' : Tx} {old : Option Book}
    (h : unlistOldBook tx old = .ok tx') : BooksOnly tx tx' := by
  cases old with
  | none =>
      cases h
      exact .refl tx
  | some old => exact (unlistBook_frame h).reading

theorem saveBook_reading {tx tx' : Tx} {book : Book} (h : saveBook book tx = .ok tx') :
    BooksOnly tx tx' := by
  rw [saveBook_eq] at h
  obtain ⟨bs, -, h⟩ := bind_eq_ok.mp h
  obtain ⟨tx₁, h₁, h⟩ := bind_eq_ok.mp h
  obtain ⟨tx₂, h₂, h⟩ := bind_eq_ok.mp h
  have hr₁ := (reassignBook_reading h₁).books bs
  exact (hr₁.trans (unlistOldBook_reading h₂)).trans (listBook_frame h).reading

theorem createBook_reading {tx tx' : Tx} {book : Book} (h : createBook book tx = .ok tx') :
    BooksOnly tx tx' := by
  simp only [createBook] at h
  split at h
  · cases h
  · obtain ⟨bs, -, h⟩ := bind_eq_ok.mp h
    obtain ⟨tx₁, h₁, h⟩ := bind_eq_ok.mp h
    have hr₁ := (addBookToUserIndex_reading h₁).books bs
    exact hr₁.trans (listBook_frame h).reading

theorem updateBookCategory_reading {tx tx' : Tx} {id u : Bytes} {category : Option Bytes} {b : Book}
    (h : updateBookCategory u category tx id = .ok (b, tx')) : BooksOnly tx tx' := by
  simp only [updateBookCategory] at h
  obtain ⟨old, -, h⟩ := bind_eq_ok.mp h
  obtain ⟨tx₁, h₁, h⟩ := bind_eq_ok.mp h
  obtain ⟨tx₂, h₂, h⟩ := bind_eq_ok.mp h
  obtain ⟨bs, -, h⟩ := bind_eq_ok.mp h
  obtain ⟨tx₃, h₃, h⟩ := bind_eq_ok.mp h
  obtain ⟨tx₄, h₄, h⟩ := bind_eq_ok.mp h
  obtain ⟨tx₅, h₅, h⟩ := bind_eq_ok.mp h
  obtain ⟨tx₆, h₆, h⟩ := bind_eq_ok.mp h
  cases h
  have hr₁ := (adjustLibrarySummary_frame h₁).trans (removeBookFromSortIndex_frame tx₁ old)
  have hr₂ := (hr₁.trans (removeBookFromSearchGramIndex_frame h₂)).reading
  have hr₃ := (addBookToSearchIndex_frame h₃).reading.books bs
  have hr₅ := (addBookToSortIndex_frame h₄).trans (addBookToSearchGramIndex_frame h₅)
  exact (hr₂.trans hr₃).trans (hr₅.trans (adjustLibrarySummary_frame h₆)).reading

theorem updateBooksCategoryInTx_reading {tx tx' : Tx} {ids : List Bytes} {u : Bytes}
    {category : Option Bytes} {bs : List Book}
    (h : updateBooksCategoryInTx tx ids u category = .ok (bs, tx')) : BooksOnly tx tx' := by
  refine foldlM_invariant (fun r : List Book × Tx => BooksOnly tx r.2) ?_ (.refl tx) h
  intro id _ r r' hr hstep
  obtain ⟨⟨b, tx₁⟩, h₁, hstep⟩ := bind_eq_ok.mp hstep
  cases hstep
  exact hr.trans (updateBookCategory_reading h₁)

theorem renameBookCategory_reading {tx tx' : Tx} {u source : Bytes} {target : Option Bytes}
    {ids : List Bytes} (h : renameBookCategory u source target tx = .ok (ids, tx')) :
    BooksOnly tx tx' := by
  simp only [renameBookCategory] at h
  split at h
  · cases h
    exact .refl tx
  · split at h
    · cases h
    · obtain ⟨⟨bs, tx₁⟩, h₁, h⟩ := bind_eq_ok.mp h
      cases h
      exact updateBooksCategoryInTx_reading h₁

/-- A rebuild resets listing indexes and adds the books again. -/
theorem foldlM_frame {add : Tx → Book → Result Tx} {tx tx₀ tx' : Tx} {l : List Book}
    (hadd : ∀ t t' b, add t b = .ok t' → SameRecords t t') (h₀ : SameRecords tx tx₀)
    (h : l.foldlM add tx₀ = .ok tx') : SameRecords tx tx' :=
  foldlM_invariant (SameRecords tx) (fun b _ t t' hI hstep => hI.trans (hadd t t' b hstep)) h₀ h

theorem rebuildBookSortIndex_frame {tx tx' : Tx} (h : rebuildBookSortIndex tx = .ok tx') :
    SameRecords tx tx' := by
  refine foldlM_frame ?_ (by exact ⟨rfl, rfl, rfl, rfl, rfl, rfl, rfl⟩) h
  intro t t' b hstep
  exact addBookToSortIndex_frame hstep

theorem rebuildBookSearchIndex_frame {tx tx' : Tx} (h : rebuildBookSearchIndex tx = .ok tx') :
    SameRecords tx tx' := by
  refine foldlM_frame ?_ (by exact ⟨rfl, rfl, rfl, rfl, rfl, rfl, rfl⟩) h
  intro t t' b hstep
  exact addBookToSearchIndex_frame hstep

theorem rebuildBookSearchGramIndex_frame {tx tx' : Tx}
    (h : rebuildBookSearchGramIndex tx = .ok tx') : SameRecords tx tx' := by
  refine foldlM_frame ?_ (by exact ⟨rfl, rfl, rfl, rfl, rfl, rfl, rfl⟩) h
  intro t t' b hstep
  exact addBookToSearchGramIndex_frame hstep

theorem rebuildLibrarySummaryIndex_frame {tx tx' : Tx}
    (h : rebuildLibrarySummaryIndex tx = .ok tx') : SameRecords tx tx' := by
  refine foldlM_frame ?_ (by exact ⟨rfl, rfl, rfl, rfl, rfl, rfl, rfl⟩) h
  intro t t' b hstep
  exact adjustLibrarySummary_frame hstep

theorem rebuildMissingBookHashIndex_frame {tx tx' : Tx}
    (h : rebuildMissingBookHashIndex tx = .ok tx') : SameRecords tx tx' := by
  refine foldlM_frame ?_ (by exact ⟨rfl, rfl, rfl, rfl, rfl, rfl, rfl⟩) h
  intro t t' b hstep
  exact trackMissingBookHash_frame hstep

theorem normalizeBookCategories_reading {tx tx' : Tx}
    (h : normalizeBookCategories tx = .ok tx') : BooksOnly tx tx' := by
  rw [normalizeBookCategories] at h
  obtain ⟨tx₁, h₁, h⟩ := bind_eq_ok.mp h
  obtain ⟨tx₂, h₂, h⟩ := bind_eq_ok.mp h
  obtain ⟨tx₃, h₃, h⟩ := bind_eq_ok.mp h
  obtain ⟨tx₄, h₄, h₅⟩ := bind_eq_ok.mp h
  obtain ⟨bs, he, -⟩ := migrateBookCategories_ok h₁
  have hr₁ : BooksOnly tx tx₁ := by
    rw [he]
    exact ⟨⟨rfl, rfl⟩, rfl, rfl, rfl⟩
  have hr₃ := (rebuildBookSortIndex_frame h₂).trans (rebuildBookSearchIndex_frame h₃)
  have hr₅ := (rebuildBookSearchGramIndex_frame h₄).trans (rebuildLibrarySummaryIndex_frame h₅)
  exact hr₁.trans (hr₃.trans hr₅).reading

theorem backfillBookContentHash_reading {tx tx' : Tx} {snapshot : Book}
    (h : backfillBookContentHash tx snapshot = .ok tx') : BooksOnly tx tx' := by
  rw [backfillBookContentHash] at h
  split at h
  · cases h
    exact .refl tx
  · split at h
    · cases h
      exact .refl tx
    · split at h
      · cases h
        exact .refl tx
      · obtain ⟨bs, -, h⟩ := bind_eq_ok.mp h
        exact (addBookToContentIndex_frame h).reading.books bs

theorem backfillBookContentHashes_reading {tx tx' : Tx} {hashes : List Book}
    (h : backfillBookContentHashes hashes tx = .ok tx') : BooksOnly tx tx' := by
  refine foldlM_invariant (BooksOnly tx) ?_ (.refl tx) h
  intro b _ t t' ht hstep
  exact ht.trans (backfillBookContentHash_reading hstep)

/-! ## What a deletion takes along -/

theorem dropReadingData_bookmarks (passed : Bytes → Bool) (tx : Tx) (id u : Bytes) :
    (dropReadingData passed tx id u).bookmarks =
      (deleteBookmarksWithPrefix passed tx (bookmarkBookPrefix u id)).bookmarks := by
  rw [dropReadingData]
  split
  · next p _ =>
    obtain ⟨t, ht⟩ := removeProgressFromTimeIndex_eq tx p
    simp only [ht]
    rfl
  · rfl

theorem dropReadingData_users (passed : Bytes → Bool) (tx : Tx) (id u : Bytes) :
    (dropReadingData passed tx id u).users = tx.users ∧
      (dropReadingData passed tx id u).usernameIndex = tx.usernameIndex := by
  obtain ⟨p, t, m, he⟩ := dropReadingData_eq passed tx id u
  rw [he]
  exact ⟨rfl, rfl⟩

theorem BooksOnly.dropReadingData {tx tx' : Tx} (h : BooksOnly tx tx') (passed : Bytes → Bool)
    (id u : Bytes) : BooksOnly (dropReadingData passed tx id u) (dropReadingData passed tx' id u) := by
  obtain ⟨hu, hn⟩ := dropReadingData_users passed tx id u
  obtain ⟨hu', hn'⟩ := dropReadingData_users passed tx' id u
  have htimes : ∀ p, (removeProgressFromTimeIndex tx' p).progressTimeIndex =
      (removeProgressFromTimeIndex tx p).progressTimeIndex := by
    intro p
    rw [removeProgressFromTimeIndex, removeProgressFromTimeIndex]
    split
    · exact h.times
    · rw [h.times]
  refine ⟨⟨?_, ?_⟩, ?_, ?_, ?_⟩
  · rw [Storage.dropReadingData, Storage.dropReadingData, h.progress]
    cases tx.progress.get (progressKey u id) with
    | none =>
        change tx'.progress.delete _ = tx.progress.delete _
        rw [h.progress]
    | some p =>
        obtain ⟨t, ht⟩ := removeProgressFromTimeIndex_eq tx p
        obtain ⟨t', ht'⟩ := removeProgressFromTimeIndex_eq tx' p
        simp only [ht, ht', deleteBookmarksWithPrefix, h.progress]
  · rw [Storage.dropReadingData, Storage.dropReadingData, h.progress]
    cases tx.progress.get (progressKey u id) with
    | none => exact h.times
    | some p => exact htimes p
  · rw [dropReadingData_bookmarks, dropReadingData_bookmarks, deleteBookmarksWithPrefix,
      deleteBookmarksWithPrefix, h.bookmarks]
  · rw [hu, hu', h.users]
  · rw [hn, hn', h.usernames]

/-- A deletion before it comes to the reading data. -/
def withdrawBook (tx : Tx) (id userID : Bytes) : Result (Book × Tx) := do
  let book ← ownedBook tx id userID
  let tx ← adjustLibrarySummary tx book (-1)
  let tx ← removeBookFromContentIndex tx book
  let tx := removeBookFromSortIndex tx book
  .ok (book, removeBookFromUserIndex { tx with books := tx.books.delete id } id userID)

theorem deleteBookDataInTx_withdraws (passed : Bytes → Bool) (tx : Tx) (id u : Bytes) :
    deleteBookDataInTx passed tx id u = withdrawBook tx id u >>= fun (book, tx) =>
      removeBookFromSearchGramIndex
          (removeBookFromSearchIndex (dropReadingData passed tx id u) book) book >>= fun tx =>
        .ok (book, tx) := by
  rw [deleteBookDataInTx_eq, withdrawBook]
  simp only [bind_assoc]
  rfl

theorem withdrawBook_reading {tx tx' : Tx} {id u : Bytes} {b : Book}
    (h : withdrawBook tx id u = .ok (b, tx')) : BooksOnly tx tx' := by
  obtain ⟨b', -, h⟩ := bind_eq_ok.mp h
  obtain ⟨tx₁, h₁, h⟩ := bind_eq_ok.mp h
  obtain ⟨tx₂, h₂, h⟩ := bind_eq_ok.mp h
  cases h
  have hs := ((adjustLibrarySummary_frame h₁).trans (removeBookFromContentIndex_frame h₂)).trans
    (removeBookFromSortIndex_frame tx₂ b)
  have hu := (removeBookFromUserIndex_reading { removeBookFromSortIndex tx₂ b with
    books := (removeBookFromSortIndex tx₂ b).books.delete id } id u).books _
  exact hs.reading.trans hu

/-- Up to the books and their indexes a deletion drops the reading data of the book. -/
theorem deleteBookDataInTx_drops {passed : Bytes → Bool} {tx tx' : Tx} {id u : Bytes} {b : Book}
    (h : deleteBookDataInTx passed tx id u = .ok (b, tx')) :
    BooksOnly (dropReadingData passed tx id u) tx' := by
  rw [deleteBookDataInTx_withdraws] at h
  obtain ⟨⟨b', tx₁⟩, h₁, h⟩ := bind_eq_ok.mp h
  obtain ⟨tx₂, h₂, h⟩ := bind_eq_ok.mp h
  cases h
  have hr := (removeBookFromSearchIndex_frame _ b).trans (removeBookFromSearchGramIndex_frame h₂)
  exact ((withdrawBook_reading h₁).dropReadingData passed id u).trans hr.reading

end ZReader.Storage
