import ZReader.Storage.Acting
import ZReader.Storage.Pages
import ZReader.Storage.ProgressSince

namespace ZReader.Storage

open Lib.Utf8 Lib.Strings Lib.KeyValue Lib.DerivedIndex Lib.Fallible Lib.Isolation

/-! ## The other lookups -/

def getUser (tx : Tx) (id : Bytes) : Option User := tx.users.get id

def listBooks (tx : Tx) (userID : Bytes) : Option (List Book) := listBooksPaginated tx userID 0 0

/-- One page in the order of the user's rows; the cursor is the last identifier of the page. -/
def listBooksByCursor (tx : Tx) (userID cursor : Bytes) (limit : Int) : List Book × Bytes :=
  if userID = [] ∨ limit ≤ 0 then ([], [])
  else
    let pre := userID ++ [colon]
    let start := if cursor = [] then pre else userID ++ [colon] ++ cursor
    let rows := (tx.userBooksIndex.seek start pre).map fun row => (row.1, row.1.drop pre.length)
    bookCursorPage (collectBooks tx.books.get cursor limit [] rows) limit

def listBooksForIDs (tx : Tx) (userID : Bytes) (ids : List Bytes) : List Book :=
  (uniqueNonEmptyStrings ids).filterMap fun id =>
    match tx.userBooksIndex.get (userBooksKey userID id) with
    | none => none
    | some _ => (tx.books.get id).filter (·.userID = userID)

def getProgress (tx : Tx) (bookID userID : Bytes) : Option Progress :=
  tx.progress.get (progressKey userID bookID)

def listProgressForBooks (tx : Tx) (userID : Bytes) (bookIDs : List Bytes) : List Progress :=
  if userID = [] then []
  else
    (uniqueNonEmptyStrings bookIDs).filterMap fun bookID =>
      (tx.progress.get (progressKey userID bookID)).filter fun progress =>
        progress.userID = userID ∧ progress.bookID = bookID

/-- `sort.Slice` is a parameter: it need not be stable. -/
def listBookmarks (sortSlice : (Bookmark → Bookmark → Bool) → List Bookmark → List Bookmark) (tx : Tx)
    (bookID userID : Bytes) : Result (List Bookmark) := do
  let _ ← ownedBook tx bookID userID
  let pre := bookmarkBookPrefix userID bookID
  let items := ((tx.bookmarks.seek pre pre).map Prod.snd).filter fun bookmark =>
    bookmark.userID = userID ∧ bookmark.bookID = bookID
  .ok (sortSlice (fun a b => a.createdAt.before b.createdAt) items)

variable {u : UserID} {s t : Tx}

/-! ## What they read is the user's own -/

theorem Part.get_eq {X : Type} (p : Part X) (h : view u s = view u t) {k : Bytes}
    (hk : p.owns u k = true) : (p.get s).get k = (p.get t).get k :=
  within_eq_iff.mp (p.get_congr h) k hk

theorem Part.seek_eq {X : Type} (p : Part X) (h : view u s = view u t) {pre start : Bytes}
    (hs : pre <+: start) (hpre : ∀ k, pre <+: k → p.owns u k = true) :
    (p.get s).seek start pre = (p.get t).seek start pre :=
  seek_within hs hpre (p.get_congr h)

theorem ownBooks_eq_some {b : Bucket Book} {id : Bytes} {book : Book} :
    ownBooks u b id = some book ↔ b.get id = some book ∧ book.userID = u.1 := by
  simp [ownBooks, Option.filter_eq_some_iff]

/-- Every row of the user leads to a book of the user. -/
theorem Consistent.row_own (hI : Consistent s) {id v : Bytes}
    (h : s.userBooksIndex.get (userBooksKey u.1 id) = some v) :
    s.books.get id = ownBooks u s.books id := by
  have hmem : id ∈ getBookIDsForUser s u.1 := by
    rw [getBookIDsForUser, if_neg u.2.1, List.mem_map]
    refine ⟨(userBooksKey u.1 id, v), ?_, ?_⟩
    · exact Bucket.mem_seek_self.mpr ⟨h, id, rfl⟩
    · rw [userBooksKey_eq]
      exact afterColon_append (colon_notMem u.2)
  obtain ⟨b, hget, hu⟩ := ownerOf_eq_some.mp ((mem_getBookIDsForUser hI u.2 id).mp hmem)
  rw [hget, eq_comm]
  exact ownBooks_eq_some.mpr ⟨hget, hu⟩

theorem getBookForUser_own (hI : Consistent s) (id : Bytes) :
    getBookForUser s id u.1 = (s.userBooksIndex.get (userBooksKey u.1 id)).bind
      fun _ => ownBooks u s.books id := by
  rw [getBookForUser]
  cases hrow : s.userBooksIndex.get (userBooksKey u.1 id) with
  | none => rfl
  | some v => exact hI.row_own hrow

theorem getBookForUser_seen (id : Bytes) : Seen view Consistent u (getBookForUser · id u.1) := by
  intro s t hs ht h
  change getBookForUser s id u.1 = getBookForUser t id u.1
  rw [getBookForUser_own hs, getBookForUser_own ht, ownBooks_congr h]
  congr 1
  exact userBooksPart.get_eq h (colonKey_append u id)

theorem getBookIDsForUser_seen : Seen view Consistent u (getBookIDsForUser · u.1) := by
  intro s t _ _ h
  have hrows := userBooksPart.seek_eq h (List.prefix_refl (u.1 ++ [colon])) colonKey_user
  change s.userBooksIndex.seek _ _ = t.userBooksIndex.seek _ _ at hrows
  change getBookIDsForUser s u.1 = getBookIDsForUser t u.1
  rw [getBookIDsForUser, getBookIDsForUser]
  simp only [hrows]

theorem indexedBooks_own (hI : Consistent s) :
    indexedBooks s u.1 = (getBookIDsForUser s u.1).filterMap (ownBooks u s.books) := by
  rw [indexedBooks]
  apply List.filterMap_congr
  intro id hid
  obtain ⟨b, hget, hu⟩ := ownerOf_eq_some.mp ((mem_getBookIDsForUser hI u.2 id).mp hid)
  rw [hget, eq_comm]
  exact ownBooks_eq_some.mpr ⟨hget, hu⟩

theorem listBooksPaginated_seen (page pageSize : Int) :
    Seen view Consistent u (listBooksPaginated · u.1 page pageSize) := by
  intro s t hs ht h
  have hbooks : indexedBooks s u.1 = indexedBooks t u.1 := by
    rw [indexedBooks_own hs, indexedBooks_own ht, ownBooks_congr h]
    exact congrArg _ (getBookIDsForUser_seen s t hs ht h)
  change listBooksPaginated s u.1 page pageSize = listBooksPaginated t u.1 page pageSize
  rw [listBooksPaginated, listBooksPaginated, hbooks]

theorem collectBooks_congr {f g : Bytes → Option Book} {rows : List (Bytes × Bytes)}
    (h : ∀ r ∈ rows, f r.2 = g r.2) (cursor : Bytes) (limit : Int) (books : List Book) :
    collectBooks f cursor limit books rows = collectBooks g cursor limit books rows := by
  induction rows generalizing books with
  | nil => rfl
  | cons r rows ih =>
      have hrest : ∀ r ∈ rows, f r.2 = g r.2 := fun r hr => h r (by simp [hr])
      rw [collectBooks, collectBooks, h r (by simp)]
      split
      · exact ih hrest books
      · split
        · exact ih hrest books
        · simp only [ih hrest]

theorem listBooksByCursor_seen (cursor : Bytes) (limit : Int) :
    Seen view Consistent u (listBooksByCursor · u.1 cursor limit) := by
  intro s t hs ht h
  have hstart : u.1 ++ [colon] <+: if cursor = [] then u.1 ++ [colon] else u.1 ++ [colon] ++ cursor := by
    split
    · exact List.prefix_refl _
    · exact List.prefix_append _ _
  have hrows := userBooksPart.seek_eq h hstart colonKey_user
  change s.userBooksIndex.seek _ _ = t.userBooksIndex.seek _ _ at hrows
  change listBooksByCursor s u.1 cursor limit = listBooksByCursor t u.1 cursor limit
  rw [listBooksByCursor, listBooksByCursor]
  simp only [← hrows]
  congr 2
  refine collectBooks_congr ?_ cursor limit []
  intro r hr
  obtain ⟨row, hrow, rfl⟩ := List.mem_map.mp hr
  obtain ⟨hentry, -, x, hx⟩ := (Bucket.mem_seek hstart).mp hrow
  have hid : row.1.drop (u.1 ++ [colon]).length = x := by rw [← hx, List.drop_left]
  have hkey : row.1 = userBooksKey u.1 x := hx.symm
  have hgs : s.userBooksIndex.get (userBooksKey u.1 x) = some row.2 := by
    rw [← hkey]
    exact Bucket.mem_entries.mp hentry
  have hgt : t.userBooksIndex.get (userBooksKey u.1 x) = some row.2 := by
    rw [← hgs]
    exact (userBooksPart.get_eq h (colonKey_append u x)).symm
  change s.books.get (row.1.drop (u.1 ++ [colon]).length) = t.books.get (row.1.drop (u.1 ++ [colon]).length)
  rw [hid, hs.row_own hgs, ht.row_own hgt, ownBooks_congr h]

theorem listBooksForIDs_seen (ids : List Bytes) : Seen view Consistent u (listBooksForIDs · u.1 ids) := by
  intro s t _ _ h
  change listBooksForIDs s u.1 ids = listBooksForIDs t u.1 ids
  rw [listBooksForIDs, listBooksForIDs]
  apply List.filterMap_congr
  intro id _
  have hrow : s.userBooksIndex.get (userBooksKey u.1 id) = t.userBooksIndex.get (userBooksKey u.1 id) :=
    userBooksPart.get_eq h (colonKey_append u id)
  have hown := congrFun (ownBooks_congr h) id
  rw [ownBooks, ownBooks] at hown
  rw [hrow, hown]

/-! ## Listings and searches -/

theorem selected_own (tx : Tx) (category : Option Bytes) (id : Bytes) :
    (tx.books.get id).filter (selects u.1 category) =
      (ownBooks u tx.books id).filter (selects u.1 category) := by
  rw [ownBooks]
  cases tx.books.get id with
  | none => rfl
  | some b =>
      by_cases hu : b.userID = u.1
      · simp [Option.filter, hu]
      · simp [Option.filter, hu, selects]

theorem acceptedBook_eq (h : view u s = view u t) (query : Bytes) (category : Option Bytes) :
    acceptedBook s u.1 query category = acceptedBook t u.1 query category := by
  funext id
  have hrow : s.bookSearchIndex.get (bookSearchIndexKey u.1 id) =
      t.bookSearchIndex.get (bookSearchIndexKey u.1 id) := searchPart.get_eq h (nulKey_append u id)
  rw [acceptedBook, acceptedBook, hrow, selected_own, selected_own, ownBooks_congr h]

/-- The start of a scan is the prefix or the key of a book of the listing. -/
theorem bookQueryStart_own (tx : Tx) (cursor : Bytes) (sort : SortKey) (category : Option Bytes)
    (pre : Bytes) :
    bookQueryStart tx u.1 cursor sort category pre =
      if cursor = [] then pre
      else ((ownBooks u tx.books cursor).filter (selects u.1 category)).elim pre
        (bookQuerySortKey sort category) := by
  rw [bookQueryStart, ← selected_own]
  split
  · rfl
  · cases tx.books.get cursor with
    | none => rfl
    | some b =>
        by_cases hb : selects u.1 category b = true
        · simp [Option.filter, hb]
        · simp [Option.filter, hb]

theorem bookQueryStart_congr (h : view u s = view u t) (cursor : Bytes) (sort : SortKey)
    (category : Option Bytes) (pre : Bytes) :
    bookQueryStart s u.1 cursor sort category pre = bookQueryStart t u.1 cursor sort category pre := by
  rw [bookQueryStart_own, bookQueryStart_own, ownBooks_congr h]

theorem queryPrefix_start (tx : Tx) (cursor : Bytes) (sort : SortKey) (category : Option Bytes) :
    queryPrefix u.1 sort category <+:
      bookQueryStart tx u.1 cursor sort category (queryPrefix u.1 sort category) := by
  rw [bookQueryStart]
  split
  · exact List.prefix_refl _
  · split
    · exact List.prefix_refl _
    · split
      · next hb =>
        rw [bookQuerySortKey_tail sort hb]
        exact List.prefix_append _ _
      · exact List.prefix_refl _

theorem sortedKey_query (sort : SortKey) (category : Option Bytes) (k : Bytes)
    (h : queryPrefix u.1 sort category <+: k) : sortedKey u k = true := by
  cases category with
  | none =>
      obtain ⟨x, rfl⟩ := h
      exact sortedKey_append u sort x
  | some category => exact sortedKey_category u category sort k h

/-- The rows of a listing, and the prefix that they share. -/
theorem bookQueryIndex_own (u : UserID) (sort : SortKey) (category : Option Bytes) :
    ∃ p : IndexPart Bytes, p.owns = sortedKey ∧ ∀ tx, Consistent tx →
      bookQueryIndex tx u.1 sort category = .ok (p.get tx, queryPrefix u.1 sort category) := by
  cases category with
  | none => exact ⟨sortPart, rfl, fun tx _ => rfl⟩
  | some category =>
      refine ⟨categorySortPart, rfl, ?_⟩
      intro tx htx
      obtain ⟨c, hc⟩ := Option.isSome_iff_exists.mp (htx.ready (P := fun _ => True) trivial).categorySort
      simp only [bookQueryIndex, hc, categorySortPart, Option.getD_some, queryPrefix]

theorem scanSortedBooks_seen (query cursor : Bytes) (limit : Int) (sort : SortKey)
    (category : Option Bytes) :
    Seen view Consistent u (scanSortedBooks · u.1 query cursor limit sort category) := by
  intro s t hs ht h
  obtain ⟨p, hp, hindex⟩ := bookQueryIndex_own u sort category
  have hbelow : ∀ k, queryPrefix u.1 sort category <+: k → p.owns u k = true := by
    rw [hp]
    exact sortedKey_query sort category
  have hrows := p.seek_eq h (queryPrefix_start s cursor sort category) hbelow
  have haccept := acceptedBook_eq h query category
  have hstart := bookQueryStart_congr h cursor sort category (queryPrefix u.1 sort category)
  change scanSortedBooks s u.1 query cursor limit sort category =
    scanSortedBooks t u.1 query cursor limit sort category
  rw [scanSortedBooks, scanSortedBooks, hindex s hs, hindex t ht]
  simp only [ok_bind, ← hstart, hrows, haccept]

theorem listBooksBySortedCursor_seen (cursor : Bytes) (limit : Int) (sortKey : Bytes)
    (filters : List (Option Bytes)) :
    Seen view Consistent u (listBooksBySortedCursor · u.1 cursor limit sortKey filters) := by
  intro s t hs ht h
  have hscan := scanSortedBooks_seen [] cursor limit (normalizeBookSort sortKey)
    (selectedBookCategory filters) s t hs ht h
  change listBooksBySortedCursor s u.1 cursor limit sortKey filters =
    listBooksBySortedCursor t u.1 cursor limit sortKey filters
  rw [listBooksBySortedCursor, listBooksBySortedCursor]
  simp only at hscan
  rw [hscan]

theorem postingBooks_seen (query cursor : Bytes) (limit : Int) (sort : SortKey)
    (category : Option Bytes) (gram : Bytes) :
    Seen view Consistent u (postingBooks · u.1 query cursor limit sort category gram) := by
  intro s t hs ht h
  obtain ⟨p, -, hindex⟩ := bookQueryIndex_own u sort category
  have hbelow : ∀ k, bookSearchGramIndexPrefix u.1 gram <+: k → nulKey u k = true := by
    intro k hk
    refine decide_eq_true (List.IsPrefix.trans ?_ hk)
    exact ⟨gram ++ [nul], by simp [bookSearchGramIndexPrefix]⟩
  have hrows := gramPart.seek_eq h (List.prefix_refl (bookSearchGramIndexPrefix u.1 gram)) hbelow
  change s.bookSearchGramIndex.seek _ _ = t.bookSearchGramIndex.seek _ _ at hrows
  have haccept := acceptedBook_eq h query category
  have hstart := bookQueryStart_congr h cursor sort category (queryPrefix u.1 sort category)
  change postingBooks s u.1 query cursor limit sort category gram =
    postingBooks t u.1 query cursor limit sort category gram
  rw [postingBooks, postingBooks, hindex s hs, hindex t ht]
  simp only [ok_bind, ← hstart, hrows, haccept]

theorem loadLibrarySummary_seen : Seen view Consistent u (loadLibrarySummary · u.1) := by
  intro s t _ _ h
  have hrow : s.librarySummaryIndex.get u.1 = t.librarySummaryIndex.get u.1 :=
    summaryPart.get_eq h (decide_eq_true rfl)
  change loadLibrarySummary s u.1 = loadLibrarySummary t u.1
  rw [loadLibrarySummary, loadLibrarySummary, hrow]

theorem mostSelectiveFrom_congr {b c : Bucket Nat}
    (h : ∀ gram, bookSearchGramCount b u.1 gram = bookSearchGramCount c u.1 gram)
    (best : Bytes × Int) (grams : List Bytes) :
    mostSelectiveFrom b u.1 best grams = mostSelectiveFrom c u.1 best grams := by
  induction grams generalizing best with
  | nil => rfl
  | cons gram grams ih => simp only [mostSelectiveFrom, h gram, ih]

theorem plannedBooks_seen (query cursor : Bytes) (limit : Int) (sort : SortKey)
    (category : Option Bytes) :
    Seen view Consistent u (plannedBooks · u.1 query cursor limit sort category) := by
  intro s t hs ht h
  obtain ⟨b, hb⟩ := Option.isSome_iff_exists.mp (hs.ready (P := fun _ => True) trivial).gramCounts
  obtain ⟨c, hc⟩ := Option.isSome_iff_exists.mp (ht.ready (P := fun _ => True) trivial).gramCounts
  have hcount : ∀ gram, bookSearchGramCount b u.1 gram = bookSearchGramCount c u.1 gram := by
    intro gram
    have hk : nulKey u (bookSearchGramIndexPrefix u.1 gram) = true := by
      simpa [bookSearchGramIndexPrefix] using nulKey_append u (gram ++ [nul])
    have hrow := gramCountPart.get_eq h hk
    simp only [gramCountPart, hb, hc, Option.getD_some] at hrow
    rw [bookSearchGramCount, bookSearchGramCount, hrow]
  have hselect : mostSelectiveBookSearchGram b u.1 (bookSearchGrams query) =
      mostSelectiveBookSearchGram c u.1 (bookSearchGrams query) := mostSelectiveFrom_congr hcount _ _
  have hscan := scanSortedBooks_seen query cursor limit sort category s t hs ht h
  have hposting := fun gram => postingBooks_seen query cursor limit sort category gram s t hs ht h
  have hsummary := loadLibrarySummary_seen s t hs ht h
  simp only at hscan hposting hsummary
  change plannedBooks s u.1 query cursor limit sort category =
    plannedBooks t u.1 query cursor limit sort category
  rw [plannedBooks, plannedBooks, hb, hc]
  dsimp only
  rw [hselect, hsummary, hscan, hposting]

theorem searchBooks_seen (query cursor : Bytes) (limit : Int) (sortKey : Bytes)
    (filters : List (Option Bytes)) :
    Seen view Consistent u (searchBooks · u.1 query cursor limit sortKey filters) := by
  intro s t hs ht h
  have hplan := plannedBooks_seen (normalizeBookSearchText query) cursor limit
    (normalizeBookSort sortKey) (selectedBookCategory filters) s t hs ht h
  change searchBooks s u.1 query cursor limit sortKey filters =
    searchBooks t u.1 query cursor limit sortKey filters
  simp only at hplan
  rw [searchBooks, searchBooks, hplan]

theorem findBookByContentHash_seen (contentHash : Bytes) :
    Seen view Consistent u (findBookByContentHash · u.1 contentHash) := by
  intro s t _ _ h
  have hrow : s.bookContentIndex.get (bookContentIndexKey u.1 contentHash) =
      t.bookContentIndex.get (bookContentIndexKey u.1 contentHash) :=
    contentPart.get_eq h (nulKey_append u contentHash)
  have hown : ∀ (tx : Tx) (r : Option Bytes), (r.bind tx.books.get).filter
        (fun candidate => candidate.userID = u.1 ∧ candidate.contentHash = contentHash) =
      (r.bind (ownBooks u tx.books)).filter (fun candidate => candidate.contentHash = contentHash) := by
    intro tx r
    cases r with
    | none => rfl
    | some id =>
        rw [Option.bind_some, Option.bind_some, ownBooks, Option.filter_filter]
        congr 1
        funext b
        simp
  change findBookByContentHash s u.1 contentHash = findBookByContentHash t u.1 contentHash
  rw [findBookByContentHash, findBookByContentHash, hrow, hown, hown, ownBooks_congr h]

/-! ## Progress and bookmarks -/

theorem getProgress_seen (bookID : Bytes) : Seen view Consistent u (getProgress · bookID u.1) :=
  fun _ _ _ _ h => progressPart.get_eq h (colonKey_append u bookID)

theorem listProgress_seen : Seen view Consistent u (listProgress · u.1) := by
  intro s t _ _ h
  have hrows := progressPart.seek_eq h (List.prefix_refl (u.1 ++ [colon])) colonKey_user
  change s.progress.seek _ _ = t.progress.seek _ _ at hrows
  change listProgress s u.1 = listProgress t u.1
  rw [listProgress, listProgress, hrows]

theorem listProgressForBooks_seen (bookIDs : List Bytes) :
    Seen view Consistent u (listProgressForBooks · u.1 bookIDs) := by
  intro s t _ _ h
  have hrow : ∀ bookID, s.progress.get (progressKey u.1 bookID) = t.progress.get (progressKey u.1 bookID) :=
    fun bookID => progressPart.get_eq h (colonKey_append u bookID)
  change listProgressForBooks s u.1 bookIDs = listProgressForBooks t u.1 bookIDs
  simp only [listProgressForBooks, hrow]

theorem listProgressUpdatedSince_seen (since : Time) :
    Seen view Consistent u (listProgressUpdatedSince · u.1 since) := by
  intro s t hs ht h
  have hall := listProgress_seen s t hs ht h
  have hrow : ∀ bookID, s.progress.get (progressKey u.1 bookID) = t.progress.get (progressKey u.1 bookID) :=
    fun bookID => progressPart.get_eq h (colonKey_append u bookID)
  have hbelow : ∀ k, progressTimeIndexPrefix u.1 <+: k → nulKey u k = true := fun k hk => decide_eq_true hk
  have hrows := timePart.seek_eq h (isPrefix_probe u.1 since) hbelow
  change s.progressTimeIndex.seek _ _ = t.progressTimeIndex.seek _ _ at hrows
  change listProgressUpdatedSince s u.1 since = listProgressUpdatedSince t u.1 since
  simp only at hall
  simp only [listProgressUpdatedSince, hall, hrow, hrows]

theorem listBookmarks_seen (sortSlice : (Bookmark → Bookmark → Bool) → List Bookmark → List Bookmark)
    (bookID : Bytes) : Seen view Consistent u (listBookmarks sortSlice · bookID u.1) := by
  intro s t hs ht h
  have hbook := seen_ownedBook (P := fun _ => True) bookID s t (hs.ready trivial) (ht.ready trivial) h
  have hrows := bookmarkPart.seek_eq h (List.prefix_refl (bookmarkBookPrefix u.1 bookID))
    (bookmarkBookPrefix_owned bookID)
  change s.bookmarks.seek _ _ = t.bookmarks.seek _ _ at hrows
  change listBookmarks sortSlice s bookID u.1 = listBookmarks sortSlice t bookID u.1
  simp only at hbook
  rw [listBookmarks, listBookmarks, hbook]
  simp only [hrows]

theorem getUser_seen : Seen view Consistent u (getUser · u.1) :=
  fun _ _ _ _ h => userPart.get_eq h (decide_eq_true rfl)

end ZReader.Storage
