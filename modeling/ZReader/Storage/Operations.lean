import ZReader.Storage.Indexes

namespace ZReader.Storage

open Lib.Utf8 Lib.Strings Lib.KeyValue

def saveBook (book : Book) (tx : Tx) : Result Tx := do
  let oldBook := tx.books.get book.id
  let oldUserID := (oldBook.map (·.userID)).getD []
  let book := { book with category := normalizeCategoryName book.category }
  let b ← store tx.books book.id book
  let tx := { tx with books := b }
  let tx ←
    if oldUserID ≠ book.userID then
      let tx := if oldUserID ≠ [] then removeBookFromUserIndex tx book.id oldUserID else tx
      addBookToUserIndex tx book.id book.userID
    else .ok tx
  let tx ← match oldBook with
    | none => .ok tx
    | some oldBook => do
        let tx ← adjustLibrarySummary tx oldBook (-1)
        let tx ← removeBookFromContentIndex tx oldBook
        let tx := removeBookFromSortIndex tx oldBook
        let tx := removeBookFromSearchIndex tx oldBook
        removeBookFromSearchGramIndex tx oldBook
  let tx ← addBookToSortIndex tx book
  let tx ← addBookToSearchIndex tx book
  let tx ← addBookToSearchGramIndex tx book
  let tx ← addBookToContentIndex tx book
  adjustLibrarySummary tx book 1

def createBook (book : Book) (tx : Tx) : Result Tx := do
  let book := { book with category := normalizeCategoryName book.category }
  if book.contentHash ≠ [] ∧
      (tx.bookContentIndex.get (bookContentIndexKey book.userID book.contentHash)).any
        (· ≠ book.id) then
    .error .duplicateBookContent
  else
    let b ← store tx.books book.id book
    let tx := { tx with books := b }
    let tx ← addBookToUserIndex tx book.id book.userID
    let tx ← addBookToSortIndex tx book
    let tx ← addBookToSearchIndex tx book
    let tx ← addBookToSearchGramIndex tx book
    let tx ← addBookToContentIndex tx book
    adjustLibrarySummary tx book 1

/-- The record with the given ID, when it is the caller's. -/
def ownedBook (tx : Tx) (id userID : Bytes) : Result Book :=
  match tx.books.get id with
  | none => .error .notFound
  | some book => if book.userID ≠ userID then .error .notFound else .ok book

def getBookForUser (tx : Tx) (id userID : Bytes) : Option Book :=
  match tx.userBooksIndex.get (userBooksKey userID id) with
  | none => none
  | some _ => tx.books.get id

/-- The cursor deletes where it stands and goes on to the next row. It passes over the rows
whose keys are `passed`. -/
def deleteBookmarksWithPrefix (passed : Bytes → Bool) (tx : Tx) (pre : Bytes) : Tx :=
  { tx with
    bookmarks := ((tx.bookmarks.seek pre pre).filter fun row => !passed row.1).foldl
      (fun b row => b.delete row.1) tx.bookmarks }

/-- What a cursor passes over in a transaction that found the bookmarks as in `before`. A page
that is as it was read stays so under the cursor, and no row is missed. On a page that the
transaction has changed, a deletion moves the next row to the place of the cursor, which then
steps over it; which rows these are depends on how the rows lie on pages. -/
def passedOver (passed : Bytes → Bool) (before bookmarks : Bucket Bookmark) : Bytes → Bool :=
  if bookmarks.entries = before.entries then fun _ => false else passed

def deleteBookDataInTx (passed : Bytes → Bool) (tx : Tx) (id userID : Bytes) :
    Result (Book × Tx) := do
  let book ← ownedBook tx id userID
  let tx ← adjustLibrarySummary tx book (-1)
  let tx ← removeBookFromContentIndex tx book
  let tx := removeBookFromSortIndex tx book
  let tx := { tx with books := tx.books.delete id }
  let tx := removeBookFromUserIndex tx id userID
  let tx := match tx.progress.get (progressKey userID id) with
    | some progress => removeProgressFromTimeIndex tx progress
    | none => tx
  let tx := { tx with progress := tx.progress.delete (progressKey userID id) }
  let tx := deleteBookmarksWithPrefix passed tx (bookmarkBookPrefix userID id)
  let tx := removeBookFromSearchIndex tx book
  let tx ← removeBookFromSearchGramIndex tx book
  .ok (book, tx)

def deleteBookData (id userID : Bytes) (tx : Tx) : Result Tx := do
  let (_, tx) ← deleteBookDataInTx (fun _ => false) tx id userID
  .ok tx

/-- All books go in one transaction, so that a cursor may pass over bookmarks of the later
ones. -/
def deleteBooksData (ids : List Bytes) (userID : Bytes) (passed : Bytes → Bool) (before : Tx) :
    Result (List Book × Tx) :=
  (uniqueNonEmptyStrings ids).foldlM (fun (deletedBooks, tx) id => do
    let (book, tx) ←
      deleteBookDataInTx (passedOver passed before.bookmarks tx.bookmarks) tx id userID
    .ok (deletedBooks ++ [book], tx)) ([], before)

def updateBookCategory (userID : Bytes) (category : Option Bytes) (tx : Tx) (id : Bytes) :
    Result (Book × Tx) := do
  let book ← ownedBook tx id userID
  let tx ← adjustLibrarySummary tx book (-1)
  let tx := removeBookFromSortIndex tx book
  let tx ← removeBookFromSearchGramIndex tx book
  let book := { book with category := category }
  let booksBucket ← store tx.books book.id book
  let tx := { tx with books := booksBucket }
  let tx ← addBookToSearchIndex tx book
  let tx ← addBookToSortIndex tx book
  let tx ← addBookToSearchGramIndex tx book
  let tx ← adjustLibrarySummary tx book 1
  .ok (book, tx)

def updateBooksCategoryInTx (tx : Tx) (ids : List Bytes) (userID : Bytes)
    (category : Option Bytes) : Result (List Book × Tx) :=
  let normalizedCategory := normalizeCategoryName category
  (uniqueNonEmptyStrings ids).foldlM (fun (updatedBooks, tx) id => do
    let (book, tx) ← updateBookCategory userID normalizedCategory tx id
    .ok (updatedBooks ++ [book], tx)) ([], tx)

def updateBooksCategory (ids : List Bytes) (userID : Bytes) (category : Option Bytes) (tx : Tx) :
    Result (List Book × Tx) :=
  updateBooksCategoryInTx tx ids userID category

def renameBookCategory (userID source : Bytes) (target : Option Bytes) (tx : Tx) :
    Result (List Bytes × Tx) :=
  let source := trimSpace source
  if userID = [] ∨ source = [] then .ok ([], tx)
  else
    match tx.bookCategorySortIndex with
    | none => .error .missingBucket
    | some index => do
        let pre := bookCategorySortPrefix userID source .title
        let ids := (index.seek pre pre).map Prod.snd
        let (_, tx) ← updateBooksCategoryInTx tx ids userID target
        .ok (ids, tx)

def normalizeBookCategories (tx : Tx) : Result Tx := do
  let tx ← migrateBookCategories tx
  let tx ← rebuildBookSortIndex tx
  let tx ← rebuildBookSearchIndex tx
  let tx ← rebuildBookSearchGramIndex tx
  rebuildLibrarySummaryIndex tx

def backfillBookContentHash (tx : Tx) (snapshot : Book) : Result Tx :=
  if snapshot.contentHash = [] then .ok tx
  else
    match tx.books.get snapshot.id with
    | none => .ok tx
    | some book =>
        if book.userID ≠ snapshot.userID ∨ book.filename ≠ snapshot.filename ∨
            book.contentHash ≠ [] then .ok tx
        else do
          let book := { book with contentHash := snapshot.contentHash }
          let books ← store tx.books book.id book
          addBookToContentIndex { tx with books := books } book

def backfillBookContentHashes (hashes : List Book) (tx : Tx) : Result Tx :=
  hashes.foldlM backfillBookContentHash tx

def updateBookSortKey (tx : Tx) (oldBook book : Book) (sortKey : SortKey) : Result Tx := do
  let oldKey := bookSortIndexKey oldBook sortKey
  let newKey := bookSortIndexKey book sortKey
  let tx ←
    if oldKey = newKey then .ok tx
    else do
      let bucket ← store (tx.bookSortIndex.delete oldKey) newKey book.id
      .ok { tx with bookSortIndex := bucket }
  let oldKey := bookCategorySortIndexKey oldBook sortKey
  let newKey := bookCategorySortIndexKey book sortKey
  if oldKey = newKey then .ok tx
  else
    match tx.bookCategorySortIndex with
    | none => .error .missingBucket
    | some bucket => do
        let bucket ← store (bucket.delete oldKey) newKey book.id
        .ok { tx with bookCategorySortIndex := some bucket }

/-- Ownership, optimistic concurrency, the book's time stamp and the progress
indexes are checked and written in one transaction. -/
def saveProgressIfCurrent (progress : Progress) (userID : Bytes)
    (expectedUpdatedAt : Option Time) (tx : Tx) : Result Tx := do
  let progress := { progress with userID := userID }
  let key := progressKey userID progress.bookID
  let book ← ownedBook tx progress.bookID userID
  let previous := tx.progress.get key
  if expectedUpdatedAt.any (fun expected => previous.all (·.updatedAt ≠ expected)) then
    .error .progressConflict
  else
    let tx ←
      if book.lastReadAt = some progress.updatedAt then .ok tx
      else do
        let newBook := { book with lastReadAt := some progress.updatedAt }
        let booksBucket ← store tx.books newBook.id newBook
        updateBookSortKey { tx with books := booksBucket } book newBook .recentRead
    let tx := match previous with
      | none => tx
      | some previous =>
          if previous.updatedAt = progress.updatedAt then tx
          else removeProgressFromTimeIndex tx previous
    let progressBucket ← store tx.progress key progress
    addProgressToTimeIndex { tx with progress := progressBucket } progress

def deleteProgress (bookID userID : Bytes) (tx : Tx) : Result Tx :=
  let tx := match tx.progress.get (progressKey userID bookID) with
    | some progress => removeProgressFromTimeIndex tx progress
    | none => tx
  .ok { tx with progress := tx.progress.delete (progressKey userID bookID) }

def assignUnownedBooks (userID : Bytes) (tx : Tx) : Result Tx :=
  tx.books.entries.foldlM (fun tx row =>
    if row.2.userID ≠ [] then .ok tx
    else do
      let book := { row.2 with userID := userID }
      let b ← store tx.books row.1 book
      let tx ← addBookToUserIndex { tx with books := b } book.id userID
      addBookToSortIndex tx book) tx

def assignUnownedProgress (userID : Bytes) (tx : Tx) : Result Tx :=
  (tx.progress.entries.filter (fun row => row.2.userID = [])).foldlM (fun tx row => do
    let progress := { row.2 with userID := userID }
    let b ← store (tx.progress.delete row.1) (progressKey userID progress.bookID) progress
    .ok { tx with progress := b }) tx

def assignUnownedDataToUser (userID : Bytes) (tx : Tx) : Result Tx :=
  let userID := trimSpace userID
  if userID = [] then .ok tx
  else do
    let tx ← assignUnownedBooks userID tx
    let tx ← assignUnownedProgress userID tx
    let tx ← migrateBookCategories tx
    let tx ← rebuildBookSortIndex tx
    let tx ← rebuildBookSearchIndex tx
    let tx ← rebuildBookSearchGramIndex tx
    let tx ← rebuildBookContentIndex tx
    let tx ← rebuildLibrarySummaryIndex tx
    let tx ← rebuildProgressTimeIndex tx
    rebuildMissingBookHashIndex tx

/-- The part of a key after its first separator. -/
def afterColon (key : Bytes) : Bytes := (key.dropWhile (· ≠ colon)).drop 1

def getBookIDsForUser (tx : Tx) (userID : Bytes) : List Bytes :=
  if userID = [] then []
  else
    let pre := userID ++ [colon]
    (tx.userBooksIndex.seek pre pre).map (fun row => afterColon row.1)

/-- The bookmarks that a cursor may pass over here are left to `deleteBookmarksByUser`. -/
def deleteBooksByUser (userID : Bytes) (tx : Tx) : Result Tx :=
  (getBookIDsForUser tx userID).foldlM (fun tx id => deleteBookData id userID tx) tx

/-- Only the records are deleted here, not their rows in the time index. -/
def deleteProgressByUser (userID : Bytes) (tx : Tx) : Tx :=
  let pre := userID ++ [colon]
  { tx with
    progress := (tx.progress.entries.filter (fun row => pre <+: row.1)).foldl
      (fun b row => b.delete row.1) tx.progress }

def deleteBookmarksByUser (userID : Bytes) (tx : Tx) : Tx :=
  let pre := userID ++ [colon]
  { tx with
    bookmarks := (tx.bookmarks.entries.filter (fun row => pre <+: row.1)).foldl
      (fun b row => b.delete row.1) tx.bookmarks }

def deleteUserData (userID : Bytes) (tx : Tx) : Result Tx := do
  let tx ← deleteBooksByUser userID tx
  let tx := deleteProgressByUser userID tx
  .ok (deleteBookmarksByUser userID tx)

def purgeUser (id : Bytes) (tx : Tx) : Result Tx :=
  match tx.users.get id with
  | none => .error .notFound
  | some user => do
      let tx ← deleteBooksByUser id tx
      let tx := deleteProgressByUser id tx
      let tx := deleteBookmarksByUser id tx
      .ok { tx with
        users := tx.users.delete id
        usernameIndex := tx.usernameIndex.delete (normalizeUsername user.username) }

def saveUser (user : User) (tx : Tx) : Result Tx := do
  let newNorm := normalizeUsername user.username
  let idxB := match tx.users.get user.id with
    | none => tx.usernameIndex
    | some oldUser =>
        let oldNorm := normalizeUsername oldUser.username
        if oldNorm ≠ newNorm then tx.usernameIndex.delete oldNorm else tx.usernameIndex
  let usersB ← store tx.users user.id user
  let idxB ← store idxB newNorm user.id
  .ok { tx with users := usersB, usernameIndex := idxB }

def deleteUser (id : Bytes) (tx : Tx) : Result Tx :=
  match tx.users.get id with
  | none => .error .notFound
  | some user =>
      .ok { tx with
        users := tx.users.delete id
        usernameIndex := tx.usernameIndex.delete (normalizeUsername user.username) }

def saveBookmark (bookmark : Bookmark) (userID : Bytes) (tx : Tx) : Result Tx := do
  let bookmark := { bookmark with userID := userID }
  let _ ← ownedBook tx bookmark.bookID userID
  let b ← store tx.bookmarks (bookmarkKey userID bookmark.bookID bookmark.id) bookmark
  .ok { tx with bookmarks := b }

def deleteBookmark (bookID bookmarkID userID : Bytes) (tx : Tx) : Result Tx := do
  let _ ← ownedBook tx bookID userID
  let key := bookmarkKey userID bookID bookmarkID
  match tx.bookmarks.get key with
  | none => .error .notFound
  | some _ => .ok { tx with bookmarks := tx.bookmarks.delete key }

end ZReader.Storage
