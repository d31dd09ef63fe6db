import ZReader.Lib.DerivedIndex
import ZReader.Storage.Keys

namespace ZReader.Storage

open Lib.Utf8 Lib.Strings Lib.KeyValue Std

structure BookLibrarySummary where
  total : Int
  uncategorized : Int
  categories : ExtTreeMap Bytes Int

def BookLibrarySummary.zero : BookLibrarySummary := ⟨0, 0, ∅⟩

/-- The buckets a transaction works on. The three optional ones were introduced
by the last migration and are absent while the earlier migrations run. -/
structure Tx where
  books : Bucket Book
  progress : Bucket Progress
  bookmarks : Bucket Bookmark
  users : Bucket User
  userBooksIndex : Bucket Bytes
  usernameIndex : Bucket Bytes
  bookSortIndex : Bucket Bytes
  bookSearchIndex : Bucket Bytes
  bookSearchGramIndex : Bucket Bytes
  progressTimeIndex : Bucket Bytes
  bookContentIndex : Bucket Bytes
  librarySummaryIndex : Bucket BookLibrarySummary
  bookCategorySortIndex : Option (Bucket Bytes)
  bookSearchGramCounts : Option (Bucket Nat)
  bookMissingHashIndex : Option (Bucket Bytes)

/-- A freshly migrated database without data. -/
def Tx.migrated : Tx where
  books := .empty
  progress := .empty
  bookmarks := .empty
  users := .empty
  userBooksIndex := .empty
  usernameIndex := .empty
  bookSortIndex := .empty
  bookSearchIndex := .empty
  bookSearchGramIndex := .empty
  progressTimeIndex := .empty
  bookContentIndex := .empty
  librarySummaryIndex := .empty
  bookCategorySortIndex := some .empty
  bookSearchGramCounts := some .empty
  bookMissingHashIndex := some .empty

inductive StorageError
  | notFound
  | duplicateBookContent
  | progressConflict
  | put (e : PutError)
  | missingBucket
  deriving DecidableEq, Repr

abbrev Result (α : Type) := Except StorageError α

def store {V : Type} (b : Bucket V) (k : Bytes) (v : V) : Result (Bucket V) :=
  match b.put k v with
  | .ok b => .ok b
  | .error e => .error (.put e)

/-- `db.Update`: the changes of a failing transaction are rolled back. -/
def Tx.update (db : Tx) (body : Tx → Result Tx) : Tx :=
  match body db with
  | .ok tx => tx
  | .error _ => db

def addBookToUserIndex (tx : Tx) (bookID userID : Bytes) : Result Tx :=
  if userID = [] ∨ bookID = [] then .ok tx
  else do
    let idxB ← store tx.userBooksIndex (userBooksKey userID bookID) []
    .ok { tx with userBooksIndex := idxB }

def removeBookFromUserIndex (tx : Tx) (bookID userID : Bytes) : Tx :=
  if userID = [] ∨ bookID = [] then tx
  else { tx with userBooksIndex := tx.userBooksIndex.delete (userBooksKey userID bookID) }

def addSortKey (book : Book) (tx : Tx) (sortKey : SortKey) : Result Tx := do
  let bucket ← store tx.bookSortIndex (bookSortIndexKey book sortKey) book.id
  let tx := { tx with bookSortIndex := bucket }
  match tx.bookCategorySortIndex with
  | none => .ok tx
  | some categoryBucket =>
      let categoryBucket ← store categoryBucket (bookCategorySortIndexKey book sortKey) book.id
      .ok { tx with bookCategorySortIndex := some categoryBucket }

def addBookToSortIndex (tx : Tx) (book : Book) : Result Tx :=
  if book.userID = [] ∨ book.id = [] then .ok tx
  else supportedBookSorts.foldlM (addSortKey book) tx

def removeSortKey (book : Book) (tx : Tx) (sortKey : SortKey) : Tx :=
  { tx with
    bookSortIndex := tx.bookSortIndex.delete (bookSortIndexKey book sortKey)
    bookCategorySortIndex :=
      tx.bookCategorySortIndex.map (·.delete (bookCategorySortIndexKey book sortKey)) }

def removeBookFromSortIndex (tx : Tx) (book : Book) : Tx :=
  if book.userID = [] ∨ book.id = [] then tx
  else supportedBookSorts.foldl (removeSortKey book) tx

def trackMissingBookHash (tx : Tx) (book : Book) : Result Tx :=
  match tx.bookMissingHashIndex with
  | none => .ok tx
  | some bucket =>
      if book.id = [] then .ok tx
      else
        let key := bookSearchIndexKey book.userID book.id
        if book.contentHash ≠ [] then
          .ok { tx with bookMissingHashIndex := some (bucket.delete key) }
        else do
          let bucket ← store bucket key book.id
          .ok { tx with bookMissingHashIndex := some bucket }

def addBookToContentIndex (tx : Tx) (book : Book) : Result Tx := do
  let tx ← trackMissingBookHash tx book
  if book.userID = [] ∨ book.id = [] ∨ book.contentHash = [] then .ok tx
  else
    let key := bookContentIndexKey book.userID book.contentHash
    let bucket ← store tx.bookContentIndex (bookContentMembershipKey book) book.id
    match bucket.get key with
    | some _ => .ok { tx with bookContentIndex := bucket }
    | none =>
        let bucket ← store bucket key book.id
        .ok { tx with bookContentIndex := bucket }

def removeBookFromContentIndex (tx : Tx) (book : Book) : Result Tx :=
  let tx := { tx with
    bookMissingHashIndex :=
      tx.bookMissingHashIndex.map (·.delete (bookSearchIndexKey book.userID book.id)) }
  if book.userID = [] ∨ book.contentHash = [] then .ok tx
  else
    let key := bookContentIndexKey book.userID book.contentHash
    let bucket := tx.bookContentIndex.delete (bookContentMembershipKey book)
    if (bucket.get key).any (· ≠ book.id) then .ok { tx with bookContentIndex := bucket }
    else
      match (bucket.seek (key ++ [nul]) (key ++ [nul])).head? with
      | some (_, id) => do
          let bucket ← store bucket key id
          .ok { tx with bookContentIndex := bucket }
      | none => .ok { tx with bookContentIndex := bucket.delete key }

def loadLibrarySummary (tx : Tx) (userID : Bytes) : BookLibrarySummary :=
  if userID = [] then .zero
  else (tx.librarySummaryIndex.get userID).getD .zero

def saveLibrarySummary (tx : Tx) (userID : Bytes) (summary : BookLibrarySummary) : Result Tx :=
  if userID = [] then .ok tx
  else do
    let bucket ← store tx.librarySummaryIndex userID summary
    .ok { tx with librarySummaryIndex := bucket }

def atLeastZero (n : Int) : Int := if n < 0 then 0 else n

def adjustedSummary (summary : BookLibrarySummary) (category : Bytes) (delta : Int) :
    BookLibrarySummary :=
  let summary := { summary with total := atLeastZero (summary.total + delta) }
  if category = [] then
    { summary with uncategorized := atLeastZero (summary.uncategorized + delta) }
  else
    let count := summary.categories.getD category 0 + delta
    if count ≤ 0 then { summary with categories := summary.categories.erase category }
    else { summary with categories := summary.categories.insert category count }

def adjustLibrarySummary (tx : Tx) (book : Book) (delta : Int) : Result Tx :=
  if book.userID = [] ∨ delta = 0 then .ok tx
  else
    saveLibrarySummary tx book.userID
      (adjustedSummary (loadLibrarySummary tx book.userID) (categoryForBook book) delta)

def bookSearchGramCount (bucket : Bucket Nat) (userID gram : Bytes) : Nat :=
  (bucket.get (bookSearchGramIndexPrefix userID gram)).getD 0

def adjustBookSearchGramCount (tx : Tx) (userID gram : Bytes) (delta : Int) : Result Tx :=
  match tx.bookSearchGramCounts with
  | none => .ok tx
  | some bucket =>
      let key := bookSearchGramIndexPrefix userID gram
      let count := (bookSearchGramCount bucket userID gram : Int) + delta
      if count ≤ 0 then .ok { tx with bookSearchGramCounts := some (bucket.delete key) }
      else do
        let bucket ← store bucket key count.toNat
        .ok { tx with bookSearchGramCounts := some bucket }

def addBookToSearchIndex (tx : Tx) (book : Book) : Result Tx :=
  if book.userID = [] ∨ book.id = [] then .ok tx
  else do
    let bucket ← store tx.bookSearchIndex (bookSearchIndexKey book.userID book.id)
      (bookSearchValue book)
    .ok { tx with bookSearchIndex := bucket }

def removeBookFromSearchIndex (tx : Tx) (book : Book) : Tx :=
  if book.userID = [] ∨ book.id = [] then tx
  else { tx with
    bookSearchIndex := tx.bookSearchIndex.delete (bookSearchIndexKey book.userID book.id) }

def addSearchGram (book : Book) (tx : Tx) (gram : Bytes) : Result Tx :=
  let key := bookSearchGramIndexKey book.userID gram book.id
  match tx.bookSearchGramIndex.get key with
  | some _ => .ok tx
  | none => do
      let bucket ← store tx.bookSearchGramIndex key []
      adjustBookSearchGramCount { tx with bookSearchGramIndex := bucket } book.userID gram 1

def addBookToSearchGramIndex (tx : Tx) (book : Book) : Result Tx :=
  if book.userID = [] ∨ book.id = [] then .ok tx
  else (bookSearchGrams (bookSearchValue book)).foldlM (addSearchGram book) tx

def removeSearchGram (book : Book) (tx : Tx) (gram : Bytes) : Result Tx :=
  let key := bookSearchGramIndexKey book.userID gram book.id
  match tx.bookSearchGramIndex.get key with
  | none => .ok tx
  | some _ =>
      adjustBookSearchGramCount
        { tx with bookSearchGramIndex := tx.bookSearchGramIndex.delete key } book.userID gram (-1)

def removeBookFromSearchGramIndex (tx : Tx) (book : Book) : Result Tx :=
  if book.userID = [] ∨ book.id = [] then .ok tx
  else (bookSearchGrams (bookSearchValue book)).foldlM (removeSearchGram book) tx

def addProgressToTimeIndex (tx : Tx) (progress : Progress) : Result Tx :=
  if progress.userID = [] ∨ progress.bookID = [] then .ok tx
  else do
    let bucket ← store tx.progressTimeIndex (progressTimeIndexKey progress) progress.bookID
    .ok { tx with progressTimeIndex := bucket }

def removeProgressFromTimeIndex (tx : Tx) (progress : Progress) : Tx :=
  if progress.userID = [] ∨ progress.bookID = [] then tx
  else { tx with
    progressTimeIndex := tx.progressTimeIndex.delete (progressTimeIndexKey progress) }

def rebuildBookSortIndex (tx : Tx) : Result Tx :=
  let tx := { tx with
    bookCategorySortIndex := tx.bookCategorySortIndex.map (fun _ => .empty)
    bookSortIndex := .empty }
  tx.books.values.foldlM addBookToSortIndex tx

def rebuildBookSearchIndex (tx : Tx) : Result Tx :=
  let tx := { tx with bookSearchIndex := .empty }
  tx.books.values.foldlM addBookToSearchIndex tx

def rebuildBookSearchGramIndex (tx : Tx) : Result Tx :=
  let tx := { tx with
    bookSearchGramCounts := tx.bookSearchGramCounts.map (fun _ => .empty)
    bookSearchGramIndex := .empty }
  tx.books.values.foldlM addBookToSearchGramIndex tx

def rebuildBookContentIndex (tx : Tx) : Result Tx :=
  let tx := { tx with bookContentIndex := .empty }
  tx.books.values.foldlM
    (fun tx book => if book.contentHash = [] then .ok tx else addBookToContentIndex tx book) tx

def rebuildLibrarySummaryIndex (tx : Tx) : Result Tx :=
  let tx := { tx with librarySummaryIndex := .empty }
  tx.books.values.foldlM (fun tx book => adjustLibrarySummary tx book 1) tx

def rebuildMissingBookHashIndex (tx : Tx) : Result Tx :=
  let tx := { tx with bookMissingHashIndex := some .empty }
  tx.books.values.foldlM trackMissingBookHash tx

def rebuildProgressTimeIndex (tx : Tx) : Result Tx :=
  let tx := { tx with progressTimeIndex := .empty }
  tx.progress.values.foldlM addProgressToTimeIndex tx

def migrateUserBooksIndex (tx : Tx) : Result Tx :=
  tx.books.values.foldlM (fun tx book =>
    if book.userID = [] then .ok tx
    else
      let key := userBooksKey book.userID book.id
      match tx.userBooksIndex.get key with
      | some _ => .ok tx
      | none => do
          let idxB ← store tx.userBooksIndex key []
          .ok { tx with userBooksIndex := idxB }) tx

def migrateBookCategories (tx : Tx) : Result Tx :=
  tx.books.entries.foldlM (fun tx row =>
    let nextCategory := normalizeCategoryName row.2.category
    if row.2.category = nextCategory then .ok tx
    else do
      let booksB ← store tx.books row.1 { row.2 with category := nextCategory }
      .ok { tx with books := booksB }) tx

end ZReader.Storage
