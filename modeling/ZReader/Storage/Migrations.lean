import ZReader.Lib.Integers
import ZReader.Lib.Json
import ZReader.Storage.References

namespace ZReader.Storage

open Lib.Utf8 Lib.Strings Lib.KeyValue Lib.DerivedIndex Lib.Fallible Lib.Integers

/-! ## A database of any version -/

/-- The buckets whose presence the code does not ask for. -/
inductive BucketName
  | books
  | progress
  | bookmarks
  | users
  | userBooksIndex
  | usernameIndex
  | bookSortIndex
  | bookSearchIndex
  | bookSearchGramIndex
  | progressTimeIndex
  | bookContentIndex
  | librarySummaryIndex
  deriving DecidableEq

/-- What `tx` has for a bucket outside `buckets` is of no account. -/
structure Database where
  schemaVersion : Option Bytes
  buckets : List BucketName
  tx : Tx

/-- Makes a bucket an empty one. -/
def BucketName.clear (tx : Tx) : BucketName → Tx
  | .books => { tx with books := .empty }
  | .progress => { tx with progress := .empty }
  | .bookmarks => { tx with bookmarks := .empty }
  | .users => { tx with users := .empty }
  | .userBooksIndex => { tx with userBooksIndex := .empty }
  | .usernameIndex => { tx with usernameIndex := .empty }
  | .bookSortIndex => { tx with bookSortIndex := .empty }
  | .bookSearchIndex => { tx with bookSearchIndex := .empty }
  | .bookSearchGramIndex => { tx with bookSearchGramIndex := .empty }
  | .progressTimeIndex => { tx with progressTimeIndex := .empty }
  | .bookContentIndex => { tx with bookContentIndex := .empty }
  | .librarySummaryIndex => { tx with librarySummaryIndex := .empty }

def createBucketIfNotExists (db : Database) (name : BucketName) : Database :=
  if name ∈ db.buckets then db
  else { db with buckets := name :: db.buckets, tx := name.clear db.tx }

/-- A step that reads some buckets and creates others anew. A missing bucket ends it, as it
does in the code at the latest with the first record. -/
def Database.rebuild (db : Database) (reads creates : List BucketName) (body : Tx → Result Tx) :
    Result Database :=
  if ∀ name ∈ reads, name ∈ db.buckets then do
    let tx ← body db.tx
    .ok { db with buckets := creates ++ db.buckets, tx := tx }
  else .error .missingBucket

/-! ## The migrations -/

def initialBuckets : List BucketName :=
  [.books, .progress, .bookmarks, .users, .userBooksIndex, .usernameIndex, .bookSortIndex]

def initializeBuckets (db : Database) : Result Database :=
  .ok (initialBuckets.foldl createBucketIfNotExists db)

def migrateUsernameIndex (tx : Tx) : Result Tx :=
  tx.users.entries.foldlM (fun tx row =>
    let norm := normalizeUsername row.2.username
    if norm = [] then .ok tx
    else
      match tx.usernameIndex.get norm with
      | some _ => .ok tx
      | none => do
          let idxB ← store tx.usernameIndex norm row.1
          .ok { tx with usernameIndex := idxB }) tx

def migrateIndexes (tx : Tx) : Result Tx := do
  let tx ← migrateUsernameIndex tx
  migrateUserBooksIndex tx

/-- `json.Unmarshal` into a list of strings: a `null` in place of the list is the empty
list, in place of a string the empty string. -/
def unmarshalStrings (data : Bytes) : Option (List Bytes) :=
  match Lib.Json.parse (runes data) with
  | some .null => some []
  | some (.array values) => values.mapM fun
    | .string s => some (encode s)
    | .null => some []
    | _ => none
  | _ => none

/-- An entry of the first format: the identifiers of a user's books in one row. -/
structure OldIndexEntry where
  userID : Bytes
  bookIDs : List Bytes

def oldIndexEntries (idxB : Bucket Bytes) : List OldIndexEntry :=
  idxB.entries.filterMap fun row =>
    if colon ∈ row.1 then none
    else (unmarshalStrings row.2).map fun ids => ⟨row.1, ids⟩

def flattenEntry (idxB : Bucket Bytes) (entry : OldIndexEntry) : Result (Bucket Bytes) := do
  let idxB ← entry.bookIDs.foldlM (fun idxB bookID => store idxB (userBooksKey entry.userID bookID) []) idxB
  .ok (idxB.delete entry.userID)

def flattenUserBooksIndex (tx : Tx) : Result Tx := do
  let idxB ← (oldIndexEntries tx.userBooksIndex).foldlM flattenEntry tx.userBooksIndex
  .ok { tx with userBooksIndex := idxB }

def flattenIfThere (db : Database) : Result Database :=
  if .userBooksIndex ∈ db.buckets then db.rebuild [] [] flattenUserBooksIndex else .ok db

def rebuildContentAndSummary (tx : Tx) : Result Tx := do
  let tx ← rebuildBookContentIndex tx
  rebuildLibrarySummaryIndex tx

def rebuildLibraryQueryIndexes (tx : Tx) : Result Tx := do
  let tx := { tx with
    bookCategorySortIndex := some (tx.bookCategorySortIndex.getD .empty)
    bookSearchGramCounts := some (tx.bookSearchGramCounts.getD .empty) }
  let tx ← rebuildBookSortIndex tx
  let tx ← rebuildBookSearchIndex tx
  let tx ← rebuildBookSearchGramIndex tx
  let tx ← rebuildLibrarySummaryIndex tx
  let tx ← rebuildBookContentIndex tx
  rebuildMissingBookHashIndex tx

structure Migration where
  version : Int
  /-- the buckets that are there afterwards -/
  creates : List BucketName
  run : Database → Result Database

def migrations : List Migration :=
  [⟨1, initialBuckets, initializeBuckets⟩,
   ⟨2, [], (·.rebuild [.users, .usernameIndex, .books, .userBooksIndex] [] migrateIndexes)⟩,
   ⟨3, [], (·.rebuild [.books] [] migrateBookCategories)⟩,
   ⟨4, [], flattenIfThere⟩,
   ⟨5, [.bookSortIndex], (·.rebuild [.books] [.bookSortIndex] rebuildBookSortIndex)⟩,
   ⟨6, [.bookSearchIndex], (·.rebuild [.books] [.bookSearchIndex] rebuildBookSearchIndex)⟩,
   ⟨7, [.progressTimeIndex],
      (·.rebuild [.progress] [.progressTimeIndex] rebuildProgressTimeIndex)⟩,
   ⟨8, [.bookContentIndex, .librarySummaryIndex],
      (·.rebuild [.books] [.bookContentIndex, .librarySummaryIndex] rebuildContentAndSummary)⟩,
   ⟨9, [.bookSearchGramIndex],
      (·.rebuild [.books] [.bookSearchGramIndex] rebuildBookSearchGramIndex)⟩,
   ⟨10, [.bookSortIndex, .bookSearchIndex, .bookSearchGramIndex, .librarySummaryIndex, .bookContentIndex],
      (·.rebuild [.books]
        [.bookSortIndex, .bookSearchIndex, .bookSearchGramIndex, .librarySummaryIndex, .bookContentIndex]
        rebuildLibraryQueryIndexes)⟩]

/-- A version that is missing or cannot be parsed counts as 0. -/
def currentVersion (db : Database) : Int :=
  match db.schemaVersion with
  | none => 0
  | some vBytes => (atoi? vBytes).getD 0

def migrate (state : Database × Int) (m : Migration) : Result (Database × Int) :=
  if m.version ≤ state.2 then .ok state
  else do
    let db ← m.run state.1
    .ok ({ db with schemaVersion := some (ascii (toString m.version)) }, m.version)

def runMigrations (db : Database) : Result Database := do
  let (db, _) ← migrations.foldlM migrate (db, currentVersion db)
  .ok db

end ZReader.Storage
