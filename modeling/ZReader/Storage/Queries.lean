import ZReader.Lib.Ordered
import ZReader.Storage.Indexes

namespace ZReader.Storage

open Lib.Utf8 Lib.Strings Lib.KeyValue Lib.Ordered

/-- An omitted filter selects all books, a blank one the uncategorised ones. -/
def selectedBookCategory (filters : List (Option Bytes)) : Option Bytes :=
  match filters with
  | some category :: _ => some (trimSpace category)
  | _ => none

def bookQueryIndex (tx : Tx) (userID : Bytes) (sortKey : SortKey) (category : Option Bytes) :
    Result (Bucket Bytes × Bytes) :=
  match category with
  | some category =>
      match tx.bookCategorySortIndex with
      | none => .error .missingBucket
      | some index => .ok (index, bookCategorySortPrefix userID category sortKey)
  | none => .ok (tx.bookSortIndex, sortKey.name ++ [nul] ++ userID ++ [nul])

def bookQuerySortKey (sortKey : SortKey) (category : Option Bytes) (book : Book) : Bytes :=
  match category with
  | some _ => bookCategorySortIndexKey book sortKey
  | none => bookSortIndexKey book sortKey

/-- The book is the user's and in the selected category. -/
def selects (userID : Bytes) (category : Option Bytes) (book : Book) : Bool :=
  book.userID = userID ∧ category.all (categoryForBook book = ·)

def bookQueryStart (tx : Tx) (userID cursor : Bytes) (sortKey : SortKey) (category : Option Bytes)
    (pre : Bytes) : Bytes :=
  if cursor = [] then pre
  else
    match tx.books.get cursor with
    | none => pre
    | some book =>
        if selects userID category book then bookQuerySortKey sortKey category book else pre

def bookCursorPage (books : List Book) (limit : Int) : List Book × Bytes :=
  if (books.length : Int) ≤ limit then (books, [])
  else (books.take limit.toNat, ((books[limit.toNat - 1]?).map (·.id)).getD [])

/-- `bytes.Contains`. -/
def contains (text query : Bytes) : Bool := query <:+: text

/-- The decoded record of an index row, when it belongs to the answer. -/
def acceptedBook (tx : Tx) (userID query : Bytes) (category : Option Bytes) (id : Bytes) :
    Option Book :=
  if query ≠ [] ∧
      ¬ contains ((tx.bookSearchIndex.get (bookSearchIndexKey userID id)).getD []) query then none
  else (tx.books.get id).filter (selects userID category)

/-- The scan loop: it stops once a page and its lookahead are complete. -/
def collectBooks (accept : Bytes → Option Book) (cursor : Bytes) (limit : Int) :
    List Book → List (Bytes × Bytes) → List Book
  | books, [] => books
  | books, (_, id) :: rows =>
      if id = cursor then collectBooks accept cursor limit books rows
      else
        match accept id with
        | none => collectBooks accept cursor limit books rows
        | some book =>
            let books := books ++ [book]
            if limit < books.length then books else collectBooks accept cursor limit books rows

def scanSortedBooks (tx : Tx) (userID query cursor : Bytes) (limit : Int) (sortKey : SortKey)
    (category : Option Bytes) : Result (List Book) := do
  let (index, pre) ← bookQueryIndex tx userID sortKey category
  let start := bookQueryStart tx userID cursor sortKey category pre
  .ok (collectBooks (acceptedBook tx userID query category) cursor limit [] (index.seek start pre))

def listBooksBySortedCursor (tx : Tx) (userID cursor : Bytes) (limit : Int) (sortKey : Bytes)
    (filters : List (Option Bytes)) : Result (List Book × Bytes) :=
  if userID = [] ∨ limit ≤ 0 then .ok ([], [])
  else do
    let books ← scanSortedBooks tx userID [] cursor limit (normalizeBookSort sortKey)
      (selectedBookCategory filters)
    .ok (bookCursorPage books limit)

def mostSelectiveFrom (bucket : Bucket Nat) (userID : Bytes) :
    Bytes × Int → List Bytes → Bytes × Int
  | best, [] => best
  | (selected, count), gram :: grams =>
      let n : Int := bookSearchGramCount bucket userID gram
      if n = 0 then (gram, 0)
      else if count < 0 ∨ n < count then mostSelectiveFrom bucket userID (gram, n) grams
      else mostSelectiveFrom bucket userID (selected, count) grams

def mostSelectiveBookSearchGram (bucket : Bucket Nat) (userID : Bytes) (grams : List Bytes) :
    Bytes × Int := mostSelectiveFrom bucket userID ([], -1) grams

/-- The number of books that the category filter leaves. -/
def population (summary : BookLibrarySummary) (category : Option Bytes) : Int :=
  match category with
  | none => summary.total
  | some category =>
      if category = [] then summary.uncategorized else summary.categories.getD category 0

/-- The plan that follows one posting list and sorts what it finds. -/
def postingBooks (tx : Tx) (userID query cursor : Bytes) (limit : Int) (sortKey : SortKey)
    (category : Option Bytes) (gram : Bytes) : Result (List Book) := do
  let (_, sortPrefix) ← bookQueryIndex tx userID sortKey category
  let start := bookQueryStart tx userID cursor sortKey category sortPrefix
  let pre := bookSearchGramIndexPrefix userID gram
  let candidates := (tx.bookSearchGramIndex.seek pre pre).filterMap (fun row =>
    (acceptedBook tx userID query category (row.1.drop pre.length)).filter (fun book =>
      ¬ (sortPrefix.length < start.length ∧
        compare (bookQuerySortKey sortKey category book) start ≠ .gt)))
  .ok ((sortByKey (bookQuerySortKey sortKey category) candidates).take (limit + 1).toNat)

/-- Broad postings are read in shelf order; rare ones are sorted afterwards. -/
def plannedBooks (tx : Tx) (userID query cursor : Bytes) (limit : Int) (sortKey : SortKey)
    (category : Option Bytes) : Result (List Book) :=
  match tx.bookSearchGramCounts with
  | none => .error .missingBucket
  | some counts =>
      let grams := bookSearchGrams query
      let (gram, count) := mostSelectiveBookSearchGram counts userID grams
      if grams ≠ [] ∧ count = 0 then .ok []
      else
        let broad :=
          if grams ≠ [] ∧ count > max 64 (limit * 4) then
            decide (count > (population (loadLibrarySummary tx userID) category).tdiv 4)
          else decide (grams = [])
        if broad then scanSortedBooks tx userID query cursor limit sortKey category
        else postingBooks tx userID query cursor limit sortKey category gram

def searchBooks (tx : Tx) (userID query cursor : Bytes) (limit : Int) (sortKey : Bytes)
    (filters : List (Option Bytes)) : Result (List Book × Bytes) :=
  let query := normalizeBookSearchText query
  if userID = [] ∨ query = [] ∨ limit ≤ 0 then .ok ([], [])
  else do
    let books ← plannedBooks tx userID query cursor limit (normalizeBookSort sortKey)
      (selectedBookCategory filters)
    .ok (bookCursorPage books limit)

end ZReader.Storage
