import ZReader.Handlers.Books
import ZReader.Storage.ContentRuns

namespace ZReader.Handlers.Uploads

open Lib.Utf8 Lib.Strings Lib.KeyValue Storage

/-! ## Books without a hash -/

/-- The rows from the cursor on. The second result is the last key that was looked at when
the list got full, and empty at the end of the rows. -/
def collectMissing (books : Bucket Book) (cursor : Bytes) (limit : Nat) :
    List (Bytes × Bytes) → List Book → Bytes → List Book × Bytes
  | [], found, _ => (found, [])
  | (key, id) :: rows, found, next =>
      if key = cursor then collectMissing books cursor limit rows found next
      else if found.length = limit then (found, next)
      else
        match (books.get id).filter (·.contentHash = []) with
        | none => collectMissing books cursor limit rows found key
        | some book => collectMissing books cursor limit rows (found ++ [book]) key

def listBooksMissingHash (tx : Tx) (userID : Option Bytes) (cursor : Bytes) (limit : Nat) :
    List Book × Bytes :=
  match tx.bookMissingHashIndex with
  | none => ([], [])
  | some bucket =>
      let pre := (userID.map (· ++ [nul])).getD []
      let start := if cursor = [] then pre else cursor
      if limit = 0 then ([], []) else collectMissing tx.books cursor limit (bucket.seek start pre) [] []

def legacyHashBatchSize : Nat := 16

/-! ## Requests -/

/-- The upload directory. A file that is being written holds the beginning of its content. -/
abbrev Files := AList fun _ : Bytes => Bytes

/-- What a request uploads: `content` is what is stored for the file. -/
structure Request where
  id : Bytes
  userID : Bytes
  fileName : Bytes
  ext : Bytes
  format : Bytes
  size : Int
  content : Bytes
  createdAt : Time

def trimSuffix (s suffix : Bytes) : Bytes :=
  if suffix.isSuffixOf s then s.take (s.length - suffix.length) else s

def Request.name (r : Request) : Bytes := r.id ++ r.ext

/-- Where a search for a duplicate is: at its first look into the content index, at the
list of books without a hash, waiting for the worker, or with the worker's answer. -/
inductive Look
  | find
  | missing
  | waiting
  | served (ok : Bool)
  deriving DecidableEq

inductive Answer
  | failed
  | duplicate (book : Book)
  | conflict
  | ok (book : Book)
  deriving DecidableEq

inductive Stage
  | writing
  | checking (look : Look)
  | creating
  /-- `CreateBook` has found a duplicate, and the file is removed. -/
  | refused (look : Look)
  | created (book : Book)
  | answered (answer : Answer)
  deriving DecidableEq

inductive LookResult
  | failed
  | found (book : Option Book)
  | next (look : Look)
  | blocked

/-- A step of `findDuplicateBook`. Reading from the open database does not fail. A waiting
search goes on without an answer only where the worker has stopped. -/
def Look.run (db : Tx) (userID contentHash : Bytes) (stopped : Bool) : Look → LookResult
  | .find =>
      match findBookByContentHash db userID contentHash with
      | some book => .found (some book)
      | none => .next .missing
  | .missing =>
      .next (if (listBooksMissingHash db (some userID) [] 1).1 = [] then .served true else .waiting)
  | .waiting => if stopped then .failed else .blocked
  | .served true => .found (findBookByContentHash db userID contentHash)
  | .served false => .failed

/-- How the step of a request goes: an operation on the disk fails unless `ok`, and a write
that goes on has put `written` bytes on the disk. -/
structure Turn where
  ok : Bool
  written : Nat

section

variable (hash : Bytes → Bytes)

def Request.book (r : Request) : Book where
  id := r.id
  userID := r.userID
  title := trimSuffix r.fileName r.ext
  author := []
  filename := r.name
  format := r.format
  size := r.size
  contentHash := hash r.content
  coverPath := []
  coverThumbPath := []
  processingState := if r.format = ascii "epub" then .pending else .ready
  category := none
  createdAt := r.createdAt
  lastReadAt := none

/-- `Upload` from the file it writes to its answer. -/
def Request.run (r : Request) (turn : Turn) (db : Tx) (files : Files) :
    Stage → Option (Tx × Files × Stage)
  | .writing =>
      if turn.ok = false then some (db, files.erase r.name, .answered .failed)
      else if turn.written < r.content.length then
        some (db, files.insert r.name (r.content.take turn.written), .writing)
      else some (db, files.insert r.name r.content, .checking .find)
  | .checking look =>
      match look.run db r.userID (hash r.content) (turn.ok = false) with
      | .failed => some (db, files.erase r.name, .answered .failed)
      | .found (some book) => some (db, files.erase r.name, .answered (.duplicate book))
      | .found none => some (db, files, .creating)
      | .next look => some (db, files, .checking look)
      | .blocked => none
  | .creating =>
      if turn.ok = false then some (db, files.erase r.name, .answered .failed)
      else
        match createBook (r.book hash) db with
        | .ok tx => some (tx, files, .created (r.book hash))
        | .error .duplicateBookContent => some (db, files.erase r.name, .refused .find)
        | .error _ => some (db, files.erase r.name, .answered .failed)
  | .refused look =>
      match look.run db r.userID (hash r.content) (turn.ok = false) with
      | .failed | .found none => some (db, files, .answered .conflict)
      | .found (some book) => some (db, files, .answered (.duplicate book))
      | .next look => some (db, files, .refused look)
      | .blocked => none
  | .created book => some (db, files, .answered (.ok book))
  | .answered _ => none

end

/-- What `uploadBook` makes of an answer. -/
def uploadResult : Answer → Option Book
  | .ok book | .duplicate book => some book
  | .failed | .conflict => none

/-! ## The worker for legacy hashes -/

inductive Work
  | idle
  /-- Between the batches for the request at this position. -/
  | serving (i : Nat) (cursor : Bytes)
  | hashing (client : Option Nat) (next : Bytes) (books hashes : List Book)

def Look.serve (ok : Bool) : Look → Look
  | .waiting => .served ok
  | look => look

def Stage.serve (ok : Bool) : Stage → Stage
  | .checking look => .checking (look.serve ok)
  | .refused look => .refused (look.serve ok)
  | stage => stage

structure Server where
  db : Tx
  files : Files
  /-- The identifiers and file names that have been in use. -/
  names : List Bytes
  requests : List (Request × Stage)
  /-- Where the worker's own round through the library is. -/
  cursor : Bytes
  work : Work

inductive Action
  | accept (r : Request)
  | advance (i : Nat) (turn : Turn)
  /-- The timer of the worker. -/
  | tick
  | serve (i : Nat)
  | list
  | hash (ok : Bool)
  | commit (ok : Bool)

/-- A generated identifier begins none of the names that have been in use. -/
def Server.Fresh (s : Server) (r : Request) : Prop :=
  WellFormedID r.id ∧ r.userID ≠ [] ∧ nul ∉ r.userID ∧ s.db.books.get r.id = none ∧
    ∀ name ∈ s.names, ¬ r.id <+: name

instance (s : Server) (r : Request) : Decidable (s.Fresh r) := inferInstanceAs (Decidable (_ ∧ _))

def resolve (files : Files) (name : Bytes) : Option Bytes :=
  if trimSpace name = [] then none else files.lookup name

/-- The end of a batch: the answer for the request that waits for it, and what comes next. -/
def Server.finish (s : Server) (client : Option Nat) (ok : Bool) (next : Bytes) : Server :=
  match client with
  | none => { s with cursor := if ok then next else [], work := .idle }
  | some i =>
      if ok = false ∨ next = [] then
        { s with
          requests := s.requests.modify i fun (r, stage) => (r, stage.serve ok)
          work := .idle }
      else { s with work := .serving i next }

section

variable (hash : Bytes → Bytes)

def Server.step (s : Server) : Action → Option Server
  | .accept r =>
      if s.Fresh r then
        some { s with names := s.names ++ [r.id, r.name], requests := s.requests ++ [(r, .writing)] }
      else none
  | .advance i turn => do
      let (r, stage) ← s.requests[i]?
      let (db, files, stage') ← r.run hash turn s.db s.files stage
      some { s with db := db, files := files, requests := s.requests.set i (r, stage') }
  | .tick =>
      match s.work with
      | .idle =>
          let (books, next) := listBooksMissingHash s.db none s.cursor legacyHashBatchSize
          some { s with work := .hashing none next books [] }
      | _ => none
  | .serve i =>
      match s.work, (s.requests[i]?).map Prod.snd with
      | .idle, some (.checking .waiting) | .idle, some (.refused .waiting) =>
          some { s with work := .serving i [] }
      | _, _ => none
  | .list =>
      match s.work with
      | .serving i cursor =>
          let userID := (s.requests[i]?).map (·.1.userID)
          let (books, next) := listBooksMissingHash s.db userID cursor legacyHashBatchSize
          some { s with work := .hashing (some i) next books [] }
      | _ => none
  | .hash ok =>
      match s.work with
      | .hashing client next (book :: books) hashes =>
          let found := if ok then resolve s.files book.filename else none
          let hashed := found.map fun content => { book with contentHash := hash content }
          some { s with work := .hashing client next books (hashes ++ hashed.toList) }
      | _ => none
  | .commit ok =>
      match s.work with
      | .hashing client next [] hashes =>
          match if ok then backfillBookContentHashes hashes s.db else .error .missingBucket with
          | .ok tx => some ({ s with db := tx }.finish client true next)
          | .error _ => some (s.finish client false next)
      | _ => none

end

end ZReader.Handlers.Uploads
