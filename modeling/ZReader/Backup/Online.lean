import ZReader.Handlers.Uploads

namespace ZReader.Backup.Online

open Lib.Utf8 Lib.Strings Lib.KeyValue Storage Handlers Handlers.Uploads

/-! ## Deletions -/

/-- The names a record refers to in the upload directory. -/
def bookFiles (book : Book) : List Bytes := [book.filename, book.coverPath, book.coverThumbPath]

def removeFile (files : Files) (name : Bytes) : Files :=
  if trimSpace name = [] then files else files.erase name

/-- A request of `Delete` or `BatchDelete` between its transactions and the files it removes. The
keys `passed` are what `deleteBooksData` leaves behind. -/
inductive Deletion
  | request (id userID : Bytes)
  | found (id userID : Bytes) (book : Book)
  | batch (ids : List Bytes) (userID : Bytes) (passed : Bytes → Bool)
  | committed (names : List Bytes)

/-- A transaction or a removal that is not `ok` leaves things as they are. -/
def Deletion.run (ok : Bool) (db : Tx) (files : Files) : Deletion → Tx × Files × Deletion
  | .request id userID =>
      match if ok then getBookForUser db id userID else none with
      | some book => (db, files, .found id userID book)
      | none => (db, files, .committed [])
  | .found id userID book =>
      match if ok then deleteBookData id userID db else .error .missingBucket with
      | .ok tx => (tx, files, .committed (bookFiles book))
      | .error _ => (db, files, .committed [])
  | .batch ids userID passed =>
      match if ok then deleteBooksData ids userID passed db else .error .missingBucket with
      | .ok (deletedBooks, tx) => (tx, files, .committed (deletedBooks.flatMap bookFiles))
      | .error _ => (db, files, .committed [])
  | .committed [] => (db, files, .committed [])
  | .committed (name :: names) =>
      (db, if ok then removeFile files name else files, .committed names)

/-- The name that the next step removes. -/
def Deletion.removes : Deletion → Option Bytes
  | .committed (name :: _) => some name
  | _ => none

/-! ## A backup beside the server -/

/-- Where `Create` is. `uploads` is the copy, `left` the listed names that are still to be
copied. -/
inductive Phase
  | idle
  | snapshotted (main : Tx)
  | sessionsSnapshotted (main : Tx)
  | copying (main : Tx) (left : List Bytes) (uploads : Files)
  | listed (main : Tx) (uploads : Files) (manifest : List (Bytes × Bytes))
  | verified (main : Tx) (uploads : Files)
  | published (main : Tx) (uploads : Files)
  | failed

section

variable (hash : Bytes → Bytes)

def buildManifest (uploads : Files) : List (Bytes × Bytes) :=
  uploads.entries.map fun e => (e.1, hash e.2)

def verify (uploads : Files) (manifest : List (Bytes × Bytes)) : Bool :=
  manifest.all fun (name, digest) => (uploads.lookup name).map hash = some digest

/-- The next step of `Create`; after an error, or when it has published, a new one. A listed
file that is gone cannot be opened. -/
def Phase.run (ok : Bool) (db : Tx) (files : Files) : Phase → Phase
  | .idle | .published _ _ | .failed => if ok then .snapshotted db else .failed
  | .snapshotted main => if ok then .sessionsSnapshotted main else .failed
  | .sessionsSnapshotted main =>
      if ok then .copying main (files.keys.insertionSort (· ≤ ·)) ∅ else .failed
  | .copying main (name :: left) uploads =>
      match if ok then files.lookup name else none with
      | some content => .copying main left (uploads.insert name content)
      | none => .failed
  | .copying main [] uploads => if ok then .listed main uploads (buildManifest hash uploads) else .failed
  | .listed main uploads manifest =>
      if ok ∧ verify hash uploads manifest then .verified main uploads else .failed
  | .verified main uploads => if ok then .published main uploads else .failed

end

/-- The snapshot of a backup that has not listed the upload directory yet. -/
def Phase.unlisted : Phase → Option Tx
  | .snapshotted main | .sessionsSnapshotted main => some main
  | _ => none

structure Live where
  server : Uploads.Server
  deletions : List Deletion
  backup : Phase

inductive Event
  | serve (action : Uploads.Action)
  | acceptDelete (id userID : Bytes)
  | acceptBatchDelete (ids : List Bytes) (userID : Bytes) (passed : Bytes → Bool)
  | delete (i : Nat) (ok : Bool)
  | backup (ok : Bool)

def Live.step (hash : Bytes → Bytes) (s : Live) : Event → Option Live
  | .serve action => (s.server.step hash action).map fun server => { s with server := server }
  | .acceptDelete id userID => some { s with deletions := s.deletions ++ [.request id userID] }
  | .acceptBatchDelete ids userID passed =>
      let ids := normalizeBookIDs ids
      if ids = [] ∨ ids.length > maxBatchBookIDs then none
      else some { s with deletions := s.deletions ++ [.batch ids userID passed] }
  | .delete i ok =>
      (s.deletions[i]?).map fun deletion =>
        let (db, files, deletion') := deletion.run ok s.server.db s.server.files
        { s with
          server := { s.server with db := db, files := files }
          deletions := s.deletions.set i deletion' }
  | .backup ok => some { s with backup := s.backup.run hash ok s.server.db s.server.files }

/-- Until a backup has listed the upload directory no deletion removes the upload of a book
that is in its snapshot. -/
def Live.Spares (s : Live) : Event → Prop
  | .delete i true => ∀ deletion ∈ s.deletions[i]?, ∀ name ∈ deletion.removes,
      ∀ main ∈ s.backup.unlisted, ∀ b ∈ main.books.values, b.filename ≠ name
  | _ => True

instance (s : Live) : (e : Event) → Decidable (s.Spares e)
  | .delete _ true => inferInstanceAs (Decidable (∀ _ ∈ _, _))
  | .serve _ | .acceptDelete _ _ | .acceptBatchDelete _ _ _ | .delete _ false | .backup _ => .isTrue trivial

end ZReader.Backup.Online
