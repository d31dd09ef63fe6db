import ZReader.Lib.Tokens
import ZReader.Handlers.MissingHashes
import ZReader.Storage.HashBackfill

namespace ZReader.Handlers.LegacyHashes

open Lib.Utf8 Lib.Strings Lib.KeyValue Lib.Tokens Lib.Transition Lib.Paging Storage Uploads

/-! ## The worker and its callers -/

/-- Where a call of `catchUp` is. -/
inductive RequestPhase
  | asking
  | sending
  /-- With what its channel `done` holds. -/
  | waiting (done : Option Bool)
  | returned (ok : Bool)
  deriving DecidableEq

structure LegacyHashRequest where
  userID : Bytes
  phase : RequestPhase
  deriving DecidableEq

/-- Where the worker is in `run`. -/
inductive WorkerPhase
  | selecting
  /-- Between the batches for a request. -/
  | serving (i : ℕ) (next : Bytes)
  /-- In a batch, for a request or for the timer: the books still to be hashed, and those that are. -/
  | hashing (client : Option ℕ) (next : Bytes) (books hashes : List Book)
  | ended

structure LegacyHashBackfill where
  db : Tx
  stopped : Bool
  requests : List LegacyHashRequest
  cursor : Bytes
  phase : WorkerPhase

inductive BackfillAction
  /-- Any other transaction on the library. -/
  | edit (op : Op)
  /-- A call of `catchUp`, and its steps: the first look at the backlog, the worker taking the
  request, the answer, or the end of the worker. -/
  | catchUp (userID : Bytes)
  | look (i : ℕ)
  | accept (i : ℕ)
  | receive (i : ℕ)
  | giveUp (i : ℕ)
  | close
  | quit
  /-- A batch, for the timer or for a request. The file of a book may have a content that can be
  read, and the transaction of a commit may fail. -/
  | tick
  | list
  | hash (content : Option Bytes)
  | commit (ok : Bool)

def RequestPhase.answer (ok : Bool) : RequestPhase → RequestPhase
  | .waiting _ => .waiting (some ok)
  | phase => phase

namespace LegacyHashBackfill

def putPhase (s : LegacyHashBackfill) (i : ℕ) (r : LegacyHashRequest) (phase : RequestPhase) :
    LegacyHashBackfill :=
  { s with requests := s.requests.set i { r with phase := phase } }

def answer (s : LegacyHashBackfill) (i : ℕ) (ok : Bool) : LegacyHashBackfill :=
  { s with requests := s.requests.modify i fun r => { r with phase := r.phase.answer ok } }

/-- The end of a batch. -/
def finish (s : LegacyHashBackfill) (client : Option ℕ) (ok : Bool) (next : Bytes) :
    LegacyHashBackfill :=
  match client with
  | none => { s with cursor := if ok then next else [], phase := .selecting }
  | some i =>
      if ok = false ∨ next = [] then { s.answer i ok with phase := .selecting }
      else { s with phase := .serving i next }

def step (hash : Bytes → Bytes) (s : LegacyHashBackfill) : BackfillAction → Option LegacyHashBackfill
  | .edit op => some { s with db := op.run s.db }
  | .catchUp userID => some { s with requests := s.requests ++ [⟨userID, .asking⟩] }
  | .look i => (s.requests[i]?).bind fun r =>
      match r.phase with
      | .asking => some (s.putPhase i r
          (if (listBooksMissingHash s.db (some r.userID) [] 1).1 = [] then .returned true else .sending))
      | _ => none
  | .accept i => (s.requests[i]?).bind fun r =>
      match s.phase, r.phase with
      | .selecting, .sending => some { s.putPhase i r (.waiting none) with phase := .serving i [] }
      | _, _ => none
  | .receive i => (s.requests[i]?).bind fun r =>
      match r.phase with
      | .waiting (some ok) => some (s.putPhase i r (.returned ok))
      | _ => none
  | .giveUp i => (s.requests[i]?).bind fun r =>
      match r.phase with
      | .sending | .waiting _ => if s.stopped then some (s.putPhase i r (.returned false)) else none
      | _ => none
  | .close => some { s with stopped := true }
  | .quit =>
      match s.phase with
      | .selecting => if s.stopped then some { s with phase := .ended } else none
      | _ => none
  | .tick =>
      match s.phase with
      | .selecting =>
          let (books, next) := listBooksMissingHash s.db none s.cursor legacyHashBatchSize
          some { s with phase := .hashing none next books [] }
      | _ => none
  | .list =>
      match s.phase with
      | .serving i next =>
          if s.stopped then some { s.answer i false with phase := .ended }
          else (s.requests[i]?).map fun r =>
            let (books, next) := listBooksMissingHash s.db (some r.userID) next legacyHashBatchSize
            { s with phase := .hashing (some i) next books [] }
      | _ => none
  | .hash content =>
      match s.phase with
      | .hashing client next (book :: books) hashes =>
          if s.stopped then some (s.finish client false next)
          else
            let hashed := content.map fun c => { book with contentHash := hash c }
            some { s with phase := .hashing client next books (hashes ++ hashed.toList) }
      | _ => none
  | .commit ok =>
      match s.phase with
      | .hashing client next [] hashes =>
          match
            if ok ∨ hashes = [] then backfillBookContentHashes hashes s.db else .error .missingBucket
          with
          | .ok tx => some ({ s with db := tx }.finish client true next)
          | .error _ => some (s.finish client false next)
      | _ => none

/-- The other transactions are as their callers make them. -/
def Allowed (s : LegacyHashBackfill) : BackfillAction → Prop
  | .edit op => op.Admissible s.db
  | _ => True

/-- A worker that has just been started on a library. -/
def Started (s : LegacyHashBackfill) : Prop :=
  Storage.Reached s.db ∧ s.stopped = false ∧ s.requests = [] ∧ s.cursor = [] ∧ s.phase = .selecting

abbrev Reached (hash : Bytes → Bytes) (s : LegacyHashBackfill) : Prop :=
  Reachable Started (Steps (step hash) Allowed) s

/-- The book is there, with this owner and this file name. -/
def stays (u id f : Bytes) (s : LegacyHashBackfill) : Bool :=
  (s.db.books.get id).any fun b => b.userID = u && b.filename = f

/-- The step is not a failed attempt to hash the file of the book. -/
def readable (id : Bytes) (s : LegacyHashBackfill) : BackfillAction → Bool
  | .hash none =>
      match s.phase with
      | .hashing _ _ (book :: _) _ => book.id ≠ id
      | _ => true
  | _ => true

/-- The step is not a save that drops the stored hash of the book. -/
def careful (id : Bytes) (s : LegacyHashBackfill) : BackfillAction → Bool
  | .edit op => !op.dropsHash s.db id
  | _ => true

end LegacyHashBackfill

end ZReader.Handlers.LegacyHashes
