import ZReader.Handlers.BookRuns
import ZReader.Handlers.Uploads
import ZReader.Storage.RecordEdits

namespace ZReader.Handlers.Processing

open Lib.Utf8 Lib.Strings Lib.KeyValue Lib.Transition Storage

def bookProcessingWorkers : Nat := 2
def bookProcessingQueueSize : Nat := 32

/-- What `enqueueBookProcessing` puts into the queue for a book. -/
def jobFor (book : Book) : BookProcessingJob := ⟨book.id, book.userID, book.title⟩

def Serves (job : BookProcessingJob) (book : Book) : Prop :=
  job.bookID = book.id ∧ job.userID = book.userID

instance (job : BookProcessingJob) (book : Book) : Decidable (Serves job book) :=
  inferInstanceAs (Decidable (_ ∧ _))

/-! ## The server -/

structure Server where
  db : Tx
  /-- Requests that edit or delete books, between their transactions. -/
  requests : List Task
  /-- The books of uploads that have been created and not been enqueued yet. -/
  uploads : List Book
  jobs : List BookProcessingJob
  /-- The jobs that workers have taken, each with what is to be done next. -/
  workers : List (BookProcessingJob × Task)

/-- The jobs that have been or will be accepted, and are not finished. -/
def Server.outstanding (s : Server) : List BookProcessingJob :=
  s.uploads.map jobFor ++ (s.jobs ++ s.workers.map Prod.fst)

inductive Action
  /-- `CreateBook`, as the last transaction of an upload. -/
  | upload (r : Uploads.Request)
  | enqueue (i : Nat)
  | request (task : Task)
  | run (i : Nat)
  /-- A transaction of another request, or of the maintenance at the start. -/
  | other (op : Op)
  /-- A worker receives a job, whose extraction will yield the preview or fail. -/
  | take (preview : Option Preview)
  | work (i : Nat)
  /-- A database call of a worker fails. -/
  | abandon (i : Nat)
  /-- The process ends and a new one starts on the same database. -/
  | restart

/-- The tasks that clients start. -/
def requested (task : Task) : Bool :=
  task.fresh && match task with
    | .processBookPreview _ _ => false
    | _ => true

/-- A generated identifier is not in use, neither for a record nor for a job. -/
def Server.Fresh (s : Server) (r : Uploads.Request) : Prop :=
  WellFormedID r.id ∧ r.userID ≠ [] ∧ s.db.books.get r.id = none ∧
    ∀ job ∈ s.outstanding, job.bookID ≠ r.id

instance (s : Server) (r : Uploads.Request) : Decidable (s.Fresh r) :=
  inferInstanceAs (Decidable (_ ∧ _))

instance (db : Tx) : (op : Op) → Decidable (op.Admissible db)
  | .saveBook book => inferInstanceAs (Decidable (WellFormedID book.id))
  | .createBook book => inferInstanceAs (Decidable (WellFormedID book.id ∧ db.books.get book.id = none))
  | .saveProgressIfCurrent _ userID _ => inferInstanceAs (Decidable (userID ≠ []))
  | .deleteBookData _ _ | .deleteBooksData _ _ _ | .updateBooksCategory _ _ _
  | .renameBookCategory _ _ _ | .normalizeBookCategories | .backfillBookContentHashes _
  | .assignUnownedDataToUser _ | .deleteUserData _ | .purgeUser _ | .deleteProgress _ _
  | .saveUser _ | .deleteUser _ | .saveBookmark _ _ | .deleteBookmark _ _ _ => isTrue trivial

def Server.create (hash : Bytes → Bytes) (s : Server) (r : Uploads.Request) : Server :=
  match createBook (r.book hash) s.db with
  | .error _ => s
  | .ok tx =>
      { s with
        db := tx
        uploads := s.uploads ++ (if r.format = ascii "epub" then [r.book hash] else []) }

def Server.step (hash : Bytes → Bytes) (s : Server) : Action → Option Server
  | .upload r => if s.Fresh r then some (s.create hash r) else none
  | .enqueue i =>
      if s.jobs.length < bookProcessingQueueSize then
        (s.uploads[i]?).map fun book =>
          { s with uploads := s.uploads.eraseIdx i, jobs := s.jobs ++ [jobFor book] }
      else none
  | .request task =>
      if requested task then some { s with requests := s.requests ++ [task] } else none
  | .run i =>
      (s.requests[i]?).map fun task =>
        let outcome := task.run s.db
        { s with
          db := outcome.db
          requests := s.requests.eraseIdx i ++ outcome.next.toList }
  | .other op =>
      if op.puts = false ∧ op.Admissible s.db then some { s with db := op.run s.db } else none
  | .take preview =>
      if s.workers.length < bookProcessingWorkers then
        s.jobs.head?.map fun job =>
          { s with
            jobs := s.jobs.tail
            workers := s.workers ++ [(job, .processBookPreview job preview)] }
      else none
  | .work i =>
      (s.workers[i]?).map fun (job, task) =>
        let outcome := task.run s.db
        { s with
          db := outcome.db
          workers := s.workers.eraseIdx i ++ outcome.next.toList.map (job, ·) }
  | .abandon i =>
      (s.workers[i]?).map fun _ => { s with workers := s.workers.eraseIdx i }
  | .restart => some ⟨s.db, [], [], [], []⟩

/-! ## Pending books -/

/-- The book of a job is still pending. -/
def Needed (db : Tx) (job : BookProcessingJob) : Bool :=
  (db.books.get job.bookID).any fun book =>
    book.processingState = .pending ∧ book.userID = job.userID

/-- Every pending book has a job among the given ones. -/
def CoveredBy (db : Tx) (jobs : List BookProcessingJob) : Prop :=
  ∀ id book, db.books.get id = some book → book.processingState = .pending →
    ∃ job ∈ jobs, Serves job book

def Server.Covered (s : Server) : Prop := CoveredBy s.db s.outstanding

/-- A save takes effect. -/
def Saves (db : Tx) (book : Book) : Bool := (saveBook book db).toOption.isSome

/-- The steps that leave no book behind: a request writes a record back as pending only while its
job is outstanding, and the job of a pending book is lost neither by an error of the database
nor with the process. -/
def Server.Smooth (s : Server) : Action → Prop
  | .run i =>
      match s.requests[i]? with
      | some (.saveBook _ book _) =>
          book.processingState = .pending → Saves s.db book →
            ∃ job ∈ s.outstanding, Serves job book
      | _ => True
  | .work i =>
      match s.workers[i]? with
      | some (job, .saveBook _ book _) => Needed s.db job → Saves s.db book
      | _ => True
  | .abandon i => ∀ w ∈ s.workers[i]?, ¬ Needed s.db w.1
  | .restart => ∀ job ∈ s.outstanding, ¬ Needed s.db job
  | .upload _ | .enqueue _ | .request _ | .other _ | .take _ => True

instance (s : Server) : (a : Action) → Decidable (s.Smooth a)
  | .run i =>
      match h : s.requests[i]? with
      | some (.saveBook _ book _) =>
          decidable_of_iff (book.processingState = .pending → Saves s.db book →
            ∃ job ∈ s.outstanding, Serves job book) (by rw [Server.Smooth, h])
      | none => isTrue (by rw [Server.Smooth, h]; trivial)
      | some (.update _ _ _) | some (.delete _ _) | some (.deleteData _ _)
      | some (.batchUpdateCategory _ _) | some (.getCover _ _ _ _ _) | some (.saveProgress _ _ _)
      | some (.processBookPreview _ _) | some (.refreshPreview _ _) =>
          isTrue (by rw [Server.Smooth, h]; trivial)
  | .work i =>
      match h : s.workers[i]? with
      | some (job, .saveBook _ book _) =>
          decidable_of_iff (Needed s.db job → Saves s.db book) (by rw [Server.Smooth, h])
      | none => isTrue (by rw [Server.Smooth, h]; trivial)
      | some (_, .update _ _ _) | some (_, .delete _ _) | some (_, .deleteData _ _)
      | some (_, .batchUpdateCategory _ _) | some (_, .getCover _ _ _ _ _)
      | some (_, .saveProgress _ _ _) | some (_, .processBookPreview _ _)
      | some (_, .refreshPreview _ _) => isTrue (by rw [Server.Smooth, h]; trivial)
  | .abandon i => inferInstanceAs (Decidable (∀ w ∈ s.workers[i]?, ¬ Needed s.db w.1))
  | .restart => inferInstanceAs (Decidable (∀ job ∈ s.outstanding, ¬ Needed s.db job))
  | .upload _ | .enqueue _ | .request _ | .other _ | .take _ => isTrue trivial

/-- A server on a library without pending books, before its first request. -/
def Server.Started (s : Server) : Prop :=
  Reached s.db ∧ (∀ id book, s.db.books.get id = some book → book.processingState ≠ .pending) ∧
    s.requests = [] ∧ s.outstanding = []

/-! ## Closing -/

/-- The steps that workers take by themselves. -/
def Action.working : Action → Bool
  | .take _ | .work _ => true
  | _ => false

/-- The transactions that a worker's task still takes at most. -/
def stepsLeft : Task → Nat
  | .processBookPreview _ _ => 3
  | .refreshPreview _ _ => 2
  | _ => 1

def Server.remaining (s : Server) : Nat :=
  4 * s.jobs.length + (s.workers.map fun w => stepsLeft w.2).sum

end ZReader.Handlers.Processing
