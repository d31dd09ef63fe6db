import ZReader.Storage.Runs

namespace ZReader.Handlers

open Lib.Utf8 Lib.Strings Storage

/-! ## Request data -/

/-- A JSON field that may be absent, null or a text. -/
structure OptionalString where
  set : Bool
  value : Option Bytes
  deriving DecidableEq, Repr

def OptionalString.absent : OptionalString := ⟨false, none⟩

structure BookUpdateRequest where
  title : OptionalString
  author : OptionalString
  category : OptionalString
  deriving DecidableEq, Repr

structure BatchBookCategoryRequest where
  ids : List Bytes
  category : OptionalString

structure BookProcessingJob where
  bookID : Bytes
  userID : Bytes
  initialTitle : Bytes

/-- An image found in a book file, whether it could be written to the upload
directory, and whether a thumbnail of it was made. -/
structure CoverFile where
  contentType : Bytes
  written : Bool
  thumbnail : Bool

/-- What the extraction of a preview yields when it succeeds. -/
structure Preview where
  title : Bytes
  author : Bytes
  cover : Option CoverFile

def maxBookTitleRunes : Nat := 500
def maxBookAuthorRunes : Nat := 500
def maxBookCategoryRunes : Nat := 50
def maxBatchBookIDs : Nat := 500

/-- `len([]rune(s))`. -/
def runeCount (s : Bytes) : Nat := (runes s).length

def normalizeBookCategory (value : Option Bytes) : Option Bytes := normalizeCategoryName value

def normalizeBookIDs (ids : List Bytes) : List Bytes := uniqueNonEmptyStrings ids

/-- `filepath.Ext`: the last element of the path from its final dot on. -/
def ext (path : Bytes) : Bytes :=
  let base := path.reverse.takeWhile (· ≠ 47)
  let tail := base.takeWhile (· ≠ 46)
  if tail.length < base.length then 46 :: tail.reverse else []

def supportedBookFormats (ext : Bytes) : Bytes :=
  if ext = ascii ".epub" then ascii "epub"
  else if ext = ascii ".mobi" then ascii "mobi"
  else if ext = ascii ".azw3" then ascii "azw3"
  else if ext = ascii ".pdf" then ascii "pdf"
  else []

def normalizeBookFormat (format filename : Bytes) : Bytes :=
  if format ≠ [] then format else supportedBookFormats (toLower (ext filename))

/-! ## The records that handlers save -/

/-- The fields of a book that different requests set. -/
inductive Field
  | title
  | author
  | category
  | coverPath
  | lastReadAt
  deriving DecidableEq, Repr

instance : Fintype Field where
  elems := {.title, .author, .category, .coverPath, .lastReadAt}
  complete := by intro f; cases f <;> decide

/-- Two records have the same value of a field; a category counts as it is read. -/
def Field.Agrees (b b' : Book) : Field → Prop
  | .title => b.title = b'.title
  | .author => b.author = b'.author
  | .category => categoryForBook b = categoryForBook b'
  | .coverPath => b.coverPath = b'.coverPath
  | .lastReadAt => b.lastReadAt = b'.lastReadAt

instance (b b' : Book) : (f : Field) → Decidable (f.Agrees b b')
  | .title | .author | .category | .coverPath | .lastReadAt => inferInstanceAs (Decidable (_ = _))

def withFormat (book : Book) : Book :=
  { book with format := normalizeBookFormat book.format book.filename }

/-- A text field of the request: the record with it, unless the text is too long. -/
def setText (field : OptionalString) (limit : Nat) (assign : Bytes → Book) (book : Book) :
    Option Book :=
  match field.set, field.value with
  | true, some value =>
      if runeCount (trimSpace value) > limit then none else some (assign (trimSpace value))
  | _, _ => some book

def setTitle (req : BookUpdateRequest) (book : Book) : Option Book :=
  setText req.title maxBookTitleRunes (fun title => { book with title := title }) book

def setAuthor (req : BookUpdateRequest) (book : Book) : Option Book :=
  setText req.author maxBookAuthorRunes (fun author => { book with author := author }) book

def setCategory (req : BookUpdateRequest) (book : Book) : Option Book :=
  if req.category.set then
    let category := normalizeBookCategory req.category.value
    if category.any (fun c => runeCount c > maxBookCategoryRunes) then none
    else some { book with category := category }
  else some book

/-- The record that `Update` saves; none when the request is rejected. -/
def updatedBook (req : BookUpdateRequest) (book : Book) : Option Book := do
  let book ← setTitle req book
  let book ← setAuthor req book
  let book ← setCategory req book
  return withFormat book

def BookUpdateRequest.sets (req : BookUpdateRequest) : List Field :=
  (if req.title.set ∧ req.title.value.isSome then [.title] else []) ++
    (if req.author.set ∧ req.author.value.isSome then [.author] else []) ++
    (if req.category.set then [.category] else [])

def coverExtension (contentType : Bytes) : Bytes :=
  if contentType = ascii "image/png" then ascii ".png"
  else if contentType = ascii "image/webp" then ascii ".webp"
  else if contentType = ascii "image/gif" then ascii ".gif"
  else ascii ".jpg"

def writeExtractedCover (bookID : Bytes) (cover : CoverFile) : Option Bytes :=
  if cover.written then some (bookID ++ ascii ".cover" ++ coverExtension cover.contentType) else none

def attachCoverThumbnail (thumbnail : Bool) (book : Book) : Book :=
  if book.coverPath = [] ∨ ¬ thumbnail then book
  else { book with coverThumbPath := book.id ++ ascii ".cover.thumb.jpg" }

/-- The record that `cacheExtractedCover` saves; none when the image was not written. -/
def cacheExtractedCover (cover : CoverFile) (book : Book) : Option Book :=
  (writeExtractedCover book.id cover).map (fun coverFilename =>
    withFormat (attachCoverThumbnail cover.thumbnail
      { book with coverPath := coverFilename, coverThumbPath := [] }))

/-- What `GetCover` goes on to save for the record it has read, and the fields it sets. -/
def coverToSave (thumbnailRequested thumbnail : Bool) (cover : Option CoverFile) (book : Book) :
    Option (Book × List Field) :=
  let book := withFormat book
  if thumbnailRequested ∧ book.coverThumbPath = [] ∧ book.coverPath ≠ [] then
    let book := attachCoverThumbnail thumbnail book
    if book.coverThumbPath ≠ [] then some (book, []) else none
  else if thumbnailRequested ∧ book.coverThumbPath ≠ [] then none
  else if book.coverPath ≠ [] then none
  else if book.format ≠ ascii "epub" then none
  else (cover.bind (cacheExtractedCover · book)).map (·, [.coverPath])

def previewTitle (job : BookProcessingJob) (preview : Preview) (book : Book) : Book × List Field :=
  if preview.title ≠ [] ∧ book.title = job.initialTitle then
    ({ book with title := preview.title }, [.title])
  else (book, [])

def previewAuthor (preview : Preview) (book : Book) : Book × List Field :=
  if preview.author ≠ [] ∧ book.author = [] then ({ book with author := preview.author }, [.author])
  else (book, [])

def previewCover (preview : Preview) (book : Book) : Book × List Field :=
  match preview.cover with
  | none => (book, [])
  | some cover =>
      if book.coverPath ≠ [] then (book, [])
      else
        match writeExtractedCover book.id cover with
        | none => (book, [])
        | some coverFilename =>
            (attachCoverThumbnail cover.thumbnail { book with coverPath := coverFilename }, [.coverPath])

/-- The record that `processBookPreview` saves for a refreshed one, and the fields it sets. -/
def previewedBook (job : BookProcessingJob) (preview : Preview) (book : Book) : Book × List Field :=
  let (book, title) := previewTitle job preview book
  let (book, author) := previewAuthor preview book
  let (book, cover) := previewCover preview book
  (withFormat { book with processingState := .ready }, title ++ author ++ cover)

def failedBook (book : Book) : Book := { book with processingState := .failed }

/-! ## Requests as sequences of transactions -/

/-- A request or job between two of its transactions. Outcomes of file access and
extraction are part of the request; they do not depend on the database. -/
inductive Task
  | update (id userID : Bytes) (req : BookUpdateRequest)
  | delete (id userID : Bytes)
  | deleteData (id userID : Bytes)
  | batchUpdateCategory (req : BatchBookCategoryRequest) (userID : Bytes)
  | getCover (id userID : Bytes) (thumbnailRequested thumbnail : Bool) (cover : Option CoverFile)
  | saveProgress (progress : Progress) (userID : Bytes) (expected : Option Time)
  | processBookPreview (job : BookProcessingJob) (preview : Option Preview)
  | refreshPreview (job : BookProcessingJob) (preview : Preview)
  | saveBook (base book : Book) (sets : List Field)

/-- The state after one transaction of a task, the rest of the task, and the book
whose deletion it committed. -/
structure Outcome where
  db : Tx
  next : Option Task
  deleted : Option Bytes

def Outcome.view (db : Tx) (next : Option Task) : Outcome := ⟨db, next, none⟩

def Task.run (db : Tx) : Task → Outcome
  | .update id userID req => .view db <|
      (getBookForUser db id userID).bind fun book =>
        (updatedBook req book).map fun updated => .saveBook book updated req.sets
  | .delete id userID => .view db <|
      (getBookForUser db id userID).map fun _ => .deleteData id userID
  | .deleteData id userID =>
      match Storage.deleteBookData id userID db with
      | .ok tx => ⟨tx, none, some id⟩
      | .error _ => .view db none
  | .batchUpdateCategory req userID =>
      let ids := normalizeBookIDs req.ids
      let category := normalizeBookCategory req.category.value
      if ids = [] ∨ ids.length > maxBatchBookIDs ∨ ¬ req.category.set ∨
          category.any (fun c => runeCount c > maxBookCategoryRunes) then .view db none
      else ⟨(Op.updateBooksCategory ids userID category).run db, none, none⟩
  | .getCover id userID thumbnailRequested thumbnail cover => .view db <|
      (getBookForUser db id userID).bind fun book =>
        (coverToSave thumbnailRequested thumbnail cover book).map fun (saved, sets) =>
          .saveBook book saved sets
  | .saveProgress progress userID expected =>
      ⟨(Op.saveProgressIfCurrent progress userID expected).run db, none, none⟩
  | .processBookPreview job preview => .view db <|
      (getBookForUser db job.bookID job.userID).bind fun book =>
        if book.processingState ≠ .pending then none
        else
          match preview with
          | none => some (.saveBook book (failedBook book) [])
          | some preview => some (.refreshPreview job preview)
  | .refreshPreview job preview => .view db <|
      (getBookForUser db job.bookID job.userID).bind fun book =>
        if book.processingState ≠ .pending then none
        else
          let (saved, sets) := previewedBook job preview book
          some (.saveBook book saved sets)
  | .saveBook _ book _ => ⟨(Op.saveBook book).run db, none, none⟩

/-- The tasks that a client or the upload handler starts; `currentUserID` rejects
a blank user. -/
def Task.fresh : Task → Bool
  | .update _ userID _ | .delete _ userID | .batchUpdateCategory _ userID
  | .getCover _ userID _ _ _ | .saveProgress _ userID _ => userID ≠ []
  | .processBookPreview _ _ => true
  | .deleteData _ _ | .refreshPreview _ _ | .saveBook _ _ _ => false

/-- The input of the task sets the field in its next transaction. -/
def Task.Sets (f : Field) : Task → Prop
  | .batchUpdateCategory _ _ => f = .category
  | .saveProgress _ _ _ => f = .lastReadAt
  | .saveBook _ _ sets => f ∈ sets
  | _ => False

instance (f : Field) : (task : Task) → Decidable (task.Sets f)
  | .batchUpdateCategory _ _ => inferInstanceAs (Decidable (f = .category))
  | .saveProgress _ _ _ => inferInstanceAs (Decidable (f = .lastReadAt))
  | .saveBook _ _ sets => inferInstanceAs (Decidable (f ∈ sets))
  | .update _ _ _ | .delete _ _ | .deleteData _ _ | .getCover _ _ _ _ _ | .processBookPreview _ _
  | .refreshPreview _ _ => isFalse id

/-! ## The server -/

structure Server where
  db : Tx
  tasks : List Task
  /-- The books whose deletion has committed. -/
  deleted : List Bytes

inductive Action
  | accept (task : Task)
  | run (i : Nat)

def Server.step (s : Server) : Action → Option Server
  | .accept task => if task.fresh then some { s with tasks := s.tasks ++ [task] } else none
  | .run i =>
      (s.tasks[i]?).map fun task =>
        let outcome := task.run s.db
        { db := outcome.db
          tasks := s.tasks.eraseIdx i ++ outcome.next.toList
          deleted := s.deleted ++ outcome.deleted.toList }

end ZReader.Handlers
