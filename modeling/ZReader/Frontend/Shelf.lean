import Mathlib

namespace ZReader.Frontend.Shelf

/-! ## Books and libraries -/

/-- A book as the shelf keeps it. A category has been trimmed, and a blank one is none. -/
structure Book (I C : Type) where
  id : I
  category : Option C
  pending : Bool
  deriving DecidableEq

/-- What the server has for the user. -/
structure Library (I C : Type) where
  books : List (Book I C)
  nodup : (books.map Book.id).Nodup

section

variable {I C : Type} [DecidableEq I] [DecidableEq C]

namespace Library

def ids (library : Library I C) : List I := library.books.map Book.id

def find (library : Library I C) (id : I) : Option (Book I C) := library.books.find? (·.id = id)

def remove (library : Library I C) (ids : List I) : Library I C where
  books := library.books.filter (·.id ∉ ids)
  nodup := library.nodup.sublist (List.filter_sublist.map _)

def recategorize (library : Library I C) (f : Book I C → Option C) : Library I C where
  books := library.books.map fun book => { book with category := f book }
  nodup := by
    rw [List.map_map]
    exact library.nodup

def updateCategory (library : Library I C) (ids : List I) (category : Option C) : Library I C :=
  library.recategorize fun book => if book.id ∈ ids then category else book.category

def renameCategory (library : Library I C) (category : C) (nextCategory : Option C) : Library I C :=
  library.recategorize fun book => if book.category = some category then nextCategory else book.category

end Library

/-! ## Requests -/

inductive Kind (I C : Type)
  | load (generation : Nat)
  | more (isSearch : Bool) (loadGeneration searchGeneration : Nat)
  | search (generation : Nat)
  /-- A status poll of the effect with this number. -/
  | poll (effect : Nat)
  | delete (ids : List I)
  | updateCategory (ids : List I) (category : Option C)
  | rename (category : C) (nextCategory : Option C)

namespace Kind

def isPage : Kind I C → Bool
  | load _ | more _ _ _ | search _ => true
  | poll _ | delete _ | updateCategory _ _ | rename _ _ => false

end Kind

inductive Status
  | sent
  | answered
  | failed
  | done
  deriving DecidableEq

structure Request (I C : Type) where
  kind : Kind I C
  /-- Its `AbortController` has been told to abort. -/
  aborted : Bool
  /-- The parts of a status poll that are still to be asked for. -/
  batches : List (List I)
  /-- Which of the server's states a deletion or a change has led to. -/
  position : Option Nat
  /-- The answer: records, or for a deletion or a renaming identifiers. -/
  books : List (Book I C)
  ids : List I
  status : Status

/-- The records whose categories an answer brings. -/
def Request.carries (r : Request I C) : List (Book I C) :=
  match r.kind with
  | .rename _ nextCategory => r.ids.map fun id => ⟨id, nextCategory, false⟩
  | _ => r.books

def Request.new (kind : Kind I C) : Request I C := ⟨kind, false, [], none, [], [], .sent⟩

/-- An answer is still to come. -/
def Request.Open (r : Request I C) : Prop := r.status = .sent ∨ r.status = .answered

instance (r : Request I C) : Decidable r.Open := inferInstanceAs (Decidable (_ ∨ _))

def bookStatusBatchSize : Nat := 100

def batchesOf (size : Nat) : Nat → List I → List (List I)
  | 0, _ | _, [] => []
  | n + 1, ids => ids.take size :: batchesOf size n (ids.drop size)

/-- The requests of `getBooksStatus`, which are sent one after the other. -/
def statusBatches (ids : List I) : List (List I) := batchesOf bookStatusBatchSize ids.length ids

/-! ## The shelf -/

/-- The state of `useShelfData`, its requests, and the server. An `AbortController` is
given by the number of its request. -/
structure ShelfData (I C : Type) where
  books : List (Book I C)
  searchResults : Option (List (Book I C))
  loadGeneration : Nat
  searchGeneration : Nat
  loadingMore : Bool
  loadAbort : Option Nat
  moreAbort : Option Nat
  searchAbort : Option Nat
  /-- The generation of a search whose timer runs. -/
  searchTimer : Option Nat
  /-- The effect that polls, and what it asks for. -/
  pollEffect : Nat
  pollIDs : List I
  polling : Bool
  requests : List (Request I C)
  /-- The states of the server so far. -/
  past : List (Library I C)
  library : Library I C
  /-- The deletions and the changes of categories that have been applied, each with its
  position. -/
  deleted : List (Nat × List I)
  moved : List (Nat × List I)

namespace ShelfData

def history (s : ShelfData I C) : List (Library I C) := s.past ++ [s.library]

def abort (s : ShelfData I C) (controller : Option Nat) : ShelfData I C :=
  match controller with
  | none => s
  | some i => { s with requests := s.requests.modify i fun r => { r with aborted := true } }

def send (s : ShelfData I C) (kind : Kind I C) : ShelfData I C :=
  { s with requests := s.requests ++ [.new kind] }

def loadBooks (s : ShelfData I C) : ShelfData I C :=
  let s := (s.abort s.loadAbort).abort s.moreAbort
  { s.send (.load (s.loadGeneration + 1)) with
    loadAbort := some s.requests.length
    loadGeneration := s.loadGeneration + 1
    loadingMore := false }

def loadMoreBooks (s : ShelfData I C) (isSearch : Bool) : Option (ShelfData I C) :=
  if s.loadingMore then none
  else some { s.send (.more isSearch s.loadGeneration s.searchGeneration) with
    moreAbort := some s.requests.length
    loadingMore := true }

/-- What an effect that runs again undoes of its last run. -/
def cleanUpLoad (s : ShelfData I C) : ShelfData I C := (s.abort s.loadAbort).abort s.moreAbort

def logout (s : ShelfData I C) : ShelfData I C :=
  { (s.abort s.loadAbort).abort s.moreAbort with
    loadGeneration := s.loadGeneration + 1
    searchGeneration := s.searchGeneration + 1
    loadingMore := false
    searchResults := none
    books := [] }

def searchEffect (s : ShelfData I C) (hasQuery : Bool) : ShelfData I C :=
  let s := (s.abort s.searchAbort).abort s.moreAbort
  { s with
    searchGeneration := s.searchGeneration + 1
    loadingMore := false
    searchTimer := if hasQuery then some (s.searchGeneration + 1) else none
    searchResults := if hasQuery then s.searchResults else none }

def searchTimeout (s : ShelfData I C) : Option (ShelfData I C) :=
  s.searchTimer.map fun generation =>
    { s.send (.search generation) with
      searchTimer := none
      searchAbort := some s.requests.length }

/-- The books that are shown, in either list. -/
def shown (s : ShelfData I C) : List (Book I C) := s.books ++ s.searchResults.getD []

def runPollEffect (s : ShelfData I C) : ShelfData I C :=
  { s with
    pollEffect := s.pollEffect + 1
    pollIDs := ((s.shown.filter (·.pending)).map Book.id).dedup
    polling := false }

def refreshProcessedBooks (s : ShelfData I C) : Option (ShelfData I C) :=
  if s.polling ∨ s.pollIDs = [] then none
  else some { s with
    requests := s.requests ++ [{ Request.new (.poll s.pollEffect) with batches := statusBatches s.pollIDs }]
    polling := true }

def handleDelete (s : ShelfData I C) (id : I) : ShelfData I C := s.send (.delete [id])

def handleDeleteMany (s : ShelfData I C) (ids : List I) : Option (ShelfData I C) :=
  if ids.dedup = [] then none else some (s.send (.delete ids.dedup))

def handleUpdateCategoryMany (s : ShelfData I C) (ids : List I) (category : Option C) :
    Option (ShelfData I C) :=
  if ids.dedup = [] then none else some (s.send (.updateCategory ids.dedup category))

def handleRenameCategory (s : ShelfData I C) (category : C) (nextCategory : Option C) : ShelfData I C :=
  s.send (.rename category nextCategory)

/-! ### The server -/

def put (s : ShelfData I C) (i : Nat) (r : Request I C) : ShelfData I C :=
  { s with requests := s.requests.set i r }

/-- The server goes to its next state. -/
def commit (s : ShelfData I C) (library : Library I C) : ShelfData I C :=
  { s with past := s.past ++ [s.library], library := library }

/-- The server serves a request; a page is any selection of the books there are. -/
def serve (s : ShelfData I C) (i : Nat) (page : List I) (r : Request I C) : Option (ShelfData I C) :=
  if r.status ≠ .sent then none
  else
    let next := s.past.length + 1
    let fail := s.put i { r with status := .failed }
    match r.kind with
    | .load _ | .more _ _ _ | .search _ => some <|
        s.put i { r with books := page.filterMap s.library.find, status := .answered }
    | .poll _ =>
        match r.batches with
        | [] => none
        | ids :: batches => some <| s.put i { r with
            books := r.books ++ ids.filterMap s.library.find
            batches := batches
            status := if batches = [] then .answered else .sent }
    | .delete ids =>
        if ids ⊆ s.library.ids then some <|
          (s.commit (s.library.remove ids)).put i
            { r with position := some next, ids := ids, status := .answered }
        else some fail
    | .updateCategory ids category =>
        if ids ⊆ s.library.ids then
          let library := s.library.updateCategory ids category
          some <| (s.commit library).put i { r with
            position := some next, books := ids.filterMap library.find, status := .answered }
        else some fail
    | .rename category nextCategory => some <|
        (s.commit (s.library.renameCategory category nextCategory)).put i { r with
          position := some next
          ids := (s.library.books.filter (·.category = some category)).map Book.id
          status := .answered }

/-- The request fails, or its answer gets lost. -/
def lose (s : ShelfData I C) (i : Nat) (r : Request I C) : Option (ShelfData I C) :=
  if r.Open then some (s.put i { r with status := .failed })
  else none

/-- What other clients and the server itself do: no identifier is given to another book. -/
def others (s : ShelfData I C) (library : Library I C) : Option (ShelfData I C) :=
  if ∀ id ∈ library.ids, id ∈ s.library.ids ∨ ∀ l ∈ s.past, id ∉ l.ids then
    some (s.commit library)
  else none

/-! ### Answers -/

/-- The hook goes on with the answer of a request. -/
def Current (s : ShelfData I C) (r : Request I C) : Prop :=
  match r.kind with
  | .load generation => r.aborted = false ∧ generation = s.loadGeneration
  | .more _ loadGeneration searchGeneration => r.aborted = false ∧
      loadGeneration = s.loadGeneration ∧ searchGeneration = s.searchGeneration
  | .search generation => r.aborted = false ∧ generation = s.searchGeneration
  | .poll effect => effect = s.pollEffect
  | .delete _ | .updateCategory _ _ | .rename _ _ => True

instance (s : ShelfData I C) (r : Request I C) : Decidable (s.Current r) := by
  unfold Current
  split <;> infer_instance

/-- Sets the entry of a `Map` from identifiers. -/
def setBook (books : List (Book I C)) (book : Book I C) : List (Book I C) :=
  if book.id ∈ books.map Book.id then books.map fun b => if b.id = book.id then book else b
  else books ++ [book]

def mergeBooks (currentBooks page : List (Book I C)) : List (Book I C) :=
  (currentBooks ++ page).foldl setBook []

/-- `updatedByID.get(book.id) ?? book` for each book. -/
def replaceBooks (updated books : List (Book I C)) : List (Book I C) :=
  books.map fun book => (updated.reverse.find? (·.id = book.id)).getD book

/-- A change of both lists. -/
def edit (s : ShelfData I C) (f : List (Book I C) → List (Book I C)) : ShelfData I C :=
  { s with books := f s.books, searchResults := s.searchResults.map f }

def applyLoad (s : ShelfData I C) (r : Request I C) : ShelfData I C :=
  { s with books := if r.status = .failed then [] else r.books }

def applyMore (s : ShelfData I C) (isSearch : Bool) (r : Request I C) : ShelfData I C :=
  if r.status = .failed then s
  else if isSearch then { s with searchResults := some (mergeBooks (s.searchResults.getD []) r.books) }
  else { s with books := mergeBooks s.books r.books }

def applySearch (s : ShelfData I C) (r : Request I C) : ShelfData I C :=
  { s with searchResults := some (if r.status = .failed then [] else r.books) }

def applyPoll (s : ShelfData I C) (r : Request I C) : ShelfData I C :=
  let s := { s with polling := false }
  if r.status = .failed then s else s.edit (replaceBooks r.books)

def applyDelete (s : ShelfData I C) (r : Request I C) : ShelfData I C :=
  if r.status = .failed then s
  else { s.edit (·.filter (·.id ∉ r.ids)) with deleted := s.deleted ++ [(r.position.getD 0, r.ids)] }

def applyUpdateCategory (s : ShelfData I C) (r : Request I C) : ShelfData I C :=
  if r.status = .failed then s
  else { s.edit (replaceBooks r.books) with
    moved := s.moved ++ [(r.position.getD 0, r.books.map Book.id)] }

def applyRename (s : ShelfData I C) (nextCategory : Option C) (r : Request I C) : ShelfData I C :=
  if r.status = .failed then s
  else
    let s := { (s.abort s.loadAbort).abort s.moreAbort with
      loadGeneration := s.loadGeneration + 1
      searchGeneration := s.searchGeneration + 1 }
    { s.edit (·.map fun book =>
        if book.id ∈ r.ids then { book with category := nextCategory } else book) with
      moved := s.moved ++ [(r.position.getD 0, r.ids)] }

def applyAnswer (s : ShelfData I C) (r : Request I C) : ShelfData I C :=
  match r.kind with
  | .load _ => s.applyLoad r
  | .more isSearch _ _ => s.applyMore isSearch r
  | .search _ => s.applySearch r
  | .poll _ => s.applyPoll r
  | .delete _ => s.applyDelete r
  | .updateCategory _ _ => s.applyUpdateCategory r
  | .rename _ nextCategory => s.applyRename nextCategory r

/-- The `finally` of `loadMoreBooks`. -/
def finish (s : ShelfData I C) (i : Nat) (r : Request I C) : ShelfData I C :=
  match r.kind with
  | .more _ _ _ => if s.moreAbort = some i then { s with loadingMore := false } else s
  | _ => s

def answer (s : ShelfData I C) (i : Nat) (r : Request I C) : Option (ShelfData I C) :=
  if r.status = .answered ∨ r.status = .failed then
    let t := if s.Current r then s.applyAnswer r else s
    some ((t.put i { (t.requests[i]?).getD r with status := .done }).finish i r)
  else none

inductive Action (I C : Type)
  | loadBooks
  | loadMoreBooks (isSearch : Bool)
  | cleanUpLoad
  | logout
  | searchEffect (hasQuery : Bool)
  | searchTimeout
  | runPollEffect
  | refreshProcessedBooks
  | handleDelete (id : I)
  | handleDeleteMany (ids : List I)
  | handleUpdateCategoryMany (ids : List I) (category : Option C)
  | handleRenameCategory (category : C) (nextCategory : Option C)
  | serve (i : Nat) (page : List I)
  | lose (i : Nat)
  | others (library : Library I C)
  | answer (i : Nat)

def step (s : ShelfData I C) : Action I C → Option (ShelfData I C)
  | .loadBooks => some s.loadBooks
  | .loadMoreBooks isSearch => s.loadMoreBooks isSearch
  | .cleanUpLoad => some s.cleanUpLoad
  | .logout => some s.logout
  | .searchEffect hasQuery => some (s.searchEffect hasQuery)
  | .searchTimeout => s.searchTimeout
  | .runPollEffect => some s.runPollEffect
  | .refreshProcessedBooks => s.refreshProcessedBooks
  | .handleDelete id => some (s.handleDelete id)
  | .handleDeleteMany ids => s.handleDeleteMany ids
  | .handleUpdateCategoryMany ids category => s.handleUpdateCategoryMany ids category
  | .handleRenameCategory category nextCategory => some (s.handleRenameCategory category nextCategory)
  | .serve i page => (s.requests[i]?).bind (s.serve i page)
  | .lose i => (s.requests[i]?).bind (s.lose i)
  | .others library => s.others library
  | .answer i => (s.requests[i]?).bind (s.answer i)

end ShelfData

end

end ZReader.Frontend.Shelf
