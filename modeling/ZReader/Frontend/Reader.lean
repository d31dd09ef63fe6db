import ZReader.Frontend.OfflineQueue
import ZReader.Handlers.Progress

namespace ZReader.Frontend

open Lib.Utf8 Storage Handlers

/-! ## The state of `useProgress` -/

/-- The reader page of one book, opened by a signed-in user. -/
structure Page where
  bookID : Bytes
  userID : Bytes
  deviceID : Bytes
  signedIn : userID ≠ []

/-- A reading position. The serial number is its place in the order in which the page
recorded the positions; those from before the page was opened have number zero. -/
structure Position where
  cfi : Bytes
  percentage : ℚ
  serial : Nat
  deriving DecidableEq

/-- The content of `lastSavedRef`. -/
structure SavedPosition where
  position : Position
  updatedAt : Time
  deriving DecidableEq

/-- What `getProgress` answers, with the serial number of the stored position. -/
inductive LoadReply
  | loaded (latest : Option (Progress × Nat))
  | status (code : Nat)

/-- A request in flight; it has a reply once the server has processed it. -/
inductive Call
  | save (data : Position) (expectedUpdatedAt : Option Time) (reply : Option SaveReply)
  /-- The `getProgress` call that follows a conflict. -/
  | latest (reply : Option LoadReply)
  | sync (run : SyncRun) (reply : Option SaveReply)

structure Reader where
  store : LocalStorage
  progress : Option Position
  lastSaved : Option SavedPosition
  pending : Option Position
  saving : Bool
  /-- What the debounce timer will save. -/
  timer : Option Position
  /-- The `getProgress` call of `loadProgress` until it is answered, with its reply once the
  server has processed it. -/
  loading : Option (Option LoadReply)
  calls : List Call
  db : Tx
  /-- The number of positions recorded so far. -/
  recorded : Nat
  /-- The serial number of the position on the server. -/
  stored : Nat
  /-- A save has been lost before it reached the server, or the page was opened on a backup of
  an earlier one and has not loaded a position since the backup is gone. -/
  lost : Bool
  /-- The server has answered a save with a conflict. -/
  conflicted : Bool

namespace Reader

def applyLoadedProgress (s : Reader) (data : SavedPosition) : Reader :=
  if data.position.cfi = [] then s
  else { s with progress := some data.position, lastSaved := some data }

/-- A backup as it is read from the local storage. -/
def ofSnapshot (cached : OfflineSnapshot) : SavedPosition :=
  ⟨⟨cached.cfi, cached.percentage, cached.serial⟩, cached.updatedAt⟩

def ofProgress (data : Progress) (serial : Nat) : SavedPosition :=
  ⟨⟨data.cfi, data.percentage, serial⟩, data.updatedAt⟩

def readOfflineProgressSnapshot (store : LocalStorage) (id : Bytes) : Option SavedPosition :=
  ((store.snapshots id).map ofSnapshot).filter fun cached => cached.position.cfi ≠ []

/-- The page shows the backup of the book, if there is one, and asks the server. -/
def opened (page : Page) (store : LocalStorage) (db : Tx) : Reader :=
  { store := store
    progress := (readOfflineProgressSnapshot store page.bookID).map (·.position)
    lastSaved := readOfflineProgressSnapshot store page.bookID
    pending := none
    saving := false
    timer := none
    loading := some none
    calls := []
    db := db
    recorded := 0
    stored := 0
    lost := (store.snapshots page.bookID).isSome
    conflicted := false }

/-! ## Loading -/

def applyCached (page : Page) (s : Reader) : Reader :=
  match s.store.snapshots page.bookID with
  | none => s
  | some cached => s.applyLoadedProgress (ofSnapshot cached)

def applyLatest (s : Reader) : Option (Progress × Nat) → Reader
  | none => s
  | some (data, serial) => s.applyLoadedProgress (ofProgress data serial)

/-- `Date.parse` of a time, in whole milliseconds. -/
def milliseconds (t : Time) : Int := t.nanos / 10 ^ 6

/-- The backup is newer than what the server has answered. -/
def cachedIsNewer (page : Page) (s : Reader) (latest : Option (Progress × Nat)) : Bool :=
  let remoteTime := (latest.map fun data => milliseconds data.1.updatedAt).getD 0
  (s.store.snapshots page.bookID).any fun cached => remoteTime < milliseconds cached.updatedAt

/-- The rest of `loadProgress` after its answer, or after its failure. -/
def loaded (page : Page) (s : Reader) : Option LoadReply → Reader
  | some (.loaded latest) =>
      let t := s.applyLatest latest
      let u := if s.cachedIsNewer page latest then t.applyCached page else t
      { u with
        loading := none
        lost := s.lost && !(latest.any (fun data => data.1.cfi ≠ []) &&
          (s.store.snapshots page.bookID).isNone) }
  | some (.status _) | none => { s.applyCached page with loading := none }

/-! ## Saving -/

def hasMeaningfulChange (s : Reader) (data : Position) : Bool :=
  match s.lastSaved with
  | none => true
  | some lastSaved =>
      data.cfi ≠ lastSaved.position.cfi ∨ 1 ≤ |data.percentage - lastSaved.position.percentage|

/-- A forced save ignores both the save in flight and the limit of one per cent. -/
def skips (s : Reader) (data : Position) (force : Bool) : Bool :=
  !force && (s.saving || !s.hasMeaningfulChange data)

def saveProgress (s : Reader) (data : Position) (force : Bool) : Reader :=
  if s.skips data force then s
  else { s with
    saving := true
    calls := s.calls ++ [.save data (s.lastSaved.map (·.updatedAt)) none] }

def clearPending (s : Reader) (data : Position) : Reader :=
  { s with
    pending := s.pending.filter (fun p => ¬ (p.cfi = data.cfi ∧ p.percentage = data.percentage)) }

/-- The offline fallback of a save that failed without an answer. -/
def fallBack (page : Page) (s : Reader) (data : Position) (now : Time) : Reader :=
  let offlineSnapshot : OfflineSnapshot :=
    { cfi := data.cfi
      percentage := data.percentage
      updatedAt := now
      deviceID := page.deviceID
      serial := data.serial
      account := page.userID }
  clearPending { s with
    store := s.store.backUp page.bookID offlineSnapshot
    lastSaved := some ⟨data, now⟩
    progress := some data
    saving := false
    lost := true } data

def startSync (page : Page) (s : Reader) : Reader :=
  match s.store.queue with
  | none | some [] => s
  | some queue =>
      let (run, store) := advance s.store page.userID queue queue
      { s with store := store, calls := s.calls ++ run.toList.map (.sync · none) }

/-- An answered backup is removed, and the run goes on. -/
def continueSync (page : Page) (s : Reader) (run : SyncRun) : Reader :=
  let (next, store) :=
    advance (s.store.removeSnapshot run.id) page.userID run.rest (run.nextQueue.erase run.id)
  { s with store := store, calls := s.calls ++ next.toList.map (.sync · none) }

/-! ## What happens to a request -/

/-- The server processes a save of the position with a serial number. -/
def commit (page : Page) (s : Reader) (id : Bytes) (serial : Nat) (req : ProgressRequest)
    (now : Time) : Reader × SaveReply :=
  match Handlers.saveProgress id page.userID req now s.db with
  | (db, .saved p) =>
      ({ s with db := db, stored := if id = page.bookID then serial else s.stored }, .saved p)
  | (db, .status code) =>
      ({ s with db := db, conflicted := s.conflicted || code = 409 }, .status code)

def getProgress (page : Page) (s : Reader) : LoadReply :=
  match getBookForUser s.db page.bookID page.userID with
  | none => .status 404
  | some _ =>
      .loaded ((s.db.progress.get (progressKey page.userID page.bookID)).map (·, s.stored))

/-- The server processes a request that has been taken off the list of calls. -/
def process (page : Page) (s : Reader) (now : Time) : Call → Option Reader
  | .save data expected none =>
      let (t, reply) := s.commit page page.bookID data.serial
        ⟨data.cfi, data.percentage, page.deviceID, expected⟩ now
      some { t with calls := s.calls ++ [.save data expected (some reply)] }
  | .latest none => some { s with calls := s.calls ++ [.latest (some (s.getProgress page))] }
  | .sync run none =>
      let (t, reply) := s.commit page run.id run.cached.serial
        ⟨run.cached.cfi, run.cached.percentage, run.cached.deviceID, none⟩ now
      some { t with calls := s.calls ++ [.sync run (some reply)] }
  | _ => none

/-- A request that the server has not processed is lost. -/
def lose (page : Page) (s : Reader) (now : Time) : Call → Option Reader
  | .save data _ none => some (s.fallBack page data now)
  | .latest none => some { s with saving := false }
  | .sync run none => some { s with store := s.store.setQueue run.nextQueue }
  | _ => none

def answered (page : Page) (s : Reader) : Call → Option Reader
  | .save data _ (some (.saved p)) =>
      let position := ⟨p.cfi, p.percentage, data.serial⟩
      some (clearPending { s with
        lastSaved := some ⟨position, p.updatedAt⟩
        progress := some position
        saving := false } data)
  | .save _ _ (some (.status code)) =>
      if code = 409 then some { s with calls := s.calls ++ [.latest none] }
      else some { s with saving := false }
  | .latest (some (.loaded latest)) =>
      some { s.applyLatest latest with pending := none, saving := false }
  | .latest (some (.status _)) => some { s with saving := false }
  | .sync run (some _) => some (s.continueSync page run)
  | _ => none

/-! ## Steps -/

inductive Action
  | updateProgress (cfi : Bytes) (percentage : ℚ)
  /-- The interval finds something to save and starts the debounce timer. -/
  | interval
  | debounced
  /-- The page is hidden. -/
  | hidden
  | saveNow
  | syncOfflineProgressQueue
  | process (i : Nat) (now : Time)
  | lose (i : Nat) (now : Time)
  | answer (i : Nat)
  | processLoad
  | loseLoad
  | answerLoad

def updateProgress (s : Reader) (cfi : Bytes) (percentage : ℚ) : Reader :=
  let position := ⟨cfi, percentage, s.recorded + 1⟩
  { s with progress := some position, pending := some position, recorded := s.recorded + 1 }

/-- A forced save of what is pending. -/
def savePending (s : Reader) : Reader :=
  match s.pending with
  | none => s
  | some data => s.saveProgress data true

def step (page : Page) (s : Reader) : Action → Option Reader
  | .updateProgress cfi percentage => some (s.updateProgress cfi percentage)
  | .interval =>
      if s.pending.isSome ∧ ¬ s.saving then some { s with timer := s.pending } else some s
  | .debounced =>
      s.timer.map fun data => { s with timer := none }.saveProgress data false
  | .hidden => some s.savePending
  | .saveNow => some { s with timer := none }.savePending
  | .syncOfflineProgressQueue => some (s.startSync page)
  | .process i now =>
      (s.calls[i]?).bind ({ s with calls := s.calls.eraseIdx i }.process page now)
  | .lose i now => (s.calls[i]?).bind ({ s with calls := s.calls.eraseIdx i }.lose page now)
  | .answer i => (s.calls[i]?).bind ({ s with calls := s.calls.eraseIdx i }.answered page)
  | .processLoad =>
      match s.loading with
      | some none => some { s with loading := some (some (s.getProgress page)) }
      | _ => none
  | .loseLoad =>
      match s.loading with
      | some none => some (s.loaded page none)
      | _ => none
  | .answerLoad =>
      match s.loading with
      | some (some reply) => some (s.loaded page (some reply))
      | _ => none

end Reader

end ZReader.Frontend
