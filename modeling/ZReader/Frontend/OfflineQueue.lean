import ZReader.Lib.Transition
import ZReader.Storage.Records

namespace ZReader.Frontend

open Lib.Utf8 Storage

/-! ## Local storage -/

/-- A progress backup as `saveProgress` writes it. The last two fields are not in the
stored text; they record which write it was and who was signed in then. -/
structure OfflineSnapshot where
  cfi : Bytes
  percentage : ℚ
  updatedAt : Time
  deviceID : Bytes
  serial : Nat
  account : Bytes
  deriving DecidableEq

/-- The entries `z-reader-offline-progress:<book>` and
`z-reader-offline-pending-sync-books`. -/
structure LocalStorage where
  snapshots : Bytes → Option OfflineSnapshot
  queue : Option (List Bytes)

namespace LocalStorage

def empty : LocalStorage := ⟨fun _ => none, none⟩

def removeSnapshot (store : LocalStorage) (id : Bytes) : LocalStorage :=
  { store with snapshots := Function.update store.snapshots id none }

def setQueue (store : LocalStorage) (queue : List Bytes) : LocalStorage :=
  { store with queue := some queue }

/-- The offline fallback: cache the snapshot, then queue the book unless it is queued. -/
def backUp (store : LocalStorage) (id : Bytes) (snapshot : OfflineSnapshot) : LocalStorage :=
  let queue := store.queue.getD []
  { snapshots := Function.update store.snapshots id (some snapshot)
    queue := if id ∈ queue then store.queue else some (queue ++ [id]) }

end LocalStorage

/-! ## Requests -/

/-- How a request ends for the client: with a result, with an `ApiError` of some
status, or with a network failure. -/
inductive Answer
  | ok
  | status (code : Nat)
  | network
  deriving DecidableEq

/-- The server has said that the save is invalid or too large, that the book does not
exist, or that there is a conflict. -/
def definitive (code : Nat) : Bool := code = 400 ∨ code = 404 ∨ code = 409 ∨ code = 413

/-- A `saveProgress` call that waits for its answer. -/
structure SaveCall where
  bookID : Bytes
  cfi : Bytes
  percentage : ℚ
  deviceID : Bytes

/-- A `syncOfflineProgressQueue` run that waits for the answer about `id`, sent with
the credentials of `account`. -/
structure SyncRun where
  account : Bytes
  id : Bytes
  cached : OfflineSnapshot
  rest : List Bytes
  nextQueue : List Bytes

/-- The loop of a run up to its next request, or to its end. -/
def advance (store : LocalStorage) (account : Bytes) :
    List Bytes → List Bytes → Option SyncRun × LocalStorage
  | [], nextQueue => (none, store.setQueue nextQueue)
  | id :: rest, nextQueue =>
      match store.snapshots id with
      | none => advance store account rest (nextQueue.erase id)
      | some cached => (some ⟨account, id, cached, rest, nextQueue⟩, store)

/-- A run stops at the first queued book that has a backup, or it ends and writes what
is left of the queue. -/
theorem advance_cases (store : LocalStorage) (account : Bytes) (rest nextQueue : List Bytes) :
    (∃ run, advance store account rest nextQueue = (some run, store) ∧ run.id ∈ rest ∧
        store.snapshots run.id = some run.cached) ∨
      ∃ queue, advance store account rest nextQueue = (none, store.setQueue queue) := by
  induction rest generalizing nextQueue with
  | nil => exact Or.inr ⟨nextQueue, rfl⟩
  | cons id rest ih =>
      rw [advance]
      cases hget : store.snapshots id with
      | some cached =>
          left
          exact ⟨⟨account, id, cached, rest, nextQueue⟩, rfl, by simp, hget⟩
      | none =>
          rcases ih (nextQueue.erase id) with ⟨run, hrun, hid, hcached⟩ | hend
          · exact Or.inl ⟨run, hrun, List.mem_cons_of_mem id hid, hcached⟩
          · exact Or.inr hend

/-! ## The client -/

structure Client where
  store : LocalStorage
  account : Bytes
  saves : List SaveCall
  runs : List SyncRun
  /-- Every snapshot written so far, with its book. -/
  written : List (Bytes × OfflineSnapshot)
  /-- The books and serial numbers of the snapshots that the server has acknowledged. -/
  acknowledged : List (Bytes × Nat)
  /-- Those that it has refused for good, with the account it answered. -/
  refused : List (Bytes × Nat × Bytes)

inductive Action
  | signIn (account : Bytes)
  | saveProgress (call : SaveCall)
  | saveAnswered (i : Nat) (answer : Answer) (now : Time)
  | syncOfflineProgressQueue
  | syncAnswered (i : Nat) (answer : Answer)

namespace Client

def start (account : Bytes) : Client := ⟨.empty, account, [], [], [], [], []⟩

/-- Only a failure that is no `ApiError` falls back to the offline store. -/
def saveAnswered (s : Client) (call : SaveCall) (answer : Answer) (now : Time) : Client :=
  match answer with
  | .ok | .status _ => s
  | .network =>
      let snapshot : OfflineSnapshot :=
        { cfi := call.cfi
          percentage := call.percentage
          updatedAt := now
          deviceID := call.deviceID
          serial := s.written.length
          account := s.account }
      { s with
        store := s.store.backUp call.bookID snapshot
        written := s.written ++ [(call.bookID, snapshot)] }

def startSync (s : Client) : Client :=
  match s.store.queue with
  | none | some [] => s
  | some queue =>
      let (run, store) := advance s.store s.account queue queue
      { s with store := store, runs := s.runs ++ run.toList }

/-- The snapshot is removed, whatever it is by now, and the run goes on. -/
def dropAndContinue (s : Client) (run : SyncRun) : Client :=
  let (next, store) :=
    advance (s.store.removeSnapshot run.id) s.account run.rest (run.nextQueue.erase run.id)
  { s with store := store, runs := s.runs ++ next.toList }

/-- The answer for a run that has been taken off the list of runs. -/
def syncAnswered (s : Client) (run : SyncRun) (answer : Answer) : Client :=
  match answer with
  | .ok => dropAndContinue
      { s with acknowledged := (run.id, run.cached.serial) :: s.acknowledged } run
  | .status code => dropAndContinue
      { s with
        refused :=
          if definitive code then (run.id, run.cached.serial, run.account) :: s.refused
          else s.refused } run
  | .network => { s with store := s.store.setQueue run.nextQueue }

def step (s : Client) : Action → Option Client
  | .signIn account => some { s with account := account }
  | .saveProgress call => some { s with saves := s.saves ++ [call] }
  | .saveAnswered i answer now =>
      (s.saves[i]?).map fun call =>
        saveAnswered { s with saves := s.saves.eraseIdx i } call answer now
  | .syncOfflineProgressQueue => some s.startSync
  | .syncAnswered i answer =>
      (s.runs[i]?).map fun run => syncAnswered { s with runs := s.runs.eraseIdx i } run answer

end Client

end ZReader.Frontend
