import ZReader.Lib.Tokens
import ZReader.Lib.Transition

namespace ZReader.Frontend

/-! ## Transfers and subscribers -/

/-- The life of a transfer. It is scheduled until `start` is called in a microtask;
after the promise of `start` has an outcome, the `finally` callback takes the entry out
of the map and the promise of the entry settles. -/
inductive TransferPhase (O : Type)
  | scheduled
  | started
  | finishing (outcome : O)
  | settled (outcome : O)

structure SharedDownload (K O P : Type) where
  key : K
  /-- `controller.signal.aborted` -/
  aborted : Bool
  /-- The subscribers, by number, in the order of insertion. -/
  subscribers : List Nat
  latestProgress : Option P
  phase : TransferPhase O

def SharedDownload.isSettled {K O P : Type} (entry : SharedDownload K O P) : Bool :=
  match entry.phase with
  | .settled _ => true
  | _ => false

/-- The promise that a call of `shareBookDownload` has returned. -/
inductive SubscriberState (O : Type)
  /-- It waits for a cancelled predecessor. -/
  | waiting (t : Nat)
  | subscribed (t : Nat)
  /-- Rejected by its own signal, possibly while subscribed to a transfer. -/
  | rejected (t : Option Nat)
  | received (t : Nat) (outcome : O)
  deriving DecidableEq

structure DownloadSubscriber (K O : Type) where
  key : K
  /-- `options.signal.aborted` -/
  aborted : Bool
  state : SubscriberState O

structure Downloads (K O P : Type) where
  downloads : K → Option Nat
  entries : List (SharedDownload K O P)
  callers : List (DownloadSubscriber K O)
  /-- The calls of `onProgress`, with the number of the subscriber. -/
  delivered : List (Nat × P)

inductive DownloadAction (K O P : Type)
  /-- A call, with the state of its signal. -/
  | share (key : K) (aborted : Bool)
  | abort (i : Nat)
  | start (t : Nat)
  | progress (t : Nat) (p : P)
  | finish (t : Nat) (outcome : O)
  /-- The `finally` callback. -/
  | cleanUp (t : Nat)
  /-- A subscriber sees that the promise it waits for has settled. -/
  | react (i : Nat)

namespace Downloads

variable {K O P : Type} [DecidableEq K]

def putEntry (s : Downloads K O P) (t : Nat) (entry : SharedDownload K O P) : Downloads K O P :=
  { s with entries := s.entries.set t entry }

def putCaller (s : Downloads K O P) (i : Nat) (caller : DownloadSubscriber K O) : Downloads K O P :=
  { s with callers := s.callers.set i caller }

/-- The call number `i` waits for a cancelled transfer, joins the running one, or opens
a new one. -/
def attach (s : Downloads K O P) (i : Nat) (key : K) : Downloads K O P × SubscriberState O :=
  match (s.downloads key).bind fun t => (s.entries[t]?).map (t, ·) with
  | some (t, entry) =>
      if entry.aborted then (s, .waiting t)
      else
        ({ s.putEntry t { entry with subscribers := entry.subscribers ++ [i] } with
            delivered := s.delivered ++ entry.latestProgress.toList.map (i, ·) },
          .subscribed t)
  | none =>
      ({ s with
          downloads := Function.update s.downloads key (some s.entries.length)
          entries := s.entries ++ [⟨key, false, [i], none, .scheduled⟩] },
        .subscribed s.entries.length)

def share (s : Downloads K O P) (key : K) (aborted : Bool) : Downloads K O P :=
  if aborted then { s with callers := s.callers ++ [⟨key, true, .rejected none⟩] }
  else
    let (s', state) := s.attach s.callers.length key
    { s' with callers := s.callers ++ [⟨key, false, state⟩] }

/-- The abort listener, which `detach` has removed once the promise is settled. -/
def abort (s : Downloads K O P) (i : Nat) (caller : DownloadSubscriber K O) :
    Option (Downloads K O P) :=
  match caller.state with
  | .waiting _ => some (s.putCaller i { caller with aborted := true, state := .rejected none })
  | .subscribed t => (s.entries[t]?).map fun entry =>
      let subscribers := entry.subscribers.filter (· ≠ i)
      (s.putCaller i { caller with aborted := true, state := .rejected (some t) }).putEntry t
        { entry with subscribers := subscribers, aborted := entry.aborted || subscribers = [] }
  | .rejected _ | .received _ _ => some (s.putCaller i { caller with aborted := true })

def react (s : Downloads K O P) (i : Nat) (caller : DownloadSubscriber K O) :
    Option (Downloads K O P) :=
  match caller.state with
  | .waiting t => (s.entries[t]?).bind fun entry =>
      if entry.isSettled then
        let (s', state) := s.attach i caller.key
        some (s'.putCaller i { caller with state := state })
      else none
  | .subscribed t => (s.entries[t]?).bind fun entry =>
      match entry.phase with
      | .settled outcome =>
          some ((s.putEntry t { entry with subscribers := entry.subscribers.filter (· ≠ i) }).putCaller i
            { caller with state := .received t outcome })
      | _ => none
  | .rejected _ | .received _ _ => none

def cleanUp (s : Downloads K O P) (t : Nat) (entry : SharedDownload K O P) (outcome : O) :
    Downloads K O P :=
  let s := s.putEntry t { entry with phase := .settled outcome }
  if s.downloads entry.key = some t then
    { s with downloads := Function.update s.downloads entry.key none }
  else s

/-- A step of a transfer. -/
def stepEntry (s : Downloads K O P) (t : Nat) (entry : SharedDownload K O P) :
    DownloadAction K O P → Option (Downloads K O P)
  | .start _ =>
      match entry.phase with
      | .scheduled => some (s.putEntry t { entry with phase := .started })
      | _ => none
  | .progress _ p =>
      match entry.phase with
      | .scheduled => none
      | _ => some { s.putEntry t { entry with latestProgress := some p } with
          delivered := s.delivered ++ entry.subscribers.map (·, p) }
  | .finish _ outcome =>
      match entry.phase with
      | .started => some (s.putEntry t { entry with phase := .finishing outcome })
      | _ => none
  | .cleanUp _ =>
      match entry.phase with
      | .finishing outcome => some (s.cleanUp t entry outcome)
      | _ => none
  | _ => none

def step (s : Downloads K O P) (a : DownloadAction K O P) : Option (Downloads K O P) :=
  match a with
  | .share key aborted => some (s.share key aborted)
  | .abort i => (s.callers[i]?).bind fun caller => if caller.aborted then none else s.abort i caller
  | .react i => (s.callers[i]?).bind (s.react i)
  | .start t | .progress t _ | .finish t _ | .cleanUp t =>
      (s.entries[t]?).bind (s.stepEntry t · a)

def empty : Downloads K O P := ⟨fun _ => none, [], [], []⟩

end Downloads

end ZReader.Frontend
