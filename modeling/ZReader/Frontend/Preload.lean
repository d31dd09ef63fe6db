import ZReader.Frontend.Playback
import ZReader.Lib.Promises

namespace ZReader.Frontend.Preload

open Lib.Promises
open Playback (TTSMark stripSSML isSSMLTooLarge)

/-! ## The state of the player -/

/-- The promises are numbered in the order of their creation, and a task has the number of
the promise that it resolves. -/
structure PreloadTask where
  id : Nat
  ssml : String
  marks : List TTSMark
  deriving DecidableEq

structure PreloadedAudio (Blob : Type) where
  blob : Blob
  ssml : String
  marks : List TTSMark
  /-- The number of the task that fetched it. -/
  task : Nat
  deriving DecidableEq

/-- What a task adds, with one mark for the whole text where it has none. -/
def PreloadTask.audio {Blob : Type} (task : PreloadTask) (blob : Blob) : PreloadedAudio Blob where
  blob := blob
  ssml := task.ssml
  marks := if task.marks = [] then [⟨"0", stripSSML task.ssml, none⟩] else task.marks
  task := task.id

/-- How far a call of `runPreloadTask` is: it awaits its request, the request has settled
(`none` where it failed), or it has returned and its `finally` callback is still queued. -/
inductive Progress (Blob : Type)
  | fetching
  | fetched (blob : Option Blob)
  | returned
  deriving DecidableEq

structure RunningTask (Blob : Type) where
  task : PreloadTask
  /-- `controller.signal.aborted` -/
  aborted : Bool
  progress : Progress Blob
  deriving DecidableEq

/-- The fields of the player that preloading uses. A controller has the number of its task. -/
structure BackendTTS (Blob : Type) where
  audioCache : List String
  preloadedQueue : List (PreloadedAudio Blob)
  activePreloadCount : Nat
  pendingPreloadTasks : List PreloadTask
  queuedPreloadKeys : Finset String
  preloadAbortControllers : String → Option Nat
  preloadPromises : String → Option Nat
  running : List (RunningTask Blob)
  promises : List State

def maxPreloadCount : Nat := 6

def maxPreloadConcurrency : Nat := 2

variable {Blob : Type}

namespace BackendTTS

def new : BackendTTS Blob where
  audioCache := []
  preloadedQueue := []
  activePreloadCount := 0
  pendingPreloadTasks := []
  queuedPreloadKeys := ∅
  preloadAbortControllers := fun _ => none
  preloadPromises := fun _ => none
  running := []
  promises := []

/-- `runPreloadTask` up to its first `await`. -/
def runPreloadTask (p : BackendTTS Blob) (task : PreloadTask) : BackendTTS Blob :=
  if task.ssml ∈ p.audioCache ∨ p.preloadedQueue.any (·.ssml = task.ssml) then
    { p with running := p.running ++ [⟨task, false, .returned⟩] }
  else
    { p with
      preloadAbortControllers := Function.update p.preloadAbortControllers task.ssml (some task.id)
      running := p.running ++ [⟨task, false, .fetching⟩] }

/-- One turn of the loop of `pumpPreloadQueue`, for a task that has left the queue. -/
def start (p : BackendTTS Blob) (task : PreloadTask) : BackendTTS Blob :=
  { p with
    queuedPreloadKeys := p.queuedPreloadKeys.erase task.ssml
    activePreloadCount := p.activePreloadCount + 1 }.runPreloadTask task

def pump : List PreloadTask → BackendTTS Blob → BackendTTS Blob
  | [], p => { p with pendingPreloadTasks := [] }
  | task :: tasks, p =>
      if p.activePreloadCount < maxPreloadConcurrency then
        pump tasks ({ p with pendingPreloadTasks := tasks }.start task)
      else { p with pendingPreloadTasks := task :: tasks }

def pumpPreloadQueue (p : BackendTTS Blob) : BackendTTS Blob := pump p.pendingPreloadTasks p

def enqueue (p : BackendTTS Blob) (ssml : String) (marks : List TTSMark) : BackendTTS Blob :=
  { p with
    queuedPreloadKeys := insert ssml p.queuedPreloadKeys
    pendingPreloadTasks := p.pendingPreloadTasks ++ [⟨p.promises.length, ssml, marks⟩]
    promises := p.promises ++ [.pending] }

/-- The state after a call and the promise that it returns, `none` where that is resolved at
once. -/
def preload (p : BackendTTS Blob) (ssml : String) (marks : List TTSMark) :
    BackendTTS Blob × Option Nat :=
  if ssml = "" then (p, none)
  else if isSSMLTooLarge ssml then (p, none)
  else if ssml ∈ p.audioCache then (p, none)
  else if p.preloadedQueue.any (·.ssml = ssml) then (p, none)
  else
    match p.preloadPromises ssml with
    | some existing => (p, some existing)
    | none =>
        let q := (p.enqueue ssml marks).pumpPreloadQueue
        ({ q with preloadPromises := Function.update q.preloadPromises ssml (some p.promises.length) },
          some p.promises.length)

/-- The callback of `promise.finally` in `preload`. -/
def forget (p : BackendTTS Blob) (ssml : String) (id : Nat) : Option (BackendTTS Blob) :=
  if p.promises[id]? = some .fulfilled ∧ p.preloadPromises ssml = some id then
    some { p with preloadPromises := Function.update p.preloadPromises ssml none }
  else none

def trimPreloadQueue (p : BackendTTS Blob) : BackendTTS Blob :=
  { p with preloadedQueue := p.preloadedQueue.drop (p.preloadedQueue.length - maxPreloadCount) }

def push (p : BackendTTS Blob) (preloaded : PreloadedAudio Blob) : BackendTTS Blob :=
  { p with preloadedQueue := p.preloadedQueue ++ [preloaded] }.trimPreloadQueue

def advance (p : BackendTTS Blob) (id : Nat) (progress : Progress Blob) : BackendTTS Blob :=
  { p with running := p.running.map fun r => if r.task.id = id then { r with progress } else r }

def find (p : BackendTTS Blob) (id : Nat) : Option (RunningTask Blob) :=
  p.running.find? (·.task.id = id)

/-- The promise of `fetchAudioBlobWithController` settles. An abort need not have reached it. -/
def settle (p : BackendTTS Blob) (id : Nat) (blob : Option Blob) : Option (BackendTTS Blob) :=
  (p.find id).bind fun r =>
    match r.progress with
    | .fetching => some (p.advance id (.fetched blob))
    | _ => none

/-- The end of `runPreloadTask`, after its `await`. -/
def complete (p : BackendTTS Blob) (r : RunningTask Blob) (blob : Option Blob) : BackendTTS Blob :=
  let task := r.task
  let q : BackendTTS Blob :=
    match blob with
    | none => p
    | some blob =>
        if r.aborted then p else p.push (task.audio blob)
  let q := if q.preloadAbortControllers task.ssml = some task.id then
    { q with preloadAbortControllers := Function.update q.preloadAbortControllers task.ssml none } else q
  q.advance task.id .returned

def proceed (p : BackendTTS Blob) (id : Nat) : Option (BackendTTS Blob) :=
  (p.find id).bind fun r =>
    match r.progress with
    | .fetched blob => some (p.complete r blob)
    | _ => none

/-- The `finally` callback of `pumpPreloadQueue`. -/
def finish (p : BackendTTS Blob) (id : Nat) : Option (BackendTTS Blob) :=
  (p.find id).bind fun r =>
    match r.progress with
    | .returned =>
        some (pumpPreloadQueue { p with
          running := p.running.eraseP (·.task.id = id)
          activePreloadCount := p.activePreloadCount - 1
          promises := resolve p.promises id })
    | _ => none

/-- The waiting tasks that a filter of the queue takes out are resolved. -/
def retain (p : BackendTTS Blob) (keep : PreloadTask → Bool) : BackendTTS Blob :=
  let removed := p.pendingPreloadTasks.filter (!keep ·)
  { p with
    pendingPreloadTasks := p.pendingPreloadTasks.filter keep
    queuedPreloadKeys := removed.foldl (fun keys task => keys.erase task.ssml) p.queuedPreloadKeys
    promises := resolveAll p.promises (removed.map (·.id)) }

/-- `controller.abort()`, for the controllers that are chosen. -/
def abort (p : BackendTTS Blob) (chosen : PreloadTask → Bool) : BackendTTS Blob :=
  { p with running := p.running.map fun r => { r with aborted := r.aborted || chosen r.task } }

def cancelPreload (p : BackendTTS Blob) (ssml : String) : BackendTTS Blob :=
  let p :=
    match p.preloadAbortControllers ssml with
    | some id =>
        { p.abort (·.id = id) with
          preloadAbortControllers := Function.update p.preloadAbortControllers ssml none }
    | none => p
  p.retain (·.ssml ≠ ssml)

def cancelAllPreloads (p : BackendTTS Blob) : BackendTTS Blob :=
  { p.abort fun task => p.preloadAbortControllers task.ssml = some task.id with
    preloadAbortControllers := fun _ => none
    preloadPromises := fun _ => none }.retain fun _ => false

def cleanupIrrelevantPreloads (p : BackendTTS Blob) (relevantSSMLs : List String) : BackendTTS Blob :=
  let toRemove := (p.preloadedQueue.map (·.ssml)).filter (· ∉ relevantSSMLs)
  let p := { p with preloadedQueue := p.preloadedQueue.filter (·.ssml ∈ relevantSSMLs) }
  (toRemove.foldl cancelPreload p).retain (·.ssml ∈ relevantSSMLs)

def releaseAllPreloadedAudio (p : BackendTTS Blob) : BackendTTS Blob := { p with preloadedQueue := [] }

def clearPreloadQueue (p : BackendTTS Blob) : BackendTTS Blob :=
  p.cancelAllPreloads.releaseAllPreloadedAudio

end BackendTTS

inductive Event (Blob : Type)
  | preload (ssml : String) (marks : List TTSMark)
  | cancelPreload (ssml : String)
  | cancelAllPreloads
  | cleanupIrrelevantPreloads (relevantSSMLs : List String)
  | clearPreloadQueue
  | settle (id : Nat) (blob : Option Blob)
  | proceed (id : Nat)
  | finish (id : Nat)
  | forget (ssml : String) (id : Nat)
  /-- `speak` takes ready audio out of its queue. -/
  | take (ssml : String)
  /-- The keys of the cache after any change of it. -/
  | cache (keys : List String)
  deriving DecidableEq

namespace BackendTTS

def step (p : BackendTTS Blob) : Event Blob → Option (BackendTTS Blob)
  | .preload ssml marks => some (p.preload ssml marks).1
  | .cancelPreload ssml => some (p.cancelPreload ssml)
  | .cancelAllPreloads => some p.cancelAllPreloads
  | .cleanupIrrelevantPreloads relevantSSMLs => some (p.cleanupIrrelevantPreloads relevantSSMLs)
  | .clearPreloadQueue => some p.clearPreloadQueue
  | .settle id blob => p.settle id blob
  | .proceed id => p.proceed id
  | .finish id => p.finish id
  | .forget ssml id => p.forget ssml id
  | .take ssml => some { p with preloadedQueue := p.preloadedQueue.eraseP (·.ssml = ssml) }
  | .cache keys => some { p with audioCache := keys }

end BackendTTS

end ZReader.Frontend.Preload
