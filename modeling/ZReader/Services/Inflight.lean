import ZReader.Lib.Tokens
import ZReader.Lib.Transition

namespace ZReader.Services

/-! ## Calls and callers -/

/-- Where the worker of a call is. Its work is followed by the two caches, the deferred
section that takes the call out of the map and closes `done`, and the deferred cancel. -/
inductive WorkerPhase
  | working
  | caching
  | writingDisk
  | unregistering
  | closing
  | cancelling
  | finished
  deriving DecidableEq

structure TTSInflightCall (K D : Type) where
  key : K
  /-- The data, or none for an error, once the work is complete. -/
  result : Option (Option D)
  waiters : Int
  /-- The context of the work is done, -/
  cancelled : Bool
  /-- because of its own timeout, -/
  timedOut : Bool
  /-- or because the last waiter left before the work was complete. -/
  abandoned : Bool
  worker : WorkerPhase

/-- Where a caller of `callTTSAPIWithCacheContext` is. -/
inductive CallerPhase (D : Type)
  | checking
  | readingMemory
  | readingDisk
  | atMutex
  | waiting (call : Nat)
  /-- It has seen its own context done and goes for the mutex. -/
  | leaving (call : Nat)
  | left (call : Nat)
  /-- Returned, with data or an error, from a cache or from a call. -/
  | returned (call : Option Nat) (data : Option D)

structure TTSCaller (K D : Type) where
  key : K
  cancelled : Bool
  phase : CallerPhase D

structure TTSFlights (K D : Type) where
  memory : K → Option D
  disk : K → Option D
  inflight : K → Option Nat
  calls : List (TTSInflightCall K D)
  callers : List (TTSCaller K D)
  /-- What has been synthesised so far, or was on the disk in the beginning. -/
  made : List (K × D)

inductive FlightAction (K D : Type)
  | call (key : K)
  | cancel (i : Nat)
  | check (i : Nat)
  | readMemory (i : Nat)
  | readDisk (i : Nat)
  /-- The section that joins a registered call or registers a new one. -/
  | join (i : Nat)
  /-- The two cases of `waitForTTSCall`, and the section that ends the second one. -/
  | receiveDone (i : Nat)
  | seeCancelled (i : Nat)
  | leave (i : Nat)
  /-- The synthesis returns data or an error. -/
  | complete (c : Nat) (result : Option D)
  | cache (c : Nat)
  | writeDisk (c : Nat) (ok : Bool)
  | unregister (c : Nat)
  | close (c : Nat)
  | deferredCancel (c : Nat)
  | timeout (c : Nat)
  /-- Entries of the caches disappear. -/
  | evict (key : K)
  | removeFile (key : K)

namespace TTSInflightCall

variable {K D : Type}

/-- The worker has not yet taken the call out of the map. -/
def unfinished (call : TTSInflightCall K D) : Bool :=
  match call.worker with
  | .working | .caching | .writingDisk | .unregistering => true
  | .closing | .cancelling | .finished => false

/-- `done` has been closed. -/
def isDone (call : TTSInflightCall K D) : Bool :=
  match call.worker with
  | .cancelling | .finished => true
  | _ => false

end TTSInflightCall

namespace TTSFlights

variable {K D : Type} [DecidableEq K]

def putCaller (s : TTSFlights K D) (i : Nat) (caller : TTSCaller K D) : TTSFlights K D :=
  { s with callers := s.callers.set i caller }

def putCall (s : TTSFlights K D) (c : Nat) (call : TTSInflightCall K D) : TTSFlights K D :=
  { s with calls := s.calls.set c call }

def unmap (s : TTSFlights K D) (key : K) (c : Nat) : TTSFlights K D :=
  if s.inflight key = some c then { s with inflight := Function.update s.inflight key none } else s

/-- The registered call of the key, unless its context is done. -/
def joinable (s : TTSFlights K D) (key : K) : Option (Nat × TTSInflightCall K D) :=
  (s.inflight key).bind fun c =>
    (s.calls[c]?).bind fun call => if call.cancelled then none else some (c, call)

def newCall (key : K) : TTSInflightCall K D where
  key := key
  result := none
  waiters := 1
  cancelled := false
  timedOut := false
  abandoned := false
  worker := .working

def joinCall (s : TTSFlights K D) (i : Nat) (caller : TTSCaller K D) : TTSFlights K D :=
  match s.joinable caller.key with
  | some (c, call) =>
      (s.putCall c { call with waiters := call.waiters + 1 }).putCaller i
        { caller with phase := .waiting c }
  | none =>
      { s with
        calls := s.calls ++ [newCall caller.key]
        inflight := Function.update s.inflight caller.key (some s.calls.length)
        callers := s.callers.set i { caller with phase := .waiting s.calls.length } }

def leaveCall (s : TTSFlights K D) (i c : Nat) (caller : TTSCaller K D)
    (call : TTSInflightCall K D) : TTSFlights K D :=
  let s := s.putCaller i { caller with phase := .left c }
  if call.waiters - 1 = 0 then
    (s.putCall c { call with
      waiters := call.waiters - 1
      cancelled := true
      abandoned := call.abandoned || call.result.isNone }).unmap call.key c
  else s.putCall c { call with waiters := call.waiters - 1 }

/-- A step of a caller outside the mutex. -/
def stepCaller (s : TTSFlights K D) (i : Nat) (caller : TTSCaller K D) :
    FlightAction K D → Option (TTSFlights K D)
  | .check _ =>
      match caller.phase with
      | .checking => some (s.putCaller i { caller with
          phase := if caller.cancelled then .returned none none else .readingMemory })
      | _ => none
  | .readMemory _ =>
      match caller.phase with
      | .readingMemory => some (s.putCaller i { caller with
          phase := match s.memory caller.key with
            | some data => .returned none (some data)
            | none => .readingDisk })
      | _ => none
  | .readDisk _ =>
      match caller.phase with
      | .readingDisk =>
          match s.disk caller.key with
          | some data => some { s.putCaller i { caller with phase := .returned none (some data) } with
              memory := Function.update s.memory caller.key (some data) }
          | none => some (s.putCaller i { caller with phase := .atMutex })
      | _ => none
  | .receiveDone _ =>
      match caller.phase with
      | .waiting c => (s.calls[c]?).bind fun call =>
          if call.isDone then
            some (s.putCaller i { caller with phase := .returned (some c) (call.result.getD none) })
          else none
      | _ => none
  | .seeCancelled _ =>
      match caller.phase with
      | .waiting c =>
          if caller.cancelled then some (s.putCaller i { caller with phase := .leaving c }) else none
      | _ => none
  | .cancel _ => some (s.putCaller i { caller with cancelled := true })
  | .join _ =>
      match caller.phase with
      | .atMutex => some (s.joinCall i caller)
      | _ => none
  | .leave _ =>
      match caller.phase with
      | .leaving c => (s.calls[c]?).map (s.leaveCall i c caller)
      | _ => none
  | _ => none

/-- A step of the worker of a call, or the timeout of its context. -/
def stepCall (s : TTSFlights K D) (c : Nat) (call : TTSInflightCall K D) :
    FlightAction K D → Option (TTSFlights K D)
  | .complete _ result =>
      if call.worker = .working then
        some { s.putCall c { call with
            result := some result
            worker := if result.isSome then .caching else .unregistering } with
          made := s.made ++ result.toList.map (call.key, ·) }
      else none
  | .cache _ =>
      if call.worker = .caching then
        some { s.putCall c { call with worker := .writingDisk } with
          memory := Function.update s.memory call.key (call.result.getD none) }
      else none
  | .writeDisk _ ok =>
      if call.worker = .writingDisk then
        some { s.putCall c { call with worker := .unregistering } with
          disk := if ok then Function.update s.disk call.key (call.result.getD none) else s.disk }
      else none
  | .unregister _ =>
      if call.worker = .unregistering then
        some ((s.putCall c { call with worker := .closing }).unmap call.key c)
      else none
  | .close _ =>
      if call.worker = .closing then some (s.putCall c { call with worker := .cancelling }) else none
  | .deferredCancel _ =>
      if call.worker = .cancelling then
        some (s.putCall c { call with worker := .finished, cancelled := true })
      else none
  | .timeout _ =>
      if call.cancelled then none
      else some (s.putCall c { call with cancelled := true, timedOut := true })
  | _ => none

def step (s : TTSFlights K D) (a : FlightAction K D) : Option (TTSFlights K D) :=
  match a with
  | .call key => some { s with callers := s.callers ++ [⟨key, false, .checking⟩] }
  | .cancel i | .check i | .readMemory i | .readDisk i | .join i | .receiveDone i | .seeCancelled i
  | .leave i => (s.callers[i]?).bind (s.stepCaller i · a)
  | .complete c _ | .cache c | .writeDisk c _ | .unregister c | .close c | .deferredCancel c
  | .timeout c => (s.calls[c]?).bind (s.stepCall c · a)
  | .evict key => some { s with memory := Function.update s.memory key none }
  | .removeFile key => some { s with disk := Function.update s.disk key none }

/-- No call has been made, and whatever is on the disk counts as made. -/
def Started (s : TTSFlights K D) : Prop :=
  (∀ k, s.memory k = none) ∧ (∀ k d, s.disk k = some d → (k, d) ∈ s.made) ∧
    (∀ k, s.inflight k = none) ∧ s.calls = [] ∧ s.callers = []

end TTSFlights

end ZReader.Services
