import ZReader.Lib.Tokens
import ZReader.Lib.Transition

namespace ZReader.Services.Endpoint

/-! ## Credentials, refreshes and calls -/

def endpointRefreshThreshold : Int := 300

/-- Credentials. Objects are never changed; a pointer is the number of the object. -/
structure EndpointCache where
  endpoint : String
  token : String
  expiredAt : Int
  clientID : String

structure EndpointResponse where
  t : String
  r : String

/-- What `ctx.Err()` of a context returns. -/
inductive EndpointContext
  | live
  | cancelled
  | expired
  deriving DecidableEq

inductive EndpointError
  | cancelled
  | deadlineExceeded
  | failed
  deriving DecidableEq

def EndpointContext.err : EndpointContext → Option EndpointError
  | .live => none
  | .cancelled => some .cancelled
  | .expired => some .deadlineExceeded

/-- Where the goroutine of a refresh is. -/
inductive RefreshPhase
  | starting
  /-- It has read the cache, -/
  | looked (previous : Option ℕ)
  /-- and waits for the answer of the endpoint API. -/
  | requesting (previous : Option ℕ)
  /-- The last check of the context is behind it. -/
  | storing (cache : ℕ)
  | returning (result : Except EndpointError ℕ)
  /-- The result is recorded, and `done` is closed. -/
  | finished (result : Except EndpointError ℕ)

structure EndpointInflightCall where
  ctx : EndpointContext
  waiters : Int
  phase : RefreshPhase

/-- Where a call of `callTTSAPI` is. -/
inductive CallPhase
  | asking
  /-- In `GetEndpointContext`: it has read the cache, found it too old, waits for a refresh, or has
  seen its own context done. -/
  | looked (cache : Option ℕ)
  | joining
  | waiting (call : ℕ)
  | leaving (call : ℕ)
  | failed (error : EndpointError)
  | holding (cache : ℕ)
  | awaiting (cache : ℕ)
  /-- The provider has answered 401 or 403 to the first attempt. -/
  | rejected (cache : ℕ)
  | returned

structure TTSCall where
  ctx : EndpointContext
  isRetry : Bool
  phase : CallPhase
  /-- The credentials of its requests so far. -/
  sent : List ℕ

structure Endpoints where
  now : Int
  objects : List EndpointCache
  /-- `endpointCache.data`. -/
  cache : Option ℕ
  /-- `endpointRefresh.call`. -/
  refresh : Option ℕ
  refreshes : List EndpointInflightCall
  calls : List TTSCall

inductive EndpointAction
  | advance (seconds : ℕ)
  | call
  | cancel (i : ℕ)
  | expire (i : ℕ)
  /-- The parts of `GetEndpointContext`: reading, the check of the age, the section that joins or
  registers a refresh, the two cases of the wait, and the section that ends the second one. -/
  | read (i : ℕ)
  | check (i : ℕ)
  | join (i : ℕ)
  | receive (i : ℕ)
  | seeDone (i : ℕ)
  | leave (i : ℕ)
  | send (i : ℕ)
  /-- The request cannot be made, or ends without an answer. -/
  | abandon (i : ℕ)
  | respond (i : ℕ) (status : ℕ)
  | invalidate (i : ℕ)
  /-- The parts of a refresh. The answer comes with the expiry that `parseJWTExp` reads from the
  token, if it can. -/
  | readPrevious (c : ℕ)
  | checkPrevious (c : ℕ)
  | refuse (c : ℕ)
  | answer (c : ℕ) (response : EndpointResponse) (exp : Option Int) (clientID : String)
  | store (c : ℕ)
  | finish (c : ℕ)
  | timeout (c : ℕ)

namespace EndpointInflightCall

/-- The refresh has not yet taken itself out of the register. -/
def running (call : EndpointInflightCall) : Bool :=
  match call.phase with
  | .finished _ => false
  | _ => true

/-- The credentials that the refresh may return. -/
def held (call : EndpointInflightCall) : Option ℕ :=
  match call.phase with
  | .starting => none
  | .looked previous | .requesting previous => previous
  | .storing cache => some cache
  | .returning result | .finished result => result.toOption

end EndpointInflightCall

namespace Endpoints

def putCall (s : Endpoints) (i : ℕ) (call : TTSCall) : Endpoints :=
  { s with calls := s.calls.set i call }

def putRefresh (s : Endpoints) (c : ℕ) (call : EndpointInflightCall) : Endpoints :=
  { s with refreshes := s.refreshes.set c call }

def unregister (s : Endpoints) (c : ℕ) : Endpoints :=
  if s.refresh = some c then { s with refresh := none } else s

/-- The credentials are good for longer than the threshold. -/
def fresh (s : Endpoints) (cache : ℕ) : Bool :=
  (s.objects[cache]?).any fun object => endpointRefreshThreshold < object.expiredAt - s.now

/-- The registered refresh, unless its context is done. -/
def joinable (s : Endpoints) : Option (ℕ × EndpointInflightCall) :=
  s.refresh.bind fun c =>
    (s.refreshes[c]?).bind fun call => if call.ctx.err = none then some (c, call) else none

def join (s : Endpoints) (i : ℕ) (caller : TTSCall) : Endpoints :=
  match s.joinable with
  | some (c, call) =>
      (s.putRefresh c { call with waiters := call.waiters + 1 }).putCall i
        { caller with phase := .waiting c }
  | none =>
      { s with
        refreshes := s.refreshes ++ [⟨.live, 1, .starting⟩]
        refresh := some s.refreshes.length
        calls := s.calls.set i { caller with phase := .waiting s.refreshes.length } }

/-- The error of a context that is done, for the caller of `GetEndpointContext`. -/
def ctxError (ctx : EndpointContext) : EndpointError := ctx.err.getD .failed

def cancelled (ctx : EndpointContext) : EndpointContext :=
  match ctx with
  | .live => .cancelled
  | .cancelled => .cancelled
  | .expired => .expired

def leave (s : Endpoints) (i c : ℕ) (caller : TTSCall) (call : EndpointInflightCall) : Endpoints :=
  let s := s.putCall i { caller with phase := .failed (ctxError caller.ctx) }
  if call.waiters - 1 = 0 then
    (s.putRefresh c { call with waiters := call.waiters - 1, ctx := cancelled call.ctx }).unregister c
  else s.putRefresh c { call with waiters := call.waiters - 1 }

/-- A step of `callTTSAPI`. -/
def stepCall (s : Endpoints) (i : ℕ) (caller : TTSCall) : EndpointAction → Option Endpoints
  | .cancel _ => some (s.putCall i { caller with ctx := cancelled caller.ctx })
  | .expire _ =>
      if caller.ctx = .live then some (s.putCall i { caller with ctx := .expired }) else none
  | .read _ =>
      match caller.phase with
      | .asking => some (s.putCall i { caller with
          phase := match caller.ctx.err with
            | some error => .failed error
            | none => .looked s.cache })
      | _ => none
  | .check _ =>
      match caller.phase with
      | .looked cache => some (s.putCall i { caller with
          phase := match cache.filter s.fresh with
            | some cache => .holding cache
            | none => .joining })
      | _ => none
  | .join _ =>
      match caller.phase with
      | .joining => some (s.join i caller)
      | _ => none
  | .receive _ =>
      match caller.phase with
      | .waiting c => (s.refreshes[c]?).bind fun call =>
          match call.phase with
          | .finished (.ok cache) => some (s.putCall i { caller with phase := .holding cache })
          | .finished (.error error) => some (s.putCall i { caller with phase := .failed error })
          | _ => none
      | _ => none
  | .seeDone _ =>
      match caller.phase with
      | .waiting c =>
          if caller.ctx = .live then none else some (s.putCall i { caller with phase := .leaving c })
      | _ => none
  | .leave _ =>
      match caller.phase with
      | .leaving c => (s.refreshes[c]?).map (s.leave i c caller)
      | _ => none
  | .send _ =>
      match caller.phase with
      | .holding cache => some (s.putCall i { caller with
          phase := .awaiting cache, sent := caller.sent ++ [cache] })
      | _ => none
  | .abandon _ =>
      match caller.phase with
      | .holding _ | .awaiting _ => some (s.putCall i { caller with phase := .returned })
      | _ => none
  | .respond _ status =>
      match caller.phase with
      | .awaiting cache => some (s.putCall i { caller with
          phase := if caller.isRetry = false ∧ (status = 401 ∨ status = 403) then .rejected cache
            else .returned })
      | _ => none
  | .invalidate _ =>
      match caller.phase with
      | .rejected cache => some { s.putCall i { caller with phase := .asking, isRetry := true } with
          cache := if s.cache = some cache then none else s.cache }
      | _ => none
  | _ => none

/-- A step of the goroutine of a refresh, or the timeout of its context. -/
def stepRefresh (s : Endpoints) (c : ℕ) (call : EndpointInflightCall) :
    EndpointAction → Option Endpoints
  | .readPrevious _ =>
      match call.phase with
      | .starting => some (s.putRefresh c { call with phase := .looked s.cache })
      | _ => none
  | .checkPrevious _ =>
      match call.phase with
      | .looked previous => some (s.putRefresh c { call with
          phase := match previous.filter s.fresh with
            | some previous => .returning (.ok previous)
            | none => .requesting previous })
      | _ => none
  | .refuse _ =>
      match call.phase with
      | .requesting previous => some (s.putRefresh c { call with
          phase := match call.ctx.err, previous with
            | some error, _ => .returning (.error error)
            | none, some previous => .returning (.ok previous)
            | none, none => .returning (.error .failed) })
      | _ => none
  | .answer _ response exp clientID =>
      match call.phase with
      | .requesting previous =>
          match exp with
          | none => some (s.putRefresh c { call with
              phase := match previous with
                | some previous => .returning (.ok previous)
                | none => .returning (.error .failed) })
          | some exp => some { s.putRefresh c { call with
                phase := match call.ctx.err with
                  | some error => .returning (.error error)
                  | none => .storing s.objects.length } with
              objects := s.objects ++ [⟨response.r, response.t, exp, clientID⟩] }
      | _ => none
  | .store _ =>
      match call.phase with
      | .storing cache => some { s.putRefresh c { call with phase := .returning (.ok cache) } with
          cache := some cache }
      | _ => none
  | .finish _ =>
      match call.phase with
      | .returning result =>
          some ((s.putRefresh c
            { call with phase := .finished result, ctx := cancelled call.ctx }).unregister c)
      | _ => none
  | .timeout _ =>
      if call.ctx = .live then some (s.putRefresh c { call with ctx := .expired }) else none
  | _ => none

def step (s : Endpoints) (a : EndpointAction) : Option Endpoints :=
  match a with
  | .advance seconds => some { s with now := s.now + seconds }
  | .call => some { s with calls := s.calls ++ [⟨.live, false, .asking, []⟩] }
  | .cancel i | .expire i | .read i | .check i | .join i | .receive i | .seeDone i | .leave i
  | .send i | .abandon i | .respond i _ | .invalidate i => (s.calls[i]?).bind (s.stepCall i · a)
  | .readPrevious c | .checkPrevious c | .refuse c | .answer c _ _ _ | .store c | .finish c
  | .timeout c => (s.refreshes[c]?).bind (s.stepRefresh c · a)

/-- The server has just started. -/
def Started (s : Endpoints) : Prop :=
  s.objects = [] ∧ s.cache = none ∧ s.refresh = none ∧ s.refreshes = [] ∧ s.calls = []

end Endpoints

end ZReader.Services.Endpoint
