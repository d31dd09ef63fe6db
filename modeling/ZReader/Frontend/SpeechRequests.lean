import ZReader.Lib.Doubles
import ZReader.Lib.Ecma
import ZReader.Lib.Transition

namespace ZReader.Frontend.SpeechRequests

open Lib.Doubles Lib.Ecma Lib.Transition

/-! ## Errors -/

inductive TTSErrorKind
  | cancelled
  | timeout
  | network
  | rateLimit
  | invalidSSML
  | unauthorized
  | permission
  | transient
  | permanent
  deriving DecidableEq

structure TTSRequestError where
  status : Nat
  code : Option String
  retryAfterMs : Double
  deriving DecidableEq

/-- The `name` of an error, as far as it is asked for. -/
inductive ErrorName
  | abortError
  | timeoutError
  | notAllowedError
  | typeError
  | other
  deriving DecidableEq

/-- What a request throws: an instance of `TTSRequestError` or anything else. -/
inductive Thrown
  | request (error : TTSRequestError)
  | named (name : ErrorName)
  deriving DecidableEq

def Thrown.name : Thrown → ErrorName
  | request _ => .other
  | named name => name

def classifyTTSError (error : Thrown) : TTSErrorKind :=
  if error.name = .abortError then .cancelled
  else if error.name = .timeoutError then .timeout
  else if error.name = .notAllowedError then .permission
  else
    match error with
    | .request error =>
        if error.status = 401 ∨ error.status = 403 then .unauthorized
        else if error.code = some "invalid_ssml" ∧ error.status ∈ [400, 422] then .invalidSSML
        else if error.status = 429 then .rateLimit
        else if error.status = 408 ∨ error.status = 504 then .timeout
        else if error.status ∈ [500, 502, 503] then .transient
        else .permanent
    | .named name => if name = .typeError then .network else .permanent

/-! ## Retry-After -/

def digits (s : Text) : Nat := s.foldl (fun n c => 10 * n + (c.toNat - '0'.toNat)) 0

/-- The value of a text that matches `^\d+(?:\.\d+)?$`. -/
def decimal (s : Text) : Option Rat :=
  let whole := s.takeWhile Char.isDigit
  if whole = [] then none
  else
    match s.dropWhile Char.isDigit with
    | [] => some (digits whole)
    | '.' :: fraction =>
        if fraction = [] ∨ fraction.all Char.isDigit = false then none
        else some (digits whole + digits fraction / 10 ^ fraction.length)
    | _ => none

/-- A match of `^[+-]?\d+(?:\.\d+)?$`. -/
def isSigned : Text → Bool
  | '+' :: s | '-' :: s => (decimal s).isSome
  | s => (decimal s).isSome

variable (parseDate : Text → Option Int)

/-- `Date.parse` is left open; times are whole numbers of milliseconds. The difference of two of
them is rounded like the other results, which does not change its sign. -/
def parseTTSRetryAfter (value : Option Text) (now : Nat) : Double :=
  match value with
  | none | some [] => 0
  | some value =>
      match decimal (trim value) with
      | some seconds => (nearest seconds).apply (· * 1000)
      | none =>
          if isSigned (trim value) then 0
          else
            match parseDate value with
            | some date => nearest (max 0 (date - now))
            | none => 0

/-- The instant before which a header wants no request: so long after the arrival of the answer,
or a date. Nothing is rounded. -/
def retryInstant (value : Option Text) (arrival : Nat) : Option Rat :=
  match value with
  | none | some [] => none
  | some value =>
      match decimal (trim value) with
      | some seconds => some (arrival + seconds * 1000)
      | none => if isSigned (trim value) then none else (parseDate value).map (↑)

/-- The delay that a header asks for. -/
def askedDelay (value : Option Text) (now : Nat) : Rat :=
  ((retryInstant parseDate value now).map fun instant => max 0 (instant - (now : Rat))).getD 0

/-- An answer that arrived earlier does not ask for more. -/
theorem retryInstant_le {value : Option Text} {arrival now : Nat} (h : arrival ≤ now) {instant : Rat}
    (hinstant : instant ∈ retryInstant parseDate value arrival) :
    instant ≤ now + askedDelay parseDate value now := by
  have hcast : (arrival : Rat) ≤ now := Nat.cast_le.mpr h
  have hlater : ∃ later ∈ retryInstant parseDate value now, instant ≤ later := by
    rcases value with - | - | ⟨c, value⟩
    · cases hinstant
    · cases hinstant
    · simp only [retryInstant] at hinstant ⊢
      split at hinstant
      · obtain rfl := Option.some.inj hinstant
        exact ⟨_, rfl, add_le_add_left hcast _⟩
      · exact ⟨instant, hinstant, le_rfl⟩
  obtain ⟨later, hmem, hle⟩ := hlater
  rw [askedDelay, Option.mem_def.mp hmem, Option.map_some, Option.getD_some]
  have hmax := le_max_right 0 (later - now)
  linarith

/-! ## Retries -/

/-- What an attempt ends with besides a result: a refusal, with the time at which its header is
parsed, or anything else that is thrown, the errors of a cool-down included. -/
inductive Failure
  | refused (status : Nat) (code : Option String) (retryAfter : Option Text) (now : Nat)
  | thrown (error : Thrown)
  deriving DecidableEq

def Failure.error : Failure → Thrown
  | refused status code retryAfter now =>
      .request ⟨status, code, parseTTSRetryAfter parseDate retryAfter now⟩
  | thrown error => error

/-- The delay that a failure asks for: that of its header, or the one that the error holds. -/
def Failure.asked : Failure → Double
  | refused _ _ retryAfter now => (askedDelay parseDate retryAfter now : Rat)
  | thrown (.request error) => error.retryAfterMs
  | thrown (.named _) => 0

def cancelled : Thrown := .named .abortError

/-- The conversion of a number that is not negative to a `long`. -/
def toLong : Double → Int
  | ⊤ => 0
  | (x : Rat) => x.floor.bmod (2 ^ 32)

/-- The milliseconds that `setTimeout` waits at least. -/
def timeout (delay : Double) : Int := max 0 (toLong delay)

def retryable (kind : TTSErrorKind) : Bool := kind ∈ [.timeout, .network, .rateLimit, .transient]

/-- The time that an attempt waits before it is made again, without what the provider asks. -/
def backOff (attempt : Nat) : Double := (500 * 2 ^ attempt : Rat)

/-- The delay after the error of an attempt. -/
def retryDelay (attempt : Nat) (error : Thrown) : Double :=
  max (backOff attempt) (match error with | .request error => error.retryAfterMs | .named _ => 0)

inductive Mark
  | started (time : Rat)
  | failed (time : Rat) (failure : Failure)
  | aborted (time : Rat)
  deriving DecidableEq

/-- Where a call waits: for its request, for the timer, or for the turn that the timer has
queued. -/
inductive Phase (Result : Type)
  | requesting
  | waiting (due : Rat)
  | woken
  | resolved (result : Result)
  | rejected (error : Thrown)

/-- A call of `retryTTSRequest`. -/
structure Retry (Result : Type) where
  attempt : Nat
  phase : Phase Result
  /-- `options.signal.aborted` -/
  aborted : Bool
  now : Rat
  /-- What has happened, the latest first. -/
  log : List Mark

/-- What a call of `onRetry` does besides reporting. -/
inductive Callback
  | returns
  | aborts
  | throws (error : Thrown)

inductive RetryEvent (Result : Type)
  | tick (time : Rat)
  | abort
  | settle (outcome : Except Failure Result) (onRetry : Callback)
  | fire
  | resume

namespace Retry

variable {Result : Type}

/-- The head of the loop. -/
def turn (s : Retry Result) : Retry Result :=
  if s.aborted then { s with phase := .rejected cancelled }
  else { s with phase := .requesting, log := .started s.now :: s.log }

def call (now : Rat) (aborted : Bool) : Retry Result :=
  turn ⟨0, .woken, aborted, now, if aborted then [.aborted now] else []⟩

/-- `controller.abort()`. The listener of `waitForRetry` clears the timer and rejects. -/
def abort (s : Retry Result) : Retry Result :=
  if s.aborted then s
  else
    { s with
      aborted := true
      log := .aborted s.now :: s.log
      phase := match s.phase with | .waiting _ => .rejected cancelled | phase => phase }

def waitForRetry (s : Retry Result) (delay : Double) : Retry Result :=
  if s.aborted then { s with phase := .rejected cancelled }
  else { s with phase := .waiting (s.now + timeout delay) }

/-- The `catch` block. -/
def recover (s : Retry Result) (error : Thrown) (onRetry : Callback) : Retry Result :=
  if s.aborted then { s with phase := .rejected cancelled }
  else
    let delay := retryDelay s.attempt error
    if retryable (classifyTTSError error) = false ∨ s.attempt ≥ 2 ∨ delay > 60000 then
      { s with phase := .rejected error }
    else
      match onRetry with
      | .returns => s.waitForRetry delay
      | .aborts => s.abort.waitForRetry delay
      | .throws error => { s with phase := .rejected error }

variable (parseDate : Text → Option Int)

def settle (s : Retry Result) (outcome : Except Failure Result) (onRetry : Callback) : Retry Result :=
  match outcome with
  | .ok result =>
      if s.aborted then s.recover cancelled onRetry else { s with phase := .resolved result }
  | .error failure =>
      { s with log := .failed s.now failure :: s.log }.recover (failure.error parseDate) onRetry

def step (s : Retry Result) : RetryEvent Result → Option (Retry Result)
  | .tick time => if s.now ≤ time then some { s with now := time } else none
  | .abort => some s.abort
  | .settle outcome onRetry =>
      match s.phase with
      | .requesting => some (s.settle parseDate outcome onRetry)
      | _ => none
  | .fire =>
      match s.phase with
      | .waiting due => if due ≤ s.now then some { s with phase := .woken } else none
      | _ => none
  | .resume =>
      match s.phase with
      | .woken => some { s with attempt := s.attempt + 1 }.turn
      | _ => none

def Reached (s : Retry Result) : Prop :=
  Reachable (fun s => ∃ now aborted, s = call now aborted) (Steps (step parseDate) fun _ _ => True) s

end Retry

/-! ## What the log of a call keeps -/

def attempts : List Mark → Nat
  | [] => 0
  | .started _ :: log => attempts log + 1
  | .failed _ _ :: log | .aborted _ :: log => attempts log

/-- The whole milliseconds of a delay. -/
def wholePart : Double → Double
  | ⊤ => ⊤
  | (x : Rat) => (x.floor : Rat)

/-- The delay that has to pass after the failure of an attempt. -/
def demanded (attempt : Nat) (failure : Failure) : Double := max (backOff attempt) (failure.asked parseDate)

/-- The delay as it is computed. -/
def computed (attempt : Nat) (failure : Failure) : Double := retryDelay attempt (failure.error parseDate)

/-- An attempt may start after what has happened: it is the first one, or it follows a failure
that is worth another one, after what is waited for its delay. -/
def Allowed (delay : Nat → Failure → Double) (wait : Double → Double) (log : List Mark)
    (time : Rat) : Prop :=
  (∀ t, Mark.aborted t ∉ log) ∧ attempts log < 3 ∧
    (log = [] ∨ ∃ t failure earlier, log = .failed t failure :: earlier ∧
      retryable (classifyTTSError (failure.error parseDate)) = true ∧
      delay (attempts earlier - 1) failure ≤ (60000 : Rat) ∧
      (t : Double) + wait (delay (attempts earlier - 1) failure) ≤ (time : Double))

def Respects (delay : Nat → Failure → Double) (wait : Double → Double) : List Mark → Prop
  | [] => True
  | .started time :: log => Allowed parseDate delay wait log time ∧ Respects delay wait log
  | .failed _ _ :: log | .aborted _ :: log => Respects delay wait log

/-- The delay of a failure that is followed by another attempt is not shortened by the numbers of
the program and the timer. -/
def KeepsDelay (attempt : Nat) (failure : Failure) : Prop :=
  attempt < 2 → retryable (classifyTTSError (failure.error parseDate)) = true →
    computed parseDate attempt failure ≤ (60000 : Rat) →
    demanded parseDate attempt failure ≤ wholePart (computed parseDate attempt failure)

instance (attempt : Nat) (failure : Failure) : Decidable (KeepsDelay parseDate attempt failure) :=
  inferInstanceAs (Decidable (_ → _ → _ → _))

def KeepsDelays (log : List Mark) : Prop :=
  ∀ t failure earlier, (Mark.failed t failure :: earlier) <:+ log →
    KeepsDelay parseDate (attempts earlier - 1) failure

variable {parseDate}

theorem attempts_le {delay : Nat → Failure → Double} {wait : Double → Double} {log : List Mark}
    (h : Respects parseDate delay wait log) : attempts log ≤ 3 := by
  induction log with
  | nil => exact Nat.zero_le 3
  | cons mark log ih =>
      cases mark with
      | started time => exact h.1.2.1
      | failed t failure => exact ih h
      | aborted t => exact ih h

theorem KeepsDelays.tail {mark : Mark} {log : List Mark} (h : KeepsDelays parseDate (mark :: log)) :
    KeepsDelays parseDate log :=
  fun t failure earlier hsuffix => h t failure earlier (hsuffix.trans (List.suffix_cons _ _))

theorem wholePart_le (delay : Double) : wholePart delay ≤ delay := by
  induction delay using WithTop.recTopCoe with
  | top => exact le_rfl
  | coe x => exact WithTop.coe_le_coe.mpr (Rat.floor_le x)

/-- Where no delay is shortened, the delays that are demanded are kept. -/
theorem Respects.demanded {log : List Mark} (h : Respects parseDate (computed parseDate) wholePart log)
    (hkeeps : KeepsDelays parseDate log) : Respects parseDate (demanded parseDate) id log := by
  induction log with
  | nil => trivial
  | cons mark log ih =>
      cases mark with
      | started time =>
          obtain ⟨⟨haborted, hlt, hcase⟩, hlog⟩ := h
          refine ⟨⟨haborted, hlt, hcase.imp_right ?_⟩, ih hlog hkeeps.tail⟩
          rintro ⟨t, failure, earlier, rfl, hkind, hdelay, htime⟩
          have hattempt : attempts earlier - 1 < 2 := by
            have : attempts earlier < 3 := hlt
            omega
          have hle := hkeeps.tail t failure earlier (List.suffix_refl _) hattempt hkind hdelay
          refine ⟨t, failure, earlier, rfl, hkind, (hle.trans (wholePart_le _)).trans hdelay, ?_⟩
          exact (add_le_add_right hle _).trans htime
      | failed t failure => exact ih h hkeeps.tail
      | aborted t => exact ih h hkeeps.tail

theorem backOff_le (attempt : Nat) (error : Thrown) : backOff attempt ≤ retryDelay attempt error :=
  le_max_left _ _

theorem timeout_eq {delay : Double} (hpos : (0 : Rat) ≤ delay) (hle : delay ≤ (60000 : Rat)) :
    ((timeout delay : Rat) : Double) = wholePart delay := by
  induction delay using WithTop.recTopCoe with
  | top => exact absurd hle (WithTop.coe_lt_top _).not_ge
  | coe x =>
      have hpos : 0 ≤ x := WithTop.coe_le_coe.mp hpos
      have hle : x ≤ 60000 := WithTop.coe_le_coe.mp hle
      have hfloor : 0 ≤ x.floor := Rat.le_floor_iff.mpr (by simpa using hpos)
      have hsmall : x.floor ≤ 60000 := by
        have := (Rat.floor_le x).trans hle
        exact_mod_cast this
      have htimeout : timeout x = x.floor := by
        change max 0 (x.floor.bmod (2 ^ 32)) = x.floor
        rw [Int.bmod_eq_of_le (by omega) (by omega), max_eq_right hfloor]
      rw [htimeout]
      rfl

theorem wholePart_natCast (n : Nat) : wholePart (n : Rat) = (n : Rat) := by
  change (((n : Int) : Rat).floor : Rat) = ((n : Rat) : Double)
  rw [Rat.floor_intCast]
  rfl

/-- The delay of a header is a whole number of milliseconds, and so it is computed. -/
structure Whole (parseDate : Text → Option Int) (value : Option Text) (now n : Nat) : Prop where
  parsed : parseTTSRetryAfter parseDate value now = (n : Rat)
  asked : askedDelay parseDate value now = n

theorem Whole.keepsDelay {value : Option Text} {now n : Nat} (h : Whole parseDate value now n)
    (attempt status : Nat) (code : Option String) :
    KeepsDelay parseDate attempt (.refused status code value now) := by
  intro _ _ _
  have hcomputed : computed parseDate attempt (.refused status code value now) =
      max (backOff attempt) (n : Rat) := by
    rw [← h.parsed]
    rfl
  have hmax : max (backOff attempt) (n : Rat) = ((max (500 * 2 ^ attempt) n : Nat) : Rat) := by
    rw [backOff, ← WithTop.coe_max]
    push_cast
    rfl
  rw [hcomputed, demanded, Failure.asked, h.asked, hmax, wholePart_natCast]

/-- The numbers of a header with whole seconds are exact. -/
theorem whole_seconds {c : Char} {value : Text} {seconds : Nat}
    (hvalue : decimal (trim (c :: value)) = some (seconds : Rat)) (hsmall : seconds * 1000 ≤ 2 ^ 53)
    (now : Nat) :
    Whole parseDate (some (c :: value)) now (seconds * 1000) := by
  constructor
  · have happly : (nearest seconds).apply (· * 1000) = ((seconds * 1000 : Nat) : Rat) := by
      rw [nearest_natCast (by omega), ← nearest_natCast hsmall]
      change nearest (seconds * 1000) = _
      push_cast
      rfl
    simp only [parseTTSRetryAfter, hvalue, happly]
  · simp only [askedDelay, retryInstant, hvalue, Option.map_some, Option.getD_some, add_sub_cancel_left]
    rw [max_eq_right (by positivity)]
    push_cast
    rfl

/-- So are those of a header with a date, which is a whole number of milliseconds ahead. -/
theorem whole_date {c : Char} {value : Text} {date : Int} {now : Nat}
    (hvalue : decimal (trim (c :: value)) = none)
    (hsigned : isSigned (trim (c :: value)) = false) (hdate : parseDate (c :: value) = some date)
    (hsmall : date - now ≤ 2 ^ 53) :
    Whole parseDate (some (c :: value)) now (date - now).toNat := by
  have hahead : max 0 ((date : Rat) - now) = ((date - now).toNat : Nat) := by
    have : (((date - now).toNat : Int) : Rat) = ((max (date - now) 0 : Int) : Rat) := by
      rw [Int.toNat_eq_max]
    rw [max_comm]
    push_cast at this
    exact this.symm
  constructor
  · simp only [parseTTSRetryAfter, hvalue, hsigned, hdate, Bool.false_eq_true, if_false, hahead]
    exact nearest_natCast (by omega)
  · simp only [askedDelay, retryInstant, hvalue, hsigned, hdate, Bool.false_eq_true, if_false,
      Option.map_some, Option.getD_some, hahead]

namespace Retry

variable {Result : Type} {s t : Retry Result}

/-- The call waits after an error that is worth another attempt. -/
def Pauses (parseDate : Text → Option Int) (s : Retry Result) (due : Rat) : Prop :=
  ∃ t failure earlier, s.log = .failed t failure :: earlier ∧
    retryable (classifyTTSError (failure.error parseDate)) = true ∧
    attempts earlier = s.attempt + 1 ∧ s.attempt < 2 ∧
      computed parseDate s.attempt failure ≤ (60000 : Rat) ∧
    (t : Double) + wholePart (computed parseDate s.attempt failure) ≤ (due : Double)

structure Sound (parseDate : Text → Option Int) (s : Retry Result) : Prop where
  respects : Respects parseDate (computed parseDate) wholePart s.log
  aborted : s.aborted = false → ∀ t, Mark.aborted t ∉ s.log
  requesting : s.phase = .requesting → attempts s.log = s.attempt + 1 ∧ s.attempt ≤ 2
  waiting : ∀ due, s.phase = .waiting due → s.aborted = false ∧ s.Pauses parseDate due
  woken : s.phase = .woken → s.aborted = false → ∃ due ≤ s.now, s.Pauses parseDate due

theorem call_sound (now : Rat) (aborted : Bool) : (call now aborted : Retry Result).Sound parseDate := by
  cases aborted with
  | true =>
      exact ⟨trivial, by simp [call, turn], by simp [call, turn], by simp [call, turn],
        by simp [call, turn]⟩
  | false =>
      refine ⟨⟨⟨by simp, by simp [attempts], .inl rfl⟩, trivial⟩, ?_, ?_, ?_, ?_⟩ <;>
        simp [call, turn, attempts]

/-- The next attempt, after a pause. -/
theorem turn_sound (h : s.Sound parseDate) (hwoken : s.phase = .woken) :
    ({ s with attempt := s.attempt + 1 }.turn).Sound parseDate := by
  rw [turn]
  cases haborted : s.aborted with
  | true =>
      rw [if_pos rfl]
      exact ⟨h.respects, by simp, by simp, by simp, by simp⟩
  | false =>
      rw [if_neg (by simp)]
      obtain ⟨due, hdue, t, failure, earlier, hlog, hkind, hattempts, hlt, hle, htime⟩ :=
        h.woken hwoken haborted
      have hcount : attempts s.log = s.attempt + 1 := by
        rw [hlog]
        exact hattempts
      have hallowed : Allowed parseDate (computed parseDate) wholePart s.log s.now := by
        refine ⟨h.aborted haborted, by omega, .inr ⟨t, failure, earlier, hlog, hkind, ?_⟩⟩
        rw [hattempts, Nat.add_sub_cancel]
        exact ⟨hle, htime.trans (WithTop.coe_le_coe.mpr hdue)⟩
      refine ⟨⟨hallowed, h.respects⟩, fun _ t => ?_, fun _ => ?_, by simp, by simp⟩
      · simpa using h.aborted haborted t
      · exact ⟨congrArg (· + 1) hcount, Nat.succ_le_of_lt hlt⟩

theorem abort_sound (h : s.Sound parseDate) : s.abort.Sound parseDate := by
  rw [abort]
  split
  · exact h
  · refine ⟨h.respects, by simp, fun hphase => ?_, fun due hphase => ?_, by simp⟩
    · have hrequesting : s.phase = .requesting := by
        revert hphase
        cases s.phase <;> simp
      exact h.requesting hrequesting
    · revert hphase
      cases s.phase <;> simp

theorem sound_of_rejected {error : Thrown} (hphase : s.phase = .rejected error)
    (hlog : Respects parseDate (computed parseDate) wholePart s.log)
    (haborted : s.aborted = false → ∀ t, Mark.aborted t ∉ s.log) : s.Sound parseDate :=
  ⟨hlog, haborted, by simp [hphase], by simp [hphase], by simp [hphase]⟩

theorem recover_sound {failure : Failure} {log : List Mark} (hattempts : attempts log = s.attempt + 1)
    (hlog : Respects parseDate (computed parseDate) wholePart log)
    (haborted : s.aborted = false → ∀ t, Mark.aborted t ∉ log) (onRetry : Callback) :
    ({ s with log := .failed s.now failure :: log }.recover (failure.error parseDate) onRetry).Sound
      parseDate := by
  have haborted' : s.aborted = false → ∀ t, Mark.aborted t ∉ Mark.failed s.now failure :: log :=
    fun hfalse t => by simpa using haborted hfalse t
  rw [recover]
  split
  · exact sound_of_rejected rfl hlog haborted'
  · next hrunning =>
    have hrunning : s.aborted = false := by simpa using hrunning
    dsimp only
    split
    · exact sound_of_rejected rfl hlog haborted'
    · next hretry =>
      obtain ⟨hkind, hattempt, hdelay⟩ : retryable (classifyTTSError (failure.error parseDate)) = true ∧
          s.attempt < 2 ∧ computed parseDate s.attempt failure ≤ (60000 : Rat) := by
        simpa [not_or, computed] using hretry
      have hpos : ((0 : Rat) : Double) ≤ computed parseDate s.attempt failure :=
        (WithTop.coe_le_coe.mpr (by positivity)).trans (backOff_le s.attempt _)
      cases onRetry with
      | returns =>
          rw [waitForRetry, if_neg (by simp [hrunning])]
          refine ⟨hlog, haborted', by simp, fun due hdue => ⟨hrunning, ?_⟩, by simp⟩
          refine ⟨s.now, failure, log, rfl, hkind, hattempts, hattempt, hdelay, ?_⟩
          rw [← timeout_eq hpos hdelay]
          exact WithTop.coe_le_coe.mpr (Phase.waiting.inj hdue).le
      | aborts =>
          have habort :
              ({ s with log := .failed s.now failure :: log } : Retry Result).abort.aborted = true := by
            rw [abort, if_neg (by simp [hrunning])]
          dsimp only
          rw [waitForRetry, if_pos habort]
          refine sound_of_rejected rfl ?_ (by simp [habort])
          rw [abort, if_neg (by simp [hrunning])]
          exact hlog
      | throws other => exact sound_of_rejected rfl hlog haborted'

theorem settle_sound (h : s.Sound parseDate) (hphase : s.phase = .requesting)
    (outcome : Except Failure Result)
    (onRetry : Callback) : (s.settle parseDate outcome onRetry).Sound parseDate := by
  cases outcome with
  | ok result =>
      rw [settle]
      split
      · next haborted =>
        rw [recover, if_pos haborted]
        exact sound_of_rejected rfl h.respects h.aborted
      · exact ⟨h.respects, h.aborted, by simp, by simp, by simp⟩
  | error failure => exact recover_sound (h.requesting hphase).1 h.respects h.aborted onRetry

theorem step_sound (h : s.Sound parseDate) {e : RetryEvent Result} (hs : s.step parseDate e = some t) :
    t.Sound parseDate := by
  cases e with
  | tick time =>
      rw [step] at hs
      split at hs
      · next hle =>
        cases hs
        refine { h with woken := fun hphase haborted => ?_ }
        obtain ⟨due, hdue, hpauses⟩ := h.woken hphase haborted
        exact ⟨due, hdue.trans hle, hpauses⟩
      · cases hs
  | abort =>
      cases hs
      exact abort_sound h
  | settle outcome onRetry =>
      rw [step] at hs
      split at hs
      · next hphase =>
        cases hs
        exact settle_sound h hphase outcome onRetry
      · cases hs
  | fire =>
      rw [step] at hs
      split at hs
      · next due hphase =>
        split at hs
        · next hdue =>
          cases hs
          exact { h with
            requesting := by simp
            waiting := by simp
            woken := fun _ _ => ⟨due, hdue, (h.waiting due hphase).2⟩ }
        · cases hs
      · cases hs
  | resume =>
      rw [step] at hs
      split at hs
      · next hphase =>
        cases hs
        exact turn_sound h hphase
      · cases hs

theorem Reached.sound (h : s.Reached parseDate) : s.Sound parseDate := by
  refine Reachable.invariant (Sound parseDate) ?_ ?_ h
  · rintro _ ⟨now, aborted, rfl⟩
    exact call_sound now aborted
  · rintro s e t hsound ⟨-, hstep⟩
    exact step_sound hsound hstep

end Retry

end ZReader.Frontend.SpeechRequests
