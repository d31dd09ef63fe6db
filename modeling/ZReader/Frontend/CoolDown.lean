import ZReader.Frontend.SpeechRequests

namespace ZReader.Frontend.CoolDown

open Lib.Doubles Lib.Ecma Lib.Transition SpeechRequests

/-! ## Requests of the player -/

/-- What of a response is read before its body. -/
structure Answer where
  status : Nat
  retryAfter : Option Text
  deriving DecidableEq

def Answer.ok (answer : Answer) : Bool := 200 ≤ answer.status ∧ answer.status ≤ 299

/-- How far a request is: it has been sent, the body of its answer is awaited (of an answer
that arrived at a time), that body has been read, or it has ended in another way. -/
inductive Exchange
  | sent
  | reading (answer : Answer) (arrival : Nat)
  | read (answer : Answer) (arrival : Nat)
  | ended
  deriving DecidableEq

/-- The fields of the player that the cool-down uses, and the requests that it has sent for
`speak` and for `preload`, which both go through `fetchAudioBlobWithController`. -/
structure BackendTTS where
  providerRetryNotBefore : Double
  providerRetryError : Option TTSRequestError
  requests : List Exchange
  /-- `Date.now()`, in whole milliseconds. -/
  now : Nat
  deriving DecidableEq

inductive Event
  | tick (time : Nat)
  | request
  | respond (i : Nat) (answer : Answer)
  /-- `response.json()` settles, with no code where it fails. The clock is read twice. -/
  | readBody (i : Nat) (code : Option String) (later : Nat)
  /-- A request is aborted or fails before its answer. -/
  | fail (i : Nat)
  deriving DecidableEq

namespace BackendTTS

def new (now : Nat) : BackendTTS := ⟨0, none, [], now⟩

def send (p : BackendTTS) : BackendTTS := { p with requests := p.requests ++ [.sent] }

/-- `fetchAudioBlobWithController` up to `fetch`. -/
def fetchAudioBlobWithController (p : BackendTTS) : Except TTSRequestError BackendTTS :=
  match p.providerRetryError with
  | none => .ok p.send
  | some error =>
      if (p.now : Rat) < p.providerRetryNotBefore then
        .error ⟨error.status, error.code, p.providerRetryNotBefore.apply (· - p.now)⟩
      else .ok p.send

def respond (p : BackendTTS) (i : Nat) (answer : Answer) : BackendTTS :=
  { p with requests := p.requests.set i (if answer.ok then .ended else .reading answer p.now) }

variable (parseDate : Text → Option Int)

/-- The rest of `fetchAudioBlobWithController` after the body of a refusal. -/
def recordRetry (p : BackendTTS) (answer : Answer) (code : Option String) (later : Nat) : BackendTTS :=
  let error : TTSRequestError :=
    ⟨answer.status, code, parseTTSRetryAfter parseDate answer.retryAfter p.now⟩
  if answer.status ∈ [429, 503] ∧ error.retryAfterMs > 0 then
    let retryNotBefore := error.retryAfterMs.apply (later + ·)
    if retryNotBefore > p.providerRetryNotBefore then
      { p with providerRetryNotBefore := retryNotBefore, providerRetryError := some error }
    else p
  else p

def step (p : BackendTTS) : Event → Option BackendTTS
  | .tick time => if p.now ≤ time then some { p with now := time } else none
  | .request =>
      match p.fetchAudioBlobWithController with
      | .ok q => some q
      | .error _ => some p
  | .respond i answer =>
      match p.requests[i]? with
      | some .sent => some (p.respond i answer)
      | _ => none
  | .readBody i code later =>
      match p.requests[i]? with
      | some (.reading answer arrival) =>
          if p.now ≤ later then
            some { p.recordRetry parseDate answer code later with
              requests := p.requests.set i (.read answer arrival)
              now := later }
          else none
      | _ => none
  | .fail i =>
      match p.requests[i]? with
      | some .sent => some { p with requests := p.requests.set i .ended }
      | _ => none

end BackendTTS

/-! ## What an answer announces -/

/-- The instant before which the provider wants no request. -/
def Answer.announces (parseDate : Text → Option Int) (answer : Answer) (arrival : Nat) : Option Rat :=
  if answer.status ∈ [429, 503] then retryInstant parseDate answer.retryAfter arrival else none

/-- The instant that an answer announces whose body is still being read. -/
def Exchange.unread (parseDate : Text → Option Int) : Exchange → Option Rat
  | .reading answer arrival => answer.announces parseDate arrival
  | .sent | .read _ _ | .ended => none

/-- The instant that an answer announces which has arrived. -/
def Exchange.announces (parseDate : Text → Option Int) : Exchange → Option Rat
  | .reading answer arrival | .read answer arrival => answer.announces parseDate arrival
  | .sent | .ended => none

namespace BackendTTS

variable (parseDate : Text → Option Int)

/-- Every instant that has been announced so far is past. -/
def Open (p : BackendTTS) : Prop :=
  ∀ exchange ∈ p.requests, ∀ instant ∈ exchange.announces parseDate, instant ≤ p.now

/-- The instants are past that are announced by answers whose body is still being read. -/
def Prompt (p : BackendTTS) : Prop :=
  ∀ exchange ∈ p.requests, ∀ instant ∈ exchange.unread parseDate, instant ≤ p.now

/-- The step reads no body, or the numbers of the program do not bring an instant forward that the
answer announces: it is past, or not after the one that would be recorded. -/
def Keeps (p : BackendTTS) : Event → Prop
  | .readBody i _ later =>
      match p.requests[i]? with
      | some (.reading answer arrival) =>
          ∀ instant ∈ answer.announces parseDate arrival, instant ≤ later ∨
            0 < parseTTSRetryAfter parseDate answer.retryAfter p.now ∧
              (instant : Double) ≤ (parseTTSRetryAfter parseDate answer.retryAfter p.now).apply (later + ·)
      | _ => True
  | _ => True

/-- A call of `speak` or `preload` sends a request. -/
def Sends (p : BackendTTS) (e : Event) : Prop := e = .request ∧ p.fetchAudioBlobWithController.isOk = true

instance (p : BackendTTS) (e : Event) : Decidable (p.Sends e) := inferInstanceAs (Decidable (_ ∧ _))

instance (p : BackendTTS) (e : Event) : Decidable (p.Keeps parseDate e) := by
  unfold Keeps
  split
  · split <;> infer_instance
  · infer_instance

instance (p : BackendTTS) : Decidable (p.Open parseDate) :=
  inferInstanceAs (Decidable (∀ exchange ∈ p.requests, ∀ instant ∈ exchange.announces parseDate, _))

instance (p : BackendTTS) : Decidable (p.Prompt parseDate) :=
  inferInstanceAs (Decidable (∀ exchange ∈ p.requests, ∀ instant ∈ exchange.unread parseDate, _))

end BackendTTS

/-! ## The cool-down -/

variable {parseDate : Text → Option Int}

namespace BackendTTS

variable {p q : BackendTTS}

structure Sound (parseDate : Text → Option Int) (p : BackendTTS) : Prop where
  calm : p.providerRetryError = none → p.providerRetryNotBefore = 0
  recorded : ∀ answer arrival, Exchange.read answer arrival ∈ p.requests →
    ∀ instant ∈ answer.announces parseDate arrival,
      instant ≤ p.now ∨ (instant : Double) ≤ p.providerRetryNotBefore

/-- The longest instant is kept. -/
theorem recordRetry_spec (h : p.Sound parseDate) (answer : Answer) (code : Option String) (later : Nat) :
    p.providerRetryNotBefore ≤ (p.recordRetry parseDate answer code later).providerRetryNotBefore ∧
      ((p.recordRetry parseDate answer code later).providerRetryError = none →
        (p.recordRetry parseDate answer code later).providerRetryNotBefore = 0) ∧
      (answer.status ∈ [429, 503] → 0 < parseTTSRetryAfter parseDate answer.retryAfter p.now →
        (parseTTSRetryAfter parseDate answer.retryAfter p.now).apply (later + ·) ≤
          (p.recordRetry parseDate answer code later).providerRetryNotBefore) := by
  rw [recordRetry]
  split
  · dsimp only
    split
    · next hlonger => exact ⟨hlonger.le, by simp, fun _ _ => le_rfl⟩
    · next hshorter => exact ⟨le_rfl, h.calm, fun _ _ => not_lt.mp hshorter⟩
  · next hnone => exact ⟨le_rfl, h.calm, fun hstatus hpos => absurd ⟨hstatus, hpos⟩ hnone⟩

/-- What an answer announces is past or recorded when its body has been read. -/
theorem recordRetry_kept (h : p.Sound parseDate) {i : Nat} {answer : Answer} {arrival : Nat}
    (hreading : p.requests[i]? = some (.reading answer arrival)) {code : Option String} {later : Nat}
    (hkeeps : p.Keeps parseDate (.readBody i code later)) :
    ∀ instant ∈ answer.announces parseDate arrival, instant ≤ later ∨
      (instant : Double) ≤ (p.recordRetry parseDate answer code later).providerRetryNotBefore := by
  intro instant hinstant
  rw [Keeps, hreading] at hkeeps
  obtain hpast | ⟨hpos, hle⟩ := hkeeps instant hinstant
  · exact .inl hpast
  · have hstatus : answer.status ∈ [429, 503] := by
      rw [Answer.announces] at hinstant
      split at hinstant
      · assumption
      · cases hinstant
    exact .inr (hle.trans ((recordRetry_spec h answer code later).2.2 hstatus hpos))

/-- A request changes to something that has not been read. -/
theorem Sound.set (h : p.Sound parseDate) {i : Nat} {exchange : Exchange}
    (hunread : ∀ answer arrival, exchange ≠ .read answer arrival) :
    ({ p with requests := p.requests.set i exchange }).Sound parseDate := by
  refine { h with recorded := fun answer arrival hmem => ?_ }
  rcases List.mem_or_eq_of_mem_set hmem with hmem | heq
  · exact h.recorded answer arrival hmem
  · exact absurd heq.symm (hunread answer arrival)

theorem Sound.send (h : p.Sound parseDate) : p.send.Sound parseDate := by
  refine { h with recorded := fun answer arrival hmem => ?_ }
  rcases List.mem_append.mp hmem with hmem | hmem
  · exact h.recorded answer arrival hmem
  · cases List.mem_singleton.mp hmem

theorem fetch_eq (p : BackendTTS) :
    (p.fetchAudioBlobWithController = .ok p.send ∧
      (p.providerRetryError = none ∨ p.providerRetryNotBefore ≤ p.now)) ∨
    ∃ error, p.fetchAudioBlobWithController = .error error := by
  rw [fetchAudioBlobWithController]
  cases p.providerRetryError with
  | none => exact .inl ⟨rfl, .inl rfl⟩
  | some error =>
      dsimp only
      split
      · exact .inr ⟨_, rfl⟩
      · next hpast => exact .inl ⟨rfl, .inr (not_lt.mp hpast)⟩

theorem step_sound (h : p.Sound parseDate) {e : Event} (hs : p.step parseDate e = some q)
    (hkeeps : p.Keeps parseDate e) : q.Sound parseDate := by
  cases e with
  | tick time =>
      rw [step] at hs
      split at hs
      · next hle =>
        cases hs
        exact ⟨h.calm, fun answer arrival hmem instant hi =>
          (h.recorded answer arrival hmem instant hi).imp_left (Nat.cast_le.mpr hle).trans'⟩
      · cases hs
  | request =>
      rw [step] at hs
      rcases p.fetch_eq with ⟨heq, -⟩ | ⟨error, heq⟩
      · rw [heq] at hs
        cases hs
        exact h.send
      · rw [heq] at hs
        cases hs
        exact h
  | respond i answer =>
      rw [step] at hs
      split at hs
      · cases hs
        refine h.set fun answer' arrival heq => ?_
        split at heq <;> cases heq
      · cases hs
  | readBody i code later =>
      rw [step] at hs
      split at hs
      · next answer arrival hreading =>
        split at hs
        · next hlater =>
          cases hs
          obtain ⟨hlonger, hcalm, -⟩ := recordRetry_spec h answer code later
          refine ⟨hcalm, fun answer' arrival' hmem instant hi => ?_⟩
          rcases List.mem_or_eq_of_mem_set hmem with hmem | heq
          · exact (h.recorded answer' arrival' hmem instant hi).imp
              (Nat.cast_le.mpr hlater).trans' hlonger.trans'
          · cases heq
            exact recordRetry_kept h hreading hkeeps instant hi
        · cases hs
      · cases hs
  | fail i =>
      rw [step] at hs
      split at hs
      · cases hs
        exact h.set (by simp)
      · cases hs

theorem new_sound (now : Nat) : (new now).Sound parseDate := ⟨fun _ => rfl, by simp [new]⟩

/-- When a request is sent, whatever has been recorded is past. -/
theorem open_iff_prompt (h : p.Sound parseDate) {e : Event} (hsends : p.Sends e) :
    p.Open parseDate ↔ p.Prompt parseDate := by
  have hpast : p.providerRetryNotBefore ≤ (p.now : Rat) := by
    rcases p.fetch_eq with ⟨-, hnone | hpast⟩ | ⟨error, heq⟩
    · rw [h.calm hnone]
      exact WithTop.coe_le_coe.mpr (Nat.cast_nonneg _)
    · exact hpast
    · have hok := hsends.2
      rw [heq] at hok
      cases hok
  constructor
  · intro hopen exchange hmem instant hi
    cases exchange with
    | reading answer arrival => exact hopen _ hmem instant hi
    | sent | read _ _ | ended => cases hi
  · intro hprompt exchange hmem instant hi
    cases exchange with
    | reading answer arrival => exact hprompt _ hmem instant hi
    | read answer arrival =>
        refine (h.recorded answer arrival hmem instant hi).elim id fun hle => ?_
        exact WithTop.coe_le_coe.mp (hle.trans hpast)
    | sent | ended => cases hi

/-- A delay of whole milliseconds brings no instant forward, as the instant is a double too. -/
theorem keeps_of_whole {i : Nat} {answer : Answer} {arrival n later : Nat}
    (h : Whole parseDate answer.retryAfter p.now n)
    (hreading : p.requests[i]? = some (.reading answer arrival))
    (harrival : arrival ≤ p.now) (code : Option String) (hlater : p.now ≤ later)
    (hsmall : later + n ≤ 2 ^ 53) :
    p.Keeps parseDate (.readBody i code later) := by
  rw [Keeps, hreading]
  intro instant hinstant
  have hle : instant ≤ (later + n : Nat) := by
    rw [Answer.announces] at hinstant
    split at hinstant
    · have hle := retryInstant_le parseDate harrival hinstant
      rw [h.asked] at hle
      refine hle.trans ?_
      push_cast
      exact add_le_add_left (Nat.cast_le.mpr hlater) _
    · cases hinstant
  obtain rfl | hpos := Nat.eq_zero_or_pos n
  · exact .inl hle
  · have happly : Double.apply ((later : Rat) + ·) (n : Rat) = ((later + n : Nat) : Rat) := by
      rw [← nearest_natCast hsmall]
      push_cast
      rfl
    refine .inr ?_
    rw [h.parsed, happly]
    exact ⟨WithTop.coe_lt_coe.mpr (Nat.cast_pos.mpr hpos), WithTop.coe_le_coe.mpr hle⟩

end BackendTTS

end ZReader.Frontend.CoolDown
