import ZReader.Lib.Tokens
import ZReader.Lib.Transition

namespace ZReader.Services

open Lib.Tokens Lib.Transition

/-! ## The slots of the speech service -/

structure TTSCacheConfig where
  maxConcurrent : Int
  maxQueued : Int

def defaultTTSMaxConcurrency : Int := 3
def defaultTTSMaxQueued : Int := 12

/-- Why `acquireTTSSlotContext` fails. -/
inductive AcquireError
  | busy
  | cancelled
  deriving DecidableEq

/-- Where a caller is between its call of `acquireTTSSlotContext` and the end of its
release. The failure branches have left the second `select` but still have to take
their token out of the queue. -/
inductive Phase
  | arriving
  | waiting
  | failing (err : AcquireError)
  | holding
  | releasing
  | failed (err : AcquireError)
  | released
  deriving DecidableEq

structure Caller where
  phase : Phase
  /-- Its context is done. -/
  cancelled : Bool
  /-- Its queue timer has fired. -/
  expired : Bool
  deriving DecidableEq

structure TTSRuntimeState where
  semaphore : Channel
  queue : Channel
  callers : List Caller
  deriving DecidableEq

def newTTSRuntimeState (config : TTSCacheConfig) : TTSRuntimeState :=
  let maxConcurrent :=
    if config.maxConcurrent ≤ 0 then defaultTTSMaxConcurrency else config.maxConcurrent
  let maxQueued := if config.maxQueued ≤ 0 then defaultTTSMaxQueued else config.maxQueued
  { semaphore := .make maxConcurrent.toNat
    queue := .make (maxConcurrent + maxQueued).toNat
    callers := [] }

inductive Action
  /-- Another caller arrives. -/
  | call
  | cancel (i : Nat)
  | fire (i : Nat)
  /-- The cases of the first `select`. -/
  | sendQueue (i : Nat)
  | done (i : Nat)
  | default (i : Nat)
  /-- The cases of the second `select`. -/
  | sendSemaphore (i : Nat)
  | timer (i : Nat)
  | doneWaiting (i : Nat)
  /-- The first receive of a release. -/
  | receiveSemaphore (i : Nat)
  /-- The receive of a failure branch, or the second one of a release. -/
  | receiveQueue (i : Nat)

namespace TTSRuntimeState

def caller (s : TTSRuntimeState) (i : Nat) (phase : Phase) : Option Caller :=
  (s.callers[i]?).filter (·.phase = phase)

def put (s : TTSRuntimeState) (i : Nat) (c : Caller) : TTSRuntimeState :=
  { s with callers := s.callers.set i c }

def step (s : TTSRuntimeState) : Action → Option TTSRuntimeState
  | .call => some { s with callers := s.callers ++ [⟨.arriving, false, false⟩] }
  | .cancel i => (s.callers[i]?).map fun c => s.put i { c with cancelled := true }
  | .fire i => (s.caller i .waiting).map fun c => s.put i { c with expired := true }
  | .sendQueue i =>
      (s.caller i .arriving).bind fun c =>
        s.queue.send.map fun queue => { s.put i { c with phase := .waiting } with queue := queue }
  | .done i =>
      (s.caller i .arriving).bind fun c =>
        if c.cancelled then some (s.put i { c with phase := .failed .cancelled }) else none
  | .default i =>
      (s.caller i .arriving).bind fun c =>
        if s.queue.send = none ∧ ¬ c.cancelled then some (s.put i { c with phase := .failed .busy })
        else none
  | .sendSemaphore i =>
      (s.caller i .waiting).bind fun c =>
        s.semaphore.send.map fun semaphore =>
          { s.put i { c with phase := .holding } with semaphore := semaphore }
  | .timer i =>
      (s.caller i .waiting).bind fun c =>
        if c.expired then some (s.put i { c with phase := .failing .busy }) else none
  | .doneWaiting i =>
      (s.caller i .waiting).bind fun c =>
        if c.cancelled then some (s.put i { c with phase := .failing .cancelled }) else none
  | .receiveSemaphore i =>
      (s.caller i .holding).bind fun c =>
        s.semaphore.receive.map fun semaphore =>
          { s.put i { c with phase := .releasing } with semaphore := semaphore }
  | .receiveQueue i =>
      (s.callers[i]?).bind fun c =>
        match c.phase with
        | .failing err =>
            s.queue.receive.map fun queue => { s.put i { c with phase := .failed err } with queue := queue }
        | .releasing =>
            s.queue.receive.map fun queue => { s.put i { c with phase := .released } with queue := queue }
        | _ => none

/-! ## Tokens -/

end TTSRuntimeState

/-- The tokens of the semaphore that belong to the caller. -/
def Caller.slots (c : Caller) : ℕ := if c.phase = .holding then 1 else 0

/-- The tokens of the queue that belong to the caller. -/
def Caller.places (c : Caller) : ℕ :=
  match c.phase with
  | .waiting | .failing _ | .holding | .releasing => 1
  | .arriving | .failed _ | .released => 0

namespace TTSRuntimeState

/-- The runs from a state of the runtime. -/
abbrev Run (s s' : TTSRuntimeState) : Prop :=
  Reachable (· = s) (fun s a t => step s a = some t) s'

theorem caller_eq_some {s : TTSRuntimeState} {i : Nat} {phase : Phase} {c : Caller}
    (h : s.caller i phase = some c) : s.callers[i]? = some c ∧ c.phase = phase := by
  rw [caller, Option.filter_eq_some_iff, decide_eq_true_eq] at h
  exact h

/-- A step lets a caller arrive, or moves one caller together with its tokens. -/
theorem step_cases {s s' : TTSRuntimeState} {a : Action} (h : s.step a = some s') :
    (s' = { s with callers := s.callers ++ [⟨.arriving, false, false⟩] }) ∨
    ∃ i c c', s.callers[i]? = some c ∧ s'.callers = s.callers.set i c' ∧
      s'.semaphore.capacity = s.semaphore.capacity ∧ s'.queue.capacity = s.queue.capacity ∧
      s'.semaphore.held + c.slots = s.semaphore.held + c'.slots ∧
      s'.queue.held + c.places = s.queue.held + c'.places := by
  cases a with
  | call =>
      cases h
      exact Or.inl rfl
  | cancel i =>
      right
      rw [step, Option.map_eq_some_iff] at h
      obtain ⟨c, hi, rfl⟩ := h
      exact ⟨i, c, { c with cancelled := true }, hi, rfl, rfl, rfl, rfl, rfl⟩
  | fire i =>
      right
      rw [step, Option.map_eq_some_iff] at h
      obtain ⟨c, hi, rfl⟩ := h
      exact ⟨i, c, { c with expired := true }, (caller_eq_some hi).1, rfl, rfl, rfl, rfl, rfl⟩
  | sendQueue i =>
      right
      rw [step, Option.bind_eq_some_iff] at h
      obtain ⟨c, hc, h⟩ := h
      obtain ⟨hi, hphase⟩ := caller_eq_some hc
      obtain ⟨queue, hsend, rfl⟩ := Option.map_eq_some_iff.mp h
      obtain ⟨hcap, hheld⟩ := Channel.send_eq_some hsend
      refine ⟨i, c, { c with phase := .waiting }, hi, rfl, rfl, hcap, ?_, ?_⟩
      · simp [Caller.slots, hphase, put]
      · simp [Caller.places, hphase, hheld]
  | done i =>
      right
      rw [step, Option.bind_eq_some_iff] at h
      obtain ⟨c, hc, h⟩ := h
      obtain ⟨hi, hphase⟩ := caller_eq_some hc
      split at h
      · cases h
        refine ⟨i, c, { c with phase := .failed .cancelled }, hi, rfl, rfl, rfl, ?_, ?_⟩
        · simp [Caller.slots, hphase, put]
        · simp [Caller.places, hphase, put]
      · cases h
  | default i =>
      right
      rw [step, Option.bind_eq_some_iff] at h
      obtain ⟨c, hc, h⟩ := h
      obtain ⟨hi, hphase⟩ := caller_eq_some hc
      split at h
      · cases h
        refine ⟨i, c, { c with phase := .failed .busy }, hi, rfl, rfl, rfl, ?_, ?_⟩
        · simp [Caller.slots, hphase, put]
        · simp [Caller.places, hphase, put]
      · cases h
  | sendSemaphore i =>
      right
      rw [step, Option.bind_eq_some_iff] at h
      obtain ⟨c, hc, h⟩ := h
      obtain ⟨hi, hphase⟩ := caller_eq_some hc
      obtain ⟨semaphore, hsend, rfl⟩ := Option.map_eq_some_iff.mp h
      obtain ⟨hcap, hheld⟩ := Channel.send_eq_some hsend
      refine ⟨i, c, { c with phase := .holding }, hi, rfl, hcap, rfl, ?_, ?_⟩
      · simp [Caller.slots, hphase, hheld]
      · simp [Caller.places, hphase, put]
  | timer i =>
      right
      rw [step, Option.bind_eq_some_iff] at h
      obtain ⟨c, hc, h⟩ := h
      obtain ⟨hi, hphase⟩ := caller_eq_some hc
      split at h
      · cases h
        refine ⟨i, c, { c with phase := .failing .busy }, hi, rfl, rfl, rfl, ?_, ?_⟩
        · simp [Caller.slots, hphase, put]
        · simp [Caller.places, hphase, put]
      · cases h
  | doneWaiting i =>
      right
      rw [step, Option.bind_eq_some_iff] at h
      obtain ⟨c, hc, h⟩ := h
      obtain ⟨hi, hphase⟩ := caller_eq_some hc
      split at h
      · cases h
        refine ⟨i, c, { c with phase := .failing .cancelled }, hi, rfl, rfl, rfl, ?_, ?_⟩
        · simp [Caller.slots, hphase, put]
        · simp [Caller.places, hphase, put]
      · cases h
  | receiveSemaphore i =>
      right
      rw [step, Option.bind_eq_some_iff] at h
      obtain ⟨c, hc, h⟩ := h
      obtain ⟨hi, hphase⟩ := caller_eq_some hc
      obtain ⟨semaphore, hreceive, rfl⟩ := Option.map_eq_some_iff.mp h
      obtain ⟨hcap, hheld⟩ := Channel.receive_eq_some hreceive
      refine ⟨i, c, { c with phase := .releasing }, hi, rfl, hcap, rfl, ?_, ?_⟩
      · simp [Caller.slots, hphase, hheld]
      · simp [Caller.places, hphase, put]
  | receiveQueue i =>
      right
      rw [step, Option.bind_eq_some_iff] at h
      obtain ⟨c, hi, h⟩ := h
      split at h
      · next err hphase =>
        obtain ⟨queue, hreceive, rfl⟩ := Option.map_eq_some_iff.mp h
        obtain ⟨hcap, hheld⟩ := Channel.receive_eq_some hreceive
        refine ⟨i, c, { c with phase := .failed err }, hi, rfl, rfl, hcap, ?_, ?_⟩
        · simp [Caller.slots, hphase, put]
        · simp [Caller.places, hphase, hheld]
      · next hphase =>
        obtain ⟨queue, hreceive, rfl⟩ := Option.map_eq_some_iff.mp h
        obtain ⟨hcap, hheld⟩ := Channel.receive_eq_some hreceive
        refine ⟨i, c, { c with phase := .released }, hi, rfl, rfl, hcap, ?_, ?_⟩
        · simp [Caller.slots, hphase, put]
        · simp [Caller.places, hphase, hheld]
      · cases h

/-! ## The accounts -/

/-- The channels hold what belongs to the callers. -/
structure Sound (config : TTSCacheConfig) (s : TTSRuntimeState) : Prop where
  semaphoreCapacity : s.semaphore.capacity = (newTTSRuntimeState config).semaphore.capacity
  queueCapacity : s.queue.capacity = (newTTSRuntimeState config).queue.capacity
  semaphore : s.semaphore.held = total Caller.slots s.callers
  queue : s.queue.held = total Caller.places s.callers

theorem sound_new (config : TTSCacheConfig) : (newTTSRuntimeState config).Sound config :=
  ⟨rfl, rfl, rfl, rfl⟩

theorem Sound.step {config : TTSCacheConfig} {s s' : TTSRuntimeState} {a : Action}
    (h : s.Sound config) (hstep : s.step a = some s') : s'.Sound config := by
  rcases step_cases hstep with rfl | ⟨i, c, c', hi, hcallers, hsc, hqc, hs, hq⟩
  · refine ⟨h.semaphoreCapacity, h.queueCapacity, ?_, ?_⟩
    · rw [total_concat]
      exact h.semaphore
    · rw [total_concat]
      exact h.queue
  · refine ⟨hsc.trans h.semaphoreCapacity, hqc.trans h.queueCapacity, ?_, ?_⟩
    · have hbefore := h.semaphore
      rw [total_of_getElem? hi] at hbefore
      rw [hcallers, total_set hi]
      omega
    · have hbefore := h.queue
      rw [total_of_getElem? hi] at hbefore
      rw [hcallers, total_set hi]
      omega

theorem Sound.run {config : TTSCacheConfig} {s s' : TTSRuntimeState} (h : s.Sound config)
    (hrun : Run s s') : s'.Sound config := by
  refine hrun.invariant (Sound config) ?_ (fun _ _ _ hs hstep => hs.step hstep)
  rintro _ rfl
  exact h

def holders (s : TTSRuntimeState) : ℕ := s.callers.countP (·.phase = .holding)

/-- A failed caller waits until it has left the queue. -/
def waiters (s : TTSRuntimeState) : ℕ :=
  s.callers.countP (fun c => match c.phase with | .waiting | .failing _ => true | _ => false)

def betweenReceives (s : TTSRuntimeState) : ℕ := s.callers.countP (·.phase = .releasing)

theorem total_slots (l : List Caller) : total Caller.slots l = l.countP (·.phase = .holding) := by
  induction l with
  | nil => rfl
  | cons c l ih =>
      rw [total, List.map_cons, List.sum_cons, List.countP_cons, ← ih, Nat.add_comm, total]
      simp [Caller.slots]

theorem total_places (s : TTSRuntimeState) :
    total Caller.places s.callers = s.holders + s.waiters + s.betweenReceives := by
  rw [holders, waiters, betweenReceives]
  induction s.callers with
  | nil => rfl
  | cons c l ih =>
      rw [total, List.map_cons, List.sum_cons, ← total, ih]
      simp only [List.countP_cons]
      cases hphase : c.phase <;> simp [Caller.places, hphase] <;> omega

/-- What the callers other than `i` have done to the channels between two states is all
that has happened to them. -/
def Untouched (s s' : TTSRuntimeState) (i : Nat) : Prop :=
  s'.semaphore.held + total Caller.slots (s.callers.eraseIdx i) =
      s.semaphore.held + total Caller.slots (s'.callers.eraseIdx i) ∧
    s'.queue.held + total Caller.places (s.callers.eraseIdx i) =
      s.queue.held + total Caller.places (s'.callers.eraseIdx i)

theorem Sound.untouched {config : TTSCacheConfig} {s s' : TTSRuntimeState} (h : s.Sound config)
    (h' : s'.Sound config) {i : Nat} {c c' : Caller} (hi : s.callers[i]? = some c)
    (hi' : s'.callers[i]? = some c') (hslots : c'.slots = c.slots) (hplaces : c'.places = c.places) :
    Untouched s s' i := by
  have hs := h.semaphore
  have hs' := h'.semaphore
  have hq := h.queue
  have hq' := h'.queue
  rw [total_of_getElem? hi] at hs hq
  rw [total_of_getElem? hi'] at hs' hq'
  constructor
  · omega
  · omega

/-- No receive of a failure branch or of a release has to wait. -/
theorem Sound.receives {config : TTSCacheConfig} {s : TTSRuntimeState} (h : s.Sound config)
    {i : Nat} {c : Caller} (hi : s.callers[i]? = some c) :
    (c.phase = .holding → (s.step (.receiveSemaphore i)).isSome) ∧
    (∀ err, c.phase = .failing err → (s.step (.receiveQueue i)).isSome) ∧
    (c.phase = .releasing → (s.step (.receiveQueue i)).isSome) := by
  have hplaces : c.places = 1 → ∃ queue, s.queue.receive = some queue := by
    intro hone
    apply Channel.exists_receive
    rw [h.queue]
    have hle : c.places ≤ total Caller.places s.callers := weight_le_total hi
    omega
  refine ⟨?_, ?_, ?_⟩
  · intro hphase
    obtain ⟨semaphore, hreceive⟩ : ∃ semaphore, s.semaphore.receive = some semaphore := by
      apply Channel.exists_receive
      rw [h.semaphore]
      have hle : c.slots ≤ total Caller.slots s.callers := weight_le_total hi
      rw [Caller.slots, if_pos hphase] at hle
      exact hle
    have hcaller : s.caller i .holding = some c := by simp [caller, hi, hphase]
    rw [TTSRuntimeState.step, hcaller, Option.bind_some, hreceive]
    rfl
  · intro err hphase
    obtain ⟨queue, hreceive⟩ := hplaces (by simp [Caller.places, hphase])
    rw [TTSRuntimeState.step, hi, Option.bind_some, hphase]
    simp only [hreceive]
    rfl
  · intro hphase
    obtain ⟨queue, hreceive⟩ := hplaces (by simp [Caller.places, hphase])
    rw [TTSRuntimeState.step, hi, Option.bind_some, hphase]
    simp only [hreceive]
    rfl

/-- The caller has nothing left to do. -/
def Finished (c : Caller) : Prop := c.phase = .released ∨ ∃ err, c.phase = .failed err

/-- The tokens in the channels are those of the holders and of the admitted callers; a
failed call has changed nothing, nobody who gives a token back waits for it, and
nothing is left over in the end. -/
theorem admission_accounts {config : TTSCacheConfig} (hconcurrent : 1 ≤ config.maxConcurrent)
    (hqueued : 1 ≤ config.maxQueued) {s : TTSRuntimeState} (h : Run (newTTSRuntimeState config) s) :
    (s.semaphore.held = s.holders ∧ (s.holders : ℤ) ≤ config.maxConcurrent) ∧
    (s.queue.held = s.holders + s.waiters + s.betweenReceives ∧
      ((s.holders + s.waiters + s.betweenReceives : ℕ) : ℤ) ≤
        config.maxConcurrent + config.maxQueued) ∧
    (∀ s' i c c' err, Run s s' → s.callers[i]? = some c → c.phase = .arriving →
      s'.callers[i]? = some c' → c'.phase = .failed err → Untouched s s' i) ∧
    (∀ i c, s.callers[i]? = some c →
      (c.phase = .holding → (s.step (.receiveSemaphore i)).isSome) ∧
      (∀ err, c.phase = .failing err → (s.step (.receiveQueue i)).isSome) ∧
      (c.phase = .releasing → (s.step (.receiveQueue i)).isSome)) ∧
    ((∀ c ∈ s.callers, Finished c) → s.semaphore.held = 0 ∧ s.queue.held = 0) := by
  have hsound := (sound_new config).run h
  have hslots : s.semaphore.held = s.holders := hsound.semaphore.trans (total_slots s.callers)
  have hplaces := hsound.queue.trans (total_places s)
  have hsc := hsound.semaphoreCapacity
  have hqc := hsound.queueCapacity
  have hsb := s.semaphore.bounded
  have hqb := s.queue.bounded
  simp only [newTTSRuntimeState, Channel.make, if_neg (show ¬ config.maxConcurrent ≤ 0 by omega),
    if_neg (show ¬ config.maxQueued ≤ 0 by omega)] at hsc hqc
  refine ⟨⟨hslots, by omega⟩, ⟨hplaces, by omega⟩, ?_, ?_, ?_⟩
  · intro s' i c c' err hrun hi hphase hi' hphase'
    refine hsound.untouched (hsound.run hrun) hi hi' ?_ ?_
    · simp [Caller.slots, hphase, hphase']
    · simp [Caller.places, hphase, hphase']
  · intro i c hi
    exact hsound.receives hi
  · intro hfinished
    rw [hsound.semaphore, hsound.queue]
    constructor
    · apply total_eq_zero
      intro c hc
      rcases hfinished c hc with hphase | ⟨err, hphase⟩
      · simp [Caller.slots, hphase]
      · simp [Caller.slots, hphase]
    · apply total_eq_zero
      intro c hc
      rcases hfinished c hc with hphase | ⟨err, hphase⟩
      · simp [Caller.places, hphase]
      · simp [Caller.places, hphase]

/-- One slot and one place to wait: the first caller holds, the second one waits. -/
def oneSlot : TTSCacheConfig := ⟨1, 1⟩

theorem oneSlot_accounts : ∃ s, Run (newTTSRuntimeState oneSlot) s ∧ s.semaphore.held = 1 ∧
    s.queue.held = 2 ∧ (s.holders : ℤ) ≤ 1 ∧
    ((s.holders + s.waiters + s.betweenReceives : ℕ) : ℤ) ≤ 1 + 1 := by
  have hrun : (replay step (fun _ _ => True) (newTTSRuntimeState oneSlot)
      [.call, .sendQueue 0, .sendSemaphore 0, .call, .sendQueue 1]).any
      (fun s => s.semaphore.held = 1 ∧ s.queue.held = 2) = true := by decide
  obtain ⟨s, hs, hheld⟩ := (Option.any_eq_true _ _).mp hrun
  rw [decide_eq_true_eq] at hheld
  have hreplay : Reachable (· = newTTSRuntimeState oneSlot) (Steps step fun _ _ => True) s :=
    replay_reachable _ _ (.start rfl) hs
  have hreach : Run (newTTSRuntimeState oneSlot) s := hreplay.mono (fun _ _ _ hstep => hstep.2)
  have h := @admission_accounts oneSlot (by decide) (by decide) s hreach
  exact ⟨s, hreach, hheld.1, hheld.2, h.1.2, h.2.1.2⟩

end TTSRuntimeState

end ZReader.Services
