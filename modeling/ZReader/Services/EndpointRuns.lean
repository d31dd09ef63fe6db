import ZReader.Services.Endpoint

namespace ZReader.Services.Endpoint

open Lib.Tokens Lib.Transition

/-! ## Pointers and places among the waiters -/

/-- The call counts among the waiters of the refresh. -/
def TTSCall.stake (c : ℕ) (caller : TTSCall) : ℕ :=
  match caller.phase with
  | .waiting c' | .leaving c' => if c' = c then 1 else 0
  | _ => 0

/-- The credentials that a call has in hand. -/
def CallPhase.pointer : CallPhase → Option ℕ
  | .looked cache => cache
  | .holding cache | .awaiting cache | .rejected cache => some cache
  | _ => none

def TTSCall.Knows (caller : TTSCall) (x : ℕ) : Prop :=
  x ∈ caller.sent ∨ caller.phase.pointer = some x

namespace Endpoints

/-- The object exists, and no refresh has still to store it. -/
def Published (s : Endpoints) (x : ℕ) : Prop :=
  x < s.objects.length ∧ ∀ (c : ℕ) call, s.refreshes[c]? = some call → call.phase ≠ .storing x

/-- Nobody has a pointer to the object. -/
def Unseen (s : Endpoints) (x : ℕ) : Prop :=
  s.cache ≠ some x ∧ (∀ caller ∈ s.calls, ¬caller.Knows x) ∧
    ∀ (c : ℕ) call, s.refreshes[c]? = some call → call.held ≠ some x

structure Sound (s : Endpoints) : Prop where
  waiters : ∀ (c : ℕ) call, s.refreshes[c]? = some call → call.running = true →
    call.waiters = ((total (TTSCall.stake c) s.calls : ℕ) : ℤ)
  places : ∀ caller ∈ s.calls, ∀ c, caller.stake c ≠ 0 → c < s.refreshes.length
  live : ∀ (c : ℕ) call, s.refreshes[c]? = some call → call.running = true → call.ctx = .live →
    s.refresh = some c
  slot : ∀ c, s.refresh = some c → ∃ call, s.refreshes[c]? = some call ∧ call.running = true
  abandoned : ∀ (c : ℕ) call, s.refreshes[c]? = some call → call.running = true →
    call.ctx = .cancelled → call.waiters = 0
  gaveUp : ∀ (c : ℕ) call, s.refreshes[c]? = some call →
    call.phase = .returning (.error .cancelled) → call.ctx = .cancelled
  deserted : ∀ (c : ℕ) call, s.refreshes[c]? = some call →
    call.phase = .finished (.error .cancelled) → total (TTSCall.stake c) s.calls = 0
  cached : ∀ x, s.cache = some x → s.Published x
  known : ∀ caller ∈ s.calls, ∀ x, caller.Knows x → s.Published x
  held : ∀ (c : ℕ) call, s.refreshes[c]? = some call → ∀ x, call.held = some x →
    call.phase ≠ .storing x → s.Published x
  stored : ∀ (c : ℕ) call, s.refreshes[c]? = some call → ∀ x, call.phase = .storing x →
    x < s.objects.length ∧ ∀ (c' : ℕ) call', s.refreshes[c']? = some call' →
      call'.phase = .storing x → c' = c

theorem Started.sound {s : Endpoints} (h : s.Started) : s.Sound := by
  obtain ⟨hobjects, hcache, hrefresh, hrefreshes, hcalls⟩ := h
  constructor
  · simp [hrefreshes]
  · simp [hcalls]
  · simp [hrefreshes]
  · simp [hrefresh]
  · simp [hrefreshes]
  · simp [hrefreshes]
  · simp [hrefreshes]
  · simp [hcache]
  · simp [hcalls]
  · simp [hrefreshes]
  · simp [hrefreshes]

/-! ## Steps of a call -/

theorem total_putCall {s : Endpoints} {i : ℕ} {caller caller' : TTSCall}
    (hi : s.calls[i]? = some caller) {c : ℕ} (hstake : caller'.stake c ≤ caller.stake c) :
    total (TTSCall.stake c) (s.calls.set i caller') + (caller.stake c - caller'.stake c) =
      total (TTSCall.stake c) s.calls := by
  rw [total_set hi, total_of_getElem? hi]
  omega

theorem mem_set_cases {l : List TTSCall} {i : ℕ} {caller' other : TTSCall}
    (h : other ∈ l.set i caller') : other = caller' ∨ other ∈ l :=
  (List.mem_or_eq_of_mem_set h).symm

/-- A call that leaves no running refresh, and has in hand only what everyone may have. -/
theorem Sound.putCall {s : Endpoints} (h : s.Sound) {i : ℕ} {caller caller' : TTSCall}
    (hi : s.calls[i]? = some caller) (hless : ∀ c, caller'.stake c ≤ caller.stake c)
    (hstake : ∀ (c : ℕ) call, s.refreshes[c]? = some call → call.running = true →
      caller'.stake c = caller.stake c)
    (hknows : ∀ x, caller'.Knows x → s.Published x) : (s.putCall i caller').Sound := by
  have hmem : caller ∈ s.calls := List.mem_of_getElem? hi
  refine ⟨?_, ?_, h.live, h.slot, h.abandoned, h.gaveUp, ?_, h.cached, ?_, h.held, h.stored⟩
  · intro c call hc hrunning
    rw [h.waiters c call hc hrunning]
    have htotal := total_putCall hi (hless c)
    have heq := hstake c call hc hrunning
    simp only [Endpoints.putCall]
    congr 1
    omega
  · intro other hother c hplace
    rcases mem_set_cases hother with rfl | hold
    · have hle := hless c
      exact h.places caller hmem c (by omega)
    · exact h.places other hold c hplace
  · intro c call hc hphase
    have hzero := h.deserted c call hc hphase
    have htotal := total_putCall hi (hless c)
    simp only [Endpoints.putCall]
    omega
  · intro other hother x hx
    rcases mem_set_cases hother with rfl | hold
    · exact hknows x hx
    · exact h.known other hold x hx

/-- A call that keeps its place. -/
theorem Sound.putPhase {s : Endpoints} (h : s.Sound) {i : ℕ} {caller caller' : TTSCall}
    (hi : s.calls[i]? = some caller) (hstake : ∀ c, caller'.stake c = caller.stake c)
    (hknows : ∀ x, caller'.Knows x → s.Published x) : (s.putCall i caller').Sound :=
  h.putCall hi (fun c => (hstake c).le) (fun c _ _ _ => hstake c) hknows

theorem Sound.addCall {s : Endpoints} (h : s.Sound) :
    Sound { s with calls := s.calls ++ [⟨.live, false, .asking, []⟩] } := by
  have htotal (c : ℕ) : total (TTSCall.stake c) (s.calls ++ [⟨.live, false, .asking, []⟩]) =
      total (TTSCall.stake c) s.calls := by
    rw [total_concat]
    rfl
  refine ⟨?_, ?_, h.live, h.slot, h.abandoned, h.gaveUp, ?_, h.cached, ?_, h.held, h.stored⟩
  · intro c call hc hrunning
    rw [htotal]
    exact h.waiters c call hc hrunning
  · intro caller hcaller c hplace
    rcases List.mem_append.mp hcaller with hold | hnew
    · exact h.places caller hold c hplace
    · rw [List.mem_singleton.mp hnew] at hplace
      exact absurd rfl hplace
  · intro c call hc hphase
    rw [htotal]
    exact h.deserted c call hc hphase
  · intro caller hcaller x hx
    rcases List.mem_append.mp hcaller with hold | hnew
    · exact h.known caller hold x hx
    · rw [List.mem_singleton.mp hnew] at hx
      rcases hx with hx | hx
      · cases hx
      · cases hx

/-! ## Steps of a refresh -/

/-- What a step of a refresh may change of it while it stays registered. -/
structure Progresses (s : Endpoints) (call call' : EndpointInflightCall) : Prop where
  waiters : call'.waiters = call.waiters
  running : call'.running = call.running
  live : call'.ctx = .live → call.ctx = .live
  cancelled : call'.ctx = .cancelled → call.ctx = .cancelled
  gaveUp : call'.phase = .returning (.error .cancelled) → call'.ctx = .cancelled
  held : ∀ x, call'.held = some x → call'.phase ≠ .storing x →
    s.Published x ∨ call.phase = .storing x
  stored : ∀ x, call'.phase = .storing x → x < s.objects.length ∧ (call.phase = .storing x ∨ s.Unseen x)
  finished : ∀ result, call'.phase = .finished result → call.phase = .finished result

theorem Published.putRefresh {s : Endpoints} {c : ℕ} {call call' : EndpointInflightCall}
    (hc : s.refreshes[c]? = some call)
    (hstored : ∀ x, call'.phase = .storing x → call.phase = .storing x ∨ s.Unseen x) {x : ℕ}
    (hx : s.Published x) (hseen : ¬s.Unseen x) : (s.putRefresh c call').Published x := by
  refine ⟨hx.1, fun c' other hc' hphase => ?_⟩
  rcases getElem?_set_cases hc' with ⟨rfl, rfl⟩ | ⟨-, hold⟩
  · rcases hstored x hphase with hold | hunseen
    · exact hx.2 _ call hc hold
    · exact hseen hunseen
  · exact hx.2 c' other hold hphase

theorem Sound.putRefresh {s : Endpoints} (h : s.Sound) {c : ℕ} {call call' : EndpointInflightCall}
    (hc : s.refreshes[c]? = some call) (hstep : Progresses s call call') :
    (s.putRefresh c call').Sound := by
  have hpublished {x : ℕ} (hx : s.Published x) (hseen : ¬s.Unseen x) :
      (s.putRefresh c call').Published x :=
    hx.putRefresh hc (fun y hy => (hstep.stored y hy).2) hseen
  have hcases {c' : ℕ} {other : EndpointInflightCall}
      (hother : (s.refreshes.set c call')[c']? = some other) :
      (c' = c ∧ other = call') ∨ (c' ≠ c ∧ s.refreshes[c']? = some other) :=
    getElem?_set_cases hother
  refine ⟨?_, ?_, ?_, ?_, ?_, ?_, ?_, ?_, ?_, ?_, ?_⟩
  · intro c' other hother hrunning
    rcases hcases hother with ⟨rfl, rfl⟩ | ⟨-, hold⟩
    · rw [hstep.waiters]
      exact h.waiters _ call hc (hstep.running ▸ hrunning)
    · exact h.waiters c' other hold hrunning
  · intro caller hcaller c' hplace
    simp only [Endpoints.putRefresh, List.length_set]
    exact h.places caller hcaller c' hplace
  · intro c' other hother hrunning hlive
    rcases hcases hother with ⟨rfl, rfl⟩ | ⟨-, hold⟩
    · exact h.live _ call hc (hstep.running ▸ hrunning) (hstep.live hlive)
    · exact h.live c' other hold hrunning hlive
  · intro c' hslot
    obtain ⟨other, hother, hrunning⟩ := h.slot c' hslot
    by_cases he : c' = c
    · subst he
      rw [hc] at hother
      cases hother
      exact ⟨call', getElem?_set_of_some hc call', hstep.running.trans hrunning⟩
    · exact ⟨other, by
        simp only [Endpoints.putRefresh]
        rw [List.getElem?_set_ne (Ne.symm he)]
        exact hother, hrunning⟩
  · intro c' other hother hrunning hcancelled
    rcases hcases hother with ⟨rfl, rfl⟩ | ⟨-, hold⟩
    · rw [hstep.waiters]
      exact h.abandoned _ call hc (hstep.running ▸ hrunning) (hstep.cancelled hcancelled)
    · exact h.abandoned c' other hold hrunning hcancelled
  · intro c' other hother hphase
    rcases hcases hother with ⟨rfl, rfl⟩ | ⟨-, hold⟩
    · exact hstep.gaveUp hphase
    · exact h.gaveUp c' other hold hphase
  · intro c' other hother hphase
    rcases hcases hother with ⟨rfl, rfl⟩ | ⟨-, hold⟩
    · exact h.deserted _ call hc (hstep.finished _ hphase)
    · exact h.deserted c' other hold hphase
  · intro x hx
    exact hpublished (h.cached x hx) fun hunseen => hunseen.1 hx
  · intro caller hcaller x hx
    exact hpublished (h.known caller hcaller x hx) fun hunseen => hunseen.2.1 caller hcaller hx
  · intro c' other hother x hheld hphase
    rcases hcases hother with ⟨rfl, rfl⟩ | ⟨-, hold⟩
    · rcases hstep.held x hheld hphase with hx | hstoring
      · refine ⟨hx.1, fun c'' other' hother' => ?_⟩
        rcases hcases hother' with ⟨rfl, rfl⟩ | ⟨-, hold'⟩
        · exact hphase
        · exact hx.2 c'' other' hold'
      · obtain ⟨hlt, hunique⟩ := h.stored _ call hc x hstoring
        refine ⟨hlt, fun c'' other' hother' hphase' => ?_⟩
        rcases hcases hother' with ⟨rfl, rfl⟩ | ⟨hne, hold'⟩
        · exact hphase hphase'
        · exact hne (hunique c'' other' hold' hphase')
    · exact hpublished (h.held c' other hold x hheld hphase) fun hunseen =>
        hunseen.2.2 c' other hold hheld
  · intro c' other hother x hphase
    have hheld {call : EndpointInflightCall} (hp : call.phase = .storing x) : call.held = some x := by
      rw [EndpointInflightCall.held, hp]
    rcases hcases hother with ⟨rfl, rfl⟩ | ⟨hne, hold⟩
    · obtain ⟨hlt, hnew⟩ := hstep.stored x hphase
      refine ⟨hlt, fun c'' other' hother' hphase' => ?_⟩
      rcases hcases hother' with ⟨rfl, -⟩ | ⟨-, hold'⟩
      · rfl
      · rcases hnew with hsame | hunseen
        · exact (h.stored _ call hc x hsame).2 c'' other' hold' hphase'
        · exact absurd (hheld hphase') (hunseen.2.2 c'' other' hold')
    · obtain ⟨hlt, hunique⟩ := h.stored c' other hold x hphase
      refine ⟨hlt, fun c'' other' hother' hphase' => ?_⟩
      rcases hcases hother' with ⟨rfl, rfl⟩ | ⟨-, hold'⟩
      · rcases (hstep.stored x hphase').2 with hsame | hunseen
        · exact hunique _ call hc hsame
        · exact absurd (hheld hphase) (hunseen.2.2 c' other hold)
      · exact hunique c'' other' hold' hphase'

/-- A new object, to which nobody has a pointer yet. -/
theorem Sound.allocate {s : Endpoints} (h : s.Sound) (object : EndpointCache) :
    Sound { s with objects := s.objects ++ [object] } ∧
      Unseen { s with objects := s.objects ++ [object] } s.objects.length ∧
      ∀ x, s.Published x → Published { s with objects := s.objects ++ [object] } x := by
  have hgrow {x : ℕ} (hx : s.Published x) : Published { s with objects := s.objects ++ [object] } x := by
    refine ⟨?_, hx.2⟩
    simp only [List.length_append, List.length_singleton]
    exact Nat.lt_succ_of_lt hx.1
  refine ⟨⟨h.waiters, h.places, h.live, h.slot, h.abandoned, h.gaveUp, h.deserted, ?_, ?_, ?_, ?_⟩, ?_,
    fun x hx => hgrow hx⟩
  · exact fun x hx => hgrow (h.cached x hx)
  · exact fun caller hcaller x hx => hgrow (h.known caller hcaller x hx)
  · exact fun c call hc x hx hphase => hgrow (h.held c call hc x hx hphase)
  · intro c call hc x hphase
    obtain ⟨hlt, hunique⟩ := h.stored c call hc x hphase
    refine ⟨?_, hunique⟩
    simp only [List.length_append, List.length_singleton]
    omega
  · refine ⟨?_, ?_, ?_⟩
    · intro hx
      exact absurd (h.cached _ hx).1 (lt_irrefl _)
    · intro caller hcaller hx
      exact absurd (h.known caller hcaller _ hx).1 (lt_irrefl _)
    · intro c call hc hheld
      by_cases hphase : call.phase = .storing s.objects.length
      · exact absurd (h.stored c call hc _ hphase).1 (lt_irrefl _)
      · exact absurd (h.held c call hc _ hheld hphase).1 (lt_irrefl _)

theorem Sound.setCache {s : Endpoints} (h : s.Sound) {cache : Option ℕ}
    (hcache : ∀ x, cache = some x → s.Published x) : Sound { s with cache := cache } :=
  ⟨h.waiters, h.places, h.live, h.slot, h.abandoned, h.gaveUp, h.deserted, hcache, h.known, h.held,
    h.stored⟩

/-- Storing the new object makes it known. -/
theorem Sound.store {s : Endpoints} (h : s.Sound) {c x : ℕ} {call : EndpointInflightCall}
    (hc : s.refreshes[c]? = some call) (hphase : call.phase = .storing x) :
    Sound { s.putRefresh c { call with phase := .returning (.ok x) } with cache := some x } := by
  have hrunning : call.running = true := by rw [EndpointInflightCall.running, hphase]
  have hput : (s.putRefresh c { call with phase := .returning (.ok x) }).Sound := by
    refine h.putRefresh hc ⟨rfl, hrunning.symm, id, id, ?_, ?_, ?_, fun _ hp => by cases hp⟩
    · intro hp
      cases hp
    · intro y hy _
      cases hy
      exact .inr hphase
    · intro y hy
      cases hy
  refine hput.setCache ?_
  rintro y ⟨⟩
  refine hput.held c _ (getElem?_set_of_some hc _) x rfl ?_
  intro hp
  cases hp

theorem refresh_unregister {s : Endpoints} {c c' : ℕ} :
    (s.unregister c).refresh = some c' ↔ s.refresh = some c' ∧ c' ≠ c := by
  rw [unregister]
  split
  · next h =>
    rw [h]
    simp only [reduceCtorEq, Option.some.injEq, false_iff, not_and, not_not]
    exact fun he => he.symm
  · next h =>
    constructor
    · intro hs
      refine ⟨hs, ?_⟩
      rintro rfl
      exact h hs
    · exact fun hs => hs.1

theorem unregister_eq (s : Endpoints) (c : ℕ) :
    s.unregister c = { s with refresh := (s.unregister c).refresh } := by
  rw [unregister]
  split <;> rfl

/-- A refresh that is over leaves the register, and only it does. -/
theorem Sound.finish {s : Endpoints} (h : s.Sound) {c : ℕ} {call : EndpointInflightCall}
    (hc : s.refreshes[c]? = some call) {result : Except EndpointError ℕ}
    (hphase : call.phase = .returning result) :
    ((s.putRefresh c
      { call with phase := .finished result, ctx := Endpoints.cancelled call.ctx }).unregister
      c).Sound := by
  have hrunning : call.running = true := by rw [EndpointInflightCall.running, hphase]
  have hcases {c' : ℕ} {other : EndpointInflightCall}
      (hother : (s.refreshes.set c { call with
        phase := .finished result, ctx := Endpoints.cancelled call.ctx })[c']? = some other) :=
    getElem?_set_cases hother
  have hpublished {x : ℕ} (hx : s.Published x) :
      (s.putRefresh c { call with
        phase := .finished result, ctx := Endpoints.cancelled call.ctx }).Published x := by
    refine ⟨hx.1, fun c' other hother => ?_⟩
    rcases hcases hother with ⟨-, rfl⟩ | ⟨-, hold⟩
    · intro hp
      cases hp
    · exact hx.2 c' other hold
  rw [unregister_eq]
  refine ⟨?_, ?_, ?_, ?_, ?_, ?_, ?_, fun x hx => hpublished (h.cached x hx),
    fun caller hcaller x hx => hpublished (h.known caller hcaller x hx), ?_, ?_⟩
  · intro c' other hother hrun
    rcases hcases hother with ⟨-, rfl⟩ | ⟨-, hold⟩
    · cases hrun
    · exact h.waiters c' other hold hrun
  · intro caller hcaller c' hplace
    simp only [Endpoints.putRefresh, List.length_set]
    exact h.places caller hcaller c' hplace
  · intro c' other hother hrun hlive
    rcases hcases hother with ⟨-, rfl⟩ | ⟨hne, hold⟩
    · cases hrun
    · exact refresh_unregister.mpr ⟨h.live c' other hold hrun hlive, hne⟩
  · intro c' hslot
    obtain ⟨hslot, hne⟩ := refresh_unregister.mp hslot
    obtain ⟨other, hother, hrun⟩ := h.slot c' hslot
    refine ⟨other, ?_, hrun⟩
    simp only [Endpoints.putRefresh]
    rw [List.getElem?_set_ne (Ne.symm hne)]
    exact hother
  · intro c' other hother hrun hcancelled
    rcases hcases hother with ⟨-, rfl⟩ | ⟨-, hold⟩
    · cases hrun
    · exact h.abandoned c' other hold hrun hcancelled
  · intro c' other hother hp
    rcases hcases hother with ⟨-, rfl⟩ | ⟨-, hold⟩
    · cases hp
    · exact h.gaveUp c' other hold hp
  · intro c' other hother hp
    rcases hcases hother with ⟨rfl, rfl⟩ | ⟨-, hold⟩
    · -- the context was cancelled because nobody waited any more
      cases hp
      have hzero := h.abandoned _ call hc hrunning (h.gaveUp _ call hc hphase)
      have hwaiters := h.waiters _ call hc hrunning
      simp only [Endpoints.putRefresh]
      omega
    · exact h.deserted c' other hold hp
  · intro c' other hother x hheld hp
    rcases hcases hother with ⟨rfl, rfl⟩ | ⟨-, hold⟩
    · refine hpublished (h.held _ call hc x ?_ ?_)
      · rw [EndpointInflightCall.held, hphase]
        exact hheld
      · rw [hphase]
        intro he
        cases he
    · exact hpublished (h.held c' other hold x hheld hp)
  · intro c' other hother x hp
    rcases hcases hother with ⟨-, rfl⟩ | ⟨-, hold⟩
    · cases hp
    · obtain ⟨hlt, hunique⟩ := h.stored c' other hold x hp
      refine ⟨hlt, fun c'' other' hother' hp' => ?_⟩
      rcases hcases hother' with ⟨-, rfl⟩ | ⟨-, hold'⟩
      · cases hp'
      · exact hunique c'' other' hold' hp'

/-! ## Joining and leaving -/

theorem joinable_eq_some {s : Endpoints} {c : ℕ} {call : EndpointInflightCall} :
    s.joinable = some (c, call) ↔
      s.refresh = some c ∧ s.refreshes[c]? = some call ∧ call.ctx = .live := by
  simp only [joinable, Option.bind_eq_some_iff]
  constructor
  · rintro ⟨c', hslot, call', hcall, h⟩
    split at h
    · next hlive =>
      cases h
      refine ⟨hslot, hcall, ?_⟩
      cases hctx : call.ctx with
      | live => rfl
      | cancelled => rw [hctx] at hlive; cases hlive
      | expired => rw [hctx] at hlive; cases hlive
    · cases h
  · rintro ⟨hslot, hcall, hlive⟩
    exact ⟨c, hslot, call, hcall, by rw [hlive]; rfl⟩

theorem Published.congr {s t : Endpoints} (hobjects : t.objects = s.objects)
    (hphases : ∀ (c : ℕ) call', t.refreshes[c]? = some call' →
      ∃ call, s.refreshes[c]? = some call ∧ call'.phase = call.phase) {x : ℕ} (hx : s.Published x) :
    t.Published x := by
  refine ⟨hobjects ▸ hx.1, fun c call' hc hphase => ?_⟩
  obtain ⟨call, hcall, he⟩ := hphases c call' hc
  exact hx.2 c call hcall (he ▸ hphase)

theorem phases_set {s : Endpoints} {c : ℕ} {call : EndpointInflightCall}
    (hc : s.refreshes[c]? = some call) (call' : EndpointInflightCall)
    (hphase : call'.phase = call.phase) (c' : ℕ) (other : EndpointInflightCall)
    (h : (s.refreshes.set c call')[c']? = some other) :
    ∃ call, s.refreshes[c']? = some call ∧ other.phase = call.phase := by
  rcases getElem?_set_cases h with ⟨rfl, rfl⟩ | ⟨-, hold⟩
  · exact ⟨call, hc, hphase⟩
  · exact ⟨other, hold, rfl⟩

theorem held_congr {call call' : EndpointInflightCall} (h : call'.phase = call.phase) :
    call'.held = call.held := by
  rw [EndpointInflightCall.held, EndpointInflightCall.held, h]

/-- A call takes or gives up a place among the waiters of one refresh. -/
theorem Sound.reseat {s : Endpoints} (h : s.Sound) {i c : ℕ} {caller caller' : TTSCall}
    {call : EndpointInflightCall} (hi : s.calls[i]? = some caller)
    (hc : s.refreshes[c]? = some call) (hother : ∀ c', c' ≠ c → caller'.stake c' = caller.stake c')
    {waiters : Int} (hwaiters : waiters + caller.stake c = call.waiters + caller'.stake c)
    (habandoned : call.running = true → call.ctx = .cancelled → waiters = 0)
    (hfinal : call.phase = .finished (.error .cancelled) → caller'.stake c ≤ caller.stake c)
    (hknows : ∀ x, caller'.Knows x → s.Published x) :
    ((s.putRefresh c { call with waiters := waiters }).putCall i caller').Sound := by
  have htotal (c' : ℕ) : total (TTSCall.stake c') (s.calls.set i caller') + caller.stake c' =
      total (TTSCall.stake c') s.calls + caller'.stake c' := by
    rw [total_set hi, total_of_getElem? hi]
    omega
  have hphases := phases_set hc { call with waiters := waiters } rfl
  have hpublished {x : ℕ} (hx : s.Published x) :
      ((s.putRefresh c { call with waiters := waiters }).putCall i caller').Published x := by
    refine Published.congr ?_ ?_ hx
    · rfl
    · exact hphases
  have hcases {c' : ℕ} {other : EndpointInflightCall}
      (ho : (s.refreshes.set c { call with waiters := waiters })[c']? = some other) :=
    getElem?_set_cases ho
  have hmem : caller ∈ s.calls := List.mem_of_getElem? hi
  refine ⟨?_, ?_, ?_, ?_, ?_, ?_, ?_, fun x hx => hpublished (h.cached x hx), ?_, ?_, ?_⟩
  · intro c' other ho hrun
    have hsum := htotal c'
    simp only [Endpoints.putCall, Endpoints.putRefresh]
    rcases hcases ho with ⟨rfl, rfl⟩ | ⟨hne, hold⟩
    · have hold := h.waiters _ call hc hrun
      simp only
      omega
    · have hold := h.waiters c' other hold hrun
      have hsame := hother c' hne
      omega
  · intro other hmem' c' hplace
    simp only [Endpoints.putCall, Endpoints.putRefresh, List.length_set]
    rcases mem_set_cases hmem' with rfl | hold
    · by_cases he : c' = c
      · subst he
        exact (List.getElem?_eq_some_iff.mp hc).1
      · rw [hother c' he] at hplace
        exact h.places caller hmem c' hplace
    · exact h.places other hold c' hplace
  · intro c' other ho hrun hlive
    rcases hcases ho with ⟨rfl, rfl⟩ | ⟨-, hold⟩
    · exact h.live _ call hc hrun hlive
    · exact h.live c' other hold hrun hlive
  · intro c' hslot
    obtain ⟨other, ho, hrun⟩ := h.slot c' hslot
    by_cases he : c' = c
    · subst he
      rw [hc] at ho
      cases ho
      exact ⟨_, getElem?_set_of_some hc _, hrun⟩
    · refine ⟨other, ?_, hrun⟩
      simp only [Endpoints.putCall, Endpoints.putRefresh]
      rw [List.getElem?_set_ne (Ne.symm he)]
      exact ho
  · intro c' other ho hrun hcancelled
    rcases hcases ho with ⟨rfl, rfl⟩ | ⟨-, hold⟩
    · exact habandoned hrun hcancelled
    · exact h.abandoned c' other hold hrun hcancelled
  · intro c' other ho hp
    rcases hcases ho with ⟨rfl, rfl⟩ | ⟨-, hold⟩
    · exact h.gaveUp _ call hc hp
    · exact h.gaveUp c' other hold hp
  · intro c' other ho hp
    have hsum := htotal c'
    simp only [Endpoints.putCall, Endpoints.putRefresh]
    rcases hcases ho with ⟨rfl, rfl⟩ | ⟨hne, hold⟩
    · have hzero := h.deserted _ call hc hp
      have hle := hfinal hp
      omega
    · have hzero := h.deserted c' other hold hp
      have hsame := hother c' hne
      omega
  · intro other hmem' x hx
    rcases mem_set_cases hmem' with rfl | hold
    · exact hpublished (hknows x hx)
    · exact hpublished (h.known other hold x hx)
  · intro c' other ho x hheld hp
    obtain ⟨old, hold, he⟩ := hphases c' other ho
    rw [held_congr he] at hheld
    exact hpublished (h.held c' old hold x hheld (he ▸ hp))
  · intro c' other ho x hp
    obtain ⟨old, hold, he⟩ := hphases c' other ho
    obtain ⟨hlt, hunique⟩ := h.stored c' old hold x (he ▸ hp)
    refine ⟨hlt, fun c'' other' ho' hp' => ?_⟩
    obtain ⟨old', hold', he'⟩ := hphases c'' other' ho'
    exact hunique c'' old' hold' (he' ▸ hp')

/-- Nobody waits any more: the refresh is cancelled and taken out of the register. -/
theorem Sound.abandon {s : Endpoints} (h : s.Sound) {c : ℕ} {call : EndpointInflightCall}
    (hc : s.refreshes[c]? = some call) (hzero : call.waiters = 0) :
    ((s.putRefresh c { call with ctx := Endpoints.cancelled call.ctx }).unregister c).Sound := by
  have hphases := phases_set hc { call with ctx := Endpoints.cancelled call.ctx } rfl
  have hpublished {x : ℕ} (hx : s.Published x) :
      (s.putRefresh c { call with ctx := Endpoints.cancelled call.ctx }).Published x := by
    refine Published.congr ?_ ?_ hx
    · rfl
    · exact hphases
  have hcases {c' : ℕ} {other : EndpointInflightCall}
      (ho : (s.refreshes.set c { call with ctx := Endpoints.cancelled call.ctx })[c']? = some other) :=
    getElem?_set_cases ho
  rw [unregister_eq]
  refine ⟨?_, ?_, ?_, ?_, ?_, ?_, ?_, fun x hx => hpublished (h.cached x hx),
    fun caller hcaller x hx => hpublished (h.known caller hcaller x hx), ?_, ?_⟩
  · intro c' other ho hrun
    rcases hcases ho with ⟨rfl, rfl⟩ | ⟨-, hold⟩
    · exact h.waiters _ call hc hrun
    · exact h.waiters c' other hold hrun
  · intro caller hcaller c' hplace
    simp only [Endpoints.putRefresh, List.length_set]
    exact h.places caller hcaller c' hplace
  · intro c' other ho hrun hlive
    rcases hcases ho with ⟨-, rfl⟩ | ⟨hne, hold⟩
    · simp only [Endpoints.cancelled] at hlive
      split at hlive <;> cases hlive
    · exact refresh_unregister.mpr ⟨h.live c' other hold hrun hlive, hne⟩
  · intro c' hslot
    obtain ⟨hslot, hne⟩ := refresh_unregister.mp hslot
    obtain ⟨other, ho, hrun⟩ := h.slot c' hslot
    refine ⟨other, ?_, hrun⟩
    simp only [Endpoints.putRefresh]
    rw [List.getElem?_set_ne (Ne.symm hne)]
    exact ho
  · intro c' other ho hrun hcancelled
    rcases hcases ho with ⟨-, rfl⟩ | ⟨-, hold⟩
    · exact hzero
    · exact h.abandoned c' other hold hrun hcancelled
  · intro c' other ho hp
    rcases hcases ho with ⟨rfl, rfl⟩ | ⟨-, hold⟩
    · have hctx := h.gaveUp _ call hc hp
      simp only [hctx, Endpoints.cancelled]
    · exact h.gaveUp c' other hold hp
  · intro c' other ho hp
    obtain ⟨old, hold, he⟩ := hphases c' other ho
    exact h.deserted c' old hold (he ▸ hp)
  · intro c' other ho x hheld hp
    obtain ⟨old, hold, he⟩ := hphases c' other ho
    rw [held_congr he] at hheld
    exact hpublished (h.held c' old hold x hheld (he ▸ hp))
  · intro c' other ho x hp
    obtain ⟨old, hold, he⟩ := hphases c' other ho
    obtain ⟨hlt, hunique⟩ := h.stored c' old hold x (he ▸ hp)
    refine ⟨hlt, fun c'' other' ho' hp' => ?_⟩
    obtain ⟨old', hold', he'⟩ := hphases c'' other' ho'
    exact hunique c'' old' hold' (he' ▸ hp')

/-- A call that finds no refresh to join registers a new one. -/
theorem Sound.register {s : Endpoints} (h : s.Sound) {i : ℕ} {caller caller' : TTSCall}
    (hi : s.calls[i]? = some caller) (hnone : s.joinable = none)
    (hbefore : ∀ c, caller.stake c = 0)
    (hafter : ∀ c, caller'.stake c = if c = s.refreshes.length then 1 else 0)
    (hknows : ∀ x, caller'.Knows x → s.Published x) :
    Sound { s with
      refreshes := s.refreshes ++ [⟨.live, 1, .starting⟩]
      refresh := some s.refreshes.length
      calls := s.calls.set i caller' } := by
  have htotal (c : ℕ) : total (TTSCall.stake c) (s.calls.set i caller') =
      total (TTSCall.stake c) s.calls + if c = s.refreshes.length then 1 else 0 := by
    rw [total_set hi, total_of_getElem? hi, hafter, hbefore]
    omega
  have hnew : total (TTSCall.stake s.refreshes.length) s.calls = 0 := by
    refine total_eq_zero fun other hother => ?_
    by_contra hplace
    exact lt_irrefl _ (h.places other hother _ hplace)
  have hcases {c : ℕ} {call : EndpointInflightCall}
      (hc : (s.refreshes ++ [⟨.live, 1, .starting⟩])[c]? = some call) :
      s.refreshes[c]? = some call ∨ c = s.refreshes.length ∧ call = ⟨.live, 1, .starting⟩ :=
    getElem?_concat_cases hc
  have hne {c : ℕ} {call : EndpointInflightCall} (hc : s.refreshes[c]? = some call) :
      c ≠ s.refreshes.length := (List.getElem?_eq_some_iff.mp hc).1.ne
  have hpublished {x : ℕ} (hx : s.Published x) : Published { s with
      refreshes := s.refreshes ++ [⟨.live, 1, .starting⟩]
      refresh := some s.refreshes.length
      calls := s.calls.set i caller' } x := by
    refine ⟨hx.1, fun c call hc => ?_⟩
    rcases hcases hc with hold | ⟨-, rfl⟩
    · exact hx.2 c call hold
    · intro hp
      cases hp
  have hmem : caller ∈ s.calls := List.mem_of_getElem? hi
  refine ⟨?_, ?_, ?_, ?_, ?_, ?_, ?_, fun x hx => hpublished (h.cached x hx), ?_, ?_, ?_⟩
  · intro c call hc hrun
    simp only [htotal]
    rcases hcases hc with hold | ⟨rfl, rfl⟩
    · rw [if_neg (hne hold)]
      exact h.waiters c call hold hrun
    · rw [if_pos rfl, hnew]
      rfl
  · intro other hother c hplace
    simp only [List.length_append, List.length_singleton]
    rcases mem_set_cases hother with rfl | hold
    · rw [hafter] at hplace
      split at hplace
      · omega
      · exact absurd rfl hplace
    · have := h.places other hold c hplace
      omega
  · intro c call hc hrun hlive
    rcases hcases hc with hold | ⟨rfl, rfl⟩
    · have hslot := h.live c call hold hrun hlive
      rw [joinable_eq_some.mpr ⟨hslot, hold, hlive⟩] at hnone
      cases hnone
    · rfl
  · intro c hslot
    cases hslot
    refine ⟨⟨.live, 1, .starting⟩, ?_, rfl⟩
    simp
  · intro c call hc hrun hcancelled
    rcases hcases hc with hold | ⟨-, rfl⟩
    · exact h.abandoned c call hold hrun hcancelled
    · cases hcancelled
  · intro c call hc hp
    rcases hcases hc with hold | ⟨-, rfl⟩
    · exact h.gaveUp c call hold hp
    · cases hp
  · intro c call hc hp
    simp only [htotal]
    rcases hcases hc with hold | ⟨-, rfl⟩
    · rw [if_neg (hne hold)]
      exact h.deserted c call hold hp
    · cases hp
  · intro other hother x hx
    rcases mem_set_cases hother with rfl | hold
    · exact hpublished (hknows x hx)
    · exact hpublished (h.known other hold x hx)
  · intro c call hc x hheld hp
    rcases hcases hc with hold | ⟨-, rfl⟩
    · exact hpublished (h.held c call hold x hheld hp)
    · cases hheld
  · intro c call hc x hp
    rcases hcases hc with hold | ⟨-, rfl⟩
    · obtain ⟨hlt, hunique⟩ := h.stored c call hold x hp
      refine ⟨hlt, fun c' call' hc' hp' => ?_⟩
      rcases hcases hc' with hold' | ⟨-, rfl⟩
      · exact hunique c' call' hold' hp'
      · cases hp'
    · cases hp

/-! ## Every step keeps the state sound -/

theorem cancelled_ne_live (ctx : EndpointContext) : Endpoints.cancelled ctx ≠ .live := by
  cases ctx <;> simp [Endpoints.cancelled]

theorem stepCall_sound {s t : Endpoints} (h : s.Sound) {i : ℕ} {caller : TTSCall}
    {a : EndpointAction} (hi : s.calls[i]? = some caller) (hst : s.stepCall i caller a = some t) :
    t.Sound := by
  have hknown : ∀ x, caller.Knows x → s.Published x := h.known caller (List.mem_of_getElem? hi)
  have hsent : ∀ x ∈ caller.sent, s.Published x := fun x hx => hknown x (.inl hx)
  cases a with
  | cancel i' =>
      cases hst
      exact h.putPhase hi (fun _ => rfl) hknown
  | expire i' =>
      simp only [stepCall] at hst
      split at hst
      · cases hst
        exact h.putPhase hi (fun _ => rfl) hknown
      · cases hst
  | read i' =>
      cases hphase : caller.phase with
      | asking =>
          simp only [stepCall, hphase] at hst
          cases hst
          cases hctx : caller.ctx.err with
          | some error =>
              refine h.putPhase hi (fun c => by simp [TTSCall.stake, hphase]) ?_
              rintro x (hx | hx)
              · exact hsent x hx
              · cases hx
          | none =>
              refine h.putPhase hi (fun c => by simp [TTSCall.stake, hphase]) ?_
              rintro x (hx | hx)
              · exact hsent x hx
              · exact h.cached x hx
      | _ => simp [stepCall, hphase] at hst
  | check i' =>
      cases hphase : caller.phase with
      | looked cache =>
          simp only [stepCall, hphase] at hst
          cases hst
          cases hfresh : cache.filter s.fresh with
          | some x =>
              refine h.putPhase hi (fun c => by simp [TTSCall.stake, hphase]) ?_
              rintro y (hy | hy)
              · exact hsent y hy
              · refine hknown y (.inr ?_)
                rw [hphase]
                exact ((Option.filter_eq_some_iff.mp hfresh).1.trans hy)
          | none =>
              refine h.putPhase hi (fun c => by simp [TTSCall.stake, hphase]) ?_
              rintro y (hy | hy)
              · exact hsent y hy
              · cases hy
      | _ => simp [stepCall, hphase] at hst
  | join i' =>
      cases hphase : caller.phase with
      | joining =>
          simp only [stepCall, hphase] at hst
          cases hst
          have hbefore (c : ℕ) : caller.stake c = 0 := by simp [TTSCall.stake, hphase]
          have hknows (c : ℕ) : ∀ x, TTSCall.Knows { caller with phase := .waiting c } x →
              s.Published x := by
            rintro x (hx | hx)
            · exact hsent x hx
            · cases hx
          rw [Endpoints.join]
          cases hj : s.joinable with
          | none =>
              refine h.register hi hj hbefore (fun c => ?_) (hknows _)
              simp only [TTSCall.stake]
              exact if_congr eq_comm rfl rfl
          | some p =>
              obtain ⟨c, call⟩ := p
              obtain ⟨hslot, hc, hlive⟩ := joinable_eq_some.mp hj
              obtain ⟨call', hc', hrun⟩ := h.slot c hslot
              rw [hc] at hc'
              cases hc'
              refine h.reseat hi hc (fun c' hne => ?_) ?_ ?_ ?_ (hknows c)
              · simp [TTSCall.stake, hphase, hne.symm]
              · simp [TTSCall.stake, hphase]
              · intro _ hcancelled
                rw [hlive] at hcancelled
                cases hcancelled
              · intro hp
                rw [EndpointInflightCall.running, hp] at hrun
                cases hrun
      | _ => simp [stepCall, hphase] at hst
  | receive i' =>
      cases hphase : caller.phase with
      | waiting c =>
          simp only [stepCall, hphase, Option.bind_eq_some_iff] at hst
          obtain ⟨call, hc, hst⟩ := hst
          have hgone {caller' : TTSCall} (hzero : ∀ c', caller'.stake c' = 0)
              (hrun : call.running = false) (hknows : ∀ x, caller'.Knows x → s.Published x) :
              (s.putCall i caller').Sound := by
            refine h.putCall hi (fun c' => by rw [hzero]; exact Nat.zero_le _) ?_ hknows
            intro c' other hother hrunning
            have hne : c ≠ c' := by
              rintro rfl
              rw [hc] at hother
              cases hother
              rw [hrun] at hrunning
              cases hrunning
            rw [hzero, TTSCall.stake, hphase]
            exact (if_neg hne).symm
          split at hst
          · next x hp =>
            cases hst
            refine hgone (fun _ => rfl) (by rw [EndpointInflightCall.running, hp]) ?_
            rintro y (hy | hy)
            · exact hsent y hy
            · cases hy
              refine h.held c call hc x ?_ ?_
              · rw [EndpointInflightCall.held, hp]
                rfl
              · rw [hp]
                intro he
                cases he
          · next error hp =>
            cases hst
            refine hgone (fun _ => rfl) (by rw [EndpointInflightCall.running, hp]) ?_
            rintro y (hy | hy)
            · exact hsent y hy
            · cases hy
          · cases hst
      | _ => simp [stepCall, hphase] at hst
  | seeDone i' =>
      cases hphase : caller.phase with
      | waiting c =>
          simp only [stepCall, hphase] at hst
          split at hst
          · cases hst
          · cases hst
            refine h.putPhase hi (fun c' => by simp [TTSCall.stake, hphase]) ?_
            rintro x (hx | hx)
            · exact hsent x hx
            · cases hx
      | _ => simp [stepCall, hphase] at hst
  | leave i' =>
      cases hphase : caller.phase with
      | leaving c =>
          simp only [stepCall, hphase, Option.map_eq_some_iff] at hst
          obtain ⟨call, hc, rfl⟩ := hst
          have hstake : caller.stake c = 1 := by simp [TTSCall.stake, hphase]
          have hknows : ∀ x, TTSCall.Knows { caller with phase := .failed (ctxError caller.ctx) } x →
              s.Published x := by
            rintro x (hx | hx)
            · exact hsent x hx
            · cases hx
          have hreseat : ((s.putRefresh c { call with waiters := call.waiters - 1 }).putCall i
              { caller with phase := .failed (ctxError caller.ctx) }).Sound := by
            refine h.reseat hi hc ?_ ?_ ?_ ?_ hknows
            · intro c' hne
              simp [TTSCall.stake, hphase, hne.symm]
            · rw [hstake]
              simp [TTSCall.stake]
            · intro hrun hcancelled
              have hzero := h.abandoned c call hc hrun hcancelled
              have hwaiters := h.waiters c call hc hrun
              have hle : caller.stake c ≤ total (TTSCall.stake c) s.calls := weight_le_total hi
              omega
            · intro _
              exact Nat.zero_le _
          rw [Endpoints.leave]
          split
          · next hzero =>
            have habandon := hreseat.abandon (getElem?_set_of_some hc _) hzero
            simpa only [Endpoints.putRefresh, Endpoints.putCall, List.set_set] using habandon
          · exact hreseat
      | _ => simp [stepCall, hphase] at hst
  | send i' =>
      cases hphase : caller.phase with
      | holding cache =>
          simp only [stepCall, hphase] at hst
          cases hst
          refine h.putPhase hi (fun c' => by simp [TTSCall.stake, hphase]) ?_
          have hcache : s.Published cache := hknown cache (.inr (by rw [hphase]; rfl))
          rintro x (hx | hx)
          · rcases List.mem_append.mp hx with hx | hx
            · exact hsent x hx
            · rw [List.mem_singleton.mp hx]
              exact hcache
          · cases hx
            exact hcache
      | _ => simp [stepCall, hphase] at hst
  | abandon i' =>
      have hknows : ∀ x, TTSCall.Knows { caller with phase := .returned } x → s.Published x := by
        rintro x (hx | hx)
        · exact hsent x hx
        · cases hx
      cases hphase : caller.phase with
      | holding cache =>
          simp only [stepCall, hphase] at hst
          cases hst
          exact h.putPhase hi (fun c' => by simp [TTSCall.stake, hphase]) hknows
      | awaiting cache =>
          simp only [stepCall, hphase] at hst
          cases hst
          exact h.putPhase hi (fun c' => by simp [TTSCall.stake, hphase]) hknows
      | _ => simp [stepCall, hphase] at hst
  | respond i' status =>
      cases hphase : caller.phase with
      | awaiting cache =>
          simp only [stepCall, hphase] at hst
          cases hst
          split
          · refine h.putPhase hi (fun c' => by simp [TTSCall.stake, hphase]) ?_
            rintro x (hx | hx)
            · exact hsent x hx
            · exact hknown x (.inr (by rw [hphase]; exact hx))
          · refine h.putPhase hi (fun c' => by simp [TTSCall.stake, hphase]) ?_
            rintro x (hx | hx)
            · exact hsent x hx
            · cases hx
      | _ => simp [stepCall, hphase] at hst
  | invalidate i' =>
      cases hphase : caller.phase with
      | rejected cache =>
          simp only [stepCall, hphase] at hst
          cases hst
          have hput : (s.putCall i { caller with phase := .asking, isRetry := true }).Sound := by
            refine h.putPhase hi (fun c' => by simp [TTSCall.stake, hphase]) ?_
            rintro x (hx | hx)
            · exact hsent x hx
            · cases hx
          refine hput.setCache ?_
          intro x hx
          split at hx
          · cases hx
          · exact hput.cached x hx
      | _ => simp [stepCall, hphase] at hst
  | _ => cases hst

theorem stepRefresh_sound {s t : Endpoints} (h : s.Sound) {c : ℕ} {call : EndpointInflightCall}
    {a : EndpointAction} (hc : s.refreshes[c]? = some call) (hst : s.stepRefresh c call a = some t) :
    t.Sound := by
  have herr {ctx : EndpointContext} (he : ctx.err = some .cancelled) : ctx = .cancelled := by
    cases ctx with
    | live => cases he
    | cancelled => rfl
    | expired => cases he
  cases a with
  | readPrevious c' =>
      cases hphase : call.phase with
      | starting =>
          simp only [stepRefresh, hphase] at hst
          cases hst
          have hrun : call.running = true := by rw [EndpointInflightCall.running, hphase]
          refine h.putRefresh hc ⟨rfl, hrun.symm, id, id, ?_, ?_, ?_, fun _ hp => by cases hp⟩
          · intro hp
            cases hp
          · exact fun x hx _ => .inl (h.cached x hx)
          · intro x hp
            cases hp
      | _ => simp [stepRefresh, hphase] at hst
  | checkPrevious c' =>
      cases hphase : call.phase with
      | looked previous =>
          simp only [stepRefresh, hphase] at hst
          cases hst
          have hrun : call.running = true := by rw [EndpointInflightCall.running, hphase]
          have hheld (x : ℕ) (hx : previous = some x) : s.Published x := by
            refine h.held c call hc x ?_ ?_
            · rw [EndpointInflightCall.held, hphase]
              exact hx
            · rw [hphase]
              intro he
              cases he
          cases hfresh : previous.filter s.fresh with
          | some y =>
              refine h.putRefresh hc ⟨rfl, hrun.symm, id, id, ?_, ?_, ?_, fun _ hp => by cases hp⟩
              · intro hp
                cases hp
              · rintro x ⟨⟩ -
                exact .inl (hheld y (Option.filter_eq_some_iff.mp hfresh).1)
              · intro x hp
                cases hp
          | none =>
              refine h.putRefresh hc ⟨rfl, hrun.symm, id, id, ?_, ?_, ?_, fun _ hp => by cases hp⟩
              · intro hp
                cases hp
              · exact fun x hx _ => .inl (hheld x hx)
              · intro x hp
                cases hp
      | _ => simp [stepRefresh, hphase] at hst
  | refuse c' =>
      cases hphase : call.phase with
      | requesting previous =>
          simp only [stepRefresh, hphase] at hst
          cases hst
          have hrun : call.running = true := by rw [EndpointInflightCall.running, hphase]
          have hheld (x : ℕ) (hx : previous = some x) : s.Published x := by
            refine h.held c call hc x ?_ ?_
            · rw [EndpointInflightCall.held, hphase]
              exact hx
            · rw [hphase]
              intro he
              cases he
          split
          · next error hctx =>
            refine h.putRefresh hc ⟨rfl, hrun.symm, id, id, ?_, ?_, ?_, fun _ hp => by cases hp⟩
            · intro hp
              cases hp
              exact herr hctx
            · intro x hx
              cases hx
            · intro x hp
              cases hp
          · next y hctx =>
            refine h.putRefresh hc ⟨rfl, hrun.symm, id, id, ?_, ?_, ?_, fun _ hp => by cases hp⟩
            · intro hp
              cases hp
            · rintro x ⟨⟩ -
              exact .inl (hheld y rfl)
            · intro x hp
              cases hp
          · refine h.putRefresh hc ⟨rfl, hrun.symm, id, id, ?_, ?_, ?_, fun _ hp => by cases hp⟩
            · intro hp
              cases hp
            · intro x hx
              cases hx
            · intro x hp
              cases hp
      | _ => simp [stepRefresh, hphase] at hst
  | answer c' response exp clientID =>
      cases hphase : call.phase with
      | requesting previous =>
          have hrun : call.running = true := by rw [EndpointInflightCall.running, hphase]
          have hheld (x : ℕ) (hx : previous = some x) : s.Published x := by
            refine h.held c call hc x ?_ ?_
            · rw [EndpointInflightCall.held, hphase]
              exact hx
            · rw [hphase]
              intro he
              cases he
          cases exp with
          | none =>
              simp only [stepRefresh, hphase] at hst
              cases hst
              cases previous with
              | some y =>
                  refine h.putRefresh hc ⟨rfl, hrun.symm, id, id, ?_, ?_, ?_, fun _ hp => by cases hp⟩
                  · intro hp
                    cases hp
                  · rintro x ⟨⟩ -
                    exact .inl (hheld y rfl)
                  · intro x hp
                    cases hp
              | none =>
                  refine h.putRefresh hc ⟨rfl, hrun.symm, id, id, ?_, ?_, ?_, fun _ hp => by cases hp⟩
                  · intro hp
                    cases hp
                  · intro x hx
                    cases hx
                  · intro x hp
                    cases hp
          | some exp =>
              simp only [stepRefresh, hphase] at hst
              cases hst
              obtain ⟨hgrown, hunseen, -⟩ :=
                h.allocate ⟨response.r, response.t, exp, clientID⟩
              cases hctx : call.ctx.err with
              | some error =>
                  refine hgrown.putRefresh hc ⟨rfl, hrun.symm, id, id, ?_, ?_, ?_, fun _ hp => by cases hp⟩
                  · intro hp
                    cases hp
                    exact herr hctx
                  · intro x hx
                    cases hx
                  · intro x hp
                    cases hp
              | none =>
                  refine hgrown.putRefresh hc ⟨rfl, hrun.symm, id, id, ?_, ?_, ?_, fun _ hp => by cases hp⟩
                  · intro hp
                    cases hp
                  · rintro x ⟨⟩ hp
                    exact absurd rfl hp
                  · rintro x ⟨⟩
                    refine ⟨?_, .inr hunseen⟩
                    simp
      | _ => simp [stepRefresh, hphase] at hst
  | store c' =>
      cases hphase : call.phase with
      | storing x =>
          simp only [stepRefresh, hphase] at hst
          cases hst
          exact h.store hc hphase
      | _ => simp [stepRefresh, hphase] at hst
  | finish c' =>
      cases hphase : call.phase with
      | returning result =>
          simp only [stepRefresh, hphase] at hst
          cases hst
          exact h.finish hc hphase
      | _ => simp [stepRefresh, hphase] at hst
  | timeout c' =>
      simp only [stepRefresh] at hst
      split at hst
      · next hlive =>
        cases hst
        refine h.putRefresh hc ⟨rfl, rfl, nofun, nofun, ?_, ?_, ?_,
          fun _ hp => hp⟩
        · intro hp
          have hctx := h.gaveUp c call hc hp
          rw [hlive] at hctx
          cases hctx
        · exact fun x hheld hp => .inl (h.held c call hc x hheld hp)
        · exact fun x hp => ⟨(h.stored c call hc x hp).1, .inl hp⟩
      · cases hst
  | _ => cases hst

theorem step_sound {s t : Endpoints} {a : EndpointAction} (h : s.Sound) (hst : s.step a = some t) :
    t.Sound := by
  cases a with
  | advance seconds =>
      cases hst
      exact ⟨h.waiters, h.places, h.live, h.slot, h.abandoned, h.gaveUp, h.deserted, h.cached, h.known,
        h.held, h.stored⟩
  | call =>
      cases hst
      exact h.addCall
  | cancel i | expire i | read i | check i | join i | receive i | seeDone i | leave i | send i
  | abandon i | respond i status | invalidate i =>
      obtain ⟨caller, hi, hst⟩ := Option.bind_eq_some_iff.mp hst
      exact stepCall_sound h hi hst
  | readPrevious c | checkPrevious c | refuse c | answer c response exp clientID | store c | finish c
  | timeout c =>
      obtain ⟨call, hc, hst⟩ := Option.bind_eq_some_iff.mp hst
      exact stepRefresh_sound h hc hst

end Endpoints

end ZReader.Services.Endpoint
