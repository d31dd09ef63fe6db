import ZReader.Services.EndpointRuns

namespace ZReader.Services.Endpoint

open Lib.Tokens Lib.Transition

namespace Endpoints

/-! ## What a step leaves of known credentials -/

/-- Known credentials do not come back into the cache, and a refresh takes them from the cache at
most. -/
structure Frame (s t : Endpoints) : Prop where
  cache : ∀ x, s.Published x → t.cache = some x → s.cache = some x
  refreshes : ∀ (c : ℕ) call', t.refreshes[c]? = some call' → call'.held = none ∨
    ∃ call, s.refreshes[c]? = some call ∧
      ∀ x, s.Published x → call'.held = some x → call.held = some x ∨ s.cache = some x

theorem Frame.of_eq {s t : Endpoints} (hcache : ∀ x, t.cache = some x → s.cache = some x)
    (hrefreshes : t.refreshes = s.refreshes) : Frame s t := by
  refine ⟨fun x _ hx => hcache x hx, fun c call hc => ?_⟩
  rw [hrefreshes] at hc
  exact .inr ⟨call, hc, fun x _ hx => .inl hx⟩

theorem Frame.congr {s t u : Endpoints} (h : Frame s t) (hcache : u.cache = t.cache)
    (hrefreshes : u.refreshes = t.refreshes) : Frame s u := by
  constructor
  · rw [hcache]
    exact h.cache
  · rw [hrefreshes]
    exact h.refreshes

theorem Frame.putRefresh {s : Endpoints} {c : ℕ} {call call' : EndpointInflightCall}
    (hc : s.refreshes[c]? = some call)
    (hheld : ∀ x, s.Published x → call'.held = some x → call.held = some x ∨ s.cache = some x) :
    Frame s (s.putRefresh c call') := by
  refine ⟨fun _ _ hx => hx, fun c' other hother => .inr ?_⟩
  rcases getElem?_set_cases hother with ⟨rfl, rfl⟩ | ⟨-, hold⟩
  · exact ⟨call, hc, hheld⟩
  · exact ⟨other, hold, fun x _ hx => .inl hx⟩

/-- A refresh that holds no more than before. -/
theorem Frame.keeps {s : Endpoints} {c : ℕ} {call call' : EndpointInflightCall}
    (hc : s.refreshes[c]? = some call) (hheld : ∀ x, call'.held = some x → call.held = some x) :
    Frame s (s.putRefresh c call') :=
  Frame.putRefresh hc fun x _ hx => .inl (hheld x hx)

theorem cache_unregister (s : Endpoints) (c : ℕ) : (s.unregister c).cache = s.cache := by
  rw [unregister_eq]

theorem refreshes_unregister (s : Endpoints) (c : ℕ) : (s.unregister c).refreshes = s.refreshes := by
  rw [unregister_eq]

theorem calls_unregister (s : Endpoints) (c : ℕ) : (s.unregister c).calls = s.calls := by
  rw [unregister_eq]

theorem leave_calls {s : Endpoints} {i c : ℕ} {caller : TTSCall} {call : EndpointInflightCall} :
    (s.leave i c caller call).calls =
      s.calls.set i { caller with phase := .failed (ctxError caller.ctx) } := by
  unfold leave
  split
  · rw [calls_unregister]
    rfl
  · rfl

theorem stepRefresh_calls {s t : Endpoints} {c : ℕ} {call : EndpointInflightCall}
    {a : EndpointAction} (hst : s.stepRefresh c call a = some t) : t.calls = s.calls := by
  cases a with
  | answer c' response exp clientID =>
      simp only [stepRefresh] at hst
      split at hst
      · split at hst
        · cases hst
          rfl
        · cases hst
          rfl
      · cases hst
  | finish c' =>
      simp only [stepRefresh] at hst
      split at hst
      · cases hst
        rw [calls_unregister]
        rfl
      · cases hst
  | readPrevious c' | checkPrevious c' | refuse c' | store c' | timeout c' =>
      simp only [stepRefresh] at hst
      split at hst
      · cases hst
        rfl
      · cases hst
  | _ => cases hst

theorem Frame.unregister {s t : Endpoints} (h : Frame s t) (c : ℕ) : Frame s (t.unregister c) :=
  h.congr (cache_unregister t c) (refreshes_unregister t c)

theorem join_frame (s : Endpoints) (i : ℕ) (caller : TTSCall) : Frame s (s.join i caller) := by
  rw [join]
  split
  · next c call hj =>
    obtain ⟨-, hc, -⟩ := joinable_eq_some.mp hj
    have hput : Frame s (s.putRefresh c { call with waiters := call.waiters + 1 }) :=
      Frame.keeps hc fun _ hx => hx
    exact hput.congr rfl rfl
  · refine ⟨fun _ _ hx => hx, fun c call' hc => ?_⟩
    rcases getElem?_concat_cases hc with hold | ⟨-, rfl⟩
    · exact .inr ⟨call', hold, fun x _ hx => .inl hx⟩
    · exact .inl rfl

theorem leave_frame {s : Endpoints} {i c : ℕ} {caller : TTSCall} {call : EndpointInflightCall}
    (hc : s.refreshes[c]? = some call) : Frame s (s.leave i c caller call) := by
  have hput (call' : EndpointInflightCall) (hphase : call'.phase = call.phase) :
      Frame s ((s.putCall i { caller with phase := .failed (ctxError caller.ctx) }).putRefresh c
        call') := by
    have hkeeps : Frame s (s.putRefresh c call') :=
      Frame.keeps hc fun x hx => held_congr hphase ▸ hx
    exact hkeeps.congr rfl rfl
  unfold leave
  split
  · exact (hput { call with waiters := call.waiters - 1, ctx := cancelled call.ctx } rfl).unregister c
  · exact hput { call with waiters := call.waiters - 1 } rfl

theorem stepCall_frame {s t : Endpoints} {i : ℕ} {caller : TTSCall} {a : EndpointAction}
    (hst : s.stepCall i caller a = some t) : Frame s t := by
  have hput (caller' : TTSCall) : Frame s (s.putCall i caller') :=
    Frame.of_eq (fun _ hx => hx) rfl
  cases a with
  | join i' =>
      simp only [stepCall] at hst
      split at hst
      · cases hst
        exact join_frame s i caller
      · cases hst
  | leave i' =>
      simp only [stepCall] at hst
      split at hst
      · obtain ⟨call, hc, rfl⟩ := Option.map_eq_some_iff.mp hst
        exact leave_frame hc
      · cases hst
  | receive i' =>
      simp only [stepCall] at hst
      split at hst
      · obtain ⟨call, -, hst⟩ := Option.bind_eq_some_iff.mp hst
        split at hst
        · cases hst
          exact hput _
        · cases hst
          exact hput _
        · cases hst
      · cases hst
  | invalidate i' =>
      simp only [stepCall] at hst
      split at hst
      · cases hst
        refine Frame.of_eq (fun x hx => ?_) rfl
        simp only at hx
        split at hx
        · cases hx
        · exact hx
      · cases hst
  | cancel i' =>
      cases hst
      exact hput _
  | seeDone i' =>
      simp only [stepCall] at hst
      split at hst
      · split at hst
        · cases hst
        · cases hst
          exact hput _
      · cases hst
  | abandon i' =>
      simp only [stepCall] at hst
      split at hst
      · cases hst
        exact hput _
      · cases hst
        exact hput _
      · cases hst
  | expire i' | read i' | check i' | send i' | respond i' status =>
      simp only [stepCall] at hst
      split at hst
      · cases hst
        exact hput _
      · cases hst
  | _ => cases hst

theorem stepRefresh_frame {s t : Endpoints} {c : ℕ} {call : EndpointInflightCall}
    {a : EndpointAction} (hc : s.refreshes[c]? = some call) (hst : s.stepRefresh c call a = some t) :
    Frame s t := by
  cases a with
  | readPrevious c' =>
      simp only [stepRefresh] at hst
      split at hst
      · cases hst
        exact Frame.putRefresh hc fun x _ hx => .inr hx
      · cases hst
  | checkPrevious c' =>
      simp only [stepRefresh] at hst
      split at hst
      · next previous hphase =>
        cases hst
        refine Frame.keeps hc fun x hx => ?_
        rw [EndpointInflightCall.held, hphase]
        cases hfresh : previous.filter s.fresh with
        | some y =>
            rw [hfresh] at hx
            exact (Option.filter_eq_some_iff.mp hfresh).1.trans hx
        | none =>
            rw [hfresh] at hx
            exact hx
      · cases hst
  | refuse c' =>
      simp only [stepRefresh] at hst
      split at hst
      · next previous hphase =>
        cases hst
        refine Frame.keeps hc fun x hx => ?_
        rw [EndpointInflightCall.held, hphase]
        cases hctx : call.ctx.err with
        | some error =>
            rw [hctx] at hx
            cases hx
        | none =>
            rw [hctx] at hx
            cases previous with
            | some y => exact hx
            | none => cases hx
      · cases hst
  | answer c' response exp clientID =>
      simp only [stepRefresh] at hst
      split at hst
      · next previous hphase =>
        split at hst
        · cases hst
          refine Frame.keeps hc fun x hx => ?_
          rw [EndpointInflightCall.held, hphase]
          cases previous with
          | some y => exact hx
          | none => cases hx
        · cases hst
          refine Frame.congr (t := s.putRefresh c _) (Frame.putRefresh hc fun x hx hheld => ?_) rfl rfl
          -- the new object is not one that anybody knows
          cases hctx : call.ctx.err with
          | some error =>
              rw [hctx] at hheld
              cases hheld
          | none =>
              rw [hctx] at hheld
              cases hheld
              exact absurd hx.1 (lt_irrefl _)
      · cases hst
  | store c' =>
      simp only [stepRefresh] at hst
      split at hst
      · next x hphase =>
        cases hst
        have hkeeps : Frame s (s.putRefresh c { call with phase := .returning (.ok x) }) := by
          refine Frame.keeps hc fun y hy => ?_
          rw [EndpointInflightCall.held, hphase]
          exact hy
        refine ⟨fun y hy hcache => ?_, hkeeps.refreshes⟩
        cases hcache
        exact absurd hphase (hy.2 c call hc)
      · cases hst
  | finish c' =>
      simp only [stepRefresh] at hst
      split at hst
      · next result hphase =>
        cases hst
        refine Frame.unregister (Frame.keeps hc fun x hx => ?_) c
        rw [EndpointInflightCall.held, hphase]
        exact hx
      · cases hst
  | timeout c' =>
      simp only [stepRefresh] at hst
      split at hst
      · cases hst
        exact Frame.keeps hc fun _ hx => hx
      · cases hst
  | _ => cases hst

theorem step_frame {s t : Endpoints} {a : EndpointAction} (hst : s.step a = some t) :
    Frame s t := by
  cases a with
  | advance seconds =>
      cases hst
      exact Frame.of_eq (fun _ hx => hx) rfl
  | call =>
      cases hst
      exact Frame.of_eq (fun _ hx => hx) rfl
  | cancel i | expire i | read i | check i | join i | receive i | seeDone i | leave i | send i
  | abandon i | respond i status | invalidate i =>
      obtain ⟨caller, -, hst⟩ := Option.bind_eq_some_iff.mp hst
      exact stepCall_frame hst
  | readPrevious c | checkPrevious c | refuse c | answer c response exp clientID | store c | finish c
  | timeout c =>
      obtain ⟨call, hc, hst⟩ := Option.bind_eq_some_iff.mp hst
      exact stepRefresh_frame hc hst

/-! ## A retry and the credentials of the first attempt -/

/-- A call in this phase is not going to get the credentials from where it is. -/
def Avoids (s : Endpoints) (x : ℕ) : CallPhase → Prop
  | .looked cache => cache ≠ some x
  | .waiting c | .leaving c => ∀ call, s.refreshes[c]? = some call → call.held ≠ some x
  | .holding cache => cache ≠ x
  | _ => True

/-- Before its request, a first attempt has sent nothing, and a retry will not get again what the
first attempt sent. -/
def Expects (s : Endpoints) (caller : TTSCall) : Prop :=
  (caller.isRetry = false → caller.sent = []) ∧
    (caller.isRetry = true → ∃ x, caller.sent = [x] ∧ s.cache ≠ some x ∧ s.Avoids x caller.phase)

def GoodCall (s : Endpoints) (caller : TTSCall) : Prop :=
  match caller.phase with
  | .asking | .looked _ | .joining | .waiting _ | .leaving _ | .holding _ => s.Expects caller
  | .awaiting x => (caller.isRetry = false → caller.sent = [x]) ∧ caller.sent.Nodup
  | .rejected x => caller.isRetry = false ∧ caller.sent = [x]
  | .failed _ | .returned => caller.sent.Nodup

theorem Expects.nodup {s : Endpoints} {caller : TTSCall} (h : s.Expects caller) :
    caller.sent.Nodup := by
  cases hretry : caller.isRetry with
  | false =>
      rw [h.1 hretry]
      exact List.nodup_nil
  | true =>
      obtain ⟨x, hsent, -, -⟩ := h.2 hretry
      rw [hsent]
      exact List.nodup_singleton x

theorem GoodCall.nodup {s : Endpoints} {caller : TTSCall} (h : s.GoodCall caller) :
    caller.sent.Nodup := by
  cases hphase : caller.phase with
  | asking | looked | joining | waiting | leaving | holding =>
      simp only [GoodCall, hphase] at h
      exact h.nodup
  | awaiting x =>
      simp only [GoodCall, hphase] at h
      exact h.2
  | rejected x =>
      simp only [GoodCall, hphase] at h
      rw [h.2]
      exact List.nodup_singleton x
  | failed | returned =>
      simp only [GoodCall, hphase] at h
      exact h

theorem Frame.avoids {s t : Endpoints} (h : Frame s t) {x : ℕ} (hx : s.Published x)
    (hgone : s.cache ≠ some x) {phase : CallPhase} (havoids : s.Avoids x phase) : t.Avoids x phase := by
  have hwaits {c : ℕ} (hs : ∀ call, s.refreshes[c]? = some call → call.held ≠ some x)
      (call' : EndpointInflightCall) (hc : t.refreshes[c]? = some call') : call'.held ≠ some x := by
    intro hheld
    rcases h.refreshes c call' hc with hnone | ⟨call, hcall, hold⟩
    · rw [hnone] at hheld
      cases hheld
    · rcases hold x hx hheld with hheld' | hcache
      · exact hs call hcall hheld'
      · exact hgone hcache
  cases phase with
  | waiting c => exact hwaits havoids
  | leaving c => exact hwaits havoids
  | looked cache => exact havoids
  | holding cache => exact havoids
  | asking | joining | failed | awaiting | rejected | returned => trivial

theorem GoodCall.frame {s t : Endpoints} (hframe : Frame s t) {caller : TTSCall}
    (hknown : ∀ x ∈ caller.sent, s.Published x) (h : s.GoodCall caller) : t.GoodCall caller := by
  have hexpects (hs : s.Expects caller) : t.Expects caller := by
    refine ⟨hs.1, fun hretry => ?_⟩
    obtain ⟨x, hsent, hgone, havoids⟩ := hs.2 hretry
    have hx : s.Published x := hknown x (by simp [hsent])
    exact ⟨x, hsent, fun hcache => hgone (hframe.cache x hx hcache), hframe.avoids hx hgone havoids⟩
  cases hphase : caller.phase with
  | asking | looked | joining | waiting | leaving | holding =>
      simp only [GoodCall, hphase] at h ⊢
      exact hexpects h
  | awaiting | rejected | failed | returned =>
      simp only [GoodCall, hphase] at h ⊢
      exact h

/-- The call is about to join a refresh that holds credentials it has already sent. -/
def joinsStale (s : Endpoints) (i : ℕ) : Bool :=
  (s.calls[i]?).any fun caller => s.joinable.any fun p => p.2.held.any caller.sent.contains

def Careful (s : Endpoints) (a : EndpointAction) : Bool :=
  match a with
  | .join i => !s.joinsStale i
  | _ => true

theorem Careful.join {s : Endpoints} {i c : ℕ} {caller : TTSCall} {call : EndpointInflightCall}
    (h : s.Careful (.join i) = true) (hi : s.calls[i]? = some caller)
    (hj : s.joinable = some (c, call)) {x : ℕ} (hx : x ∈ caller.sent) : call.held ≠ some x := by
  intro hheld
  simp [Careful, joinsStale, hi, hj, hheld, hx] at h

/-- What a careful join leads to. -/
theorem join_avoids {s : Endpoints} {i : ℕ} {caller : TTSCall} (hi : s.calls[i]? = some caller)
    (hcareful : s.Careful (.join i) = true) :
    ∃ c, (s.join i caller).calls = s.calls.set i { caller with phase := .waiting c } ∧
      (s.join i caller).cache = s.cache ∧
      ∀ x ∈ caller.sent, (s.join i caller).Avoids x (.waiting c) := by
  cases hj : s.joinable with
  | none =>
      refine ⟨s.refreshes.length, ?_, ?_, fun x hx call hc => ?_⟩
      · rw [Endpoints.join, hj]
      · rw [Endpoints.join, hj]
      · rw [Endpoints.join, hj] at hc
        rcases getElem?_concat_cases hc with hold | ⟨-, rfl⟩
        · exact absurd (List.getElem?_eq_some_iff.mp hold).1 (lt_irrefl _)
        · simp [EndpointInflightCall.held]
  | some p =>
      obtain ⟨c, old⟩ := p
      refine ⟨c, ?_, ?_, fun x hx call hc => ?_⟩
      · rw [Endpoints.join, hj]
        rfl
      · rw [Endpoints.join, hj]
        rfl
      · rw [Endpoints.join, hj] at hc
        rcases getElem?_set_cases hc with ⟨-, rfl⟩ | ⟨hne, -⟩
        · exact Careful.join hcareful hi hj hx
        · exact absurd rfl hne

/-- Every step of a call leaves it good, but for a join that is not careful. -/
theorem stepCall_good {s t : Endpoints} {i : ℕ} {caller : TTSCall} {a : EndpointAction}
    (hi : s.calls[i]? = some caller) (hgood : s.GoodCall caller)
    (hcareful : ∀ i', a = .join i' → s.Careful (.join i) = true)
    (hst : s.stepCall i caller a = some t) :
    ∃ caller', t.calls = s.calls.set i caller' ∧ t.GoodCall caller' := by
  cases a with
  | cancel i' =>
      cases hst
      exact ⟨_, rfl, hgood⟩
  | expire i' =>
      simp only [stepCall] at hst
      split at hst
      · cases hst
        exact ⟨_, rfl, hgood⟩
      · cases hst
  | read i' =>
      simp only [stepCall] at hst
      split at hst
      · next hphase =>
        cases hst
        simp only [GoodCall, hphase] at hgood
        refine ⟨_, rfl, ?_⟩
        cases caller.ctx.err with
        | some error => exact hgood.nodup
        | none =>
            refine ⟨hgood.1, fun hretry => ?_⟩
            obtain ⟨x, hsent, hgone, -⟩ := hgood.2 hretry
            exact ⟨x, hsent, hgone, hgone⟩
      · cases hst
  | check i' =>
      simp only [stepCall] at hst
      split at hst
      · next cache hphase =>
        cases hst
        simp only [GoodCall, hphase] at hgood
        refine ⟨_, rfl, ?_⟩
        cases hfresh : cache.filter s.fresh with
        | some y =>
            refine ⟨hgood.1, fun hretry => ?_⟩
            obtain ⟨x, hsent, hgone, havoids⟩ := hgood.2 hretry
            refine ⟨x, hsent, hgone, ?_⟩
            rw [hphase] at havoids
            rintro rfl
            exact havoids (Option.filter_eq_some_iff.mp hfresh).1
        | none =>
            refine ⟨hgood.1, fun hretry => ?_⟩
            obtain ⟨x, hsent, hgone, -⟩ := hgood.2 hretry
            exact ⟨x, hsent, hgone, trivial⟩
      · cases hst
  | join i' =>
      simp only [stepCall] at hst
      split at hst
      · next hphase =>
        cases hst
        simp only [GoodCall, hphase] at hgood
        obtain ⟨c, hcalls, hcache, havoids⟩ := join_avoids hi (hcareful i' rfl)
        refine ⟨_, hcalls, hgood.1, fun hretry => ?_⟩
        obtain ⟨x, hsent, hgone, -⟩ := hgood.2 hretry
        refine ⟨x, hsent, ?_, havoids x (by simp [hsent])⟩
        rw [hcache]
        exact hgone
      · cases hst
  | receive i' =>
      simp only [stepCall] at hst
      split at hst
      · next c hphase =>
        simp only [GoodCall, hphase] at hgood
        obtain ⟨call, hc, hst⟩ := Option.bind_eq_some_iff.mp hst
        split at hst
        · next y hfinished =>
          cases hst
          refine ⟨_, rfl, hgood.1, fun hretry => ?_⟩
          obtain ⟨x, hsent, hgone, havoids⟩ := hgood.2 hretry
          refine ⟨x, hsent, hgone, ?_⟩
          rw [hphase] at havoids
          rintro rfl
          refine havoids call hc ?_
          rw [EndpointInflightCall.held, hfinished]
          rfl
        · cases hst
          exact ⟨_, rfl, hgood.nodup⟩
        · cases hst
      · cases hst
  | seeDone i' =>
      simp only [stepCall] at hst
      split at hst
      · next c hphase =>
        split at hst
        · cases hst
        · cases hst
          simp only [GoodCall, hphase] at hgood
          refine ⟨_, rfl, hgood.1, fun hretry => ?_⟩
          obtain ⟨x, hsent, hgone, havoids⟩ := hgood.2 hretry
          rw [hphase] at havoids
          exact ⟨x, hsent, hgone, havoids⟩
      · cases hst
  | leave i' =>
      simp only [stepCall] at hst
      split at hst
      · next c hphase =>
        obtain ⟨call, hc, rfl⟩ := Option.map_eq_some_iff.mp hst
        simp only [GoodCall, hphase] at hgood
        exact ⟨{ caller with phase := .failed (ctxError caller.ctx) }, leave_calls, hgood.nodup⟩
      · cases hst
  | send i' =>
      simp only [stepCall] at hst
      split at hst
      · next y hphase =>
        cases hst
        simp only [GoodCall, hphase] at hgood
        refine ⟨_, rfl, fun hretry => ?_, ?_⟩
        · simp [hgood.1 hretry]
        · cases hretry : caller.isRetry with
          | false => simp [hgood.1 hretry]
          | true =>
              obtain ⟨x, hsent, -, havoids⟩ := hgood.2 hretry
              have hne : y ≠ x := by
                rw [hphase] at havoids
                exact havoids
              simp [hsent, Ne.symm hne]
      · cases hst
  | abandon i' =>
      simp only [stepCall] at hst
      split at hst
      · cases hst
        exact ⟨_, rfl, hgood.nodup⟩
      · cases hst
        exact ⟨_, rfl, hgood.nodup⟩
      · cases hst
  | respond i' status =>
      simp only [stepCall] at hst
      split at hst
      · next y hphase =>
        cases hst
        have hnodup : caller.sent.Nodup := hgood.nodup
        simp only [GoodCall, hphase] at hgood
        refine ⟨_, rfl, ?_⟩
        split
        · next hrejected => exact ⟨hrejected.1, hgood.1 hrejected.1⟩
        · exact hnodup
      · cases hst
  | invalidate i' =>
      simp only [stepCall] at hst
      split at hst
      · next y hphase =>
        cases hst
        simp only [GoodCall, hphase] at hgood
        refine ⟨_, rfl, by simp, fun _ => ⟨y, hgood.2, ?_, trivial⟩⟩
        simp only
        split
        · simp
        · next hne => exact hne
      · cases hst
  | _ => cases hst

theorem step_good {s t : Endpoints} {a : EndpointAction} (h : s.Sound)
    (hgood : ∀ caller ∈ s.calls, s.GoodCall caller) (hcareful : s.Careful a = true)
    (hst : s.step a = some t) : ∀ caller ∈ t.calls, t.GoodCall caller := by
  have hold (caller : TTSCall) (hcaller : caller ∈ s.calls) : t.GoodCall caller :=
    (hgood caller hcaller).frame (step_frame hst) fun x hx => h.known caller hcaller x (.inl hx)
  cases a with
  | advance seconds =>
      cases hst
      exact hold
  | call =>
      cases hst
      intro caller hcaller
      rcases List.mem_append.mp hcaller with hcaller | hnew
      · exact hold caller hcaller
      · rw [List.mem_singleton.mp hnew]
        exact ⟨fun _ => rfl, nofun⟩
  | cancel i | expire i | read i | check i | join i | receive i | seeDone i | leave i | send i
  | abandon i | respond i status | invalidate i =>
      obtain ⟨caller, hi, hst⟩ := Option.bind_eq_some_iff.mp hst
      obtain ⟨caller', hcalls, hgood'⟩ := stepCall_good hi (hgood caller (List.mem_of_getElem? hi))
        (fun i' he => by cases he <;> exact hcareful) hst
      intro other hother
      rw [hcalls] at hother
      rcases mem_set_cases hother with rfl | hother
      · exact hgood'
      · exact hold other hother
  | readPrevious c | checkPrevious c | refuse c | answer c response exp clientID | store c | finish c
  | timeout c =>
      obtain ⟨call, hc, hst'⟩ := Option.bind_eq_some_iff.mp hst
      intro caller hcaller
      rw [stepRefresh_calls hst'] at hcaller
      exact hold caller hcaller

/-! ## Cancellation -/

/-- A call that fails with a cancellation has itself been cancelled. -/
def OwnError (caller : TTSCall) : Prop :=
  match caller.phase with
  | .leaving _ => caller.ctx ≠ .live
  | .failed .cancelled => caller.ctx = .cancelled
  | _ => True

theorem err_eq_cancelled {ctx : EndpointContext} (h : ctx.err = some .cancelled) :
    ctx = .cancelled := by
  cases ctx with
  | cancelled => rfl
  | live | expired => cases h

theorem stepCall_ownError {s t : Endpoints} (h : s.Sound) {i : ℕ} {caller : TTSCall}
    {a : EndpointAction} (hi : s.calls[i]? = some caller) (hown : OwnError caller)
    (hst : s.stepCall i caller a = some t) :
    ∃ caller', t.calls = s.calls.set i caller' ∧ OwnError caller' := by
  cases a with
  | cancel i' =>
      cases hst
      refine ⟨_, rfl, ?_⟩
      cases hphase : caller.phase with
      | leaving c =>
          simp only [OwnError]
          exact cancelled_ne_live caller.ctx
      | failed error =>
          simp only [OwnError, hphase] at hown ⊢
          cases error with
          | cancelled =>
              rw [hown]
              rfl
          | deadlineExceeded | failed => trivial
      | _ => simp only [OwnError]
  | expire i' =>
      simp only [stepCall] at hst
      split at hst
      · next hlive =>
        cases hst
        refine ⟨_, rfl, ?_⟩
        cases hphase : caller.phase with
        | leaving c =>
            simp only [OwnError]
            simp
        | failed error =>
            simp only [OwnError, hphase] at hown ⊢
            cases error with
            | cancelled =>
                rw [hown] at hlive
                cases hlive
            | deadlineExceeded | failed => trivial
        | _ => simp only [OwnError]
      · cases hst
  | read i' =>
      simp only [stepCall] at hst
      split at hst
      · cases hst
        refine ⟨_, rfl, ?_⟩
        cases hctx : caller.ctx.err with
        | some error =>
            cases error with
            | cancelled => exact err_eq_cancelled hctx
            | deadlineExceeded | failed => trivial
        | none => trivial
      · cases hst
  | check i' =>
      simp only [stepCall] at hst
      split at hst
      · next cache hphase =>
        cases hst
        refine ⟨_, rfl, ?_⟩
        cases cache.filter s.fresh with
        | some y => trivial
        | none => trivial
      · cases hst
  | join i' =>
      simp only [stepCall] at hst
      split at hst
      · cases hst
        rw [Endpoints.join]
        split
        · exact ⟨_, rfl, trivial⟩
        · exact ⟨_, rfl, trivial⟩
      · cases hst
  | receive i' =>
      simp only [stepCall] at hst
      split at hst
      · next c hphase =>
        obtain ⟨call, hc, hst⟩ := Option.bind_eq_some_iff.mp hst
        split at hst
        · cases hst
          exact ⟨_, rfl, trivial⟩
        · next error hfinished =>
          cases hst
          refine ⟨_, rfl, ?_⟩
          cases error with
          | cancelled =>
              -- such a refresh has no one waiting
              have hzero := h.deserted c call hc hfinished
              have hone : caller.stake c ≤ total (TTSCall.stake c) s.calls := weight_le_total hi
              simp [TTSCall.stake, hphase, hzero] at hone
          | deadlineExceeded | failed => trivial
        · cases hst
      · cases hst
  | seeDone i' =>
      simp only [stepCall] at hst
      split at hst
      · split at hst
        · cases hst
        · next hdone =>
          cases hst
          exact ⟨_, rfl, hdone⟩
      · cases hst
  | leave i' =>
      simp only [stepCall] at hst
      split at hst
      · next c hphase =>
        obtain ⟨call, hc, rfl⟩ := Option.map_eq_some_iff.mp hst
        simp only [OwnError, hphase] at hown
        refine ⟨{ caller with phase := .failed (ctxError caller.ctx) }, ?_, ?_⟩
        · exact leave_calls
        · cases hctx : caller.ctx with
          | live => exact absurd hctx hown
          | cancelled => rfl
          | expired => trivial
      · cases hst
  | send i' =>
      simp only [stepCall] at hst
      split at hst
      · cases hst
        exact ⟨_, rfl, trivial⟩
      · cases hst
  | abandon i' =>
      simp only [stepCall] at hst
      split at hst
      · cases hst
        exact ⟨_, rfl, trivial⟩
      · cases hst
        exact ⟨_, rfl, trivial⟩
      · cases hst
  | respond i' status =>
      simp only [stepCall] at hst
      split at hst
      · cases hst
        refine ⟨_, rfl, ?_⟩
        split
        · trivial
        · trivial
      · cases hst
  | invalidate i' =>
      simp only [stepCall] at hst
      split at hst
      · cases hst
        exact ⟨_, rfl, trivial⟩
      · cases hst
  | _ => cases hst

theorem step_ownError {s t : Endpoints} {a : EndpointAction} (h : s.Sound)
    (hown : ∀ caller ∈ s.calls, OwnError caller) (hst : s.step a = some t) :
    ∀ caller ∈ t.calls, OwnError caller := by
  cases a with
  | advance seconds =>
      cases hst
      exact hown
  | call =>
      cases hst
      intro caller hcaller
      rcases List.mem_append.mp hcaller with hcaller | hnew
      · exact hown caller hcaller
      · rw [List.mem_singleton.mp hnew]
        trivial
  | cancel i | expire i | read i | check i | join i | receive i | seeDone i | leave i | send i
  | abandon i | respond i status | invalidate i =>
      obtain ⟨caller, hi, hst⟩ := Option.bind_eq_some_iff.mp hst
      obtain ⟨caller', hcalls, hown'⟩ :=
        stepCall_ownError h hi (hown caller (List.mem_of_getElem? hi)) hst
      intro other hother
      rw [hcalls] at hother
      rcases mem_set_cases hother with rfl | hother
      · exact hown'
      · exact hown other hother
  | readPrevious c | checkPrevious c | refuse c | answer c response exp clientID | store c | finish c
  | timeout c =>
      obtain ⟨call, hc, hst⟩ := Option.bind_eq_some_iff.mp hst
      rw [stepRefresh_calls hst]
      exact hown

/-! ## Every run -/

def Reached (s : Endpoints) : Prop :=
  Reachable Started (Steps step fun _ _ => True) s

theorem Reached.sound {s : Endpoints} (h : s.Reached) : s.Sound :=
  h.invariant Sound (fun _ hs => Started.sound hs) fun _ _ _ hsound hst => step_sound hsound hst.2

theorem Reached.ownError {s : Endpoints} (h : s.Reached) : ∀ caller ∈ s.calls, OwnError caller := by
  have hboth : s.Sound ∧ ∀ caller ∈ s.calls, OwnError caller := by
    refine h.invariant (fun s => s.Sound ∧ ∀ caller ∈ s.calls, OwnError caller) ?_ ?_
    · intro u hu
      exact ⟨Started.sound hu, by simp [hu.2.2.2.2]⟩
    · rintro u t a ⟨hsound, hown⟩ ⟨-, hst⟩
      exact ⟨step_sound hsound hst, step_ownError hsound hown hst⟩
  exact hboth.2

/-- Where no call joins a refresh that holds what the call has sent, all calls are good. -/
theorem careful_good {s : Endpoints}
    (h : Reachable Started (Steps step fun s a => s.Careful a = true) s) :
    ∀ caller ∈ s.calls, s.GoodCall caller := by
  have hboth : s.Sound ∧ ∀ caller ∈ s.calls, s.GoodCall caller := by
    refine h.invariant (fun s => s.Sound ∧ ∀ caller ∈ s.calls, s.GoodCall caller) ?_ ?_
    · intro u hu
      exact ⟨Started.sound hu, by simp [hu.2.2.2.2]⟩
    · rintro u t a ⟨hsound, hgood⟩ ⟨hcareful, hst⟩
      exact ⟨step_sound hsound hst, step_good hsound hgood hcareful hst⟩
  exact hboth.2

/-- The invalidation of rejected credentials leaves all others in the cache. -/
theorem invalidate_keeps {s t : Endpoints} {i x y : ℕ} {caller : TTSCall}
    (hi : s.calls[i]? = some caller) (hphase : caller.phase = .rejected x) (hy : s.cache = some y)
    (hne : y ≠ x) (hst : s.step (.invalidate i) = some t) : t.cache = some y := by
  simp only [step, hi, Option.bind_some, stepCall, hphase] at hst
  cases hst
  simp only [hy, Option.some.injEq, if_neg hne]

/-- What a refresh stores is new to every call. -/
theorem store_unknown {s t : Endpoints} (h : s.Sound) {c y : ℕ} (hst : s.step (.store c) = some t)
    (hy : t.cache = some y) {caller : TTSCall} (hcaller : caller ∈ s.calls) : ¬caller.Knows y := by
  obtain ⟨call, hc, hst⟩ := Option.bind_eq_some_iff.mp hst
  simp only [stepRefresh] at hst
  split at hst
  · next x hphase =>
    cases hst
    cases hy
    exact fun hknows => (h.known caller hcaller _ hknows).2 c call hc hphase
  · cases hst

/-- Rejected credentials are not sent again by a retry that joins no refresh holding them. In every
run, an invalidation keeps what was stored meanwhile, one live refresh at most is registered, and
cancellations stay with those who were cancelled. -/
theorem rejected_not_reused (s : Endpoints) :
    (Reachable Started (Steps step fun s a => s.Careful a = true) s →
      ∀ caller ∈ s.calls, caller.sent.Nodup) ∧
    (s.Reached → ∀ (i x : ℕ) caller, s.calls[i]? = some caller → caller.Knows x →
      ∀ c y t, s.step (.store c) = some t → t.cache = some y →
        ∀ u, Reachable (· = t) (Steps step fun _ _ => True) u → ∀ caller' v,
          u.calls[i]? = some caller' → caller'.phase = .rejected x → u.cache = some y →
            u.step (.invalidate i) = some v → v.cache = some y) ∧
    (s.Reached → ∀ (c c' : ℕ) call call', s.refreshes[c]? = some call →
      s.refreshes[c']? = some call' → call.running = true → call'.running = true →
        call.ctx = .live → call'.ctx = .live → c = c' ∧ s.refresh = some c) ∧
    (s.Reached → ∀ caller ∈ s.calls, caller.ctx = .live → caller.phase ≠ .failed .cancelled) := by
  refine ⟨?_, ?_, ?_, ?_⟩
  · intro hs caller hcaller
    exact (careful_good hs caller hcaller).nodup
  · intro hs i x caller hi hknows c y t hst hy u hu caller' v hi' hphase hcache hv
    have hnew : ¬caller.Knows y := store_unknown hs.sound hst hy (List.mem_of_getElem? hi)
    refine invalidate_keeps hi' hphase hcache ?_ hv
    rintro rfl
    exact hnew hknows
  · intro hs c c' call call' hc hc' hrun hrun' hlive hlive'
    have hslot := hs.sound.live c call hc hrun hlive
    have hslot' := hs.sound.live c' call' hc' hrun' hlive'
    rw [hslot] at hslot'
    exact ⟨Option.some.inj hslot', hslot⟩
  · intro hs caller hcaller hlive hphase
    have hown := hs.ownError caller hcaller
    rw [OwnError, hphase] at hown
    rw [hlive] at hown
    cases hown

def idle : Endpoints := ⟨0, [], none, none, [], []⟩

theorem idle_started : idle.Started := ⟨rfl, rfl, rfl, rfl, rfl⟩

/-- The credentials of the first request are rejected, and a new refresh brings others. -/
theorem rejected_not_reused_refreshed :
    ∃ s : Endpoints, Reachable Started (Steps step fun s a => s.Careful a = true) s ∧
      s.calls.map TTSCall.sent = [[0, 1]] ∧ ∀ caller ∈ s.calls, caller.sent.Nodup := by
  have hrun : (replay step (fun s a => s.Careful a = true) idle
      [.call, .read 0, .check 0, .join 0, .readPrevious 0, .checkPrevious 0,
        .answer 0 ⟨"token", "eastus"⟩ (some 600) "client", .store 0, .finish 0, .receive 0, .send 0,
        .respond 0 401, .invalidate 0, .read 0, .check 0, .join 0, .readPrevious 1, .checkPrevious 1,
        .answer 1 ⟨"other", "eastus"⟩ (some 700) "client", .store 1, .finish 1, .receive 0,
        .send 0]).any (fun s => s.calls.map TTSCall.sent = [[0, 1]]) = true := by decide +kernel
  obtain ⟨s, hs, hsent⟩ := (Option.any_eq_true _ _).mp hrun
  rw [decide_eq_true_eq] at hsent
  have hreach := replay_reachable _ _ (.start idle_started) hs
  exact ⟨s, hreach, hsent, (rejected_not_reused s).1 hreach⟩

/-- A second call has started a refresh that holds the credentials of the first one. They are
rejected and invalidated, the retry joins that refresh, the refresh fails and falls back to them. -/
theorem rejected_reused :
    ∃ s : Endpoints, s.Reached ∧ ∃ caller ∈ s.calls, caller.sent = [0, 0] := by
  have hrun : (replay step (fun _ _ => True) idle
      [.call, .read 0, .check 0, .join 0, .readPrevious 0, .checkPrevious 0,
        .answer 0 ⟨"token", "eastus"⟩ (some 310) "client", .store 0, .finish 0, .receive 0, .send 0,
        .advance 20, .call, .read 1, .check 1, .join 1, .readPrevious 1, .checkPrevious 1,
        .respond 0 401, .invalidate 0, .read 0, .check 0, .join 0, .refuse 1, .finish 1, .receive 0,
        .send 0]).any (fun s => s.calls.any fun caller => caller.sent = [0, 0]) = true := by
    decide +kernel
  obtain ⟨s, hs, hsent⟩ := (Option.any_eq_true _ _).mp hrun
  obtain ⟨caller, hcaller, hsent⟩ := List.any_eq_true.mp hsent
  rw [decide_eq_true_eq] at hsent
  exact ⟨s, replay_reachable _ _ (.start idle_started) hs, caller, hcaller, hsent⟩

end Endpoints

end ZReader.Services.Endpoint
