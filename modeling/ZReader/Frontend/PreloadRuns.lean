import ZReader.Frontend.PreloadCancels
import ZReader.Lib.Transition

namespace ZReader.Frontend.Preload

open Lib.Promises Lib.Transition
open Playback (TTSMark)

variable {Blob : Type} {p q s : BackendTTS Blob}

namespace BackendTTS

/-! ## Runs -/

theorem settle_eq_some {id : Nat} {blob : Option Blob} (h : p.settle id blob = some q) :
    ∃ r ∈ p.running, r.progress = .fetching ∧ q = p.advance r.task.id (.fetched blob) := by
  obtain ⟨r, hr, hmatch⟩ := Option.bind_eq_some_iff.mp h
  obtain ⟨hmem, rfl⟩ := find_spec hr
  cases hprogress : r.progress with
  | fetching =>
      rw [hprogress] at hmatch
      exact ⟨r, hmem, hprogress, (Option.some.inj hmatch).symm⟩
  | fetched _ | returned =>
      rw [hprogress] at hmatch
      cases hmatch

theorem proceed_eq_some {id : Nat} (h : p.proceed id = some q) :
    ∃ r ∈ p.running, ∃ blob, r.progress = .fetched blob ∧ q = p.complete r blob := by
  obtain ⟨r, hr, hmatch⟩ := Option.bind_eq_some_iff.mp h
  obtain ⟨hmem, rfl⟩ := find_spec hr
  cases hprogress : r.progress with
  | fetched blob =>
      rw [hprogress] at hmatch
      exact ⟨r, hmem, blob, hprogress, (Option.some.inj hmatch).symm⟩
  | fetching | returned =>
      rw [hprogress] at hmatch
      cases hmatch

theorem finish_eq_some {id : Nat} (h : p.finish id = some q) :
    ∃ r ∈ p.running, r.progress = .returned ∧ q = (p.leave r.task.id).pumpPreloadQueue := by
  obtain ⟨r, hr, hmatch⟩ := Option.bind_eq_some_iff.mp h
  obtain ⟨hmem, rfl⟩ := find_spec hr
  cases hprogress : r.progress with
  | returned =>
      rw [hprogress] at hmatch
      exact ⟨r, hmem, hprogress, (Option.some.inj hmatch).symm⟩
  | fetching | fetched _ =>
      rw [hprogress] at hmatch
      cases hmatch

theorem step_spec (h : p.Sound) (hbusy : p.Busy) {e : Event Blob} (hs : p.step e = some q) :
    q.Sound ∧ q.Busy ∧ p.Evolves q := by
  cases e with
  | preload ssml marks =>
      obtain rfl := Option.some.inj hs
      rcases preload_cases p ssml marks with ⟨heq, -⟩ | ⟨hnone, heq⟩
      · rw [heq]
        exact ⟨h, hbusy, .refl p⟩
      · rw [heq]
        obtain ⟨hsound, hbusy', hevolves⟩ := pump_spec _ rfl (h.register hnone marks)
        exact ⟨hsound, hbusy', (evolves_register p ssml marks).trans hevolves⟩
  | cancelPreload ssml =>
      obtain rfl := Option.some.inj hs
      obtain ⟨hsound, hevolves⟩ := cancelPreload_spec h ssml
      exact ⟨hsound, (fewer_cancelPreload p ssml).busy hbusy, hevolves⟩
  | cancelAllPreloads =>
      obtain rfl := Option.some.inj hs
      obtain ⟨hsound, hevolves, hfewer, -⟩ := cancelAllPreloads_spec h
      exact ⟨hsound, hfewer.busy hbusy, hevolves⟩
  | cleanupIrrelevantPreloads relevantSSMLs =>
      obtain rfl := Option.some.inj hs
      obtain ⟨hsound, hevolves, hfewer, -⟩ := cleanup_spec h relevantSSMLs
      exact ⟨hsound, hfewer.busy hbusy, hevolves⟩
  | clearPreloadQueue =>
      obtain rfl := Option.some.inj hs
      obtain ⟨hsound, hevolves, hfewer, -⟩ := cancelAllPreloads_spec h
      exact ⟨hsound.drop (List.nil_sublist _), hfewer.busy hbusy,
        hevolves.trans (evolves_drop (List.nil_sublist _))⟩
  | settle id blob =>
      obtain ⟨r, hr, hprogress, rfl⟩ := settle_eq_some hs
      have hreturned : r.progress ≠ .returned := by simp [hprogress]
      exact ⟨h.advance hr _ (by simp) fun _ => hreturned, hbusy,
        evolves_advance h hr _ (by simp) fun _ => hreturned⟩
  | proceed id =>
      obtain ⟨r, hr, blob, hprogress, rfl⟩ := proceed_eq_some hs
      obtain ⟨hsound, hevolves, hactive, hpending⟩ := complete_spec h hr hprogress
      refine ⟨hsound, fun room => ?_, hevolves⟩
      rw [hpending]
      exact hbusy (hactive ▸ room)
  | finish id =>
      obtain ⟨r, hr, -, rfl⟩ := finish_eq_some hs
      obtain ⟨hsound, hevolves⟩ := leave_spec h hr
      obtain ⟨hsound', hbusy', hevolves'⟩ := pump_spec _ rfl hsound
      exact ⟨hsound', hbusy', hevolves.trans hevolves'⟩
  | forget ssml id =>
      rw [step, forget] at hs
      split at hs
      · next hpromise =>
        obtain rfl := Option.some.inj hs
        exact ⟨h.forget hpromise.1 hpromise.2, hbusy, .of_eq rfl rfl rfl rfl⟩
      · cases hs
  | take ssml =>
      obtain rfl := Option.some.inj hs
      exact ⟨h.drop List.eraseP_sublist, hbusy, evolves_drop List.eraseP_sublist⟩
  | cache keys =>
      obtain rfl := Option.some.inj hs
      exact ⟨{ h with }, hbusy, .of_eq rfl rfl rfl rfl⟩

def Reached (p : BackendTTS Blob) : Prop := Reachable (· = new) (Steps step fun _ _ => True) p

theorem Reached.new : (new : BackendTTS Blob).Reached := .start rfl

theorem Reached.preload (h : p.Reached) (ssml : String) (marks : List TTSMark) :
    (p.preload ssml marks).1.Reached :=
  h.next (a := .preload ssml marks) ⟨trivial, rfl⟩

theorem Reached.sound (h : p.Reached) : p.Sound ∧ p.Busy := by
  refine Reachable.invariant (fun p => p.Sound ∧ p.Busy) ?_ ?_ h
  · rintro _ rfl
    exact ⟨⟨rfl, Nat.zero_le _, Nat.zero_le _, .nil, by simp [BackendTTS.new], by simp [BackendTTS.new],
      by simp [BackendTTS.new], by simp [BackendTTS.new], by simp [BackendTTS.new]⟩, fun _ => rfl⟩
  · rintro p e q ⟨hsound, hbusy⟩ ⟨-, hstep⟩
    obtain ⟨hsound', hbusy', -⟩ := step_spec hsound hbusy hstep
    exact ⟨hsound', hbusy'⟩

theorem evolves_of_reachable (h : p.Sound) (hbusy : p.Busy)
    (hq : Reachable (· = p) (Steps step fun _ _ => True) q) : p.Evolves q := by
  refine (Reachable.invariant (fun q => q.Sound ∧ q.Busy ∧ p.Evolves q) ?_ ?_ hq).2.2
  · rintro _ rfl
    exact ⟨h, hbusy, .refl _⟩
  · rintro q e s ⟨hsound, hbusy, hevolves⟩ ⟨-, hstep⟩
    obtain ⟨hsound', hbusy', hevolves'⟩ := step_spec hsound hbusy hstep
    exact ⟨hsound', hbusy', hevolves.trans hevolves'⟩

/-! ## The end of the requests -/

def weight (r : RunningTask Blob) : Nat :=
  match r.progress with
  | .fetching => 3
  | .fetched _ => 2
  | .returned => 1

/-- How many completions are left at most. -/
def work (p : BackendTTS Blob) : Nat := 4 * p.pendingPreloadTasks.length + (p.running.map weight).sum

theorem weight_le (r : RunningTask Blob) : weight r ≤ 3 := by
  rw [weight]
  split <;> omega

theorem work_pump (tasks : List PreloadTask) (hp : p.pendingPreloadTasks = tasks) :
    (pump tasks p).work ≤ p.work := by
  induction tasks generalizing p with
  | nil => rw [pump, ← hp]
  | cons task tasks ih =>
      rw [pump]
      split
      · obtain ⟨controllers, progress, heq, -⟩ := p.startFirst_cases task tasks
        have hpending : (p.startFirst task tasks).pendingPreloadTasks = tasks := by rw [heq]
        refine (ih hpending).trans ?_
        have hweight := weight_le (⟨task, false, progress⟩ : RunningTask Blob)
        change (p.startFirst task tasks).work ≤ p.work
        rw [work, work, heq, hp]
        simp only [List.map_append, List.sum_append, List.map_cons, List.map_nil, List.sum_cons,
          List.sum_nil, List.length_cons]
        omega
      · rw [← hp]

theorem work_advance (h : p.Sound) {r : RunningTask Blob} (hr : r ∈ p.running) {progress : Progress Blob}
    (hlt : weight { r with progress } < weight r) : (p.advance r.task.id progress).work < p.work := by
  refine Nat.add_lt_add_left ?_ _
  rw [advance, List.map_map]
  refine List.sum_lt_sum _ _ (fun r' hr' => ?_) ⟨r, hr, ?_⟩
  · rw [Function.comp_apply]
    split
    · next hid =>
      rw [h.eq_of_id hr' hr hid]
      exact hlt.le
    · exact Nat.le_refl _
  · rw [Function.comp_apply, if_pos rfl]
    exact hlt

theorem work_leave {r : RunningTask Blob} (hr : r ∈ p.running) : (p.leave r.task.id).work < p.work := by
  obtain ⟨found, front, back, -, -, heq, herase⟩ :=
    List.exists_of_eraseP (p := fun r' : RunningTask Blob => r'.task.id = r.task.id) hr (by simp)
  have hpos : 0 < weight found := by
    rw [weight]
    split <;> omega
  rw [work, work, leave, herase, heq]
  simp only [List.map_append, List.sum_append, List.map_cons, List.sum_cons]
  omega

end BackendTTS

/-- A request settles, or a callback that its end has queued runs. -/
def Event.Completes : Event Blob → Prop
  | .settle _ _ | .proceed _ | .finish _ => True
  | _ => False

namespace BackendTTS

theorem work_step (h : p.Sound) {e : Event Blob} (he : e.Completes) (hs : p.step e = some q) :
    q.work < p.work := by
  cases e with
  | settle id blob =>
      obtain ⟨r, hr, hprogress, rfl⟩ := settle_eq_some hs
      exact work_advance h hr (by simp [weight, hprogress])
  | proceed id =>
      obtain ⟨r, hr, blob, hprogress, rfl⟩ := proceed_eq_some hs
      obtain ⟨s, hs', heq⟩ := complete_eq p r blob
      have hlt : (p.advance r.task.id .returned).work < p.work :=
        work_advance h hr (by simp [weight, hprogress])
      have hwork : (p.complete r blob).work = (p.advance r.task.id .returned).work := by
        rcases hs' with rfl | ⟨-, audio, -, rfl⟩ <;> rw [heq] <;> split <;> rfl
      exact hwork ▸ hlt
  | finish id =>
      obtain ⟨r, hr, -, rfl⟩ := finish_eq_some hs
      exact (work_pump _ rfl).trans_lt (work_leave hr)
  | preload _ _ | cancelPreload _ | cancelAllPreloads | cleanupIrrelevantPreloads _ | clearPreloadQueue
  | forget _ _ | take _ | cache _ => exact he.elim

theorem work_replay {l : List (Event Blob)} (h : p.Sound) (hbusy : p.Busy) (hl : ∀ e ∈ l, e.Completes)
    (hq : replay step (fun _ _ => True) p l = some q) : q.work + l.length ≤ p.work := by
  induction l generalizing p with
  | nil =>
      cases hq
      exact Nat.le_refl _
  | cons e l ih =>
      rw [replay, if_pos trivial] at hq
      obtain ⟨s, hs, hq⟩ := Option.bind_eq_some_iff.mp hq
      obtain ⟨hsound, hbusy', -⟩ := step_spec h hbusy hs
      have hlt := work_step h (hl e List.mem_cons_self) hs
      have hle := ih hsound hbusy' (fun e he => hl e (List.mem_cons_of_mem _ he)) hq
      rw [List.length_cons]
      omega

/-- While a task runs, some completion can happen. -/
theorem exists_completion (h : p.Sound) {r : RunningTask Blob} (hr : r ∈ p.running) :
    ∃ e : Event Blob, e.Completes ∧ p.step e ≠ none := by
  have hfind : p.find r.task.id = some r := by
    obtain ⟨found, hfound⟩ := Option.isSome_iff_exists.mp
      (List.find?_isSome.mpr ⟨r, hr, by simp⟩ : (p.find r.task.id).isSome = true)
    obtain ⟨hmem, hid⟩ := find_spec hfound
    exact h.eq_of_id hmem hr hid ▸ hfound
  cases hprogress : r.progress with
  | fetching => exact ⟨.settle r.task.id none, trivial, by simp [step, settle, hfind, hprogress]⟩
  | fetched blob => exact ⟨.proceed r.task.id, trivial, by simp [step, proceed, hfind, hprogress]⟩
  | returned => exact ⟨.finish r.task.id, trivial, by simp [step, finish, hfind, hprogress]⟩

/-- All requests have settled, and the callbacks have run. -/
def Quiet (p : BackendTTS Blob) : Prop := ∀ e : Event Blob, e.Completes → p.step e = none

theorem Quiet.running (hq : p.Quiet) (h : p.Sound) : p.running = [] := by
  refine List.eq_nil_iff_forall_not_mem.mpr fun r hr => ?_
  obtain ⟨e, he, hstep⟩ := exists_completion h hr
  exact hstep (hq e he)

/-! ## The discipline -/

/-- The event cancels a task whose request has not settled. The text of a task that runs is
cancelled by `cleanupIrrelevantPreloads` where it is among the ready texts too. -/
def Cancels (p : BackendTTS Blob) (task : PreloadTask) : Event Blob → Prop
  | .cancelPreload ssml => p.Unsettled task ∧ task.ssml = ssml
  | .cancelAllPreloads | .clearPreloadQueue => p.Unsettled task
  | .cleanupIrrelevantPreloads relevantSSMLs =>
      p.Unsettled task ∧ task.ssml ∉ relevantSSMLs ∧
        (task ∈ p.pendingPreloadTasks ∨ ∃ audio ∈ p.preloadedQueue, audio.ssml = task.ssml)
  | _ => False

theorem cancels_spec (h : p.Sound) {task : PreloadTask} {e : Event Blob} (hc : p.Cancels task e)
    (hs : p.step e = some q) : p.Unsettled task ∧ q.Dead task.id ∧ p.Fewer q := by
  cases e with
  | cancelPreload ssml =>
      obtain rfl := Option.some.inj hs
      obtain ⟨hu, rfl⟩ := hc
      exact ⟨hu, dead_cancelPreload h hu, fewer_cancelPreload p _⟩
  | cancelAllPreloads =>
      obtain rfl := Option.some.inj hs
      obtain ⟨-, -, hfewer, hdead⟩ := cancelAllPreloads_spec h
      exact ⟨hc, hdead task hc, hfewer⟩
  | cleanupIrrelevantPreloads relevantSSMLs =>
      obtain rfl := Option.some.inj hs
      obtain ⟨hu, hirrelevant, hcase⟩ := hc
      obtain ⟨-, -, hfewer, hdead⟩ := cleanup_spec h relevantSSMLs
      exact ⟨hu, hdead task hu hirrelevant hcase, hfewer⟩
  | clearPreloadQueue =>
      obtain rfl := Option.some.inj hs
      obtain ⟨-, -, hfewer, hdead⟩ := cancelAllPreloads_spec h
      exact ⟨hc, (hdead task hc).evolves (evolves_drop (List.nil_sublist _)), hfewer.active, hfewer.pending,
        hfewer.running, fun _ ha => absurd ha List.not_mem_nil, hfewer.length⟩
  | preload _ _ | settle _ _ | proceed _ | finish _ | forget _ _ | take _ | cache _ => exact hc.elim

theorem fulfilled_of_cancelled (h : p.Sound) {task : PreloadTask} (ht : task ∈ p.pendingPreloadTasks)
    (hf : p.Fewer q) (hq : q.Sound) (hdead : q.Dead task.id) :
    q.promises[task.id]? = some State.fulfilled := by
  refine hq.outstanding.fulfilled _ (hf.length ▸ h.lt_of_unsettled (.inl ht)) fun hmem => ?_
  rcases List.mem_append.mp hmem with hmem | hmem
  · obtain ⟨other, hother, hid⟩ := List.mem_map.mp hmem
    exact hdead.1 (.inl ⟨other, hother, hid⟩)
  · obtain ⟨r', hr', hid⟩ := List.mem_map.mp hmem
    obtain ⟨r, hr, heq⟩ := hf.running r' hr'
    exact h.not_running_of_waits ht hr (heq ▸ hid)

/-- No more tasks run than are allowed, and after finitely many completions none; the ready
queue keeps its bound; a task waits for a place only where all are taken. A promise is pending
while its task waits or runs and fulfilled afterwards. What is cancelled before its request has
settled adds no audio. -/
theorem preload_discipline (h : p.Reached) :
    p.activePreloadCount = p.running.length ∧
    p.activePreloadCount ≤ maxPreloadConcurrency ∧
    (p.Quiet → p.activePreloadCount = 0) ∧
    (∀ l q, (∀ e ∈ l, Event.Completes e) → replay step (fun _ _ => True) p l = some q →
      l.length ≤ p.work) ∧
    p.preloadedQueue.length ≤ maxPreloadCount ∧
    (p.activePreloadCount < maxPreloadConcurrency → p.pendingPreloadTasks = []) ∧
    (∀ ssml marks id, (p.preload ssml marks).2 = some id → id < (p.preload ssml marks).1.promises.length) ∧
    (∀ id < p.promises.length,
      if id ∈ p.ids then p.promises[id]? = some .pending else p.promises[id]? = some .fulfilled) ∧
    ∀ task e q, p.Cancels task e → p.step e = some q →
      ∀ s, Reachable (· = q) (Steps step fun _ _ => True) s →
        (task ∈ p.pendingPreloadTasks → s.promises[task.id]? = some .fulfilled) ∧
        ∀ audio ∈ s.preloadedQueue, audio.task ≠ task.id := by
  obtain ⟨hsound, hbusy⟩ := h.sound
  refine ⟨hsound.active, hsound.bounded, fun hquiet => ?_, fun l q hl hq => ?_, hsound.ready, hbusy,
    fun ssml marks id hid => ?_, fun id hid => ?_, fun task e q hc hq s hs => ?_⟩
  · rw [hsound.active, hquiet.running hsound, List.length_nil]
  · exact (Nat.le_add_left _ _).trans (work_replay hsound hbusy hl hq)
  · rcases preload_cases p ssml marks with ⟨hself, hnone | hexisting⟩ | ⟨hnone, heq⟩
    · cases hnone.symm.trans hid
    · rw [hself]
      exact hsound.promised ssml id (hexisting.symm.trans hid)
    · have hlength := (pump_spec _ rfl (hsound.register hnone marks)).2.2.length
      rw [heq] at hid ⊢
      cases hid
      exact (Nat.lt_succ_self _).trans_le ((length_register p ssml marks).symm.trans_le hlength)
  · split
    · next hmem => exact hsound.outstanding.pending id hmem
    · next hmem => exact hsound.outstanding.fulfilled id hid hmem
  · obtain ⟨hsound', hbusy', -⟩ := step_spec hsound hbusy hq
    obtain ⟨-, hdead, hfewer⟩ := cancels_spec hsound hc hq
    have hevolves := evolves_of_reachable hsound' hbusy' hs
    exact ⟨fun ht => hevolves.fulfilled _ (fulfilled_of_cancelled hsound ht hfewer hsound' hdead),
      (hdead.evolves hevolves).2⟩

/-- Three texts are preloaded, and the one that waits is cancelled. -/
theorem preload_discipline_cancelled :
    ∃ p : BackendTTS Unit, p.Reached ∧ p.activePreloadCount = 2 ∧
      p.pendingPreloadTasks = [⟨2, "c", []⟩] ∧
      (p.cancelPreload "c").promises = [.pending, .pending, .fulfilled] ∧
      ∀ audio ∈ (p.cancelPreload "c").preloadedQueue, audio.task ≠ 2 := by
  have hreached : Reached ((((new : BackendTTS Unit).preload "a" []).1.preload "b" []).1.preload "c" []).1 :=
    (((Reached.new).preload "a" []).preload "b" []).preload "c" []
  obtain ⟨-, -, -, -, -, -, -, -, hcancel⟩ := preload_discipline hreached
  have hc := hcancel ⟨2, "c", []⟩ (.cancelPreload "c") _ ⟨.inl (by decide), rfl⟩ rfl _ (.start rfl)
  exact ⟨_, hreached, by decide, by decide, by decide, hc.2⟩

end BackendTTS

end ZReader.Frontend.Preload
