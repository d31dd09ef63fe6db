import ZReader.Frontend.Preload

namespace ZReader.Frontend.Preload

open Lib.Promises
open Playback (TTSMark)

variable {Blob : Type} {p q s : BackendTTS Blob}

/-- A task that is yet to fill the queue. -/
def RunningTask.Loading (r : RunningTask Blob) : Prop := r.aborted = false ∧ r.progress ≠ .returned

namespace BackendTTS

/-! ## The tasks -/

/-- The tasks that wait or run. -/
def ids (p : BackendTTS Blob) : List Nat :=
  p.pendingPreloadTasks.map (·.id) ++ p.running.map (·.task.id)

/-- The task waits, or its request has not settled. -/
def Unsettled (p : BackendTTS Blob) (task : PreloadTask) : Prop :=
  task ∈ p.pendingPreloadTasks ∨ ∃ r ∈ p.running, r.task = task ∧ r.progress = .fetching

/-- The task can still add audio. -/
def Open (p : BackendTTS Blob) (id : Nat) : Prop :=
  (∃ task ∈ p.pendingPreloadTasks, task.id = id) ∨
    (∃ r ∈ p.running, r.task.id = id ∧ r.Loading) ∨ p.promises.length ≤ id

/-- What no step undoes: a task moves from the queue to its request and to its end, and audio
comes from a task that is open. -/
structure Evolves (p q : BackendTTS Blob) : Prop where
  length : p.promises.length ≤ q.promises.length
  unsettled : ∀ task, q.Unsettled task → p.Unsettled task ∨ p.promises.length ≤ task.id
  opens : ∀ id, q.Open id → p.Open id
  ready : ∀ audio ∈ q.preloadedQueue, audio ∈ p.preloadedQueue ∨ p.Open audio.task
  fulfilled : ∀ id : Nat, p.promises[id]? = some State.fulfilled → q.promises[id]? = some State.fulfilled

theorem Evolves.refl (p : BackendTTS Blob) : p.Evolves p :=
  ⟨Nat.le_refl _, fun _ h => .inl h, fun _ h => h, fun _ h => .inl h, fun _ h => h⟩

theorem Evolves.trans (hpq : p.Evolves q) (hqs : q.Evolves s) : p.Evolves s where
  length := hpq.length.trans hqs.length
  unsettled task h := by
    rcases hqs.unsettled task h with h | h
    · exact hpq.unsettled task h
    · exact .inr (hpq.length.trans h)
  opens id h := hpq.opens id (hqs.opens id h)
  ready audio h := by
    rcases hqs.ready audio h with h | h
    · exact hpq.ready audio h
    · exact .inr (hpq.opens _ h)
  fulfilled id h := hqs.fulfilled id (hpq.fulfilled id h)

/-- A state with fewer waiting tasks, the same running ones, and no more audio. -/
theorem Evolves.of_subset (hpending : ∀ task ∈ q.pendingPreloadTasks, task ∈ p.pendingPreloadTasks)
    (hrunning : ∀ r ∈ q.running, r ∈ p.running)
    (hready : ∀ audio ∈ q.preloadedQueue, audio ∈ p.preloadedQueue)
    (hlength : q.promises.length = p.promises.length)
    (hfulfilled : ∀ id : Nat, p.promises[id]? = some State.fulfilled →
      q.promises[id]? = some State.fulfilled) :
    p.Evolves q where
  length := hlength.ge
  unsettled task h := by
    rcases h with htask | ⟨r, hr, heq⟩
    · exact .inl (.inl (hpending task htask))
    · exact .inl (.inr ⟨r, hrunning r hr, heq⟩)
  opens id h := by
    rcases h with ⟨task, htask, hid⟩ | ⟨r, hr, hid⟩ | h
    · exact .inl ⟨task, hpending task htask, hid⟩
    · exact .inr (.inl ⟨r, hrunning r hr, hid⟩)
    · exact .inr (.inr (hlength ▸ h))
  ready audio h := .inl (hready audio h)
  fulfilled := hfulfilled

/-- The same tasks and the same audio. -/
theorem Evolves.of_eq (hpending : q.pendingPreloadTasks = p.pendingPreloadTasks)
    (hrunning : q.running = p.running)
    (hready : q.preloadedQueue = p.preloadedQueue) (hpromises : q.promises = p.promises) : p.Evolves q :=
  .of_subset (fun _ h => hpending ▸ h) (fun _ h => hrunning ▸ h) (fun _ h => hready ▸ h)
    (hpromises ▸ rfl) (fun _ h => hpromises ▸ h)

/-! ## The invariant -/

structure Sound (p : BackendTTS Blob) : Prop where
  active : p.activePreloadCount = p.running.length
  bounded : p.activePreloadCount ≤ maxPreloadConcurrency
  ready : p.preloadedQueue.length ≤ maxPreloadCount
  outstanding : Outstanding p.ids p.promises
  keys : ∀ ssml, ssml ∈ p.queuedPreloadKeys ↔ ∃ task ∈ p.pendingPreloadTasks, task.ssml = ssml
  promised : ∀ ssml id, p.preloadPromises ssml = some id → id < p.promises.length
  waiting : ∀ task ∈ p.pendingPreloadTasks, p.preloadPromises task.ssml = some task.id
  /-- What a task that loads has registered is still there, so that it can be cancelled. -/
  loading : ∀ r ∈ p.running, r.Loading →
    p.preloadPromises r.task.ssml = some r.task.id ∧
      p.preloadAbortControllers r.task.ssml = some r.task.id
  produced : ∀ audio ∈ p.preloadedQueue, audio.task < p.promises.length ∧
    ∀ task, p.Unsettled task → task.id ≠ audio.task

/-- No task waits for a place that is free. -/
def Busy (p : BackendTTS Blob) : Prop :=
  p.activePreloadCount < maxPreloadConcurrency → p.pendingPreloadTasks = []

namespace Sound

theorem nodup_running (h : p.Sound) : (p.running.map (·.task.id)).Nodup :=
  (List.nodup_append.mp h.outstanding.nodup).2.1

theorem not_running_of_waits (h : p.Sound) {task : PreloadTask} (htask : task ∈ p.pendingPreloadTasks)
    {r : RunningTask Blob} (hr : r ∈ p.running) : r.task.id ≠ task.id := fun heq =>
  (List.nodup_append.mp h.outstanding.nodup).2.2 _ (List.mem_map_of_mem htask) _
    (List.mem_map_of_mem (f := fun r : RunningTask Blob => r.task.id) hr) heq.symm

theorem eq_of_id (h : p.Sound) {r r' : RunningTask Blob} (hr : r ∈ p.running) (hr' : r' ∈ p.running)
    (heq : r.task.id = r'.task.id) : r = r' :=
  List.inj_on_of_nodup_map h.nodup_running hr hr' heq

theorem produced_of_evolves (h : p.Sound) (he : p.Evolves q) {audio : PreloadedAudio Blob}
    (ha : audio ∈ p.preloadedQueue) :
    audio.task < q.promises.length ∧ ∀ task, q.Unsettled task → task.id ≠ audio.task := by
  obtain ⟨hlt, hsettled⟩ := h.produced audio ha
  refine ⟨hlt.trans_le he.length, fun task hq => ?_⟩
  rcases he.unsettled task hq with hp | hle
  · exact hsettled task hp
  · exact (hlt.trans_le hle).ne'

end Sound

/-! ## The queue -/

/-- The state with `task` taken from the front of its queue and started. -/
def startFirst (p : BackendTTS Blob) (task : PreloadTask) (tasks : List PreloadTask) : BackendTTS Blob :=
  { p with pendingPreloadTasks := tasks }.start task

/-- The two ways in which `runPreloadTask` starts. -/
theorem startFirst_cases (p : BackendTTS Blob) (task : PreloadTask) (tasks : List PreloadTask) :
    ∃ controllers progress,
      p.startFirst task tasks = { p with
        pendingPreloadTasks := tasks
        queuedPreloadKeys := p.queuedPreloadKeys.erase task.ssml
        activePreloadCount := p.activePreloadCount + 1
        preloadAbortControllers := controllers
        running := p.running ++ [⟨task, false, progress⟩] } ∧
      (progress = .returned ∧ controllers = p.preloadAbortControllers ∨
        progress = .fetching ∧
          controllers = Function.update p.preloadAbortControllers task.ssml (some task.id)) := by
  rw [startFirst, start, runPreloadTask]
  split
  · exact ⟨_, _, rfl, .inl ⟨rfl, rfl⟩⟩
  · exact ⟨_, _, rfl, .inr ⟨rfl, rfl⟩⟩

theorem ids_startFirst {task : PreloadTask} {tasks : List PreloadTask}
    (hp : p.pendingPreloadTasks = task :: tasks) : p.ids.Perm (p.startFirst task tasks).ids := by
  obtain ⟨controllers, progress, heq, -⟩ := p.startFirst_cases task tasks
  simp only [heq, ids, hp, List.map_cons, List.map_append, List.map_nil, ← List.append_assoc]
  exact (List.perm_append_singleton _ _).symm

theorem evolves_startFirst {task : PreloadTask} {tasks : List PreloadTask}
    (hp : p.pendingPreloadTasks = task :: tasks) : p.Evolves (p.startFirst task tasks) := by
  obtain ⟨controllers, progress, heq, -⟩ := p.startFirst_cases task tasks
  have hfirst : task ∈ p.pendingPreloadTasks := hp ▸ List.mem_cons_self
  have hrest : ∀ t ∈ tasks, t ∈ p.pendingPreloadTasks := fun t ht => hp ▸ List.mem_cons_of_mem _ ht
  have hrunning : ∀ r ∈ (p.startFirst task tasks).running, r ∈ p.running ∨ r.task = task := by
    intro r hr
    simp only [heq, List.mem_append, List.mem_singleton] at hr
    exact hr.imp_right fun h => congrArg RunningTask.task h
  have hpending : (p.startFirst task tasks).pendingPreloadTasks = tasks := by rw [heq]
  have hpromises : (p.startFirst task tasks).promises = p.promises := by rw [heq]
  have hready : (p.startFirst task tasks).preloadedQueue = p.preloadedQueue := by rw [heq]
  constructor
  · exact hpromises ▸ Nat.le_refl _
  · rintro t (ht | ⟨r, hr, hid, hprogress⟩)
    · exact .inl (.inl (hrest t (hpending ▸ ht)))
    · rcases hrunning r hr with hr | hr
      · exact .inl (.inr ⟨r, hr, hid, hprogress⟩)
      · exact .inl (.inl (hid ▸ hr ▸ hfirst))
  · rintro id (⟨t, ht, hid⟩ | ⟨r, hr, hid, hloading⟩ | h)
    · exact .inl ⟨t, hrest t (hpending ▸ ht), hid⟩
    · rcases hrunning r hr with hr | hr
      · exact .inr (.inl ⟨r, hr, hid, hloading⟩)
      · exact .inl ⟨task, hfirst, hr ▸ hid⟩
    · exact .inr (.inr (hpromises ▸ h))
  · exact fun audio h => .inl (hready ▸ h)
  · exact fun id h => hpromises ▸ h

theorem Sound.startFirst {task : PreloadTask} {tasks : List PreloadTask} (h : p.Sound)
    (hp : p.pendingPreloadTasks = task :: tasks) (room : p.activePreloadCount < maxPreloadConcurrency) :
    (p.startFirst task tasks).Sound := by
  have hevolves := evolves_startFirst hp
  have hids := ids_startFirst hp
  have houtstanding := h.outstanding.perm hids
  obtain ⟨controllers, progress, heq, hstart⟩ := p.startFirst_cases task tasks
  have hmem : ∀ t ∈ tasks, t ∈ p.pendingPreloadTasks := fun t ht => hp ▸ List.mem_cons_of_mem _ ht
  have hfirst : task ∈ p.pendingPreloadTasks := hp ▸ List.mem_cons_self
  have hnodup : ∀ t ∈ tasks, t.id ≠ task.id := by
    have := (List.nodup_append.mp h.outstanding.nodup).1
    rw [hp, List.map_cons, List.nodup_cons] at this
    exact fun t ht heq => this.1 (List.mem_map.mpr ⟨t, ht, heq⟩)
  have hproduced : ∀ audio ∈ p.preloadedQueue, _ := fun audio ha => h.produced_of_evolves hevolves ha
  rw [heq] at hevolves houtstanding hproduced ⊢
  refine ⟨?_, room, h.ready, houtstanding, fun ssml => ?_, h.promised,
    fun t ht => h.waiting t (hmem t ht), ?_, hproduced⟩
  · simp [h.active]
  · rw [Finset.mem_erase, h.keys]
    constructor
    · rintro ⟨hne, t, ht, rfl⟩
      rcases List.mem_cons.mp (hp ▸ ht) with rfl | ht
      · exact absurd rfl hne
      · exact ⟨t, ht, rfl⟩
    · rintro ⟨t, ht, rfl⟩
      refine ⟨fun heq => hnodup t ht ?_, t, hmem t ht, rfl⟩
      have := h.waiting t (hmem t ht)
      rw [heq, h.waiting task hfirst] at this
      exact (Option.some.inj this).symm
  · intro r hr hloading
    rcases List.mem_append.mp hr with hr | hr
    · obtain ⟨hpromise, hcontroller⟩ := h.loading r hr hloading
      have hne : r.task.ssml ≠ task.ssml := by
        intro heq
        rw [heq, h.waiting task hfirst] at hpromise
        exact h.not_running_of_waits hfirst hr (Option.some.inj hpromise).symm
      refine ⟨hpromise, ?_⟩
      rcases hstart with ⟨-, rfl⟩ | ⟨-, rfl⟩
      · exact hcontroller
      · exact (Function.update_of_ne hne _ _).trans hcontroller
    · rw [List.mem_singleton] at hr
      subst hr
      rcases hstart with ⟨rfl, -⟩ | ⟨-, rfl⟩
      · exact absurd rfl hloading.2
      · exact ⟨h.waiting task hfirst, Function.update_self _ _ _⟩

theorem pump_spec (tasks : List PreloadTask) (hp : p.pendingPreloadTasks = tasks) (h : p.Sound) :
    (pump tasks p).Sound ∧ (pump tasks p).Busy ∧ p.Evolves (pump tasks p) := by
  induction tasks generalizing p with
  | nil =>
      have hself : pump [] p = p := by rw [pump, ← hp]
      rw [hself]
      exact ⟨h, fun _ => hp, .refl p⟩
  | cons task tasks ih =>
      rw [pump]
      split
      · next room =>
        have hpending : (p.startFirst task tasks).pendingPreloadTasks = tasks := by
          obtain ⟨_, _, heq, -⟩ := p.startFirst_cases task tasks
          rw [heq]
        obtain ⟨hsound, hbusy, hevolves⟩ := ih hpending (h.startFirst hp room)
        exact ⟨hsound, hbusy, (evolves_startFirst hp).trans hevolves⟩
      · next hfull =>
        rw [← hp]
        exact ⟨h, fun room => absurd room hfull, .refl p⟩

/-! ## Tasks that run -/

theorem find_spec {id : Nat} {r : RunningTask Blob} (h : p.find id = some r) :
    r ∈ p.running ∧ r.task.id = id :=
  ⟨List.mem_of_find?_eq_some h, by simpa using List.find?_some h⟩

theorem ids_advance (p : BackendTTS Blob) (id : Nat) (progress : Progress Blob) :
    (p.advance id progress).ids = p.ids := by
  have htask : ∀ r : RunningTask Blob,
      (if r.task.id = id then { r with progress } else r).task = r.task := fun r => by split <;> rfl
  simp [ids, advance, Function.comp_def, htask]

/-- A running task moves on. -/
theorem mem_advance (h : p.Sound) {r r' : RunningTask Blob} (hr : r ∈ p.running) {progress : Progress Blob}
    (hr' : r' ∈ (p.advance r.task.id progress).running) :
    r' = { r with progress } ∨ r' ∈ p.running ∧ r'.task.id ≠ r.task.id := by
  obtain ⟨other, hother, rfl⟩ := List.mem_map.mp hr'
  split
  · next hid => exact .inl (by rw [h.eq_of_id hother hr hid])
  · next hid => exact .inr ⟨hother, hid⟩

theorem evolves_advance (h : p.Sound) {r : RunningTask Blob} (hr : r ∈ p.running) (progress : Progress Blob)
    (hfetching : progress ≠ .fetching) (hreturned : progress ≠ .returned → r.progress ≠ .returned) :
    p.Evolves (p.advance r.task.id progress) where
  length := Nat.le_refl _
  unsettled task hu := by
    rcases hu with ht | ⟨r', hr', htask, hprogress⟩
    · exact .inl (.inl ht)
    · rcases mem_advance h hr hr' with rfl | ⟨hr', -⟩
      · exact absurd hprogress hfetching
      · exact .inl (.inr ⟨r', hr', htask, hprogress⟩)
  opens id ho := by
    rcases ho with ho | ⟨r', hr', hid, hloading⟩ | ho
    · exact .inl ho
    · rcases mem_advance h hr hr' with rfl | ⟨hr', -⟩
      · exact .inr (.inl ⟨r, hr, hid, hloading.1, hreturned hloading.2⟩)
      · exact .inr (.inl ⟨r', hr', hid, hloading⟩)
    · exact .inr (.inr ho)
  ready audio ha := .inl ha
  fulfilled _ hid := hid

theorem Sound.advance (h : p.Sound) {r : RunningTask Blob} (hr : r ∈ p.running) (progress : Progress Blob)
    (hfetching : progress ≠ .fetching) (hreturned : progress ≠ .returned → r.progress ≠ .returned) :
    (p.advance r.task.id progress).Sound := by
  refine ⟨?_, h.bounded, h.ready, (ids_advance p _ _).symm ▸ h.outstanding, h.keys,
    h.promised, h.waiting,
    fun r' hr' hloading => ?_,
    fun audio ha => h.produced_of_evolves (evolves_advance h hr progress hfetching hreturned) ha⟩
  · rw [BackendTTS.advance, List.length_map]
    exact h.active
  · rcases mem_advance h hr hr' with rfl | ⟨hr', -⟩
    · exact h.loading r hr ⟨hloading.1, hreturned hloading.2⟩
    · exact h.loading r' hr' hloading

theorem mem_push {audio other : PreloadedAudio Blob} (h : other ∈ (p.push audio).preloadedQueue) :
    other ∈ p.preloadedQueue ∨ other = audio := by
  simpa using List.mem_of_mem_drop h

/-- Audio is added by a task that loads, and its request has settled. -/
theorem evolves_push {r : RunningTask Blob} (hr : r ∈ p.running) (hloading : r.Loading)
    {audio : PreloadedAudio Blob} (haudio : audio.task = r.task.id) : p.Evolves (p.push audio) where
  length := Nat.le_refl _
  unsettled task hu := .inl hu
  opens id ho := ho
  ready other ho := by
    rcases mem_push ho with ho | rfl
    · exact .inl ho
    · exact .inr (.inr (.inl ⟨r, hr, haudio.symm, hloading⟩))
  fulfilled _ hid := hid

theorem Sound.push (h : p.Sound) {r : RunningTask Blob} (hr : r ∈ p.running) (hloading : r.Loading)
    (hsettled : r.progress ≠ .fetching) {audio : PreloadedAudio Blob} (haudio : audio.task = r.task.id) :
    (p.push audio).Sound := by
  refine { h with ready := ?_, produced := fun other ho => ?_ }
  · rw [BackendTTS.push, trimPreloadQueue, List.length_drop]
    omega
  · rcases mem_push ho with ho | rfl
    · exact h.produced_of_evolves (evolves_push hr hloading haudio) ho
    · rw [haudio]
      refine ⟨h.outstanding.lt_length (List.mem_append_right _ (List.mem_map.mpr ⟨r, hr, rfl⟩)), ?_⟩
      rintro task (ht | ⟨r', hr', rfl, hfetching⟩) hid
      · exact h.not_running_of_waits ht hr hid.symm
      · rw [h.eq_of_id hr' hr hid] at hfetching
        exact hsettled hfetching

/-- A controller is taken out of the map when its task does not load any more. -/
def unregister (p : BackendTTS Blob) (ssml : String) : BackendTTS Blob :=
  { p with preloadAbortControllers := Function.update p.preloadAbortControllers ssml none }

theorem evolves_unregister (p : BackendTTS Blob) (ssml : String) : p.Evolves (p.unregister ssml) :=
  .of_eq rfl rfl rfl rfl

theorem Sound.unregister (h : p.Sound) {ssml : String} {id : Nat}
    (hcontroller : p.preloadAbortControllers ssml = some id)
    (hidle : ∀ r ∈ p.running, r.task.id = id → ¬ r.Loading) : (p.unregister ssml).Sound := by
  refine { h with loading := fun r hr hloading => ?_ }
  obtain ⟨hpromise, hregistered⟩ := h.loading r hr hloading
  refine ⟨hpromise, ?_⟩
  by_cases hssml : r.task.ssml = ssml
  · rw [hssml, hcontroller] at hregistered
    exact absurd hloading (hidle r hr (Option.some.inj hregistered).symm)
  · exact (Function.update_of_ne hssml _ _).trans hregistered

/-- `complete` on the queue, on the task and on its controller. -/
theorem complete_eq (p : BackendTTS Blob) (r : RunningTask Blob) (blob : Option Blob) :
    ∃ q : BackendTTS Blob, (q = p ∨ r.aborted = false ∧ ∃ audio : PreloadedAudio Blob,
        audio.task = r.task.id ∧ q = p.push audio) ∧
      p.complete r blob =
        if q.preloadAbortControllers r.task.ssml = some r.task.id then
          (q.advance r.task.id .returned).unregister r.task.ssml
        else q.advance r.task.id .returned := by
  unfold complete
  cases blob with
  | none =>
      refine ⟨p, .inl rfl, ?_⟩
      simp only
      split <;> rfl
  | some blob =>
      cases haborted : r.aborted with
      | true =>
          refine ⟨p, .inl rfl, ?_⟩
          simp only [if_true]
          split <;> rfl
      | false =>
          refine ⟨p.push (r.task.audio blob), .inr ⟨rfl, r.task.audio blob, rfl, rfl⟩, ?_⟩
          simp only [Bool.false_eq_true, if_false]
          split <;> rfl

theorem complete_spec (h : p.Sound) {r : RunningTask Blob} (hr : r ∈ p.running) {blob : Option Blob}
    (hprogress : r.progress = .fetched blob) :
    (p.complete r blob).Sound ∧ p.Evolves (p.complete r blob) ∧
      (p.complete r blob).activePreloadCount = p.activePreloadCount ∧
      (p.complete r blob).pendingPreloadTasks = p.pendingPreloadTasks := by
  have hfetching : r.progress ≠ .fetching := by simp [hprogress]
  have hreturned : r.progress ≠ .returned := by simp [hprogress]
  obtain ⟨q, hq, heq⟩ := complete_eq p r blob
  have hspec : q.Sound ∧ p.Evolves q ∧ r ∈ q.running ∧ q.activePreloadCount = p.activePreloadCount ∧
      q.pendingPreloadTasks = p.pendingPreloadTasks := by
    rcases hq with rfl | ⟨haborted, audio, haudio, rfl⟩
    · exact ⟨h, .refl q, hr, rfl, rfl⟩
    · exact ⟨h.push hr ⟨haborted, hreturned⟩ hfetching haudio,
        evolves_push hr ⟨haborted, hreturned⟩ haudio, hr, rfl, rfl⟩
  obtain ⟨hsound, hevolves, hrq, hactive, hpending⟩ := hspec
  have hadvance := hsound.advance hrq .returned (by simp) fun h => absurd rfl h
  have hevolves' := hevolves.trans
    (evolves_advance hsound hrq .returned (by simp) fun h => absurd rfl h)
  rw [heq]
  split
  · next hcontroller =>
    refine ⟨hadvance.unregister hcontroller fun r' hr' hid hloading => ?_,
      hevolves'.trans (evolves_unregister _ _), hactive, hpending⟩
    rcases mem_advance hsound hrq hr' with rfl | ⟨-, hne⟩
    · exact hloading.2 rfl
    · exact hne hid
  · exact ⟨hadvance, hevolves', hactive, hpending⟩

/-- `finish` up to `pumpPreloadQueue`. -/
def leave (p : BackendTTS Blob) (id : Nat) : BackendTTS Blob :=
  { p with
    running := p.running.eraseP (·.task.id = id)
    activePreloadCount := p.activePreloadCount - 1
    promises := resolve p.promises id }

theorem leave_spec (h : p.Sound) {r : RunningTask Blob} (hr : r ∈ p.running) :
    (p.leave r.task.id).Sound ∧ p.Evolves (p.leave r.task.id) := by
  have hmem : ∀ r' ∈ (p.leave r.task.id).running, r' ∈ p.running := fun r' hr' => List.mem_of_mem_eraseP hr'
  have hevolves : p.Evolves (p.leave r.task.id) :=
    .of_subset (fun _ h => h) hmem (fun _ h => h) (length_resolve _ _) fun _ h => resolve_fulfilled _ h
  obtain ⟨found, front, back, hfront, hfound, heq, herase⟩ :=
    List.exists_of_eraseP (p := fun r' : RunningTask Blob => r'.task.id = r.task.id) hr (by simp)
  have hid : found.task.id = r.task.id := by simpa using hfound
  have hrunning : (p.leave r.task.id).running = front ++ back := herase
  have hids : p.ids.Perm (r.task.id :: (p.leave r.task.id).ids) := by
    rw [ids, ids, hrunning, heq, ← hid]
    simp only [List.map_append, List.map_cons, leave]
    rw [← List.append_assoc, ← List.append_assoc]
    exact List.perm_middle
  refine ⟨⟨?_, (Nat.sub_le _ _).trans h.bounded, h.ready, (h.outstanding.perm hids).resolve, h.keys,
    fun ssml id hid => (h.promised ssml id hid).trans_le hevolves.length, h.waiting,
    fun r' hr' => h.loading r' (hmem r' hr'),
    fun audio ha => h.produced_of_evolves hevolves ha⟩, hevolves⟩
  rw [hrunning, leave, h.active, heq]
  simp only [List.length_append, List.length_cons]
  omega

theorem Sound.forget (h : p.Sound) {ssml : String} {id : Nat}
    (hfulfilled : p.promises[id]? = some State.fulfilled) (hid : p.preloadPromises ssml = some id) :
    ({ p with preloadPromises := Function.update p.preloadPromises ssml none }).Sound := by
  have hnot := h.outstanding.not_mem_of_fulfilled hfulfilled
  have hkeep : ∀ key other, p.preloadPromises key = some other → other ∈ p.ids →
      Function.update p.preloadPromises ssml none key = some other := by
    intro key other hother hmem
    refine (Function.update_of_ne (fun heq => hnot ?_) _ _).trans hother
    rw [heq, hid] at hother
    exact Option.some.inj hother ▸ hmem
  refine { h with
    promised := fun key other hother => h.promised key other ?_
    waiting := fun task ht => ?_
    loading := fun r hr hloading => ?_ }
  · have hother : Function.update p.preloadPromises ssml none key = some other := hother
    by_cases hkey : key = ssml
    · rw [hkey, Function.update_self] at hother
      cases hother
    · exact (Function.update_of_ne hkey _ _).symm.trans hother
  · exact hkeep _ _ (h.waiting task ht) (List.mem_append_left _ (List.mem_map_of_mem ht))
  · obtain ⟨hpromise, hcontroller⟩ := h.loading r hr hloading
    exact ⟨hkeep _ _ hpromise (List.mem_append_right _ (List.mem_map.mpr ⟨r, hr, rfl⟩)), hcontroller⟩

/-! ## New tasks -/

/-- `preload` with the promise in its map before the queue is pumped. -/
def register (p : BackendTTS Blob) (ssml : String) (marks : List TTSMark) : BackendTTS Blob :=
  { p.enqueue ssml marks with
    preloadPromises := Function.update p.preloadPromises ssml (some p.promises.length) }

theorem length_register (p : BackendTTS Blob) (ssml : String) (marks : List TTSMark) :
    (p.register ssml marks).promises.length = p.promises.length + 1 := by
  simp [register, enqueue]

theorem pump_promises (f : String → Option Nat) (tasks : List PreloadTask) (p : BackendTTS Blob) :
    pump tasks { p with preloadPromises := f } = { pump tasks p with preloadPromises := f } ∧
      (pump tasks p).preloadPromises = p.preloadPromises := by
  induction tasks generalizing p with
  | nil => exact ⟨rfl, rfl⟩
  | cons task tasks ih =>
      have hstart : { p with pendingPreloadTasks := tasks, preloadPromises := f }.start task =
          { { p with pendingPreloadTasks := tasks }.start task with preloadPromises := f } := by
        rw [start, start, runPreloadTask, runPreloadTask]
        split <;> rfl
      have hkept : ({ p with pendingPreloadTasks := tasks }.start task).preloadPromises =
          p.preloadPromises := by
        rw [start, runPreloadTask]
        split <;> rfl
      rw [pump, pump]
      split
      · rw [hstart]
        exact ⟨(ih _).1, (ih _).2.trans hkept⟩
      · exact ⟨rfl, rfl⟩

theorem register_pump (p : BackendTTS Blob) (ssml : String) (marks : List TTSMark) :
    { (p.enqueue ssml marks).pumpPreloadQueue with
      preloadPromises := Function.update (p.enqueue ssml marks).pumpPreloadQueue.preloadPromises ssml
        (some p.promises.length) } = (p.register ssml marks).pumpPreloadQueue := by
  have h := pump_promises (Function.update p.preloadPromises ssml (some p.promises.length))
    (p.enqueue ssml marks).pendingPreloadTasks (p.enqueue ssml marks)
  rw [pumpPreloadQueue, h.2]
  exact h.1.symm

theorem evolves_register (p : BackendTTS Blob) (ssml : String) (marks : List TTSMark) :
    p.Evolves (p.register ssml marks) := by
  have hpending : ∀ task ∈ (p.register ssml marks).pendingPreloadTasks,
      task ∈ p.pendingPreloadTasks ∨ task.id = p.promises.length := by
    intro task ht
    exact (List.mem_append.mp ht).imp_right fun h => by rw [List.mem_singleton.mp h]
  have hlength := length_register p ssml marks
  constructor
  · omega
  · rintro task (ht | hr)
    · exact (hpending task ht).imp .inl fun h => h.ge
    · exact .inl (.inr hr)
  · rintro id (⟨task, ht, rfl⟩ | hr | hle)
    · rcases hpending task ht with ht | ht
      · exact .inl ⟨task, ht, rfl⟩
      · exact .inr (.inr ht.ge)
    · exact .inr (.inl hr)
    · exact .inr (.inr (by omega))
  · exact fun audio ha => .inl ha
  · intro id h
    exact (List.getElem?_append_left (List.getElem?_eq_some_iff.mp h).1).trans h

theorem Sound.register (h : p.Sound) {ssml : String} (hnone : p.preloadPromises ssml = none)
    (marks : List TTSMark) : (p.register ssml marks).Sound := by
  have hne : ∀ key other, p.preloadPromises key = some other →
      Function.update p.preloadPromises ssml (some p.promises.length) key = some other := by
    intro key other hother
    refine (Function.update_of_ne (fun heq => ?_) _ _).trans hother
    rw [heq, hnone] at hother
    cases hother
  have hids : (p.promises.length :: p.ids).Perm (p.register ssml marks).ids := by
    simp only [ids, BackendTTS.register, enqueue, List.map_append, List.map_cons, List.map_nil,
      List.append_assoc, List.singleton_append]
    exact List.perm_middle.symm
  refine ⟨h.active, h.bounded, h.ready, h.outstanding.create.perm hids, fun key => ?_, fun key id hid => ?_,
    fun task ht => ?_, fun r hr hloading => ?_,
    fun audio ha => h.produced_of_evolves (evolves_register p ssml marks) ha⟩
  · simp only [BackendTTS.register, enqueue, Finset.mem_insert, h.keys, List.mem_append,
      List.mem_singleton]
    constructor
    · rintro (rfl | ⟨task, ht, rfl⟩)
      · exact ⟨_, .inr rfl, rfl⟩
      · exact ⟨task, .inl ht, rfl⟩
    · rintro ⟨task, ht | rfl, rfl⟩
      · exact .inr ⟨task, ht, rfl⟩
      · exact .inl rfl
  · have hid : Function.update p.preloadPromises ssml (some p.promises.length) key = some id := hid
    rw [length_register]
    by_cases hkey : key = ssml
    · rw [hkey, Function.update_self] at hid
      exact Option.some.inj hid ▸ Nat.lt_succ_self _
    · rw [Function.update_of_ne hkey] at hid
      exact (h.promised key id hid).trans (Nat.lt_succ_self _)
  · rcases List.mem_append.mp ht with ht | ht
    · exact hne _ _ (h.waiting task ht)
    · rw [List.mem_singleton] at ht
      subst ht
      exact Function.update_self _ _ _
  · obtain ⟨hpromise, hcontroller⟩ := h.loading r hr hloading
    exact ⟨hne _ _ hpromise, hcontroller⟩

theorem preload_cases (p : BackendTTS Blob) (ssml : String) (marks : List TTSMark) :
    ((p.preload ssml marks).1 = p ∧
      ((p.preload ssml marks).2 = none ∨ (p.preload ssml marks).2 = p.preloadPromises ssml)) ∨
    (p.preloadPromises ssml = none ∧
      p.preload ssml marks = ((p.register ssml marks).pumpPreloadQueue, some p.promises.length)) := by
  rw [preload]
  split
  · exact .inl ⟨rfl, .inl rfl⟩
  split
  · exact .inl ⟨rfl, .inl rfl⟩
  split
  · exact .inl ⟨rfl, .inl rfl⟩
  split
  · exact .inl ⟨rfl, .inl rfl⟩
  cases h : p.preloadPromises ssml with
  | some existing => exact .inl ⟨rfl, .inr rfl⟩
  | none => exact .inr ⟨rfl, Prod.ext (register_pump p ssml marks) rfl⟩

end BackendTTS

end ZReader.Frontend.Preload
