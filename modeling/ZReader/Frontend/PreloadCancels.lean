import ZReader.Frontend.PreloadTasks

namespace ZReader.Frontend.Preload

open Lib.Promises

variable {Blob : Type} {p q s : BackendTTS Blob}

namespace BackendTTS

/-! ## Cancellations -/

theorem evolves_retain (p : BackendTTS Blob) (keep : PreloadTask → Bool) : p.Evolves (p.retain keep) :=
  .of_subset (fun _ h => (List.mem_filter.mp h).1) (fun _ h => h) (fun _ h => h)
    (length_resolveAll _ _) (fun _ h => resolveAll_fulfilled _ h)

theorem mem_foldl_erase (removed : List PreloadTask) (keys : Finset String) (ssml : String) :
    ssml ∈ removed.foldl (fun keys task => keys.erase task.ssml) keys ↔
      ssml ∈ keys ∧ ∀ task ∈ removed, task.ssml ≠ ssml := by
  induction removed generalizing keys with
  | nil => simp
  | cons task removed ih =>
      rw [List.foldl_cons, ih, Finset.mem_erase, List.forall_mem_cons, and_assoc, ← and_left_comm,
        ne_comm (a := ssml)]

theorem Sound.eq_of_waiting (h : p.Sound) {task other : PreloadTask} (htask : task ∈ p.pendingPreloadTasks)
    (hother : other ∈ p.pendingPreloadTasks) (heq : task.id = other.id) : task = other :=
  List.inj_on_of_nodup_map (List.nodup_append.mp h.outstanding.nodup).1 htask hother heq

theorem Sound.retain (h : p.Sound) (keep : PreloadTask → Bool) : (p.retain keep).Sound := by
  refine ⟨h.active, h.bounded, h.ready, ?_, fun ssml => ?_,
    fun ssml id hid => (h.promised ssml id hid).trans_le (evolves_retain p keep).length,
    fun task ht => h.waiting task (List.mem_filter.mp ht).1, h.loading,
    fun audio ha => h.produced_of_evolves (evolves_retain p keep) ha⟩
  · apply Outstanding.resolveAll
    refine h.outstanding.perm ?_
    rw [ids, ids, ← List.append_assoc, ← List.map_append]
    exact ((List.perm_append_comm.trans (List.filter_append_perm keep _)).map _).symm.append_right _
  · simp only [BackendTTS.retain, mem_foldl_erase, h.keys, List.mem_filter]
    constructor
    · rintro ⟨⟨task, ht, rfl⟩, hremoved⟩
      refine ⟨task, ⟨ht, ?_⟩, rfl⟩
      by_contra hkeep
      exact hremoved task ⟨ht, by simpa using hkeep⟩ rfl
    · rintro ⟨task, ⟨ht, hkeep⟩, rfl⟩
      refine ⟨⟨task, ht, rfl⟩, fun other hremoved heq => ?_⟩
      obtain ⟨hother, hdropped⟩ := hremoved
      have hid := h.waiting other hother
      rw [heq, h.waiting task ht] at hid
      rw [h.eq_of_waiting ht hother (Option.some.inj hid)] at hkeep
      rw [hkeep] at hdropped
      cases hdropped

theorem mem_abort {chosen : PreloadTask → Bool} {r' : RunningTask Blob}
    (hr : r' ∈ (p.abort chosen).running) :
    ∃ r ∈ p.running, r' = { r with aborted := r.aborted || chosen r.task } := by
  obtain ⟨r, hmem, heq⟩ := List.mem_map.mp hr
  exact ⟨r, hmem, heq.symm⟩

theorem loading_of_abort (chosen : PreloadTask → Bool) {r : RunningTask Blob}
    (h : RunningTask.Loading { r with aborted := r.aborted || chosen r.task }) :
    r.Loading ∧ chosen r.task = false := by
  obtain ⟨haborted, hprogress⟩ := h
  obtain ⟨haborted, hchosen⟩ := Bool.or_eq_false_iff.mp haborted
  exact ⟨⟨haborted, hprogress⟩, hchosen⟩

theorem ids_abort (p : BackendTTS Blob) (chosen : PreloadTask → Bool) : (p.abort chosen).ids = p.ids := by
  simp [ids, abort, Function.comp_def]

theorem evolves_abort (p : BackendTTS Blob) (chosen : PreloadTask → Bool) : p.Evolves (p.abort chosen) where
  length := Nat.le_refl _
  unsettled task h := by
    rcases h with h | ⟨r', hr', htask, hprogress⟩
    · exact .inl (.inl h)
    · obtain ⟨r, hr, rfl⟩ := mem_abort hr'
      exact .inl (.inr ⟨r, hr, htask, hprogress⟩)
  opens id h := by
    rcases h with h | ⟨r', hr', hid, hloading⟩ | h
    · exact .inl h
    · obtain ⟨r, hr, rfl⟩ := mem_abort hr'
      exact .inr (.inl ⟨r, hr, hid, (loading_of_abort _ hloading).1⟩)
    · exact .inr (.inr h)
  ready audio h := .inl h
  fulfilled _ h := h

theorem Sound.abort (h : p.Sound) (chosen : PreloadTask → Bool) : (p.abort chosen).Sound := by
  refine ⟨?_, h.bounded, h.ready, (ids_abort p chosen).symm ▸ h.outstanding, h.keys, h.promised,
    h.waiting, fun r' hr' hloading => ?_, fun audio ha => h.produced_of_evolves (evolves_abort p chosen) ha⟩
  · rw [BackendTTS.abort, List.length_map]
    exact h.active
  · obtain ⟨r, hr, rfl⟩ := mem_abort hr'
    exact h.loading r hr (loading_of_abort _ hloading).1

/-- `cancelPreload` up to its filter. -/
def revoke (p : BackendTTS Blob) (ssml : String) : BackendTTS Blob :=
  match p.preloadAbortControllers ssml with
  | some id => (p.abort (·.id = id)).unregister ssml
  | none => p

theorem cancelPreload_eq (p : BackendTTS Blob) (ssml : String) :
    p.cancelPreload ssml = (p.revoke ssml).retain (·.ssml ≠ ssml) := by
  rw [cancelPreload, revoke]
  cases p.preloadAbortControllers ssml <;> rfl

theorem revoke_spec (h : p.Sound) (ssml : String) :
    (p.revoke ssml).Sound ∧ p.Evolves (p.revoke ssml) ∧
      ∀ r ∈ (p.revoke ssml).running, r.task.ssml = ssml → ¬ r.Loading := by
  rw [revoke]
  cases hcontroller : p.preloadAbortControllers ssml with
  | none =>
      refine ⟨h, .refl p, fun r hr hssml hloading => ?_⟩
      have := (h.loading r hr hloading).2
      rw [hssml, hcontroller] at this
      cases this
  | some id =>
      have hidle : ∀ r ∈ (p.abort (·.id = id)).running, r.task.id = id → ¬ r.Loading := by
        intro r' hr' hid hloading
        obtain ⟨r, hr, rfl⟩ := mem_abort hr'
        have hkept : decide (r.task.id = id) = false := (loading_of_abort (·.id = id) hloading).2
        exact of_decide_eq_false hkept hid
      refine ⟨(h.abort _).unregister hcontroller hidle,
        (evolves_abort p _).trans (evolves_unregister _ ssml), fun r hr hssml hloading => ?_⟩
      have hregistered := ((h.abort (·.id = id)).loading r hr hloading).2
      rw [hssml] at hregistered
      exact hidle r hr (Option.some.inj (hregistered.symm.trans hcontroller)) hloading

theorem cancelPreload_spec (h : p.Sound) (ssml : String) :
    (p.cancelPreload ssml).Sound ∧ p.Evolves (p.cancelPreload ssml) := by
  obtain ⟨hsound, hevolves, -⟩ := revoke_spec h ssml
  rw [cancelPreload_eq]
  exact ⟨hsound.retain _, hevolves.trans (evolves_retain _ _)⟩

/-! ## Cancelled tasks -/

/-- The task never adds audio, and none of the audio is its own. -/
def Dead (p : BackendTTS Blob) (id : Nat) : Prop :=
  ¬ p.Open id ∧ ∀ audio ∈ p.preloadedQueue, audio.task ≠ id

theorem Dead.evolves {id : Nat} (h : p.Dead id) (he : p.Evolves q) : q.Dead id := by
  refine ⟨fun hopen => h.1 (he.opens id hopen), fun audio ha hid => ?_⟩
  rcases he.ready audio ha with ha | ha
  · exact h.2 audio ha hid
  · exact h.1 (hid ▸ ha)

/-- A cancellation starts no task and moves none on. -/
structure Fewer (p q : BackendTTS Blob) : Prop where
  active : q.activePreloadCount = p.activePreloadCount
  pending : ∀ task ∈ q.pendingPreloadTasks, task ∈ p.pendingPreloadTasks
  running : ∀ r' ∈ q.running, ∃ r ∈ p.running, r.task = r'.task
  ready : ∀ audio ∈ q.preloadedQueue, audio ∈ p.preloadedQueue
  length : q.promises.length = p.promises.length

theorem Fewer.refl (p : BackendTTS Blob) : p.Fewer p :=
  ⟨rfl, fun _ h => h, fun r h => ⟨r, h, rfl⟩, fun _ h => h, rfl⟩

theorem Fewer.trans (hpq : p.Fewer q) (hqs : q.Fewer s) : p.Fewer s where
  active := hqs.active.trans hpq.active
  pending task h := hpq.pending task (hqs.pending task h)
  running r h := by
    obtain ⟨r', hr', heq'⟩ := hqs.running r h
    obtain ⟨r'', hr'', heq''⟩ := hpq.running r' hr'
    exact ⟨r'', hr'', heq''.trans heq'⟩
  ready audio h := hpq.ready audio (hqs.ready audio h)
  length := hqs.length.trans hpq.length

theorem Fewer.busy (h : p.Fewer q) (hp : p.Busy) : q.Busy := by
  intro room
  rw [h.active] at room
  exact List.eq_nil_iff_forall_not_mem.mpr fun task ht => List.not_mem_nil (hp room ▸ h.pending task ht)

theorem fewer_retain (p : BackendTTS Blob) (keep : PreloadTask → Bool) : p.Fewer (p.retain keep) :=
  ⟨rfl, fun _ h => (List.mem_filter.mp h).1, fun r h => ⟨r, h, rfl⟩, fun _ h => h, length_resolveAll _ _⟩

theorem fewer_abort (p : BackendTTS Blob) (chosen : PreloadTask → Bool) : p.Fewer (p.abort chosen) := by
  refine ⟨rfl, fun _ h => h, fun r' hr' => ?_, fun _ h => h, rfl⟩
  obtain ⟨r, hr, rfl⟩ := mem_abort hr'
  exact ⟨r, hr, rfl⟩

theorem fewer_revoke (p : BackendTTS Blob) (ssml : String) : p.Fewer (p.revoke ssml) := by
  rw [revoke]
  cases p.preloadAbortControllers ssml with
  | none => exact .refl p
  | some id =>
      have h := fewer_abort p (·.id = id)
      exact ⟨h.active, h.pending, h.running, h.ready, h.length⟩

theorem fewer_cancelPreload (p : BackendTTS Blob) (ssml : String) : p.Fewer (p.cancelPreload ssml) := by
  rw [cancelPreload_eq]
  exact (fewer_revoke p ssml).trans (fewer_retain _ _)

/-- No other task has the number of one whose request has not settled. -/
theorem Sound.unique (h : p.Sound) {task : PreloadTask} (hu : p.Unsettled task) :
    (∀ other ∈ p.pendingPreloadTasks, other.id = task.id → other = task) ∧
      ∀ r ∈ p.running, r.task.id = task.id → r.task = task ∧ task ∉ p.pendingPreloadTasks := by
  rcases hu with ht | ⟨r, hr, rfl, -⟩
  · exact ⟨fun other hother heq => h.eq_of_waiting hother ht heq,
      fun r hr heq => absurd heq (h.not_running_of_waits ht hr)⟩
  · refine ⟨fun other hother heq => absurd heq.symm (h.not_running_of_waits hother hr),
      fun r' hr' heq => ⟨congrArg _ (h.eq_of_id hr' hr heq), fun hmem => ?_⟩⟩
    exact h.not_running_of_waits hmem hr rfl

theorem Sound.lt_of_unsettled (h : p.Sound) {task : PreloadTask} (hu : p.Unsettled task) :
    task.id < p.promises.length := by
  refine h.outstanding.lt_length (List.mem_append.mpr ?_)
  rcases hu with ht | ⟨r, hr, rfl, -⟩
  · exact .inl (List.mem_map_of_mem ht)
  · exact .inr (List.mem_map.mpr ⟨r, hr, rfl⟩)

/-- A task is dead once it neither waits nor loads. -/
theorem Sound.dead (h : p.Sound) {task : PreloadTask} (hu : p.Unsettled task) (hf : p.Fewer q)
    (hpending : task ∉ q.pendingPreloadTasks) (hidle : ∀ r ∈ q.running, r.task = task → ¬ r.Loading) :
    q.Dead task.id := by
  obtain ⟨hwaiting, hrunning⟩ := h.unique hu
  constructor
  · rintro (⟨other, hother, hid⟩ | ⟨r', hr', hid, hloading⟩ | hle)
    · exact hpending (hwaiting other (hf.pending other hother) hid ▸ hother)
    · obtain ⟨r, hr, heq⟩ := hf.running r' hr'
      rw [← heq] at hid
      exact hidle r' hr' (heq ▸ (hrunning r hr hid).1) hloading
    · rw [hf.length] at hle
      exact absurd (h.lt_of_unsettled hu) (Nat.not_lt.mpr hle)
  · intro audio ha hid
    exact (h.produced audio (hf.ready audio ha)).2 task hu hid.symm

theorem dead_cancelPreload (h : p.Sound) {task : PreloadTask} (hu : p.Unsettled task) :
    (p.cancelPreload task.ssml).Dead task.id := by
  refine h.dead hu (fewer_cancelPreload p task.ssml) ?_ ?_
  · rw [cancelPreload_eq]
    intro hmem
    simpa using (List.mem_filter.mp hmem).2
  · rw [cancelPreload_eq]
    intro r hr heq
    exact (revoke_spec h task.ssml).2.2 r hr (congrArg _ heq)

theorem unsettled_cancelPreload {ssml : String} {task : PreloadTask} (hu : p.Unsettled task)
    (hne : task.ssml ≠ ssml) : (p.cancelPreload ssml).Unsettled task := by
  rw [cancelPreload_eq]
  rcases hu with ht | ⟨r, hr, rfl, hprogress⟩
  · refine .inl (List.mem_filter.mpr ⟨?_, by simpa using hne⟩)
    rw [revoke]
    cases p.preloadAbortControllers ssml <;> exact ht
  · refine .inr ?_
    rw [revoke]
    cases p.preloadAbortControllers ssml with
    | none => exact ⟨r, hr, rfl, hprogress⟩
    | some id => exact ⟨_, List.mem_map_of_mem hr, rfl, hprogress⟩

/-- The cancellations of `cleanupIrrelevantPreloads`. -/
theorem cancelPreloads_spec (keys : List String) (h : p.Sound) :
    (keys.foldl cancelPreload p).Sound ∧ p.Evolves (keys.foldl cancelPreload p) ∧
      p.Fewer (keys.foldl cancelPreload p) ∧
      ∀ task, p.Unsettled task → (keys.foldl cancelPreload p).Dead task.id ∨
        task.ssml ∉ keys ∧ (keys.foldl cancelPreload p).Unsettled task := by
  induction keys generalizing p with
  | nil => exact ⟨h, .refl p, .refl p, fun task hu => .inr ⟨List.not_mem_nil, hu⟩⟩
  | cons ssml keys ih =>
      obtain ⟨hsound, hevolves⟩ := cancelPreload_spec h ssml
      obtain ⟨hsound', hevolves', hfewer', hdead⟩ := ih hsound
      refine ⟨hsound', hevolves.trans hevolves', (fewer_cancelPreload p ssml).trans hfewer',
        fun task hu => ?_⟩
      by_cases hssml : task.ssml = ssml
      · exact .inl ((hssml ▸ dead_cancelPreload h hu).evolves hevolves')
      · rcases hdead task (unsettled_cancelPreload hu hssml) with hdead | ⟨hkeys, hu'⟩
        · exact .inl hdead
        · exact .inr ⟨mt List.mem_cons.mp (not_or.mpr ⟨hssml, hkeys⟩), hu'⟩

theorem Sound.dead_retain (h : p.Sound) {keep : PreloadTask → Bool} {task : PreloadTask}
    (ht : task ∈ p.pendingPreloadTasks) (hkeep : keep task = false) : (p.retain keep).Dead task.id := by
  refine h.dead (.inl ht) (fewer_retain p keep) (fun hmem => ?_) fun r hr heq => ?_
  · cases hkeep.symm.trans (List.mem_filter.mp hmem).2
  · exact absurd (congrArg _ heq) (h.not_running_of_waits ht hr)

/-- Ready audio may be dropped at any time. -/
theorem Sound.drop (h : p.Sound) {queue : List (PreloadedAudio Blob)}
    (hsub : List.Sublist queue p.preloadedQueue) : ({ p with preloadedQueue := queue }).Sound :=
  { h with
    ready := hsub.length_le.trans h.ready
    produced := fun audio ha => h.produced audio (hsub.subset ha) }

theorem evolves_drop {queue : List (PreloadedAudio Blob)} (hsub : List.Sublist queue p.preloadedQueue) :
    p.Evolves { p with preloadedQueue := queue } :=
  .of_subset (fun _ h => h) (fun _ h => h) (fun _ h => hsub.subset h) rfl fun _ h => h

/-! ## All tasks are cancelled -/

def registered (p : BackendTTS Blob) (task : PreloadTask) : Bool :=
  p.preloadAbortControllers task.ssml = some task.id

/-- `cancelAllPreloads` after the queue has been emptied. -/
def revokeAll (p : BackendTTS Blob) : BackendTTS Blob :=
  { p.abort p.registered with
    preloadAbortControllers := fun _ => none
    preloadPromises := fun _ => none }

theorem cancelAllPreloads_eq (p : BackendTTS Blob) :
    p.cancelAllPreloads = (p.retain fun _ => false).revokeAll := rfl

theorem pending_retain_none (p : BackendTTS Blob) :
    (p.retain fun _ => false).pendingPreloadTasks = [] := by
  simp [retain]

theorem revokeAll_spec (h : p.Sound) (hp : p.pendingPreloadTasks = []) :
    p.revokeAll.Sound ∧ p.Evolves p.revokeAll ∧ p.Fewer p.revokeAll ∧
      ∀ r ∈ p.revokeAll.running, ¬ r.Loading := by
  have habort := h.abort p.registered
  have hfewer := fewer_abort p p.registered
  have hidle : ∀ r ∈ p.revokeAll.running, ¬ r.Loading := by
    intro r' hr' hloading
    have hr' : r' ∈ (p.abort p.registered).running := hr'
    obtain ⟨r, hr, rfl⟩ := mem_abort hr'
    obtain ⟨hloading, hkept⟩ := loading_of_abort p.registered hloading
    exact of_decide_eq_false hkept (h.loading r hr hloading).2
  refine ⟨{ habort with promised := ?_, waiting := ?_, loading := ?_ },
    (evolves_abort p p.registered).trans (.of_eq rfl rfl rfl rfl),
    ⟨hfewer.active, hfewer.pending, hfewer.running, hfewer.ready, hfewer.length⟩, hidle⟩
  · rintro ssml id ⟨⟩
  · intro task ht
    rw [show p.revokeAll.pendingPreloadTasks = [] from hp] at ht
    cases ht
  · exact fun r hr hloading => absurd hloading (hidle r hr)

theorem cancelAllPreloads_spec (h : p.Sound) :
    p.cancelAllPreloads.Sound ∧ p.Evolves p.cancelAllPreloads ∧ p.Fewer p.cancelAllPreloads ∧
      ∀ task, p.Unsettled task → p.cancelAllPreloads.Dead task.id := by
  have hretain := h.retain fun _ => false
  obtain ⟨hsound, hevolves, hfewer, hidle⟩ := revokeAll_spec hretain (pending_retain_none p)
  have hall := (fewer_retain p fun _ => false).trans hfewer
  rw [cancelAllPreloads_eq]
  refine ⟨hsound, (evolves_retain p _).trans hevolves, hall, fun task hu => ?_⟩
  refine h.dead hu hall (fun hmem => ?_) fun r hr _ => hidle r hr
  rw [show (p.retain fun _ => false).revokeAll.pendingPreloadTasks = [] from pending_retain_none p] at hmem
  cases hmem

theorem cleanup_spec (h : p.Sound) (relevantSSMLs : List String) :
    (p.cleanupIrrelevantPreloads relevantSSMLs).Sound ∧
      p.Evolves (p.cleanupIrrelevantPreloads relevantSSMLs) ∧
      p.Fewer (p.cleanupIrrelevantPreloads relevantSSMLs) ∧
      ∀ task, p.Unsettled task → task.ssml ∉ relevantSSMLs →
        (task ∈ p.pendingPreloadTasks ∨ ∃ audio ∈ p.preloadedQueue, audio.ssml = task.ssml) →
        (p.cleanupIrrelevantPreloads relevantSSMLs).Dead task.id := by
  have hsub : List.Sublist (p.preloadedQueue.filter (·.ssml ∈ relevantSSMLs)) p.preloadedQueue :=
    List.filter_sublist
  obtain ⟨hsound, hevolves, hfewer, hcancelled⟩ :=
    cancelPreloads_spec ((p.preloadedQueue.map (·.ssml)).filter (· ∉ relevantSSMLs)) (h.drop hsub)
  have hfewer' : p.Fewer { p with preloadedQueue := p.preloadedQueue.filter (·.ssml ∈ relevantSSMLs) } :=
    ⟨rfl, fun _ h => h, fun r h => ⟨r, h, rfl⟩, fun _ h => hsub.subset h, rfl⟩
  refine ⟨hsound.retain _, ((evolves_drop hsub).trans hevolves).trans (evolves_retain _ _),
    (hfewer'.trans hfewer).trans (fewer_retain _ _), fun task hu hirrelevant hcase => ?_⟩
  rcases hcancelled task hu with hdead | ⟨hkeys, hu'⟩
  · exact hdead.evolves (evolves_retain _ _)
  · rcases hcase with ht | ⟨audio, ha, hssml⟩
    · rcases hu' with ht' | ⟨r', hr', rfl, -⟩
      · exact hsound.dead_retain ht' (by simpa using hirrelevant)
      · obtain ⟨r, hr, heq⟩ := hfewer.running r' hr'
        exact absurd (congrArg PreloadTask.id heq) (h.not_running_of_waits ht hr)
    · refine absurd (List.mem_filter.mpr ⟨?_, by simpa using hirrelevant⟩) hkeys
      exact hssml ▸ List.mem_map_of_mem ha

end BackendTTS

end ZReader.Frontend.Preload
