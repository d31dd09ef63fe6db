import ZReader.Handlers.Processing

namespace ZReader.Handlers.Processing

open Lib.Utf8 Lib.Strings Lib.KeyValue Lib.Fallible Lib.Transition Storage

variable {hash : Bytes → Bytes}

/-! ## Records and their jobs -/

theorem getBookForUser_of_stored {db : Tx} (hc : Coherent db) {id : Bytes} {b : Book}
    (hb : db.books.get id = some b) (hu : b.userID ≠ []) :
    getBookForUser db id b.userID = some b := by
  obtain ⟨rfl, hw⟩ := hc.keyed id b hb
  have hrow : db.userBooksIndex.get (userBooksKey b.userID b.id) = some [] := by
    refine (hc.users _ _).mpr ⟨b, Bucket.mem_values.mpr ⟨b.id, hb⟩, ?_⟩
    rw [userBooksRows, if_neg (by simp [Unindexed, hw.1, hu])]
    exact List.mem_singleton.mpr rfl
  rw [getBookForUser, hrow, hb]

theorem needed_iff {db : Tx} {job : BookProcessingJob} :
    Needed db job ↔ ∃ b, db.books.get job.bookID = some b ∧ b.processingState = .pending ∧
      b.userID = job.userID := by
  simp [Needed, Option.any_eq_true]

theorem CoveredBy.mono {db : Tx} {jobs jobs' : List BookProcessingJob} (h : CoveredBy db jobs)
    (hsub : ∀ job ∈ jobs, job ∈ jobs') : CoveredBy db jobs' := by
  intro id b hb hpending
  obtain ⟨job, hjob, hserves⟩ := h id b hb hpending
  exact ⟨job, hsub job hjob, hserves⟩

theorem coveredBy_perm {db : Tx} {jobs jobs' : List BookProcessingJob} (h : jobs.Perm jobs') :
    CoveredBy db jobs ↔ CoveredBy db jobs' :=
  ⟨fun hc => hc.mono fun _ => h.mem_iff.mp, fun hc => hc.mono fun _ => h.mem_iff.mpr⟩

/-- Edits leave the pending books, and these with their owners. -/
theorem CoveredBy.descends {db db' : Tx} {jobs : List BookProcessingJob} (h : CoveredBy db jobs)
    (howned : ∀ job ∈ jobs, job.userID ≠ []) (hd : Descends db db') : CoveredBy db' jobs := by
  intro id b' hb' hpending
  obtain ⟨b, hb, hedit⟩ := hd id b' hb'
  obtain ⟨job, hjob, hid, hu⟩ := h id b hb (hedit.state ▸ hpending)
  have howner : b.userID ≠ [] := hu ▸ howned job hjob
  exact ⟨job, hjob, hid.trans hedit.id.symm, hu.trans (hedit.owner howner).symm⟩

/-- A record that is put in needs a job of its own where it is pending. -/
theorem CoveredBy.put {db db' : Tx} {jobs : List BookProcessingJob} (h : CoveredBy db jobs)
    {book : Book} (hput : ∀ k, db'.books.get k =
      if book.id = k then some { book with category := normalizeCategoryName book.category }
      else db.books.get k) :
    CoveredBy db' jobs ↔ (book.processingState = .pending → ∃ job ∈ jobs, Serves job book) := by
  constructor
  · intro hc hpending
    exact hc book.id { book with category := normalizeCategoryName book.category }
      ((hput book.id).trans (if_pos rfl)) hpending
  · intro hbook id b hb hpending
    rw [hput] at hb
    split at hb
    · cases hb
      exact hbook hpending
    · exact h id b hb hpending

/-- Without one of the jobs, the rest covers the books that this one is not needed for. -/
theorem CoveredBy.drop {db : Tx} (hk : Keyed db) {job : BookProcessingJob}
    {jobs : List BookProcessingJob} (h : CoveredBy db (job :: jobs))
    (hnew : job.bookID ∉ jobs.map (·.bookID)) : CoveredBy db jobs ↔ ¬ Needed db job := by
  constructor
  · intro hc hneeded
    obtain ⟨b, hb, hpending, -⟩ := needed_iff.mp hneeded
    obtain ⟨other, hother, hid, -⟩ := hc _ b hb hpending
    apply hnew
    rw [← (hk _ b hb).1, ← hid]
    exact List.mem_map_of_mem hother
  · intro hneeded id b hb hpending
    obtain ⟨other, hother, hserves⟩ := h id b hb hpending
    rcases List.mem_cons.mp hother with rfl | hother
    · refine absurd (needed_iff.mpr ⟨b, ?_, hpending, hserves.2.symm⟩) hneeded
      rw [hserves.1, (hk id b hb).1, hb]
    · exact ⟨other, hother, hserves⟩

theorem coveredBy_nil {db : Tx} (hk : Keyed db) {jobs : List BookProcessingJob}
    (h : CoveredBy db jobs) : CoveredBy db [] ↔ ∀ job ∈ jobs, ¬ Needed db job := by
  constructor
  · intro hc job _ hneeded
    obtain ⟨b, hb, hpending, -⟩ := needed_iff.mp hneeded
    obtain ⟨other, hother, -⟩ := hc _ b hb hpending
    exact List.not_mem_nil hother
  · intro hneeded id b hb hpending
    obtain ⟨job, hjob, hserves⟩ := h id b hb hpending
    refine absurd (needed_iff.mpr ⟨b, ?_, hpending, hserves.2.symm⟩) (hneeded job hjob)
    rw [hserves.1, (hk id b hb).1, hb]

/-! ## One transaction -/

theorem run_save {db : Tx} {book : Book} (h : Saves db book) (k : Bytes) :
    ((Op.saveBook book).run db).books.get k =
      if book.id = k then some { book with category := normalizeCategoryName book.category }
      else db.books.get k := by
  cases hsave : saveBook book db with
  | error e => simp [Saves, hsave, Except.toOption] at h
  | ok tx =>
      have hrun : (Op.saveBook book).run db = tx := by rw [Op.run, Tx.update, Op.transaction, hsave]
      rw [hrun]
      exact saveBook_books hsave k

theorem run_unsaved {db : Tx} {book : Book} (h : ¬ Saves db book) : (Op.saveBook book).run db = db := by
  cases hsave : saveBook book db with
  | error e => rw [Op.run, Tx.update, Op.transaction, hsave]
  | ok tx => simp [Saves, hsave, Except.toOption] at h

/-- A task other than a save edits the stored records at most. -/
theorem run_descends {db : Tx} (hc : Coherent db) {task : Task}
    (h : ∀ base book sets, task ≠ .saveBook base book sets) : Descends db (task.run db).db := by
  cases task with
  | update _ _ _ | delete _ _ | getCover _ _ _ _ _ | processBookPreview _ _ | refreshPreview _ _ =>
      exact .of_books rfl
  | deleteData id u =>
      rw [Task.run]
      split
      · next tx htx => exact deleteBookData_descends htx
      · exact .of_books rfl
  | batchUpdateCategory req u =>
      simp only [Task.run]
      split
      · exact .of_books rfl
      · exact Op.run_descends hc rfl
  | saveProgress p u e => exact Op.run_descends hc rfl
  | saveBook base book sets => exact absurd rfl (h base book sets)

theorem run_kept {db : Tx} {task : Task} (h : Reached db) (hs : task.Sound) :
    Reached (task.run db).db ∧ ∀ t ∈ (task.run db).next, t.Sound := by
  cases task with
  | saveBook base book sets =>
      refine ⟨h.run (.saveBook book) ?_, by simp [Task.run]⟩
      rw [Op.Admissible, hs.2.1]
      exact hs.1
  | update _ _ _ | delete _ _ | deleteData _ _ | batchUpdateCategory _ _ | getCover _ _ _ _ _
  | saveProgress _ _ _ | processBookPreview _ _ | refreshPreview _ _ =>
      exact ⟨(Task.run_sound h hs trivial).reached, (Task.run_sound h hs trivial).next⟩

/-! ## The work on a job -/

/-- What a worker does next for its job. -/
def Carries (job : BookProcessingJob) : Task → Prop
  | .processBookPreview job' _ | .refreshPreview job' _ => job' = job
  | .saveBook _ book _ => book.id = job.bookID ∧ book.processingState ≠ .pending
  | _ => False

theorem previewedBook_state (job : BookProcessingJob) (preview : Preview) (b : Book) :
    (previewedBook job preview b).1.processingState = .ready := rfl

/-- A worker that goes on stays with its job, and one that stops before it saves has found the
book of its job no longer pending. -/
theorem Carries.run {db : Tx} (hc : Coherent db) {job : BookProcessingJob} {task : Task}
    (h : Carries job task) (hu : job.userID ≠ [])
    (hsave : ∀ base book sets, task ≠ .saveBook base book sets) :
    (task.run db).db = db ∧ (∀ t ∈ (task.run db).next, Carries job t) ∧
      ((task.run db).next = none → ¬ Needed db job) := by
  have hidle (hnone : ∀ b, getBookForUser db job.bookID job.userID = some b →
      b.processingState ≠ .pending) : ¬ Needed db job := by
    intro hneeded
    obtain ⟨b, hb, hpending, howner⟩ := needed_iff.mp hneeded
    refine hnone b ?_ hpending
    rw [← howner]
    exact getBookForUser_of_stored hc hb (howner ▸ hu)
  have hid {b : Book} (hb : getBookForUser db job.bookID job.userID = some b) :
      b.id = job.bookID := by
    rw [getBookForUser] at hb
    split at hb
    · cases hb
    · exact (hc.keyed _ b hb).1
  cases task with
  | processBookPreview job' preview =>
      cases h
      rw [Task.run]
      cases hget : getBookForUser db job.bookID job.userID with
      | none => exact ⟨rfl, by simp [Outcome.view], fun _ => hidle (by simp [hget])⟩
      | some b =>
          by_cases hpending : b.processingState = .pending
          · cases preview with
            | none => simp [Outcome.view, hpending, Carries, failedBook, hid hget]
            | some preview => simp [Outcome.view, hpending, Carries]
          · exact ⟨rfl, by simp [Outcome.view, hpending], fun _ => hidle (by simp [hget, hpending])⟩
  | refreshPreview job' preview =>
      cases h
      rw [Task.run]
      cases hget : getBookForUser db job.bookID job.userID with
      | none => exact ⟨rfl, by simp [Outcome.view], fun _ => hidle (by simp [hget])⟩
      | some b =>
          by_cases hpending : b.processingState = .pending
          · simp [Outcome.view, hpending, Carries, previewedBook_state,
              (previewedBook_agrees job preview b).1, hid hget]
          · exact ⟨rfl, by simp [Outcome.view, hpending], fun _ => hidle (by simp [hget, hpending])⟩
  | saveBook base book sets => exact absurd rfl (hsave base book sets)
  | update _ _ _ | delete _ _ | deleteData _ _ | batchUpdateCategory _ _ | getCover _ _ _ _ _
  | saveProgress _ _ _ => exact h.elim

/-! ## Outstanding jobs through the steps -/

structure Server.Sound (s : Server) : Prop where
  reached : Reached s.db
  requests : ∀ t ∈ s.requests, t.Sound
  owned : ∀ job ∈ s.outstanding, job.userID ≠ []
  distinct : (s.outstanding.map (·.bookID)).Nodup
  workers : ∀ w ∈ s.workers, w.2.Sound ∧ Carries w.1 w.2

theorem Server.Started.sound {s : Server} (h : s.Started) : s.Sound := by
  obtain ⟨hreached, -, hrequests, hjobs⟩ := h
  have hworkers : s.workers = [] := by
    simp only [Server.outstanding, List.append_eq_nil_iff, List.map_eq_nil_iff] at hjobs
    exact hjobs.2.2
  exact ⟨hreached, by simp [hrequests], by simp [hjobs], by simp [hjobs], by simp [hworkers]⟩

theorem eraseIdx_perm {α : Type} {l : List α} {i : Nat} {x : α} (h : l[i]? = some x) :
    (x :: l.eraseIdx i).Perm l := by
  obtain ⟨hi, rfl⟩ := List.getElem?_eq_some_iff.mp h
  exact List.getElem_cons_eraseIdx_perm hi

/-- A job that its worker drops. -/
theorem dropped_perm {s : Server} {i : Nat} {w : BookProcessingJob × Task}
    (h : s.workers[i]? = some w) (db : Tx) :
    (w.1 :: { s with db := db, workers := s.workers.eraseIdx i }.outstanding).Perm s.outstanding := by
  have hworkers := (eraseIdx_perm h).map Prod.fst
  simp only [Server.outstanding, List.map_cons] at *
  refine List.perm_middle.symm.trans (List.Perm.append_left _ ?_)
  exact List.perm_middle.symm.trans (List.Perm.append_left _ hworkers)

/-- The jobs, once one of them has got a new task. -/
theorem carried_perm {s : Server} {i : Nat} {w : BookProcessingJob × Task}
    (h : s.workers[i]? = some w) (db : Tx) (task : Task) :
    { s with db := db, workers := s.workers.eraseIdx i ++ [(w.1, task)] }.outstanding.Perm
      s.outstanding := by
  refine List.Perm.trans ?_ (dropped_perm h db)
  simp only [Server.outstanding, List.map_append, List.map_cons, List.map_nil, ← List.append_assoc]
  exact List.perm_append_singleton _ _

theorem enqueued_perm {s : Server} {i : Nat} {book : Book} (h : s.uploads[i]? = some book) :
    { s with uploads := s.uploads.eraseIdx i, jobs := s.jobs ++ [jobFor book] }.outstanding.Perm
      s.outstanding := by
  have huploads := (eraseIdx_perm h).map jobFor
  simp only [Server.outstanding, List.append_assoc, List.map_cons] at *
  calc
    _ = ((s.uploads.eraseIdx i).map jobFor ++ s.jobs) ++ jobFor book :: s.workers.map Prod.fst := by simp
    List.Perm _ _ := List.perm_middle
    _ = jobFor book :: (s.uploads.eraseIdx i).map jobFor ++ (s.jobs ++ s.workers.map Prod.fst) := by simp
    List.Perm _ _ := huploads.append_right _

theorem taken_perm {s : Server} {job : BookProcessingJob} (h : s.jobs.head? = some job) (task : Task) :
    { s with jobs := s.jobs.tail, workers := s.workers ++ [(job, task)] }.outstanding.Perm
      s.outstanding := by
  obtain ⟨jobs, hjobs⟩ := List.head?_eq_some_iff.mp h
  simp only [Server.outstanding, hjobs, List.tail_cons, List.map_append, List.map_cons, List.map_nil]
  refine List.Perm.append_left _ ?_
  rw [← List.append_assoc]
  exact List.perm_append_singleton _ _

theorem created_perm {s : Server} (db : Tx) (book : Book) :
    { s with db := db, uploads := s.uploads ++ [book] }.outstanding.Perm
      (jobFor book :: s.outstanding) := by
  simp only [Server.outstanding, List.map_append, List.map_cons, List.map_nil, List.append_assoc,
    List.singleton_append]
  exact List.perm_middle

/-! ## One step -/

/-- What a step does to a sound server: it stays sound, and its pending books keep having jobs
exactly where the step is smooth. -/
def Server.Steady (s : Server) (a : Action) (t : Server) : Prop :=
  t.Sound ∧ (s.Covered → (t.Covered ↔ s.Smooth a))

/-- A step that only moves jobs on. -/
theorem steady_of_perm {s t : Server} {a : Action} (h : s.Sound) (hdb : t.db = s.db)
    (hrequests : ∀ task ∈ t.requests, task.Sound) (hp : t.outstanding.Perm s.outstanding)
    (hworkers : ∀ w ∈ t.workers, w.2.Sound ∧ Carries w.1 w.2) (hsmooth : s.Smooth a) :
    s.Steady a t := by
  refine ⟨⟨hdb ▸ h.reached, hrequests, fun job hjob => h.owned job (hp.mem_iff.mp hjob),
    (hp.map _).nodup_iff.mpr h.distinct, hworkers⟩, fun hc => iff_of_true ?_ hsmooth⟩
  rw [Server.Covered, hdb]
  exact (coveredBy_perm hp).mpr hc

/-- A step that drops one of the jobs. -/
theorem steady_of_drop {s t : Server} {a : Action} {job : BookProcessingJob} (h : s.Sound)
    (hreached : Reached t.db) (hrequests : ∀ task ∈ t.requests, task.Sound)
    (hp : (job :: t.outstanding).Perm s.outstanding)
    (hworkers : ∀ w ∈ t.workers, w.2.Sound ∧ Carries w.1 w.2)
    (hcovered : s.Covered → CoveredBy t.db s.outstanding)
    (hsmooth : ¬ Needed t.db job ↔ s.Smooth a) : s.Steady a t := by
  have hdistinct : ((job :: t.outstanding).map (·.bookID)).Nodup :=
    (hp.map _).nodup_iff.mpr h.distinct
  rw [List.map_cons, List.nodup_cons] at hdistinct
  refine ⟨⟨hreached, hrequests, ?_, hdistinct.2, hworkers⟩, ?_⟩
  · intro other hother
    exact h.owned other (hp.mem_iff.mp (List.mem_cons_of_mem job hother))
  · intro hc
    have hall : CoveredBy t.db (job :: t.outstanding) := (coveredBy_perm hp).mpr (hcovered hc)
    exact (hall.drop hreached.coherent.keyed hdistinct.1).trans hsmooth

theorem upload_steady {s : Server} (h : s.Sound) {r : Uploads.Request} (hfresh : s.Fresh r) :
    s.Steady (.upload r) (s.create hash r) := by
  obtain ⟨hid, hu, hnew, hjobs⟩ := hfresh
  rw [Server.create]
  cases hcreate : createBook (r.book hash) s.db with
  | error e => exact steady_of_perm h rfl h.requests (.refl _) h.workers trivial
  | ok tx =>
      have hrun : (Op.createBook (r.book hash)).run s.db = tx := by
        rw [Op.run, Tx.update, Op.transaction, hcreate]
      have hreached : Reached tx := hrun ▸ h.reached.run (.createBook (r.book hash)) ⟨hid, hnew⟩
      have hput : ∀ k, tx.books.get k = if (r.book hash).id = k then
          some { r.book hash with category := normalizeCategoryName (r.book hash).category }
          else s.db.books.get k := by
        intro k
        rw [createBook_books hcreate, Function.update_apply]
        simp only [eq_comm]
      by_cases hepub : r.format = ascii "epub"
      · simp only [if_pos hepub]
        have hp := created_perm (s := s) tx (r.book hash)
        refine ⟨⟨hreached, h.requests, ?_, ?_, h.workers⟩, fun hc => iff_of_true ?_ trivial⟩
        · intro job hjob
          rcases List.mem_cons.mp (hp.mem_iff.mp hjob) with rfl | hjob
          · exact hu
          · exact h.owned job hjob
        · refine (hp.map _).nodup_iff.mpr (List.nodup_cons.mpr ⟨?_, h.distinct⟩)
          intro hmem
          obtain ⟨job, hjob, heq⟩ := List.mem_map.mp hmem
          exact hjobs job hjob heq
        · refine (coveredBy_perm hp).mpr (((CoveredBy.mono hc fun _ => ?_).put hput).mpr fun _ => ?_)
          · exact List.mem_cons_of_mem _
          · exact ⟨_, List.mem_cons_self, rfl, rfl⟩
      · simp only [if_neg hepub, List.append_nil]
        refine ⟨⟨hreached, h.requests, h.owned, h.distinct, h.workers⟩, fun hc => iff_of_true ?_ trivial⟩
        refine (CoveredBy.put hc hput).mpr fun hpending => ?_
        simp [Uploads.Request.book, hepub] at hpending

theorem smooth_run {s : Server} {i : Nat} {task : Task} (hi : s.requests[i]? = some task)
    (hother : ∀ base book sets, task ≠ .saveBook base book sets) : s.Smooth (.run i) := by
  rw [Server.Smooth, hi]
  cases task with
  | saveBook base book sets => exact absurd rfl (hother base book sets)
  | update _ _ _ | delete _ _ | deleteData _ _ | batchUpdateCategory _ _ | getCover _ _ _ _ _
  | saveProgress _ _ _ | processBookPreview _ _ | refreshPreview _ _ => trivial

theorem smooth_work {s : Server} {i : Nat} {job : BookProcessingJob} {task : Task}
    (hi : s.workers[i]? = some (job, task))
    (hother : ∀ base book sets, task ≠ .saveBook base book sets) : s.Smooth (.work i) := by
  rw [Server.Smooth, hi]
  cases task with
  | saveBook base book sets => exact absurd rfl (hother base book sets)
  | update _ _ _ | delete _ _ | deleteData _ _ | batchUpdateCategory _ _ | getCover _ _ _ _ _
  | saveProgress _ _ _ | processBookPreview _ _ | refreshPreview _ _ => trivial

theorem run_steady {s : Server} (h : s.Sound) {i : Nat} {task : Task} (hi : s.requests[i]? = some task) :
    s.Steady (.run i) { s with
      db := (task.run s.db).db
      requests := s.requests.eraseIdx i ++ (task.run s.db).next.toList } := by
  have hkept := run_kept h.reached (h.requests task (List.mem_of_getElem? hi))
  refine ⟨⟨hkept.1, ?_, h.owned, h.distinct, h.workers⟩, fun hc => ?_⟩
  · intro t ht
    rcases List.mem_append.mp ht with ht | ht
    · exact h.requests t (List.mem_of_mem_eraseIdx ht)
    · exact hkept.2 t (Option.mem_toList.mp ht)
  · by_cases hsave : ∃ base book sets, task = .saveBook base book sets
    · obtain ⟨base, book, sets, rfl⟩ := hsave
      rw [Server.Smooth, hi]
      by_cases hsaves : Saves s.db book
      · simp only [hsaves, forall_true_left]
        exact CoveredBy.put hc (run_save hsaves)
      · refine iff_of_true ?_ fun _ hyes => absurd hyes hsaves
        change CoveredBy ((Op.saveBook book).run s.db) s.outstanding
        rw [run_unsaved hsaves]
        exact hc
    · have hother : ∀ base book sets, task ≠ .saveBook base book sets :=
        fun base book sets heq => hsave ⟨base, book, sets, heq⟩
      have hd := CoveredBy.descends hc h.owned (run_descends h.reached.coherent hother)
      exact iff_of_true hd (smooth_run hi hother)

theorem work_steady {s : Server} (h : s.Sound) {i : Nat} {job : BookProcessingJob} {task : Task}
    (hi : s.workers[i]? = some (job, task)) :
    s.Steady (.work i) { s with
      db := (task.run s.db).db
      workers := s.workers.eraseIdx i ++ (task.run s.db).next.toList.map (job, ·) } := by
  have hmem := List.mem_of_getElem? hi
  obtain ⟨hsound, hcarries⟩ := h.workers _ hmem
  have hkept := run_kept h.reached hsound
  have hu : job.userID ≠ [] := by
    apply h.owned
    rw [Server.outstanding]
    exact List.mem_append_right _ (List.mem_append_right _ (List.mem_map_of_mem hmem))
  have hothers : ∀ w ∈ s.workers.eraseIdx i, w.2.Sound ∧ Carries w.1 w.2 :=
    fun w hw => h.workers w (List.mem_of_mem_eraseIdx hw)
  by_cases hsave : ∃ base book sets, task = .saveBook base book sets
  · obtain ⟨base, book, sets, rfl⟩ := hsave
    have hsmooth : s.Smooth (.work i) ↔ (Needed s.db job → Saves s.db book) := by
      rw [Server.Smooth, hi]
    simp only [Task.run, Option.toList_none, List.map_nil, List.append_nil]
    by_cases hsaves : Saves s.db book
    · have hdone : ¬ Needed ((Op.saveBook book).run s.db) job := by
        intro hneeded
        obtain ⟨b, hb, hpending, -⟩ := needed_iff.mp hneeded
        rw [run_save hsaves, if_pos hcarries.1] at hb
        cases hb
        exact hcarries.2 hpending
      refine steady_of_drop h hkept.1 h.requests (dropped_perm hi _) hothers ?_
        (iff_of_true hdone (hsmooth.mpr fun _ => hsaves))
      intro hc
      exact (CoveredBy.put hc (run_save hsaves)).mpr fun hpending => absurd hpending hcarries.2
    · rw [run_unsaved hsaves]
      refine steady_of_drop h h.reached h.requests (dropped_perm hi _) hothers id ?_
      rw [hsmooth]
      exact ⟨fun hidle hneeded => absurd hneeded hidle, fun hyes hneeded => hsaves (hyes hneeded)⟩
  · have hother : ∀ base book sets, task ≠ .saveBook base book sets :=
      fun base book sets heq => hsave ⟨base, book, sets, heq⟩
    have hsmooth : s.Smooth (.work i) := smooth_work hi hother
    obtain ⟨hdb, hnext, hidle⟩ := hcarries.run h.reached.coherent hu hother
    rw [hdb]
    cases hn : (task.run s.db).next with
    | none =>
        simp only [Option.toList_none, List.map_nil, List.append_nil]
        exact steady_of_drop h h.reached h.requests (dropped_perm hi _) hothers id
          (iff_of_true (hidle hn) hsmooth)
    | some next =>
        simp only [Option.toList_some, List.map_cons, List.map_nil]
        refine steady_of_perm h rfl h.requests (carried_perm hi _ next) ?_ hsmooth
        intro w hw
        rcases List.mem_append.mp hw with hw | hw
        · exact hothers w hw
        · rw [List.mem_singleton.mp hw]
          exact ⟨hkept.2 next hn, hnext next hn⟩

theorem Server.Sound.step {s t : Server} {a : Action} (h : s.Sound) (hstep : s.step hash a = some t) :
    s.Steady a t := by
  cases a with
  | upload r =>
      rw [Server.step] at hstep
      split at hstep
      · next hfresh =>
        cases hstep
        exact upload_steady h hfresh
      · cases hstep
  | enqueue i =>
      rw [Server.step] at hstep
      split at hstep
      · obtain ⟨book, hi, rfl⟩ := Option.map_eq_some_iff.mp hstep
        exact steady_of_perm h rfl h.requests (enqueued_perm hi) h.workers trivial
      · cases hstep
  | request task =>
      rw [Server.step] at hstep
      split at hstep
      · next hrequested =>
        cases hstep
        refine steady_of_perm h rfl ?_ (.refl _) h.workers trivial
        intro t ht
        rcases List.mem_append.mp ht with ht | ht
        · exact h.requests t ht
        · rw [List.mem_singleton.mp ht]
          exact Task.sound_of_fresh (Bool.and_eq_true_iff.mp hrequested).1
      · cases hstep
  | run i =>
      obtain ⟨task, hi, rfl⟩ := Option.map_eq_some_iff.mp hstep
      exact run_steady h hi
  | other op =>
      rw [Server.step] at hstep
      split at hstep
      · next hop =>
        cases hstep
        have hd := Op.run_descends h.reached.coherent hop.1
        exact ⟨⟨h.reached.run op hop.2, h.requests, h.owned, h.distinct, h.workers⟩,
          fun hc => iff_of_true (CoveredBy.descends hc h.owned hd) trivial⟩
      · cases hstep
  | take preview =>
      rw [Server.step] at hstep
      split at hstep
      · obtain ⟨job, hjob, rfl⟩ := Option.map_eq_some_iff.mp hstep
        refine steady_of_perm h rfl h.requests (taken_perm hjob _) ?_ trivial
        intro w hw
        rcases List.mem_append.mp hw with hw | hw
        · exact h.workers w hw
        · rw [List.mem_singleton.mp hw]
          exact ⟨trivial, rfl⟩
      · cases hstep
  | work i =>
      obtain ⟨⟨job, task⟩, hi, rfl⟩ := Option.map_eq_some_iff.mp hstep
      exact work_steady h hi
  | abandon i =>
      obtain ⟨w, hi, rfl⟩ := Option.map_eq_some_iff.mp hstep
      refine steady_of_drop h h.reached h.requests (dropped_perm hi _)
        (fun w hw => h.workers w (List.mem_of_mem_eraseIdx hw)) id ?_
      simp [Server.Smooth, hi]
  | restart =>
      cases hstep
      refine ⟨⟨h.reached, by simp, by simp [Server.outstanding], by simp [Server.outstanding], by simp⟩, ?_⟩
      exact coveredBy_nil h.reached.coherent.keyed

/-! ## Runs -/

theorem Server.Started.covered {s : Server} (h : s.Started) : s.Covered :=
  fun id b hb hpending => absurd hpending (h.2.1 id b hb)

/-- In a run, every pending book has a job in all states exactly where all steps are smooth. -/
theorem pending_books_have_jobs {s : Server} (h : s.Started) (l : List Action) :
    Along (Server.step hash) (fun _ _ t => t.Covered) s l ↔
      Along (Server.step hash) (fun s a _ => s.Smooth a) s l := by
  refine along_congr_of_invariant (I := fun s => s.Sound ∧ s.Covered) ?_ ?_ ⟨h.sound, h.covered⟩ l
  · intro s a t ⟨hs, hc⟩ hstep
    exact (hs.step hstep).2 hc
  · intro s a t ⟨hs, _⟩ hstep hc
    exact ⟨(hs.step hstep).1, hc⟩

def emptyServer : Server := ⟨.migrated, [], [], [], []⟩

theorem emptyServer_started : emptyServer.Started :=
  ⟨.start rfl, by simp [emptyServer, Tx.migrated], rfl, rfl⟩

def sampleUpload : Uploads.Request where
  id := ascii "b"
  userID := ascii "u"
  fileName := ascii "T.epub"
  ext := ascii ".epub"
  format := ascii "epub"
  size := 1
  content := ascii "x"
  createdAt := .zero

def titled : Preview := ⟨ascii "X", [], none⟩

/-- An upload and the work on it; an upload that is lost with the process; and an edit that has read
the book before its preview was stored, and takes that back. -/
theorem uploads_have_jobs :
    Along (Server.step id) (fun _ _ t => t.Covered) emptyServer
      [.upload sampleUpload, .enqueue 0, .take (some titled), .work 0, .work 0, .work 0] ∧
    ¬ Along (Server.step id) (fun _ _ t => t.Covered) emptyServer
      [.upload sampleUpload, .enqueue 0, .restart] ∧
    ¬ Along (Server.step id) (fun _ _ t => t.Covered) emptyServer
      [.upload sampleUpload, .enqueue 0, .request (.update (ascii "b") (ascii "u") (recategorize "c")),
        .run 0, .take (some titled), .work 0, .work 0, .work 0, .run 0] := by
  refine ⟨(pending_books_have_jobs emptyServer_started _).mpr ?_, ?_, ?_⟩
  · decide +kernel
  · rw [pending_books_have_jobs emptyServer_started]
    decide +kernel
  · rw [pending_books_have_jobs emptyServer_started]
    decide +kernel

theorem reachable_sound {s : Server}
    (h : Reachable Server.Started (Steps (Server.step hash) Server.Smooth) s) :
    s.Sound ∧ s.Covered := by
  refine h.invariant (fun s => s.Sound ∧ s.Covered) (fun _ hs => ⟨hs.sound, hs.covered⟩) ?_
  rintro s a t ⟨hs, hc⟩ ⟨hsmooth, hstep⟩
  obtain ⟨ht, hiff⟩ := hs.step hstep
  exact ⟨ht, (hiff hc).mpr hsmooth⟩

/-! ## Closing -/

theorem next_stepsLeft {db : Tx} {job : BookProcessingJob} {task next : Task} (h : Carries job task)
    (hnext : (task.run db).next = some next) : stepsLeft next < stepsLeft task := by
  cases task with
  | processBookPreview job' preview =>
      simp only [Task.run, Outcome.view, Option.bind_eq_some_iff] at hnext
      obtain ⟨b, -, hnext⟩ := hnext
      split at hnext
      · cases hnext
      · cases preview with
        | none =>
            cases hnext
            simp [stepsLeft]
        | some preview =>
            cases hnext
            simp [stepsLeft]
  | refreshPreview job' preview =>
      simp only [Task.run, Outcome.view, Option.bind_eq_some_iff] at hnext
      obtain ⟨b, -, hnext⟩ := hnext
      split at hnext
      · cases hnext
      · cases hnext
        simp [stepsLeft]
  | saveBook base book sets => cases hnext
  | update _ _ _ | delete _ _ | deleteData _ _ | batchUpdateCategory _ _ | getCover _ _ _ _ _
  | saveProgress _ _ _ => exact h.elim

theorem stepsLeft_pos (task : Task) : 0 < stepsLeft task := by
  cases task with
  | processBookPreview _ _ | refreshPreview _ _ | saveBook _ _ _ | update _ _ _ | delete _ _
  | deleteData _ _ | batchUpdateCategory _ _ | getCover _ _ _ _ _ | saveProgress _ _ _ => simp [stepsLeft]

theorem remaining_lt {s t : Server} {a : Action} (h : s.Sound) (ha : a.working = true)
    (hstep : s.step hash a = some t) : t.remaining < s.remaining ∧ t.uploads = s.uploads := by
  cases a with
  | take preview =>
      rw [Server.step] at hstep
      split at hstep
      · obtain ⟨job, hjob, rfl⟩ := Option.map_eq_some_iff.mp hstep
        obtain ⟨jobs, hjobs⟩ := List.head?_eq_some_iff.mp hjob
        refine ⟨?_, rfl⟩
        simp only [Server.remaining, hjobs, List.tail_cons, List.length_cons, List.map_append,
          List.map_cons, List.map_nil, List.sum_append, List.sum_cons, List.sum_nil, stepsLeft]
        omega
      · cases hstep
  | work i =>
      obtain ⟨⟨job, task⟩, hi, rfl⟩ := Option.map_eq_some_iff.mp hstep
      refine ⟨?_, rfl⟩
      have hsum : stepsLeft task + ((s.workers.eraseIdx i).map fun w => stepsLeft w.2).sum =
          (s.workers.map fun w => stepsLeft w.2).sum :=
        ((eraseIdx_perm hi).map fun w : BookProcessingJob × Task => stepsLeft w.2).sum_eq
      have hcarries : Carries job task := (h.workers _ (List.mem_of_getElem? hi)).2
      simp only [Server.remaining, List.map_append, List.sum_append]
      cases hn : (task.run s.db).next with
      | none =>
          have hpos := stepsLeft_pos task
          simp only [Option.toList_none, List.map_nil, List.sum_nil]
          omega
      | some next =>
          have hless := next_stepsLeft hcarries hn
          simp only [Option.toList_some, List.map_cons, List.map_nil, List.sum_cons, List.sum_nil]
          omega
  | upload _ | enqueue _ | request _ | run _ | other _ | abandon _ | restart => cases ha

/-- Workers stop only when the queue is empty and their jobs are done. -/
theorem idle_of_stuck {s : Server} (h : ∀ a : Action, a.working = true → s.step hash a = none) :
    s.jobs = [] ∧ s.workers = [] := by
  have hworkers : s.workers = [] := by
    have hwork := h (.work 0) rfl
    rw [Server.step, Option.map_eq_none_iff, List.getElem?_eq_none_iff] at hwork
    exact List.eq_nil_of_length_eq_zero (Nat.le_zero.mp hwork)
  have htake := h (.take none) rfl
  rw [Server.step, if_pos (by rw [hworkers]; decide), Option.map_eq_none_iff,
    List.head?_eq_none_iff] at htake
  exact ⟨htake, hworkers⟩

/-- Once all uploads have been enqueued, the workers by themselves come to an end, and then no book
is pending. -/
theorem closing_settles {s t : Server}
    (hs : Reachable Server.Started (Steps (Server.step hash) Server.Smooth) s)
    (huploads : s.uploads = []) {l : List Action} (hl : ∀ a ∈ l, a.working = true)
    (hrun : replay (Server.step hash) Server.Smooth s l = some t) :
    l.length ≤ s.remaining ∧ ((∀ a : Action, a.working = true → t.step hash a = none) →
      ∀ id b, t.db.books.get id = some b → b.processingState ≠ .pending) := by
  induction l generalizing s with
  | nil =>
      cases hrun
      refine ⟨Nat.zero_le _, fun hstuck id b hb hpending => ?_⟩
      obtain ⟨job, hjob, -⟩ := (reachable_sound hs).2 id b hb hpending
      obtain ⟨hjobs, hworkers⟩ := idle_of_stuck hstuck
      simp [Server.outstanding, huploads, hjobs, hworkers] at hjob
  | cons a l ih =>
      rw [replay] at hrun
      split at hrun
      · next hsmooth =>
        obtain ⟨u, hu, hrun⟩ := Option.bind_eq_some_iff.mp hrun
        obtain ⟨hless, hsame⟩ := remaining_lt (reachable_sound hs).1 (hl a List.mem_cons_self) hu
        obtain ⟨hlength, hdone⟩ := ih (hs.next ⟨hsmooth, hu⟩) (hsame.trans huploads)
          (fun b hb => hl b (List.mem_cons_of_mem a hb)) hrun
        refine ⟨?_, hdone⟩
        rw [List.length_cons]
        omega
      · cases hrun

/-- The server closes after an upload, and the worker brings it to its end. -/
theorem closing_settles_upload : ∃ s t, s.remaining = 4 ∧
    replay (Server.step id) Server.Smooth s [.take (some titled), .work 0, .work 0, .work 0] = some t ∧
    ∀ i b, t.db.books.get i = some b → b.processingState ≠ .pending := by
  have hrun : (replay (Server.step id) Server.Smooth emptyServer [.upload sampleUpload, .enqueue 0]).any
      (fun s => s.uploads = [] ∧ s.remaining = 4 ∧ (replay (Server.step id) Server.Smooth s
        [.take (some titled), .work 0, .work 0, .work 0]).any
          fun t => t.jobs.isEmpty ∧ t.workers.isEmpty) = true := by
    decide +kernel
  obtain ⟨s, hs, hstate⟩ := (Option.any_eq_true _ _).mp hrun
  simp only [decide_eq_true_eq, Option.any_eq_true, List.isEmpty_iff] at hstate
  obtain ⟨huploads, hremaining, t, ht, hjobs, hworkers⟩ := hstate
  have hreach := replay_reachable _ _ (.start emptyServer_started) hs
  refine ⟨s, t, hremaining, ht, (closing_settles hreach huploads (by simp [Action.working]) ht).2 ?_⟩
  intro a ha
  cases a with
  | take preview => simp [Server.step, hjobs]
  | work i => simp [Server.step, hworkers]
  | upload _ | enqueue _ | request _ | run _ | other _ | abandon _ | restart => cases ha

end ZReader.Handlers.Processing
