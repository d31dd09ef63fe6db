import ZReader.Handlers.BookWrites

namespace ZReader.Handlers

open Lib.Utf8 Lib.Strings Lib.KeyValue Lib.Fallible Lib.Transition Storage

/-! ## What the requests promise -/

def Server.NoResurrection (s : Server) : Prop := ∀ id ∈ s.deleted, s.db.books.get id = none

/-- A step of a task keeps the stored values of the fields its input does not set. -/
def NoLostUpdate (task : Task) (db db' : Tx) : Prop :=
  ∀ f, ¬ task.Sets f → ∀ id b b', db.books.get id = some b → db'.books.get id = some b' →
    f.Agrees b b'

/-- A record about to be overwritten is still there, and as it was read in all
fields that the task does not set. -/
def Task.Current (db : Tx) : Task → Prop
  | .saveBook base _ sets =>
      match db.books.get base.id with
      | none => False
      | some b => ∀ f, f ∉ sets → f.Agrees base b
  | _ => True

instance (db : Tx) : (task : Task) → Decidable (task.Current db)
  | .saveBook base _ sets =>
      match h : db.books.get base.id with
      | none => isFalse (by simp [Task.Current, h])
      | some b => decidable_of_iff (∀ f, f ∉ sets → f.Agrees base b) (by simp [Task.Current, h])
  | .update _ _ _ | .delete _ _ | .deleteData _ _ | .batchUpdateCategory _ _ | .getCover _ _ _ _ _
  | .saveProgress _ _ _ | .processBookPreview _ _ | .refreshPreview _ _ => isTrue trivial

/-- Every save that is about to commit is current. -/
def Server.Undisturbed (s : Server) : Action → Prop
  | .accept _ => True
  | .run i => ∀ task ∈ s.tasks[i]?, task.Current s.db

instance (s : Server) : (a : Action) → Decidable (s.Undisturbed a)
  | .accept _ => isTrue trivial
  | .run i => inferInstanceAs (Decidable (∀ task ∈ s.tasks[i]?, task.Current s.db))

def Server.Started (s : Server) : Prop := Reached s.db ∧ s.tasks = [] ∧ s.deleted = []

/-! ## One transaction -/

/-- What a task remembers between its transactions. -/
def Task.Sound : Task → Prop
  | .saveBook base book sets =>
      WellFormedID base.id ∧ book.id = base.id ∧ ∀ f, f ∉ sets → f.Agrees base book
  | .saveProgress _ userID _ => userID ≠ []
  | _ => True

theorem Task.sound_of_fresh {task : Task} (h : task.fresh = true) : task.Sound := by
  cases task with
  | saveProgress p u e => simpa [Task.fresh, Task.Sound] using h
  | saveBook base book sets => simp [Task.fresh] at h
  | update _ _ _ | delete _ _ | deleteData _ _ | batchUpdateCategory _ _ | getCover _ _ _ _ _
  | processBookPreview _ _ | refreshPreview _ _ => trivial

theorem getBookForUser_wellFormed {db : Tx} (hc : Coherent db) {id u : Bytes} {b : Book}
    (h : getBookForUser db id u = some b) : WellFormedID b.id := by
  rw [getBookForUser] at h
  split at h
  · cases h
  · obtain ⟨rfl, hw⟩ := hc.keyed _ _ h
    exact hw

/-- What a transaction may do to the stored books. -/
structure Outcome.Sound (task : Task) (db : Tx) (o : Outcome) : Prop where
  reached : Reached o.db
  next : ∀ t ∈ o.next, t.Sound
  books : (o.deleted = none ∧ Rewrites task.Sets db o.db) ∨
    ∃ id, o.deleted = some id ∧ o.db.books = db.books.delete id

theorem Outcome.view_sound {task : Task} {db : Tx} (h : Reached db) {next : Option Task}
    (hn : ∀ t ∈ next, t.Sound) : Outcome.Sound task db (.view db next) where
  reached := h
  next := hn
  books := Or.inl ⟨rfl, Rewrites.refl _ db⟩

/-- A transaction that rewrites records, or fails and leaves them. -/
theorem rewrites_run {sets : Field → Prop} {db : Tx} {op : Op}
    (h : ∀ db', op.transaction db = .ok db' → Rewrites sets db db') : Rewrites sets db (op.run db) :=
  Tx.update_induction (Rewrites.refl sets db) h

theorem Task.run_sound {db : Tx} {task : Task} (h : Reached db) (hs : task.Sound)
    (hcur : task.Current db) : Outcome.Sound task db (task.run db) := by
  have hc := h.coherent
  cases task with
  | update id u req =>
      apply Outcome.view_sound h
      intro t ht
      simp only [Option.mem_def, Option.bind_eq_some_iff, Option.map_eq_some_iff] at ht
      obtain ⟨b, hb, b', hb', rfl⟩ := ht
      exact ⟨getBookForUser_wellFormed hc hb, updatedBook_agrees hb'⟩
  | delete id u =>
      apply Outcome.view_sound h
      intro t ht
      simp only [Option.mem_def, Option.map_eq_some_iff] at ht
      obtain ⟨b, -, rfl⟩ := ht
      trivial
  | deleteData id u =>
      simp only [Task.run]
      split
      · next tx htx =>
        have hrun : (Op.deleteBookData id u).run db = tx := by
          rw [Op.run, Tx.update, Op.transaction, htx]
        obtain ⟨⟨b, tx'⟩, hin, he⟩ := bind_eq_ok.mp htx
        cases he
        refine ⟨hrun ▸ h.run (.deleteBookData id u) trivial, by simp, Or.inr ⟨id, rfl, ?_⟩⟩
        exact (deleteBookDataInTx_ok hc hin).2.2.1
      · exact Outcome.view_sound h (by simp)
  | batchUpdateCategory req u =>
      simp only [Task.run]
      split
      · exact Outcome.view_sound h (by simp)
      · refine ⟨h.run _ trivial, by simp, Or.inl ⟨rfl, rewrites_run ?_⟩⟩
        intro db' hdb'
        obtain ⟨bs, hbs⟩ := map_snd_eq_ok hdb'
        exact updateBooksCategory_books hc.keyed hbs
  | getCover id u requested thumbnail cover =>
      apply Outcome.view_sound h
      intro t ht
      simp only [Option.mem_def, Option.bind_eq_some_iff, Option.map_eq_some_iff] at ht
      obtain ⟨b, hb, ⟨b', sets⟩, hb', rfl⟩ := ht
      exact ⟨getBookForUser_wellFormed hc hb, coverToSave_agrees hb'⟩
  | saveProgress p u e =>
      refine ⟨h.run (.saveProgressIfCurrent p u e) hs, by simp [Task.run], Or.inl ⟨rfl, ?_⟩⟩
      apply rewrites_run
      intro db' hdb'
      exact saveProgressIfCurrent_books hc.keyed hdb'
  | processBookPreview job preview =>
      apply Outcome.view_sound h
      intro t ht
      simp only [Option.mem_def, Option.bind_eq_some_iff] at ht
      obtain ⟨b, hb, ht⟩ := ht
      split at ht
      · cases ht
      · cases preview with
        | none =>
            cases ht
            refine ⟨getBookForUser_wellFormed hc hb, rfl, ?_⟩
            intro f _
            cases f <;> rfl
        | some preview =>
            cases ht
            trivial
  | refreshPreview job preview =>
      apply Outcome.view_sound h
      intro t ht
      simp only [Option.mem_def, Option.bind_eq_some_iff] at ht
      obtain ⟨b, hb, ht⟩ := ht
      split at ht
      · cases ht
      · cases ht
        exact ⟨getBookForUser_wellFormed hc hb, previewedBook_agrees job preview b⟩
  | saveBook base book sets =>
      obtain ⟨hw, hid, hagrees⟩ := hs
      have hadmissible : (Op.saveBook book).Admissible db := by
        rw [Op.Admissible, hid]
        exact hw
      refine ⟨h.run (.saveBook book) hadmissible, by simp [Task.run], Or.inl ⟨rfl, ?_⟩⟩
      apply rewrites_run
      intro db' hdb'
      rw [Task.Current] at hcur
      split at hcur
      · exact hcur.elim
      · next b hget =>
        rw [← hid] at hget
        apply Rewrites.of_put hget (saveBook_books hdb')
        intro f hf
        exact ((hcur f hf).symm.trans (hagrees f hf)).trans (agrees_normalized f book)

/-! ## Runs -/

structure Server.Sound (s : Server) : Prop where
  reached : Reached s.db
  tasks : ∀ t ∈ s.tasks, t.Sound
  deleted : s.NoResurrection

theorem Server.Started.sound {s : Server} (h : s.Started) : s.Sound where
  reached := h.1
  tasks := by simp [h.2.1]
  deleted := by simp [Server.NoResurrection, h.2.2]

theorem Server.Sound.step {s s' : Server} {a : Action} (h : s.Sound)
    (hstep : Steps Server.step Server.Undisturbed s a s') : s'.Sound := by
  obtain ⟨hok, hstep⟩ := hstep
  cases a with
  | accept task =>
      rw [Server.step] at hstep
      split at hstep
      · next hfresh =>
        cases hstep
        refine ⟨h.reached, ?_, h.deleted⟩
        intro t ht
        rcases List.mem_append.mp ht with ht | ht
        · exact h.tasks t ht
        · rw [List.mem_singleton.mp ht]
          exact Task.sound_of_fresh hfresh
      · cases hstep
  | run i =>
      rw [Server.step, Option.map_eq_some_iff] at hstep
      obtain ⟨task, htask, rfl⟩ := hstep
      have hrun := Task.run_sound h.reached (h.tasks task (List.mem_of_getElem? htask))
        (hok task htask)
      refine ⟨hrun.reached, ?_, ?_⟩
      · intro t ht
        rcases List.mem_append.mp ht with ht | ht
        · exact h.tasks t (List.mem_of_mem_eraseIdx ht)
        · exact hrun.next t (Option.mem_toList.mp ht)
      · intro id hid
        rcases hrun.books with ⟨hnone, hrewrites⟩ | ⟨id', hsome, hbooks⟩
        · -- a record that is rewritten was stored before
          simp only [hnone, Option.toList_none, List.append_nil] at hid
          rcases hrewrites id with ⟨-, hn⟩ | ⟨b, -, hb, -⟩
          · exact hn
          · rw [h.deleted id hid] at hb
            cases hb
        · simp only [hsome, Option.toList_some, List.mem_append, List.mem_singleton] at hid
          rw [hbooks, Bucket.get_delete]
          split
          · rfl
          · next hne =>
            rcases hid with hid | hid
            · exact h.deleted id hid
            · exact absurd hid.symm hne

theorem Outcome.Sound.noLostUpdate {task : Task} {db : Tx} {o : Outcome}
    (h : Outcome.Sound task db o) : NoLostUpdate task db o.db := by
  intro f hf id b b' hb hb'
  rcases h.books with ⟨-, hrewrites⟩ | ⟨id', -, hbooks⟩
  · rcases hrewrites id with ⟨hn, -⟩ | ⟨c, c', hc, hc', hagrees⟩
    · rw [hn] at hb
      cases hb
    · rw [hb, Option.some.injEq] at hc
      rw [hb', Option.some.injEq] at hc'
      subst hc hc'
      exact hagrees f hf
  · rw [hbooks, Bucket.get_delete] at hb'
    split at hb'
    · cases hb'
    · rw [hb, Option.some.injEq] at hb'
      rw [hb']
      exact Field.Agrees.refl f b'

/-- As long as every save is current when it commits, deleted books stay deleted and
no request takes back a field that another one has set. -/
theorem undisturbed_keeps_books {s : Server}
    (h : Reachable Server.Started (Steps Server.step Server.Undisturbed) s) :
    s.NoResurrection ∧ ∀ i task s', s.tasks[i]? = some task →
      Steps Server.step Server.Undisturbed s (.run i) s' → NoLostUpdate task s.db s'.db := by
  have hsound : s.Sound :=
    h.invariant Server.Sound (fun _ hs => hs.sound) (fun _ _ _ hs hstep => hs.step hstep)
  refine ⟨hsound.deleted, ?_⟩
  rintro i task s' htask ⟨hok, hstep⟩
  have hrun := Task.run_sound hsound.reached (hsound.tasks task (List.mem_of_getElem? htask))
    (hok task htask)
  rw [Server.step, htask] at hstep
  cases hstep
  exact hrun.noLostUpdate

/-- A server that holds one uploaded book. -/
def oneBook : Server := ⟨(Op.createBook sampleBook).run .migrated, [], []⟩

theorem oneBook_started : oneBook.Started := by
  refine ⟨Reached.run (.start rfl) (.createBook sampleBook) ⟨by decide, ?_⟩, rfl, rfl⟩
  simp [Tx.migrated]

def retitle (title : String) : BookUpdateRequest := ⟨⟨true, some (ascii title)⟩, .absent, .absent⟩

def recategorize (category : String) : BookUpdateRequest :=
  ⟨.absent, .absent, ⟨true, some (ascii category)⟩⟩

/-- An update and then a deletion, each finished before the next begins. -/
theorem undisturbed_update_delete :
    ∃ s, Reachable Server.Started (Steps Server.step Server.Undisturbed) s ∧
      s.deleted = [ascii "b"] ∧ s.NoResurrection := by
  have hrun : (replay Server.step Server.Undisturbed oneBook
      [.accept (.update (ascii "b") (ascii "u") (retitle "X")), .run 0, .run 0,
        .accept (.delete (ascii "b") (ascii "u")), .run 0, .run 0]).any
      (fun s => s.deleted = [ascii "b"]) = true := by decide +kernel
  obtain ⟨s, hs, hdeleted⟩ := (Option.any_eq_true _ _).mp hrun
  have hreach := replay_reachable _ _ (.start oneBook_started) hs
  exact ⟨s, hreach, by simpa using hdeleted, (undisturbed_keeps_books hreach).1⟩

/-- An update that has read the book before a deletion stores it again afterwards,
and one that has read it before another update takes that update's title back. -/
theorem overlapping_update_resurrects :
    (∃ s, Reachable Server.Started (Steps Server.step fun _ _ => True) s ∧ ¬ s.NoResurrection) ∧
    ∃ s s' task, Reachable Server.Started (Steps Server.step fun _ _ => True) s ∧
      s.tasks[0]? = some task ∧ Steps Server.step (fun _ _ => True) s (.run 0) s' ∧
      ¬ task.Sets .title ∧ ∃ b b', s.db.books.get (ascii "b") = some b ∧
        s'.db.books.get (ascii "b") = some b' ∧ b.title = ascii "X" ∧ b'.title = ascii "T" := by
  constructor
  · have hrun : (replay Server.step (fun _ _ => True) oneBook
        [.accept (.update (ascii "b") (ascii "u") (recategorize "c")),
          .accept (.delete (ascii "b") (ascii "u")), .run 0, .run 0, .run 1, .run 0]).any
        (fun s => ascii "b" ∈ s.deleted ∧ (s.db.books.get (ascii "b")).isSome) = true := by
      decide +kernel
    obtain ⟨s, hs, hback⟩ := (Option.any_eq_true _ _).mp hrun
    rw [decide_eq_true_eq] at hback
    refine ⟨s, replay_reachable _ _ (.start oneBook_started) hs, ?_⟩
    intro h
    rw [h _ hback.1] at hback
    simp at hback
  · have hrun : (replay Server.step (fun _ _ => True) oneBook
        [.accept (.update (ascii "b") (ascii "u") (recategorize "c")),
          .accept (.update (ascii "b") (ascii "u") (retitle "X")), .run 0, .run 0, .run 1]).any
        (fun s => (s.tasks[0]?).any (fun task => ¬ task.Sets .title) ∧
          (s.db.books.get (ascii "b")).any (fun b => b.title = ascii "X") ∧
          (s.step (.run 0)).any (fun s' =>
            (s'.db.books.get (ascii "b")).any (fun b => b.title = ascii "T"))) = true := by
      decide +kernel
    obtain ⟨s, hs, hlost⟩ := (Option.any_eq_true _ _).mp hrun
    simp only [decide_eq_true_eq, Option.any_eq_true] at hlost
    obtain ⟨⟨task, htask, hsets⟩, ⟨b, hb, hX⟩, s', hs', b', hb', hT⟩ := hlost
    exact ⟨s, s', task, replay_reachable _ _ (.start oneBook_started) hs, htask, ⟨trivial, hs'⟩,
      hsets, b, b', hb, hb', hX, hT⟩

end ZReader.Handlers
