import ZReader.Frontend.OfflineQueue

namespace ZReader.Frontend

open Lib.Utf8 Lib.Transition Storage

/-- The run has the request for the book still ahead. -/
def SyncRun.Ahead (run : SyncRun) (id : Bytes) : Prop := run.id ≠ id ∧ id ∈ run.rest

instance (run : SyncRun) (id : Bytes) : Decidable (run.Ahead id) :=
  inferInstanceAs (Decidable (_ ∧ _))

namespace Client

/-! ## What must not be lost -/

/-- The server has acknowledged this or a newer snapshot of the book, or has refused
one for good under the account that recorded this one. -/
def Released (s : Client) (id : Bytes) (snapshot : OfflineSnapshot) : Prop :=
  (∃ n, snapshot.serial ≤ n ∧ (id, n) ∈ s.acknowledged) ∨
    ∃ n, snapshot.serial ≤ n ∧ (id, n, snapshot.account) ∈ s.refused

/-- The snapshot, or a newer one of the same book and account, is stored. -/
def Stored (s : Client) (id : Bytes) (snapshot : OfflineSnapshot) : Prop :=
  ∃ c, s.store.snapshots id = some c ∧ snapshot.serial ≤ c.serial ∧ c.account = snapshot.account

def NothingDropped (s : Client) : Prop :=
  ∀ id snapshot, (id, snapshot) ∈ s.written →
    s.Released id snapshot ∨ s.Stored id snapshot ∧ id ∈ s.store.queue.getD []

/-! ## The condition -/

/-- A backup is made only while every run has the book still ahead, and over a
snapshot of the same account; a stored snapshot is refused only for good and to the
account that recorded it. -/
def Careful (s : Client) : Action → Prop
  | .saveAnswered i .network _ => ∀ call ∈ s.saves[i]?,
      (∀ run ∈ s.runs, run.Ahead call.bookID) ∧
        ∀ c ∈ s.store.snapshots call.bookID, c.account = s.account
  | .syncAnswered i (.status code) => ∀ run ∈ s.runs[i]?,
      s.store.snapshots run.id = none ∨ definitive code ∧ run.account = run.cached.account
  | _ => True

instance (s : Client) : (a : Action) → Decidable (s.Careful a)
  | .saveAnswered i .network _ => inferInstanceAs (Decidable (∀ call ∈ s.saves[i]?,
      (∀ run ∈ s.runs, run.Ahead call.bookID) ∧
        ∀ c ∈ s.store.snapshots call.bookID, c.account = s.account))
  | .syncAnswered i (.status code) => inferInstanceAs (Decidable (∀ run ∈ s.runs[i]?,
      s.store.snapshots run.id = none ∨ definitive code ∧ run.account = run.cached.account))
  | .signIn _ | .saveProgress _ | .saveAnswered _ .ok _ | .saveAnswered _ (.status _) _
  | .syncOfflineProgressQueue | .syncAnswered _ .ok | .syncAnswered _ .network => isTrue trivial

/-! ## The loop of a run -/

/-- What `advance` leaves: a run that waits with the snapshot it has read and with
everything from its book on still in its copy of the queue, or the final queue. -/
theorem advance_spec (store : LocalStorage) (account : Bytes) (rest nextQueue : List Bytes)
    (hp : nextQueue.Perm rest) :
    (∃ run, advance store account rest nextQueue = (some run, store) ∧
        store.snapshots run.id = some run.cached ∧ run.nextQueue.Perm (run.id :: run.rest) ∧
        ∀ id ∈ rest, store.snapshots id ≠ none → id ∈ run.nextQueue) ∨
      advance store account rest nextQueue = (none, store.setQueue []) ∧
        ∀ id ∈ rest, store.snapshots id = none := by
  induction rest generalizing nextQueue with
  | nil =>
      right
      rw [hp.eq_nil]
      exact ⟨rfl, by simp⟩
  | cons id rest ih =>
      rw [advance]
      cases hget : store.snapshots id with
      | none =>
          have hp' : (nextQueue.erase id).Perm rest := by simpa using hp.erase id
          simp only
          rcases ih (nextQueue.erase id) hp' with ⟨run, he, hc, hr, hmem⟩ | ⟨he, hnone⟩
          · left
            refine ⟨run, he, hc, hr, ?_⟩
            intro j hj hlive
            rcases List.mem_cons.mp hj with rfl | hj
            · exact absurd hget hlive
            · exact hmem j hj hlive
          · right
            refine ⟨he, ?_⟩
            intro j hj
            rcases List.mem_cons.mp hj with rfl | hj
            · exact hget
            · exact hnone j hj
      | some cached =>
          left
          refine ⟨⟨account, id, cached, rest, nextQueue⟩, rfl, hget, hp, ?_⟩
          intro j hj _
          exact hp.mem_iff.mpr hj

/-! ## The invariant -/

structure Sound (s : Client) : Prop where
  serials : ∀ id c, (id, c) ∈ s.written → c.serial < s.written.length
  kept : ∀ id snapshot, (id, snapshot) ∈ s.written →
    s.Released id snapshot ∨ s.Stored id snapshot ∧ id ∈ s.store.queue.getD [] ∧
      ∀ run ∈ s.runs, id ∈ run.nextQueue
  read : ∀ run ∈ s.runs, ∀ c, s.store.snapshots run.id = some c → c = run.cached
  ahead : ∀ run ∈ s.runs, run.nextQueue.Perm (run.id :: run.rest)

theorem Sound.nothingDropped {s : Client} (h : s.Sound) : s.NothingDropped := by
  intro id snapshot hw
  rcases h.kept id snapshot hw with hr | ⟨hstored, hqueue, -⟩
  · exact Or.inl hr
  · exact Or.inr ⟨hstored, hqueue⟩

/-- A client of some account with an empty local storage. -/
def Started (s : Client) : Prop := ∃ account, s = start account

theorem start_started (account : Bytes) : (start account).Started := ⟨account, rfl⟩

theorem Started.sound {s : Client} (h : s.Started) : s.Sound := by
  obtain ⟨account, rfl⟩ := h
  constructor <;> simp [start]

/-- A run in whose copy of the queue every unreleased snapshot is found goes on, or
ends and writes that copy. -/
theorem Sound.advance {s : Client} (h : s.Sound) {rest nextQueue : List Bytes}
    (hp : nextQueue.Perm rest)
    (hrest : ∀ id snapshot, (id, snapshot) ∈ s.written → s.Released id snapshot ∨ id ∈ rest) :
    Sound { s with
      store := (Frontend.advance s.store s.account rest nextQueue).2
      runs := s.runs ++ (Frontend.advance s.store s.account rest nextQueue).1.toList } := by
  rcases advance_spec s.store s.account rest nextQueue hp with
    ⟨run, he, hc, hr, hmem⟩ | ⟨he, hnone⟩
  · rw [he]
    simp only [Option.toList_some]
    refine ⟨h.serials, ?_, ?_, ?_⟩
    · intro id snapshot hw
      rcases h.kept id snapshot hw with hrel | ⟨hstored, hqueue, hruns⟩
      · exact Or.inl hrel
      · rcases hrest id snapshot hw with hrel | hid
        · exact Or.inl hrel
        · refine Or.inr ⟨hstored, hqueue, ?_⟩
          intro run' hrun'
          rcases List.mem_append.mp hrun' with hrun' | hrun'
          · exact hruns run' hrun'
          · rw [List.mem_singleton.mp hrun']
            obtain ⟨c, hstored, -⟩ := hstored
            exact hmem id hid (by simp [hstored])
    · intro run' hrun' c hget
      rcases List.mem_append.mp hrun' with hrun' | hrun'
      · exact h.read run' hrun' c hget
      · rw [List.mem_singleton.mp hrun'] at hget ⊢
        rw [hc, Option.some.injEq] at hget
        exact hget.symm
    · intro run' hrun'
      rcases List.mem_append.mp hrun' with hrun' | hrun'
      · exact h.ahead run' hrun'
      · rw [List.mem_singleton.mp hrun']
        exact hr
  · rw [he]
    simp only [Option.toList_none, List.append_nil]
    refine ⟨h.serials, ?_, h.read, h.ahead⟩
    intro id snapshot hw
    rcases h.kept id snapshot hw with hrel | ⟨⟨c, hstored, -⟩, -, -⟩
    · exact Or.inl hrel
    · rcases hrest id snapshot hw with hrel | hid
      · exact Or.inl hrel
      · rw [hnone id hid] at hstored
        cases hstored

theorem Sound.startSync {s : Client} (h : s.Sound) : s.startSync.Sound := by
  rw [Client.startSync]
  split
  · exact h
  · exact h
  · next queue hne hq =>
    apply h.advance (List.Perm.refl queue)
    intro id snapshot hw
    rcases h.kept id snapshot hw with hrel | ⟨-, hqueue, -⟩
    · exact Or.inl hrel
    · rw [hq] at hqueue
      exact Or.inr hqueue

theorem Sound.backUp {s : Client} (h : s.Sound) (call : SaveCall) (now : Time)
    (hahead : ∀ run ∈ s.runs, run.Ahead call.bookID)
    (haccount : ∀ c ∈ s.store.snapshots call.bookID, c.account = s.account) :
    (s.saveAnswered call .network now).Sound := by
  simp only [Client.saveAnswered, LocalStorage.backUp]
  have hqueue : ∀ id, id = call.bookID ∨ id ∈ s.store.queue.getD [] →
      id ∈ (if call.bookID ∈ s.store.queue.getD [] then s.store.queue
        else some (s.store.queue.getD [] ++ [call.bookID])).getD [] := by
    intro id hid
    split
    · next hmem =>
      rcases hid with rfl | hid
      · exact hmem
      · exact hid
    · rcases hid with rfl | hid
      · simp
      · simp [hid]
  constructor
  · intro id c hw
    rw [List.length_append, List.length_singleton]
    rcases List.mem_append.mp hw with hw | hw
    · have := h.serials id c hw
      omega
    · rw [List.mem_singleton, Prod.mk.injEq] at hw
      rw [hw.2]
      simp
  · intro id snapshot hw
    rcases List.mem_append.mp hw with hw | hw
    · rcases h.kept id snapshot hw with hrel | ⟨⟨c, hstored, hserial, hacc⟩, hq, hruns⟩
      · exact Or.inl hrel
      · refine Or.inr ⟨?_, hqueue id (Or.inr hq), hruns⟩
        by_cases hid : id = call.bookID
        · -- the new snapshot takes the place of one of the same account
          subst hid
          have hlt := h.serials _ _ hw
          exact ⟨_, Function.update_self .., hlt.le, (haccount c hstored).symm.trans hacc⟩
        · exact ⟨c, by rw [← hstored]; exact Function.update_of_ne hid .., hserial, hacc⟩
    · rw [List.mem_singleton, Prod.mk.injEq] at hw
      obtain ⟨rfl, rfl⟩ := hw
      refine Or.inr ⟨⟨_, Function.update_self .., le_refl _, rfl⟩, hqueue _ (Or.inl rfl), ?_⟩
      intro run hrun
      exact (h.ahead run hrun).mem_iff.mpr (List.mem_cons_of_mem _ (hahead run hrun).2)
  · intro run hrun c hget
    simp only [Function.update_of_ne (hahead run hrun).1] at hget
    exact h.read run hrun c hget
  · exact h.ahead

/-- Dropping a snapshot that has been answered for, and going on. -/
theorem Sound.dropAndContinue {s : Client} {run : SyncRun} {ack : List (Bytes × Nat)}
    {refused : List (Bytes × Nat × Bytes)} (h : s.Sound) (hack : s.acknowledged ⊆ ack)
    (href : s.refused ⊆ refused) (hread : ∀ c, s.store.snapshots run.id = some c → c = run.cached)
    (hahead : run.nextQueue.Perm (run.id :: run.rest))
    (hin : ∀ id snapshot, (id, snapshot) ∈ s.written → s.Released id snapshot ∨ id ∈ run.nextQueue)
    (hanswer : s.store.snapshots run.id = none ∨ (run.id, run.cached.serial) ∈ ack ∨
      (run.id, run.cached.serial, run.cached.account) ∈ refused) :
    (Client.dropAndContinue { s with acknowledged := ack, refused := refused } run).Sound := by
  have hmono : ∀ id snapshot, s.Released id snapshot →
      Released { s with acknowledged := ack, refused := refused } id snapshot := by
    intro id snapshot hrel
    rcases hrel with ⟨n, hn, hmem⟩ | ⟨n, hn, hmem⟩
    · exact Or.inl ⟨n, hn, hack hmem⟩
    · exact Or.inr ⟨n, hn, href hmem⟩
  -- nothing of the book is left to keep
  have hreleased : ∀ snapshot, (run.id, snapshot) ∈ s.written →
      Released { s with acknowledged := ack, refused := refused } run.id snapshot := by
    intro snapshot hw
    rcases h.kept _ snapshot hw with hrel | ⟨⟨c, hstored, hserial, hacc⟩, -, -⟩
    · exact hmono _ _ hrel
    · have hc := hread c hstored
      subst hc
      rcases hanswer with hnone | hmem | hmem
      · rw [hnone] at hstored
        cases hstored
      · exact Or.inl ⟨_, hserial, hmem⟩
      · exact Or.inr ⟨_, hserial, hacc ▸ hmem⟩
  have hdropped : Sound { s with
      store := s.store.removeSnapshot run.id, acknowledged := ack, refused := refused } := by
    refine ⟨h.serials, ?_, ?_, h.ahead⟩
    · intro id snapshot hw
      by_cases hid : id = run.id
      · subst hid
        exact Or.inl (hreleased snapshot hw)
      · rcases h.kept id snapshot hw with hrel | ⟨⟨c, hstored, hc⟩, hq, hruns⟩
        · exact Or.inl (hmono _ _ hrel)
        · refine Or.inr ⟨⟨c, ?_, hc⟩, hq, hruns⟩
          rw [← hstored]
          exact Function.update_of_ne hid ..
    · intro run' hrun' c hget
      simp only [LocalStorage.removeSnapshot] at hget
      by_cases hid : run'.id = run.id
      · rw [hid, Function.update_self] at hget
        cases hget
      · rw [Function.update_of_ne hid] at hget
        exact h.read run' hrun' c hget
  have hp : (run.nextQueue.erase run.id).Perm run.rest := by simpa using hahead.erase run.id
  refine hdropped.advance hp ?_
  intro id snapshot hw
  by_cases hid : id = run.id
  · subst hid
    exact Or.inl (hreleased snapshot hw)
  · rcases hin id snapshot hw with hrel | hmem
    · exact Or.inl (hmono _ _ hrel)
    · rcases List.mem_cons.mp (hahead.mem_iff.mp hmem) with he | hrest
      · exact absurd he hid
      · exact Or.inr hrest

/-- Taking a run off the list of runs. -/
theorem Sound.eraseRun {s : Client} (h : s.Sound) (i : Nat) :
    Sound { s with runs := s.runs.eraseIdx i } := by
  have hsub : ∀ run ∈ s.runs.eraseIdx i, run ∈ s.runs := fun run => List.mem_of_mem_eraseIdx
  refine ⟨h.serials, ?_, fun run hrun => h.read run (hsub run hrun),
    fun run hrun => h.ahead run (hsub run hrun)⟩
  intro id snapshot hw
  rcases h.kept id snapshot hw with hrel | ⟨hstored, hq, hruns⟩
  · exact Or.inl hrel
  · exact Or.inr ⟨hstored, hq, fun run hrun => hruns run (hsub run hrun)⟩

theorem Sound.syncAnswered {s : Client} (h : s.Sound) {i : Nat} {run : SyncRun} {answer : Answer}
    (hi : s.runs[i]? = some run)
    (hok : ∀ code, answer = .status code → s.store.snapshots run.id = none ∨
      definitive code ∧ run.account = run.cached.account) :
    (Client.syncAnswered { s with runs := s.runs.eraseIdx i } run answer).Sound := by
  have hrun : run ∈ s.runs := List.mem_of_getElem? hi
  have hin : ∀ id snapshot, (id, snapshot) ∈ s.written →
      s.Released id snapshot ∨ id ∈ run.nextQueue := by
    intro id snapshot hw
    rcases h.kept id snapshot hw with hrel | ⟨-, -, hruns⟩
    · exact Or.inl hrel
    · exact Or.inr (hruns run hrun)
  have he := h.eraseRun i
  cases answer with
  | ok =>
      exact he.dropAndContinue (List.subset_cons_self _ _) (List.Subset.refl _) (h.read run hrun)
        (h.ahead run hrun) hin (Or.inr (Or.inl (by simp)))
  | status code =>
      refine he.dropAndContinue (List.Subset.refl _) ?_ (h.read run hrun) (h.ahead run hrun) hin ?_
      · split
        · exact List.subset_cons_self _ _
        · exact List.Subset.refl _
      · rcases hok code rfl with hnone | ⟨hdef, hacc⟩
        · exact Or.inl hnone
        · right
          right
          rw [if_pos hdef, hacc]
          simp
  | network =>
      refine ⟨he.serials, ?_, he.read, he.ahead⟩
      intro id snapshot hw
      rcases he.kept id snapshot hw with hrel | ⟨hstored, -, hruns⟩
      · exact Or.inl hrel
      · rcases hin id snapshot hw with hrel | hmem
        · exact Or.inl hrel
        · exact Or.inr ⟨hstored, hmem, hruns⟩

theorem Sound.step {s s' : Client} {a : Action} (h : s.Sound)
    (hstep : Steps Client.step Careful s a s') : s'.Sound := by
  obtain ⟨hok, hstep⟩ := hstep
  cases a with
  | signIn account =>
      cases hstep
      exact ⟨h.serials, h.kept, h.read, h.ahead⟩
  | saveProgress call =>
      cases hstep
      exact ⟨h.serials, h.kept, h.read, h.ahead⟩
  | saveAnswered i answer now =>
      rw [Client.step, Option.map_eq_some_iff] at hstep
      obtain ⟨call, hi, rfl⟩ := hstep
      have he : Sound { s with saves := s.saves.eraseIdx i } :=
        ⟨h.serials, h.kept, h.read, h.ahead⟩
      cases answer with
      | ok => exact he
      | status code => exact he
      | network =>
          obtain ⟨hahead, haccount⟩ := hok call hi
          exact he.backUp call now hahead haccount
  | syncOfflineProgressQueue =>
      cases hstep
      exact h.startSync
  | syncAnswered i answer =>
      rw [Client.step, Option.map_eq_some_iff] at hstep
      obtain ⟨run, hi, rfl⟩ := hstep
      apply h.syncAnswered hi
      rintro code rfl
      exact hok run hi

/-- As long as backups and refusals are careful, no snapshot is dropped before the
server has answered for it. -/
theorem careful_nothingDropped {s : Client}
    (h : Reachable Started (Steps Client.step Careful) s) :
    s.NothingDropped := by
  have hsound : s.Sound :=
    h.invariant Sound (fun _ hs => hs.sound) (fun _ _ _ hs hstep => hs.step hstep)
  exact hsound.nothingDropped

def pageTurn (cfi : String) : SaveCall := ⟨ascii "b", ascii cfi, 1, ascii "d"⟩

/-- A backup is synchronised, and a second one is made after that run has ended. -/
theorem careful_backUp_after_sync :
    ∃ s : Client, Reachable Started (Steps Client.step Careful) s ∧
      s.written.length = 2 ∧ s.NothingDropped := by
  have hrun : (replay Client.step Careful (start (ascii "u"))
      [.saveProgress (pageTurn "1"), .saveAnswered 0 .network ⟨1⟩, .syncOfflineProgressQueue,
        .syncAnswered 0 .ok, .saveProgress (pageTurn "2"), .saveAnswered 0 .network ⟨2⟩]).any
      (fun s => s.written.length = 2) = true := by decide
  obtain ⟨s, hs, hlen⟩ := (Option.any_eq_true _ _).mp hrun
  have hreach := replay_reachable _ _ (.start (start_started _)) hs
  exact ⟨s, hreach, by simpa using hlen, careful_nothingDropped hreach⟩

/-- A snapshot written while the run waits for the answer about the previous one goes
with that one, and a snapshot goes when the session has expired. -/
theorem sync_drops_snapshots :
    (∃ s : Client, Reachable Started (Steps Client.step fun _ _ => True) s ∧
      s.refused = [] ∧ s.acknowledged = [(ascii "b", 0)] ∧ ¬ s.NothingDropped) ∧
    ∃ s : Client, Reachable Started (Steps Client.step fun _ _ => True) s ∧
      s.refused = [] ∧ s.acknowledged = [] ∧ ¬ s.NothingDropped := by
  constructor
  · have hrun : (replay Client.step (fun _ _ => True) (start (ascii "u"))
        [.saveProgress (pageTurn "1"), .saveAnswered 0 .network ⟨1⟩, .saveProgress (pageTurn "2"),
          .syncOfflineProgressQueue, .saveAnswered 0 .network ⟨2⟩, .syncAnswered 0 .ok]).any
        (fun s => s.refused = [] ∧ s.acknowledged = [(ascii "b", 0)] ∧
          s.store.snapshots (ascii "b") = none ∧
          s.written.any (fun w => w.1 = ascii "b" ∧ w.2.serial = 1)) = true := by decide
    obtain ⟨s, hs, hlost⟩ := (Option.any_eq_true _ _).mp hrun
    simp only [decide_eq_true_eq, List.any_eq_true, Prod.exists] at hlost
    obtain ⟨hrefused, hack, hnone, id, c, hw, rfl, hserial⟩ := hlost
    refine ⟨s, replay_reachable _ _ (.start (start_started _)) hs, hrefused, hack, ?_⟩
    intro h
    rcases h _ c hw with (⟨n, hn, hmem⟩ | ⟨n, -, hmem⟩) | ⟨⟨c', hstored, -⟩, -⟩
    · rw [hack, List.mem_singleton, Prod.mk.injEq] at hmem
      omega
    · simp [hrefused] at hmem
    · rw [hnone] at hstored
      cases hstored
  · have hrun : (replay Client.step (fun _ _ => True) (start (ascii "u"))
        [.saveProgress (pageTurn "1"), .saveAnswered 0 .network ⟨1⟩, .syncOfflineProgressQueue,
          .syncAnswered 0 (.status 401)]).any
        (fun s => s.refused = [] ∧ s.acknowledged = [] ∧ s.store.snapshots (ascii "b") = none ∧
          s.written.any (fun w => w.1 = ascii "b")) = true := by decide
    obtain ⟨s, hs, hlost⟩ := (Option.any_eq_true _ _).mp hrun
    simp only [decide_eq_true_eq, List.any_eq_true, Prod.exists] at hlost
    obtain ⟨hrefused, hack, hnone, id, c, hw, rfl⟩ := hlost
    refine ⟨s, replay_reachable _ _ (.start (start_started _)) hs, hrefused, hack, ?_⟩
    intro h
    rcases h _ c hw with (⟨n, -, hmem⟩ | ⟨n, -, hmem⟩) | ⟨⟨c', hstored, -⟩, -⟩
    · simp [hack] at hmem
    · simp [hrefused] at hmem
    · rw [hnone] at hstored
      cases hstored

end Client

end ZReader.Frontend
