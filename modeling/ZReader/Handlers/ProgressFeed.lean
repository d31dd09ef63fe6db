import ZReader.Handlers.Progress

namespace ZReader.Handlers

open Lib.Utf8 Lib.Strings Lib.KeyValue Lib.Fallible Lib.Transition Storage

/-! ## Saving and polling -/

/-- The progress of one user between saves and a polling client. A pending save has
taken its time from the clock but has not committed. -/
structure Feed where
  db : Tx
  clock : Time
  pending : List (Progress × Option Time)
  received : List Progress

namespace Feed

/-- The greatest `UpdatedAt` received so far. -/
def latest (received : List Progress) : Time :=
  received.foldl (fun t p => if t.before p.updatedAt then p.updatedAt else t) Time.zero

inductive Action
  | request (bookID : Bytes) (req : ProgressRequest) (now : Time)
  | commit (i : Nat)
  | poll

def poll (userID : Bytes) (s : Feed) : Feed :=
  { s with
    received := s.received ++ listProgressUpdatedSince s.db userID (latest s.received) }

def step (userID : Bytes) (s : Feed) : Action → Option Feed
  | .request bookID req now =>
      if s.clock.before now ∧ now.InRange then
        some { s with
          clock := now
          pending := s.pending ++
            (newProgress bookID userID req now).toList.map (·, req.expectedUpdatedAt) }
      else none
  | .commit i =>
      (s.pending[i]?).map fun (progress, expected) =>
        { s with
          db := (Op.saveProgressIfCurrent progress userID expected).run s.db
          pending := s.pending.eraseIdx i }
  | .poll => some (poll userID s)

/-- A save commits with a time that the client has not yet passed. -/
def InOrder (s : Feed) : Action → Prop
  | .commit i => ∀ save ∈ s.pending[i]?, (latest s.received).nanos ≤ save.1.updatedAt.nanos
  | _ => True

instance (s : Feed) : (a : Action) → Decidable (s.InOrder a)
  | .commit i => inferInstanceAs (Decidable (∀ save ∈ s.pending[i]?,
      (latest s.received).nanos ≤ save.1.updatedAt.nanos))
  | .request _ _ _ | .poll => isTrue trivial

/-- Any reachable database whose progress was timed by the clock, and a client that
has received nothing. -/
def Started (s : Feed) : Prop :=
  Reached s.db ∧ (∀ k p, s.db.progress.get k = some p → p.updatedAt.InRange) ∧ s.pending = [] ∧
    s.received = []

/-- The client has received every stored record of the user. -/
def UpToDate (userID : Bytes) (s : Feed) : Prop :=
  ∀ k p, s.db.progress.get k = some p → p.userID = userID → p ∈ s.received

/-! ## The greatest time received -/

theorem latest_concat (l : List Progress) (p : Progress) :
    latest (l ++ [p]) = if (latest l).before p.updatedAt then p.updatedAt else latest l := by
  rw [latest, List.foldl_append]
  rfl

theorem latest_inRange {l : List Progress} (h : ∀ p ∈ l, p.updatedAt.InRange) :
    latest l = Time.zero ∨ (latest l).InRange := by
  induction l using List.reverseRecOn with
  | nil => exact Or.inl rfl
  | append_singleton l p ih =>
      rw [latest_concat]
      split
      · exact Or.inr (h p (by simp))
      · exact ih (fun q hq => h q (by simp [hq]))

/-! ## Runs -/

/-- What holds as long as every save commits in order. -/
structure Sound (userID : Bytes) (s : Feed) : Prop where
  reached : Reached s.db
  stored : ∀ k p, s.db.progress.get k = some p → p.updatedAt.InRange
  pending : ∀ save ∈ s.pending, save.1.updatedAt.InRange
  received : ∀ p ∈ s.received, p.updatedAt.InRange
  ahead : ∀ k p, s.db.progress.get k = some p → p.userID = userID →
    p ∈ s.received ∨ (latest s.received).nanos ≤ p.updatedAt.nanos

theorem Started.sound {s : Feed} (h : s.Started) (userID : Bytes) : s.Sound userID := by
  obtain ⟨hreached, hstored, hpending, hreceived⟩ := h
  refine ⟨hreached, hstored, by simp [hpending], by simp [hreceived], ?_⟩
  intro k p hp _
  right
  have hrange := (hstored k p hp).1
  rw [hreceived]
  simp only [latest, List.foldl_nil, Time.zero]
  omega

theorem mem_of_mem_listProgressUpdatedSince {tx : Tx} {userID : Bytes} {since : Time} {p : Progress}
    (h : p ∈ listProgressUpdatedSince tx userID since) : ∃ k, tx.progress.get k = some p := by
  rw [listProgressUpdatedSince] at h
  split at h
  · rw [listProgress, List.mem_filter, List.mem_map] at h
    obtain ⟨⟨⟨k, q⟩, hrow, rfl⟩, -⟩ := h
    exact ⟨k, (Bucket.mem_seek_self.mp hrow).1⟩
  · obtain ⟨row, -, hrow⟩ := List.mem_filterMap.mp h
    exact ⟨_, (Option.filter_eq_some_iff.mp hrow).1⟩

/-- A poll completes what the client knows. -/
theorem Sound.poll_upToDate {userID : Bytes} {s : Feed} (h : s.Sound userID) :
    UpToDate userID (poll userID s) := by
  intro k p hp hu
  rw [poll, List.mem_append]
  rcases h.ahead k p hp hu with hmem | hle
  · exact Or.inl hmem
  · right
    rw [← hu]
    exact mem_listProgressUpdatedSince h.reached.rowed hp (h.stored k p hp)
      (latest_inRange h.received) hle

theorem Sound.commit {userID : Bytes} (hu : userID ≠ []) {s : Feed} (h : s.Sound userID) {i : Nat}
    {p : Progress} {e : Option Time} (hi : s.pending[i]? = some (p, e))
    (hle : (latest s.received).nanos ≤ p.updatedAt.nanos) :
    Sound userID { s with
      db := (Op.saveProgressIfCurrent p userID e).run s.db
      pending := s.pending.eraseIdx i } := by
  have hrange : p.updatedAt.InRange := h.pending _ (List.mem_of_getElem? hi)
  have hrun : ∀ k q, ((Op.saveProgressIfCurrent p userID e).run s.db).progress.get k = some q →
      s.db.progress.get k = some q ∨ q.updatedAt = p.updatedAt := by
    apply Tx.update_induction (P := fun tx => ∀ k q, tx.progress.get k = some q →
      s.db.progress.get k = some q ∨ q.updatedAt = p.updatedAt)
    · intro k q hq
      exact Or.inl hq
    · intro tx htx k q hq
      rw [(saveProgressIfCurrent_rowed h.reached.coherent h.reached.rowed hu htx).2 k] at hq
      split at hq
      · cases hq
        exact Or.inr rfl
      · exact Or.inl hq
  refine ⟨h.reached.run _ hu, ?_, ?_, h.received, ?_⟩
  · intro k q hq
    rcases hrun k q hq with hold | htime
    · exact h.stored k q hold
    · rw [htime]
      exact hrange
  · intro save hsave
    exact h.pending save (List.mem_of_mem_eraseIdx hsave)
  · intro k q hq hqu
    rcases hrun k q hq with hold | htime
    · exact h.ahead k q hold hqu
    · right
      rw [htime]
      exact hle

theorem Sound.step {userID : Bytes} (hu : userID ≠ []) {s s' : Feed} {a : Action}
    (h : s.Sound userID) (hstep : Steps (step userID) InOrder s a s') : s'.Sound userID := by
  obtain ⟨hok, hstep⟩ := hstep
  cases a with
  | request bookID req now =>
      rw [Feed.step] at hstep
      split at hstep
      · next hnow =>
        cases hstep
        refine ⟨h.reached, h.stored, ?_, h.received, h.ahead⟩
        intro save hsave
        rcases List.mem_append.mp hsave with hsave | hsave
        · exact h.pending save hsave
        · simp only [List.mem_map, Option.mem_toList] at hsave
          obtain ⟨p, hp, rfl⟩ := hsave
          rw [(newProgress_eq_some hp).2.2]
          exact hnow.2
      · cases hstep
  | commit i =>
      rw [Feed.step, Option.map_eq_some_iff] at hstep
      obtain ⟨⟨p, e⟩, hi, rfl⟩ := hstep
      exact h.commit hu hi (hok (p, e) hi)
  | poll =>
      rw [Feed.step] at hstep
      cases hstep
      refine ⟨h.reached, h.stored, h.pending, ?_, ?_⟩
      · intro p hp
        rcases List.mem_append.mp hp with hp | hp
        · exact h.received p hp
        · obtain ⟨k, hk⟩ := mem_of_mem_listProgressUpdatedSince hp
          exact h.stored k p hk
      · intro k p hp hpu
        exact Or.inl (h.poll_upToDate k p hp hpu)

/-- As long as saves commit with times the client has not passed, every poll ends with
all of the user's stored progress received. -/
theorem inOrder_upToDate {userID : Bytes} (hu : userID ≠ []) {s s' : Feed}
    (h : Reachable Started (Steps (step userID) InOrder) s)
    (hpoll : Steps (step userID) InOrder s .poll s') : UpToDate userID s' := by
  have hsound : s.Sound userID :=
    h.invariant (Sound userID) (fun _ hs => hs.sound userID) (fun _ _ _ hs hstep => hs.step hu hstep)
  obtain ⟨-, hpoll⟩ := hpoll
  rw [step] at hpoll
  cases hpoll
  exact hsound.poll_upToDate

def secondBook : Book := { sampleBook with id := ascii "a" }

/-- A shelf with the books `a` and `b`, nothing read and nothing received. -/
def twoBooks : Feed where
  db := (Op.createBook secondBook).run uploaded
  clock := ⟨0⟩
  pending := []
  received := []

theorem twoBooks_started : twoBooks.Started := by
  have hfree : uploaded.books.get secondBook.id = none := by decide +kernel
  have htwo : Reached twoBooks.db := uploaded_reached.run (.createBook secondBook) ⟨by decide, hfree⟩
  have hunread : ∀ k, twoBooks.db.progress.get k = none := Bucket.get_of_isEmpty (by decide +kernel)
  refine ⟨htwo, ?_, rfl, rfl⟩
  intro k p hp
  rw [hunread] at hp
  cases hp

def readingAt (cfi : String) : ProgressRequest := ⟨ascii cfi, 1, [], none⟩

theorem inOrder_save_poll :
    ∃ s, Reachable Started (Steps (step (ascii "u")) InOrder) s ∧ s.received.length = 1 ∧
      UpToDate (ascii "u") s := by
  have hrun : (replay (step (ascii "u")) InOrder twoBooks
      [.request (ascii "a") (readingAt "x") ⟨1⟩, .commit 0]).any
      (fun s => (poll (ascii "u") s).received.length = 1) = true := by decide +kernel
  obtain ⟨s, hs, hone⟩ := (Option.any_eq_true _ _).mp hrun
  have hreach := replay_reachable _ _ (.start twoBooks_started) hs
  have hpoll : Steps (step (ascii "u")) InOrder s .poll (poll (ascii "u") s) := ⟨trivial, rfl⟩
  exact ⟨_, hreach.next hpoll, by simpa using hone,
    inOrder_upToDate (by decide : ascii "u" ≠ []) hreach hpoll⟩

/-- The save of one book takes its time before, but commits after, the save of another
book that the client has already polled. -/
theorem late_commit_missed :
    ∃ s s', Reachable Started (Steps (step (ascii "u")) fun _ _ => True) s ∧
      Steps (step (ascii "u")) (fun _ _ => True) s .poll s' ∧ ¬ UpToDate (ascii "u") s' := by
  have hrun : (replay (step (ascii "u")) (fun _ _ => True) twoBooks
      [.request (ascii "a") (readingAt "x") ⟨1⟩, .request (ascii "b") (readingAt "y") ⟨2⟩, .commit 1,
        .poll, .commit 0]).any
      (fun s => (s.db.progress.get (progressKey (ascii "u") (ascii "a"))).any (fun p =>
        p.userID = ascii "u" ∧ p ∉ (poll (ascii "u") s).received)) = true := by decide +kernel
  obtain ⟨s, hs, hmissed⟩ := (Option.any_eq_true _ _).mp hrun
  obtain ⟨p, hp, hmissed⟩ := (Option.any_eq_true _ _).mp hmissed
  rw [decide_eq_true_eq] at hmissed
  refine ⟨s, poll (ascii "u") s, replay_reachable _ _ (.start twoBooks_started) hs, ⟨trivial, rfl⟩, ?_⟩
  intro h
  exact hmissed.2 (h _ p hp hmissed.1)

end Feed

end ZReader.Handlers
