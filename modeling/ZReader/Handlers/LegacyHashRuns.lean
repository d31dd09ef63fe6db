import ZReader.Handlers.LegacyHashes

namespace ZReader.Handlers.LegacyHashes

open Lib.Utf8 Lib.Strings Lib.KeyValue Lib.Tokens Lib.Transition Lib.Paging Storage Uploads

namespace LegacyHashBackfill

variable {hash : Bytes → Bytes} {s t : LegacyHashBackfill}

/-! ## The database of the worker -/

/-- What a step makes of the database: another transaction, a commit, or nothing. -/
theorem step_db {a : BackfillAction} (hst : s.step hash a = some t) :
    t.db = s.db ∨ (∃ op, a = .edit op ∧ t.db = op.run s.db) ∨
      ∃ ok client next hashes, a = .commit ok ∧ s.phase = .hashing client next [] hashes ∧
        backfillBookContentHashes hashes s.db = .ok t.db := by
  have hfinish (s : LegacyHashBackfill) (client : Option ℕ) (ok : Bool) (next : Bytes) :
      (s.finish client ok next).db = s.db := by
    unfold finish
    split
    · rfl
    · split
      · rfl
      · rfl
  cases a with
  | edit op =>
      cases hst
      exact .inr (.inl ⟨op, rfl, rfl⟩)
  | catchUp userID | close =>
      cases hst
      exact .inl rfl
  | look i | accept i | receive i =>
      obtain ⟨r, -, hst⟩ := Option.bind_eq_some_iff.mp hst
      split at hst
      · cases hst
        exact .inl rfl
      · cases hst
  | giveUp i =>
      obtain ⟨r, -, hst⟩ := Option.bind_eq_some_iff.mp hst
      split at hst
      · split at hst
        · cases hst
          exact .inl rfl
        · cases hst
      · split at hst
        · cases hst
          exact .inl rfl
        · cases hst
      · cases hst
  | quit =>
      simp only [step] at hst
      split at hst
      · split at hst
        · cases hst
          exact .inl rfl
        · cases hst
      · cases hst
  | tick =>
      simp only [step] at hst
      split at hst
      · cases hst
        exact .inl rfl
      · cases hst
  | list =>
      simp only [step] at hst
      split at hst
      · split at hst
        · cases hst
          exact .inl rfl
        · obtain ⟨r, -, rfl⟩ := Option.map_eq_some_iff.mp hst
          exact .inl rfl
      · cases hst
  | hash content =>
      simp only [step] at hst
      split at hst
      · split at hst
        · cases hst
          exact .inl (hfinish _ _ _ _)
        · cases hst
          exact .inl rfl
      · cases hst
  | commit ok =>
      simp only [step] at hst
      split at hst
      · next client next hashes hphase =>
        split at hst
        · next tx htx =>
          cases hst
          rw [hfinish]
          split at htx
          · exact .inr (.inr ⟨ok, client, next, hashes, rfl, hphase, htx⟩)
          · cases htx
        · cases hst
          exact .inl (hfinish _ _ _ _)
      · cases hst

theorem step_reached {a : BackfillAction} (h : Storage.Reached s.db) (ha : s.Allowed a)
    (hst : s.step hash a = some t) : Storage.Reached t.db := by
  rcases step_db hst with hsame | ⟨op, rfl, hop⟩ | ⟨-, -, -, hashes, rfl, -, htx⟩
  · rw [hsame]
    exact h
  · rw [hop]
    exact h.run op ha
  · have hrun : (Op.backfillBookContentHashes hashes).run s.db = t.db := by
      rw [Op.run, Tx.update, Op.transaction, htx]
    rw [← hrun]
    exact h.run (.backfillBookContentHashes hashes) trivial

theorem Reached.db (h : s.Reached hash) : Storage.Reached s.db :=
  h.invariant (fun s => Storage.Reached s.db) (fun _ hs => hs.1) fun _ _ _ hdb hst =>
    step_reached hdb hst.1 hst.2

/-! ## Whom the worker serves -/

def client : WorkerPhase → Option ℕ
  | .serving i _ => some i
  | .hashing client _ _ _ => client
  | _ => none

/-- The request has reached the worker. -/
def sent : RequestPhase → Bool
  | .asking | .sending => false
  | .waiting _ | .returned _ => true

/-- The worker serves only requests that have reached it. -/
def Busy (s : LegacyHashBackfill) : Prop :=
  ∀ i, client s.phase = some i → ∃ r, s.requests[i]? = some r ∧ sent r.phase = true

/-- Requests that have reached the worker stay so. -/
def SentOn (s t : LegacyHashBackfill) : Prop :=
  ∀ (i : ℕ) r, s.requests[i]? = some r → sent r.phase = true →
    ∃ r', t.requests[i]? = some r' ∧ sent r'.phase = true

theorem SentOn.of_eq (h : t.requests = s.requests) : SentOn s t := by
  intro i r hi hsent
  rw [h]
  exact ⟨r, hi, hsent⟩

theorem SentOn.put {j : ℕ} {r : LegacyHashRequest} {phase : RequestPhase}
    (hj : s.requests[j]? = some r) (hsent : sent r.phase = true → sent phase = true)
    (h : t.requests = s.requests.set j { r with phase := phase }) : SentOn s t := by
  intro i r' hi hs
  rw [h]
  by_cases heq : j = i
  · subst heq
    rw [hj] at hi
    cases hi
    exact ⟨_, getElem?_set_of_some hj _, hsent hs⟩
  · rw [List.getElem?_set_ne heq]
    exact ⟨r', hi, hs⟩

theorem SentOn.answer (s : LegacyHashBackfill) (j : ℕ) (ok : Bool) : SentOn s (s.answer j ok) := by
  intro i r hi hs
  by_cases heq : j = i
  · subst heq
    refine ⟨{ r with phase := r.phase.answer ok }, ?_, ?_⟩
    · simp [LegacyHashBackfill.answer, hi]
    · cases hphase : r.phase with
      | waiting done => rfl
      | returned ok' => rfl
      | asking | sending =>
          rw [hphase] at hs
          cases hs
  · exact ⟨r, by simp [LegacyHashBackfill.answer, heq, hi], hs⟩

theorem Busy.mono (h : s.Busy) (hsent : SentOn s t)
    (hclient : ∀ i, client t.phase = some i → client s.phase = some i) : t.Busy := by
  intro i hi
  obtain ⟨r, hr, hs⟩ := h i (hclient i hi)
  exact hsent i r hr hs

theorem Busy.finish (h : s.Busy) {client' : Option ℕ} (hclient : client s.phase = client') (ok : Bool)
    (next : Bytes) : (s.finish client' ok next).Busy := by
  unfold LegacyHashBackfill.finish
  split
  · exact h.mono (.of_eq rfl) nofun
  · next j =>
    split
    · exact h.mono (SentOn.answer s j ok) nofun
    · refine h.mono (.of_eq rfl) fun i hi => ?_
      rw [hclient]
      exact hi

theorem step_busy {a : BackfillAction} (h : s.Busy) (hst : s.step hash a = some t) : t.Busy := by
  cases a with
  | edit op | close =>
      cases hst
      exact h.mono (.of_eq rfl) fun _ hi => hi
  | catchUp userID =>
      cases hst
      refine h.mono (fun i r hi hs => ⟨r, ?_, hs⟩) fun _ hi => hi
      rw [List.getElem?_append_left (List.getElem?_eq_some_iff.mp hi).1]
      exact hi
  | look j =>
      obtain ⟨r, hj, hst⟩ := Option.bind_eq_some_iff.mp hst
      split at hst
      · next hphase =>
        cases hst
        refine h.mono (SentOn.put hj (fun hs => ?_) rfl) fun _ hi => hi
        rw [hphase] at hs
        cases hs
      · cases hst
  | accept j =>
      obtain ⟨r, hj, hst⟩ := Option.bind_eq_some_iff.mp hst
      split at hst
      · cases hst
        intro i hi
        cases hi
        exact ⟨_, getElem?_set_of_some hj _, rfl⟩
      · cases hst
  | receive j =>
      obtain ⟨r, hj, hst⟩ := Option.bind_eq_some_iff.mp hst
      split at hst
      · cases hst
        exact h.mono (SentOn.put hj (fun _ => rfl) rfl) fun _ hi => hi
      · cases hst
  | giveUp j =>
      obtain ⟨r, hj, hst⟩ := Option.bind_eq_some_iff.mp hst
      have hput : (s.putPhase j r (.returned false)).Busy :=
        h.mono (SentOn.put hj (fun _ => rfl) rfl) fun _ hi => hi
      split at hst
      · split at hst
        · cases hst
          exact hput
        · cases hst
      · split at hst
        · cases hst
          exact hput
        · cases hst
      · cases hst
  | quit =>
      simp only [step] at hst
      split at hst
      · split at hst
        · cases hst
          exact h.mono (.of_eq rfl) nofun
        · cases hst
      · cases hst
  | tick =>
      simp only [step] at hst
      split at hst
      · cases hst
        exact h.mono (.of_eq rfl) nofun
      · cases hst
  | list =>
      simp only [step] at hst
      split at hst
      · next j next hphase =>
        split at hst
        · cases hst
          exact h.mono (SentOn.answer s j false) nofun
        · obtain ⟨r, -, rfl⟩ := Option.map_eq_some_iff.mp hst
          refine h.mono (.of_eq rfl) fun i hi => ?_
          rw [hphase]
          exact hi
      · cases hst
  | hash content =>
      simp only [step] at hst
      split at hst
      · next client' next book books hashes hphase =>
        split at hst
        · cases hst
          exact h.finish (by rw [hphase]; rfl) false next
        · cases hst
          refine h.mono (.of_eq rfl) fun i hi => ?_
          rw [hphase]
          exact hi
      · cases hst
  | commit ok =>
      simp only [step] at hst
      split at hst
      · next client' next hashes hphase =>
        split at hst
        · next tx htx =>
          cases hst
          have hdb : Busy { s with db := tx } := h.mono (.of_eq rfl) fun _ hi => hi
          exact hdb.finish (by rw [hphase]; rfl) true next
        · cases hst
          exact h.finish (by rw [hphase]; rfl) false next
      · cases hst

theorem Reached.busy (h : s.Reached hash) : s.Busy := by
  refine h.invariant Busy ?_ fun _ _ _ hbusy hst => step_busy hbusy hst.2
  intro s hs i hi
  rw [hs.2.2.2.2] at hi
  cases hi

/-! ## One book through the pass of one request -/

/-- The book has a stored hash. -/
def HasHash (id : Bytes) (db : Tx) : Prop := ∃ b, db.books.get id = some b ∧ b.contentHash ≠ []

/-- A snapshot of the book, with the given owner and file name. -/
def SnapshotOf (u id f : Bytes) (b : Book) : Prop := b.id = id ∧ b.userID = u ∧ b.filename = f

/-- The pass has still to come to the book. -/
def Ahead (u id next : Bytes) : Prop := After Before (place next) (bookSearchIndexKey u id)

/-- Where the book is while the worker serves the request. -/
def Tracks (u id f : Bytes) (i : ℕ) (s : LegacyHashBackfill) : Prop :=
  match s.phase with
  | .serving j next => j = i →
      (∀ c ∈ place next, u ++ [nul] <+: c) ∧ (HasHash id s.db ∨ Ahead u id next)
  | .hashing (some j) next books hashes => j = i → (∀ c ∈ place next, u ++ [nul] <+: c) ∧
      (HasHash id s.db ∨ (∃ b ∈ books, SnapshotOf u id f b) ∨
        (∃ b ∈ hashes, SnapshotOf u id f b ∧ b.contentHash ≠ []) ∨ (next ≠ [] ∧ Ahead u id next))
  | _ => True

/-- The request is answered without an error only when the book has its hash. -/
def Served (u id : Bytes) (i : ℕ) (s : LegacyHashBackfill) : Prop :=
  ∃ phase, s.requests[i]? = some ⟨u, phase⟩ ∧
    (phase = .waiting (some true) ∨ phase = .returned true → HasHash id s.db)

variable {u id f : Bytes} {i : ℕ}

theorem Tracks.mono (h : s.Tracks u id f i) (hphase : t.phase = s.phase)
    (hdb : HasHash id s.db → HasHash id t.db) : t.Tracks u id f i := by
  rw [Tracks] at h ⊢
  rw [hphase]
  split
  · next j next hj =>
    rw [hj] at h
    intro he
    obtain ⟨hnext, hplace⟩ := h he
    exact ⟨hnext, hplace.imp_left hdb⟩
  · next j next books hashes hj =>
    rw [hj] at h
    intro he
    obtain ⟨hnext, hplace⟩ := h he
    exact ⟨hnext, hplace.imp_left hdb⟩
  · trivial

theorem Served.mono (h : s.Served u id i) (hrequests : t.requests[i]? = s.requests[i]?)
    (hdb : HasHash id s.db → HasHash id t.db) : t.Served u id i := by
  obtain ⟨phase, hi, hdone⟩ := h
  exact ⟨phase, hrequests.trans hi, fun hp => hdb (hdone hp)⟩

/-- A request goes on. -/
theorem Served.put (h : s.Served u id i) {j : ℕ} {r : LegacyHashRequest} {phase : RequestPhase}
    (hj : s.requests[j]? = some r) (hdb : t.db = s.db)
    (hrequests : t.requests = s.requests.set j { r with phase := phase })
    (hdone : j = i → phase = .waiting (some true) ∨ phase = .returned true → HasHash id s.db) :
    t.Served u id i := by
  obtain ⟨old, hi, hold⟩ := h
  by_cases heq : j = i
  · subst heq
    rw [hj] at hi
    cases hi
    refine ⟨phase, ?_, ?_⟩
    · rw [hrequests]
      exact getElem?_set_of_some hj _
    · rw [hdb]
      exact hdone rfl
  · refine ⟨old, ?_, ?_⟩
    · rw [hrequests, List.getElem?_set_ne heq]
      exact hi
    · rw [hdb]
      exact hold

theorem Served.answer (h : s.Served u id i) {j : ℕ} {ok : Bool}
    (hdone : j = i → ok = true → HasHash id s.db) : (s.answer j ok).Served u id i := by
  obtain ⟨phase, hi, hold⟩ := h
  by_cases heq : j = i
  · subst heq
    refine ⟨phase.answer ok, ?_, ?_⟩
    · simp [LegacyHashBackfill.answer, hi]
    · intro hp
      cases phase with
      | waiting done =>
          refine hdone rfl ?_
          simpa [RequestPhase.answer] using hp
      | asking | sending | returned ok' => exact hold hp
  · refine ⟨phase, ?_, hold⟩
    simp [LegacyHashBackfill.answer, heq, hi]

/-- The end of a batch that has left the book with a hash, or still ahead. -/
theorem finish_tracks (h : s.Served u id i) {client : Option ℕ} {ok : Bool} {next : Bytes}
    (hend : client = some i → ok = true → (∀ c ∈ place next, u ++ [nul] <+: c) ∧
      (HasHash id s.db ∨ next ≠ [] ∧ Ahead u id next)) :
    (s.finish client ok next).Tracks u id f i ∧ (s.finish client ok next).Served u id i := by
  unfold finish
  split
  · exact ⟨trivial, h.mono rfl fun hh => hh⟩
  · next j =>
    split
    · next hlast =>
      refine ⟨trivial, ?_⟩
      have hanswer : (s.answer j ok).Served u id i := by
        refine h.answer ?_
        rintro rfl hok
        rcases (hend rfl hok).2 with hhash | ⟨hne, -⟩
        · exact hhash
        · rcases hlast with hfail | hnone
          · rw [hok] at hfail
            cases hfail
          · exact absurd hnone hne
      exact hanswer.mono rfl fun hh => hh
    · next hmore =>
      refine ⟨?_, h.mono rfl fun hh => hh⟩
      rintro rfl
      have hok : ok = true := by
        cases ok with
        | true => rfl
        | false => exact absurd (.inl rfl) hmore
      obtain ⟨hnext, hplace⟩ := hend rfl hok
      exact ⟨hnext, hplace.imp_right And.right⟩

theorem stays_eq_true {s : LegacyHashBackfill} : s.stays u id f = true ↔
    ∃ b, s.db.books.get id = some b ∧ b.userID = u ∧ b.filename = f := by
  rw [stays, Option.any_eq_true_iff_get]
  cases s.db.books.get id with
  | none => simp
  | some b => simp

/-- The next page has the book, unless it stops before it. -/
theorem page_tracks (hc : Coherent s.db) (hstays : s.stays u id f = true) {next : Bytes}
    (hnext : ∀ c ∈ place next, u ++ [nul] <+: c) (hplace : HasHash id s.db ∨ Ahead u id next) :
    (∀ c ∈ place (listBooksMissingHash s.db (some u) next legacyHashBatchSize).2, u ++ [nul] <+: c) ∧
      (HasHash id s.db ∨
        (∃ b ∈ (listBooksMissingHash s.db (some u) next legacyHashBatchSize).1, SnapshotOf u id f b) ∨
        (listBooksMissingHash s.db (some u) next legacyHashBatchSize).2 ≠ [] ∧
          Ahead u id (listBooksMissingHash s.db (some u) next legacyHashBatchSize).2) := by
  have hpage : Page Before (backlog s.db (some u)) (place next)
      (place (listBooksMissingHash s.db (some u) next legacyHashBatchSize).2) _ :=
    listBooksMissingHash_page (index_ne_none hc) hnext (by decide)
  refine ⟨fun c hcstop => (hpage.stops c hcstop).1.1, ?_⟩
  obtain ⟨b, hb, rfl, rfl⟩ := stays_eq_true.mp hstays
  obtain ⟨rfl, -⟩ := hc.keyed id b hb
  rcases hplace with hhash | hahead
  · exact .inl hhash
  · by_cases hnone : b.contentHash = []
    · have hbacklog : bookSearchIndexKey b.userID b.id ∈ backlog s.db (some b.userID) :=
        (mem_backlog hc).mpr ⟨List.prefix_append _ _, b, hb, hnone, rfl⟩
      by_cases hstop : ∃ c ∈ place (listBooksMissingHash s.db (some b.userID) next legacyHashBatchSize).2,
          Before c (bookSearchIndexKey b.userID b.id)
      · obtain ⟨c, hcstop, hbefore⟩ := hstop
        obtain ⟨hne, rfl⟩ := mem_place.mp hcstop
        refine .inr (.inr ⟨hne, fun c' hc' => ?_⟩)
        obtain ⟨-, rfl⟩ := mem_place.mp hc'
        exact hbefore
      · have hseen := hpage.sees _ hbacklog hahead fun c hcstop hbefore => hstop ⟨c, hcstop, hbefore⟩
        exact .inr (.inl ⟨b, hseen.2.mem hc hb hnone, rfl, rfl, rfl⟩)
    · exact .inl ⟨b, hb, hnone⟩

/-- A commit gives the book its hash, if one of the snapshots is of it. -/
theorem commit_hasHash (hc : Coherent s.db) (hstays : s.stays u id f = true) {hashes : List Book}
    {tx : Tx} (htx : backfillBookContentHashes hashes s.db = .ok tx) :
    (HasHash id s.db → HasHash id tx) ∧
      ((∃ b ∈ hashes, SnapshotOf u id f b ∧ b.contentHash ≠ []) → HasHash id tx) := by
  have hfilled := backfillBookContentHashes_backfilled hc htx
  have hstill {b : Book} (hb : s.db.books.get id = some b) : ∃ b', tx.books.get id = some b' := by
    rw [← Option.ne_none_iff_exists', Ne, hfilled.gone, hb]
    nofun
  constructor
  · rintro ⟨b, hb, hhash⟩
    obtain ⟨b', hb'⟩ := hstill hb
    refine ⟨b', hb', ?_⟩
    rcases hfilled.kept id b b' hb hb' with rfl | ⟨hnone, -⟩
    · exact hhash
    · exact absurd hnone hhash
  · rintro ⟨snapshot, hmem, ⟨rfl, rfl, rfl⟩, hhash⟩
    obtain ⟨b, hb, hu, hf⟩ := stays_eq_true.mp hstays
    obtain ⟨b', hb'⟩ := hstill hb
    refine ⟨b', hb', hfilled.fits snapshot hmem b b' hb hb' ⟨?_, hu.symm, hf.symm, hhash⟩⟩
    exact (hc.keyed _ b hb).1.symm

/-- Every step keeps track of the book. -/
theorem step_tracks {a : BackfillAction} (hhash : ∀ c, hash c ≠ []) (hc : Coherent s.db)
    (ha : s.Allowed a) (hstays : s.stays u id f = true) (hstays' : t.stays u id f = true)
    (hread : s.readable id a = true) (hcareful : s.careful id a = true)
    (hst : s.step hash a = some t) (htracks : s.Tracks u id f i) (hserved : s.Served u id i) :
    t.Tracks u id f i ∧ t.Served u id i := by
  cases a with
  | edit op =>
      cases hst
      have hkeeps : HasHash id s.db → HasHash id (op.run s.db) := by
        rintro ⟨b, hb, hne⟩
        obtain ⟨b', hb', -, -⟩ := stays_eq_true.mp hstays'
        rw [careful, Bool.not_eq_true'] at hcareful
        exact ⟨b', hb', Op.run_keepsHash hc ha hcareful hb hb' hne⟩
      exact ⟨htracks.mono rfl hkeeps, hserved.mono rfl hkeeps⟩
  | catchUp userID =>
      cases hst
      obtain ⟨phase, hi, hdone⟩ := hserved
      refine ⟨htracks.mono rfl fun hh => hh, phase, ?_, hdone⟩
      rw [List.getElem?_append_left (List.getElem?_eq_some_iff.mp hi).1]
      exact hi
  | look j =>
      obtain ⟨r, hj, hst⟩ := Option.bind_eq_some_iff.mp hst
      split at hst
      · cases hst
        refine ⟨htracks.mono rfl fun hh => hh, hserved.put hj rfl rfl ?_⟩
        rintro rfl hp
        obtain ⟨phase, hi, -⟩ := hserved
        rw [hj] at hi
        cases hi
        split at hp
        · next hempty =>
          -- without a backlog the book has its hash already
          obtain ⟨b, hb, rfl, -⟩ := stays_eq_true.mp hstays
          obtain ⟨rfl, -⟩ := hc.keyed id b hb
          exact ⟨b, hb, fun hnone => listBooksMissingHash_ne_nil hc hb hnone hempty⟩
        · rcases hp with hp | hp
          · cases hp
          · cases hp
      · cases hst
  | accept j =>
      obtain ⟨r, hj, hst⟩ := Option.bind_eq_some_iff.mp hst
      split at hst
      · cases hst
        refine ⟨fun _ => ⟨nofun, .inr nofun⟩, ?_⟩
        refine hserved.put hj rfl rfl ?_
        rintro - (hp | hp)
        · cases hp
        · cases hp
      · cases hst
  | receive j =>
      obtain ⟨r, hj, hst⟩ := Option.bind_eq_some_iff.mp hst
      split at hst
      · next ok hphase =>
        cases hst
        refine ⟨htracks.mono rfl fun hh => hh, hserved.put hj rfl rfl ?_⟩
        rintro rfl hp
        obtain ⟨phase, hi, hdone⟩ := hserved
        rw [hj] at hi
        cases hi
        rcases hp with hp | hp
        · cases hp
        · cases hp
          exact hdone (.inl hphase)
      · cases hst
  | giveUp j =>
      obtain ⟨r, hj, hst⟩ := Option.bind_eq_some_iff.mp hst
      have hput : (s.putPhase j r (.returned false)).Tracks u id f i ∧
          (s.putPhase j r (.returned false)).Served u id i := by
        refine ⟨htracks.mono rfl fun hh => hh, hserved.put hj rfl rfl ?_⟩
        rintro - (hp | hp)
        · cases hp
        · cases hp
      split at hst
      · split at hst
        · cases hst
          exact hput
        · cases hst
      · split at hst
        · cases hst
          exact hput
        · cases hst
      · cases hst
  | close =>
      cases hst
      exact ⟨htracks.mono rfl fun hh => hh, hserved.mono rfl fun hh => hh⟩
  | quit =>
      simp only [step] at hst
      split at hst
      · split at hst
        · cases hst
          exact ⟨trivial, hserved.mono rfl fun hh => hh⟩
        · cases hst
      · cases hst
  | tick =>
      simp only [step] at hst
      split at hst
      · cases hst
        exact ⟨trivial, hserved.mono rfl fun hh => hh⟩
      · cases hst
  | list =>
      simp only [step] at hst
      split at hst
      · next j next hphase =>
        split at hst
        · cases hst
          have hanswer : (s.answer j false).Served u id i := hserved.answer fun _ hf => by cases hf
          exact ⟨trivial, hanswer.mono rfl fun hh => hh⟩
        · obtain ⟨r, hj, rfl⟩ := Option.map_eq_some_iff.mp hst
          refine ⟨?_, hserved.mono rfl fun hh => hh⟩
          rintro rfl
          obtain ⟨phase, hi, -⟩ := hserved
          rw [hj] at hi
          cases hi
          rw [Tracks, hphase] at htracks
          obtain ⟨hnext, hplace⟩ := htracks rfl
          obtain ⟨hnext', hplace'⟩ := page_tracks hc hstays hnext hplace
          exact ⟨hnext', hplace'.imp_right fun hplace' => hplace'.imp_right .inr⟩
      · cases hst
  | hash content =>
      simp only [step] at hst
      split at hst
      · next client next book books hashes hphase =>
        split at hst
        · cases hst
          exact finish_tracks hserved fun _ hf => by cases hf
        · cases hst
          refine ⟨?_, hserved.mono rfl fun hh => hh⟩
          rw [Tracks, hphase] at htracks
          cases client with
          | none => trivial
          | some j =>
              intro he
              obtain ⟨hnext, hplace⟩ := htracks he
              refine ⟨hnext, ?_⟩
              rcases hplace with hdone | ⟨b, hb, hof⟩ | ⟨b, hb, hof⟩ | hahead
              · exact .inl hdone
              · rcases List.mem_cons.mp hb with rfl | hb
                · -- the file of the book can be read
                  cases content with
                  | none => simp [readable, hphase, hof.1] at hread
                  | some c =>
                      refine .inr (.inr (.inl ⟨{ b with contentHash := hash c }, ?_, hof, hhash c⟩))
                      simp
                · exact .inr (.inl ⟨b, hb, hof⟩)
              · exact .inr (.inr (.inl ⟨b, List.mem_append_left _ hb, hof⟩))
              · exact .inr (.inr (.inr hahead))
      · cases hst
  | commit ok =>
      simp only [step] at hst
      split at hst
      · next client next hashes hphase =>
        rw [Tracks, hphase] at htracks
        split at hst
        · next tx htx =>
          cases hst
          split at htx
          · obtain ⟨hkeeps, hgives⟩ := commit_hasHash hc hstays htx
            have hserved' : Served u id i { s with db := tx } := hserved.mono rfl hkeeps
            refine finish_tracks hserved' ?_
            rintro rfl -
            obtain ⟨hnext, hplace⟩ := htracks rfl
            refine ⟨hnext, ?_⟩
            rcases hplace with hdone | ⟨b, hb, -⟩ | hof | hahead
            · exact .inl (hkeeps hdone)
            · cases hb
            · exact .inl (hgives hof)
            · exact .inr hahead
          · cases htx
        · cases hst
          exact finish_tracks hserved fun _ hf => by cases hf
      · cases hst

/-! ## Runs -/

/-- The steps through which the book stays, with its owner and its file name. -/
def stepKeeping (hash : Bytes → Bytes) (u id f : Bytes) (s : LegacyHashBackfill)
    (a : BackfillAction) : Option LegacyHashBackfill :=
  (s.step hash a).filter (·.stays u id f)

/-- Where no save drops its hash, the book is tracked through the whole call. -/
theorem catchUp_tracks (hhash : ∀ c, hash c ≠ []) {s₀ : LegacyHashBackfill} (h₀ : s₀.Reached hash)
    (hi : s₀.requests[i]? = some ⟨u, .asking⟩) (hstays : s₀.stays u id f = true)
    (hrun : Reachable (· = s₀) (Steps (stepKeeping hash u id f) fun s a =>
      s.Allowed a ∧ s.readable id a = true ∧ s.careful id a = true) s) :
    s.Tracks u id f i ∧ s.Served u id i := by
  have hall : s.Reached hash ∧ s.stays u id f = true ∧ s.Tracks u id f i ∧ s.Served u id i := by
    refine hrun.invariant (fun s => s.Reached hash ∧ s.stays u id f = true ∧ s.Tracks u id f i ∧
      s.Served u id i) ?_ ?_
    · rintro s rfl
      refine ⟨h₀, hstays, ?_, .asking, hi, ?_⟩
      · have hnot (j : ℕ) (hj : client s.phase = some j) : j ≠ i := by
          rintro rfl
          obtain ⟨r, hr, hs⟩ := h₀.busy j hj
          rw [hi] at hr
          cases hr
          cases hs
        rw [Tracks]
        split
        · next j next hphase => exact fun he => absurd he (hnot j (by rw [hphase]; rfl))
        · next j next books hashes hphase => exact fun he => absurd he (hnot j (by rw [hphase]; rfl))
        · trivial
      · rintro (hp | hp)
        · cases hp
        · cases hp
    · rintro s t a ⟨hreached, hstays, htracks, hserved⟩ ⟨⟨ha, hread, hcareful⟩, hst⟩
      obtain ⟨hst, hstays'⟩ := Option.filter_eq_some_iff.mp hst
      exact ⟨hreached.next ⟨ha, hst⟩, hstays', step_tracks hhash hreached.db.coherent ha hstays hstays'
        hread hcareful hst htracks hserved⟩
  exact hall.2.2

/-- A commit fills in empty hashes only; paging ends, and lists each book that stays in the backlog
until it is reached; and a call of `catchUp` without an error leaves each book that stays, and whose
file can be read, with a hash, unless a save drops it again. -/
theorem legacy_backfill (hash : Bytes → Bytes) (hhash : ∀ c, hash c ≠ []) :
    (∀ s : LegacyHashBackfill, s.Reached hash → ∀ ok t, s.step hash (.commit ok) = some t → Coherent t.db ∧
      (t.db = s.db ∨ ∃ client next hashes, s.phase = .hashing client next [] hashes ∧
        Backfilled hashes s.db t.db)) ∧
    (∀ (dbs : ℕ → Tx) userID limit, (∀ n, Storage.Reached (dbs n)) → 0 < limit →
      (∀ all : Finset Bytes, (∀ n, ∀ k ∈ backlog (dbs n) userID, k ∈ all) →
        ∃ N ≤ all.card, missingCursor dbs userID limit (N + 1) = []) ∧
      ∀ N, (∀ n < N, missingCursor dbs userID limit (n + 1) ≠ []) →
        missingCursor dbs userID limit (N + 1) = [] → ∀ k ∈ backlog (dbs 0) userID,
          (∃ n ≤ N, k ∉ backlog (dbs n) userID ∧
            After Before (place (missingCursor dbs userID limit n)) k) ∨
          ∃ n ≤ N, ∃ b ∈ (listBooksMissingHash (dbs n) userID (missingCursor dbs userID limit n) limit).1,
            (dbs n).books.get b.id = some b ∧ b.contentHash = [] ∧
              k = bookSearchIndexKey b.userID b.id) ∧
    ∀ s₀ : LegacyHashBackfill, s₀.Reached hash → ∀ (i : ℕ) u id f,
      s₀.requests[i]? = some ⟨u, .asking⟩ → s₀.stays u id f = true →
      ∀ s, Reachable (· = s₀) (Steps (stepKeeping hash u id f) fun s a =>
        s.Allowed a ∧ s.readable id a = true ∧ s.careful id a = true) s →
      s.requests[i]? = some ⟨u, .returned true⟩ → HasHash id s.db := by
  refine ⟨?_, ?_, ?_⟩
  · intro s hs ok t hst
    have hnext : t.Reached hash := hs.next (a := .commit ok) ⟨trivial, hst⟩
    refine ⟨hnext.db.coherent, ?_⟩
    rcases step_db hst with hsame | ⟨op, hop, -⟩ | ⟨-, client, next, hashes, -, hphase, htx⟩
    · exact .inl hsame
    · cases hop
    · exact .inr ⟨client, next, hashes, hphase, backfillBookContentHashes_backfilled hs.db.coherent htx⟩
  · intro dbs userID limit hdbs hlimit
    exact missingCursor_visits (fun n => (hdbs n).coherent) hlimit
  · intro s₀ h₀ i u id f hi hstays s hrun hreturned
    obtain ⟨-, phase, hphase, hdone⟩ := catchUp_tracks hhash h₀ hi hstays hrun
    rw [hreturned] at hphase
    cases hphase
    exact hdone (.inr rfl)

/-! ## A library with one old book -/

instance (s : LegacyHashBackfill) (a : BackfillAction) : Decidable (s.Allowed a) := by
  cases a with
  | edit op =>
      unfold Allowed Op.Admissible
      cases op <;> infer_instance
  | _ => exact .isTrue trivial

/-- The user's only book has no hash, and an upload of the user asks for it. -/
def old : LegacyHashBackfill :=
  ⟨(Op.createBook sampleBook).run .migrated, false, [⟨ascii "u", .asking⟩], [], .selecting⟩

theorem old_reached (hash : Bytes → Bytes) : old.Reached hash := by
  have hcreated : Storage.Reached ((Op.createBook sampleBook).run .migrated) := by
    refine Storage.Reached.run (.start rfl) (.createBook sampleBook) ⟨by decide, ?_⟩
    simp [Tx.migrated]
  refine Reachable.next (a := .catchUp (ascii "u"))
    (.start (s := ⟨(Op.createBook sampleBook).run .migrated, false, [], [], .selecting⟩) ?_)
    ⟨trivial, rfl⟩
  exact ⟨hcreated, rfl, rfl, rfl, rfl⟩

/-- The digest of an empty file, the only one here. -/
def digestEmpty (_ : Bytes) : Bytes :=
  ascii "e3b0c44298fc1c149afbf4c8996fb92427ae41e4649b934ca495991b7852b855"

/-- The worker gives the book its hash. -/
theorem legacy_backfill_old : ∃ s : LegacyHashBackfill,
    Reachable (· = old) (Steps (stepKeeping digestEmpty (ascii "u") (ascii "b") (ascii "b"))
      fun s a => s.Allowed a ∧ s.readable (ascii "b") a = true ∧ s.careful (ascii "b") a = true) s ∧
    s.requests = [⟨ascii "u", .returned true⟩] ∧ HasHash (ascii "b") s.db := by
  have hrun : (replay (stepKeeping digestEmpty (ascii "u") (ascii "b") (ascii "b"))
      (fun s a => s.Allowed a ∧ s.readable (ascii "b") a = true ∧ s.careful (ascii "b") a = true) old
      [.look 0, .accept 0, .list, .hash (some []), .commit true, .receive 0]).any
      (fun s => s.requests = [⟨ascii "u", .returned true⟩]) = true := by decide +kernel
  obtain ⟨s, hs, hrequests⟩ := (Option.any_eq_true _ _).mp hrun
  rw [decide_eq_true_eq] at hrequests
  have hreach : Reachable (· = old) _ s := replay_reachable _ _ (.start rfl) hs
  have hdigest : ∀ c, digestEmpty c ≠ [] := by
    have htext : digestEmpty [] ≠ [] := by decide
    exact fun _ => htext
  exact ⟨s, hreach, hrequests, (legacy_backfill digestEmpty hdigest).2.2 old (old_reached _) 0
    (ascii "u") (ascii "b") (ascii "b") rfl (by decide +kernel) s hreach (by rw [hrequests]; rfl)⟩

/-- An edit that read the book before the commit saves it after the commit. -/
theorem legacy_backfill_dropped : ∃ s : LegacyHashBackfill,
    Reachable (· = old) (Steps (stepKeeping digestEmpty (ascii "u") (ascii "b") (ascii "b"))
      fun s a => s.Allowed a ∧ s.readable (ascii "b") a = true) s ∧
    s.requests = [⟨ascii "u", .returned true⟩] ∧
    ∃ b, s.db.books.get (ascii "b") = some b ∧ b.contentHash = [] := by
  have hrun : (replay (stepKeeping digestEmpty (ascii "u") (ascii "b") (ascii "b"))
      (fun s a => s.Allowed a ∧ s.readable (ascii "b") a = true) old
      [.look 0, .accept 0, .list, .hash (some []), .commit true, .edit (.saveBook sampleBook),
        .receive 0]).any
      (fun s => s.requests = [⟨ascii "u", .returned true⟩] ∧
        (s.db.books.get (ascii "b")).any (·.contentHash = []) = true) = true := by decide +kernel
  obtain ⟨s, hs, hend⟩ := (Option.any_eq_true _ _).mp hrun
  rw [decide_eq_true_eq] at hend
  obtain ⟨b, hb, hnone⟩ := (Option.any_eq_true _ _).mp hend.2
  exact ⟨s, replay_reachable _ _ (.start rfl) hs, hend.1, b, hb, of_decide_eq_true hnone⟩

end LegacyHashBackfill

end ZReader.Handlers.LegacyHashes
