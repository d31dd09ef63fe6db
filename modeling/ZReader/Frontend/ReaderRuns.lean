import ZReader.Frontend.Reader

namespace ZReader.Frontend

open Lib.Utf8 Lib.Transition Storage Handlers

namespace Call

/-- The request is about the progress of the book. -/
def Concerns (id : Bytes) : Call → Prop
  | .save _ _ _ | .latest _ => True
  | .sync run _ => run.id = id

instance (id : Bytes) : (c : Call) → Decidable (c.Concerns id)
  | .save _ _ _ | .latest _ => isTrue trivial
  | .sync run _ => inferInstanceAs (Decidable (run.id = id))

def isSave : Call → Bool
  | .save _ _ _ => true
  | _ => false

/-- The server has yet to process a sync of the book. -/
def changes (id : Bytes) : Call → Bool
  | .sync run none => run.id = id
  | _ => false

/-- The books that the run of a request has still to visit. -/
def rest : Call → List Bytes
  | .sync run _ => run.rest
  | _ => []

/-- At most one of the two is about the book. -/
def Apart (id : Bytes) (c d : Call) : Prop := ¬ (c.Concerns id ∧ d.Concerns id)

theorem Apart.symm {id : Bytes} {c d : Call} (h : Apart id c d) : Apart id d c :=
  fun ⟨hd, hc⟩ => h ⟨hc, hd⟩

end Call

namespace Reader

/-- No request about the book is in flight. -/
def Quiet (id : Bytes) (calls : List Call) : Prop := ∀ c ∈ calls, ¬ c.Concerns id

instance (id : Bytes) (calls : List Call) : Decidable (Quiet id calls) :=
  inferInstanceAs (Decidable (∀ c ∈ calls, ¬ c.Concerns id))

/-- The server has not processed the load of the page, or it has been answered. -/
def LoadAhead (s : Reader) : Prop := ∀ reply ∈ s.loading, reply = none

instance (s : Reader) : Decidable s.LoadAhead :=
  decidable_of_iff (s.loading.all Option.isNone = true) (by
    rw [LoadAhead]
    cases s.loading <;> simp [Option.isNone_iff_eq_none])

/-- The uses of the page that its bookkeeping can follow: positions are recorded while no save
and no load is in flight, the last position is the one that is saved, requests about the book do
not overlap, but for a sync that the server processes before the load, and after a lost save, or
on a backup from before, no save reaches the server. -/
def Orderly (page : Page) (s : Reader) : Action → Prop
  | .updateProgress _ _ => s.loading.isNone ∧ ∀ c ∈ s.calls, c.isSave = false
  | .debounced => ∀ data ∈ s.timer, s.skips data false = false →
      data.serial = s.recorded ∧ s.loading.isNone ∧ Quiet page.bookID s.calls
  | .hidden | .saveNow => s.pending.isSome → s.loading.isNone ∧ Quiet page.bookID s.calls
  | .syncOfflineProgressQueue =>
      page.bookID ∈ s.store.queue.getD [] → s.LoadAhead ∧ Quiet page.bookID s.calls
  | .process i _ => ∀ c ∈ s.calls[i]?, c.isSave → s.lost = false
  | .answer i => ∀ c ∈ s.calls[i]?, page.bookID ∈ c.rest →
      s.LoadAhead ∧ Quiet page.bookID (s.calls.eraseIdx i)
  | .processLoad => ∀ c ∈ s.calls, c.changes page.bookID = false
  | .interval | .lose _ _ | .loseLoad | .answerLoad => True

instance (page : Page) (s : Reader) : (a : Action) → Decidable (s.Orderly page a)
  | .updateProgress _ _ => inferInstanceAs (Decidable (_ ∧ ∀ c ∈ s.calls, c.isSave = false))
  | .debounced => inferInstanceAs (Decidable (∀ data ∈ s.timer, s.skips data false = false →
      data.serial = s.recorded ∧ s.loading.isNone ∧ Quiet page.bookID s.calls))
  | .hidden | .saveNow =>
      inferInstanceAs (Decidable (s.pending.isSome → s.loading.isNone ∧ Quiet page.bookID s.calls))
  | .syncOfflineProgressQueue => inferInstanceAs (Decidable
      (page.bookID ∈ s.store.queue.getD [] → s.LoadAhead ∧ Quiet page.bookID s.calls))
  | .process i _ => inferInstanceAs (Decidable (∀ c ∈ s.calls[i]?, c.isSave → s.lost = false))
  | .answer i => inferInstanceAs (Decidable (∀ c ∈ s.calls[i]?, page.bookID ∈ c.rest →
      s.LoadAhead ∧ Quiet page.bookID (s.calls.eraseIdx i)))
  | .processLoad => inferInstanceAs (Decidable (∀ c ∈ s.calls, c.changes page.bookID = false))
  | .interval | .lose _ _ | .loseLoad | .answerLoad => isTrue trivial

/-- The page has just been opened. A backup of the book comes from before. -/
def Started (page : Page) (s : Reader) : Prop :=
  ∃ store db, Reached db ∧ (∀ cached ∈ store.snapshots page.bookID, cached.serial = 0) ∧
    s = opened page store db

/-- No position is replaced by one that was recorded before it, on the server or in the
state of the page. -/
def NotReplaced (s s' : Reader) : Prop :=
  s.stored ≤ s'.stored ∧
    (∀ p ∈ s.progress, ∀ p' ∈ s'.progress, p.serial ≤ p'.serial) ∧
    ∀ x ∈ s.lastSaved, ∀ x' ∈ s'.lastSaved, x.position.serial ≤ x'.position.serial

instance (s s' : Reader) : Decidable (NotReplaced s s') :=
  inferInstanceAs (Decidable (s.stored ≤ s'.stored ∧
    (∀ p ∈ s.progress, ∀ p' ∈ s'.progress, p.serial ≤ p'.serial) ∧
    ∀ x ∈ s.lastSaved, ∀ x' ∈ s'.lastSaved, x.position.serial ≤ x'.position.serial))

/-! ## The invariant -/

/-- The record of the book on the server. -/
def record (page : Page) (s : Reader) : Option Progress :=
  s.db.progress.get (progressKey page.userID page.bookID)

/-- The server's record of the book has the time `t`. -/
def Current (page : Page) (s : Reader) (t : Time) : Prop :=
  ∃ p, s.record page = some p ∧ p.updatedAt = t

/-- What a request in flight says about the state. -/
def Good (page : Page) (s : Reader) : Call → Prop
  | .save data expected none =>
      data.serial = s.recorded ∧ (s.lost = false → ∀ t ∈ expected, s.Current page t)
  | .save data _ (some (.saved p)) => data.serial = s.recorded ∧ s.record page = some p
  | .save _ _ (some (.status code)) => code ≠ 409
  | .latest _ => False
  | .sync run _ => run.id = page.bookID → s.store.snapshots page.bookID = some run.cached

/-- The page knows the version on the server, or is about to be told. -/
def Informed (page : Page) (s : Reader) : Prop :=
  (∀ x ∈ s.lastSaved, s.Current page x.updatedAt) ∨
    ∃ data e p, Call.save data e (some (.saved p)) ∈ s.calls

/-- What the load in flight says about the state: nothing has been recorded, and a position on
its way to the page is the one on the server, which no sync is about to change. -/
structure Loading (page : Page) (s : Reader) (reply : Option LoadReply) : Prop where
  recorded : s.recorded = 0
  saves : ∀ c ∈ s.calls, c.isSave = false
  latest : ∀ latest, reply = some (.loaded latest) → latest = (s.record page).map (·, s.stored)
  syncs : reply ≠ none → ∀ c ∈ s.calls, c.changes page.bookID = false

structure Sound (page : Page) (s : Reader) : Prop where
  reached : Reached s.db
  calm : s.conflicted = false
  good : ∀ c ∈ s.calls, s.Good page c
  apart : s.calls.Pairwise (Call.Apart page.bookID)
  shown : ∀ p ∈ s.progress, p.serial = s.recorded
  saved : ∀ x ∈ s.lastSaved, x.position.serial ≤ s.recorded
  pending : ∀ p ∈ s.pending, p.serial = s.recorded
  stored : s.stored ≤ s.recorded
  backup : ∀ x ∈ s.store.snapshots page.bookID,
    s.stored ≤ x.serial ∧ x.serial ≤ s.recorded ∧ s.lost = true
  informed : s.lost = false → s.Informed page
  loading : ∀ reply ∈ s.loading, s.Loading page reply

/-- How the marks of a state move in a step. -/
structure Advances (s s' : Reader) : Prop where
  recorded : s.recorded ≤ s'.recorded
  stored : s.stored ≤ s'.stored
  saved : s'.lastSaved = s.lastSaved ∨ ∀ x ∈ s'.lastSaved, x.position.serial = s'.recorded

theorem Advances.ofDropped {s s' : Reader} {calls : List Call}
    (h : Advances { s with calls := calls } s') : Advances s s' :=
  ⟨h.recorded, h.stored, h.saved⟩

theorem Advances.notReplaced {page : Page} {s s' : Reader} (hs : s.Sound page)
    (hs' : s'.Sound page) (h : Advances s s') : NotReplaced s s' := by
  refine ⟨h.stored, ?_, ?_⟩
  · intro p hp p' hp'
    rw [hs.shown p hp, hs'.shown p' hp']
    exact h.recorded
  · intro x hx x' hx'
    rcases h.saved with hsame | hnew
    · rw [hsame, hx] at hx'
      cases hx'
      exact le_rfl
    · rw [hnew x' hx']
      exact (hs.saved x hx).trans h.recorded

/-- A step that changes neither the positions nor the record, and adds only requests that are no
danger to the load. -/
theorem Loading.mono {page : Page} {s s' : Reader} {reply : Option LoadReply} (h : s.Loading page reply)
    (hrecorded : s'.recorded = s.recorded) (hrecord : s'.record page = s.record page)
    (hstored : s'.stored = s.stored)
    (hcalls : ∀ c ∈ s'.calls, c ∈ s.calls ∨
      c.isSave = false ∧ (reply ≠ none → c.changes page.bookID = false)) : s'.Loading page reply := by
  refine ⟨hrecorded.trans h.recorded, fun c hc => ?_, fun latest hlatest => ?_, fun hreply c hc => ?_⟩
  · exact (hcalls c hc).elim (h.saves c) And.left
  · rw [hrecord, hstored]
    exact h.latest latest hlatest
  · exact (hcalls c hc).elim (h.syncs hreply c) fun hnew => hnew.2 hreply

theorem Loading.dropped {page : Page} {s : Reader} {reply : Option LoadReply} (h : s.Loading page reply)
    {s' : Reader} (hrecorded : s'.recorded = s.recorded) (hrecord : s'.record page = s.record page)
    (hstored : s'.stored = s.stored) (hcalls : ∀ c ∈ s'.calls, c ∈ s.calls) : s'.Loading page reply :=
  h.mono hrecorded hrecord hstored fun c hc => .inl (hcalls c hc)

/-- There is no load next to a save. -/
theorem Sound.loaded_of_save {page : Page} {s : Reader} (h : s.Sound page) {c : Call} (hc : c ∈ s.calls)
    (hsave : c.isSave = true) : s.loading = none := by
  refine Option.eq_none_iff_forall_not_mem.mpr fun reply hreply => ?_
  have hnone := (h.loading reply hreply).saves c hc
  rw [hsave] at hnone
  cases hnone

theorem good_of_not_concerns {page : Page} {s : Reader} {c : Call}
    (h : ¬ c.Concerns page.bookID) : s.Good page c := by
  cases c with
  | save data e reply => exact absurd trivial h
  | latest reply => exact absurd trivial h
  | sync run reply => exact fun hid => absurd hid h

theorem Quiet.good {page : Page} {s : Reader} {calls : List Call}
    (h : Quiet page.bookID calls) : ∀ c ∈ calls, s.Good page c :=
  fun c hc => good_of_not_concerns (h c hc)

theorem Quiet.apart {id : Bytes} {calls : List Call} (h : Quiet id calls) {c : Call}
    {l : List Call} (hl : l = calls ++ [c]) (hp : calls.Pairwise (Call.Apart id)) :
    l.Pairwise (Call.Apart id) := by
  rw [hl, List.pairwise_append]
  refine ⟨hp, List.pairwise_singleton _ _, ?_⟩
  intro d hd _ _ hboth
  exact h d hd hboth.1

theorem Started.sound {page : Page} {s : Reader} (h : s.Started page) : s.Sound page := by
  obtain ⟨store, db, hdb, hzero, rfl⟩ := h
  have hshown : ∀ x ∈ readOfflineProgressSnapshot store page.bookID,
      x.position.serial = 0 ∧ (store.snapshots page.bookID).isSome = true := by
    intro x hx
    obtain ⟨hx, -⟩ := Option.filter_eq_some_iff.mp hx
    obtain ⟨cached, hcached, rfl⟩ := Option.map_eq_some_iff.mp hx
    exact ⟨hzero cached hcached, Option.isSome_of_mem hcached⟩
  refine ⟨hdb, rfl, by simp [opened], by simp [opened], fun p hp => ?_, fun x hx => ?_, by simp [opened],
    le_rfl, fun x hx => ?_, fun hlost => .inl fun x hx => ?_, fun reply hreply => ?_⟩
  · obtain ⟨x, hx, rfl⟩ := Option.map_eq_some_iff.mp hp
    exact (hshown x hx).1
  · exact (hshown x hx).1.le
  · exact ⟨Nat.zero_le _, (hzero x hx).le, Option.isSome_of_mem hx⟩
  · have hsome := (hshown x hx).2
    have hlost : (store.snapshots page.bookID).isSome = false := hlost
    rw [hlost] at hsome
    cases hsome
  · cases hreply
    exact ⟨rfl, by simp [opened], by simp, by simp⟩

/-! ## Changes that no request notices -/

theorem Sound.withStore {page : Page} {s : Reader} (h : s.Sound page) {store : LocalStorage}
    (hsame : store.snapshots page.bookID = s.store.snapshots page.bookID) :
    Sound page { s with store := store } := by
  refine ⟨h.reached, h.calm, ?_, h.apart, h.shown, h.saved, h.pending, h.stored, ?_, h.informed,
    fun reply hreply => (h.loading reply hreply).dropped rfl rfl rfl fun _ => id⟩
  · intro c hc
    have hgood := h.good c hc
    cases c with
    | sync run reply => exact fun hid => hsame.trans (hgood hid)
    | latest reply => exact hgood
    | save data e reply => rcases reply with - | ⟨p⟩ | ⟨code⟩ <;> exact hgood
  · intro x hx
    exact h.backup x (hsame ▸ hx)

theorem Sound.withDb {page : Page} {s : Reader} (h : s.Sound page) {db : Tx} (hdb : Reached db)
    (hsame : db.progress.get (progressKey page.userID page.bookID) = s.record page) :
    Sound page { s with db := db } := by
  refine ⟨hdb, h.calm, ?_, h.apart, h.shown, h.saved, h.pending, h.stored, h.backup, ?_,
    fun reply hreply => (h.loading reply hreply).dropped rfl hsame rfl fun _ => id⟩
  · intro c hc
    have hgood := h.good c hc
    cases c with
    | sync run reply => exact hgood
    | latest reply => exact hgood
    | save data e reply =>
        cases reply with
        | none =>
            refine ⟨hgood.1, fun hlost t ht => ?_⟩
            obtain ⟨p, hp, htime⟩ := hgood.2 hlost t ht
            exact ⟨p, hsame.trans hp, htime⟩
        | some r =>
            cases r with
            | saved p => exact ⟨hgood.1, hsame.trans hgood.2⟩
            | status code => exact hgood
  · intro hlost
    rcases h.informed hlost with hcurrent | hsaved
    · left
      intro x hx
      obtain ⟨p, hp, htime⟩ := hcurrent x hx
      exact ⟨p, hsame.trans hp, htime⟩
    · exact Or.inr hsaved

theorem Sound.withSaving {page : Page} {s : Reader} (h : s.Sound page) (saving : Bool) :
    Sound page { s with saving := saving } :=
  ⟨h.reached, h.calm, h.good, h.apart, h.shown, h.saved, h.pending, h.stored, h.backup, h.informed,
    fun reply hreply => (h.loading reply hreply).dropped rfl rfl rfl fun _ => id⟩

theorem Sound.withTimer {page : Page} {s : Reader} (h : s.Sound page) (timer : Option Position) :
    Sound page { s with timer := timer } :=
  ⟨h.reached, h.calm, h.good, h.apart, h.shown, h.saved, h.pending, h.stored, h.backup, h.informed,
    fun reply hreply => (h.loading reply hreply).dropped rfl rfl rfl fun _ => id⟩

/-- One more request in flight. -/
theorem Sound.push {page : Page} {s : Reader} (h : s.Sound page) {c : Call}
    (hquiet : c.Concerns page.bookID → Quiet page.bookID s.calls) (hgood : s.Good page c)
    (hload : ∀ reply ∈ s.loading, c.isSave = false ∧ (reply ≠ none → c.changes page.bookID = false)) :
    Sound page { s with calls := s.calls ++ [c] } := by
  refine ⟨h.reached, h.calm, ?_, ?_, h.shown, h.saved, h.pending, h.stored, h.backup, ?_,
    fun reply hreply => (h.loading reply hreply).mono rfl rfl rfl fun d hd => ?_⟩
  · intro d hd
    rcases List.mem_append.mp hd with hd | hd
    · exact h.good d hd
    · rw [List.mem_singleton.mp hd]
      exact hgood
  · rw [List.pairwise_append]
    refine ⟨h.apart, List.pairwise_singleton _ _, ?_⟩
    intro d hd d' hd' hboth
    rw [List.mem_singleton.mp hd'] at hboth
    exact hquiet hboth.2 d hd hboth.1
  · intro hlost
    rcases h.informed hlost with hcurrent | ⟨data, e, p, hsaved⟩
    · exact Or.inl hcurrent
    · exact Or.inr ⟨data, e, p, List.mem_append_left _ hsaved⟩
  · rcases List.mem_append.mp hd with hd | hd
    · exact .inl hd
    · rw [List.mem_singleton.mp hd]
      exact .inr (hload reply hreply)

/-! ## Steps of the page -/

theorem Sound.updateProgress {page : Page} {s : Reader} (h : s.Sound page)
    (hloaded : s.loading = none) (hok : ∀ c ∈ s.calls, c.isSave = false) (cfi : Bytes) (percentage : ℚ) :
    Sound page (s.updateProgress cfi percentage) := by
  refine ⟨h.reached, h.calm, ?_, h.apart, by simp [Reader.updateProgress], ?_,
    by simp [Reader.updateProgress], Nat.le_succ_of_le h.stored, ?_, h.informed,
    by simp [Reader.updateProgress, hloaded]⟩
  · intro c hc
    have hgood := h.good c hc
    cases c with
    | sync run reply => exact hgood
    | latest reply => exact hgood
    | save data e reply => exact absurd (hok _ hc) (by simp [Call.isSave])
  · intro x hx
    exact Nat.le_succ_of_le (h.saved x hx)
  · intro x hx
    obtain ⟨hle, hbound, hlost⟩ := h.backup x hx
    exact ⟨hle, Nat.le_succ_of_le hbound, hlost⟩

theorem Sound.saveProgress {page : Page} {s : Reader} (h : s.Sound page) {data : Position}
    {force : Bool}
    (hok : s.skips data force = false →
      data.serial = s.recorded ∧ s.loading.isNone ∧ Quiet page.bookID s.calls) :
    Sound page (s.saveProgress data force) := by
  rw [Reader.saveProgress]
  split
  · exact h
  · next hskips =>
    obtain ⟨hdata, hloaded, hquiet⟩ := hok (by simpa using hskips)
    have hcurrent : s.lost = false → ∀ x ∈ s.lastSaved, s.Current page x.updatedAt := by
      intro hlost
      rcases h.informed hlost with hcurrent | ⟨d, e, p, hmem⟩
      · exact hcurrent
      · exact absurd trivial (hquiet _ hmem)
    have hgood : s.Good page (.save data (s.lastSaved.map (·.updatedAt)) none) := by
      refine ⟨hdata, fun hlost t ht => ?_⟩
      obtain ⟨x, hx, rfl⟩ := Option.map_eq_some_iff.mp ht
      exact hcurrent hlost x hx
    exact (h.push (fun _ => hquiet) hgood (by simp [Option.isNone_iff_eq_none.mp hloaded])).withSaving true

theorem Sound.savePending {page : Page} {s : Reader} (h : s.Sound page)
    (hok : s.pending.isSome → s.loading.isNone ∧ Quiet page.bookID s.calls) : Sound page s.savePending := by
  rw [Reader.savePending]
  split
  · exact h
  · next data hdata =>
    exact h.saveProgress (fun _ => ⟨h.pending data hdata, hok (by simp [hdata])⟩)

/-- A run goes on to its next request. -/
theorem Sound.visit {page : Page} {s : Reader} (h : s.Sound page) {rest nextQueue : List Bytes}
    (hok : page.bookID ∈ rest → s.LoadAhead ∧ Quiet page.bookID s.calls) :
    Sound page { s with
      store := (advance s.store page.userID rest nextQueue).2
      calls := s.calls ++
        (advance s.store page.userID rest nextQueue).1.toList.map (.sync · none) } := by
  rcases advance_cases s.store page.userID rest nextQueue with
    ⟨run, hrun, hmem, hcached⟩ | ⟨queue, hend⟩
  · rw [hrun]
    have hgood : s.Good page (.sync run none) := fun hid => hid ▸ hcached
    refine h.push (fun hid => (hok (hid ▸ hmem)).2) hgood fun reply hreply => ⟨rfl, fun hne => ?_⟩
    exact decide_eq_false fun hid => hne ((hok (hid ▸ hmem)).1 reply hreply)
  · rw [hend]
    have hcalls : s.calls ++ (none : Option SyncRun).toList.map (Call.sync · none) = s.calls := by simp
    simp only [hcalls]
    exact h.withStore rfl

theorem Sound.startSync {page : Page} {s : Reader} (h : s.Sound page)
    (hok : page.bookID ∈ s.store.queue.getD [] → s.LoadAhead ∧ Quiet page.bookID s.calls) :
    Sound page (s.startSync page) := by
  rw [Reader.startSync]
  split
  · exact h
  · exact h
  · next queue _ hqueue =>
    rw [hqueue] at hok
    exact h.visit hok

/-! ## Steps of a request -/

theorem perm_eraseIdx {calls : List Call} {i : Nat} {c : Call} (hi : calls[i]? = some c) :
    (c :: calls.eraseIdx i).Perm calls := by
  obtain ⟨hlt, rfl⟩ := List.getElem?_eq_some_iff.mp hi
  exact List.getElem_cons_eraseIdx_perm hlt

/-- A request about the book is the only one. -/
theorem Sound.quiet {page : Page} {s : Reader} (h : s.Sound page) {i : Nat} {c : Call}
    (hi : s.calls[i]? = some c) (hc : c.Concerns page.bookID) :
    Quiet page.bookID (s.calls.eraseIdx i) := by
  have hpair : (c :: s.calls.eraseIdx i).Pairwise (Call.Apart page.bookID) :=
    h.apart.perm (perm_eraseIdx hi).symm Call.Apart.symm
  intro d hd hboth
  exact (List.pairwise_cons.mp hpair).1 d hd ⟨hc, hboth⟩

/-- Without a request that brings no news, the state is still sound. -/
theorem Sound.drop {page : Page} {s : Reader} (h : s.Sound page) {i : Nat} {c : Call}
    (hi : s.calls[i]? = some c) (hnews : ∀ data e p, c ≠ .save data e (some (.saved p))) :
    Sound page { s with calls := s.calls.eraseIdx i } := by
  refine ⟨h.reached, h.calm, fun d hd => h.good d (List.mem_of_mem_eraseIdx hd),
    h.apart.sublist (s.calls.eraseIdx_sublist i), h.shown, h.saved, h.pending, h.stored, h.backup, ?_,
    fun reply hreply => (h.loading reply hreply).dropped rfl rfl rfl fun _ => List.mem_of_mem_eraseIdx⟩
  intro hlost
  rcases h.informed hlost with hcurrent | ⟨data, e, p, hmem⟩
  · exact Or.inl hcurrent
  · rcases List.mem_cons.mp ((perm_eraseIdx hi).mem_iff.mpr hmem) with hc | hmem
    · exact absurd hc.symm (hnews data e p)
    · exact Or.inr ⟨data, e, p, hmem⟩

theorem commit_cases {page : Page} {s : Reader} (h : Reached s.db) (id : Bytes) (serial : Nat)
    (req : ProgressRequest) (now : Time) :
    (∃ db p, s.commit page id serial req now =
        ({ s with db := db, stored := if id = page.bookID then serial else s.stored }, .saved p) ∧
        Reached db ∧ ∀ k, db.progress.get k =
          if progressKey page.userID id = k then some p else s.db.progress.get k) ∨
      ∃ code, s.commit page id serial req now =
          ({ s with conflicted := s.conflicted || code = 409 }, .status code) ∧
        (code = 409 →
          stale req.expectedUpdatedAt (s.db.progress.get (progressKey page.userID id)) = true) := by
  have hreached : Reached (Handlers.saveProgress id page.userID req now s.db).1 :=
    saveProgress_reached h page.signedIn
  have hsaves : Saves id page.userID req now s.db
      (Handlers.saveProgress id page.userID req now s.db) := saveProgress_saves h page.signedIn
  rw [commit]
  generalize Handlers.saveProgress id page.userID req now s.db = r at hreached hsaves
  cases hsaves with
  | saved _ _ hstored => exact Or.inl ⟨_, _, rfl, hreached, hstored⟩
  | refused hconflict => exact Or.inr ⟨_, rfl, hconflict⟩

theorem stale_of_current {page : Page} {s : Reader} {e : Option Time}
    (h : ∀ t ∈ e, s.Current page t) : stale e (s.record page) = false := by
  cases e with
  | none => rfl
  | some t =>
      obtain ⟨p, hp, htime⟩ := h t rfl
      exact stale_some.mpr ⟨p, hp, htime⟩

/-- A refused request leaves the state as it is, but for its reply. -/
theorem Sound.refused {page : Page} {s : Reader} (h : s.Sound page) {c : Call}
    (hquiet : c.Concerns page.bookID → Quiet page.bookID s.calls) (hgood : s.Good page c)
    (hload : ∀ reply ∈ s.loading, c.isSave = false ∧ (reply ≠ none → c.changes page.bookID = false))
    {code : Nat} (hcode : code ≠ 409) :
    Sound page { s with conflicted := s.conflicted || code = 409, calls := s.calls ++ [c] } := by
  have hsame : (s.conflicted || decide (code = 409)) = s.conflicted := by simp [hcode]
  rw [hsame]
  exact h.push hquiet hgood hload

theorem Sound.process_save {page : Page} {s s' : Reader} (h : s.Sound page)
    (hquiet : Quiet page.bookID s.calls) (hloaded : s.loading = none) {data : Position} {e : Option Time}
    (hgood : s.Good page (.save data e none)) (hlost : s.lost = false) {now : Time}
    (hs' : s.process page now (.save data e none) = some s') : s'.Sound page ∧ Advances s s' := by
  obtain ⟨hserial, hexpected⟩ := hgood
  rcases @commit_cases page _ h.reached page.bookID data.serial
    ⟨data.cfi, data.percentage, page.deviceID, e⟩ now with
    ⟨db, p, hcommit, hreached, hstored⟩ | ⟨code, hcommit, hconflict⟩
  · simp only [process, hcommit, if_true, Option.some.injEq] at hs'
    subst hs'
    have hrecord : db.progress.get (progressKey page.userID page.bookID) = some p := by
      rw [hstored, if_pos rfl]
    refine ⟨⟨hreached, h.calm, ?_, hquiet.apart rfl h.apart, h.shown, h.saved, h.pending, hserial.le,
      ?_, fun _ => Or.inr ⟨data, e, p, by simp⟩, by simp [hloaded]⟩, le_rfl, hserial ▸ h.stored, Or.inl rfl⟩
    · intro c hc
      rcases List.mem_append.mp hc with hc | hc
      · exact hquiet.good c hc
      · rw [List.mem_singleton.mp hc]
        exact ⟨hserial, hrecord⟩
    · intro x hx
      have hx := (h.backup x hx).2.2
      rw [hlost] at hx
      cases hx
  · have hcode : code ≠ 409 := by
      intro hcode
      have hstale := hconflict hcode
      rw [show s.db.progress.get _ = s.record page from rfl, stale_of_current (hexpected hlost)] at hstale
      cases hstale
    simp only [process, hcommit, Option.some.injEq] at hs'
    subst hs'
    exact ⟨h.refused (c := .save data e (some (.status code))) (fun _ => hquiet) hcode
        (by simp [hloaded]) hcode,
      le_rfl, le_rfl, Or.inl rfl⟩

theorem Sound.process_sync {page : Page} {s s' : Reader} (h : s.Sound page) {run : SyncRun}
    (hquiet : run.id = page.bookID → Quiet page.bookID s.calls)
    (hahead : run.id = page.bookID → s.LoadAhead) (hgood : s.Good page (.sync run none)) {now : Time}
    (hs' : s.process page now (.sync run none) = some s') : s'.Sound page ∧ Advances s s' := by
  rcases @commit_cases page _ h.reached run.id run.cached.serial
    ⟨run.cached.cfi, run.cached.percentage, run.cached.deviceID, none⟩ now with
    ⟨db, p, hcommit, hreached, hstored⟩ | ⟨code, hcommit, hconflict⟩
  · simp only [process, hcommit, Option.some.injEq] at hs'
    subst hs'
    by_cases hid : run.id = page.bookID
    · obtain ⟨hle, hbound, hlost⟩ := h.backup _ (hgood hid)
      simp only [if_pos hid]
      refine ⟨⟨hreached, h.calm, ?_, (hquiet hid).apart rfl h.apart, h.shown, h.saved, h.pending,
        hbound, ?_, ?_, fun reply hreply => ?_⟩, le_rfl, hle, Or.inl rfl⟩
      · intro c hc
        rcases List.mem_append.mp hc with hc | hc
        · exact (hquiet hid).good c hc
        · rw [List.mem_singleton.mp hc]
          exact hgood
      · intro x hx
        rw [hgood hid] at hx
        cases hx
        exact ⟨le_rfl, hbound, hlost⟩
      · intro hkept
        rw [hlost] at hkept
        cases hkept
      · obtain rfl := hahead hid reply hreply
        have hloading := h.loading none hreply
        refine ⟨hloading.recorded, fun c hc => ?_, by simp, by simp⟩
        rcases List.mem_append.mp hc with hc | hc
        · exact hloading.saves c hc
        · rw [List.mem_singleton.mp hc]
          rfl
    · have hother : db.progress.get (progressKey page.userID page.bookID) = s.record page := by
        rw [hstored, if_neg]
        · rfl
        · intro hkey
          exact hid (List.append_cancel_left hkey)
      simp only [if_neg hid]
      exact ⟨(h.withDb hreached hother).push hquiet hgood fun _ _ => ⟨rfl, fun _ => rfl⟩, le_rfl, le_rfl,
        Or.inl rfl⟩
  · have hcode : code ≠ 409 := by
      intro hcode
      have hstale := hconflict hcode
      cases hstale
    simp only [process, hcommit, Option.some.injEq] at hs'
    subst hs'
    exact ⟨h.refused (c := .sync run (some (.status code))) hquiet hgood
        (fun _ _ => ⟨rfl, fun _ => rfl⟩) hcode,
      le_rfl, le_rfl, Or.inl rfl⟩

theorem mem_clearPending {s : Reader} {data p : Position}
    (h : p ∈ (s.clearPending data).pending) : p ∈ s.pending :=
  (Option.filter_eq_some_iff.mp h).1

theorem Sound.fallBack {page : Page} {s : Reader} (h : s.Sound page)
    (hquiet : Quiet page.bookID s.calls) (hloaded : s.loading = none) {data : Position}
    (hserial : data.serial = s.recorded) (now : Time) :
    (s.fallBack page data now).Sound page ∧ Advances s (s.fallBack page data now) := by
  refine ⟨⟨h.reached, h.calm, hquiet.good, h.apart, ?_, ?_, ?_, h.stored, ?_, ?_,
    by simp [Reader.fallBack, clearPending, hloaded]⟩, le_rfl, le_rfl, Or.inr ?_⟩
  · rintro p ⟨⟩
    exact hserial
  · rintro x ⟨⟩
    exact hserial.le
  · intro p hp
    exact h.pending p (mem_clearPending hp)
  · intro x hx
    have hsnapshot : x.serial = data.serial := by
      simp only [Reader.fallBack, clearPending, LocalStorage.backUp, Function.update_self] at hx
      cases hx
      rfl
    rw [hsnapshot, hserial]
    exact ⟨h.stored, le_rfl, rfl⟩
  · rintro ⟨⟩
  · rintro x ⟨⟩
    exact hserial

/-- The page learns the version that its save has on the server. -/
theorem Sound.answered_saved {page : Page} {s : Reader} {i : Nat} (h : s.Sound page)
    {data : Position} {e : Option Time} {p : Progress}
    (hi : s.calls[i]? = some (.save data e (some (.saved p)))) {s' : Reader}
    (hs' : { s with calls := s.calls.eraseIdx i }.answered page
      (.save data e (some (.saved p))) = some s') : s'.Sound page ∧ Advances s s' := by
  have hquiet := h.quiet hi trivial
  have hloaded := h.loaded_of_save (List.mem_of_getElem? hi) rfl
  obtain ⟨hserial, hrecord⟩ := h.good _ (List.mem_of_getElem? hi)
  simp only [answered, Option.some.injEq] at hs'
  subst hs'
  refine ⟨⟨h.reached, h.calm, hquiet.good, h.apart.sublist (s.calls.eraseIdx_sublist i), ?_, ?_, ?_,
    h.stored, h.backup, fun _ => Or.inl ?_, by simp [clearPending, hloaded]⟩, le_rfl, le_rfl, Or.inr ?_⟩
  · rintro q ⟨⟩
    exact hserial
  · rintro x ⟨⟩
    exact hserial.le
  · intro q hq
    exact h.pending q (mem_clearPending hq)
  · rintro x ⟨⟩
    exact ⟨p, hrecord, rfl⟩
  · rintro x ⟨⟩
    exact hserial

theorem Sound.continueSync {page : Page} {s : Reader} {i : Nat} (h : s.Sound page) {run : SyncRun}
    {reply : Option SaveReply} (hi : s.calls[i]? = some (.sync run reply))
    (hok : page.bookID ∈ run.rest → s.LoadAhead ∧ Quiet page.bookID (s.calls.eraseIdx i)) :
    Sound page ({ s with calls := s.calls.eraseIdx i }.continueSync page run) := by
  have hdrop := h.drop hi (by simp)
  have hremoved : Sound page { s with
      store := s.store.removeSnapshot run.id, calls := s.calls.eraseIdx i } := by
    by_cases hid : run.id = page.bookID
    · have hgone : (s.store.removeSnapshot run.id).snapshots page.bookID = none := by
        simp [LocalStorage.removeSnapshot, hid]
      refine ⟨hdrop.reached, hdrop.calm, (h.quiet hi hid).good, hdrop.apart, hdrop.shown, hdrop.saved,
        hdrop.pending, hdrop.stored, ?_, hdrop.informed,
        fun reply hreply => (hdrop.loading reply hreply).dropped rfl rfl rfl fun _ => id⟩
      intro x hx
      rw [hgone] at hx
      cases hx
    · refine hdrop.withStore ?_
      simp [LocalStorage.removeSnapshot, Function.update_of_ne (Ne.symm hid)]
  exact hremoved.visit hok

/-! ## Runs -/

theorem Sound.process_step {page : Page} {s s' : Reader} (h : s.Sound page) {i : Nat} {now : Time}
    (hok : s.Orderly page (.process i now)) (hs' : s.step page (.process i now) = some s') :
    s'.Sound page ∧ Advances s s' := by
  rw [step, Option.bind_eq_some_iff] at hs'
  obtain ⟨c, hi, hs'⟩ := hs'
  have hgood := h.good c (List.mem_of_getElem? hi)
  cases c with
  | save data e reply =>
      cases reply with
      | some r => simp [process] at hs'
      | none =>
          have hloaded := h.loaded_of_save (List.mem_of_getElem? hi) rfl
          have hkept := (h.drop hi (by simp)).process_save (h.quiet hi trivial) hloaded hgood
            (hok _ hi rfl) hs'
          exact ⟨hkept.1, hkept.2.ofDropped⟩
  | latest reply => exact hgood.elim
  | sync run reply =>
      cases reply with
      | some r => simp [process] at hs'
      | none =>
          have hahead : run.id = page.bookID → s.LoadAhead := by
            intro hid reply hreply
            by_contra hne
            have hchanges := (h.loading reply hreply).syncs hne _ (List.mem_of_getElem? hi)
            exact absurd hid (by simpa [Call.changes] using hchanges)
          have hkept := (h.drop hi (by simp)).process_sync (fun hid => h.quiet hi hid) hahead hgood hs'
          exact ⟨hkept.1, hkept.2.ofDropped⟩

theorem Sound.lose_step {page : Page} {s s' : Reader} (h : s.Sound page) {i : Nat} {now : Time}
    (hs' : s.step page (.lose i now) = some s') : s'.Sound page ∧ Advances s s' := by
  rw [step, Option.bind_eq_some_iff] at hs'
  obtain ⟨c, hi, hs'⟩ := hs'
  have hgood := h.good c (List.mem_of_getElem? hi)
  cases c with
  | save data e reply =>
      cases reply with
      | some r => simp [lose] at hs'
      | none =>
          cases hs'
          have hloaded := h.loaded_of_save (List.mem_of_getElem? hi) rfl
          have hkept := (h.drop hi (by simp)).fallBack (h.quiet hi trivial) hloaded hgood.1 now
          exact ⟨hkept.1, hkept.2.ofDropped⟩
  | latest reply => exact hgood.elim
  | sync run reply =>
      cases reply with
      | some r => simp [lose] at hs'
      | none =>
          cases hs'
          exact ⟨(h.drop hi (by simp)).withStore rfl, le_rfl, le_rfl, Or.inl rfl⟩

theorem Sound.answer_step {page : Page} {s s' : Reader} (h : s.Sound page) {i : Nat}
    (hok : s.Orderly page (.answer i)) (hs' : s.step page (.answer i) = some s') :
    s'.Sound page ∧ Advances s s' := by
  rw [step, Option.bind_eq_some_iff] at hs'
  obtain ⟨c, hi, hs'⟩ := hs'
  have hgood := h.good c (List.mem_of_getElem? hi)
  cases c with
  | save data e reply =>
      rcases reply with - | ⟨p⟩ | ⟨code⟩
      · simp [answered] at hs'
      · exact h.answered_saved hi hs'
      · simp only [answered, if_neg hgood] at hs'
        cases hs'
        exact ⟨(h.drop hi (by simp)).withSaving false, le_rfl, le_rfl, Or.inl rfl⟩
  | latest reply => exact hgood.elim
  | sync run reply =>
      cases reply with
      | none => simp [answered] at hs'
      | some r =>
          cases hs'
          exact ⟨h.continueSync hi (hok _ hi), le_rfl, le_rfl, Or.inl rfl⟩

theorem Sound.process_load {page : Page} {s s' : Reader} (h : s.Sound page)
    (hok : s.Orderly page .processLoad) (hs' : s.step page .processLoad = some s') :
    s'.Sound page ∧ Advances s s' := by
  rw [step] at hs'
  split at hs'
  · next hloading =>
    cases hs'
    have hload := h.loading none hloading
    refine ⟨⟨h.reached, h.calm, h.good, h.apart, h.shown, h.saved, h.pending, h.stored, h.backup,
      h.informed, fun reply hreply => ?_⟩, le_rfl, le_rfl, Or.inl rfl⟩
    cases hreply
    refine ⟨hload.recorded, hload.saves, fun latest hlatest => ?_, fun _ => hok⟩
    rw [getProgress] at hlatest
    split at hlatest
    · cases hlatest
    · cases hlatest
      rfl
  · cases hs'

/-- The page takes up a position from before it was opened, while nothing has been recorded. -/
theorem Sound.apply {page : Page} {s : Reader} (h : s.Sound page) (hzero : s.recorded = 0)
    (hcalls : ∀ c ∈ s.calls, c.isSave = false) {data : SavedPosition} (hdata : data.position.serial = 0)
    (hcurrent : s.lost = false → s.Current page data.updatedAt) :
    (s.applyLoadedProgress data).Sound page ∧ Advances s (s.applyLoadedProgress data) := by
  rw [applyLoadedProgress]
  split
  · exact ⟨h, le_rfl, le_rfl, Or.inl rfl⟩
  · refine ⟨⟨h.reached, h.calm, ?_, h.apart, ?_, ?_, h.pending, h.stored, h.backup, fun hlost => .inl ?_,
      fun reply hreply => (h.loading reply hreply).dropped rfl rfl rfl fun _ => id⟩,
      le_rfl, le_rfl, Or.inr ?_⟩
    · intro c hc
      have hgood := h.good c hc
      cases c with
      | sync run reply => exact hgood
      | latest reply => exact hgood
      | save d e reply => exact absurd (hcalls _ hc) (by simp [Call.isSave])
    · rintro p ⟨⟩
      exact hdata.trans hzero.symm
    · rintro x ⟨⟩
      exact hdata.le.trans (Nat.zero_le _)
    · rintro x ⟨⟩
      exact hcurrent hlost
    · rintro x ⟨⟩
      exact hdata.trans hzero.symm

@[simp] theorem applyLoadedProgress_recorded (s : Reader) (data : SavedPosition) :
    (s.applyLoadedProgress data).recorded = s.recorded := by
  rw [applyLoadedProgress]
  split <;> rfl

@[simp] theorem applyLoadedProgress_calls (s : Reader) (data : SavedPosition) :
    (s.applyLoadedProgress data).calls = s.calls := by
  rw [applyLoadedProgress]
  split <;> rfl

@[simp] theorem applyLoadedProgress_store (s : Reader) (data : SavedPosition) :
    (s.applyLoadedProgress data).store = s.store := by
  rw [applyLoadedProgress]
  split <;> rfl

@[simp] theorem applyLoadedProgress_lost (s : Reader) (data : SavedPosition) :
    (s.applyLoadedProgress data).lost = s.lost := by
  rw [applyLoadedProgress]
  split <;> rfl

@[simp] theorem applyLatest_recorded (s : Reader) (latest : Option (Progress × Nat)) :
    (s.applyLatest latest).recorded = s.recorded := by
  rcases latest with - | ⟨data, serial⟩
  · rfl
  · exact applyLoadedProgress_recorded s _

@[simp] theorem applyLatest_calls (s : Reader) (latest : Option (Progress × Nat)) :
    (s.applyLatest latest).calls = s.calls := by
  rcases latest with - | ⟨data, serial⟩
  · rfl
  · exact applyLoadedProgress_calls s _

@[simp] theorem applyLatest_lost (s : Reader) (latest : Option (Progress × Nat)) :
    (s.applyLatest latest).lost = s.lost := by
  rcases latest with - | ⟨data, serial⟩
  · rfl
  · exact applyLoadedProgress_lost s _

theorem applyCached_cases (page : Page) (s : Reader) :
    s.applyCached page = s ∨ ∃ cached, s.store.snapshots page.bookID = some cached ∧
      s.applyCached page = s.applyLoadedProgress (ofSnapshot cached) := by
  rw [applyCached]
  split
  · exact .inl rfl
  · next cached hcached => exact .inr ⟨cached, hcached, rfl⟩

theorem Sound.applyCached {page : Page} {s : Reader} (h : s.Sound page) (hzero : s.recorded = 0)
    (hcalls : ∀ c ∈ s.calls, c.isSave = false) :
    (s.applyCached page).Sound page ∧ Advances s (s.applyCached page) ∧
      (s.applyCached page).recorded = s.recorded ∧ (s.applyCached page).calls = s.calls ∧
      (s.applyCached page).lost = s.lost := by
  obtain heq | ⟨cached, hcached, heq⟩ := s.applyCached_cases page
  · rw [heq]
    exact ⟨h, ⟨le_rfl, le_rfl, Or.inl rfl⟩, rfl, rfl, rfl⟩
  · obtain ⟨-, hle, hlost⟩ := h.backup cached hcached
    have hserial : (ofSnapshot cached).position.serial = 0 := Nat.le_zero.mp (hzero ▸ hle)
    have hcurrent : s.lost = false → s.Current page (ofSnapshot cached).updatedAt := by
      intro hfalse
      rw [hlost] at hfalse
      cases hfalse
    have hkept := h.apply hzero hcalls hserial hcurrent
    rw [heq]
    exact ⟨hkept.1, hkept.2, by simp, by simp, by simp⟩

/-- What the server has answered is the position that it still has. -/
theorem Sound.applyLatest {page : Page} {s : Reader} (h : s.Sound page)
    {latest : Option (Progress × Nat)} (hload : s.Loading page (some (.loaded latest))) :
    (s.applyLatest latest).Sound page ∧ Advances s (s.applyLatest latest) := by
  have hlatest := hload.latest latest rfl
  cases latest with
  | none => exact ⟨h, le_rfl, le_rfl, Or.inl rfl⟩
  | some answer =>
      obtain ⟨data, serial⟩ := answer
      obtain ⟨record, hrecord, hanswer⟩ := Option.map_eq_some_iff.mp hlatest.symm
      cases hanswer
      have hzero : s.stored = 0 := Nat.le_zero.mp (hload.recorded ▸ h.stored)
      exact h.apply hload.recorded hload.saves hzero fun _ => ⟨data, hrecord, rfl⟩

theorem Advances.trans {s t u : Reader} (h : Advances s t) (h' : Advances t u)
    (hrecorded : u.recorded = t.recorded) : Advances s u := by
  refine ⟨h.recorded.trans h'.recorded, h.stored.trans h'.stored, ?_⟩
  rcases h'.saved with hsame | hnew
  · rw [hsame, hrecorded]
    exact h.saved
  · exact Or.inr hnew

/-- The load is over. From now on the page may be known to know the version on the server. -/
theorem Sound.settled {page : Page} {s : Reader} (h : s.Sound page)
    (hcalls : ∀ c ∈ s.calls, c.isSave = false)
    {lost : Bool} (hlost : lost = false → s.lost = false ∨
      s.store.snapshots page.bookID = none ∧ ∀ x ∈ s.lastSaved, s.Current page x.updatedAt) :
    Sound page { s with loading := none, lost := lost } := by
  refine ⟨h.reached, h.calm, fun c hc => ?_, h.apart, h.shown, h.saved, h.pending, h.stored, fun x hx => ?_,
    fun hfalse => ?_, by simp⟩
  · have hgood := h.good c hc
    cases c with
    | sync run reply => exact hgood
    | latest reply => exact hgood
    | save d e reply => exact absurd (hcalls _ hc) (by simp [Call.isSave])
  · obtain ⟨hle, hbound, htrue⟩ := h.backup x hx
    refine ⟨hle, hbound, ?_⟩
    by_contra hfalse
    rcases hlost (Bool.eq_false_iff.mpr hfalse) with hkept | ⟨hnone, -⟩
    · rw [htrue] at hkept
      cases hkept
    · rw [Option.mem_def, hnone] at hx
      cases hx
  · rcases hlost hfalse with hkept | ⟨-, hcurrent⟩
    · exact h.informed hkept
    · exact .inl hcurrent

theorem Sound.loaded {page : Page} {s : Reader} (h : s.Sound page) {reply : Option LoadReply}
    (hload : s.Loading page reply) :
    (s.loaded page reply).Sound page ∧ Advances s (s.loaded page reply) := by
  have hfailed : Sound page { s.applyCached page with loading := none } ∧
      Advances s { s.applyCached page with loading := none } := by
    obtain ⟨hsound, hadvances, -, hcalls, -⟩ := h.applyCached hload.recorded hload.saves
    exact ⟨hsound.settled (hcalls ▸ hload.saves) Or.inl, hadvances.recorded, hadvances.stored,
      hadvances.saved⟩
  match reply, hload with
  | none, _ => exact hfailed
  | some (.status _), _ => exact hfailed
  | some (.loaded latest), hload =>
    obtain ⟨hsound, hadvances⟩ := h.applyLatest hload
    have hrecorded : (s.applyLatest latest).recorded = 0 :=
      (applyLatest_recorded s latest).trans hload.recorded
    have hcalls : ∀ c ∈ (s.applyLatest latest).calls, c.isSave = false := by
      rw [applyLatest_calls]
      exact hload.saves
    rw [Reader.loaded]
    split
    · next hnewer =>
      -- a newer backup is there, so the page does not know the version of the server
      obtain ⟨hcached, hadvances', hsame, hcalls', hlost⟩ := hsound.applyCached hrecorded hcalls
      have hall := hadvances.trans hadvances' hsame
      refine ⟨hcached.settled (hcalls' ▸ hcalls) fun hfalse => .inl ?_, hall.recorded, hall.stored,
        hall.saved⟩
      have hsome : (s.store.snapshots page.bookID).isNone = false := by
        obtain ⟨cached, hcached, -⟩ := (Option.any_eq_true _ _).mp hnewer
        rw [hcached]
        rfl
      rw [hsome, Bool.and_false, Bool.not_false, Bool.and_true] at hfalse
      rw [hlost, applyLatest_lost]
      exact hfalse
    · refine ⟨hsound.settled hcalls fun hfalse => ?_, hadvances.recorded, hadvances.stored, hadvances.saved⟩
      rw [applyLatest_lost]
      rw [Bool.and_eq_false_iff] at hfalse
      refine hfalse.imp_right fun hdone => ?_
      rw [Bool.not_eq_false', Bool.and_eq_true] at hdone
      obtain ⟨⟨⟨data, serial⟩, rfl, hcfi⟩, hnone⟩ := hdone.imp_left (Option.any_eq_true _ _).mp
      obtain ⟨record, hrecord, hanswer⟩ := Option.map_eq_some_iff.mp (hload.latest _ rfl).symm
      cases hanswer
      have happly : s.applyLatest (some (data, s.stored)) =
          { s with
            progress := some (ofProgress data s.stored).position
            lastSaved := some (ofProgress data s.stored) } := if_neg (of_decide_eq_true hcfi)
      rw [happly]
      refine ⟨Option.isNone_iff_eq_none.mp hnone, ?_⟩
      rintro x ⟨⟩
      exact ⟨data, hrecord, rfl⟩
  
theorem saveProgress_advances (s : Reader) (data : Position) (force : Bool) :
    Advances s (s.saveProgress data force) := by
  rw [saveProgress]
  split
  · exact ⟨le_rfl, le_rfl, Or.inl rfl⟩
  · exact ⟨le_rfl, le_rfl, Or.inl rfl⟩

theorem savePending_advances (s : Reader) : Advances s s.savePending := by
  rw [savePending]
  split
  · exact ⟨le_rfl, le_rfl, Or.inl rfl⟩
  · apply saveProgress_advances

theorem startSync_advances (page : Page) (s : Reader) : Advances s (s.startSync page) := by
  rw [startSync]
  split
  · exact ⟨le_rfl, le_rfl, Or.inl rfl⟩
  · exact ⟨le_rfl, le_rfl, Or.inl rfl⟩
  · exact ⟨le_rfl, le_rfl, Or.inl rfl⟩

theorem Sound.step {page : Page} {s s' : Reader} {a : Action} (h : s.Sound page)
    (hstep : Steps (step page) (Orderly page) s a s') : s'.Sound page ∧ Advances s s' := by
  obtain ⟨hok, hs'⟩ := hstep
  cases a with
  | updateProgress cfi percentage =>
      cases hs'
      exact ⟨h.updateProgress (Option.isNone_iff_eq_none.mp hok.1) hok.2 cfi percentage,
        Nat.le_succ _, le_rfl, Or.inl rfl⟩
  | interval =>
      rw [Reader.step] at hs'
      split at hs'
      · cases hs'
        exact ⟨h.withTimer _, le_rfl, le_rfl, Or.inl rfl⟩
      · cases hs'
        exact ⟨h, le_rfl, le_rfl, Or.inl rfl⟩
  | debounced =>
      rw [Reader.step, Option.map_eq_some_iff] at hs'
      obtain ⟨data, htimer, rfl⟩ := hs'
      have hadvances := saveProgress_advances { s with timer := none } data false
      exact ⟨(h.withTimer none).saveProgress (hok data htimer), hadvances.recorded, hadvances.stored,
        hadvances.saved⟩
  | hidden =>
      cases hs'
      exact ⟨h.savePending hok, savePending_advances s⟩
  | saveNow =>
      cases hs'
      have hadvances := savePending_advances { s with timer := none }
      exact ⟨(h.withTimer none).savePending hok, hadvances.recorded, hadvances.stored, hadvances.saved⟩
  | syncOfflineProgressQueue =>
      cases hs'
      exact ⟨h.startSync hok, startSync_advances page s⟩
  | process i now => exact h.process_step hok hs'
  | lose i now => exact h.lose_step hs'
  | answer i => exact h.answer_step hok hs'
  | processLoad => exact h.process_load hok hs'
  | loseLoad =>
      rw [Reader.step] at hs'
      split at hs'
      · next hloading =>
        cases hs'
        exact h.loaded (h.loading none hloading)
      · cases hs'
  | answerLoad =>
      rw [Reader.step] at hs'
      split at hs'
      · next reply hloading =>
        cases hs'
        exact h.loaded (h.loading (some reply) hloading)
      · cases hs'

/-- A page that is used in order is never answered with a conflict, and neither it nor
the server replaces a position by an earlier one. -/
theorem orderly_notReplaced {page : Page} {s : Reader}
    (h : Reachable (Started page) (Steps (step page) (Orderly page)) s) :
    s.conflicted = false ∧
      ∀ a s', Steps (step page) (Orderly page) s a s' → NotReplaced s s' := by
  have hsound : s.Sound page :=
    h.invariant (Sound page) (fun _ hs => hs.sound) (fun _ _ _ hs hstep => (hs.step hstep).1)
  refine ⟨hsound.calm, ?_⟩
  intro a s' hstep
  obtain ⟨hsound', hadvances⟩ := hsound.step hstep
  exact hadvances.notReplaced hsound hsound'

theorem samplePage_user : ascii "u" ≠ [] := by decide

def samplePage : Page := ⟨ascii "b", ascii "u", ascii "d", samplePage_user⟩

theorem samplePage_started : Started samplePage (opened samplePage .empty readOnce) :=
  ⟨.empty, readOnce, readOnce_reached, by simp [LocalStorage.empty], rfl⟩

/-- A backup from before the page was opened. -/
def leftOver : LocalStorage :=
  LocalStorage.empty.backUp (ascii "b") ⟨ascii "w", 5, ⟨10 ^ 18 + 10 ^ 9⟩, ascii "d", 0, ascii "u"⟩

theorem leftOver_started : Started samplePage (opened samplePage leftOver readOnce) := by
  refine ⟨leftOver, readOnce, readOnce_reached, ?_, rfl⟩
  rintro cached ⟨⟩
  rfl

/-- A page that is opened on a backup, which it syncs before it loads. -/
theorem orderly_save_sync :
    ∃ s, Reachable (Started samplePage) (Steps (step samplePage) (Orderly samplePage)) s ∧
      s.recorded = 2 ∧ s.stored = 2 ∧ s.conflicted = false ∧
      ∀ a s', Steps (step samplePage) (Orderly samplePage) s a s' → NotReplaced s s' := by
  have hrun : (replay (step samplePage) (Orderly samplePage) (opened samplePage leftOver readOnce)
      [.syncOfflineProgressQueue, .process 0 ⟨10 ^ 18 + 1⟩, .answer 0, .processLoad, .answerLoad,
        .updateProgress (ascii "x") 10, .interval, .debounced, .process 0 ⟨10 ^ 18 + 2⟩, .answer 0,
        .updateProgress (ascii "y") 20, .saveNow, .lose 0 ⟨10 ^ 18 + 3⟩, .syncOfflineProgressQueue,
        .process 0 ⟨10 ^ 18 + 4⟩, .answer 0]).any
      (fun s => s.recorded = 2 ∧ s.stored = 2) = true := by decide +kernel
  obtain ⟨s, hs, hmarks⟩ := (Option.any_eq_true _ _).mp hrun
  rw [decide_eq_true_eq] at hmarks
  have hreach := replay_reachable _ _ (.start leftOver_started) hs
  exact ⟨s, hreach, hmarks.1, hmarks.2, orderly_notReplaced hreach⟩

/-- Two forced saves overlap: the second one expects the version that the first has replaced. A
page that was opened on a backup expects the time of the backup after this has been synced. And
the answer of an older save takes the page back to it. -/
theorem overlapping_saves_conflict :
    (∃ s, Reachable (Started samplePage) (Steps (step samplePage) fun _ _ => True) s ∧
      s.conflicted = true) ∧
    (∃ s, Reachable (Started samplePage) (Steps (step samplePage) fun _ _ => True) s ∧
      s.store.snapshots samplePage.bookID = none ∧ s.conflicted = true) ∧
    ∃ s a s', Reachable (Started samplePage) (Steps (step samplePage) fun _ _ => True) s ∧
      Steps (step samplePage) (fun _ _ => True) s a s' ∧ ¬ NotReplaced s s' := by
  have hstart : Reachable (Started samplePage) (Steps (step samplePage) fun _ _ => True)
      (opened samplePage .empty readOnce) := .start samplePage_started
  refine ⟨?_, ?_, ?_⟩
  · have hrun : (replay (step samplePage) (fun _ _ => True) (opened samplePage .empty readOnce)
        [.processLoad, .answerLoad, .updateProgress (ascii "x") 10, .saveNow,
          .updateProgress (ascii "y") 20, .saveNow, .process 0 ⟨10 ^ 18 + 1⟩,
          .process 0 ⟨10 ^ 18 + 2⟩]).any (·.conflicted) = true := by
      decide +kernel
    obtain ⟨s, hs, hconflict⟩ := (Option.any_eq_true _ _).mp hrun
    exact ⟨s, replay_reachable _ _ hstart hs, hconflict⟩
  · have hrun : (replay (step samplePage) (fun _ _ => True) (opened samplePage leftOver readOnce)
        [.loseLoad, .syncOfflineProgressQueue, .process 0 ⟨10 ^ 18 + 1⟩, .answer 0,
          .updateProgress (ascii "x") 10, .saveNow, .process 0 ⟨10 ^ 18 + 2⟩]).any (fun s =>
            s.store.snapshots samplePage.bookID = none ∧ s.conflicted = true) = true := by
      decide +kernel
    obtain ⟨s, hs, hconflict⟩ := (Option.any_eq_true _ _).mp hrun
    rw [decide_eq_true_eq] at hconflict
    exact ⟨s, replay_reachable _ _ (.start leftOver_started) hs, hconflict⟩
  · have hrun : (replay (step samplePage) (fun _ _ => True) (opened samplePage .empty readOnce)
        [.processLoad, .answerLoad, .updateProgress (ascii "x") 10, .saveNow,
          .updateProgress (ascii "y") 20, .process 0 ⟨10 ^ 18 + 1⟩]).any (fun s =>
            (s.step samplePage (.answer 0)).any (fun s' => ¬ NotReplaced s s')) = true := by
      decide +kernel
    obtain ⟨s, hs, hback⟩ := (Option.any_eq_true _ _).mp hrun
    obtain ⟨s', hs', hback⟩ := (Option.any_eq_true _ _).mp hback
    rw [decide_eq_true_eq] at hback
    exact ⟨s, .answer 0, s', replay_reachable _ _ hstart hs, ⟨trivial, hs'⟩, hback⟩

end Reader

end ZReader.Frontend
