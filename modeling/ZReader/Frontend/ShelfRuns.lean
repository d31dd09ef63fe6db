import ZReader.Frontend.Shelf
import ZReader.Lib.Tokens
import ZReader.Lib.Transition

namespace ZReader.Frontend.Shelf

open Lib.Tokens Lib.Transition

variable {I C : Type}

/-! ## What the server has had -/

/-- The book has been deleted, and has not come back. -/
def Gone (h : List (Library I C)) (n : ℕ) (id : I) : Prop :=
  (∃ l ∈ h.take n, id ∈ l.ids) ∧ ∀ l ∈ h.drop n, id ∉ l.ids

/-- From this state on the server has had the book with this category. -/
def Had (h : List (Library I C)) (n : ℕ) (b : Book I C) : Prop :=
  ∃ l ∈ h.drop n, ∃ b' ∈ l.books, b'.id = b.id ∧ b'.category = b.category

instance [DecidableEq I] [DecidableEq C] (h : List (Library I C)) (n : ℕ) (b : Book I C) :
    Decidable (Had h n b) :=
  inferInstanceAs (Decidable (∃ _ ∈ _, _))

section

variable {h : List (Library I C)} {l : Library I C} {n : ℕ}

theorem Had.concat {b : Book I C} (hb : Had h n b) : Had (h ++ [l]) n b := by
  obtain ⟨l', hl', hb⟩ := hb
  refine ⟨l', ?_, hb⟩
  rw [List.drop_append]
  exact List.mem_append_left _ hl'

theorem had_last {b : Book I C} (hn : n ≤ h.length) (hb : b ∈ l.books) : Had (h ++ [l]) n b := by
  refine ⟨l, ?_, b, hb, rfl, rfl⟩
  rw [List.drop_append_of_le_length hn]
  exact List.mem_append_right _ (List.mem_singleton_self l)

/-- No identifier comes back to the last of the states. -/
def NoReturn (past : List (Library I C)) (last l : Library I C) : Prop :=
  ∀ id ∈ l.ids, id ∈ last.ids ∨ ∀ l' ∈ past, id ∉ l'.ids

theorem Gone.last {past : List (Library I C)} {last : Library I C} {id : I}
    (hn : n < (past ++ [last]).length)
    (hid : Gone (past ++ [last]) n id) : id ∉ last.ids := by
  apply hid.2
  rw [List.length_append, List.length_singleton] at hn
  rw [List.drop_append_of_le_length (by omega)]
  exact List.mem_append_right _ (List.mem_singleton_self last)

theorem Gone.concat {past : List (Library I C)} {last : Library I C} {id : I}
    (hn : n < (past ++ [last]).length) (hl : NoReturn past last l) (hid : Gone (past ++ [last]) n id) :
    Gone (past ++ [last] ++ [l]) n id := by
  have hlast := hid.last hn
  obtain ⟨⟨l', hl', hmem⟩, hgone⟩ := hid
  constructor
  · refine ⟨l', ?_, hmem⟩
    rw [List.take_append]
    exact List.mem_append_left _ hl'
  · intro l₁ hl₁ hid
    rw [List.drop_append_of_le_length hn.le] at hl₁
    rcases List.mem_append.mp hl₁ with hl₁ | hl₁
    · exact hgone l₁ hl₁ hid
    · rw [List.mem_singleton.mp hl₁] at hid
      rcases hl id hid with hin | hnever
      · exact hlast hin
      · refine hnever l' ?_ hmem
        rw [List.length_append, List.length_singleton] at hn
        rw [List.take_append_of_le_length (by omega)] at hl'
        exact List.mem_of_mem_take hl'

end

namespace Library

variable {l : Library I C}

theorem mem_ids {b : Book I C} (h : b ∈ l.books) : b.id ∈ l.ids := List.mem_map_of_mem h

theorem recategorize_ids (f : Book I C → Option C) : (l.recategorize f).ids = l.ids := by
  rw [ids, recategorize, List.map_map]
  rfl

variable [DecidableEq I]

theorem find_mem {id : I} {b : Book I C} (h : l.find id = some b) : b ∈ l.books ∧ b.id = id := by
  rw [find] at h
  exact ⟨List.mem_of_find?_eq_some h, by simpa using List.find?_some h⟩

theorem mem_filterMap_find {ids : List I} {b : Book I C} (h : b ∈ ids.filterMap l.find) : b ∈ l.books := by
  obtain ⟨id, -, hid⟩ := List.mem_filterMap.mp h
  exact (find_mem hid).1

theorem mem_remove_ids {removed : List I} {id : I} :
    id ∈ (l.remove removed).ids ↔ id ∈ l.ids ∧ id ∉ removed := by
  simp only [ids, remove, List.mem_map, List.mem_filter, decide_eq_true_eq]
  constructor
  · rintro ⟨b, ⟨hb, hid⟩, rfl⟩
    exact ⟨⟨b, hb, rfl⟩, hid⟩
  · rintro ⟨⟨b, hb, rfl⟩, hid⟩
    exact ⟨b, ⟨hb, hid⟩, rfl⟩

end Library

/-! ## Answers on their way -/

/-- What the shelf may show: no book that has been deleted, and none with a category it had
before a change. -/
def Allowed (s : ShelfData I C) (b : Book I C) : Prop :=
  (∀ d ∈ s.deleted, b.id ∉ d.2) ∧ ∀ m ∈ s.moved, b.id ∈ m.2 → Had s.history m.1 b

/-- The numbers that a request remembers are numbers of the past. -/
def Numbered (s : ShelfData I C) (r : Request I C) : Prop :=
  match r.kind with
  | .load generation => generation ≤ s.loadGeneration
  | .more _ loadGeneration searchGeneration =>
      loadGeneration ≤ s.loadGeneration ∧ searchGeneration ≤ s.searchGeneration
  | .search generation => generation ≤ s.searchGeneration
  | .poll effect => effect ≤ s.pollEffect
  | .delete _ | .updateCategory _ _ | .rename _ _ => True

/-- What the server has made of a deletion or a change, at its position. -/
def Served (h : List (Library I C)) (r : Request I C) : Prop :=
  match r.kind with
  | .load _ | .more _ _ _ | .search _ | .poll _ => True
  | .delete _ => ∃ n, r.position = some n ∧ n < h.length ∧ ∀ id ∈ r.ids, Gone h n id
  | .updateCategory _ _ | .rename _ _ =>
      ∃ n, r.position = some n ∧ n < h.length ∧ ∀ b ∈ r.carries, Had h n b

structure Good (s : ShelfData I C) (r : Request I C) : Prop where
  numbered : Numbered s r
  served : r.status = .answered → Served s.history r
  page : r.Open → s.Current r → r.kind.isPage = true → ∀ b ∈ r.books, ∀ d ∈ s.deleted, b.id ∉ d.2
  carried : r.Open → s.Current r → ∀ b ∈ r.carries, ∀ m ∈ s.moved, b.id ∈ m.2 → Had s.history m.1 b

structure Inv (s : ShelfData I C) : Prop where
  shown : ∀ b ∈ s.shown, Allowed s b
  requests : ∀ r ∈ s.requests, Good s r
  timer : ∀ generation ∈ s.searchTimer, generation ≤ s.searchGeneration
  deleted : ∀ d ∈ s.deleted, d.1 < s.history.length ∧ ∀ id ∈ d.2, Gone s.history d.1 id
  moved : ∀ m ∈ s.moved, m.1 < s.history.length

variable {s t : ShelfData I C} {r : Request I C}

/-- A step that the server does not see and that applies no mutation. -/
structure Steady (s t : ShelfData I C) : Prop where
  history : t.history = s.history
  deleted : t.deleted = s.deleted
  moved : t.moved = s.moved
  load : s.loadGeneration ≤ t.loadGeneration
  search : s.searchGeneration ≤ t.searchGeneration
  poll : s.pollEffect ≤ t.pollEffect

theorem Numbered.mono (hl : s.loadGeneration ≤ t.loadGeneration)
    (hs : s.searchGeneration ≤ t.searchGeneration) (hp : s.pollEffect ≤ t.pollEffect)
    (h : Numbered s r) : Numbered t r := by
  revert h
  unfold Numbered
  cases r.kind with
  | load g => exact fun h => h.trans hl
  | more _ g g' => exact fun h => ⟨h.1.trans hl, h.2.trans hs⟩
  | search g => exact fun h => h.trans hs
  | poll e => exact fun h => h.trans hp
  | delete _ | updateCategory _ _ | rename _ _ => exact id

/-- A request whose answer counts later has counted all the time. -/
theorem current_mono (hl : s.loadGeneration ≤ t.loadGeneration)
    (hs : s.searchGeneration ≤ t.searchGeneration) (hp : s.pollEffect ≤ t.pollEffect)
    (h : Numbered s r) (hc : t.Current r) : s.Current r := by
  revert h hc
  unfold Numbered ShelfData.Current
  cases r.kind with
  | load g => exact fun h hc => ⟨hc.1, h.antisymm (hc.2 ▸ hl)⟩
  | more _ g g' => exact fun h hc => ⟨hc.1, h.1.antisymm (hc.2.1 ▸ hl), h.2.antisymm (hc.2.2 ▸ hs)⟩
  | search g => exact fun h hc => ⟨hc.1, h.antisymm (hc.2 ▸ hs)⟩
  | poll e => exact fun h hc => h.antisymm (hc ▸ hp)
  | delete _ | updateCategory _ _ | rename _ _ => exact fun _ => id

theorem Good.steady (hst : Steady s t) (h : Good s r) : Good t r := by
  have hcurrent := current_mono (r := r) hst.load hst.search hst.poll h.numbered
  refine ⟨h.numbered.mono hst.load hst.search hst.poll, ?_, ?_, ?_⟩
  · rw [hst.history]
    exact h.served
  · intro ho hc
    rw [hst.deleted]
    exact h.page ho (hcurrent hc)
  · intro ho hc
    rw [hst.moved, hst.history]
    exact h.carried ho (hcurrent hc)

theorem Allowed.steady (hst : Steady s t) {b : Book I C} (h : Allowed s b) : Allowed t b := by
  rw [Allowed, hst.deleted, hst.moved, hst.history]
  exact h

theorem Inv.steady (h : Inv s) (hst : Steady s t) (hshown : ∀ b ∈ t.shown, Allowed s b)
    (htimer : ∀ generation ∈ t.searchTimer, generation ≤ t.searchGeneration)
    (hrequests : ∀ r ∈ t.requests, Good s r ∨ Good t r) : Inv t := by
  refine ⟨fun b hb => (hshown b hb).steady hst, ?_, htimer, ?_, ?_⟩
  · intro r hr
    exact (hrequests r hr).elim (·.steady hst) id
  · rw [hst.deleted, hst.history]
    exact h.deleted
  · rw [hst.moved, hst.history]
    exact h.moved

theorem good_new {kind : Kind I C} (batches : List (List I)) (h : Numbered s (.new kind)) :
    Good s { Request.new kind with batches := batches } := by
  refine ⟨h, nofun, fun _ _ _ b hb => absurd hb List.not_mem_nil, ?_⟩
  intro _ _ b hb
  cases kind <;> exact absurd hb List.not_mem_nil

/-- A request as it is or, at most, aborted. -/
def Aborted (r₀ r : Request I C) : Prop := r = r₀ ∨ r = { r₀ with aborted := true }

theorem Aborted.current {r₀ : Request I C} (h : Aborted r₀ r) (hc : s.Current r) : s.Current r₀ := by
  rcases h with rfl | rfl
  · exact hc
  · revert hc
    unfold ShelfData.Current
    cases r₀.kind with
    | load _ | more _ _ _ | search _ => exact fun hc => absurd hc.1 Bool.noConfusion
    | poll _ | delete _ | updateCategory _ _ | rename _ _ => exact id

theorem Good.aborted {r₀ : Request I C} (h : Good s r₀) (hr : Aborted r₀ r) : Good s r := by
  have hcurrent := fun hc => hr.current (s := s) hc
  rcases hr with rfl | rfl
  · exact h
  · exact ⟨h.numbered, h.served, fun ho hc => h.page ho (hcurrent hc),
      fun ho hc => h.carried ho (hcurrent hc)⟩

/-! ## Steps of the hook -/

theorem abort_eq (s : ShelfData I C) (controller : Option ℕ) :
    ∃ rs, s.abort controller = { s with requests := rs } ∧
    ∀ r ∈ rs, ∃ r₀ ∈ s.requests, Aborted r₀ r := by
  unfold ShelfData.abort
  split
  · exact ⟨s.requests, rfl, fun r hr => ⟨r, hr, Or.inl rfl⟩⟩
  · next i =>
    refine ⟨_, rfl, ?_⟩
    intro r hr
    obtain ⟨j, hj⟩ := List.mem_iff_getElem?.mp hr
    rw [List.getElem?_modify] at hj
    obtain ⟨r₀, hr₀, hj⟩ := Option.map_eq_some_iff.mp hj
    refine ⟨r₀, List.mem_of_getElem? hr₀, ?_⟩
    split at hj
    · exact Or.inr hj.symm
    · exact Or.inl hj.symm

/-- Two controllers are told to abort. -/
theorem abort_abort_eq (s : ShelfData I C) (controller controller' : Option ℕ) :
    ∃ rs, (s.abort controller).abort controller' = { s with requests := rs } ∧
      ∀ r ∈ rs, ∃ r₀ ∈ s.requests, Aborted r₀ r := by
  obtain ⟨rs, he, hrs⟩ := abort_eq s controller
  obtain ⟨rs', he', hrs'⟩ := abort_eq (s.abort controller) controller'
  refine ⟨rs', by rw [he', he], ?_⟩
  intro r hr
  obtain ⟨r₁, hr₁, h₁⟩ := hrs' r hr
  rw [he] at hr₁
  obtain ⟨r₀, hr₀, h₀⟩ := hrs r₁ hr₁
  refine ⟨r₀, hr₀, ?_⟩
  rcases h₁ with rfl | rfl
  · exact h₀
  · rcases h₀ with rfl | rfl
    · exact Or.inr rfl
    · exact Or.inr rfl

theorem Inv.aborted (h : Inv s) {rs : List (Request I C)}
    (hrs : ∀ r ∈ rs, ∃ r₀ ∈ s.requests, Aborted r₀ r) :
    ∀ r ∈ rs, Good s r := by
  intro r hr
  obtain ⟨r₀, hr₀, haborted⟩ := hrs r hr
  exact (h.requests r₀ hr₀).aborted haborted

theorem Inv.loadBooks (h : Inv s) : Inv s.loadBooks := by
  obtain ⟨rs, he, hrs⟩ := abort_abort_eq s s.loadAbort s.moreAbort
  simp only [ShelfData.loadBooks, he]
  apply h.steady
  · exact ⟨rfl, rfl, rfl, Nat.le_succ _, le_rfl, le_rfl⟩
  · exact h.shown
  · exact h.timer
  · intro r hr
    rcases List.mem_append.mp hr with hr | hr
    · exact Or.inl (h.aborted hrs r hr)
    · rw [List.mem_singleton.mp hr]
      exact Or.inr (good_new [] (le_refl (s.loadGeneration + 1)))

theorem Inv.loadMoreBooks {isSearch : Bool} (h : Inv s)
    (hstep : s.loadMoreBooks isSearch = some t) : Inv t := by
  rw [ShelfData.loadMoreBooks] at hstep
  split at hstep
  · cases hstep
  · cases hstep
    apply h.steady
    · exact ⟨rfl, rfl, rfl, le_rfl, le_rfl, le_rfl⟩
    · exact h.shown
    · exact h.timer
    · intro r hr
      rcases List.mem_append.mp hr with hr | hr
      · exact Or.inl (h.requests r hr)
      · rw [List.mem_singleton.mp hr]
        exact Or.inr (good_new [] ⟨le_refl s.loadGeneration, le_refl s.searchGeneration⟩)

theorem Inv.cleanUpLoad (h : Inv s) : Inv s.cleanUpLoad := by
  obtain ⟨rs, he, hrs⟩ := abort_abort_eq s s.loadAbort s.moreAbort
  rw [ShelfData.cleanUpLoad, he]
  apply h.steady
  · exact ⟨rfl, rfl, rfl, le_rfl, le_rfl, le_rfl⟩
  · exact h.shown
  · exact h.timer
  · exact fun r hr => Or.inl (h.aborted hrs r hr)

theorem Inv.logout (h : Inv s) : Inv s.logout := by
  obtain ⟨rs, he, hrs⟩ := abort_abort_eq s s.loadAbort s.moreAbort
  rw [ShelfData.logout, he]
  apply h.steady
  · exact ⟨rfl, rfl, rfl, Nat.le_succ _, Nat.le_succ _, le_rfl⟩
  · exact fun b hb => absurd hb List.not_mem_nil
  · exact fun g hg => (h.timer g hg).trans (Nat.le_succ _)
  · exact fun r hr => Or.inl (h.aborted hrs r hr)

theorem Inv.searchEffect (h : Inv s) (hasQuery : Bool) : Inv (s.searchEffect hasQuery) := by
  obtain ⟨rs, he, hrs⟩ := abort_abort_eq s s.searchAbort s.moreAbort
  simp only [ShelfData.searchEffect, he]
  apply h.steady
  · exact ⟨rfl, rfl, rfl, le_rfl, Nat.le_succ _, le_rfl⟩
  · intro b hb
    apply h.shown
    cases hasQuery with
    | true => exact hb
    | false => exact List.mem_append_left _ ((List.mem_append.mp hb).resolve_right List.not_mem_nil)
  · intro g hg
    cases hasQuery with
    | true =>
        cases hg
        exact le_rfl
    | false => cases hg
  · exact fun r hr => Or.inl (h.aborted hrs r hr)

theorem Inv.searchTimeout (h : Inv s) (hstep : s.searchTimeout = some t) : Inv t := by
  obtain ⟨g, hg, rfl⟩ := Option.map_eq_some_iff.mp hstep
  apply h.steady
  · exact ⟨rfl, rfl, rfl, le_rfl, le_rfl, le_rfl⟩
  · exact h.shown
  · exact nofun
  · intro r hr
    rcases List.mem_append.mp hr with hr | hr
    · exact Or.inl (h.requests r hr)
    · rw [List.mem_singleton.mp hr]
      exact Or.inr (good_new [] (h.timer g hg))

theorem Inv.runPollEffect [DecidableEq I] (h : Inv s) : Inv s.runPollEffect := by
  apply h.steady
  · exact ⟨rfl, rfl, rfl, le_rfl, le_rfl, Nat.le_succ _⟩
  · exact h.shown
  · exact h.timer
  · exact fun r hr => Or.inl (h.requests r hr)

theorem Inv.refreshProcessedBooks (h : Inv s) (hstep : s.refreshProcessedBooks = some t) : Inv t := by
  rw [ShelfData.refreshProcessedBooks] at hstep
  split at hstep
  · cases hstep
  · cases hstep
    apply h.steady
    · exact ⟨rfl, rfl, rfl, le_rfl, le_rfl, le_rfl⟩
    · exact h.shown
    · exact h.timer
    · intro r hr
      rcases List.mem_append.mp hr with hr | hr
      · exact Or.inl (h.requests r hr)
      · rw [List.mem_singleton.mp hr]
        exact Or.inr (good_new _ (le_refl s.pollEffect))

/-- A mutation is sent. -/
theorem Inv.send (h : Inv s) {kind : Kind I C} (hkind : Numbered s (.new kind)) : Inv (s.send kind) := by
  apply h.steady
  · exact ⟨rfl, rfl, rfl, le_rfl, le_rfl, le_rfl⟩
  · exact h.shown
  · exact h.timer
  · intro r hr
    rcases List.mem_append.mp hr with hr | hr
    · exact Or.inl (h.requests r hr)
    · rw [List.mem_singleton.mp hr]
      exact Or.inr (good_new [] hkind)

/-! ## Steps of the server -/

theorem history_length (s : ShelfData I C) : s.history.length = s.past.length + 1 := by
  rw [ShelfData.history, List.length_append, List.length_singleton]

theorem commit_history (s : ShelfData I C) (l : Library I C) :
    (s.commit l).history = s.history ++ [l] := rfl

/-- What the server has now is allowed. -/
theorem Inv.library (h : Inv s) {b : Book I C} (hb : b ∈ s.library.books) : Allowed s b := by
  constructor
  · intro d hd hmem
    obtain ⟨hn, hgone⟩ := h.deleted d hd
    exact (hgone _ hmem).last hn (Library.mem_ids hb)
  · intro m hm _
    have hn := h.moved m hm
    rw [history_length] at hn
    exact had_last (by omega) hb

theorem Served.concat {past : List (Library I C)} {last l : Library I C} (hl : NoReturn past last l)
    (h : Served (past ++ [last]) r) : Served (past ++ [last] ++ [l]) r := by
  revert h
  unfold Served
  have hlen : (past ++ [last] ++ [l]).length = (past ++ [last]).length + 1 := by
    rw [List.length_append, List.length_singleton]
  cases r.kind with
  | load _ | more _ _ _ | search _ | poll _ => exact id
  | delete _ =>
      rintro ⟨n, hp, hn, hids⟩
      exact ⟨n, hp, by omega, fun id hid => (hids id hid).concat hn hl⟩
  | updateCategory _ _ | rename _ _ =>
      rintro ⟨n, hp, hn, hbooks⟩
      exact ⟨n, hp, by omega, fun b hb => (hbooks b hb).concat⟩

theorem Inv.commit (h : Inv s) {l : Library I C} (hl : NoReturn s.past s.library l) : Inv (s.commit l) := by
  have hlen : (s.commit l).history.length = s.history.length + 1 := by
    rw [commit_history, List.length_append, List.length_singleton]
  refine ⟨?_, ?_, h.timer, ?_, ?_⟩
  · intro b hb
    obtain ⟨hd, hm⟩ := h.shown b hb
    exact ⟨hd, fun m hmem hid => (hm m hmem hid).concat⟩
  · intro r hr
    obtain ⟨hn, hs, hp, hc⟩ := h.requests r hr
    exact ⟨hn, fun ha => (hs ha).concat hl, hp,
      fun ho hcur b hb m hm hid => (hc ho hcur b hb m hm hid).concat⟩
  · intro d hd
    obtain ⟨hn, hgone⟩ := h.deleted d hd
    exact ⟨by omega, fun id hid => (hgone id hid).concat hn hl⟩
  · intro m hm
    have hn := h.moved m hm
    omega

theorem Inv.put (h : Inv s) {i : ℕ} (hr : Good s r) : Inv (s.put i r) := by
  apply h.steady
  · exact ⟨rfl, rfl, rfl, le_rfl, le_rfl, le_rfl⟩
  · exact h.shown
  · exact h.timer
  · intro r' hr'
    rcases List.mem_or_eq_of_mem_set hr' with hr' | rfl
    · exact Or.inl (h.requests r' hr')
    · exact Or.inl hr

theorem Good.failed (h : Good s r) : Good s { r with status := .failed } := by
  have hopen : ¬ ({ r with status := .failed } : Request I C).Open := by
    rintro (hsent | hanswered)
    · cases hsent
    · cases hanswered
  exact ⟨h.numbered, nofun, fun ho => absurd ho hopen, fun ho => absurd ho hopen⟩

theorem Good.done (h : Good s r) : Good s { r with status := .done } := by
  have hopen : ¬ ({ r with status := .done } : Request I C).Open := by
    rintro (hsent | hanswered)
    · cases hsent
    · cases hanswered
  exact ⟨h.numbered, nofun, fun ho => absurd ho hopen, fun ho => absurd ho hopen⟩

theorem Inv.lose {i : ℕ} (h : Inv s) (hi : s.requests[i]? = some r) (hstep : s.lose i r = some t) :
    Inv t := by
  rw [ShelfData.lose] at hstep
  split at hstep
  · cases hstep
    exact h.put (h.requests r (List.mem_of_getElem? hi)).failed
  · cases hstep

variable [DecidableEq I]

theorem Inv.others {l : Library I C} (h : Inv s) (hstep : s.others l = some t) : Inv t := by
  rw [ShelfData.others] at hstep
  split at hstep
  · next hl =>
    cases hstep
    exact h.commit hl
  · cases hstep

omit [DecidableEq I] in
theorem recategorized_noReturn (past : List (Library I C)) (last : Library I C) (f : Book I C → Option C) :
    NoReturn past last (last.recategorize f) := by
  intro id hid
  rw [Library.recategorize_ids] at hid
  exact Or.inl hid

variable [DecidableEq C]

theorem Inv.serve {i : ℕ} {page : List I} (h : Inv s) (hi : s.requests[i]? = some r)
    (hstep : s.serve i page r = some t) : Inv t := by
  have hgood := h.requests r (List.mem_of_getElem? hi)
  have hfind : ∀ {ids : List I} {b : Book I C}, b ∈ ids.filterMap s.library.find → Allowed s b :=
    fun hb => h.library (Library.mem_filterMap_find hb)
  have hlen := history_length s
  obtain ⟨kind, aborted, batches, position, books, answered, status⟩ := r
  simp only [ShelfData.serve] at hstep
  split at hstep
  · cases hstep
  · next hsent =>
    obtain rfl := not_not.mp hsent
    cases kind with
    | load _ | more _ _ _ | search _ =>
        cases hstep
        exact h.put ⟨hgood.numbered, fun _ => trivial, fun _ _ _ b hb => (hfind hb).1,
          fun _ _ b hb => (hfind hb).2⟩
    | poll _ =>
        cases batches with
        | nil => cases hstep
        | cons ids batches =>
            cases hstep
            refine h.put ⟨hgood.numbered, fun _ => trivial, by rintro _ _ ⟨⟩, ?_⟩
            intro _ hc b hb
            rcases List.mem_append.mp hb with hb | hb
            · exact hgood.carried (Or.inl rfl) hc b hb
            · exact (hfind hb).2
    | delete ids =>
        dsimp only at hstep
        split at hstep
        · next hsub =>
          cases hstep
          have hcommit : Inv (s.commit (s.library.remove ids)) :=
            h.commit fun id hid => Or.inl (Library.mem_remove_ids.mp hid).1
          refine hcommit.put ⟨trivial, fun _ => ⟨_, rfl, ?_, ?_⟩, by rintro _ _ ⟨⟩, ?_⟩
          · rw [commit_history, List.length_append, List.length_singleton]
            omega
          · intro id hid
            rw [commit_history, ← hlen]
            constructor
            · refine ⟨s.library, ?_, hsub hid⟩
              rw [List.take_append_of_le_length le_rfl, List.take_length]
              exact List.mem_append_right _ (List.mem_singleton_self _)
            · intro l hl
              rw [List.drop_append_of_le_length le_rfl, List.drop_length, List.nil_append,
                List.mem_singleton] at hl
              rw [hl, Library.mem_remove_ids]
              exact fun hmem => hmem.2 hid
          · intro _ _ b hb m hm hid
            exact (hgood.carried (Or.inl rfl) trivial b hb m hm hid).concat
        · cases hstep
          exact h.put hgood.failed
    | updateCategory ids category =>
        dsimp only at hstep
        split at hstep
        · cases hstep
          have hcommit : Inv (s.commit (s.library.updateCategory ids category)) :=
            h.commit (recategorized_noReturn _ _ _)
          refine hcommit.put ⟨trivial, fun _ => ⟨_, rfl, ?_, ?_⟩, by rintro _ _ ⟨⟩, ?_⟩
          · rw [commit_history, List.length_append, List.length_singleton]
            omega
          · intro b hb
            exact had_last hlen.ge (Library.mem_filterMap_find hb)
          · intro _ _ b hb
            exact (hcommit.library (Library.mem_filterMap_find hb)).2
        · cases hstep
          exact h.put hgood.failed
    | rename category nextCategory =>
        cases hstep
        have hcommit : Inv (s.commit (s.library.renameCategory category nextCategory)) :=
          h.commit (recategorized_noReturn _ _ _)
        have hrenamed : ∀ b ∈ ((s.library.books.filter (·.category = some category)).map Book.id).map
            (fun id => (⟨id, nextCategory, false⟩ : Book I C)),
            ∃ b' ∈ (s.library.renameCategory category nextCategory).books,
              b'.id = b.id ∧ b'.category = b.category := by
          intro b hb
          obtain ⟨id, hid, rfl⟩ := List.mem_map.mp hb
          obtain ⟨b₀, hb₀, rfl⟩ := List.mem_map.mp hid
          obtain ⟨hb₀, hcategory⟩ := List.mem_filter.mp hb₀
          exact ⟨_, List.mem_map_of_mem hb₀, rfl, if_pos (by simpa using hcategory)⟩
        refine hcommit.put ⟨trivial, fun _ => ⟨_, rfl, ?_, ?_⟩, by rintro _ _ ⟨⟩, ?_⟩
        · rw [commit_history, List.length_append, List.length_singleton]
          omega
        · intro b hb
          obtain ⟨b', hb', hid, hcategory⟩ := hrenamed b hb
          obtain ⟨l, hl, b₁, hb₁, hid₁, hcategory₁⟩ := had_last (h := s.history) hlen.ge hb'
          exact ⟨l, hl, b₁, hb₁, hid₁.trans hid, hcategory₁.trans hcategory⟩
        · intro _ _ b hb m hm hid
          obtain ⟨b', hb', hid', hcategory'⟩ := hrenamed b hb
          obtain ⟨l, hl, b₁, hb₁, hid₁, hcategory₁⟩ := (hcommit.library hb').2 m hm (hid' ▸ hid)
          exact ⟨l, hl, b₁, hb₁, hid₁.trans hid', hcategory₁.trans hcategory'⟩

/-! ## Answers -/

omit [DecidableEq C] in
theorem mem_mergeBooks {currentBooks page : List (Book I C)} {b : Book I C}
    (h : b ∈ ShelfData.mergeBooks currentBooks page) : b ∈ currentBooks ∨ b ∈ page := by
  have hset : ∀ (l acc : List (Book I C)), b ∈ l.foldl ShelfData.setBook acc → b ∈ acc ∨ b ∈ l := by
    intro l
    induction l with
    | nil => exact fun acc hb => Or.inl hb
    | cons book l ih =>
        intro acc hb
        rcases ih _ hb with hb | hb
        · rw [ShelfData.setBook] at hb
          split at hb
          · obtain ⟨b₀, hb₀, he⟩ := List.mem_map.mp hb
            split at he
            · exact Or.inr (he ▸ List.mem_cons_self)
            · exact Or.inl (he ▸ hb₀)
          · rcases List.mem_append.mp hb with hb | hb
            · exact Or.inl hb
            · exact Or.inr (List.mem_singleton.mp hb ▸ List.mem_cons_self)
        · exact Or.inr (List.mem_cons_of_mem _ hb)
  exact List.mem_append.mp ((hset _ _ h).resolve_left List.not_mem_nil)

omit [DecidableEq C] in
theorem mem_replaceBooks {updated books : List (Book I C)} {b : Book I C}
    (h : b ∈ ShelfData.replaceBooks updated books) : ∃ b₀ ∈ books, b.id = b₀.id ∧
      (b ∈ updated ∨ b = b₀ ∧ b₀.id ∉ updated.map Book.id) := by
  obtain ⟨b₀, hb₀, rfl⟩ := List.mem_map.mp h
  refine ⟨b₀, hb₀, ?_⟩
  cases hfind : updated.reverse.find? (·.id = b₀.id) with
  | none =>
      refine ⟨rfl, Or.inr ⟨rfl, ?_⟩⟩
      intro hmem
      obtain ⟨b, hb, hid⟩ := List.mem_map.mp hmem
      have hno := List.find?_eq_none.mp hfind b (List.mem_reverse.mpr hb)
      exact hno (decide_eq_true hid)
  | some b =>
      refine ⟨by simpa using List.find?_some hfind, Or.inl ?_⟩
      exact List.mem_reverse.mp (List.mem_of_find?_eq_some hfind)

omit [DecidableEq I] [DecidableEq C] in
theorem mem_edit_shown {f : List (Book I C) → List (Book I C)} {P : Book I C → Prop}
    (hf : ∀ l, (∀ b ∈ l, b ∈ s.shown) → ∀ b ∈ f l, P b) : ∀ b ∈ (s.edit f).shown, P b := by
  intro b hb
  rcases List.mem_append.mp hb with hb | hb
  · exact hf _ (fun b' hb' => List.mem_append_left _ hb') b hb
  · cases hresults : s.searchResults with
    | none =>
        rw [ShelfData.edit, hresults] at hb
        exact absurd hb List.not_mem_nil
    | some l =>
        rw [ShelfData.edit, hresults] at hb
        refine hf l (fun b' hb' => List.mem_append_right _ ?_) b hb
        rw [hresults]
        exact hb'

omit [DecidableEq I] [DecidableEq C] in
theorem Inv.show (h : Inv s) {books : List (Book I C)} {searchResults : Option (List (Book I C))}
    {polling : Bool} (hbooks : ∀ b ∈ books, Allowed s b)
    (hresults : ∀ b ∈ searchResults.getD [], Allowed s b) :
    Inv { s with books := books, searchResults := searchResults, polling := polling } := by
  apply h.steady
  · exact ⟨rfl, rfl, rfl, le_rfl, le_rfl, le_rfl⟩
  · intro b hb
    exact (List.mem_append.mp hb).elim (hbooks b) (hresults b)
  · exact h.timer
  · exact fun r hr => Or.inl (h.requests r hr)

omit [DecidableEq I] [DecidableEq C] in
theorem Inv.applyLoad (h : Inv s) (hr : r.status = .answered → ∀ b ∈ r.books, Allowed s b)
    (hstatus : r.status = .answered ∨ r.status = .failed) : Inv (s.applyLoad r) := by
  refine h.show ?_ fun b hb => h.shown b (List.mem_append_right _ hb)
  intro b hb
  split at hb
  · exact absurd hb List.not_mem_nil
  · next hne => exact hr (hstatus.resolve_right hne) b hb

omit [DecidableEq I] [DecidableEq C] in
theorem Inv.applySearch (h : Inv s) (hr : r.status = .answered → ∀ b ∈ r.books, Allowed s b)
    (hstatus : r.status = .answered ∨ r.status = .failed) : Inv (s.applySearch r) := by
  refine h.show (fun b hb => h.shown b (List.mem_append_left _ hb)) ?_
  intro b hb
  rw [Option.getD_some] at hb
  split at hb
  · exact absurd hb List.not_mem_nil
  · next hne => exact hr (hstatus.resolve_right hne) b hb

omit [DecidableEq C] in
theorem Inv.applyMore {isSearch : Bool} (h : Inv s) (hr : r.status = .answered → ∀ b ∈ r.books, Allowed s b)
    (hstatus : r.status = .answered ∨ r.status = .failed) : Inv (s.applyMore isSearch r) := by
  have hbooks : ∀ b ∈ s.books, Allowed s b := fun b hb => h.shown b (List.mem_append_left _ hb)
  have hresults : ∀ b ∈ s.searchResults.getD [], Allowed s b :=
    fun b hb => h.shown b (List.mem_append_right _ hb)
  rw [ShelfData.applyMore]
  split
  · exact h
  · next hne =>
    have hpage := hr (hstatus.resolve_right hne)
    split
    · refine h.show hbooks fun b hb => ?_
      exact (mem_mergeBooks hb).elim (hresults b) (hpage b)
    · refine h.show (fun b hb => ?_) hresults
      exact (mem_mergeBooks hb).elim (hbooks b) (hpage b)

omit [DecidableEq C] in
theorem Inv.applyPoll (h : Inv s)
    (hr : r.status = .answered → ∀ b ∈ r.books, ∀ m ∈ s.moved, b.id ∈ m.2 → Had s.history m.1 b)
    (hstatus : r.status = .answered ∨ r.status = .failed) : Inv (s.applyPoll r) := by
  have hedit : r.status = .answered →
      ∀ b ∈ (s.edit (ShelfData.replaceBooks r.books)).shown, Allowed s b := by
    intro hanswered
    apply mem_edit_shown
    intro l hl b hb
    obtain ⟨b₀, hb₀, hid, hb⟩ := mem_replaceBooks hb
    have hallowed := h.shown b₀ (hl b₀ hb₀)
    rcases hb with hb | ⟨rfl, -⟩
    · exact ⟨fun d hd => hid ▸ hallowed.1 d hd, hr hanswered b hb⟩
    · exact hallowed
  rw [ShelfData.applyPoll]
  split
  · exact h.show (fun b hb => h.shown b (List.mem_append_left _ hb)) fun b hb =>
      h.shown b (List.mem_append_right _ hb)
  · next hne =>
    have hshown := hedit (hstatus.resolve_right hne)
    exact h.show (fun b hb => hshown b (List.mem_append_left _ hb)) fun b hb =>
      hshown b (List.mem_append_right _ hb)

/-! ## Mutations -/

/-- No answer that is on its way, and that the hook would go on with, has a book that this
deletion removes, or a book with a category from before this change. A renaming itself
makes the hook drop the pages. -/
def Spared (s : ShelfData I C) (r : Request I C) : Prop :=
  match r.kind with
  | .load _ | .more _ _ _ | .search _ | .poll _ => True
  | .delete _ => ∀ r' ∈ s.requests, r'.Open → s.Current r' → r'.kind.isPage = true →
      ∀ b ∈ r'.books, b.id ∉ r.ids
  | .updateCategory _ _ => ∀ r' ∈ s.requests, r'.Open → s.Current r' →
      ∀ b ∈ r'.carries, b.id ∈ r.books.map Book.id → Had s.history (r.position.getD 0) b
  | .rename _ _ => ∀ r' ∈ s.requests, r'.Open → s.Current r' → r'.kind.isPage = false →
      ∀ b ∈ r'.carries, b.id ∈ r.ids → Had s.history (r.position.getD 0) b

instance (s : ShelfData I C) (r : Request I C) : Decidable (Spared s r) :=
  match h : r.kind with
  | .load _ | .more _ _ _ | .search _ | .poll _ => .isTrue (by simp only [Spared, h])
  | .delete _ => decidable_of_iff (∀ r' ∈ s.requests, r'.Open → s.Current r' → r'.kind.isPage = true →
      ∀ b ∈ r'.books, b.id ∉ r.ids) (by simp only [Spared, h])
  | .updateCategory _ _ => decidable_of_iff (∀ r' ∈ s.requests, r'.Open → s.Current r' →
      ∀ b ∈ r'.carries, b.id ∈ r.books.map Book.id → Had s.history (r.position.getD 0) b)
      (by simp only [Spared, h])
  | .rename _ _ => decidable_of_iff (∀ r' ∈ s.requests, r'.Open → s.Current r' → r'.kind.isPage = false →
      ∀ b ∈ r'.carries, b.id ∈ r.ids → Had s.history (r.position.getD 0) b) (by simp only [Spared, h])

omit [DecidableEq C] in
theorem Inv.applyDelete {ids : List I} (h : Inv s) (hkind : r.kind = .delete ids) (hgood : Good s r)
    (hspared : r.status = .answered → Spared s r) (hstatus : r.status = .answered ∨ r.status = .failed) :
    Inv (s.applyDelete r) := by
  rw [ShelfData.applyDelete]
  split
  · exact h
  · next hne =>
    have hanswered := hstatus.resolve_right hne
    have hserved := hgood.served hanswered
    have hothers := hspared hanswered
    simp only [Served, Spared, hkind] at hserved hothers
    obtain ⟨n, hp, hn, hgone⟩ := hserved
    rw [hp, Option.getD_some]
    refine ⟨?_, ?_, h.timer, ?_, h.moved⟩
    · apply mem_edit_shown
      intro l hl b hb
      obtain ⟨hb, hid⟩ := List.mem_filter.mp hb
      obtain ⟨hd, hm⟩ := h.shown b (hl b hb)
      refine ⟨?_, hm⟩
      intro d hmem
      rcases List.mem_append.mp hmem with hmem | hmem
      · exact hd d hmem
      · rw [List.mem_singleton.mp hmem]
        exact of_decide_eq_true hid
    · intro r' hr'
      have hgood' := h.requests r' hr'
      refine ⟨hgood'.numbered, hgood'.served, ?_, hgood'.carried⟩
      intro ho hc hpage b hb d hmem
      rcases List.mem_append.mp hmem with hmem | hmem
      · exact hgood'.page ho hc hpage b hb d hmem
      · rw [List.mem_singleton.mp hmem]
        exact hothers r' hr' ho hc hpage b hb
    · intro d hmem
      rcases List.mem_append.mp hmem with hmem | hmem
      · exact h.deleted d hmem
      · rw [List.mem_singleton.mp hmem]
        exact ⟨hn, hgone⟩

omit [DecidableEq C] in
theorem Inv.applyUpdateCategory {ids : List I} {category : Option C} (h : Inv s)
    (hkind : r.kind = .updateCategory ids category) (hgood : Good s r)
    (hspared : r.status = .answered → Spared s r) (hstatus : r.status = .answered ∨ r.status = .failed) :
    Inv (s.applyUpdateCategory r) := by
  rw [ShelfData.applyUpdateCategory]
  split
  · exact h
  · next hne =>
    have hanswered := hstatus.resolve_right hne
    have hserved := hgood.served hanswered
    have hothers := hspared hanswered
    have hcurrent : s.Current r := by simp only [ShelfData.Current, hkind]
    have hcarried := hgood.carried (Or.inr hanswered) hcurrent
    have hcarries : r.carries = r.books := by simp only [Request.carries, hkind]
    simp only [Served, Spared, hkind] at hserved hothers
    rw [hcarries] at hserved hcarried
    obtain ⟨n, hp, hn, hhad⟩ := hserved
    rw [hp, Option.getD_some] at hothers ⊢
    refine ⟨?_, ?_, h.timer, h.deleted, ?_⟩
    · apply mem_edit_shown
      intro l hl b hb
      obtain ⟨b₀, hb₀, hid, hb⟩ := mem_replaceBooks hb
      obtain ⟨hd, hm⟩ := h.shown b₀ (hl b₀ hb₀)
      refine ⟨fun d hmem => hid ▸ hd d hmem, ?_⟩
      intro m hmem hbid
      rcases List.mem_append.mp hmem with hmem | hmem
      · rcases hb with hb | ⟨rfl, -⟩
        · exact hcarried b hb m hmem hbid
        · exact hm m hmem hbid
      · rw [List.mem_singleton.mp hmem] at hbid ⊢
        rcases hb with hb | ⟨rfl, hno⟩
        · exact hhad b hb
        · exact absurd hbid hno
    · intro r' hr'
      have hgood' := h.requests r' hr'
      refine ⟨hgood'.numbered, hgood'.served, hgood'.page, ?_⟩
      intro ho hc b hb m hmem hbid
      rcases List.mem_append.mp hmem with hmem | hmem
      · exact hgood'.carried ho hc b hb m hmem hbid
      · rw [List.mem_singleton.mp hmem] at hbid ⊢
        exact hothers r' hr' ho hc b hb hbid
    · intro m hmem
      rcases List.mem_append.mp hmem with hmem | hmem
      · exact h.moved m hmem
      · rw [List.mem_singleton.mp hmem]
        exact hn

omit [DecidableEq I] [DecidableEq C] in
/-- After a renaming no page counts that has been asked for before. -/
theorem not_current_page (hnumbered : Numbered s r) (hl : s.loadGeneration < t.loadGeneration)
    (hs : s.searchGeneration < t.searchGeneration) (hpage : r.kind.isPage = true) : ¬ t.Current r := by
  revert hnumbered hpage
  unfold Numbered ShelfData.Current
  cases r.kind with
  | load g => exact fun hg _ hc => absurd (hc.2 ▸ hl) (Nat.not_lt.mpr hg)
  | more _ g g' => exact fun hg _ hc => absurd (hc.2.1 ▸ hl) (Nat.not_lt.mpr hg.1)
  | search g => exact fun hg _ hc => absurd (hc.2 ▸ hs) (Nat.not_lt.mpr hg)
  | poll _ | delete _ | updateCategory _ _ | rename _ _ =>
      exact fun _ hpage => absurd hpage Bool.noConfusion

omit [DecidableEq C] in
theorem Inv.applyRename {category : C} {nextCategory : Option C} (h : Inv s)
    (hkind : r.kind = .rename category nextCategory) (hgood : Good s r)
    (hspared : r.status = .answered → Spared s r) (hstatus : r.status = .answered ∨ r.status = .failed) :
    Inv (s.applyRename nextCategory r) := by
  obtain ⟨rs, he, hrs⟩ := abort_abort_eq s s.loadAbort s.moreAbort
  rw [ShelfData.applyRename]
  split
  · exact h
  · next hne =>
    have hanswered := hstatus.resolve_right hne
    have hserved := hgood.served hanswered
    have hothers := hspared hanswered
    have hcurrent : s.Current r := by simp only [ShelfData.Current, hkind]
    have hcarried := hgood.carried (Or.inr hanswered) hcurrent
    have hcarries : r.carries = r.ids.map fun id => ⟨id, nextCategory, false⟩ := by
      simp only [Request.carries, hkind]
    simp only [Served, Spared, hkind] at hserved hothers
    rw [hcarries] at hserved hcarried
    obtain ⟨n, hp, hn, hhad⟩ := hserved
    rw [hp, Option.getD_some] at hothers
    rw [he, hp, Option.getD_some]
    refine ⟨?_, ?_, fun g hg => (h.timer g hg).trans (Nat.le_succ _), h.deleted, ?_⟩
    · apply mem_edit_shown
      intro l hl b hb
      obtain ⟨b₀, hb₀, rfl⟩ := List.mem_map.mp hb
      obtain ⟨hd, hm⟩ := h.shown b₀ (hl b₀ hb₀)
      split
      · next hid =>
        have hmem : (⟨b₀.id, nextCategory, false⟩ : Book I C) ∈
            r.ids.map fun id => ⟨id, nextCategory, false⟩ :=
          List.mem_map.mpr ⟨b₀.id, hid, rfl⟩
        refine ⟨hd, ?_⟩
        intro m hmoved hbid
        rcases List.mem_append.mp hmoved with hmoved | hmoved
        · have hold := hcarried _ hmem m hmoved hbid
          exact hold
        · rw [List.mem_singleton.mp hmoved]
          have hnew := hhad _ hmem
          exact hnew
      · next hid =>
        refine ⟨hd, ?_⟩
        intro m hmoved hbid
        rcases List.mem_append.mp hmoved with hmoved | hmoved
        · exact hm m hmoved hbid
        · rw [List.mem_singleton.mp hmoved] at hbid
          exact absurd hbid hid
    · intro r' hr'
      obtain ⟨r₀, hr₀, haborted⟩ := hrs r' hr'
      have hgood' := (h.requests r₀ hr₀).aborted haborted
      let bumped : ShelfData I C :=
        { s with loadGeneration := s.loadGeneration + 1, searchGeneration := s.searchGeneration + 1 }
      have hlater : Good bumped r' :=
        Good.steady (s := s) ⟨rfl, rfl, rfl, Nat.le_succ _, Nat.le_succ _, le_rfl⟩ hgood'
      refine ⟨hlater.numbered, hlater.served, hlater.page, ?_⟩
      intro ho hc b hb m hmem hbid
      rcases List.mem_append.mp hmem with hmem | hmem
      · exact hlater.carried ho hc b hb m hmem hbid
      · rw [List.mem_singleton.mp hmem] at hbid ⊢
        have hc₀ : s.Current r₀ := by
          apply haborted.current
          exact current_mono (t := bumped) (Nat.le_succ _) (Nat.le_succ _) le_rfl hgood'.numbered hc
        have hnotPage : r₀.kind.isPage = false := by
          rw [Bool.eq_false_iff]
          intro hpage
          refine not_current_page (t := bumped) hgood'.numbered (Nat.lt_succ_self _)
            (Nat.lt_succ_self _) ?_ hc
          rcases haborted with rfl | rfl
          · exact hpage
          · exact hpage
        have hsame : r₀.Open ∧ r₀.carries = r'.carries := by
          rcases haborted with rfl | rfl
          · exact ⟨ho, rfl⟩
          · exact ⟨ho, rfl⟩
        exact hothers r₀ hr₀ hsame.1 hc₀ hnotPage b (hsame.2 ▸ hb) hbid
    · intro m hmem
      rcases List.mem_append.mp hmem with hmem | hmem
      · exact h.moved m hmem
      · rw [List.mem_singleton.mp hmem]
        exact hn

/-! ## Runs -/

/-- The condition on a step: the answer of a mutation finds no outdated answer on its way. -/
def Undisturbed (s : ShelfData I C) : ShelfData.Action I C → Prop
  | .answer i => ∀ r ∈ s.requests[i]?, r.status = .answered → Spared s r
  | _ => True

instance (s : ShelfData I C) : (a : ShelfData.Action I C) → Decidable (Undisturbed s a)
  | .answer i => inferInstanceAs (Decidable (∀ r ∈ s.requests[i]?, _))
  | .loadBooks | .loadMoreBooks _ | .cleanUpLoad | .logout | .searchEffect _ | .searchTimeout
  | .runPollEffect | .refreshProcessedBooks | .handleDelete _ | .handleDeleteMany _
  | .handleUpdateCategoryMany _ _ | .handleRenameCategory _ _ | .serve _ _ | .lose _ | .others _ =>
      .isTrue trivial

omit [DecidableEq C] in
theorem Inv.applyAnswer (h : Inv s) (hr : r ∈ s.requests) (hcurrent : s.Current r)
    (hspared : r.status = .answered → Spared s r) (hstatus : r.status = .answered ∨ r.status = .failed) :
    Inv (s.applyAnswer r) := by
  have hgood := h.requests r hr
  rw [ShelfData.applyAnswer]
  have hpage : r.kind.isPage = true → r.carries = r.books → r.status = .answered →
      ∀ b ∈ r.books, Allowed s b := by
    intro hpage hcarries hanswered b hb
    exact ⟨hgood.page (Or.inr hanswered) hcurrent hpage b hb,
      hgood.carried (Or.inr hanswered) hcurrent b (hcarries ▸ hb)⟩
  split
  · next hkind =>
    exact h.applyLoad (hpage (by rw [hkind]; rfl) (by simp only [Request.carries, hkind])) hstatus
  · next hkind =>
    exact h.applyMore (hpage (by rw [hkind]; rfl) (by simp only [Request.carries, hkind])) hstatus
  · next hkind =>
    exact h.applySearch (hpage (by rw [hkind]; rfl) (by simp only [Request.carries, hkind])) hstatus
  · next hkind =>
    refine h.applyPoll (fun hanswered b hb => hgood.carried (Or.inr hanswered) hcurrent b ?_) hstatus
    simpa only [Request.carries, hkind] using hb
  · next hkind => exact h.applyDelete hkind hgood hspared hstatus
  · next hkind => exact h.applyUpdateCategory hkind hgood hspared hstatus
  · next hkind => exact h.applyRename hkind hgood hspared hstatus

omit [DecidableEq C] in
theorem Inv.answer {i : ℕ} (h : Inv s) (hi : s.requests[i]? = some r)
    (hspared : r.status = .answered → Spared s r) (hstep : s.answer i r = some t) : Inv t := by
  rw [ShelfData.answer] at hstep
  split at hstep
  · next hstatus =>
    cases hstep
    have happlied : Inv (if s.Current r then s.applyAnswer r else s) := by
      split
      · next hcurrent => exact h.applyAnswer (List.mem_of_getElem? hi) hcurrent hspared hstatus
      · exact h
    generalize (if s.Current r then s.applyAnswer r else s) = s₁ at happlied
    have hdone : Inv (s₁.put i { (s₁.requests[i]?).getD r with status := .done }) := by
      cases hi₁ : s₁.requests[i]? with
      | none =>
          rw [ShelfData.put, List.set_eq_of_length_le (List.getElem?_eq_none_iff.mp hi₁)]
          exact happlied
      | some r₁ => exact happlied.put (happlied.requests r₁ (List.mem_of_getElem? hi₁)).done
    rw [ShelfData.finish]
    split
    · split
      · exact hdone.steady ⟨rfl, rfl, rfl, le_rfl, le_rfl, le_rfl⟩ hdone.shown hdone.timer
          fun r hr => Or.inl (hdone.requests r hr)
      · exact hdone
    · exact hdone
  · cases hstep

theorem inv_step {a : ShelfData.Action I C} (h : Inv s) (hundisturbed : Undisturbed s a)
    (hstep : s.step a = some t) : Inv t := by
  cases a with
  | loadBooks =>
      cases hstep
      exact h.loadBooks
  | loadMoreBooks isSearch => exact h.loadMoreBooks hstep
  | cleanUpLoad =>
      cases hstep
      exact h.cleanUpLoad
  | logout =>
      cases hstep
      exact h.logout
  | searchEffect hasQuery =>
      cases hstep
      exact h.searchEffect hasQuery
  | searchTimeout => exact h.searchTimeout hstep
  | runPollEffect =>
      cases hstep
      exact h.runPollEffect
  | refreshProcessedBooks => exact h.refreshProcessedBooks hstep
  | handleDelete id =>
      cases hstep
      exact h.send trivial
  | handleDeleteMany ids =>
      rw [ShelfData.step, ShelfData.handleDeleteMany] at hstep
      split at hstep
      · cases hstep
      · cases hstep
        exact h.send trivial
  | handleUpdateCategoryMany ids category =>
      rw [ShelfData.step, ShelfData.handleUpdateCategoryMany] at hstep
      split at hstep
      · cases hstep
      · cases hstep
        exact h.send trivial
  | handleRenameCategory category nextCategory =>
      cases hstep
      exact h.send trivial
  | serve i page =>
      obtain ⟨r, hi, hserve⟩ := Option.bind_eq_some_iff.mp hstep
      exact h.serve hi hserve
  | lose i =>
      obtain ⟨r, hi, hlose⟩ := Option.bind_eq_some_iff.mp hstep
      exact h.lose hi hlose
  | others library => exact h.others hstep
  | answer i =>
      obtain ⟨r, hi, hanswer⟩ := Option.bind_eq_some_iff.mp hstep
      exact h.answer hi (hundisturbed r hi) hanswer

/-- The shelf before its first request, beside a library. -/
def started (library : Library I C) : ShelfData I C :=
  ⟨[], none, 0, 0, false, none, none, none, none, 0, [], false, [], [], library, [], []⟩

abbrev Run (ok : ShelfData I C → ShelfData.Action I C → Prop) :
    ShelfData I C → ShelfData.Action I C → ShelfData I C → Prop :=
  Steps ShelfData.step ok

/-- The shelf shows no book that has been deleted; and of a book whose category has been
changed it shows only categories that the server has had since. -/
theorem mutations_not_undone {library : Library I C} {s : ShelfData I C}
    (hs : Reachable (· = started library) (Run Undisturbed) s) :
    (∀ d ∈ s.deleted, ∀ b ∈ s.shown, b.id ∉ d.2) ∧
      ∀ m ∈ s.moved, ∀ b ∈ s.shown, b.id ∈ m.2 → Had s.history m.1 b := by
  have h : Inv s := by
    refine hs.invariant Inv ?_ ?_
    · rintro s rfl
      exact ⟨nofun, nofun, nofun, nofun, nofun⟩
    · rintro s a t hinv ⟨hundisturbed, hstep⟩
      exact inv_step hinv hundisturbed hstep
  exact ⟨fun d hd b hb => (h.shown b hb).1 d hd, fun m hm b hb => (h.shown b hb).2 m hm⟩

/-! ## Outdated answers -/

def oneBook : Library ℕ String := ⟨[⟨1, some "old", true⟩], by decide⟩

/-- The first page, and then a second look at the shelf on its way. -/
def reloading : List (ShelfData.Action ℕ String) :=
  [.loadBooks, .serve 0 [1], .answer 0, .loadBooks, .serve 1 [1]]

/-- The answer of `loadBooks` comes when the book has been deleted. -/
def deletedMeanwhile : List (ShelfData.Action ℕ String) :=
  reloading ++ [.handleDelete 1, .serve 2 [], .answer 2, .answer 1]

/-- The answer of a status poll comes when the book has been moved. -/
def movedMeanwhile : List (ShelfData.Action ℕ String) :=
  [.loadBooks, .serve 0 [1], .answer 0, .runPollEffect, .refreshProcessedBooks, .serve 1 [],
    .handleUpdateCategoryMany [1] (some "new"), .serve 2 [], .answer 2, .answer 1]

theorem mutations_undone :
    (∃ s d b, Reachable (· = started oneBook) (Run fun _ _ => True) s ∧
      d ∈ s.deleted ∧ b ∈ s.shown ∧ b.id ∈ d.2) ∧
    ∃ s m b, Reachable (· = started oneBook) (Run fun _ _ => True) s ∧
      m ∈ s.moved ∧ b ∈ s.shown ∧ b.id ∈ m.2 ∧ ¬ Had s.history m.1 b := by
  have hdeleted : (replay ShelfData.step (fun _ _ => True) (started oneBook) deletedMeanwhile).any (fun s =>
      ∃ d ∈ s.deleted, ∃ b ∈ s.shown, b.id ∈ d.2) = true := by decide +kernel
  have hmoved : (replay ShelfData.step (fun _ _ => True) (started oneBook) movedMeanwhile).any (fun s =>
      ∃ m ∈ s.moved, ∃ b ∈ s.shown, b.id ∈ m.2 ∧ ¬ Had s.history m.1 b) = true := by decide +kernel
  constructor
  · obtain ⟨s, hs, hd⟩ := (Option.any_eq_true _ _).mp hdeleted
    obtain ⟨d, hd, b, hb, hid⟩ := of_decide_eq_true hd
    exact ⟨s, d, b, replay_reachable _ _ (.start rfl) hs, hd, hb, hid⟩
  · obtain ⟨s, hs, hm⟩ := (Option.any_eq_true _ _).mp hmoved
    obtain ⟨m, hm, b, hb, hid, hnot⟩ := of_decide_eq_true hm
    exact ⟨s, m, b, replay_reachable _ _ (.start rfl) hs, hm, hb, hid, hnot⟩

/-- A renaming, which drops the page on its way. -/
def renamedMeanwhile : List (ShelfData.Action ℕ String) :=
  reloading ++ [.handleRenameCategory "old" (some "new"), .serve 2 [], .answer 2, .answer 1]

theorem renaming_kept : ∃ s m b, Reachable (· = started oneBook) (Run Undisturbed) s ∧
    m ∈ s.moved ∧ b ∈ s.shown ∧ b.id ∈ m.2 ∧ Had s.history m.1 b := by
  have hrun : (replay ShelfData.step Undisturbed (started oneBook) renamedMeanwhile).any (fun s =>
      ∃ m ∈ s.moved, ∃ b ∈ s.shown, b.id ∈ m.2) = true := by decide +kernel
  obtain ⟨s, hs, hm⟩ := (Option.any_eq_true _ _).mp hrun
  obtain ⟨m, hm, b, hb, hid⟩ := of_decide_eq_true hm
  have hreach : Reachable (· = started oneBook) (Run Undisturbed) s := replay_reachable _ _ (.start rfl) hs
  exact ⟨s, m, b, hreach, hm, hb, hid, (mutations_not_undone hreach).2 m hm b hb hid⟩

end ZReader.Frontend.Shelf
