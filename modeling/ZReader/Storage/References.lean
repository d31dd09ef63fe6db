import ZReader.Storage.HashBackfill
import ZReader.Storage.ProgressChain

namespace ZReader.Storage

open Lib.Utf8 Lib.Strings Lib.KeyValue Lib.DerivedIndex Lib.Fallible Lib.Transition

variable {tx tx' : Tx} {passed : Bytes → Bool} {left : Bytes → Prop}

/-! ## Owners -/

def ownerOf (tx : Tx) (id : Bytes) : Option Bytes := (tx.books.get id).map (·.userID)

theorem ownerOf_eq_some {id u : Bytes} :
    ownerOf tx id = some u ↔ ∃ b, tx.books.get id = some b ∧ b.userID = u :=
  Option.map_eq_some_iff

theorem ownerOf_of_books (h : tx'.books = tx.books) : ownerOf tx' = ownerOf tx := by
  funext id
  rw [ownerOf, h, ownerOf]

/-- A record that is put under `id` decides about its owner, and about no other. -/
theorem ownerOf_of_update {id : Bytes} {o : Option Book}
    (h : tx'.books.get = Function.update tx.books.get id o) :
    ownerOf tx' = Function.update (ownerOf tx) id (o.map (·.userID)) := by
  funext k
  rw [ownerOf, h, Function.update_apply, Function.update_apply]
  split
  · rfl
  · rfl

theorem ownerOf_of_edit {id : Bytes} {b b' : Book} (hget : tx.books.get id = some b)
    (h : tx'.books.get = Function.update tx.books.get id (some b')) (hu : b'.userID = b.userID) :
    ownerOf tx' = ownerOf tx := by
  rw [ownerOf_of_update h, Option.map_some, hu, Function.update_eq_self_iff, ownerOf, hget]
  rfl

theorem ownerOf_of_map {f : Book → Book} (h : ∀ k, tx'.books.get k = (tx.books.get k).map f)
    (hf : ∀ k b, tx.books.get k = some b → (f b).userID = b.userID) : ownerOf tx' = ownerOf tx := by
  funext k
  rw [ownerOf, h, ownerOf]
  cases hb : tx.books.get k with
  | none => rfl
  | some b => exact congrArg some (hf k b hb)

theorem saveBook_ownerOf {book : Book} (h : saveBook book tx = .ok tx') :
    ownerOf tx' = Function.update (ownerOf tx) book.id (some book.userID) := by
  have hbooks : tx'.books.get = Function.update tx.books.get book.id
      (some { book with category := normalizeCategoryName book.category }) := by
    funext k
    rw [saveBook_books h, Function.update_apply]
    simp only [eq_comm]
  exact ownerOf_of_update hbooks

theorem createBook_ownerOf {book : Book} (h : createBook book tx = .ok tx') :
    ownerOf tx' = Function.update (ownerOf tx) book.id (some book.userID) :=
  ownerOf_of_update (createBook_books h)

theorem deleteBookDataInTx_ownerOf {id u : Bytes} {b : Book}
    (h : deleteBookDataInTx passed tx id u = .ok (b, tx')) :
    ownerOf tx id = some u ∧ ownerOf tx' = Function.update (ownerOf tx) id none := by
  refine ⟨?_, ownerOf_of_update (deleteBookDataInTx_rows h).2.1⟩
  rw [deleteBookDataInTx_eq] at h
  obtain ⟨b', hown, -⟩ := bind_eq_ok.mp h
  exact ownerOf_eq_some.mpr ⟨b', ownedBook_eq_ok.mp hown⟩

theorem updateBooksCategoryInTx_ownerOf {ids : List Bytes} {u : Bytes} {category : Option Bytes}
    {bs : List Book} (hc : Coherent tx)
    (h : updateBooksCategoryInTx tx ids u category = .ok (bs, tx')) : ownerOf tx' = ownerOf tx := by
  have hloop := foldlM_invariant
    (fun r : List Book × Tx => Coherent r.2 ∧ ownerOf r.2 = ownerOf tx) ?_ ⟨hc, rfl⟩ h
  · exact hloop.2
  · rintro id - r r' ⟨hcr, hr⟩ hstep
    obtain ⟨⟨b, tx₁⟩, h₁, hstep⟩ := bind_eq_ok.mp hstep
    cases hstep
    obtain ⟨old, hget, hbooks, -⟩ := updateBookCategory_rows (fun b hb => (hcr.keyed id b hb).1) h₁
    exact ⟨updateBookCategory_ok hcr h₁, (ownerOf_of_edit hget hbooks rfl).trans hr⟩

theorem renameBookCategory_ownerOf {u s : Bytes} {t : Option Bytes} {ids : List Bytes}
    (hc : Coherent tx) (h : renameBookCategory u s t tx = .ok (ids, tx')) :
    ownerOf tx' = ownerOf tx := by
  simp only [renameBookCategory] at h
  split at h
  · cases h
    rfl
  · split at h
    · cases h
    · obtain ⟨⟨bs, tx₁⟩, h₁, h⟩ := bind_eq_ok.mp h
      cases h
      exact updateBooksCategoryInTx_ownerOf hc h₁

theorem normalizeBookCategories_ownerOf (h : normalizeBookCategories tx = .ok tx') :
    ownerOf tx' = ownerOf tx := by
  rw [normalizeBookCategories] at h
  obtain ⟨tx₁, h₁, h⟩ := bind_eq_ok.mp h
  obtain ⟨tx₂, h₂, h⟩ := bind_eq_ok.mp h
  obtain ⟨tx₃, h₃, h⟩ := bind_eq_ok.mp h
  obtain ⟨tx₄, h₄, h₅⟩ := bind_eq_ok.mp h
  obtain ⟨bs, rfl, hbs⟩ := migrateBookCategories_ok h₁
  have hmap : ownerOf { tx with books := bs } = ownerOf tx := ownerOf_of_map hbs fun _ _ _ => rfl
  have hrest := (rebuildBookSortIndex_frame h₂).trans (rebuildBookSearchIndex_frame h₃)
  have hrest' := (rebuildBookSearchGramIndex_frame h₄).trans (rebuildLibrarySummaryIndex_frame h₅)
  exact (ownerOf_of_books (hrest.trans hrest').books).trans hmap

theorem saveProgressIfCurrent_ownerOf {p : Progress} {u : Bytes} {e : Option Time}
    (hc : Coherent tx) (h : saveProgressIfCurrent p u e tx = .ok tx') : ownerOf tx' = ownerOf tx := by
  obtain ⟨-, b, hget, hsame | hbooks⟩ := saveProgressIfCurrent_rows (fun b hb => (hc.keyed _ b hb).1) h
  · exact ownerOf_of_books hsame
  · exact ownerOf_of_edit hget hbooks rfl

theorem backfillBookContentHashes_ownerOf {hashes : List Book} (hc : Coherent tx)
    (h : backfillBookContentHashes hashes tx = .ok tx') : ownerOf tx' = ownerOf tx := by
  have hfilled := backfillBookContentHashes_backfilled hc h
  funext id
  cases hget' : tx'.books.get id with
  | none => rw [ownerOf, hget', ownerOf, (hfilled.gone id).mp hget']
  | some b' =>
      cases hget : tx.books.get id with
      | none =>
          rw [(hfilled.gone id).mpr hget] at hget'
          cases hget'
      | some b =>
          rw [ownerOf, hget', ownerOf, hget]
          rcases hfilled.kept id b b' hget hget' with rfl | ⟨-, s, -, -, rfl⟩
          · rfl
          · rfl

/-- What the assignment leaves alone when every book has an owner. -/
theorem assignUnownedDataToUser_ownerOf {u : Bytes} (howned : ∀ id, ownerOf tx id ≠ some [])
    (h : assignUnownedDataToUser u tx = .ok tx') :
    ownerOf tx' = ownerOf tx ∧ tx'.bookmarks = tx.bookmarks := by
  simp only [assignUnownedDataToUser] at h
  split at h
  · cases h
    exact ⟨rfl, rfl⟩
  · obtain ⟨tx₁, h₁, h⟩ := bind_eq_ok.mp h
    obtain ⟨tx₂, h₂, h⟩ := bind_eq_ok.mp h
    obtain ⟨tx₃, h₃, h⟩ := bind_eq_ok.mp h
    obtain ⟨tx₄, h₄, h⟩ := bind_eq_ok.mp h
    obtain ⟨tx₅, h₅, h⟩ := bind_eq_ok.mp h
    obtain ⟨tx₆, h₆, h⟩ := bind_eq_ok.mp h
    obtain ⟨tx₇, h₇, h⟩ := bind_eq_ok.mp h
    obtain ⟨tx₈, h₈, h⟩ := bind_eq_ok.mp h
    obtain ⟨tx₉, h₉, h₁₀⟩ := bind_eq_ok.mp h
    have howner : ownerOf tx₁ = ownerOf tx := by
      refine ownerOf_of_map (assignUnownedBooks_books h₁) fun k b hb => ?_
      rw [withOwner, if_pos]
      intro hnone
      exact howned k (ownerOf_eq_some.mpr ⟨b, hb, hnone⟩)
    have hmarks := (assignUnownedBooks_reading h₁).bookmarks
    obtain ⟨p, rfl⟩ := assignUnownedProgress_ok h₂
    obtain ⟨bs, rfl, hbs⟩ := migrateBookCategories_ok h₃
    have hmap : ownerOf { tx₁ with progress := p, books := bs } = ownerOf tx₁ :=
      ownerOf_of_map hbs fun _ _ _ => rfl
    have hlists := ((rebuildBookSortIndex_frame h₄).trans (rebuildBookSearchIndex_frame h₅)).trans
      (rebuildBookSearchGramIndex_frame h₆)
    obtain ⟨c, m, rfl⟩ := rebuildBookContentIndex_ok h₇
    have hcounted := rebuildLibrarySummaryIndex_frame h₈
    obtain ⟨t, rfl⟩ := rebuildProgressTimeIndex_ok h₉
    have htracked := rebuildMissingBookHashIndex_frame h₁₀
    constructor
    · have hbooks : tx'.books = bs := htracked.books.trans (hcounted.books.trans hlists.books)
      exact (ownerOf_of_books hbooks).trans (hmap.trans howner)
    · exact htracked.reading.bookmarks.trans (hcounted.reading.bookmarks.trans
        (hlists.reading.bookmarks.trans hmarks))

/-! ## Prefixes of keys -/

theorem get_deleteRows_of {V : Type} {b : Bucket V} {P : Bytes → Prop} [DecidablePred P]
    {l : List (Bytes × V)} (hl : ∀ k v, (k, v) ∈ l ↔ b.get k = some v ∧ P k) (k : Bytes) :
    (deleteRows b l).get k = if P k then none else b.get k := by
  rw [get_deleteRows]
  by_cases hp : P k
  · rw [if_pos hp]
    cases hget : b.get k with
    | none => rw [ite_self]
    | some v => exact if_pos (List.mem_map_of_mem ((hl k v).mpr ⟨hget, hp⟩))
  · rw [if_neg hp, if_neg]
    intro hk
    obtain ⟨⟨j, v⟩, hj, rfl⟩ := List.mem_map.mp hk
    exact hp ((hl j v).mp hj).2

theorem deleteBookmarksWithPrefix_get (passed : Bytes → Bool) (tx : Tx) (pre k : Bytes) :
    (deleteBookmarksWithPrefix passed tx pre).bookmarks.get k =
      if pre <+: k ∧ passed k = false then none else tx.bookmarks.get k := by
  refine get_deleteRows_of (P := fun k => pre <+: k ∧ passed k = false) ?_ k
  intro j m
  rw [List.mem_filter, Bucket.mem_seek_self, and_assoc, Bool.not_eq_true']

theorem mem_filter_pre {V : Type} {b : Bucket V} {pre k : Bytes} {v : V} :
    (k, v) ∈ b.entries.filter (fun row => pre <+: row.1) ↔ b.get k = some v ∧ pre <+: k := by
  rw [List.mem_filter, Bucket.mem_entries, decide_eq_true_eq]

theorem deleteProgressByUser_get (u : Bytes) (tx : Tx) (k : Bytes) :
    (deleteProgressByUser u tx).progress.get k =
      if (u ++ [colon]) <+: k then none else tx.progress.get k :=
  get_deleteRows_of (fun _ _ => mem_filter_pre) k

theorem deleteBookmarksByUser_get (u : Bytes) (tx : Tx) (k : Bytes) :
    (deleteBookmarksByUser u tx).bookmarks.get k =
      if (u ++ [colon]) <+: k then none else tx.bookmarks.get k :=
  get_deleteRows_of (fun _ _ => mem_filter_pre) k

/-- What the separator ends in two keys is the same when the keys extend one another. -/
theorem user_of_isPrefix {u v x : Bytes} (hu : colon ∉ u) (hv : colon ∉ v) :
    (u ++ [colon]) <+: (v ++ [colon] ++ x) ↔ u = v := by
  constructor
  · rintro ⟨y, hy⟩
    rw [List.append_assoc, List.append_assoc] at hy
    exact (append_cons_inj_left hu hv hy).1
  · rintro rfl
    exact ⟨x, rfl⟩

/-! ## Every record refers to a book of its user -/

/-- Bookmarks under the keys `left` may have been left behind. -/
structure References (left : Bytes → Prop) (tx : Tx) : Prop where
  owners : ∀ id u, ownerOf tx id = some u → WellFormedID u
  progress : ∀ k p, tx.progress.get k = some p →
    k = progressKey p.userID p.bookID ∧ ownerOf tx p.bookID = some p.userID
  bookmarks : ∀ k m, tx.bookmarks.get k = some m →
    k = bookmarkKey m.userID m.bookID m.id ∧ WellFormedID m.userID ∧ WellFormedID m.bookID
  marked : ∀ k m, tx.bookmarks.get k = some m → ¬ left k → ownerOf tx m.bookID = some m.userID

theorem references_migrated : References left .migrated where
  owners := by
    intro id u h
    simp [ownerOf, Tx.migrated] at h
  progress := by
    intro k p h
    simp [Tx.migrated] at h
  bookmarks := by
    intro k m h
    simp [Tx.migrated] at h
  marked := by
    intro k m h
    simp [Tx.migrated] at h

/-- Nothing is referred to that was not before. -/
theorem References.fewer (h : References left tx) (ho : ownerOf tx' = ownerOf tx)
    (hp : ∀ k p, tx'.progress.get k = some p → tx.progress.get k = some p)
    (hm : ∀ k m, tx'.bookmarks.get k = some m → tx.bookmarks.get k = some m) :
    References left tx' where
  owners := by
    rw [ho]
    exact h.owners
  progress := by
    intro k p hget
    rw [ho]
    exact h.progress k p (hp k p hget)
  bookmarks := fun k m hget => h.bookmarks k m (hm k m hget)
  marked := by
    intro k m hget hleft
    rw [ho]
    exact h.marked k m (hm k m hget) hleft

theorem References.booksOnly (h : References left tx) (ho : ownerOf tx' = ownerOf tx)
    (hr : BooksOnly tx tx') : References left tx' := by
  refine h.fewer ho ?_ ?_
  · rw [hr.progress]
    exact fun _ _ hget => hget
  · rw [hr.bookmarks]
    exact fun _ _ hget => hget

/-- Writing a record that keeps the owner, or under an unused identifier. -/
theorem References.write {id u : Bytes} (h : References left tx) (hu : WellFormedID u)
    (hsame : ∀ v, ownerOf tx id = some v → v = u)
    (ho : ownerOf tx' = Function.update (ownerOf tx) id (some u)) (hr : BooksOnly tx tx') :
    References left tx' := by
  have hkept : ∀ k v, ownerOf tx k = some v → ownerOf tx' k = some v := by
    intro k v hv
    rw [ho, Function.update_apply]
    split
    · next hk => rw [hsame v (hk ▸ hv)]
    · exact hv
  constructor
  · intro k v hv
    rw [ho, Function.update_apply] at hv
    split at hv
    · cases hv
      exact hu
    · exact h.owners k v hv
  · intro k p hget
    rw [hr.progress] at hget
    obtain ⟨hk, howner⟩ := h.progress k p hget
    exact ⟨hk, hkept _ _ howner⟩
  · intro k m hget
    rw [hr.bookmarks] at hget
    exact h.bookmarks k m hget
  · intro k m hget hleft
    rw [hr.bookmarks] at hget
    exact hkept _ _ (h.marked k m hget hleft)

theorem deleteBookDataInTx_progress {id u : Bytes} {b : Book}
    (h : deleteBookDataInTx passed tx id u = .ok (b, tx')) :
    tx'.progress = tx.progress.delete (progressKey u id) := by
  rw [(deleteBookDataInTx_drops h).progress, (dropReadingData_forgets passed tx id u).progress,
    forgetProgress_progress]

theorem deleteBookDataInTx_bookmarks {id u : Bytes} {b : Book}
    (h : deleteBookDataInTx passed tx id u = .ok (b, tx')) (k : Bytes) :
    tx'.bookmarks.get k =
      if bookmarkBookPrefix u id <+: k ∧ passed k = false then none else tx.bookmarks.get k := by
  rw [(deleteBookDataInTx_drops h).bookmarks, dropReadingData_bookmarks,
    deleteBookmarksWithPrefix_get]

theorem saveProgressIfCurrent_bookmarks {p : Progress} {u : Bytes} {e : Option Time}
    (h : saveProgressIfCurrent p u e tx = .ok tx') :
    ownerOf tx p.bookID = some u ∧ tx'.bookmarks = tx.bookmarks := by
  rw [saveProgressIfCurrent_eq] at h
  obtain ⟨b, hown, h⟩ := bind_eq_ok.mp h
  simp only at h
  split at h
  · cases h
  · obtain ⟨tx₁, h₁, h⟩ := bind_eq_ok.mp h
    obtain ⟨q, t, rfl⟩ := recordProgress_ok h
    obtain ⟨bs, s, c, rfl⟩ := touchBook_rows h₁
    exact ⟨ownerOf_eq_some.mpr ⟨b, ownedBook_eq_ok.mp hown⟩, rfl⟩

theorem forgetProgress_rest (tx : Tx) (key : Bytes) :
    ownerOf (forgetProgress tx key) = ownerOf tx ∧ (forgetProgress tx key).bookmarks = tx.bookmarks := by
  rw [forgetProgress]
  split
  · rw [removeProgressFromTimeIndex_rows]
    exact ⟨rfl, rfl⟩
  · exact ⟨rfl, rfl⟩

/-- A deletion takes along everything that refers to the book, but for the bookmarks that its
cursor passes over. -/
theorem References.delete {id u : Bytes} {b : Book} (h : References left tx)
    (hpassed : ∀ k, passed k = true → left k)
    (hdelete : deleteBookDataInTx passed tx id u = .ok (b, tx')) : References left tx' := by
  obtain ⟨howner, ho⟩ := deleteBookDataInTx_ownerOf hdelete
  constructor
  · intro k v hv
    rw [ho, Function.update_apply] at hv
    split at hv
    · cases hv
    · exact h.owners k v hv
  · intro k p hget
    rw [deleteBookDataInTx_progress hdelete, Bucket.get_delete] at hget
    split at hget
    · cases hget
    · next hne =>
      obtain ⟨hk, hp⟩ := h.progress k p hget
      have hid : p.bookID ≠ id := by
        intro hid
        rw [hid, howner] at hp
        cases hp
        exact hne (by rw [hk, hid])
      exact ⟨hk, by rw [ho, Function.update_of_ne hid, hp]⟩
  · intro k m hget
    rw [deleteBookDataInTx_bookmarks hdelete] at hget
    split at hget
    · cases hget
    · exact h.bookmarks k m hget
  · intro k m hget hleft
    rw [deleteBookDataInTx_bookmarks hdelete] at hget
    split at hget
    · cases hget
    · next hne =>
      have hm := h.marked k m hget hleft
      have hid : m.bookID ≠ id := by
        intro hid
        rw [hid, howner] at hm
        cases hm
        refine hne ⟨?_, Bool.eq_false_iff.mpr fun hk => hleft (hpassed k hk)⟩
        rw [(h.bookmarks k m hget).1, hid]
        exact ⟨m.id, rfl⟩
      rw [ho, Function.update_of_ne hid, hm]

theorem References.deleteBook {id u : Bytes} (h : References left tx)
    (hdelete : deleteBookData id u tx = .ok tx') : References left tx' := by
  rw [deleteBookData] at hdelete
  obtain ⟨⟨b, tx₁⟩, h₁, hdelete⟩ := bind_eq_ok.mp hdelete
  cases hdelete
  exact h.delete (fun _ hk => by cases hk) h₁

theorem References.deleteByUser {u : Bytes} (h : References left tx)
    (hdelete : deleteBooksByUser u tx = .ok tx') : References left tx' :=
  foldlM_invariant (References left) (fun _ _ _ _ ht hstep => ht.deleteBook hstep) h hdelete

theorem References.dropUser (h : References left tx) (u : Bytes) :
    References left (deleteBookmarksByUser u (deleteProgressByUser u tx)) := by
  refine h.fewer rfl ?_ ?_
  · intro k p hget
    exact foldl_delete_get _ _ hget
  · intro k m hget
    exact foldl_delete_get _ _ hget

theorem References.forget (h : References left tx) (key : Bytes) :
    References left (forgetProgress tx key) := by
  obtain ⟨ho, hm⟩ := forgetProgress_rest tx key
  refine h.fewer ho ?_ ?_
  · intro k p hget
    rw [forgetProgress_progress, Bucket.get_delete] at hget
    split at hget
    · cases hget
    · exact hget
  · rw [hm]
    exact fun _ _ hget => hget

theorem References.saveProgress {p : Progress} {u : Bytes} {e : Option Time}
    (h : References left tx) (hc : Coherent tx) (ht : Timed tx) (hu : WellFormedID u)
    (hsave : saveProgressIfCurrent p u e tx = .ok tx') : References left tx' := by
  have ho := saveProgressIfCurrent_ownerOf hc hsave
  obtain ⟨-, hget⟩ := saveProgressIfCurrent_timed hc ht hu.1 hsave
  obtain ⟨howner, hmarks⟩ := saveProgressIfCurrent_bookmarks hsave
  constructor
  · rw [ho]
    exact h.owners
  · intro k q hq
    rw [ho]
    rw [hget] at hq
    split at hq
    · next hk =>
      cases hq
      exact ⟨hk.symm, howner⟩
    · exact h.progress k q hq
  · intro k m hm
    rw [hmarks] at hm
    exact h.bookmarks k m hm
  · intro k m hm hleft
    rw [ho]
    rw [hmarks] at hm
    exact h.marked k m hm hleft

theorem References.saveBookmark {m : Bookmark} {u : Bytes} (h : References left tx)
    (hc : Coherent tx) (hsave : Storage.saveBookmark m u tx = .ok tx') : References left tx' := by
  rw [Storage.saveBookmark] at hsave
  obtain ⟨b, hown, hsave⟩ := bind_eq_ok.mp hsave
  obtain ⟨ms, hms, hsave⟩ := bind_eq_ok.mp hsave
  cases hsave
  have howner := ownerOf_eq_some.mpr ⟨b, ownedBook_eq_ok.mp hown⟩
  refine ⟨h.owners, h.progress, ?_, ?_⟩
  · intro k m' hm'
    change ms.get k = some m' at hm'
    rw [Bucket.get_put (store_eq_ok.mp hms)] at hm'
    split at hm'
    · next hk =>
      cases hm'
      exact ⟨hk.symm, h.owners _ _ howner, (hc.keyed _ b (ownedBook_eq_ok.mp hown).1).2⟩
    · exact h.bookmarks k m' hm'
  · intro k m' hm' hleft
    change ms.get k = some m' at hm'
    rw [Bucket.get_put (store_eq_ok.mp hms)] at hm'
    split at hm'
    · cases hm'
      exact howner
    · exact h.marked k m' hm' hleft

theorem References.deleteBookmark {b m u : Bytes} (h : References left tx)
    (hdelete : Storage.deleteBookmark b m u tx = .ok tx') : References left tx' := by
  rw [Storage.deleteBookmark] at hdelete
  obtain ⟨_, -, hdelete⟩ := bind_eq_ok.mp hdelete
  simp only at hdelete
  split at hdelete
  · cases hdelete
  · cases hdelete
    refine h.fewer rfl (fun _ _ hget => hget) ?_
    intro k m' hm'
    change (tx.bookmarks.delete _).get k = some m' at hm'
    rw [Bucket.get_delete] at hm'
    split at hm'
    · cases hm'
    · exact hm'

/-- All progress filed under a user is the user's own. -/
theorem References.ownsProgress (h : References left tx) {u : Bytes} (hu : WellFormedID u) :
    OwnsProgress tx u := by
  intro k p hget hpre
  obtain ⟨hk, howner⟩ := h.progress k p hget
  rw [hk, progressKey, user_of_isPrefix (colon_notMem hu) (colon_notMem (h.owners _ _ howner))] at hpre
  rw [hpre]
  exact ⟨rfl, ownerOf_eq_some.mp howner⟩

theorem References.howned (h : References left tx) (id : Bytes) : ownerOf tx id ≠ some [] :=
  fun hnone => (h.owners id [] hnone).1 rfl

/-! ## What a cursor passes over -/

/-- The books of a batch that have bookmarks. -/
def bookmarkedIDs (tx : Tx) (ids : List Bytes) (userID : Bytes) : List Bytes :=
  (uniqueNonEmptyStrings ids).filter fun id =>
    tx.bookmarks.seek (bookmarkBookPrefix userID id) (bookmarkBookPrefix userID id) ≠ []

def Unmarked (tx : Tx) (userID id : Bytes) : Prop :=
  ∀ k m, tx.bookmarks.get k = some m → ¬ bookmarkBookPrefix userID id <+: k

theorem seek_bookmarks_eq_nil {id u : Bytes} :
    tx.bookmarks.seek (bookmarkBookPrefix u id) (bookmarkBookPrefix u id) = [] ↔ Unmarked tx u id := by
  rw [List.eq_nil_iff_forall_not_mem, Prod.forall, Unmarked]
  simp only [Bucket.mem_seek_self, not_and]

theorem Unmarked.congr {id u : Bytes} (h : Unmarked tx u id) (hm : tx'.bookmarks = tx.bookmarks) :
    Unmarked tx' u id := by
  rw [Unmarked, hm]
  exact h

theorem passedOver_unchanged (passed : Bytes → Bool) (b : Bucket Bookmark) :
    passedOver passed b b = fun _ => false := if_pos rfl

theorem passedOver_nothing (b c : Bucket Bookmark) :
    passedOver (fun _ => false) b c = fun _ => false := ite_self _

theorem dropReadingData_unmarked {id u : Bytes} (h : Unmarked tx u id) (p q : Bytes → Bool) :
    dropReadingData p tx id u = dropReadingData q tx id u := by
  have hrows : ∀ t : Tx, t.bookmarks = tx.bookmarks →
      deleteBookmarksWithPrefix p t (bookmarkBookPrefix u id) =
        deleteBookmarksWithPrefix q t (bookmarkBookPrefix u id) := by
    intro t ht
    rw [deleteBookmarksWithPrefix, deleteBookmarksWithPrefix, ht, seek_bookmarks_eq_nil.mpr h]
    rfl
  rw [dropReadingData, dropReadingData]
  split
  · next progress _ =>
    obtain ⟨t, ht⟩ := removeProgressFromTimeIndex_eq tx progress
    simp only [ht]
    apply hrows
    rfl
  · apply hrows
    rfl

/-- Where there is nothing to delete it does not matter what the cursor passes over. -/
theorem deleteBookDataInTx_unmarked {id u : Bytes} (h : Unmarked tx u id) (p q : Bytes → Bool) :
    deleteBookDataInTx p tx id u = deleteBookDataInTx q tx id u := by
  rw [deleteBookDataInTx_withdraws, deleteBookDataInTx_withdraws]
  apply bind_congr_ok
  rintro ⟨b, t⟩ hwithdraw
  simp only
  rw [dropReadingData_unmarked (h.congr (withdrawBook_reading hwithdraw).bookmarks) p q]

theorem deleteBookDataInTx_keeps_unmarked {id u j : Bytes} {b : Book} (h : Unmarked tx u j)
    (hdelete : deleteBookDataInTx passed tx id u = .ok (b, tx')) : Unmarked tx' u j := by
  intro k m hget
  rw [deleteBookDataInTx_bookmarks hdelete] at hget
  split at hget
  · cases hget
  · exact h k m hget

theorem deleteBookDataInTx_unmarked_bookmarks {id u : Bytes} {b : Book} (h : Unmarked tx u id)
    (hdelete : deleteBookDataInTx passed tx id u = .ok (b, tx')) : tx'.bookmarks = tx.bookmarks := by
  apply Bucket.ext_get
  intro k
  rw [deleteBookDataInTx_bookmarks hdelete]
  split
  · next hk =>
    cases hget : tx.bookmarks.get k with
    | none => rfl
    | some m => exact absurd hk.1 (h k m hget)
  · rfl

/-- The loop of a batch meets the bookmarks as they were before it until it has deleted those of
one book. When no later book has any, the cursor never runs over changed rows. -/
theorem deleteBooksData_tidy {ids : List Bytes} {u : Bytes} (passed : Bytes → Bool)
    (h : (bookmarkedIDs tx ids u).length ≤ 1) :
    deleteBooksData ids u passed tx = deleteBooksData ids u (fun _ => false) tx := by
  let mark := fun id => decide
    (tx.bookmarks.seek (bookmarkBookPrefix u id) (bookmarkBookPrefix u id) ≠ [])
  have hunmarked : ∀ id, mark id = false ↔ Unmarked tx u id := by
    intro id
    rw [decide_eq_false_iff_not, not_not, seek_bookmarks_eq_nil]
  refine foldlM_congr (fun rest r =>
    (r.2.bookmarks = tx.bookmarks ∧ (rest.filter mark).length ≤ 1) ∨
      ∀ id ∈ rest, Unmarked r.2 u id) ?_ (.inl ⟨rfl, h⟩)
  rintro id rest ⟨done, t⟩ hI
  have hsame : deleteBookDataInTx (passedOver passed tx.bookmarks t.bookmarks) t id u =
      deleteBookDataInTx (passedOver (fun _ => false) tx.bookmarks t.bookmarks) t id u := by
    rcases hI with ⟨hsame, -⟩ | hnone
    · rw [hsame, passedOver_unchanged, passedOver_unchanged]
    · exact deleteBookDataInTx_unmarked (hnone id (by simp)) _ _
  constructor
  · simp only [hsame]
  · intro r' hstep
    obtain ⟨⟨b, t'⟩, hdelete, hstep⟩ := bind_eq_ok.mp hstep
    cases hstep
    rcases hI with ⟨hsame, hcount⟩ | hnone
    · cases hmark : mark id with
      | true =>
          rw [List.filter_cons_of_pos hmark, List.length_cons] at hcount
          have hempty : (rest.filter mark).length = 0 := by omega
          have hnone := List.filter_eq_nil_iff.mp (List.length_eq_zero_iff.mp hempty)
          refine .inr fun j hj => deleteBookDataInTx_keeps_unmarked ?_ hdelete
          exact ((hunmarked j).mp (Bool.eq_false_iff.mpr (hnone j hj))).congr hsame
      | false =>
          have hfree : Unmarked t u id := ((hunmarked id).mp hmark).congr hsame
          refine .inl ⟨(deleteBookDataInTx_unmarked_bookmarks hfree hdelete).trans hsame, ?_⟩
          rwa [List.filter_cons_of_neg (by simp [hmark])] at hcount
    · exact .inr fun j hj => deleteBookDataInTx_keeps_unmarked (hnone j (by simp [hj])) hdelete

theorem passedOver_le {b c : Bucket Bookmark} {k : Bytes} (h : passedOver passed b c k = true) :
    passed k = true := by
  rw [passedOver] at h
  split at h
  · cases h
  · exact h

/-- Bookmarks under the keys `left` are all that the transaction may leave behind: a batch in which
at most one book has bookmarks leaves none. -/
def Op.Leaves (left : Bytes → Prop) (db : Tx) : Op → Prop
  | .deleteBooksData ids userID passed =>
      (bookmarkedIDs db ids userID).length ≤ 1 ∨ ∀ k, passed k = true → left k
  | _ => True

theorem References.deleteBooks {ids : List Bytes} {u : Bytes} {bs : List Book}
    (h : References left tx) (hleaves : (Op.deleteBooksData ids u passed).Leaves left tx)
    (hdelete : deleteBooksData ids u passed tx = .ok (bs, tx')) : References left tx' := by
  have hloop : ∀ q : Bytes → Bool, (∀ k, q k = true → left k) →
      deleteBooksData ids u q tx = .ok (bs, tx') → References left tx' := by
    intro q hq hrun
    refine foldlM_invariant (fun r : List Book × Tx => References left r.2) ?_ h hrun
    intro id _ r r' hr hstep
    obtain ⟨⟨b, tx₁⟩, h₁, hstep⟩ := bind_eq_ok.mp hstep
    cases hstep
    exact hr.delete (fun k hk => hq k (passedOver_le hk)) h₁
  rcases hleaves with htidy | hpassed
  · rw [deleteBooksData_tidy passed htidy] at hdelete
    exact hloop _ (fun _ hk => by cases hk) hdelete
  · exact hloop passed hpassed hdelete

/-! ## Runs of the transactions that requests issue -/

/-- What the request handlers guarantee: identifiers of books and users are
generated, a new book gets an unused one, and an edited book stays with its owner. -/
def Op.Issued (db : Tx) : Op → Prop
  | .saveBook book =>
      Plain book.id book ∧ WellFormedID book.userID ∧
        ∀ old, db.books.get book.id = some old → old.userID = book.userID
  | .createBook book =>
      Plain book.id book ∧ WellFormedID book.userID ∧ db.books.get book.id = none
  | .saveProgressIfCurrent _ userID _ => WellFormedID userID
  | .backfillBookContentHashes hashes => ∀ snapshot ∈ hashes, nul ∉ snapshot.contentHash
  | .assignUnownedDataToUser userID => WellFormedID userID
  | .deleteUserData userID => WellFormedID userID
  | .purgeUser id => WellFormedID id
  | _ => True

/-- Everything that the records and the indexes of the library say fits together. -/
structure Consistent (tx : Tx) : Prop where
  coherent : Coherent tx
  timed : Timed tx
  contents : Contents tx
  references : References (fun _ => True) tx

theorem Op.Issued.admissible {db : Tx} {op : Op} (h : op.Issued db) : op.Admissible db := by
  cases op with
  | saveBook book => exact h.1.wellFormed
  | createBook book => exact ⟨h.1.wellFormed, h.2.2⟩
  | saveProgressIfCurrent p u e => exact h.1
  | _ => trivial

theorem Op.Issued.fileable {db : Tx} {op : Op} (h : op.Issued db) : op.Fileable db := by
  cases op with
  | saveBook book => exact h.1
  | createBook book => exact ⟨h.1, h.2.2⟩
  | backfillBookContentHashes hashes => exact h
  | assignUnownedDataToUser u => exact nul_notMem h
  | _ => trivial

theorem Op.Issued.orderly {db : Tx} {op : Op} (h : op.Issued db) (hr : References left db) :
    op.Orderly db := by
  cases op with
  | deleteUserData u => exact ⟨h.1, hr.ownsProgress h⟩
  | purgeUser id => exact ⟨h.1, hr.ownsProgress h⟩
  | _ => trivial

theorem Op.transaction_references {op : Op} (hc : Coherent tx) (ht : Timed tx)
    (hr : References left tx) (hi : op.Issued tx) (hleaves : op.Leaves left tx)
    (h : op.transaction tx = .ok tx') : References left tx' := by
  cases op with
  | saveBook book =>
      refine hr.write hi.2.1 ?_ (saveBook_ownerOf h) (saveBook_reading h)
      intro v hv
      obtain ⟨old, hold, rfl⟩ := ownerOf_eq_some.mp hv
      exact hi.2.2 old hold
  | createBook book =>
      refine hr.write hi.2.1 ?_ (createBook_ownerOf h) (createBook_reading h)
      intro v hv
      rw [ownerOf, hi.2.2] at hv
      cases hv
  | deleteBookData id u => exact hr.deleteBook h
  | deleteBooksData ids u passed =>
      obtain ⟨bs, h⟩ := map_snd_eq_ok h
      exact hr.deleteBooks hleaves h
  | updateBooksCategory ids u c =>
      obtain ⟨bs, h⟩ := map_snd_eq_ok h
      exact hr.booksOnly (updateBooksCategoryInTx_ownerOf hc h) (updateBooksCategoryInTx_reading h)
  | renameBookCategory u s t =>
      obtain ⟨ids, h⟩ := map_snd_eq_ok h
      exact hr.booksOnly (renameBookCategory_ownerOf hc h) (renameBookCategory_reading h)
  | normalizeBookCategories =>
      exact hr.booksOnly (normalizeBookCategories_ownerOf h) (normalizeBookCategories_reading h)
  | saveProgressIfCurrent p u e => exact hr.saveProgress hc ht hi h
  | backfillBookContentHashes hs =>
      exact hr.booksOnly (backfillBookContentHashes_ownerOf hc h) (backfillBookContentHashes_reading h)
  | assignUnownedDataToUser u =>
      obtain ⟨ho, hm⟩ := assignUnownedDataToUser_ownerOf hr.howned h
      refine hr.fewer ho ?_ ?_
      · rw [(assignUnownedDataToUser_timed ht h).2]
        exact fun _ _ hget => hget
      · rw [hm]
        exact fun _ _ hget => hget
  | deleteUserData u =>
      rw [transaction, Storage.deleteUserData] at h
      obtain ⟨tx₁, h₁, h⟩ := bind_eq_ok.mp h
      cases h
      exact (hr.deleteByUser h₁).dropUser u
  | purgeUser id =>
      simp only [transaction, Storage.purgeUser] at h
      split at h
      · cases h
      · obtain ⟨tx₁, h₁, h⟩ := bind_eq_ok.mp h
        cases h
        exact ((hr.deleteByUser h₁).dropUser id).fewer rfl (fun _ _ hget => hget) fun _ _ hget => hget
  | deleteProgress b u =>
      have he : tx' = forgetProgress tx (progressKey u b) := by
        simp only [transaction, Storage.deleteProgress] at h
        cases h
        rfl
      rw [he]
      exact hr.forget _
  | saveUser user =>
      simp only [transaction, Storage.saveUser] at h
      obtain ⟨us, -, h⟩ := bind_eq_ok.mp h
      obtain ⟨un, -, h⟩ := bind_eq_ok.mp h
      cases h
      exact hr.fewer rfl (fun _ _ hget => hget) fun _ _ hget => hget
  | deleteUser id =>
      simp only [transaction, Storage.deleteUser] at h
      split at h
      · cases h
      · cases h
        exact hr.fewer rfl (fun _ _ hget => hget) fun _ _ hget => hget
  | saveBookmark m u => exact hr.saveBookmark hc h
  | deleteBookmark b m u => exact hr.deleteBookmark h

def Op.IssuedStep (db : Tx) (op : Op) (db' : Tx) : Prop := op.Issued db ∧ db' = op.run db

/-- The states that requests and their background work lead to. -/
abbrev Requested (db : Tx) : Prop := Reachable (· = Tx.migrated) Op.IssuedStep db

theorem Op.leaves_true (op : Op) (db : Tx) : op.Leaves (fun _ => True) db := by
  cases op with
  | deleteBooksData ids u passed => exact .inr fun _ _ => trivial
  | _ => trivial

theorem Consistent.transaction (hI : Consistent tx) (op : Op) (hi : op.Issued tx)
    (h : op.transaction tx = .ok tx') : Consistent tx' where
  coherent := Op.transaction_coherent hI.coherent hi.admissible h
  timed := Op.transaction_timed hI.coherent hI.timed hi.admissible (hi.orderly hI.references) h
  contents := Op.transaction_contents hI.contents hi.fileable h
  references := Op.transaction_references hI.coherent hI.timed hI.references hi
    (op.leaves_true tx) h

theorem consistent_migrated : Consistent .migrated :=
  ⟨coherent_migrated, timed_migrated, contents_migrated, references_migrated⟩

theorem Requested.consistent {db : Tx} (h : Requested db) : Consistent db := by
  refine h.invariant Consistent ?_ ?_
  · rintro db rfl
    exact consistent_migrated
  · rintro db op db' hI ⟨hi, rfl⟩
    exact Tx.update_induction hI fun _ ht => hI.transaction op hi ht

/-- The states of the runs that can leave bookmarks behind under the keys `left` only. -/
abbrev RequestedLeaving (left : Bytes → Prop) (db : Tx) : Prop :=
  Reachable (· = Tx.migrated) (fun db (op : Op) db' => op.IssuedStep db db' ∧ op.Leaves left db) db

/-- Whatever requests are served in whatever order, every progress record refers to a stored book
of its own user under its own key, the time index has the rows of the progress records and no
others, and every bookmark lies under its own key and refers to a stored book of its own user,
unless a cursor has passed over it in the deletion of several bookmarked books. -/
theorem requested_references {db : Tx} (h : RequestedLeaving left db) :
    (∀ k p, db.progress.get k = some p → k = progressKey p.userID p.bookID ∧
      ∃ b, db.books.get p.bookID = some b ∧ b.userID = p.userID) ∧
    (∀ k m, db.bookmarks.get k = some m → k = bookmarkKey m.userID m.bookID m.id ∧
      (¬ left k → ∃ b, db.books.get m.bookID = some b ∧ b.userID = m.userID)) ∧
    TimesMirrored db := by
  have hI : Consistent db ∧ References left db := by
    refine h.invariant (fun db => Consistent db ∧ References left db) ?_ ?_
    · rintro db rfl
      exact ⟨consistent_migrated, references_migrated⟩
    · rintro db op db' hdb ⟨⟨hi, rfl⟩, hleaves⟩
      refine Tx.update_induction (P := fun db => Consistent db ∧ References left db) hdb ?_
      intro tx ht
      exact ⟨hdb.1.transaction op hi ht,
        Op.transaction_references hdb.1.coherent hdb.1.timed hdb.2 hi hleaves ht⟩
  refine ⟨?_, ?_, hI.1.timed.mirrored⟩
  · intro k p hget
    obtain ⟨hk, howner⟩ := hI.2.progress k p hget
    exact ⟨hk, ownerOf_eq_some.mp howner⟩
  · intro k m hget
    exact ⟨(hI.2.bookmarks k m hget).1, fun hleft => ownerOf_eq_some.mp (hI.2.marked k m hget hleft)⟩

/-- The bookmark `id` of the owner of the sample book. -/
def sampleBookmark (id bookID : Bytes) : Bookmark :=
  ⟨id, bookID, [], ascii "c", 0, [], [], ⟨10 ^ 18⟩⟩

/-- The sample book, read and marked by its owner. -/
def marked : Tx :=
  (Op.saveBookmark (sampleBookmark (ascii "m") (ascii "b")) (ascii "u")).run
    ((Op.saveProgressIfCurrent sampleProgress (ascii "u") none).run uploaded)

theorem marked_leaving (left : Bytes → Prop) : RequestedLeaving left marked := by
  have hcreated : RequestedLeaving left uploaded := by
    refine Reachable.next (a := .createBook sampleBook) (.start rfl) ⟨⟨⟨?_, by decide, ?_⟩, rfl⟩, trivial⟩
    · exact ⟨rfl, by decide, by decide, by decide⟩
    · simp [Tx.migrated]
  have hread : RequestedLeaving left
      ((Op.saveProgressIfCurrent sampleProgress (ascii "u") none).run uploaded) :=
    Reachable.next (a := .saveProgressIfCurrent sampleProgress (ascii "u") none) hcreated
      ⟨⟨(by decide : WellFormedID (ascii "u")), rfl⟩, trivial⟩
  exact Reachable.next (a := .saveBookmark _ (ascii "u")) hread ⟨⟨trivial, rfl⟩, trivial⟩

theorem marked_requested : Requested marked :=
  (marked_leaving fun _ => True).mono fun _ _ _ h => h.1

/-- A second marked book, and both deleted in one batch, in which a cursor goes from the first
bookmark of the second book past the next one. -/
def batchDeleted : Tx :=
  (Op.deleteBooksData [ascii "b", ascii "c"] (ascii "u") (· == ascii "u:c:o")).run
    ((Op.saveBookmark (sampleBookmark (ascii "o") (ascii "c")) (ascii "u")).run
      ((Op.saveBookmark (sampleBookmark (ascii "n") (ascii "c")) (ascii "u")).run
        ((Op.createBook { sampleBook with id := ascii "c" }).run marked)))

theorem batchDeleted_references :
    (batchDeleted.bookmarks.entries.map Prod.fst = [ascii "u:c:o"] ∧
      batchDeleted.books.get (ascii "c") = none) ∧
    ∀ k m, batchDeleted.bookmarks.get k = some m → k = bookmarkKey m.userID m.bookID m.id ∧
      (k ≠ ascii "u:c:o" → ∃ b, batchDeleted.books.get m.bookID = some b ∧ b.userID = m.userID) := by
  have hsecond : RequestedLeaving (· = ascii "u:c:o")
      ((Op.createBook { sampleBook with id := ascii "c" }).run marked) := by
    refine Reachable.next (a := .createBook _) (marked_leaving _) ⟨⟨⟨?_, by decide, ?_⟩, rfl⟩, trivial⟩
    · exact ⟨rfl, by decide, by decide, by decide⟩
    · exact Option.isNone_iff_eq_none.mp (by decide +kernel)
  have hmarks : RequestedLeaving (· = ascii "u:c:o")
      ((Op.saveBookmark (sampleBookmark (ascii "o") (ascii "c")) (ascii "u")).run
        ((Op.saveBookmark (sampleBookmark (ascii "n") (ascii "c")) (ascii "u")).run
          ((Op.createBook { sampleBook with id := ascii "c" }).run marked))) := by
    refine Reachable.next (a := .saveBookmark _ (ascii "u")) ?_ ⟨⟨trivial, rfl⟩, trivial⟩
    exact Reachable.next (a := .saveBookmark _ (ascii "u")) hsecond ⟨⟨trivial, rfl⟩, trivial⟩
  have hdeleted : RequestedLeaving (· = ascii "u:c:o") batchDeleted :=
    Reachable.next (a := .deleteBooksData _ _ _) hmarks
      ⟨⟨trivial, rfl⟩, .inr fun k hk => beq_iff_eq.mp hk⟩
  exact ⟨⟨by decide +kernel, Option.isNone_iff_eq_none.mp (by decide +kernel)⟩,
    (requested_references hdeleted).2.1⟩

end ZReader.Storage
