import ZReader.Storage.Erasure
import ZReader.Storage.Parts

namespace ZReader.Storage

open Lib.Utf8 Lib.Strings Lib.KeyValue Lib.DerivedIndex Lib.Fallible Lib.Isolation

variable {u : UserID} {P : Bucket Book → Prop}

/-! ## The records -/

/-- Every book lies under its own identifier. -/
def Shelved (b : Bucket Book) : Prop := ∀ k v, b.get k = some v → v.id = k

/-- The identifier is free, or its book is the user's. -/
def Held (u : UserID) (id : Bytes) (b : Bucket Book) : Prop :=
  Shelved b ∧ ∀ old, b.get id = some old → old.userID = u.1

theorem ownBooks_congr {s t : Tx} (h : view u s = view u t) : ownBooks u s.books = ownBooks u t.books :=
  congrArg View.books h

theorem Held.own {id : Bytes} {b : Bucket Book} (h : Held u id b) : ownBooks u b id = b.get id := by
  rw [ownBooks]
  cases hget : b.get id with
  | none => rfl
  | some old => simp [Option.filter, h.2 old hget]

theorem foreign {w : UserID} (hw : w ≠ u) {x : Option Book} (hx : ∀ b ∈ x, b.userID = u.1) :
    x.filter (·.userID = w.1) = none := by
  cases x with
  | none => rfl
  | some b =>
      have hne : b.userID ≠ w.1 := by
        rw [hx b rfl]
        exact fun he => hw (Subtype.ext he.symm)
      simp [Option.filter, hne]

theorem seen_book (id : Bytes) : Seen view (Ready (Held u id)) u (fun tx => tx.books.get id) := by
  intro s t hs ht h
  change s.books.get id = t.books.get id
  rw [← hs.books.own, ← ht.books.own, ownBooks_congr h]

theorem seen_ownedBook (id : Bytes) : Seen view (Ready P) u (fun tx => ownedBook tx id u.1) := by
  have howned : ∀ tx : Tx, ownedBook tx id u.1 =
      (ownBooks u tx.books id).elim (.error .notFound) .ok := by
    intro tx
    rw [ownedBook, ownBooks]
    cases tx.books.get id with
    | none => rfl
    | some b =>
        by_cases hu : b.userID = u.1
        · simp [Option.filter, hu]
        · simp [Option.filter, hu]
  intro s t _ _ h
  change ownedBook s id u.1 = ownedBook t id u.1
  rw [howned, howned, ownBooks_congr h]

/-- The books bucket after a change at one identifier. -/
theorem changeBook_acts {id : Bytes} {f : Bucket Book → Result (Bucket Book)} (x : Option Book)
    (hx : ∀ b ∈ x, b.userID = u.1 ∧ b.id = id) (hfail : ∀ b c e, f b = .error e → f c = .error e)
    (hf : ∀ b c, f b = .ok c → ∀ k, c.get k = if id = k then x else b.get k) :
    Acts view (Ready (Held u id)) u (fun tx => f tx.books >>= fun b => .ok { tx with books := b }) where
  reads := by
    intro s t _ _ h
    simp only [silent]
    cases hb : f s.books with
    | error e =>
        rw [hfail _ _ _ hb]
        rfl
    | ok b =>
        cases hc : f t.books with
        | error e =>
            rw [hfail _ _ _ hc] at hb
            cases hb
        | ok c =>
            have hbooks : ownBooks u b = ownBooks u c := by
              funext k
              rw [ownBooks, ownBooks, hf _ _ hb, hf _ _ hc]
              split
              · rfl
              · exact congrFun (ownBooks_congr h) k
            have hview : ({ view u s with books := ownBooks u b } : View) =
                { view u t with books := ownBooks u c } := by
              rw [h, hbooks]
            exact congrArg (fun v => Except.ok ((), v)) hview
  keeps := by
    intro s _ t w hs hw h
    obtain ⟨b, hb, h⟩ := bind_eq_ok.mp (silent_eq_ok.mp h)
    cases h
    have hbooks : ownBooks w b = ownBooks w s.books := by
      funext k
      rw [ownBooks, ownBooks, hf _ _ hb]
      split
      · next hk =>
        subst hk
        rw [foreign hw fun b hb => (hx b hb).1, foreign hw hs.books.2]
      · rfl
    change { view w s with books := ownBooks w b } = view w s
    rw [hbooks]
    rfl
  inv := by
    intro s _ t hs h
    obtain ⟨b, hb, h⟩ := bind_eq_ok.mp (silent_eq_ok.mp h)
    cases h
    have hheld : Held u id b := by
      constructor
      · intro k v hv
        rw [hf _ _ hb] at hv
        split at hv
        · next hk =>
          rw [← hk]
          exact (hx v hv).2
        · exact hs.books.1 k v hv
      · intro old hold
        rw [hf _ _ hb, if_pos rfl] at hold
        exact (hx old hold).1
    exact ⟨hheld, hs.categorySort, hs.gramCounts, hs.missing, hs.progress⟩

theorem storeBook_acts (book : Book) (hu : book.userID = u.1) :
    Acts view (Ready (Held u book.id)) u
      (fun tx => store tx.books book.id book >>= fun b => .ok { tx with books := b }) := by
  refine changeBook_acts (f := fun b => store b book.id book) (some book) ?_ ?_ ?_
  · intro b hb
    cases hb
    exact ⟨hu, rfl⟩
  · intro b c e he
    rcases store_cases b c book.id book book with ⟨e', hb, hc⟩ | ⟨b', c', hb, hc⟩
    · rw [hb] at he
      cases he
      exact hc
    · rw [hb] at he
      cases he
  · intro b c h k
    exact Bucket.get_put (store_eq_ok.mp h) k

theorem deleteBook_acts (id : Bytes) :
    Acts view (Ready (Held u id)) u
      (fun tx => (.ok { tx with books := tx.books.delete id } : Result Tx)) := by
  refine changeBook_acts (f := fun b => .ok (b.delete id)) none ?_ ?_ ?_
  · intro b hb
    cases hb
  · intro b c e he
    cases he
  · intro b c h k
    cases h
    exact Bucket.get_delete b id k

/-- The book of the user, and what is known of the state from then on. -/
theorem ownedBook_guard {A : Type} (id : Bytes) {f : Book → Tx → Result (A × Tx)}
    (hf : ∀ b, b.userID = u.1 → b.id = id → Isolated view (Ready (Held u id)) u (f b)) :
    Isolated view (Ready Shelved) u (fun tx => ownedBook tx id u.1 >>= fun b => f b tx) := by
  refine Isolated.guard (J := Ready (Held u id)) (seen_ownedBook id) ?_ ?_ ?_
  · intro tx b hr hb
    obtain ⟨hget, hu⟩ := ownedBook_eq_ok.mp hb
    refine hr.mono ⟨hr.books, ?_⟩
    intro old hold
    rw [hget] at hold
    cases hold
    exact hu
  · intro tx hr
    exact hr.mono hr.books.1
  · intro tx b hr hb
    obtain ⟨hget, hu⟩ := ownedBook_eq_ok.mp hb
    exact hf b hu (hr.books id b hget)

theorem ownedBook_guard_acts (id : Bytes) {f : Book → Tx → Result Tx}
    (hf : ∀ b, b.userID = u.1 → b.id = id → Acts view (Ready (Held u id)) u (f b)) :
    Acts view (Ready Shelved) u (fun tx => ownedBook tx id u.1 >>= fun b => f b tx) := by
  refine Isolated.congr (ownedBook_guard id (f := fun b => silent (f b)) hf) ?_
  intro tx _
  rw [silent]
  cases ownedBook tx id u.1 with
  | error e => rfl
  | ok b => rfl

/-! ## Progress and bookmarks -/

theorem Ready.ownProgress {tx : Tx} (h : Ready P tx) {k : Bytes} (hk : colonKey u k = true)
    {p : Progress} (hget : tx.progress.get k = some p) : p.userID = u.1 := h.progress u k p hget hk

theorem storeProgress_acts {k : Bytes} (hk : colonKey u k = true) {p : Progress} (hp : p.userID = u.1) :
    Acts view (Ready P) u
      (fun tx => store tx.progress k p >>= fun b => .ok { tx with progress := b }) := by
  refine progressPart.modify (store_acts colonKey_unique hk p) ?_
  intro tx b hr hb
  refine ⟨hr.books, hr.categorySort, hr.gramCounts, hr.missing, ?_⟩
  intro w j q hget hj
  change b.get j = some q at hget
  rw [Bucket.get_put (store_eq_ok.mp hb)] at hget
  split at hget
  · next he =>
    cases hget
    subst he
    rw [hp, colonKey_unique hk hj]
  · exact hr.progress w j q hget hj

theorem deleteProgress_row_acts {k : Bytes} (hk : colonKey u k = true) :
    Acts view (Ready P) u (fun tx => (.ok { tx with progress := tx.progress.delete k } : Result Tx)) := by
  refine progressPart.modify (delete_acts colonKey_unique hk) ?_
  intro tx b hr hb
  cases hb
  refine ⟨hr.books, hr.categorySort, hr.gramCounts, hr.missing, ?_⟩
  intro w j q hget hj
  change (tx.progress.delete k).get j = some q at hget
  rw [Bucket.get_delete] at hget
  split at hget
  · cases hget
  · exact hr.progress w j q hget hj

theorem nulKey_time {p : Progress} (hp : p.userID = u.1) : nulKey u (progressTimeIndexKey p) = true := by
  have hk := nulKey_append u (padded 19 (clampedTimestamp p.updatedAt).toNat ++ [nul] ++ p.bookID)
  rw [← hp] at hk
  simpa [progressTimeIndexKey, progressTimeIndexPrefix] using hk

theorem addProgressToTimeIndex_acts {p : Progress} (hp : p.userID = u.1) :
    Acts view (Ready P) u (addProgressToTimeIndex · p) :=
  Acts.ite Acts.pure (timePart.store (nulKey_time hp) p.bookID)

theorem removeProgressFromTimeIndex_acts {p : Progress} (hp : p.userID = u.1) :
    Acts view (Ready P) u (fun tx => (.ok (removeProgressFromTimeIndex tx p) : Result Tx)) := by
  have hdelete := timePart.delete (P := P) (nulKey_time hp)
  refine Acts.congr (Acts.ite (c := p.userID = [] ∨ p.bookID = []) Acts.pure hdelete) ?_
  intro tx _
  exact apply_ite Except.ok _ _ _

theorem seen_progress {k : Bytes} (hk : colonKey u k = true) :
    Seen view (Ready P) u (fun tx => tx.progress.get k) := progressPart.seen_get hk

/-- The progress under a key and its row in the time index. -/
theorem forgetProgress_acts {k : Bytes} (hk : colonKey u k = true) :
    Acts view (Ready P) u (fun tx => (.ok (forgetProgress tx k) : Result Tx)) := by
  have hrow : Acts view (Ready P) u (fun tx => (.ok ((tx.progress.get k).elim tx
      (removeProgressFromTimeIndex tx)) : Result Tx)) := by
    refine Acts.read (f := fun r tx => .ok (Option.elim r tx (removeProgressFromTimeIndex tx)))
      (seen_progress hk) ?_
    intro tx hr
    cases hget : tx.progress.get k with
    | none => exact Acts.pure
    | some p => exact removeProgressFromTimeIndex_acts (hr.ownProgress hk hget)
  refine Acts.congr (Acts.seq hrow (deleteProgress_row_acts hk)) ?_
  intro tx _
  rw [ok_bind, forgetProgress]
  cases tx.progress.get k with
  | none => rfl
  | some p => rfl

theorem bookmarkBookPrefix_owned (id k : Bytes) (h : bookmarkBookPrefix u.1 id <+: k) :
    colonKey u k = true := by
  obtain ⟨x, rfl⟩ := h
  simpa [bookmarkBookPrefix] using colonKey_append u (id ++ colon :: x)

/-- Rows below a prefix of the user's. -/
theorem deleteRows_acts {X : Type} {owns : UserID → Bytes → Bool} (hunique : Exclusive owns)
    {pre : Bytes} (hpre : ∀ k, pre <+: k → owns u k = true)
    (select : List (Bytes × X) → List (Bytes × X)) (hselect : ∀ l, select l ⊆ l) :
    ActsRows owns u (fun b : Bucket X =>
      .ok ((select (b.seek pre pre)).foldl (fun b row => b.delete row.1) b)) := by
  have hfold : ∀ l : List (Bytes × X), (∀ r ∈ l, owns u r.1 = true) →
      ActsRows owns u (fun b : Bucket X => .ok (l.foldl (fun b row => b.delete row.1) b)) := by
    intro l hl
    refine Acts.congr (Acts.fold (f := fun b row => .ok (b.delete row.1)) (l := l)
      fun r hr => delete_acts hunique (hl r hr)) ?_
    intro b _
    exact (List.foldlM_pure (m := Result)).symm
  refine Acts.read (f := fun l b => .ok (List.foldl (fun b row => b.delete row.1) b (select l)))
    (seen_rows (List.prefix_refl pre) hpre) ?_
  intro b _
  refine hfold _ ?_
  intro r hr
  exact hpre r.1 ((Bucket.mem_seek (List.prefix_refl pre)).mp (hselect _ hr)).2.2

theorem deleteBookmarksWithPrefix_acts (passed : Bytes → Bool) {pre : Bytes}
    (hpre : ∀ k, pre <+: k → colonKey u k = true) :
    Acts view (Ready P) u (fun tx => (.ok (deleteBookmarksWithPrefix passed tx pre) : Result Tx)) :=
  bookmarkPart.modify (deleteRows_acts colonKey_unique hpre (List.filter fun row => !passed row.1)
    fun _ => List.filter_sublist.subset)

theorem dropReadingData_acts (passed : Bytes → Bool) (id : Bytes) :
    Acts view (Ready P) u (fun tx => (.ok (dropReadingData passed tx id u.1) : Result Tx)) := by
  have hk : colonKey u (progressKey u.1 id) = true := colonKey_append u id
  refine Acts.congr (Acts.seq (forgetProgress_acts hk)
    (deleteBookmarksWithPrefix_acts passed (bookmarkBookPrefix_owned id))) ?_
  intro tx _
  rfl

/-! ## Transactions on books -/

theorem listBook_acts {book : Book} (h : book.userID = u.1) : Acts view (Ready P) u (listBook · book) :=
  Acts.seq (addBookToSortIndex_acts h) (Acts.seq (addBookToSearchIndex_acts h)
    (Acts.seq (addBookToSearchGramIndex_acts h) (Acts.seq (addBookToContentIndex_acts h)
      (adjustLibrarySummary_acts h 1))))

theorem unlistBook_acts {book : Book} (h : book.userID = u.1) :
    Acts view (Ready P) u (unlistBook · book) :=
  Acts.seq (adjustLibrarySummary_acts h (-1)) (Acts.seq (removeBookFromContentIndex_acts h)
    (Acts.seq (removeBookFromSortIndex_acts h) (Acts.seq (removeBookFromSearchIndex_acts h)
      (removeBookFromSearchGramIndex_acts h))))

theorem reassignBook_acts (id : Bytes) {old : Bytes} (hold : old = [] ∨ old = u.1) :
    Acts view (Ready P) u (reassignBook · id old u.1) := by
  rcases hold with rfl | rfl
  · simp only [reassignBook_nil]
    exact addBookToUserIndex_acts id
  · refine Acts.congr Acts.pure ?_
    intro tx _
    exact if_neg fun hne => hne rfl

/-- `saveBook` over the record it finds. -/
def replaceBook (book : Book) (old : Option Book) (tx : Tx) : Result Tx := do
  let b ← store tx.books book.id book
  let tx ← reassignBook { tx with books := b } book.id ((old.map (·.userID)).getD []) book.userID
  let tx ← unlistOldBook tx old
  listBook tx book

theorem replaceBook_acts (book : Book) {old : Option Book} (hu : book.userID = u.1)
    (hold : ∀ b ∈ old, b.userID = u.1) :
    Acts view (Ready (Held u book.id)) u (replaceBook book old) := by
  have hid : (old.map (·.userID)).getD [] = [] ∨ (old.map (·.userID)).getD [] = u.1 := by
    cases old with
    | none => exact .inl rfl
    | some b => exact .inr (hold b rfl)
  have hunlist : Acts view (Ready (Held u book.id)) u (unlistOldBook · old) := by
    cases old with
    | none => exact Acts.pure
    | some b => exact unlistBook_acts (hold b rfl)
  refine Acts.congr (Acts.seq (storeBook_acts book hu) (Acts.seq (reassignBook_acts book.id hid)
    (Acts.seq hunlist (listBook_acts hu)))) ?_
  intro tx _
  simp only [replaceBook, hu, bind_assoc, ok_bind]

theorem saveBook_acts {book : Book} (hu : book.userID = u.1) :
    Acts view (Ready (Held u book.id)) u (saveBook book) := by
  refine Acts.congr
    (Acts.read (f := replaceBook { book with category := normalizeCategoryName book.category })
    (seen_book book.id) ?_) ?_
  · intro tx hr
    exact replaceBook_acts { book with category := normalizeCategoryName book.category } hu hr.books.2
  · intro tx _
    exact saveBook_eq book tx

/-- `createBook` without the check for duplicates. -/
def insertBook (book : Book) (tx : Tx) : Result Tx := do
  let b ← store tx.books book.id book
  let tx ← addBookToUserIndex { tx with books := b } book.id book.userID
  listBook tx book

theorem insertBook_acts (book : Book) (hu : book.userID = u.1) :
    Acts view (Ready (Held u book.id)) u (insertBook book) := by
  refine Acts.congr (Acts.seq (storeBook_acts book hu)
    (Acts.seq (addBookToUserIndex_acts book.id) (listBook_acts hu))) ?_
  intro tx _
  simp only [insertBook, hu, bind_assoc, ok_bind]

theorem createBook_acts {book : Book} (hu : book.userID = u.1) :
    Acts view (Ready (Held u book.id)) u (createBook book) := by
  have hseen := contentPart.seen_get (P := Held u book.id) (nulKey_content hu book.contentHash)
  have hinsert := insertBook_acts { book with category := normalizeCategoryName book.category } hu
  refine Acts.congr (Acts.branch
    (hseen.map fun r => decide (book.contentHash ≠ [] ∧ r.any (· ≠ book.id)))
    (Acts.fail .duplicateBookContent) hinsert) ?_
  intro tx _
  rw [createBook, Bool.cond_decide]
  rfl

/-- `deleteBookDataInTx` for a book that is the caller's. -/
def removeBook (passed : Bytes → Bool) (book : Book) (id userID : Bytes) (tx : Tx) : Result Tx := do
  let tx ← adjustLibrarySummary tx book (-1)
  let tx ← removeBookFromContentIndex tx book
  let tx := removeBookFromSortIndex tx book
  let tx := removeBookFromUserIndex { tx with books := tx.books.delete id } id userID
  removeBookFromSearchGramIndex
    (removeBookFromSearchIndex (dropReadingData passed tx id userID) book) book

theorem removeBook_acts (passed : Bytes → Bool) {book : Book} (h : book.userID = u.1) (id : Bytes) :
    Acts view (Ready (Held u id)) u (removeBook passed book id u.1) :=
  Acts.seq (adjustLibrarySummary_acts h (-1)) (Acts.seq (removeBookFromContentIndex_acts h)
    (Acts.seq (removeBookFromSortIndex_acts h) (Acts.seq (deleteBook_acts id)
      (Acts.seq (removeBookFromUserIndex_acts id) (Acts.seq (dropReadingData_acts passed id)
        (Acts.seq (removeBookFromSearchIndex_acts h) (removeBookFromSearchGramIndex_acts h)))))))

theorem deleteBookDataInTx_isolated (passed : Bytes → Bool) (id : Bytes) :
    Isolated view (Ready Shelved) u (deleteBookDataInTx passed · id u.1) := by
  refine Isolated.congr (ownedBook_guard id (f := fun book tx =>
    removeBook passed book id u.1 tx >>= fun tx => .ok (book, tx)) ?_) ?_
  · intro book hu _
    exact (removeBook_acts passed hu id).report book
  · intro tx _
    simp only [deleteBookDataInTx_eq, removeBook, bind_assoc]

theorem deleteBookData_acts (id : Bytes) : Acts view (Ready Shelved) u (deleteBookData id u.1) :=
  (deleteBookDataInTx_isolated _ id).silence

theorem deleteBooksData_isolated (ids : List Bytes) :
    Isolated view (Ready Shelved) u (deleteBooksData ids u.1 fun _ => false) := by
  refine Isolated.congr (Isolated.fold (f := fun deletedBooks id tx =>
    deleteBookDataInTx (fun _ => false) tx id u.1 >>= fun r => .ok (deletedBooks ++ [r.1], r.2)) ?_
    (uniqueNonEmptyStrings ids) []) ?_
  · intro deletedBooks id
    refine Isolated.congr
      ((deleteBookDataInTx_isolated (fun _ => false) id).map fun book => deletedBooks ++ [book]) ?_
    intro tx _
    cases deleteBookDataInTx (fun _ => false) tx id u.1 with
    | error e => rfl
    | ok r => rfl
  · intro tx _
    simp only [deleteBooksData, passedOver_nothing]

/-- Whatever a cursor passes over, nobody else sees a batch. -/
theorem deleteBooksData_keeps {passed : Bytes → Bool} {ids : List Bytes} {tx tx' : Tx}
    {bs : List Book} {w : UserID} (hr : Ready Shelved tx) (hw : w ≠ u)
    (h : deleteBooksData ids u.1 passed tx = .ok (bs, tx')) : view w tx' = view w tx := by
  refine (foldlM_invariant (fun r : List Book × Tx =>
    Ready Shelved r.2 ∧ view w r.2 = view w tx) ?_ ⟨hr, rfl⟩ h).2
  rintro id - r r' ⟨hr, hv⟩ hstep
  obtain ⟨⟨b, t⟩, hdelete, hstep⟩ := bind_eq_ok.mp hstep
  cases hstep
  have hone := deleteBookDataInTx_isolated (u := u)
    (passedOver passed tx.bookmarks r.2.bookmarks) id
  exact ⟨hone.inv r.2 b t hr hdelete, (hone.keeps r.2 b t w hr hw hdelete).trans hv⟩

/-- `updateBookCategory` for a book that is the caller's. -/
def changeCategory (book : Book) (category : Option Bytes) (tx : Tx) : Result Tx := do
  let tx ← adjustLibrarySummary tx book (-1)
  let tx := removeBookFromSortIndex tx book
  let tx ← removeBookFromSearchGramIndex tx book
  let book := { book with category := category }
  let booksBucket ← store tx.books book.id book
  let tx ← addBookToSearchIndex { tx with books := booksBucket } book
  let tx ← addBookToSortIndex tx book
  let tx ← addBookToSearchGramIndex tx book
  adjustLibrarySummary tx book 1

theorem changeCategory_acts {book : Book} (h : book.userID = u.1) (category : Option Bytes) :
    Acts view (Ready (Held u book.id)) u (changeCategory book category) := by
  let new := { book with category := category }
  have hnew : new.userID = u.1 := h
  refine Acts.congr (Acts.seq (adjustLibrarySummary_acts h (-1)) (Acts.seq (removeBookFromSortIndex_acts h)
    (Acts.seq (removeBookFromSearchGramIndex_acts h) (Acts.seq (storeBook_acts new hnew)
      (Acts.seq (addBookToSearchIndex_acts hnew) (Acts.seq (addBookToSortIndex_acts hnew)
        (Acts.seq (addBookToSearchGramIndex_acts hnew) (adjustLibrarySummary_acts hnew 1)))))))) ?_
  intro tx _
  simp only [changeCategory, bind_assoc, ok_bind, new]

theorem updateBookCategory_isolated (category : Option Bytes) (id : Bytes) :
    Isolated view (Ready Shelved) u (updateBookCategory u.1 category · id) := by
  refine Isolated.congr (ownedBook_guard id (f := fun book tx =>
    changeCategory book category tx >>= fun tx => .ok ({ book with category := category }, tx)) ?_) ?_
  · intro book hu hid
    subst hid
    exact (changeCategory_acts hu category).report _
  · intro tx _
    simp only [updateBookCategory, changeCategory, bind_assoc]

theorem updateBooksCategory_isolated (ids : List Bytes) (category : Option Bytes) :
    Isolated view (Ready Shelved) u (updateBooksCategory ids u.1 category) := by
  refine Isolated.congr (Isolated.fold (f := fun updatedBooks id tx =>
    updateBookCategory u.1 (normalizeCategoryName category) tx id >>= fun r =>
      .ok (updatedBooks ++ [r.1], r.2)) ?_ (uniqueNonEmptyStrings ids) []) ?_
  · intro updatedBooks id
    refine Isolated.congr ((updateBookCategory_isolated (normalizeCategoryName category) id).map
      fun book => updatedBooks ++ [book]) ?_
    intro tx _
    cases updateBookCategory u.1 (normalizeCategoryName category) tx id with
    | error e => rfl
    | ok r => rfl
  · intro tx _
    rfl

theorem sortedKey_category (u : UserID) (category : Bytes) (s : SortKey) (k : Bytes)
    (h : bookCategorySortPrefix u.1 category s <+: k) : sortedKey u k = true := by
  obtain ⟨x, rfl⟩ := h
  simpa [bookCategorySortPrefix] using
    sortedKey_append u s (base64RawURL (trimSpace category) ++ [nul] ++ x)

theorem renameBookCategory_isolated (source : Bytes) (target : Option Bytes) :
    Isolated view (Ready Shelved) u (renameBookCategory u.1 source target) := by
  have hids := (categorySortPart.seen_seek (P := Shelved) (List.prefix_refl _)
    (sortedKey_category u (trimSpace source) .title)).map (List.map Prod.snd)
  have hrename : ∀ ids, Isolated view (Ready Shelved) u (fun tx =>
      (updateBooksCategoryInTx tx ids u.1 target).map (Prod.map (fun _ => ids) id)) :=
    fun ids => (updateBooksCategory_isolated ids target).map fun _ => ids
  by_cases hn : u.1 = [] ∨ trimSpace source = []
  · refine Isolated.congr (Acts.pure.map fun _ => []) ?_
    intro tx _
    exact if_pos hn
  · refine Isolated.congr (Isolated.read (f := fun ids tx =>
      (updateBooksCategoryInTx tx ids u.1 target).map (Prod.map (fun _ => ids) id))
      hids fun _ _ => hrename _) ?_
    intro tx hr
    obtain ⟨c, hc⟩ := Option.isSome_iff_exists.mp hr.categorySort
    simp only [renameBookCategory, if_neg hn, hc, categorySortPart, Option.getD_some]
    generalize (c.seek _ _).map Prod.snd = ids
    cases updateBooksCategoryInTx tx ids u.1 target with
    | error e => rfl
    | ok r => rfl

/-! ## Transactions on progress and bookmarks -/

theorem moveSortRow_acts {oldKey newKey : Bytes} (hold : sortedKey u oldKey = true)
    (hnew : sortedKey u newKey = true) (id : Bytes) :
    ActsRows sortedKey u (moveSortRow · oldKey newKey id) :=
  Acts.ite Acts.pure (Acts.seq (delete_acts sortedKey_unique hold) (store_acts sortedKey_unique hnew id))

theorem updateBookSortKey_eq {tx : Tx} {c : Bucket Bytes} (hc : tx.bookCategorySortIndex = some c)
    (old book : Book) (s : SortKey) :
    updateBookSortKey tx old book s = (do
      let sort ← moveSortRow tx.bookSortIndex (bookSortIndexKey old s) (bookSortIndexKey book s) book.id
      let categorySort ← moveSortRow c (bookCategorySortIndexKey old s) (bookCategorySortIndexKey book s)
        book.id
      .ok { tx with bookSortIndex := sort, bookCategorySortIndex := some categorySort }) := by
  rw [updateBookSortKey, moveSortRow, moveSortRow]
  by_cases hs : bookSortIndexKey old s = bookSortIndexKey book s
  · by_cases hd : bookCategorySortIndexKey old s = bookCategorySortIndexKey book s
    · simp only [if_pos hs, if_pos hd, ok_bind, ← hc]
    · simp only [if_pos hs, if_neg hd, ok_bind, hc]
  · by_cases hd : bookCategorySortIndexKey old s = bookCategorySortIndexKey book s
    · simp only [if_neg hs, if_pos hd, ok_bind, ← hc]
    · simp only [if_neg hs, if_neg hd, ok_bind, hc]

theorem updateBookSortKey_acts {old book : Book} (hold : old.userID = u.1) (h : book.userID = u.1)
    (s : SortKey) : Acts view (Ready P) u (updateBookSortKey · old book s) := by
  refine Acts.congr (Acts.seq
    (sortPart.modify (moveSortRow_acts (sortedKey_sort hold s) (sortedKey_sort h s) book.id))
    (categorySortPart.modify (moveSortRow_acts (sortedKey_categorySort hold s)
      (sortedKey_categorySort h s) book.id))) ?_
  intro tx hr
  obtain ⟨c, hc⟩ := Option.isSome_iff_exists.mp hr.categorySort
  simp only [updateBookSortKey_eq hc, sortPart, categorySortPart, hc, Option.getD_some, bind_assoc,
    ok_bind]

theorem touchBook_acts {book : Book} (h : book.userID = u.1) (time : Time) :
    Acts view (Ready (Held u book.id)) u (touchBook · book time) := by
  let new := { book with lastReadAt := some time }
  have hnew : new.userID = u.1 := h
  refine Acts.congr (Acts.ite (c := book.lastReadAt = some time) Acts.pure
    (Acts.seq (storeBook_acts new hnew) (updateBookSortKey_acts h hnew .recentRead))) ?_
  intro tx _
  simp only [touchBook, bind_assoc, ok_bind, new]

theorem recordProgress_acts {key : Bytes} (hk : colonKey u key = true) {previous : Option Progress}
    (hprevious : ∀ p ∈ previous, p.userID = u.1) {progress : Progress} (hp : progress.userID = u.1) :
    Acts view (Ready P) u (recordProgress · key previous progress) := by
  have hsupersede : Acts view (Ready P) u
      (fun tx => (.ok (supersedeProgress tx previous progress) : Result Tx)) := by
    cases previous with
    | none => exact Acts.pure
    | some p =>
        refine Acts.congr (Acts.ite (c := p.updatedAt = progress.updatedAt) Acts.pure
          (removeProgressFromTimeIndex_acts (hprevious p rfl))) ?_
        intro tx _
        exact apply_ite Except.ok _ _ _
  refine Acts.congr (Acts.seq hsupersede
    (Acts.seq (storeProgress_acts hk hp) (addProgressToTimeIndex_acts hp))) ?_
  intro tx _
  simp only [recordProgress, bind_assoc, ok_bind]

/-- `saveProgressIfCurrent` for a book that is the caller's, over the progress it finds. -/
def writeProgress (book : Book) (key : Bytes) (progress : Progress) (expectedUpdatedAt : Option Time)
    (previous : Option Progress) (tx : Tx) : Result Tx :=
  if stale expectedUpdatedAt previous then .error .progressConflict
  else do
    let tx ← touchBook tx book progress.updatedAt
    recordProgress tx key previous progress

theorem writeProgress_acts {book : Book} (h : book.userID = u.1) {key : Bytes}
    (hk : colonKey u key = true) {progress : Progress} (hp : progress.userID = u.1)
    (expected : Option Time) {previous : Option Progress} (hprevious : ∀ p ∈ previous, p.userID = u.1) :
    Acts view (Ready (Held u book.id)) u (writeProgress book key progress expected previous) :=
  Acts.ite (Acts.fail StorageError.progressConflict)
    (Acts.seq (touchBook_acts h progress.updatedAt) (recordProgress_acts hk hprevious hp))

theorem saveProgressIfCurrent_acts (p : Progress) (expected : Option Time) :
    Acts view (Ready Shelved) u (saveProgressIfCurrent p u.1 expected) := by
  have hk : colonKey u (progressKey u.1 p.bookID) = true := colonKey_append u p.bookID
  refine Acts.congr (ownedBook_guard_acts p.bookID (f := fun book tx =>
    writeProgress book (progressKey u.1 p.bookID) { p with userID := u.1 } expected
      (tx.progress.get (progressKey u.1 p.bookID)) tx) ?_) ?_
  · intro book hu hid
    refine Acts.read (seen_progress hk) ?_
    intro tx hr
    have hp : ({ p with userID := u.1 } : Progress).userID = u.1 := rfl
    have hacts := writeProgress_acts hu hk hp expected fun q hq => hr.ownProgress hk hq
    rwa [hid] at hacts
  · intro tx _
    exact saveProgressIfCurrent_eq p u.1 expected tx

theorem deleteProgress_acts (bookID : Bytes) :
    Acts view (Ready P) u (deleteProgress bookID u.1) :=
  forgetProgress_acts (colonKey_append u bookID)

theorem colonKey_bookmark (bookID bookmarkID : Bytes) :
    colonKey u (bookmarkKey u.1 bookID bookmarkID) = true := by
  simpa [bookmarkKey] using colonKey_append u (bookID ++ colon :: bookmarkID)

theorem saveBookmark_acts (bookmark : Bookmark) :
    Acts view (Ready Shelved) u (saveBookmark bookmark u.1) := by
  refine Acts.congr (ownedBook_guard_acts bookmark.bookID fun _ _ _ =>
    bookmarkPart.store (colonKey_bookmark bookmark.bookID bookmark.id)
      { bookmark with userID := u.1 }) ?_
  intro tx _
  rfl

theorem deleteBookmark_acts (bookID bookmarkID : Bytes) :
    Acts view (Ready Shelved) u (deleteBookmark bookID bookmarkID u.1) := by
  have hk := colonKey_bookmark (u := u) bookID bookmarkID
  refine Acts.congr (ownedBook_guard_acts bookID fun _ _ _ =>
    Acts.branch ((bookmarkPart.seen_get hk).map Option.isSome) (bookmarkPart.delete hk)
      (Acts.fail StorageError.notFound)) ?_
  intro tx _
  rw [deleteBookmark]
  congr 1
  funext book
  simp only [bookmarkPart]
  cases tx.bookmarks.get (bookmarkKey u.1 bookID bookmarkID) with
  | none => rfl
  | some m => rfl

/-! ## Transactions on accounts -/

theorem colonKey_user (k : Bytes) (h : u.1 ++ [colon] <+: k) : colonKey u k = true := decide_eq_true h

theorem deleteBooksByUser_acts : Acts view (Ready Shelved) u (deleteBooksByUser u.1) := by
  have hids := (userBooksPart.seen_seek (P := Shelved) (List.prefix_refl (u.1 ++ [colon]))
    colonKey_user).map (List.map fun row => afterColon row.1)
  refine Acts.congr (Acts.read (f := fun ids tx => ids.foldlM (fun tx id => deleteBookData id u.1 tx) tx)
    hids fun _ _ => Acts.fold fun id _ => deleteBookData_acts id) ?_
  intro tx _
  rw [deleteBooksByUser, getBookIDsForUser, if_neg u.2.1]
  rfl

theorem filter_entries {X : Type} (b : Bucket X) (pre : Bytes) :
    b.entries.filter (fun row => pre <+: row.1) = b.seek pre pre := by
  rw [Bucket.seek_eq_filter b (List.prefix_refl pre)]
  congr 1
  funext row
  by_cases hp : pre <+: row.1
  · simp [hp, Bucket.compare_ne_lt_of_isPrefix hp]
  · simp [hp]

theorem deleteProgressByUser_acts :
    Acts view (Ready P) u (fun tx => (.ok (deleteProgressByUser u.1 tx) : Result Tx)) := by
  have hrows := progressPart.modify (P := P)
    (deleteRows_acts colonKey_unique (colonKey_user (u := u)) id fun _ => List.Subset.refl _) ?_
  · refine Acts.congr hrows ?_
    intro tx _
    rw [deleteProgressByUser, filter_entries]
    rfl
  · intro tx b hr hb
    cases hb
    refine ⟨hr.books, hr.categorySort, hr.gramCounts, hr.missing, ?_⟩
    intro w k p hget
    exact hr.progress w k p (foldl_delete_get _ _ hget)

theorem deleteBookmarksByUser_acts :
    Acts view (Ready P) u (fun tx => (.ok (deleteBookmarksByUser u.1 tx) : Result Tx)) := by
  refine Acts.congr (bookmarkPart.modify
    (deleteRows_acts colonKey_unique (colonKey_user (u := u)) id fun _ => List.Subset.refl _)) ?_
  intro tx _
  rw [deleteBookmarksByUser, filter_entries]
  rfl

theorem deleteUserData_acts : Acts view (Ready Shelved) u (deleteUserData u.1) :=
  Acts.seq deleteBooksByUser_acts (Acts.seq deleteProgressByUser_acts deleteBookmarksByUser_acts)

/-- No view shows the index of user names. -/
theorem usernames_acts {f : Bucket Bytes → Result (Bucket Bytes)}
    (hfail : ∀ b c e, f b = .error e → f c = .error e) :
    Acts view (Ready P) u
      (fun tx => f tx.usernameIndex >>= fun b => .ok { tx with usernameIndex := b }) where
  reads := by
    intro s t _ _ h
    simp only [silent]
    cases hb : f s.usernameIndex with
    | error e =>
        rw [hfail _ _ _ hb]
        rfl
    | ok b =>
        cases hc : f t.usernameIndex with
        | error e =>
            rw [hfail _ _ _ hc] at hb
            cases hb
        | ok c => exact congrArg (fun v => Except.ok ((), v)) h
  keeps := by
    intro s _ t w _ _ h
    obtain ⟨b, -, h⟩ := bind_eq_ok.mp (silent_eq_ok.mp h)
    cases h
    rfl
  inv := by
    intro s _ t hs h
    obtain ⟨b, -, h⟩ := bind_eq_ok.mp (silent_eq_ok.mp h)
    cases h
    exact ⟨hs.books, hs.categorySort, hs.gramCounts, hs.missing, hs.progress⟩

theorem seen_user : Seen view (Ready P) u (fun tx => tx.users.get u.1) :=
  userPart.seen_get (decide_eq_true rfl)

/-- The index of user names without the name that `user` had before. -/
def dropOldName (old : Option User) (user : User) (idxB : Bucket Bytes) : Bucket Bytes :=
  match old with
  | none => idxB
  | some oldUser =>
      if normalizeUsername oldUser.username ≠ normalizeUsername user.username then
        idxB.delete (normalizeUsername oldUser.username)
      else idxB

theorem saveUser_acts {user : User} (hid : user.id = u.1) : Acts view (Ready P) u (saveUser user) := by
  have hk : userPart.owns u user.id = true := decide_eq_true hid
  have hnames : ∀ old : Option User, Acts view (Ready P) u (fun tx =>
      store (dropOldName old user tx.usernameIndex) (normalizeUsername user.username) user.id >>=
        fun b => .ok { tx with usernameIndex := b }) := by
    intro old
    refine usernames_acts (f := fun b => store (dropOldName old user b) _ user.id) ?_
    intro b c e he
    rcases store_cases (dropOldName old user b) (dropOldName old user c)
        (normalizeUsername user.username) user.id user.id with ⟨e', hb, hc⟩ | ⟨b', c', hb, hc⟩
    · rw [hb] at he
      cases he
      exact hc
    · rw [hb] at he
      cases he
  refine Acts.congr (Acts.read (f := fun old tx =>
      (store tx.users user.id user >>= fun b => .ok { tx with users := b }) >>= fun tx =>
        store (dropOldName old user tx.usernameIndex) (normalizeUsername user.username) user.id >>=
          fun b => .ok { tx with usernameIndex := b }) seen_user
    fun _ _ => Acts.seq (userPart.store hk user) (hnames _)) ?_
  intro tx _
  cases hold : tx.users.get u.1 with
  | none => simp only [saveUser, dropOldName, hid, hold, bind_assoc, ok_bind]
  | some old => simp only [saveUser, dropOldName, hid, hold, bind_assoc, ok_bind]

/-- The account that is there, or the error that there is none. -/
def foundUser (id : Bytes) (tx : Tx) : Result User :=
  match tx.users.get id with
  | none => .error .notFound
  | some user => .ok user

theorem foundUser_guard {f : User → Tx → Result Tx}
    (hf : ∀ user, Acts view (Ready P) u (f user)) :
    Acts view (Ready P) u (fun tx => foundUser u.1 tx >>= fun user => f user tx) := by
  have hseen : Seen view (Ready P) u (foundUser u.1) := by
    intro s t hs ht h
    have huser : s.users.get u.1 = t.users.get u.1 := seen_user s t hs ht h
    rw [foundUser, foundUser, huser]
  refine Isolated.congr (Isolated.guard (J := Ready P) (f := fun user => silent (f user)) hseen
    (fun _ _ hs _ => hs) (fun _ hs => hs) fun _ user _ _ => hf user) ?_
  intro tx _
  rw [silent]
  cases foundUser u.1 tx with
  | error e => rfl
  | ok user => rfl

/-- Taking away an account and its name. -/
def dropUser (id : Bytes) (user : User) (tx : Tx) : Tx :=
  { tx with
    users := tx.users.delete id
    usernameIndex := tx.usernameIndex.delete (normalizeUsername user.username) }

theorem dropUser_acts (user : User) :
    Acts view (Ready P) u (fun tx => (.ok (dropUser u.1 user tx) : Result Tx)) := by
  have hk : userPart.owns u u.1 = true := decide_eq_true rfl
  refine Acts.congr (Acts.seq (userPart.delete hk) (usernames_acts
    (f := fun b => .ok (b.delete (normalizeUsername user.username))) ?_)) ?_
  · intro b c e he
    cases he
  · intro tx _
    rfl

theorem deleteUser_acts : Acts view (Ready P) u (deleteUser u.1) := by
  refine Acts.congr (foundUser_guard dropUser_acts) ?_
  intro tx _
  rw [deleteUser, foundUser]
  cases tx.users.get u.1 with
  | none => rfl
  | some user => rfl

theorem purgeUser_acts : Acts view (Ready Shelved) u (purgeUser u.1) := by
  refine Acts.congr (foundUser_guard fun user => Acts.seq deleteBooksByUser_acts
    (Acts.seq deleteProgressByUser_acts (Acts.seq deleteBookmarksByUser_acts (dropUser_acts user)))) ?_
  intro tx _
  rw [purgeUser, foundUser]
  cases tx.users.get u.1 with
  | none => rfl
  | some user => rfl

end ZReader.Storage
