import ZReader.Lib.Transition
import ZReader.Storage.Ownership

namespace ZReader.Storage

open Lib.Utf8 Lib.Strings Lib.KeyValue Lib.DerivedIndex Lib.Fallible Lib.Transition

/-- The exported operations that write to the library database. -/
inductive Op
  | saveBook (book : Book)
  | createBook (book : Book)
  | deleteBookData (id userID : Bytes)
  | deleteBooksData (ids : List Bytes) (userID : Bytes) (passed : Bytes → Bool)
  | updateBooksCategory (ids : List Bytes) (userID : Bytes) (category : Option Bytes)
  | renameBookCategory (userID source : Bytes) (target : Option Bytes)
  | normalizeBookCategories
  | saveProgressIfCurrent (progress : Progress) (userID : Bytes) (expectedUpdatedAt : Option Time)
  | backfillBookContentHashes (hashes : List Book)
  | assignUnownedDataToUser (userID : Bytes)
  | deleteUserData (userID : Bytes)
  | purgeUser (id : Bytes)
  | deleteProgress (bookID userID : Bytes)
  | saveUser (user : User)
  | deleteUser (id : Bytes)
  | saveBookmark (bookmark : Bookmark) (userID : Bytes)
  | deleteBookmark (bookID bookmarkID userID : Bytes)

def Op.transaction : Op → Tx → Result Tx
  | .saveBook book, tx => Storage.saveBook book tx
  | .createBook book, tx => Storage.createBook book tx
  | .deleteBookData id userID, tx => Storage.deleteBookData id userID tx
  | .deleteBooksData ids userID passed, tx =>
      (Storage.deleteBooksData ids userID passed tx).map Prod.snd
  | .updateBooksCategory ids userID category, tx =>
      (Storage.updateBooksCategory ids userID category tx).map Prod.snd
  | .renameBookCategory userID source target, tx =>
      (Storage.renameBookCategory userID source target tx).map Prod.snd
  | .normalizeBookCategories, tx => Storage.normalizeBookCategories tx
  | .saveProgressIfCurrent progress userID expected, tx =>
      Storage.saveProgressIfCurrent progress userID expected tx
  | .backfillBookContentHashes hashes, tx => Storage.backfillBookContentHashes hashes tx
  | .assignUnownedDataToUser userID, tx => Storage.assignUnownedDataToUser userID tx
  | .deleteUserData userID, tx => Storage.deleteUserData userID tx
  | .purgeUser id, tx => Storage.purgeUser id tx
  | .deleteProgress bookID userID, tx => Storage.deleteProgress bookID userID tx
  | .saveUser user, tx => Storage.saveUser user tx
  | .deleteUser id, tx => Storage.deleteUser id tx
  | .saveBookmark bookmark userID, tx => Storage.saveBookmark bookmark userID tx
  | .deleteBookmark bookID bookmarkID userID, tx => Storage.deleteBookmark bookID bookmarkID userID tx

def Op.run (op : Op) (db : Tx) : Tx := db.update op.transaction

/-- What the callers of the operations guarantee: books are written under
generated identifiers, a new book under an unused one, and progress is saved for
an account. -/
def Op.Admissible (db : Tx) : Op → Prop
  | .saveBook book => WellFormedID book.id
  | .createBook book => WellFormedID book.id ∧ db.books.get book.id = none
  | .saveProgressIfCurrent _ userID _ => userID ≠ []
  | _ => True

def Op.Step (db : Tx) (op : Op) (db' : Tx) : Prop := op.Admissible db ∧ db' = op.run db

theorem map_snd_eq_ok {α : Type} {x : Result (α × Tx)} {tx : Tx} (h : x.map Prod.snd = .ok tx) :
    ∃ a, x = .ok (a, tx) := by
  cases x with
  | error e => simp [Except.map] at h
  | ok p =>
      simp only [Except.map, Except.ok.injEq] at h
      exact ⟨p.1, by rw [← h]⟩

theorem Op.transaction_coherent {tx tx' : Tx} {op : Op} (hc : Coherent tx) (ha : op.Admissible tx)
    (h : op.transaction tx = .ok tx') : Coherent tx' := by
  cases op with
  | saveBook book => exact saveBook_coherent hc ha h
  | createBook book => exact createBook_coherent hc ha.1 ha.2 h
  | deleteBookData id u => exact deleteBookData_coherent hc h
  | deleteBooksData ids u passed =>
      obtain ⟨bs, h⟩ := map_snd_eq_ok h
      exact deleteBooksData_coherent hc h
  | updateBooksCategory ids u c =>
      obtain ⟨bs, h⟩ := map_snd_eq_ok h
      exact updateBooksCategoryInTx_coherent hc h
  | renameBookCategory u s t =>
      obtain ⟨ids, h⟩ := map_snd_eq_ok h
      exact renameBookCategory_coherent hc h
  | normalizeBookCategories => exact normalizeBookCategories_coherent hc h
  | saveProgressIfCurrent p u e => exact saveProgressIfCurrent_coherent hc ha h
  | backfillBookContentHashes hs => exact backfillBookContentHashes_coherent hc h
  | assignUnownedDataToUser u => exact assignUnownedDataToUser_coherent hc h
  | deleteUserData u => exact deleteUserData_coherent hc h
  | purgeUser id => exact purgeUser_coherent hc h
  | deleteProgress b u =>
      simp only [transaction, Storage.deleteProgress] at h
      cases h
      split
      · next p _ =>
        obtain ⟨t, ht⟩ := removeProgressFromTimeIndex_eq tx p
        rw [ht]
        exact hc.reading _ _ _ _ _
      · exact hc.reading _ _ _ _ _
  | saveUser user =>
      simp only [transaction, Storage.saveUser] at h
      obtain ⟨us, -, h⟩ := bind_eq_ok.mp h
      obtain ⟨un, -, h⟩ := bind_eq_ok.mp h
      cases h
      exact hc.reading _ _ _ _ _
  | deleteUser id =>
      simp only [transaction, Storage.deleteUser] at h
      split at h
      · cases h
      · cases h
        exact hc.reading _ _ _ _ _
  | saveBookmark m u =>
      simp only [transaction, Storage.saveBookmark] at h
      obtain ⟨_, -, h⟩ := bind_eq_ok.mp h
      obtain ⟨ms, -, h⟩ := bind_eq_ok.mp h
      cases h
      exact hc.reading _ _ _ _ _
  | deleteBookmark b m u =>
      simp only [transaction, Storage.deleteBookmark] at h
      obtain ⟨_, -, h⟩ := bind_eq_ok.mp h
      split at h
      · cases h
      · cases h
        exact hc.reading _ _ _ _ _

theorem Tx.update_induction {P : Tx → Prop} {db : Tx} {body : Tx → Result Tx} (h₀ : P db)
    (h : ∀ db', body db = .ok db' → P db') : P (db.update body) := by
  rw [Tx.update]
  split
  · next tx htx => exact h tx htx
  · exact h₀

theorem Op.run_coherent {db : Tx} {op : Op} (hc : Coherent db) (ha : op.Admissible db) :
    Coherent (op.run db) :=
  Tx.update_induction hc (fun _ h => Op.transaction_coherent hc ha h)

abbrev Reached (db : Tx) : Prop := Reachable (· = Tx.migrated) Op.Step db

theorem Reached.run {db : Tx} (h : Reached db) (op : Op) (ha : op.Admissible db) :
    Reached (op.run db) := Reachable.next (a := op) h ⟨ha, rfl⟩

theorem Reached.coherent {db : Tx} (h : Reached db) : Coherent db := by
  refine h.invariant Coherent ?_ ?_
  · intro db hdb
    rw [hdb]
    exact coherent_migrated
  · intro db op db' hc hstep
    rw [hstep.2]
    exact Op.run_coherent hc hstep.1

/-- In every reachable state each derived index already is what its rebuild
computes from the stored books, whatever mixture of calls led there. -/
theorem reached_eq_rebuilt {db : Tx} (h : Reached db) :
    migrateUserBooksIndex { db with userBooksIndex := .empty } = .ok db ∧
      rebuildBookSortIndex db = .ok db ∧ rebuildBookSearchIndex db = .ok db ∧
      rebuildBookSearchGramIndex db = .ok db ∧ rebuildMissingBookHashIndex db = .ok db ∧
      ∃ db', rebuildLibrarySummaryIndex db = .ok db' ∧
        ∀ u, loadLibrarySummary db' u = loadLibrarySummary db u := by
  have hc := h.coherent
  exact ⟨migrateUserBooksIndex_coherent hc, rebuildBookSortIndex_coherent hc,
    rebuildBookSearchIndex_coherent hc, rebuildBookSearchGramIndex_coherent hc,
    rebuildMissingBookHashIndex_coherent hc, rebuildLibrarySummaryIndex_coherent hc⟩

/-- An uploaded book of the user `u`. -/
def sampleBook : Book where
  id := ascii "b"
  userID := ascii "u"
  title := ascii "T"
  author := []
  filename := ascii "b"
  format := ascii "txt"
  size := 1
  contentHash := []
  coverPath := []
  coverThumbPath := []
  processingState := .ready
  category := none
  createdAt := ⟨10 ^ 18⟩
  lastReadAt := none

/-- A shelf of two users. One book has moved to a category and another one was deleted. -/
def shelf : Tx :=
  (Op.deleteBookData (ascii "d") (ascii "u")).run
    ((Op.updateBooksCategory [ascii "b"] (ascii "u") (some (ascii "x"))).run
      ((Op.createBook { sampleBook with id := ascii "d", title := ascii "second" }).run
        ((Op.createBook
          { sampleBook with id := ascii "c", userID := ascii "v", contentHash := ascii "h" }).run
          ((Op.createBook sampleBook).run .migrated))))

theorem shelf_reached : Reached shelf := by
  have hfirst : Reached ((Op.createBook sampleBook).run .migrated) := by
    refine Reached.run (.start rfl) (.createBook sampleBook) ⟨by decide, ?_⟩
    simp [Tx.migrated]
  have hsecond := hfirst.run
    (.createBook { sampleBook with id := ascii "c", userID := ascii "v", contentHash := ascii "h" })
    ⟨by decide, Option.isNone_iff_eq_none.mp (by decide +kernel)⟩
  have hthird := hsecond.run (.createBook { sampleBook with id := ascii "d", title := ascii "second" })
    ⟨by decide, Option.isNone_iff_eq_none.mp (by decide +kernel)⟩
  exact (hthird.run (.updateBooksCategory [ascii "b"] (ascii "u") (some (ascii "x"))) trivial).run
    (.deleteBookData (ascii "d") (ascii "u")) trivial

theorem shelf_eq_rebuilt :
    shelf.books.values.length = 2 ∧
      migrateUserBooksIndex { shelf with userBooksIndex := .empty } = .ok shelf ∧
      rebuildBookSortIndex shelf = .ok shelf ∧ rebuildBookSearchIndex shelf = .ok shelf ∧
      rebuildBookSearchGramIndex shelf = .ok shelf ∧ rebuildMissingBookHashIndex shelf = .ok shelf ∧
      ∃ db', rebuildLibrarySummaryIndex shelf = .ok db' ∧
        ∀ u, loadLibrarySummary db' u = loadLibrarySummary shelf u :=
  ⟨by decide +kernel, reached_eq_rebuilt shelf_reached⟩

end ZReader.Storage
