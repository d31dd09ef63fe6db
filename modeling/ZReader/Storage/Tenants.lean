import ZReader.Storage.Lookups

namespace ZReader.Storage

open Lib.Utf8 Lib.Strings Lib.KeyValue Lib.Fallible Lib.Isolation Lib.Transition

/-! ## What users ask for -/

inductive Answer
  | done
  | user (user : Option User)
  | book (book : Option Book)
  | books (books : List Book)
  /-- `none` when the slice expression panics -/
  | numbered (books : Option (List Book))
  | page (books : List Book) (nextCursor : Bytes)
  | ids (ids : List Bytes)
  | summary (summary : BookLibrarySummary)
  | progress (progress : Option Progress)
  | progresses (progresses : List Progress)
  | bookmarks (bookmarks : List Bookmark)

inductive Query
  | getUser
  | getBookForUser (id : Bytes)
  | listBooks
  | listBooksPaginated (page pageSize : Int)
  | listBooksByCursor (cursor : Bytes) (limit : Int)
  | listBooksBySortedCursor (cursor : Bytes) (limit : Int) (sortKey : Bytes) (filters : List (Option Bytes))
  | searchBooks (query cursor : Bytes) (limit : Int) (sortKey : Bytes) (filters : List (Option Bytes))
  | listBooksForIDs (ids : List Bytes)
  | findBookByContentHash (contentHash : Bytes)
  | getBookLibrarySummary
  | getProgress (bookID : Bytes)
  | listProgress
  | listProgressForBooks (bookIDs : List Bytes)
  | listProgressUpdatedSince (since : Time)
  | listBookmarks (bookID : Bytes)

section Serving

variable (sortSlice : (Bookmark → Bookmark → Bool) → List Bookmark → List Bookmark)

def Query.answer (userID : Bytes) (tx : Tx) : Query → Result Answer
  | .getUser => .ok (.user (Storage.getUser tx userID))
  | .getBookForUser id => .ok (.book (Storage.getBookForUser tx id userID))
  | .listBooks => .ok (.numbered (Storage.listBooks tx userID))
  | .listBooksPaginated page pageSize =>
      .ok (.numbered (Storage.listBooksPaginated tx userID page pageSize))
  | .listBooksByCursor cursor limit =>
      let (books, next) := Storage.listBooksByCursor tx userID cursor limit
      .ok (.page books next)
  | .listBooksBySortedCursor cursor limit sortKey filters => do
      let (books, next) ← Storage.listBooksBySortedCursor tx userID cursor limit sortKey filters
      .ok (.page books next)
  | .searchBooks query cursor limit sortKey filters => do
      let (books, next) ← Storage.searchBooks tx userID query cursor limit sortKey filters
      .ok (.page books next)
  | .listBooksForIDs ids => .ok (.books (Storage.listBooksForIDs tx userID ids))
  | .findBookByContentHash contentHash => .ok (.book (Storage.findBookByContentHash tx userID contentHash))
  | .getBookLibrarySummary => .ok (.summary (loadLibrarySummary tx userID))
  | .getProgress bookID => .ok (.progress (Storage.getProgress tx bookID userID))
  | .listProgress => .ok (.progresses (Storage.listProgress tx userID))
  | .listProgressForBooks bookIDs => .ok (.progresses (Storage.listProgressForBooks tx userID bookIDs))
  | .listProgressUpdatedSince since => .ok (.progresses (Storage.listProgressUpdatedSince tx userID since))
  | .listBookmarks bookID => do
      let items ← Storage.listBookmarks sortSlice tx bookID userID
      .ok (.bookmarks items)

/-- The user whose data a transaction is about; none for maintenance of the whole database. -/
def Op.userID : Op → Option Bytes
  | .saveBook book => some book.userID
  | .createBook book => some book.userID
  | .deleteBookData _ userID => some userID
  | .deleteBooksData _ userID _ => some userID
  | .updateBooksCategory _ userID _ => some userID
  | .renameBookCategory userID _ _ => some userID
  | .saveProgressIfCurrent _ userID _ => some userID
  | .deleteUserData userID => some userID
  | .purgeUser id => some id
  | .deleteProgress _ userID => some userID
  | .saveUser user => some user.id
  | .deleteUser id => some id
  | .saveBookmark _ userID => some userID
  | .deleteBookmark _ _ userID => some userID
  | .normalizeBookCategories | .backfillBookContentHashes _ | .assignUnownedDataToUser _ => none

/-- A transaction with what it returns. -/
def Op.serve : Op → Tx → Result (Answer × Tx)
  | .deleteBooksData ids userID passed, tx => do
      let (books, tx) ← Storage.deleteBooksData ids userID passed tx
      .ok (.books books, tx)
  | .updateBooksCategory ids userID category, tx => do
      let (books, tx) ← Storage.updateBooksCategory ids userID category tx
      .ok (.books books, tx)
  | .renameBookCategory userID source target, tx => do
      let (ids, tx) ← Storage.renameBookCategory userID source target tx
      .ok (.ids ids, tx)
  | op, tx => do
      let tx ← op.transaction tx
      .ok (.done, tx)

/-- The operation without what only the layout of the pages decides. -/
def Op.asked : Op → Op
  | .deleteBooksData ids userID _ => .deleteBooksData ids userID fun _ => false
  | op => op

theorem Op.asked_userID (op : Op) : op.asked.userID = op.userID := by cases op <;> rfl

inductive Request (u : UserID)
  | write (op : Op) (own : op.userID = some u.1)
  | read (query : Query)

/-- A request that a user makes for the user's own data. -/
structure Call where
  user : UserID
  request : Request user

def Call.serve (call : Call) (tx : Tx) : Result (Answer × Tx) :=
  match call.request with
  | .write op _ => op.serve tx
  | .read query => do
      let answer ← query.answer sortSlice call.user.1 tx
      .ok (answer, tx)

/-- What a user asks for by a call. -/
def Call.asked (call : Call) : Call where
  user := call.user
  request :=
    match call.request with
    | .write op own => .write op.asked (op.asked_userID.trans own)
    | .read query => .read query

/-- A call is issued as the handlers do, and a batch deletion by `u` is one that leaves no
bookmarks behind. -/
def Call.Issued (u : UserID) (tx : Tx) (call : Call) : Prop :=
  match call.request with
  | .write op _ => op.Issued tx ∧ (call.user = u → op.Leaves (fun _ => False) tx)
  | .read _ => True

/-! ## One request acts for its user -/

theorem Seen.answered {u : UserID} {B : Type} {g : Tx → B} (hg : Seen view Consistent u g)
    (k : B → Result Answer) :
    Isolated view Consistent u (fun tx => k (g tx) >>= fun answer => .ok (answer, tx)) := by
  refine Isolated.congr (Isolated.answer (hg.map k)) ?_
  intro tx _
  cases k (g tx) with
  | error e => rfl
  | ok answer => rfl

theorem Query.isolated (u : UserID) (query : Query) : Isolated view Consistent u
    (fun tx => query.answer sortSlice u.1 tx >>= fun answer => .ok (answer, tx)) := by
  cases query with
  | getUser => exact Seen.answered getUser_seen fun x => .ok (.user x)
  | getBookForUser id => exact Seen.answered (getBookForUser_seen id) fun x => .ok (.book x)
  | listBooks => exact Seen.answered (listBooksPaginated_seen 0 0) fun x => .ok (.numbered x)
  | listBooksPaginated page pageSize =>
      exact Seen.answered (listBooksPaginated_seen page pageSize) fun x => .ok (.numbered x)
  | listBooksByCursor cursor limit =>
      exact Seen.answered (listBooksByCursor_seen cursor limit) fun x => .ok (.page x.1 x.2)
  | listBooksBySortedCursor cursor limit sortKey filters =>
      exact Seen.answered (listBooksBySortedCursor_seen cursor limit sortKey filters)
        fun x => x >>= fun r => .ok (.page r.1 r.2)
  | searchBooks query cursor limit sortKey filters =>
      exact Seen.answered (searchBooks_seen query cursor limit sortKey filters)
        fun x => x >>= fun r => .ok (.page r.1 r.2)
  | listBooksForIDs ids => exact Seen.answered (listBooksForIDs_seen ids) fun x => .ok (.books x)
  | findBookByContentHash contentHash =>
      exact Seen.answered (findBookByContentHash_seen contentHash) fun x => .ok (.book x)
  | getBookLibrarySummary => exact Seen.answered loadLibrarySummary_seen fun x => .ok (.summary x)
  | getProgress bookID => exact Seen.answered (getProgress_seen bookID) fun x => .ok (.progress x)
  | listProgress => exact Seen.answered listProgress_seen fun x => .ok (.progresses x)
  | listProgressForBooks bookIDs =>
      exact Seen.answered (listProgressForBooks_seen bookIDs) fun x => .ok (.progresses x)
  | listProgressUpdatedSince since =>
      exact Seen.answered (listProgressUpdatedSince_seen since) fun x => .ok (.progresses x)
  | listBookmarks bookID =>
      exact Seen.answered (listBookmarks_seen sortSlice bookID) fun x => x >>= fun r => .ok (.bookmarks r)

theorem Consistent.shelved {tx : Tx} (h : Consistent tx) : Shelved tx.books :=
  fun k b hget => (h.coherent.keyed k b hget).1

theorem Isolated.rename {u : UserID} {A : Type} {P : Bucket Book → Prop} {f : Tx → Result (A × Tx)}
    (hf : Isolated view (Ready P) u f) (g : A → Answer) :
    Isolated view (Ready P) u (fun tx => f tx >>= fun r => .ok (g r.1, r.2)) := by
  refine Isolated.congr (hf.map g) ?_
  intro tx _
  cases f tx with
  | error e => rfl
  | ok r => rfl

/-- A transaction on the data of a user is isolated where the books are as it expects them. -/
theorem Op.isolated {u : UserID} {op : Op} (hu : op.userID = some u.1) :
    ∃ P : Bucket Book → Prop, (∀ tx, Consistent tx → op.Issued tx → P tx.books) ∧
      Isolated view (Ready P) u op.asked.serve := by
  have hshelved : ∀ tx, Consistent tx → op.Issued tx → Shelved tx.books := fun tx h _ => h.shelved
  cases op with
  | saveBook book =>
      simp only [Op.userID, Option.some.injEq] at hu
      refine ⟨Held u book.id, ?_, (saveBook_acts hu).report Answer.done⟩
      intro tx h hi
      exact ⟨h.shelved, fun old hold => (hi.2.2 old hold).trans hu⟩
  | createBook book =>
      simp only [Op.userID, Option.some.injEq] at hu
      refine ⟨Held u book.id, ?_, (createBook_acts hu).report Answer.done⟩
      intro tx h hi
      refine ⟨h.shelved, ?_⟩
      intro old hold
      rw [hi.2.2] at hold
      cases hold
  | deleteBookData id userID =>
      cases hu
      exact ⟨Shelved, hshelved, (deleteBookData_acts id).report Answer.done⟩
  | deleteBooksData ids userID passed =>
      cases hu
      exact ⟨Shelved, hshelved, Isolated.rename (deleteBooksData_isolated ids) Answer.books⟩
  | updateBooksCategory ids userID category =>
      cases hu
      exact ⟨Shelved, hshelved, Isolated.rename (updateBooksCategory_isolated ids category) Answer.books⟩
  | renameBookCategory userID source target =>
      cases hu
      exact ⟨Shelved, hshelved, Isolated.rename (renameBookCategory_isolated source target) Answer.ids⟩
  | saveProgressIfCurrent progress userID expected =>
      cases hu
      exact ⟨Shelved, hshelved, (saveProgressIfCurrent_acts progress expected).report Answer.done⟩
  | deleteUserData userID =>
      cases hu
      exact ⟨Shelved, hshelved, deleteUserData_acts.report Answer.done⟩
  | purgeUser id =>
      cases hu
      exact ⟨Shelved, hshelved, purgeUser_acts.report Answer.done⟩
  | deleteProgress bookID userID =>
      cases hu
      exact ⟨Shelved, hshelved, (deleteProgress_acts bookID).report Answer.done⟩
  | saveUser user =>
      simp only [Op.userID, Option.some.injEq] at hu
      exact ⟨Shelved, hshelved, (saveUser_acts hu).report Answer.done⟩
  | deleteUser id =>
      cases hu
      exact ⟨Shelved, hshelved, deleteUser_acts.report Answer.done⟩
  | saveBookmark bookmark userID =>
      cases hu
      exact ⟨Shelved, hshelved, (saveBookmark_acts bookmark).report Answer.done⟩
  | deleteBookmark bookID bookmarkID userID =>
      cases hu
      exact ⟨Shelved, hshelved, (deleteBookmark_acts bookID bookmarkID).report Answer.done⟩
  | _ => cases hu

theorem Op.asked_issued (op : Op) {tx : Tx} : op.asked.Issued tx ↔ op.Issued tx := by
  cases op <;> rfl

/-- What a transaction returns beside the new state does not change the new state. -/
theorem Op.serve_ok {op : Op} {tx tx' : Tx} {answer : Answer} (h : op.serve tx = .ok (answer, tx')) :
    op.transaction tx = .ok tx' := by
  have hcollect : ∀ {A : Type} {x : Result (A × Tx)} {g : A → Answer},
      (x >>= fun r => .ok (g r.1, r.2)) = Except.ok (answer, tx') → x.map Prod.snd = .ok tx' := by
    intro A x g hx
    obtain ⟨r, hr, he⟩ := bind_eq_ok.mp hx
    cases he
    rw [hr]
    rfl
  have hsilent : ∀ {x : Result Tx}, (x >>= fun tx => .ok (.done, tx)) = Except.ok (answer, tx') →
      x = .ok tx' := by
    intro x hx
    obtain ⟨t, ht, he⟩ := bind_eq_ok.mp hx
    cases he
    exact ht
  cases op with
  | deleteBooksData ids userID passed => exact hcollect h
  | updateBooksCategory ids userID category => exact hcollect h
  | renameBookCategory userID source target => exact hcollect h
  | _ => exact hsilent h

theorem Op.serve_asked {op : Op} {tx : Tx} (h : op.Leaves (fun _ => False) tx) :
    op.serve tx = op.asked.serve tx := by
  cases op with
  | deleteBooksData ids userID passed =>
      rw [Op.asked, Op.serve, Op.serve]
      rcases h with htidy | hnone
      · rw [deleteBooksData_tidy passed htidy]
      · have hpassed : passed = fun _ => false :=
          funext fun k => Bool.eq_false_iff.mpr (hnone k)
        rw [hpassed]
  | _ => rfl

/-- No transaction shows to other users, whatever a cursor passes over. -/
theorem Op.serve_keeps {u w : UserID} {op : Op} {tx tx' : Tx} {answer : Answer}
    (hu : op.userID = some u.1) (hw : w ≠ u) (hI : Consistent tx) (hi : op.Issued tx)
    (h : op.serve tx = .ok (answer, tx')) : view w tx' = view w tx := by
  obtain ⟨P, hP, hop⟩ := Op.isolated hu
  have hplain : op.asked.serve tx = .ok (answer, tx') → view w tx' = view w tx :=
    hop.keeps tx answer tx' w (hI.ready (hP tx hI hi)) hw
  cases op with
  | deleteBooksData ids userID passed =>
      cases hu
      obtain ⟨⟨bs, t⟩, hdelete, h⟩ := bind_eq_ok.mp h
      cases h
      exact deleteBooksData_keeps (hI.ready hI.shelved) hw hdelete
  | _ => exact hplain h

theorem calls_separated (u : UserID) : Separated view Consistent (Call.Issued u) Call.user
    Call.asked (Call.serve sortSlice) u where
  reads := by
    rintro ⟨v, request⟩ ⟨w, request'⟩ s t rfl hw hasked hs ht hsi hti h
    cases hw
    cases request with
    | write op own =>
        cases request' with
        | write op' own' =>
            have hsame : op.asked = op'.asked := by
              rw [Call.asked, Call.asked] at hasked
              simpa using hasked
            obtain ⟨P, hP, hop⟩ := Op.isolated own
            have hti' : op.Issued t := by
              rw [← op.asked_issued, hsame, op'.asked_issued]
              exact hti.1
            change (op.serve s).map _ = (op'.serve t).map _
            rw [Op.serve_asked (hsi.2 rfl), Op.serve_asked (hti.2 rfl), ← hsame]
            exact hop.reads s t (hs.ready (hP s hs hsi.1)) (ht.ready (hP t ht hti')) h
        | read query => cases hasked
    | read query =>
        cases request' with
        | write op' own' => cases hasked
        | read query' =>
            cases hasked
            exact (query.isolated sortSlice _).reads s t hs ht h
  keeps := by
    rintro ⟨v, request⟩ s answer t hv hs hi h
    cases request with
    | write op own => exact op.serve_keeps own (Ne.symm hv) hs hi.1 h
    | read query => exact (query.isolated sortSlice v).keeps s answer t u hs (Ne.symm hv) h
  inv := by
    rintro ⟨v, request⟩ s answer t hs hi h
    cases request with
    | write op own => exact hs.transaction op hi.1 (op.serve_ok h)
    | read query => exact (query.isolated sortSlice v).inv s answer t hs h

/-- Users cannot observe each other: if a user makes the same requests in two runs, from
states that show the user the same, then every answer to the user is the same, errors
included, and so is all that is filed under the user in the end. The user's own batch deletions
take at most one book that has bookmarks; those of others are arbitrary, and in either run their
cursors may pass over whatever they do. -/
theorem users_isolated {u : UserID} {s t : Tx} (hs : Requested s) (ht : Requested t)
    (hview : view u s = view u t) {l m : List Call}
    (hl : Allowed (Call.Issued u) (Call.serve sortSlice) s l)
    (hm : Allowed (Call.Issued u) (Call.serve sortSlice) t m)
    (hsame : (l.filter fun call => decide (call.user = u)).map Call.asked =
      (m.filter fun call => decide (call.user = u)).map Call.asked) :
    answers Call.user (Call.serve sortSlice) u s l = answers Call.user (Call.serve sortSlice) u t m ∧
      view u (final (Call.serve sortSlice) s l) = view u (final (Call.serve sortSlice) t m) :=
  (calls_separated sortSlice u).noninterference hs.consistent ht.consistent hview hl hm hsame

end Serving

/-- The owner of the sample book, and somebody else. -/
def owner : UserID := ⟨ascii "u", by decide⟩

def stranger : UserID := ⟨ascii "v", by decide⟩

def strangeBook (id : Bytes) : Book := { sampleBook with id := id, userID := ascii "v" }

def ownCalls (passed : Bytes → Bool) : List Call :=
  [⟨owner, .write (.createBook sampleBook) rfl⟩,
    ⟨owner, .write (.saveBookmark (sampleBookmark (ascii "m") (ascii "b")) (ascii "u")) rfl⟩,
    ⟨owner, .read (.listBookmarks (ascii "b"))⟩,
    ⟨owner, .write (.deleteBooksData [ascii "b"] (ascii "u") passed) rfl⟩,
    ⟨owner, .read .listBooks⟩]

/-- Before the owner the stranger uploads two books, and deletes them in one batch. -/
def mixedCalls (passed : Bytes → Bool) : List Call :=
  [⟨stranger, .write (.createBook (strangeBook (ascii "c"))) rfl⟩,
    ⟨stranger, .write (.createBook (strangeBook (ascii "d"))) rfl⟩,
    ⟨stranger, .write (.deleteBooksData [ascii "c", ascii "d"] (ascii "v") passed) rfl⟩] ++
  ownCalls passed

theorem ownCalls_isolated :
    answers Call.user (Call.serve fun _ items => items) owner .migrated (mixedCalls fun _ => true) =
      answers Call.user (Call.serve fun _ items => items) owner .migrated (ownCalls fun _ => false) := by
  have hsample : Plain sampleBook.id sampleBook := ⟨rfl, by decide, by decide, by decide⟩
  have hstrange : ∀ id, WellFormedID id → Plain id (strangeBook id) :=
    fun id hid => ⟨rfl, hid, (by decide : nul ∉ ascii "v"), (by decide : nul ∉ [])⟩
  have hother : ∀ P : Prop, stranger = owner → P := fun P h => absurd h (by decide)
  have hfree : ∀ x : Option Book, x.isNone = true → x = none := fun _ => Option.isNone_iff_eq_none.mp
  have hmixed : Allowed (Call.Issued owner) (Call.serve fun _ items => items) .migrated
      (mixedCalls fun _ => true) := by
    refine ⟨⟨⟨hstrange _ (by decide), by decide, rfl⟩, hother _⟩,
      ⟨⟨hstrange _ (by decide), by decide, hfree _ (by decide +kernel)⟩, hother _⟩,
      ⟨trivial, hother _⟩,
      ⟨⟨hsample, by decide, hfree _ (by decide +kernel)⟩, fun _ => trivial⟩,
      ⟨trivial, fun _ => trivial⟩, trivial, ⟨trivial, fun _ => Or.inl ?_⟩, trivial, trivial⟩
    decide +kernel
  have hown : Allowed (Call.Issued owner) (Call.serve fun _ items => items) .migrated
      (ownCalls fun _ => false) :=
    ⟨⟨⟨hsample, by decide, rfl⟩, fun _ => trivial⟩, ⟨trivial, fun _ => trivial⟩, trivial,
      ⟨trivial, fun _ => Or.inr fun _ hk => by cases hk⟩, trivial, trivial⟩
  have hmigrated : Requested .migrated := .start rfl
  exact (users_isolated (fun _ items => items) hmigrated hmigrated rfl hmixed hown rfl).1

end ZReader.Storage
