import ZReader.Storage.Operations

namespace ZReader.Handlers

open Lib.Utf8 Lib.Strings Lib.KeyValue Storage

structure BookmarkRequest where
  cfi : Bytes
  percentage : ℚ
  chapter : Bytes
  note : Bytes
  deriving DecidableEq

def maxBookmarkCFIRunes : Nat := 16 * 1024
def maxBookmarkChapterRunes : Nat := 500
def maxBookmarkNoteRunes : Nat := 10 * 1024

/-- Why `ShouldBindJSON` fails. -/
inductive BindError
  | bodyTooLarge
  | invalid
  deriving DecidableEq

/-- What `Create` answers: the stored bookmark, or a status and a message. -/
inductive BookmarkReply
  | created (bookmark : Bookmark)
  | refused (status : Nat) (message : String)
  deriving DecidableEq

/-- The message of the first check that rejects a request whose strings are trimmed. -/
def rejectBookmark (req : BookmarkRequest) : Option String :=
  if req.cfi = [] then some "缺少书签位置"
  else if (runes req.cfi).length > maxBookmarkCFIRunes then some "书签位置过长"
  else if (runes req.chapter).length > maxBookmarkChapterRunes then some "章节名称过长"
  else if (runes req.note).length > maxBookmarkNoteRunes then some "书签备注过长"
  else if req.percentage < 0 ∨ req.percentage > 100 then some "书签进度必须在 0 到 100 之间"
  else none

def BookmarkRequest.trimmed (req : BookmarkRequest) : BookmarkRequest :=
  { req with cfi := trimSpace req.cfi, chapter := trimSpace req.chapter, note := trimSpace req.note }

def newBookmark (bookID userID id : Bytes) (req : BookmarkRequest) (now : Time) : Bookmark where
  id := id
  bookID := bookID
  userID := userID
  cfi := req.cfi
  percentage := req.percentage
  chapter := req.chapter
  note := req.note
  createdAt := now

/-- `BookmarksHandler.Create` with the generated identifier `id` at the time `now`. -/
def createBookmark (bookID userID : Bytes) (body : Except BindError BookmarkRequest) (id : Bytes)
    (now : Time) (db : Tx) : Tx × BookmarkReply :=
  match body with
  | .error .bodyTooLarge => (db, .refused 413 "请求体过大")
  | .error .invalid => (db, .refused 400 "请求内容无效")
  | .ok req =>
      match rejectBookmark req.trimmed with
      | some message => (db, .refused 400 message)
      | none =>
          let bookmark := newBookmark bookID userID id req.trimmed now
          match saveBookmark bookmark userID db with
          | .ok tx => (tx, .created bookmark)
          | .error .notFound => (db, .refused 404 "书籍不存在")
          | .error _ => (db, .refused 500 "保存书签失败")

/-- The length of a generated identifier, such as `6ba7b810-9dad-11d1-80b4-00c04fd430c8`. -/
def uuidLength : Nat := 36

/-- The requests that `Create` stores: they bind, pass the checks, and name a book of the
caller. -/
def AcceptsBookmark (db : Tx) (bookID userID : Bytes) (body : Except BindError BookmarkRequest) :
    Prop :=
  (∃ req, body = .ok req ∧ rejectBookmark req.trimmed = none) ∧
    (∃ book, db.books.get bookID = some book ∧ book.userID = userID) ∧
    userID.length + bookID.length + uuidLength + 2 ≤ maxKeySize

variable {db : Tx} {bookID userID id : Bytes} {body : Except BindError BookmarkRequest}

theorem validKey_bookmarkKey (hid : id.length = uuidLength) :
    ValidKey (bookmarkKey userID bookID id) ↔
      userID.length + bookID.length + uuidLength + 2 ≤ maxKeySize := by
  have hne : bookmarkKey userID bookID id ≠ [] := by simp [bookmarkKey]
  have hlen : (bookmarkKey userID bookID id).length =
      userID.length + bookID.length + uuidLength + 2 := by
    simp only [bookmarkKey, List.length_append, List.length_singleton, hid]
    omega
  rw [ValidKey, hlen]
  exact and_iff_right hne

theorem store_of_not_valid {V : Type} {b : Bucket V} {k : Bytes} {v : V} (hk : ¬ValidKey k) :
    ∃ e, store b k v = .error (.put e) := by
  rw [store, Bucket.put, dif_neg hk]
  split
  · next h => split at h <;> cases h
  · next e _ => exact ⟨e, rfl⟩

/-- `SaveBookmark` stores the bookmark of a book that is the caller's. -/
theorem saveBookmark_of_owned {book : Book} {m : Bookmark} (hu : m.userID = userID)
    (hbook : db.books.get m.bookID = some book) (howner : book.userID = userID) :
    saveBookmark m userID db = (store db.bookmarks (bookmarkKey userID m.bookID m.id) m).map
      (fun b => { db with bookmarks := b }) := by
  subst hu
  have howned : ownedBook db m.bookID m.userID = .ok book := by simp [ownedBook, hbook, howner]
  simp only [saveBookmark, howned]
  cases store db.bookmarks (bookmarkKey m.userID m.bookID m.id) m <;> rfl

theorem saveBookmark_of_not_owned {m : Bookmark}
    (h : ¬∃ book, db.books.get m.bookID = some book ∧ book.userID = userID) :
    saveBookmark m userID db = .error .notFound := by
  have howned : ownedBook db m.bookID userID = .error .notFound := by
    rw [ownedBook]
    split
    · rfl
    · next book hbook =>
      have hne : book.userID ≠ userID := fun he => h ⟨book, hbook, he⟩
      exact if_pos hne
  simp only [saveBookmark, howned]
  rfl

/-- An accepted request stores one row, under the generated identifier. -/
theorem createBookmark_of_accepts (now : Time) (hid : id.length = uuidLength)
    (h : AcceptsBookmark db bookID userID body) :
    ∃ b m, db.bookmarks.put (bookmarkKey userID bookID id) m = .ok b ∧
      createBookmark bookID userID body id now db = ({ db with bookmarks := b }, .created m) := by
  obtain ⟨⟨req, rfl, hreq⟩, ⟨book, hbook, howner⟩, hlen⟩ := h
  have hkey := (validKey_bookmarkKey hid).mpr hlen
  obtain ⟨b, hb⟩ := db.bookmarks.put_of_valid hkey (newBookmark bookID userID id req.trimmed now)
  refine ⟨b, newBookmark bookID userID id req.trimmed now, hb, ?_⟩
  have hstore : store db.bookmarks (bookmarkKey userID bookID id)
      (newBookmark bookID userID id req.trimmed now) = .ok b := by rw [store, hb]
  have hsave : saveBookmark (newBookmark bookID userID id req.trimmed now) userID db =
      .ok { db with bookmarks := b } := by
    refine (saveBookmark_of_owned rfl hbook howner).trans ?_
    change Except.map _ (store db.bookmarks (bookmarkKey userID bookID id) _) = _
    rw [hstore]
    rfl
  simp only [createBookmark, hreq, hsave]

/-- Every other request leaves the database as it is; the answer is no gateway error. -/
theorem createBookmark_of_not_accepts (now : Time) (hid : id.length = uuidLength)
    (h : ¬AcceptsBookmark db bookID userID body) :
    ∃ status message, status ∈ [400, 404, 413, 500] ∧
      createBookmark bookID userID body id now db = (db, .refused status message) := by
  unfold createBookmark
  split
  · exact ⟨_, _, by simp, rfl⟩
  · exact ⟨_, _, by simp, rfl⟩
  · next req =>
    split
    · exact ⟨_, _, by simp, rfl⟩
    · next hreq =>
      by_cases howned : ∃ book, db.books.get bookID = some book ∧ book.userID = userID
      · obtain ⟨book, hbook, howner⟩ := howned
        have hkey : ¬ValidKey (bookmarkKey userID bookID id) := fun hkey =>
          h ⟨⟨req, rfl, hreq⟩, ⟨book, hbook, howner⟩, (validKey_bookmarkKey hid).mp hkey⟩
        obtain ⟨e, he⟩ := store_of_not_valid hkey (b := db.bookmarks)
          (v := newBookmark bookID userID id req.trimmed now)
        have hsave : saveBookmark (newBookmark bookID userID id req.trimmed now) userID db =
            .error (.put e) := by
          refine (saveBookmark_of_owned rfl hbook howner).trans ?_
          change Except.map _ (store db.bookmarks (bookmarkKey userID bookID id) _) = _
          rw [he]
          rfl
        simp only [hsave]
        exact ⟨_, _, by simp, rfl⟩
      · have hsave : saveBookmark (newBookmark bookID userID id req.trimmed now) userID db =
            .error .notFound := saveBookmark_of_not_owned howned
        simp only [hsave]
        exact ⟨_, _, by simp, rfl⟩

/-- Storing a bookmark does not change which requests are accepted. -/
theorem AcceptsBookmark.of_books_eq {db' : Tx} (h : db'.books = db.books) :
    AcceptsBookmark db' bookID userID body ↔ AcceptsBookmark db bookID userID body := by
  simp only [AcceptsBookmark, h]

end ZReader.Handlers
