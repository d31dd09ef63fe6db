import ZReader.Storage.Content

namespace ZReader.Storage

open Lib.Utf8 Lib.Strings Lib.KeyValue Lib.DerivedIndex Lib.Fallible Lib.Transition

def findBookByContentHash (tx : Tx) (userID contentHash : Bytes) : Option Book :=
  if contentHash = [] then none
  else
    ((tx.bookContentIndex.get (bookContentIndexKey userID contentHash)).bind tx.books.get).filter
      (fun candidate => candidate.userID = userID ∧ candidate.contentHash = contentHash)

/-- The content rows of a state are those of its books. -/
def Contents (tx : Tx) : Prop := ContentIndexed tx.books.get tx.bookContentIndex

theorem contents_migrated : Contents .migrated := by
  have hnone : (Bucket.empty : Bucket Book).get = fun _ => none := by
    funext k
    exact Bucket.get_empty k
  rw [Contents, Tx.migrated, hnone]
  exact contentIndexed_empty

theorem store_get {V : Type} {b c : Bucket V} {k : Bytes} {v : V} (h : store b k v = .ok c) :
    c.get = Function.update b.get k (some v) := by
  funext j
  rw [Bucket.get_put (store_eq_ok.mp h), Function.update_apply]
  simp only [eq_comm]

theorem delete_get {V : Type} (b : Bucket V) (k : Bytes) :
    (b.delete k).get = Function.update b.get k none := by
  funext j
  rw [Bucket.get_delete, Function.update_apply]
  simp only [eq_comm]

theorem Contents.congr {tx tx' : Tx} (h : Contents tx) (hb : tx'.books = tx.books)
    (hc : tx'.bookContentIndex = tx.bookContentIndex) : Contents tx' := by
  rw [Contents, hb, hc]
  exact h

/-- A record may be rewritten in anything but its owner and its hash. -/
theorem Contents.rewrite {tx tx' : Tx} (h : Contents tx) {id : Bytes} {b b' : Book}
    (hget : tx.books.get id = some b) (hbooks : tx'.books.get = Function.update tx.books.get id (some b'))
    (hc : tx'.bookContentIndex = tx.bookContentIndex) (hid : b'.id = b.id)
    (hu : b'.userID = b.userID) (hh : b'.contentHash = b.contentHash) : Contents tx' := by
  rw [Contents, hbooks, hc]
  apply ContentIndexed.congr h
  intro k
  by_cases hk : k = id
  · rw [hk, Function.update_self, hget, Option.map_some, Option.map_some, hid, hu, hh]
  · rw [Function.update_of_ne hk]

/-! ## One transaction -/

theorem saveBook_books {tx tx' : Tx} {book : Book} (h : saveBook book tx = .ok tx') (k : Bytes) :
    tx'.books.get k =
      if book.id = k then some { book with category := normalizeCategoryName book.category }
      else tx.books.get k := by
  rw [saveBook_eq] at h
  obtain ⟨bs, hbs, h⟩ := bind_eq_ok.mp h
  obtain ⟨tx₁, h₁, h⟩ := bind_eq_ok.mp h
  obtain ⟨tx₂, h₂, h⟩ := bind_eq_ok.mp h
  obtain ⟨i, hi⟩ := reassignBook_rows h₁
  have hunlist : tx₂.books = tx₁.books := by
    cases hold : tx.books.get book.id with
    | none =>
        rw [hold] at h₂
        cases h₂
        rfl
    | some old =>
        rw [hold] at h₂
        exact (unlistBook_frame h₂).books
  rw [(listBook_frame h).books, hunlist, hi]
  exact Bucket.get_put (store_eq_ok.mp hbs) k

theorem createBook_books {tx tx' : Tx} {book : Book} (h : createBook book tx = .ok tx') :
    tx'.books.get = Function.update tx.books.get book.id
      (some { book with category := normalizeCategoryName book.category }) := by
  simp only [createBook] at h
  split at h
  · cases h
  · obtain ⟨bs, hbs, h⟩ := bind_eq_ok.mp h
    obtain ⟨tx₁, h₁, h⟩ := bind_eq_ok.mp h
    change listBook tx₁ { book with category := normalizeCategoryName book.category } = .ok tx' at h
    obtain ⟨i, hi⟩ := addBookToUserIndex_rows h₁
    rw [(listBook_frame h).books, hi]
    exact store_get hbs

theorem saveBook_contents {tx tx' : Tx} {book : Book} (hI : Contents tx)
    (hp : Plain book.id book) (h : saveBook book tx = .ok tx') : Contents tx' := by
  rw [saveBook_eq] at h
  obtain ⟨bs, hbs, h⟩ := bind_eq_ok.mp h
  obtain ⟨tx₁, h₁, h⟩ := bind_eq_ok.mp h
  obtain ⟨tx₂, h₂, h⟩ := bind_eq_ok.mp h
  generalize hb : { book with category := normalizeCategoryName book.category } = b at hbs h
  have hplain : Plain b.id b := by
    rw [← hb]
    exact ⟨rfl, hp.wellFormed, hp.user, hp.hash⟩
  have hid : book.id = b.id := by rw [← hb]
  rw [hid] at hbs h₂
  have hreassigned : tx₁.books = bs ∧ tx₁.bookContentIndex = tx.bookContentIndex := by
    obtain ⟨i, he⟩ := reassignBook_rows h₁
    rw [he]
    exact ⟨rfl, rfl⟩
  have hfile := listBook_content h
  rw [Contents, (listBook_frame h).books]
  cases hold : tx.books.get b.id with
  | none =>
      rw [hold] at h₂
      cases h₂
      rw [hreassigned.2] at hfile
      rw [hreassigned.1, store_get hbs]
      exact hI.file hplain (by simp [hold]) hfile
  | some old =>
      rw [hold] at h₂
      have holdid := (hI.plain b.id old hold).key
      have hunfiled := unlistBook_content h₂
      rw [hreassigned.2] at hunfiled
      have hunfile := hI.unfile (b := old) (by rw [holdid, hold]) hunfiled
      rw [holdid] at hunfile
      have hfiled := hunfile.file hplain (by simp) hfile
      rwa [Function.update_idem, ← store_get hbs, ← hreassigned.1, ← (unlistBook_frame h₂).books]
        at hfiled

theorem createBook_contents {tx tx' : Tx} {book : Book} (hI : Contents tx)
    (hp : Plain book.id book) (hnew : tx.books.get book.id = none)
    (h : createBook book tx = .ok tx') : Contents tx' := by
  simp only [createBook] at h
  split at h
  · cases h
  · generalize hb : { book with category := normalizeCategoryName book.category } = b at h
    have hplain : Plain b.id b := by
      rw [← hb]
      exact ⟨rfl, hp.wellFormed, hp.user, hp.hash⟩
    have hid : book.id = b.id := by rw [← hb]
    rw [hid] at h hnew
    obtain ⟨bs, hbs, h⟩ := bind_eq_ok.mp h
    obtain ⟨tx₁, h₁, h⟩ := bind_eq_ok.mp h
    change listBook tx₁ b = .ok tx' at h
    have hindexed : tx₁.books = bs ∧ tx₁.bookContentIndex = tx.bookContentIndex := by
      obtain ⟨i, he⟩ := addBookToUserIndex_rows h₁
      rw [he]
      exact ⟨rfl, rfl⟩
    have hfile := listBook_content h
    rw [hindexed.2] at hfile
    rw [Contents, (listBook_frame h).books, hindexed.1, store_get hbs]
    exact hI.file hplain (by simp [hnew]) hfile

/-- A deletion takes the stored record away, with its rows in the content index. -/
theorem deleteBookDataInTx_rows {passed : Bytes → Bool} {tx tx' : Tx} {id u : Bytes} {b : Book}
    (h : deleteBookDataInTx passed tx id u = .ok (b, tx')) :
    tx.books.get id = some b ∧ tx'.books.get = Function.update tx.books.get id none ∧
      unfileContent tx.bookContentIndex b = .ok tx'.bookContentIndex := by
  rw [deleteBookDataInTx_eq] at h
  obtain ⟨b', hown, h⟩ := bind_eq_ok.mp h
  obtain ⟨tx₁, h₁, h⟩ := bind_eq_ok.mp h
  obtain ⟨tx₂, h₂, h⟩ := bind_eq_ok.mp h
  obtain ⟨tx₃, h₃, h⟩ := bind_eq_ok.mp h
  cases h
  obtain ⟨hget, -⟩ := ownedBook_eq_ok.mp hown
  obtain ⟨i, hi⟩ := removeBookFromUserIndex_rows
    { removeBookFromSortIndex tx₂ b with books := (removeBookFromSortIndex tx₂ b).books.delete id } id u
  obtain ⟨p, t, m, hd⟩ := dropReadingData_eq passed (removeBookFromUserIndex
    { removeBookFromSortIndex tx₂ b with books := (removeBookFromSortIndex tx₂ b).books.delete id } id u)
      id u
  have hsearch := removeBookFromSearchIndex_frame (dropReadingData passed (removeBookFromUserIndex
    { removeBookFromSortIndex tx₂ b with books := (removeBookFromSortIndex tx₂ b).books.delete id } id u)
      id u) b
  refine ⟨hget, ?_, ?_⟩
  · rw [(removeBookFromSearchGramIndex_frame h₃).books, hsearch.books, hd, hi]
    change ((removeBookFromSortIndex tx₂ b).books.delete id).get = _
    rw [(removeBookFromSortIndex_frame tx₂ b).books, (removeBookFromContentIndex_frame h₂).books,
      (adjustLibrarySummary_frame h₁).books, delete_get]
  · have hcontent : tx'.bookContentIndex = tx₂.bookContentIndex := by
      rw [removeBookFromSearchGramIndex_content h₃, removeBookFromSearchIndex_content, hd, hi]
      exact removeBookFromSortIndex_content tx₂ b
    have hunfile := removeBookFromContentIndex_content h₂
    rwa [adjustLibrarySummary_content h₁, ← hcontent] at hunfile

theorem deleteBookDataInTx_contents {passed : Bytes → Bool} {tx tx' : Tx} {id u : Bytes} {b : Book}
    (hI : Contents tx) (h : deleteBookDataInTx passed tx id u = .ok (b, tx')) : Contents tx' := by
  obtain ⟨hget, hbooks, hunfile⟩ := deleteBookDataInTx_rows h
  have hid := (hI.plain id b hget).key
  rw [Contents, hbooks, ← hid]
  apply ContentIndexed.unfile hI
  · rw [hid, hget]
  · exact hunfile

theorem deleteBookData_contents {tx tx' : Tx} {id u : Bytes} (hI : Contents tx)
    (h : deleteBookData id u tx = .ok tx') : Contents tx' := by
  rw [deleteBookData] at h
  obtain ⟨⟨b, tx₁⟩, h₁, h⟩ := bind_eq_ok.mp h
  cases h
  exact deleteBookDataInTx_contents hI h₁

theorem deleteBooksData_contents {passed : Bytes → Bool} {tx tx' : Tx} {ids : List Bytes} {u : Bytes}
    {bs : List Book} (hI : Contents tx) (h : deleteBooksData ids u passed tx = .ok (bs, tx')) :
      Contents tx' := by
  refine foldlM_invariant (fun r : List Book × Tx => Contents r.2) ?_ hI h
  intro id _ r r' hr hstep
  obtain ⟨⟨b, tx₁⟩, h₁, hstep⟩ := bind_eq_ok.mp hstep
  cases hstep
  exact deleteBookDataInTx_contents hr h₁

/-- What a batch deletes was stored, and what it leaves is as it was. -/
theorem deleteBooksData_rows {passed : Bytes → Bool} {tx tx' : Tx} {ids : List Bytes} {u : Bytes}
    {bs : List Book}
    (h : deleteBooksData ids u passed tx = .ok (bs, tx')) :
    (∀ k b, tx'.books.get k = some b → tx.books.get k = some b) ∧
      ∀ b ∈ bs, ∃ k, tx.books.get k = some b ∧ tx'.books.get k = none := by
  refine foldlM_invariant (fun r : List Book × Tx =>
    (∀ k b, r.2.books.get k = some b → tx.books.get k = some b) ∧
      ∀ b ∈ r.1, ∃ k, tx.books.get k = some b ∧ r.2.books.get k = none) ?_
    ⟨fun _ _ => id, fun _ hb => absurd hb List.not_mem_nil⟩ h
  rintro id _ r r' ⟨hleft, hgone⟩ hstep
  obtain ⟨⟨b, tx₁⟩, h₁, hstep⟩ := bind_eq_ok.mp hstep
  cases hstep
  obtain ⟨hget, hbooks, -⟩ := deleteBookDataInTx_rows h₁
  have hless : ∀ k, tx₁.books.get k = none ∨ tx₁.books.get k = r.2.books.get k := by
    intro k
    rw [hbooks, Function.update_apply]
    split
    · exact Or.inl rfl
    · exact Or.inr rfl
  constructor
  · intro k b' hb'
    rcases hless k with hnone | hsame
    · rw [hnone] at hb'
      cases hb'
    · exact hleft k b' (hsame ▸ hb')
  · intro b' hb'
    rcases List.mem_append.mp hb' with hb' | hb'
    · obtain ⟨k, hk, hnone⟩ := hgone b' hb'
      refine ⟨k, hk, ?_⟩
      rcases hless k with hnone' | hsame
      · exact hnone'
      · exact hsame.trans hnone
    · rw [List.mem_singleton.mp hb']
      exact ⟨id, hleft id b hget, by rw [hbooks, Function.update_self]⟩

theorem deleteBooksByUser_contents {tx tx' : Tx} {u : Bytes} (hI : Contents tx)
    (h : deleteBooksByUser u tx = .ok tx') : Contents tx' :=
  foldlM_invariant Contents (fun _ _ _ _ ht hstep => deleteBookData_contents ht hstep) hI h

/-- A change of category rewrites the record, and leaves the content index alone. -/
theorem updateBookCategory_rows {tx tx' : Tx} {id u : Bytes} {category : Option Bytes} {b : Book}
    (hkey : ∀ b, tx.books.get id = some b → b.id = id)
    (h : updateBookCategory u category tx id = .ok (b, tx')) :
    ∃ old, tx.books.get id = some old ∧
      tx'.books.get = Function.update tx.books.get id (some { old with category := category }) ∧
      tx'.bookContentIndex = tx.bookContentIndex := by
  simp only [updateBookCategory] at h
  obtain ⟨old, hown, h⟩ := bind_eq_ok.mp h
  obtain ⟨tx₁, h₁, h⟩ := bind_eq_ok.mp h
  obtain ⟨tx₂, h₂, h⟩ := bind_eq_ok.mp h
  obtain ⟨bs, hbs, h⟩ := bind_eq_ok.mp h
  obtain ⟨tx₃, h₃, h⟩ := bind_eq_ok.mp h
  obtain ⟨tx₄, h₄, h⟩ := bind_eq_ok.mp h
  obtain ⟨tx₅, h₅, h⟩ := bind_eq_ok.mp h
  obtain ⟨tx₆, h₆, h⟩ := bind_eq_ok.mp h
  cases h
  obtain ⟨hget, -⟩ := ownedBook_eq_ok.mp hown
  have hbefore := ((adjustLibrarySummary_frame h₁).trans (removeBookFromSortIndex_frame tx₁ old)).trans
    (removeBookFromSearchGramIndex_frame h₂)
  have hafter := (((addBookToSearchIndex_frame h₃).trans (addBookToSortIndex_frame h₄)).trans
    (addBookToSearchGramIndex_frame h₅)).trans (adjustLibrarySummary_frame h₆)
  refine ⟨old, hget, ?_, ?_⟩
  · rw [hafter.books, ← hbefore.books, ← hkey old hget]
    exact store_get hbs
  · rw [adjustLibrarySummary_content h₆, addBookToSearchGramIndex_content h₅,
      addBookToSortIndex_content h₄, addBookToSearchIndex_content h₃]
    change tx₂.bookContentIndex = _
    rw [removeBookFromSearchGramIndex_content h₂, removeBookFromSortIndex_content,
      adjustLibrarySummary_content h₁]

theorem updateBookCategory_contents {tx tx' : Tx} {id u : Bytes} {category : Option Bytes} {b : Book}
    (hI : Contents tx) (h : updateBookCategory u category tx id = .ok (b, tx')) : Contents tx' := by
  obtain ⟨old, hget, hbooks, hcontent⟩ :=
    updateBookCategory_rows (fun old hold => (hI.plain id old hold).key) h
  exact hI.rewrite hget hbooks hcontent rfl rfl rfl

theorem updateBooksCategoryInTx_contents {tx tx' : Tx} {ids : List Bytes} {u : Bytes}
    {category : Option Bytes} {bs : List Book} (hI : Contents tx)
    (h : updateBooksCategoryInTx tx ids u category = .ok (bs, tx')) : Contents tx' := by
  refine foldlM_invariant (fun r : List Book × Tx => Contents r.2) ?_ hI h
  intro id _ r r' hr hstep
  obtain ⟨⟨b, tx₁⟩, h₁, hstep⟩ := bind_eq_ok.mp hstep
  cases hstep
  exact updateBookCategory_contents hr h₁

theorem renameBookCategory_contents {tx tx' : Tx} {u source : Bytes} {target : Option Bytes}
    {ids : List Bytes} (hI : Contents tx) (h : renameBookCategory u source target tx = .ok (ids, tx')) :
    Contents tx' := by
  simp only [renameBookCategory] at h
  split at h
  · cases h
    exact hI
  · split at h
    · cases h
    · obtain ⟨⟨bs, tx₁⟩, h₁, h⟩ := bind_eq_ok.mp h
      cases h
      exact updateBooksCategoryInTx_contents hI h₁

/-- A saved position changes at most the reading time of its book. -/
theorem saveProgressIfCurrent_rows {tx tx' : Tx} {p : Progress} {u : Bytes} {e : Option Time}
    (hkey : ∀ b, tx.books.get p.bookID = some b → b.id = p.bookID)
    (h : saveProgressIfCurrent p u e tx = .ok tx') :
    tx'.bookContentIndex = tx.bookContentIndex ∧
      ∃ b, tx.books.get p.bookID = some b ∧ (tx'.books = tx.books ∨ tx'.books.get =
        Function.update tx.books.get p.bookID (some { b with lastReadAt := some p.updatedAt })) := by
  rw [saveProgressIfCurrent_eq] at h
  obtain ⟨b, hown, h⟩ := bind_eq_ok.mp h
  obtain ⟨hget, -⟩ := ownedBook_eq_ok.mp hown
  simp only at h
  split at h
  · cases h
  · obtain ⟨tx₁, h₁, h⟩ := bind_eq_ok.mp h
    obtain ⟨q, t, rfl⟩ := recordProgress_ok h
    rw [touchBook] at h₁
    split at h₁
    · cases h₁
      exact ⟨rfl, b, hget, .inl rfl⟩
    · obtain ⟨bs, hbs, h₁⟩ := bind_eq_ok.mp h₁
      obtain ⟨s, c, rfl⟩ := updateBookSortKey_rows h₁
      refine ⟨rfl, b, hget, .inr ?_⟩
      rw [← hkey b hget]
      exact store_get hbs

theorem saveProgressIfCurrent_contents {tx tx' : Tx} {p : Progress} {u : Bytes} {e : Option Time}
    (hI : Contents tx) (h : saveProgressIfCurrent p u e tx = .ok tx') : Contents tx' := by
  obtain ⟨hcontent, b, hget, hsame | hbooks⟩ :=
    saveProgressIfCurrent_rows (fun b hb => (hI.plain _ b hb).key) h
  · exact hI.congr hsame hcontent
  · exact hI.rewrite hget hbooks hcontent rfl rfl rfl

theorem backfillBookContentHash_contents {tx tx' : Tx} {snapshot : Book} (hI : Contents tx)
    (hh : nul ∉ snapshot.contentHash) (h : backfillBookContentHash tx snapshot = .ok tx') :
    Contents tx' := by
  rw [backfillBookContentHash] at h
  split at h
  · cases h
    exact hI
  · split at h
    · cases h
      exact hI
    · next b hget =>
      split at h
      · cases h
        exact hI
      · next hn =>
        obtain ⟨bs, hbs, h⟩ := bind_eq_ok.mp h
        have hp := hI.plain _ b hget
        rw [← hp.key] at hget
        have hfile := addBookToContentIndex_content h
        rw [Contents, (addBookToContentIndex_frame h).books, store_get hbs]
        apply ContentIndexed.file (b := { b with contentHash := snapshot.contentHash }) hI
          ⟨rfl, hp.key ▸ hp.wellFormed, hp.user, hh⟩ _ hfile
        intro c hc hhash
        rw [hget] at hc
        cases hc
        -- only a book without a hash is given one
        exact hn (Or.inr (Or.inr hhash.2))

theorem backfillBookContentHashes_contents {tx tx' : Tx} {hashes : List Book} (hI : Contents tx)
    (hh : ∀ snapshot ∈ hashes, nul ∉ snapshot.contentHash)
    (h : backfillBookContentHashes hashes tx = .ok tx') : Contents tx' :=
  foldlM_invariant Contents
    (fun s hs _ _ ht hstep => backfillBookContentHash_contents ht (hh s hs) hstep) hI h

/-! ## Rewriting and rebuilding -/

theorem foldlM_content {add : Tx → Book → Result Tx} {tx tx₀ tx' : Tx} {l : List Book}
    (hadd : ∀ t t' b, add t b = .ok t' → t'.bookContentIndex = t.bookContentIndex)
    (h₀ : tx₀.bookContentIndex = tx.bookContentIndex) (h : l.foldlM add tx₀ = .ok tx') :
    tx'.bookContentIndex = tx.bookContentIndex :=
  foldlM_invariant (fun t => t.bookContentIndex = tx.bookContentIndex)
    (fun b _ t t' hI hstep => (hadd t t' b hstep).trans hI) h₀ h

theorem rebuildBookSortIndex_content {tx tx' : Tx} (h : rebuildBookSortIndex tx = .ok tx') :
    tx'.bookContentIndex = tx.bookContentIndex := by
  refine foldlM_content ?_ ?_ h
  · intro t t' b hstep
    exact addBookToSortIndex_content hstep
  · rfl

theorem rebuildBookSearchIndex_content {tx tx' : Tx} (h : rebuildBookSearchIndex tx = .ok tx') :
    tx'.bookContentIndex = tx.bookContentIndex := by
  refine foldlM_content ?_ ?_ h
  · intro t t' b hstep
    exact addBookToSearchIndex_content hstep
  · rfl

theorem rebuildBookSearchGramIndex_content {tx tx' : Tx}
    (h : rebuildBookSearchGramIndex tx = .ok tx') : tx'.bookContentIndex = tx.bookContentIndex := by
  refine foldlM_content ?_ ?_ h
  · intro t t' b hstep
    exact addBookToSearchGramIndex_content hstep
  · rfl

theorem rebuildLibrarySummaryIndex_content {tx tx' : Tx}
    (h : rebuildLibrarySummaryIndex tx = .ok tx') : tx'.bookContentIndex = tx.bookContentIndex := by
  refine foldlM_content ?_ ?_ h
  · intro t t' b hstep
    exact adjustLibrarySummary_content hstep
  · rfl

theorem rebuildMissingBookHashIndex_content {tx tx' : Tx}
    (h : rebuildMissingBookHashIndex tx = .ok tx') : tx'.bookContentIndex = tx.bookContentIndex := by
  refine foldlM_content ?_ ?_ h
  · intro t t' b hstep
    obtain ⟨m, rfl⟩ := trackMissingBookHash_ok hstep
    rfl
  · rfl

theorem Plain.normalize {id : Bytes} {b : Book} (h : Plain id b) : Plain id (withNormalCategory b) :=
  ⟨h.key, h.wellFormed, h.user, h.hash⟩

theorem normalizeBookCategories_contents {tx tx' : Tx} (hI : Contents tx)
    (h : normalizeBookCategories tx = .ok tx') : Contents tx' := by
  rw [normalizeBookCategories] at h
  obtain ⟨tx₁, h₁, h⟩ := bind_eq_ok.mp h
  obtain ⟨tx₂, h₂, h⟩ := bind_eq_ok.mp h
  obtain ⟨tx₃, h₃, h⟩ := bind_eq_ok.mp h
  obtain ⟨tx₄, h₄, h₅⟩ := bind_eq_ok.mp h
  obtain ⟨bs, he, hbs⟩ := migrateBookCategories_ok h₁
  have hnormal : Contents tx₁ := by
    rw [he]
    apply ContentIndexed.congr hI
    intro id
    rw [hbs, Option.map_map]
    rfl
  have hbooks := (rebuildBookSortIndex_frame h₂).trans (rebuildBookSearchIndex_frame h₃)
  have hbooks' := (rebuildBookSearchGramIndex_frame h₄).trans (rebuildLibrarySummaryIndex_frame h₅)
  apply hnormal.congr (hbooks.trans hbooks').books
  rw [rebuildLibrarySummaryIndex_content h₅, rebuildBookSearchGramIndex_content h₄,
    rebuildBookSearchIndex_content h₃, rebuildBookSortIndex_content h₂]

/-- Rebuilding the content index from records that may be filed. -/
theorem rebuildBookContentIndex_contents {tx tx' : Tx}
    (hp : ∀ id b, tx.books.get id = some b → Plain id b)
    (h : rebuildBookContentIndex tx = .ok tx') : Contents tx' := by
  have hkeyed : Keyed tx := fun id b hb => ⟨(hp id b hb).key, (hp id b hb).wellFormed⟩
  have hget : ∀ b ∈ tx.books.values, tx.books.get b.id = some b := by
    intro b hb
    obtain ⟨k, hk⟩ := Bucket.mem_values.mp hb
    rw [(hp k b hk).key, hk]
  -- the records read so far
  let read (pre : List Book) (id : Bytes) : Option Book :=
    if id ∈ pre.map (·.id) then tx.books.get id else none
  have hloop : tx'.books = tx.books ∧ ContentIndexed (read tx.books.values) tx'.bookContentIndex := by
    refine foldlM_induction (fun pre t => t.books = tx.books ∧
      ContentIndexed (read pre) t.bookContentIndex) ?_ ?_ h
    · rintro pre b suf he t t' ⟨hbooks, hI⟩ hstep
      have hb : tx.books.get b.id = some b := hget b (by rw [show tx.books.values = _ from he]; simp)
      have hfresh : b.id ∉ pre.map (·.id) := by
        have hnodup := hkeyed.library.2
        rw [show tx.books.values = _ from he, List.map_append, List.map_cons] at hnodup
        intro hm
        exact (List.nodup_append.mp hnodup).2.2 b.id hm b.id (by simp) rfl
      have hread : read (pre ++ [b]) = Function.update (read pre) b.id (some b) := by
        funext id
        simp only [read, List.map_append, List.map_singleton, List.mem_append, List.mem_singleton]
        by_cases hid : id = b.id
        · rw [hid, Function.update_self, if_pos (Or.inr rfl), hb]
        · rw [Function.update_of_ne hid]
          simp only [hid, or_false]
      have hnone : ∀ c, read pre b.id = some c → ¬ Hashed c := by
        intro c hc
        simp only [read, if_neg hfresh, reduceCtorEq] at hc
      have hplain : Plain b.id b := hp b.id b hb
      rw [hread]
      split at hstep
      · next hn =>
        cases hstep
        exact ⟨hbooks, hI.file_unhashed hplain (fun hhash => hhash.2 hn) hnone⟩
      · exact ⟨(addBookToContentIndex_frame hstep).books.trans hbooks,
          hI.file hplain hnone (addBookToContentIndex_content hstep)⟩
    · exact ⟨rfl, contentIndexed_empty⟩
  rw [Contents, hloop.1]
  have hall : read tx.books.values = tx.books.get := by
    funext id
    simp only [read]
    split
    · rfl
    · next hn =>
      cases hb : tx.books.get id with
      | none => rfl
      | some b =>
          refine absurd (List.mem_map.mpr ⟨b, Bucket.mem_values.mpr ⟨id, hb⟩, ?_⟩) hn
          exact (hp id b hb).key
  rw [← hall]
  exact hloop.2

/-- The record with an owner, the given one if it has none. -/
def withOwner (userID : Bytes) (b : Book) : Book :=
  if b.userID ≠ [] then b else { b with userID := userID }

theorem assignUnownedBooks_books {tx tx' : Tx} {u : Bytes} (h : assignUnownedBooks u tx = .ok tx')
    (k : Bytes) : tx'.books.get k = (tx.books.get k).map (withOwner u) := by
  refine foldlM_rewrite ?_ h k
  intro t r t' hget hstep j
  split at hstep
  · next hu =>
    cases hstep
    rw [withOwner, if_pos hu]
    split
    · next hj => rw [← hj, hget]
    · rfl
  · next hu =>
    obtain ⟨bs, hbs, hstep⟩ := bind_eq_ok.mp hstep
    obtain ⟨t₁, h₁, hstep⟩ := bind_eq_ok.mp hstep
    obtain ⟨i, he⟩ := addBookToUserIndex_rows h₁
    rw [(addBookToSortIndex_frame hstep).books, he, withOwner, if_neg hu]
    exact Bucket.get_put (store_eq_ok.mp hbs) j

theorem Plain.withOwner {id u : Bytes} {b : Book} (h : Plain id b) (hu : nul ∉ u) :
    Plain id (withOwner u b) := by
  rw [Storage.withOwner]
  split
  · exact h
  · exact ⟨h.key, h.wellFormed, hu, h.hash⟩

theorem assignUnownedDataToUser_contents {tx tx' : Tx} {u : Bytes} (hI : Contents tx)
    (hu : nul ∉ u) (h : assignUnownedDataToUser u tx = .ok tx') : Contents tx' := by
  simp only [assignUnownedDataToUser] at h
  split at h
  · cases h
    exact hI
  · obtain ⟨tx₁, h₁, h⟩ := bind_eq_ok.mp h
    obtain ⟨tx₂, h₂, h⟩ := bind_eq_ok.mp h
    obtain ⟨tx₃, h₃, h⟩ := bind_eq_ok.mp h
    obtain ⟨tx₄, h₄, h⟩ := bind_eq_ok.mp h
    obtain ⟨tx₅, h₅, h⟩ := bind_eq_ok.mp h
    obtain ⟨tx₆, h₆, h⟩ := bind_eq_ok.mp h
    obtain ⟨tx₇, h₇, h⟩ := bind_eq_ok.mp h
    obtain ⟨tx₈, h₈, h⟩ := bind_eq_ok.mp h
    obtain ⟨tx₉, h₉, h₁₀⟩ := bind_eq_ok.mp h
    have hplain : ∀ id b, tx₆.books.get id = some b → Plain id b := by
      intro id b hb
      obtain ⟨p, he₂⟩ := assignUnownedProgress_ok h₂
      obtain ⟨bs, he₃, hbs⟩ := migrateBookCategories_ok h₃
      rw [((((rebuildBookSortIndex_frame h₄).trans (rebuildBookSearchIndex_frame h₅)).trans
        (rebuildBookSearchGramIndex_frame h₆)).books), he₃] at hb
      change bs.get id = some b at hb
      rw [hbs, he₂, Option.map_eq_some_iff] at hb
      obtain ⟨c, hc, rfl⟩ := hb
      rw [assignUnownedBooks_books h₁, Option.map_eq_some_iff] at hc
      obtain ⟨d, hd, rfl⟩ := hc
      exact ((hI.plain id d hd).withOwner (fun hn => hu (mem_of_mem_trimSpace hn))).normalize
    have hrebuilt := rebuildBookContentIndex_contents hplain h₇
    have hcounted := hrebuilt.congr (rebuildLibrarySummaryIndex_frame h₈).books
      (rebuildLibrarySummaryIndex_content h₈)
    obtain ⟨t, he₉⟩ := rebuildProgressTimeIndex_ok h₉
    have htimed : Contents tx₉ := by
      rw [he₉]
      exact hcounted.congr rfl rfl
    exact htimed.congr (rebuildMissingBookHashIndex_frame h₁₀).books
      (rebuildMissingBookHashIndex_content h₁₀)

/-! ## The errors of index maintenance -/

/-- Nothing but the key-value store fails. -/
def StoreErrors {α : Type} (x : Result α) : Prop := ∀ e, x = .error e → ∃ p, e = .put p

theorem storeErrors_ok {α : Type} (a : α) : StoreErrors (.ok a : Result α) := by
  intro e he
  cases he

theorem StoreErrors.bind {α β : Type} {x : Result α} {f : α → Result β} (hx : StoreErrors x)
    (hf : ∀ a, StoreErrors (f a)) : StoreErrors (x >>= f) := by
  intro e he
  cases x with
  | error d =>
      change Except.error d = Except.error e at he
      cases he
      exact hx _ rfl
  | ok a => exact hf a e he

theorem storeErrors_store {V : Type} (b : Bucket V) (k : Bytes) (v : V) :
    StoreErrors (store b k v) := by
  intro e he
  rw [store] at he
  split at he
  · cases he
  · next p _ =>
    cases he
    exact ⟨p, rfl⟩

theorem storeErrors_foldlM {α β : Type} {f : β → α → Result β} (hf : ∀ b a, StoreErrors (f b a))
    (l : List α) (b : β) : StoreErrors (l.foldlM f b) := by
  induction l generalizing b with
  | nil => exact storeErrors_ok b
  | cons a l ih =>
      rw [List.foldlM_cons]
      exact (hf b a).bind ih

theorem addBookToUserIndex_errors (tx : Tx) (id u : Bytes) :
    StoreErrors (addBookToUserIndex tx id u) := by
  rw [addBookToUserIndex]
  split
  · apply storeErrors_ok
  · apply (storeErrors_store _ _ _).bind
    intro i
    apply storeErrors_ok

theorem addBookToSortIndex_errors (tx : Tx) (b : Book) : StoreErrors (addBookToSortIndex tx b) := by
  rw [addBookToSortIndex]
  split
  · apply storeErrors_ok
  · apply storeErrors_foldlM
    intro t k
    rw [addSortKey]
    apply (storeErrors_store _ _ _).bind
    intro s
    simp only
    split
    · apply storeErrors_ok
    · apply (storeErrors_store _ _ _).bind
      intro c
      apply storeErrors_ok

theorem addBookToSearchIndex_errors (tx : Tx) (b : Book) :
    StoreErrors (addBookToSearchIndex tx b) := by
  rw [addBookToSearchIndex]
  split
  · apply storeErrors_ok
  · apply (storeErrors_store _ _ _).bind
    intro s
    apply storeErrors_ok

theorem adjustBookSearchGramCount_errors (tx : Tx) (u g : Bytes) (d : Int) :
    StoreErrors (adjustBookSearchGramCount tx u g d) := by
  rw [adjustBookSearchGramCount]
  split
  · apply storeErrors_ok
  · simp only
    split
    · apply storeErrors_ok
    · apply (storeErrors_store _ _ _).bind
      intro c
      apply storeErrors_ok

theorem addBookToSearchGramIndex_errors (tx : Tx) (b : Book) :
    StoreErrors (addBookToSearchGramIndex tx b) := by
  rw [addBookToSearchGramIndex]
  split
  · apply storeErrors_ok
  · apply storeErrors_foldlM
    intro t g
    simp only [addSearchGram]
    split
    · apply storeErrors_ok
    · apply (storeErrors_store _ _ _).bind
      intro c
      apply adjustBookSearchGramCount_errors

theorem trackMissingBookHash_errors (tx : Tx) (b : Book) :
    StoreErrors (trackMissingBookHash tx b) := by
  rw [trackMissingBookHash]
  split
  · apply storeErrors_ok
  · split
    · apply storeErrors_ok
    · simp only
      split
      · apply storeErrors_ok
      · apply (storeErrors_store _ _ _).bind
        intro m
        apply storeErrors_ok

theorem addBookToContentIndex_errors (tx : Tx) (b : Book) :
    StoreErrors (addBookToContentIndex tx b) := by
  rw [addBookToContentIndex]
  apply (trackMissingBookHash_errors tx b).bind
  intro t
  split
  · apply storeErrors_ok
  · apply (storeErrors_store _ _ _).bind
    intro c
    split
    · apply storeErrors_ok
    · apply (storeErrors_store _ _ _).bind
      intro d
      apply storeErrors_ok

theorem adjustLibrarySummary_errors (tx : Tx) (b : Book) (d : Int) :
    StoreErrors (adjustLibrarySummary tx b d) := by
  rw [adjustLibrarySummary, saveLibrarySummary]
  split
  · apply storeErrors_ok
  · split
    · apply storeErrors_ok
    · apply (storeErrors_store _ _ _).bind
      intro s
      apply storeErrors_ok

theorem listBook_errors (tx : Tx) (b : Book) : StoreErrors (listBook tx b) := by
  rw [listBook]
  apply (addBookToSortIndex_errors tx b).bind
  intro t
  apply (addBookToSearchIndex_errors t b).bind
  intro t
  apply (addBookToSearchGramIndex_errors t b).bind
  intro t
  apply (addBookToContentIndex_errors t b).bind
  intro t
  apply adjustLibrarySummary_errors

/-- A creation is refused as a duplicate by its own check only. -/
theorem createBook_duplicate_iff (book : Book) (tx : Tx) :
    createBook book tx = .error .duplicateBookContent ↔ book.contentHash ≠ [] ∧
      ∃ c, tx.bookContentIndex.get (bookContentIndexKey book.userID book.contentHash) = some c ∧
        c ≠ book.id := by
  simp only [createBook]
  split
  · next hdup =>
    simp only [true_iff]
    obtain ⟨hh, hany⟩ := hdup
    obtain ⟨c, hc, hne⟩ := (Option.any_eq_true _ _).mp hany
    exact ⟨hh, c, hc, by simpa using hne⟩
  · next hdup =>
    constructor
    · intro herr
      have herrors : StoreErrors (do
          let b ← store tx.books book.id { book with category := normalizeCategoryName book.category }
          let tx ← addBookToUserIndex { tx with books := b } book.id book.userID
          listBook tx { book with category := normalizeCategoryName book.category }) := by
        apply (storeErrors_store _ _ _).bind
        intro b
        apply (addBookToUserIndex_errors _ _ _).bind
        intro t
        apply listBook_errors
      obtain ⟨p, hp⟩ := herrors _ herr
      cases hp
    · rintro ⟨hh, c, hc, hne⟩
      exact absurd ⟨hh, (Option.any_eq_true _ _).mpr ⟨c, hc, by simpa using hne⟩⟩ hdup

/-! ## Runs -/

/-- What the callers of the operations guarantee: identifiers are generated, new books
get unused ones, and content hashes are digests, which like identifiers have no separator. -/
def Op.Fileable (db : Tx) : Op → Prop
  | .saveBook book => Plain book.id book
  | .createBook book => Plain book.id book ∧ db.books.get book.id = none
  | .backfillBookContentHashes hashes => ∀ snapshot ∈ hashes, nul ∉ snapshot.contentHash
  | .assignUnownedDataToUser userID => nul ∉ userID
  | _ => True

def Op.FilingStep (db : Tx) (op : Op) (db' : Tx) : Prop := op.Fileable db ∧ db' = op.run db

theorem Op.transaction_contents {tx tx' : Tx} {op : Op} (hI : Contents tx) (hop : op.Fileable tx)
    (h : op.transaction tx = .ok tx') : Contents tx' := by
  cases op with
  | saveBook book => exact saveBook_contents hI hop h
  | createBook book => exact createBook_contents hI hop.1 hop.2 h
  | deleteBookData id u => exact deleteBookData_contents hI h
  | deleteBooksData ids u passed =>
      obtain ⟨bs, h⟩ := map_snd_eq_ok h
      exact deleteBooksData_contents hI h
  | updateBooksCategory ids u c =>
      obtain ⟨bs, h⟩ := map_snd_eq_ok h
      exact updateBooksCategoryInTx_contents hI h
  | renameBookCategory u s t =>
      obtain ⟨ids, h⟩ := map_snd_eq_ok h
      exact renameBookCategory_contents hI h
  | normalizeBookCategories => exact normalizeBookCategories_contents hI h
  | saveProgressIfCurrent p u e => exact saveProgressIfCurrent_contents hI h
  | backfillBookContentHashes hs => exact backfillBookContentHashes_contents hI hop h
  | assignUnownedDataToUser u => exact assignUnownedDataToUser_contents hI hop h
  | deleteUserData u =>
      rw [transaction, Storage.deleteUserData] at h
      obtain ⟨tx₁, h₁, h⟩ := bind_eq_ok.mp h
      cases h
      exact (deleteBooksByUser_contents hI h₁).congr rfl rfl
  | purgeUser id =>
      simp only [transaction, Storage.purgeUser] at h
      split at h
      · cases h
      · obtain ⟨tx₁, h₁, h⟩ := bind_eq_ok.mp h
        cases h
        exact (deleteBooksByUser_contents hI h₁).congr rfl rfl
  | deleteProgress b u =>
      simp only [transaction, Storage.deleteProgress] at h
      cases h
      split
      · next p _ =>
        obtain ⟨t, ht⟩ := removeProgressFromTimeIndex_eq tx p
        rw [ht]
        exact hI.congr rfl rfl
      · exact hI.congr rfl rfl
  | saveUser user =>
      simp only [transaction, Storage.saveUser] at h
      obtain ⟨us, -, h⟩ := bind_eq_ok.mp h
      obtain ⟨un, -, h⟩ := bind_eq_ok.mp h
      cases h
      exact hI.congr rfl rfl
  | deleteUser id =>
      simp only [transaction, Storage.deleteUser] at h
      split at h
      · cases h
      · cases h
        exact hI.congr rfl rfl
  | saveBookmark m u =>
      simp only [transaction, Storage.saveBookmark] at h
      obtain ⟨_, -, h⟩ := bind_eq_ok.mp h
      obtain ⟨ms, -, h⟩ := bind_eq_ok.mp h
      cases h
      exact hI.congr rfl rfl
  | deleteBookmark b m u =>
      simp only [transaction, Storage.deleteBookmark] at h
      obtain ⟨_, -, h⟩ := bind_eq_ok.mp h
      split at h
      · cases h
      · cases h
        exact hI.congr rfl rfl

abbrev Filed (db : Tx) : Prop := Reachable (· = Tx.migrated) Op.FilingStep db

theorem Filed.contents {db : Tx} (h : Filed db) : Contents db := by
  refine h.invariant Contents ?_ ?_
  · rintro s rfl
    exact contents_migrated
  · rintro s op t hs ⟨hop, rfl⟩
    exact Tx.update_induction hs (fun _ ht => Op.transaction_contents hs hop ht)

/-- The book with this identifier is the user's and has this hash. -/
def HasHash (db : Tx) (u hash id : Bytes) : Prop :=
  ∃ b, db.books.get id = some b ∧ b.userID = u ∧ b.contentHash = hash

theorem Contents.membership {db : Tx} (h : Contents db) {u hash : Bytes} (hu : u ≠ [])
    (hh : hash ≠ []) (hun : nul ∉ u) (hhn : nul ∉ hash) (id v : Bytes) :
    db.bookContentIndex.get (bookContentIndexKey u hash ++ [nul] ++ id) = some v ↔
      v = id ∧ HasHash db u hash id := by
  constructor
  · intro hk
    obtain ⟨b, hb, -, hrow⟩ := h.sound _ v hk
    have hp := h.plain v b hb
    have hpre : bookContentIndexKey u hash ++ [nul] <+: bookContentIndexKey u hash ++ [nul] ++ id :=
      List.prefix_append _ _
    rcases hrow with hrow | hrow
    · obtain ⟨rfl, rfl⟩ := hp.prefix_membership hun hhn (hrow ▸ hpre)
      have hid : id = v := by
        rw [bookContentMembershipKey] at hrow
        rw [List.append_cancel_left hrow, hp.key]
      exact ⟨hid.symm, b, hid ▸ hb, rfl, rfl⟩
    · exact absurd (hrow ▸ hpre) (hp.not_prefix_canonical hun)
  · rintro ⟨rfl, b, hb, rfl, rfl⟩
    have hmem := h.member v b hb ⟨hu, hh⟩
    rwa [bookContentMembershipKey, (h.plain v b hb).key] at hmem

theorem Contents.canonical_sound {db : Tx} (h : Contents db) {u hash c : Bytes} (hun : nul ∉ u)
    (hhn : nul ∉ hash) (hc : db.bookContentIndex.get (bookContentIndexKey u hash) = some c) :
    HasHash db u hash c := by
  obtain ⟨b, hb, -, hrow⟩ := h.sound _ c hc
  have hp := h.plain c b hb
  rcases hrow with hrow | hrow
  · exact absurd hrow.symm (hp.membership_ne hun hhn)
  · obtain ⟨rfl, rfl⟩ := bookContentIndexKey_inj hun hp.user hrow
    exact ⟨b, hb, rfl, rfl⟩

theorem Contents.canonical_exists {db : Tx} (h : Contents db) {u hash id : Bytes} (hu : u ≠ [])
    (hh : hash ≠ []) (hid : HasHash db u hash id) :
    ∃ c, db.bookContentIndex.get (bookContentIndexKey u hash) = some c := by
  obtain ⟨b, hb, rfl, rfl⟩ := hid
  exact h.canonical id b hb ⟨hu, hh⟩

theorem findBookByContentHash_eq_some {db : Tx} {u hash : Bytes} {b : Book}
    (h : findBookByContentHash db u hash = some b) :
    ∃ id, db.books.get id = some b ∧ b.userID = u ∧ b.contentHash = hash := by
  rw [findBookByContentHash] at h
  split at h
  · cases h
  · obtain ⟨hbind, hown⟩ := Option.filter_eq_some_iff.mp h
    obtain ⟨id, -, hb⟩ := Option.bind_eq_some_iff.mp hbind
    rw [decide_eq_true_eq] at hown
    exact ⟨id, hb, hown⟩

theorem Contents.find {db : Tx} (h : Contents db) {u hash id : Bytes} (hu : u ≠ [])
    (hh : hash ≠ []) (hid : HasHash db u hash id) :
    ∃ b, findBookByContentHash db u hash = some b := by
  obtain ⟨b, hb, rfl, rfl⟩ := hid
  have hp := h.plain id b hb
  obtain ⟨c, hc⟩ := h.canonical id b hb ⟨hu, hh⟩
  obtain ⟨d, hd, hdu, hdh⟩ := h.canonical_sound hp.user hp.hash hc
  refine ⟨d, ?_⟩
  rw [findBookByContentHash, if_neg hh, hc, Option.bind_some, hd]
  exact Option.filter_eq_some_iff.mpr ⟨rfl, by simp [hdu, hdh]⟩

/-- The content index knows exactly the books with an owner and a hash, and its canonical
rows never dangle. -/
theorem content_index {db : Tx} (hreach : Filed db) {u hash : Bytes} (hu : u ≠ []) (hh : hash ≠ [])
    (hun : nul ∉ u) (hhn : nul ∉ hash) :
    (∀ id v, db.bookContentIndex.get (bookContentIndexKey u hash ++ [nul] ++ id) = some v ↔
      v = id ∧ HasHash db u hash id) ∧
    ((∃ c, db.bookContentIndex.get (bookContentIndexKey u hash) = some c) ↔
      ∃ id, HasHash db u hash id) ∧
    (∀ c, db.bookContentIndex.get (bookContentIndexKey u hash) = some c → HasHash db u hash c) ∧
    ((∃ b, findBookByContentHash db u hash = some b) ↔ ∃ id, HasHash db u hash id) ∧
    (∀ b, findBookByContentHash db u hash = some b → HasHash db u hash b.id) ∧
    (∀ book, (Op.createBook book).Fileable db → book.userID = u → book.contentHash = hash →
      ((createBook book db = .error .duplicateBookContent ↔
          ∃ id, id ≠ book.id ∧ HasHash db u hash id) ∧
        (createBook book db = .error .duplicateBookContent → (Op.createBook book).run db = db))) ∧
    ∀ op : Op, op.Fileable db → ∀ c,
      db.bookContentIndex.get (bookContentIndexKey u hash) = some c →
      ¬ HasHash (op.run db) u hash c → (∃ id, HasHash (op.run db) u hash id) →
        ∃ d, d ≠ c ∧ (op.run db).bookContentIndex.get (bookContentIndexKey u hash) = some d ∧
          HasHash (op.run db) u hash d := by
  have h := hreach.contents
  refine ⟨h.membership hu hh hun hhn, ?_, fun c hc => h.canonical_sound hun hhn hc, ?_, ?_, ?_, ?_⟩
  · constructor
    · rintro ⟨c, hc⟩
      exact ⟨c, h.canonical_sound hun hhn hc⟩
    · rintro ⟨id, hid⟩
      exact h.canonical_exists hu hh hid
  · constructor
    · rintro ⟨b, hb⟩
      obtain ⟨id, hget, hown⟩ := findBookByContentHash_eq_some hb
      exact ⟨id, b, hget, hown⟩
    · rintro ⟨id, hid⟩
      exact h.find hu hh hid
  · intro b hb
    obtain ⟨id, hget, hown⟩ := findBookByContentHash_eq_some hb
    exact ⟨b, by rw [(h.plain id b hget).key, hget], hown⟩
  · rintro book ⟨-, hnew⟩ rfl rfl
    refine ⟨?_, ?_⟩
    · rw [createBook_duplicate_iff]
      constructor
      · rintro ⟨-, c, hc, hne⟩
        exact ⟨c, hne, h.canonical_sound hun hhn hc⟩
      · rintro ⟨id, -, hid⟩
        obtain ⟨c, hc⟩ := h.canonical_exists hu hh hid
        refine ⟨hh, c, hc, ?_⟩
        rintro rfl
        obtain ⟨b, hb, -⟩ := h.canonical_sound hun hhn hc
        rw [hnew] at hb
        cases hb
    · intro herr
      rw [Op.run, Tx.update, Op.transaction, herr]
  · intro op hop c hc hgone hleft
    have hnext : Filed (op.run db) := hreach.next (a := op) ⟨hop, rfl⟩
    obtain ⟨id, hid⟩ := hleft
    obtain ⟨d, hd⟩ := hnext.contents.canonical_exists hu hh hid
    have hdh := hnext.contents.canonical_sound hun hhn hd
    refine ⟨d, ?_, hd, hdh⟩
    rintro rfl
    exact hgone hdh

/-- Two copies of one file; the first one uploaded has been deleted. -/
def promoted : Tx :=
  (Op.deleteBookData (ascii "b") (ascii "u")).run
    ((Op.saveBook { sampleBook with id := ascii "c", contentHash := ascii "h" }).run
      ((Op.saveBook { sampleBook with contentHash := ascii "h" }).run .migrated))

theorem promoted_filed : Filed promoted := by
  have hfirst : Filed ((Op.saveBook { sampleBook with contentHash := ascii "h" }).run .migrated) :=
    Reachable.next (a := .saveBook _) (.start rfl) ⟨⟨rfl, by decide, by decide, by decide⟩, rfl⟩
  have hsecond : Filed ((Op.saveBook { sampleBook with id := ascii "c", contentHash := ascii "h" }).run
      ((Op.saveBook { sampleBook with contentHash := ascii "h" }).run .migrated)) :=
    hfirst.next (a := .saveBook _) ⟨⟨rfl, by decide, by decide, by decide⟩, rfl⟩
  exact hsecond.next (a := .deleteBookData _ _) ⟨trivial, rfl⟩

theorem promoted_found : ∃ b, findBookByContentHash promoted (ascii "u") (ascii "h") = some b := by
  have hleft : (promoted.books.get (ascii "c")).any
      (fun b => b.userID = ascii "u" ∧ b.contentHash = ascii "h") = true := by decide +kernel
  obtain ⟨b, hb, hown⟩ := (Option.any_eq_true _ _).mp hleft
  rw [decide_eq_true_eq] at hown
  have hu : ascii "u" ≠ [] ∧ nul ∉ ascii "u" := by decide
  have hh : ascii "h" ≠ [] ∧ nul ∉ ascii "h" := by decide
  have hindex := content_index promoted_filed hu.1 hh.1 hu.2 hh.2
  exact hindex.2.2.2.1.mpr ⟨ascii "c", b, hb, hown⟩

/-- The hash of the second book is the hash of the first one, a separator and its identifier. -/
def overlapping : Tx :=
  (Op.saveBook { sampleBook with
      id := ascii "c", contentHash := ascii "h" ++ [nul] ++ ascii "b" }).run
    ((Op.saveBook { sampleBook with contentHash := ascii "h" }).run .migrated)

theorem overlapping_reached : Reached overlapping := by
  have hfirst : Reached ((Op.saveBook { sampleBook with contentHash := ascii "h" }).run .migrated) :=
    Reached.run (.start rfl) (.saveBook _) (by decide : WellFormedID (ascii "b"))
  exact hfirst.run (.saveBook _) (by decide : WellFormedID (ascii "c"))

/-- The membership row of the first book stands where the canonical row of the second one would. -/
theorem overlapping_missed : ∃ (db : Tx) (u hash : Bytes), Reached db ∧ u ≠ [] ∧ hash ≠ [] ∧
    (∃ id, HasHash db u hash id) ∧ findBookByContentHash db u hash = none := by
  refine ⟨overlapping, ascii "u", ascii "h" ++ [nul] ++ ascii "b", overlapping_reached, by decide,
    by decide, ⟨ascii "c", ?_⟩, Option.isNone_iff_eq_none.mp (by decide +kernel)⟩
  have hstored : (overlapping.books.get (ascii "c")).any (fun b =>
      b.userID = ascii "u" ∧ b.contentHash = ascii "h" ++ [nul] ++ ascii "b") = true := by
    decide +kernel
  obtain ⟨b, hb, hown⟩ := (Option.any_eq_true _ _).mp hstored
  rw [decide_eq_true_eq] at hown
  exact ⟨b, hb, hown⟩

end ZReader.Storage
