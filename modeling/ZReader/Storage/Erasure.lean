import ZReader.Storage.References

namespace ZReader.Storage

open Lib.Utf8 Lib.Strings Lib.KeyValue Lib.DerivedIndex Lib.Fallible Lib.Transition

variable {tx tx' : Tx} {passed : Bytes → Bool}

/-! ## Deleting a stored book does not fail -/

theorem removeBookFromContentIndex_total {b : Book} (hI : Contents tx) (id : Bytes)
    (hget : tx.books.get id = some b) : ∃ tx', removeBookFromContentIndex tx b = .ok tx' := by
  simp only [removeBookFromContentIndex]
  split
  · exact ⟨_, rfl⟩
  · next hhash =>
    split
    · exact ⟨_, rfl⟩
    · split
      · next k i hhead =>
        have hhashed : Hashed b :=
          ⟨fun hu => hhash (.inl hu), fun hh => hhash (.inr hh)⟩
        obtain ⟨c, hc⟩ := hI.canonical id b hget hhashed
        obtain ⟨d, hd⟩ := store_of_valid
          (tx.bookContentIndex.delete (bookContentMembershipKey b)) (Bucket.valid_of_get hc) i
        exact ⟨_, bind_eq_ok.mpr ⟨d, hd, rfl⟩⟩
      · exact ⟨_, rfl⟩

theorem removeBookFromSearchGramIndex_total (tx : Tx) {b : Book}
    (hs : ∀ r ∈ gramRows b, ValidKey r.1) : ∃ tx', removeBookFromSearchGramIndex tx b = .ok tx' := by
  rw [removeBookFromSearchGramIndex]
  split
  · exact ⟨tx, rfl⟩
  · next hu =>
    refine foldlM_total (fun _ => True) ?_ trivial
    intro g hg t _
    have hk : ValidKey (bookSearchGramIndexKey b.userID g b.id) := by
      refine hs (_, []) ?_
      simp only [gramRows, Unindexed, if_neg hu]
      exact List.mem_map_of_mem hg
    simp only [removeSearchGram]
    split
    · exact ⟨t, rfl, trivial⟩
    · simp only [adjustBookSearchGramCount]
      split
      · exact ⟨_, rfl, trivial⟩
      · next c hc =>
        split
        · exact ⟨_, rfl, trivial⟩
        · obtain ⟨d, hd⟩ := store_of_valid c (validKey_gramPrefix hk)
            ((bookSearchGramCount c b.userID g : Int) + -1).toNat
          exact ⟨_, bind_eq_ok.mpr ⟨d, hd, rfl⟩, trivial⟩

theorem deleteBookDataInTx_total {id : Bytes} {b : Book} (hI : Consistent tx)
    (hget : tx.books.get id = some b) (passed : Bytes → Bool) :
    ∃ tx', deleteBookDataInTx passed tx id b.userID = .ok (b, tx') := by
  obtain ⟨hid, hw⟩ := hI.coherent.keyed id b hget
  have hu := hI.references.owners id b.userID (ownerOf_eq_some.mpr ⟨b, hget, rfl⟩)
  have hmem : b ∈ tx.books.values := Bucket.mem_values.mpr ⟨id, hget⟩
  obtain ⟨tx₁, h₁⟩ := adjustLibrarySummary_total tx (-1) fun _ =>
    hI.coherent.validKey_userID hmem hu.1
  have hbooks₁ := (adjustLibrarySummary_frame h₁).books
  have hcontents₁ : Contents tx₁ := hI.contents.congr hbooks₁ (adjustLibrarySummary_content h₁)
  obtain ⟨tx₂, h₂⟩ := removeBookFromContentIndex_total hcontents₁ id (by rw [hbooks₁, hget])
  have hrows := hI.coherent.listed.gram.1.valid hmem
  obtain ⟨tx₃, h₃⟩ := removeBookFromSearchGramIndex_total
    (removeBookFromSearchIndex (dropReadingData passed (removeBookFromUserIndex
      { removeBookFromSortIndex tx₂ b with books := (removeBookFromSortIndex tx₂ b).books.delete id }
      id b.userID) id b.userID) b) hrows
  refine ⟨tx₃, ?_⟩
  rw [deleteBookDataInTx_eq]
  exact bind_eq_ok.mpr ⟨b, ownedBook_eq_ok.mpr ⟨hget, rfl⟩,
    bind_eq_ok.mpr ⟨tx₁, h₁, bind_eq_ok.mpr ⟨tx₂, h₂, bind_eq_ok.mpr ⟨tx₃, h₃, rfl⟩⟩⟩⟩

/-! ## What a deletion takes away, and that it is nothing else -/

/-- The state `tx'` is `tx` without the book `b` and all that goes with it, but for bookmarks of
the book that a cursor passed over. -/
structure Erased (passed : Bytes → Bool) (tx : Tx) (b : Book) (tx' : Tx) : Prop where
  books : tx'.books = tx.books.delete b.id
  userBooks : tx'.userBooksIndex = deleteRows tx.userBooksIndex (userBooksRows b)
  sort : tx'.bookSortIndex = deleteRows tx.bookSortIndex (sortRows b)
  categorySort : tx'.bookCategorySortIndex =
    tx.bookCategorySortIndex.map (deleteRows · (categorySortRows b))
  search : tx'.bookSearchIndex = deleteRows tx.bookSearchIndex (searchRows b)
  grams : tx'.bookSearchGramIndex = deleteRows tx.bookSearchGramIndex (gramRows b)
  gramCounts : ∃ c c', tx.bookSearchGramCounts = some c ∧ tx'.bookSearchGramCounts = some c' ∧
    ∀ k, (c.get k).getD 0 = (c'.get k).getD 0 + if k ∈ gramKeys b then 1 else 0
  missing : tx'.bookMissingHashIndex = tx.bookMissingHashIndex.map (deleteRows · (missingRows b))
  summary : ∀ u, loadLibrarySummary tx' u =
    if b.userID = u then adjustedSummary (loadLibrarySummary tx u) (categoryForBook b) (-1)
    else loadLibrarySummary tx u
  content : ∀ k, k ≠ bookContentMembershipKey b → k ≠ bookContentIndexKey b.userID b.contentHash →
    tx'.bookContentIndex.get k = tx.bookContentIndex.get k
  contentGone : ∀ k, tx'.bookContentIndex.get k ≠ some b.id
  progress : ∀ k p, tx'.progress.get k = some p ↔ tx.progress.get k = some p ∧ p.bookID ≠ b.id
  times : ∀ k id, tx'.progressTimeIndex.get k = some id ↔
    tx.progressTimeIndex.get k = some id ∧ id ≠ b.id
  bookmarks : ∀ k m, ¬ (m.userID = b.userID ∧ m.bookID = b.id) →
    (tx'.bookmarks.get k = some m ↔ tx.bookmarks.get k = some m)
  ownBookmarks : ∀ k m, m.userID = b.userID → m.bookID = b.id → tx'.bookmarks.get k = some m →
    tx.bookmarks.get k = some m ∧ passed k = true
  accounts : SameAccounts tx tx'

/-- An index that follows the books before and after has lost the rows of the book. -/
theorem mirrors_erased {R V : Type} {rows : R → List (Bytes × V)} {r : R}
    {l : List R} {idx jdx : Bucket V} (h : Mirrors rows (r :: l) idx) (hsep : Separate rows r l)
    (h' : Mirrors rows l jdx) : jdx = deleteRows idx (rows r) :=
  h'.unique (h.remove hsep)

theorem summary_erased {b : Book} {l : List Book} (hu : b.userID ≠ [])
    (h : SummaryCoherent (b :: l) tx) (h' : SummaryCoherent l tx') (u : Bytes) :
    loadLibrarySummary tx' u =
      if b.userID = u then adjustedSummary (loadLibrarySummary tx u) (categoryForBook b) (-1)
      else loadLibrarySummary tx u := by
  by_cases hn : u = []
  · rw [if_neg (by rw [hn]; exact hu), loadLibrarySummary, if_pos hn, loadLibrarySummary, if_pos hn]
  · split
    · next he =>
      rw [← he] at hn ⊢
      exact (h' _ hn).unique (h _ hn).down
    · next hne => exact (h' u hn).unique ((summaryOf_cons_other hne).mp (h u hn))

theorem content_erased {b : Book} {idx idx' : Bucket Bytes} (h : unfileContent idx b = .ok idx')
    {k : Bytes} (hm : k ≠ bookContentMembershipKey b)
    (hk : k ≠ bookContentIndexKey b.userID b.contentHash) : idx'.get k = idx.get k := by
  by_cases hhash : Hashed b
  · have hbucket : (idx.delete (bookContentMembershipKey b)).get k = idx.get k := by
      rw [Bucket.get_delete, if_neg hm.symm]
    rcases unfileContent_rows hhash h with ⟨-, -, -, hrows⟩ | ⟨-, c, -, -, hrows⟩ | ⟨-, hrows⟩
    · rw [hrows, hbucket]
    · rw [hrows, if_neg hk.symm, hbucket]
    · rw [hrows, if_neg hk.symm, hbucket]
  · have hunfiled : b.userID = [] ∨ b.contentHash = [] := by
      by_contra hn
      exact hhash ⟨fun hu => hn (.inl hu), fun hh => hn (.inr hh)⟩
    rw [unfileContent, if_pos hunfiled] at h
    cases h
    rfl

theorem progress_erased {id u : Bytes} {b : Book} (hI : Consistent tx)
    (h : deleteBookDataInTx passed tx id u = .ok (b, tx')) (k : Bytes) (p : Progress) :
    tx'.progress.get k = some p ↔ tx.progress.get k = some p ∧ p.bookID ≠ id := by
  have howner := (deleteBookDataInTx_ownerOf h).1
  have hu := hI.references.owners id u howner
  rw [deleteBookDataInTx_progress h, Bucket.get_delete]
  split
  · next hk =>
    simp only [reduceCtorEq, false_iff, not_and, not_not]
    intro hget
    obtain ⟨hkp, hp⟩ := hI.references.progress k p hget
    rw [← hk, progressKey, progressKey, List.append_assoc, List.append_assoc] at hkp
    exact (append_cons_inj_left (colon_notMem hu) (colon_notMem (hI.references.owners _ _ hp)) hkp).2.symm
  · next hk =>
    rw [iff_self_and]
    intro hget hid
    obtain ⟨hkp, hp⟩ := hI.references.progress k p hget
    rw [hid, howner, Option.some.injEq] at hp
    exact hk (by rw [hkp, hid, hp])

theorem times_erased {id u : Bytes} {b : Book} (hI : Consistent tx) (hI' : Consistent tx')
    (h : deleteBookDataInTx passed tx id u = .ok (b, tx')) (k v : Bytes) :
    tx'.progressTimeIndex.get k = some v ↔ tx.progressTimeIndex.get k = some v ∧ v ≠ id := by
  have hrow : ∀ p, (k, v) ∈ progressRows p → p.bookID = v := by
    intro p hp
    rw [progressRows] at hp
    split at hp
    · cases hp
    · rw [List.mem_singleton, Prod.mk.injEq] at hp
      exact hp.2.symm
  rw [hI.timed.times k v, hI'.timed.times k v]
  simp only [Bucket.mem_values]
  constructor
  · rintro ⟨p, ⟨j, hj⟩, hp⟩
    obtain ⟨hold, hne⟩ := (progress_erased hI h j p).mp hj
    exact ⟨⟨p, ⟨j, hold⟩, hp⟩, by rw [← hrow p hp]; exact hne⟩
  · rintro ⟨⟨p, ⟨j, hj⟩, hp⟩, hne⟩
    exact ⟨p, ⟨j, (progress_erased hI h j p).mpr ⟨hj, by rw [hrow p hp]; exact hne⟩⟩, hp⟩

/-- The keys of the bookmarks of a book, and of no others, have the prefix of the book. -/
theorem bookmark_isPrefix {id u k : Bytes} {m : Bookmark} (hI : Consistent tx)
    (howner : ownerOf tx id = some u) (hget : tx.bookmarks.get k = some m) :
    bookmarkBookPrefix u id <+: k ↔ m.userID = u ∧ m.bookID = id := by
  obtain ⟨hk, huser, hbook⟩ := hI.references.bookmarks k m hget
  obtain ⟨c, hc, -⟩ := ownerOf_eq_some.mp howner
  constructor
  · rintro ⟨x, hx⟩
    rw [hk, bookmarkBookPrefix, bookmarkKey] at hx
    simp only [List.append_assoc] at hx
    obtain ⟨hu, htail⟩ := append_cons_inj_left (colon_notMem (hI.references.owners id u howner))
      (colon_notMem huser) hx
    exact ⟨hu.symm, (append_cons_inj_left (colon_notMem (hI.coherent.keyed id c hc).2)
      (colon_notMem hbook) htail).1.symm⟩
  · rintro ⟨rfl, rfl⟩
    exact ⟨m.id, hk.symm⟩

theorem bookmarks_erased {id u : Bytes} {b : Book} (hI : Consistent tx)
    (h : deleteBookDataInTx passed tx id u = .ok (b, tx')) (k : Bytes) (m : Bookmark) :
    tx'.bookmarks.get k = some m ↔ tx.bookmarks.get k = some m ∧
      (m.userID = u → m.bookID = id → passed k = true) := by
  have hkey := fun hget => bookmark_isPrefix (k := k) (m := m) hI (deleteBookDataInTx_ownerOf h).1 hget
  rw [deleteBookDataInTx_bookmarks h]
  split
  · next hk =>
    simp only [reduceCtorEq, false_iff, not_and]
    intro hget hown
    obtain ⟨hu, hid⟩ := (hkey hget).mp hk.1
    rw [hk.2] at hown
    exact absurd (hown hu hid) (by simp)
  · next hk =>
    rw [iff_self_and]
    intro hget hu hid
    exact Bool.eq_true_of_not_eq_false fun hfalse => hk ⟨(hkey hget).mpr ⟨hu, hid⟩, hfalse⟩

theorem Consistent.deleteBook {id u : Bytes} {b : Book} (hI : Consistent tx)
    (h : deleteBookDataInTx passed tx id u = .ok (b, tx')) : Consistent tx' where
  coherent := (deleteBookDataInTx_ok hI.coherent h).2.2.2
  timed := (deleteBookDataInTx_timed hI.timed h).1
  contents := deleteBookDataInTx_contents hI.contents h
  references := hI.references.delete (fun _ _ => trivial) h

/-- One deletion: it succeeds for the owner, and erases exactly the book. -/
theorem deleteBookDataInTx_erases {id : Bytes} {b : Book} (hI : Consistent tx)
    (hget : tx.books.get id = some b) (passed : Bytes → Bool) :
    ∃ tx', deleteBookDataInTx passed tx id b.userID = .ok (b, tx') ∧ Erased passed tx b tx' ∧
      Consistent tx' := by
  obtain ⟨tx', h⟩ := deleteBookDataInTx_total hI hget passed
  have hI' := hI.deleteBook h
  have hu := (hI.references.owners id b.userID (ownerOf_eq_some.mpr ⟨b, hget, rfl⟩)).1
  obtain ⟨-, -, hbooks, -⟩ := deleteBookDataInTx_ok hI.coherent h
  obtain ⟨rfl, hf, huser, hl⟩ := hI.coherent.focus hget
  have huser' := hI'.coherent.users
  have hl' := hI'.coherent.listed
  rw [hbooks] at huser' hl'
  obtain ⟨hsort, c, hc, hcat⟩ := hl.sort
  obtain ⟨hsort', c', hc', hcat'⟩ := hl'.sort
  obtain ⟨hgram, g, hg, htally⟩ := hl.gram
  obtain ⟨hgram', g', hg', htally'⟩ := hl'.gram
  obtain ⟨m, hm, hmiss⟩ := hl.missing
  obtain ⟨m', hm', hmiss'⟩ := hl'.missing
  refine ⟨tx', h, ?_, hI'⟩
  constructor
  · exact hbooks
  · exact mirrors_erased huser (userBooksRows_separate hf) huser'
  · exact mirrors_erased hsort (sortRows_separate hf) hsort'
  · rw [hc, hc', Option.map_some, mirrors_erased hcat (categorySortRows_separate hf) hcat']
  · exact mirrors_erased hl.search (searchRows_separate hf) hl'.search
  · exact mirrors_erased hgram (gramRows_separate hf) hgram'
  · refine ⟨g, g', hg, hg', ?_⟩
    intro k
    rw [htally k, htally' k, counter_getD, counter_getD, List.countP_cons]
    simp only [decide_eq_true_eq]
  · rw [hm, hm', Option.map_some, mirrors_erased hmiss (missingRows_separate hf) hmiss']
  · exact summary_erased hu hl.summary hl'.summary
  · intro k hmem hkey
    exact content_erased (deleteBookDataInTx_rows h).2.2 hmem hkey
  · intro k hk
    obtain ⟨d, hd, -⟩ := hI'.contents.sound k b.id hk
    rw [hbooks, Bucket.get_delete, if_pos rfl] at hd
    cases hd
  · exact progress_erased hI h
  · exact times_erased hI hI' h
  · intro k m hother
    rw [bookmarks_erased hI h, and_iff_left]
    exact fun hu hid => absurd ⟨hu, hid⟩ hother
  · intro k m hu hid hget
    obtain ⟨hold, hpassed⟩ := (bookmarks_erased hI h k m).mp hget
    exact ⟨hold, hpassed hu hid⟩
  · exact deleteBookDataInTx_accounts h

/-! ## Deleting many books -/

/-- The books are erased one after the other. -/
inductive Erases (passed : Bytes → Bool) : Tx → List Book → Tx → Prop
  | nil {tx : Tx} : Erases passed tx [] tx
  | cons {tx t tx' : Tx} {b : Book} {bs : List Book} :
      Erased passed tx b t → Erases passed t bs tx' → Erases passed tx (b :: bs) tx'

/-- The body of the loop of a batch. -/
def deleteInBatch (passed : Bytes → Bool) (before : Tx) (userID : Bytes) :
    List Book × Tx → Bytes → Result (List Book × Tx) := fun (deletedBooks, tx) id => do
  let (book, tx) ← deleteBookDataInTx (passedOver passed before.bookmarks tx.bookmarks) tx id userID
  .ok (deletedBooks ++ [book], tx)

theorem deleteBooksData_eq (ids : List Bytes) (u : Bytes) (passed : Bytes → Bool) (tx : Tx) :
    deleteBooksData ids u passed tx =
      (uniqueNonEmptyStrings ids).foldlM (deleteInBatch passed tx u) ([], tx) := rfl

theorem Erased.weaken {b : Book} {p : Bytes → Bool} (h : Erased p tx b tx')
    (hsub : ∀ k, p k = true → passed k = true) : Erased passed tx b tx' :=
  { h with ownBookmarks := fun k m hu hid hget =>
      (h.ownBookmarks k m hu hid hget).imp_right (hsub k) }

theorem Erased.get {b : Book} (h : Erased passed tx b tx') {id : Bytes} (hne : id ≠ b.id) :
    tx'.books.get id = tx.books.get id := by
  rw [h.books, Bucket.get_delete, if_neg hne.symm]

theorem Erased.ownerOf {b : Book} (h : Erased passed tx b tx') {id : Bytes} (hne : id ≠ b.id) :
    Storage.ownerOf tx' id = Storage.ownerOf tx id := by
  rw [Storage.ownerOf, h.get hne, Storage.ownerOf]

/-- A loop of deletions over distinct books of the user. -/
theorem deleteBooks_erases {u : Bytes} {ids : List Bytes} (passed : Bytes → Bool) (before : Tx)
    (done : List Book) (hI : Consistent tx) (hn : ids.Nodup)
    (howned : ∀ id ∈ ids, ownerOf tx id = some u) :
    ∃ bs tx', ids.foldlM (deleteInBatch passed before u) (done, tx) = .ok (done ++ bs, tx') ∧
      bs.map some = ids.map tx.books.get ∧ Erases passed tx bs tx' ∧ Consistent tx' := by
  induction ids generalizing tx done with
  | nil => exact ⟨[], tx, by rw [List.append_nil]; rfl, rfl, .nil, hI⟩
  | cons id ids ih =>
      obtain ⟨hnew, hn⟩ := List.nodup_cons.mp hn
      obtain ⟨b, hget, rfl⟩ := ownerOf_eq_some.mp (howned id (by simp))
      obtain ⟨t, hdelete, herased, ht⟩ :=
        deleteBookDataInTx_erases hI hget (passedOver passed before.bookmarks tx.bookmarks)
      have hid := (hI.coherent.keyed id b hget).1
      have hother : ∀ j ∈ ids, j ≠ b.id := by
        intro j hj he
        exact hnew (hid ▸ he ▸ hj)
      obtain ⟨bs, tx', hloop, hbs, herases, hI'⟩ := ih (done ++ [b]) ht hn
        fun j hj => (herased.ownerOf (hother j hj)).trans (howned j (by simp [hj]))
      refine ⟨b :: bs, tx', ?_, ?_, .cons (herased.weaken fun _ => passedOver_le) herases, hI'⟩
      · refine foldlM_cons_eq_ok.mpr ⟨(done ++ [b], t), ?_, ?_⟩
        · exact bind_eq_ok.mpr ⟨(b, t), hdelete, rfl⟩
        · rw [hloop, List.append_assoc]
          rfl
      · rw [List.map_cons, List.map_cons, hget, hbs]
        congr 1
        apply List.map_congr_left
        intro j hj
        exact herased.get (hother j hj)

theorem deleteBookDataInTx_notFound {id u : Bytes} (howner : ownerOf tx id ≠ some u)
    (passed : Bytes → Bool) : deleteBookDataInTx passed tx id u = .error .notFound := by
  have herror : ownedBook tx id u = .error .notFound := by
    rw [ownedBook]
    split
    · rfl
    · next b hget =>
      rw [if_pos]
      intro hu
      exact howner (ownerOf_eq_some.mpr ⟨b, hget, hu⟩)
  rw [deleteBookDataInTx_eq, herror]
  rfl

/-- The loop stops at a book that is not the user's. -/
theorem deleteBooks_notFound {u : Bytes} {ids : List Bytes} (passed : Bytes → Bool) (before : Tx)
    (done : List Book) (hI : Consistent tx) (hn : ids.Nodup)
    (hforeign : ∃ id ∈ ids, ownerOf tx id ≠ some u) :
    ids.foldlM (deleteInBatch passed before u) (done, tx) = .error .notFound := by
  induction ids generalizing tx done with
  | nil => simp at hforeign
  | cons id ids ih =>
      obtain ⟨hnew, hn⟩ := List.nodup_cons.mp hn
      rw [List.foldlM_cons, deleteInBatch]
      by_cases howned : ownerOf tx id = some u
      · obtain ⟨b, hget, rfl⟩ := ownerOf_eq_some.mp howned
        obtain ⟨t, hdelete, herased, ht⟩ :=
          deleteBookDataInTx_erases hI hget (passedOver passed before.bookmarks tx.bookmarks)
        have hid := (hI.coherent.keyed id b hget).1
        simp only [hdelete]
        apply ih (done ++ [b]) ht hn
        obtain ⟨j, hj, hne⟩ := hforeign
        rcases List.mem_cons.mp hj with rfl | hj
        · exact absurd howned hne
        · refine ⟨j, hj, ?_⟩
          rw [herased.ownerOf]
          · exact hne
          · intro he
            exact hnew (hid ▸ he ▸ hj)
      · simp only [deleteBookDataInTx_notFound howned]
        rfl

theorem nodup_uniqueNonEmptyStrings (values : List Bytes) : (uniqueNonEmptyStrings values).Nodup := by
  suffices hgen : ∀ acc : List Bytes, acc.Nodup → (values.foldl (fun result value =>
      let value := trimSpace value
      if value = [] ∨ value ∈ result then result else result ++ [value]) acc).Nodup from
    hgen [] List.nodup_nil
  induction values with
  | nil => exact fun _ hacc => hacc
  | cons value values ih =>
      intro acc hacc
      rw [List.foldl_cons]
      apply ih
      simp only
      split
      · exact hacc
      · next hnew =>
        refine List.nodup_append.mpr ⟨hacc, List.nodup_singleton _, ?_⟩
        intro x hx y hy hxy
        rw [List.mem_singleton] at hy
        exact hnew (.inr (by rw [← hy, ← hxy]; exact hx))

/-- A deletion succeeds for the owner of the book, a batch of deletions for the owner of all
the books, and then erases exactly these, each with its progress, its bookmarks and its rows in
every index; else nothing is deleted at all. A batch can leave bookmarks behind that a cursor
passes over, though only if it deletes several bookmarked books. -/
theorem deletions_exact {db : Tx} (h : Requested db) (u : Bytes) :
    (∀ id b, db.books.get id = some b → b.userID = u →
      ∃ db', deleteBookData id u db = .ok db' ∧ Erased (fun _ => false) db b db') ∧
    (∀ id, ownerOf db id ≠ some u → deleteBookData id u db = .error .notFound) ∧
    (∀ ids passed, (∀ id ∈ uniqueNonEmptyStrings ids, ownerOf db id = some u) →
      ∃ bs db', deleteBooksData ids u passed db = .ok (bs, db') ∧
        bs.map some = (uniqueNonEmptyStrings ids).map db.books.get ∧ Erases passed db bs db' ∧
        ((bookmarkedIDs db ids u).length ≤ 1 → Erases (fun _ => false) db bs db')) ∧
    ∀ ids passed, (∃ id ∈ uniqueNonEmptyStrings ids, ownerOf db id ≠ some u) →
      deleteBooksData ids u passed db = .error .notFound ∧
        (Op.deleteBooksData ids u passed).run db = db := by
  have hn := nodup_uniqueNonEmptyStrings
  refine ⟨?_, ?_, ?_, ?_⟩
  · rintro id b hget rfl
    obtain ⟨db', hdelete, herased, -⟩ := deleteBookDataInTx_erases h.consistent hget fun _ => false
    exact ⟨db', by rw [deleteBookData, hdelete]; rfl, herased⟩
  · intro id howner
    rw [deleteBookData, deleteBookDataInTx_notFound howner]
    rfl
  · intro ids passed howned
    have herase := fun p => deleteBooks_erases p db [] h.consistent (hn ids) howned
    obtain ⟨bs, db', hloop, hbs, herases, -⟩ := herase passed
    refine ⟨bs, db', hloop, hbs, herases, ?_⟩
    intro htidy
    obtain ⟨cs, tx, hclean, -, hclears, -⟩ := herase fun _ => false
    have hsame := deleteBooksData_tidy passed htidy
    rw [deleteBooksData_eq, deleteBooksData_eq, hloop, hclean] at hsame
    cases hsame
    exact hclears
  · intro ids passed hforeign
    have hdelete : deleteBooksData ids u passed db = .error .notFound :=
      deleteBooks_notFound passed db [] h.consistent (hn ids) hforeign
    refine ⟨hdelete, ?_⟩
    rw [Op.run, Tx.update, Op.transaction, hdelete]
    rfl

/-- The cursor would pass over everything. -/
theorem marked_deleted : ∃ bs db',
    deleteBooksData [ascii "b"] (ascii "u") (fun _ => true) marked = .ok (bs, db') ∧
      bs.length = 1 ∧ Erases (fun _ => false) marked bs db' := by
  have howned : ∀ id ∈ uniqueNonEmptyStrings [ascii "b"], ownerOf marked id = some (ascii "u") := by
    decide +kernel
  obtain ⟨bs, db', hdelete, hbs, -, herases⟩ :=
    (deletions_exact marked_requested (ascii "u")).2.2.1 [ascii "b"] (fun _ => true) howned
  have hlength := congrArg List.length hbs
  rw [List.length_map, List.length_map] at hlength
  exact ⟨bs, db', hdelete, hlength.trans (by decide), herases (by decide +kernel)⟩

/-! ## Removing all that a user has -/

theorem Erases.books {bs : List Book} (h : Erases passed tx bs tx') (id : Bytes) :
    tx'.books.get id = if id ∈ bs.map Book.id then none else tx.books.get id := by
  induction h with
  | nil => rfl
  | cons herased _ ih =>
      rw [ih, herased.books, Bucket.get_delete, List.map_cons]
      split
      · next hmem => rw [if_pos (List.mem_cons_of_mem _ hmem)]
      · next hmem =>
        split
        · next hid => rw [if_pos (hid ▸ List.mem_cons_self)]
        · next hid =>
          rw [if_neg]
          intro hm
          rcases List.mem_cons.mp hm with he | hm
          · exact hid he.symm
          · exact hmem hm

theorem Erases.accounts {bs : List Book} (h : Erases passed tx bs tx') : SameAccounts tx tx' := by
  induction h with
  | nil => exact .refl _
  | cons herased _ ih => exact herased.accounts.trans ih

/-- Progress is left for the books that are not erased. -/
theorem Erases.progress {bs : List Book} (h : Erases passed tx bs tx') (k : Bytes) (p : Progress) :
    tx'.progress.get k = some p ↔ tx.progress.get k = some p ∧ p.bookID ∉ bs.map Book.id := by
  induction h with
  | nil => simp
  | cons herased _ ih =>
      rw [ih, herased.progress, List.map_cons, List.mem_cons, not_or, and_assoc]

/-- What is kept about other users. -/
theorem Erases.others {bs : List Book} {u : Bytes} (h : Erases passed tx bs tx')
    (hu : ∀ b ∈ bs, b.userID = u) :
    (∀ v, v ≠ u → loadLibrarySummary tx' v = loadLibrarySummary tx v) ∧
    (∀ k m, m.userID ≠ u → (tx'.bookmarks.get k = some m ↔ tx.bookmarks.get k = some m)) ∧
    ∀ k, ¬ (u ++ [nul]) <+: k → tx'.bookContentIndex.get k = tx.bookContentIndex.get k := by
  induction h with
  | nil => simp
  | cons herased _ ih =>
      obtain ⟨hsummary, hmarks, hcontent⟩ := ih fun b hb => hu b (List.mem_cons_of_mem _ hb)
      have howner := hu _ List.mem_cons_self
      refine ⟨?_, ?_, ?_⟩
      · intro v hv
        rw [hsummary v hv, herased.summary, if_neg (by rw [howner]; exact hv.symm)]
      · intro k m hm
        rw [hmarks k m hm, herased.bookmarks k m fun h => hm (h.1.trans howner)]
      · intro k hk
        rw [hcontent k hk]
        apply herased.content
        · rintro rfl
          apply hk
          rw [← howner, bookContentMembershipKey, bookContentIndexKey, List.append_assoc,
            List.append_assoc]
          exact List.prefix_append _ _
        · rintro rfl
          apply hk
          rw [← howner, bookContentIndexKey]
          exact List.prefix_append _ _

theorem mem_getBookIDsForUser {u : Bytes} (hI : Consistent tx) (hu : WellFormedID u) (id : Bytes) :
    id ∈ getBookIDsForUser tx u ↔ ownerOf tx id = some u := by
  constructor
  · intro hid
    rw [getBookIDsForUser, if_neg hu.1, List.mem_map] at hid
    obtain ⟨⟨k, v⟩, hrow, rfl⟩ := hid
    obtain ⟨hget, hpre⟩ := Bucket.mem_seek_self.mp hrow
    obtain ⟨b, hb, hkey⟩ := (hI.coherent.users k v).mp hget
    obtain ⟨j, hj⟩ := Bucket.mem_values.mp hb
    obtain ⟨rfl, -⟩ := hI.coherent.keyed j b hj
    have howner : ownerOf tx b.id = some b.userID := ownerOf_eq_some.mpr ⟨b, hj, rfl⟩
    have hb' := hI.references.owners _ _ howner
    rw [userBooksRows] at hkey
    split at hkey
    · cases hkey
    · simp only [List.mem_singleton, Prod.mk.injEq] at hkey
      rw [hkey.1, userBooksKey, user_of_isPrefix (colon_notMem hu) (colon_notMem hb')] at hpre
      have hcut : afterColon k = b.id := by
        rw [hkey.1, userBooksKey, List.append_assoc]
        exact afterColon_append (colon_notMem hb')
      rw [hcut, howner, hpre]
  · intro howner
    obtain ⟨b, hget, rfl⟩ := ownerOf_eq_some.mp howner
    have hmem := afterColon_mem_getBookIDsForUser hI.coherent hget hu.1
    rwa [afterColon_append (colon_notMem hu)] at hmem

theorem nodup_getBookIDsForUser {u : Bytes} (hu : WellFormedID u) (tx : Tx) :
    (getBookIDsForUser tx u).Nodup := by
  rw [getBookIDsForUser, if_neg hu.1]
  have hkeys : ∀ r ∈ tx.userBooksIndex.seek (u ++ [colon]) (u ++ [colon]),
      r.1 = u ++ colon :: afterColon r.1 := by
    rintro ⟨k, v⟩ hr
    obtain ⟨-, x, rfl⟩ := Bucket.mem_seek_self.mp hr
    rw [List.append_assoc]
    exact congrArg (u ++ colon :: ·) (afterColon_append (colon_notMem hu)).symm
  have hnodup : ((tx.userBooksIndex.seek (u ++ [colon]) (u ++ [colon])).map Prod.fst).Nodup := by
    rw [Bucket.seek_eq_filter _ (List.prefix_refl _)]
    exact (List.filter_sublist.map Prod.fst).nodup tx.userBooksIndex.keys_nodup
  rw [List.nodup_iff_pairwise_ne, List.pairwise_map] at hnodup ⊢
  refine hnodup.imp_of_mem ?_
  intro r s hr hs hne he
  exact hne (by rw [hkeys r hr, hkeys s hs, he])

theorem deleteEach_eq {u : Bytes} (ids : List Bytes) (before : Tx) (done : List Book) :
    ids.foldlM (fun tx id => deleteBookData id u tx) tx =
      (ids.foldlM (deleteInBatch (fun _ => false) before u) (done, tx)).map Prod.snd := by
  induction ids generalizing tx done with
  | nil => rfl
  | cons id ids ih =>
      rw [List.foldlM_cons, List.foldlM_cons, deleteBookData, deleteInBatch, passedOver_nothing]
      cases deleteBookDataInTx (fun _ => false) tx id u with
      | error e => rfl
      | ok r => exact ih (done ++ [r.1])

/-- All the user's books are found, and each of them can be deleted. -/
theorem deleteBooksByUser_erases {u : Bytes} (hI : Consistent tx) (hu : WellFormedID u) :
    ∃ bs tx', deleteBooksByUser u tx = .ok tx' ∧ Erases (fun _ => false) tx bs tx' ∧
      Consistent tx' ∧ ∀ b, b ∈ bs ↔ tx.books.get b.id = some b ∧ b.userID = u := by
  have hmem := mem_getBookIDsForUser hI hu
  obtain ⟨bs, tx', hloop, hbs, herases, hI'⟩ := deleteBooks_erases (fun _ => false) tx [] hI
    (nodup_getBookIDsForUser hu tx) fun id hid => (hmem id).mp hid
  refine ⟨bs, tx', ?_, herases, hI', ?_⟩
  · rw [deleteBooksByUser, deleteEach_eq _ tx [], hloop]
    rfl
  · intro b
    constructor
    · intro hb
      have hsome : some b ∈ (getBookIDsForUser tx u).map tx.books.get := hbs ▸ List.mem_map_of_mem hb
      obtain ⟨id, hid, hget⟩ := List.mem_map.mp hsome
      obtain ⟨rfl, -⟩ := hI.coherent.keyed id b hget
      obtain ⟨c, hc, hcu⟩ := ownerOf_eq_some.mp ((hmem _).mp hid)
      rw [hget] at hc
      cases hc
      exact ⟨hget, hcu⟩
    · rintro ⟨hget, hown⟩
      have hid := (hmem b.id).mpr (ownerOf_eq_some.mpr ⟨b, hget, hown⟩)
      have hsome : some b ∈ bs.map some := by
        rw [hbs, ← hget]
        exact List.mem_map_of_mem hid
      obtain ⟨c, hc, he⟩ := List.mem_map.mp hsome
      cases he
      exact hc

/-- The state `tx'` is `tx` without the records of the user. -/
structure WithoutUser (tx : Tx) (u : Bytes) (tx' : Tx) : Prop where
  books : ∀ id b, tx'.books.get id = some b ↔ tx.books.get id = some b ∧ b.userID ≠ u
  progress : ∀ k p, tx'.progress.get k = some p ↔ tx.progress.get k = some p ∧ p.userID ≠ u
  bookmarks : ∀ k m, tx'.bookmarks.get k = some m ↔ tx.bookmarks.get k = some m ∧ m.userID ≠ u
  summary : loadLibrarySummary tx' u = .zero
  otherSummaries : ∀ v, v ≠ u → loadLibrarySummary tx' v = loadLibrarySummary tx v
  content : ∀ k, ¬ (u ++ [nul]) <+: k → tx'.bookContentIndex.get k = tx.bookContentIndex.get k

/-- Without books of the user, no progress of the user's is left to be deleted by prefix. -/
theorem deleteProgressByUser_nothing {u : Bytes} (hI : Consistent tx) (hu : WellFormedID u)
    (hnone : ∀ id, ownerOf tx id ≠ some u) (k : Bytes) :
    (deleteProgressByUser u tx).progress.get k = tx.progress.get k := by
  rw [deleteProgressByUser_get]
  split
  · next hpre =>
    cases hget : tx.progress.get k with
    | none => rfl
    | some p =>
        obtain ⟨hk, howner⟩ := hI.references.progress k p hget
        rw [hk, progressKey,
          user_of_isPrefix (colon_notMem hu) (colon_notMem (hI.references.owners _ _ howner))] at hpre
        exact absurd (hpre ▸ howner) (hnone p.bookID)
  · rfl

/-- What a cursor has passed over goes with the rest of the user's bookmarks. -/
theorem deleteBookmarksByUser_all {u : Bytes} (hI : Consistent tx) (hu : WellFormedID u) (k : Bytes)
    (m : Bookmark) : (deleteBookmarksByUser u tx).bookmarks.get k = some m ↔
      tx.bookmarks.get k = some m ∧ m.userID ≠ u := by
  have hpre : tx.bookmarks.get k = some m → (u ++ [colon] <+: k ↔ u = m.userID) := by
    intro hget
    obtain ⟨hk, huser, -⟩ := hI.references.bookmarks k m hget
    rw [hk, bookmarkKey, List.append_assoc _ m.bookID, List.append_assoc _ (m.bookID ++ _),
      user_of_isPrefix (colon_notMem hu) (colon_notMem huser)]
  rw [deleteBookmarksByUser_get]
  split
  · next hk =>
    simp only [reduceCtorEq, false_iff, not_and, not_not]
    exact fun hget => ((hpre hget).mp hk).symm
  · next hk =>
    rw [iff_self_and]
    exact fun hget hm => hk ((hpre hget).mpr hm.symm)

theorem deleteUserData_erases {u : Bytes} (hI : Consistent tx) (hu : WellFormedID u) :
    ∃ t, deleteBooksByUser u tx = .ok t ∧
      WithoutUser tx u (deleteBookmarksByUser u (deleteProgressByUser u t)) ∧ SameAccounts tx t := by
  obtain ⟨bs, t, hloop, herases, ht, hbs⟩ := deleteBooksByUser_erases hI hu
  have hids : ∀ id, id ∈ bs.map Book.id ↔ ownerOf tx id = some u := by
    intro id
    rw [List.mem_map, ownerOf_eq_some]
    constructor
    · rintro ⟨b, hb, rfl⟩
      exact ⟨b, (hbs b).mp hb⟩
    · rintro ⟨b, hget, hown⟩
      obtain ⟨rfl, -⟩ := hI.coherent.keyed id b hget
      exact ⟨b, (hbs b).mpr ⟨hget, hown⟩, rfl⟩
  have hbooks : ∀ id b, t.books.get id = some b ↔ tx.books.get id = some b ∧ b.userID ≠ u := by
    intro id b
    rw [herases.books]
    split
    · next hmem =>
      obtain ⟨c, hc, hcu⟩ := ownerOf_eq_some.mp ((hids id).mp hmem)
      simp only [reduceCtorEq, false_iff, not_and, not_not]
      intro hget
      rw [hc] at hget
      cases hget
      exact hcu
    · next hmem =>
      rw [iff_self_and]
      intro hget hown
      exact hmem ((hids id).mpr (ownerOf_eq_some.mpr ⟨b, hget, hown⟩))
  have hnone : ∀ id, ownerOf t id ≠ some u := by
    intro id howner
    obtain ⟨b, hget, hown⟩ := ownerOf_eq_some.mp howner
    exact ((hbooks id b).mp hget).2 hown
  obtain ⟨hsummaries, hmarks, hcontent⟩ := herases.others fun b hb => ((hbs b).mp hb).2
  refine ⟨t, hloop, ⟨hbooks, ?_, ?_, ?_, hsummaries, hcontent⟩, herases.accounts⟩
  · intro k p
    change (deleteProgressByUser u t).progress.get k = some p ↔ _
    rw [deleteProgressByUser_nothing ht hu hnone, herases.progress, hids]
    apply and_congr_right
    intro hget
    rw [(hI.references.progress k p hget).2, Option.some.injEq]
  · intro k m
    change (deleteBookmarksByUser u t).bookmarks.get k = some m ↔ _
    rw [deleteBookmarksByUser_all ht hu]
    exact and_congr_left fun hm => hmarks k m hm
  · refine (ht.coherent.listed.summary u hu.1).unique (summaryOf_none fun b hb => ?_)
    obtain ⟨id, hget⟩ := Bucket.mem_values.mp hb
    exact ((hbooks id b).mp hget).2

/-- Removing the data of a user and removing the account never fail halfway: all of the user's
books, progress and bookmarks are gone, everything of the other users is as it was, the indexes
are exact for what is left, and no bookmark has lost its book. -/
theorem user_removal_exact {db : Tx} (h : Requested db) {u : Bytes} (hu : WellFormedID u) :
    (∃ db', deleteUserData u db = .ok db' ∧ WithoutUser db u db' ∧ Consistent db' ∧
      (∀ left, References left db → References left db') ∧ SameAccounts db db') ∧
    (∀ user, db.users.get u = some user → ∃ db', purgeUser u db = .ok db' ∧ WithoutUser db u db' ∧
      Consistent db' ∧ (∀ left, References left db → References left db') ∧ db'.users = db.users.delete u ∧
      db'.usernameIndex = db.usernameIndex.delete (normalizeUsername user.username)) ∧
    (db.users.get u = none → purgeUser u db = .error .notFound) := by
  have hI := h.consistent
  obtain ⟨t, hloop, hwithout, hsame⟩ := deleteUserData_erases hI hu
  refine ⟨?_, ?_, ?_⟩
  · have hdelete : deleteUserData u db =
        .ok (deleteBookmarksByUser u (deleteProgressByUser u t)) := by
      rw [deleteUserData, hloop]
      rfl
    exact ⟨_, hdelete, hwithout, hI.transaction (.deleteUserData u) hu hdelete,
      fun left hr => (hr.deleteByUser hloop).dropUser u, ⟨hsame.users, hsame.usernames⟩⟩
  · intro user huser
    have hpurge : purgeUser u db = .ok { deleteBookmarksByUser u (deleteProgressByUser u t) with
        users := t.users.delete u
        usernameIndex := t.usernameIndex.delete (normalizeUsername user.username) } := by
      rw [purgeUser, huser]
      simp only [hloop]
      rfl
    refine ⟨_, hpurge, ?_, hI.transaction (.purgeUser u) hu hpurge, ?_, ?_, ?_⟩
    · exact ⟨hwithout.books, hwithout.progress, hwithout.bookmarks, hwithout.summary,
        hwithout.otherSummaries, hwithout.content⟩
    · intro left hr
      exact ((hr.deleteByUser hloop).dropUser u).fewer rfl (fun _ _ hget => hget) fun _ _ hget => hget
    · rw [← hsame.users]
    · rw [← hsame.usernames]
  · intro hnone
    rw [purgeUser, hnone]

theorem marked_removed : ∃ db', deleteUserData (ascii "u") marked = .ok db' ∧
    WithoutUser marked (ascii "u") db' := by
  obtain ⟨db', hdelete, hwithout, -⟩ :=
    (user_removal_exact marked_requested (u := ascii "u") (by decide)).1
  exact ⟨db', hdelete, hwithout⟩

end ZReader.Storage
