import ZReader.Storage.Rebuild

namespace ZReader.Storage

open Lib.Utf8 Lib.Strings Lib.KeyValue Lib.DerivedIndex Lib.Fallible Std

/-! ## Singling out one book -/

theorem Keyed.fresh {tx : Tx} (hk : Keyed tx) {b : Book} (hw : WellFormedID b.id) :
    Fresh b (tx.books.delete b.id).values := by
  refine ⟨hw, ?_⟩
  intro s hs
  obtain ⟨k, hget⟩ := Bucket.mem_values.mp hs
  rw [Bucket.get_delete] at hget
  split at hget
  · cases hget
  · next hne =>
    obtain ⟨rfl, hws⟩ := hk k s hget
    exact ⟨hws, Ne.symm hne⟩

theorem Keyed.put {tx : Tx} (hk : Keyed tx) {b : Book} (hw : WellFormedID b.id) {bs : Bucket Book}
    (h : store tx.books b.id b = .ok bs) : Keyed { tx with books := bs } := by
  intro k s hs
  change bs.get k = some s at hs
  rw [Bucket.get_put (store_eq_ok.mp h)] at hs
  split at hs
  · next he =>
    cases hs
    exact ⟨he, he ▸ hw⟩
  · exact hk k s hs

theorem Keyed.delete {tx : Tx} (hk : Keyed tx) (id : Bytes) :
    Keyed { tx with books := tx.books.delete id } := by
  intro k s hs
  change (tx.books.delete id).get k = some s at hs
  rw [Bucket.get_delete] at hs
  split at hs
  · cases hs
  · exact hk k s hs

theorem Keyed.congr {tx tx' : Tx} (hk : Keyed tx) (h : tx'.books = tx.books) : Keyed tx' := by
  intro k b hb
  rw [h] at hb
  exact hk k b hb

theorem UserCoherent.congr {tx tx' : Tx} {l : List Book} (hl : UserCoherent l tx)
    (h : tx'.userBooksIndex = tx.userBooksIndex) : UserCoherent l tx' := by
  rw [UserCoherent, h]
  exact hl

/-- The state around one stored book. -/
theorem Coherent.focus {tx : Tx} (h : Coherent tx) {id : Bytes} {b : Book}
    (hb : tx.books.get id = some b) :
    b.id = id ∧ Fresh b (tx.books.delete id).values ∧
      UserCoherent (b :: (tx.books.delete id).values) tx ∧
      Listed (b :: (tx.books.delete id).values) tx := by
  obtain ⟨rfl, hw⟩ := h.keyed id b hb
  have hp := Bucket.values_perm_of_get hb
  exact ⟨rfl, h.keyed.fresh hw, Mirrors.perm h.users hp, h.listed.perm hp⟩

/-- The state around an identifier that is not in use. -/
theorem Coherent.focus_none {tx : Tx} (h : Coherent tx) {id : Bytes}
    (hb : tx.books.get id = none) :
    UserCoherent (tx.books.delete id).values tx ∧ Listed (tx.books.delete id).values tx := by
  rw [Bucket.delete_of_get_none hb]
  exact ⟨h.users, h.listed⟩

theorem Coherent.of_perm {tx : Tx} {l : List Book} (hk : Keyed tx) (hp : tx.books.values.Perm l)
    (hu : UserCoherent l tx) (hl : Listed l tx) : Coherent tx :=
  ⟨hk, Mirrors.perm hu hp.symm, hl.perm hp.symm⟩

/-- Coherence does not depend on progress, bookmarks and accounts. -/
theorem Coherent.reading {tx : Tx} (h : Coherent tx) (p : Bucket Progress) (t : Bucket Bytes)
    (m : Bucket Bookmark) (us : Bucket User) (un : Bucket Bytes) :
    Coherent { tx with
      progress := p, progressTimeIndex := t, bookmarks := m, users := us, usernameIndex := un } :=
  ⟨h.keyed, h.users, h.listed.sort, h.listed.search, h.listed.gram, h.listed.missing,
    h.listed.summary⟩

theorem ownedBook_eq_ok {tx : Tx} {id u : Bytes} {b : Book} :
    ownedBook tx id u = .ok b ↔ tx.books.get id = some b ∧ b.userID = u := by
  rw [ownedBook]
  split
  · next hn => simp [hn]
  · next c hc =>
    split
    · next hne =>
      simp only [reduceCtorEq, hc, Option.some.injEq, false_iff, not_and]
      rintro rfl
      exact hne
    · next he =>
      simp only [ne_eq, not_not] at he
      simp only [Except.ok.injEq, hc, Option.some.injEq, iff_self_and]
      rintro rfl
      exact he

/-! ## Writing whole records -/

/-- The user index part of `saveBook`. -/
def reassignBook (tx : Tx) (bookID oldUserID userID : Bytes) : Result Tx :=
  if oldUserID ≠ userID then
    let tx := if oldUserID ≠ [] then removeBookFromUserIndex tx bookID oldUserID else tx
    addBookToUserIndex tx bookID userID
  else .ok tx

def unlistOldBook (tx : Tx) : Option Book → Result Tx
  | none => .ok tx
  | some oldBook => unlistBook tx oldBook

theorem saveBook_eq (book : Book) (tx : Tx) :
    saveBook book tx = (do
      let b ← store tx.books book.id { book with category := normalizeCategoryName book.category }
      let tx₁ ← reassignBook { tx with books := b } book.id
        (((tx.books.get book.id).map (·.userID)).getD []) book.userID
      let tx₂ ← unlistOldBook tx₁ (tx.books.get book.id)
      listBook tx₂ { book with category := normalizeCategoryName book.category }) := by
  rw [saveBook]
  generalize tx.books.get book.id = oldBook
  generalize (oldBook.map (·.userID)).getD [] = oldUserID
  by_cases hu : oldUserID ≠ book.userID
  · cases oldBook with
    | none => simp only [if_pos hu, reassignBook]; rfl
    | some old => simp only [if_pos hu, reassignBook, unlistOldBook, unlistBook, listBook, bind_assoc]
  · cases oldBook with
    | none => simp only [if_neg hu, reassignBook]; rfl
    | some old =>
        simp only [if_neg hu, reassignBook, unlistOldBook, unlistBook, listBook, bind_assoc]

theorem reassignBook_nil (tx : Tx) (id u : Bytes) :
    reassignBook tx id [] u = addBookToUserIndex tx id u := by
  rw [reassignBook]
  by_cases hu : u = []
  · simp [hu, addBookToUserIndex]
  · simp [Ne.symm hu]

theorem UserCoherent.reassign {tx tx' : Tx} {old b : Book} {l : List Book}
    (hl : UserCoherent (old :: l) tx) (hf : Fresh old l) (hid : b.id = old.id)
    (h : reassignBook tx b.id old.userID b.userID = .ok tx') :
    ∃ i, tx' = { tx with userBooksIndex := i } ∧ UserCoherent (b :: l) tx' := by
  rw [reassignBook] at h
  split at h
  · have hremove : (if old.userID ≠ [] then removeBookFromUserIndex tx b.id old.userID else tx) =
        removeBookFromUserIndex tx old.id old.userID := by
      rw [hid]
      split
      · rfl
      · next hu => rw [removeBookFromUserIndex, if_pos (Or.inl (not_not.mp hu))]
    simp only [hremove] at h
    obtain ⟨i, he, hi⟩ := hl.remove hf
    rw [he] at h hi
    have hf' : Fresh b l := by
      rw [Fresh, hid]
      exact hf
    obtain ⟨j, rfl, hj⟩ := hi.add hf' h
    exact ⟨j, rfl, hj⟩
  · next hu =>
    cases h
    refine ⟨tx.userBooksIndex, rfl, Mirrors.congr_head hl ?_⟩
    simp only [userBooksRows, Unindexed, hid, ← not_not.mp hu]

theorem saveBook_coherent {tx tx' : Tx} {book : Book} (hc : Coherent tx)
    (hw : WellFormedID book.id) (h : saveBook book tx = .ok tx') : Coherent tx' := by
  rw [saveBook_eq] at h
  obtain ⟨bs, hbs, h⟩ := bind_eq_ok.mp h
  obtain ⟨tx₁, h₁, h⟩ := bind_eq_ok.mp h
  obtain ⟨tx₂, h₂, h⟩ := bind_eq_ok.mp h
  generalize hb : { book with category := normalizeCategoryName book.category } = b at hbs h
  have hid : b.id = book.id := by rw [← hb]
  have huser : b.userID = book.userID := by rw [← hb]
  rw [← hid] at hbs h₁ h₂ hw
  rw [← huser] at h₁
  have hfresh := hc.keyed.fresh hw
  have hbefore : tx₂.books = bs ∧ UserCoherent (b :: (tx.books.delete b.id).values) tx₂ ∧
      Listed (tx.books.delete b.id).values tx₂ := by
    cases hget : tx.books.get b.id with
    | none =>
        simp only [hget, Option.map_none, Option.getD_none, reassignBook_nil, unlistOldBook] at h₁ h₂
        cases h₂
        obtain ⟨hu, hl⟩ := hc.focus_none hget
        obtain ⟨i, rfl, hi⟩ := UserCoherent.add (by exact hu) hfresh h₁
        exact ⟨rfl, hi, hl.sort, hl.search, hl.gram, hl.missing, hl.summary⟩
    | some old =>
        simp only [hget, Option.map_some, Option.getD_some, unlistOldBook] at h₁ h₂
        obtain ⟨hold, hf, hu, hl⟩ := hc.focus hget
        obtain ⟨i, rfl, hi⟩ := UserCoherent.reassign (by exact hu) hf hold.symm h₁
        have hframe := unlistBook_frame h₂
        refine ⟨hframe.books, hi.congr hframe.userBooks, ?_⟩
        refine Listed.unlist ?_ hf h₂
        exact ⟨hl.sort, hl.search, hl.gram, hl.missing, hl.summary⟩
  obtain ⟨hbooks, hu, hl⟩ := hbefore
  have hframe := listBook_frame h
  have hall : tx'.books = bs := hframe.books.trans hbooks
  refine Coherent.of_perm ((hc.keyed.put hw hbs).congr hall) ?_ (hu.congr hframe.userBooks)
    (hl.list hfresh h)
  rw [hall]
  exact Bucket.values_put_perm (store_eq_ok.mp hbs)

theorem createBook_coherent {tx tx' : Tx} {book : Book} (hc : Coherent tx)
    (hw : WellFormedID book.id) (hnew : tx.books.get book.id = none)
    (h : createBook book tx = .ok tx') : Coherent tx' := by
  simp only [createBook] at h
  split at h
  · cases h
  · generalize hb : { book with category := normalizeCategoryName book.category } = b at h
    have hid : b.id = book.id := by rw [← hb]
    have huser : b.userID = book.userID := by rw [← hb]
    rw [← huser, ← hid] at h
    rw [← hid] at hw hnew
    obtain ⟨bs, hbs, h⟩ := bind_eq_ok.mp h
    obtain ⟨tx₁, h₁, h⟩ := bind_eq_ok.mp h
    change listBook tx₁ b = .ok tx' at h
    obtain ⟨hu, hl⟩ := hc.focus_none hnew
    have hfresh := hc.keyed.fresh hw
    obtain ⟨i, rfl, hi⟩ := UserCoherent.add (by exact hu) hfresh h₁
    have hframe := listBook_frame h
    refine Coherent.of_perm ((hc.keyed.put hw hbs).congr hframe.books) ?_
      (hi.congr hframe.userBooks) (Listed.list ?_ hfresh h)
    · rw [hframe.books]
      exact Bucket.values_put_perm (store_eq_ok.mp hbs)
    · exact ⟨hl.sort, hl.search, hl.gram, hl.missing, hl.summary⟩

end ZReader.Storage
