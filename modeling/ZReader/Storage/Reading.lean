import ZReader.Storage.Edits

namespace ZReader.Storage

open Lib.Utf8 Lib.Strings Lib.KeyValue Lib.DerivedIndex Lib.Fallible Std

/-! ## The steps of a progress save -/

def moveSortRow (bucket : Bucket Bytes) (oldKey newKey id : Bytes) : Result (Bucket Bytes) :=
  if oldKey = newKey then .ok bucket else store (bucket.delete oldKey) newKey id

/-- The record and the recent-read rows of the book that is being read. -/
def touchBook (tx : Tx) (book : Book) (time : Time) : Result Tx :=
  if book.lastReadAt = some time then .ok tx
  else do
    let newBook := { book with lastReadAt := some time }
    let booksBucket ← store tx.books newBook.id newBook
    updateBookSortKey { tx with books := booksBucket } book newBook .recentRead

def supersedeProgress (tx : Tx) (previous : Option Progress) (progress : Progress) : Tx :=
  match previous with
  | none => tx
  | some previous =>
      if previous.updatedAt = progress.updatedAt then tx
      else removeProgressFromTimeIndex tx previous

def recordProgress (tx : Tx) (key : Bytes) (previous : Option Progress) (progress : Progress) :
    Result Tx := do
  let tx := supersedeProgress tx previous progress
  let progressBucket ← store tx.progress key progress
  addProgressToTimeIndex { tx with progress := progressBucket } progress

/-- The caller expects a version that is not the stored one. -/
def stale (expectedUpdatedAt : Option Time) (previous : Option Progress) : Bool :=
  expectedUpdatedAt.any (fun expected => previous.all (·.updatedAt ≠ expected))

theorem saveProgressIfCurrent_eq (p : Progress) (u : Bytes) (e : Option Time) (tx : Tx) :
    saveProgressIfCurrent p u e tx = (do
      let book ← ownedBook tx p.bookID u
      let previous := tx.progress.get (progressKey u p.bookID)
      if stale e previous then .error .progressConflict
      else
        let tx₁ ← touchBook tx book p.updatedAt
        recordProgress tx₁ (progressKey u p.bookID) previous { p with userID := u }) := by
  rw [saveProgressIfCurrent]
  congr 1
  funext book
  by_cases hs : stale e (tx.progress.get (progressKey u p.bookID)) = true
  · simp only [if_pos hs]
    exact if_pos hs
  · simp only [if_neg hs]
    refine (if_neg hs).trans ?_
    by_cases ht : book.lastReadAt = some p.updatedAt
    · simp only [touchBook, if_pos ht]
      rfl
    · simp only [touchBook, if_neg ht, bind_assoc]
      rfl

theorem SortKey.name_injective {s s' : SortKey} {x y : Bytes}
    (h : s.name ++ nul :: x = s'.name ++ nul :: y) : s = s' := by
  have hread : SortKey.recentRead.name =
      [114, 101, 99, 101, 110, 116, 95, 114, 101, 97, 100] := by decide
  have hadded : SortKey.recentAdded.name =
      [114, 101, 99, 101, 110, 116, 95, 97, 100, 100, 101, 100] := by decide
  have htitle : SortKey.title.name = [116, 105, 116, 108, 101] := by decide
  have hauthor : SortKey.author.name = [97, 117, 116, 104, 111, 114] := by decide
  cases s <;> cases s' <;> first | rfl | simp [hread, hadded, htitle, hauthor, nul] at h

theorem updateBookSortKey_ok {tx tx' : Tx} {old b : Book} {k : SortKey} {c : Bucket Bytes}
    (hc : tx.bookCategorySortIndex = some c) (h : updateBookSortKey tx old b k = .ok tx') :
    ∃ s d, moveSortRow tx.bookSortIndex (bookSortIndexKey old k) (bookSortIndexKey b k) b.id = .ok s ∧
      moveSortRow c (bookCategorySortIndexKey old k) (bookCategorySortIndexKey b k) b.id = .ok d ∧
      tx' = { tx with bookSortIndex := s, bookCategorySortIndex := some d } := by
  rw [updateBookSortKey] at h
  have hok (t : Tx) (f : Tx → Result Tx) : (Except.ok t >>= f) = f t := rfl
  have hcat (t same : Tx) (hsame : same = { t with bookCategorySortIndex := some c })
      (h : (if bookCategorySortIndexKey old k = bookCategorySortIndexKey b k then .ok same
        else do
          let bucket ← store (c.delete (bookCategorySortIndexKey old k)) (bookCategorySortIndexKey b k) b.id
          .ok { t with bookCategorySortIndex := some bucket } : Result Tx) = .ok tx') :
      ∃ d, moveSortRow c (bookCategorySortIndexKey old k) (bookCategorySortIndexKey b k) b.id = .ok d ∧
        tx' = { t with bookCategorySortIndex := some d } := by
    rw [moveSortRow]
    split at h
    · next he =>
      cases h
      exact ⟨c, by rw [if_pos he], hsame⟩
    · next he =>
      obtain ⟨d, hd, h⟩ := bind_eq_ok.mp h
      cases h
      exact ⟨d, by rw [if_neg he, hd], rfl⟩
  by_cases he : bookSortIndexKey old k = bookSortIndexKey b k
  · simp only [if_pos he, hok, hc] at h
    obtain ⟨d, hd, rfl⟩ := hcat tx tx (by rw [← hc]) h
    exact ⟨tx.bookSortIndex, d, by rw [moveSortRow, if_pos he], hd, rfl⟩
  · simp only [if_neg he] at h
    obtain ⟨s, hs, h⟩ := bind_eq_ok.mp h
    simp only [hok, hc] at h
    obtain ⟨d, hd, rfl⟩ := hcat { tx with bookSortIndex := s } _ rfl h
    exact ⟨s, d, by rw [moveSortRow, if_neg he, hs], hd, rfl⟩

theorem Mirrors.moveSortRow {rows : Book → List (Bytes × Bytes)} {old b : Book} {l : List Book}
    {idx jdx : Bucket Bytes} {rest : List (Bytes × Bytes)} {i j v : Bytes}
    (h : Mirrors rows (old :: l) idx) (hsep : Separate rows old l) (hsep' : Separate rows b l)
    (hold : rows old = (i, v) :: rest) (hb : rows b = (j, v) :: rest)
    (hi : i ∉ rest.map Prod.fst) (hj : j ∉ rest.map Prod.fst)
    (hmove : moveSortRow idx i j v = .ok jdx) : Mirrors rows (b :: l) jdx := by
  rw [Storage.moveSortRow] at hmove
  split at hmove
  · next he =>
    cases hmove
    exact h.congr_head (by rw [hb, hold, he])
  · exact h.move hsep hsep' hold hb hi hj (store_eq_ok.mp hmove)

theorem bookCategorySortIndexKey_eq (b : Book) (s : SortKey) :
    bookCategorySortIndexKey b s = s.name ++ nul :: (b.userID ++
      nul :: (base64RawURL (trimSpace (categoryForBook b)) ++
        nul :: (bookSortValue b s ++ nul :: b.id))) := by
  simp [bookCategorySortIndexKey, bookCategorySortPrefix]

theorem bookSortIndexKey_name {b b' : Book} {s s' : SortKey}
    (h : bookSortIndexKey b s = bookSortIndexKey b' s') : s = s' := by
  simp only [bookSortIndexKey_eq, List.append_assoc, List.cons_append] at h
  exact SortKey.name_injective h

theorem bookCategorySortIndexKey_name {b b' : Book} {s s' : SortKey}
    (h : bookCategorySortIndexKey b s = bookCategorySortIndexKey b' s') : s = s' := by
  rw [bookCategorySortIndexKey_eq, bookCategorySortIndexKey_eq] at h
  exact SortKey.name_injective h

/-- The sorts whose keys a progress save leaves alone. -/
def restingSorts : List SortKey := [.recentAdded, .title, .author]

theorem sortRows_eq {b : Book} (hu : ¬ Unindexed b) :
    sortRows b = (bookSortIndexKey b .recentRead, b.id) ::
      restingSorts.map (fun s => (bookSortIndexKey b s, b.id)) := by
  rw [sortRows, if_neg hu]
  rfl

theorem categorySortRows_eq {b : Book} (hu : ¬ Unindexed b) :
    categorySortRows b = (bookCategorySortIndexKey b .recentRead, b.id) ::
      restingSorts.map (fun s => (bookCategorySortIndexKey b s, b.id)) := by
  rw [categorySortRows, if_neg hu]
  rfl

theorem recentRead_notMem (key : SortKey → Bytes) (k v : Bytes)
    (hk : ∀ s ∈ restingSorts, key s ≠ k) : k ∉ (restingSorts.map (fun s => (key s, v))).map Prod.fst := by
  rw [List.map_map, List.mem_map]
  rintro ⟨s, hs, he⟩
  exact hk s hs he

theorem bookSortValue_reread (b : Book) (time : Option Time) {s : SortKey} (hs : s ∈ restingSorts) :
    bookSortValue { b with lastReadAt := time } s = bookSortValue b s := by
  cases s with
  | recentRead => simp [restingSorts] at hs
  | recentAdded => rfl
  | title => rfl
  | author => rfl

theorem SortCoherent.reread {tx tx' : Tx} {old : Book} {time : Option Time} {l : List Book}
    (hl : SortCoherent (old :: l) tx) (hf : Fresh old l) (hu : old.userID ≠ [])
    (h : updateBookSortKey tx old { old with lastReadAt := time } .recentRead = .ok tx') :
    ∃ s d, tx' = { tx with bookSortIndex := s, bookCategorySortIndex := some d } ∧
      SortCoherent ({ old with lastReadAt := time } :: l) tx' := by
  have hold : ¬ Unindexed old := by simp [Unindexed, hu, hf.ne_nil]
  generalize hb : { old with lastReadAt := time } = b at h
  have hnew : ¬ Unindexed b := by rw [← hb]; exact hold
  have hf' : Fresh b l := by rw [← hb]; exact hf
  have hid : b.id = old.id := by rw [← hb]
  have hrest : restingSorts.map (fun s => (bookSortIndexKey b s, b.id)) =
      restingSorts.map (fun s => (bookSortIndexKey old s, old.id)) := by
    apply List.map_congr_left
    intro s hs
    rw [← hb, bookSortIndexKey, bookSortIndexKey, bookSortValue_reread old time hs]
  have hcatrest : restingSorts.map (fun s => (bookCategorySortIndexKey b s, b.id)) =
      restingSorts.map (fun s => (bookCategorySortIndexKey old s, old.id)) := by
    apply List.map_congr_left
    intro s hs
    rw [← hb, bookCategorySortIndexKey, bookCategorySortIndexKey, bookSortValue_reread old time hs]
    rfl
  have hne : ∀ s ∈ restingSorts, s ≠ .recentRead := by decide
  obtain ⟨hs, c, hc, hd⟩ := hl
  obtain ⟨s, d, hms, hmd, rfl⟩ := updateBookSortKey_ok hc h
  refine ⟨s, d, rfl, ?_, d, rfl, ?_⟩
  · refine Mirrors.moveSortRow hs (sortRows_separate hf) (sortRows_separate hf') (sortRows_eq hold)
      (by rw [sortRows_eq hnew, hrest, hid]) ?_ ?_ (hid ▸ hms)
    · exact recentRead_notMem _ _ _ (fun k hk he => hne k hk (bookSortIndexKey_name he))
    · exact recentRead_notMem _ _ _ (fun k hk he => hne k hk (bookSortIndexKey_name he))
  · refine Mirrors.moveSortRow hd (categorySortRows_separate hf) (categorySortRows_separate hf')
      (categorySortRows_eq hold) (by rw [categorySortRows_eq hnew, hcatrest, hid]) ?_ ?_ (hid ▸ hmd)
    · exact recentRead_notMem _ _ _ (fun k hk he => hne k hk (bookCategorySortIndexKey_name he))
    · exact recentRead_notMem _ _ _ (fun k hk he => hne k hk (bookCategorySortIndexKey_name he))

theorem touchBook_ok {tx tx' : Tx} {b : Book} {time : Time} (hc : Coherent tx)
    (hget : tx.books.get b.id = some b) (hu : b.userID ≠ []) (h : touchBook tx b time = .ok tx') :
    Coherent tx' ∧
      (∃ bs s d, tx' = { tx with books := bs, bookSortIndex := s, bookCategorySortIndex := d }) ∧
      ∀ id, tx'.books.get id =
        if b.id = id then some { b with lastReadAt := some time } else tx.books.get id := by
  rw [touchBook] at h
  split at h
  · next ht =>
    cases h
    refine ⟨hc, ⟨_, _, _, rfl⟩, ?_⟩
    intro id
    split
    · next he => rw [← he, hget, ← ht]
    · rfl
  · obtain ⟨bs, hbs, h⟩ := bind_eq_ok.mp h
    obtain ⟨-, hf, huser, hl⟩ := hc.focus hget
    obtain ⟨s, d, rfl, hsort⟩ := SortCoherent.reread (by exact hl.sort) hf hu h
    have hp : bs.values.Perm
        ({ b with lastReadAt := some time } :: (tx.books.delete b.id).values) :=
      Bucket.values_put_perm (store_eq_ok.mp hbs)
    have hkeyed : Keyed { tx with books := bs } :=
      hc.keyed.put (b := { b with lastReadAt := some time }) hf.1 hbs
    refine ⟨Coherent.of_perm hkeyed hp (Mirrors.congr_head huser rfl) ⟨hsort, ?_, ?_, ?_, ?_⟩,
      ⟨bs, s, some d, rfl⟩, Bucket.get_put (store_eq_ok.mp hbs)⟩
    · exact Mirrors.congr_head hl.search rfl
    · obtain ⟨hg, c, hc, ht⟩ := hl.gram
      exact ⟨hg.congr_head rfl, c, hc, ht.congr_head rfl⟩
    · obtain ⟨c, hc, hm⟩ := hl.missing
      exact ⟨c, hc, hm.congr_head rfl⟩
    · intro u hu
      exact (hl.summary u hu).congr_head rfl rfl

theorem recordProgress_ok {tx tx' : Tx} {key : Bytes} {previous : Option Progress} {p : Progress}
    (h : recordProgress tx key previous p = .ok tx') :
    ∃ q t, tx' = { tx with progress := q, progressTimeIndex := t } := by
  simp only [recordProgress] at h
  have hcleared : ∃ t, supersedeProgress tx previous p = { tx with progressTimeIndex := t } := by
    unfold supersedeProgress
    split
    · exact ⟨_, rfl⟩
    · split
      · exact ⟨_, rfl⟩
      · exact removeProgressFromTimeIndex_eq tx _
  obtain ⟨t, ht⟩ := hcleared
  rw [ht] at h
  obtain ⟨q, -, h⟩ := bind_eq_ok.mp h
  rw [addProgressToTimeIndex] at h
  split at h
  · cases h
    exact ⟨q, t, rfl⟩
  · obtain ⟨t', -, h⟩ := bind_eq_ok.mp h
    cases h
    exact ⟨q, t', rfl⟩

theorem saveProgressIfCurrent_coherent {tx tx' : Tx} {p : Progress} {u : Bytes} {e : Option Time}
    (hc : Coherent tx) (hu : u ≠ []) (h : saveProgressIfCurrent p u e tx = .ok tx') :
    Coherent tx' := by
  rw [saveProgressIfCurrent_eq] at h
  obtain ⟨b, hown, h⟩ := bind_eq_ok.mp h
  obtain ⟨hget, rfl⟩ := ownedBook_eq_ok.mp hown
  simp only at h
  split at h
  · cases h
  · obtain ⟨tx₁, h₁, h⟩ := bind_eq_ok.mp h
    have hid : b.id = p.bookID := (hc.keyed _ _ hget).1
    rw [← hid] at hget
    obtain ⟨hc₁, -, -⟩ := touchBook_ok hc hget hu h₁
    obtain ⟨q, t, rfl⟩ := recordProgress_ok h
    exact hc₁.reading q t tx₁.bookmarks tx₁.users tx₁.usernameIndex

end ZReader.Storage
