import ZReader.Storage.ProgressTimes

namespace ZReader.Storage

open Lib.Utf8 Lib.Strings Lib.KeyValue Lib.DerivedIndex Lib.Fallible Lib.Transition

/-! ## Time stamps in keys -/

/-- From 1970 until `int64` nanoseconds run out in 2262. -/
def Time.InRange (t : Time) : Prop := 0 ≤ t.nanos ∧ t.nanos < 2 ^ 63

instance (t : Time) : Decidable t.InRange := inferInstanceAs (Decidable (_ ∧ _))

theorem clampedTimestamp_of_inRange {t : Time} (h : t.InRange) : clampedTimestamp t = t.nanos := by
  obtain ⟨h₀, h₁⟩ := h
  have hunix : t.unixNano = t.nanos := by
    rw [Time.unixNano, Int.bmod_def]
    omega
  simp only [clampedTimestamp, hunix]
  omega

theorem digit_inj {m n : Nat} (h : UInt8.ofNat (48 + m % 10) = UInt8.ofNat (48 + n % 10)) :
    m % 10 = n % 10 := by
  have hm : (UInt8.ofNat (48 + m % 10)).toNat = 48 + m % 10 := by
    rw [UInt8.toNat_ofNat']
    omega
  have hn : (UInt8.ofNat (48 + n % 10)).toNat = 48 + n % 10 := by
    rw [UInt8.toNat_ofNat']
    omega
  rw [h, hn] at hm
  omega

theorem padded_inj {width m n : Nat} (hm : m < 10 ^ width) (hn : n < 10 ^ width)
    (h : padded width m = padded width n) : m = n := by
  induction width generalizing m n with
  | zero => simp only [pow_zero] at hm hn; omega
  | succ width ih =>
      rw [padded, padded] at h
      obtain ⟨hhigh, hlow⟩ := List.append_inj' h rfl
      rw [pow_succ] at hm hn
      have hdiv := ih (by omega) (by omega) hhigh
      have hmod := digit_inj (List.singleton_inj.mp hlow)
      omega

theorem padded_time_inj {t s : Time} (ht : t.InRange) (hs : s.InRange)
    (h : padded 19 (clampedTimestamp t).toNat = padded 19 (clampedTimestamp s).toNat) : t = s := by
  rw [clampedTimestamp_of_inRange ht, clampedTimestamp_of_inRange hs] at h
  obtain ⟨ht₀, ht₁⟩ := ht
  obtain ⟨hs₀, hs₁⟩ := hs
  have he := padded_inj (by omega) (by omega) h
  cases t
  cases s
  rw [Time.mk.injEq]
  simp only at *
  omega

theorem invertedBookTimestamp_inj {t s : Time} (ht : t.InRange) (hs : s.InRange)
    (h : invertedBookTimestamp t = invertedBookTimestamp s) : t = s := by
  rw [invertedBookTimestamp, invertedBookTimestamp, clampedTimestamp_of_inRange ht,
    clampedTimestamp_of_inRange hs, maxTimestamp] at h
  obtain ⟨ht₀, ht₁⟩ := ht
  obtain ⟨hs₀, hs₁⟩ := hs
  have he := padded_inj (by omega) (by omega) h
  cases t
  cases s
  rw [Time.mk.injEq]
  simp only at *
  omega

/-! ## What a save writes -/

/-- The book after a save at the given time. -/
def readAt (b : Book) (t : Time) : Book := { b with lastReadAt := some t }

/-- The rows of an index in which one row has been moved. -/
def Moved (idx jdx : Bucket Bytes) (oldKey newKey id : Bytes) : Prop :=
  ∀ k, jdx.get k = if newKey = k then some id else if oldKey = k then none else idx.get k

theorem moved_of_moveSortRow {idx jdx : Bucket Bytes} {i j v : Bytes} (hrow : idx.get i = some v)
    (h : moveSortRow idx i j v = .ok jdx) : Moved idx jdx i j v := by
  rw [moveSortRow] at h
  intro k
  split at h
  · next he =>
    cases h
    subst he
    split
    · next hk => rw [← hk, hrow]
    · rfl
  · rw [Bucket.get_put (store_eq_ok.mp h), Bucket.get_delete]

theorem moved_refl {idx : Bucket Bytes} {i v : Bytes} (hrow : idx.get i = some v) :
    Moved idx idx i i v := by
  apply moved_of_moveSortRow hrow
  rw [moveSortRow, if_pos rfl]

theorem Coherent.recentRead_row {tx : Tx} (hc : Coherent tx) {b : Book}
    (hget : tx.books.get b.id = some b) (hu : b.userID ≠ []) :
    tx.bookSortIndex.get (bookSortIndexKey b .recentRead) = some b.id ∧
      ∃ c, tx.bookCategorySortIndex = some c ∧
        c.get (bookCategorySortIndexKey b .recentRead) = some b.id := by
  have hw := (hc.keyed _ _ hget).2
  have hindexed : ¬ Unindexed b := by simp [Unindexed, hu, hw.1]
  have hmem : b ∈ tx.books.values := Bucket.mem_values.mpr ⟨b.id, hget⟩
  obtain ⟨hs, c, hcat, hd⟩ := hc.listed.sort
  refine ⟨(hs _ _).mpr ⟨b, hmem, ?_⟩, c, hcat, (hd _ _).mpr ⟨b, hmem, ?_⟩⟩
  · rw [sortRows_eq hindexed]
    simp
  · rw [categorySortRows_eq hindexed]
    simp

theorem touchBook_moved {tx tx' : Tx} {b : Book} {t : Time} (hc : Coherent tx)
    (hget : tx.books.get b.id = some b) (hu : b.userID ≠ []) (h : touchBook tx b t = .ok tx') :
    Moved tx.bookSortIndex tx'.bookSortIndex (bookSortIndexKey b .recentRead)
        (bookSortIndexKey (readAt b t) .recentRead) b.id ∧
      ∃ c d, tx.bookCategorySortIndex = some c ∧ tx'.bookCategorySortIndex = some d ∧
        Moved c d (bookCategorySortIndexKey b .recentRead)
          (bookCategorySortIndexKey (readAt b t) .recentRead) b.id := by
  obtain ⟨hrow, c, hcat, hcrow⟩ := hc.recentRead_row hget hu
  rw [touchBook] at h
  split at h
  · next ht =>
    cases h
    have hsame : readAt b t = b := by rw [readAt, ← ht]
    rw [hsame]
    exact ⟨moved_refl hrow, c, c, hcat, hcat, moved_refl hcrow⟩
  · obtain ⟨bs, -, h⟩ := bind_eq_ok.mp h
    obtain ⟨s, d, hs, hd, rfl⟩ := updateBookSortKey_ok (by exact hcat) h
    exact ⟨moved_of_moveSortRow hrow hs, c, d, hcat, rfl, moved_of_moveSortRow hcrow hd⟩

theorem ProgressKeyed.record {tx : Tx} (hk : ProgressKeyed tx) {u id : Bytes} {q : Progress}
    (hid : WellFormedID id) (hget : tx.progress.get (progressKey u id) = some q) :
    q.userID = u ∧ q.bookID = id ∧ q.userID ≠ [] := by
  obtain ⟨hkey, hu, hb⟩ := hk _ _ hget
  rw [progressKey, progressKey, List.append_assoc, List.append_assoc] at hkey
  obtain ⟨huser, hbook⟩ := append_cons_inj (colon_notMem hb) (colon_notMem hid) hkey
  exact ⟨huser, hbook, hu⟩

/-- The time index after a save: the new row, without the row it supersedes. -/
def Retimed (idx jdx : Bucket Bytes) (previous : Option Progress) (p : Progress) : Prop :=
  ∀ k, jdx.get k = if progressTimeIndexKey p = k then some p.bookID
    else if previous.map progressTimeIndexKey = some k then none else idx.get k

theorem recordProgress_retimed {tx tx' : Tx} {p : Progress} (hk : ProgressKeyed tx)
    (hu : p.userID ≠ []) (hb : WellFormedID p.bookID)
    (h : recordProgress tx (progressKey p.userID p.bookID)
      (tx.progress.get (progressKey p.userID p.bookID)) p = .ok tx') :
    Retimed tx.progressTimeIndex tx'.progressTimeIndex
      (tx.progress.get (progressKey p.userID p.bookID)) p := by
  have hcleared : ∃ i, supersedeProgress tx (tx.progress.get (progressKey p.userID p.bookID)) p =
        { tx with progressTimeIndex := i } ∧
      ∀ k, progressTimeIndexKey p ≠ k → i.get k =
        if (tx.progress.get (progressKey p.userID p.bookID)).map progressTimeIndexKey = some k
        then none else tx.progressTimeIndex.get k := by
    cases hget : tx.progress.get (progressKey p.userID p.bookID) with
    | none => exact ⟨tx.progressTimeIndex, rfl, by simp⟩
    | some q =>
        obtain ⟨huser, hbook, hqu⟩ := hk.record hb hget
        simp only [supersedeProgress]
        split
        · next htime =>
          refine ⟨tx.progressTimeIndex, rfl, ?_⟩
          intro k hne
          have hsame : progressTimeIndexKey q = progressTimeIndexKey p := by
            rw [progressTimeIndexKey_eq, progressTimeIndexKey_eq, huser, hbook, htime]
          simp [hsame, hne]
        · rw [removeProgressFromTimeIndex_rows]
          refine ⟨_, rfl, ?_⟩
          intro k _
          rw [get_deleteRows, progressRows_eq hqu (hbook ▸ hb)]
          simp [eq_comm]
  obtain ⟨i, hi, hrows⟩ := hcleared
  simp only [recordProgress, hi] at h
  obtain ⟨ps, -, h⟩ := bind_eq_ok.mp h
  rw [addProgressToTimeIndex, if_neg (by rintro (h | h); exacts [hu h, hb.1 h])] at h
  obtain ⟨j, hj, h⟩ := bind_eq_ok.mp h
  cases h
  intro k
  change j.get k = _
  rw [Bucket.get_put (store_eq_ok.mp hj)]
  by_cases hkey : progressTimeIndexKey p = k
  · rw [if_pos hkey, if_pos hkey]
  · rw [if_neg hkey, if_neg hkey]
    exact hrows k hkey

/-- What a successful save of `p` leaves behind: the record, the time stamp of the
book and its recent-read rows, and a single row of the time index all carry the
time of `p`, and nothing else has changed. -/
structure ProgressSaved (tx : Tx) (p : Progress) (b : Book) (tx' : Tx) : Prop where
  frame : tx' = { tx with
    books := tx'.books
    progress := tx'.progress
    progressTimeIndex := tx'.progressTimeIndex
    bookSortIndex := tx'.bookSortIndex
    bookCategorySortIndex := tx'.bookCategorySortIndex }
  progress : ∀ k, tx'.progress.get k =
    if progressKey p.userID p.bookID = k then some p else tx.progress.get k
  books : ∀ k, tx'.books.get k =
    if p.bookID = k then some (readAt b p.updatedAt) else tx.books.get k
  sortRows : Moved tx.bookSortIndex tx'.bookSortIndex (bookSortIndexKey b .recentRead)
    (bookSortIndexKey (readAt b p.updatedAt) .recentRead) b.id
  categoryRows : ∃ c d, tx.bookCategorySortIndex = some c ∧ tx'.bookCategorySortIndex = some d ∧
    Moved c d (bookCategorySortIndexKey b .recentRead)
      (bookCategorySortIndexKey (readAt b p.updatedAt) .recentRead) b.id
  timeRows : Retimed tx.progressTimeIndex tx'.progressTimeIndex
    (tx.progress.get (progressKey p.userID p.bookID)) p
  sortTime : ∀ t : Time, t.InRange →
    ((tx'.bookSortIndex.get (bookSortIndexKey (readAt b t) .recentRead)).isSome ↔ t = p.updatedAt)
  categoryTime : ∀ t : Time, t.InRange →
    ((tx'.bookCategorySortIndex.bind
      (·.get (bookCategorySortIndexKey (readAt b t) .recentRead))).isSome ↔ t = p.updatedAt)
  progressTime : ∀ t : Time, t.InRange →
    ((tx'.progressTimeIndex.get (progressTimeIndexKey { p with updatedAt := t })).isSome ↔
      t = p.updatedAt)

theorem bookSortIndexKey_readAt_inj {b : Book} {t s : Time} (ht : t.InRange) (hs : s.InRange)
    (h : bookSortIndexKey (readAt b t) .recentRead = bookSortIndexKey (readAt b s) .recentRead) :
    t = s := by
  simp only [bookSortIndexKey_eq, readAt, List.append_assoc, List.append_cancel_left_eq,
    List.cons_append, List.cons.injEq, true_and, List.append_cancel_right_eq] at h
  exact invertedBookTimestamp_inj ht hs h

theorem bookCategorySortIndexKey_readAt_inj {b : Book} {t s : Time} (ht : t.InRange)
    (hs : s.InRange) (h : bookCategorySortIndexKey (readAt b t) .recentRead =
      bookCategorySortIndexKey (readAt b s) .recentRead) : t = s := by
  simp only [bookCategorySortIndexKey_eq, readAt, categoryForBook, List.append_cancel_left_eq,
    List.cons.injEq, true_and, List.append_cancel_right_eq] at h
  exact invertedBookTimestamp_inj ht hs h

theorem mem_sortRows {b : Book} {k v : Bytes} (h : (k, v) ∈ sortRows b) :
    b.id = v ∧ ∃ s, bookSortIndexKey b s = k := by
  rw [sortRows] at h
  split at h
  · simp at h
  · obtain ⟨s, -, hs⟩ := List.mem_map.mp h
    rw [Prod.mk.injEq] at hs
    exact ⟨hs.2, s, hs.1⟩

theorem mem_categorySortRows {b : Book} {k v : Bytes} (h : (k, v) ∈ categorySortRows b) :
    b.id = v ∧ ∃ s, bookCategorySortIndexKey b s = k := by
  rw [categorySortRows] at h
  split at h
  · simp at h
  · obtain ⟨s, -, hs⟩ := List.mem_map.mp h
    rw [Prod.mk.injEq] at hs
    exact ⟨hs.2, s, hs.1⟩

theorem bookCategorySortIndexKey_tail (b : Book) (s : SortKey) :
    bookCategorySortIndexKey b s =
      (bookCategorySortPrefix b.userID (categoryForBook b) s ++ bookSortValue b s) ++ nul :: b.id := by
  simp [bookCategorySortIndexKey]

/-- A stored record is determined by the identifier at the end of its keys. -/
theorem Coherent.eq_of_id {tx : Tx} (hc : Coherent tx) {b q : Book} (hq : q ∈ tx.books.values)
    (hget : tx.books.get b.id = some b) (hid : q.id = b.id) : q = b := by
  obtain ⟨k, hk⟩ := Bucket.mem_values.mp hq
  obtain ⟨rfl, -⟩ := hc.keyed k q hk
  rw [hid, hget, Option.some.injEq] at hk
  exact hk.symm

theorem Coherent.sort_time {tx : Tx} (hc : Coherent tx) {b : Book} {s t : Time}
    (hget : tx.books.get b.id = some (readAt b s)) (hu : b.userID ≠ []) (hs : s.InRange)
    (ht : t.InRange) :
    (tx.bookSortIndex.get (bookSortIndexKey (readAt b t) .recentRead)).isSome ↔ t = s := by
  constructor
  · intro h
    obtain ⟨v, hv⟩ := Option.isSome_iff_exists.mp h
    obtain ⟨q, hq, hrow⟩ := (hc.listed.sort.1 _ _).mp hv
    obtain ⟨-, k, hkey⟩ := mem_sortRows hrow
    have hname := bookSortIndexKey_name hkey
    subst hname
    have hid : q.id = b.id := by
      rw [bookSortIndexKey_eq, bookSortIndexKey_eq] at hkey
      have hqw := (hc.keyed.library.1 q hq)
      have hbw := (hc.keyed _ _ hget).2
      exact (append_cons_inj (nul_notMem hqw) (nul_notMem hbw) hkey).2
    rw [hc.eq_of_id (b := readAt b s) hq hget hid] at hkey
    exact (bookSortIndexKey_readAt_inj hs ht hkey).symm
  · rintro rfl
    rw [(hc.recentRead_row (b := readAt b t) hget hu).1]
    rfl

theorem Coherent.category_time {tx : Tx} (hc : Coherent tx) {b : Book} {s t : Time}
    (hget : tx.books.get b.id = some (readAt b s)) (hu : b.userID ≠ []) (hs : s.InRange)
    (ht : t.InRange) :
    (tx.bookCategorySortIndex.bind
      (·.get (bookCategorySortIndexKey (readAt b t) .recentRead))).isSome ↔ t = s := by
  obtain ⟨-, c, hcat, hd⟩ := hc.listed.sort
  rw [hcat, Option.bind_some]
  constructor
  · intro h
    obtain ⟨v, hv⟩ := Option.isSome_iff_exists.mp h
    obtain ⟨q, hq, hrow⟩ := (hd _ _).mp hv
    obtain ⟨-, k, hkey⟩ := mem_categorySortRows hrow
    have hname := bookCategorySortIndexKey_name hkey
    subst hname
    have hid : q.id = b.id := by
      rw [bookCategorySortIndexKey_tail, bookCategorySortIndexKey_tail] at hkey
      have hqw := (hc.keyed.library.1 q hq)
      have hbw := (hc.keyed _ _ hget).2
      exact (append_cons_inj (nul_notMem hqw) (nul_notMem hbw) hkey).2
    rw [hc.eq_of_id (b := readAt b s) hq hget hid] at hkey
    exact (bookCategorySortIndexKey_readAt_inj hs ht hkey).symm
  · rintro rfl
    obtain ⟨-, d, hcat', hrow⟩ := hc.recentRead_row (b := readAt b t) hget hu
    rw [hcat, Option.some.injEq] at hcat'
    rw [hcat', hrow]
    rfl

theorem Timed.progress_time {tx : Tx} (h : Timed tx) {p : Progress} {t : Time}
    (hget : tx.progress.get (progressKey p.userID p.bookID) = some p) (hp : p.updatedAt.InRange)
    (ht : t.InRange) :
    (tx.progressTimeIndex.get (progressTimeIndexKey { p with updatedAt := t })).isSome ↔
      t = p.updatedAt := by
  obtain ⟨-, hu, hb⟩ := h.keyed _ _ hget
  constructor
  · intro hsome
    obtain ⟨v, hv⟩ := Option.isSome_iff_exists.mp hsome
    obtain ⟨q, hq, hrow⟩ := (h.times _ _).mp hv
    have hkey := mem_progressRows hrow
    obtain ⟨huser, hbook, htime⟩ :=
      progressTimeIndexKey_inj (q := { p with updatedAt := t })
        (nul_notMem (h.keyed.of_mem hq).2) (nul_notMem hb) hkey
    obtain ⟨k, hk⟩ := Bucket.mem_values.mp hq
    rw [← (h.keyed k q hk).1, huser, hbook, hget, Option.some.injEq] at hk
    subst hk
    exact (padded_time_inj hp ht htime).symm
  · rintro rfl
    rw [(h.times _ p.bookID).mpr ⟨p, Bucket.mem_values.mpr ⟨_, hget⟩, ?_⟩]
    · rfl
    · rw [progressRows_eq hu hb]
      simp

/-! ## When a save succeeds -/

theorem length_bookSortIndexKey_readAt (b : Book) (t : Time) :
    (bookSortIndexKey (readAt b t) .recentRead).length =
      (bookSortIndexKey b .recentRead).length := by
  simp [bookSortIndexKey_eq, readAt, bookSortValue, invertedBookTimestamp, length_padded]

theorem length_bookCategorySortIndexKey_readAt (b : Book) (t : Time) :
    (bookCategorySortIndexKey (readAt b t) .recentRead).length =
      (bookCategorySortIndexKey b .recentRead).length := by
  simp [bookCategorySortIndexKey_eq, readAt, bookSortValue, invertedBookTimestamp, length_padded,
    categoryForBook]

theorem validKey_of_length {k j : Bytes} (h : ValidKey k) (hl : j.length = k.length) : ValidKey j := by
  obtain ⟨hne, hk⟩ := h
  constructor
  · intro he
    rw [he, List.length_nil, eq_comm, List.length_eq_zero_iff] at hl
    exact hne hl
  · omega

theorem updateBookSortKey_total {tx : Tx} (old : Book) {b : Book} {k : SortKey} {c : Bucket Bytes}
    (hc : tx.bookCategorySortIndex = some c) (hs : ValidKey (bookSortIndexKey b k))
    (hd : ValidKey (bookCategorySortIndexKey b k)) :
    ∃ tx', updateBookSortKey tx old b k = .ok tx' := by
  obtain ⟨s, hs⟩ := store_of_valid (tx.bookSortIndex.delete (bookSortIndexKey old k)) hs b.id
  obtain ⟨d, hd⟩ := store_of_valid (c.delete (bookCategorySortIndexKey old k)) hd b.id
  rw [updateBookSortKey]
  by_cases he : bookSortIndexKey old k = bookSortIndexKey b k
  · by_cases hcat : bookCategorySortIndexKey old k = bookCategorySortIndexKey b k
    · simp only [if_pos he, if_pos hcat]
      exact ⟨tx, rfl⟩
    · simp only [if_pos he, if_neg hcat, hc]
      exact ⟨_, bind_eq_ok.mpr ⟨tx, rfl, by simp only [hc, hd]; rfl⟩⟩
  · by_cases hcat : bookCategorySortIndexKey old k = bookCategorySortIndexKey b k
    · simp only [if_neg he, if_pos hcat]
      exact ⟨_, bind_eq_ok.mpr ⟨s, hs, rfl⟩⟩
    · simp only [if_neg he, if_neg hcat]
      refine ⟨{ tx with bookSortIndex := s, bookCategorySortIndex := some d },
        bind_eq_ok.mpr ⟨s, hs, bind_eq_ok.mpr ⟨{ tx with bookSortIndex := s }, rfl, ?_⟩⟩⟩
      simp only [hc]
      exact bind_eq_ok.mpr ⟨d, hd, rfl⟩

theorem touchBook_total {tx : Tx} {b : Book} (t : Time) (hc : Coherent tx)
    (hget : tx.books.get b.id = some b) (hu : b.userID ≠ []) :
    ∃ tx', touchBook tx b t = .ok tx' := by
  obtain ⟨hrow, c, hcat, hcrow⟩ := hc.recentRead_row hget hu
  rw [touchBook]
  split
  · exact ⟨tx, rfl⟩
  · obtain ⟨bs, hbs⟩ := store_of_valid tx.books (Bucket.valid_of_get hget) (readAt b t)
    have hnew : ValidKey (bookSortIndexKey (readAt b t) .recentRead) :=
      validKey_of_length (Bucket.valid_of_get hrow) (length_bookSortIndexKey_readAt b t)
    have hcnew : ValidKey (bookCategorySortIndexKey (readAt b t) .recentRead) :=
      validKey_of_length (Bucket.valid_of_get hcrow) (length_bookCategorySortIndexKey_readAt b t)
    have hcat₁ : ({ tx with books := bs } : Tx).bookCategorySortIndex = some c := hcat
    obtain ⟨tx', ht⟩ := updateBookSortKey_total b hcat₁ hnew hcnew
    exact ⟨tx', bind_eq_ok.mpr ⟨bs, hbs, ht⟩⟩

theorem length_progressTimeIndexKey (p : Progress) :
    (progressTimeIndexKey p).length = p.userID.length + p.bookID.length + 21 := by
  rw [progressTimeIndexKey_eq]
  simp only [List.length_append, List.length_cons, length_padded]
  omega

theorem recordProgress_total {tx : Tx} {p q : Progress} (ht : Timed tx)
    (hb : WellFormedID p.bookID)
    (hget : tx.progress.get (progressKey p.userID p.bookID) = some q) :
    ∃ tx', recordProgress tx (progressKey p.userID p.bookID) (some q) p = .ok tx' := by
  obtain ⟨huser, hbook, hqu⟩ := ht.keyed.record hb hget
  have hrow : ValidKey (progressTimeIndexKey q) := by
    refine ht.times.valid (Bucket.mem_values.mpr ⟨_, hget⟩) (progressTimeIndexKey q, q.bookID) ?_
    rw [progressRows_eq hqu (hbook ▸ hb)]
    simp
  have hnew : ValidKey (progressTimeIndexKey p) := by
    refine validKey_of_length hrow ?_
    rw [length_progressTimeIndexKey, length_progressTimeIndexKey, huser, hbook]
  have hcleared : ∃ i, supersedeProgress tx (some q) p = { tx with progressTimeIndex := i } := by
    simp only [supersedeProgress]
    split
    · exact ⟨_, rfl⟩
    · exact removeProgressFromTimeIndex_eq tx q
  obtain ⟨i, hi⟩ := hcleared
  obtain ⟨ps, hps⟩ := store_of_valid tx.progress (Bucket.valid_of_get hget) p
  obtain ⟨j, hj⟩ := store_of_valid i hnew p.bookID
  refine ⟨{ tx with progress := ps, progressTimeIndex := j }, ?_⟩
  simp only [recordProgress, hi]
  refine bind_eq_ok.mpr ⟨ps, hps, ?_⟩
  rw [addProgressToTimeIndex,
    if_neg (by rintro (h | h); exacts [hqu (huser.trans h), hb.1 h])]
  exact bind_eq_ok.mpr ⟨j, hj, rfl⟩

theorem stale_some {e : Time} {previous : Option Progress} :
    stale (some e) previous = false ↔ ∃ q, previous = some q ∧ q.updatedAt = e := by
  cases previous with
  | none => simp [stale]
  | some q => simp [stale]

theorem saveProgressIfCurrent_ok_iff {tx : Tx} (hc : Coherent tx) (ht : Timed tx) (p : Progress)
    (u : Bytes) (e : Time) :
    (∃ tx', saveProgressIfCurrent p u (some e) tx = .ok tx') ↔
      ∃ b q, tx.books.get p.bookID = some b ∧ b.userID = u ∧
        tx.progress.get (progressKey u p.bookID) = some q ∧ q.updatedAt = e := by
  constructor
  · rintro ⟨tx', h⟩
    rw [saveProgressIfCurrent_eq] at h
    obtain ⟨b, hown, h⟩ := bind_eq_ok.mp h
    obtain ⟨hget, hu⟩ := ownedBook_eq_ok.mp hown
    simp only at h
    split at h
    · cases h
    · next hs =>
      rw [Bool.not_eq_true] at hs
      obtain ⟨q, hq, he⟩ := stale_some.mp hs
      exact ⟨b, q, hget, hu, hq, he⟩
  · rintro ⟨b, q, hget, rfl, hq, he⟩
    obtain ⟨hid, hw⟩ := hc.keyed _ _ hget
    obtain ⟨huser, hbook, hqu⟩ := ht.keyed.record hw hq
    have hfresh : stale (some e) (some q) = false := stale_some.mpr ⟨q, rfl, he⟩
    have hget' : tx.books.get b.id = some b := by rw [hid, hget]
    have hu : b.userID ≠ [] := huser ▸ hqu
    obtain ⟨tx₁, h₁⟩ := touchBook_total p.updatedAt hc hget' hu
    obtain ⟨-, ⟨bs, s, d, rfl⟩, -⟩ := touchBook_ok hc hget' hu h₁
    have ht₁ : Timed { tx with books := bs, bookSortIndex := s, bookCategorySortIndex := d } :=
      ht.congr rfl rfl
    obtain ⟨tx', h⟩ := recordProgress_total (p := { p with userID := b.userID }) ht₁ hw hq
    refine ⟨tx', ?_⟩
    rw [saveProgressIfCurrent_eq]
    refine bind_eq_ok.mpr ⟨b, ownedBook_eq_ok.mpr ⟨hget, rfl⟩, ?_⟩
    simp only [hq, hfresh]
    exact bind_eq_ok.mpr ⟨_, h₁, h⟩

theorem saveProgressIfCurrent_saved {tx tx' : Tx} {p : Progress} {u : Bytes} {e : Option Time}
    (hc : Coherent tx) (ht : Timed tx) (hu : u ≠ []) (hp : p.updatedAt.InRange)
    (h : saveProgressIfCurrent p u e tx = .ok tx') :
    ∃ b, tx.books.get p.bookID = some b ∧ b.userID = u ∧
      ProgressSaved tx { p with userID := u } b tx' := by
  have hc' := saveProgressIfCurrent_coherent hc hu h
  obtain ⟨ht', hprogress⟩ := saveProgressIfCurrent_timed hc ht hu h
  rw [saveProgressIfCurrent_eq] at h
  obtain ⟨b, hown, h⟩ := bind_eq_ok.mp h
  obtain ⟨hget, rfl⟩ := ownedBook_eq_ok.mp hown
  refine ⟨b, hget, rfl, ?_⟩
  simp only at h
  split at h
  · cases h
  · obtain ⟨tx₁, h₁, h⟩ := bind_eq_ok.mp h
    obtain ⟨hid, hw⟩ := hc.keyed _ _ hget
    rw [← hid] at hget
    obtain ⟨hsort, hcat⟩ := touchBook_moved hc hget hu h₁
    obtain ⟨-, ⟨bs, s, d, rfl⟩, hbooks⟩ := touchBook_ok hc hget hu h₁
    have ht₁ : Timed { tx with books := bs, bookSortIndex := s, bookCategorySortIndex := d } :=
      ht.congr rfl rfl
    have htimes := recordProgress_retimed (p := { p with userID := b.userID }) ht₁.keyed hu hw h
    obtain ⟨q, i, rfl⟩ := recordProgress_ok h
    have hbook : bs.get b.id = some (readAt b p.updatedAt) := by
      rw [hbooks b.id, if_pos rfl]
      rfl
    have hrecord : q.get (progressKey b.userID p.bookID) = some { p with userID := b.userID } := by
      rw [hprogress, if_pos rfl]
    refine ⟨rfl, hprogress, ?_, hsort, hcat, htimes, ?_, ?_, ?_⟩
    · intro k
      change bs.get k = if p.bookID = k then some (readAt b p.updatedAt) else tx.books.get k
      rw [← hid]
      exact hbooks k
    · intro t hrange
      exact hc'.sort_time hbook hu hp hrange
    · intro t hrange
      exact hc'.category_time hbook hu hp hrange
    · intro t hrange
      exact ht'.progress_time hrecord hp hrange

/-! ## Versions along a run -/

theorem foldl_delete_get {V : Type} (l : List (Bytes × V)) (b : Bucket V) {k : Bytes} {v : V}
    (h : (l.foldl (fun b row => b.delete row.1) b).get k = some v) : b.get k = some v := by
  induction l generalizing b with
  | nil => exact h
  | cons r l ih =>
      have hdeleted := ih (b.delete r.1) h
      rw [Bucket.get_delete] at hdeleted
      split at hdeleted
      · cases hdeleted
      · exact hdeleted

theorem deleteBooksData_progress {passed : Bytes → Bool} {tx tx' : Tx} {ids : List Bytes} {u : Bytes}
    {bs : List Book} (ht : Timed tx) (h : deleteBooksData ids u passed tx = .ok (bs, tx')) :
    ∀ k p, tx'.progress.get k = some p → tx.progress.get k = some p := by
  refine (foldlM_invariant (fun r : List Book × Tx => Timed r.2 ∧
    ∀ k p, r.2.progress.get k = some p → tx.progress.get k = some p) ?_ ⟨ht, fun _ _ hp => hp⟩ h).2
  intro id _ r r' hr hstep
  obtain ⟨⟨b, tx₁⟩, h₁, hstep⟩ := bind_eq_ok.mp hstep
  cases hstep
  obtain ⟨ht₁, hprogress⟩ := deleteBookDataInTx_timed hr.1 h₁
  refine ⟨ht₁, ?_⟩
  intro k p hp
  change tx₁.progress.get k = some p at hp
  rw [hprogress, Bucket.get_delete] at hp
  split at hp
  · cases hp
  · exact hr.2 k p hp

/-- Only a save writes a progress record. -/
theorem Op.transaction_progress {tx tx' : Tx} {op : Op} (hc : Coherent tx) (ht : Timed tx)
    (ha : op.Admissible tx) (h : op.transaction tx = .ok tx') {k : Bytes} {p : Progress}
    (hget : tx'.progress.get k = some p) :
    tx.progress.get k = some p ∨ ∃ q u e, op = .saveProgressIfCurrent q u e ∧
      progressKey u q.bookID = k ∧ p = { q with userID := u } := by
  have same (hr : SameReading tx tx') : tx.progress.get k = some p := by
    rw [← hr.progress]
    exact hget
  cases op with
  | saveBook book => exact Or.inl (same (saveBook_reading h).toSameReading)
  | createBook book => exact Or.inl (same (createBook_reading h).toSameReading)
  | deleteBookData id u =>
      rw [(deleteBookData_timed ht h).2, Bucket.get_delete] at hget
      split at hget
      · cases hget
      · exact Or.inl hget
  | deleteBooksData ids u passed =>
      obtain ⟨bs, h⟩ := map_snd_eq_ok h
      exact Or.inl (deleteBooksData_progress ht h k p hget)
  | updateBooksCategory ids u c =>
      obtain ⟨bs, h⟩ := map_snd_eq_ok h
      exact Or.inl (same (updateBooksCategoryInTx_reading h).toSameReading)
  | renameBookCategory u s t =>
      obtain ⟨ids, h⟩ := map_snd_eq_ok h
      exact Or.inl (same (renameBookCategory_reading h).toSameReading)
  | normalizeBookCategories => exact Or.inl (same (normalizeBookCategories_reading h).toSameReading)
  | saveProgressIfCurrent q u e =>
      rw [(saveProgressIfCurrent_timed hc ht ha h).2 k] at hget
      split at hget
      · next hk => exact Or.inr ⟨q, u, e, rfl, hk, (Option.some.inj hget).symm⟩
      · exact Or.inl hget
  | backfillBookContentHashes hs => exact Or.inl (same (backfillBookContentHashes_reading h).toSameReading)
  | assignUnownedDataToUser u =>
      rw [(assignUnownedDataToUser_timed ht h).2] at hget
      exact Or.inl hget
  | deleteUserData u =>
      simp only [transaction, Storage.deleteUserData] at h
      obtain ⟨tx₁, h₁, h⟩ := bind_eq_ok.mp h
      cases h
      exact Or.inl ((deleteBooksByUser_timed hc ht h₁).2.1 k p (foldl_delete_get _ _ hget))
  | purgeUser id =>
      simp only [transaction, Storage.purgeUser] at h
      split at h
      · cases h
      · obtain ⟨tx₁, h₁, h⟩ := bind_eq_ok.mp h
        cases h
        exact Or.inl ((deleteBooksByUser_timed hc ht h₁).2.1 k p (foldl_delete_get _ _ hget))
  | deleteProgress b u =>
      have he : tx' = forgetProgress tx (progressKey u b) := by
        simp only [transaction, Storage.deleteProgress] at h
        cases h
        rfl
      rw [he, forgetProgress_progress, Bucket.get_delete] at hget
      split at hget
      · cases hget
      · exact Or.inl hget
  | saveUser user =>
      simp only [transaction, Storage.saveUser] at h
      obtain ⟨us, -, h⟩ := bind_eq_ok.mp h
      obtain ⟨un, -, h⟩ := bind_eq_ok.mp h
      cases h
      exact Or.inl hget
  | deleteUser id =>
      simp only [transaction, Storage.deleteUser] at h
      split at h
      · cases h
      · cases h
        exact Or.inl hget
  | saveBookmark m u =>
      simp only [transaction, Storage.saveBookmark] at h
      obtain ⟨_, -, h⟩ := bind_eq_ok.mp h
      obtain ⟨ms, -, h⟩ := bind_eq_ok.mp h
      cases h
      exact Or.inl hget
  | deleteBookmark b m u =>
      simp only [transaction, Storage.deleteBookmark] at h
      obtain ⟨_, -, h⟩ := bind_eq_ok.mp h
      split at h
      · cases h
      · cases h
        exact Or.inl hget

/-- A save that stores the given version of a progress record. -/
def Op.Stores (u id : Bytes) (e : Time) : Op → Prop
  | .saveProgressIfCurrent p userID _ => userID = u ∧ p.bookID = id ∧ p.updatedAt = e
  | _ => False

/-- The stored record, if there is one, is of another version. -/
def NotStored (db : Tx) (u id : Bytes) (e : Time) : Prop :=
  ∀ q, db.progress.get (progressKey u id) = some q → q.updatedAt ≠ e

theorem Op.run_coherent_timed {db db' : Tx} {op : Op} (hI : Coherent db ∧ Timed db)
    (h : op.OrderlyStep db db') : Coherent db' ∧ Timed db' := by
  obtain ⟨⟨ha, rfl⟩, ho⟩ := h
  refine ⟨Op.run_coherent hI.1 ha, ?_⟩
  exact Tx.update_induction hI.2 (fun _ h => Op.transaction_timed hI.1 hI.2 ha ho h)

theorem Op.run_notStored {db db' : Tx} {op : Op} {u id : Bytes} {e : Time} (hid : WellFormedID id)
    (hI : Coherent db ∧ Timed db) (h : op.OrderlyStep db db') (hop : ¬ op.Stores u id e)
    (hn : NotStored db u id e) : NotStored db' u id e := by
  obtain ⟨⟨ha, rfl⟩, ho⟩ := h
  refine Tx.update_induction (P := fun db => NotStored db u id e) hn ?_
  intro db' hok q hq
  have ht' : Timed db' := Op.transaction_timed hI.1 hI.2 ha ho hok
  rcases Op.transaction_progress hI.1 hI.2 ha hok hq with hold | ⟨p, u', e', rfl, hkey, rfl⟩
  · exact hn q hold
  · obtain ⟨huser, hbook, -⟩ := ht'.keyed.record hid hq
    intro he
    exact hop ⟨huser, hbook, he⟩

/-- Steps other than a save of the given version. -/
def Op.StepWithout (u id : Bytes) (e : Time) (db : Tx) (op : Op) (db' : Tx) : Prop :=
  op.OrderlyStep db db' ∧ ¬ op.Stores u id e

theorem notStored_of_reachable {db db' : Tx} {u id : Bytes} {e : Time} (hid : WellFormedID id)
    (hI : Coherent db ∧ Timed db) (hn : NotStored db u id e)
    (h : Reachable (· = db) (Op.StepWithout u id e) db') :
    (Coherent db' ∧ Timed db') ∧ NotStored db' u id e := by
  refine h.invariant (fun db => (Coherent db ∧ Timed db) ∧ NotStored db u id e) ?_ ?_
  · rintro s rfl
    exact ⟨hI, hn⟩
  · intro s op t hs hstep
    exact ⟨Op.run_coherent_timed hs.1 hstep.1, Op.run_notStored hid hs.1 hstep.1 hstep.2 hs.2⟩

/-- Optimistic concurrency. In every state of a run from a coherent one: a save that
expects a version succeeds exactly when that version is stored for a book of the
caller; once such a save has replaced the version, every save expecting it fails
until some save stores it again; a failing save changes nothing; and a successful
one writes its time stamp everywhere and nothing else. -/
theorem progress_chain {db₀ db : Tx} (h₀ : Coherent db₀ ∧ Timed db₀)
    (h : Reachable (· = db₀) Op.OrderlyStep db) (p : Progress) (u : Bytes) (hu : u ≠ [])
    (hp : p.updatedAt.InRange) :
    (∀ e, (∃ db', saveProgressIfCurrent p u (some e) db = .ok db') ↔
      ∃ b q, db.books.get p.bookID = some b ∧ b.userID = u ∧
        db.progress.get (progressKey u p.bookID) = some q ∧ q.updatedAt = e) ∧
    (∀ e db₁, saveProgressIfCurrent p u (some e) db = .ok db₁ → p.updatedAt ≠ e →
      ∀ db₂, Reachable (· = db₁) (Op.StepWithout u p.bookID e) db₂ →
        ∀ q : Progress, q.bookID = p.bookID → ∀ db₃, saveProgressIfCurrent q u (some e) db₂ ≠ .ok db₃) ∧
    (∀ e err, saveProgressIfCurrent p u e db = .error err →
      (Op.saveProgressIfCurrent p u e).run db = db) ∧
    (∀ e db₁, saveProgressIfCurrent p u e db = .ok db₁ →
      ∃ b, db.books.get p.bookID = some b ∧ b.userID = u ∧
        ProgressSaved db { p with userID := u } b db₁) := by
  have hI : Coherent db ∧ Timed db := by
    refine h.invariant (fun db => Coherent db ∧ Timed db) ?_ ?_
    · rintro s rfl
      exact h₀
    · intro s op t hs hstep
      exact Op.run_coherent_timed hs hstep
  refine ⟨saveProgressIfCurrent_ok_iff hI.1 hI.2 p u, ?_, ?_, ?_⟩
  · intro e db₁ hsave hne db₂ hrun q hq db₃ hsave'
    obtain ⟨b, -, hb, -, -, -⟩ := (saveProgressIfCurrent_ok_iff hI.1 hI.2 p u e).mp ⟨db₁, hsave⟩
    have hid := (hI.1.keyed _ _ hb).2
    obtain ⟨ht₁, hprogress⟩ := saveProgressIfCurrent_timed hI.1 hI.2 hu hsave
    have hn : NotStored db₁ u p.bookID e := by
      intro r hr
      rw [hprogress, if_pos rfl, Option.some.injEq] at hr
      rw [← hr]
      exact hne
    obtain ⟨hI₂, hn₂⟩ :=
      notStored_of_reachable hid ⟨saveProgressIfCurrent_coherent hI.1 hu hsave, ht₁⟩ hn hrun
    obtain ⟨-, r, -, -, hr, he⟩ := (saveProgressIfCurrent_ok_iff hI₂.1 hI₂.2 q u e).mp ⟨db₃, hsave'⟩
    rw [hq] at hr
    exact hn₂ r hr he
  · intro e err herr
    simp only [Op.run, Tx.update, Op.transaction, herr]
  · intro e db₁ hsave
    exact saveProgressIfCurrent_saved hI.1 hI.2 hu hp hsave

theorem saveProgressIfCurrent_next {tx tx' : Tx} {p : Progress} {u : Bytes} {e : Option Time}
    (hI : Coherent tx ∧ Timed tx) (hu : u ≠ []) (hp : p.updatedAt.InRange)
    (h : saveProgressIfCurrent p u e tx = .ok tx') :
    (Coherent tx' ∧ Timed tx') ∧ ∀ q : Progress, q.bookID = p.bookID →
      ∃ tx'', saveProgressIfCurrent q u (some p.updatedAt) tx' = .ok tx'' := by
  have hI' : Coherent tx' ∧ Timed tx' :=
    ⟨saveProgressIfCurrent_coherent hI.1 hu h, (saveProgressIfCurrent_timed hI.1 hI.2 hu h).1⟩
  refine ⟨hI', ?_⟩
  intro q hq
  obtain ⟨b, -, hbu, hsaved⟩ := saveProgressIfCurrent_saved hI.1 hI.2 hu hp h
  refine (saveProgressIfCurrent_ok_iff hI'.1 hI'.2 q u p.updatedAt).mpr
    ⟨readAt b p.updatedAt, { p with userID := u }, ?_, hbu, ?_, rfl⟩
  · rw [hsaved.books, if_pos hq.symm]
  · rw [hsaved.progress, hq, if_pos rfl]

/-- The uploaded book after a first save. -/
def readOnce : Tx := (Op.saveProgressIfCurrent sampleProgress (ascii "u") none).run uploaded

theorem readOnce_orderly : Reachable (· = Tx.migrated) Op.OrderlyStep readOnce :=
  orderly_run uploaded_orderly (.saveProgressIfCurrent sampleProgress (ascii "u") none)
    (by decide : ascii "u" ≠ []) trivial

theorem readOnce_reached : Reached readOnce :=
  uploaded_reached.run (.saveProgressIfCurrent sampleProgress (ascii "u") none)
    (by decide : ascii "u" ≠ [])

theorem readOnce_stored :
    ((readOnce.books.get (ascii "b")).map (·.userID) = some (ascii "u") ∧
      (readOnce.progress.get (progressKey (ascii "u") (ascii "b"))).map (·.updatedAt) =
        some sampleProgress.updatedAt) := by decide +kernel

theorem readOnce_next : ∃ db, saveProgressIfCurrent { sampleProgress with updatedAt := ⟨2⟩ }
    (ascii "u") (some sampleProgress.updatedAt) readOnce = .ok db := by
  obtain ⟨hbook, hprogress⟩ := readOnce_stored
  obtain ⟨b, hb, hbu⟩ := Option.map_eq_some_iff.mp hbook
  obtain ⟨q, hq, hqt⟩ := Option.map_eq_some_iff.mp hprogress
  refine ((progress_chain (orderly_coherent_timed readOnce_orderly) (.start rfl)
    { sampleProgress with updatedAt := ⟨2⟩ } (ascii "u") (by decide) ?_).1 _).mpr
    ⟨b, q, hb, hbu, hq, hqt⟩
  constructor <;> decide

/-- A version can come back without an unconditional save: of three conditional
saves with different times the second stores what the first replaced, and the
third succeeds with the same expectation as the first. -/
theorem conditional_saves_repeat_version :
    ∃ (u : Bytes) (e : Time) (p₁ p₂ p₃ : Progress) (db db₁ db₂ db₃ : Tx),
      Reachable (· = Tx.migrated) Op.OrderlyStep db ∧
      p₁.updatedAt.InRange ∧ p₂.updatedAt.InRange ∧ p₃.updatedAt.InRange ∧
      p₁.updatedAt ≠ p₂.updatedAt ∧ p₂.updatedAt ≠ p₃.updatedAt ∧ p₁.updatedAt ≠ p₃.updatedAt ∧
      p₁.bookID = p₂.bookID ∧ p₂.bookID = p₃.bookID ∧
      saveProgressIfCurrent p₁ u (some e) db = .ok db₁ ∧
      saveProgressIfCurrent p₂ u (some p₁.updatedAt) db₁ = .ok db₂ ∧
      saveProgressIfCurrent p₃ u (some e) db₂ = .ok db₃ := by
  obtain ⟨hbook, hprogress⟩ := readOnce_stored
  obtain ⟨b, hb, hbu⟩ := Option.map_eq_some_iff.mp hbook
  obtain ⟨q, hq, hqt⟩ := Option.map_eq_some_iff.mp hprogress
  have hI := orderly_coherent_timed readOnce_orderly
  have hu : ascii "u" ≠ [] := by decide
  have hr₁ : Time.InRange ⟨1⟩ := by constructor <;> decide
  have hr₂ : sampleProgress.updatedAt.InRange := by constructor <;> decide
  have hr₃ : Time.InRange ⟨2⟩ := by constructor <;> decide
  obtain ⟨db₁, h₁⟩ := (saveProgressIfCurrent_ok_iff hI.1 hI.2
    { sampleProgress with updatedAt := ⟨1⟩ } (ascii "u") sampleProgress.updatedAt).mpr
    ⟨b, q, hb, hbu, hq, hqt⟩
  obtain ⟨hI₁, hnext₁⟩ := saveProgressIfCurrent_next hI hu hr₁ h₁
  obtain ⟨db₂, h₂⟩ := hnext₁ sampleProgress rfl
  obtain ⟨hI₂, hnext₂⟩ := saveProgressIfCurrent_next hI₁ hu hr₂ h₂
  obtain ⟨db₃, h₃⟩ := hnext₂ { sampleProgress with updatedAt := ⟨2⟩ } rfl
  exact ⟨ascii "u", sampleProgress.updatedAt, { sampleProgress with updatedAt := ⟨1⟩ },
    sampleProgress, { sampleProgress with updatedAt := ⟨2⟩ }, readOnce, db₁, db₂, db₃,
    readOnce_orderly, hr₁, hr₂, hr₃, by decide, by decide, by decide, rfl, rfl, h₁, h₂, h₃⟩

end ZReader.Storage
