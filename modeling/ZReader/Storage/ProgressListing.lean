import ZReader.Lib.Ordered
import ZReader.Storage.ProgressChain

namespace ZReader.Storage

open Lib.Utf8 Lib.Strings Lib.KeyValue Lib.DerivedIndex Lib.Fallible Lib.Transition Lib.Ordered Std

/-! ## Listing progress -/

def listProgress (tx : Tx) (userID : Bytes) : List Progress :=
  let pre := userID ++ [colon]
  ((tx.progress.seek pre pre).map Prod.snd).filter (fun progress => progress.userID = userID)

/-- The record whose key is the first one that a change at `since` may have. -/
def probe (userID : Bytes) (since : Time) : Progress where
  bookID := []
  userID := userID
  cfi := []
  percentage := 0
  deviceID := []
  updatedAt := since

/-- The records of the rows from `since` on; the boundary is inclusive. -/
def listProgressUpdatedSince (tx : Tx) (userID : Bytes) (since : Time) : List Progress :=
  if since = Time.zero then listProgress tx userID
  else
    let pre := progressTimeIndexPrefix userID
    let start := progressTimeIndexKey (probe userID since)
    (tx.progressTimeIndex.seek start pre).filterMap (fun row =>
      (tx.progress.get (progressKey userID row.2)).filter (fun progress =>
        progress.userID = userID ∧ ¬ progress.updatedAt.before since))

/-! ## Every record has its row -/

/-- The time index may hold rows of deleted records, but it misses none. -/
structure Rowed (tx : Tx) : Prop where
  keyed : ProgressKeyed tx
  row : ∀ k p, tx.progress.get k = some p →
    tx.progressTimeIndex.get (progressTimeIndexKey p) = some p.bookID

theorem Rowed.congr {tx tx' : Tx} (h : Rowed tx) (hp : tx'.progress = tx.progress)
    (ht : tx'.progressTimeIndex = tx.progressTimeIndex) : Rowed tx' := by
  constructor
  · intro k p hk
    rw [hp] at hk
    exact h.keyed k p hk
  · intro k p hk
    rw [hp] at hk
    rw [ht]
    exact h.row k p hk

theorem SameReading.rowed {tx tx' : Tx} (h : SameReading tx tx') (hr : Rowed tx) : Rowed tx' :=
  hr.congr h.progress h.times

/-- Dropping records does not cost any other record its row. -/
theorem Rowed.of_subset {tx tx' : Tx} (h : Rowed tx)
    (hsub : ∀ k p, tx'.progress.get k = some p → tx.progress.get k = some p)
    (ht : tx'.progressTimeIndex = tx.progressTimeIndex) : Rowed tx' := by
  constructor
  · intro k p hp
    exact h.keyed k p (hsub k p hp)
  · intro k p hp
    rw [ht]
    exact h.row k p (hsub k p hp)

theorem Timed.rowed {tx : Tx} (h : Timed tx) : Rowed tx where
  keyed := h.keyed
  row := by
    intro k p hp
    obtain ⟨-, hu, hb⟩ := h.keyed k p hp
    rw [h.times]
    refine ⟨p, Bucket.mem_values.mpr ⟨k, hp⟩, ?_⟩
    rw [progressRows_eq hu hb]
    simp

theorem ProgressKeyed.timeKey_ne {tx : Tx} (hk : ProgressKeyed tx) {k : Bytes} {p q : Progress}
    (hq : tx.progress.get k = some q) (hb : WellFormedID p.bookID)
    (hne : progressKey p.userID p.bookID ≠ k) : progressTimeIndexKey p ≠ progressTimeIndexKey q := by
  intro he
  obtain ⟨rfl, -, hqb⟩ := hk k q hq
  obtain ⟨huser, hid, -⟩ := progressTimeIndexKey_inj (nul_notMem hb) (nul_notMem hqb) he
  exact hne (by rw [huser, hid])

theorem forgetProgress_rowed {tx : Tx} (h : Rowed tx) (key : Bytes) :
    Rowed (forgetProgress tx key) := by
  rw [forgetProgress]
  cases hget : tx.progress.get key with
  | none =>
      apply h.congr
      · exact Bucket.delete_of_get_none hget
      · rfl
  | some p =>
      obtain ⟨rfl, hu, hb⟩ := h.keyed key p hget
      simp only [removeProgressFromTimeIndex_rows, progressRows_eq hu hb]
      constructor
      · intro k q hq
        simp only [Bucket.get_delete] at hq
        split at hq
        · cases hq
        · exact h.keyed k q hq
      · intro k q hq
        simp only [Bucket.get_delete] at hq
        split at hq
        · cases hq
        · next hne =>
          simp only [get_deleteRows, List.map_cons, List.map_nil, List.mem_singleton]
          rw [if_neg (h.keyed.timeKey_ne hq hb hne).symm]
          exact h.row k q hq

theorem recordProgress_rowed {tx tx' : Tx} {p : Progress} (h : Rowed tx) (hu : p.userID ≠ [])
    (hb : WellFormedID p.bookID)
    (hr : recordProgress tx (progressKey p.userID p.bookID)
      (tx.progress.get (progressKey p.userID p.bookID)) p = .ok tx') :
    Rowed tx' ∧ ∀ k, tx'.progress.get k =
      if progressKey p.userID p.bookID = k then some p else tx.progress.get k := by
  -- the row of a replaced record may go, those of the other records stay
  have hcleared : ∃ i, supersedeProgress tx (tx.progress.get (progressKey p.userID p.bookID)) p =
        { tx with progressTimeIndex := i } ∧
      ∀ k q, tx.progress.get k = some q → progressKey p.userID p.bookID ≠ k →
        i.get (progressTimeIndexKey q) = some q.bookID := by
    cases hget : tx.progress.get (progressKey p.userID p.bookID) with
    | none => exact ⟨tx.progressTimeIndex, rfl, fun k q hq _ => h.row k q hq⟩
    | some previous =>
        obtain ⟨hk, hpu, hpb⟩ := h.keyed _ previous hget
        simp only [supersedeProgress]
        split
        · exact ⟨tx.progressTimeIndex, rfl, fun k q hq _ => h.row k q hq⟩
        · rw [removeProgressFromTimeIndex_rows, progressRows_eq hpu hpb]
          refine ⟨_, rfl, ?_⟩
          intro k q hq hne
          rw [← hk] at hne
          simp only [get_deleteRows, List.map_cons, List.map_nil, List.mem_singleton]
          rw [if_neg (h.keyed.timeKey_ne hq hpb hne).symm]
          exact h.row k q hq
  obtain ⟨i, hi, hrows⟩ := hcleared
  simp only [recordProgress] at hr
  rw [hi] at hr
  obtain ⟨ps, hps, hr⟩ := bind_eq_ok.mp hr
  rw [addProgressToTimeIndex, if_neg (by rintro (h | h); exacts [hu h, hb.1 h])] at hr
  obtain ⟨t, hstore, hr⟩ := bind_eq_ok.mp hr
  cases hr
  have hget := Bucket.get_put (store_eq_ok.mp hps)
  have htime := Bucket.get_put (store_eq_ok.mp hstore)
  refine ⟨⟨?_, ?_⟩, hget⟩
  · intro k q hq
    change ps.get k = some q at hq
    rw [hget k] at hq
    split at hq
    · next he =>
      cases hq
      exact ⟨he, hu, hb⟩
    · exact h.keyed k q hq
  · intro k q hq
    change ps.get k = some q at hq
    rw [hget k] at hq
    rw [htime]
    split at hq
    · cases hq
      rw [if_pos rfl]
    · next hne =>
      rw [if_neg (h.keyed.timeKey_ne hq hb hne)]
      exact hrows k q hq hne

theorem saveProgressIfCurrent_rowed {tx tx' : Tx} {p : Progress} {u : Bytes} {e : Option Time}
    (hc : Coherent tx) (h : Rowed tx) (hu : u ≠ []) (hs : saveProgressIfCurrent p u e tx = .ok tx') :
    Rowed tx' ∧ ∀ k, tx'.progress.get k =
      if progressKey u p.bookID = k then some { p with userID := u } else tx.progress.get k := by
  rw [saveProgressIfCurrent_eq] at hs
  obtain ⟨b, hown, hs⟩ := bind_eq_ok.mp hs
  obtain ⟨hget, rfl⟩ := ownedBook_eq_ok.mp hown
  simp only at hs
  split at hs
  · cases hs
  · obtain ⟨tx₁, h₁, hs⟩ := bind_eq_ok.mp hs
    obtain ⟨hid, hw⟩ := hc.keyed _ _ hget
    rw [← hid] at hget
    obtain ⟨-, ⟨bs, s, d, rfl⟩, -⟩ := touchBook_ok hc hget hu h₁
    have hr₁ : Rowed { tx with books := bs, bookSortIndex := s, bookCategorySortIndex := d } :=
      h.congr rfl rfl
    have hrecord := recordProgress_rowed (p := { p with userID := b.userID }) hr₁ hu hw hs
    exact hrecord

theorem deleteBookDataInTx_rowed {passed : Bytes → Bool} {tx tx' : Tx} {id u : Bytes} {b : Book}
    (hr : Rowed tx) (h : deleteBookDataInTx passed tx id u = .ok (b, tx')) : Rowed tx' :=
  (deleteBookDataInTx_forgets h).rowed (forgetProgress_rowed hr _)

theorem deleteBookData_rowed {tx tx' : Tx} {id u : Bytes} (hr : Rowed tx)
    (h : deleteBookData id u tx = .ok tx') : Rowed tx' := by
  rw [deleteBookData] at h
  obtain ⟨⟨b, tx₁⟩, h₁, h⟩ := bind_eq_ok.mp h
  cases h
  exact deleteBookDataInTx_rowed hr h₁

theorem deleteBooksData_rowed {passed : Bytes → Bool} {tx tx' : Tx} {ids : List Bytes} {u : Bytes}
    {bs : List Book} (hr : Rowed tx) (h : deleteBooksData ids u passed tx = .ok (bs, tx')) : Rowed tx' := by
  refine foldlM_invariant (fun r : List Book × Tx => Rowed r.2) ?_ hr h
  intro id _ r r' hr hstep
  obtain ⟨⟨b, tx₁⟩, h₁, hstep⟩ := bind_eq_ok.mp hstep
  cases hstep
  exact deleteBookDataInTx_rowed hr h₁

theorem deleteBooksByUser_rowed {tx tx' : Tx} {u : Bytes} (hr : Rowed tx)
    (h : deleteBooksByUser u tx = .ok tx') : Rowed tx' :=
  foldlM_invariant Rowed (fun _ _ _ _ hr hstep => deleteBookData_rowed hr hstep) hr h

theorem deleteProgressByUser_rowed {tx : Tx} (hr : Rowed tx) (u : Bytes) :
    Rowed (deleteProgressByUser u tx) := by
  apply hr.of_subset
  · intro k p hp
    have hrows := get_deleteRows tx.progress
      (tx.progress.entries.filter (fun row => (u ++ [colon]) <+: row.1)) k
    rw [deleteProgressByUser] at hp
    rw [deleteRows] at hrows
    simp only [hrows] at hp
    split at hp
    · cases hp
    · exact hp
  · rfl

theorem Op.transaction_rowed {tx tx' : Tx} {op : Op} (hc : Coherent tx) (hr : Rowed tx)
    (ha : op.Admissible tx) (h : op.transaction tx = .ok tx') : Rowed tx' := by
  cases op with
  | saveBook book => exact (saveBook_reading h).rowed hr
  | createBook book => exact (createBook_reading h).rowed hr
  | deleteBookData id u => exact deleteBookData_rowed hr h
  | deleteBooksData ids u passed =>
      obtain ⟨bs, h⟩ := map_snd_eq_ok h
      exact deleteBooksData_rowed hr h
  | updateBooksCategory ids u c =>
      obtain ⟨bs, h⟩ := map_snd_eq_ok h
      exact (updateBooksCategoryInTx_reading h).rowed hr
  | renameBookCategory u s t =>
      obtain ⟨ids, h⟩ := map_snd_eq_ok h
      exact (renameBookCategory_reading h).rowed hr
  | normalizeBookCategories => exact (normalizeBookCategories_reading h).rowed hr
  | saveProgressIfCurrent p u e => exact (saveProgressIfCurrent_rowed hc hr ha h).1
  | backfillBookContentHashes hs => exact (backfillBookContentHashes_reading h).rowed hr
  | assignUnownedDataToUser u =>
      rcases (assignUnownedDataToUser_rebuilds hr.keyed h).1 with rfl | ht
      · exact hr
      · exact ht.rowed
  | deleteUserData u =>
      obtain ⟨tx₁, h₁, h⟩ := bind_eq_ok.mp h
      cases h
      exact (deleteProgressByUser_rowed (deleteBooksByUser_rowed hr h₁) u).congr rfl rfl
  | purgeUser id =>
      simp only [transaction, Storage.purgeUser] at h
      split at h
      · cases h
      · obtain ⟨tx₁, h₁, h⟩ := bind_eq_ok.mp h
        cases h
        exact (deleteProgressByUser_rowed (deleteBooksByUser_rowed hr h₁) id).congr rfl rfl
  | deleteProgress b u =>
      have he : tx' = forgetProgress tx (progressKey u b) := by
        simp only [transaction, Storage.deleteProgress] at h
        cases h
        rfl
      rw [he]
      exact forgetProgress_rowed hr _
  | saveUser user =>
      simp only [transaction, Storage.saveUser] at h
      obtain ⟨us, -, h⟩ := bind_eq_ok.mp h
      obtain ⟨un, -, h⟩ := bind_eq_ok.mp h
      cases h
      exact hr.congr rfl rfl
  | deleteUser id =>
      simp only [transaction, Storage.deleteUser] at h
      split at h
      · cases h
      · cases h
        exact hr.congr rfl rfl
  | saveBookmark m u =>
      simp only [transaction, Storage.saveBookmark] at h
      obtain ⟨_, -, h⟩ := bind_eq_ok.mp h
      obtain ⟨ms, -, h⟩ := bind_eq_ok.mp h
      cases h
      exact hr.congr rfl rfl
  | deleteBookmark b m u =>
      simp only [transaction, Storage.deleteBookmark] at h
      obtain ⟨_, -, h⟩ := bind_eq_ok.mp h
      split at h
      · cases h
      · cases h
        exact hr.congr rfl rfl

theorem Reached.rowed {db : Tx} (h : Reached db) : Rowed db := by
  have hI : Coherent db ∧ Rowed db := by
    refine h.invariant (fun db => Coherent db ∧ Rowed db) ?_ ?_
    · intro db hdb
      rw [hdb]
      exact ⟨coherent_migrated, timed_migrated.rowed⟩
    · intro db op db' hI hstep
      obtain ⟨ha, rfl⟩ := hstep
      refine ⟨Op.run_coherent hI.1 ha, ?_⟩
      exact Tx.update_induction hI.2 (fun _ h => Op.transaction_rowed hI.1 hI.2 ha h)
  exact hI.2

/-! ## A listing misses nothing -/

theorem compare_digit {a b : Nat} (h : a < b) (hb : b < 10) (x y : Bytes) :
    compare (UInt8.ofNat (48 + a) :: x) (UInt8.ofNat (48 + b) :: y) = .lt := by
  have hdigit : ∀ a b : Fin 10, a < b →
      compare (UInt8.ofNat (48 + a.val)) (UInt8.ofNat (48 + b.val)) = .lt := by decide
  rw [List.compare_cons_cons, hdigit ⟨a, by omega⟩ ⟨b, hb⟩ h]
  rfl

/-- Zero-padded numbers sort like the numbers. -/
theorem compare_padded_append {width m n : Nat} (h : m < n) (hn : n < 10 ^ width) (x y : Bytes) :
    compare (padded width m ++ x) (padded width n ++ y) = .lt := by
  induction width generalizing m n x y with
  | zero => simp only [pow_zero] at hn; omega
  | succ width ih =>
      rw [pow_succ] at hn
      rw [padded, padded, List.append_assoc, List.append_assoc, List.singleton_append,
        List.singleton_append]
      rcases Nat.lt_or_ge (m / 10) (n / 10) with hlt | hge
      · exact ih hlt (by omega) _ _
      · have heq : m / 10 = n / 10 := by omega
        rw [heq, compare_append_left]
        exact compare_digit (by omega) (by omega) x y

theorem progressTimeIndexKey_tail (p : Progress) :
    progressTimeIndexKey p = progressTimeIndexPrefix p.userID ++
      (padded 19 (clampedTimestamp p.updatedAt).toNat ++ nul :: p.bookID) := by
  simp [progressTimeIndexKey]

/-- The row of a change at or after a time comes at or after the probe's key. -/
theorem compare_probe_ne_lt {p : Progress} {since : Time} (hp : p.updatedAt.InRange)
    (hs : since.InRange) (h : since.nanos ≤ p.updatedAt.nanos) :
    compare (progressTimeIndexKey p) (progressTimeIndexKey (probe p.userID since)) ≠ .lt := by
  rw [progressTimeIndexKey_tail, progressTimeIndexKey_tail (probe p.userID since)]
  simp only [probe]
  rw [compare_append_left, clampedTimestamp_of_inRange hp, clampedTimestamp_of_inRange hs]
  rcases eq_or_lt_of_le h with he | hlt
  · rw [he, compare_append_left]
    apply Bucket.compare_ne_lt_of_isPrefix
    exact ⟨p.bookID, rfl⟩
  · have hbelow : since.nanos.toNat < p.updatedAt.nanos.toNat := by have := hs.1; omega
    have hwidth : p.updatedAt.nanos.toNat < 10 ^ 19 := by have := hp.2; omega
    have hlt' := compare_padded_append hbelow hwidth [nul] (nul :: p.bookID)
    rw [OrientedCmp.gt_of_lt hlt']
    simp

theorem mem_listProgress {tx : Tx} (hr : Rowed tx) {k : Bytes} {p : Progress}
    (hp : tx.progress.get k = some p) : p ∈ listProgress tx p.userID := by
  obtain ⟨rfl, -⟩ := hr.keyed k p hp
  rw [listProgress, List.mem_filter, List.mem_map]
  refine ⟨⟨(progressKey p.userID p.bookID, p), ?_, rfl⟩, by simp⟩
  rw [Bucket.mem_seek_self]
  exact ⟨hp, p.bookID, rfl⟩

/-- Every record that is not older than `since` is listed. -/
theorem mem_listProgressUpdatedSince {tx : Tx} (hr : Rowed tx) {k : Bytes} {p : Progress}
    {since : Time} (hp : tx.progress.get k = some p) (ht : p.updatedAt.InRange)
    (hs : since = Time.zero ∨ since.InRange) (h : since.nanos ≤ p.updatedAt.nanos) :
    p ∈ listProgressUpdatedSince tx p.userID since := by
  rw [listProgressUpdatedSince]
  split
  · exact mem_listProgress hr hp
  · next hne =>
    have hs' : since.InRange := hs.resolve_left hne
    obtain ⟨rfl, -⟩ := hr.keyed k p hp
    rw [List.mem_filterMap]
    refine ⟨(progressTimeIndexKey p, p.bookID), ?_, ?_⟩
    · have hprobe : progressTimeIndexPrefix p.userID <+: progressTimeIndexKey (probe p.userID since) := by
        rw [progressTimeIndexKey_tail]
        exact List.prefix_append _ _
      rw [Bucket.mem_seek hprobe, Bucket.mem_entries]
      refine ⟨hr.row _ p hp, compare_probe_ne_lt ht hs' h, ?_⟩
      rw [progressTimeIndexKey_tail]
      exact List.prefix_append _ _
    · rw [hp, Option.filter_some, if_pos]
      simp [Time.before, h]

end ZReader.Storage
