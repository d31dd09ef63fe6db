import ZReader.Storage.ReadingFrame

namespace ZReader.Storage

open Lib.Utf8 Lib.Strings Lib.KeyValue Lib.DerivedIndex Lib.Fallible Lib.Transition

def progressRows (p : Progress) : List (Bytes × Bytes) :=
  if p.userID = [] ∨ p.bookID = [] then [] else [(progressTimeIndexKey p, p.bookID)]

/-- Every progress record is stored under its own key and belongs to an account. -/
def ProgressKeyed (tx : Tx) : Prop :=
  ∀ k p, tx.progress.get k = some p →
    progressKey p.userID p.bookID = k ∧ p.userID ≠ [] ∧ WellFormedID p.bookID

/-- The time index holds one row for each progress record and no other. -/
structure Timed (tx : Tx) : Prop where
  keyed : ProgressKeyed tx
  times : Mirrors progressRows tx.progress.values tx.progressTimeIndex

theorem length_padded (width n : Nat) : (padded width n).length = width := by
  induction width generalizing n with
  | zero => rfl
  | succ width ih => simp [padded, ih]

theorem progressTimeIndexKey_eq (p : Progress) :
    progressTimeIndexKey p =
      (p.userID ++ nul :: padded 19 (clampedTimestamp p.updatedAt).toNat) ++ nul :: p.bookID := by
  simp [progressTimeIndexKey, progressTimeIndexPrefix]

theorem progressTimeIndexKey_inj {p q : Progress} (hp : nul ∉ p.bookID) (hq : nul ∉ q.bookID)
    (h : progressTimeIndexKey p = progressTimeIndexKey q) :
    p.userID = q.userID ∧ p.bookID = q.bookID ∧
      padded 19 (clampedTimestamp p.updatedAt).toNat =
        padded 19 (clampedTimestamp q.updatedAt).toNat := by
  rw [progressTimeIndexKey_eq, progressTimeIndexKey_eq] at h
  obtain ⟨hhead, hid⟩ := append_cons_inj hp hq h
  have hlen : (nul :: padded 19 (clampedTimestamp p.updatedAt).toNat).length =
      (nul :: padded 19 (clampedTimestamp q.updatedAt).toNat).length := by
    rw [List.length_cons, List.length_cons, length_padded, length_padded]
  obtain ⟨huser, htime⟩ := List.append_inj' hhead hlen
  exact ⟨huser, hid, (List.cons_inj_right nul).mp htime⟩

theorem progressRows_eq {p : Progress} (hu : p.userID ≠ []) (hb : WellFormedID p.bookID) :
    progressRows p = [(progressTimeIndexKey p, p.bookID)] := by
  rw [progressRows, if_neg]
  rintro (h | h)
  · exact hu h
  · exact hb.1 h

theorem progressRows_functional (p : Progress) : Functional (progressRows p) := by
  apply functional_of_value (x := p.bookID)
  intro r hr
  rw [progressRows] at hr
  split at hr
  · simp at hr
  · rw [List.mem_singleton] at hr
    rw [hr]

theorem mem_progressRows {p : Progress} {k v : Bytes} (h : (k, v) ∈ progressRows p) :
    progressTimeIndexKey p = k := by
  rw [progressRows] at h
  split at h
  · simp at h
  · rw [List.mem_singleton, Prod.mk.injEq] at h
    exact h.1.symm

theorem ProgressKeyed.separate {tx : Tx} (hk : ProgressKeyed tx) {p : Progress}
    (hb : WellFormedID p.bookID) :
    Separate progressRows p (tx.progress.delete (progressKey p.userID p.bookID)).values := by
  intro s hs k v w hv hw
  obtain ⟨j, hj⟩ := Bucket.mem_values.mp hs
  rw [Bucket.get_delete] at hj
  split at hj
  · cases hj
  · next hne =>
    obtain ⟨rfl, -, hsb⟩ := hk j s hj
    have he := (mem_progressRows hv).trans (mem_progressRows hw).symm
    obtain ⟨huser, hid, -⟩ := progressTimeIndexKey_inj (nul_notMem hb) (nul_notMem hsb) he
    exact hne (by rw [huser, hid])

theorem Timed.congr {tx tx' : Tx} (h : Timed tx) (hp : tx'.progress = tx.progress)
    (ht : tx'.progressTimeIndex = tx.progressTimeIndex) : Timed tx' := by
  constructor
  · intro k p hk
    rw [hp] at hk
    exact h.keyed k p hk
  · rw [hp, ht]
    exact h.times

theorem SameReading.timed {tx tx' : Tx} (h : SameReading tx tx') (ht : Timed tx) : Timed tx' :=
  ht.congr h.progress h.times

/-! ## Forgetting and recording progress -/

/-- Deleting a record together with its row. -/
def forgetProgress (tx : Tx) (key : Bytes) : Tx :=
  let tx := match tx.progress.get key with
    | some progress => removeProgressFromTimeIndex tx progress
    | none => tx
  { tx with progress := tx.progress.delete key }

theorem removeProgressFromTimeIndex_rows (tx : Tx) (p : Progress) :
    removeProgressFromTimeIndex tx p =
      { tx with progressTimeIndex := deleteRows tx.progressTimeIndex (progressRows p) } := by
  rw [removeProgressFromTimeIndex]
  split
  · next h => simp [progressRows, h, deleteRows]
  · next h => simp [progressRows, h, deleteRows]

theorem forgetProgress_progress (tx : Tx) (key : Bytes) :
    (forgetProgress tx key).progress = tx.progress.delete key := by
  rw [forgetProgress]
  split
  · rw [removeProgressFromTimeIndex_rows]
  · rfl

theorem forgetProgress_timed {tx : Tx} (ht : Timed tx) (key : Bytes) :
    Timed (forgetProgress tx key) := by
  rw [forgetProgress]
  cases hget : tx.progress.get key with
  | none =>
      apply ht.congr
      · exact Bucket.delete_of_get_none hget
      · rfl
  | some p =>
      obtain ⟨rfl, hu, hb⟩ := ht.keyed key p hget
      simp only [removeProgressFromTimeIndex_rows]
      constructor
      · intro k q hq
        simp only [Bucket.get_delete] at hq
        split at hq
        · cases hq
        · exact ht.keyed k q hq
      · have hp := ht.times.perm (Bucket.values_perm_of_get hget)
        exact hp.remove (ht.keyed.separate hb)

theorem recordProgress_timed {tx tx' : Tx} {p : Progress} (ht : Timed tx) (hu : p.userID ≠ [])
    (hb : WellFormedID p.bookID)
    (h : recordProgress tx (progressKey p.userID p.bookID)
      (tx.progress.get (progressKey p.userID p.bookID)) p = .ok tx') :
    Timed tx' ∧ ∀ k, tx'.progress.get k =
      if progressKey p.userID p.bookID = k then some p else tx.progress.get k := by
  have hrows := progressRows_eq hu hb
  have hsep := ht.keyed.separate hb
  generalize hkey : progressKey p.userID p.bookID = key at h hsep
  -- Before the new row is written the index follows the other records, or the
  -- replaced record if that has the same row.
  have hcleared : ∃ i, supersedeProgress tx (tx.progress.get key) p =
        { tx with progressTimeIndex := i } ∧
      (Mirrors progressRows (tx.progress.delete key).values i ∨
        Mirrors progressRows (p :: (tx.progress.delete key).values) i) := by
    cases hget : tx.progress.get key with
    | none =>
        refine ⟨tx.progressTimeIndex, rfl, Or.inl ?_⟩
        rw [Bucket.delete_of_get_none hget]
        exact ht.times
    | some previous =>
        obtain ⟨hk, hpu, hpb⟩ := ht.keyed key previous hget
        rw [← hkey, progressKey, progressKey, List.append_assoc, List.append_assoc] at hk
        obtain ⟨hsame, hid⟩ := append_cons_inj (colon_notMem hpb) (colon_notMem hb) hk
        have hp := ht.times.perm (Bucket.values_perm_of_get hget)
        simp only [supersedeProgress]
        split
        · next htime =>
          refine ⟨tx.progressTimeIndex, rfl, Or.inr (hp.congr_head ?_)⟩
          rw [hrows, progressRows_eq hpu hpb, progressTimeIndexKey_eq, progressTimeIndexKey_eq, hsame,
            hid, htime]
        · rw [removeProgressFromTimeIndex_rows]
          refine ⟨_, rfl, Or.inl (hp.remove ?_)⟩
          have := ht.keyed.separate hpb
          rwa [hsame, hid, hkey] at this
  obtain ⟨i, hi, hmirror⟩ := hcleared
  simp only [recordProgress] at h
  rw [hi] at h
  obtain ⟨ps, hps, h⟩ := bind_eq_ok.mp h
  rw [addProgressToTimeIndex, if_neg (by rintro (h | h); exacts [hu h, hb.1 h])] at h
  obtain ⟨t, hstore, h⟩ := bind_eq_ok.mp h
  cases h
  have hget := Bucket.get_put (store_eq_ok.mp hps)
  refine ⟨⟨?_, ?_⟩, hget⟩
  · intro k q hq
    change ps.get k = some q at hq
    rw [hget k] at hq
    split at hq
    · next he =>
      cases hq
      exact ⟨hkey.trans he, hu, hb⟩
    · exact ht.keyed k q hq
  · have hperm := Bucket.values_put_perm (store_eq_ok.mp hps)
    refine Mirrors.perm ?_ hperm.symm
    rcases hmirror with hm | hm
    · refine hm.add (progressRows_functional p) hsep ?_
      rw [hrows]
      exact putRows_singleton hstore
    · refine hm.exchange hsep ?_
      intro k v
      have hput := Bucket.get_put (store_eq_ok.mp hstore) k
      simp only [hput, hrows, List.map_cons, List.map_nil, List.mem_singleton, Prod.mk.injEq]
      by_cases hk : progressTimeIndexKey p = k
      · simp [hk, eq_comm]
      · simp [hk, Ne.symm hk]

theorem saveProgressIfCurrent_timed {tx tx' : Tx} {p : Progress} {u : Bytes} {e : Option Time}
    (hc : Coherent tx) (ht : Timed tx) (hu : u ≠ [])
    (h : saveProgressIfCurrent p u e tx = .ok tx') :
    Timed tx' ∧ ∀ k, tx'.progress.get k =
      if progressKey u p.bookID = k then some { p with userID := u } else tx.progress.get k := by
  rw [saveProgressIfCurrent_eq] at h
  obtain ⟨b, hown, h⟩ := bind_eq_ok.mp h
  obtain ⟨hget, rfl⟩ := ownedBook_eq_ok.mp hown
  simp only at h
  split at h
  · cases h
  · obtain ⟨tx₁, h₁, h⟩ := bind_eq_ok.mp h
    obtain ⟨hid, hw⟩ := hc.keyed _ _ hget
    rw [← hid] at hget
    obtain ⟨-, ⟨bs, s, d, rfl⟩, -⟩ := touchBook_ok hc hget hu h₁
    have ht₁ : Timed { tx with books := bs, bookSortIndex := s, bookCategorySortIndex := d } :=
      ht.congr rfl rfl
    have hrecord := recordProgress_timed (p := { p with userID := b.userID }) ht₁ hu hw h
    exact hrecord

/-! ## Deleting books and accounts -/

theorem dropReadingData_forgets (passed : Bytes → Bool) (tx : Tx) (id u : Bytes) :
    SameReading (forgetProgress tx (progressKey u id)) (dropReadingData passed tx id u) := ⟨rfl, rfl⟩

/-- Deleting a book forgets the owner's progress in it. -/
theorem deleteBookDataInTx_forgets {passed : Bytes → Bool} {tx tx' : Tx} {id u : Bytes} {b : Book}
    (h : deleteBookDataInTx passed tx id u = .ok (b, tx')) :
    SameReading (forgetProgress tx (progressKey u id)) tx' :=
  (dropReadingData_forgets passed tx id u).trans (deleteBookDataInTx_drops h).toSameReading

theorem deleteBookDataInTx_timed {passed : Bytes → Bool} {tx tx' : Tx} {id u : Bytes} {b : Book}
    (ht : Timed tx) (h : deleteBookDataInTx passed tx id u = .ok (b, tx')) :
    Timed tx' ∧ tx'.progress = tx.progress.delete (progressKey u id) := by
  have hforgets := deleteBookDataInTx_forgets h
  refine ⟨hforgets.timed (forgetProgress_timed ht _), ?_⟩
  rw [hforgets.progress, forgetProgress_progress]

theorem deleteBookData_timed {tx tx' : Tx} {id u : Bytes} (ht : Timed tx)
    (h : deleteBookData id u tx = .ok tx') :
    Timed tx' ∧ tx'.progress = tx.progress.delete (progressKey u id) := by
  rw [deleteBookData] at h
  obtain ⟨⟨b, tx₁⟩, h₁, h⟩ := bind_eq_ok.mp h
  cases h
  exact deleteBookDataInTx_timed ht h₁

theorem deleteBooksData_timed {passed : Bytes → Bool} {tx tx' : Tx} {ids : List Bytes} {u : Bytes}
    {bs : List Book} (ht : Timed tx) (h : deleteBooksData ids u passed tx = .ok (bs, tx')) : Timed tx' := by
  refine foldlM_invariant (fun r : List Book × Tx => Timed r.2) ?_ ht h
  intro id _ r r' hr hstep
  obtain ⟨⟨b, tx₁⟩, h₁, hstep⟩ := bind_eq_ok.mp hstep
  cases hstep
  exact (deleteBookDataInTx_timed hr h₁).1

/-- Every progress record filed under the user is the user's own record for a
book that the user still owns. -/
def OwnsProgress (db : Tx) (userID : Bytes) : Prop :=
  ∀ k p, db.progress.get k = some p → (userID ++ [colon]) <+: k →
    p.userID = userID ∧ ∃ b, db.books.get p.bookID = some b ∧ b.userID = userID

theorem afterColon_append {u x : Bytes} (hu : colon ∉ u) : afterColon (u ++ colon :: x) = x := by
  induction u with
  | nil => simp [afterColon]
  | cons c u ih =>
      have hc : c ≠ colon := fun e => hu (by simp [e])
      have htail := ih (fun h => hu (by simp [h]))
      simpa [afterColon, hc] using htail

theorem colon_mem_afterColon {u x : Bytes} (hu : colon ∈ u) : colon ∈ afterColon (u ++ colon :: x) := by
  obtain ⟨v, w, rfl, hv⟩ := List.eq_append_cons_of_mem hu
  rw [List.append_assoc, List.cons_append, afterColon_append hv]
  simp

theorem deleteBooksByUser_timed {tx tx' : Tx} {u : Bytes} (hc : Coherent tx) (ht : Timed tx)
    (h : deleteBooksByUser u tx = .ok tx') :
    Timed tx' ∧ (∀ k p, tx'.progress.get k = some p → tx.progress.get k = some p) ∧
      ∀ id ∈ getBookIDsForUser tx u,
        WellFormedID id ∧ tx'.progress.get (progressKey u id) = none := by
  have hloop : Coherent tx' ∧ Timed tx' ∧
      (∀ k p, tx'.progress.get k = some p → tx.progress.get k = some p) ∧
      ∀ id ∈ getBookIDsForUser tx u,
        WellFormedID id ∧ tx'.progress.get (progressKey u id) = none := by
    refine foldlM_induction (fun pre t => Coherent t ∧ Timed t ∧
      (∀ k p, t.progress.get k = some p → tx.progress.get k = some p) ∧
      ∀ id ∈ pre, WellFormedID id ∧ t.progress.get (progressKey u id) = none) ?_ ?_ h
    · rintro pre id suf - t t' ⟨hct, htt, hsub, hdone⟩ hstep
      obtain ⟨htt', hprogress⟩ := deleteBookData_timed htt hstep
      refine ⟨deleteBookData_coherent hct hstep, htt', ?_, ?_⟩
      · intro k p hp
        rw [hprogress, Bucket.get_delete] at hp
        split at hp
        · cases hp
        · exact hsub k p hp
      · intro j hj
        rw [hprogress, Bucket.get_delete]
        rcases List.mem_append.mp hj with hj | hj
        · obtain ⟨hw, hnone⟩ := hdone j hj
          refine ⟨hw, ?_⟩
          split
          · rfl
          · exact hnone
        · rw [List.mem_singleton] at hj
          subst hj
          refine ⟨?_, if_pos rfl⟩
          rw [deleteBookData] at hstep
          obtain ⟨⟨b, tx₁⟩, h₁, -⟩ := bind_eq_ok.mp hstep
          exact (hct.keyed j b (deleteBookDataInTx_ok hct h₁).1).2
    · exact ⟨hc, ht, fun _ _ hp => hp, by simp⟩
  exact hloop.2

/-- The books of a user are found through the user index. -/
theorem afterColon_mem_getBookIDsForUser {tx : Tx} (hc : Coherent tx) {b : Book} {id : Bytes}
    (hget : tx.books.get id = some b) (hu : b.userID ≠ []) :
    afterColon (b.userID ++ colon :: id) ∈ getBookIDsForUser tx b.userID := by
  obtain ⟨rfl, hw⟩ := hc.keyed id b hget
  have hrow : tx.userBooksIndex.get (userBooksKey b.userID b.id) = some [] := by
    rw [hc.users _ _]
    refine ⟨b, Bucket.mem_values.mpr ⟨b.id, hget⟩, ?_⟩
    simp [userBooksRows, Unindexed, hu, hw.1]
  have hkey : userBooksKey b.userID b.id = b.userID ++ colon :: b.id := by simp [userBooksKey]
  rw [getBookIDsForUser, if_neg hu, List.mem_map]
  refine ⟨(userBooksKey b.userID b.id, []), ?_, by rw [hkey]⟩
  rw [Bucket.mem_seek_self]
  exact ⟨hrow, ⟨b.id, rfl⟩⟩

theorem deleteProgressByUser_timed {tx tx' : Tx} {u : Bytes} (hc : Coherent tx) (ht : Timed tx)
    (hu : u ≠ []) (hown : OwnsProgress tx u) (h : deleteBooksByUser u tx = .ok tx') :
    Timed (deleteProgressByUser u tx') := by
  obtain ⟨ht', hsub, hdone⟩ := deleteBooksByUser_timed hc ht h
  have hnone : tx'.progress.entries.filter (fun row => (u ++ [colon]) <+: row.1) = [] := by
    rw [List.filter_eq_nil_iff]
    rintro ⟨k, p⟩ hmem hpre
    rw [decide_eq_true_eq] at hpre
    have hget := Bucket.mem_entries.mp hmem
    obtain ⟨hpu, b, hb, hbu⟩ := hown k p (hsub k p hget) hpre
    have hmem := afterColon_mem_getBookIDsForUser hc hb (hbu ▸ hu)
    rw [hbu] at hmem
    obtain ⟨hw, hgone⟩ := hdone _ hmem
    by_cases hcolon : colon ∈ u
    · exact colon_notMem hw (colon_mem_afterColon hcolon)
    · rw [afterColon_append hcolon] at hgone
      rw [← (ht'.keyed k p hget).1, hpu, hgone] at hget
      cases hget
  apply ht'.congr
  · rw [deleteProgressByUser, hnone]
    rfl
  · rfl

theorem deleteUserData_timed {tx tx' : Tx} {u : Bytes} (hc : Coherent tx) (ht : Timed tx)
    (hu : u ≠ []) (hown : OwnsProgress tx u) (h : deleteUserData u tx = .ok tx') : Timed tx' := by
  rw [deleteUserData] at h
  obtain ⟨tx₁, h₁, h⟩ := bind_eq_ok.mp h
  cases h
  exact (deleteProgressByUser_timed hc ht hu hown h₁).congr rfl rfl

theorem purgeUser_timed {tx tx' : Tx} {id : Bytes} (hc : Coherent tx) (ht : Timed tx)
    (hu : id ≠ []) (hown : OwnsProgress tx id) (h : purgeUser id tx = .ok tx') : Timed tx' := by
  rw [purgeUser] at h
  split at h
  · cases h
  · obtain ⟨tx₁, h₁, h⟩ := bind_eq_ok.mp h
    cases h
    exact (deleteProgressByUser_timed hc ht hu hown h₁).congr rfl rfl

/-! ## Rebuilding the time index -/

theorem ProgressKeyed.nodup {tx : Tx} (hk : ProgressKeyed tx) :
    (tx.progress.values.map (fun p => progressKey p.userID p.bookID)).Nodup := by
  have he : tx.progress.values.map (fun p => progressKey p.userID p.bookID) =
      tx.progress.entries.map Prod.fst := by
    rw [Bucket.values, List.map_map]
    apply List.map_congr_left
    intro r hr
    exact (hk r.1 r.2 (Bucket.mem_entries.mp hr)).1
  rw [he]
  exact tx.progress.keys_nodup

theorem ProgressKeyed.of_mem {tx : Tx} (hk : ProgressKeyed tx) {p : Progress}
    (hp : p ∈ tx.progress.values) : p.userID ≠ [] ∧ WellFormedID p.bookID := by
  obtain ⟨k, hget⟩ := Bucket.mem_values.mp hp
  exact (hk k p hget).2

theorem rebuildProgressTimeIndex_mirrors {tx tx' : Tx} (hk : ProgressKeyed tx)
    (h : rebuildProgressTimeIndex tx = .ok tx') :
    ∃ t, tx' = { tx with progressTimeIndex := t } ∧ Mirrors progressRows tx.progress.values t := by
  refine foldlM_induction (fun pre t => ∃ i, t = { tx with progressTimeIndex := i } ∧
    Mirrors progressRows pre i) ?_ ⟨.empty, rfl, mirrors_nil _⟩ h
  rintro pre p suf he t t' ⟨i, rfl, hi⟩ hstep
  have hmem : p ∈ tx.progress.values := by rw [he]; simp
  obtain ⟨hu, hb⟩ := hk.of_mem hmem
  have hsep : Separate progressRows p pre := by
    intro s hs k v w hv hw
    have hs' : s ∈ tx.progress.values := by rw [he]; simp [hs]
    have hkey := (mem_progressRows hv).trans (mem_progressRows hw).symm
    obtain ⟨huser, hid, -⟩ :=
      progressTimeIndexKey_inj (nul_notMem hb) (nul_notMem (hk.of_mem hs').2) hkey
    have hn := hk.nodup
    rw [he, List.map_append, List.map_cons, List.nodup_append] at hn
    refine hn.2.2 _ (List.mem_map_of_mem hs) (progressKey p.userID p.bookID) (by simp) ?_
    rw [huser, hid]
  rw [addProgressToTimeIndex, if_neg (by rintro (h | h); exacts [hu h, hb.1 h])] at hstep
  obtain ⟨j, hj, hstep⟩ := bind_eq_ok.mp hstep
  cases hstep
  refine ⟨j, rfl, Mirrors.perm ?_ (List.perm_append_singleton p pre).symm⟩
  refine hi.add (progressRows_functional p) hsep ?_
  rw [progressRows_eq hu hb]
  exact putRows_singleton hj

theorem rebuildProgressTimeIndex_timed {tx : Tx} (ht : Timed tx) :
    rebuildProgressTimeIndex tx = .ok tx := by
  have htotal : ∃ tx', rebuildProgressTimeIndex tx = .ok tx' := by
    refine foldlM_total (fun _ => True) ?_ trivial
    intro p hp t _
    obtain ⟨hu, hb⟩ := ht.keyed.of_mem hp
    have hvalid : ValidKey (progressTimeIndexKey p) := by
      refine ht.times.valid hp (progressTimeIndexKey p, p.bookID) ?_
      rw [progressRows_eq hu hb]
      simp
    obtain ⟨i, hi⟩ := store_of_valid t.progressTimeIndex hvalid p.bookID
    refine ⟨{ t with progressTimeIndex := i }, ?_, trivial⟩
    rw [addProgressToTimeIndex, if_neg (by rintro (h | h); exacts [hu h, hb.1 h])]
    exact bind_eq_ok.mpr ⟨i, hi, rfl⟩
  obtain ⟨tx', h⟩ := htotal
  obtain ⟨i, rfl, hi⟩ := rebuildProgressTimeIndex_mirrors ht.keyed h
  rw [h, hi.unique ht.times]

theorem assignUnownedProgress_timed {tx : Tx} (hk : ProgressKeyed tx) (u : Bytes) :
    assignUnownedProgress u tx = .ok tx := by
  have hnone : tx.progress.entries.filter (fun row => row.2.userID = []) = [] := by
    rw [List.filter_eq_nil_iff]
    rintro ⟨k, p⟩ hmem hempty
    rw [decide_eq_true_eq] at hempty
    exact (hk k p (Bucket.mem_entries.mp hmem)).2.1 hempty
  rw [assignUnownedProgress, hnone]
  rfl

theorem assignUnownedBooks_progress {tx tx' : Tx} {u : Bytes}
    (h : assignUnownedBooks u tx = .ok tx') : tx'.progress = tx.progress := by
  refine foldlM_invariant (fun t => t.progress = tx.progress) ?_ rfl h
  intro r _ t t' ht hstep
  split at hstep
  · cases hstep
    exact ht
  · obtain ⟨bs, -, hstep⟩ := bind_eq_ok.mp hstep
    obtain ⟨t₁, h₁, hstep⟩ := bind_eq_ok.mp hstep
    rw [(addBookToSortIndex_frame hstep).progress, (addBookToUserIndex_reading h₁).progress]
    exact ht

theorem assignUnownedDataToUser_rebuilds {tx tx' : Tx} {u : Bytes} (hk : ProgressKeyed tx)
    (h : assignUnownedDataToUser u tx = .ok tx') :
    (tx' = tx ∨ Timed tx') ∧ tx'.progress = tx.progress := by
  simp only [assignUnownedDataToUser] at h
  split at h
  · cases h
    exact ⟨Or.inl rfl, rfl⟩
  · obtain ⟨tx₁, h₁, h⟩ := bind_eq_ok.mp h
    obtain ⟨tx₂, h₂, h⟩ := bind_eq_ok.mp h
    obtain ⟨tx₃, h₃, h⟩ := bind_eq_ok.mp h
    obtain ⟨tx₄, h₄, h⟩ := bind_eq_ok.mp h
    obtain ⟨tx₅, h₅, h⟩ := bind_eq_ok.mp h
    obtain ⟨tx₆, h₆, h⟩ := bind_eq_ok.mp h
    obtain ⟨tx₇, h₇, h⟩ := bind_eq_ok.mp h
    obtain ⟨tx₈, h₈, h⟩ := bind_eq_ok.mp h
    obtain ⟨tx₉, h₉, h⟩ := bind_eq_ok.mp h
    have hp₁ : tx₁.progress = tx.progress := assignUnownedBooks_progress h₁
    have hk₁ : ProgressKeyed tx₁ := by
      intro k p hp
      rw [hp₁] at hp
      exact hk k p hp
    rw [assignUnownedProgress_timed hk₁] at h₂
    cases h₂
    obtain ⟨bs, he, -⟩ := migrateBookCategories_ok h₃
    have hp₃ : tx₃.progress = tx₁.progress := by rw [he]
    have hs := ((rebuildBookSortIndex_frame h₄).trans (rebuildBookSearchIndex_frame h₅)).trans
      (rebuildBookSearchGramIndex_frame h₆)
    obtain ⟨c, m, he₇⟩ := rebuildBookContentIndex_ok h₇
    have hp₇ : tx₇.progress = tx₆.progress := by rw [he₇]
    have hp₈ : tx₈.progress = tx₁.progress := by
      rw [(rebuildLibrarySummaryIndex_frame h₈).progress, hp₇, hs.progress, hp₃]
    have hk₈ : ProgressKeyed tx₈ := by
      intro k p hk
      rw [hp₈] at hk
      exact hk₁ k p hk
    obtain ⟨i, rfl, hi⟩ := rebuildProgressTimeIndex_mirrors hk₈ h₉
    have hr := (rebuildMissingBookHashIndex_frame h).reading
    exact ⟨Or.inr (hr.timed ⟨hk₈, hi⟩), hr.progress.trans (hp₈.trans hp₁)⟩

theorem assignUnownedDataToUser_timed {tx tx' : Tx} {u : Bytes} (ht : Timed tx)
    (h : assignUnownedDataToUser u tx = .ok tx') :
    Timed tx' ∧ tx'.progress = tx.progress := by
  obtain ⟨hor, hp⟩ := assignUnownedDataToUser_rebuilds ht.keyed h
  rcases hor with rfl | ht'
  · exact ⟨ht, hp⟩
  · exact ⟨ht', hp⟩

/-! ## Whole runs -/

theorem timed_migrated : Timed .migrated where
  keyed := by
    intro k p h
    simp [Tx.migrated] at h
  times := by
    simp only [Tx.migrated, Bucket.values_empty]
    exact mirrors_nil _

/-- An account is deleted only while it holds no progress of books that it has
lost to another owner. -/
def Op.Orderly (db : Tx) : Op → Prop
  | .deleteUserData userID => userID ≠ [] ∧ OwnsProgress db userID
  | .purgeUser id => id ≠ [] ∧ OwnsProgress db id
  | _ => True

theorem Op.transaction_timed {tx tx' : Tx} {op : Op} (hc : Coherent tx) (ht : Timed tx)
    (ha : op.Admissible tx) (ho : op.Orderly tx) (h : op.transaction tx = .ok tx') : Timed tx' := by
  cases op with
  | saveBook book => exact (saveBook_reading h).timed ht
  | createBook book => exact (createBook_reading h).timed ht
  | deleteBookData id u => exact (deleteBookData_timed ht h).1
  | deleteBooksData ids u passed =>
      obtain ⟨bs, h⟩ := map_snd_eq_ok h
      exact deleteBooksData_timed ht h
  | updateBooksCategory ids u c =>
      obtain ⟨bs, h⟩ := map_snd_eq_ok h
      exact (updateBooksCategoryInTx_reading h).timed ht
  | renameBookCategory u s t =>
      obtain ⟨ids, h⟩ := map_snd_eq_ok h
      exact (renameBookCategory_reading h).timed ht
  | normalizeBookCategories => exact (normalizeBookCategories_reading h).timed ht
  | saveProgressIfCurrent p u e => exact (saveProgressIfCurrent_timed hc ht ha h).1
  | backfillBookContentHashes hs => exact (backfillBookContentHashes_reading h).timed ht
  | assignUnownedDataToUser u => exact (assignUnownedDataToUser_timed ht h).1
  | deleteUserData u => exact deleteUserData_timed hc ht ho.1 ho.2 h
  | purgeUser id => exact purgeUser_timed hc ht ho.1 ho.2 h
  | deleteProgress b u =>
      have he : tx' = forgetProgress tx (progressKey u b) := by
        simp only [transaction, Storage.deleteProgress] at h
        cases h
        rfl
      rw [he]
      exact forgetProgress_timed ht _
  | saveUser user =>
      simp only [transaction, Storage.saveUser] at h
      obtain ⟨us, -, h⟩ := bind_eq_ok.mp h
      obtain ⟨un, -, h⟩ := bind_eq_ok.mp h
      cases h
      exact ht.congr rfl rfl
  | deleteUser id =>
      simp only [transaction, Storage.deleteUser] at h
      split at h
      · cases h
      · cases h
        exact ht.congr rfl rfl
  | saveBookmark m u =>
      simp only [transaction, Storage.saveBookmark] at h
      obtain ⟨_, -, h⟩ := bind_eq_ok.mp h
      obtain ⟨ms, -, h⟩ := bind_eq_ok.mp h
      cases h
      exact ht.congr rfl rfl
  | deleteBookmark b m u =>
      simp only [transaction, Storage.deleteBookmark] at h
      obtain ⟨_, -, h⟩ := bind_eq_ok.mp h
      split at h
      · cases h
      · cases h
        exact ht.congr rfl rfl

def Op.OrderlyStep (db : Tx) (op : Op) (db' : Tx) : Prop := op.Step db db' ∧ op.Orderly db

theorem orderly_run {db : Tx} (h : Reachable (· = Tx.migrated) Op.OrderlyStep db) (op : Op)
    (ha : op.Admissible db) (ho : op.Orderly db) :
    Reachable (· = Tx.migrated) Op.OrderlyStep (op.run db) := .next (a := op) h ⟨⟨ha, rfl⟩, ho⟩

theorem orderly_coherent_timed {db : Tx} (h : Reachable (· = Tx.migrated) Op.OrderlyStep db) :
    Coherent db ∧ Timed db := by
  refine h.invariant (fun db => Coherent db ∧ Timed db) ?_ ?_
  · intro db hdb
    rw [hdb]
    exact ⟨coherent_migrated, timed_migrated⟩
  · intro db op db' hI hstep
    obtain ⟨⟨ha, rfl⟩, ho⟩ := hstep
    refine ⟨Op.run_coherent hI.1 ha, ?_⟩
    exact Tx.update_induction hI.2 (fun _ h => Op.transaction_timed hI.1 hI.2 ha ho h)

/-- The time index holds exactly one row per progress record, and a rebuild
changes nothing. -/
def TimesMirrored (db : Tx) : Prop :=
  rebuildProgressTimeIndex db = .ok db ∧
    (db.progress.values.map progressTimeIndexKey).Nodup ∧
    ∀ k v, db.progressTimeIndex.get k = some v ↔
      ∃ p ∈ db.progress.values, progressTimeIndexKey p = k ∧ p.bookID = v

theorem Timed.mirrored {db : Tx} (ht : Timed db) : TimesMirrored db := by
  refine ⟨rebuildProgressTimeIndex_timed ht, ?_, ?_⟩
  · have hn := ht.keyed.nodup
    rw [List.nodup_iff_pairwise_ne, List.pairwise_map] at hn ⊢
    refine hn.imp_of_mem ?_
    intro p q hp hq hne he
    obtain ⟨huser, hid, -⟩ := progressTimeIndexKey_inj (nul_notMem (ht.keyed.of_mem hp).2)
      (nul_notMem (ht.keyed.of_mem hq).2) he
    exact hne (by rw [huser, hid])
  · intro k v
    rw [ht.times k v]
    apply exists_congr
    intro p
    apply and_congr_right
    intro hp
    obtain ⟨hu, hb⟩ := ht.keyed.of_mem hp
    rw [progressRows_eq hu hb, List.mem_singleton, Prod.mk.injEq, eq_comm, eq_comm (a := v)]

/-- In a run that deletes accounts only when they hold no progress of lost books,
every state mirrors the progress records. -/
theorem orderly_timesMirrored {db : Tx} (h : Reachable (· = Tx.migrated) Op.OrderlyStep db) :
    TimesMirrored db := (orderly_coherent_timed h).2.mirrored

def sampleProgress : Progress where
  bookID := ascii "b"
  userID := ascii "u"
  cfi := ascii "c"
  percentage := 0
  deviceID := []
  updatedAt := ⟨10 ^ 18⟩

def uploaded : Tx := (Op.createBook sampleBook).run .migrated

theorem createBook_admissible : (Op.createBook sampleBook).Admissible .migrated := by
  refine ⟨by decide, ?_⟩
  simp [Tx.migrated]

theorem uploaded_reached : Reached uploaded :=
  Reached.run (.start rfl) (.createBook sampleBook) createBook_admissible

theorem uploaded_orderly : Reachable (· = Tx.migrated) Op.OrderlyStep uploaded :=
  orderly_run (.start rfl) (.createBook sampleBook) createBook_admissible trivial

theorem uploaded_unread (k : Bytes) : uploaded.progress.get k = none :=
  Bucket.get_of_isEmpty (by decide +kernel) k

instance (db : Tx) (userID : Bytes) : Decidable (OwnsProgress db userID) :=
  decidable_of_iff (∀ row ∈ db.progress.entries, (userID ++ [colon]) <+: row.1 →
      row.2.userID = userID ∧ (db.books.get row.2.bookID).any (·.userID = userID) = true)
    (by simp [OwnsProgress, Bucket.mem_entries, Option.any_eq_true])

/-- Two readers, each with a book and its progress. -/
def readers : Tx :=
  (Op.saveProgressIfCurrent { sampleProgress with bookID := ascii "c" } (ascii "v") none).run
    ((Op.createBook { sampleBook with id := ascii "c", userID := ascii "v" }).run
      ((Op.saveProgressIfCurrent sampleProgress (ascii "u") none).run uploaded))

theorem readers_orderly : Reachable (· = Tx.migrated) Op.OrderlyStep readers := by
  have hread := orderly_run uploaded_orderly (.saveProgressIfCurrent sampleProgress (ascii "u") none)
    (by decide : ascii "u" ≠ []) trivial
  have hother := orderly_run hread (.createBook { sampleBook with id := ascii "c", userID := ascii "v" })
    ⟨by decide, Option.isNone_iff_eq_none.mp (by decide +kernel)⟩ trivial
  exact orderly_run hother
    (.saveProgressIfCurrent { sampleProgress with bookID := ascii "c" } (ascii "v") none)
    (by decide : ascii "v" ≠ []) trivial

/-- The data of one of two readers is deleted, and the record of the other one keeps its row. -/
theorem orderly_deleteUserData :
    readers.progress.values.length = 2 ∧
      ((Op.deleteUserData (ascii "u")).run readers).progress.values.length = 1 ∧
        TimesMirrored ((Op.deleteUserData (ascii "u")).run readers) :=
  ⟨by decide +kernel, by decide +kernel,
    orderly_timesMirrored (orderly_run readers_orderly (.deleteUserData (ascii "u")) trivial
      ⟨by decide, by decide +kernel⟩)⟩

/-- The book changes hands between reading and the deletion of the first owner. -/
def abandoned : Tx :=
  (Op.deleteUserData (ascii "u")).run
    ((Op.saveBook { sampleBook with userID := ascii "v" }).run
      ((Op.saveProgressIfCurrent sampleProgress (ascii "u") none).run uploaded))

theorem abandoned_reached : Reached abandoned := by
  have hread := uploaded_reached.run (.saveProgressIfCurrent sampleProgress (ascii "u") none)
    (by decide : ascii "u" ≠ [])
  have hmoved := hread.run (.saveBook { sampleBook with userID := ascii "v" })
    (by decide : WellFormedID sampleBook.id)
  exact hmoved.run (.deleteUserData (ascii "u")) trivial

/-- A transfer followed by the deletion of the former owner's data leaves a row
without a record. -/
theorem reached_stale_row : ∃ db, Reached db ∧ ¬ TimesMirrored db := by
  refine ⟨abandoned, abandoned_reached, ?_⟩
  have hrun : ((abandoned.progressTimeIndex.get (progressTimeIndexKey sampleProgress)).isSome &&
      abandoned.progress.values.isEmpty) = true := by decide +kernel
  rw [Bool.and_eq_true, Option.isSome_iff_exists, List.isEmpty_iff] at hrun
  obtain ⟨⟨v, hrow⟩, hnone⟩ := hrun
  intro hm
  obtain ⟨p, hp, -⟩ := (hm.2.2 _ v).mp hrow
  rw [hnone] at hp
  simp at hp

end ZReader.Storage
