import ZReader.Storage.Reading

namespace ZReader.Storage

open Lib.Utf8 Lib.Strings Lib.KeyValue Lib.DerivedIndex Lib.Fallible Std

/-! ## Normalising the stored categories -/

def withNormalCategory (b : Book) : Book := { b with category := normalizeCategoryName b.category }

/-- The rows of an entry list that has been handled up to a point. -/
theorem key_notMem_of_entries {V : Type} {b : Bucket V} {pre suf : List (Bytes × V)} {r : Bytes × V}
    (h : b.entries = pre ++ r :: suf) : r.1 ∉ pre.map Prod.fst := by
  have hn := b.keys_nodup
  rw [h, List.map_append, List.map_cons, List.nodup_append] at hn
  intro hm
  exact hn.2.2 r.1 hm r.1 (by simp) rfl

theorem get_of_entries {V : Type} {b : Bucket V} {pre suf : List (Bytes × V)} {r : Bytes × V}
    (h : b.entries = pre ++ r :: suf) : b.get r.1 = some r.2 := by
  apply Bucket.mem_entries.mp
  simp [h]

/-- A loop over the stored books that rewrites each record in its turn. -/
theorem foldlM_rewrite {step : Tx → Bytes × Book → Result Tx} {f : Book → Book} {tx tx' : Tx}
    (hstep : ∀ (t : Tx) r t', t.books.get r.1 = some r.2 → step t r = .ok t' →
      ∀ k, t'.books.get k = if r.1 = k then some (f r.2) else t.books.get k)
    (h : tx.books.entries.foldlM step tx = .ok tx') (k : Bytes) :
    tx'.books.get k = (tx.books.get k).map f := by
  have hloop : ∀ k, tx'.books.get k = if k ∈ tx.books.entries.map Prod.fst
      then (tx.books.get k).map f else tx.books.get k := by
    refine foldlM_induction (fun pre t => ∀ k, t.books.get k = if k ∈ pre.map Prod.fst
      then (tx.books.get k).map f else tx.books.get k) ?_ ?_ h
    · intro pre r suf he t t' hI hr k
      have hget := get_of_entries he
      have hunread := key_notMem_of_entries he
      rw [hstep t r t' (by rw [hI, if_neg hunread, hget]) hr k]
      have hmem : k ∈ (pre ++ [r]).map Prod.fst ↔ k ∈ pre.map Prod.fst ∨ r.1 = k := by
        rw [List.map_append, List.mem_append, List.map_singleton, List.mem_singleton, eq_comm (a := k)]
      by_cases hk : r.1 = k
      · rw [if_pos hk, if_pos (hmem.mpr (Or.inr hk)), ← hk, hget, Option.map_some]
      · simp only [hmem, hk, or_false, if_false, hI]
    · intro k
      simp
  rw [hloop k]
  split
  · rfl
  · next hk =>
    cases hget : tx.books.get k with
    | none => rfl
    | some b => exact absurd (List.mem_map_of_mem (Bucket.mem_entries.mpr hget)) hk

theorem migrateBookCategories_ok {tx tx' : Tx} (h : migrateBookCategories tx = .ok tx') :
    ∃ bs, tx' = { tx with books := bs } ∧
      ∀ k, bs.get k = (tx.books.get k).map withNormalCategory := by
  have hrows : ∃ bs, tx' = { tx with books := bs } := by
    refine foldlM_invariant (fun t => ∃ bs, t = { tx with books := bs }) ?_ ⟨tx.books, rfl⟩ h
    rintro r _ t t' ⟨bs, rfl⟩ hstep
    simp only at hstep
    split at hstep
    · cases hstep
      exact ⟨bs, rfl⟩
    · obtain ⟨cs, -, hstep⟩ := bind_eq_ok.mp hstep
      cases hstep
      exact ⟨cs, rfl⟩
  have hbooks : ∀ k, tx'.books.get k = (tx.books.get k).map withNormalCategory := by
    refine foldlM_rewrite ?_ h
    intro t r t' hget hstep k
    simp only at hstep
    split at hstep
    · next hsame =>
      cases hstep
      split
      · next hk => rw [← hk, hget, withNormalCategory, ← hsame]
      · rfl
    · obtain ⟨cs, hcs, hstep⟩ := bind_eq_ok.mp hstep
      cases hstep
      exact Bucket.get_put (store_eq_ok.mp hcs) k
  obtain ⟨bs, rfl⟩ := hrows
  exact ⟨bs, rfl, hbooks⟩

theorem Keyed.normalize {tx : Tx} {bs : Bucket Book} (hk : Keyed tx)
    (h : ∀ k, bs.get k = (tx.books.get k).map withNormalCategory) :
    Keyed { tx with books := bs } := by
  intro k b hb
  change bs.get k = some b at hb
  rw [h k, Option.map_eq_some_iff] at hb
  obtain ⟨c, hc, rfl⟩ := hb
  exact hk k c hc

/-- Indexes that do not look at the category carry over. -/
theorem Mirrors.normalize {rows : Book → List (Bytes × Bytes)} {b c : Bucket Book}
    {idx : Bucket Bytes} (hm : Mirrors rows b.values idx)
    (hrows : ∀ b, rows (withNormalCategory b) = rows b)
    (h : ∀ k, c.get k = (b.get k).map withNormalCategory) : Mirrors rows c.values idx := by
  intro k v
  rw [hm k v]
  constructor
  · rintro ⟨r, hr, hv⟩
    obtain ⟨j, hj⟩ := Bucket.mem_values.mp hr
    refine ⟨withNormalCategory r, Bucket.mem_values.mpr ⟨j, by rw [h, hj]; rfl⟩, ?_⟩
    rw [hrows]
    exact hv
  · rintro ⟨r, hr, hv⟩
    obtain ⟨j, hj⟩ := Bucket.mem_values.mp hr
    rw [h, Option.map_eq_some_iff] at hj
    obtain ⟨r, hj, rfl⟩ := hj
    rw [hrows] at hv
    exact ⟨r, Bucket.mem_values.mpr ⟨j, hj⟩, hv⟩

theorem normalizeBookCategories_coherent {tx tx' : Tx} (hc : Coherent tx)
    (h : normalizeBookCategories tx = .ok tx') : Coherent tx' := by
  rw [normalizeBookCategories] at h
  obtain ⟨tx₁, h₁, h⟩ := bind_eq_ok.mp h
  obtain ⟨tx₂, h₂, h⟩ := bind_eq_ok.mp h
  obtain ⟨tx₃, h₃, h⟩ := bind_eq_ok.mp h
  obtain ⟨tx₄, h₄, h⟩ := bind_eq_ok.mp h
  obtain ⟨-, c, hcat, -⟩ := hc.listed.sort
  obtain ⟨-, d, hcounts, -⟩ := hc.listed.gram
  obtain ⟨e, hbacklog, hm⟩ := hc.listed.missing
  obtain ⟨bs, rfl, hbs⟩ := migrateBookCategories_ok h₁
  have hk : Keyed { tx with books := bs } := hc.keyed.normalize hbs
  have hu : Mirrors userBooksRows bs.values tx.userBooksIndex :=
    Mirrors.normalize hc.users (fun _ => rfl) hbs
  have hmiss : Mirrors missingRows bs.values e := Mirrors.normalize hm (fun _ => rfl) hbs
  obtain ⟨s, d, rfl, hsort⟩ := rebuildBookSortIndex_ok hk (by simp [hcat]) h₂
  simp only at h₃ hsort
  obtain ⟨v, rfl, hsearch⟩ := rebuildBookSearchIndex_ok (by exact hk) h₃
  simp only at h₄ hsearch
  obtain ⟨g, n, rfl, hgram⟩ := rebuildBookSearchGramIndex_ok (by exact hk) (by simp [hcounts]) h₄
  simp only at h hgram
  obtain ⟨s₁, rfl, hsum⟩ := rebuildLibrarySummaryIndex_ok (by exact hk) h
  exact ⟨hk, hu, hsort, hsearch, hgram, ⟨e, hbacklog, hmiss⟩, hsum⟩

/-! ## Assigning what has no owner -/

/-- What the rebuilds of an assignment start from. -/
structure Rebuildable (tx : Tx) : Prop where
  keyed : Keyed tx
  users : UserCoherent tx.books.values tx
  categories : tx.bookCategorySortIndex.isSome
  counts : tx.bookSearchGramCounts.isSome

theorem Coherent.rebuildable {tx : Tx} (h : Coherent tx) : Rebuildable tx := by
  obtain ⟨-, c, hc, -⟩ := h.listed.sort
  obtain ⟨-, d, hd, -⟩ := h.listed.gram
  exact ⟨h.keyed, h.users, by simp [hc], by simp [hd]⟩

theorem assignUnownedBooks_ok {tx tx' : Tx} {u : Bytes} (hr : Rebuildable tx)
    (h : assignUnownedBooks u tx = .ok tx') : Rebuildable tx' := by
  refine (foldlM_induction (fun pre t => Rebuildable t ∧
    ∀ r ∈ tx.books.entries, r.1 ∉ pre.map Prod.fst → t.books.get r.1 = some r.2) ?_ ?_ h).1
  · rintro pre r suf he t t' ⟨hI, hrest⟩ hstep
    have hrows : ∀ q ∈ tx.books.entries, q.1 ∉ (pre ++ [r]).map Prod.fst →
        q.1 ∉ pre.map Prod.fst ∧ r.1 ≠ q.1 := by
      intro q _ hq
      rw [List.map_append, List.mem_append, not_or, List.map_singleton, List.mem_singleton] at hq
      exact ⟨hq.1, Ne.symm hq.2⟩
    split at hstep
    · cases hstep
      exact ⟨hI, fun q hq hn => hrest q hq (hrows q hq hn).1⟩
    · next hunowned =>
      have hget : t.books.get r.1 = some r.2 :=
        hrest r (by rw [he]; simp) (key_notMem_of_entries he)
      obtain ⟨hid, hw⟩ := hI.keyed _ _ hget
      obtain ⟨bs, hbs, hstep⟩ := bind_eq_ok.mp hstep
      obtain ⟨t₁, h₁, hstep⟩ := bind_eq_ok.mp hstep
      rw [← hid] at hget hbs hw
      have hf : Fresh { r.2 with userID := u } (t.books.delete r.2.id).values := hI.keyed.fresh hw
      have huser₀ : UserCoherent (t.books.delete r.2.id).values { t with books := bs } := by
        have hp := Mirrors.perm hI.users (Bucket.values_perm_of_get hget)
        intro k v
        rw [hp k v]
        simp [userBooksRows, Unindexed, not_not.mp hunowned]
      obtain ⟨i, rfl, hi⟩ := huser₀.add hf h₁
      obtain ⟨c, hc⟩ := Option.isSome_iff_exists.mp hI.categories
      obtain ⟨s, d, rfl, -, -⟩ := addBookToSortIndex_ok (by exact hc) hstep
      have hp : bs.values.Perm ({ r.2 with userID := u } :: (t.books.delete r.2.id).values) :=
        Bucket.values_put_perm (store_eq_ok.mp hbs)
      refine ⟨⟨hI.keyed.put (b := { r.2 with userID := u }) hw hbs, Mirrors.perm hi hp.symm, rfl,
        hI.counts⟩, ?_⟩
      intro q hq hn
      obtain ⟨hq', hne⟩ := hrows q hq hn
      have hput := Bucket.get_put (store_eq_ok.mp hbs) q.1
      rw [if_neg (by rw [hid]; exact hne)] at hput
      exact hput.trans (hrest q hq hq')
  · exact ⟨hr, fun r hm _ => Bucket.mem_entries.mp hm⟩

theorem assignUnownedProgress_ok {tx tx' : Tx} {u : Bytes}
    (h : assignUnownedProgress u tx = .ok tx') : ∃ p, tx' = { tx with progress := p } := by
  refine foldlM_invariant (fun t => ∃ p, t = { tx with progress := p }) ?_ ⟨_, rfl⟩ h
  rintro r _ t t' ⟨p, rfl⟩ hstep
  obtain ⟨q, -, hstep⟩ := bind_eq_ok.mp hstep
  cases hstep
  exact ⟨q, rfl⟩

theorem trackMissingBookHash_ok {tx tx' : Tx} {b : Book} (h : trackMissingBookHash tx b = .ok tx') :
    ∃ m, tx' = { tx with bookMissingHashIndex := m } := by
  rw [trackMissingBookHash] at h
  split at h
  · cases h
    exact ⟨_, rfl⟩
  · split at h
    · cases h
      exact ⟨_, rfl⟩
    · simp only at h
      split at h
      · cases h
        exact ⟨_, rfl⟩
      · obtain ⟨m, -, h⟩ := bind_eq_ok.mp h
        cases h
        exact ⟨_, rfl⟩

theorem rebuildBookContentIndex_ok {tx tx' : Tx} (h : rebuildBookContentIndex tx = .ok tx') :
    ∃ c m, tx' = { tx with bookContentIndex := c, bookMissingHashIndex := m } := by
  refine foldlM_invariant
    (fun t => ∃ c m, t = { tx with bookContentIndex := c, bookMissingHashIndex := m }) ?_ ?_ h
  · rintro b _ t t' ⟨c, m, rfl⟩ hstep
    split at hstep
    · cases hstep
      exact ⟨c, m, rfl⟩
    · obtain ⟨c', t₁, ht, rfl⟩ := addBookToContentIndex_ok hstep
      obtain ⟨m', rfl⟩ := trackMissingBookHash_ok ht
      exact ⟨c', m', rfl⟩
  · exact ⟨_, _, rfl⟩

theorem addProgressToTimeIndex_ok {tx tx' : Tx} {p : Progress}
    (h : addProgressToTimeIndex tx p = .ok tx') : ∃ t, tx' = { tx with progressTimeIndex := t } := by
  rw [addProgressToTimeIndex] at h
  split at h
  · cases h
    exact ⟨_, rfl⟩
  · obtain ⟨t, -, h⟩ := bind_eq_ok.mp h
    cases h
    exact ⟨t, rfl⟩

theorem rebuildProgressTimeIndex_ok {tx tx' : Tx} (h : rebuildProgressTimeIndex tx = .ok tx') :
    ∃ t, tx' = { tx with progressTimeIndex := t } := by
  refine foldlM_invariant (fun t => ∃ i, t = { tx with progressTimeIndex := i }) ?_ ⟨_, rfl⟩ h
  rintro p _ t t' ⟨i, rfl⟩ hstep
  obtain ⟨i', rfl⟩ := addProgressToTimeIndex_ok hstep
  exact ⟨i', rfl⟩

theorem assignUnownedDataToUser_coherent {tx tx' : Tx} {u : Bytes} (hc : Coherent tx)
    (h : assignUnownedDataToUser u tx = .ok tx') : Coherent tx' := by
  simp only [assignUnownedDataToUser] at h
  split at h
  · cases h
    exact hc
  · obtain ⟨tx₁, h₁, h⟩ := bind_eq_ok.mp h
    obtain ⟨tx₂, h₂, h⟩ := bind_eq_ok.mp h
    obtain ⟨tx₃, h₃, h⟩ := bind_eq_ok.mp h
    obtain ⟨tx₄, h₄, h⟩ := bind_eq_ok.mp h
    obtain ⟨tx₅, h₅, h⟩ := bind_eq_ok.mp h
    obtain ⟨tx₆, h₆, h⟩ := bind_eq_ok.mp h
    obtain ⟨tx₇, h₇, h⟩ := bind_eq_ok.mp h
    obtain ⟨tx₈, h₈, h⟩ := bind_eq_ok.mp h
    obtain ⟨tx₉, h₉, h⟩ := bind_eq_ok.mp h
    have hr := assignUnownedBooks_ok hc.rebuildable h₁
    obtain ⟨p, rfl⟩ := assignUnownedProgress_ok h₂
    obtain ⟨bs, rfl, hbs⟩ := migrateBookCategories_ok h₃
    simp only at h₄ hbs
    have hk : Keyed { tx₁ with books := bs } := hr.keyed.normalize hbs
    have hu : Mirrors userBooksRows bs.values tx₁.userBooksIndex :=
      Mirrors.normalize hr.users (fun _ => rfl) hbs
    obtain ⟨s, d, rfl, hsort⟩ := rebuildBookSortIndex_ok (by exact hk) (by exact hr.categories) h₄
    simp only at h₅ hsort
    obtain ⟨v, rfl, hsearch⟩ := rebuildBookSearchIndex_ok (by exact hk) h₅
    simp only at h₆ hsearch
    obtain ⟨g, n, rfl, hgram⟩ := rebuildBookSearchGramIndex_ok (by exact hk) (by exact hr.counts) h₆
    simp only at h₇ hgram
    obtain ⟨c, m, rfl⟩ := rebuildBookContentIndex_ok h₇
    simp only at h₈
    obtain ⟨s₁, rfl, hsum⟩ := rebuildLibrarySummaryIndex_ok (by exact hk) h₈
    simp only at h₉ hsum
    obtain ⟨t, rfl⟩ := rebuildProgressTimeIndex_ok h₉
    simp only at h
    obtain ⟨m', rfl, hmiss⟩ := rebuildMissingBookHashIndex_ok (by exact hk) h
    exact ⟨hk, hu, hsort, hsearch, hgram, hmiss, hsum⟩

/-! ## Deleting a user's data -/

theorem deleteBooksByUser_coherent {tx tx' : Tx} {u : Bytes} (hc : Coherent tx)
    (h : deleteBooksByUser u tx = .ok tx') : Coherent tx' :=
  foldlM_invariant Coherent (fun _ _ _ _ hb hstep => deleteBookData_coherent hb hstep) hc h

theorem deleteUserData_coherent {tx tx' : Tx} {u : Bytes} (hc : Coherent tx)
    (h : deleteUserData u tx = .ok tx') : Coherent tx' := by
  rw [deleteUserData] at h
  obtain ⟨tx₁, h₁, h⟩ := bind_eq_ok.mp h
  cases h
  exact (deleteBooksByUser_coherent hc h₁).reading _ _ _ _ _

theorem purgeUser_coherent {tx tx' : Tx} {id : Bytes} (hc : Coherent tx)
    (h : purgeUser id tx = .ok tx') : Coherent tx' := by
  rw [purgeUser] at h
  split at h
  · cases h
  · obtain ⟨tx₁, h₁, h⟩ := bind_eq_ok.mp h
    cases h
    exact (deleteBooksByUser_coherent hc h₁).reading _ _ _ _ _

end ZReader.Storage
