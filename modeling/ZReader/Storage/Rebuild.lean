import ZReader.Storage.Listing

namespace ZReader.Storage

open Lib.Utf8 Lib.Strings Lib.KeyValue Lib.DerivedIndex Lib.Fallible Std

/-- Books with well-formed identifiers, no two of them alike. -/
def Library (l : List Book) : Prop := (∀ b ∈ l, WellFormedID b.id) ∧ (l.map Book.id).Nodup

theorem Library.fresh {b : Book} {l : List Book} (h : Library (b :: l)) : Fresh b l := by
  refine ⟨h.1 b (by simp), ?_⟩
  intro s hs
  refine ⟨h.1 s (by simp [hs]), ?_⟩
  have hn := (List.nodup_cons.mp h.2).1
  intro he
  exact hn (he ▸ List.mem_map_of_mem hs)

theorem Library.perm {l m : List Book} (h : Library l) (hp : l.Perm m) : Library m := by
  constructor
  · intro b hb
    exact h.1 b (hp.mem_iff.mpr hb)
  · exact (hp.map Book.id).nodup_iff.mp h.2

theorem Library.left {l m : List Book} (h : Library (l ++ m)) : Library l := by
  constructor
  · intro b hb
    exact h.1 b (by simp [hb])
  · have hn := h.2
    rw [List.map_append] at hn
    exact hn.of_append_left

/-- Every book is stored under its own, well-formed identifier. -/
def Keyed (tx : Tx) : Prop := ∀ k b, tx.books.get k = some b → b.id = k ∧ WellFormedID k

theorem Keyed.library {tx : Tx} (h : Keyed tx) : Library tx.books.values := by
  constructor
  · intro b hb
    obtain ⟨k, hk⟩ := Bucket.mem_values.mp hb
    obtain ⟨rfl, hw⟩ := h k b hk
    exact hw
  · have he : tx.books.values.map Book.id = tx.books.entries.map Prod.fst := by
      rw [Bucket.values, List.map_map]
      apply List.map_congr_left
      intro r hr
      exact (h r.1 r.2 (Bucket.mem_entries.mp hr)).1
    rw [he]
    exact tx.books.keys_nodup

/-- A rebuild adds the books one after another to an index that has none. -/
theorem foldlM_rebuild {add : Tx → Book → Result Tx} (C : List Book → Tx → Prop) {l : List Book}
    {t t' : Tx} (hperm : ∀ l m t, C l t → l.Perm m → C m t)
    (hadd : ∀ b l t t', C l t → Fresh b l → add t b = .ok t' → C (b :: l) t')
    (hl : Library l) (h₀ : C [] t) (h : l.foldlM add t = .ok t') : C l t' := by
  refine foldlM_induction C ?_ h₀ h
  intro pre b suf he t t' hI hstep
  have hp : (pre ++ [b]).Perm (b :: pre) := List.perm_append_singleton b pre
  have hlib : Library (pre ++ [b]) := by
    rw [he, List.append_cons] at hl
    exact hl.left
  exact hperm _ _ _ (hadd b pre t t' hI (hlib.perm hp).fresh hstep) hp.symm

/-! ## What a rebuild computes -/

theorem rebuildBookSortIndex_ok {tx tx' : Tx} (hk : Keyed tx) (hc : tx.bookCategorySortIndex.isSome)
    (h : rebuildBookSortIndex tx = .ok tx') :
    ∃ s d, tx' = { tx with bookSortIndex := s, bookCategorySortIndex := d } ∧
      SortCoherent tx.books.values tx' := by
  obtain ⟨c, hc⟩ := Option.isSome_iff_exists.mp hc
  refine foldlM_rebuild (fun l t => ∃ s d,
    t = { tx with bookSortIndex := s, bookCategorySortIndex := d } ∧ SortCoherent l t)
    ?_ ?_ hk.library ?_ h
  · rintro l m t ⟨s, d, he, hs, e, hd, hm⟩ hp
    exact ⟨s, d, he, hs.perm hp, e, hd, hm.perm hp⟩
  · rintro b l t t' ⟨s, d, rfl, hs⟩ hf hadd
    obtain ⟨s', d', rfl, hs'⟩ := hs.add hf hadd
    exact ⟨s', d', rfl, hs'⟩
  · exact ⟨.empty, some .empty, by simp only [hc]; rfl, mirrors_nil _, .empty, by simp only [hc]; rfl,
      mirrors_nil _⟩

theorem rebuildBookSearchIndex_ok {tx tx' : Tx} (hk : Keyed tx)
    (h : rebuildBookSearchIndex tx = .ok tx') :
    ∃ s, tx' = { tx with bookSearchIndex := s } ∧ SearchCoherent tx.books.values tx' := by
  refine foldlM_rebuild (fun l t => ∃ s, t = { tx with bookSearchIndex := s } ∧ SearchCoherent l t)
    ?_ ?_ hk.library ?_ h
  · rintro l m t ⟨s, he, hs⟩ hp
    exact ⟨s, he, Mirrors.perm hs hp⟩
  · rintro b l t t' ⟨s, rfl, hs⟩ hf hadd
    obtain ⟨s', rfl, hs'⟩ := hs.add hf hadd
    exact ⟨s', rfl, hs'⟩
  · exact ⟨.empty, rfl, mirrors_nil _⟩

theorem rebuildBookSearchGramIndex_ok {tx tx' : Tx} (hk : Keyed tx)
    (hc : tx.bookSearchGramCounts.isSome) (h : rebuildBookSearchGramIndex tx = .ok tx') :
    ∃ g c, tx' = { tx with bookSearchGramIndex := g, bookSearchGramCounts := c } ∧
      GramCoherent tx.books.values tx' := by
  obtain ⟨c, hc⟩ := Option.isSome_iff_exists.mp hc
  refine foldlM_rebuild (fun l t => ∃ g c,
    t = { tx with bookSearchGramIndex := g, bookSearchGramCounts := c } ∧ GramCoherent l t)
    ?_ ?_ hk.library ?_ h
  · rintro l m t ⟨g, c, he, hg, d, hd, ht⟩ hp
    exact ⟨g, c, he, hg.perm hp, d, hd, ht.perm hp⟩
  · rintro b l t t' ⟨g, c, rfl, hg⟩ hf hadd
    obtain ⟨g', c', rfl, hg'⟩ := hg.add hf hadd
    exact ⟨g', c', rfl, hg'⟩
  · exact ⟨.empty, some .empty, by simp only [hc]; rfl, mirrors_nil _, .empty, by simp only [hc]; rfl,
      tallies_nil _⟩

theorem rebuildMissingBookHashIndex_ok {tx tx' : Tx} (hk : Keyed tx)
    (h : rebuildMissingBookHashIndex tx = .ok tx') :
    ∃ m, tx' = { tx with bookMissingHashIndex := m } ∧ MissingCoherent tx.books.values tx' := by
  refine foldlM_rebuild (fun l t => ∃ m, t = { tx with bookMissingHashIndex := m } ∧
    MissingCoherent l t) ?_ ?_ hk.library ?_ h
  · rintro l n t ⟨m, he, c, hc, hm⟩ hp
    exact ⟨m, he, c, hc, hm.perm hp⟩
  · rintro b l t t' ⟨m, rfl, hm⟩ hf hadd
    obtain ⟨m', rfl, hm'⟩ := hm.track hf hadd
    exact ⟨m', rfl, hm'⟩
  · exact ⟨some .empty, rfl, .empty, rfl, mirrors_nil _⟩

theorem rebuildLibrarySummaryIndex_ok {tx tx' : Tx} (hk : Keyed tx)
    (h : rebuildLibrarySummaryIndex tx = .ok tx') :
    ∃ s, tx' = { tx with librarySummaryIndex := s } ∧ SummaryCoherent tx.books.values tx' := by
  refine foldlM_rebuild (fun l t => ∃ s, t = { tx with librarySummaryIndex := s } ∧
    SummaryCoherent l t) ?_ ?_ hk.library ?_ h
  · rintro l n t ⟨s, he, hs⟩ hp
    exact ⟨s, he, fun u hu => (hs u hu).perm hp⟩
  · rintro b l t t' ⟨s, rfl, hs⟩ - hadd
    obtain ⟨s', rfl, hs'⟩ := hs.add hadd
    exact ⟨s', rfl, hs'⟩
  · refine ⟨.empty, rfl, ?_⟩
    intro u hu
    simp only [loadLibrarySummary, if_neg hu, Bucket.get_empty, Option.getD_none]
    exact summaryOf_nil u

theorem migrateUserBooksIndex_ok {tx tx' : Tx} (hk : Keyed tx)
    (h : migrateUserBooksIndex { tx with userBooksIndex := .empty } = .ok tx') :
    ∃ i, tx' = { tx with userBooksIndex := i } ∧ UserCoherent tx.books.values tx' := by
  refine foldlM_rebuild (fun l t => ∃ i, t = { tx with userBooksIndex := i } ∧ UserCoherent l t)
    ?_ ?_ hk.library ?_ h
  · rintro l n t ⟨i, he, hi⟩ hp
    exact ⟨i, he, Mirrors.perm hi hp⟩
  · rintro b l t t' ⟨i, rfl, hi⟩ hf hadd
    have huser : addBookToUserIndex { tx with userBooksIndex := i } b.id b.userID = .ok t' := by
      rw [addBookToUserIndex]
      by_cases hu : b.userID = []
      · simpa only [hu, true_or, if_true] using hadd
      · have hn : ¬ Unindexed b := by simp [Unindexed, hu, hf.ne_nil]
        simp only [if_neg hu] at hadd
        rw [if_neg hn]
        split at hadd
        · next v hv =>
          obtain ⟨s, hs, hrow⟩ := (hi _ v).mp hv
          refine absurd hrow (userBooksRows_separate hf s hs _ [] v ?_)
          simp [userBooksRows, hn]
        · exact hadd
    obtain ⟨i', rfl, hi'⟩ := UserCoherent.add hi hf huser
    exact ⟨i', rfl, hi'⟩
  · exact ⟨.empty, rfl, mirrors_nil _⟩

/-! ## A coherent state is a fixed point of every rebuild -/

/-- Every derived index holds exactly what the stored books call for. -/
structure Coherent (tx : Tx) : Prop where
  keyed : Keyed tx
  users : UserCoherent tx.books.values tx
  listed : Listed tx.books.values tx

theorem coherent_migrated : Coherent .migrated where
  keyed := by
    intro k b h
    simp [Tx.migrated] at h
  users := by
    simp only [Tx.migrated, Bucket.values_empty]
    exact mirrors_nil _
  listed := by
    simp only [Tx.migrated, Bucket.values_empty]
    refine ⟨⟨mirrors_nil _, .empty, rfl, mirrors_nil _⟩, mirrors_nil _,
      ⟨mirrors_nil _, .empty, rfl, tallies_nil _⟩, ⟨.empty, rfl, mirrors_nil _⟩, ?_⟩
    intro u hu
    simp only [loadLibrarySummary, if_neg hu, Bucket.get_empty, Option.getD_none]
    exact summaryOf_nil u

theorem addBookToSortIndex_total (tx : Tx) {b : Book} (hs : ∀ r ∈ sortRows b, ValidKey r.1)
    (hc : ∀ r ∈ categorySortRows b, ValidKey r.1) : ∃ tx', addBookToSortIndex tx b = .ok tx' := by
  rw [addBookToSortIndex]
  split
  · exact ⟨tx, rfl⟩
  · next hu =>
    refine foldlM_total (fun _ => True) ?_ trivial
    intro k hk t _
    have hrow : (bookSortIndexKey b k, b.id) ∈ sortRows b := by
      simp only [sortRows, Unindexed, if_neg hu]
      exact List.mem_map_of_mem hk
    have hcat : (bookCategorySortIndexKey b k, b.id) ∈ categorySortRows b := by
      simp only [categorySortRows, Unindexed, if_neg hu]
      exact List.mem_map_of_mem hk
    obtain ⟨s, hs⟩ := store_of_valid t.bookSortIndex (hs _ hrow) b.id
    cases ht : t.bookCategorySortIndex with
    | none => exact ⟨{ t with bookSortIndex := s }, bind_eq_ok.mpr ⟨s, hs, by simp only [ht]⟩, trivial⟩
    | some c =>
        obtain ⟨d, hd⟩ := store_of_valid c (hc _ hcat) b.id
        refine ⟨{ t with bookSortIndex := s, bookCategorySortIndex := some d }, ?_, trivial⟩
        refine bind_eq_ok.mpr ⟨s, hs, ?_⟩
        simp only [ht]
        exact bind_eq_ok.mpr ⟨d, hd, rfl⟩

theorem addBookToSearchIndex_total (tx : Tx) {b : Book} (hs : ∀ r ∈ searchRows b, ValidKey r.1) :
    ∃ tx', addBookToSearchIndex tx b = .ok tx' := by
  rw [addBookToSearchIndex]
  split
  · exact ⟨tx, rfl⟩
  · next hu =>
    have hk : ValidKey (bookSearchIndexKey b.userID b.id) := by
      simpa [searchRows, Unindexed, hu] using hs
    obtain ⟨s, hs⟩ := store_of_valid tx.bookSearchIndex hk (bookSearchValue b)
    exact ⟨_, bind_eq_ok.mpr ⟨s, hs, rfl⟩⟩

theorem validKey_gramPrefix {u g id : Bytes} (h : ValidKey (bookSearchGramIndexKey u g id)) :
    ValidKey (bookSearchGramIndexPrefix u g) := by
  obtain ⟨-, hl⟩ := h
  constructor
  · simp [bookSearchGramIndexPrefix]
  · simp only [bookSearchGramIndexKey, bookSearchGramIndexPrefix, List.length_append] at hl ⊢
    omega

theorem addBookToSearchGramIndex_total (tx : Tx) {b : Book} (hs : ∀ r ∈ gramRows b, ValidKey r.1) :
    ∃ tx', addBookToSearchGramIndex tx b = .ok tx' := by
  rw [addBookToSearchGramIndex]
  split
  · exact ⟨tx, rfl⟩
  · next hu =>
    refine foldlM_total (fun _ => True) ?_ trivial
    intro g hg t _
    have hk : ValidKey (bookSearchGramIndexKey b.userID g b.id) := by
      refine hs (_, []) ?_
      simp only [gramRows, Unindexed, if_neg hu]
      exact List.mem_map_of_mem hg
    simp only [addSearchGram]
    split
    · exact ⟨t, rfl, trivial⟩
    · obtain ⟨s, hs⟩ := store_of_valid t.bookSearchGramIndex hk []
      rw [hs]
      simp only [bind, Except.bind, adjustBookSearchGramCount]
      split
      · exact ⟨_, rfl, trivial⟩
      · next c hc =>
        rw [if_neg (by omega)]
        obtain ⟨d, hd⟩ := store_of_valid c (validKey_gramPrefix hk)
          ((bookSearchGramCount c b.userID g : Int) + 1).toNat
        rw [hd]
        exact ⟨_, rfl, trivial⟩

theorem trackMissingBookHash_total (tx : Tx) {b : Book} (hs : ∀ r ∈ missingRows b, ValidKey r.1) :
    ∃ tx', trackMissingBookHash tx b = .ok tx' := by
  rw [trackMissingBookHash]
  split
  · exact ⟨tx, rfl⟩
  · next c hc =>
    split
    · exact ⟨tx, rfl⟩
    · next hid =>
      simp only
      split
      · exact ⟨_, rfl⟩
      · next hh =>
        have hk : ValidKey (bookSearchIndexKey b.userID b.id) := by
          simpa [missingRows, hid, hh] using hs
        obtain ⟨s, hs⟩ := store_of_valid c hk b.id
        exact ⟨_, bind_eq_ok.mpr ⟨s, hs, rfl⟩⟩

theorem adjustLibrarySummary_total (tx : Tx) {b : Book} (d : Int)
    (h : b.userID ≠ [] → ValidKey b.userID) : ∃ tx', adjustLibrarySummary tx b d = .ok tx' := by
  rw [adjustLibrarySummary]
  split
  · exact ⟨tx, rfl⟩
  · next hn =>
    have hu : b.userID ≠ [] := fun e => hn (Or.inl e)
    rw [saveLibrarySummary, if_neg hu]
    obtain ⟨s, hs⟩ := store_of_valid tx.librarySummaryIndex (h hu)
      (adjustedSummary (loadLibrarySummary tx b.userID) (categoryForBook b) d)
    exact ⟨_, bind_eq_ok.mpr ⟨s, hs, rfl⟩⟩

/-- The owner of a listed book fits into a key: it is part of the sort keys. -/
theorem Coherent.validKey_userID {tx : Tx} (h : Coherent tx) {b : Book} (hb : b ∈ tx.books.values)
    (hu : b.userID ≠ []) : ValidKey b.userID := by
  have hid : b.id ≠ [] := (h.keyed.library.1 b hb).1
  have hrow : (bookSortIndexKey b .title, b.id) ∈ sortRows b := by
    simp [sortRows, Unindexed, hu, hid, supportedBookSorts]
  have hlen := (h.listed.sort.1.valid hb _ hrow).2
  rw [bookSortIndexKey_eq] at hlen
  refine ⟨hu, ?_⟩
  simp only [List.length_append, List.length_cons] at hlen
  omega

theorem rebuildBookSortIndex_coherent {tx : Tx} (h : Coherent tx) :
    rebuildBookSortIndex tx = .ok tx := by
  obtain ⟨hs, c, hc, hd⟩ := h.listed.sort
  have htotal : ∃ tx', rebuildBookSortIndex tx = .ok tx' := by
    refine foldlM_total (fun _ => True) ?_ trivial
    intro b hb t _
    obtain ⟨t', ht⟩ := addBookToSortIndex_total t (hs.valid hb) (hd.valid hb)
    exact ⟨t', ht, trivial⟩
  obtain ⟨tx', ht⟩ := htotal
  obtain ⟨s, d, rfl, hs', e, he, hd'⟩ := rebuildBookSortIndex_ok h.keyed (by simp [hc]) ht
  have hsame : s = tx.bookSortIndex := hs'.unique hs
  have hcat : d = tx.bookCategorySortIndex := by
    rw [hc, ← hd'.unique hd]
    exact he
  rw [ht, hsame, hcat]

theorem rebuildBookSearchIndex_coherent {tx : Tx} (h : Coherent tx) :
    rebuildBookSearchIndex tx = .ok tx := by
  have htotal : ∃ tx', rebuildBookSearchIndex tx = .ok tx' := by
    refine foldlM_total (fun _ => True) ?_ trivial
    intro b hb t _
    obtain ⟨t', ht⟩ := addBookToSearchIndex_total t (Mirrors.valid h.listed.search hb)
    exact ⟨t', ht, trivial⟩
  obtain ⟨tx', ht⟩ := htotal
  obtain ⟨s, rfl, hs⟩ := rebuildBookSearchIndex_ok h.keyed ht
  have hsame : s = tx.bookSearchIndex := Mirrors.unique hs h.listed.search
  rw [ht, hsame]

theorem rebuildBookSearchGramIndex_coherent {tx : Tx} (h : Coherent tx) :
    rebuildBookSearchGramIndex tx = .ok tx := by
  obtain ⟨hg, c, hc, ht⟩ := h.listed.gram
  have htotal : ∃ tx', rebuildBookSearchGramIndex tx = .ok tx' := by
    refine foldlM_total (fun _ => True) ?_ trivial
    intro b hb t _
    obtain ⟨t', ht⟩ := addBookToSearchGramIndex_total t (hg.valid hb)
    exact ⟨t', ht, trivial⟩
  obtain ⟨tx', hr⟩ := htotal
  obtain ⟨g, d, rfl, hg', e, he, ht'⟩ := rebuildBookSearchGramIndex_ok h.keyed (by simp [hc]) hr
  have hsame : g = tx.bookSearchGramIndex := hg'.unique hg
  have hcounts : d = tx.bookSearchGramCounts := by
    rw [hc, ← ht'.unique ht]
    exact he
  rw [hr, hsame, hcounts]

theorem rebuildMissingBookHashIndex_coherent {tx : Tx} (h : Coherent tx) :
    rebuildMissingBookHashIndex tx = .ok tx := by
  obtain ⟨c, hc, hm⟩ := h.listed.missing
  have htotal : ∃ tx', rebuildMissingBookHashIndex tx = .ok tx' := by
    refine foldlM_total (fun _ => True) ?_ trivial
    intro b hb t _
    obtain ⟨t', ht⟩ := trackMissingBookHash_total t (hm.valid hb)
    exact ⟨t', ht, trivial⟩
  obtain ⟨tx', ht⟩ := htotal
  obtain ⟨m, rfl, d, hd, hm'⟩ := rebuildMissingBookHashIndex_ok h.keyed ht
  have hsame : m = tx.bookMissingHashIndex := by
    rw [hc, ← hm'.unique hm]
    exact hd
  rw [ht, hsame]

/-- The rebuilt summaries read like the stored ones. Their rows can differ: a
user who has lost all books keeps a row of zeros. -/
theorem rebuildLibrarySummaryIndex_coherent {tx : Tx} (h : Coherent tx) :
    ∃ tx', rebuildLibrarySummaryIndex tx = .ok tx' ∧
      ∀ u, loadLibrarySummary tx' u = loadLibrarySummary tx u := by
  have htotal : ∃ tx', rebuildLibrarySummaryIndex tx = .ok tx' := by
    refine foldlM_total (fun _ => True) ?_ trivial
    intro b hb t _
    obtain ⟨t', ht⟩ := adjustLibrarySummary_total t 1 (h.validKey_userID hb)
    exact ⟨t', ht, trivial⟩
  obtain ⟨tx', ht⟩ := htotal
  refine ⟨tx', ht, ?_⟩
  obtain ⟨s, rfl, hs⟩ := rebuildLibrarySummaryIndex_ok h.keyed ht
  intro u
  by_cases hu : u = []
  · simp [loadLibrarySummary, hu]
  · exact (hs u hu).unique (h.listed.summary u hu)

theorem migrateUserBooksIndex_coherent {tx : Tx} (h : Coherent tx) :
    migrateUserBooksIndex { tx with userBooksIndex := .empty } = .ok tx := by
  have htotal : ∃ tx', migrateUserBooksIndex { tx with userBooksIndex := .empty } = .ok tx' := by
    refine foldlM_total (fun _ => True) ?_ trivial
    intro b hb t _
    simp only
    split
    · exact ⟨t, rfl, trivial⟩
    · next hu =>
      split
      · exact ⟨t, rfl, trivial⟩
      · have hid : b.id ≠ [] := (h.keyed.library.1 b hb).1
        have hk : ValidKey (userBooksKey b.userID b.id) := by
          refine Mirrors.valid h.users hb (userBooksKey b.userID b.id, []) ?_
          simp [userBooksRows, Unindexed, hu, hid]
        obtain ⟨i, hi⟩ := store_of_valid t.userBooksIndex hk []
        exact ⟨_, bind_eq_ok.mpr ⟨i, hi, rfl⟩, trivial⟩
  obtain ⟨tx', ht⟩ := htotal
  obtain ⟨i, rfl, hi⟩ := migrateUserBooksIndex_ok h.keyed ht
  have hsame : i = tx.userBooksIndex := Mirrors.unique hi h.users
  rw [ht, hsame]

end ZReader.Storage
