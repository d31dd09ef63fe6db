import ZReader.Storage.Maintenance

namespace ZReader.Storage

open Lib.Utf8 Lib.Strings Lib.KeyValue Lib.DerivedIndex Lib.Fallible Std

/-! ## The backlog of books without a content hash -/

theorem MissingCoherent.track {tx tx' : Tx} {b : Book} {l : List Book} (hl : MissingCoherent l tx)
    (hf : Fresh b l) (h : trackMissingBookHash tx b = .ok tx') :
    ∃ m, tx' = { tx with bookMissingHashIndex := m } ∧ MissingCoherent (b :: l) tx' := by
  obtain ⟨c, hc, hm⟩ := hl
  simp only [trackMissingBookHash, hc, if_neg hf.ne_nil] at h
  split at h
  · next hh =>
    cases h
    refine ⟨_, rfl, _, rfl, ?_⟩
    intro k v
    rw [Bucket.get_delete]
    by_cases hk : bookSearchIndexKey b.userID b.id = k
    · -- No other record has a row under this key.
      rw [if_pos hk]
      simp only [reduceCtorEq, List.mem_cons, exists_eq_or_imp, false_iff, not_or]
      constructor
      · simp [missingRows, hh]
      · rintro ⟨s, hs, hv⟩
        have hb : (k, b.id) ∈ missingRows { b with contentHash := [] } := by
          simp [missingRows, hf.ne_nil, hk]
        exact missingRows_separate (b := { b with contentHash := [] }) hf s hs k b.id v hb hv
    · rw [if_neg hk, hm k v]
      simp [missingRows, hh]
  · next hh =>
    obtain ⟨m, hput, he⟩ := bind_eq_ok.mp h
    cases he
    refine ⟨_, rfl, m, rfl, hm.add (missingRows_functional b) (missingRows_separate hf) ?_⟩
    have hrows : missingRows b = [(bookSearchIndexKey b.userID b.id, b.id)] := by
      simp only [missingRows]
      rw [if_neg]
      rintro (h | h)
      · exact hf.ne_nil h
      · exact hh h
    rw [hrows]
    exact putRows_singleton hput

/-- The content rows themselves are left unspecified here; no listing reads them. -/
theorem addBookToContentIndex_ok {tx tx' : Tx} {b : Book}
    (h : addBookToContentIndex tx b = .ok tx') :
    ∃ c tx₁, trackMissingBookHash tx b = .ok tx₁ ∧ tx' = { tx₁ with bookContentIndex := c } := by
  rw [addBookToContentIndex] at h
  obtain ⟨tx₁, ht, h⟩ := bind_eq_ok.mp h
  split at h
  · cases h
    exact ⟨_, _, ht, rfl⟩
  · obtain ⟨bucket, -, h⟩ := bind_eq_ok.mp h
    split at h
    · cases h
      exact ⟨_, _, ht, rfl⟩
    · obtain ⟨bucket', -, h⟩ := bind_eq_ok.mp h
      cases h
      exact ⟨_, _, ht, rfl⟩

theorem MissingCoherent.add {tx tx' : Tx} {b : Book} {l : List Book} (hl : MissingCoherent l tx)
    (hf : Fresh b l) (h : addBookToContentIndex tx b = .ok tx') :
    ∃ c m, tx' = { tx with bookContentIndex := c, bookMissingHashIndex := m } ∧
      MissingCoherent (b :: l) tx' := by
  obtain ⟨c, tx₁, ht, rfl⟩ := addBookToContentIndex_ok h
  obtain ⟨m, rfl, hm⟩ := hl.track hf ht
  exact ⟨c, m, rfl, hm⟩

theorem removeBookFromContentIndex_ok {tx tx' : Tx} {b : Book}
    (h : removeBookFromContentIndex tx b = .ok tx') :
    ∃ c, tx' = { tx with
      bookContentIndex := c
      bookMissingHashIndex :=
        tx.bookMissingHashIndex.map (·.delete (bookSearchIndexKey b.userID b.id)) } := by
  simp only [removeBookFromContentIndex] at h
  split at h
  · cases h
    exact ⟨_, rfl⟩
  · split at h
    · cases h
      exact ⟨_, rfl⟩
    · split at h
      · obtain ⟨bucket, -, h⟩ := bind_eq_ok.mp h
        cases h
        exact ⟨_, rfl⟩
      · cases h
        exact ⟨_, rfl⟩

/-- Deleting the row of a book that may or may not have one. -/
theorem mirrors_missing_delete {b : Book} {l : List Book} {c : Bucket Bytes}
    (h : Mirrors missingRows (b :: l) c) (hf : Fresh b l) :
    Mirrors missingRows l (c.delete (bookSearchIndexKey b.userID b.id)) := by
  intro k v
  rw [Bucket.get_delete]
  by_cases hk : bookSearchIndexKey b.userID b.id = k
  · simp only [if_pos hk, reduceCtorEq, false_iff]
    rintro ⟨s, hs, hv⟩
    have hb : (k, b.id) ∈ missingRows { b with contentHash := [] } := by
      simp [missingRows, hf.ne_nil, hk]
    exact missingRows_separate (b := { b with contentHash := [] }) hf s hs k b.id v hb hv
  · rw [if_neg hk, h k v]
    constructor
    · rintro ⟨s, hs, hv⟩
      rcases List.mem_cons.mp hs with rfl | hs
      · rw [missingRows] at hv
        split at hv
        · simp at hv
        · simp only [List.mem_singleton, Prod.mk.injEq] at hv
          exact absurd hv.1.symm hk
      · exact ⟨s, hs, hv⟩
    · rintro ⟨s, hs, hv⟩
      exact ⟨s, by simp [hs], hv⟩

theorem MissingCoherent.remove {tx tx' : Tx} {b : Book} {l : List Book}
    (hl : MissingCoherent (b :: l) tx) (hf : Fresh b l)
    (h : removeBookFromContentIndex tx b = .ok tx') :
    ∃ c m, tx' = { tx with bookContentIndex := c, bookMissingHashIndex := m } ∧
      MissingCoherent l tx' := by
  obtain ⟨c, rfl⟩ := removeBookFromContentIndex_ok h
  obtain ⟨m, hm, hrows⟩ := hl
  refine ⟨c, _, rfl, _, by rw [hm]; rfl, mirrors_missing_delete hrows hf⟩

/-- A book that has just received its hash leaves the backlog. -/
theorem MissingCoherent.hashed {tx tx' : Tx} {b b' : Book} {l : List Book}
    (hl : MissingCoherent (b :: l) tx) (hf : Fresh b l) (hid : b'.id = b.id)
    (hu : b'.userID = b.userID) (hh : b'.contentHash ≠ [])
    (h : addBookToContentIndex tx b' = .ok tx') :
    ∃ c m, tx' = { tx with bookContentIndex := c, bookMissingHashIndex := m } ∧
      MissingCoherent (b' :: l) tx' := by
  obtain ⟨c, tx₁, ht, rfl⟩ := addBookToContentIndex_ok h
  obtain ⟨m, hm, hrows⟩ := hl
  simp only [trackMissingBookHash, hm, hid, hu, if_neg hf.ne_nil, if_pos hh] at ht
  cases ht
  refine ⟨c, _, rfl, _, rfl, ?_⟩
  intro k v
  rw [mirrors_missing_delete hrows hf k v]
  simp [missingRows, hh]

/-! ## The library summaries -/

/-- The aggregate of the books of one user. -/
structure SummaryOf (l : List Book) (u : Bytes) (s : BookLibrarySummary) : Prop where
  total : s.total = l.countP (fun b => decide (b.userID = u))
  uncategorized : s.uncategorized =
    l.countP (fun b => decide (b.userID = u ∧ categoryForBook b = []))
  categories : ∀ c, s.categories[c]? =
    if c = [] then none
    else (counter (l.countP (fun b => decide (b.userID = u ∧ categoryForBook b = c)))).map (↑·)

def SummaryCoherent (l : List Book) (tx : Tx) : Prop :=
  ∀ u, u ≠ [] → SummaryOf l u (loadLibrarySummary tx u)

theorem summaryOf_none {l : List Book} {u : Bytes} (h : ∀ b ∈ l, b.userID ≠ u) :
    SummaryOf l u .zero := by
  have hcount : ∀ p : Book → Bool, (∀ b, p b = true → b.userID = u) → l.countP p = 0 :=
    fun p hp => List.countP_eq_zero.mpr fun b hb hpb => h b hb (hp b hpb)
  constructor
  · rw [hcount _ fun b => of_decide_eq_true]
    rfl
  · rw [hcount _ fun b hb => (of_decide_eq_true hb).1]
    rfl
  · intro c
    rw [hcount _ fun b hb => (of_decide_eq_true hb).1]
    simp [BookLibrarySummary.zero, counter]

theorem summaryOf_nil (u : Bytes) : SummaryOf [] u .zero := summaryOf_none (by simp)

theorem SummaryOf.unique {l : List Book} {u : Bytes} {s t : BookLibrarySummary}
    (hs : SummaryOf l u s) (ht : SummaryOf l u t) : s = t := by
  have hc : s.categories = t.categories := by
    apply ExtTreeMap.ext_getElem?
    intro c
    rw [hs.categories c, ht.categories c]
  cases s
  cases t
  simp only [BookLibrarySummary.mk.injEq]
  exact ⟨hs.total.trans ht.total.symm, hs.uncategorized.trans ht.uncategorized.symm, hc⟩

theorem SummaryOf.perm {l m : List Book} {u : Bytes} {s : BookLibrarySummary}
    (h : SummaryOf l u s) (hp : l.Perm m) : SummaryOf m u s where
  total := by rw [h.total, hp.countP_eq]
  uncategorized := by rw [h.uncategorized, hp.countP_eq]
  categories := by intro c; rw [h.categories c, hp.countP_eq]

theorem summaryOf_cons_other {l : List Book} {u : Bytes} {b : Book} {s : BookLibrarySummary}
    (hu : b.userID ≠ u) : SummaryOf (b :: l) u s ↔ SummaryOf l u s := by
  constructor
  · intro h
    refine ⟨?_, ?_, ?_⟩
    · simpa [hu] using h.total
    · simpa [hu] using h.uncategorized
    · intro c
      simpa [hu] using h.categories c
  · intro h
    refine ⟨?_, ?_, ?_⟩
    · simpa [hu] using h.total
    · simpa [hu] using h.uncategorized
    · intro c
      simpa [hu] using h.categories c

theorem SummaryOf.count {l : List Book} {u : Bytes} {s : BookLibrarySummary}
    (h : SummaryOf l u s) {c : Bytes} (hc : c ≠ []) :
    s.categories.getD c 0 = l.countP (fun b => decide (b.userID = u ∧ categoryForBook b = c)) := by
  rw [ExtTreeMap.getD_eq_getD_getElem?, h.categories c, if_neg hc, counter]
  split
  · next hz => rw [hz]; rfl
  · rfl

theorem atLeastZero_up (n : Nat) : atLeastZero ((n : Int) + 1) = (n + 1 : Nat) := by
  rw [atLeastZero, if_neg (by omega)]
  push_cast
  rfl

theorem atLeastZero_down (n : Nat) : atLeastZero (((n + 1 : Nat) : Int) + -1) = n := by
  rw [atLeastZero, if_neg (by omega)]
  push_cast
  ring

/-- Adding one book of the user. -/
theorem SummaryOf.up {l : List Book} {b : Book} {s : BookLibrarySummary}
    (h : SummaryOf l b.userID s) :
    SummaryOf (b :: l) b.userID (adjustedSummary s (categoryForBook b) 1) := by
  have htotal : atLeastZero (s.total + 1) =
      ((b :: l).countP (fun x => decide (x.userID = b.userID)) : Nat) := by
    rw [h.total, List.countP_cons, if_pos (by simp), atLeastZero_up]
  by_cases hc : categoryForBook b = []
  · simp only [adjustedSummary, if_pos hc]
    refine ⟨htotal, ?_, ?_⟩
    · rw [h.uncategorized, List.countP_cons, if_pos (by simp [hc]), atLeastZero_up]
    · intro c
      rw [h.categories c, List.countP_cons]
      by_cases hne : c = []
      · simp [hne]
      · have : categoryForBook b ≠ c := fun e => hne (e ▸ hc)
        simp [this]
  · have hn := h.count hc
    simp only [adjustedSummary, if_neg hc, hn]
    rw [if_neg (by omega)]
    refine ⟨htotal, ?_, ?_⟩
    · simp [h.uncategorized, hc]
    · intro c
      simp only [ExtTreeMap.getElem?_insert, LawfulEqOrd.compare_eq_iff_eq, h.categories c,
        List.countP_cons]
      by_cases hb : categoryForBook b = c
      · subst hb
        simp [hc, counter]
      · simp [hb]

/-- Taking one book of the user out again. -/
theorem SummaryOf.down {l : List Book} {b : Book} {s : BookLibrarySummary}
    (h : SummaryOf (b :: l) b.userID s) :
    SummaryOf l b.userID (adjustedSummary s (categoryForBook b) (-1)) := by
  have htotal : atLeastZero (s.total + -1) =
      (l.countP (fun x => decide (x.userID = b.userID)) : Nat) := by
    rw [h.total, List.countP_cons, if_pos (by simp), atLeastZero_down]
  by_cases hc : categoryForBook b = []
  · simp only [adjustedSummary, if_pos hc]
    refine ⟨htotal, ?_, ?_⟩
    · rw [h.uncategorized, List.countP_cons, if_pos (by simp [hc]), atLeastZero_down]
    · intro c
      rw [h.categories c, List.countP_cons]
      by_cases hne : c = []
      · simp [hne]
      · have : categoryForBook b ≠ c := fun e => hne (e ▸ hc)
        simp [this]
  · have hn := h.count hc
    rw [List.countP_cons, if_pos (by simp)] at hn
    have hcats (c : Bytes) (hb : categoryForBook b ≠ c) : s.categories[c]? = if c = [] then none
        else (counter (l.countP
          (fun x => decide (x.userID = b.userID ∧ categoryForBook x = c)))).map (↑·) := by
      rw [h.categories c, List.countP_cons]
      simp [hb]
    have hother : s.uncategorized =
        (l.countP (fun x => decide (x.userID = b.userID ∧ categoryForBook x = [])) : Nat) := by
      simp [h.uncategorized, hc]
    simp only [adjustedSummary, if_neg hc, hn]
    split
    · next hz =>
      refine ⟨htotal, hother, ?_⟩
      intro c
      simp only [ExtTreeMap.getElem?_erase, LawfulEqOrd.compare_eq_iff_eq]
      by_cases hb : categoryForBook b = c
      · subst hb
        have hzero : l.countP
            (fun x => decide (x.userID = b.userID ∧ categoryForBook x = categoryForBook b)) = 0 := by
          omega
        rw [if_pos rfl, if_neg hc, hzero]
        rfl
      · rw [if_neg hb]
        exact hcats c hb
    · next hz =>
      refine ⟨htotal, hother, ?_⟩
      intro c
      simp only [ExtTreeMap.getElem?_insert, LawfulEqOrd.compare_eq_iff_eq]
      by_cases hb : categoryForBook b = c
      · subst hb
        have hpos : l.countP
            (fun x => decide (x.userID = b.userID ∧ categoryForBook x = categoryForBook b)) ≠ 0 := by
          omega
        rw [if_pos rfl, if_neg hc, counter, if_neg hpos, Option.map_some]
        congr 1
        push_cast
        ring
      · rw [if_neg hb]
        exact hcats c hb

theorem adjustLibrarySummary_ok {tx tx' : Tx} {b : Book} {d : Int} (hd : d ≠ 0)
    (h : adjustLibrarySummary tx b d = .ok tx') :
    ∃ s, tx' = { tx with librarySummaryIndex := s } ∧
      ∀ u, u ≠ [] → loadLibrarySummary tx' u = if b.userID = u
        then adjustedSummary (loadLibrarySummary tx u) (categoryForBook b) d
        else loadLibrarySummary tx u := by
  rw [adjustLibrarySummary] at h
  split at h
  · next hn =>
    cases h
    refine ⟨_, rfl, ?_⟩
    intro u hu
    have hne : b.userID ≠ u := by
      rcases hn with hn | hn
      · exact fun e => hu (e ▸ hn)
      · exact absurd hn hd
    rw [if_neg hne]
  · next hn =>
    have hb : b.userID ≠ [] := fun e => hn (Or.inl e)
    rw [saveLibrarySummary, if_neg hb] at h
    obtain ⟨s, hs, he⟩ := bind_eq_ok.mp h
    cases he
    refine ⟨s, rfl, ?_⟩
    intro u hu
    have hput := Bucket.get_put (store_eq_ok.mp hs) u
    simp only [loadLibrarySummary, if_neg hu, hput]
    by_cases he : b.userID = u
    · subst he
      simp [if_neg hb]
    · simp [he]

theorem SummaryCoherent.add {tx tx' : Tx} {b : Book} {l : List Book} (hl : SummaryCoherent l tx)
    (h : adjustLibrarySummary tx b 1 = .ok tx') :
    ∃ s, tx' = { tx with librarySummaryIndex := s } ∧ SummaryCoherent (b :: l) tx' := by
  obtain ⟨s, he, hload⟩ := adjustLibrarySummary_ok one_ne_zero h
  refine ⟨s, he, ?_⟩
  intro u hu
  rw [hload u hu]
  by_cases hb : b.userID = u
  · subst hb
    rw [if_pos rfl]
    exact (hl _ hu).up
  · rw [if_neg hb]
    exact (summaryOf_cons_other hb).mpr (hl u hu)

theorem SummaryCoherent.remove {tx tx' : Tx} {b : Book} {l : List Book}
    (hl : SummaryCoherent (b :: l) tx) (h : adjustLibrarySummary tx b (-1) = .ok tx') :
    ∃ s, tx' = { tx with librarySummaryIndex := s } ∧ SummaryCoherent l tx' := by
  obtain ⟨s, he, hload⟩ := adjustLibrarySummary_ok (by decide) h
  refine ⟨s, he, ?_⟩
  intro u hu
  rw [hload u hu]
  by_cases hb : b.userID = u
  · subst hb
    rw [if_pos rfl]
    exact (hl _ hu).down
  · rw [if_neg hb]
    exact (summaryOf_cons_other hb).mp (hl u hu)

end ZReader.Storage
