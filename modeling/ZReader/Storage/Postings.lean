import ZReader.Storage.Maintenance

namespace ZReader.Storage

open Lib.Utf8 Lib.Strings Lib.KeyValue Lib.DerivedIndex Lib.Fallible Std

theorem counter_add_one (n : Nat) : counter (n + 1) = some (n + 1) := by simp [counter]

theorem gramRows_unindexed {b : Book} (h : Unindexed b) : gramRows b = [] := if_pos h

theorem gramKeys_unindexed {b : Book} (h : Unindexed b) : gramKeys b = [] := if_pos h

/-- Raising a counter of the bucket by one. -/
theorem adjustBookSearchGramCount_up {tx tx' : Tx} {c : Bucket Nat} {u g : Bytes} {n : Nat}
    (hc : tx.bookSearchGramCounts = some c)
    (hn : c.get (bookSearchGramIndexPrefix u g) = counter n)
    (h : adjustBookSearchGramCount tx u g 1 = .ok tx') :
    ∃ d, tx' = { tx with bookSearchGramCounts := some d } ∧
      ∀ k, d.get k = if bookSearchGramIndexPrefix u g = k then counter (n + 1) else c.get k := by
  have hcount : (bookSearchGramCount c u g : Int) + 1 = (n + 1 : Nat) := by
    rw [bookSearchGramCount, hn, counter_getD]
    push_cast
    ring
  simp only [adjustBookSearchGramCount, hc, hcount] at h
  rw [if_neg (by omega)] at h
  obtain ⟨d, hd, he⟩ := bind_eq_ok.mp h
  cases he
  refine ⟨d, rfl, ?_⟩
  intro k
  rw [Bucket.get_put (store_eq_ok.mp hd), counter_add_one, Int.toNat_natCast]

/-- Lowering a positive counter of the bucket by one. -/
theorem adjustBookSearchGramCount_down {tx tx' : Tx} {c : Bucket Nat} {u g : Bytes} {n : Nat}
    (hc : tx.bookSearchGramCounts = some c)
    (hn : c.get (bookSearchGramIndexPrefix u g) = counter (n + 1))
    (h : adjustBookSearchGramCount tx u g (-1) = .ok tx') :
    ∃ d, tx' = { tx with bookSearchGramCounts := some d } ∧
      ∀ k, d.get k = if bookSearchGramIndexPrefix u g = k then counter n else c.get k := by
  have hcount : (bookSearchGramCount c u g : Int) + -1 = n := by
    rw [bookSearchGramCount, hn, counter_getD]
    push_cast
    ring
  simp only [adjustBookSearchGramCount, hc, hcount] at h
  split at h
  · next hz =>
    cases h
    refine ⟨_, rfl, ?_⟩
    intro k
    have hz : n = 0 := by omega
    rw [Bucket.get_delete, hz]
    rfl
  · next hz =>
    obtain ⟨d, hd, he⟩ := bind_eq_ok.mp h
    cases he
    refine ⟨d, rfl, ?_⟩
    intro k
    have hpos : n ≠ 0 := by omega
    rw [Bucket.get_put (store_eq_ok.mp hd), Int.toNat_natCast]
    simp only [counter, hpos, if_false]

/-- The posting rows and counters while the grams `done` of a book that is not
indexed yet have been written. -/
def PartlyAdded (b : Book) (l : List Book) (tx₀ : Tx) (done : List Bytes) (tx : Tx) : Prop :=
  ∃ g c, tx = { tx₀ with bookSearchGramIndex := g, bookSearchGramCounts := some c } ∧
    (∀ k v, g.get k = some v ↔
      (v = [] ∧ ∃ x ∈ done, k = bookSearchGramIndexKey b.userID x b.id) ∨
        ∃ s ∈ l, (k, v) ∈ gramRows s) ∧
    ∀ k, c.get k = counter (l.countP (fun s => decide (k ∈ gramKeys s)) +
      if k ∈ done.map (bookSearchGramIndexPrefix b.userID) then 1 else 0)

theorem gramKey_not_indexed {b : Book} {l : List Book} (hf : Fresh b l) (x : Bytes)
    (hx : x ∈ bookGrams b) (hu : ¬ Unindexed b) (v : Bytes) :
    ¬ ∃ s ∈ l, (bookSearchGramIndexKey b.userID x b.id, v) ∈ gramRows s := by
  rintro ⟨s, hs, hv⟩
  refine gramRows_separate hf s hs _ [] v ?_ hv
  rw [gramRows, if_neg hu]
  exact List.mem_map.mpr ⟨x, hx, rfl⟩

theorem addSearchGram_step {b : Book} {l : List Book} {tx₀ tx tx' : Tx} {done : List Bytes}
    {x : Bytes} (hf : Fresh b l) (hu : ¬ Unindexed b) (hx : x ∈ bookGrams b) (hnew : x ∉ done)
    (hI : PartlyAdded b l tx₀ done tx) (h : addSearchGram b tx x = .ok tx') :
    PartlyAdded b l tx₀ (done ++ [x]) tx' := by
  obtain ⟨g, c, rfl, hg, hc⟩ := hI
  have hnone : g.get (bookSearchGramIndexKey b.userID x b.id) = none := by
    rw [Option.eq_none_iff_forall_ne_some]
    intro v hv
    obtain ⟨-, y, hy, he⟩ | hs := (hg _ v).mp hv
    · exact hnew (bookSearchGramIndexKey_inj he ▸ hy)
    · exact gramKey_not_indexed hf x hx hu v hs
  simp only [addSearchGram, hnone] at h
  obtain ⟨g', hg', h⟩ := bind_eq_ok.mp h
  have hkey : bookSearchGramIndexPrefix b.userID x ∉
      done.map (bookSearchGramIndexPrefix b.userID) := by
    rw [List.mem_map]
    rintro ⟨y, hy, he⟩
    exact hnew (bookSearchGramIndexPrefix_inj he ▸ hy)
  have hn := hc (bookSearchGramIndexPrefix b.userID x)
  rw [if_neg hkey, Nat.add_zero] at hn
  obtain ⟨d, rfl, hd⟩ := adjustBookSearchGramCount_up rfl hn h
  refine ⟨g', d, rfl, ?_, ?_⟩
  · intro k v
    rw [Bucket.get_put (store_eq_ok.mp hg')]
    by_cases hk : bookSearchGramIndexKey b.userID x b.id = k
    · subst hk
      have hno := gramKey_not_indexed hf x hx hu v
      simp only [if_true, Option.some.injEq, hno, or_false]
      constructor
      · rintro rfl
        exact ⟨rfl, x, by simp, rfl⟩
      · exact fun hv => hv.1.symm
    · rw [if_neg hk, hg k v]
      simp [or_and_right, exists_or, Ne.symm hk]
  · intro k
    rw [hd k, hc k]
    by_cases hk : bookSearchGramIndexPrefix b.userID x = k
    · subst hk
      simp [hkey]
    · simp [hk, Ne.symm hk]

theorem GramCoherent.add {tx tx' : Tx} {b : Book} {l : List Book} (hl : GramCoherent l tx)
    (hf : Fresh b l) (h : addBookToSearchGramIndex tx b = .ok tx') :
    ∃ g c, tx' = { tx with bookSearchGramIndex := g, bookSearchGramCounts := c } ∧
      GramCoherent (b :: l) tx' := by
  obtain ⟨hg, c, hc, ht⟩ := hl
  rw [addBookToSearchGramIndex] at h
  split at h
  · next hu =>
    cases h
    refine ⟨_, _, rfl, ?_, c, hc, ?_⟩
    · intro k v
      rw [hg k v]
      simp [gramRows_unindexed hu]
    · intro k
      rw [ht k, List.countP_cons]
      simp [gramKeys_unindexed hu]
  · next hu =>
    have hI : PartlyAdded b l tx (bookGrams b) tx' := by
      refine foldlM_induction (PartlyAdded b l tx) ?_ ?_ h
      · intro pre x suf he t t' hI hstep
        have hnd : (pre ++ x :: suf).Nodup := he ▸ nodup_bookGrams b
        refine addSearchGram_step hf hu (by rw [he]; simp) ?_ hI hstep
        intro hx
        exact (List.nodup_append.mp hnd).2.2 x hx x (by simp) rfl
      · refine ⟨tx.bookSearchGramIndex, c, by rw [← hc], ?_, ?_⟩
        · intro k v
          simp [hg k v]
        · intro k
          simp [ht k]
    obtain ⟨g, d, rfl, hg', hd⟩ := hI
    refine ⟨g, some d, rfl, ?_, d, rfl, ?_⟩
    · intro k v
      simp only [hg' k v, List.mem_cons, or_and_right, exists_or, exists_eq_left, gramRows,
        if_neg hu, List.mem_map, Prod.mk.injEq]
      constructor
      · rintro (⟨rfl, x, hx, rfl⟩ | hs)
        · exact Or.inl ⟨x, hx, rfl, rfl⟩
        · exact Or.inr hs
      · rintro (⟨x, hx, rfl, rfl⟩ | hs)
        · exact Or.inl ⟨rfl, x, hx, rfl⟩
        · exact Or.inr hs
    · intro k
      rw [hd k, List.countP_cons]
      simp only [gramKeys, if_neg hu, decide_eq_true_eq]

/-- The posting rows and counters while the grams `done` of an indexed book have
been taken out. -/
def PartlyRemoved (b : Book) (l : List Book) (tx₀ : Tx) (done : List Bytes) (tx : Tx) : Prop :=
  ∃ g c, tx = { tx₀ with bookSearchGramIndex := g, bookSearchGramCounts := some c } ∧
    (∀ k v, g.get k = some v ↔
      (v = [] ∧ ∃ x ∈ bookGrams b, x ∉ done ∧ k = bookSearchGramIndexKey b.userID x b.id) ∨
        ∃ s ∈ l, (k, v) ∈ gramRows s) ∧
    ∀ k, c.get k = counter (l.countP (fun s => decide (k ∈ gramKeys s)) +
      if ∃ x ∈ bookGrams b, x ∉ done ∧ k = bookSearchGramIndexPrefix b.userID x then 1 else 0)

theorem removeSearchGram_step {b : Book} {l : List Book} {tx₀ tx tx' : Tx} {done : List Bytes}
    {x : Bytes} (hf : Fresh b l) (hu : ¬ Unindexed b) (hx : x ∈ bookGrams b) (hnew : x ∉ done)
    (hI : PartlyRemoved b l tx₀ done tx) (h : removeSearchGram b tx x = .ok tx') :
    PartlyRemoved b l tx₀ (done ++ [x]) tx' := by
  obtain ⟨g, c, rfl, hg, hc⟩ := hI
  have hsome : g.get (bookSearchGramIndexKey b.userID x b.id) = some [] :=
    (hg _ _).mpr (Or.inl ⟨rfl, x, hx, hnew, rfl⟩)
  simp only [removeSearchGram, hsome] at h
  have hn := hc (bookSearchGramIndexPrefix b.userID x)
  rw [if_pos ⟨x, hx, hnew, rfl⟩] at hn
  obtain ⟨d, rfl, hd⟩ := adjustBookSearchGramCount_down rfl hn h
  refine ⟨_, d, rfl, ?_, ?_⟩
  · intro k v
    rw [Bucket.get_delete]
    by_cases hk : bookSearchGramIndexKey b.userID x b.id = k
    · subst hk
      have hno := gramKey_not_indexed hf x hx hu v
      simp only [if_true, reduceCtorEq, hno, or_false, false_iff]
      rintro ⟨-, y, -, hy, he⟩
      exact hy (by simp [bookSearchGramIndexKey_inj he])
    · rw [if_neg hk, hg k v]
      constructor
      · rintro (⟨hv, y, hy, hyd, rfl⟩ | hs)
        · refine Or.inl ⟨hv, y, hy, ?_, rfl⟩
          rw [List.mem_append, List.mem_singleton]
          rintro (h | rfl)
          · exact hyd h
          · exact hk rfl
        · exact Or.inr hs
      · rintro (⟨hv, y, hy, hyd, rfl⟩ | hs)
        · exact Or.inl ⟨hv, y, hy, fun h => hyd (by simp [h]), rfl⟩
        · exact Or.inr hs
  · intro k
    rw [hd k, hc k]
    by_cases hk : bookSearchGramIndexPrefix b.userID x = k
    · subst hk
      rw [if_pos rfl, if_neg, Nat.add_zero]
      rintro ⟨y, -, hy, he⟩
      exact hy (by simp [bookSearchGramIndexPrefix_inj he])
    · have hiff : (∃ y ∈ bookGrams b, y ∉ done ∧ k = bookSearchGramIndexPrefix b.userID y) ↔
          ∃ y ∈ bookGrams b, y ∉ done ++ [x] ∧ k = bookSearchGramIndexPrefix b.userID y := by
        constructor
        · rintro ⟨y, hy, hyd, rfl⟩
          refine ⟨y, hy, ?_, rfl⟩
          rw [List.mem_append, List.mem_singleton]
          rintro (h | rfl)
          · exact hyd h
          · exact hk rfl
        · rintro ⟨y, hy, hyd, rfl⟩
          exact ⟨y, hy, fun h => hyd (by simp [h]), rfl⟩
      simp only [if_neg hk, hiff]

theorem GramCoherent.remove {tx tx' : Tx} {b : Book} {l : List Book}
    (hl : GramCoherent (b :: l) tx) (hf : Fresh b l)
    (h : removeBookFromSearchGramIndex tx b = .ok tx') :
    ∃ g c, tx' = { tx with bookSearchGramIndex := g, bookSearchGramCounts := c } ∧
      GramCoherent l tx' := by
  obtain ⟨hg, c, hc, ht⟩ := hl
  rw [removeBookFromSearchGramIndex] at h
  split at h
  · next hu =>
    cases h
    refine ⟨_, _, rfl, ?_, c, hc, ?_⟩
    · intro k v
      rw [hg k v]
      simp [gramRows_unindexed hu]
    · intro k
      rw [ht k, List.countP_cons]
      simp [gramKeys_unindexed hu]
  · next hu =>
    have hI : PartlyRemoved b l tx (bookGrams b) tx' := by
      refine foldlM_induction (PartlyRemoved b l tx) ?_ ?_ h
      · intro pre x suf he t t' hI hstep
        have hnd : (pre ++ x :: suf).Nodup := he ▸ nodup_bookGrams b
        refine removeSearchGram_step hf hu (by rw [he]; simp) ?_ hI hstep
        intro hx
        exact (List.nodup_append.mp hnd).2.2 x hx x (by simp) rfl
      · refine ⟨tx.bookSearchGramIndex, c, by rw [← hc], ?_, ?_⟩
        · intro k v
          simp only [hg k v, List.mem_cons, or_and_right, exists_or, exists_eq_left, gramRows,
            if_neg hu, List.mem_map, Prod.mk.injEq]
          constructor
          · rintro (⟨x, hx, rfl, rfl⟩ | hs)
            · exact Or.inl ⟨rfl, x, hx, by simp, rfl⟩
            · exact Or.inr hs
          · rintro (⟨rfl, x, hx, -, rfl⟩ | hs)
            · exact Or.inl ⟨x, hx, rfl, rfl⟩
            · exact Or.inr hs
        · intro k
          rw [ht k, List.countP_cons]
          simp [gramKeys, hu, eq_comm]
    obtain ⟨g, d, rfl, hg', hd⟩ := hI
    refine ⟨g, some d, rfl, ?_, d, rfl, ?_⟩
    · intro k v
      rw [hg' k v]
      constructor
      · rintro (⟨-, x, hx, hnx, -⟩ | hs)
        · exact absurd hx hnx
        · exact hs
      · exact Or.inr
    · intro k
      rw [hd k, if_neg, Nat.add_zero]
      rintro ⟨x, hx, hnx, -⟩
      exact hnx hx

end ZReader.Storage
