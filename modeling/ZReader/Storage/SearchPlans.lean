import ZReader.Storage.Search

namespace ZReader.Storage

open Lib.Utf8 Lib.Strings Lib.KeyValue Lib.DerivedIndex Lib.Fallible Lib.Ordered Std

/-! ## The reference answer as an ordered list -/

/-- The books that a page may show. -/
structure Matches (tx : Tx) (u q cursor : Bytes) (s : SortKey) (cat : Option Bytes) (b : Book) :
    Prop where
  stored : tx.books.get b.id = some b
  selected : selects u cat b = true
  found : contains (bookSearchValue b) q = true
  after : ∀ c, cursorBook tx u cursor cat = some c → Before (bookQuerySortKey s cat) c b

theorem mem_matchingBooks {tx : Tx} (hk : Keyed tx) {u q : Bytes} {cat : Option Bytes} {b : Book} :
    b ∈ matchingBooks tx u q cat ↔ tx.books.get b.id = some b ∧ selects u cat b = true ∧
      contains (bookSearchValue b) q = true := by
  rw [matchingBooks, List.mem_filter, Bucket.mem_values, Bool.and_eq_true]
  constructor
  · rintro ⟨⟨k, hget⟩, h⟩
    obtain ⟨rfl, -⟩ := hk k b hget
    exact ⟨hget, h⟩
  · rintro ⟨hget, h⟩
    exact ⟨⟨_, hget⟩, h⟩

theorem mem_matchesInOrder {tx : Tx} (hk : Keyed tx) {u q : Bytes} {s : SortKey}
    {cat : Option Bytes} {b : Book} :
    b ∈ matchesInOrder tx u q s cat ↔ tx.books.get b.id = some b ∧ selects u cat b = true ∧
      contains (bookSearchValue b) q = true := by
  rw [matchesInOrder, mem_sortByKey, mem_matchingBooks hk]

theorem mem_matchesAfter {tx : Tx} (hk : Keyed tx) {u q cursor : Bytes} {s : SortKey}
    {cat : Option Bytes} {b : Book} :
    b ∈ matchesAfter tx u q cursor s cat ↔ Matches tx u q cursor s cat b := by
  rw [matchesAfter]
  cases hcur : cursorBook tx u cursor cat with
  | none =>
      simp only
      rw [mem_matchesInOrder hk]
      constructor
      · rintro ⟨hget, hsel, hcon⟩
        exact ⟨hget, hsel, hcon, by simp [hcur]⟩
      · intro h
        exact ⟨h.stored, h.selected, h.found⟩
  | some c =>
      have hc := (cursorBook_eq_some.mp hcur).2
      simp only [List.mem_filter, decide_eq_true_eq]
      rw [mem_matchesInOrder hk]
      constructor
      · rintro ⟨⟨hget, hsel, hcon⟩, hbefore⟩
        refine ⟨hget, hsel, hcon, ?_⟩
        intro c' hc'
        rw [hcur, Option.some.injEq] at hc'
        subst hc'
        exact (before_bookQuerySortKey s hc hsel).mpr hbefore
      · intro h
        exact ⟨⟨h.stored, h.selected, h.found⟩,
          (before_bookQuerySortKey s hc h.selected).mp (h.after c hcur)⟩

theorem bookQuerySortKey_id {tx : Tx} (hk : Keyed tx) {u : Bytes} {s : SortKey}
    {cat : Option Bytes} {b b' : Book} (hb : tx.books.get b.id = some b)
    (hb' : tx.books.get b'.id = some b') (hsel : selects u cat b = true)
    (hsel' : selects u cat b' = true) (h : bookQuerySortKey s cat b = bookQuerySortKey s cat b') :
    b.id = b'.id := by
  rw [bookQuerySortKey_tail s hsel, bookQuerySortKey_tail s hsel', List.append_cancel_left_eq] at h
  exact orderTail_id (hk _ _ hb).2 (hk _ _ hb').2 h

theorem bookSortIndexKey_id {tx : Tx} (hk : Keyed tx) {s : SortKey} {b b' : Book}
    (hb : tx.books.get b.id = some b) (hb' : tx.books.get b'.id = some b')
    (h : bookSortIndexKey b s = bookSortIndexKey b' s) : b.id = b'.id := by
  rw [bookSortIndexKey_eq, bookSortIndexKey_eq] at h
  exact (append_cons_inj (nul_notMem (hk _ _ hb).2) (nul_notMem (hk _ _ hb').2) h).2

theorem matchesInOrder_pairwise {tx : Tx} (hk : Keyed tx) (u q : Bytes) (s : SortKey)
    (cat : Option Bytes) :
    (matchesInOrder tx u q s cat).Pairwise (Before (bookSortIndexKey · s)) := by
  apply sortByKey_pairwise
  have hnodup : (matchingBooks tx u q cat).Nodup :=
    (hk.library.2.of_map _).filter _
  rw [List.Nodup, List.pairwise_map]
  refine hnodup.imp_of_mem ?_
  intro b b' hb hb' hne hkey
  obtain ⟨hget, -⟩ := (mem_matchingBooks hk).mp hb
  obtain ⟨hget', -⟩ := (mem_matchingBooks hk).mp hb'
  have hid := bookSortIndexKey_id hk hget hget' hkey
  rw [hid, hget', Option.some.injEq] at hget
  exact hne hget.symm

theorem matchesAfter_pairwise {tx : Tx} (hk : Keyed tx) (u q cursor : Bytes) (s : SortKey)
    (cat : Option Bytes) :
    (matchesAfter tx u q cursor s cat).Pairwise (Before (bookSortIndexKey · s)) := by
  rw [matchesAfter]
  split
  · exact matchesInOrder_pairwise hk u q s cat
  · exact (matchesInOrder_pairwise hk u q s cat).filter _

/-- An ordered list of the right books is the reference answer. -/
theorem eq_matchesAfter {tx : Tx} (hk : Keyed tx) {u q cursor : Bytes} {s : SortKey}
    {cat : Option Bytes} {l : List Book} (hl : l.Pairwise (Before (bookQuerySortKey s cat)))
    (hmem : ∀ b, b ∈ l ↔ Matches tx u q cursor s cat b) : l = matchesAfter tx u q cursor s cat := by
  have hsorted : l.Pairwise (Before (bookSortIndexKey · s)) := by
    refine hl.imp_of_mem ?_
    intro b b' hb hb' h
    exact (before_bookQuerySortKey s ((hmem b).mp hb).selected ((hmem b').mp hb').selected).mp h
  refine eq_of_mem_iff hsorted (matchesAfter_pairwise hk u q cursor s cat) ?_
  intro b
  rw [hmem, mem_matchesAfter hk]

/-! ## The ordered scan -/

theorem collectBooks_eq (accept : Bytes → Option Book) (cursor : Bytes) {limit : Int}
    (rows : List (Bytes × Bytes)) (books : List Book) (h : (books.length : Int) ≤ limit) :
    collectBooks accept cursor limit books rows = books ++
      ((rows.filter (·.2 ≠ cursor)).filterMap (accept ·.2)).take ((limit + 1).toNat - books.length) := by
  induction rows generalizing books with
  | nil => simp [collectBooks]
  | cons r rows ih =>
      obtain ⟨k, id⟩ := r
      rw [collectBooks]
      by_cases hid : id = cursor
      · rw [if_pos hid, ih books h, List.filter_cons_of_neg (by simp [hid])]
      · rw [if_neg hid, List.filter_cons_of_pos (by simp [hid])]
        cases haccept : accept id with
        | none =>
            simp only
            rw [ih books h, List.filterMap_cons_none (by exact haccept)]
        | some b =>
            simp only
            rw [List.filterMap_cons_some (by exact haccept)]
            have hroom : (limit + 1).toNat - books.length = (limit + 1).toNat - books.length - 1 + 1 := by
              omega
            rw [hroom, List.take_succ_cons]
            by_cases hfull : limit < (books ++ [b]).length
            · have hzero : (limit + 1).toNat - books.length - 1 = 0 := by
                simp only [List.length_append, List.length_singleton, Nat.cast_add, Nat.cast_one] at hfull
                omega
              rw [if_pos hfull, hzero, List.take_zero]
            · rw [if_neg hfull, ih (books ++ [b]) (by omega), List.append_assoc, List.singleton_append,
                List.length_append, List.length_singleton, Nat.sub_add_eq]

/-- The rows from the start of the scan on are those of the books after the cursor. -/
theorem scanned_eq_matchesAfter {tx : Tx} (hc : Coherent tx) {u q cursor : Bytes} (hu : u ≠ [])
    {s : SortKey} {cat : Option Bytes} {index : Bucket Bytes}
    (hi : QueryIndex tx u s cat index) :
    ((index.seek (bookQueryStart tx u cursor s cat (queryPrefix u s cat)) (queryPrefix u s cat)).filter
        (·.2 ≠ cursor)).filterMap (acceptedBook tx u q cat ·.2) =
      matchesAfter tx u q cursor s cat := by
  have hstart := bookQueryStart_eq hc.keyed u cursor s cat
  generalize bookQueryStart tx u cursor s cat (queryPrefix u s cat) = start at hstart
  have hpre : queryPrefix u s cat <+: start := by
    rw [hstart]
    split
    · exact List.prefix_rfl
    · next c hcur =>
      rw [bookQuerySortKey_tail s (cursorBook_eq_some.mp hcur).2]
      exact List.prefix_append _ _
  -- every accepted row carries the order key of its book
  have hrow : ∀ r b, r ∈ index.seek start (queryPrefix u s cat) →
      acceptedBook tx u q cat r.2 = some b → r.1 = bookQuerySortKey s cat b := by
    intro r b hr hb
    obtain ⟨hget, hsel, -⟩ := (acceptedBook_eq_some hc hu).mp hb
    obtain ⟨hentry, -, hp⟩ := (Bucket.mem_seek hpre).mp hr
    exact hi.row r.1 r.2 b (Bucket.mem_entries.mp hentry) hp hget hsel
  apply eq_matchesAfter hc.keyed
  · have hsorted := (index.entries_sorted.filter (fun r =>
      compare r.1 start != .lt && decide (queryPrefix u s cat <+: r.1))).filter (·.2 ≠ cursor)
    rw [← Bucket.seek_eq_filter index hpre] at hsorted
    rw [List.pairwise_filterMap]
    refine hsorted.imp_of_mem ?_
    intro r r' hr hr' hlt b hb b' hb'
    rw [Before, ← hrow r b (List.mem_filter.mp hr).1 hb, ← hrow r' b' (List.mem_filter.mp hr').1 hb']
    exact hlt
  · intro b
    rw [List.mem_filterMap]
    constructor
    · rintro ⟨r, hr, hb⟩
      obtain ⟨hr, hne⟩ := List.mem_filter.mp hr
      have hkey := hrow r b hr hb
      obtain ⟨hget, hsel, hcon⟩ := (acceptedBook_eq_some hc hu).mp hb
      obtain ⟨hentry, hge, -⟩ := (Bucket.mem_seek hpre).mp hr
      obtain ⟨hid, -⟩ := hc.keyed _ _ hget
      refine ⟨hid.symm ▸ hget, hsel, hcon, ?_⟩
      intro c hcur
      rw [hcur] at hstart
      simp only at hstart
      obtain ⟨hcget, hcsel⟩ := cursorBook_eq_some.mp hcur
      obtain ⟨hcid, -⟩ := hc.keyed _ _ hcget
      rw [Before]
      rw [hkey, hstart] at hge
      cases hcmp : compare (bookQuerySortKey s cat c) (bookQuerySortKey s cat b) with
      | lt => rfl
      | eq =>
          have he := bookQuerySortKey_id hc.keyed (hcid.symm ▸ hcget) (hid.symm ▸ hget) hcsel hsel
            (LawfulEqOrd.eq_of_compare hcmp)
          simp [← hid, ← he, hcid] at hne
      | gt => exact absurd (OrientedCmp.lt_of_gt hcmp) hge
    · intro h
      refine ⟨(bookQuerySortKey s cat b, b.id), ?_,
        (acceptedBook_eq_some hc hu).mpr ⟨h.stored, h.selected, h.found⟩⟩
      rw [List.mem_filter, Bucket.mem_seek hpre, Bucket.mem_entries]
      refine ⟨⟨hi.find b h.stored h.selected, ?_, ?_⟩, ?_⟩
      · rw [hstart]
        split
        · apply Bucket.compare_ne_lt_of_isPrefix
          rw [bookQuerySortKey_tail s h.selected]
          exact List.prefix_append _ _
        · next c hcur =>
          intro hlt
          exact (h.after c hcur).asymm hlt
      · rw [bookQuerySortKey_tail s h.selected]
        exact List.prefix_append _ _
      · rw [decide_eq_true_eq]
        rintro rfl
        have hcur := cursorBook_eq_some.mpr ⟨h.stored, h.selected⟩
        exact Before.irrefl b (h.after b hcur)

theorem scanSortedBooks_eq {tx : Tx} (hc : Coherent tx) {u q : Bytes} (hu : u ≠ [])
    (cursor : Bytes) {limit : Int} (hl : 0 < limit) (s : SortKey) (cat : Option Bytes) :
    scanSortedBooks tx u q cursor limit s cat =
      .ok ((matchesAfter tx u q cursor s cat).take (limit + 1).toNat) := by
  obtain ⟨index, he, hi⟩ := bookQueryIndex_spec hc hu s cat
  have hscan := collectBooks_eq (acceptedBook tx u q cat) cursor
    (index.seek (bookQueryStart tx u cursor s cat (queryPrefix u s cat)) (queryPrefix u s cat)) []
    (show (([] : List Book).length : Int) ≤ limit by rw [List.length_nil]; omega)
  rw [scanned_eq_matchesAfter hc hu hi, List.nil_append, List.length_nil, Nat.sub_zero] at hscan
  rw [scanSortedBooks, he, ← hscan]
  rfl

/-! ## The posting lists -/

/-- Every book that contains the query is on the posting list of each of its grams. -/
theorem gram_mem_bookGrams {v g : Bytes} {b : Book}
    (hg : g ∈ bookSearchGrams (normalizeBookSearchText v))
    (hcon : contains (bookSearchValue b) (normalizeBookSearchText v) = true) : g ∈ bookGrams b := by
  rw [contains, decide_eq_true_eq, bookSearchValue] at hcon
  exact bookSearchGrams_subset hcon hg

theorem bookSearchGramIndexKey_eq (u g id : Bytes) :
    bookSearchGramIndexKey u g id = bookSearchGramIndexPrefix u g ++ id := by
  simp [bookSearchGramIndexKey, bookSearchGramIndexPrefix]

theorem Coherent.posting {tx : Tx} (hc : Coherent tx) {b : Book} (hb : tx.books.get b.id = some b)
    (hu : b.userID ≠ []) {g : Bytes} (hg : g ∈ bookGrams b) :
    tx.bookSearchGramIndex.get (bookSearchGramIndexPrefix b.userID g ++ b.id) = some [] := by
  rw [← bookSearchGramIndexKey_eq]
  refine (hc.listed.gram.1 _ _).mpr ⟨b, Bucket.mem_values.mpr ⟨_, hb⟩, ?_⟩
  rw [gramRows, if_neg (hc.keyed.indexed hb hu)]
  exact List.mem_map_of_mem (f := fun g => (bookSearchGramIndexKey b.userID g b.id, [])) hg

/-- A cursor excludes the books that do not come after its own. -/
theorem afterStart_iff {tx : Tx} (hk : Keyed tx) {u cursor : Bytes} {s : SortKey}
    {cat : Option Bytes} {b : Book} :
    ¬ ((queryPrefix u s cat).length <
          (bookQueryStart tx u cursor s cat (queryPrefix u s cat)).length ∧
        compare (bookQuerySortKey s cat b)
          (bookQueryStart tx u cursor s cat (queryPrefix u s cat)) ≠ .gt) ↔
      ∀ c, cursorBook tx u cursor cat = some c → Before (bookQuerySortKey s cat) c b := by
  rw [bookQueryStart_eq hk]
  cases hcur : cursorBook tx u cursor cat with
  | none => simp
  | some c =>
      have hlen := length_queryPrefix_lt s (cursorBook_eq_some.mp hcur).2
      simp only [hlen, true_and, not_not, Option.some.injEq, forall_eq', Before]
      exact OrientedCmp.gt_iff_lt

theorem postingBooks_eq {tx : Tx} (hc : Coherent tx) {u v g : Bytes} (hu : u ≠ [])
    (hg : g ∈ bookSearchGrams (normalizeBookSearchText v))
    (cursor : Bytes) (limit : Int) (s : SortKey) (cat : Option Bytes) :
    postingBooks tx u (normalizeBookSearchText v) cursor limit s cat g =
      .ok ((matchesAfter tx u (normalizeBookSearchText v) cursor s cat).take (limit + 1).toNat) := by
  obtain ⟨index, he, -⟩ := bookQueryIndex_spec hc hu s cat
  rw [postingBooks, he]
  simp only [bind, Except.bind]
  congr 2
  generalize hcand : List.filterMap _ _ = candidates
  -- a candidate is a match, and its posting row ends in its identifier
  have hrow : ∀ r b, r ∈ tx.bookSearchGramIndex.seek (bookSearchGramIndexPrefix u g)
        (bookSearchGramIndexPrefix u g) →
      acceptedBook tx u (normalizeBookSearchText v) cat
        (r.1.drop (bookSearchGramIndexPrefix u g).length) = some b →
      r.1 = bookSearchGramIndexPrefix u g ++ b.id := by
    intro r b hr hb
    obtain ⟨hget, -⟩ := (acceptedBook_eq_some hc hu).mp hb
    obtain ⟨hid, -⟩ := hc.keyed _ _ hget
    obtain ⟨t, ht⟩ := (Bucket.mem_seek_self.mp hr).2
    rw [hid, ← ht, List.drop_left]
  have hmem : ∀ b, b ∈ candidates ↔ Matches tx u (normalizeBookSearchText v) cursor s cat b := by
    intro b
    rw [← hcand, List.mem_filterMap]
    constructor
    · rintro ⟨r, hr, hb⟩
      rw [Option.filter_eq_some_iff, decide_eq_true_eq, afterStart_iff hc.keyed] at hb
      obtain ⟨hget, hsel, hcon⟩ := (acceptedBook_eq_some hc hu).mp hb.1
      obtain ⟨hid, -⟩ := hc.keyed _ _ hget
      exact ⟨hid.symm ▸ hget, hsel, hcon, hb.2⟩
    · intro h
      obtain ⟨rfl, -⟩ := selects_iff.mp h.selected
      refine ⟨(bookSearchGramIndexPrefix b.userID g ++ b.id, []), ?_, ?_⟩
      · rw [Bucket.mem_seek_self]
        exact ⟨hc.posting h.stored hu (gram_mem_bookGrams hg h.found), List.prefix_append _ _⟩
      · rw [Option.filter_eq_some_iff, decide_eq_true_eq, afterStart_iff hc.keyed, List.drop_left]
        exact ⟨(acceptedBook_eq_some hc hu).mpr ⟨h.stored, h.selected, h.found⟩, h.after⟩
  apply eq_matchesAfter hc.keyed
  · apply sortByKey_pairwise
    rw [List.Nodup, List.pairwise_map, ← hcand, List.pairwise_filterMap,
      Bucket.seek_eq_filter _ List.prefix_rfl]
    refine (tx.bookSearchGramIndex.entries_sorted.filter _).imp_of_mem ?_
    intro r r' hr hr' hlt b hb b' hb' hkey
    rw [← Bucket.seek_eq_filter _ List.prefix_rfl] at hr hr'
    have hm : Matches tx u (normalizeBookSearchText v) cursor s cat b :=
      (hmem b).mp (hcand ▸ List.mem_filterMap.mpr ⟨r, hr, hb⟩)
    have hm' : Matches tx u (normalizeBookSearchText v) cursor s cat b' :=
      (hmem b').mp (hcand ▸ List.mem_filterMap.mpr ⟨r', hr', hb'⟩)
    have hid := bookQuerySortKey_id hc.keyed hm.stored hm'.stored hm.selected hm'.selected hkey
    rw [hrow r b hr (Option.filter_eq_some_iff.mp hb).1,
      hrow r' b' hr' (Option.filter_eq_some_iff.mp hb').1, hid] at hlt
    simp at hlt
  · intro b
    rw [mem_sortByKey, hmem]

/-! ## Choosing a plan -/

theorem mostSelectiveFrom_mem (bucket : Bucket Nat) (u : Bytes) (grams : List Bytes)
    (best : Bytes × Int) :
    mostSelectiveFrom bucket u best grams = best ∨
      ∃ g ∈ grams, mostSelectiveFrom bucket u best grams = (g, (bookSearchGramCount bucket u g : Int)) := by
  induction grams generalizing best with
  | nil => exact Or.inl rfl
  | cons g grams ih =>
      obtain ⟨selected, count⟩ := best
      simp only [mostSelectiveFrom]
      split
      · next h => exact Or.inr ⟨g, by simp, by rw [h]⟩
      · split
        · rcases ih (g, (bookSearchGramCount bucket u g : Int)) with h | ⟨g', hg', h⟩
          · exact Or.inr ⟨g, by simp, h⟩
          · exact Or.inr ⟨g', by simp [hg'], h⟩
        · rcases ih (selected, count) with h | ⟨g', hg', h⟩
          · exact Or.inl h
          · exact Or.inr ⟨g', by simp [hg'], h⟩

/-- A query with grams selects one of them, with its own posting count. -/
theorem mostSelectiveBookSearchGram_mem (bucket : Bucket Nat) (u : Bytes) {grams : List Bytes}
    (hne : grams ≠ []) :
    ∃ g ∈ grams, mostSelectiveBookSearchGram bucket u grams =
      (g, (bookSearchGramCount bucket u g : Int)) := by
  cases grams with
  | nil => exact absurd rfl hne
  | cons g grams =>
      simp only [mostSelectiveBookSearchGram, mostSelectiveFrom]
      split
      · next h => exact ⟨g, by simp, by rw [h]⟩
      · rw [if_pos (by simp)]
        rcases mostSelectiveFrom_mem bucket u grams (g, (bookSearchGramCount bucket u g : Int)) with
          h | ⟨g', hg', h⟩
        · exact ⟨g, by simp, h⟩
        · exact ⟨g', by simp [hg'], h⟩

/-- Nothing matches a query one of whose grams has no postings. -/
theorem matchesAfter_of_count_zero {tx : Tx} (hc : Coherent tx) {u v g : Bytes} (hu : u ≠ [])
    (hg : g ∈ bookSearchGrams (normalizeBookSearchText v)) {counts : Bucket Nat}
    (hcounts : tx.bookSearchGramCounts = some counts) (hzero : bookSearchGramCount counts u g = 0)
    (cursor : Bytes) (s : SortKey) (cat : Option Bytes) :
    matchesAfter tx u (normalizeBookSearchText v) cursor s cat = [] := by
  rw [List.eq_nil_iff_forall_not_mem]
  intro b hb
  have h := (mem_matchesAfter hc.keyed).mp hb
  obtain ⟨rfl, -⟩ := selects_iff.mp h.selected
  obtain ⟨-, c, hcounts', htallies⟩ := hc.listed.gram
  rw [hcounts, Option.some.injEq] at hcounts'
  subst hcounts'
  rw [bookSearchGramCount, htallies, counter_getD, List.countP_eq_zero] at hzero
  apply hzero b (Bucket.mem_values.mpr ⟨_, h.stored⟩)
  rw [decide_eq_true_eq, gramKeys, if_neg (hc.keyed.indexed h.stored hu)]
  exact List.mem_map_of_mem (gram_mem_bookGrams hg h.found)

theorem plannedBooks_eq {tx : Tx} (hc : Coherent tx) {u v : Bytes} (hu : u ≠ [])
    (cursor : Bytes) {limit : Int} (hl : 0 < limit) (s : SortKey) (cat : Option Bytes) :
    plannedBooks tx u (normalizeBookSearchText v) cursor limit s cat =
      .ok ((matchesAfter tx u (normalizeBookSearchText v) cursor s cat).take (limit + 1).toNat) := by
  obtain ⟨-, counts, hcounts, -⟩ := hc.listed.gram
  rw [plannedBooks, hcounts]
  simp only
  by_cases hne : bookSearchGrams (normalizeBookSearchText v) = []
  · rw [hne]
    simp only [ne_eq, not_true_eq_false, false_and, if_false, decide_true, if_true]
    exact scanSortedBooks_eq hc hu cursor hl s cat
  · obtain ⟨g, hg, hbest⟩ := mostSelectiveBookSearchGram_mem counts u hne
    -- the population test picks between two plans with the same answer
    have hplans : ∀ broad : Bool,
        (if broad then scanSortedBooks tx u (normalizeBookSearchText v) cursor limit s cat
          else postingBooks tx u (normalizeBookSearchText v) cursor limit s cat g) =
        .ok ((matchesAfter tx u (normalizeBookSearchText v) cursor s cat).take (limit + 1).toNat) := by
      intro broad
      cases broad with
      | true => exact scanSortedBooks_eq hc hu cursor hl s cat
      | false => exact postingBooks_eq hc hu hg cursor limit s cat
    rw [hbest]
    simp only
    split
    · next h =>
      rw [matchesAfter_of_count_zero hc hu hg hcounts (by exact_mod_cast h.2), List.take_nil]
    · exact hplans _

/-! ## Pages -/

theorem bookCursorPage_take (l : List Book) {limit : Int} (hl : 0 < limit) :
    bookCursorPage (l.take (limit + 1).toNat) limit = referencePage l limit.toNat := by
  obtain ⟨n, rfl⟩ := Int.eq_ofNat_of_zero_le hl.le
  have hn : ((n : Int) + 1).toNat = n + 1 := by omega
  rw [bookCursorPage, referencePage, hn, Int.toNat_natCast, List.length_take]
  by_cases h : l.length ≤ n
  · rw [if_pos (by omega), if_neg (by omega), List.take_of_length_le (by omega),
      List.take_of_length_le h]
  · rw [if_neg (by omega), if_pos (by omega), List.take_take, Nat.min_eq_left (by omega),
      List.getElem?_take_of_lt (by omega)]

theorem searchBooks_eq {tx : Tx} (hc : Coherent tx) {u : Bytes} (hu : u ≠ []) {query : Bytes}
    (hq : normalizeBookSearchText query ≠ []) (cursor : Bytes) {limit : Int} (hl : 0 < limit)
    (sortKey : Bytes) (filters : List (Option Bytes)) :
    searchBooks tx u query cursor limit sortKey filters =
      .ok (referencePage (matchesAfter tx u (normalizeBookSearchText query) cursor
        (normalizeBookSort sortKey) (selectedBookCategory filters)) limit.toNat) := by
  rw [searchBooks, if_neg (by simp [hu, hq]; omega), plannedBooks_eq hc hu cursor hl]
  simp only [bind, Except.bind]
  rw [bookCursorPage_take _ hl]

/-- Following the next cursors until a page returns none; without a result when the
fuel runs out first. -/
def followPages (tx : Tx) (userID query : Bytes) (limit : Int) (sortKey : Bytes)
    (filters : List (Option Bytes)) : Nat → Bytes → Option (List Book)
  | 0, _ => none
  | fuel + 1, cursor =>
      match searchBooks tx userID query cursor limit sortKey filters with
      | .error _ => none
      | .ok (books, next) =>
          if next = [] then some books
          else (followPages tx userID query limit sortKey filters fuel next).map (books ++ ·)

/-- The page after a book of the listing continues where the book stands. -/
theorem matchesAfter_id {tx : Tx} (hk : Keyed tx) {u q cursor : Bytes} {s : SortKey}
    {cat : Option Bytes} {front back : List Book} {b : Book}
    (h : matchesAfter tx u q cursor s cat = front ++ b :: back) :
    matchesAfter tx u q b.id s cat = back := by
  have hb : Matches tx u q cursor s cat b := by
    rw [← mem_matchesAfter hk, h]
    simp
  have hsorted := matchesAfter_pairwise hk u q cursor s cat
  have hback := filter_before (h ▸ hsorted)
  refine eq_of_mem_iff (matchesAfter_pairwise hk u q b.id s cat) ?_ ?_
  · exact (List.pairwise_cons.mp (List.pairwise_append.mp (h ▸ hsorted)).2.1).2
  · intro a
    have hcur : cursorBook tx u b.id cat = some b :=
      cursorBook_eq_some.mpr ⟨hb.stored, hb.selected⟩
    rw [← hback, List.mem_filter, ← h, mem_matchesAfter hk, mem_matchesAfter hk, decide_eq_true_eq]
    constructor
    · intro ha
      have hafter := ha.after b hcur
      refine ⟨⟨ha.stored, ha.selected, ha.found, ?_⟩,
        (before_bookQuerySortKey s hb.selected ha.selected).mp hafter⟩
      intro c hc
      exact (hb.after c hc).trans hafter
    · rintro ⟨ha, hafter⟩
      refine ⟨ha.stored, ha.selected, ha.found, ?_⟩
      intro c hc
      rw [hcur, Option.some.injEq] at hc
      subst hc
      exact (before_bookQuerySortKey s hb.selected ha.selected).mpr hafter

/-- A page that is not the last ends at a book after which the rest of the listing follows. -/
theorem matchesAfter_next {tx : Tx} (hk : Keyed tx) {u q cursor : Bytes} {s : SortKey}
    {cat : Option Bytes} {l : List Book} {n : Nat} (h : matchesAfter tx u q cursor s cat = l)
    (hn : 0 < n) (hmore : n < l.length) :
    ∃ b, l[n - 1]? = some b ∧ b.id ≠ [] ∧ matchesAfter tx u q b.id s cat = l.drop n := by
  have hlt : n - 1 < l.length := by omega
  have hsplit : l = l.take (n - 1) ++ l[n - 1] :: l.drop n := by
    have hsucc : n - 1 + 1 = n := by omega
    have hdrop := List.drop_eq_getElem_cons hlt
    rw [hsucc] at hdrop
    rw [← hdrop, List.take_append_drop]
  have hmem : Matches tx u q cursor s cat l[n - 1] := by
    rw [← mem_matchesAfter hk, h]
    exact List.getElem_mem hlt
  exact ⟨l[n - 1], List.getElem?_eq_getElem hlt, (hk _ _ hmem.stored).2.1,
    matchesAfter_id hk (h.trans hsplit)⟩

theorem followPages_eq {tx : Tx} (hc : Coherent tx) {u : Bytes} (hu : u ≠ []) {query : Bytes}
    (hq : normalizeBookSearchText query ≠ []) {limit : Int} (hl : 0 < limit) (sortKey : Bytes)
    (filters : List (Option Bytes)) (fuel : Nat) (cursor : Bytes)
    (hfuel : (matchesAfter tx u (normalizeBookSearchText query) cursor (normalizeBookSort sortKey)
      (selectedBookCategory filters)).length < fuel) :
    followPages tx u query limit sortKey filters fuel cursor =
      some (matchesAfter tx u (normalizeBookSearchText query) cursor (normalizeBookSort sortKey)
        (selectedBookCategory filters)) := by
  induction fuel generalizing cursor with
  | zero => omega
  | succ fuel ih =>
      rw [followPages, searchBooks_eq hc hu hq cursor hl, referencePage]
      generalize hm : matchesAfter tx u _ cursor _ _ = l at hfuel ⊢
      simp only
      by_cases hmore : limit.toNat < l.length
      · obtain ⟨b, hb, hid, hrest⟩ := matchesAfter_next hc.keyed hm (by omega) hmore
        rw [if_pos hmore, hb, Option.map_some, Option.getD_some, if_neg hid, ih b.id, hrest,
          Option.map_some, List.take_append_drop]
        rw [hrest, List.length_drop]
        omega
      · rw [if_neg hmore, if_pos rfl, List.take_of_length_le (by omega)]

theorem Coherent.get_nil {tx : Tx} (hc : Coherent tx) : tx.books.get [] = none := by
  cases hget : tx.books.get [] with
  | none => rfl
  | some b => exact absurd rfl (hc.keyed _ _ hget).2.1

/-- The listing after the empty cursor is the whole one. -/
theorem matchesAfter_nil {tx : Tx} (hc : Coherent tx) (u q : Bytes) (s : SortKey)
    (cat : Option Bytes) : matchesAfter tx u q [] s cat = matchesInOrder tx u q s cat := by
  simp [matchesAfter, cursorBook, hc.get_nil]

/-- In a coherent state every plan gives the first matches after the cursor, and the
pages of a search run through all matches once and in order. -/
theorem searchBooks_reference {tx : Tx} (hc : Coherent tx) {u : Bytes} (hu : u ≠ []) (query : Bytes)
    {limit : Int} (hl : 0 < limit) (sortKey : Bytes) (filters : List (Option Bytes)) :
    let q := normalizeBookSearchText query
    let s := normalizeBookSort sortKey
    let cat := selectedBookCategory filters
    (q = [] → ∀ cursor, searchBooks tx u query cursor limit sortKey filters = .ok ([], [])) ∧
    (q ≠ [] →
      (∀ cursor, searchBooks tx u query cursor limit sortKey filters =
        .ok (referencePage (matchesAfter tx u q cursor s cat) limit.toNat)) ∧
      (∀ cursor, scanSortedBooks tx u q cursor limit s cat =
          .ok ((matchesAfter tx u q cursor s cat).take (limit + 1).toNat) ∧
        ∀ g ∈ bookSearchGrams q,
          postingBooks tx u q cursor limit s cat g =
            .ok ((matchesAfter tx u q cursor s cat).take (limit + 1).toNat) ∧
          ∀ counts, tx.bookSearchGramCounts = some counts → bookSearchGramCount counts u g = 0 →
            matchesAfter tx u q cursor s cat = []) ∧
      ∀ fuel, (matchesInOrder tx u q s cat).length < fuel →
        followPages tx u query limit sortKey filters fuel [] = some (matchesInOrder tx u q s cat)) := by
  intro q s cat
  constructor
  · intro hq cursor
    rw [searchBooks, if_pos (Or.inr (Or.inl hq))]
  · intro hq
    refine ⟨fun cursor => searchBooks_eq hc hu hq cursor hl sortKey filters, ?_, ?_⟩
    · intro cursor
      refine ⟨scanSortedBooks_eq hc hu cursor hl s cat, ?_⟩
      intro g hg
      refine ⟨postingBooks_eq hc hu hg cursor limit s cat, ?_⟩
      intro counts hcounts hzero
      exact matchesAfter_of_count_zero hc hu hg hcounts hzero cursor s cat
    · intro fuel hfuel
      have hall := matchesAfter_nil hc u q s cat
      have h := followPages_eq hc hu hq hl sortKey filters fuel [] (by rw [hall]; exact hfuel)
      rwa [hall] at h

theorem uploaded_coherent : Coherent uploaded := uploaded_reached.coherent

/-- Three books that are alike but for their identifiers. -/
def stocked : Tx :=
  (Op.createBook { sampleBook with id := ascii "c" }).run
    ((Op.createBook { sampleBook with id := ascii "d" }).run uploaded)

theorem stocked_coherent : Coherent stocked := by
  have hsecond := uploaded_reached.run (.createBook { sampleBook with id := ascii "d" })
    ⟨by decide, Option.isNone_iff_eq_none.mp (by decide +kernel)⟩
  have hthird := hsecond.run (.createBook { sampleBook with id := ascii "c" })
    ⟨by decide, Option.isNone_iff_eq_none.mp (by decide +kernel)⟩
  exact hthird.coherent

/-- Two pages, the second one after the last book of the first. -/
theorem searchBooks_stocked :
    (searchBooks stocked (ascii "u") (ascii "TX") [] 2 (ascii "title") []).map
      (Prod.map (List.map (·.id)) id) = .ok ([ascii "b", ascii "c"], ascii "c") ∧
    (searchBooks stocked (ascii "u") (ascii "TX") (ascii "c") 2 (ascii "title") []).map
      (Prod.map (List.map (·.id)) id) = .ok ([ascii "d"], []) ∧
    (followPages stocked (ascii "u") (ascii "TX") 2 (ascii "title") [] 4 []).map
      (List.map (·.id)) = some [ascii "b", ascii "c", ascii "d"] := by
  have hquery : normalizeBookSearchText (ascii "TX") ≠ [] := by decide +kernel
  obtain ⟨hpages, -, hfollow⟩ := (searchBooks_reference stocked_coherent
    (by decide : ascii "u" ≠ []) (ascii "TX") (by decide : (0 : Int) < 2) (ascii "title") []).2 hquery
  refine ⟨?_, ?_, ?_⟩
  · rw [hpages]
    decide +kernel
  · rw [hpages]
    decide +kernel
  · rw [hfollow 4 (by decide +kernel)]
    decide +kernel

/-- A blank query is contained in every search text, but it is answered with no books. -/
theorem blank_query_finds_nothing :
    Coherent uploaded ∧ searchBooks uploaded (ascii "u") [] [] 1 [] [] ≠
      .ok (referencePage (matchesAfter uploaded (ascii "u") (normalizeBookSearchText []) []
        .recentRead none) 1) := by
  refine ⟨uploaded_coherent, ?_⟩
  have hone : (referencePage (matchesAfter uploaded (ascii "u") (normalizeBookSearchText []) []
      .recentRead none) 1).1.length = 1 := by decide +kernel
  have hnone : searchBooks uploaded (ascii "u") [] [] 1 [] [] = .ok ([], []) := by
    have hblank : normalizeBookSearchText [] = [] := by decide +kernel
    rw [searchBooks, if_pos (Or.inr (Or.inl hblank))]
  intro h
  rw [hnone, Except.ok.injEq] at h
  rw [← h] at hone
  simp at hone

end ZReader.Storage
