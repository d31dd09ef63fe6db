import ZReader.Storage.ProgressChain
import ZReader.Storage.Queries
import ZReader.Storage.SearchText

namespace ZReader.Storage

open Lib.Utf8 Lib.Strings Lib.KeyValue Lib.DerivedIndex Lib.Fallible Lib.Ordered Std

/-! ## The reference answer -/

section Reference

variable (tx : Tx) (userID query cursor : Bytes) (sortKey : SortKey) (category : Option Bytes)

/-- The books of the user and category whose search text contains the query. -/
def matchingBooks : List Book :=
  tx.books.values.filter (fun b => selects userID category b && contains (bookSearchValue b) query)

def matchesInOrder : List Book :=
  sortByKey (bookSortIndexKey · sortKey) (matchingBooks tx userID query category)

/-- The book that a cursor names, if it is one of this listing. -/
def cursorBook : Option Book := (tx.books.get cursor).filter (selects userID category)

def matchesAfter : List Book :=
  match cursorBook tx userID cursor category with
  | none => matchesInOrder tx userID query sortKey category
  | some c => (matchesInOrder tx userID query sortKey category).filter
      (fun b => Before (bookSortIndexKey · sortKey) c b)

end Reference

def referencePage (l : List Book) (limit : Nat) : List Book × Bytes :=
  (l.take limit, if limit < l.length then ((l[limit - 1]?).map (·.id)).getD [] else [])

/-! ## Order keys -/

theorem selects_iff {u : Bytes} {cat : Option Bytes} {b : Book} :
    selects u cat b = true ↔ b.userID = u ∧ ∀ c, cat = some c → categoryForBook b = c := by
  cases cat with
  | none => simp [selects]
  | some c => simp [selects]

/-- The prefix that the keys of one listing share. -/
def queryPrefix (userID : Bytes) (sortKey : SortKey) (category : Option Bytes) : Bytes :=
  match category with
  | some category => bookCategorySortPrefix userID category sortKey
  | none => sortKey.name ++ [nul] ++ userID ++ [nul]

def orderTail (sortKey : SortKey) (b : Book) : Bytes := bookSortValue b sortKey ++ nul :: b.id

theorem bookSortIndexKey_tail (b : Book) (s : SortKey) :
    bookSortIndexKey b s = (s.name ++ [nul] ++ b.userID ++ [nul]) ++ orderTail s b := by
  simp [bookSortIndexKey_eq, orderTail]

theorem bookQuerySortKey_tail {u : Bytes} {cat : Option Bytes} {b : Book} (s : SortKey)
    (h : selects u cat b = true) : bookQuerySortKey s cat b = queryPrefix u s cat ++ orderTail s b := by
  obtain ⟨rfl, hcat⟩ := selects_iff.mp h
  cases cat with
  | none => rw [bookQuerySortKey, queryPrefix, bookSortIndexKey_tail]
  | some c =>
      rw [bookQuerySortKey, queryPrefix, ← hcat c rfl]
      simp [bookCategorySortIndexKey, orderTail]

/-- Within one listing every order key sorts like the plain sort key. -/
theorem before_bookQuerySortKey {u : Bytes} {cat : Option Bytes} {b b' : Book} (s : SortKey)
    (h : selects u cat b = true) (h' : selects u cat b' = true) :
    Before (bookQuerySortKey s cat) b b' ↔ Before (bookSortIndexKey · s) b b' := by
  have hu := (selects_iff.mp h).1
  have hu' := (selects_iff.mp h').1
  rw [Before, Before, bookQuerySortKey_tail s h, bookQuerySortKey_tail s h', compare_append_left,
    bookSortIndexKey_tail, bookSortIndexKey_tail, hu, hu', compare_append_left]

theorem orderTail_id {b b' : Book} {s : SortKey} (hb : WellFormedID b.id) (hb' : WellFormedID b'.id)
    (h : orderTail s b = orderTail s b') : b.id = b'.id :=
  (append_cons_inj (nul_notMem hb) (nul_notMem hb') h).2

theorem length_queryPrefix_lt {u : Bytes} {cat : Option Bytes} {b : Book} (s : SortKey)
    (h : selects u cat b = true) :
    (queryPrefix u s cat).length < (bookQuerySortKey s cat b).length := by
  rw [bookQuerySortKey_tail s h]
  simp [orderTail]

/-! ## What the indexes of a coherent state offer -/

/-- An index that lists the selected books under their order keys. -/
structure QueryIndex (tx : Tx) (u : Bytes) (s : SortKey) (cat : Option Bytes)
    (index : Bucket Bytes) : Prop where
  row : ∀ k id b, index.get k = some id → queryPrefix u s cat <+: k → tx.books.get id = some b →
    selects u cat b = true → k = bookQuerySortKey s cat b
  find : ∀ b, tx.books.get b.id = some b → selects u cat b = true →
    index.get (bookQuerySortKey s cat b) = some b.id

theorem name_of_isPrefix {s s' : SortKey} {x y : Bytes} (h : s.name ++ nul :: x <+: s'.name ++ nul :: y) :
    s = s' := by
  obtain ⟨t, ht⟩ := h
  rw [List.append_assoc, List.cons_append] at ht
  exact SortKey.name_injective ht

theorem mem_supportedBookSorts (s : SortKey) : s ∈ supportedBookSorts := by
  cases s <;> decide

theorem Keyed.indexed {tx : Tx} (h : Keyed tx) {b : Book} (hb : tx.books.get b.id = some b)
    (hu : b.userID ≠ []) : ¬ Unindexed b := by
  rintro (he | he)
  · exact hu he
  · exact (h _ _ hb).2.1 he

theorem queryIndex_sort {tx : Tx} (hc : Coherent tx) {u : Bytes} (hu : u ≠ []) (s : SortKey) :
    QueryIndex tx u s none tx.bookSortIndex where
  row := by
    intro k id b hk hpre hb hsel
    obtain ⟨r, hr, hrow⟩ := (hc.listed.sort.1 k id).mp hk
    obtain ⟨hid, s', rfl⟩ := mem_sortRows hrow
    obtain ⟨hbid, -⟩ := hc.keyed id b hb
    have hrb : r = b := hc.eq_of_id hr (hbid.symm ▸ hb) (hid.trans hbid.symm)
    have hname : s = s' := by
      rw [bookSortIndexKey_tail] at hpre
      simp only [queryPrefix, List.append_assoc, List.singleton_append] at hpre
      exact name_of_isPrefix hpre
    rw [hrb, hname]
    rfl
  find := by
    intro b hb hsel
    obtain ⟨rfl, -⟩ := selects_iff.mp hsel
    refine (hc.listed.sort.1 _ _).mpr ⟨b, Bucket.mem_values.mpr ⟨_, hb⟩, ?_⟩
    rw [sortRows, if_neg (hc.keyed.indexed hb hu)]
    exact List.mem_map_of_mem (f := fun s => (bookSortIndexKey b s, b.id)) (mem_supportedBookSorts s)

theorem queryIndex_categorySort {tx : Tx} (hc : Coherent tx) {u : Bytes} (hu : u ≠ []) (s : SortKey)
    (cat : Bytes) {index : Bucket Bytes} (hi : Mirrors categorySortRows tx.books.values index) :
    QueryIndex tx u s (some cat) index where
  row := by
    intro k id b hk hpre hb hsel
    obtain ⟨r, hr, hrow⟩ := (hi k id).mp hk
    obtain ⟨hid, s', rfl⟩ := mem_categorySortRows hrow
    obtain ⟨hbid, -⟩ := hc.keyed id b hb
    have hrb : r = b := hc.eq_of_id hr (hbid.symm ▸ hb) (hid.trans hbid.symm)
    have hname : s = s' := by
      simp only [queryPrefix, bookCategorySortIndexKey, bookCategorySortPrefix, List.append_assoc,
        List.singleton_append] at hpre
      exact name_of_isPrefix hpre
    rw [hrb, hname]
    rfl
  find := by
    intro b hb hsel
    obtain ⟨rfl, -⟩ := selects_iff.mp hsel
    refine (hi _ _).mpr ⟨b, Bucket.mem_values.mpr ⟨_, hb⟩, ?_⟩
    rw [categorySortRows, if_neg (hc.keyed.indexed hb hu)]
    exact List.mem_map_of_mem (f := fun s => (bookCategorySortIndexKey b s, b.id))
      (mem_supportedBookSorts s)

theorem bookQueryIndex_spec {tx : Tx} (hc : Coherent tx) {u : Bytes} (hu : u ≠ []) (s : SortKey)
    (cat : Option Bytes) :
    ∃ index, bookQueryIndex tx u s cat = .ok (index, queryPrefix u s cat) ∧
      QueryIndex tx u s cat index := by
  cases cat with
  | none => exact ⟨tx.bookSortIndex, rfl, queryIndex_sort hc hu s⟩
  | some cat =>
      obtain ⟨-, c, hcat, hd⟩ := hc.listed.sort
      refine ⟨c, ?_, queryIndex_categorySort hc hu s cat hd⟩
      rw [bookQueryIndex, hcat]
      rfl

/-- Where the scan starts: at the cursor's book, if it is one of the listing. -/
theorem bookQueryStart_eq {tx : Tx} (hk : Keyed tx) (u cursor : Bytes) (s : SortKey)
    (cat : Option Bytes) :
    bookQueryStart tx u cursor s cat (queryPrefix u s cat) =
      match cursorBook tx u cursor cat with
      | none => queryPrefix u s cat
      | some c => bookQuerySortKey s cat c := by
  rw [bookQueryStart, cursorBook]
  cases hget : tx.books.get cursor with
  | none => simp
  | some b =>
      have hne : cursor ≠ [] := (hk _ _ hget).2.1
      by_cases hsel : selects u cat b = true
      · simp [hne, hsel, Option.filter]
      · simp [hne, hsel, Option.filter]

theorem cursorBook_eq_some {tx : Tx} {u cursor : Bytes} {cat : Option Bytes} {c : Book} :
    cursorBook tx u cursor cat = some c ↔ tx.books.get cursor = some c ∧ selects u cat c = true := by
  rw [cursorBook, Option.filter_eq_some_iff]

/-- The stored search text of a book is the current one. -/
theorem Coherent.searchRow {tx : Tx} (hc : Coherent tx) {b : Book} (hb : tx.books.get b.id = some b)
    (hu : b.userID ≠ []) :
    tx.bookSearchIndex.get (bookSearchIndexKey b.userID b.id) = some (bookSearchValue b) := by
  refine (hc.listed.search _ _).mpr ⟨b, Bucket.mem_values.mpr ⟨_, hb⟩, ?_⟩
  rw [searchRows, if_neg (hc.keyed.indexed hb hu)]
  simp

theorem contains_nil (text : Bytes) : contains text [] = true := by
  simp [contains]

theorem acceptedBook_eq_some {tx : Tx} (hc : Coherent tx) {u q : Bytes} (hu : u ≠ [])
    {cat : Option Bytes} {id : Bytes} {b : Book} :
    acceptedBook tx u q cat id = some b ↔
      tx.books.get id = some b ∧ selects u cat b = true ∧ contains (bookSearchValue b) q = true := by
  rw [acceptedBook]
  by_cases hq : q = []
  · simp [hq, contains_nil, Option.filter_eq_some_iff]
  cases hget : tx.books.get id with
  | none => simp
  | some r =>
      obtain ⟨rfl, -⟩ := hc.keyed id r hget
      by_cases hsel : selects u cat r = true
      · obtain ⟨rfl, -⟩ := selects_iff.mp hsel
        rw [hc.searchRow hget hu]
        by_cases hcon : contains (bookSearchValue r) q = true
        · simp only [Option.getD_some, hcon, not_true, and_false, if_false, Option.filter_some, hsel,
            if_true, Option.some.injEq]
          constructor
          · rintro rfl
            exact ⟨rfl, hsel, hcon⟩
          · exact And.left
        · simp only [hq, hcon, ne_eq, not_false_eq_true, and_self, if_true, Option.getD_some,
            Option.some.injEq, reduceCtorEq, false_iff]
          rintro ⟨rfl, -, h⟩
          exact hcon h
      · simp only [Option.filter_some, hsel, ite_self, Option.some.injEq, reduceCtorEq, false_iff,
          Bool.false_eq_true, if_false]
        rintro ⟨rfl, h, -⟩
        exact hsel h

end ZReader.Storage
