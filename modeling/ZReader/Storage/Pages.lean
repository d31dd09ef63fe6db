import ZReader.Lib.Integers
import ZReader.Storage.ProgressTimes
import ZReader.Storage.Queries

namespace ZReader.Storage

open Lib.Utf8 Lib.Strings Lib.KeyValue Lib.DerivedIndex Lib.Ordered Lib.Integers

/-! ## Listing by page number -/

/-- The records that the user's rows lead to, in row order. -/
def indexedBooks (tx : Tx) (userID : Bytes) : List Book :=
  (getBookIDsForUser tx userID).filterMap tx.books.get

/-- A slice expression; none when it panics. -/
def slice {α : Type} (l : List α) (start stop : Int) : Option (List α) :=
  if 0 ≤ start ∧ start ≤ stop ∧ stop ≤ l.length then
    some ((l.drop start.toNat).take (stop - start).toNat)
  else none

/-- `ListBooksPaginated`; none when it panics. -/
def listBooksPaginated (tx : Tx) (userID : Bytes) (page pageSize : Int) : Option (List Book) :=
  let books := indexedBooks tx userID
  if page > 0 ∧ pageSize > 0 then
    let start := int64 (int64 (page - 1) * pageSize)
    if start ≥ books.length then some []
    else
      let stop := int64 (start + pageSize)
      let stop := if stop > books.length then (books.length : Int) else stop
      slice books start stop
  else some books

/-! ## The order of the listing -/

/-- The user's books, ordered by identifier. -/
def booksByID (tx : Tx) (userID : Bytes) : List Book :=
  sortByKey (·.id) (tx.books.values.filter (fun book => book.userID = userID))

variable {tx : Tx} {userID : Bytes}

theorem userBooksKey_eq (u b : Bytes) : userBooksKey u b = u ++ colon :: b := by
  simp [userBooksKey]

theorem compare_append_colon (u a b : Bytes) :
    compare (u ++ colon :: a) (u ++ colon :: b) = compare a b := by
  have h := compare_append_left (u ++ [colon]) a b
  simpa only [List.append_assoc, List.singleton_append] using h

/-- What the rows of a listing by identifier rest on: coherent indexes and owners whose
identifiers can be cut out of the keys. -/
structure PageReady (tx : Tx) : Prop where
  coherent : Coherent tx
  owner : ∀ id book, tx.books.get id = some book → colon ∉ book.userID

theorem eq_of_append_colon {u v t id : Bytes} (hv : colon ∉ v) (hid : colon ∉ id)
    (h : u ++ colon :: t = v ++ colon :: id) : u = v ∧ t = id := by
  have hcount := congrArg (List.count colon) h
  simp only [List.count_append, List.count_cons_self, List.count_eq_zero.mpr hv,
    List.count_eq_zero.mpr hid] at hcount
  have ht : colon ∉ t := List.count_eq_zero.mp (by omega)
  exact append_cons_inj ht hid h

/-- The rows that a listing scans are those of the user's books. -/
theorem PageReady.row_iff (h : PageReady tx) (hu : userID ≠ []) {k v : Bytes} :
    (k, v) ∈ tx.userBooksIndex.seek (userID ++ [colon]) (userID ++ [colon]) ↔
      ∃ book, tx.books.get book.id = some book ∧ book.userID = userID ∧
        k = userID ++ colon :: book.id ∧ v = [] := by
  rw [Bucket.mem_seek_self]
  constructor
  · rintro ⟨hget, t, ht⟩
    obtain ⟨book, hbook, hrow⟩ := (h.coherent.users k v).mp hget
    obtain ⟨id, hid⟩ := Bucket.mem_values.mp hbook
    obtain ⟨rfl, hw⟩ := h.coherent.keyed id book hid
    simp only [userBooksRows] at hrow
    split at hrow
    · cases hrow
    · rw [List.mem_singleton, Prod.mk.injEq, userBooksKey_eq] at hrow
      obtain ⟨rfl, rfl⟩ := hrow
      have hsplit : userID ++ colon :: t = book.userID ++ colon :: book.id := by simpa using ht
      obtain ⟨rfl, -⟩ := eq_of_append_colon (h.owner _ _ hid) (colon_notMem hw) hsplit
      exact ⟨book, hid, rfl, rfl, rfl⟩
  · rintro ⟨book, hbook, rfl, rfl, rfl⟩
    obtain ⟨-, hw⟩ := h.coherent.keyed _ _ hbook
    refine ⟨(h.coherent.users _ _).mpr ⟨book, Bucket.mem_values.mpr ⟨_, hbook⟩, ?_⟩,
      book.id, by simp⟩
    simp [userBooksRows, Unindexed, hu, hw.1, userBooksKey_eq]

theorem indexedBooks_eq (hu : userID ≠ []) :
    indexedBooks tx userID =
      (tx.userBooksIndex.seek (userID ++ [colon]) (userID ++ [colon])).filterMap
        (fun row => tx.books.get (afterColon row.1)) := by
  rw [indexedBooks, getBookIDsForUser, if_neg hu, List.filterMap_map]
  rfl

theorem PageReady.afterColon_row (h : PageReady tx) {book : Book}
    (hbook : tx.books.get book.id = some book) :
    tx.books.get (afterColon (book.userID ++ colon :: book.id)) = some book := by
  rw [afterColon_append (h.owner _ _ hbook), hbook]

/-- The listing holds the user's books in the order of their identifiers. -/
theorem PageReady.indexedBooks (h : PageReady tx) (hu : userID ≠ []) :
    indexedBooks tx userID = booksByID tx userID := by
  have hids : ((tx.books.values.filter (fun book => book.userID = userID)).map (·.id)).Nodup := by
    exact h.coherent.keyed.library.2.sublist (List.filter_sublist.map _)
  have hlisted : (ZReader.Storage.indexedBooks tx userID).Pairwise (Before (·.id)) := by
    rw [indexedBooks_eq hu, List.pairwise_filterMap]
    have hsorted : (tx.userBooksIndex.seek (userID ++ [colon]) (userID ++ [colon])).Pairwise
        (fun r s => compare r.1 s.1 = .lt) := by
      rw [Bucket.seek_eq_filter _ (List.prefix_refl _)]
      exact tx.userBooksIndex.entries_sorted.filter _
    refine hsorted.imp_of_mem ?_
    rintro ⟨k, v⟩ ⟨k', v'⟩ hrow hrow' hlt b hb b' hb'
    obtain ⟨book, hbook, rfl, rfl, rfl⟩ := (h.row_iff hu).mp hrow
    obtain ⟨book', hbook', hu', rfl, rfl⟩ := (h.row_iff hu).mp hrow'
    rw [← hu', h.afterColon_row hbook'] at hb'
    rw [h.afterColon_row hbook] at hb
    cases hb
    cases hb'
    rwa [compare_append_colon] at hlt
  refine eq_of_mem_iff hlisted (sortByKey_pairwise hids) ?_
  intro b
  rw [booksByID, indexedBooks_eq hu, List.mem_filterMap, mem_sortByKey, List.mem_filter,
    Bucket.mem_values]
  constructor
  · rintro ⟨⟨k, v⟩, hrow, hb⟩
    obtain ⟨book, hbook, rfl, rfl, rfl⟩ := (h.row_iff hu).mp hrow
    rw [h.afterColon_row hbook] at hb
    cases hb
    exact ⟨⟨_, hbook⟩, by simp⟩
  · rintro ⟨⟨id, hb⟩, howner⟩
    obtain ⟨rfl, -⟩ := h.coherent.keyed id b hb
    have howner : b.userID = userID := by simpa using howner
    subst howner
    exact ⟨(b.userID ++ colon :: b.id, []), (h.row_iff hu).mpr ⟨b, hb, rfl, rfl, rfl⟩,
      h.afterColon_row hb⟩

/-! ## Which page is listed -/

/-- The elements at the positions from `(page - 1) * pageSize` to `page * pageSize - 1`; a page
number that is not positive stands for the whole list. -/
def pageOf {α : Type} (l : List α) (page pageSize : Int) : List α :=
  if page ≤ 0 then l else (l.drop ((page - 1) * pageSize).toNat).take pageSize.toNat

/-- The offsets of the page do not wrap, or the wrapped one still lies behind the list. -/
def PageInRange (length : Nat) (page pageSize : Int) : Prop :=
  page ≤ 0 ∨ page * pageSize < 2 ^ 63 ∨ (length : Int) ≤ int64 ((page - 1) * pageSize)

instance (length : Nat) (page pageSize : Int) : Decidable (PageInRange length page pageSize) :=
  inferInstanceAs (Decidable (_ ∨ _ ∨ _))

/-- The slice of a page whose offsets are right. -/
theorem slice_page {α : Type} (l : List α) {start pageSize : Int} (h₀ : 0 ≤ start)
    (hs : 0 < pageSize) (hlt : start < l.length) :
    slice l start (if start + pageSize > l.length then (l.length : Int) else start + pageSize) =
      some ((l.drop start.toNat).take pageSize.toNat) := by
  split
  · next hgt =>
    rw [slice, if_pos ⟨h₀, by omega, by omega⟩]
    congr 1
    have hrest : (l.drop start.toNat).length = ((l.length : Int) - start).toNat := by
      rw [List.length_drop]
      omega
    rw [← hrest, List.take_length, List.take_of_length_le]
    omega
  · next hle =>
    rw [slice, if_pos ⟨h₀, by omega, by omega⟩]
    congr 3
    omega

theorem slice_eq_some {α : Type} {l m : List α} {start stop : Int} (h : slice l start stop = some m) :
    0 ≤ start ∧ start ≤ stop ∧ stop ≤ l.length ∧
      m = (l.drop start.toNat).take (stop - start).toNat := by
  rw [slice] at h
  split at h
  · next hok =>
    cases h
    exact ⟨hok.1, hok.2.1, hok.2.2, rfl⟩
  · cases h

/-- A page of a positive size is listed as it should be exactly when its offsets do not go
wrong. -/
theorem listBooksPaginated_eq_pageOf_iff {page pageSize : Int} (hp : page < 2 ^ 63)
    (hsize : pageSize < 2 ^ 63)
    (hs : 0 < pageSize ∨ page ≤ 0) (hlen : ((indexedBooks tx userID).length : Int) < 2 ^ 63) :
    listBooksPaginated tx userID page pageSize = some (pageOf (indexedBooks tx userID) page pageSize) ↔
      PageInRange (indexedBooks tx userID).length page pageSize := by
  simp only [listBooksPaginated, pageOf, PageInRange]
  generalize indexedBooks tx userID = l at hlen ⊢
  by_cases hpage : page ≤ 0
  · rw [if_neg (by omega), if_pos hpage]
    exact iff_of_true rfl (.inl hpage)
  · have hs : 0 < pageSize := hs.resolve_right hpage
    have hone : int64 (page - 1) = page - 1 := int64_eq_self (by omega) (by omega)
    have hnext : page * pageSize = (page - 1) * pageSize + pageSize := by ring
    have hstart : 0 ≤ (page - 1) * pageSize := mul_nonneg (by omega) (by omega)
    rw [if_pos ⟨by omega, hs⟩, if_neg hpage, or_iff_right hpage, hone, hnext]
    generalize (page - 1) * pageSize = start at hstart ⊢
    by_cases hbehind : (l.length : Int) ≤ int64 start
    · -- also the true offset lies behind the list
      have hle : (l.length : Int) ≤ start := by
        rcases lt_or_ge start (2 ^ 63) with hlt | hge
        · rwa [int64_eq_self (by omega) hlt] at hbehind
        · omega
      rw [if_pos hbehind, List.drop_of_length_le (by omega), List.take_nil]
      exact iff_of_true rfl (.inr hbehind)
    · rw [if_neg hbehind, or_iff_left hbehind]
      constructor
      · intro h
        by_contra hwrap
        obtain ⟨hpos, hle, hstop, hm⟩ := slice_eq_some h
        rcases lt_or_ge start (2 ^ 63) with hlt | hge
        · -- the end of the page wraps to a negative number
          have hsame : int64 start = start := int64_eq_self (by omega) hlt
          have hneg : int64 (start + pageSize) < 0 := by
            rw [int64, Int.bmod_def]
            omega
          rw [hsame, if_neg (by omega)] at hle
          omega
        · -- the start of the page wraps to a position inside the list
          have hnil : (l.drop start.toNat).take pageSize.toNat = [] := by
            rw [List.drop_of_length_le (by omega), List.take_nil]
          have hrange := int64_range start
          have hmore : int64 start < int64 (int64 start + pageSize) ∨
              int64 (int64 start + pageSize) < 0 := by
            rw [int64.eq_def (int64 start + pageSize), Int.bmod_def]
            omega
          rw [hnil, eq_comm, List.take_eq_nil_iff, List.drop_eq_nil_iff] at hm
          omega
      · intro hfits
        have hsame : int64 start = start := int64_eq_self (by omega) (by omega)
        have hsum : int64 (start + pageSize) = start + pageSize := int64_eq_self (by omega) hfits
        rw [hsame, hsum]
        rw [hsame] at hbehind
        exact slice_page l hstart hs (by omega)

end ZReader.Storage
