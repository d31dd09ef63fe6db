import ZReader.Storage.Search
import ZReader.Storage.Views

namespace ZReader.Storage

open Lib.Utf8 Lib.Strings Lib.KeyValue Lib.DerivedIndex Lib.Fallible Lib.Isolation

/-! ## The index buckets -/

theorem within_getD {X : Type} {P : Bytes → Bool} (b : Option (Bucket X)) :
    (b.map (within P)).getD (fun _ => none) = within P (b.getD .empty) := by
  cases b with
  | none =>
      funext k
      simp [within, Bucket.get, Bucket.empty]
  | some b => rfl

def userBooksPart : IndexPart Bytes where
  get tx := tx.userBooksIndex
  set b tx := { tx with userBooksIndex := b }
  owns := colonKey
  field v := v.userBooks
  write r v := { v with userBooks := r }
  unique := colonKey_unique
  set_get _ := rfl
  view_get _ _ := rfl
  view_set _ _ _ := rfl
  ready_set h := ⟨h.books, h.categorySort, h.gramCounts, h.missing, h.progress⟩

def sortPart : IndexPart Bytes where
  get tx := tx.bookSortIndex
  set b tx := { tx with bookSortIndex := b }
  owns := sortedKey
  field v := v.sort
  write r v := { v with sort := r }
  unique := sortedKey_unique
  set_get _ := rfl
  view_get _ _ := rfl
  view_set _ _ _ := rfl
  ready_set h := ⟨h.books, h.categorySort, h.gramCounts, h.missing, h.progress⟩

def categorySortPart : IndexPart Bytes where
  get tx := tx.bookCategorySortIndex.getD .empty
  set b tx := { tx with bookCategorySortIndex := some b }
  owns := sortedKey
  field v := v.categorySort.getD (fun _ => none)
  write r v := { v with categorySort := some r }
  unique := sortedKey_unique
  set_get := by
    intro P tx h
    rw [Option.getD_eq_iff.mpr (.inl (Option.some_get h.categorySort).symm), Option.some_get]
  view_get _ tx := within_getD tx.bookCategorySortIndex
  view_set _ _ _ := rfl
  ready_set h := ⟨h.books, rfl, h.gramCounts, h.missing, h.progress⟩

def searchPart : IndexPart Bytes where
  get tx := tx.bookSearchIndex
  set b tx := { tx with bookSearchIndex := b }
  owns := nulKey
  field v := v.search
  write r v := { v with search := r }
  unique := nulKey_unique
  set_get _ := rfl
  view_get _ _ := rfl
  view_set _ _ _ := rfl
  ready_set h := ⟨h.books, h.categorySort, h.gramCounts, h.missing, h.progress⟩

def gramPart : IndexPart Bytes where
  get tx := tx.bookSearchGramIndex
  set b tx := { tx with bookSearchGramIndex := b }
  owns := nulKey
  field v := v.grams
  write r v := { v with grams := r }
  unique := nulKey_unique
  set_get _ := rfl
  view_get _ _ := rfl
  view_set _ _ _ := rfl
  ready_set h := ⟨h.books, h.categorySort, h.gramCounts, h.missing, h.progress⟩

def gramCountPart : IndexPart Nat where
  get tx := tx.bookSearchGramCounts.getD .empty
  set b tx := { tx with bookSearchGramCounts := some b }
  owns := nulKey
  field v := v.gramCounts.getD (fun _ => none)
  write r v := { v with gramCounts := some r }
  unique := nulKey_unique
  set_get := by
    intro P tx h
    rw [Option.getD_eq_iff.mpr (.inl (Option.some_get h.gramCounts).symm), Option.some_get]
  view_get _ tx := within_getD tx.bookSearchGramCounts
  view_set _ _ _ := rfl
  ready_set h := ⟨h.books, h.categorySort, rfl, h.missing, h.progress⟩

def timePart : IndexPart Bytes where
  get tx := tx.progressTimeIndex
  set b tx := { tx with progressTimeIndex := b }
  owns := nulKey
  field v := v.times
  write r v := { v with times := r }
  unique := nulKey_unique
  set_get _ := rfl
  view_get _ _ := rfl
  view_set _ _ _ := rfl
  ready_set h := ⟨h.books, h.categorySort, h.gramCounts, h.missing, h.progress⟩

def contentPart : IndexPart Bytes where
  get tx := tx.bookContentIndex
  set b tx := { tx with bookContentIndex := b }
  owns := nulKey
  field v := v.content
  write r v := { v with content := r }
  unique := nulKey_unique
  set_get _ := rfl
  view_get _ _ := rfl
  view_set _ _ _ := rfl
  ready_set h := ⟨h.books, h.categorySort, h.gramCounts, h.missing, h.progress⟩

def missingPart : IndexPart Bytes where
  get tx := tx.bookMissingHashIndex.getD .empty
  set b tx := { tx with bookMissingHashIndex := some b }
  owns := nulKey
  field v := v.missing.getD (fun _ => none)
  write r v := { v with missing := some r }
  unique := nulKey_unique
  set_get := by
    intro P tx h
    rw [Option.getD_eq_iff.mpr (.inl (Option.some_get h.missing).symm), Option.some_get]
  view_get _ tx := within_getD tx.bookMissingHashIndex
  view_set _ _ _ := rfl
  ready_set h := ⟨h.books, h.categorySort, h.gramCounts, rfl, h.progress⟩

def summaryPart : IndexPart BookLibrarySummary where
  get tx := tx.librarySummaryIndex
  set b tx := { tx with librarySummaryIndex := b }
  owns u k := decide (k = u.1)
  field v := v.summary
  write r v := { v with summary := r }
  unique _ _ _ h h' := Subtype.ext ((of_decide_eq_true h).symm.trans (of_decide_eq_true h'))
  set_get _ := rfl
  view_get _ _ := rfl
  view_set _ _ _ := rfl
  ready_set h := ⟨h.books, h.categorySort, h.gramCounts, h.missing, h.progress⟩

def bookmarkPart : IndexPart Bookmark where
  get tx := tx.bookmarks
  set b tx := { tx with bookmarks := b }
  owns := colonKey
  field v := v.bookmarks
  write r v := { v with bookmarks := r }
  unique := colonKey_unique
  set_get _ := rfl
  view_get _ _ := rfl
  view_set _ _ _ := rfl
  ready_set h := ⟨h.books, h.categorySort, h.gramCounts, h.missing, h.progress⟩

def userPart : IndexPart User where
  get tx := tx.users
  set b tx := { tx with users := b }
  owns u k := decide (k = u.1)
  field v := v.user
  write r v := { v with user := r }
  unique _ _ _ h h' := Subtype.ext ((of_decide_eq_true h).symm.trans (of_decide_eq_true h'))
  set_get _ := rfl
  view_get _ _ := rfl
  view_set _ _ _ := rfl
  ready_set h := ⟨h.books, h.categorySort, h.gramCounts, h.missing, h.progress⟩

/-- Progress is no index: who reads it goes by its `userID`. -/
def progressPart : Part Progress where
  get tx := tx.progress
  set b tx := { tx with progress := b }
  owns := colonKey
  field v := v.progress
  write r v := { v with progress := r }
  unique := colonKey_unique
  set_get _ := rfl
  view_get _ _ := rfl
  view_set _ _ _ := rfl

theorem colonKey_append (u : UserID) (x : Bytes) : colonKey u (u.1 ++ [colon] ++ x) = true :=
  decide_eq_true ⟨x, rfl⟩

theorem nulKey_append (u : UserID) (x : Bytes) : nulKey u (u.1 ++ [nul] ++ x) = true :=
  decide_eq_true ⟨x, rfl⟩

theorem sortedKey_append (u : UserID) (s : SortKey) (x : Bytes) :
    sortedKey u (s.name ++ [nul] ++ u.1 ++ [nul] ++ x) = true := by
  rw [sortedKey, List.any_eq_true]
  exact ⟨s, mem_supportedBookSorts s, decide_eq_true ⟨x, rfl⟩⟩

section Indexes

variable {P : Bucket Book → Prop} {u : UserID} {book : Book}

theorem sortedKey_sort (h : book.userID = u.1) (s : SortKey) :
    sortedKey u (bookSortIndexKey book s) = true := by
  have hk := sortedKey_append u s (bookSortValue book s ++ nul :: book.id)
  rw [← h] at hk
  simpa [bookSortIndexKey_eq] using hk

theorem sortedKey_categorySort (h : book.userID = u.1) (s : SortKey) :
    sortedKey u (bookCategorySortIndexKey book s) = true := by
  have hk := sortedKey_append u s (base64RawURL (trimSpace (categoryForBook book)) ++ [nul] ++
    (bookSortValue book s ++ [nul] ++ book.id))
  rw [← h] at hk
  simpa [bookCategorySortIndexKey, bookCategorySortPrefix] using hk

theorem nulKey_search (h : book.userID = u.1) (id : Bytes) :
    nulKey u (bookSearchIndexKey book.userID id) = true := by
  rw [h]
  exact nulKey_append u id

theorem nulKey_gram (h : book.userID = u.1) (g : Bytes) :
    nulKey u (bookSearchGramIndexKey book.userID g book.id) = true := by
  have hk := nulKey_append u (g ++ [nul] ++ book.id)
  rw [← h] at hk
  simpa [bookSearchGramIndexKey] using hk

theorem nulKey_gramCount (h : book.userID = u.1) (g : Bytes) :
    nulKey u (bookSearchGramIndexPrefix book.userID g) = true := by
  have hk := nulKey_append u (g ++ [nul])
  rw [← h] at hk
  simpa [bookSearchGramIndexPrefix] using hk

theorem nulKey_content (h : book.userID = u.1) (x : Bytes) :
    nulKey u (bookContentIndexKey book.userID x) = true := by
  rw [h]
  exact nulKey_append u x

theorem nulKey_membership (h : book.userID = u.1) :
    nulKey u (bookContentMembershipKey book) = true := by
  have hk := nulKey_append u (book.contentHash ++ [nul] ++ book.id)
  rw [← h] at hk
  simpa [bookContentMembershipKey, bookContentIndexKey] using hk

/-! ## Index maintenance on behalf of a book's user -/

theorem addBookToUserIndex_acts (id : Bytes) :
    Acts view (Ready P) u (addBookToUserIndex · id u.1) :=
  Acts.ite Acts.pure (userBooksPart.store (colonKey_append u id) [])

theorem removeBookFromUserIndex_acts (id : Bytes) :
    Acts view (Ready P) u (fun tx => (.ok (removeBookFromUserIndex tx id u.1) : Result Tx)) := by
  have hdelete := userBooksPart.delete (P := P) (colonKey_append u id)
  refine Acts.congr (Acts.ite (c := u.1 = [] ∨ id = []) Acts.pure hdelete) ?_
  intro tx _
  exact apply_ite Except.ok _ _ _

theorem addSortKey_acts (h : book.userID = u.1) (s : SortKey) :
    Acts view (Ready P) u (addSortKey book · s) := by
  refine Acts.congr (Acts.seq (sortPart.store (sortedKey_sort h s) book.id)
    (categorySortPart.store (sortedKey_categorySort h s) book.id)) ?_
  intro tx hr
  obtain ⟨c, hc⟩ := Option.isSome_iff_exists.mp hr.categorySort
  simp only [addSortKey, sortPart, categorySortPart, hc, bind_assoc, ok_bind, Option.getD_some]

theorem addBookToSortIndex_acts (h : book.userID = u.1) :
    Acts view (Ready P) u (addBookToSortIndex · book) :=
  Acts.ite Acts.pure (Acts.fold fun s _ => addSortKey_acts h s)

theorem removeSortKey_acts (h : book.userID = u.1) (s : SortKey) :
    Acts view (Ready P) u (fun tx => (.ok (removeSortKey book tx s) : Result Tx)) := by
  refine Acts.congr (Acts.seq (sortPart.delete (sortedKey_sort h s))
    (categorySortPart.delete (sortedKey_categorySort h s))) ?_
  intro tx hr
  obtain ⟨c, hc⟩ := Option.isSome_iff_exists.mp hr.categorySort
  simp only [removeSortKey, sortPart, categorySortPart, hc, ok_bind, Option.getD_some, Option.map_some]

theorem removeBookFromSortIndex_acts (h : book.userID = u.1) :
    Acts view (Ready P) u (fun tx => (.ok (removeBookFromSortIndex tx book) : Result Tx)) := by
  have hfold : Acts view (Ready P) u
      (fun tx => supportedBookSorts.foldlM (fun tx s => .ok (removeSortKey book tx s)) tx) :=
    Acts.fold fun s _ => removeSortKey_acts h s
  refine Acts.congr (Acts.ite (c := book.userID = [] ∨ book.id = []) Acts.pure hfold) ?_
  intro tx _
  exact apply_ite Except.ok _ _ _

theorem addBookToSearchIndex_acts (h : book.userID = u.1) :
    Acts view (Ready P) u (addBookToSearchIndex · book) :=
  Acts.ite Acts.pure (searchPart.store (nulKey_search h book.id) (bookSearchValue book))

theorem removeBookFromSearchIndex_acts (h : book.userID = u.1) :
    Acts view (Ready P) u (fun tx => (.ok (removeBookFromSearchIndex tx book) : Result Tx)) := by
  have hdelete := searchPart.delete (P := P) (nulKey_search h book.id)
  refine Acts.congr (Acts.ite (c := book.userID = [] ∨ book.id = []) Acts.pure hdelete) ?_
  intro tx _
  exact apply_ite Except.ok _ _ _

/-- What `adjustBookSearchGramCount` does to the counters. -/
def adjustCount (bucket : Bucket Nat) (key : Bytes) (delta : Int) : Result (Bucket Nat) :=
  let count := ((bucket.get key).getD 0 : Int) + delta
  if count ≤ 0 then .ok (bucket.delete key) else store bucket key count.toNat

theorem adjustCount_acts {key : Bytes} (hk : nulKey u key = true) (d : Int) :
    ActsRows nulKey u (adjustCount · key d) := by
  refine Acts.read (g := fun b => b.get key) (f := fun n b =>
    if ((n.getD 0 : Nat) : Int) + d ≤ 0 then .ok (b.delete key)
    else store b key (((n.getD 0 : Nat) : Int) + d).toNat) (seen_row hk) ?_
  intro b _
  exact Acts.ite (delete_acts nulKey_unique hk) (store_acts nulKey_unique hk _)

theorem adjustBookSearchGramCount_acts (h : book.userID = u.1) (g : Bytes) (d : Int) :
    Acts view (Ready P) u (adjustBookSearchGramCount · book.userID g d) := by
  refine Acts.congr (gramCountPart.modify (adjustCount_acts (nulKey_gramCount h g) d)) ?_
  intro tx hr
  obtain ⟨c, hc⟩ := Option.isSome_iff_exists.mp hr.gramCounts
  have hget : gramCountPart.get tx = c := by
    change tx.bookSearchGramCounts.getD .empty = c
    rw [hc, Option.getD_some]
  rw [adjustBookSearchGramCount, hc, hget]
  by_cases hn : ((c.get (bookSearchGramIndexPrefix book.userID g)).getD 0 : Int) + d ≤ 0
  · rw [adjustCount, if_pos hn]
    exact if_pos hn
  · rw [adjustCount, if_neg hn]
    exact if_neg hn

theorem addSearchGram_acts (h : book.userID = u.1) (g : Bytes) :
    Acts view (Ready P) u (addSearchGram book · g) := by
  have hk := nulKey_gram h g
  have hadd := Acts.seq (gramPart.store (P := P) hk []) (adjustBookSearchGramCount_acts h g 1)
  refine Acts.congr (Acts.branch ((gramPart.seen_get hk).map Option.isSome) Acts.pure hadd) ?_
  intro tx _
  simp only [addSearchGram, gramPart, bind_assoc, ok_bind]
  split
  · next hget => rw [hget]; rfl
  · next hget => rw [hget]; rfl

theorem addBookToSearchGramIndex_acts (h : book.userID = u.1) :
    Acts view (Ready P) u (addBookToSearchGramIndex · book) :=
  Acts.ite Acts.pure (Acts.fold fun g _ => addSearchGram_acts h g)

theorem removeSearchGram_acts (h : book.userID = u.1) (g : Bytes) :
    Acts view (Ready P) u (removeSearchGram book · g) := by
  have hk := nulKey_gram h g
  have hremove := Acts.seq (gramPart.delete (P := P) hk) (adjustBookSearchGramCount_acts h g (-1))
  refine Acts.congr (Acts.branch ((gramPart.seen_get hk).map Option.isNone) Acts.pure hremove) ?_
  intro tx _
  simp only [removeSearchGram, gramPart, ok_bind]
  split
  · next hget => rw [hget]; rfl
  · next hget => rw [hget]; rfl

theorem removeBookFromSearchGramIndex_acts (h : book.userID = u.1) :
    Acts view (Ready P) u (removeBookFromSearchGramIndex · book) :=
  Acts.ite Acts.pure (Acts.fold fun g _ => removeSearchGram_acts h g)

theorem trackMissingBookHash_acts (h : book.userID = u.1) :
    Acts view (Ready P) u (trackMissingBookHash · book) := by
  have hk := nulKey_search h book.id
  have htrack := Acts.ite (c := book.contentHash ≠ []) (missingPart.delete (P := P) hk)
    (missingPart.store hk book.id)
  refine Acts.congr (Acts.ite (c := book.id = []) Acts.pure htrack) ?_
  intro tx hr
  obtain ⟨c, hc⟩ := Option.isSome_iff_exists.mp hr.missing
  have hget : missingPart.get tx = c := by
    change tx.bookMissingHashIndex.getD .empty = c
    rw [hc, Option.getD_some]
  rw [trackMissingBookHash, hc, hget]
  rfl

theorem fileContent_acts (h : book.userID = u.1) : ActsRows nulKey u (fileContent · book) := by
  refine Acts.ite Acts.pure (Acts.seq (store_acts nulKey_unique (nulKey_membership h) book.id) ?_)
  have hkey := nulKey_content h book.contentHash
  refine Acts.congr (Acts.branch ((seen_row hkey).map Option.isSome) Acts.pure
    (store_acts nulKey_unique hkey book.id)) ?_
  intro b _
  split
  · next hget => rw [hget]; rfl
  · next hget => rw [hget]; rfl

theorem addBookToContentIndex_eq (tx : Tx) (book : Book) :
    addBookToContentIndex tx book = (do
      let tx ← trackMissingBookHash tx book
      let bucket ← fileContent tx.bookContentIndex book
      .ok { tx with bookContentIndex := bucket }) := by
  rw [addBookToContentIndex]
  congr 1
  funext tx₁
  by_cases hn : book.userID = [] ∨ book.id = [] ∨ book.contentHash = []
  · rw [if_pos hn, fileContent, if_pos hn]
    rfl
  · simp only [if_neg hn, fileContent, bind_assoc]
    congr 1
    funext bucket
    cases bucket.get (bookContentIndexKey book.userID book.contentHash) with
    | some id => rfl
    | none => rfl

theorem addBookToContentIndex_acts (h : book.userID = u.1) :
    Acts view (Ready P) u (addBookToContentIndex · book) := by
  refine Acts.congr (Acts.seq (trackMissingBookHash_acts h) (contentPart.modify (fileContent_acts h))) ?_
  intro tx _
  rw [addBookToContentIndex_eq]
  rfl

/-- The canonical row after a removal, given the first membership row that is left. -/
def replaceCanonical (key : Bytes) (next : Option (Bytes × Bytes)) (bucket : Bucket Bytes) :
    Result (Bucket Bytes) :=
  match next with
  | some (_, id) => store bucket key id
  | none => .ok (bucket.delete key)

theorem replaceCanonical_acts {key : Bytes} (hk : nulKey u key = true)
    (next : Option (Bytes × Bytes)) : ActsRows nulKey u (replaceCanonical key next) := by
  cases next with
  | some row => exact store_acts nulKey_unique hk row.2
  | none => exact delete_acts nulKey_unique hk

theorem unfileContent_acts (h : book.userID = u.1) : ActsRows nulKey u (unfileContent · book) := by
  have hkey := nulKey_content h book.contentHash
  have hbelow : ∀ k, bookContentIndexKey book.userID book.contentHash ++ [nul] <+: k →
      nulKey u k = true := by
    rintro _ ⟨x, rfl⟩
    rw [h, bookContentIndexKey, List.append_assoc, List.append_assoc]
    exact nulKey_append u _
  have hnext := Acts.read ((seen_rows (List.prefix_refl _) hbelow).map List.head?)
    fun _ _ => replaceCanonical_acts hkey _
  refine Acts.congr (Acts.ite (c := book.userID = [] ∨ book.contentHash = []) Acts.pure
    (Acts.seq (delete_acts nulKey_unique (nulKey_membership h))
      (Acts.branch ((seen_row hkey).map (Option.any (· ≠ book.id))) Acts.pure hnext))) ?_
  intro b _
  simp only [unfileContent, ok_bind]
  congr 1
  cases ((b.delete (bookContentMembershipKey book)).get
    (bookContentIndexKey book.userID book.contentHash)).any (· ≠ book.id) with
  | true => rfl
  | false => rfl

theorem removeBookFromContentIndex_eq (tx : Tx) (book : Book) :
    removeBookFromContentIndex tx book = (do
      let bucket ← unfileContent tx.bookContentIndex book
      .ok { tx with
        bookContentIndex := bucket
        bookMissingHashIndex :=
          tx.bookMissingHashIndex.map (·.delete (bookSearchIndexKey book.userID book.id)) }) := by
  simp only [removeBookFromContentIndex, unfileContent]
  by_cases hn : book.userID = [] ∨ book.contentHash = []
  · rw [if_pos hn, if_pos hn]
    rfl
  · rw [if_neg hn, if_neg hn]
    by_cases hcur : ((tx.bookContentIndex.delete (bookContentMembershipKey book)).get
        (bookContentIndexKey book.userID book.contentHash)).any (· ≠ book.id) = true
    · rw [if_pos hcur, if_pos hcur]
      rfl
    · rw [if_neg hcur, if_neg hcur]
      cases ((tx.bookContentIndex.delete (bookContentMembershipKey book)).seek
          (bookContentIndexKey book.userID book.contentHash ++ [nul])
          (bookContentIndexKey book.userID book.contentHash ++ [nul])).head? with
      | some row => rfl
      | none => rfl

theorem removeBookFromContentIndex_acts (h : book.userID = u.1) :
    Acts view (Ready P) u (removeBookFromContentIndex · book) := by
  refine Acts.congr (Acts.seq (missingPart.delete (nulKey_search h book.id))
    (contentPart.modify (unfileContent_acts h))) ?_
  intro tx hr
  obtain ⟨c, hc⟩ := Option.isSome_iff_exists.mp hr.missing
  simp only [removeBookFromContentIndex_eq, ok_bind, contentPart, missingPart, hc, Option.map_some,
    Option.getD_some]

/-! ## Summaries -/

theorem adjustLibrarySummary_acts (h : book.userID = u.1) (d : Int) :
    Acts view (Ready P) u (adjustLibrarySummary · book d) := by
  have hk : summaryPart.owns u book.userID = true := decide_eq_true h
  refine Acts.congr (Acts.ite (c := book.userID = [] ∨ d = 0) Acts.pure
    (Acts.read (f := fun r tx => store (summaryPart.get tx) book.userID
      (adjustedSummary (Option.getD r .zero) (categoryForBook book) d) >>= fun b =>
        .ok (summaryPart.set b tx)) (summaryPart.seen_get hk) fun _ _ => summaryPart.store hk _)) ?_
  intro tx _
  by_cases hn : book.userID = [] ∨ d = 0
  · rw [adjustLibrarySummary, if_pos hn, if_pos hn]
  · have hu : book.userID ≠ [] := fun hu => hn (.inl hu)
    rw [adjustLibrarySummary, if_neg hn, if_neg hn, saveLibrarySummary, if_neg hu, loadLibrarySummary,
      if_neg hu]
    rfl

end Indexes

end ZReader.Storage
