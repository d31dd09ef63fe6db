import ZReader.Storage.ProgressListing
import ZReader.Storage.SearchPlans

namespace ZReader.Storage

open Lib.Utf8 Lib.Strings Lib.KeyValue Lib.Ordered

/-! ## The order of the shelf -/

def lastRead (book : Book) : Time := book.lastReadAt.getD book.createdAt

/-- The text that a shelf is ordered by: trimmed, in lower case and without NUL bytes. -/
def shelfText (text : Bytes) : Bytes := withoutSeparator (toLower (trimSpace text))

def LatestFirst (time : Book → Time) (a b : Book) : Prop :=
  (time b).nanos < (time a).nanos ∨ (time a).nanos = (time b).nanos ∧ compare a.id b.id = .lt

def TextFirst (text : Book → Bytes) (a b : Book) : Prop :=
  compare (text a) (text b) = .lt ∨ text a = text b ∧ compare a.id b.id = .lt

/-- The order in which a shelf shows its books; ties are broken by the identifier. -/
def ShelfBefore : SortKey → Book → Book → Prop
  | .recentRead => LatestFirst lastRead
  | .recentAdded => LatestFirst (·.createdAt)
  | .title => TextFirst (fun book => shelfText book.title)
  | .author => TextFirst (fun book => shelfText book.author)

/-- The times of a book lie between 1970 and 2262. -/
def TimesInRange (b : Book) : Prop := b.createdAt.InRange ∧ ∀ t ∈ b.lastReadAt, t.InRange

instance (b : Book) : Decidable (TimesInRange b) := inferInstanceAs (Decidable (_ ∧ _))

theorem TimesInRange.lastRead {b : Book} (h : TimesInRange b) : (lastRead b).InRange := by
  rw [Storage.lastRead]
  cases hread : b.lastReadAt with
  | none => exact h.1
  | some t => exact h.2 t (by rw [hread]; rfl)

/-! ## Keys in byte order -/

/-- Joined with a separator that the texts do not contain, keys sort by the texts first. -/
theorem compare_separated {x y : Bytes} (hx : nul ∉ x) (hy : nul ∉ y) (a b : Bytes) :
    compare (x ++ nul :: a) (y ++ nul :: b) = .lt ↔
      compare x y = .lt ∨ x = y ∧ compare a b = .lt := by
  have hleast {c : UInt8} {l : Bytes} (h : nul ∉ c :: l) : compare nul c = .lt := by
    have hne : c ≠ nul := fun he => h (by simp [he])
    have hlt : nul < c := UInt8.pos_iff_ne_zero.mpr hne
    simp [compare, compareOfLessAndEq, hlt]
  induction x generalizing y with
  | nil =>
      cases y with
      | nil => simp [List.compare_cons_cons]
      | cons d y =>
          have hlt := hleast hy
          simp [List.compare_cons_cons, hlt]
  | cons c x ih =>
      cases y with
      | nil =>
          have hgt := Std.OrientedCmp.gt_of_lt (hleast hx)
          simp [List.compare_cons_cons, hgt]
      | cons d y =>
          have htail := ih (List.not_mem_of_not_mem_cons hx) (List.not_mem_of_not_mem_cons hy)
          simp only [List.cons_append, List.compare_cons_cons]
          cases hcd : compare c d with
          | lt => simp
          | gt =>
              have hne : c ≠ d := by
                rintro rfl
                simp at hcd
              simp [hne]
          | eq =>
              have he : c = d := Std.LawfulEqOrd.eq_of_compare hcd
              simpa [he] using htail

/-- Inverted timestamps sort the later time first. -/
theorem compare_inverted {t t' : Time} (ht : t.InRange) (ht' : t'.InRange) (a b : Bytes) :
    compare (invertedBookTimestamp t ++ a) (invertedBookTimestamp t' ++ b) = .lt ↔
      t'.nanos < t.nanos ∨ t.nanos = t'.nanos ∧ compare a b = .lt := by
  rw [invertedBookTimestamp, invertedBookTimestamp, clampedTimestamp_of_inRange ht,
    clampedTimestamp_of_inRange ht', maxTimestamp]
  obtain ⟨h₀, h₁⟩ := ht
  obtain ⟨h₀', h₁'⟩ := ht'
  rcases lt_trichotomy t.nanos t'.nanos with hlt | he | hgt
  · have hbelow : (2 ^ 63 - 1 - t'.nanos).toNat < (2 ^ 63 - 1 - t.nanos).toNat := by omega
    have hwidth : (2 ^ 63 - 1 - t.nanos).toNat < 10 ^ 19 := by omega
    have hcmp := Std.OrientedCmp.gt_of_lt (compare_padded_append hbelow hwidth b a)
    rw [hcmp]
    constructor
    · intro h
      cases h
    · rintro (h | ⟨h, -⟩) <;> omega
  · rw [he, compare_append_left]
    simp
  · have hbelow : (2 ^ 63 - 1 - t.nanos).toNat < (2 ^ 63 - 1 - t'.nanos).toNat := by omega
    have hwidth : (2 ^ 63 - 1 - t'.nanos).toNat < 10 ^ 19 := by omega
    exact iff_of_true (compare_padded_append hbelow hwidth a b) (.inl hgt)

theorem nul_notMem_withoutSeparator (s : Bytes) : nul ∉ withoutSeparator s := by
  simp [withoutSeparator]

/-- The byte order of the index keys of one user is the order of the shelf. -/
theorem before_bookSortIndexKey_iff {s : SortKey} {b b' : Book} (hu : b.userID = b'.userID)
    (ht : TimesInRange b) (ht' : TimesInRange b') :
    Before (bookSortIndexKey · s) b b' ↔ ShelfBefore s b b' := by
  have hcompare (t t' : Time) (ht : t.InRange) (ht' : t'.InRange) :
      compare (invertedBookTimestamp t ++ nul :: b.id) (invertedBookTimestamp t' ++ nul :: b'.id) =
        .lt ↔ t'.nanos < t.nanos ∨ t.nanos = t'.nanos ∧ compare b.id b'.id = .lt := by
    rw [compare_inverted ht ht']
    simp [List.compare_cons_cons]
  rw [Before, bookSortIndexKey_tail, bookSortIndexKey_tail, hu, compare_append_left, orderTail,
    orderTail]
  cases s with
  | recentRead => exact hcompare _ _ ht.lastRead ht'.lastRead
  | recentAdded => exact hcompare _ _ ht.1 ht'.1
  | title =>
      exact compare_separated (nul_notMem_withoutSeparator _) (nul_notMem_withoutSeparator _) _ _
  | author =>
      exact compare_separated (nul_notMem_withoutSeparator _) (nul_notMem_withoutSeparator _) _ _

/-! ## Following the pages -/

/-- The pages of a listing from a cursor on, until one returns no next cursor; without a
result when the fuel runs out first. -/
def followListing (tx : Tx) (userID : Bytes) (limit : Int) (sortKey : Bytes)
    (filters : List (Option Bytes)) : Nat → Bytes → Option (List (List Book))
  | 0, _ => none
  | fuel + 1, cursor =>
      match listBooksBySortedCursor tx userID cursor limit sortKey filters with
      | .error _ => none
      | .ok (books, next) =>
          if next = [] then some [books]
          else (followListing tx userID limit sortKey filters fuel next).map (books :: ·)

variable {tx : Tx} {userID : Bytes} {limit : Int} {sortKey : Bytes} {filters : List (Option Bytes)}

theorem listBooksBySortedCursor_eq (hc : Coherent tx) (hu : userID ≠ []) (hl : 0 < limit)
    (sortKey cursor : Bytes) (filters : List (Option Bytes)) :
    listBooksBySortedCursor tx userID cursor limit sortKey filters =
      .ok (referencePage (matchesAfter tx userID [] cursor (normalizeBookSort sortKey)
        (selectedBookCategory filters)) limit.toNat) := by
  rw [listBooksBySortedCursor, if_neg (by simp [hu]; omega), scanSortedBooks_eq hc hu cursor hl]
  simp only [bind, Except.bind]
  rw [bookCursorPage_take _ hl]

/-- All pages but the last are full, and together they are the listing after the cursor. -/
theorem followListing_pages (hc : Coherent tx) (hu : userID ≠ []) (hl : 0 < limit)
    (sortKey : Bytes) (filters : List (Option Bytes)) (fuel : Nat) (cursor : Bytes)
    (hfuel : (matchesAfter tx userID [] cursor (normalizeBookSort sortKey)
      (selectedBookCategory filters)).length < fuel) :
    ∃ pages, followListing tx userID limit sortKey filters fuel cursor = some pages ∧ pages ≠ [] ∧
      pages.flatten = matchesAfter tx userID [] cursor (normalizeBookSort sortKey)
        (selectedBookCategory filters) ∧
      ∀ page ∈ pages.dropLast, (page.length : Int) = limit := by
  induction fuel generalizing cursor with
  | zero => omega
  | succ fuel ih =>
      rw [followListing, listBooksBySortedCursor_eq hc hu hl, referencePage]
      generalize hm : matchesAfter tx userID [] cursor _ _ = l at hfuel ⊢
      simp only
      by_cases hmore : limit.toNat < l.length
      · obtain ⟨b, hb, hid, hrest⟩ := matchesAfter_next hc.keyed hm (by omega) hmore
        have hshort : (matchesAfter tx userID [] b.id (normalizeBookSort sortKey)
            (selectedBookCategory filters)).length < fuel := by
          rw [hrest, List.length_drop]
          omega
        obtain ⟨pages, hpages, hne, hflat, hfull⟩ := ih b.id hshort
        refine ⟨l.take limit.toNat :: pages, ?_, by simp, ?_, ?_⟩
        · rw [if_pos hmore, hb, Option.map_some, Option.getD_some, if_neg hid, hpages,
            Option.map_some]
        · rw [List.flatten_cons, hflat, hrest, List.take_append_drop]
        · intro page hpage
          rw [List.dropLast_cons_of_ne_nil hne, List.mem_cons] at hpage
          rcases hpage with rfl | hpage
          · rw [List.length_take]
            omega
          · exact hfull page hpage
      · refine ⟨[l], ?_, by simp, by simp, by simp⟩
        rw [if_neg hmore, if_pos rfl, List.take_of_length_le (by omega)]

/-- Following the next cursors from the empty one ends, with pages that are full except the
last and show each of the user's books of the category once, in the order of the shelf. -/
theorem listing_follows (hc : Coherent tx) (ht : ∀ id b, tx.books.get id = some b → TimesInRange b)
    (hu : userID ≠ []) (hl : 0 < limit) (sortKey : Bytes) (filters : List (Option Bytes)) (fuel : Nat)
    (hfuel : tx.books.values.length < fuel) :
    ∃ pages, followListing tx userID limit sortKey filters fuel [] = some pages ∧
      (∀ page ∈ pages.dropLast, (page.length : Int) = limit) ∧
      pages.flatten.Nodup ∧
      (∀ b, b ∈ pages.flatten ↔ tx.books.get b.id = some b ∧
        selects userID (selectedBookCategory filters) b = true) ∧
      pages.flatten.Pairwise (ShelfBefore (normalizeBookSort sortKey)) := by
  have hall := matchesAfter_nil hc userID [] (normalizeBookSort sortKey) (selectedBookCategory filters)
  have hmem (b : Book) : b ∈ matchesInOrder tx userID [] (normalizeBookSort sortKey)
      (selectedBookCategory filters) ↔ tx.books.get b.id = some b ∧
        selects userID (selectedBookCategory filters) b = true := by
    rw [mem_matchesInOrder hc.keyed]
    simp [contains_nil]
  have hsorted := matchesInOrder_pairwise hc.keyed userID [] (normalizeBookSort sortKey)
    (selectedBookCategory filters)
  have hshort : (matchesInOrder tx userID [] (normalizeBookSort sortKey)
      (selectedBookCategory filters)).length ≤ tx.books.values.length := by
    rw [matchesInOrder, sortByKey, List.length_insertionSort, matchingBooks]
    exact List.length_filter_le _ _
  obtain ⟨pages, hpages, -, hflat, hfull⟩ := followListing_pages hc hu hl sortKey filters fuel []
    (by rw [hall]; omega)
  rw [hall] at hflat
  refine ⟨pages, hpages, hfull, ?_, ?_, ?_⟩
  · rw [hflat]
    refine hsorted.imp ?_
    rintro b b' hbefore rfl
    exact Before.irrefl b hbefore
  · intro b
    rw [hflat, hmem]
  · rw [hflat]
    refine hsorted.imp_of_mem ?_
    intro b b' hb hb' hbefore
    obtain ⟨hget, hsel⟩ := (hmem b).mp hb
    obtain ⟨hget', hsel'⟩ := (hmem b').mp hb'
    have hsame : b.userID = b'.userID :=
      (selects_iff.mp hsel).1.trans (selects_iff.mp hsel').1.symm
    exact (before_bookSortIndexKey_iff hsame (ht _ _ hget) (ht _ _ hget')).mp hbefore

theorem stocked_timesInRange (id : Bytes) (b : Book) (h : stocked.books.get id = some b) :
    TimesInRange b := by
  have hrows : stocked.books.values.all (fun b => decide (TimesInRange b)) = true := by
    decide +kernel
  exact of_decide_eq_true (List.all_eq_true.mp hrows b (Bucket.mem_values.mpr ⟨id, h⟩))

/-- The titles are equal, and the identifiers decide about the order. -/
theorem stocked_listing_follows : ∃ pages,
    followListing stocked (ascii "u") 2 (ascii "title") [] 4 [] = some pages ∧
      pages.map (List.map (·.id)) = [[ascii "b", ascii "c"], [ascii "d"]] ∧
      (∀ page ∈ pages.dropLast, (page.length : Int) = 2) ∧ pages.flatten.Nodup ∧
      pages.flatten.Pairwise (ShelfBefore .title) := by
  obtain ⟨pages, hpages, hfull, hnodup, -, hordered⟩ := listing_follows stocked_coherent
    stocked_timesInRange (by decide : ascii "u" ≠ []) (by decide : (0 : Int) < 2) (ascii "title") [] 4
    (by decide +kernel)
  refine ⟨pages, hpages, ?_, hfull, hnodup, hordered⟩
  have hids : (followListing stocked (ascii "u") 2 (ascii "title") [] 4 []).map
      (List.map (List.map (·.id))) = some [[ascii "b", ascii "c"], [ascii "d"]] := by
    decide +kernel
  rwa [hpages, Option.map_some, Option.some.injEq] at hids

end ZReader.Storage
