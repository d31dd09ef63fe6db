import ZReader.Handlers.Books
import ZReader.Storage.ShelfListing

namespace ZReader.Handlers

open Lib.Utf8 Lib.Strings Lib.KeyValue Storage

/-! ## Categories of requests -/

/-- The name is one that the server stores as it is given. -/
def AcceptedCategory (name : Bytes) : Prop :=
  normalizeBookCategory (some name) = some name ∧ runeCount name ≤ maxBookCategoryRunes

instance (name : Bytes) : Decidable (AcceptedCategory name) :=
  inferInstanceAs (Decidable (_ ∧ _))

/-- The filter that the two query parameters ask for. -/
def requestedBookCategory (category uncategorized : Option Bytes) : Option Bytes :=
  match category.filter fun category => trimSpace category ≠ [] with
  | some category => some (trimSpace category)
  | none => if uncategorized = some (ascii "true") then some [] else none

theorem AcceptedCategory.trimmed {name : Bytes} (h : AcceptedCategory name) :
    trimSpace name = name ∧ name ≠ [] := by
  have hname := h.1
  rw [normalizeBookCategory, normalizeCategoryName] at hname
  split at hname
  · simp at hname
  · next hne =>
    have htrim := Option.some.inj hname
    exact ⟨htrim, htrim ▸ hne⟩

theorem requestedBookCategory_accepted {name : Bytes} (h : AcceptedCategory name)
    (uncategorized : Option Bytes) :
    requestedBookCategory (some name) uncategorized = some name := by
  obtain ⟨htrim, hne⟩ := h.trimmed
  simp [requestedBookCategory, Option.filter, htrim, hne]

/-! ## The pages of a filter -/

/-- What a client receives that follows the pages of a filter to the end. -/
def listedBooks (tx : Tx) (userID : Bytes) (category uncategorized : Option Bytes) (limit : Int)
    (sort : Bytes) : Option (List Book) :=
  (followListing tx userID limit sort [requestedBookCategory category uncategorized]
    (tx.books.values.length + 1) []).map List.flatten

theorem listedBooks_eq {tx : Tx} (hc : Coherent tx) {userID : Bytes} (hu : userID ≠ [])
    {limit : Int} (hl : 0 < limit) (category uncategorized : Option Bytes) (sort : Bytes) :
    ∃ books, listedBooks tx userID category uncategorized limit sort = some books ∧
      ∀ b, b ∈ books ↔ tx.books.get b.id = some b ∧
        selects userID
          (selectedBookCategory [requestedBookCategory category uncategorized]) b = true := by
  generalize hf : [requestedBookCategory category uncategorized] = filters
  have hall := matchesAfter_nil hc userID [] (normalizeBookSort sort) (selectedBookCategory filters)
  have hshort : (matchesInOrder tx userID [] (normalizeBookSort sort)
      (selectedBookCategory filters)).length ≤ tx.books.values.length := by
    rw [matchesInOrder, Lib.Ordered.sortByKey, List.length_insertionSort, matchingBooks]
    exact List.length_filter_le _ _
  obtain ⟨pages, hpages, -, hflat, -⟩ := followListing_pages hc hu hl sort filters
    (tx.books.values.length + 1) [] (by rw [hall]; omega)
  refine ⟨pages.flatten, ?_, ?_⟩
  · rw [listedBooks, hf, hpages]
    rfl
  · intro b
    rw [hflat, hall, mem_matchesInOrder hc.keyed]
    simp [contains_nil]

end ZReader.Handlers
