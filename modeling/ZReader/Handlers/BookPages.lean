import ZReader.Storage.Pages

namespace ZReader.Handlers

open Lib.Utf8 Lib.KeyValue Lib.Integers Storage

/-- The page number and the page size that `BooksHandler.List` takes from the two query
parameters; the errors of `Atoi` are ignored. -/
def requestedPage (page pageSize : Option Bytes) : Int × Int :=
  let page := atoi (page.getD (ascii "0"))
  let pageSize := atoi (pageSize.getD (ascii "0"))
  let page := if page < 0 then 0 else page
  let pageSize := if pageSize < 0 then 0 else pageSize
  let pageSize := if pageSize > 100 then 100 else pageSize
  let pageSize := if page > 0 ∧ pageSize = 0 then 20 else pageSize
  (page, pageSize)

/-- The page size is bounded, the page number is not. -/
theorem requestedPage_range (page pageSize : Option Bytes) :
    (requestedPage page pageSize).1 < 2 ^ 63 ∧ (requestedPage page pageSize).2 ≤ 100 ∧
      (0 < (requestedPage page pageSize).2 ∨ (requestedPage page pageSize).1 ≤ 0) := by
  obtain ⟨-, hlt⟩ := atoi_range (page.getD (ascii "0"))
  simp only [requestedPage]
  generalize atoi (page.getD (ascii "0")) = p at hlt
  generalize atoi (pageSize.getD (ascii "0")) = s
  refine ⟨?_, ?_, ?_⟩
  · split <;> omega
  · split_ifs <;> omega
  · split_ifs <;> omega

/-- The page that is listed is the requested one of the user's books exactly when its offsets
stay in range. -/
theorem listed_page_iff {tx : Tx} {userID : Bytes} (h : PageReady tx) (hu : userID ≠ [])
    (hlen : ((booksByID tx userID).length : Int) < 2 ^ 63) (page pageSize : Option Bytes) :
    let (page, pageSize) := requestedPage page pageSize
    listBooksPaginated tx userID page pageSize =
        some (pageOf (booksByID tx userID) page pageSize) ↔
      PageInRange (booksByID tx userID).length page pageSize := by
  obtain ⟨hp, hs, hpos⟩ := requestedPage_range page pageSize
  have hbooks := h.indexedBooks hu
  rw [← hbooks] at hlen ⊢
  exact listBooksPaginated_eq_pageOf_iff hp (by omega) hpos hlen

/-- No client meets a wrapped offset before its page number exceeds 92 quadrillion. -/
theorem pageInRange_of_small {page pageSize : Int} {length : Nat} (hp : page < 2 ^ 63 / 100)
    (hs : pageSize ≤ 100) : PageInRange length page pageSize := by
  rcases le_or_gt page 0 with hpage | hpage
  · exact .inl hpage
  · right
    left
    calc page * pageSize ≤ page * 100 := mul_le_mul_of_nonneg_left hs hpage.le
      _ < 2 ^ 63 := by omega

/-! ## A page number that wraps -/

theorem uploaded_pageReady : PageReady uploaded where
  coherent := uploaded_reached.coherent
  owner id book hbook := by
    have hrows : uploaded.books.values.all (fun book => decide (colon ∉ book.userID)) = true := by
      decide +kernel
    exact of_decide_eq_true
      (List.all_eq_true.mp hrows book (Bucket.mem_values.mpr ⟨id, hbook⟩))

theorem uploaded_books : (booksByID uploaded (ascii "u")).length = 1 := by
  decide +kernel

/-- The offset of the last page of all wraps to -200, and the slice panics. -/
theorem last_page_panics :
    ¬∀ (tx : Tx) (userID : Bytes) (page pageSize : Option Bytes), PageReady tx → userID ≠ [] →
      ((booksByID tx userID).length : Int) < 2 ^ 63 →
      listBooksPaginated tx userID (requestedPage page pageSize).1 (requestedPage page pageSize).2 =
        some (pageOf (booksByID tx userID) (requestedPage page pageSize).1
          (requestedPage page pageSize).2) := by
  intro h
  have hlisted := h uploaded (ascii "u") (some (ascii "9223372036854775807")) (some (ascii "100"))
    uploaded_pageReady (by decide) (by rw [uploaded_books]; decide)
  have hpanics : listBooksPaginated uploaded (ascii "u")
      (requestedPage (some (ascii "9223372036854775807")) (some (ascii "100"))).1
      (requestedPage (some (ascii "9223372036854775807")) (some (ascii "100"))).2 = none := by
    decide +kernel
  rw [hpanics] at hlisted
  cases hlisted

theorem first_page_listed :
    listBooksPaginated uploaded (ascii "u") 1 20 =
      some (pageOf (booksByID uploaded (ascii "u")) 1 20) := by
  have hiff := listed_page_iff uploaded_pageReady (by decide : ascii "u" ≠ [])
    (by rw [uploaded_books]; decide) (some (ascii "1")) none
  have hpage : requestedPage (some (ascii "1")) none = (1, 20) := by decide +kernel
  rw [hpage] at hiff
  exact hiff.mpr (pageInRange_of_small (by decide) (by decide))

/-- A later page number wraps to the first page. -/
example : (listBooksPaginated uploaded (ascii "u") 4611686018427387905 4).map List.length = some 1 := by
  decide +kernel

end ZReader.Handlers
