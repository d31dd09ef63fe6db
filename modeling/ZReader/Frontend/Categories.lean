import ZReader.Handlers.BookQueries
import ZReader.Lib.Ecma

namespace ZReader.Frontend.Categories

open Lib.Utf8 Lib.Strings Lib.KeyValue Lib.Ecma Storage Handlers

/-! ## The shelf's filters and counts -/

structure ShelfBook where
  id : Bytes
  category : Option Text
  deriving DecidableEq

structure LibrarySummary where
  total : Int
  uncategorized : Int
  categories : List (Text × Int)

def uncategorizedFilterId : Text := "uncategorized".toList

/-- The property of the counts that holds the size of the library. -/
def allKey : Text := "all".toList

def bookPageSize : Int := 50

structure BookQueryOptions where
  category : Option Text
  uncategorized : Bool

def categoryOptions (selectedCategoryId : Option Text) : BookQueryOptions :=
  if selectedCategoryId = some uncategorizedFilterId then ⟨none, true⟩
  else ⟨selectedCategoryId.filter (· ≠ []), false⟩

/-- The two parameters that `api.listBooksPage` sends; a blank category is not sent. -/
def queryParameters (options : BookQueryOptions) : Option Bytes × Option Bytes :=
  match options.category.filter (· ≠ []) with
  | some category => (some (encode category), none)
  | none => (none, if options.uncategorized then some (ascii "true") else none)

/-- The pages of a selection, all together. -/
def requestedBooks (tx : Tx) (userID : Bytes) (sort : Bytes) (selectedCategoryId : Option Text) :
    Option (List Book) :=
  let (category, uncategorized) := queryParameters (categoryOptions selectedCategoryId)
  listedBooks tx userID category uncategorized bookPageSize sort

/-- The books of a list, or of a search result, that are shown. -/
def filteredBooks (searched : List ShelfBook) (selectedCategoryId : Option Text) : List ShelfBook :=
  match selectedCategoryId.filter (· ≠ []) with
  | none => searched
  | some selected =>
      if selected = uncategorizedFilterId then
        searched.filter fun book => (book.category.map trim).getD [] = []
      else searched.filter fun book => book.category.map trim = some selected

/-- One step of the loop that counts without a summary. -/
def countBook (counts : Properties) (book : ShelfBook) : Properties :=
  match (book.category.map trim).filter (· ≠ []) with
  | some category => bump counts category
  | none => addOne counts uncategorizedFilterId

def bookCounts (summary : Option LibrarySummary) (books : List ShelfBook) : Properties :=
  match summary with
  | some summary =>
      summary.categories.map (fun p => (p.1, .number p.2)) ++
        [(uncategorizedFilterId, .number summary.uncategorized), (allKey, .number summary.total)]
  | none =>
      books.foldl countBook [(uncategorizedFilterId, .number 0), (allKey, .number books.length)]

/-! ## What the server sends -/

def receivedBook (b : Book) : ShelfBook := ⟨b.id, b.category.map runes⟩

def receivedSummary (s : BookLibrarySummary) : LibrarySummary :=
  ⟨s.total, s.uncategorized, s.categories.toList.map fun p => (runes p.1, p.2)⟩

def libraryOf (tx : Tx) (userID : Bytes) : List ShelfBook :=
  (tx.books.values.filter fun b => b.userID = userID).map receivedBook

def AcceptedName (name : Text) : Prop := AcceptedCategory (encode name)

instance (name : Text) : Decidable (AcceptedName name) :=
  inferInstanceAs (Decidable (AcceptedCategory _))

/-- The user's categories are names that the server accepts. -/
def NamesAccepted (tx : Tx) (userID : Bytes) : Prop :=
  ∀ b ∈ tx.books.values, b.userID = userID → ∀ c ∈ b.category, ∃ name, c = encode name ∧
    AcceptedName name

/-! ## Faithful filters and counts -/

def InUse (library : List ShelfBook) (name : Text) : Prop :=
  ∃ book ∈ library, book.category = some name

instance (library : List ShelfBook) (name : Text) : Decidable (InUse library name) :=
  inferInstanceAs (Decidable (∃ _ ∈ _, _))

def inCategory (name : Text) (book : ShelfBook) : Bool := book.category = some name

def withoutCategory (book : ShelfBook) : Bool := book.category = none

section Faithful

variable (tx : Tx) (userID : Bytes)

/-- A selection requests exactly the user's books with the property. -/
def Requests (selected : Text) (p : ShelfBook → Bool) : Prop :=
  ∀ sort, ∃ books, requestedBooks tx userID sort (some selected) = some books ∧
    ∀ b, b ∈ books ↔ tx.books.get b.id = some b ∧ b.userID = userID ∧ p (receivedBook b) = true

/-- Of whatever books of the library are loaded, a selection shows exactly those with the
property. -/
def Shows (selected : Text) (p : ShelfBook → Bool) : Prop :=
  ∀ loaded, (∀ book ∈ loaded, book ∈ libraryOf tx userID) →
    filteredBooks loaded (some selected) = loaded.filter p

/-- The counts of a shelf that has the summary, or has loaded the given books without it. -/
def countsOf (summaryLoaded : Bool) (loaded : List ShelfBook) : Properties :=
  bookCounts (if summaryLoaded then some (receivedSummary (loadLibrarySummary tx userID)) else none)
    loaded

structure CategoryFaithful (summaryLoaded : Bool) (loaded : List ShelfBook) (name : Text) :
    Prop where
  requests : Requests tx userID name (inCategory name)
  shows : Shows tx userID name (inCategory name)
  counts : count (countsOf tx userID summaryLoaded loaded) name =
    .number ((libraryOf tx userID).countP (inCategory name))

structure TotalsFaithful (summaryLoaded : Bool) (loaded : List ShelfBook) : Prop where
  requests : Requests tx userID uncategorizedFilterId withoutCategory
  shows : Shows tx userID uncategorizedFilterId withoutCategory
  uncategorized : get (countsOf tx userID summaryLoaded loaded) uncategorizedFilterId =
    some (.number ((libraryOf tx userID).countP withoutCategory))
  all : get (countsOf tx userID summaryLoaded loaded) allKey =
    some (.number (libraryOf tx userID).length)

end Faithful

/-! ## The requests -/

/-- The filter that the storage applies for a selection. -/
def requestedFilter (selected : Text) : Option Bytes :=
  let (category, uncategorized) := queryParameters (categoryOptions (some selected))
  selectedBookCategory [requestedBookCategory category uncategorized]

theorem requestedFilter_uncategorized : requestedFilter uncategorizedFilterId = some [] := by
  decide +kernel

theorem AcceptedName.ne_nil {name : Text} (h : AcceptedName name) : name ≠ [] := by
  rintro rfl
  exact h.trimmed.2 rfl

theorem requestedFilter_accepted {name : Text} (h : AcceptedName name)
    (hname : name ≠ uncategorizedFilterId) : requestedFilter name = some (encode name) := by
  have hne := h.ne_nil
  have hquery : queryParameters (categoryOptions (some name)) = (some (encode name), none) := by
    simp [queryParameters, categoryOptions, hname, hne, Option.filter]
  rw [requestedFilter, hquery]
  simp only [requestedBookCategory_accepted h, selectedBookCategory, h.trimmed.1]

theorem mem_stored_iff {tx : Tx} (hc : Coherent tx) {b : Book} :
    b ∈ tx.books.values ↔ tx.books.get b.id = some b := by
  rw [Bucket.mem_values]
  constructor
  · rintro ⟨k, hk⟩
    obtain ⟨rfl, -⟩ := hc.keyed k b hk
    exact hk
  · intro h
    exact ⟨b.id, h⟩

section Server

variable {tx : Tx} (hc : Coherent tx) {userID : Bytes} (hu : userID ≠ [])

include hc hu

theorem requests_iff (selected : Text) (p : ShelfBook → Bool) :
    Requests tx userID selected p ↔ ∀ b ∈ tx.books.values, b.userID = userID →
      (selects userID (requestedFilter selected) b = true ↔ p (receivedBook b) = true) := by
  have hlisted (sort : Bytes) := listedBooks_eq hc hu (by decide : 0 < bookPageSize)
    (queryParameters (categoryOptions (some selected))).1
    (queryParameters (categoryOptions (some selected))).2 sort
  constructor
  · intro h b hb howner
    obtain ⟨books, hbooks, hmem⟩ := h []
    obtain ⟨listed, hl, hmem'⟩ := hlisted []
    have heq : books = listed := Option.some.inj (hbooks.symm.trans hl)
    subst heq
    have hget := (mem_stored_iff hc).mp hb
    have hboth := (hmem' b).symm.trans (hmem b)
    simp only [hget, howner, true_and] at hboth
    exact hboth
  · intro h sort
    obtain ⟨listed, hl, hmem⟩ := hlisted sort
    refine ⟨listed, hl, fun b => ?_⟩
    rw [hmem b]
    constructor
    · rintro ⟨hget, hsel⟩
      have howner := (selects_iff.mp hsel).1
      exact ⟨hget, howner, (h b ((mem_stored_iff hc).mpr hget) howner).mp hsel⟩
    · rintro ⟨hget, howner, hp⟩
      exact ⟨hget, (h b ((mem_stored_iff hc).mpr hget) howner).mpr hp⟩

end Server

section Names

variable {tx : Tx} {userID : Bytes} (hnames : NamesAccepted tx userID)

include hnames

/-- A stored book has no category, or one whose name arrives as it was accepted. -/
theorem received_cases {b : Book} (hb : b ∈ tx.books.values) (howner : b.userID = userID) :
    (receivedBook b).category = none ∧ categoryForBook b = [] ∨
      ∃ name, AcceptedName name ∧ (receivedBook b).category = some name ∧
        categoryForBook b = encode name := by
  cases hcat : b.category with
  | none => exact .inl ⟨by simp [receivedBook, hcat], by simp [categoryForBook, hcat]⟩
  | some c =>
      obtain ⟨name, rfl, hname⟩ := hnames b hb howner c (by rw [hcat]; rfl)
      refine .inr ⟨name, hname, by simp [receivedBook, hcat, runes_encode], ?_⟩
      simp [categoryForBook, hcat, hname.trimmed.1]

theorem withoutCategory_iff {b : Book} (hb : b ∈ tx.books.values) (howner : b.userID = userID) :
    withoutCategory (receivedBook b) = true ↔ categoryForBook b = [] := by
  rcases received_cases hnames hb howner with ⟨hcat, hempty⟩ | ⟨name, hname, hcat, hstored⟩
  · simp [withoutCategory, hcat, hempty]
  · simp [withoutCategory, hcat, hstored, hname.trimmed.2]

theorem inCategory_iff {b : Book} (hb : b ∈ tx.books.values) (howner : b.userID = userID)
    {name : Text} (hname : name ≠ []) :
    inCategory name (receivedBook b) = true ↔ categoryForBook b = encode name := by
  rcases received_cases hnames hb howner with ⟨hcat, hempty⟩ | ⟨other, hother, hcat, hstored⟩
  · have hne : encode name ≠ [] := fun h => hname (encode_injective (h.trans rfl))
    simp [inCategory, hcat, hempty, hne.symm]
  · simp [inCategory, hcat, hstored, encode_injective.eq_iff]

theorem accepted_of_inUse {name : Text} (h : InUse (libraryOf tx userID) name) :
    AcceptedName name := by
  obtain ⟨book, hbook, hcat⟩ := h
  obtain ⟨b, hb, rfl⟩ := List.mem_map.mp hbook
  obtain ⟨hb, howner⟩ := List.mem_filter.mp hb
  rcases received_cases hnames hb (by simpa using howner) with ⟨hnone, -⟩ | ⟨other, hother, hsome, -⟩
  · rw [hcat] at hnone
    cases hnone
  · rw [hcat] at hsome
    cases hsome
    exact hother

end Names

theorem mem_libraryOf {tx : Tx} {userID : Bytes} {book : ShelfBook} :
    book ∈ libraryOf tx userID ↔
      ∃ b ∈ tx.books.values, b.userID = userID ∧ receivedBook b = book := by
  simp only [libraryOf, List.mem_map, List.mem_filter, decide_eq_true_eq, and_assoc]

theorem requests_uncategorized {tx : Tx} (hc : Coherent tx) {userID : Bytes} (hu : userID ≠ [])
    (hnames : NamesAccepted tx userID) :
    Requests tx userID uncategorizedFilterId withoutCategory := by
  rw [requests_iff hc hu, requestedFilter_uncategorized]
  intro b hb howner
  rw [withoutCategory_iff hnames hb howner, selects_iff]
  simp [howner]

theorem requests_category_iff {tx : Tx} (hc : Coherent tx) {userID : Bytes} (hu : userID ≠ [])
    (hnames : NamesAccepted tx userID) {name : Text} (hname : AcceptedName name) :
    Requests tx userID name (inCategory name) ↔ (name = uncategorizedFilterId →
      ∀ book ∈ libraryOf tx userID, withoutCategory book = false ∧ inCategory name book = false) := by
  rw [requests_iff hc hu]
  by_cases hsentinel : name = uncategorizedFilterId
  · rw [hsentinel, requestedFilter_uncategorized]
    simp only [forall_const]
    constructor
    · intro h book hbook
      obtain ⟨b, hb, howner, rfl⟩ := mem_libraryOf.mp hbook
      have hboth := h b hb howner
      rw [selects_iff] at hboth
      simp only [howner, true_and, Option.some.injEq, forall_eq'] at hboth
      rw [← withoutCategory_iff hnames hb howner] at hboth
      cases hcat : (receivedBook b).category with
      | none =>
          have hwithout : withoutCategory (receivedBook b) = true := by simp [withoutCategory, hcat]
          have hin := hboth.mp hwithout
          simp [inCategory, hcat] at hin
      | some other =>
          have hwithout : withoutCategory (receivedBook b) = false := by
            simp [withoutCategory, hcat]
          refine ⟨hwithout, ?_⟩
          rw [Bool.eq_false_iff]
          intro hin
          have := hboth.mpr hin
          rw [hwithout] at this
          cases this
    · intro h b hb howner
      obtain ⟨hwithout, hin⟩ := h _ (mem_libraryOf.mpr ⟨b, hb, howner, rfl⟩)
      rw [hin, selects_iff]
      simp only [howner, true_and, Option.some.injEq, forall_eq']
      rw [← withoutCategory_iff hnames hb howner, hwithout]
  · rw [requestedFilter_accepted hname hsentinel]
    refine iff_of_true ?_ fun h => absurd h hsentinel
    intro b hb howner
    rw [inCategory_iff hnames hb howner hname.ne_nil, selects_iff]
    simp [howner]

/-! ## What is shown -/

/-- A selection shows the book. -/
def shown (selected : Text) (book : ShelfBook) : Bool :=
  if selected = uncategorizedFilterId then (book.category.map trim).getD [] = []
  else book.category.map trim = some selected

theorem filteredBooks_eq {selected : Text} (h : selected ≠ []) (searched : List ShelfBook) :
    filteredBooks searched (some selected) = searched.filter (shown selected) := by
  have hsome : (some selected).filter (fun s => s ≠ ([] : Text)) = some selected := by
    simp [Option.filter, h]
  rw [filteredBooks, hsome]
  by_cases hs : selected = uncategorizedFilterId
  · simp only [if_pos hs]
    exact List.filter_congr fun book _ => by rw [shown, if_pos hs]
  · simp only [if_neg hs]
    exact List.filter_congr fun book _ => by rw [shown, if_neg hs]

theorem shows_iff {tx : Tx} {userID : Bytes} {selected : Text} (h : selected ≠ [])
    (p : ShelfBook → Bool) :
    Shows tx userID selected p ↔ ∀ book ∈ libraryOf tx userID, shown selected book = p book := by
  constructor
  · intro hshows book hbook
    have hone := hshows [book] (by simpa using hbook)
    rw [filteredBooks_eq h] at hone
    cases hs : shown selected book <;> cases hp : p book <;> simp [List.filter, hs, hp] at hone ⊢
  · intro hall loaded hloaded
    rw [filteredBooks_eq h]
    exact List.filter_congr fun book hbook => hall book (hloaded book hbook)

theorem accepted_trim_iff {name : Text} (h : AcceptedName name) : trim name = name ↔ Unmarked name := by
  have htrim := h.trimmed.1
  rw [trimSpace_encode] at htrim
  have hboth := encode_injective htrim
  have hlen := (List.rdropWhile_prefix Lib.Unicode.isSpace (name.dropWhile Lib.Unicode.isSpace)).length_le
  have hfront : name.dropWhile Lib.Unicode.isSpace = name := by
    refine (List.dropWhile_suffix Lib.Unicode.isSpace).eq_of_length_le ?_
    rwa [hboth] at hlen
  rw [hfront] at hboth
  exact trim_eq_self_iff_unmarked hfront hboth

section Plain

variable {library : List ShelfBook} (hplain : ∀ name, InUse library name → trim name = name)
  (hne : ∀ name, InUse library name → name ≠ [])

include hplain

theorem map_trim {book : ShelfBook} (hbook : book ∈ library) : book.category.map trim = book.category := by
  cases hcat : book.category with
  | none => rfl
  | some name => rw [Option.map_some, hplain name ⟨book, hbook, hcat⟩]

theorem shown_category {book : ShelfBook} (hbook : book ∈ library) {name : Text}
    (hname : name ≠ uncategorizedFilterId) : shown name book = inCategory name book := by
  rw [shown, if_neg hname, map_trim hplain hbook, inCategory]

include hne

theorem shown_uncategorized {book : ShelfBook} (hbook : book ∈ library) :
    shown uncategorizedFilterId book = withoutCategory book := by
  rw [shown, if_pos rfl, map_trim hplain hbook, withoutCategory]
  cases hcat : book.category with
  | none => rfl
  | some name => simp [hne name ⟨book, hbook, hcat⟩]

end Plain

/-! ## The summary -/

theorem countP_libraryOf (tx : Tx) (userID : Bytes) (p : ShelfBook → Bool) :
    (libraryOf tx userID).countP p =
      tx.books.values.countP fun b => decide (b.userID = userID ∧ p (receivedBook b) = true) := by
  rw [libraryOf, List.countP_map, List.countP_filter]
  refine List.countP_congr fun b _ => ?_
  simp [and_comm]

theorem length_libraryOf (tx : Tx) (userID : Bytes) :
    (libraryOf tx userID).length = tx.books.values.countP fun b => decide (b.userID = userID) := by
  rw [libraryOf, List.length_map, List.countP_eq_length_filter]

structure Summarizes (library : List ShelfBook) (s : LibrarySummary) : Prop where
  total : s.total = library.length
  uncategorized : s.uncategorized = library.countP withoutCategory
  categories : ∀ name, name ≠ [] → s.categories.lookup name =
    if library.countP (inCategory name) = 0 then none
    else some ((library.countP (inCategory name) : ℕ) : Int)

theorem lookup_eq_of_mem {l : List (Text × Int)} {name : Text} {v : Option Int}
    (h : ∀ n, (name, n) ∈ l ↔ v = some n) : l.lookup name = v := by
  cases hl : l.lookup name with
  | none =>
      cases hv : v with
      | none => rfl
      | some n =>
          have hmem := (h n).mpr hv
          rw [List.lookup_eq_none_iff] at hl
          simpa using hl _ hmem
  | some n =>
      obtain ⟨before, after, rfl, -⟩ := List.lookup_eq_some_iff.mp hl
      exact ((h n).mp (by simp)).symm

theorem receivedSummary_summarizes {tx : Tx} (hc : Coherent tx) {userID : Bytes} (hu : userID ≠ [])
    (hnames : NamesAccepted tx userID) :
    Summarizes (libraryOf tx userID) (receivedSummary (loadLibrarySummary tx userID)) := by
  have hsum := hc.listed.summary userID hu
  generalize loadLibrarySummary tx userID = s at hsum
  have hcount {name : Text} (hname : name ≠ []) :
      (libraryOf tx userID).countP (inCategory name) =
        tx.books.values.countP fun b => decide (b.userID = userID ∧ categoryForBook b = encode name) := by
    rw [countP_libraryOf]
    refine List.countP_congr fun b hb => ?_
    simp only [decide_eq_true_eq]
    exact and_congr_right fun howner => inCategory_iff hnames hb howner hname
  refine ⟨?_, ?_, ?_⟩
  · rw [length_libraryOf]
    exact hsum.total
  · rw [countP_libraryOf]
    refine hsum.uncategorized.trans ?_
    congr 1
    refine List.countP_congr fun b hb => ?_
    simp only [decide_eq_true_eq]
    exact and_congr_right fun howner => (withoutCategory_iff hnames hb howner).symm
  · intro name hname
    have hne : encode name ≠ [] := fun h => hname (encode_injective (h.trans rfl))
    have hstored := hsum.categories (encode name)
    rw [if_neg hne, ← hcount hname, Lib.DerivedIndex.counter] at hstored
    refine lookup_eq_of_mem fun n => ?_
    have hvalue : (if (libraryOf tx userID).countP (inCategory name) = 0 then none
        else some (((libraryOf tx userID).countP (inCategory name) : ℕ) : Int)) =
          s.categories[encode name]? := by
      rw [hstored]
      split <;> rfl
    rw [hvalue]
    simp only [receivedSummary, List.mem_map, Prod.mk.injEq, Prod.exists]
    constructor
    · rintro ⟨key, v, hmem, hkey, rfl⟩
      have hget := Std.ExtTreeMap.mem_toList_iff_getElem?_eq_some.mp hmem
      -- a category that is counted is the name of a book
      have hkeyed := hsum.categories key
      rw [hget, Lib.DerivedIndex.counter] at hkeyed
      have hpos : 0 < tx.books.values.countP fun b =>
          decide (b.userID = userID ∧ categoryForBook b = key) := by
        by_contra hzero
        rw [if_pos (by omega : tx.books.values.countP _ = 0)] at hkeyed
        simp at hkeyed
      have hkeyne : key ≠ [] := by
        rintro rfl
        simp at hkeyed
      obtain ⟨b, hb, hbkey⟩ := List.countP_pos_iff.mp hpos
      obtain ⟨howner, hcat⟩ := of_decide_eq_true hbkey
      rcases received_cases hnames hb howner with ⟨-, hempty⟩ | ⟨other, -, -, hstored⟩
      · exact absurd (hcat.symm.trans hempty) hkeyne
      · rw [← hcat, hstored, runes_encode] at hkey
        rw [← hkey, ← hstored, hcat]
        exact hget
    · intro hget
      refine ⟨encode name, n, Std.ExtTreeMap.mem_toList_iff_getElem?_eq_some.mpr hget, ?_, rfl⟩
      rw [runes_encode]

/-! ## The counts -/

theorem countP_eq_zero_of_unused {library : List ShelfBook} {name : Text}
    (h : ¬InUse library name) : library.countP (inCategory name) = 0 := by
  rw [List.countP_eq_zero]
  intro book hbook hin
  exact h ⟨book, hbook, of_decide_eq_true hin⟩

theorem countP_pos_of_inUse {library : List ShelfBook} {name : Text} (h : InUse library name) :
    0 < library.countP (inCategory name) := by
  obtain ⟨book, hbook, hcat⟩ := h
  exact List.countP_pos_iff.mpr ⟨book, hbook, decide_eq_true hcat⟩

theorem sentinels_not_inherited :
    uncategorizedFilterId ∉ objectPrototype ∧ allKey ∉ objectPrototype ∧
      uncategorizedFilterId ≠ allKey ∧ uncategorizedFilterId ≠ [] ∧ allKey ≠ [] := by
  decide +kernel

section Summary

variable {library : List ShelfBook} {s : LibrarySummary} (hs : Summarizes library s)
  (books : List ShelfBook)

include hs

/-- A category in use hides the sentinel of the same name. -/
theorem get_summary_inUse {name : Text} (hne : name ≠ []) (h : InUse library name) :
    get (bookCounts (some s) books) name = some (.number (library.countP (inCategory name))) := by
  have hpos := countP_pos_of_inUse h
  simp only [bookCounts]
  rw [get_append, hs.categories name hne, if_neg (by omega)]

theorem get_summary_unused {name : Text} (hne : name ≠ []) (h : ¬InUse library name) :
    get (bookCounts (some s) books) name =
      if name = uncategorizedFilterId then some (.number (library.countP withoutCategory))
      else if name = allKey then some (.number library.length)
      else if name ∈ objectPrototype then some .truthy else none := by
  simp only [bookCounts]
  rw [get_append, hs.categories name hne, if_pos (countP_eq_zero_of_unused h)]
  simp only
  rw [get_cons, get_cons, hs.total, hs.uncategorized]
  rfl

end Summary

/-- The name under which the loop counts a book. -/
def countKey (book : ShelfBook) : Text :=
  ((book.category.map trim).filter (· ≠ [])).getD uncategorizedFilterId

theorem countBook_tallies {f : Text → Int} {o : Properties} (h : Tallies f o) {n : Int}
    (hget : get o uncategorizedFilterId = some (.number n)) (book : ShelfBook) :
    Tallies (Function.update f (countKey book) (f (countKey book) + 1)) (countBook o book) := by
  rw [countBook, countKey]
  cases (book.category.map trim).filter (· ≠ []) with
  | none => exact h.addOne sentinels_not_inherited.1 hget
  | some category => exact h.bump category

theorem countBook_number {o : Properties} {name : Text} {n : Int}
    (hget : get o name = some (.number n)) (book : ShelfBook) :
    ∃ m, get (countBook o book) name = some (.number m) := by
  rw [countBook]
  split
  · exact get_bump_number hget _
  · exact get_addOne_number hget _

/-- The loop counts every book once, under its name, and keeps the numbers that it starts with
numbers. -/
theorem foldl_countBook {f : Text → Int} {o : Properties} (h : Tallies f o) {n : Int}
    (hget : get o uncategorizedFilterId = some (.number n)) (books : List ShelfBook) :
    Tallies (fun name => f name + books.countP fun book => countKey book = name)
        (books.foldl countBook o) ∧
      ∀ name m, get o name = some (.number m) →
        ∃ m', get (books.foldl countBook o) name = some (.number m') := by
  induction books generalizing f o n with
  | nil => exact ⟨by simpa using h, fun name m hm => ⟨m, hm⟩⟩
  | cons book books ih =>
      obtain ⟨n', hget'⟩ := countBook_number hget book
      obtain ⟨htally, hnumber⟩ := ih (countBook_tallies h hget book) hget'
      constructor
      · have hfun : (fun name => f name + ((book :: books).countP fun b => countKey b = name : ℕ)) =
            fun name => Function.update f (countKey book) (f (countKey book) + 1) name +
              (books.countP fun b => countKey b = name : ℕ) := by
          funext name
          rw [List.countP_cons]
          by_cases hk : name = countKey book
          · subst hk
            simp only [decide_true, if_true, Function.update_self]
            push_cast
            ring
          · rw [Function.update_of_ne hk, if_neg (by simpa using fun he => hk he.symm)]
            rfl
        rw [hfun]
        exact htally
      · intro name m hm
        obtain ⟨m', hm'⟩ := countBook_number hm book
        exact hnumber name m' hm'

theorem initial_tallies (n : Int) :
    Tallies (Function.update (Function.update (fun _ => 0) allKey n) uncategorizedFilterId 0)
      [(uncategorizedFilterId, .number 0), (allKey, .number n)] :=
  (tallies_nil.put sentinels_not_inherited.2.1 n).put sentinels_not_inherited.1 0

theorem count_fallback (books : List ShelfBook) (name : Text) :
    count (bookCounts none books) name =
      if name ∈ objectPrototype then .truthy
      else .number ((if name = allKey then (books.length : Int) else 0) +
        books.countP fun book => countKey book = name) := by
  have hget : get [(uncategorizedFilterId, .number 0), (allKey, .number books.length)]
      uncategorizedFilterId = some (.number 0) := by
    rw [get_cons, if_pos rfl]
  have hbase : Function.update (Function.update (fun _ => (0 : Int)) allKey books.length)
      uncategorizedFilterId 0 name = if name = allKey then (books.length : Int) else 0 := by
    by_cases hu : name = uncategorizedFilterId
    · rw [hu, Function.update_self, if_neg sentinels_not_inherited.2.2.1]
    · rw [Function.update_of_ne hu]
      by_cases ha : name = allKey
      · rw [ha, Function.update_self, if_pos rfl]
      · rw [Function.update_of_ne ha, if_neg ha]
  rw [bookCounts, (foldl_countBook (initial_tallies books.length) hget books).1 name, ← hbase]

/-- The two sentinels are numbers, also after the loop. -/
theorem get_fallback (books : List ShelfBook) {name : Text}
    (hname : name = uncategorizedFilterId ∨ name = allKey) :
    get (bookCounts none books) name =
      some (.number ((if name = allKey then (books.length : Int) else 0) +
        books.countP fun book => countKey book = name)) := by
  have hinit : ∃ m, get [(uncategorizedFilterId, .number 0), (allKey, .number books.length)] name =
      some (.number m) := by
    rcases hname with rfl | rfl
    · exact ⟨0, by rw [get_cons, if_pos rfl]⟩
    · exact ⟨books.length, by
        rw [get_cons, if_neg sentinels_not_inherited.2.2.1.symm, get_cons, if_pos rfl]⟩
  have hget : get [(uncategorizedFilterId, .number 0), (allKey, .number books.length)]
      uncategorizedFilterId = some (.number 0) := by
    rw [get_cons, if_pos rfl]
  obtain ⟨m, hm⟩ := hinit
  obtain ⟨m', hm'⟩ := (foldl_countBook (initial_tallies books.length) hget books).2 name m hm
  have hcount := count_fallback books name
  have hown : name ∉ objectPrototype := by
    rcases hname with rfl | rfl
    · exact sentinels_not_inherited.1
    · exact sentinels_not_inherited.2.1
  rw [if_neg hown] at hcount
  rw [bookCounts] at hcount ⊢
  rw [count, hm'] at hcount
  rw [hm']
  exact congrArg some hcount

section Loaded

variable {library loaded : List ShelfBook}
  (hplain : ∀ name, InUse library name → trim name = name)
  (hne : ∀ name, InUse library name → name ≠ [])

include hplain hne

theorem countKey_eq {book : ShelfBook} (hbook : book ∈ library) :
    countKey book = book.category.getD uncategorizedFilterId := by
  rw [countKey, map_trim hplain hbook]
  cases hcat : book.category with
  | none => rfl
  | some name => simp [Option.filter, hne name ⟨book, hbook, hcat⟩]

theorem countP_countKey (hloaded : loaded.Subperm library) {name : Text}
    (hname : name ≠ uncategorizedFilterId) :
    (loaded.countP fun book => countKey book = name) = loaded.countP (inCategory name) := by
  refine List.countP_congr fun book hbook => ?_
  rw [countKey_eq hplain hne (hloaded.subset hbook), inCategory]
  cases book.category with
  | none => simp [hname.symm]
  | some other => simp

theorem countP_countKey_uncategorized (hloaded : loaded.Subperm library)
    (hsentinel : ¬InUse library uncategorizedFilterId) :
    (loaded.countP fun book => countKey book = uncategorizedFilterId) =
      loaded.countP withoutCategory := by
  refine List.countP_congr fun book hbook => ?_
  rw [countKey_eq hplain hne (hloaded.subset hbook), withoutCategory]
  cases hcat : book.category with
  | none => simp
  | some other =>
      have hother : other ≠ uncategorizedFilterId := by
        rintro rfl
        exact hsentinel ⟨book, hloaded.subset hbook, hcat⟩
      simp [hother]

end Loaded

theorem perm_of_subperm {library loaded : List ShelfBook} (h : loaded.Subperm library)
    (hlen : loaded.length = library.length) : loaded.Perm library :=
  h.perm_of_length_le hlen.ge

/-! ## When filters and counts are faithful -/

/-- The names in use keep clear of the sentinels and, without a summary, of the inherited
properties, and no book is missing that has to be counted one by one. -/
structure PlainNames (library : List ShelfBook) (summaryLoaded : Bool) (loaded : List ShelfBook)
    (name : Text) : Prop where
  sentinel : ¬InUse library uncategorizedFilterId
  unmarked : ∀ other, InUse library other → Unmarked other
  inherited : summaryLoaded = false → ∀ other, InUse library other → other ∉ objectPrototype
  /-- A category with the name of the total is the whole library; when it is counted twice, half
  of the library is loaded. -/
  all : InUse library allKey → (∀ book ∈ library, inCategory allKey book = true) ∧
    (summaryLoaded = false → 2 * loaded.length = library.length)
  complete : summaryLoaded = false → ¬InUse library allKey → loaded.length = library.length
  /-- A name that is not in use is none of the properties that are always there. -/
  unused : ¬InUse library name → name ∉ objectPrototype ∧ (name = allKey → library = []) ∧
    (name = uncategorizedFilterId → ∀ book ∈ library, withoutCategory book = false)

theorem inCategory_all_iff {library : List ShelfBook} {name : Text} :
    library.countP (inCategory name) = library.length ↔
      ∀ book ∈ library, inCategory name book = true :=
  List.countP_eq_length

section Main

variable {tx : Tx} (hc : Coherent tx) {userID : Bytes} (hu : userID ≠ [])
  (hnames : NamesAccepted tx userID) {loaded : List ShelfBook}
  (hloaded : loaded.Subperm (libraryOf tx userID)) {name : Text} (hname : AcceptedName name)

include hnames in
theorem inUse_ne_nil (other : Text) (h : InUse (libraryOf tx userID) other) : other ≠ [] :=
  (accepted_of_inUse hnames h).ne_nil

include hc hu hnames hloaded

/-- What the counts of a category in use are, with a summary and without one. -/
theorem count_inUse (hplain : ∀ other, InUse (libraryOf tx userID) other → trim other = other)
    (hsentinel : ¬InUse (libraryOf tx userID) uncategorizedFilterId) (summaryLoaded : Bool)
    {other : Text} (h : InUse (libraryOf tx userID) other) :
    count (countsOf tx userID summaryLoaded loaded) other =
      if summaryLoaded then .number ((libraryOf tx userID).countP (inCategory other))
      else if other ∈ objectPrototype then .truthy
      else .number ((if other = allKey then (loaded.length : Int) else 0) +
        loaded.countP (inCategory other)) := by
  have hne := inUse_ne_nil hnames other h
  cases summaryLoaded with
  | true =>
      simp only [countsOf, if_true, count]
      rw [get_summary_inUse (receivedSummary_summarizes hc hu hnames) loaded hne h]
      rfl
  | false =>
      have hother : other ≠ uncategorizedFilterId := by
        rintro rfl
        exact hsentinel h
      simp only [countsOf, Bool.false_eq_true, if_false]
      rw [count_fallback, countP_countKey hplain (inUse_ne_nil hnames) hloaded hother]

/-- What the counts hold under a name that no book has. -/
theorem count_unused (hplain : ∀ other, InUse (libraryOf tx userID) other → trim other = other)
    (hsentinel : ¬InUse (libraryOf tx userID) uncategorizedFilterId) (summaryLoaded : Bool)
    {other : Text} (hne : other ≠ []) (h : ¬InUse (libraryOf tx userID) other) :
    count (countsOf tx userID summaryLoaded loaded) other =
      if other ∈ objectPrototype then .truthy
      else if other = uncategorizedFilterId then
        .number (if summaryLoaded then ((libraryOf tx userID).countP withoutCategory : Int)
          else loaded.countP withoutCategory)
      else if other = allKey then
        .number (if summaryLoaded then ((libraryOf tx userID).length : Int) else loaded.length)
      else .number 0 := by
  obtain ⟨hunc, hall, hdiff, -, -⟩ := sentinels_not_inherited
  cases summaryLoaded with
  | true =>
      simp only [countsOf, if_true, count]
      rw [get_summary_unused (receivedSummary_summarizes hc hu hnames) loaded hne h]
      by_cases h₁ : other = uncategorizedFilterId
      · rw [h₁, if_pos rfl, if_neg hunc, if_pos rfl]
        rfl
      · rw [if_neg h₁, if_neg h₁]
        by_cases h₂ : other = allKey
        · rw [h₂, if_pos rfl, if_neg hall, if_pos rfl]
          rfl
        · rw [if_neg h₂, if_neg h₂]
          by_cases h₃ : other ∈ objectPrototype
          · rw [if_pos h₃, if_pos h₃]
            rfl
          · rw [if_neg h₃, if_neg h₃]
            rfl
  | false =>
      simp only [countsOf, Bool.false_eq_true, if_false]
      rw [count_fallback]
      by_cases h₃ : other ∈ objectPrototype
      · rw [if_pos h₃, if_pos h₃]
      · rw [if_neg h₃, if_neg h₃]
        by_cases h₁ : other = uncategorizedFilterId
        · rw [h₁, if_neg hdiff, if_pos rfl, countP_countKey_uncategorized hplain
            (inUse_ne_nil hnames) hloaded hsentinel, zero_add]
        · have hzero : loaded.countP (inCategory other) = 0 := by
            have hle := hloaded.countP_le (inCategory other)
            rw [countP_eq_zero_of_unused h] at hle
            omega
          rw [countP_countKey hplain (inUse_ne_nil hnames) hloaded h₁, hzero, if_neg h₁]
          by_cases h₂ : other = allKey
          · rw [if_pos h₂, if_pos h₂, Nat.cast_zero, add_zero]
          · rw [if_neg h₂, if_neg h₂, Nat.cast_zero, add_zero]

theorem get_all (hplain : ∀ other, InUse (libraryOf tx userID) other → trim other = other)
    (summaryLoaded : Bool) :
    get (countsOf tx userID summaryLoaded loaded) allKey = some (.number
      (if summaryLoaded then
        if (libraryOf tx userID).countP (inCategory allKey) = 0 then (libraryOf tx userID).length
        else (libraryOf tx userID).countP (inCategory allKey)
      else (loaded.length + loaded.countP (inCategory allKey) : Int))) := by
  obtain ⟨-, -, hdiff, -, hne⟩ := sentinels_not_inherited
  cases summaryLoaded with
  | true =>
      simp only [countsOf, if_true]
      by_cases h : InUse (libraryOf tx userID) allKey
      · have hpos := countP_pos_of_inUse h
        rw [get_summary_inUse (receivedSummary_summarizes hc hu hnames) loaded hne h,
          if_neg (by omega)]
      · rw [get_summary_unused (receivedSummary_summarizes hc hu hnames) loaded hne h,
          if_neg hdiff.symm, if_pos rfl, if_pos (countP_eq_zero_of_unused h)]
  | false =>
      simp only [countsOf, Bool.false_eq_true, if_false]
      rw [get_fallback loaded (.inr rfl), if_pos rfl,
        countP_countKey hplain (inUse_ne_nil hnames) hloaded hdiff.symm]

/-- Faithful filters and counts need plain names. -/
theorem PlainNames.of_faithful {summaryLoaded : Bool}
    (htotals : TotalsFaithful tx userID summaryLoaded loaded)
    (hcategories : ∀ other, other = name ∨ InUse (libraryOf tx userID) other →
      CategoryFaithful tx userID summaryLoaded loaded other) (hname : AcceptedName name) :
    PlainNames (libraryOf tx userID) summaryLoaded loaded name := by
  have hsentinel : ¬InUse (libraryOf tx userID) uncategorizedFilterId := by
    intro h
    have hrequests := (hcategories _ (.inr h)).requests
    rw [requests_category_iff hc hu hnames (accepted_of_inUse hnames h)] at hrequests
    obtain ⟨book, hbook, hcat⟩ := h
    have hnot := (hrequests rfl book hbook).2
    rw [inCategory, hcat] at hnot
    simp at hnot
  have hplain : ∀ other, InUse (libraryOf tx userID) other → trim other = other := by
    intro other h
    have hshows := (hcategories _ (.inr h)).shows
    rw [shows_iff (inUse_ne_nil hnames other h)] at hshows
    have hother : other ≠ uncategorizedFilterId := by
      rintro rfl
      exact hsentinel h
    obtain ⟨book, hbook, hcat⟩ := h
    have hshown := hshows book hbook
    rw [shown, if_neg hother, inCategory, hcat] at hshown
    simpa using hshown
  have hsub : ∀ p : ShelfBook → Bool, loaded.countP p ≤ (libraryOf tx userID).countP p :=
    fun p => hloaded.countP_le p
  have hlen := hloaded.length_le
  have hcount {other : Text} (h : InUse (libraryOf tx userID) other) :=
    (count_inUse hc hu hnames hloaded hplain hsentinel summaryLoaded h).symm.trans
      (hcategories other (.inr h)).counts
  have hall := (get_all hc hu hnames hloaded hplain summaryLoaded).symm.trans htotals.all
  have hcomplete : summaryLoaded = false → ¬InUse (libraryOf tx userID) allKey →
      loaded.length = (libraryOf tx userID).length := by
    rintro rfl hunused
    have hzero := countP_eq_zero_of_unused hunused
    have hle := hsub (inCategory allKey)
    have heq := Value.number.inj (Option.some.inj hall)
    simp only [Bool.false_eq_true, if_false] at heq
    omega
  refine ⟨hsentinel, fun other h => (accepted_trim_iff (accepted_of_inUse hnames h)).mp (hplain other h),
    ?_, ?_, hcomplete, ?_⟩
  · rintro rfl other h hinherited
    have heq := hcount h
    rw [if_neg Bool.false_ne_true, if_pos hinherited] at heq
    cases heq
  · intro h
    have hpos := countP_pos_of_inUse h
    have heq := Value.number.inj (Option.some.inj hall)
    cases summaryLoaded with
    | true =>
        simp only [if_true] at heq
        rw [if_neg (by omega)] at heq
        exact ⟨inCategory_all_iff.mp (by exact_mod_cast heq), fun h => by cases h⟩
    | false =>
        have hown := hcount h
        rw [if_neg Bool.false_ne_true, if_neg sentinels_not_inherited.2.1, if_pos rfl] at hown
        have hown := Value.number.inj hown
        simp only [Bool.false_eq_true, if_false] at heq
        have hevery : ∀ book ∈ libraryOf tx userID, inCategory allKey book = true :=
          inCategory_all_iff.mp (by omega)
        have hloadedAll : loaded.countP (inCategory allKey) = loaded.length :=
          inCategory_all_iff.mpr fun book hbook => hevery book (hloaded.subset hbook)
        exact ⟨hevery, fun _ => by omega⟩
  · intro hunused
    have hzero := countP_eq_zero_of_unused hunused
    have hfaithful := hcategories name (.inl rfl)
    have hnumber := hfaithful.counts
    rw [hzero, Nat.cast_zero] at hnumber
    have huncategorized : name = uncategorizedFilterId →
        ∀ book ∈ libraryOf tx userID, withoutCategory book = false := by
      intro he book hbook
      exact ((requests_category_iff hc hu hnames hname).mp hfaithful.requests he book hbook).1
    rw [count_unused hc hu hnames hloaded hplain hsentinel summaryLoaded hname.ne_nil hunused]
      at hnumber
    refine ⟨?_, ?_, huncategorized⟩
    · intro hinherited
      rw [if_pos hinherited] at hnumber
      cases hnumber
    · rintro rfl
      rw [if_neg sentinels_not_inherited.2.1, if_neg sentinels_not_inherited.2.2.1.symm, if_pos rfl]
        at hnumber
      have heq := Value.number.inj hnumber
      refine List.length_eq_zero_iff.mp ?_
      cases summaryLoaded with
      | true =>
          simp only [if_true] at heq
          omega
      | false =>
          simp only [Bool.false_eq_true, if_false] at heq
          have := hcomplete rfl hunused
          omega

/-- With plain names, filters and counts are faithful. -/
theorem PlainNames.totals {summaryLoaded : Bool}
    (h : PlainNames (libraryOf tx userID) summaryLoaded loaded name) :
    TotalsFaithful tx userID summaryLoaded loaded := by
  have hne := inUse_ne_nil hnames
  have hplain : ∀ other, InUse (libraryOf tx userID) other → trim other = other := fun other hin =>
    (accepted_trim_iff (accepted_of_inUse hnames hin)).mpr (h.unmarked other hin)
  obtain ⟨hunc, -, hdiff, huncne, -⟩ := sentinels_not_inherited
  refine ⟨requests_uncategorized hc hu hnames, ?_, ?_, ?_⟩
  · rw [shows_iff huncne]
    exact fun book hbook => shown_uncategorized hplain hne hbook
  · cases summaryLoaded with
    | true =>
        simp only [countsOf, if_true]
        rw [get_summary_unused (receivedSummary_summarizes hc hu hnames) loaded huncne h.sentinel,
          if_pos rfl]
    | false =>
        simp only [countsOf, Bool.false_eq_true, if_false]
        rw [get_fallback loaded (.inl rfl), if_neg hdiff, countP_countKey_uncategorized hplain hne
          hloaded h.sentinel, zero_add]
        by_cases hall : InUse (libraryOf tx userID) allKey
        · have hnone : ∀ book ∈ libraryOf tx userID, withoutCategory book = false := by
            intro book hbook
            have hin := (h.all hall).1 book hbook
            rw [inCategory, decide_eq_true_eq] at hin
            simp [withoutCategory, hin]
          have hzero : (libraryOf tx userID).countP withoutCategory = 0 := by
            rw [List.countP_eq_zero]
            intro book hbook
            simp [hnone book hbook]
          have hle := hloaded.countP_le withoutCategory
          have hzero' : loaded.countP withoutCategory = 0 := by omega
          rw [hzero, hzero']
        · have hperm := perm_of_subperm hloaded (h.complete rfl hall)
          rw [hperm.countP_eq]
  · rw [get_all hc hu hnames hloaded hplain summaryLoaded]
    by_cases hall : InUse (libraryOf tx userID) allKey
    · have hevery := inCategory_all_iff.mpr (h.all hall).1
      have hpos := countP_pos_of_inUse hall
      have hloadedAll : loaded.countP (inCategory allKey) = loaded.length :=
        inCategory_all_iff.mpr fun book hbook => (h.all hall).1 book (hloaded.subset hbook)
      cases summaryLoaded with
      | true => rw [if_pos rfl, if_neg (by omega), hevery]
      | false =>
          have hhalf := (h.all hall).2 rfl
          rw [if_neg Bool.false_ne_true, hloadedAll, ← hhalf]
          push_cast
          rw [two_mul]
    · have hzero := countP_eq_zero_of_unused hall
      have hzero' : loaded.countP (inCategory allKey) = 0 := by
        have hle := hloaded.countP_le (inCategory allKey)
        omega
      cases summaryLoaded with
      | true => rw [if_pos rfl, if_pos hzero]
      | false =>
          rw [if_neg Bool.false_ne_true, hzero', h.complete rfl hall, Nat.cast_zero, add_zero]

theorem PlainNames.category {summaryLoaded : Bool}
    (h : PlainNames (libraryOf tx userID) summaryLoaded loaded name) (hname : AcceptedName name)
    {other : Text} (hother : other = name ∨ InUse (libraryOf tx userID) other) :
    CategoryFaithful tx userID summaryLoaded loaded other := by
  have hne := inUse_ne_nil hnames
  have hplain : ∀ other, InUse (libraryOf tx userID) other → trim other = other := fun other hin =>
    (accepted_trim_iff (accepted_of_inUse hnames hin)).mpr (h.unmarked other hin)
  have haccepted : AcceptedName other := by
    rcases hother with rfl | hin
    · exact hname
    · exact accepted_of_inUse hnames hin
  have hnotIn : ¬InUse (libraryOf tx userID) other →
      ∀ book ∈ libraryOf tx userID, inCategory other book = false := by
    intro hunused book hbook
    rw [Bool.eq_false_iff]
    intro hin
    exact hunused ⟨book, hbook, of_decide_eq_true hin⟩
  have hunused : ¬InUse (libraryOf tx userID) other → other = name := fun hunused =>
    hother.resolve_right hunused
  have hnone : other = uncategorizedFilterId →
      ∀ book ∈ libraryOf tx userID, withoutCategory book = false := by
    rintro rfl
    have heq := hunused h.sentinel
    exact (h.unused (heq ▸ h.sentinel)).2.2 heq.symm
  refine ⟨?_, ?_, ?_⟩
  · rw [requests_category_iff hc hu hnames haccepted]
    rintro rfl book hbook
    exact ⟨hnone rfl book hbook, hnotIn h.sentinel book hbook⟩
  · rw [shows_iff haccepted.ne_nil]
    intro book hbook
    by_cases he : other = uncategorizedFilterId
    · subst he
      rw [shown_uncategorized hplain hne hbook, hnone rfl book hbook, hnotIn h.sentinel book hbook]
    · exact shown_category hplain hbook he
  · by_cases hin : InUse (libraryOf tx userID) other
    · rw [count_inUse hc hu hnames hloaded hplain h.sentinel summaryLoaded hin]
      cases summaryLoaded with
      | true => rfl
      | false =>
          rw [if_neg Bool.false_ne_true, if_neg (h.inherited rfl other hin)]
          by_cases hall : InUse (libraryOf tx userID) allKey
          · -- every book is in one category, so this is the one
            obtain ⟨book, hbook, hcat⟩ := hin
            have hbookAll := of_decide_eq_true ((h.all hall).1 book hbook)
            have he : other = allKey := Option.some.inj (hcat.symm.trans hbookAll)
            subst he
            have hevery := inCategory_all_iff.mpr (h.all hall).1
            have hloadedAll : loaded.countP (inCategory allKey) = loaded.length :=
              inCategory_all_iff.mpr fun book hbook => (h.all hall).1 book (hloaded.subset hbook)
            rw [if_pos rfl, hloadedAll, hevery, ← (h.all hall).2 rfl]
            push_cast
            rw [two_mul]
          · have he : other ≠ allKey := by
              rintro rfl
              exact hall hin
            have hperm := perm_of_subperm hloaded (h.complete rfl hall)
            rw [if_neg he, hperm.countP_eq, zero_add]
    · have he := hunused hin
      obtain ⟨hinherited, hallName, -⟩ := h.unused (he ▸ hin)
      rw [count_unused hc hu hnames hloaded hplain h.sentinel summaryLoaded haccepted.ne_nil hin,
        countP_eq_zero_of_unused hin, he, if_neg hinherited]
      have hlen := hloaded.length_le
      by_cases h₁ : name = uncategorizedFilterId
      · have hzero : (libraryOf tx userID).countP withoutCategory = 0 := by
          rw [List.countP_eq_zero]
          intro book hbook
          simp [hnone (he.trans h₁) book hbook]
        have hle := hloaded.countP_le withoutCategory
        have hzero' : loaded.countP withoutCategory = 0 := by omega
        rw [if_pos h₁, hzero, hzero', ite_self]
      · rw [if_neg h₁]
        by_cases h₂ : name = allKey
        · have hempty := hallName h₂
          rw [hempty, List.length_nil] at hlen
          have hzero : loaded.length = 0 := by omega
          rw [if_pos h₂, hempty, hzero, List.length_nil, ite_self]
        · rw [if_neg h₂, Nat.cast_zero]

end Main

theorem filters_and_counts_faithful_iff {tx : Tx} (hc : Coherent tx) {userID : Bytes}
    (hu : userID ≠ []) (hnames : NamesAccepted tx userID) {name : Text} (hname : AcceptedName name)
    (summaryLoaded : Bool) {loaded : List ShelfBook}
    (hloaded : loaded.Subperm (libraryOf tx userID)) :
    (TotalsFaithful tx userID summaryLoaded loaded ∧
        ∀ other, other = name ∨ InUse (libraryOf tx userID) other →
          CategoryFaithful tx userID summaryLoaded loaded other) ↔
      PlainNames (libraryOf tx userID) summaryLoaded loaded name := by
  constructor
  · rintro ⟨htotals, hcategories⟩
    exact PlainNames.of_faithful hc hu hnames hloaded htotals hcategories hname
  · intro h
    exact ⟨h.totals hc hu hnames hloaded, fun other hother =>
      h.category hc hu hnames hloaded hname hother⟩

/-! ## One book in one category -/

/-- The sample library after its book has been put into a category. -/
def labelled (name : Text) : Tx :=
  (Op.updateBooksCategory [ascii "b"] (ascii "u") (some (encode name))).run uploaded

theorem labelled_coherent (name : Text) : Coherent (labelled name) :=
  (uploaded_reached.run (.updateBooksCategory [ascii "b"] (ascii "u") (some (encode name)))
    trivial).coherent

theorem labelled_names {name : Text} (hname : AcceptedName name)
    (hvalues : (labelled name).books.values.map (·.category) = [some (encode name)]) :
    NamesAccepted (labelled name) (ascii "u") := by
  intro b hb _ c hc
  have hmem := List.mem_map_of_mem (f := (·.category)) hb
  rw [hvalues, List.mem_singleton] at hmem
  rw [hmem] at hc
  exact ⟨name, (Option.some.inj hc).symm, hname⟩

theorem labelled_fiction :
    TotalsFaithful (labelled "fiction".toList) (ascii "u") true [] ∧
      CategoryFaithful (labelled "fiction".toList) (ascii "u") true [] "fiction".toList := by
  have hname : AcceptedName "fiction".toList := by decide +kernel
  have hlibrary : libraryOf (labelled "fiction".toList) (ascii "u") =
      [⟨ascii "b", some "fiction".toList⟩] := by decide +kernel
  have hplain : PlainNames (libraryOf (labelled "fiction".toList) (ascii "u")) true []
      "fiction".toList := by
    rw [hlibrary]
    have hin (other : Text) (h : InUse [⟨ascii "b", some "fiction".toList⟩] other) :
        other = "fiction".toList := by
      obtain ⟨book, hbook, hcat⟩ := h
      rw [List.mem_singleton.mp hbook] at hcat
      exact (Option.some.inj hcat).symm
    refine ⟨by decide +kernel, ?_, by simp, ?_, by simp, ?_⟩
    · intro other h
      rw [hin other h]
      decide +kernel
    · intro h
      exact absurd (hin allKey h) (by decide +kernel)
    · intro h
      exact absurd ⟨_, List.mem_singleton_self _, rfl⟩ h
  obtain ⟨htotals, hcategories⟩ := (filters_and_counts_faithful_iff (labelled_coherent _)
    (by decide : ascii "u" ≠ []) (labelled_names hname (by decide +kernel)) hname true
    List.nil_subperm).mpr hplain
  exact ⟨htotals, hcategories _ (.inl rfl)⟩

/-- Books of a category called like the filter are not found, and are counted as books without
one. -/
theorem labelled_uncategorized :
    Coherent (labelled uncategorizedFilterId) ∧ AcceptedName uncategorizedFilterId ∧
      NamesAccepted (labelled uncategorizedFilterId) (ascii "u") ∧
      filteredBooks (libraryOf (labelled uncategorizedFilterId) (ascii "u"))
        (some uncategorizedFilterId) = [] ∧
      get (countsOf (labelled uncategorizedFilterId) (ascii "u") true []) uncategorizedFilterId =
        some (.number 1) ∧
      ¬(TotalsFaithful (labelled uncategorizedFilterId) (ascii "u") true [] ∧
        ∀ other, other = uncategorizedFilterId ∨
            InUse (libraryOf (labelled uncategorizedFilterId) (ascii "u")) other →
          CategoryFaithful (labelled uncategorizedFilterId) (ascii "u") true [] other) := by
  have hname : AcceptedName uncategorizedFilterId := by decide +kernel
  have hnames := labelled_names hname (by decide +kernel)
  refine ⟨labelled_coherent _, hname, hnames, by decide +kernel, by decide +kernel, ?_⟩
  rintro ⟨htotals, hcategories⟩
  have hplain := PlainNames.of_faithful (labelled_coherent _) (by decide : ascii "u" ≠ []) hnames
    List.nil_subperm htotals hcategories hname
  exact hplain.sentinel (by decide +kernel)

end ZReader.Frontend.Categories
