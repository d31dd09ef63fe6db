import ZReader.Lib.Isolation
import ZReader.Storage.MigrationSteps
import ZReader.Storage.Parts

namespace ZReader.Storage

open Lib.Utf8 Lib.Strings Lib.KeyValue Lib.DerivedIndex Lib.Fallible Lib.Integers Lib.Transition

variable {db db' : Database} {tx tx' : Tx}

/-! ## When the migrations succeed -/

/-- All that the indexes have about a book fits into keys. -/
structure BookFits (b : Book) : Prop where
  userBooks : ∀ r ∈ userBooksRows b, ValidKey r.1
  sort : ∀ r ∈ sortRows b, ValidKey r.1
  categorySort : ∀ r ∈ categorySortRows b, ValidKey r.1
  search : ∀ r ∈ searchRows b, ValidKey r.1
  gram : ∀ r ∈ gramRows b, ValidKey r.1
  missing : ∀ r ∈ missingRows b, ValidKey r.1
  owner : b.userID ≠ [] → ValidKey b.userID
  membership : Hashed b → ValidKey (bookContentMembershipKey b)
  content : Hashed b → ValidKey (bookContentIndexKey b.userID b.contentHash)

/-- The categories are tried as they are stored and trimmed. -/
structure RowsFit (tx : Tx) : Prop where
  books : ∀ id b, tx.books.get id = some b → BookFits b ∧ BookFits (withNormalCategory b)
  users : ∀ id user, tx.users.get id = some user → normalizeUsername user.username ≠ [] →
    ValidKey (normalizeUsername user.username)
  progress : ∀ p ∈ tx.progress.values, ∀ r ∈ progressRows p, ValidKey r.1

theorem withNormalCategory_idem (b : Book) :
    withNormalCategory (withNormalCategory b) = withNormalCategory b := by
  have hcategory : normalizeCategoryName (normalizeCategoryName b.category) =
      normalizeCategoryName b.category := by
    cases hb : b.category with
    | none => rfl
    | some value =>
        by_cases hblank : trimSpace value = []
        · simp [normalizeCategoryName, hblank]
        · simp [normalizeCategoryName, hblank, trimSpace_idem]
  simp only [withNormalCategory, hcategory]

theorem RowsFit.keeps {f : Book → Book} (h : RowsFit tx) (hk : Keeps f tx tx')
    (hf : f = id ∨ f = withNormalCategory) : RowsFit tx' where
  books := by
    intro id b hb
    rw [hk.books, Option.map_eq_some_iff] at hb
    obtain ⟨c, hc, rfl⟩ := hb
    obtain ⟨hplain, hnormal⟩ := h.books id c hc
    rcases hf with rfl | rfl
    · exact ⟨hplain, hnormal⟩
    · rw [withNormalCategory_idem]
      exact ⟨hnormal, hnormal⟩
  users := by
    rw [hk.users]
    exact h.users
  progress := by
    rw [hk.progress]
    exact h.progress

theorem RowsFit.book (h : RowsFit tx) {b : Book} (hb : b ∈ tx.books.values) : BookFits b := by
  obtain ⟨id, hget⟩ := Bucket.mem_values.mp hb
  exact (h.books id b hget).1

theorem migrateUsernameIndex_total (h : RowsFit tx) : ∃ tx', migrateUsernameIndex tx = .ok tx' := by
  refine foldlM_total (fun _ => True) ?_ trivial
  intro r hr t _
  simp only
  split
  · exact ⟨t, rfl, trivial⟩
  · next hne =>
    split
    · exact ⟨t, rfl, trivial⟩
    · have hvalid := h.users r.1 r.2 (Bucket.mem_entries.mp hr) hne
      obtain ⟨i, hi⟩ := store_of_valid t.usernameIndex hvalid r.1
      exact ⟨_, bind_eq_ok.mpr ⟨i, hi, rfl⟩, trivial⟩

theorem migrateUserBooksIndex_total (hk : Keyed tx) (h : RowsFit tx) :
    ∃ tx', migrateUserBooksIndex tx = .ok tx' := by
  refine foldlM_total (fun _ => True) ?_ trivial
  intro b hb t _
  simp only
  split
  · exact ⟨t, rfl, trivial⟩
  · next hu =>
    split
    · exact ⟨t, rfl, trivial⟩
    · have hid : b.id ≠ [] := (hk.library.1 b hb).1
      have hvalid : ValidKey (userBooksKey b.userID b.id) := by
        refine (h.book hb).userBooks (userBooksKey b.userID b.id, []) ?_
        simp [userBooksRows, Unindexed, hu, hid]
      obtain ⟨i, hi⟩ := store_of_valid t.userBooksIndex hvalid []
      exact ⟨_, bind_eq_ok.mpr ⟨i, hi, rfl⟩, trivial⟩

theorem migrateBookCategories_total (tx : Tx) : ∃ tx', migrateBookCategories tx = .ok tx' := by
  refine foldlM_total (fun _ => True) ?_ trivial
  intro r hr t _
  simp only
  split
  · exact ⟨t, rfl, trivial⟩
  · obtain ⟨bs, hbs⟩ := store_of_valid t.books (Bucket.valid_of_get (Bucket.mem_entries.mp hr))
      { r.2 with category := normalizeCategoryName r.2.category }
    exact ⟨_, bind_eq_ok.mpr ⟨bs, hbs, rfl⟩, trivial⟩

theorem flattenUserBooksIndex_total {v : Int} (hk : Keyed tx) (h : RowsFit tx)
    (hr : UserBooksRight v tx) : ∃ tx', flattenUserBooksIndex tx = .ok tx' := by
  have hloop : ∃ i, (oldIndexEntries tx.userBooksIndex).foldlM flattenEntry tx.userBooksIndex = .ok i := by
    refine foldlM_total (fun _ => True) ?_ trivial
    intro e he i _
    obtain ⟨hno, data, hget, hids⟩ := mem_oldIndexEntries.mp he
    obtain ⟨-, ids, hids', howner⟩ := hr.old _ data hget hno
    rw [hids, Option.some.injEq] at hids'
    rw [← hids'] at howner
    have hids : ∃ j, e.bookIDs.foldlM
        (fun idxB bookID => store idxB (userBooksKey e.userID bookID) []) i = .ok j := by
      refine foldlM_total (fun _ => True) ?_ trivial
      intro id hid j _
      obtain ⟨b, hb, hu⟩ := ownerOf_eq_some.mp (howner id hid)
      obtain ⟨rfl, hw⟩ := hk id b hb
      have hne : b.userID ≠ [] := hu ▸ (Bucket.valid_of_get hget).1
      have hvalid : ValidKey (userBooksKey b.userID b.id) := by
        refine (h.books b.id b hb).1.userBooks (userBooksKey b.userID b.id, []) ?_
        simp [userBooksRows, Unindexed, hne, hw.1]
      rw [← hu]
      obtain ⟨k, hk⟩ := store_of_valid j hvalid []
      exact ⟨k, hk, trivial⟩
    obtain ⟨j, hj⟩ := hids
    exact ⟨_, bind_eq_ok.mpr ⟨j, hj, rfl⟩, trivial⟩
  obtain ⟨i, hi⟩ := hloop
  exact ⟨_, bind_eq_ok.mpr ⟨i, hi, rfl⟩⟩

theorem rebuildBookSortIndex_total (h : RowsFit tx) : ∃ tx', rebuildBookSortIndex tx = .ok tx' := by
  refine foldlM_total (fun _ => True) ?_ trivial
  intro b hb t _
  obtain ⟨t', ht⟩ := addBookToSortIndex_total t (h.book hb).sort (h.book hb).categorySort
  exact ⟨t', ht, trivial⟩

theorem rebuildBookSearchIndex_total (h : RowsFit tx) : ∃ tx', rebuildBookSearchIndex tx = .ok tx' := by
  refine foldlM_total (fun _ => True) ?_ trivial
  intro b hb t _
  obtain ⟨t', ht⟩ := addBookToSearchIndex_total t (h.book hb).search
  exact ⟨t', ht, trivial⟩

theorem rebuildBookSearchGramIndex_total (h : RowsFit tx) :
    ∃ tx', rebuildBookSearchGramIndex tx = .ok tx' := by
  refine foldlM_total (fun _ => True) ?_ trivial
  intro b hb t _
  obtain ⟨t', ht⟩ := addBookToSearchGramIndex_total t (h.book hb).gram
  exact ⟨t', ht, trivial⟩

theorem rebuildLibrarySummaryIndex_total (h : RowsFit tx) :
    ∃ tx', rebuildLibrarySummaryIndex tx = .ok tx' := by
  refine foldlM_total (fun _ => True) ?_ trivial
  intro b hb t _
  obtain ⟨t', ht⟩ := adjustLibrarySummary_total t 1 (h.book hb).owner
  exact ⟨t', ht, trivial⟩

theorem rebuildMissingBookHashIndex_total (h : RowsFit tx) :
    ∃ tx', rebuildMissingBookHashIndex tx = .ok tx' := by
  refine foldlM_total (fun _ => True) ?_ trivial
  intro b hb t _
  obtain ⟨t', ht⟩ := trackMissingBookHash_total t (h.book hb).missing
  exact ⟨t', ht, trivial⟩

theorem addBookToContentIndex_total (tx : Tx) {b : Book} (h : BookFits b) :
    ∃ tx', addBookToContentIndex tx b = .ok tx' := by
  obtain ⟨t, ht⟩ := trackMissingBookHash_total tx h.missing
  rw [addBookToContentIndex, ht]
  by_cases hn : b.userID = [] ∨ b.id = [] ∨ b.contentHash = []
  · exact ⟨t, if_pos hn⟩
  · have hhashed : Hashed b := ⟨fun hu => hn (.inl hu), fun hh => hn (.inr (.inr hh))⟩
    obtain ⟨c, hc⟩ := store_of_valid t.bookContentIndex (h.membership hhashed) b.id
    simp only [Lib.Isolation.ok_bind, if_neg hn, hc]
    split
    · exact ⟨_, rfl⟩
    · obtain ⟨d, hd⟩ := store_of_valid c (h.content hhashed) b.id
      rw [hd]
      exact ⟨_, rfl⟩

theorem rebuildBookContentIndex_total (h : RowsFit tx) :
    ∃ tx', rebuildBookContentIndex tx = .ok tx' := by
  refine foldlM_total (fun _ => True) ?_ trivial
  intro b hb t _
  split
  · exact ⟨t, rfl, trivial⟩
  · obtain ⟨t', ht⟩ := addBookToContentIndex_total t (h.book hb)
    exact ⟨t', ht, trivial⟩

theorem rebuildProgressTimeIndex_total (h : RowsFit tx) :
    ∃ tx', rebuildProgressTimeIndex tx = .ok tx' := by
  refine foldlM_total (fun _ => True) ?_ trivial
  intro p hp t _
  rw [addProgressToTimeIndex]
  split
  · exact ⟨t, rfl, trivial⟩
  · next hn =>
    have hvalid : ValidKey (progressTimeIndexKey p) := by
      refine h.progress p hp (progressTimeIndexKey p, p.bookID) ?_
      simp [progressRows, hn]
    obtain ⟨i, hi⟩ := store_of_valid t.progressTimeIndex hvalid p.bookID
    exact ⟨_, bind_eq_ok.mpr ⟨i, hi, rfl⟩, trivial⟩

theorem rebuildContentAndSummary_total (h : RowsFit tx) :
    ∃ tx', rebuildContentAndSummary tx = .ok tx' := by
  obtain ⟨tx₁, h₁⟩ := rebuildBookContentIndex_total h
  obtain ⟨tx₂, h₂⟩ := rebuildLibrarySummaryIndex_total
    (h.keeps (rebuildBookContentIndex_frame h₁).keeps (.inl rfl))
  exact ⟨tx₂, bind_eq_ok.mpr ⟨tx₁, h₁, h₂⟩⟩

theorem rebuildLibraryQueryIndexes_total (h : RowsFit tx) :
    ∃ tx', rebuildLibraryQueryIndexes tx = .ok tx' := by
  have hf₀ : RowsFit { tx with
      bookCategorySortIndex := some (tx.bookCategorySortIndex.getD .empty)
      bookSearchGramCounts := some (tx.bookSearchGramCounts.getD .empty) } :=
    ⟨h.books, h.users, h.progress⟩
  obtain ⟨tx₁, h₁⟩ := rebuildBookSortIndex_total hf₀
  have hf₁ := hf₀.keeps (rebuildBookSortIndex_frame h₁).keeps (.inl rfl)
  obtain ⟨tx₂, h₂⟩ := rebuildBookSearchIndex_total hf₁
  have hf₂ := hf₁.keeps (rebuildBookSearchIndex_frame h₂).keeps (.inl rfl)
  obtain ⟨tx₃, h₃⟩ := rebuildBookSearchGramIndex_total hf₂
  have hf₃ := hf₂.keeps (rebuildBookSearchGramIndex_frame h₃).keeps (.inl rfl)
  obtain ⟨tx₄, h₄⟩ := rebuildLibrarySummaryIndex_total hf₃
  have hf₄ := hf₃.keeps (rebuildLibrarySummaryIndex_frame h₄).keeps (.inl rfl)
  obtain ⟨tx₅, h₅⟩ := rebuildBookContentIndex_total hf₄
  have hf₅ := hf₄.keeps (rebuildBookContentIndex_frame h₅).keeps (.inl rfl)
  obtain ⟨tx₆, h₆⟩ := rebuildMissingBookHashIndex_total hf₅
  refine ⟨tx₆, bind_eq_ok.mpr ⟨tx₁, h₁, bind_eq_ok.mpr ⟨tx₂, h₂, bind_eq_ok.mpr ⟨tx₃, h₃, ?_⟩⟩⟩⟩
  exact bind_eq_ok.mpr ⟨tx₄, h₄, bind_eq_ok.mpr ⟨tx₅, h₅, h₆⟩⟩

theorem rebuild_total {reads creates : List BucketName} {body : Tx → Result Tx}
    (hreads : ∀ name ∈ reads, name ∈ db.buckets) (hbody : ∃ tx, body db.tx = .ok tx) :
    ∃ db', db.rebuild reads creates body = .ok db' := by
  obtain ⟨tx, htx⟩ := hbody
  exact ⟨_, rebuild_eq_ok.mpr ⟨hreads, tx, htx, rfl⟩⟩

theorem Schema.reads {v : Int} (h : Schema v db) (hv : 1 ≤ v) {reads : List BucketName}
    (hsub : ∀ name ∈ reads, name ∈ initialBuckets) : ∀ name ∈ reads, name ∈ db.buckets :=
  fun name hname => h.created ⟨1, initialBuckets, initializeBuckets⟩ (List.mem_cons_self ..) hv name
    (hsub name hname)

theorem Schema.total {m : Migration} (hm : m ∈ migrations) (h : Schema (m.version - 1) db)
    (hf : RowsFit db.tx) : ∃ db', m.run db = .ok db' := by
  simp only [migrations, List.mem_cons, List.not_mem_nil, or_false] at hm
  rcases hm with rfl | rfl | rfl | rfl | rfl | rfl | rfl | rfl | rfl | rfl
  · exact ⟨_, rfl⟩
  · refine rebuild_total (h.reads (by decide) (by decide)) ?_
    obtain ⟨tx₁, h₁⟩ := migrateUsernameIndex_total hf
    obtain ⟨i, rfl, -⟩ := migrateUsernameIndex_ok h₁
    have hf₁ : RowsFit { db.tx with usernameIndex := i } := ⟨hf.books, hf.users, hf.progress⟩
    obtain ⟨tx₂, h₂⟩ := migrateUserBooksIndex_total (by exact h.keyed) hf₁
    exact ⟨tx₂, bind_eq_ok.mpr ⟨_, h₁, h₂⟩⟩
  · exact rebuild_total (h.reads (by decide) (by decide)) (migrateBookCategories_total db.tx)
  · by_cases hthere : .userBooksIndex ∈ db.buckets
    · obtain ⟨db', hrun⟩ := rebuild_total (h.reads (by decide) (List.forall_mem_nil _))
        (flattenUserBooksIndex_total h.keyed hf h.userBooks)
      exact ⟨db', (if_pos hthere).trans hrun⟩
    · exact ⟨db, if_neg hthere⟩
  · exact rebuild_total (h.reads (by decide) (by decide)) (rebuildBookSortIndex_total hf)
  · exact rebuild_total (h.reads (by decide) (by decide)) (rebuildBookSearchIndex_total hf)
  · exact rebuild_total (h.reads (by decide) (by decide)) (rebuildProgressTimeIndex_total hf)
  · exact rebuild_total (h.reads (by decide) (by decide)) (rebuildContentAndSummary_total hf)
  · exact rebuild_total (h.reads (by decide) (by decide)) (rebuildBookSearchGramIndex_total hf)
  · exact rebuild_total (h.reads (by decide) (by decide)) (rebuildLibraryQueryIndexes_total hf)

/-! ## A database of the first format -/

def oneRow {V : Type} (k : Bytes) (v : V) : Bucket V := (Bucket.empty.put k v).toOption.getD .empty

theorem get_oneRow {V : Type} {k : Bytes} (hk : ValidKey k) (v : V) (j : Bytes) :
    (oneRow k v).get j = if k = j then some v else none := by
  obtain ⟨b, hb⟩ := (Bucket.empty : Bucket V).put_of_valid hk v
  rw [oneRow, hb]
  exact (Bucket.get_put hb j).trans (by rw [Bucket.get_empty])

def legacyBook : Book := { sampleBook with category := some (ascii " A "), contentHash := ascii "h" }

/-- One book with an untrimmed category, listed in the row of its owner, and a row that has
been left in the sort index. -/
def legacy : Database where
  schemaVersion := none
  buckets := [.books, .users, .userBooksIndex, .bookSortIndex]
  tx := { Tx.migrated with
    books := oneRow (ascii "b") legacyBook
    users := oneRow (ascii "u") ⟨ascii "u", ascii "U", [], [], ⟨0⟩, ⟨0⟩⟩
    userBooksIndex := oneRow (ascii "u") (ascii "[\"b\"]")
    bookSortIndex := oneRow (ascii "stale") (ascii "b")
    bookCategorySortIndex := none
    bookSearchGramCounts := none
    bookMissingHashIndex := none }

/-- The same library after the first migration, with a flat index and a trimmed category. -/
def flatLegacy : Database where
  schemaVersion := some (ascii "1")
  buckets := initialBuckets
  tx := { Tx.migrated with
    books := oneRow (ascii "b") { legacyBook with category := some (ascii "A") }
    users := oneRow (ascii "u") ⟨ascii "u", ascii "U", [], [], ⟨0⟩, ⟨0⟩⟩
    userBooksIndex := oneRow (ascii "u:b") [] }

theorem get_oneRow_eq_some {V : Type} {k : Bytes} (hk : ValidKey k) {v w : V} {j : Bytes}
    (h : (oneRow k v).get j = some w) : k = j ∧ v = w := by
  rw [get_oneRow hk] at h
  split at h
  · next hj => exact ⟨hj, Option.some.inj h⟩
  · cases h

theorem legacy_schema : Schema (currentVersion legacy) legacy where
  created := by decide
  clean := by
    intro name hname
    cases name with
    | books => exact absurd (by decide) hname
    | users => exact absurd (by decide) hname
    | userBooksIndex => exact absurd (by decide) hname
    | bookSortIndex => exact absurd (by decide) hname
    | progress => rfl
    | bookmarks => rfl
    | usernameIndex => rfl
    | progressTimeIndex => rfl
    | _ => trivial
  books := by
    intro id b hb
    obtain ⟨rfl, rfl⟩ := get_oneRow_eq_some (by decide) hb
    exact ⟨rfl, by decide, by decide, by decide⟩
  progress := by
    intro k p hp
    simp [legacy, Tx.migrated] at hp
  userBooks := by
    constructor
    · intro key data hget hcolon
      obtain ⟨rfl, rfl⟩ := get_oneRow_eq_some (by decide) hget
      exact absurd hcolon (by decide)
    · intro key data hget _
      obtain ⟨rfl, rfl⟩ := get_oneRow_eq_some (by decide) hget
      exact ⟨by decide, [ascii "b"], by decide +kernel, by decide +kernel⟩
    · exact fun h2 => absurd h2 (by decide)
  usernames := fun h2 => absurd h2 (by decide)
  times := fun h7 => absurd h7 (by decide)
  derived := fun h10 => absurd h10 (by decide)

theorem flatLegacy_schema : Schema (currentVersion flatLegacy) flatLegacy where
  created := by decide
  clean := by
    intro name hname
    cases name with
    | progressTimeIndex => rfl
    | bookSearchIndex => trivial
    | bookSearchGramIndex => trivial
    | bookContentIndex => trivial
    | librarySummaryIndex => trivial
    | _ => exact absurd (by decide) hname
  books := by
    intro id b hb
    obtain ⟨rfl, rfl⟩ := get_oneRow_eq_some (by decide) hb
    exact ⟨rfl, by decide, by decide, by decide⟩
  progress := by
    intro k p hp
    simp [flatLegacy, Tx.migrated] at hp
  userBooks := by
    constructor
    · intro key data hget _
      obtain ⟨rfl, rfl⟩ := get_oneRow_eq_some (by decide) hget
      exact ⟨rfl, ascii "u", ascii "b", by decide, by decide, by decide +kernel⟩
    · intro key data hget hno
      obtain ⟨rfl, rfl⟩ := get_oneRow_eq_some (by decide) hget
      exact absurd (by decide) hno
    · exact fun h2 => absurd h2 (by decide)
  usernames := fun h2 => absurd h2 (by decide)
  times := fun h7 => absurd h7 (by decide)
  derived := fun h10 => absurd h10 (by decide)

theorem legacyBook_fits {b : Book}
    (h : b = legacyBook ∨ b = { legacyBook with category := some (ascii "A") }) : BookFits b := by
  rcases h with rfl | rfl
  · refine ⟨?_, ?_, ?_, ?_, ?_, ?_, fun _ => ?_, fun _ => ?_, fun _ => ?_⟩
    all_goals decide +kernel
  · refine ⟨?_, ?_, ?_, ?_, ?_, ?_, fun _ => ?_, fun _ => ?_, fun _ => ?_⟩
    all_goals decide +kernel

theorem legacy_fits : RowsFit legacy.tx where
  books := by
    intro id b hb
    obtain ⟨-, rfl⟩ := get_oneRow_eq_some (by decide) hb
    exact ⟨legacyBook_fits (.inl rfl), legacyBook_fits (.inr (by decide))⟩
  users := by
    intro id user hget _
    obtain ⟨-, rfl⟩ := get_oneRow_eq_some (by decide) hget
    decide +kernel
  progress := by decide

theorem flatLegacy_fits : RowsFit flatLegacy.tx where
  books := by
    intro id b hb
    obtain ⟨-, rfl⟩ := get_oneRow_eq_some (by decide) hb
    exact ⟨legacyBook_fits (.inr rfl), legacyBook_fits (.inr (by decide))⟩
  users := by
    intro id user hget _
    obtain ⟨-, rfl⟩ := get_oneRow_eq_some (by decide) hget
    decide +kernel
  progress := by decide

/-! ## All migrations -/

theorem version_of_split {pre suf : List Migration} {m : Migration}
    (h : migrations = pre ++ m :: suf) : m.version = pre.length + 1 := by
  have hversions : migrations.map Migration.version = (List.range 10).map fun i : Nat => (i : Int) + 1 := by
    decide
  have hget : (migrations.map Migration.version)[pre.length]? = some m.version := by
    rw [h]
    simp
  rw [hversions, List.getElem?_map, Option.map_eq_some_iff] at hget
  obtain ⟨i, hi, hv⟩ := hget
  obtain ⟨hlt, rfl⟩ := List.getElem?_eq_some_iff.mp hi
  rw [← hv, List.getElem_range]

/-- What the migrations between two versions make of a book. -/
def rewriteBetween (v w : Int) : Book → Book := if v < 3 ∧ 3 ≤ w then withNormalCategory else id

/-- After the first `n` migrations have been considered. -/
structure Migrated (old : Database) (n : Nat) (state : Database × Int) : Prop where
  version : (state.2 = currentVersion old ∧ ((n : Int) ≤ currentVersion old ∨ n = 0)) ∨
    (state.2 = n ∧ currentVersion old < n)
  schema : Schema state.2 state.1
  keeps : Keeps (rewriteBetween (currentVersion old) state.2) old.tx state.1.tx
  stored : currentVersion state.1 = state.2
  fresh : currentVersion old < 10 → 10 ≤ n → ∃ tx, tx.books = state.1.tx.books ∧
    rebuildLibraryQueryIndexes tx = .ok state.1.tx

theorem Schema.zero {v : Int} (h : Schema v db) : Schema 0 db where
  created := by
    have hpos : ∀ m ∈ migrations, 0 < m.version := by decide
    exact fun m hm hle => absurd (hpos m hm) (not_lt.mpr hle)
  clean := h.clean
  books := h.books
  progress := h.progress
  userBooks := h.userBooks.congr rfl rfl (by omega) (by omega)
  usernames := fun h2 => absurd h2 (by decide)
  times := fun h7 => absurd h7 (by decide)
  derived := fun h10 => absurd h10 (by decide)

theorem currentVersion_stored {m : Migration} (hm : m ∈ migrations) :
    currentVersion { db with schemaVersion := some (ascii (toString m.version)) } = m.version := by
  have hall : ∀ m ∈ migrations, (atoi? (ascii (toString m.version))).getD 0 = m.version := by decide
  exact hall m hm

/-- The last migration computes all listing indexes, from records that are settled by then. -/
theorem Schema.last_rebuilds {m : Migration} (hm : m ∈ migrations) (h : Schema (m.version - 1) db)
    (hv : 10 ≤ m.version) (hrun : m.run db = .ok db') :
    ∃ tx, tx.books = db'.tx.books ∧ rebuildLibraryQueryIndexes tx = .ok db'.tx := by
  simp only [migrations, List.mem_cons, List.not_mem_nil, or_false] at hm
  rcases hm with rfl | rfl | rfl | rfl | rfl | rfl | rfl | rfl | rfl | rfl
  iterate 9 exact absurd hv (by decide)
  obtain ⟨-, tx, htx, rfl⟩ := rebuild_eq_ok.mp hrun
  exact ⟨db.tx, (rebuildLibraryQueryIndexes_ok h.books htx).1.books.symm, htx⟩

/-- What the next migration starts from. -/
theorem Migrated.due {old : Database} {pre suf : List Migration} {m : Migration}
    (hsplit : migrations = pre ++ m :: suf) {state : Database × Int}
    (h : Migrated old pre.length state) (hlt : ¬ m.version ≤ state.2) :
    Schema (m.version - 1) state.1 := by
  have hv := version_of_split hsplit
  rcases h.version with ⟨hcur, hle | hzero⟩ | ⟨hcur, -⟩
  · rw [hv, add_sub_cancel_right, ← show state.2 = pre.length by omega]
    exact h.schema
  · rw [hv, hzero]
    exact h.schema.zero
  · rw [hv, add_sub_cancel_right, ← hcur]
    exact h.schema

theorem Migrated.next {old : Database} {pre suf : List Migration} {m : Migration}
    (hsplit : migrations = pre ++ m :: suf) {state : Database × Int}
    (h : Migrated old pre.length state ∧ RowsFit state.1.tx) :
    ∃ state', migrate state m = .ok state' ∧
      Migrated old (pre ++ [m]).length state' ∧ RowsFit state'.1.tx := by
  obtain ⟨h, hf⟩ := h
  have hm : m ∈ migrations := by
    rw [hsplit]
    simp
  have hv := version_of_split hsplit
  have hversion := h.version
  rw [List.length_append, List.length_singleton]
  by_cases hlt : m.version ≤ state.2
  · refine ⟨state, if_pos hlt, ⟨?_, h.schema, h.keeps, h.stored, ?_⟩, hf⟩
    · omega
    · intro hold hn
      omega
  · have hschema := h.due hsplit hlt
    obtain ⟨db', hrun⟩ := hschema.total hm hf
    have hnext := hschema.step hm hrun
    have hkeeps := hschema.keeps hm hrun
    have hfresh := fun hn => hschema.last_rebuilds hm hn hrun
    refine ⟨({ db' with schemaVersion := some (ascii (toString m.version)) }, m.version), ?_, ?_, ?_⟩
    · rw [migrate, if_neg hlt]
      exact bind_eq_ok.mpr ⟨db', hrun, rfl⟩
    · refine ⟨.inr ⟨by simpa using hv, by push_cast; omega⟩, { hnext with }, ?_,
        currentVersion_stored hm, fun _ hn => hfresh (by omega)⟩
      have hf : m.rewrite ∘ rewriteBetween (currentVersion old) state.2 =
          rewriteBetween (currentVersion old) m.version := by
        simp only [Migration.rewrite, rewriteBetween]
        by_cases h3 : m.version = 3
        · rw [if_pos h3, if_neg (by omega), if_pos (by omega)]
          rfl
        · rw [if_neg h3]
          by_cases hdone : currentVersion old < 3 ∧ 3 ≤ state.2
          · rw [if_pos hdone, if_pos (by omega)]
            rfl
          · rw [if_neg hdone, if_neg (by omega)]
            rfl
      have htrans := h.keeps.trans hkeeps
      rw [hf] at htrans
      exact htrans
    · refine hf.keeps hkeeps ?_
      rw [Migration.rewrite]
      split
      · exact .inr rfl
      · exact .inl rfl

theorem runMigrations_migrated (h : Schema (currentVersion db) db) (hf : RowsFit db.tx) :
    ∃ db' v, runMigrations db = .ok db' ∧ Migrated db 10 (db', v) := by
  have hstart : Migrated db 0 (db, currentVersion db) := by
    refine ⟨.inl ⟨rfl, .inr rfl⟩, h, ?_, rfl, fun _ hn => absurd hn (by decide)⟩
    rw [rewriteBetween, if_neg (by omega)]
    exact keeps_of_eq rfl rfl rfl rfl
  obtain ⟨⟨db', v⟩, hrun, hmigrated, -⟩ :=
    foldlM_total_induction (fun pre state => Migrated db pre.length state ∧ RowsFit state.1.tx)
      (fun pre m suf hsplit state => Migrated.next hsplit) ⟨hstart, hf⟩
  exact ⟨db', v, bind_eq_ok.mpr ⟨(db', v), hrun, rfl⟩, hmigrated⟩

theorem Keeps.references {v w : Int} {left : Bytes → Prop} (h : Keeps (rewriteBetween v w) tx tx')
    (hr : References left tx) : References left tx' := by
  refine hr.fewer (ownerOf_of_map h.books fun _ b _ => ?_) ?_ ?_
  · rw [rewriteBetween]
    split
    · rfl
    · rfl
  · intro k p hget
    rwa [h.progress] at hget
  · intro k m hget
    rwa [h.bookmarks] at hget

/-- A database of any version, however stale the indexes are that its version does not
answer for, is upgraded without a change to the records apart from the categories, which
are trimmed once; upgraded it has all buckets, is not upgraded again, and every state that
requests lead to from there is consistent. The references that are asked for at the start are those
of the progress records, and that every bookmark lies under its own key. -/
theorem upgraded_consistent (h : Schema (currentVersion db) db) (hf : RowsFit db.tx) :
    ∃ db', runMigrations db = .ok db' ∧ runMigrations db' = .ok db' ∧
      Keeps (rewriteBetween (currentVersion db) 10) db.tx db'.tx ∧ (∀ name, name ∈ db'.buckets) ∧
      (References (fun _ => True) db.tx →
        ∀ tx, Reachable (· = db'.tx) Op.IssuedStep tx → Consistent tx) := by
  obtain ⟨db', v, hrun, hmigrated⟩ := runMigrations_migrated h hf
  have hv : 10 ≤ v := by
    have hversion := hmigrated.version
    simp only at hversion
    omega
  have hrewrite : rewriteBetween (currentVersion db) v = rewriteBetween (currentVersion db) 10 := by
    by_cases hold : currentVersion db < 3
    · rw [rewriteBetween, rewriteBetween, if_pos ⟨hold, by omega⟩, if_pos ⟨hold, by decide⟩]
    · rw [rewriteBetween, rewriteBetween, if_neg fun hn => hold hn.1, if_neg fun hn => hold hn.1]
  have hkeeps : Keeps (rewriteBetween (currentVersion db) 10) db.tx db'.tx := hrewrite ▸ hmigrated.keeps
  refine ⟨db', hrun, ?_, hkeeps, ?_, ?_⟩
  · have hstay : ∀ pre m suf, migrations = pre ++ m :: suf → ∀ state : Database × Int,
        state = (db', v) → ∃ state', migrate state m = .ok state' ∧ state' = (db', v) := by
      rintro pre m suf hsplit state rfl
      have hlast : ∀ m ∈ migrations, m.version ≤ 10 := by decide
      have hle : m.version ≤ v := (hlast m (by rw [hsplit]; simp)).trans hv
      exact ⟨(db', v), if_pos hle, rfl⟩
    obtain ⟨_, hloop, rfl⟩ := foldlM_total_induction (fun _ state => state = (db', v)) hstay rfl
    rw [runMigrations, hmigrated.stored]
    exact bind_eq_ok.mpr ⟨(db', v), hloop, rfl⟩
  · have hall : ∀ name : BucketName, ∃ m ∈ migrations, m.version ≤ 10 ∧ name ∈ m.creates := by
      intro name
      cases name with
      | _ => decide
    intro name
    obtain ⟨m, hm, hle, hname⟩ := hall name
    exact hmigrated.schema.created m hm (hle.trans hv) name hname
  · intro hr tx hreach
    refine hreach.invariant Consistent ?_ ?_
    · rintro tx rfl
      exact hmigrated.schema.consistent hv (hkeeps.references hr)
    · rintro tx op tx' hI ⟨hi, rfl⟩
      exact Tx.update_induction hI fun _ ht => hI.transaction op hi ht

theorem upgraded_consistent_legacy : ∃ db', runMigrations legacy = .ok db' ∧
    (db'.tx.books.get (ascii "b")).map (·.category) = some (some (ascii "A")) ∧ Consistent db'.tx := by
  obtain ⟨db', hrun, -, hkeeps, -, hconsistent⟩ := upgraded_consistent legacy_schema legacy_fits
  have href : References (fun _ => True) legacy.tx := by
    constructor
    · intro id u howner
      obtain ⟨b, hb, rfl⟩ := ownerOf_eq_some.mp howner
      obtain ⟨-, rfl⟩ := get_oneRow_eq_some (by decide) hb
      decide
    · intro k p hget
      simp [legacy, Tx.migrated] at hget
    · intro k m hget
      simp [legacy, Tx.migrated] at hget
    · intro k m hget
      simp [legacy, Tx.migrated] at hget
  refine ⟨db', hrun, ?_, hconsistent href _ (.start rfl)⟩
  rw [hkeeps.books]
  decide +kernel

/-! ## Every version ends in the same indexes -/

/-- The indexes that are derived from the books alone. -/
structure SameIndexes (tx tx' : Tx) : Prop where
  sort : tx'.bookSortIndex = tx.bookSortIndex
  categorySort : tx'.bookCategorySortIndex = tx.bookCategorySortIndex
  search : tx'.bookSearchIndex = tx.bookSearchIndex
  gram : tx'.bookSearchGramIndex = tx.bookSearchGramIndex
  gramCounts : tx'.bookSearchGramCounts = tx.bookSearchGramCounts
  missing : tx'.bookMissingHashIndex = tx.bookMissingHashIndex
  content : tx'.bookContentIndex = tx.bookContentIndex
  summary : tx'.librarySummaryIndex = tx.librarySummaryIndex

theorem rebuildBookContentIndex_agrees {s s' : Tx} (hb : s.books = tx.books)
    (h : rebuildBookContentIndex tx = .ok tx') (h' : rebuildBookContentIndex s = .ok s') :
    s'.bookContentIndex = tx'.bookContentIndex := by
  simp only [rebuildBookContentIndex, hb] at h h'
  refine foldlM_lockstep (fun t r => r.bookContentIndex = t.bookContentIndex) ?_ (by rfl) h h'
  intro b t r t' r' hI ht hr
  split at ht
  · next hblank =>
    rw [if_pos hblank] at hr
    cases ht
    cases hr
    exact hI
  · next hblank =>
    rw [if_neg hblank, addBookToContentIndex_eq] at hr
    rw [addBookToContentIndex_eq] at ht
    obtain ⟨t₁, ht₁, ht⟩ := bind_eq_ok.mp ht
    obtain ⟨r₁, hr₁, hr⟩ := bind_eq_ok.mp hr
    obtain ⟨m, rfl⟩ := trackMissingBookHash_ok ht₁
    obtain ⟨n, rfl⟩ := trackMissingBookHash_ok hr₁
    obtain ⟨c, hc, ht⟩ := bind_eq_ok.mp ht
    obtain ⟨d, hd, hr⟩ := bind_eq_ok.mp hr
    simp only [hI, hc, Except.ok.injEq] at hd
    cases ht
    cases hr
    exact hd.symm

theorem rebuildLibrarySummaryIndex_agrees {s s' : Tx} (hb : s.books = tx.books)
    (h : rebuildLibrarySummaryIndex tx = .ok tx') (h' : rebuildLibrarySummaryIndex s = .ok s') :
    s'.librarySummaryIndex = tx'.librarySummaryIndex := by
  simp only [rebuildLibrarySummaryIndex, hb] at h h'
  refine foldlM_lockstep (fun t r => r.librarySummaryIndex = t.librarySummaryIndex) ?_ (by rfl) h h'
  intro b t r t' r' hI ht hr
  have hload : loadLibrarySummary r b.userID = loadLibrarySummary t b.userID := by
    rw [loadLibrarySummary, hI, loadLibrarySummary]
  rw [adjustLibrarySummary] at ht hr
  split at ht
  · next hn =>
    rw [if_pos hn] at hr
    cases ht
    cases hr
    exact hI
  · next hn =>
    have hu : b.userID ≠ [] := fun hu => hn (.inl hu)
    rw [if_neg hn, saveLibrarySummary, if_neg hu, hload, hI] at hr
    rw [saveLibrarySummary, if_neg hu] at ht
    obtain ⟨c, hc, ht⟩ := bind_eq_ok.mp ht
    obtain ⟨d, hd, hr⟩ := bind_eq_ok.mp hr
    rw [hc, Except.ok.injEq] at hd
    cases ht
    cases hr
    exact hd.symm

/-- Where the summaries and the content index of a full rebuild come from. -/
theorem rebuildLibraryQueryIndexes_parts (hbooks : ∀ id b, tx.books.get id = some b → Plain id b)
    (h : rebuildLibraryQueryIndexes tx = .ok tx') :
    (∃ t t', t.books = tx.books ∧ rebuildLibrarySummaryIndex t = .ok t' ∧
      t'.librarySummaryIndex = tx'.librarySummaryIndex) ∧
    ∃ t t', t.books = tx.books ∧ rebuildBookContentIndex t = .ok t' ∧
      t'.bookContentIndex = tx'.bookContentIndex := by
  rw [rebuildLibraryQueryIndexes] at h
  obtain ⟨tx₁, h₁, h⟩ := bind_eq_ok.mp h
  obtain ⟨tx₂, h₂, h⟩ := bind_eq_ok.mp h
  obtain ⟨tx₃, h₃, h⟩ := bind_eq_ok.mp h
  obtain ⟨tx₄, h₄, h⟩ := bind_eq_ok.mp h
  obtain ⟨tx₅, h₅, h₆⟩ := bind_eq_ok.mp h
  have hframe := ((rebuildBookSortIndex_frame h₁).trans (rebuildBookSearchIndex_frame h₂)).trans
    (rebuildBookSearchGramIndex_frame h₃)
  have hbooks₃ : tx₃.books = tx.books := hframe.books
  have hbooks₄ : tx₄.books = tx.books := (rebuildLibrarySummaryIndex_frame h₄).books.trans hbooks₃
  have hk : Keyed tx₅ := by
    intro id b hb
    rw [(rebuildBookContentIndex_frame h₅).books, hbooks₄] at hb
    exact ⟨(hbooks id b hb).key, (hbooks id b hb).wellFormed⟩
  obtain ⟨m, rfl, -⟩ := rebuildMissingBookHashIndex_ok hk h₆
  refine ⟨⟨tx₃, tx₄, hbooks₃, h₄, ?_⟩, tx₄, tx₅, hbooks₄, h₅, rfl⟩
  obtain ⟨c, n, rfl⟩ := rebuildBookContentIndex_ok h₅
  rfl

theorem rebuildLibraryQueryIndexes_agrees {s s' : Tx} (hb : s.books = tx.books)
    (hbooks : ∀ id b, tx.books.get id = some b → Plain id b)
    (h : rebuildLibraryQueryIndexes tx = .ok tx') (h' : rebuildLibraryQueryIndexes s = .ok s') :
    SameIndexes tx' s' := by
  have hbooks' : ∀ id b, s.books.get id = some b → Plain id b := hb ▸ hbooks
  obtain ⟨⟨t₁, t₁', hb₁, hsummary, he₁⟩, t₂, t₂', hb₂, hcontent, he₂⟩ :=
    rebuildLibraryQueryIndexes_parts hbooks h
  obtain ⟨⟨r₁, r₁', hc₁, hsummary', hd₁⟩, r₂, r₂', hc₂, hcontent', hd₂⟩ :=
    rebuildLibraryQueryIndexes_parts hbooks' h'
  obtain ⟨-, hlisted, -⟩ := rebuildLibraryQueryIndexes_ok hbooks h
  obtain ⟨-, hlisted', -⟩ := rebuildLibraryQueryIndexes_ok hbooks' h'
  rw [hb] at hlisted'
  obtain ⟨hsort, c, hc, hcategory⟩ := hlisted.sort
  obtain ⟨hsort', d, hd, hcategory'⟩ := hlisted'.sort
  obtain ⟨hgram, n, hn, hcounts⟩ := hlisted.gram
  obtain ⟨hgram', k, hk, hcounts'⟩ := hlisted'.gram
  obtain ⟨m, hm, hmissing⟩ := hlisted.missing
  obtain ⟨l, hl, hmissing'⟩ := hlisted'.missing
  exact {
    sort := hsort'.unique hsort
    categorySort := by rw [hc, hd, hcategory'.unique hcategory]
    search := Mirrors.unique hlisted'.search hlisted.search
    gram := hgram'.unique hgram
    gramCounts := by rw [hn, hk, hcounts'.unique hcounts]
    missing := by rw [hm, hl, hmissing'.unique hmissing]
    content := by
      rw [← he₂, ← hd₂]
      exact rebuildBookContentIndex_agrees (hc₂.trans (hb.trans hb₂.symm)) hcontent hcontent'
    summary := by
      rw [← he₁, ← hd₁]
      exact rebuildLibrarySummaryIndex_agrees (hc₁.trans (hb.trans hb₁.symm)) hsummary hsummary' }

theorem runMigrations_rebuilds (h : Schema (currentVersion db) db) (hf : RowsFit db.tx)
    (hv : currentVersion db < 10) (hrun : runMigrations db = .ok db') :
    (∀ id, db'.tx.books.get id = (db.tx.books.get id).map (rewriteBetween (currentVersion db) 10)) ∧
      (∀ id b, db'.tx.books.get id = some b → Plain id b) ∧
      ∃ tx, tx.books = db'.tx.books ∧ rebuildLibraryQueryIndexes tx = .ok db'.tx := by
  obtain ⟨db₀, v, hrun₀, hmigrated⟩ := runMigrations_migrated h hf
  rw [hrun, Except.ok.injEq] at hrun₀
  subst hrun₀
  have hlast : v = 10 := by
    have hversion := hmigrated.version
    simp only at hversion
    omega
  subst hlast
  exact ⟨hmigrated.keeps.books, hmigrated.schema.books, hmigrated.fresh hv le_rfl⟩

/-- Two databases that hold the same books end in the same indexes, from whatever versions
below the last one they are upgraded and whatever their indexes held. -/
theorem upgraded_indexes_agree {db₁ db₂ db₁' db₂' : Database}
    (h₁ : Schema (currentVersion db₁) db₁) (h₂ : Schema (currentVersion db₂) db₂)
    (hf₁ : RowsFit db₁.tx) (hf₂ : RowsFit db₂.tx)
    (hv₁ : currentVersion db₁ < 10) (hv₂ : currentVersion db₂ < 10)
    (hsame : ∀ id, (db₂.tx.books.get id).map (rewriteBetween (currentVersion db₂) 10) =
      (db₁.tx.books.get id).map (rewriteBetween (currentVersion db₁) 10))
    (hrun₁ : runMigrations db₁ = .ok db₁') (hrun₂ : runMigrations db₂ = .ok db₂') :
    SameIndexes db₁'.tx db₂'.tx := by
  obtain ⟨hkept₁, hplain, t₁, ht₁, hrebuild₁⟩ := runMigrations_rebuilds h₁ hf₁ hv₁ hrun₁
  obtain ⟨hkept₂, -, t₂, ht₂, hrebuild₂⟩ := runMigrations_rebuilds h₂ hf₂ hv₂ hrun₂
  have hbooks : db₂'.tx.books = db₁'.tx.books :=
    Bucket.ext_get fun id => (hkept₂ id).trans ((hsame id).trans (hkept₁ id).symm)
  refine rebuildLibraryQueryIndexes_agrees (ht₂.trans (hbooks.trans ht₁.symm)) ?_ hrebuild₁ hrebuild₂
  rw [ht₁]
  exact hplain

theorem upgraded_indexes_agree_legacy : ∃ db db', runMigrations legacy = .ok db ∧
    runMigrations flatLegacy = .ok db' ∧ SameIndexes db.tx db'.tx := by
  obtain ⟨db, hrun, -⟩ := upgraded_consistent legacy_schema legacy_fits
  obtain ⟨db', hrun', -⟩ := upgraded_consistent flatLegacy_schema flatLegacy_fits
  refine ⟨db, db', hrun, hrun', upgraded_indexes_agree legacy_schema flatLegacy_schema legacy_fits
    flatLegacy_fits (by decide) (by decide) ?_ hrun hrun'⟩
  intro id
  change ((oneRow _ _).get id).map _ = ((oneRow _ _).get id).map _
  rw [get_oneRow (by decide), get_oneRow (by decide)]
  by_cases hid : ascii "b" = id
  · rw [if_pos hid, if_pos hid]
    decide +kernel
  · rw [if_neg hid, if_neg hid]
    rfl

end ZReader.Storage
