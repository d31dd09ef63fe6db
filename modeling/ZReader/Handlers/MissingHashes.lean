import ZReader.Lib.Paging
import ZReader.Handlers.Uploads

namespace ZReader.Handlers.Uploads

open Lib.Utf8 Lib.Strings Lib.KeyValue Lib.DerivedIndex Lib.Paging Storage Std

/-! ## One page of the backlog -/

/-- The order of the keys in a bucket. -/
def Before (a b : Bytes) : Prop := compare a b = .lt

instance : IsStrictOrder Bytes Before where
  irrefl a h := by
    have hself : compare a a = .eq := ReflCmp.compare_self
    rw [Before, hself] at h
    cases h
  trans _ _ _ hab hbc := TransCmp.lt_trans hab hbc

theorem before_of_not_lt {a b : Bytes} (hne : b ≠ a) (h : compare b a ≠ .lt) : Before a b := by
  cases hc : compare b a with
  | lt => exact absurd hc h
  | eq => exact absurd (LawfulEqOrd.eq_of_compare hc) hne
  | gt => exact OrientedCmp.lt_of_gt hc

/-- A text as a place among the keys; the empty one is the place before all of them. -/
def place (cursor : Bytes) : Option Bytes := if cursor = [] then none else some cursor

theorem mem_place {cursor c : Bytes} : c ∈ place cursor ↔ cursor ≠ [] ∧ c = cursor := by
  rw [place]
  split
  · next h => simp [h]
  · next h => simp [h, eq_comm]

/-- The record, unless it has a hash. -/
def missing (books : Bucket Book) (row : Bytes × Bytes) : Option Book :=
  (books.get row.2).filter (·.contentHash = [])

/-- The rows that a page looks at are the first ones after the cursor. -/
theorem collectMissing_spec (books : Bucket Book) (cursor : Bytes) (limit : ℕ)
    (rows : List (Bytes × Bytes)) (found : List Book) (next : Bytes) :
    ∃ seen rest, rows.filter (fun r => r.1 ≠ cursor) = seen ++ rest ∧
      (collectMissing books cursor limit rows found next).1 = found ++ seen.filterMap (missing books) ∧
      (collectMissing books cursor limit rows found next).2 =
        (if rest = [] then [] else ((seen.getLast?).map Prod.fst).getD next) ∧
      (rest ≠ [] → (found ++ seen.filterMap (missing books)).length = limit) := by
  induction rows generalizing found next with
  | nil => exact ⟨[], [], rfl, by simp [collectMissing], by simp [collectMissing], nofun⟩
  | cons row rows ih =>
      obtain ⟨key, id⟩ := row
      rw [collectMissing]
      split
      · next hkey =>
        obtain ⟨seen, rest, hrows, h⟩ := ih found next
        refine ⟨seen, rest, ?_, h⟩
        rw [← hrows]
        simp [hkey]
      · next hkey =>
        split
        · next hfull =>
          refine ⟨[], rows.filter (fun r => r.1 ≠ cursor) |>.cons (key, id), ?_, ?_, ?_, ?_⟩
          · simp [hkey]
          · simp
          · simp
          · intro _
            simpa using hfull
        · have hcons (seen rest : List (Bytes × Bytes))
              (hrows : rows.filter (fun r => r.1 ≠ cursor) = seen ++ rest) :
              ((key, id) :: rows).filter (fun r => r.1 ≠ cursor) = (key, id) :: seen ++ rest := by
            rw [List.cons_append, ← hrows]
            simp [hkey]
          have hlast (seen : List (Bytes × Bytes)) (next : Bytes) :
              ((((key, id) :: seen).getLast?).map Prod.fst).getD next =
                ((seen.getLast?).map Prod.fst).getD key := by
            cases seen with
            | nil => rfl
            | cons r seen =>
                rw [List.getLast?_cons_cons, List.getLast?_eq_some_getLast (List.cons_ne_nil r seen)]
                rfl
          split
          · next hnone =>
            obtain ⟨seen, rest, hrows, hbooks, hnext, hlength⟩ := ih found key
            have hmissing : ((key, id) :: seen).filterMap (missing books) =
                seen.filterMap (missing books) := List.filterMap_cons_none hnone
            refine ⟨(key, id) :: seen, rest, hcons seen rest hrows, ?_, ?_, ?_⟩
            · rw [hmissing, hbooks]
            · rw [hnext, hlast]
            · rw [hmissing]
              exact hlength
          · next book hsome =>
            obtain ⟨seen, rest, hrows, hbooks, hnext, hlength⟩ := ih (found ++ [book]) key
            have hmissing : ((key, id) :: seen).filterMap (missing books) =
                book :: seen.filterMap (missing books) := List.filterMap_cons_some hsome
            have happend : found ++ ((key, id) :: seen).filterMap (missing books) =
                found ++ [book] ++ seen.filterMap (missing books) := by
              rw [hmissing, List.append_assoc]
              rfl
            refine ⟨(key, id) :: seen, rest, hcons seen rest hrows, ?_, ?_, ?_⟩
            · rw [happend, hbooks]
            · rw [hnext, hlast]
            · rw [happend]
              exact hlength

section

variable {tx : Tx} {userID : Option Bytes} {cursor : Bytes} {limit : ℕ}

/-- The keys of the backlog of one user, or of all of them. -/
def backlog (tx : Tx) (userID : Option Bytes) : Set Bytes :=
  {k | (userID.map (· ++ [nul])).getD [] <+: k ∧
    ∃ bucket id, tx.bookMissingHashIndex = some bucket ∧ bucket.get k = some id}

/-- The books that are listed for a key: its record, if that has no hash. -/
def Shown (tx : Tx) (books : List Book) (k : Bytes) : Prop :=
  ∀ bucket id b, tx.bookMissingHashIndex = some bucket → bucket.get k = some id →
    tx.books.get id = some b → b.contentHash = [] → b ∈ books

/-- A list that is not full ends the backlog. -/
theorem listBooksMissingHash_end
    (h : (listBooksMissingHash tx userID cursor limit).1.length < limit) :
    (listBooksMissingHash tx userID cursor limit).2 = [] := by
  unfold listBooksMissingHash at h ⊢
  split
  · rfl
  · next bucket hbucket =>
    rw [hbucket] at h
    dsimp only at h ⊢
    split
    · rfl
    · next hlimit =>
      rw [if_neg hlimit] at h
      obtain ⟨seen, rest, -, hbooks, hnext, hfull⟩ := collectMissing_spec tx.books cursor limit
        (bucket.seek (if cursor = [] then (userID.map (· ++ [nul])).getD [] else cursor)
          ((userID.map (· ++ [nul])).getD [])) [] []
      rw [hnext]
      split
      · rfl
      · next hrest =>
        rw [hbooks, hfull hrest] at h
        exact absurd h (lt_irrefl _)

/-- What `ListBooksMissingHash` lists is a page of the backlog. -/
theorem listBooksMissingHash_page (hindex : tx.bookMissingHashIndex ≠ none)
    (hcursor : ∀ c ∈ place cursor, (userID.map (· ++ [nul])).getD [] <+: c) (hlimit : 0 < limit) :
    Page Before (backlog tx userID) (place cursor)
      (place (listBooksMissingHash tx userID cursor limit).2)
      {k ∈ backlog tx userID | Shown tx (listBooksMissingHash tx userID cursor limit).1 k} := by
  obtain ⟨bucket, hbucket⟩ := Option.ne_none_iff_exists'.mp hindex
  generalize hpre : (userID.map (· ++ [nul])).getD [] = pre at hcursor
  have hstart : pre <+: if cursor = [] then pre else cursor := by
    split
    · exact List.prefix_refl pre
    · next hne => exact hcursor cursor (mem_place.mpr ⟨hne, rfl⟩)
  have hpage : listBooksMissingHash tx userID cursor limit = collectMissing tx.books cursor limit
      (bucket.seek (if cursor = [] then pre else cursor) pre) [] [] := by
    simp only [listBooksMissingHash, hbucket, hpre, if_neg hlimit.ne']
  obtain ⟨seen, rest, hrows, hbooks, hnext, hfull⟩ := collectMissing_spec tx.books cursor limit
    (bucket.seek (if cursor = [] then pre else cursor) pre) [] []
  rw [← hpage] at hbooks hnext
  -- the rows that count are those of the backlog after the cursor
  have hrow {k id : Bytes} : (k, id) ∈ seen ++ rest ↔
      bucket.get k = some id ∧ pre <+: k ∧ After Before (place cursor) k := by
    rw [← hrows, List.mem_filter, Bucket.mem_seek hstart, Bucket.mem_entries]
    constructor
    · rintro ⟨⟨hget, hle, hk⟩, hne⟩
      refine ⟨hget, hk, fun c hc => ?_⟩
      obtain ⟨hcne, rfl⟩ := mem_place.mp hc
      rw [if_neg hcne] at hle
      exact before_of_not_lt (of_decide_eq_true hne) hle
    · rintro ⟨hget, hk, hafter⟩
      by_cases hcne : cursor = []
      · subst hcne
        refine ⟨⟨hget, ?_, hk⟩, ?_⟩
        · exact Bucket.compare_ne_lt_of_isPrefix hk
        · exact decide_eq_true (Bucket.valid_of_get hget).1
      · have hlt := hafter cursor (mem_place.mpr ⟨hcne, rfl⟩)
        rw [if_neg hcne]
        refine ⟨⟨hget, ?_, hk⟩, ?_⟩
        · rw [OrientedCmp.gt_of_lt hlt]
          nofun
        · refine decide_eq_true ?_
          rintro rfl
          exact irrefl _ hlt
  have hsorted : (seen ++ rest).Pairwise fun r s => Before r.1 s.1 := by
    rw [← hrows, Bucket.seek_eq_filter bucket hstart]
    exact (bucket.entries_sorted.filter _).filter _
  have hstops (hrest : rest ≠ []) : ∃ r ∈ seen, r.1 ≠ [] ∧
      (listBooksMissingHash tx userID cursor limit).2 = r.1 := by
    have hseen : seen ≠ [] := by
      rintro rfl
      have := hfull hrest
      simp only [List.filterMap_nil, List.append_nil, List.length_nil] at this
      omega
    refine ⟨seen.getLast hseen, List.getLast_mem hseen, ?_, ?_⟩
    · have hmem : seen.getLast hseen ∈ seen ++ rest :=
        List.mem_append_left _ (List.getLast_mem hseen)
      exact (Bucket.valid_of_get (hrow.mp hmem).1).1
    · rw [hnext, if_neg hrest, List.getLast?_eq_some_getLast hseen]
      rfl
  constructor
  · intro k hbacklog hafter hstop
    refine ⟨hbacklog, fun bucket' id b hbucket' hget hb hhash => ?_⟩
    obtain ⟨hk, -⟩ := hbacklog
    rw [hbucket] at hbucket'
    cases hbucket'
    rw [hbooks, List.nil_append]
    refine List.mem_filterMap.mpr ⟨(k, id), ?_, ?_⟩
    · rcases List.mem_append.mp (hrow.mpr ⟨hget, hpre ▸ hk, hafter⟩) with hmem | hmem
      · exact hmem
      · obtain ⟨r, hr, hne, heq⟩ := hstops (List.ne_nil_of_mem hmem)
        have hlt : Before r.1 k := (List.pairwise_append.mp hsorted).2.2 r hr _ hmem
        exact absurd hlt (hstop r.1 (mem_place.mpr ⟨heq ▸ hne, heq.symm⟩))
    · rw [missing, hb]
      exact Option.filter_eq_some_iff.mpr ⟨rfl, decide_eq_true hhash⟩
  · intro c hc
    obtain ⟨hcne, rfl⟩ := mem_place.mp hc
    have hrest : rest ≠ [] := by
      rintro rfl
      rw [hnext] at hcne
      exact hcne rfl
    obtain ⟨r, hr, -, heq⟩ := hstops hrest
    obtain ⟨hget, hk, hafter⟩ := hrow.mp (List.mem_append_left rest hr)
    rw [heq]
    exact ⟨⟨hpre ▸ hk, bucket, r.2, hbucket, hget⟩, hafter⟩

theorem mem_missingRows {b : Book} (hid : b.id ≠ []) (hhash : b.contentHash = []) :
    (bookSearchIndexKey b.userID b.id, b.id) ∈ missingRows b := by
  rw [missingRows, if_neg]
  · exact List.mem_singleton.mpr rfl
  · rintro (hid' | hne)
    · exact hid hid'
    · exact hne hhash

theorem index_ne_none (hc : Coherent tx) : tx.bookMissingHashIndex ≠ none := by
  obtain ⟨bucket, hbucket, -⟩ := hc.listed.missing
  rw [hbucket]
  nofun

/-- In a coherent database the backlog is what it should be. -/
theorem mem_backlog (hc : Coherent tx) {k : Bytes} :
    k ∈ backlog tx userID ↔ (userID.map (· ++ [nul])).getD [] <+: k ∧
      ∃ b, tx.books.get b.id = some b ∧ b.contentHash = [] ∧ k = bookSearchIndexKey b.userID b.id := by
  obtain ⟨bucket, hbucket, hmirrors⟩ := hc.listed.missing
  refine and_congr_right fun _ => ?_
  constructor
  · rintro ⟨bucket', id, hbucket', hget⟩
    rw [hbucket] at hbucket'
    cases hbucket'
    obtain ⟨b, hb, hrow⟩ := (hmirrors k id).mp hget
    obtain ⟨k', hk'⟩ := Bucket.mem_values.mp hb
    rw [missingRows] at hrow
    split at hrow
    · cases hrow
    · next hrows =>
      obtain ⟨rfl, -⟩ := Prod.mk.inj (List.mem_singleton.mp hrow)
      refine ⟨b, ?_, by_contra fun hne => hrows (.inr hne), rfl⟩
      rw [(hc.keyed k' b hk').1]
      exact hk'
  · rintro ⟨b, hb, hhash, rfl⟩
    have hrow := mem_missingRows (hc.keyed b.id b hb).2.1 hhash
    exact ⟨bucket, b.id, hbucket, (hmirrors _ _).mpr ⟨b, Bucket.mem_values.mpr ⟨b.id, hb⟩, hrow⟩⟩

theorem Shown.mem (hc : Coherent tx) {books : List Book} {b : Book} (hb : tx.books.get b.id = some b)
    (hhash : b.contentHash = []) (hshown : Shown tx books (bookSearchIndexKey b.userID b.id)) :
    b ∈ books := by
  obtain ⟨bucket, hbucket, hmirrors⟩ := hc.listed.missing
  have hrow := mem_missingRows (hc.keyed b.id b hb).2.1 hhash
  have hget := (hmirrors _ _).mpr ⟨b, Bucket.mem_values.mpr ⟨b.id, hb⟩, hrow⟩
  exact hshown bucket b.id b hbucket hget hb hhash

/-- A user with a book without a hash has a backlog. -/
theorem listBooksMissingHash_ne_nil (hc : Coherent tx) {b : Book} (hb : tx.books.get b.id = some b)
    (hhash : b.contentHash = []) : (listBooksMissingHash tx (some b.userID) [] 1).1 ≠ [] := by
  intro hempty
  have hend : (listBooksMissingHash tx (some b.userID) [] 1).2 = [] :=
    listBooksMissingHash_end (by rw [hempty]; exact Nat.one_pos)
  have hpage : Page Before (backlog tx (some b.userID)) (place []) _ _ :=
    listBooksMissingHash_page (index_ne_none hc) nofun Nat.one_pos
  have hbacklog : bookSearchIndexKey b.userID b.id ∈ backlog tx (some b.userID) :=
    (mem_backlog hc).mpr ⟨List.prefix_append _ _, b, hb, hhash, rfl⟩
  have hseen := hpage.sees _ hbacklog nofun (by rw [hend]; nofun)
  have hmem := hseen.2.mem hc hb hhash
  rw [hempty] at hmem
  cases hmem

/-! ## All pages -/

/-- The cursor of each page, as the databases change from page to page. -/
def missingCursor (dbs : ℕ → Tx) (userID : Option Bytes) (limit : ℕ) : ℕ → Bytes
  | 0 => []
  | n + 1 => (listBooksMissingHash (dbs n) userID (missingCursor dbs userID limit n) limit).2

/-- The successive calls are pages of the changing backlog. -/
theorem missingCursor_pages {dbs : ℕ → Tx} (userID : Option Bytes) (hc : ∀ n, Coherent (dbs n))
    (hlimit : 0 < limit) :
    Pages Before (fun n => backlog (dbs n) userID)
      (fun n => place (missingCursor dbs userID limit n))
      (fun n => {k ∈ backlog (dbs n) userID | Shown (dbs n)
        (listBooksMissingHash (dbs n) userID (missingCursor dbs userID limit n) limit).1 k}) := by
  have hstarts (n : ℕ) : ∀ c ∈ place (missingCursor dbs userID limit n),
      (userID.map (· ++ [nul])).getD [] <+: c := by
    induction n with
    | zero => nofun
    | succ n ih =>
        intro c hstop
        exact ((listBooksMissingHash_page (index_ne_none (hc n)) ih hlimit).stops c hstop).1.1
  exact ⟨rfl, fun n _ => listBooksMissingHash_page (index_ne_none (hc n)) (hstarts n) hlimit⟩

theorem place_eq_none : place cursor = none ↔ cursor = [] := by
  rw [place]
  split
  · next h => simp [h]
  · next h => simp [h]

/-- Paging through the backlog ends, and lists each of its books that stays until it is reached. -/
theorem missingCursor_visits {dbs : ℕ → Tx} (hc : ∀ n, Coherent (dbs n)) (hlimit : 0 < limit) :
    (∀ all : Finset Bytes, (∀ n, ∀ k ∈ backlog (dbs n) userID, k ∈ all) →
      ∃ N ≤ all.card, missingCursor dbs userID limit (N + 1) = []) ∧
    ∀ N, (∀ n < N, missingCursor dbs userID limit (n + 1) ≠ []) →
      missingCursor dbs userID limit (N + 1) = [] → ∀ k ∈ backlog (dbs 0) userID,
        (∃ n ≤ N, k ∉ backlog (dbs n) userID ∧
          After Before (place (missingCursor dbs userID limit n)) k) ∨
        ∃ n ≤ N, ∃ b ∈ (listBooksMissingHash (dbs n) userID (missingCursor dbs userID limit n) limit).1,
          (dbs n).books.get b.id = some b ∧ b.contentHash = [] ∧
            k = bookSearchIndexKey b.userID b.id := by
  have hpages := missingCursor_pages userID hc hlimit
  constructor
  · intro all hall
    obtain ⟨N, hN, hend⟩ := hpages.terminates all hall
    exact ⟨N, hN, place_eq_none.mp hend⟩
  · intro N hgoes hend k hk
    by_cases hgone : ∃ n ≤ N, k ∉ backlog (dbs n) userID ∧
        After Before (place (missingCursor dbs userID limit n)) k
    · exact .inl hgone
    · right
      have hstays (n : ℕ) (hn : n ≤ N)
          (hafter : After Before (place (missingCursor dbs userID limit n)) k) :
          k ∈ backlog (dbs n) userID := by
        by_contra hnot
        exact hgone ⟨n, hn, hnot, hafter⟩
      obtain ⟨n, hn, hbacklog, hshown⟩ :=
        hpages.visits (fun n hn hnone => hgoes n hn (place_eq_none.mp hnone)) (place_eq_none.mpr hend)
          hstays
      obtain ⟨-, b, hb, hhash, rfl⟩ := (mem_backlog (hc n)).mp hbacklog
      exact ⟨n, hn, b, hshown.mem (hc n) hb hhash, hb, hhash, rfl⟩

end

end ZReader.Handlers.Uploads
