import ZReader.Storage.Migrations

namespace ZReader.Storage

open Lib.Utf8 Lib.Strings Lib.KeyValue Lib.DerivedIndex Lib.Fallible Lib.Integers Lib.Transition

variable {db db' : Database} {tx tx' : Tx}

/-! ## Buckets that are there -/

/-- The indexes that are built anew before they are read may hold anything. -/
def BucketName.IsEmpty (tx : Tx) : BucketName → Prop
  | .books => tx.books = .empty
  | .progress => tx.progress = .empty
  | .bookmarks => tx.bookmarks = .empty
  | .users => tx.users = .empty
  | .userBooksIndex => tx.userBooksIndex = .empty
  | .usernameIndex => tx.usernameIndex = .empty
  | .progressTimeIndex => tx.progressTimeIndex = .empty
  | _ => True

theorem BucketName.clear_of_isEmpty {name : BucketName} (h : name.IsEmpty tx) :
    SameRecords tx (name.clear tx) := by
  cases name with
  | books => exact ⟨h.symm, rfl, rfl, rfl, rfl, rfl, rfl⟩
  | progress => exact ⟨rfl, h.symm, rfl, rfl, rfl, rfl, rfl⟩
  | bookmarks => exact ⟨rfl, rfl, h.symm, rfl, rfl, rfl, rfl⟩
  | users => exact ⟨rfl, rfl, rfl, h.symm, rfl, rfl, rfl⟩
  | usernameIndex => exact ⟨rfl, rfl, rfl, rfl, h.symm, rfl, rfl⟩
  | progressTimeIndex => exact ⟨rfl, rfl, rfl, rfl, rfl, h.symm, rfl⟩
  | userBooksIndex => exact ⟨rfl, rfl, rfl, rfl, rfl, rfl, h.symm⟩
  | _ => exact ⟨rfl, rfl, rfl, rfl, rfl, rfl, rfl⟩

theorem SameRecords.isEmpty (h : SameRecords tx tx') {name : BucketName} (he : name.IsEmpty tx) :
    name.IsEmpty tx' := by
  cases name with
  | books => exact h.books.trans he
  | progress => exact h.progress.trans he
  | bookmarks => exact h.bookmarks.trans he
  | users => exact h.users.trans he
  | usernameIndex => exact h.usernames.trans he
  | progressTimeIndex => exact h.progressTimes.trans he
  | userBooksIndex => exact h.userBooks.trans he
  | _ => exact he

/-- What is not there is empty. -/
def Database.Clean (db : Database) : Prop := ∀ name, name ∉ db.buckets → name.IsEmpty db.tx

theorem createBucketIfNotExists_spec (hc : db.Clean) (name : BucketName) :
    SameRecords db.tx (createBucketIfNotExists db name).tx ∧ (createBucketIfNotExists db name).Clean ∧
      ∀ n, n ∈ (createBucketIfNotExists db name).buckets ↔ n = name ∨ n ∈ db.buckets := by
  rw [createBucketIfNotExists]
  split
  · next hn =>
    refine ⟨SameRecords.refl _, hc, ?_⟩
    intro n
    constructor
    · exact .inr
    · rintro (rfl | h)
      · exact hn
      · exact h
  · next hn =>
    have hsame := BucketName.clear_of_isEmpty (hc name hn)
    refine ⟨hsame, ?_, fun n => List.mem_cons⟩
    intro n hmem
    exact hsame.isEmpty (hc n fun h => hmem (List.mem_cons_of_mem name h))

theorem foldl_createBucket (hc : db.Clean) (l : List BucketName) :
    SameRecords db.tx (l.foldl createBucketIfNotExists db).tx ∧
      (l.foldl createBucketIfNotExists db).Clean ∧
      ∀ n, n ∈ (l.foldl createBucketIfNotExists db).buckets ↔ n ∈ l ∨ n ∈ db.buckets := by
  induction l generalizing db with
  | nil => exact ⟨SameRecords.refl _, hc, by simp⟩
  | cons name l ih =>
      obtain ⟨hsame, hclean, hbuckets⟩ := createBucketIfNotExists_spec hc name
      obtain ⟨hsame', hclean', hbuckets'⟩ := ih hclean
      refine ⟨hsame.trans hsame', hclean', ?_⟩
      intro n
      rw [List.foldl_cons, hbuckets', hbuckets, List.mem_cons]
      tauto

theorem rebuild_eq_ok {reads creates : List BucketName} {body : Tx → Result Tx} :
    db.rebuild reads creates body = .ok db' ↔ (∀ name ∈ reads, name ∈ db.buckets) ∧
      ∃ tx, body db.tx = .ok tx ∧ db' = { db with buckets := creates ++ db.buckets, tx := tx } := by
  rw [Database.rebuild]
  split
  · next hreads =>
    rw [bind_eq_ok]
    constructor
    · rintro ⟨tx, htx, h⟩
      cases h
      exact ⟨hreads, tx, htx, rfl⟩
    · rintro ⟨-, tx, htx, rfl⟩
      exact ⟨tx, htx, rfl⟩
  · next hreads =>
    constructor
    · intro h
      cases h
    · rintro ⟨h, -⟩
      exact absurd h hreads

/-! ## The indexes of accounts and of their books -/

theorem migrateUsernameIndex_ok (h : migrateUsernameIndex tx = .ok tx') :
    ∃ i, tx' = { tx with usernameIndex := i } ∧
      (∀ norm id, tx.usernameIndex.get norm = some id → i.get norm = some id) ∧
      ∀ id user, tx.users.get id = some user → normalizeUsername user.username ≠ [] →
        ∃ id', i.get (normalizeUsername user.username) = some id' := by
  have hloop := foldlM_induction (fun pre t => ∃ i, t = { tx with usernameIndex := i } ∧
      (∀ norm id, tx.usernameIndex.get norm = some id → i.get norm = some id) ∧
      ∀ r ∈ pre, normalizeUsername r.2.username ≠ [] →
        ∃ id', i.get (normalizeUsername r.2.username) = some id') ?_
    ⟨tx.usernameIndex, rfl, fun _ _ h => h, by simp⟩ h
  · obtain ⟨i, he, hold, hnames⟩ := hloop
    exact ⟨i, he, hold, fun id user hget => hnames (id, user) (Bucket.mem_entries.mpr hget)⟩
  · rintro pre r suf - t t' ⟨i, rfl, hold, hnames⟩ hstep
    simp only at hstep
    split at hstep
    · next hblank =>
      cases hstep
      refine ⟨i, rfl, hold, ?_⟩
      intro s hs hne
      rcases List.mem_append.mp hs with hs | hs
      · exact hnames s hs hne
      · rw [List.mem_singleton.mp hs] at hne
        exact absurd hblank hne
    · split at hstep
      · next id' hget =>
        cases hstep
        refine ⟨i, rfl, hold, ?_⟩
        intro s hs hne
        rcases List.mem_append.mp hs with hs | hs
        · exact hnames s hs hne
        · rw [List.mem_singleton.mp hs]
          exact ⟨id', hget⟩
      · next hget =>
        obtain ⟨j, hj, hstep⟩ := bind_eq_ok.mp hstep
        cases hstep
        have hput := Bucket.get_put (store_eq_ok.mp hj)
        refine ⟨j, rfl, ?_, ?_⟩
        · intro norm id hnorm
          rw [hput, if_neg, hold norm id hnorm]
          rintro rfl
          rw [hold _ id hnorm] at hget
          cases hget
        · intro s hs hne
          rw [hput]
          split
          · exact ⟨_, rfl⟩
          · next hother =>
            rcases List.mem_append.mp hs with hs | hs
            · exact hnames s hs hne
            · rw [List.mem_singleton.mp hs] at hother
              exact absurd rfl hother

theorem migrateUserBooksIndex_get (h : migrateUserBooksIndex tx = .ok tx') :
    ∃ i, tx' = { tx with userBooksIndex := i } ∧ ∀ key data, i.get key = some data ↔
      tx.userBooksIndex.get key = some data ∨ (tx.userBooksIndex.get key = none ∧ data = [] ∧
        ∃ b ∈ tx.books.values, b.userID ≠ [] ∧ key = userBooksKey b.userID b.id) := by
  refine foldlM_induction (fun pre t => ∃ i, t = { tx with userBooksIndex := i } ∧
    ∀ key data, i.get key = some data ↔ tx.userBooksIndex.get key = some data ∨
      (tx.userBooksIndex.get key = none ∧ data = [] ∧
        ∃ b ∈ pre, b.userID ≠ [] ∧ key = userBooksKey b.userID b.id)) ?_
    ⟨tx.userBooksIndex, rfl, by simp⟩ h
  rintro pre b suf - t t' ⟨i, rfl, hi⟩ hstep
  have hnone : ∀ key, i.get key = none → tx.userBooksIndex.get key = none := by
    intro key hkey
    cases hget : tx.userBooksIndex.get key with
    | none => rfl
    | some data =>
        rw [(hi key data).mpr (.inl hget)] at hkey
        cases hkey
  simp only at hstep
  split at hstep
  · next hu =>
    cases hstep
    refine ⟨i, rfl, ?_⟩
    intro key data
    rw [hi]
    refine or_congr_right (and_congr_right fun _ => and_congr_right fun _ => ?_)
    simp [hu, or_and_right, exists_or]
  · next hu =>
    split at hstep
    · next data' hget =>
      cases hstep
      refine ⟨i, rfl, ?_⟩
      intro key data
      constructor
      · intro h
        rcases (hi key data).mp h with hold | ⟨hold, hdata, c, hc, hkey⟩
        · exact .inl hold
        · exact .inr ⟨hold, hdata, c, List.mem_append_left _ hc, hkey⟩
      · rintro (hold | ⟨hold, rfl, c, hc, hcu, rfl⟩)
        · exact (hi key data).mpr (.inl hold)
        · rcases List.mem_append.mp hc with hc | hc
          · exact (hi _ _).mpr (.inr ⟨hold, rfl, c, hc, hcu, rfl⟩)
          · rw [List.mem_singleton.mp hc] at hold ⊢
            rcases (hi _ data').mp hget with hsome | ⟨-, rfl, -⟩
            · rw [hold] at hsome
              cases hsome
            · exact hget
    · next hget =>
      obtain ⟨j, hj, hstep⟩ := bind_eq_ok.mp hstep
      cases hstep
      have hput := Bucket.get_put (store_eq_ok.mp hj)
      refine ⟨j, rfl, ?_⟩
      intro key data
      rw [hput]
      by_cases hkey : userBooksKey b.userID b.id = key
      · subst hkey
        rw [if_pos rfl, hnone _ hget]
        constructor
        · intro h
          cases h
          exact .inr ⟨rfl, rfl, b, by simp, hu, rfl⟩
        · rintro (h | ⟨-, rfl, -⟩)
          · cases h
          · rfl
      · rw [if_neg hkey, hi]
        refine or_congr_right (and_congr_right fun _ => and_congr_right fun _ => ?_)
        simp [Ne.symm hkey, or_and_right, exists_or]

/-! ## One row for each book of a user -/

theorem foldlM_store {A V : Type} {key : A → Bytes} {v : V} {l : List A} {b c : Bucket V}
    (h : l.foldlM (fun b a => store b (key a) v) b = .ok c) :
    putRows b (l.map fun a => (key a, v)) = .ok c := by
  induction l generalizing b with
  | nil =>
      rw [foldlM_nil_eq_ok] at h
      rw [h]
      rfl
  | cons a l ih =>
      obtain ⟨d, hd, h⟩ := foldlM_cons_eq_ok.mp h
      rw [List.map_cons, putRows_cons, store_eq_ok.mp hd]
      exact ih h

/-- The row lists a book among the books of a user. -/
def OldIndexEntry.Lists (e : OldIndexEntry) (key : Bytes) : Prop :=
  ∃ id ∈ e.bookIDs, key = userBooksKey e.userID id

theorem colon_mem_userBooksKey (u id : Bytes) : colon ∈ userBooksKey u id := by
  simp [userBooksKey]

theorem flattenEntry_get {idxB idxB' : Bucket Bytes} {e : OldIndexEntry}
    (h : flattenEntry idxB e = .ok idxB') (key data : Bytes) :
    idxB'.get key = some data ↔ key ≠ e.userID ∧
      ((e.Lists key ∧ data = []) ∨ (¬ e.Lists key ∧ idxB.get key = some data)) := by
  rw [flattenEntry] at h
  obtain ⟨b, hb, h⟩ := bind_eq_ok.mp h
  cases h
  have hfun : Functional (e.bookIDs.map fun id => (userBooksKey e.userID id, ([] : Bytes))) := by
    intro k v w hv hw
    obtain ⟨_, -, hv⟩ := List.mem_map.mp hv
    obtain ⟨_, -, hw⟩ := List.mem_map.mp hw
    exact (congrArg Prod.snd hv).symm.trans (congrArg Prod.snd hw)
  have hlists : ∀ v : Bytes, (key, v) ∈ e.bookIDs.map (fun id => (userBooksKey e.userID id, ([] : Bytes))) ↔
      e.Lists key ∧ v = [] := by
    intro v
    simp only [List.mem_map, Prod.mk.injEq, OldIndexEntry.Lists]
    constructor
    · rintro ⟨id, hid, rfl, rfl⟩
      exact ⟨⟨id, hid, rfl⟩, rfl⟩
    · rintro ⟨⟨id, hid, rfl⟩, rfl⟩
      exact ⟨id, hid, rfl, rfl⟩
  have hkeys : key ∈ (e.bookIDs.map fun id => (userBooksKey e.userID id, ([] : Bytes))).map Prod.fst ↔
      e.Lists key := by
    constructor
    · intro hmem
      obtain ⟨⟨k, v⟩, hr, rfl⟩ := List.mem_map.mp hmem
      exact ((hlists v).mp hr).1
    · intro hl
      exact List.mem_map.mpr ⟨(key, []), (hlists []).mpr ⟨hl, rfl⟩, rfl⟩
  rw [Bucket.get_delete]
  by_cases hk : e.userID = key
  · simp [hk]
  · rw [if_neg hk, get_putRows hfun (foldlM_store hb), hlists, hkeys]
    simp [Ne.symm hk]

theorem flattenUserBooksIndex_get (h : flattenUserBooksIndex tx = .ok tx') :
    ∃ i, tx' = { tx with userBooksIndex := i } ∧ ∀ key data, i.get key = some data ↔
      (∀ e ∈ oldIndexEntries tx.userBooksIndex, key ≠ e.userID) ∧
        (((∃ e ∈ oldIndexEntries tx.userBooksIndex, e.Lists key) ∧ data = []) ∨
          ((¬ ∃ e ∈ oldIndexEntries tx.userBooksIndex, e.Lists key) ∧
            tx.userBooksIndex.get key = some data)) := by
  rw [flattenUserBooksIndex] at h
  obtain ⟨i, hi, h⟩ := bind_eq_ok.mp h
  cases h
  refine ⟨i, rfl, ?_⟩
  refine foldlM_induction (fun pre i => ∀ key data, i.get key = some data ↔
    (∀ e ∈ pre, key ≠ e.userID) ∧ (((∃ e ∈ pre, e.Lists key) ∧ data = []) ∨
      ((¬ ∃ e ∈ pre, e.Lists key) ∧ tx.userBooksIndex.get key = some data))) ?_ (by simp) hi
  intro pre e suf hsplit b c hI hstep key data
  have hplain : ∀ e' ∈ pre, colon ∉ e'.userID := by
    intro e' he' hcolon
    have hmem : e' ∈ oldIndexEntries tx.userBooksIndex := by
      rw [hsplit]
      exact List.mem_append_left _ he'
    obtain ⟨r, -, hr⟩ := List.mem_filterMap.mp hmem
    split at hr
    · cases hr
    · next hno =>
      obtain ⟨ids, -, rfl⟩ := Option.map_eq_some_iff.mp hr
      exact hno hcolon
  have hother : e.Lists key → ∀ e' ∈ pre, key ≠ e'.userID := by
    rintro ⟨id, -, rfl⟩ e' he' heq
    exact hplain e' he' (heq ▸ colon_mem_userBooksKey e.userID id)
  rw [flattenEntry_get hstep, hI]
  simp only [List.mem_append, List.mem_singleton, or_and_right, exists_or, exists_eq_left, not_or, or_imp,
    forall_and, forall_eq]
  by_cases hl : e.Lists key
  · simp only [hl, true_and, not_true_eq_false, false_and, or_false, and_false]
    constructor
    · rintro ⟨hne, hdata⟩
      exact ⟨⟨hother hl, hne⟩, .inr hdata⟩
    · rintro ⟨⟨-, hne⟩, hdata⟩
      exact ⟨hne, hdata.elim And.right id⟩
  · simp only [hl, false_and, false_or, not_false_eq_true, true_and, or_false, and_true]
    exact and_left_comm.trans and_assoc.symm

/-! ## What a database of a version holds -/

/-- The index has a book among those of a user, in a row of its own or in the user's list. -/
def Says (tx : Tx) (u id : Bytes) : Prop :=
  (∃ data, tx.userBooksIndex.get (userBooksKey u id) = some data) ∨
    ∃ e ∈ oldIndexEntries tx.userBooksIndex, e.userID = u ∧ id ∈ e.bookIDs

/-- What the index says is right; before version 4 some of it may be in lists, and from
version 2 on nothing is missing. -/
structure UserBooksRight (v : Int) (tx : Tx) : Prop where
  flat : ∀ key data, tx.userBooksIndex.get key = some data → colon ∈ key →
    data = [] ∧ ∃ u id, u ≠ [] ∧ key = userBooksKey u id ∧ ownerOf tx id = some u
  old : ∀ key data, tx.userBooksIndex.get key = some data → colon ∉ key →
    v < 4 ∧ ∃ ids, unmarshalStrings data = some ids ∧ ∀ id ∈ ids, ownerOf tx id = some key
  complete : 2 ≤ v → ∀ id u, ownerOf tx id = some u → u ≠ [] → Says tx u id

theorem mem_oldIndexEntries {idxB : Bucket Bytes} {e : OldIndexEntry} :
    e ∈ oldIndexEntries idxB ↔ colon ∉ e.userID ∧
      ∃ data, idxB.get e.userID = some data ∧ unmarshalStrings data = some e.bookIDs := by
  constructor
  · intro he
    obtain ⟨r, hr, he⟩ := List.mem_filterMap.mp he
    split at he
    · cases he
    · next hno =>
      obtain ⟨ids, hids, rfl⟩ := Option.map_eq_some_iff.mp he
      exact ⟨hno, r.2, Bucket.mem_entries.mp hr, hids⟩
  · rintro ⟨hno, data, hget, hids⟩
    refine List.mem_filterMap.mpr ⟨(e.userID, data), Bucket.mem_entries.mpr hget, ?_⟩
    rw [if_neg hno, hids]
    rfl

namespace UserBooksRight

variable {v w : Int}

theorem congr (h : UserBooksRight v tx) (ho : ownerOf tx' = ownerOf tx)
    (hi : tx'.userBooksIndex = tx.userBooksIndex) (hold : v < 4 → w < 4) (hnew : 2 ≤ w → 2 ≤ v) :
    UserBooksRight w tx' where
  flat := by
    rw [hi, ho]
    exact h.flat
  old := by
    rw [hi, ho]
    intro key data hget hno
    obtain ⟨hv, hids⟩ := h.old key data hget hno
    exact ⟨hold hv, hids⟩
  complete := by
    intro hw id u howner hu
    rw [ho] at howner
    rw [Says, hi]
    exact h.complete (hnew hw) id u howner hu

theorem index (h : UserBooksRight v tx) (hw : w < 4) (hk : Keyed tx)
    (hrun : migrateUserBooksIndex tx = .ok tx') : UserBooksRight w tx' := by
  obtain ⟨i, rfl, hi⟩ := migrateUserBooksIndex_get hrun
  constructor
  · intro key data hget hcolon
    rcases (hi key data).mp hget with hget | ⟨-, rfl, b, hb, hu, rfl⟩
    · exact h.flat key data hget hcolon
    · obtain ⟨id, hb⟩ := Bucket.mem_values.mp hb
      obtain ⟨rfl, -⟩ := hk id b hb
      exact ⟨rfl, b.userID, b.id, hu, rfl, ownerOf_eq_some.mpr ⟨b, hb, rfl⟩⟩
  · intro key data hget hno
    rcases (hi key data).mp hget with hget | ⟨-, -, b, -, -, rfl⟩
    · obtain ⟨-, hids⟩ := h.old key data hget hno
      exact ⟨hw, hids⟩
    · exact absurd (colon_mem_userBooksKey _ _) hno
  · intro _ id u howner hu
    obtain ⟨b, hb, rfl⟩ := ownerOf_eq_some.mp howner
    obtain ⟨rfl, -⟩ := hk id b hb
    left
    cases hget : tx.userBooksIndex.get (userBooksKey b.userID b.id) with
    | some data => exact ⟨data, (hi _ _).mpr (.inl hget)⟩
    | none => exact ⟨[], (hi _ _).mpr (.inr ⟨hget, rfl, b, Bucket.mem_values.mpr ⟨b.id, hb⟩, hu, rfl⟩)⟩

theorem flatten (h : UserBooksRight v tx) (hv : 2 ≤ v) (hrun : flattenUserBooksIndex tx = .ok tx') :
    UserBooksRight w tx' := by
  obtain ⟨i, rfl, hi⟩ := flattenUserBooksIndex_get hrun
  constructor
  · intro key data hget hcolon
    obtain ⟨-, ⟨⟨e, he, id, hid, rfl⟩, rfl⟩ | ⟨-, hget⟩⟩ := (hi key data).mp hget
    · obtain ⟨hno, data, hrow, hids⟩ := mem_oldIndexEntries.mp he
      obtain ⟨-, ids, hids', howner⟩ := h.old _ data hrow hno
      rw [hids, Option.some.injEq] at hids'
      rw [← hids'] at howner
      exact ⟨rfl, e.userID, id, (Bucket.valid_of_get hrow).1, rfl, howner id hid⟩
    · exact h.flat key data hget hcolon
  · intro key data hget hno
    obtain ⟨hkey, ⟨⟨e, -, id, -, rfl⟩, -⟩ | ⟨-, hget⟩⟩ := (hi key data).mp hget
    · exact absurd (colon_mem_userBooksKey _ _) hno
    · obtain ⟨-, ids, hids, -⟩ := h.old key data hget hno
      exact absurd rfl (hkey ⟨key, ids⟩ (mem_oldIndexEntries.mpr ⟨hno, data, hget, hids⟩))
  · intro _ id u howner hu
    have hplain : ∀ e ∈ oldIndexEntries tx.userBooksIndex, userBooksKey u id ≠ e.userID := by
      intro e he heq
      exact (mem_oldIndexEntries.mp he).1 (heq ▸ colon_mem_userBooksKey u id)
    left
    by_cases hlisted : ∃ e ∈ oldIndexEntries tx.userBooksIndex, e.Lists (userBooksKey u id)
    · exact ⟨[], (hi _ _).mpr ⟨hplain, .inl ⟨hlisted, rfl⟩⟩⟩
    · rcases h.complete hv id u howner hu with ⟨data, hget⟩ | ⟨e, he, rfl, hid⟩
      · exact ⟨data, (hi _ _).mpr ⟨hplain, .inr ⟨hlisted, hget⟩⟩⟩
      · exact absurd ⟨e, he, id, hid, rfl⟩ hlisted

/-- From version 4 on the index has one row for each book and no other. -/
theorem coherent (h : UserBooksRight v tx) (hv : 4 ≤ v) (hk : Keyed tx) :
    UserCoherent tx.books.values tx := by
  intro key data
  constructor
  · intro hget
    by_cases hcolon : colon ∈ key
    · obtain ⟨rfl, u, id, hu, rfl, howner⟩ := h.flat key data hget hcolon
      obtain ⟨b, hb, rfl⟩ := ownerOf_eq_some.mp howner
      obtain ⟨rfl, hw⟩ := hk id b hb
      refine ⟨b, Bucket.mem_values.mpr ⟨b.id, hb⟩, ?_⟩
      simp [userBooksRows, Unindexed, hu, hw.1]
    · exact absurd (h.old key data hget hcolon).1 (not_lt.mpr hv)
  · rintro ⟨b, hb, hrow⟩
    obtain ⟨id, hb⟩ := Bucket.mem_values.mp hb
    obtain ⟨rfl, -⟩ := hk id b hb
    rw [userBooksRows] at hrow
    split at hrow
    · cases hrow
    · next hn =>
      obtain ⟨rfl, rfl⟩ := Prod.mk.inj (List.mem_singleton.mp hrow)
      have hu : b.userID ≠ [] := fun he => hn (.inl he)
      rcases h.complete (by omega) b.id b.userID (ownerOf_eq_some.mpr ⟨b, hb, rfl⟩) hu with
        ⟨data, hget⟩ | ⟨e, he, -, -⟩
      · rw [hget, (h.flat _ data hget (colon_mem_userBooksKey _ _)).1]
      · obtain ⟨hno, data, hget, -⟩ := mem_oldIndexEntries.mp he
        exact absurd (h.old _ data hget hno).1 (not_lt.mpr hv)

end UserBooksRight

/-- What may be expected of a database whose migrations have run up to a version. -/
structure Schema (v : Int) (db : Database) : Prop where
  created : ∀ m ∈ migrations, m.version ≤ v → ∀ name ∈ m.creates, name ∈ db.buckets
  clean : db.Clean
  books : ∀ id b, db.tx.books.get id = some b → Plain id b
  progress : ProgressKeyed db.tx
  userBooks : UserBooksRight v db.tx
  usernames : 2 ≤ v → ∀ id user, db.tx.users.get id = some user →
    normalizeUsername user.username ≠ [] →
      ∃ id', db.tx.usernameIndex.get (normalizeUsername user.username) = some id'
  times : 7 ≤ v → Mirrors progressRows db.tx.progress.values db.tx.progressTimeIndex
  derived : 10 ≤ v → Listed db.tx.books.values db.tx ∧ Contents db.tx

theorem Schema.keyed {v : Int} (h : Schema v db) : Keyed db.tx :=
  fun id b hb => ⟨(h.books id b hb).key, (h.books id b hb).wellFormed⟩

/-- A current database whose records refer to each other properly is as the requests
expect it. -/
theorem Schema.consistent {v : Int} (h : Schema v db) (hv : 10 ≤ v)
    (hr : References (fun _ => True) db.tx) : Consistent db.tx where
  coherent := ⟨h.keyed, h.userBooks.coherent (by omega) h.keyed, (h.derived hv).1⟩
  timed := ⟨h.progress, h.times (by omega)⟩
  contents := (h.derived hv).2
  references := hr

/-! ## One migration after another -/

theorem rebuildBookContentIndex_frame (h : rebuildBookContentIndex tx = .ok tx') : SameRecords tx tx' := by
  refine foldlM_frame ?_ (by exact ⟨rfl, rfl, rfl, rfl, rfl, rfl, rfl⟩) h
  intro t t' b hstep
  split at hstep
  · cases hstep
    exact SameRecords.refl _
  · exact addBookToContentIndex_frame hstep

theorem rebuildLibraryQueryIndexes_ok (hbooks : ∀ id b, tx.books.get id = some b → Plain id b)
    (h : rebuildLibraryQueryIndexes tx = .ok tx') :
    SameRecords tx tx' ∧ Listed tx.books.values tx' ∧ Contents tx' := by
  have hk : Keyed tx := fun id b hb => ⟨(hbooks id b hb).key, (hbooks id b hb).wellFormed⟩
  rw [rebuildLibraryQueryIndexes] at h
  obtain ⟨tx₁, h₁, h⟩ := bind_eq_ok.mp h
  obtain ⟨tx₂, h₂, h⟩ := bind_eq_ok.mp h
  obtain ⟨tx₃, h₃, h⟩ := bind_eq_ok.mp h
  obtain ⟨tx₄, h₄, h⟩ := bind_eq_ok.mp h
  obtain ⟨tx₅, h₅, h₆⟩ := bind_eq_ok.mp h
  obtain ⟨s, d, rfl, hsort⟩ := rebuildBookSortIndex_ok (by exact hk) (by exact rfl) h₁
  simp only at h₂ hsort
  obtain ⟨v, rfl, hsearch⟩ := rebuildBookSearchIndex_ok (by exact hk) h₂
  simp only at h₃ hsearch
  obtain ⟨g, n, rfl, hgram⟩ := rebuildBookSearchGramIndex_ok (by exact hk) (by exact rfl) h₃
  simp only at h₄ hgram
  obtain ⟨l, rfl, hsummary⟩ := rebuildLibrarySummaryIndex_ok (by exact hk) h₄
  simp only at h₅ hsummary
  have hcontents := rebuildBookContentIndex_contents (by exact hbooks) h₅
  obtain ⟨c, m, rfl⟩ := rebuildBookContentIndex_ok h₅
  simp only at h₆
  obtain ⟨m', rfl, hmissing⟩ := rebuildMissingBookHashIndex_ok (by exact hk) h₆
  exact ⟨⟨rfl, rfl, rfl, rfl, rfl, rfl, rfl⟩, ⟨hsort, hsearch, hgram, hmissing, hsummary⟩, hcontents⟩

theorem eq_of_version {m m' : Migration} (h : m ∈ migrations) (h' : m' ∈ migrations)
    (hv : m.version = m'.version) : m = m' :=
  List.inj_on_of_nodup_map (by decide : (migrations.map Migration.version).Nodup) h h' hv

/-- The buckets after a migration, given those before it. -/
theorem created_next {m : Migration} {old new : List BucketName} (hm : m ∈ migrations)
    (h : ∀ m' ∈ migrations, m'.version ≤ m.version - 1 → ∀ name ∈ m'.creates, name ∈ old)
    (hmono : ∀ name ∈ old, name ∈ new) (hnew : ∀ name ∈ m.creates, name ∈ new) :
    ∀ m' ∈ migrations, m'.version ≤ m.version → ∀ name ∈ m'.creates, name ∈ new := by
  intro m' hm' hle name hname
  by_cases heq : m'.version = m.version
  · rw [eq_of_version hm' hm heq] at hname
    exact hnew name hname
  · exact hmono name (h m' hm' (by omega) name hname)

/-- A migration that leaves all records and the indexes beside the listing as they are. -/
theorem Schema.reindex {m : Migration} (hm : m ∈ migrations) (h : Schema (m.version - 1) db)
    (hv : m.version ≠ 2 ∧ m.version ≠ 4 ∧ m.version ≠ 7) (hsame : SameRecords db.tx db'.tx)
    (hclean : db'.Clean) (hmono : ∀ name ∈ db.buckets, name ∈ db'.buckets)
    (hnew : ∀ name ∈ m.creates, name ∈ db'.buckets)
    (hderived : 10 ≤ m.version → Listed db'.tx.books.values db'.tx ∧ Contents db'.tx) :
    Schema m.version db' where
  created := created_next hm h.created hmono hnew
  clean := hclean
  books := by
    rw [hsame.books]
    exact h.books
  progress := by
    rw [ProgressKeyed, hsame.progress]
    exact h.progress
  userBooks := h.userBooks.congr (ownerOf_of_books hsame.books) hsame.userBooks (by omega) (by omega)
  usernames := by
    intro h2
    rw [hsame.users, hsame.usernames]
    exact h.usernames (by omega)
  times := by
    intro h7
    rw [hsame.progress, hsame.progressTimes]
    exact h.times (by omega)
  derived := hderived

theorem Database.Clean.rebuilt {reads creates : List BucketName} {body : Tx → Result Tx}
    (hc : db.Clean) (h : db.rebuild reads creates body = .ok db')
    (hempty : ∀ name, name ∉ db'.buckets → name.IsEmpty db.tx → name.IsEmpty db'.tx) : db'.Clean := by
  obtain ⟨-, tx, -, rfl⟩ := rebuild_eq_ok.mp h
  intro name hname
  exact hempty name hname (hc name fun hmem => hname (List.mem_append_right _ hmem))

/-- A migration whose body rebuilds listing indexes. -/
theorem Schema.relist {m : Migration} {reads : List BucketName} {body : Tx → Result Tx}
    (hm : m ∈ migrations) (h : Schema (m.version - 1) db)
    (hv : m.version ≠ 2 ∧ m.version ≠ 4 ∧ m.version ≠ 7)
    (hbody : ∀ tx', body db.tx = .ok tx' → SameRecords db.tx tx')
    (hderived : ∀ tx', body db.tx = .ok tx' → 10 ≤ m.version → Listed tx'.books.values tx' ∧ Contents tx')
    (hrun : db.rebuild reads m.creates body = .ok db') : Schema m.version db' := by
  obtain ⟨-, tx, htx, he⟩ := rebuild_eq_ok.mp hrun
  have hsame : SameRecords db.tx db'.tx := by
    rw [he]
    exact hbody tx htx
  refine h.reindex hm hv hsame (h.clean.rebuilt hrun fun name _ => hsame.isEmpty) ?_ ?_ ?_
  · intro name hname
    rw [he]
    exact List.mem_append_right _ hname
  · intro name hname
    rw [he]
    exact List.mem_append_left _ hname
  · rw [he]
    exact hderived tx htx

theorem initializeBuckets_schema {m : Migration} (hm : m ∈ migrations) (hv : m.version = 1)
    (hcreates : m.creates = initialBuckets) (h : Schema (m.version - 1) db)
    (hrun : initializeBuckets db = .ok db') : Schema m.version db' := by
  rw [initializeBuckets] at hrun
  obtain ⟨hsame, hclean, hbuckets⟩ := foldl_createBucket h.clean initialBuckets
  cases hrun
  refine h.reindex hm (by omega) hsame hclean ?_ ?_ (by omega)
  · exact fun name hname => (hbuckets name).mpr (.inr hname)
  · rw [hcreates]
    exact fun name hname => (hbuckets name).mpr (.inl hname)

theorem migrateIndexes_schema {m : Migration} (hm : m ∈ migrations) (hv : m.version = 2)
    (hcreates : m.creates = []) (h : Schema (m.version - 1) db)
    (hrun : db.rebuild [.users, .usernameIndex, .books, .userBooksIndex] [] migrateIndexes = .ok db') :
    Schema m.version db' := by
  obtain ⟨hreads, tx, htx, he⟩ := rebuild_eq_ok.mp hrun
  obtain ⟨tx₁, h₁, h₂⟩ := bind_eq_ok.mp htx
  obtain ⟨i, rfl, -, hnames⟩ := migrateUsernameIndex_ok h₁
  have huser : UserBooksRight (m.version - 1) { db.tx with usernameIndex := i } :=
    h.userBooks.congr rfl rfl id id
  have hindexed := huser.index (w := m.version) (by omega) h.keyed h₂
  obtain ⟨j, rfl, -⟩ := migrateUserBooksIndex_get h₂
  have hclean : db'.Clean := by
    refine h.clean.rebuilt hrun ?_
    rw [he]
    intro name hname hempty
    cases name with
    | userBooksIndex => exact absurd (hreads .userBooksIndex (by simp)) hname
    | usernameIndex => exact absurd (hreads .usernameIndex (by simp)) hname
    | _ => exact hempty
  rw [he] at hclean ⊢
  exact {
    created := created_next hm h.created (fun _ hname => hname) (by simp [hcreates])
    clean := hclean
    books := h.books
    progress := h.progress
    userBooks := hindexed
    usernames := fun _ => hnames
    times := fun h7 => h.times (by omega)
    derived := fun h10 => absurd h10 (by omega) }

theorem Plain.categories {old new : Bucket Book} (h : ∀ id b, old.get id = some b → Plain id b)
    (hnew : ∀ k, new.get k = (old.get k).map withNormalCategory) :
    ∀ id b, new.get id = some b → Plain id b := by
  intro id b hb
  rw [hnew, Option.map_eq_some_iff] at hb
  obtain ⟨c, hc, rfl⟩ := hb
  exact (h id c hc).normalize

theorem migrateBookCategories_schema {m : Migration} (hm : m ∈ migrations) (hv : m.version = 3)
    (hcreates : m.creates = []) (h : Schema (m.version - 1) db)
    (hrun : db.rebuild [.books] [] migrateBookCategories = .ok db') : Schema m.version db' := by
  obtain ⟨hreads, tx, htx, he⟩ := rebuild_eq_ok.mp hrun
  obtain ⟨bs, rfl, hbs⟩ := migrateBookCategories_ok htx
  have howner : ownerOf { db.tx with books := bs } = ownerOf db.tx :=
    ownerOf_of_map hbs fun _ _ _ => rfl
  have hclean : db'.Clean := by
    refine h.clean.rebuilt hrun ?_
    rw [he]
    intro name hname hempty
    cases name with
    | books => exact absurd (hreads .books (by simp)) hname
    | _ => exact hempty
  rw [he] at hclean ⊢
  exact {
    created := created_next hm h.created (fun _ hname => hname) (by simp [hcreates])
    clean := hclean
    books := Plain.categories h.books hbs
    progress := h.progress
    userBooks := h.userBooks.congr howner rfl (by omega) (by omega)
    usernames := fun _ => h.usernames (by omega)
    times := fun h7 => h.times (by omega)
    derived := fun h10 => absurd h10 (by omega) }

theorem flattenUserBooksIndex_schema {m : Migration} (hm : m ∈ migrations) (hv : m.version = 4)
    (hcreates : m.creates = []) (h : Schema (m.version - 1) db) (hthere : .userBooksIndex ∈ db.buckets)
    (hrun : db.rebuild [] [] flattenUserBooksIndex = .ok db') : Schema m.version db' := by
  obtain ⟨-, tx, htx, he⟩ := rebuild_eq_ok.mp hrun
  have hflat := h.userBooks.flatten (w := m.version) (by omega) htx
  obtain ⟨i, rfl, -⟩ := flattenUserBooksIndex_get htx
  have hclean : db'.Clean := by
    refine h.clean.rebuilt hrun ?_
    rw [he]
    intro name hname hempty
    cases name with
    | userBooksIndex => exact absurd hthere hname
    | _ => exact hempty
  rw [he] at hclean ⊢
  exact {
    created := created_next hm h.created (fun _ hname => hname) (by simp [hcreates])
    clean := hclean
    books := h.books
    progress := h.progress
    userBooks := hflat
    usernames := fun _ => h.usernames (by omega)
    times := fun h7 => h.times (by omega)
    derived := fun h10 => absurd h10 (by omega) }

theorem rebuildProgressTimeIndex_schema {m : Migration} (hm : m ∈ migrations) (hv : m.version = 7)
    (hcreates : m.creates = [.progressTimeIndex]) (h : Schema (m.version - 1) db)
    (hrun : db.rebuild [.progress] [.progressTimeIndex] rebuildProgressTimeIndex = .ok db') :
    Schema m.version db' := by
  obtain ⟨-, tx, htx, he⟩ := rebuild_eq_ok.mp hrun
  obtain ⟨i, rfl, hi⟩ := rebuildProgressTimeIndex_mirrors h.progress htx
  have hclean : db'.Clean := by
    refine h.clean.rebuilt hrun ?_
    rw [he]
    intro name hname hempty
    cases name with
    | progressTimeIndex => exact absurd (List.mem_cons_self ..) hname
    | _ => exact hempty
  rw [he] at hclean ⊢
  exact {
    created := created_next hm h.created (fun _ hname => List.mem_append_right _ hname)
      (by simp [hcreates])
    clean := hclean
    books := h.books
    progress := h.progress
    userBooks := h.userBooks.congr rfl rfl (by omega) (by omega)
    usernames := fun _ => h.usernames (by omega)
    times := fun _ => hi
    derived := fun h10 => absurd h10 (by omega) }

theorem Schema.step {m : Migration} (hm : m ∈ migrations) (h : Schema (m.version - 1) db)
    (hrun : m.run db = .ok db') : Schema m.version db' := by
  have hmem := hm
  simp only [migrations, List.mem_cons, List.not_mem_nil, or_false] at hmem
  rcases hmem with rfl | rfl | rfl | rfl | rfl | rfl | rfl | rfl | rfl | rfl
  · exact initializeBuckets_schema hm rfl rfl h hrun
  · exact migrateIndexes_schema hm rfl rfl h hrun
  · exact migrateBookCategories_schema hm rfl rfl h hrun
  · by_cases hthere : .userBooksIndex ∈ db.buckets
    · exact flattenUserBooksIndex_schema hm rfl rfl h hthere ((if_pos hthere).symm.trans hrun)
    · exact absurd (h.created _ (List.mem_cons_self ..) (by decide) .userBooksIndex (by decide)) hthere
  · exact h.relist hm (by decide) (fun _ => rebuildBookSortIndex_frame)
      (fun _ _ h10 => absurd h10 (by decide)) hrun
  · exact h.relist hm (by decide) (fun _ => rebuildBookSearchIndex_frame)
      (fun _ _ h10 => absurd h10 (by decide)) hrun
  · exact rebuildProgressTimeIndex_schema hm rfl rfl h hrun
  · refine h.relist hm (by decide) ?_ (fun _ _ h10 => absurd h10 (by decide)) hrun
    intro tx' htx
    obtain ⟨tx₁, h₁, h₂⟩ := bind_eq_ok.mp htx
    exact (rebuildBookContentIndex_frame h₁).trans (rebuildLibrarySummaryIndex_frame h₂)
  · exact h.relist hm (by decide) (fun _ => rebuildBookSearchGramIndex_frame)
      (fun _ _ h10 => absurd h10 (by decide)) hrun
  · refine h.relist hm (by decide) (fun _ htx => (rebuildLibraryQueryIndexes_ok h.books htx).1) ?_ hrun
    intro tx' htx _
    obtain ⟨hsame, hlisted, hcontents⟩ := rebuildLibraryQueryIndexes_ok h.books htx
    rw [hsame.books]
    exact ⟨hlisted, hcontents⟩

/-! ## What no migration touches -/

/-- The records are the same, except that the books have been rewritten by `f`. -/
structure Keeps (f : Book → Book) (old new : Tx) : Prop where
  books : ∀ id, new.books.get id = (old.books.get id).map f
  progress : new.progress = old.progress
  bookmarks : new.bookmarks = old.bookmarks
  users : new.users = old.users

theorem keeps_of_eq (hb : tx'.books = tx.books) (hp : tx'.progress = tx.progress)
    (hm : tx'.bookmarks = tx.bookmarks) (hu : tx'.users = tx.users) : Keeps id tx tx' :=
  ⟨fun id => by rw [hb, Option.map_id_fun, id_eq], hp, hm, hu⟩

theorem SameRecords.keeps (h : SameRecords tx tx') : Keeps id tx tx' :=
  keeps_of_eq h.books h.progress h.bookmarks h.users

theorem Keeps.trans {f g : Book → Book} {tx'' : Tx} (h : Keeps f tx tx') (h' : Keeps g tx' tx'') :
    Keeps (g ∘ f) tx tx'' where
  books := by
    intro id
    rw [h'.books, h.books, Option.map_map]
  progress := h'.progress.trans h.progress
  bookmarks := h'.bookmarks.trans h.bookmarks
  users := h'.users.trans h.users

/-- What a migration makes of a book. -/
def Migration.rewrite (m : Migration) : Book → Book :=
  if m.version = 3 then withNormalCategory else id

theorem rebuild_keeps {reads creates : List BucketName} {body : Tx → Result Tx} {f : Book → Book}
    (hrun : db.rebuild reads creates body = .ok db')
    (hbody : ∀ tx', body db.tx = .ok tx' → Keeps f db.tx tx') : Keeps f db.tx db'.tx := by
  obtain ⟨-, tx, htx, rfl⟩ := rebuild_eq_ok.mp hrun
  exact hbody tx htx

theorem Schema.keeps {m : Migration} (hm : m ∈ migrations) (h : Schema (m.version - 1) db)
    (hrun : m.run db = .ok db') : Keeps m.rewrite db.tx db'.tx := by
  simp only [migrations, List.mem_cons, List.not_mem_nil, or_false] at hm
  rcases hm with rfl | rfl | rfl | rfl | rfl | rfl | rfl | rfl | rfl | rfl
  · cases hrun
    exact (foldl_createBucket h.clean initialBuckets).1.keeps
  · refine rebuild_keeps hrun fun tx' htx => ?_
    obtain ⟨tx₁, h₁, h₂⟩ := bind_eq_ok.mp htx
    obtain ⟨i, rfl, -⟩ := migrateUsernameIndex_ok h₁
    obtain ⟨j, rfl, -⟩ := migrateUserBooksIndex_get h₂
    exact keeps_of_eq rfl rfl rfl rfl
  · refine rebuild_keeps hrun fun tx' htx => ?_
    obtain ⟨bs, rfl, hbs⟩ := migrateBookCategories_ok htx
    exact ⟨hbs, rfl, rfl, rfl⟩
  · by_cases hthere : .userBooksIndex ∈ db.buckets
    · refine rebuild_keeps ((if_pos hthere).symm.trans hrun) fun tx' htx => ?_
      obtain ⟨i, rfl, -⟩ := flattenUserBooksIndex_get htx
      exact keeps_of_eq rfl rfl rfl rfl
    · cases (if_neg hthere).symm.trans hrun
      exact keeps_of_eq rfl rfl rfl rfl
  · exact rebuild_keeps hrun fun tx' htx => (rebuildBookSortIndex_frame htx).keeps
  · exact rebuild_keeps hrun fun tx' htx => (rebuildBookSearchIndex_frame htx).keeps
  · refine rebuild_keeps hrun fun tx' htx => ?_
    obtain ⟨i, rfl, -⟩ := rebuildProgressTimeIndex_mirrors h.progress htx
    exact keeps_of_eq rfl rfl rfl rfl
  · refine rebuild_keeps hrun fun tx' htx => ?_
    obtain ⟨tx₁, h₁, h₂⟩ := bind_eq_ok.mp htx
    exact ((rebuildBookContentIndex_frame h₁).trans (rebuildLibrarySummaryIndex_frame h₂)).keeps
  · exact rebuild_keeps hrun fun tx' htx => (rebuildBookSearchGramIndex_frame htx).keeps
  · exact rebuild_keeps hrun fun tx' htx => (rebuildLibraryQueryIndexes_ok h.books htx).1.keeps

end ZReader.Storage
