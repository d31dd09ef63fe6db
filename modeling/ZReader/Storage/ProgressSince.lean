import ZReader.Storage.Content
import ZReader.Storage.ProgressListing

namespace ZReader.Storage

open Lib.Utf8 Lib.Strings Lib.KeyValue Lib.DerivedIndex Lib.Transition Lib.Ordered

/-! ## What a listing of changes returns -/

/-- The instants of the years 0000 to 9999, all of which have an RFC 3339 notation. -/
def Time.HasRFC3339 (t : Time) : Prop :=
  -62167219200 * 10 ^ 9 ≤ t.nanos ∧ t.nanos < 253402300800 * 10 ^ 9

instance (t : Time) : Decidable t.HasRFC3339 := inferInstanceAs (Decidable (_ ∧ _))

/-- The progress records and their time index, with times from 1970 to 2262 and user
identifiers that can be cut out of the keys. -/
structure SinceReady (db : Tx) : Prop where
  timed : Timed db
  inRange : ∀ k p, db.progress.get k = some p → p.updatedAt.InRange
  userID : ∀ k p, db.progress.get k = some p → nul ∉ p.userID

/-- Each of the user's records that is not older than `since` is listed exactly once, and
nothing else is. -/
def ListsExactly (db : Tx) (userID : Bytes) (since : Time) : Prop :=
  (listProgressUpdatedSince db userID since).Nodup ∧
    ∀ p, p ∈ listProgressUpdatedSince db userID since ↔
      (∃ k, db.progress.get k = some p) ∧ p.userID = userID ∧ since.nanos ≤ p.updatedAt.nanos

/-- The listing starts no later than the first record that it has to return. -/
def StartsInTime (db : Tx) (userID : Bytes) (since : Time) : Prop :=
  since = Time.zero ∨ ∀ k p, db.progress.get k = some p → p.userID = userID →
    since.nanos ≤ p.updatedAt.nanos → clampedTimestamp since ≤ p.updatedAt.nanos

variable {db : Tx} {userID : Bytes} {since : Time}

theorem clampedTimestamp_range (t : Time) : 0 ≤ clampedTimestamp t ∧ clampedTimestamp t < 2 ^ 63 := by
  have hlt : t.unixNano < (2 ^ 64 + 1) / 2 := Int.bmod_lt (by decide)
  simp only [clampedTimestamp]
  split <;> omega

/-- A record's row comes before the probe's key exactly when its time is before the clamped
one. -/
theorem compare_probe_lt {p : Progress} (hp : p.updatedAt.InRange) (since : Time) :
    compare (progressTimeIndexKey p) (progressTimeIndexKey (probe p.userID since)) = .lt ↔
      p.updatedAt.nanos < clampedTimestamp since := by
  have hrange := clampedTimestamp_range since
  rw [progressTimeIndexKey_tail, progressTimeIndexKey_tail (probe p.userID since)]
  simp only [probe]
  rw [compare_append_left, clampedTimestamp_of_inRange hp]
  obtain ⟨h₀, h₁⟩ := hp
  constructor
  · intro h
    by_contra hge
    rcases eq_or_lt_of_le (not_lt.mp hge) with he | hlt
    · rw [he, compare_append_left] at h
      have hpre : [nul] <+: nul :: p.bookID := ⟨p.bookID, rfl⟩
      exact Bucket.compare_ne_lt_of_isPrefix hpre h
    · have hbelow : (clampedTimestamp since).toNat < p.updatedAt.nanos.toNat := by omega
      have hwidth : p.updatedAt.nanos.toNat < 10 ^ 19 := by omega
      have hgt := compare_padded_append hbelow hwidth [nul] (nul :: p.bookID)
      rw [Std.OrientedCmp.gt_of_lt hgt] at h
      cases h
  · intro h
    exact compare_padded_append (by omega) (by omega) (nul :: p.bookID) [nul]

theorem Timed.row_iff (h : Timed db) {k v : Bytes} :
    db.progressTimeIndex.get k = some v ↔
      ∃ j p, db.progress.get j = some p ∧ progressTimeIndexKey p = k ∧ p.bookID = v := by
  rw [h.mirrored.2.2 k v]
  constructor
  · rintro ⟨p, hp, hk, hv⟩
    obtain ⟨j, hj⟩ := Bucket.mem_values.mp hp
    exact ⟨j, p, hj, hk, hv⟩
  · rintro ⟨j, p, hj, hk, hv⟩
    exact ⟨p, Bucket.mem_values.mpr ⟨j, hj⟩, hk, hv⟩

/-- The record that a row of the scan leads to is the one that the row belongs to. -/
theorem SinceReady.row_of_record (h : SinceReady db) {k v j : Bytes} {p : Progress}
    (hrow : db.progressTimeIndex.get k = some v) (hpre : progressTimeIndexPrefix userID <+: k)
    (hp : db.progress.get j = some p) (hj : j = progressKey userID v) (hu : p.userID = userID) :
    k = progressTimeIndexKey p := by
  obtain ⟨i, q, hq, rfl, rfl⟩ := h.timed.row_iff.mp hrow
  obtain ⟨t, ht⟩ := hpre
  have hkey : userID ++ nul :: t =
      q.userID ++ nul :: (padded 19 (clampedTimestamp q.updatedAt).toNat ++ nul :: q.bookID) := by
    rw [progressTimeIndexKey_tail] at ht
    simpa [progressTimeIndexPrefix] using ht
  have hnul : nul ∉ userID := by
    rw [← hu]
    exact h.userID j p hp
  obtain ⟨huser, -⟩ := append_cons_inj_left hnul (h.userID i q hq) hkey
  obtain ⟨hi, -⟩ := h.timed.keyed i q hq
  rw [hj, huser, hi] at hp
  rw [hp] at hq
  cases hq
  rfl

/-- What the scan keeps of a row. -/
def sinceRow (db : Tx) (userID : Bytes) (since : Time) (row : Bytes × Bytes) : Option Progress :=
  (db.progress.get (progressKey userID row.2)).filter (fun progress =>
    progress.userID = userID ∧ ¬progress.updatedAt.before since)

theorem listProgressUpdatedSince_of_ne_zero (hz : since ≠ Time.zero) :
    listProgressUpdatedSince db userID since =
      (db.progressTimeIndex.seek (progressTimeIndexKey (probe userID since))
        (progressTimeIndexPrefix userID)).filterMap (sinceRow db userID since) := by
  rw [listProgressUpdatedSince, if_neg hz]
  rfl

theorem sinceRow_eq_some {row : Bytes × Bytes} {p : Progress} :
    sinceRow db userID since row = some p ↔
      db.progress.get (progressKey userID row.2) = some p ∧ p.userID = userID ∧
        since.nanos ≤ p.updatedAt.nanos := by
  simp [sinceRow, Option.filter_eq_some_iff, Time.before]

theorem isPrefix_probe (userID : Bytes) (since : Time) :
    progressTimeIndexPrefix userID <+: progressTimeIndexKey (probe userID since) := by
  rw [progressTimeIndexKey_tail]
  exact List.prefix_append _ _

theorem SinceReady.mem_scan_iff (h : SinceReady db) (hz : since ≠ Time.zero) {p : Progress} :
    p ∈ listProgressUpdatedSince db userID since ↔
      (∃ k, db.progress.get k = some p) ∧ p.userID = userID ∧ since.nanos ≤ p.updatedAt.nanos ∧
        clampedTimestamp since ≤ p.updatedAt.nanos := by
  rw [listProgressUpdatedSince_of_ne_zero hz, List.mem_filterMap]
  constructor
  · rintro ⟨⟨k, v⟩, hseek, hrow⟩
    obtain ⟨hp, rfl, hle⟩ := sinceRow_eq_some.mp hrow
    rw [Bucket.mem_seek (isPrefix_probe _ _), Bucket.mem_entries] at hseek
    obtain ⟨hget, hcmp, hpre⟩ := hseek
    have hk := h.row_of_record hget hpre hp rfl rfl
    simp only at hk hcmp
    rw [hk, Ne, compare_probe_lt (h.inRange _ p hp)] at hcmp
    exact ⟨⟨_, hp⟩, rfl, hle, not_lt.mp hcmp⟩
  · rintro ⟨⟨k, hp⟩, rfl, hle, hstart⟩
    refine ⟨(progressTimeIndexKey p, p.bookID), ?_, ?_⟩
    · rw [Bucket.mem_seek (isPrefix_probe _ _), Bucket.mem_entries]
      refine ⟨h.timed.row_iff.mpr ⟨k, p, hp, rfl, rfl⟩, ?_, ?_⟩
      · rw [Ne, compare_probe_lt (h.inRange k p hp)]
        exact not_lt.mpr hstart
      · rw [progressTimeIndexKey_tail]
        exact List.prefix_append _ _
    · obtain ⟨hk, -⟩ := h.timed.keyed k p hp
      rw [← hk] at hp
      exact sinceRow_eq_some.mpr ⟨hp, rfl, hle⟩

theorem SinceReady.scan_nodup (h : SinceReady db) (hz : since ≠ Time.zero) :
    (listProgressUpdatedSince db userID since).Nodup := by
  rw [listProgressUpdatedSince_of_ne_zero hz, List.nodup_iff_pairwise_ne, List.pairwise_filterMap]
  have hrows : (db.progressTimeIndex.seek (progressTimeIndexKey (probe userID since))
      (progressTimeIndexPrefix userID)).Nodup := by
    rw [Bucket.seek_eq_filter _ (isPrefix_probe _ _)]
    exact db.progressTimeIndex.entries_nodup.filter _
  rw [List.nodup_iff_pairwise_ne] at hrows
  refine hrows.imp_of_mem ?_
  rintro ⟨k, v⟩ ⟨k', v'⟩ hmem hmem' hne p hp q hq rfl
  -- both rows would be the one row of the record
  rw [Bucket.mem_seek (isPrefix_probe _ _), Bucket.mem_entries] at hmem hmem'
  obtain ⟨hget, hu, -⟩ := sinceRow_eq_some.mp hp
  obtain ⟨hget', -, -⟩ := sinceRow_eq_some.mp hq
  have hk := h.row_of_record hmem.1 hmem.2.2 hget rfl hu
  have hk' := h.row_of_record hmem'.1 hmem'.2.2 hget' rfl hu
  have hkeys : k = k' := hk.trans hk'.symm
  have hv := hmem.1
  rw [hkeys, hmem'.1] at hv
  cases hv
  exact hne (by rw [hkeys])

theorem SinceReady.listProgress_nodup (h : SinceReady db) (userID : Bytes) :
    (listProgress db userID).Nodup := by
  have hrows : (db.progress.seek (userID ++ [colon]) (userID ++ [colon])).Nodup := by
    rw [Bucket.seek_eq_filter _ (List.prefix_refl _)]
    exact db.progress.entries_nodup.filter _
  rw [listProgress]
  apply List.Nodup.filter
  refine List.Nodup.map_on ?_ hrows
  rintro ⟨k, p⟩ hp ⟨k', q⟩ hq he
  obtain ⟨hget, -⟩ := Bucket.mem_seek_self.mp hp
  obtain ⟨hget', -⟩ := Bucket.mem_seek_self.mp hq
  simp only at he
  subst he
  obtain ⟨hk, -⟩ := h.timed.keyed k p hget
  obtain ⟨hk', -⟩ := h.timed.keyed k' p hget'
  rw [← hk, ← hk']

theorem SinceReady.mem_listProgress_iff (h : SinceReady db) {p : Progress} :
    p ∈ listProgress db userID ↔ (∃ k, db.progress.get k = some p) ∧ p.userID = userID := by
  constructor
  · intro hp
    rw [listProgress, List.mem_filter, List.mem_map] at hp
    obtain ⟨⟨⟨k, q⟩, hrow, rfl⟩, hu⟩ := hp
    exact ⟨⟨k, (Bucket.mem_seek_self.mp hrow).1⟩, by simpa using hu⟩
  · rintro ⟨⟨k, hp⟩, rfl⟩
    exact mem_listProgress h.timed.rowed hp

/-- A listing of changes is exact precisely when the wrapped and clamped timestamp of its
start lies before the first record that has to be returned. -/
theorem listsExactly_iff (h : SinceReady db) :
    ListsExactly db userID since ↔ StartsInTime db userID since := by
  rw [ListsExactly, StartsInTime]
  by_cases hz : since = Time.zero
  · subst hz
    have hlist : listProgressUpdatedSince db userID Time.zero = listProgress db userID := by
      rw [listProgressUpdatedSince, if_pos rfl]
    rw [hlist]
    refine iff_of_true ⟨h.listProgress_nodup userID, ?_⟩ (.inl rfl)
    intro p
    rw [h.mem_listProgress_iff]
    constructor
    · rintro ⟨⟨k, hp⟩, hu⟩
      obtain ⟨h₀, -⟩ := h.inRange k p hp
      have hzero : Time.zero.nanos < 0 := by decide
      exact ⟨⟨k, hp⟩, hu, by omega⟩
    · rintro ⟨hp, hu, -⟩
      exact ⟨hp, hu⟩
  · rw [or_iff_right hz]
    constructor
    · rintro ⟨-, hmem⟩ k p hp hu hle
      have hlisted := (hmem p).mpr ⟨⟨k, hp⟩, hu, hle⟩
      exact ((h.mem_scan_iff hz).mp hlisted).2.2.2
    · intro hstart
      refine ⟨h.scan_nodup hz, ?_⟩
      intro p
      rw [h.mem_scan_iff hz]
      constructor
      · rintro ⟨hp, hu, hle, -⟩
        exact ⟨hp, hu, hle⟩
      · rintro ⟨⟨k, hp⟩, hu, hle⟩
        exact ⟨⟨k, hp⟩, hu, hle, hstart k p hp hu hle⟩

/-- From 1678 on a listing of changes is always exact. -/
theorem startsInTime_of_recent (h : SinceReady db) (hs : -2 ^ 63 ≤ since.nanos) :
    StartsInTime db userID since := by
  right
  intro k p hp _ hle
  obtain ⟨h₀, h₁⟩ := h.inRange k p hp
  have hunix : since.unixNano = since.nanos := by
    rw [Time.unixNano, Int.bmod_def]
    omega
  simp only [clampedTimestamp, hunix]
  omega

/-! ## A start in the seventeenth century -/

/-- Midnight of January 1, 1600. -/
def year1600 : Time := ⟨-11676096000 * 10 ^ 9⟩

/-- The sample book has been read. -/
def sampleRead : Tx := (Op.saveProgressIfCurrent sampleProgress (ascii "u") none).run uploaded

theorem sampleRead_rows : sampleRead.progress.entries =
    [(progressKey (ascii "u") (ascii "b"), sampleProgress)] := by
  decide +kernel

theorem sampleRead_progress {k : Bytes} {p : Progress} (h : sampleRead.progress.get k = some p) :
    p = sampleProgress := by
  have hmem := Bucket.mem_entries.mpr h
  rw [sampleRead_rows, List.mem_singleton] at hmem
  exact congrArg Prod.snd hmem

theorem sampleRead_sinceReady : SinceReady sampleRead where
  timed := by
    have hcreated : Reachable (· = Tx.migrated) Op.OrderlyStep uploaded :=
      Reachable.next (a := .createBook sampleBook) (.start rfl)
        ⟨⟨createBook_admissible, rfl⟩, trivial⟩
    have hread : Reachable (· = Tx.migrated) Op.OrderlyStep sampleRead :=
      Reachable.next (a := .saveProgressIfCurrent sampleProgress (ascii "u") none) hcreated
        ⟨⟨(by decide : ascii "u" ≠ []), rfl⟩, trivial⟩
    exact (orderly_coherent_timed hread).2
  inRange k p hp := by
    rw [sampleRead_progress hp]
    decide
  userID k p hp := by
    rw [sampleRead_progress hp]
    decide

/-- The start wraps to the year 2184, and the record of 2001 is skipped. -/
theorem listProgressUpdatedSince_1600 :
    ¬∀ (db : Tx) (userID : Bytes) (since : Time), SinceReady db → since.HasRFC3339 →
      ListsExactly db userID since := by
  intro h
  have hexact := (h sampleRead (ascii "u") year1600 sampleRead_sinceReady (by decide)).2 sampleProgress
  have hempty : listProgressUpdatedSince sampleRead (ascii "u") year1600 = [] := by decide +kernel
  rw [hempty] at hexact
  have hstored : sampleRead.progress.get (progressKey (ascii "u") (ascii "b")) = some sampleProgress :=
    Bucket.mem_entries.mp (by rw [sampleRead_rows]; simp)
  exact List.not_mem_nil (hexact.mpr ⟨⟨_, hstored⟩, rfl, by decide⟩)

theorem listsExactly_iff_sampleRead : ListsExactly sampleRead (ascii "u") ⟨0⟩ :=
  (listsExactly_iff sampleRead_sinceReady).mpr (startsInTime_of_recent sampleRead_sinceReady (by decide))

end ZReader.Storage
