import ZReader.Services.AudioCache
import ZReader.Storage.Records
import ZReader.Lib.Integers

namespace ZReader.Services.DiskCache

open Lib.Utf8 Lib.Integers AudioCache Storage

/-! ## The directory -/

structure Info where
  Size : Nat
  ModTime : Int
  deriving DecidableEq

structure DirEntry where
  Name : Bytes
  IsDir : Bool
  /-- Nothing where the entry cannot be looked at. -/
  Info : Option DiskCache.Info
  deriving DecidableEq

structure FileInfo where
  path : Bytes
  size : Nat
  modTime : Int
  deriving DecidableEq

def extFrom : Bytes → Bytes → Bytes
  | [], _ => []
  | 47 :: _, _ => []
  | 46 :: _, ext => 46 :: ext
  | c :: before, ext => extFrom before (c :: ext)

/-- `filepath.Ext`: what the last element of a path has from its last dot on. -/
def Ext (path : Bytes) : Bytes := extFrom path.reverse []

/-- The files that the clean-up looks at. -/
def DirEntry.Skipped (entry : DirEntry) : Prop := entry.IsDir = true ∨ Ext entry.Name ≠ ascii ".audio"

instance (entry : DirEntry) : Decidable entry.Skipped := inferInstanceAs (Decidable (_ ∨ _))

def removeStaleDiskCache (dir : List DirEntry) (path : Bytes) : List DirEntry :=
  dir.filter fun entry => entry.Name ≠ path

/-! ## The clean-up -/

/-- The variables of `cleanupDiskTTSCache` and the directory it works on. The total is a signed
64-bit integer. -/
structure Cleanup where
  dir : List DirEntry
  total : Int
  files : List FileInfo

/-- The body of the first loop. The clock is read anew for every file. -/
def collect (config : CacheConfig) (now : Bytes → Int) (s : Cleanup) (entry : DirEntry) : Cleanup :=
  if entry.Skipped then s
  else
    match entry.Info with
    | none => s
    | some info =>
        if now entry.Name - info.ModTime > config.TTL then
          { s with dir := removeStaleDiskCache s.dir entry.Name }
        else
          { s with
            total := int64 (s.total + info.Size)
            files := s.files ++ [⟨entry.Name, info.Size, info.ModTime⟩] }

def Cleanup.Done (config : CacheConfig) (s : Cleanup) : Prop :=
  s.total ≤ config.MaxBytes ∧ (s.files.length : Int) ≤ config.MaxItems

instance (config : CacheConfig) (s : Cleanup) : Decidable (s.Done config) :=
  inferInstanceAs (Decidable (_ ∧ _))

/-- The second loop. It ranges over the files as they were before the loop, while its body
shortens the variable `files`. -/
def evict (config : CacheConfig) : List FileInfo → Cleanup → Cleanup
  | [], s => s
  | file :: range, s =>
      if s.Done config then s
      else
        evict config range
          { dir := removeStaleDiskCache s.dir file.path
            total := int64 (s.total - file.size)
            files := s.files.tail }

/-- What is left of a directory, or nothing where it cannot be read. -/
def cleanupDiskTTSCache (sortSlice : List FileInfo → List FileInfo) (now : Bytes → Int)
    (config : CacheConfig) (disk : Option (List DirEntry)) : Option (List DirEntry) :=
  if config.Dir = [] then disk
  else
    disk.map fun entries =>
      let s := entries.foldl (collect config now) ⟨entries, 0, []⟩
      if s.Done config then s.dir
      else
        let files := sortSlice s.files
        (evict config files { s with files := files }).dir

/-- `sort.Slice` by modification time, whatever it does with equal times. -/
structure SortsByTime (sortSlice : List FileInfo → List FileInfo) : Prop where
  perm : ∀ l, (sortSlice l).Perm l
  sorted : ∀ l, (sortSlice l).Pairwise fun f g => f.modTime ≤ g.modTime

/-! ## The first loop -/

/-- The cached file that an entry is. -/
def audioFile (entry : DirEntry) : Option FileInfo :=
  if entry.Skipped then none
  else entry.Info.map fun info => ⟨entry.Name, info.Size, info.ModTime⟩

def Expired (config : CacheConfig) (now : Bytes → Int) (file : FileInfo) : Prop :=
  now file.path - file.modTime > config.TTL

instance (config : CacheConfig) (now : Bytes → Int) (file : FileInfo) :
    Decidable (Expired config now file) := inferInstanceAs (Decidable (_ > _))

def total (files : List FileInfo) : Nat := (files.map FileInfo.size).sum

theorem total_cons (file : FileInfo) (files : List FileInfo) :
    total (file :: files) = file.size + total files := rfl

/-- The cached files of a directory that have not expired. -/
def unexpired (config : CacheConfig) (now : Bytes → Int) (dir : List DirEntry) : List FileInfo :=
  (dir.filterMap audioFile).filter fun file => ¬ Expired config now file

def stale (config : CacheConfig) (now : Bytes → Int) (dir : List DirEntry) : List FileInfo :=
  (dir.filterMap audioFile).filter fun file => Expired config now file

variable {config : CacheConfig} {now : Bytes → Int}

theorem audioFile_path {entry : DirEntry} {file : FileInfo} (h : audioFile entry = some file) :
    file.path = entry.Name := by
  rw [audioFile] at h
  split at h
  · cases h
  · obtain ⟨info, -, rfl⟩ := Option.map_eq_some_iff.mp h
    rfl

theorem collect_eq (s : Cleanup) (entry : DirEntry) :
    collect config now s entry =
      match audioFile entry with
      | none => s
      | some file =>
          if Expired config now file then { s with dir := removeStaleDiskCache s.dir file.path }
          else { s with total := int64 (s.total + file.size), files := s.files ++ [file] } := by
  rw [collect, audioFile]
  by_cases hskip : entry.Skipped
  · simp only [if_pos hskip]
  · simp only [if_neg hskip]
    cases entry.Info with
    | none => rfl
    | some info => rfl

/-- Removing a list of files, in any order. -/
def without (dir : List DirEntry) (files : List FileInfo) : List DirEntry :=
  dir.filter fun entry => ∀ file ∈ files, entry.Name ≠ file.path

theorem without_nil (dir : List DirEntry) : without dir [] = dir := by
  simp [without]

theorem without_remove (dir : List DirEntry) (file : FileInfo) (files : List FileInfo) :
    without (removeStaleDiskCache dir file.path) files = without dir (file :: files) := by
  rw [without, removeStaleDiskCache, List.filter_filter, without]
  apply List.filter_congr
  intro entry _
  simp [Bool.and_comm]

theorem collect_spec (entries : List DirEntry) (s : Cleanup) (htotal : int64 s.total = s.total) :
    entries.foldl (collect config now) s =
      ⟨without s.dir (stale config now entries), int64 (s.total + total (unexpired config now entries)),
        s.files ++ unexpired config now entries⟩ := by
  induction entries generalizing s with
  | nil => simp [stale, unexpired, without_nil, total, htotal]
  | cons entry entries ih =>
      rw [List.foldl_cons, collect_eq]
      cases haudio : audioFile entry with
      | none =>
          rw [ih s htotal]
          simp [stale, unexpired, haudio]
      | some file =>
          dsimp only
          by_cases hexp : Expired config now file
          · rw [if_pos hexp, ih ⟨removeStaleDiskCache s.dir file.path, s.total, s.files⟩ htotal]
            simp [stale, unexpired, haudio, hexp, without_remove]
          · rw [if_neg hexp, ih ⟨s.dir, int64 (s.total + file.size), s.files ++ [file]⟩ (int64_int64 _)]
            simp [stale, unexpired, haudio, hexp, total_cons, int64_add_left, add_assoc]

/-! ## The second loop -/

def Fits (config : CacheConfig) (files : List FileInfo) : Prop :=
  (total files : Int) ≤ config.MaxBytes ∧ (files.length : Int) ≤ config.MaxItems

theorem without_cons (dir : List DirEntry) (file : FileInfo) (files : List FileInfo) :
    without dir (file :: files) = without (removeStaleDiskCache dir file.path) files :=
  (without_remove dir file files).symm

/-- The loop removes the shortest front of its range that leaves files within both limits. -/
theorem evict_spec (hempty : Fits config []) (files : List FileInfo) (dir : List DirEntry)
    (hsmall : total files < 2 ^ 63) :
    ∃ n ≤ files.length,
      (evict config files ⟨dir, total files, files⟩).dir = without dir (files.take n) ∧
        Fits config (files.drop n) ∧ ∀ m < n, ¬ Fits config (files.drop m) := by
  induction files generalizing dir with
  | nil => exact ⟨0, le_rfl, (without_nil dir).symm, hempty, by simp⟩
  | cons file files ih =>
      rw [evict]
      by_cases hdone : Cleanup.Done config ⟨dir, total (file :: files), file :: files⟩
      · rw [if_pos hdone]
        exact ⟨0, Nat.zero_le _, (without_nil dir).symm, hdone, by simp⟩
      · have hsum := total_cons file files
        have hrest : int64 (total (file :: files) - file.size) = total files := by
          rw [hsum, int64_eq_self] <;> push_cast <;> omega
        obtain ⟨n, hn, hdir, hfits, hmin⟩ := ih (removeStaleDiskCache dir file.path) (by omega)
        rw [if_neg hdone, hrest, List.tail_cons]
        refine ⟨n + 1, Nat.succ_le_succ hn, ?_, hfits, ?_⟩
        · rw [hdir, List.take_succ_cons, without_cons]
        · intro m hm
          cases m with
          | zero => exact hdone
          | succ m => exact hmin m (Nat.lt_of_succ_lt_succ hm)

/-! ## What is left -/

theorem audioFile_without (dir : List DirEntry) (files : List FileInfo) :
    (without dir files).filterMap audioFile =
      (dir.filterMap audioFile).filter fun f => ∀ file ∈ files, f.path ≠ file.path := by
  rw [without, List.filterMap_filter, List.filter_filterMap]
  apply List.filterMap_congr
  intro entry _
  cases haudio : audioFile entry with
  | none => split <;> rfl
  | some f =>
      have hpath := audioFile_path haudio
      rw [Option.filter_some, hpath]

/-- Without the stale files, the unexpired ones are left. -/
theorem audioFile_without_stale {dir : List DirEntry}
    (hnames : ((dir.filterMap audioFile).map FileInfo.path).Nodup) :
    (without dir (stale config now dir)).filterMap audioFile = unexpired config now dir := by
  rw [audioFile_without, unexpired]
  apply List.filter_congr
  intro f hf
  rw [decide_eq_decide]
  constructor
  · intro h hexp
    exact h f (List.mem_filter.mpr ⟨hf, by simpa using hexp⟩) rfl
  · intro hexp g hg hpath
    obtain ⟨hg, hgexp⟩ := List.mem_filter.mp hg
    have hsame := List.inj_on_of_nodup_map hnames hf hg hpath
    subst hsame
    exact hexp (by simpa using hgexp)

/-- Without the first files of an order, the rest of it is left. -/
theorem filter_drop_perm {files ordered : List FileInfo} (hperm : ordered.Perm files)
    (hnames : (files.map FileInfo.path).Nodup) (n : Nat) :
    (files.filter fun f => ∀ file ∈ ordered.take n, f.path ≠ file.path).Perm (ordered.drop n) := by
  refine (hperm.filter _).symm.trans ?_
  have hnodup : (ordered.map FileInfo.path).Nodup := (hperm.map _).nodup_iff.mpr hnames
  have hsplit := List.take_append_drop n ordered
  rw [← hsplit, List.map_append] at hnodup
  have hdisjoint := (List.nodup_append'.mp hnodup).2.2
  conv => lhs; arg 2; rw [← hsplit]
  rw [List.filter_append, List.filter_eq_nil_iff.mpr, List.filter_eq_self.mpr, List.nil_append]
  · intro f hf
    simp only [decide_eq_true_eq]
    intro g hg hpath
    exact hdisjoint (List.mem_map_of_mem hg) (hpath ▸ List.mem_map_of_mem hf)
  · intro f hf
    simp only [decide_eq_true_eq]
    exact fun h => h f hf rfl

/-- A file that is newer than all others stands last and is only removed if it is too large. -/
theorem newest_mem_drop {ordered : List FileInfo} (hnodup : ordered.Nodup)
    (hsorted : ordered.Pairwise fun f g => f.modTime ≤ g.modTime) (hitems : 0 < config.MaxItems)
    {n : Nat} (hmin : ∀ m < n, ¬ Fits config (ordered.drop m)) {file : FileInfo}
    (hfile : file ∈ ordered) (hnewest : ∀ g ∈ ordered, g ≠ file → g.modTime < file.modTime)
    (hsize : (file.size : Int) ≤ config.MaxBytes) : file ∈ ordered.drop n := by
  rw [← List.take_append_drop n ordered] at hfile
  refine (List.mem_append.mp hfile).resolve_left fun htake => ?_
  obtain ⟨i, hi, rfl⟩ := List.mem_take_iff_getElem.mp htake
  have hlt : i < ordered.length := by omega
  have hdrop := List.drop_eq_getElem_cons hlt
  have hlast : ordered.drop (i + 1) = [] := by
    rw [List.eq_nil_iff_forall_not_mem]
    intro g hg
    have hsuffix : (ordered.drop i).Pairwise fun f g => f.modTime ≤ g.modTime :=
      hsorted.sublist (List.drop_sublist i ordered)
    have hsuffix' : (ordered.drop i).Nodup := hnodup.sublist (List.drop_sublist i ordered)
    rw [hdrop] at hsuffix hsuffix'
    have hle := (List.pairwise_cons.mp hsuffix).1 g hg
    have hne : g ≠ ordered[i] := fun h => (List.nodup_cons.mp hsuffix').1 (h ▸ hg)
    have := hnewest g (List.mem_of_mem_drop hg) hne
    omega
  apply hmin i (by omega)
  rw [hdrop, hlast]
  refine ⟨?_, ?_⟩
  · simpa [total] using hsize
  · simp only [List.length_singleton, Nat.cast_one]
    omega

/-- Of some files those are kept that an order from the oldest to the newest has left when the
fewest possible are dropped from its front. -/
def KeepsNewest (config : CacheConfig) (files kept : List FileInfo) : Prop :=
  ∃ (ordered : List FileInfo) (n : Nat), ordered.Perm files ∧
    (ordered.Pairwise fun f g => f.modTime ≤ g.modTime) ∧ n ≤ ordered.length ∧
      kept.Perm (ordered.drop n) ∧ ∀ m < n, ¬ Fits config (ordered.drop m)

theorem Fits.perm {l m : List FileInfo} (hperm : l.Perm m) : Fits config l ↔ Fits config m := by
  have htotal : total l = total m := (hperm.map FileInfo.size).sum_eq
  rw [Fits, Fits, htotal, hperm.length_eq]

theorem cleanup_spec {sortSlice : List FileInfo → List FileInfo} (hsort : SortsByTime sortSlice)
    (hdir : config.Dir ≠ []) (hempty : Fits config []) (now : Bytes → Int) (entries : List DirEntry)
    (hsmall : total (unexpired config now entries) < 2 ^ 63) :
    ∃ n ≤ (sortSlice (unexpired config now entries)).length,
      cleanupDiskTTSCache sortSlice now config (some entries) =
          some (without (without entries (stale config now entries))
            ((sortSlice (unexpired config now entries)).take n)) ∧
        Fits config ((sortSlice (unexpired config now entries)).drop n) ∧
        ∀ m < n, ¬ Fits config ((sortSlice (unexpired config now entries)).drop m) := by
  have hperm := hsort.perm (unexpired config now entries)
  have htotal : total (sortSlice (unexpired config now entries)) = total (unexpired config now entries) :=
    (hperm.map FileInfo.size).sum_eq
  have hsum : int64 (0 + (total (unexpired config now entries) : Int)) =
      total (unexpired config now entries) := by
    rw [int64_eq_self] <;> omega
  have hzero : int64 0 = 0 := by decide
  simp only [cleanupDiskTTSCache, if_neg hdir, Option.map_some, Option.some.injEq,
    collect_spec entries ⟨entries, 0, []⟩ hzero, List.nil_append, hsum]
  split
  · next hdone =>
    exact ⟨0, Nat.zero_le _, (without_nil _).symm, (Fits.perm hperm).mpr hdone, by simp⟩
  · rw [← htotal]
    exact evict_spec hempty _ _ (htotal ▸ hsmall)

theorem audioFile_paths (entries : List DirEntry) :
    ((entries.filterMap audioFile).map FileInfo.path).Sublist (entries.map DirEntry.Name) := by
  induction entries with
  | nil => exact List.Sublist.slnil
  | cons entry entries ih =>
      cases haudio : audioFile entry with
      | none =>
          rw [List.filterMap_cons_none haudio]
          exact ih.cons _
      | some file =>
          rw [List.filterMap_cons_some haudio, List.map_cons, List.map_cons, audioFile_path haudio]
          exact ih.cons_cons _

/-- The clean-up removes expired files and, of the others, the fewest oldest ones such that the
rest is within both limits, as long as their sizes can be added up. It touches nothing else. -/
theorem cleanup_minimal {sortSlice : List FileInfo → List FileInfo} (hsort : SortsByTime sortSlice)
    (hdir : config.Dir ≠ []) (hbytes : 0 < config.MaxBytes) (hitems : 0 < config.MaxItems)
    (now : Bytes → Int) {entries : List DirEntry} (hnames : (entries.map DirEntry.Name).Nodup)
    (hsmall : total (unexpired config now entries) < 2 ^ 63) :
    ∃ rest, cleanupDiskTTSCache sortSlice now config (some entries) = some rest ∧
      rest.Sublist entries ∧
      (∀ entry ∈ entries, audioFile entry = none → entry ∈ rest) ∧
      (∀ file ∈ rest.filterMap audioFile, ¬ Expired config now file) ∧
      Fits config (rest.filterMap audioFile) ∧
      KeepsNewest config (unexpired config now entries) (rest.filterMap audioFile) ∧
      ∀ file ∈ unexpired config now entries,
        (∀ g ∈ unexpired config now entries, g ≠ file → g.modTime < file.modTime) →
          (file.size : Int) ≤ config.MaxBytes → file ∈ rest.filterMap audioFile := by
  have hpaths := hnames.sublist (audioFile_paths entries)
  have hfresh : ((unexpired config now entries).map FileInfo.path).Nodup :=
    hpaths.sublist (List.filter_sublist.map _)
  have hperm := hsort.perm (unexpired config now entries)
  have hsorted := hsort.sorted (unexpired config now entries)
  obtain ⟨n, hn, hrest, hfits, hmin⟩ := cleanup_spec hsort hdir ⟨hbytes.le, hitems.le⟩ now entries hsmall
  have hkept : ((without (without entries (stale config now entries))
      ((sortSlice (unexpired config now entries)).take n)).filterMap audioFile).Perm
        ((sortSlice (unexpired config now entries)).drop n) := by
    rw [audioFile_without, audioFile_without_stale hpaths]
    exact filter_drop_perm hperm hfresh n
  refine ⟨_, hrest, ?_, ?_, ?_, (Fits.perm hkept).mpr hfits, ⟨_, n, hperm, hsorted, hn, hkept, hmin⟩, ?_⟩
  · exact List.filter_sublist.trans List.filter_sublist
  · intro entry hentry haudio
    have hother : ∀ file : FileInfo, file ∈ entries.filterMap audioFile → entry.Name ≠ file.path := by
      intro file hfile hpath
      obtain ⟨e, he, hfile⟩ := List.mem_filterMap.mp hfile
      have hsame := List.inj_on_of_nodup_map hnames hentry he (hpath.trans (audioFile_path hfile))
      rw [← hsame, haudio] at hfile
      cases hfile
    have hmem : ∀ file ∈ (sortSlice (unexpired config now entries)).take n,
        file ∈ entries.filterMap audioFile := fun file hfile =>
      (List.mem_filter.mp (hperm.mem_iff.mp (List.mem_of_mem_take hfile))).1
    refine List.mem_filter.mpr ⟨List.mem_filter.mpr ⟨hentry, ?_⟩, ?_⟩
    · exact decide_eq_true fun file hfile => hother file (List.mem_filter.mp hfile).1
    · exact decide_eq_true fun file hfile => hother file (hmem file hfile)
  · intro file hfile
    have hfile := hperm.mem_iff.mp (List.mem_of_mem_drop (hkept.mem_iff.mp hfile))
    simpa using (List.mem_filter.mp hfile).2
  · intro file hfile hnewest hsize
    rw [hkept.mem_iff]
    refine newest_mem_drop (hperm.map FileInfo.path |>.nodup_iff.mpr hfresh).of_map hsorted hitems hmin
      (hperm.mem_iff.mpr hfile) ?_ hsize
    exact fun g hg => hnewest g (hperm.mem_iff.mp hg)

def sortByTime (files : List FileInfo) : List FileInfo :=
  files.insertionSort fun f g => f.modTime ≤ g.modTime

theorem sortByTime_sorts : SortsByTime sortByTime where
  perm l := List.perm_insertionSort _ l
  sorted l := by
    have : Std.Total fun f g : FileInfo => f.modTime ≤ g.modTime :=
      ⟨fun f g => le_total f.modTime g.modTime⟩
    have : IsTrans FileInfo fun f g => f.modTime ≤ g.modTime := ⟨fun _ _ _ => le_trans⟩
    exact List.pairwise_insertionSort _ l

/-- An expired file, three others that are one too many, and a file of another kind. -/
def crowded : List DirEntry :=
  [⟨ascii "a.audio", false, some ⟨1, 5⟩⟩, ⟨ascii "b.audio", false, some ⟨1, 95⟩⟩,
    ⟨ascii "c.audio", false, some ⟨1, 93⟩⟩, ⟨ascii "d.audio", false, some ⟨1, 99⟩⟩,
    ⟨ascii "e.tmp", false, some ⟨9, 1⟩⟩]

theorem cleanup_minimal_crowded :
    ∃ rest, cleanupDiskTTSCache sortByTime (fun _ => 100) ⟨3, 2, 10, ascii "d"⟩ (some crowded) = some rest ∧
      Fits ⟨3, 2, 10, ascii "d"⟩ (rest.filterMap audioFile) :=
  have ⟨rest, hrest, _, _, _, hfits, _⟩ := cleanup_minimal sortByTime_sorts
    (by decide : ascii "d" ≠ []) (by decide : (0 : Int) < 3) (by decide : (0 : Int) < 2) (fun _ => 100)
    (by decide +kernel : (crowded.map DirEntry.Name).Nodup) (by decide +kernel)
  ⟨rest, hrest, hfits⟩

/-- Two files whose sizes add up to the least signed integer. -/
def sparse : List DirEntry :=
  [⟨ascii "a.audio", false, some ⟨2 ^ 62, 98⟩⟩, ⟨ascii "b.audio", false, some ⟨2 ^ 62, 99⟩⟩]

/-- The total of two large files wraps around, so the clean-up keeps them both. -/
theorem cleanup_keeps_sparse :
    (sparse.map DirEntry.Name).Nodup ∧
      cleanupDiskTTSCache sortByTime (fun _ => 100) ⟨3, 2, 10, ascii "d"⟩ (some sparse) = some sparse ∧
        ¬ Fits ⟨3, 2, 10, ascii "d"⟩ (sparse.filterMap audioFile) := by
  refine ⟨by decide +kernel, by decide +kernel, ?_⟩
  rw [Fits]
  decide +kernel

end ZReader.Services.DiskCache
