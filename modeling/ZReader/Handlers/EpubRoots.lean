import ZReader.Handlers.EpubArchives

namespace ZReader.Handlers.Epub

open Lib.Utf8 Lib.Strings Lib.Integers Storage

/-! ## What re-rooting is for -/

/-- The first component of a path, leading slashes ignored. -/
def folderName (name : Bytes) : Bytes := (trimLeftSlashes name).takeWhile (· ≠ slash)

/-- The path below the first component. -/
def folderRest (name : Bytes) : Bytes :=
  trimLeftSlashes ((trimLeftSlashes name).dropWhile (· ≠ slash))

/-- The first component of the path is the folder, in whatever case. -/
def InFolder (folder name : Bytes) : Prop :=
  slash ∈ trimLeftSlashes name ∧
    (toLower (folderName name) = folder ∨ equalFold (folderName name) folder = true)

instance (folder name : Bytes) : Decidable (InFolder folder name) :=
  inferInstanceAs (Decidable (_ ∧ _))

def hasParentStep (path : Bytes) : Bool := ascii ".." ∈ path.splitOn slash

def folderFile (folder : Bytes) (entry : ZipEntry) : Bool :=
  InFolder folder entry.name ∧ ¬isDirectory entry.name

/-- The files of the folder that have to be kept. -/
def required (folder : Bytes) (entry : ZipEntry) : Bool :=
  folderFile folder entry && !hasParentStep (folderRest entry.name)

/-- What becomes of a file of the folder. -/
def rerooted (entry : ZipEntry) : Bytes × Bytes := (folderRest entry.name, entry.content)

/-- The new archive holds, in order, the required files and nothing but files of the folder,
each under its path without the folder and with its content. -/
def KeepsContent (folder : Bytes) (entries : List ZipEntry) (written : List WrittenEntry) : Prop :=
  ((entries.filter (required folder)).map rerooted).Sublist (written.map fun w => (w.name, w.data)) ∧
    (written.map fun w => (w.name, w.data)).Sublist
      ((entries.filter (folderFile folder)).map rerooted)

/-- The folder's name takes as many bytes in the path as it takes in lower case, and folds to
it. -/
def KeepsName (folder name : Bytes) : Prop :=
  (folderName name).length = folder.length ∧ equalFold (folderName name) folder = true

instance (folder name : Bytes) : Decidable (KeepsName folder name) :=
  inferInstanceAs (Decidable (_ ∧ _))

/-! ## Paths -/

theorem folder_split {name : Bytes} (h : slash ∈ trimLeftSlashes name) :
    ∃ rest, trimLeftSlashes name = folderName name ++ slash :: rest ∧
      folderRest name = trimLeftSlashes rest := by
  have hsplit := List.takeWhile_append_dropWhile (p := (· ≠ slash)) (l := trimLeftSlashes name)
  cases hd : (trimLeftSlashes name).dropWhile (· ≠ slash) with
  | nil =>
      have hall := List.dropWhile_eq_nil_iff.mp hd slash h
      simp at hall
  | cons b rest =>
      have hb : b = slash := by
        have hnot := List.head?_dropWhile_not (· ≠ slash) (trimLeftSlashes name)
        rw [hd] at hnot
        simpa using hnot
      subst hb
      refine ⟨rest, ?_, ?_⟩
      · rw [folderName, ← hd]
        exact hsplit.symm
      · rw [folderRest, hd]
        simp [trimLeftSlashes]

theorem slash_not_mem_folderName (name : Bytes) : slash ∉ folderName name := by
  intro h
  simpa using List.mem_takeWhile_imp h

theorem folderName_of_split {name first rest : Bytes} (hfirst : slash ∉ first)
    (h : trimLeftSlashes name = first ++ slash :: rest) :
    folderName name = first ∧ folderRest name = trimLeftSlashes rest := by
  have hall : ∀ b ∈ first, (b ≠ slash : Bool) = true := by
    intro b hb
    simpa using fun heq : b = slash => hfirst (heq ▸ hb)
  constructor
  · rw [folderName, h, List.takeWhile_append_of_pos hall]
    simp
  · rw [folderRest, h, List.dropWhile_append_of_pos hall]
    simp [trimLeftSlashes]

theorem stripEPUBPackageRoot_eq {folder : Bytes} (hfolder : slash ∉ folder) (name : Bytes) :
    stripEPUBPackageRoot name (folder ++ [slash]) =
      if slash ∈ trimLeftSlashes name ∧ KeepsName folder name then some (folderRest name)
      else none := by
  rw [stripEPUBPackageRoot]
  by_cases hkeeps : slash ∈ trimLeftSlashes name ∧ KeepsName folder name
  · obtain ⟨hmem, hlen, hfold⟩ := id hkeeps
    obtain ⟨rest, hsplit, hrest⟩ := folder_split hmem
    have htake : (trimLeftSlashes name).take (folder ++ [slash]).length =
        folderName name ++ [slash] := by
      rw [hsplit, List.length_append, ← hlen]
      simp [List.take_append]
    have hdrop : (trimLeftSlashes name).drop (folder ++ [slash]).length = rest := by
      rw [hsplit, List.length_append, ← hlen]
      simp [List.drop_append]
    have hlong : (folder ++ [slash]).length ≤ (trimLeftSlashes name).length := by
      rw [hsplit]
      simp [hlen]
    simp only [htake, hdrop, equalFold_append_slash hfold, Bool.true_eq_false, or_false]
    rw [if_neg (by omega), if_pos hkeeps, hrest]
  · rw [if_neg hkeeps]
    simp only [ite_eq_left_iff, not_or, Bool.not_eq_false, reduceCtorEq, imp_false]
    rintro ⟨hlong, hfold⟩
    obtain ⟨first, htake, hfirst, hequal⟩ := equalFold_slash_eq hfolder hfold
    have hsplit := List.take_append_drop (folder ++ [slash]).length (trimLeftSlashes name)
    rw [htake, List.append_assoc, List.singleton_append] at hsplit
    obtain ⟨hname, -⟩ := folderName_of_split hfirst hsplit.symm
    refine hkeeps ⟨?_, ?_, ?_⟩
    · rw [← hsplit]
      simp
    · have hcount := congrArg List.length htake
      simp only [List.length_take, List.length_append, List.length_singleton] at hcount hlong
      rw [hname]
      omega
    · rw [hname]
      exact hequal

/-! ## Directories and parent steps -/

theorem isDirectory_iff {s : Bytes} : isDirectory s = true ↔ s.getLast? = some slash := by
  rw [isDirectory, List.isSuffixOf_iff_suffix]
  constructor
  · rintro ⟨front, rfl⟩
    simp
  · intro h
    obtain ⟨front, rfl⟩ := List.getLast?_eq_some_iff.mp h
    exact ⟨front, rfl⟩

theorem isDirectory_append (front : Bytes) {s : Bytes} (hs : s ≠ []) :
    isDirectory (front ++ s) = isDirectory s := by
  rw [Bool.eq_iff_iff, isDirectory_iff, isDirectory_iff, List.getLast?_append_of_ne_nil _ hs]

theorem isDirectory_slash_cons (rest : Bytes) :
    isDirectory (slash :: rest) = true ↔
      trimLeftSlashes rest = [] ∨ isDirectory (trimLeftSlashes rest) = true := by
  induction rest with
  | nil => simp [trimLeftSlashes, isDirectory_iff]
  | cons b rest ih =>
      rw [← List.singleton_append, isDirectory_append _ (List.cons_ne_nil b rest)]
      by_cases hb : b = slash
      · subst hb
        rw [ih, trimLeftSlashes, trimLeftSlashes, List.dropWhile_cons_of_pos (by simp)]
      · rw [trimLeftSlashes, List.dropWhile_cons_of_neg (by simpa using hb)]
        simp

theorem trimLeftSlashes_eq (name : Bytes) : ∃ front, name = front ++ trimLeftSlashes name :=
  ⟨_, List.takeWhile_append_dropWhile.symm⟩

theorem isDirectory_folderRest {name : Bytes} (h : slash ∈ trimLeftSlashes name) :
    isDirectory name = true ↔ folderRest name = [] ∨ isDirectory (folderRest name) = true := by
  obtain ⟨front, hname⟩ := trimLeftSlashes_eq name
  obtain ⟨rest, hsplit, hrest⟩ := folder_split h
  rw [hrest, ← isDirectory_slash_cons, hname, isDirectory_append front (List.ne_nil_of_mem h),
    hsplit, isDirectory_append _ (List.cons_ne_nil _ _)]

theorem no_parentStep {path : Bytes} (h : hasParentStep path = false) :
    ¬((ascii "../").isPrefixOf path ∨ ascii "/../" <:+: path) := by
  have hdots : slash ∉ ascii ".." := by decide
  rintro (hfront | ⟨before, after, hpath⟩)
  · obtain ⟨rest, hpath⟩ := List.isPrefixOf_iff_prefix.mp hfront
    have heq : ascii "../" = ascii ".." ++ [slash] := rfl
    rw [heq, List.append_assoc, List.singleton_append] at hpath
    rw [hasParentStep, ← hpath, List.splitOn_append_cons_self_of_not_mem hdots] at h
    simp at h
  · have heq : ascii "/../" = slash :: (ascii ".." ++ [slash]) := rfl
    rw [heq, List.append_assoc, List.cons_append, List.append_assoc, List.singleton_append]
      at hpath
    rw [hasParentStep, ← hpath, List.splitOn_append_cons_self,
      List.splitOn_append_cons_self_of_not_mem hdots] at h
    simp at h

section Folder

variable {folder : Bytes} (hfolder : slash ∉ folder)

include hfolder

/-- What is copied is a file of the folder, under its path there. -/
theorem folderFile_of_normalizedName {entry : ZipEntry} {path : Bytes}
    (h : normalizedName (folder ++ [slash]) entry.name = some path) :
    folderFile folder entry = true ∧ KeepsName folder entry.name ∧ path = folderRest entry.name := by
  rw [normalizedName, stripEPUBPackageRoot_eq hfolder] at h
  by_cases hkeeps : slash ∈ trimLeftSlashes entry.name ∧ KeepsName folder entry.name
  · simp only [if_pos hkeeps] at h
    split at h
    · simp at h
    · next hdir =>
      rw [← isDirectory_folderRest hkeeps.1] at hdir
      split at h
      · simp at h
      · have hfile : folderFile folder entry = true := by
          simp only [folderFile, decide_eq_true_eq]
          exact ⟨⟨hkeeps.1, Or.inr hkeeps.2.2⟩, hdir⟩
        exact ⟨hfile, hkeeps.2, (Option.some.inj h).symm⟩
  · simp [if_neg hkeeps] at h

/-- A required file is copied when its path keeps the name of the folder. -/
theorem normalizedName_of_required {entry : ZipEntry} (h : required folder entry = true)
    (hname : KeepsName folder entry.name) :
    normalizedName (folder ++ [slash]) entry.name = some (folderRest entry.name) := by
  simp only [required, folderFile, Bool.and_eq_true, decide_eq_true_eq, Bool.not_eq_true'] at h
  obtain ⟨⟨⟨hmem, -⟩, hdir⟩, hstep⟩ := h
  rw [isDirectory_folderRest hmem] at hdir
  rw [normalizedName, stripEPUBPackageRoot_eq hfolder, if_pos ⟨hmem, hname⟩]
  simp only
  rw [if_neg hdir, if_neg (no_parentStep hstep)]

theorem written_eq (entries : List ZipEntry) :
    ((entries.filterMap (copyOf (folder ++ [slash]))).map fun w => (w.name, w.data)) =
      (copiedOf (folder ++ [slash]) entries).map rerooted := by
  induction entries with
  | nil => rfl
  | cons entry rest ih =>
      cases hname : normalizedName (folder ++ [slash]) entry.name with
      | none => simpa [copyOf, copiedOf, hname] using ih
      | some path =>
          obtain ⟨-, -, rfl⟩ := folderFile_of_normalizedName hfolder hname
          simpa [copyOf, copiedOf, hname, rerooted] using ih

theorem keepsContent_iff (entries : List ZipEntry) :
    KeepsContent folder entries (entries.filterMap (copyOf (folder ++ [slash]))) ↔
      ∀ entry ∈ entries, required folder entry = true → KeepsName folder entry.name := by
  rw [KeepsContent, written_eq hfolder]
  have hcopied : ∀ entry, (normalizedName (folder ++ [slash]) entry.name).isSome = true →
      folderFile folder entry = true ∧ KeepsName folder entry.name := by
    intro entry h
    obtain ⟨path, hpath⟩ := Option.isSome_iff_exists.mp h
    obtain ⟨hfile, hname, -⟩ := folderFile_of_normalizedName hfolder hpath
    exact ⟨hfile, hname⟩
  constructor
  · rintro ⟨hkept, -⟩ entry hentry hreq
    -- among the copies, those without a parent step come from required files
    have hnoStep := hkept.filter fun p => !hasParentStep p.1
    rw [List.filter_map, List.filter_map, List.filter_filter, copiedOf, List.filter_filter]
      at hnoStep
    have hlen := hnoStep.length_le
    rw [List.length_map, List.length_map] at hlen
    have hleft : entries.filter (fun e =>
        ((fun p : Bytes × Bytes => !hasParentStep p.1) ∘ rerooted) e && required folder e) =
          entries.filter (required folder) := by
      refine List.filter_congr fun e _ => ?_
      rw [required, Function.comp_apply, rerooted, Bool.and_left_comm, Bool.and_self]
    have hright : entries.filter (fun e =>
        ((fun p : Bytes × Bytes => !hasParentStep p.1) ∘ rerooted) e &&
          (normalizedName (folder ++ [slash]) e.name).isSome) =
        (entries.filter (required folder)).filter fun e =>
          (normalizedName (folder ++ [slash]) e.name).isSome := by
      rw [List.filter_filter]
      refine List.filter_congr fun e _ => ?_
      by_cases hc : (normalizedName (folder ++ [slash]) e.name).isSome = true
      · rw [hc, Bool.and_true, Bool.true_and, required, (hcopied e hc).1, Bool.true_and]
        rfl
      · simp [hc]
    rw [hleft, hright] at hlen
    have hall := List.length_filter_eq_length_iff.mp
      (le_antisymm (List.length_filter_le _ _) hlen)
    exact (hcopied entry (hall entry (List.mem_filter.mpr ⟨hentry, hreq⟩))).2
  · intro hnames
    constructor
    · have heq : entries.filter (required folder) = (copiedOf (folder ++ [slash]) entries).filter
          (required folder) := by
        rw [copiedOf, List.filter_filter]
        refine List.filter_congr fun e he => ?_
        by_cases hreq : required folder e = true
        · rw [normalizedName_of_required hfolder hreq (hnames e he hreq)]
          simp
        · simp [hreq]
      rw [heq]
      exact List.filter_sublist.map _
    · exact (List.monotone_filter_right entries fun e he => (hcopied e he).1).map _

end Folder

/-! ## The folder that is found -/

theorem toLower_splitOn (s : Bytes) :
    (toLower s).splitOn slash = (s.splitOn slash).map toLower := by
  induction hn : s.length using Nat.strong_induction_on generalizing s with
  | _ n ih =>
      by_cases h : slash ∈ s
      · obtain ⟨first, rest, rfl, hfirst⟩ := List.eq_append_cons_of_mem h
        have hrest := ih rest.length (by simp at hn; omega) rest rfl
        rw [toLower_append_slash, List.splitOn_append_cons_self_of_not_mem hfirst,
          List.splitOn_append_cons_self_of_not_mem (mt slash_mem_toLower.mp hfirst), hrest]
        rfl
      · rw [List.splitOn_eq_singleton h, List.splitOn_eq_singleton (mt slash_mem_toLower.mp h)]
        rfl

theorem toLower_nil : toLower [] = [] := rfl

/-- The entry that names a root lies in the root's folder; below it, its name is that of the type
or of the container. -/
theorem rootOf_eq_some {name root : Bytes} (h : rootOf name = some root) :
    ∃ rest, slash ∈ trimLeftSlashes name ∧ root = toLower (folderName name) ++ [slash] ∧
      folderRest name = trimLeftSlashes rest ∧
      trimLeftSlashes name = folderName name ++ slash :: rest ∧
      (toLower rest = ascii "mimetype" ∨ toLower rest = ascii "meta-inf/container.xml") := by
  rw [rootOf] at h
  split at h
  · simp at h
  · next first parts hparts =>
    split at h
    · simp at h
    · next hsome =>
      simp only at h
      split at h
      · next hstripped =>
        have hmem : slash ∈ trimLeftSlashes name := by
          by_contra hno
          rw [List.splitOn_eq_singleton (mt slash_mem_toLower.mp hno)] at hparts
          exact hsome (Or.inl (List.cons.inj hparts).2.symm)
        obtain ⟨rest, hsplit, hrest⟩ := folder_split hmem
        have hlower : slash ∉ toLower (folderName name) :=
          mt slash_mem_toLower.mp (slash_not_mem_folderName name)
        rw [hsplit, toLower_append_slash, List.splitOn_append_cons_self_of_not_mem hlower]
          at hparts
        obtain ⟨hfirst, hparts⟩ := List.cons.inj hparts
        have hjoin : join [slash] parts = toLower rest := by
          rw [← hparts, join, List.intercalate_splitOn]
        rw [hjoin] at hstripped
        refine ⟨rest, hmem, ?_, hrest, hsplit, hstripped⟩
        rw [hfirst]
        exact (Option.some.inj h).symm
      · simp at h

theorem marker_plain {rest : Bytes}
    (h : toLower rest = ascii "mimetype" ∨ toLower rest = ascii "meta-inf/container.xml") :
    (∀ tail, rest ≠ slash :: tail) ∧ (∀ front, rest ≠ front ++ [slash]) ∧
      hasParentStep rest = false := by
  refine ⟨?_, ?_, ?_⟩
  · rintro tail rfl
    have hlower := toLower_append_slash [] tail
    rw [toLower_nil, List.nil_append, List.nil_append] at hlower
    rw [hlower] at h
    rcases h with h | h
    · have hhead := congrArg List.head? h
      rw [List.head?_cons] at hhead
      exact absurd hhead (by decide)
    · have hhead := congrArg List.head? h
      rw [List.head?_cons] at hhead
      exact absurd hhead (by decide)
  · rintro front rfl
    rw [toLower_append_slash, toLower_nil] at h
    rcases h with h | h
    · have hlast := congrArg List.getLast? h
      rw [List.getLast?_concat] at hlast
      exact absurd hlast (by decide)
    · have hlast := congrArg List.getLast? h
      rw [List.getLast?_concat] at hlast
      exact absurd hlast (by decide)
  · rw [hasParentStep, decide_eq_false_iff_not]
    intro hmem
    have himage := (List.mem_map_of_mem hmem : toLower (ascii "..") ∈ (rest.splitOn slash).map toLower)
    rw [← toLower_splitOn] at himage
    rcases h with h | h
    · rw [h] at himage
      exact absurd himage (by decide)
    · rw [h] at himage
      exact absurd himage (by decide)

/-- What has to be kept includes the entries that made the folder the root. -/
theorem required_of_rootOf {folder : Bytes} {entry : ZipEntry}
    (h : rootOf entry.name = some (folder ++ [slash])) : required folder entry = true := by
  obtain ⟨rest, hmem, hroot, hrest, hsplit, hmarker⟩ := rootOf_eq_some h
  have hfolder : toLower (folderName entry.name) = folder :=
    (List.append_cancel_right hroot).symm
  obtain ⟨hhead, hlast, hstep⟩ := marker_plain hmarker
  have hfront : trimLeftSlashes rest = rest := by
    cases rest with
    | nil => rfl
    | cons b tail =>
        have hb : b ≠ slash := by
          rintro rfl
          exact hhead tail rfl
        rw [trimLeftSlashes, List.dropWhile_cons_of_neg (by simpa using hb)]
  have hdir : isDirectory entry.name = false := by
    rw [Bool.eq_false_iff, Ne, isDirectory_folderRest hmem, hrest, hfront]
    rintro (rfl | hdir)
    · revert hmarker
      rw [toLower_nil]
      decide +kernel
    · obtain ⟨front, heq⟩ := List.getLast?_eq_some_iff.mp (isDirectory_iff.mp hdir)
      exact hlast front heq
  rw [required, folderFile, hrest, hfront, hstep, hdir]
  simp [InFolder, hmem, hfolder]

theorem epubPackageRoot_eq_some {entries : List ZipEntry} {root : Bytes}
    (h : epubPackageRoot entries = some root) :
    root = root.dropLast ++ [slash] ∧ slash ∉ root.dropLast ∧
      ∃ entry ∈ entries, rootOf entry.name = some root := by
  have hmem : root ∈ entries.filterMap fun entry => rootOf entry.name := by
    rw [epubPackageRoot] at h
    split at h
    · next found hfound =>
      rw [← List.mem_dedup, hfound, Option.some.inj h]
      exact List.mem_singleton_self root
    · simp at h
  obtain ⟨entry, hentry, hroot⟩ := List.mem_filterMap.mp hmem
  obtain ⟨rest, -, heq, -⟩ := rootOf_eq_some hroot
  have hfolder : root.dropLast = toLower (folderName entry.name) := by
    rw [heq, List.dropLast_concat]
  refine ⟨?_, ?_, entry, hentry, hroot⟩
  · rw [hfolder]
    exact heq
  · rw [hfolder, slash_mem_toLower]
    exact slash_not_mem_folderName entry.name

/-- A package is re-rooted without a loss exactly when every required file spells the folder in
as many bytes as the root. -/
theorem writeNormalizedEPUBZip_keeps_iff {entries : List ZipEntry} {root : Bytes} {L : Int}
    (hroot : epubPackageRoot entries = some root) (hfault : ∀ entry ∈ entries, entry.fault = none)
    (hL₀ : 0 ≤ L) (hL : L < 2 ^ 63 - 1) (htotal : realTotal (copiedOf root entries) ≤ L) :
    (writeNormalizedEPUBZip entries root L ⟨false, false⟩).err = none ∧
      (∃ entry ∈ entries, rootOf entry.name = some root) ∧
      (∀ entry ∈ entries, rootOf entry.name = some root → required root.dropLast entry = true) ∧
      (KeepsContent root.dropLast entries
          (writeNormalizedEPUBZip entries root L ⟨false, false⟩).written ↔
        ∀ entry ∈ entries, required root.dropLast entry = true →
          KeepsName root.dropLast entry.name) := by
  obtain ⟨hslash, hfolder, hmarker⟩ := epubPackageRoot_eq_some hroot
  have hok := writeNormalizedEPUBZip_succeeds hL₀ hL hfault htotal
  refine ⟨hok, hmarker, ?_, ?_⟩
  · intro entry _ hentry
    rw [hslash] at hentry
    exact required_of_rootOf hentry
  · rw [(writeNormalizedEPUBZip_ok hL₀ hL hok).2]
    have hkeeps := keepsContent_iff hfolder entries
    rwa [← hslash] at hkeeps

/-- A package in an upper-case folder, with a file beside it. -/
def plainPackage : List ZipEntry :=
  [⟨ascii "Book.EPUB/mimetype", 8, 2, [1, 2], none⟩,
    ⟨ascii "Book.EPUB/META-INF/container.xml", 8, 1, [3], none⟩,
    ⟨ascii "readme", 8, 1, [4], none⟩]

theorem plainPackage_keeps :
    KeepsContent (ascii "book.epub") plainPackage
      (writeNormalizedEPUBZip plainPackage (ascii "book.epub/") 10 ⟨false, false⟩).written := by
  have hroot : epubPackageRoot plainPackage = some (ascii "book.epub/") := by decide +kernel
  obtain ⟨-, -, -, hkeeps⟩ := writeNormalizedEPUBZip_keeps_iff hroot (by decide +kernel)
    (by decide : (0 : Int) ≤ 10) (by decide) (by decide +kernel)
  have hfolder : (ascii "book.epub/").dropLast = ascii "book.epub" := rfl
  rw [hfolder] at hkeeps
  exact hkeeps.mpr (by decide +kernel)

/-- The first letter takes two bytes, and one in lower case. -/
def dottedPackage : List ZipEntry :=
  [⟨ascii "İ.epub/mimetype", 0, 20, ascii "application/epub+zip", none⟩,
    ⟨ascii "İ.epub/META-INF/container.xml", 8, 1, [3], none⟩]

/-- The new archive is empty. -/
theorem dottedPackage_lost :
    epubPackageRoot dottedPackage = some (ascii "i.epub/") ∧
      (∀ entry ∈ dottedPackage, entry.fault = none) ∧
      (realTotal dottedPackage : Int) ≤ maxEPUBExpandedBytes ∧
      (writeNormalizedEPUBZip dottedPackage (ascii "i.epub/") maxEPUBExpandedBytes
        ⟨false, false⟩).written = [] ∧
      ¬KeepsContent (ascii "i.epub") dottedPackage
        (writeNormalizedEPUBZip dottedPackage (ascii "i.epub/") maxEPUBExpandedBytes
          ⟨false, false⟩).written := by
  have hwritten : (writeNormalizedEPUBZip dottedPackage (ascii "i.epub/") maxEPUBExpandedBytes
      ⟨false, false⟩).written = [] := by decide +kernel
  refine ⟨by decide +kernel, by decide +kernel, by decide +kernel, hwritten, ?_⟩
  rw [hwritten]
  rintro ⟨hkept, -⟩
  have hlen := hkept.length_le
  rw [List.length_map] at hlen
  exact absurd hlen (by decide +kernel)

end ZReader.Handlers.Epub
