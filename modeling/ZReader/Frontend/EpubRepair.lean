import ZReader.Frontend.StoredZip
import ZReader.Lib.Xml

namespace ZReader.Frontend.EpubRepair

open Lib.Utf8 Lib.Unicode Lib.Ecma Lib.Xml StoredZip

/-! ## Paths -/

/-- `toLowerCase`. The capital I with a dot becomes two characters. The final form of sigma,
which nothing here tells from the other one, is left out. -/
def toLowerCase (s : Text) : Text :=
  s.flatMap fun c => if c = 'İ' then ['i', '\u0307'] else [toLowerRune c]

def getNormalizedZipPath (path : Text) : Text :=
  let path := (replaceAll '\\' ['/'] path).dropWhile (· = '/')
  match path with
  | '.' :: '/' :: rest => rest
  | path => path

def containerName : Text := "META-INF/container.xml".toList

def lowerContainerName : Text := "meta-inf/container.xml".toList

def getCanonicalEpubPath (path rootPrefix : Text) : Text :=
  let normalizedPath := getNormalizedZipPath path
  let normalizedPath :=
    if rootPrefix ≠ [] ∧ rootPrefix <+: normalizedPath then normalizedPath.drop rootPrefix.length
    else normalizedPath
  let normalizedPath := getNormalizedZipPath normalizedPath
  if toLowerCase normalizedPath = lowerContainerName then containerName else normalizedPath

/-! ## The container document -/

def containerStart : Text :=
  "<?xml version=\"1.0\" encoding=\"UTF-8\"?>
<container version=\"1.0\" xmlns=\"urn:oasis:names:tc:opendocument:xmlns:container\">
  <rootfiles>
    <rootfile full-path=\"".toList

def containerEnd : Text :=
  "\" media-type=\"application/oebps-package+xml\"/>
  </rootfiles>
</container>".toList

/-- The document with a text in the place of its path. -/
def containerDocument (value : Text) : Text := containerStart ++ value ++ containerEnd

def escapedPath (opfPath : Text) : Text :=
  replaceAll '>' "&gt;".toList (replaceAll '<' "&lt;".toList
    (replaceAll '"' "&quot;".toList (replaceAll '&' "&amp;".toList opfPath)))

def getContainerXml (opfPath : Text) : Text := containerDocument (escapedPath opfPath)

def isQuote (c : Char) : Bool := c = '"' || c = '\''

def lowerAscii (c : Char) : Char := if 'A' ≤ c ∧ c ≤ 'Z' then Char.ofNat (c.toNat + 32) else c

/-- `/full-path\s*=\s*["']([^"']+)["']/i` at the beginning of a text: what the group holds. -/
def fullPathHere (s : Text) : Option Text :=
  if (s.take 9).map lowerAscii = "full-path".toList then
    match (s.drop 9).dropWhile isWhiteSpace with
    | '=' :: s =>
        match s.dropWhile isWhiteSpace with
        | quote :: s =>
            let path := s.takeWhile fun c => !isQuote c
            if isQuote quote ∧ path ≠ [] ∧ path.length < s.length then some path else none
        | [] => none
    | _ => none
  else none

/-- The first match of it in a text. -/
def matchFullPath : Text → Option Text
  | [] => none
  | c :: s => (fullPathHere (c :: s)).or (matchFullPath s)

/-! ## The repair -/

structure ZipEntry where
  filename : Text
  directory : Bool
  data : Bytes
  deriving DecidableEq

def isContainer (entry : ZipEntry) : Bool :=
  let normalizedPath := toLowerCase (getNormalizedZipPath entry.filename)
  normalizedPath = lowerContainerName || ('/' :: lowerContainerName).isSuffixOf normalizedPath

def isPackage (entry : ZipEntry) : Bool :=
  !entry.directory && ".opf".toList.isSuffixOf (toLowerCase (getNormalizedZipPath entry.filename))

/-- `s.lastIndexOf(t)`, or nothing. -/
def lastIndexOf (t : Text) : Text → Option Nat
  | [] => if t = [] then some 0 else none
  | c :: s => ((lastIndexOf t s).map (· + 1)).or (if t <+: c :: s then some 0 else none)

/-- `s.slice(0, s.lastIndexOf(t))` for texts of one length after another lower-casing: a missing
index is -1. -/
def sliceTo (s : Text) : Option Nat → Text
  | some i => s.take i
  | none => s.dropLast

/-- What the repair finds out about an archive before it goes through the entries. -/
structure Plan where
  needsRewrite : Bool
  rootPrefix : Text
  canonicalOpfPath : Text
  deriving DecidableEq

def plan (entries : List ZipEntry) : Option Plan :=
  let containerEntry := entries.find? isContainer
  let opfEntry := entries.find? isPackage
  let containerOpfPath := (containerEntry.bind fun entry => matchFullPath (runes entry.data)).getD []
  if containerEntry = none ∧ opfEntry = none ∧ containerOpfPath = [] then none
  else
    let containerPath := (containerEntry.map fun entry => getNormalizedZipPath entry.filename).getD []
    let opfPath := (opfEntry.map fun entry => getNormalizedZipPath entry.filename).getD []
    let sourcePath := if containerPath ≠ [] then containerPath else opfPath
    let metaInfIndex := lastIndexOf lowerContainerName (toLowerCase sourcePath)
    let rootPrefix := sliceTo containerPath metaInfIndex
    let canonicalOpfPath :=
      getCanonicalEpubPath (if containerOpfPath ≠ [] then containerOpfPath else opfPath) rootPrefix
    some ⟨containerEntry = none ∨ containerPath ≠ containerName, rootPrefix, canonicalOpfPath⟩

/-- The body of the loop over the entries, with the paths that were added. -/
def rewriteEntry (p : Plan) (s : List Entry × List Text) (entry : ZipEntry) : List Entry × List Text :=
  if entry.directory then s
  else
    let normalizedFilename := getCanonicalEpubPath entry.filename p.rootPrefix
    if normalizedFilename = [] ∨ normalizedFilename ∈ s.2 then s
    else
      let blob :=
        if normalizedFilename = containerName then encode (getContainerXml p.canonicalOpfPath)
        else entry.data
      (s.1 ++ [⟨normalizedFilename, blob⟩], s.2 ++ [normalizedFilename])

/-- The entries of the repaired archive, or nothing where the file is left as it is. -/
def normalizeEpubStructure (entries : List ZipEntry) : Option (List Entry) :=
  (plan entries).bind fun p =>
    if p.needsRewrite then
      let (rewrittenEntries, addedPaths) := entries.foldl (rewriteEntry p) ([], [])
      if containerName ∈ addedPaths then some rewrittenEntries
      else some (rewrittenEntries ++ [⟨containerName, encode (getContainerXml p.canonicalOpfPath)⟩])
    else none

/-! ## What the loop keeps -/

/-- The first file that the repair gives a path. -/
def firstFile (p : Plan) (entries : List ZipEntry) (path : Text) : Option ZipEntry :=
  entries.find? fun entry => !entry.directory && getCanonicalEpubPath entry.filename p.rootPrefix = path

/-- What the repair stores under the path of a file. -/
def blobFor (p : Plan) (path : Text) (entry : ZipEntry) : Bytes :=
  if path = containerName then encode (getContainerXml p.canonicalOpfPath) else entry.data

theorem firstFile_cons (p : Plan) (entry : ZipEntry) (entries : List ZipEntry) (path : Text) :
    firstFile p (entry :: entries) path =
      if entry.directory = false ∧ getCanonicalEpubPath entry.filename p.rootPrefix = path then some entry
      else firstFile p entries path := by
  rw [firstFile, List.find?_cons]
  by_cases h : entry.directory = false ∧ getCanonicalEpubPath entry.filename p.rootPrefix = path
  · simp [h]
  · rw [if_neg h]
    have hfalse : (!entry.directory && decide (getCanonicalEpubPath entry.filename p.rootPrefix = path)) =
        false := by
      simpa using h
    rw [hfalse]
    rfl

/-- The added paths are those of the new entries, each once, and none is blank. -/
structure Added (s : List Entry × List Text) : Prop where
  paths : s.2 = s.1.map Entry.path
  nodup : s.2.Nodup
  named : [] ∉ s.2

/-- The path that the repair gives an entry. -/
abbrev Plan.pathOf (p : Plan) (entry : ZipEntry) : Text := getCanonicalEpubPath entry.filename p.rootPrefix

theorem rewriteEntry_cases (p : Plan) (s : List Entry × List Text) (entry : ZipEntry) :
    (entry.directory = true ∨ p.pathOf entry = [] ∨ p.pathOf entry ∈ s.2) ∧ rewriteEntry p s entry = s ∨
      (entry.directory = false ∧ p.pathOf entry ≠ [] ∧ p.pathOf entry ∉ s.2) ∧
        rewriteEntry p s entry =
          (s.1 ++ [⟨p.pathOf entry, blobFor p (p.pathOf entry) entry⟩], s.2 ++ [p.pathOf entry]) := by
  by_cases hdir : entry.directory = true
  · exact .inl ⟨.inl hdir, by rw [rewriteEntry, if_pos hdir]⟩
  · by_cases hskip : p.pathOf entry = [] ∨ p.pathOf entry ∈ s.2
    · refine .inl ⟨.inr hskip, ?_⟩
      simp only [rewriteEntry, if_neg hdir, if_pos hskip]
    · obtain ⟨hname, hfresh⟩ := not_or.mp hskip
      refine .inr ⟨⟨Bool.eq_false_iff.mpr hdir, hname, hfresh⟩, ?_⟩
      simp only [rewriteEntry, if_neg hdir, if_neg hskip, blobFor]

theorem rewriteEntry_added (p : Plan) {s : List Entry × List Text} (h : Added s) (entry : ZipEntry) :
    Added (rewriteEntry p s entry) := by
  obtain ⟨-, hstep⟩ | ⟨⟨-, hname, hfresh⟩, hstep⟩ := rewriteEntry_cases p s entry
  · rw [hstep]
    exact h
  · rw [hstep]
    refine ⟨by simp [h.paths], ?_, ?_⟩
    · refine List.nodup_append'.mpr ⟨h.nodup, List.nodup_singleton _, ?_⟩
      exact List.disjoint_singleton.mpr hfresh
    · intro hmem
      obtain hmem | hmem := List.mem_append.mp hmem
      · exact h.named hmem
      · exact hname (List.mem_singleton.mp hmem).symm

/-- The loop adds the first file of each path that was not there before. -/
theorem rewriteEntries_mem (p : Plan) (entries : List ZipEntry) {s : List Entry × List Text} (h : Added s) :
    Added (entries.foldl (rewriteEntry p) s) ∧ ∀ path blob,
      (⟨path, blob⟩ ∈ (entries.foldl (rewriteEntry p) s).1 ↔
        ⟨path, blob⟩ ∈ s.1 ∨
          path ∉ s.2 ∧ path ≠ [] ∧ ∃ entry, firstFile p entries path = some entry ∧
            blobFor p path entry = blob) := by
  induction entries generalizing s with
  | nil => exact ⟨h, by simp [firstFile]⟩
  | cons entry entries ih =>
      obtain ⟨hadded, hmem⟩ := ih (rewriteEntry_added p h entry)
      refine ⟨hadded, fun path blob => ?_⟩
      rw [List.foldl_cons, hmem, firstFile_cons]
      obtain ⟨hskip, hstep⟩ | ⟨⟨hfile, hname, hfresh⟩, hstep⟩ := rewriteEntry_cases p s entry
      · rw [hstep]
        refine or_congr_right (and_congr_right fun hpath => and_congr_right fun hne => ?_)
        rw [if_neg]
        rintro ⟨hfile, rfl⟩
        obtain hdir | hblank | hold := hskip
        · rw [hfile] at hdir
          cases hdir
        · exact hne hblank
        · exact hpath hold
      · rw [hstep]
        by_cases hsame : p.pathOf entry = path
        · rw [if_pos ⟨hfile, hsame⟩]
          subst hsame
          simp only [List.mem_append, List.mem_singleton, Entry.mk.injEq, true_and, not_true_eq_false,
            or_true, false_and, or_false, Option.some.injEq, exists_eq_left', hfresh, hname, ne_eq,
            not_false_eq_true, eq_comm]
        · rw [if_neg fun hboth => hsame hboth.2]
          simp only [List.mem_append, List.mem_singleton, Entry.mk.injEq, Ne.symm hsame, false_and,
            or_false]

/-- What the repaired archive holds under a path. -/
def contentAt (p : Plan) (entries : List ZipEntry) (path : Text) : Option Bytes :=
  if path = [] then none
  else if path = containerName then some (encode (getContainerXml p.canonicalOpfPath))
  else (firstFile p entries path).map ZipEntry.data

theorem normalizeEpubStructure_spec {entries : List ZipEntry} {p : Plan} (hplan : plan entries = some p)
    {out : List Entry} (hout : normalizeEpubStructure entries = some out) :
    (out.map Entry.path).Nodup ∧
      ∀ path blob, ⟨path, blob⟩ ∈ out ↔ contentAt p entries path = some blob := by
  simp only [normalizeEpubStructure, hplan, Option.bind_some] at hout
  split at hout
  · have hempty : Added (([], []) : List Entry × List Text) := ⟨rfl, List.nodup_nil, by simp⟩
    obtain ⟨hadded, hmem⟩ := rewriteEntries_mem p entries hempty
    have hfirst : ∀ path, path ≠ [] → path ≠ containerName → ∀ blob,
        ⟨path, blob⟩ ∈ (entries.foldl (rewriteEntry p) ([], [])).1 ↔
          contentAt p entries path = some blob := by
      intro path hpath hother blob
      rw [hmem, contentAt, if_neg hpath, if_neg hother, Option.map_eq_some_iff]
      simp [hpath, blobFor, hother]
    have hcontainer : ∀ blob, ⟨containerName, blob⟩ ∈ (entries.foldl (rewriteEntry p) ([], [])).1 →
        blob = encode (getContainerXml p.canonicalOpfPath) := by
      intro blob hblob
      obtain h | ⟨-, -, entry, -, h⟩ := (hmem _ _).mp hblob
      · simp at h
      · rw [blobFor, if_pos rfl] at h
        exact h.symm
    have hblank : ∀ blob, ⟨[], blob⟩ ∉ (entries.foldl (rewriteEntry p) ([], [])).1 := by
      intro blob hblob
      refine hadded.named ?_
      rw [hadded.paths]
      exact List.mem_map_of_mem hblob
    have hpaths := hadded.paths
    have hnodup := hadded.nodup
    have hnone : contentAt p entries [] = none := if_pos rfl
    have hsome : contentAt p entries containerName =
      some (encode (getContainerXml p.canonicalOpfPath)) := rfl
    by_cases hthere : containerName ∈ (entries.foldl (rewriteEntry p) ([], [])).2
    · simp only [if_pos hthere, Option.some.injEq] at hout
      subst hout
      rw [hpaths] at hnodup hthere
      refine ⟨hnodup, fun path blob => ?_⟩
      by_cases hpath : path = []
      · subst hpath
        simp [hblank, hnone]
      by_cases hother : path = containerName
      · subst hother
        rw [hsome, Option.some.injEq]
        constructor
        · exact fun h => (hcontainer blob h).symm
        · rintro rfl
          obtain ⟨⟨path, blob⟩, hmem, hpath⟩ := List.mem_map.mp hthere
          simp only at hpath
          subst hpath
          exact hcontainer blob hmem ▸ hmem
      · exact hfirst path hpath hother blob
    · simp only [if_neg hthere, Option.some.injEq] at hout
      subst hout
      rw [hpaths] at hnodup hthere
      refine ⟨?_, fun path blob => ?_⟩
      · rw [List.map_append, List.map_singleton]
        exact List.nodup_append'.mpr ⟨hnodup, List.nodup_singleton _, List.disjoint_singleton.mpr hthere⟩
      · rw [List.mem_append, List.mem_singleton, Entry.mk.injEq]
        by_cases hpath : path = []
        · subst hpath
          have hne : ([] : Text) ≠ containerName := by decide
          simp [hblank, hnone, hne]
        by_cases hother : path = containerName
        · subst hother
          have hmissing : ⟨containerName, blob⟩ ∉ (entries.foldl (rewriteEntry p) ([], [])).1 :=
            fun hmem => hthere (List.mem_map_of_mem hmem)
          rw [hsome, Option.some.injEq]
          simp [hmissing, eq_comm]
        · rw [hfirst path hpath hother blob]
          simp [hother]
  · cases hout

/-! ## When the repaired package is found -/

/-- The folder that holds the META-INF folder of a container file. -/
def folderOf (container : ZipEntry) : Text :=
  let path := getNormalizedZipPath container.filename
  path.take (path.length - containerName.length)

/-- The path of an entry without the folder. -/
def relativePath (folder : Text) (entry : ZipEntry) : Text :=
  getNormalizedZipPath ((getNormalizedZipPath entry.filename).drop folder.length)

/-- A file of the folder other than a container file. -/
def InFolder (folder : Text) (entry : ZipEntry) : Prop :=
  entry.directory = false ∧ folder <+: getNormalizedZipPath entry.filename ∧
    relativePath folder entry ≠ [] ∧ toLowerCase (relativePath folder entry) ≠ lowerContainerName

instance (folder : Text) (entry : ZipEntry) : Decidable (InFolder folder entry) :=
  inferInstanceAs (Decidable (_ ∧ _ ∧ _ ∧ _))

/-- A container file names a file of the archive, as an XML reader reads it. -/
def Names (fullPath : Text → Option Text) (container : ZipEntry) (entries : List ZipEntry)
    (package : ZipEntry) : Prop :=
  package ∈ entries ∧ package.directory = false ∧ ∃ path, fullPath (runes container.data) = some path ∧
    (package.filename = path ∨ getNormalizedZipPath package.filename = folderOf container ++ path)

/-- What a repaired archive should be. -/
def Repaired (fullPath : Text → Option Text) (container package : ZipEntry) (entries : List ZipEntry)
    (out : List Entry) : Prop :=
  out.countP (fun entry => entry.path = containerName) = 1 ∧
    (∃ document, ⟨containerName, document⟩ ∈ out ∧ ∃ path, fullPath (runes document) = some path ∧
      ⟨path, package.data⟩ ∈ out) ∧
    ∀ entry ∈ entries, InFolder (folderOf container) entry →
      ⟨relativePath (folderOf container) entry, entry.data⟩ ∈ out

/-- What the repair drops from the beginning of a name: the folder, and one character more for
each capital I with a dot, which is two characters in small letters. -/
def droppedPrefix (container : ZipEntry) : Text :=
  let path := getNormalizedZipPath container.filename
  path.take (path.length + path.count 'İ' - containerName.length)

/-- What is taken for the path of the package file: the text of the container file, with its
references as they stand, or the first name of a package file. -/
def pathText (container : ZipEntry) (entries : List ZipEntry) : Text :=
  match matchFullPath (runes container.data) with
  | some path => path
  | none => ((entries.find? isPackage).map fun entry => getNormalizedZipPath entry.filename).getD []

/-- The first file of the archive whose name has a canonical form. -/
def fileNamed (dropped : Text) (entries : List ZipEntry) (path : Text) : Option ZipEntry :=
  entries.find? fun entry => !entry.directory && getCanonicalEpubPath entry.filename dropped = path

/-- The text of the container file, made canonical like a name and read as an attribute, is the
canonical name of a file with the content of the package file; a package file that is itself
the container file has to be the new document already. No other file of the folder has its
canonical name from an earlier file, or another one than its path in the folder. -/
structure Repairable (container package : ZipEntry) (entries : List ZipEntry) : Prop where
  package : ∃ path,
    normalizeAttribute
      (getCanonicalEpubPath (pathText container entries) (droppedPrefix container)) = some path ∧
      if path = containerName then
        encode (getContainerXml
          (getCanonicalEpubPath (pathText container entries) (droppedPrefix container))) =
          package.data
      else
        path ≠ [] ∧
          (fileNamed (droppedPrefix container) entries path).map ZipEntry.data = some package.data
  files : ∀ entry ∈ entries, InFolder (folderOf container) entry →
    (fileNamed (droppedPrefix container) entries
      (relativePath (folderOf container) entry)).map ZipEntry.data =
      some entry.data

/-! ## What the repair finds out -/

theorem toLowerCase_append (s t : Text) : toLowerCase (s ++ t) = toLowerCase s ++ toLowerCase t :=
  List.flatMap_append

theorem length_toLowerCase (s : Text) : (toLowerCase s).length = s.length + s.count 'İ' := by
  induction s with
  | nil => rfl
  | cons c s ih =>
      have hcons : toLowerCase (c :: s) = toLowerCase [c] ++ toLowerCase s := toLowerCase_append [c] s
      rw [hcons, List.length_append, ih, List.length_cons, List.count_cons]
      by_cases hc : c = 'İ'
      · subst hc
        have hdot : (toLowerCase ['İ']).length = 2 := rfl
        rw [hdot, if_pos (by simp)]
        omega
      · have hone : (toLowerCase [c]).length = 1 := by simp [toLowerCase, hc]
        rw [hone, if_neg (by simpa using hc)]
        omega

theorem lastIndexOf_short {t s : Text} (h : s.length < t.length) : lastIndexOf t s = none := by
  induction s with
  | nil =>
      rw [lastIndexOf, if_neg]
      rintro rfl
      exact absurd h (by simp)
  | cons c s ih =>
      rw [lastIndexOf, ih (by simp at h; omega), if_neg]
      · rfl
      · intro hprefix
        exact absurd hprefix.length_le (by omega)

theorem lastIndexOf_append (s : Text) {t : Text} (ht : t ≠ []) :
    lastIndexOf t (s ++ t) = some s.length := by
  induction s with
  | nil =>
      obtain ⟨c, t, rfl⟩ := List.exists_cons_of_ne_nil ht
      rw [List.nil_append, lastIndexOf, lastIndexOf_short (by simp), if_pos (List.prefix_refl _)]
      rfl
  | cons c s ih =>
      rw [List.cons_append, lastIndexOf, ih]
      rfl

theorem matchFullPath_ne_nil {s path : Text} (h : matchFullPath s = some path) : path ≠ [] := by
  induction s with
  | nil => cases h
  | cons c s ih =>
      rw [matchFullPath, Option.or_eq_some_iff] at h
      obtain h | ⟨-, h⟩ := h
      · rw [fullPathHere] at h
        split at h
        · split at h
          · split at h
            · dsimp only at h
              split at h
              · next hpath => exact Option.some.inj h ▸ hpath.2.1
              · cases h
            · cases h
          · cases h
        · cases h
      · exact ih h

theorem suffix_of_isContainer {container : ZipEntry} (h : isContainer container = true) :
    lowerContainerName <:+ toLowerCase (getNormalizedZipPath container.filename) := by
  simp only [isContainer, Bool.or_eq_true, decide_eq_true_eq, List.isSuffixOf_iff_suffix] at h
  obtain h | h := h
  · rw [h]
  · exact (List.suffix_cons _ _).trans h

/-- The prefix that is cut at the index of the small letters. -/
theorem sliceTo_eq {container : ZipEntry} (h : isContainer container = true) :
    sliceTo (getNormalizedZipPath container.filename)
        (lastIndexOf lowerContainerName (toLowerCase (getNormalizedZipPath container.filename))) =
      droppedPrefix container := by
  obtain ⟨start, hstart⟩ := suffix_of_isContainer h
  have hlength := congrArg List.length hstart
  rw [length_toLowerCase, List.length_append] at hlength
  have hname : lowerContainerName.length = containerName.length := by decide +kernel
  have hindex : start.length = (getNormalizedZipPath container.filename).length +
      (getNormalizedZipPath container.filename).count 'İ' - containerName.length := by omega
  have hne : lowerContainerName ≠ [] := by decide +kernel
  rw [← hstart, lastIndexOf_append start hne, sliceTo, hindex, droppedPrefix]

theorem plan_eq {entries : List ZipEntry} {container : ZipEntry}
    (hcontainer : entries.find? isContainer = some container) :
    plan entries = some
      ⟨getNormalizedZipPath container.filename ≠ containerName, droppedPrefix container,
        getCanonicalEpubPath (pathText container entries) (droppedPrefix container)⟩ := by
  have hfound : isContainer container = true := List.find?_some hcontainer
  have hpath : getNormalizedZipPath container.filename ≠ [] := by
    intro hnil
    have hsuffix := suffix_of_isContainer hfound
    rw [hnil] at hsuffix
    exact absurd (List.suffix_nil.mp hsuffix) (by decide)
  have htext : (if (matchFullPath (runes container.data)).getD [] ≠ [] then
        (matchFullPath (runes container.data)).getD []
      else ((entries.find? isPackage).map fun entry => getNormalizedZipPath entry.filename).getD []) =
      pathText container entries := by
    rw [pathText]
    cases hmatch : matchFullPath (runes container.data) with
    | none => rfl
    | some path => exact if_pos (matchFullPath_ne_nil hmatch)
  simp only [plan, hcontainer, reduceCtorEq, false_and, if_false, Option.bind_some, Option.map_some,
    Option.getD_some, ne_eq, hpath, not_false_eq_true, if_true, sliceTo_eq hfound, false_or, ← htext]

theorem escapedPath_eq (path : Text) : escapedPath path = path.flatMap escapeChar := by
  induction path with
  | nil => rfl
  | cons c path ih =>
      have hcons : escapedPath (c :: path) = escapedPath [c] ++ escapedPath path := by
        simp only [escapedPath, replaceAll, List.flatMap_cons, List.flatMap_append, List.flatMap_nil,
          List.append_nil]
      rw [hcons, ih, List.flatMap_cons]
      congr 1
      rw [escapeChar]
      split_ifs with hamp hquot hlt hgt
      · subst hamp; rfl
      · subst hquot; rfl
      · subst hlt; rfl
      · subst hgt; rfl
      · simp [escapedPath, replaceAll, hamp, hquot, hlt, hgt]

theorem quote_not_mem_escapedPath (path : Text) : '"' ∉ escapedPath path := by
  rw [escapedPath_eq, List.mem_flatMap]
  rintro ⟨c, -, hc⟩
  rw [escapeChar] at hc
  split_ifs at hc with hamp hquot
  · simp at hc
  · simp at hc
  · simp at hc
  · simp at hc
  · exact hquot (List.mem_singleton.mp hc).symm

theorem relativePath_ne {folder : Text} {entry : ZipEntry} (h : InFolder folder entry) :
    relativePath folder entry ≠ containerName := by
  intro heq
  exact h.2.2.2 (by rw [heq]; decide +kernel)

theorem droppedPrefix_eq {container : ZipEntry} (h : 'İ' ∉ getNormalizedZipPath container.filename) :
    droppedPrefix container = folderOf container := by
  rw [droppedPrefix, folderOf, List.count_eq_zero_of_not_mem h, Nat.add_zero]

/-- A file of the folder gets its path in the folder. -/
theorem canonical_of_inFolder {folder : Text} {entry : ZipEntry} (h : InFolder folder entry) :
    getCanonicalEpubPath entry.filename folder = relativePath folder entry := by
  have hdrop : (if folder ≠ [] ∧ folder <+: getNormalizedZipPath entry.filename then
      (getNormalizedZipPath entry.filename).drop folder.length else getNormalizedZipPath entry.filename) =
      (getNormalizedZipPath entry.filename).drop folder.length := by
    by_cases hnil : folder = []
    · rw [if_neg fun hboth => hboth.1 hnil, hnil]
      rfl
    · rw [if_pos ⟨hnil, h.2.1⟩]
  rw [getCanonicalEpubPath, hdrop]
  exact if_neg h.2.2.2

theorem fileNamed_of_distinct {dropped : Text} {entries : List ZipEntry}
    (hdistinct : ∀ a ∈ entries, ∀ b ∈ entries, a.directory = false → b.directory = false →
      getCanonicalEpubPath a.filename dropped = getCanonicalEpubPath b.filename dropped → a = b)
    {entry : ZipEntry} (hentry : entry ∈ entries) (hfile : entry.directory = false) :
    fileNamed dropped entries (getCanonicalEpubPath entry.filename dropped) = some entry := by
  cases hfound : fileNamed dropped entries (getCanonicalEpubPath entry.filename dropped) with
  | none =>
      have hnone := List.find?_eq_none.mp hfound entry hentry
      simp [hfile] at hnone
  | some other =>
      have hother := List.find?_some hfound
      simp only [Bool.and_eq_true, Bool.not_eq_true', decide_eq_true_eq] at hother
      rw [hdistinct other (List.mem_of_find?_eq_some hfound) entry hentry hother.1 hfile hother.2]

/-- Archives are repairable whose files have different canonical names, when the text of the
container file holds no reference and leads to the package file. -/
theorem repairable_of_distinct {container package : ZipEntry} {entries : List ZipEntry}
    (hfolder : 'İ' ∉ getNormalizedZipPath container.filename)
    (hdistinct : ∀ a ∈ entries, ∀ b ∈ entries, a.directory = false → b.directory = false →
      getCanonicalEpubPath a.filename (folderOf container) =
        getCanonicalEpubPath b.filename (folderOf container) →
      a = b)
    (hpackage : package ∈ entries) (hfile : InFolder (folderOf container) package)
    (htext : getCanonicalEpubPath (pathText container entries) (folderOf container) =
      relativePath (folderOf container) package)
    (hplain : ∀ c ∈ relativePath (folderOf container) package, isPlain c = true) :
    Repairable container package entries := by
  have hfound : ∀ entry ∈ entries, InFolder (folderOf container) entry →
      (fileNamed (folderOf container) entries (relativePath (folderOf container) entry)).map ZipEntry.data =
        some entry.data := by
    intro entry hentry hin
    rw [← canonical_of_inFolder hin, fileNamed_of_distinct hdistinct hentry hin.1]
    rfl
  constructor
  · refine ⟨relativePath (folderOf container) package, ?_, ?_⟩
    · rw [droppedPrefix_eq hfolder, htext, normalizeAttribute_plain hplain]
    · rw [if_neg (relativePath_ne hfile), droppedPrefix_eq hfolder]
      exact ⟨hfile.2.2.1, hfound package hpackage hfile⟩
  · rw [droppedPrefix_eq hfolder]
    exact hfound

/-! ## Examples -/

/-- A reader that looks for the first attribute of that name. -/
def scanFullPath : Text → Option Text
  | [] => none
  | c :: s =>
      if "full-path=\"".toList.isPrefixOf (c :: s) then
        decodeAttribute (((c :: s).drop 11).takeWhile fun d => d ≠ '"')
      else scanFullPath s

set_option maxRecDepth 4000 in
theorem scanFullPath_containerDocument (value : Text) (h : '"' ∉ value) :
    scanFullPath (containerDocument value) = decodeAttribute value := by
  have hscan : scanFullPath (containerStart ++ (value ++ containerEnd)) =
      decodeAttribute ((value ++ containerEnd).takeWhile fun d => d ≠ '"') := by
    rfl
  rw [containerDocument, List.append_assoc, hscan, List.takeWhile_append_of_pos]
  · have hend : containerEnd.takeWhile (fun d => decide (d ≠ '"')) = [] := rfl
    rw [hend, List.append_nil]
  · intro c hc
    exact decide_eq_true fun hq => h (hq ▸ hc)

def textFile (name content : String) : ZipEntry := ⟨name.toList, false, encode content.toList⟩

def nestedContainer (path : String) : ZipEntry :=
  textFile "Book/META-INF/container.xml" ("<rootfile full-path=\"" ++ path ++ "\"/>")

/-- A book in a folder, whose package file has the given path in the container file. -/
def nested (path : String) (package : ZipEntry) : List ZipEntry :=
  [nestedContainer path, package, textFile "Book/OEBPS/a.html" "a"]

def plainPackage : ZipEntry := textFile "Book/OEBPS/b.opf" "b"

def ampersandPackage : ZipEntry := textFile "Book/OEBPS/a&b.opf" "b"

instance (fullPath : Text → Option Text) (container : ZipEntry) (entries : List ZipEntry)
    (package : ZipEntry) : Decidable (Names fullPath container entries package) :=
  decidable_of_iff (package ∈ entries ∧ package.directory = false ∧
    ((fullPath (runes container.data)).any fun path => package.filename = path ∨
      getNormalizedZipPath package.filename = folderOf container ++ path) = true)
    (by simp [Names, Option.any_eq_true])

end ZReader.Frontend.EpubRepair
