import ZReader.Backup.Archive

namespace ZReader.Backup

open Lib.Utf8 Lib.Faults Lib.Files Lib.LexicalPath
open Storage (Time ascii)

/-- The turns in which nothing fails. -/
def Smooth (w : Turn) : Prop := w.ok = true

section Calls

variable {α : Type} {turns : Turn → Prop} {P : Disk → Prop} {Q : α → Disk → Prop} {E : Disk → Prop}

theorem call_triple {f : Turn → Disk → Option (α × Disk)}
    (hok : ∀ w s a s', P s → f w s = some (a, s') → Q a s') (herror : ∀ s, P s → E s) :
    Triple turns P (call f) Q E := by
  apply Triple.operation
  · intro w s a s' _ hs h
    split at h
    · next heq =>
      cases h
      exact hok w s _ _ hs heq
    · cases h
  · intro w s e s' _ hs h
    split at h
    · cases h
    · cases h
      exact herror s hs

/-- A call that nothing stands against succeeds in a smooth run. -/
theorem call_smooth {f : Turn → Disk → Option (α × Disk)}
    (h : ∀ w s, P s → ∃ a s', f w s = some (a, s') ∧ Q a s') : Triple Smooth P (call f) Q E := by
  apply Triple.operation
  · intro w s a s' hw hs heq
    obtain ⟨b, t, hf, hQ⟩ := h w s hs
    rw [Smooth] at hw
    simp only [hw, hf] at heq
    cases heq
    exact hQ
  · intro w s e s' hw hs heq
    obtain ⟨b, t, hf, -⟩ := h w s hs
    rw [Smooth] at hw
    simp only [hw, hf] at heq
    cases heq

end Calls

variable {turns : Turn → Prop} {fs : Disk} {p d : Path} {lib : Libraries}

theorem fileAt_eq_some {content : Bytes} :
    fileAt fs p = some content ↔ fs.node p = some (.file content) := by
  rw [fileAt]
  split
  · next c h => rw [h, Option.some.injEq, Option.some.injEq, Node.file.injEq]
  · next h =>
    constructor
    · nofun
    · intro heq
      exact absurd heq (h content)

theorem readFile_spec (p : Path) : Triple turns (· = fs) (readFile p)
    (fun content s => s = fs ∧ fileAt fs p = some content) (· = fs) := by
  apply call_triple
  · rintro w s content s' rfl h
    obtain ⟨c, hc, heq⟩ := Option.map_eq_some_iff.mp h
    cases heq
    exact ⟨rfl, hc⟩
  · exact fun s hs => hs

theorem readFile_smooth {content : Bytes} (h : fileAt fs p = some content) {E : Disk → Prop} :
    Triple Smooth (· = fs) (readFile p) (fun c s => s = fs ∧ c = content) E := by
  apply call_smooth
  rintro w s rfl
  exact ⟨content, s, by rw [h]; rfl, rfl, rfl⟩

theorem close_spec {P : Disk → Prop} : Triple turns P close (fun _ => P) P := by
  apply call_triple
  · rintro w s _ s' hs heq
    cases heq
    exact hs
  · exact fun _ => id

theorem close_smooth {P E : Disk → Prop} : Triple Smooth P close (fun _ => P) E :=
  call_smooth fun _ s hs => ⟨(), s, rfl, hs⟩

theorem map_eq_bind {α β : Type} (g : α → β) (m : Program α) :
    g <$> m = m >>= fun a => pure (g a) := rfl

/-! ## What a verification checks -/

structure EntryHolds (lib : Libraries) (fs : Disk) (d : Path) (entry : Bytes × Bytes) : Prop where
  safe : safeRelativePath entry.1 = true
  content : ∃ c, fileAt fs (d ++ cleanParts entry.1) = some c ∧ lib.sha256 c = entry.2

def SnapshotOpens (lib : Libraries) (fs : Disk) (d : Path) (name : Bytes) : Prop :=
  ∃ c, fileAt fs (d ++ [name]) = some c ∧ lib.opens c = true

structure ManifestHolds (lib : Libraries) (fs : Disk) (d : Path) (manifest : Manifest) : Prop where
  found : ∃ data, fileAt fs (d ++ [manifestName]) = some data ∧ lib.unmarshal data = some manifest
  dated : manifest.createdAt ≠ .zero
  files : manifest.files ≠ []
  entries : ∀ entry ∈ manifest.files, EntryHolds lib fs d entry
  snapshots : ∀ name ∈ [dataName, sessionsName], SnapshotOpens lib fs d name

theorem checkEntry_spec (entry : Bytes × Bytes) : Triple turns (· = fs) (checkEntry lib d entry)
    (fun _ s => s = fs ∧ EntryHolds lib fs d entry) (· = fs) := by
  rw [checkEntry]
  split
  · exact Triple.raise _
  · next hsafe =>
    rw [Bool.not_eq_false] at hsafe
    rw [fileSHA256, map_eq_bind]
    apply Triple.seq (Q := fun actual s => s = fs ∧
      ∃ c, fileAt fs (d ++ cleanParts entry.1) = some c ∧ lib.sha256 c = actual)
    · apply (readFile_spec _).seq
      intro c
      exact (Triple.ret (lib.sha256 c)).pre fun s hs => ⟨hs.1, c, hs.2, rfl⟩
    · intro actual
      split
      · exact (Triple.raise _).pre fun s hs => hs.1
      · next heq =>
        rw [not_not] at heq
        refine (Triple.ret ()).pre fun s hs => ⟨hs.1, hsafe, ?_⟩
        rw [← heq]
        exact hs.2

theorem openSnapshot_spec (name : Bytes) : Triple turns (· = fs) (openSnapshot lib d name)
    (fun _ s => s = fs ∧ SnapshotOpens lib fs d name) (· = fs) := by
  apply ((readFile_spec _).context _).seq
  intro content
  split
  · exact (Triple.raise _).pre fun s hs => hs.1
  · next hopens =>
    rw [Bool.not_eq_false] at hopens
    apply (close_spec (P := fun s => s = fs ∧ SnapshotOpens lib fs d name)).mono
    · exact fun s hs => ⟨hs.1, content, hs.2, hopens⟩
    · exact fun _ s hs => hs
    · exact fun s hs => hs.1

/-- A loop of checks leaves everything as it is and passes where each check does. -/
theorem fold_checks {β : Type} {body : Unit → β → Program Unit} {holds : β → Prop}
    (hbody : ∀ b, Triple turns (· = fs) (body () b) (fun _ s => s = fs ∧ holds b) (· = fs))
    (l : List β) : Triple turns (· = fs) (.fold body () l) (fun _ s => s = fs ∧ ∀ b ∈ l, holds b)
      (· = fs) := by
  refine (Triple.fold (fun done _ s => s = fs ∧ ∀ b ∈ done, holds b) ?_ ()).pre ?_
  · intro done b rest _ a
    apply Triple.of_state
    rintro s ⟨rfl, hdone⟩
    refine (hbody b).post fun _ s hs => ⟨hs.1, ?_⟩
    intro c hc
    rcases List.mem_append.mp hc with hc | hc
    · exact hdone c hc
    · rw [List.mem_singleton.mp hc]
      exact hs.2
  · rintro s rfl
    exact ⟨rfl, by simp⟩

theorem verify_spec (d : Path) : Triple turns (· = fs) (verify lib d)
    (fun _ s => s = fs ∧ ∃ manifest, ManifestHolds lib fs d manifest) (· = fs) := by
  apply (readFile_spec _).seq
  intro data
  apply Triple.of_state
  rintro s ⟨rfl, hdata⟩
  split
  · exact Triple.raise _
  · next manifest hmanifest =>
    split
    · exact Triple.raise _
    · next hvalid =>
      rw [not_or] at hvalid
      apply (fold_checks (fun entry => checkEntry_spec entry) manifest.files).seq
      intro _
      apply Triple.of_state
      rintro s ⟨rfl, hentries⟩
      refine (fold_checks (fun name => openSnapshot_spec name) [dataName, sessionsName]).post ?_
      exact fun _ s hs => ⟨hs.1, manifest, ⟨data, hdata, hmanifest⟩, hvalid.1, hvalid.2, hentries, hs.2⟩

theorem checkEntry_smooth {entry : Bytes × Bytes} (h : EntryHolds lib fs d entry) :
    Triple Smooth (· = fs) (checkEntry lib d entry) (fun _ s => s = fs) (fun _ => False) := by
  obtain ⟨hsafe, content, hcontent, hdigest⟩ := h
  rw [checkEntry, if_neg (by simp [hsafe]), fileSHA256, map_eq_bind]
  apply Triple.seq (Q := fun actual s => s = fs ∧ actual = entry.2)
  · apply (readFile_smooth hcontent).seq
    intro c
    refine (Triple.ret (lib.sha256 c)).pre ?_
    rintro s ⟨hs, rfl⟩
    exact ⟨hs, hdigest⟩
  · intro actual
    apply Triple.of_state
    rintro s ⟨rfl, rfl⟩
    rw [if_neg (not_not_intro rfl)]
    exact Triple.ret (Q := fun _ t => t = s) ()

theorem openSnapshot_smooth {name : Bytes} (h : SnapshotOpens lib fs d name) :
    Triple Smooth (· = fs) (openSnapshot lib d name) (fun _ s => s = fs) (fun _ => False) := by
  obtain ⟨content, hcontent, hopens⟩ := h
  apply ((readFile_smooth hcontent).context _).seq
  intro c
  apply Triple.of_state
  rintro s ⟨rfl, rfl⟩
  rw [if_neg (by simp [hopens])]
  exact close_smooth

theorem fold_smooth {β : Type} {body : Unit → β → Program Unit} {l : List β}
    (hbody : ∀ b ∈ l, Triple Smooth (· = fs) (body () b) (fun _ s => s = fs) (fun _ => False)) :
    Triple Smooth (· = fs) (.fold body () l) (fun _ s => s = fs) (fun _ => False) := by
  apply Triple.fold fun _ _ s => s = fs
  intro done b rest hl a
  exact hbody b (by simp [hl])

theorem verify_smooth {manifest : Manifest} (h : ManifestHolds lib fs d manifest) :
    Triple Smooth (· = fs) (verify lib d) (fun _ s => s = fs) (fun _ => False) := by
  obtain ⟨data, hdata, hmanifest⟩ := h.found
  apply (readFile_smooth hdata).seq
  intro c
  apply Triple.of_state
  rintro s ⟨rfl, rfl⟩
  rw [hmanifest]
  dsimp only
  rw [if_neg (not_or.mpr ⟨h.dated, h.files⟩)]
  apply (fold_smooth fun entry hentry => checkEntry_smooth (h.entries entry hentry)).seq
  exact fun _ => fold_smooth fun name hname => openSnapshot_smooth (h.snapshots name hname)

/-! ## What is restored and what is listed -/

/-- A file that `Restore` puts in place: a database, or what is below the uploads. -/
def Installs (fs : Disk) (d : Path) (k : Path) (content : Bytes) : Prop :=
  fileAt fs (d ++ k) = some content ∧
    (k = [dataName] ∨ k = [sessionsName] ∨ ∃ r, r ≠ [] ∧ k = uploadsName :: r)

/-- The manifest of the directory has an entry for the path. -/
def Names (lib : Libraries) (fs : Disk) (d : Path) (k : Path) : Prop :=
  ∃ data manifest, fileAt fs (d ++ [manifestName]) = some data ∧
    lib.unmarshal data = some manifest ∧ ∃ entry ∈ manifest.files, cleanParts entry.1 = k

/-- The manifest of the directory has the path with the digest. -/
def Lists (lib : Libraries) (fs : Disk) (d : Path) (k : Path) (digest : Bytes) : Prop :=
  ∃ data manifest, fileAt fs (d ++ [manifestName]) = some data ∧
    lib.unmarshal data = some manifest ∧ ∃ entry ∈ manifest.files,
      cleanParts entry.1 = k ∧ entry.2 = digest

/-- What a verified manifest names has the digest it is listed with. -/
theorem lists_of_names {script : ℕ → Turn} {n : ℕ} (h : (verify lib d script n fs).1 = .ok ())
    {k : Path} {content : Bytes} (hcontent : fileAt fs (d ++ k) = some content)
    (hnames : Names lib fs d k) : Lists lib fs d k (lib.sha256 content) := by
  obtain ⟨data, manifest, hdata, hmanifest, entry, hentry, rfl⟩ := hnames
  have hspec : Triple (fun _ => True) (· = fs) (verify lib d)
      (fun _ s => s = fs ∧ ∃ manifest, ManifestHolds lib fs d manifest) (· = fs) := verify_spec d
  obtain ⟨-, other, hholds⟩ := hspec.value (fun _ => trivial) rfl h
  obtain ⟨data', hdata', hmanifest'⟩ := hholds.found
  rw [hdata] at hdata'
  cases hdata'
  rw [hmanifest] at hmanifest'
  cases hmanifest'
  obtain ⟨c, hc, hdigest⟩ := (hholds.entries entry hentry).content
  rw [hcontent] at hc
  cases hc
  exact ⟨data, manifest, hdata, hmanifest, entry, hentry, rfl, hdigest.symm⟩

/-- A verified directory lists all that is restored with its present digest, exactly when
its manifest has a name for each such file. -/
theorem verified_lists_restored {script : ℕ → Turn} {n : ℕ}
    (h : (verify lib d script n fs).1 = .ok ()) :
    (∀ k content, Installs fs d k content → Lists lib fs d k (lib.sha256 content)) ↔
      ∀ k content, Installs fs d k content → Names lib fs d k := by
  constructor
  · intro hlists k content hinstalls
    obtain ⟨data, manifest, hdata, hmanifest, entry, hentry, hk, -⟩ := hlists k content hinstalls
    exact ⟨data, manifest, hdata, hmanifest, entry, hentry, hk⟩
  · intro hnames k content hinstalls
    exact lists_of_names h hinstalls.1 (hnames k content hinstalls)

/-! ## A file that is not listed -/

def sampleDigest : Bytes := ascii "7bdc25d1694ef984782a16f6f1710c1c6bc83ba7a131b515baf532bea021d011"

def sampleManifest : Manifest where
  createdAt := ⟨1704067200 * 10 ^ 9⟩
  files := [(dataName, sampleDigest), (sessionsName, sampleDigest)]

def sampleJSON : Bytes :=
  ascii "\x7b\n  \"created_at\": \"2024-01-01T00:00:00Z\",\n  \"files\": \x7b\n    \"data.db\": \"" ++
    sampleDigest ++ ascii "\",\n    \"data.db.sessions\": \"" ++ sampleDigest ++ ascii "\"\n  \x7d\n\x7d"

/-- The libraries on the contents of the sample: `db` stands for a database. -/
def sampleLibraries : Libraries where
  marshal _ := sampleJSON
  unmarshal data := if data = sampleJSON then some sampleManifest else none
  sha256 content :=
    if content = ascii "db" then sampleDigest
    else ascii "2d711642b726b04401627ca9fbac32f5c8530fb1903cc4db02258717921a4881"
  opens content := content = ascii "db"

/-- A verified backup to whose uploads a file has been added. -/
def sampleDisk : Disk :=
  let fs₁ := FileSystem.empty.put [ascii "b"] .dir (by decide)
  let fs₂ := fs₁.put [ascii "b", dataName] (.file (ascii "db")) (by decide)
  let fs₃ := fs₂.put [ascii "b", sessionsName] (.file (ascii "db")) (by decide)
  let fs₄ := fs₃.put [ascii "b", manifestName] (.file sampleJSON) (by decide)
  let fs₅ := fs₄.put [ascii "b", uploadsName] .dir (by decide)
  fs₅.put [ascii "b", uploadsName, ascii "x"] (.file (ascii "x")) (by decide)

theorem sample_verified : (verify sampleLibraries [ascii "b"] (fun _ => ⟨true, 0, []⟩) 0 sampleDisk).1 =
    .ok () := by
  have hok : (verify sampleLibraries [ascii "b"] (fun _ => ⟨true, 0, []⟩) 0 sampleDisk).1.toOption =
    some () := by decide +kernel
  cases hrun : (verify sampleLibraries [ascii "b"] (fun _ => ⟨true, 0, []⟩) 0 sampleDisk).1 with
  | ok => rfl
  | error e =>
      rw [hrun] at hok
      cases hok

/-- The file that has been added is restored and is not listed. -/
theorem added_file_is_verified : ¬ ∀ lib (fs : Disk) d script n, (verify lib d script n fs).1 = .ok () →
    ∀ k content, Installs fs d k content → Lists lib fs d k (lib.sha256 content) := by
  intro h
  have hadded : Installs sampleDisk [ascii "b"] [uploadsName, ascii "x"] (ascii "x") :=
    ⟨by decide +kernel, Or.inr (Or.inr ⟨[ascii "x"], nofun, rfl⟩)⟩
  obtain ⟨data, manifest, hdata, hmanifest, entry, hentry, hk, -⟩ :=
    h sampleLibraries sampleDisk [ascii "b"] _ 0 sample_verified _ _ hadded
  have hjson : fileAt sampleDisk [ascii "b", manifestName] = some sampleJSON := by decide +kernel
  rw [List.singleton_append, hjson, Option.some.injEq] at hdata
  have hdecoded : sampleLibraries.unmarshal sampleJSON = some sampleManifest := by
    simp only [sampleLibraries, if_true]
  rw [← hdata, hdecoded, Option.some.injEq] at hmanifest
  have hnone : ∀ entry ∈ sampleManifest.files, cleanParts entry.1 ≠ [uploadsName, ascii "x"] := by
    decide +kernel
  exact hnone entry (hmanifest ▸ hentry) hk

/-! ## A file that is listed -/

def uploadDigest : Bytes :=
  ascii "2d711642b726b04401627ca9fbac32f5c8530fb1903cc4db02258717921a4881"

def coveringManifest : Manifest where
  createdAt := sampleManifest.createdAt
  files := sampleManifest.files ++ [(ascii "uploads/x", uploadDigest)]

def coveringJSON : Bytes :=
  ascii "\x7b\n  \"created_at\": \"2024-01-01T00:00:00Z\",\n  \"files\": \x7b\n    \"data.db\": \"" ++
    sampleDigest ++ ascii "\",\n    \"data.db.sessions\": \"" ++ sampleDigest ++
    ascii "\",\n    \"uploads/x\": \"" ++ uploadDigest ++ ascii "\"\n  \x7d\n\x7d"

def coveringLibraries : Libraries :=
  { sampleLibraries with
    marshal := fun _ => coveringJSON
    unmarshal := fun data => if data = coveringJSON then some coveringManifest else none }

/-- The same backup with a manifest that covers the uploads. -/
def coveredDisk : Disk :=
  let fs₁ := FileSystem.empty.put [ascii "b"] .dir (by decide)
  let fs₂ := fs₁.put [ascii "b", dataName] (.file (ascii "db")) (by decide)
  let fs₃ := fs₂.put [ascii "b", sessionsName] (.file (ascii "db")) (by decide)
  let fs₄ := fs₃.put [ascii "b", manifestName] (.file coveringJSON) (by decide)
  let fs₅ := fs₄.put [ascii "b", uploadsName] .dir (by decide)
  fs₅.put [ascii "b", uploadsName, ascii "x"] (.file (ascii "x")) (by decide)

theorem covered_names {k : Path} {content : Bytes} (h : Installs coveredDisk [ascii "b"] k content) :
    Names coveringLibraries coveredDisk [ascii "b"] k := by
  obtain ⟨hcontent, hplace⟩ := h
  have hfiles : ∀ p ∈ coveredDisk.paths, (fileAt coveredDisk p).isSome = true →
      p.drop 1 = [manifestName] ∨ ∃ entry ∈ coveringManifest.files, cleanParts entry.1 = p.drop 1 := by
    decide +kernel
  have hnode : coveredDisk.node ([ascii "b"] ++ k) ≠ none := by
    rw [fileAt_eq_some.mp hcontent]
    nofun
  obtain hmanifest | ⟨entry, hentry, hk⟩ := hfiles _ (coveredDisk.listed _ hnode) (by rw [hcontent]; rfl)
  · have hother : ∀ name ∈ [dataName, sessionsName, uploadsName], name ≠ manifestName := by decide
    rw [List.singleton_append, List.drop_succ_cons, List.drop_zero] at hmanifest
    rcases hplace with rfl | rfl | ⟨r, -, rfl⟩
    · exact absurd (List.cons.inj hmanifest).1 (hother _ (by simp))
    · exact absurd (List.cons.inj hmanifest).1 (hother _ (by simp))
    · exact absurd (List.cons.inj hmanifest).1 (hother _ (by simp))
  · have hdecoded : coveringLibraries.unmarshal coveringJSON = some coveringManifest := by
      simp only [coveringLibraries, if_true]
    exact ⟨coveringJSON, coveringManifest, by decide +kernel, hdecoded, entry, hentry, hk⟩

/-- The upload is restored, and listed with its digest. -/
theorem covered_lists_restored :
    Installs coveredDisk [ascii "b"] [uploadsName, ascii "x"] (ascii "x") ∧
      ∀ k content, Installs coveredDisk [ascii "b"] k content →
        Lists coveringLibraries coveredDisk [ascii "b"] k (coveringLibraries.sha256 content) := by
  have hok : (verify coveringLibraries [ascii "b"] (fun _ => ⟨true, 0, []⟩) 0 coveredDisk).1.toOption =
    some () := by decide +kernel
  have hverified : (verify coveringLibraries [ascii "b"] (fun _ => ⟨true, 0, []⟩) 0 coveredDisk).1 =
      .ok () := by
    cases hrun : (verify coveringLibraries [ascii "b"] (fun _ => ⟨true, 0, []⟩) 0 coveredDisk).1 with
    | ok => rfl
    | error e =>
        rw [hrun] at hok
        cases hok
  exact ⟨⟨by decide +kernel, Or.inr (Or.inr ⟨[ascii "x"], nofun, rfl⟩)⟩,
    (verified_lists_restored hverified).mpr fun _ _ => covered_names⟩

end ZReader.Backup
