import ZReader.Backup.Copying

namespace ZReader.Backup

open Lib.Utf8 Lib.Faults Lib.Files Lib.LexicalPath
open Storage (Time ascii)

variable {turns : Turn → Prop} {fs : Disk} {lib : Libraries}

/-! ## A verified directory depends on its files alone -/

theorem fileAt_copied {s : Disk} {p q : Path} (h : Copied fs q s p) (k : Path) :
    fileAt s (p ++ k) = fileAt fs (q ++ k) := by
  rw [fileAt, fileAt, h k]

theorem manifestHolds_copied {s : Disk} {p q : Path} (h : Copied fs q s p) {manifest : Manifest}
    (hholds : ManifestHolds lib fs q manifest) : ManifestHolds lib s p manifest := by
  constructor
  · rw [fileAt_copied h]
    exact hholds.found
  · exact hholds.dated
  · exact hholds.files
  · intro entry hentry
    obtain ⟨hsafe, hcontent⟩ := hholds.entries entry hentry
    refine ⟨hsafe, ?_⟩
    rw [fileAt_copied h]
    exact hcontent
  · intro name hname
    rw [SnapshotOpens, fileAt_copied h]
    exact hholds.snapshots name hname

/-! ## What is in a backup -/

/-- The directory holds the two snapshots and the upload tree of an earlier disk, as
verified. -/
structure Backed (lib : Libraries) (fs : Disk) (uploadDir : Path) (main sessions : Bytes) (d : Path)
    (s : Disk) : Prop where
  main : s.node (d ++ [dataName]) = some (.file main)
  sessions : s.node (d ++ [sessionsName]) = some (.file sessions)
  uploads : Copied fs uploadDir s (d ++ [uploadsName])
  root : fs.node uploadDir = some .dir
  fits : Fits fs uploadDir [] maxDepth
  verified : ∃ manifest, ManifestHolds lib s d manifest

theorem backed_copied {s t : Disk} {uploadDir : Path} {main sessions : Bytes} {d e : Path}
    (h : Copied s d t e) (hbacked : Backed lib fs uploadDir main sessions d s) :
    Backed lib fs uploadDir main sessions e t := by
  constructor
  · rw [h, hbacked.main]
  · rw [h, hbacked.sessions]
  · intro k
    have huploads := hbacked.uploads k
    rw [List.append_assoc] at huploads ⊢
    rw [h, huploads]
  · exact hbacked.root
  · exact hbacked.fits
  · obtain ⟨manifest, hholds⟩ := hbacked.verified
    exact ⟨manifest, manifestHolds_copied h hholds⟩

theorem names_differ : dataName ≠ sessionsName ∧ dataName ≠ uploadsName ∧ sessionsName ≠ uploadsName ∧
    manifestName ≠ dataName ∧ manifestName ≠ sessionsName ∧ manifestName ≠ uploadsName := by
  decide

/-- Paths below different entries of a directory are different. -/
theorem entry_apart (d : Path) {a b : Bytes} (h : a ≠ b) (k : Path) : ¬ d ++ [a] <+: d ++ b :: k := by
  rw [List.prefix_append_right_inj, List.cons_prefix_cons]
  exact fun hpre => h hpre.1

/-! ## The steps of `Create` -/

theorem buildManifest_reads (root : Path) (createdAt : Time) :
    Triple turns (· = fs) (buildManifest lib root createdAt) (fun _ s => s = fs) (· = fs) := by
  have hentry : ∀ files q isDir, Triple turns (· = fs) (manifestEntry lib root files q isDir)
      (fun _ s => s = fs) (· = fs) := by
    intro files q isDir
    rw [manifestEntry]
    split
    · exact Triple.ret (Q := fun _ s => s = fs) files
    · split
      · exact Triple.raise _
      · rw [fileSHA256, map_eq_bind]
        apply Triple.seq (Q := fun _ s => s = fs)
        · apply (readFile_spec q).seq
          exact fun content => (Triple.ret (Q := fun _ s => s = fs) _).pre fun s hs => hs.1
        · exact fun digest => Triple.ret (Q := fun _ s => s = fs) _
  apply (walkDir_invariant hentry root []).seq
  exact fun files => Triple.ret (Q := fun _ s => s = fs) _

/-- A temporary name is that of nothing else. -/
theorem createTemp_spec (node : Node UInt8) (dir : Path) (pattern : Bytes) :
    Triple turns (· = fs) (createTemp node dir pattern)
      (fun p s => ∃ w, turns w ∧ p = dir ++ [pattern ++ w.name] ∧ fs.node p = none ∧
        s.node = Function.update fs.node p (some node))
      (fun s => s = fs ∧ (fs.node dir = some .dir →
        (∀ w, turns w → fs.node (dir ++ [pattern ++ w.name]) = none) → Trouble turns)) := by
  rw [createTemp, call]
  apply Triple.operation
  · rintro w s p t hw rfl heq
    split at heq
    · next hsome =>
      cases heq
      dsimp only at hsome
      split at hsome
      · next hput =>
        cases hsome
        exact ⟨w, hw, rfl, hput.1, rfl⟩
      · cases hsome
    · cases heq
  · rintro w s e t hw rfl heq
    split at heq
    · cases heq
    · next hnot =>
      cases heq
      refine ⟨rfl, fun hdir hfresh hall => ?_⟩
      have hnone := hfresh w hw
      have hput : s.CanPut (dir ++ [pattern ++ w.name]) := by
        refine ⟨by simp, ?_, ?_⟩
        · rw [List.dropLast_concat, hdir]
        · rw [hnone]
          simp
      apply hnot _ _ (hall w hw)
      dsimp only
      rw [dif_pos ⟨hnone, hput⟩]

/-- The two snapshots and the copy of the uploads. -/
structure Gathered (fs : Disk) (uploadDir : Path) (main sessions : Bytes) (d : Path) (s : Disk) : Prop where
  main : s.node (d ++ [dataName]) = some (.file main)
  sessions : s.node (d ++ [sessionsName]) = some (.file sessions)
  uploads : Copied fs uploadDir s (d ++ [uploadsName])
  fits : Fits fs uploadDir [] maxDepth

theorem gathered_wrote {uploadDir : Path} {main sessions : Bytes} {d : Path} {s t : Disk}
    (h : Gathered fs uploadDir main sessions d s) (hst : Wrote s (d ++ [manifestName]) t) :
    Gathered fs uploadDir main sessions d t := by
  obtain ⟨-, -, -, hdata, hsessions, huploads⟩ := names_differ
  have hother : ∀ b k, manifestName ≠ b → t.node (d ++ b :: k) = s.node (d ++ b :: k) := by
    intro b k hb
    apply hst.other
    intro heq
    exact entry_apart d hb k (heq ▸ List.prefix_rfl)
  constructor
  · rw [hother _ _ hdata, h.main]
  · rw [hother _ _ hsessions, h.sessions]
  · intro k
    rw [List.append_assoc, List.singleton_append, hother _ _ huploads]
    simpa using h.uploads k
  · exact h.fits

/-- A directory with the two snapshots, where the uploads are as they were. -/
structure Snapped (fs : Disk) (uploadDir : Path) (main sessions : Bytes) (d : Path) (s : Disk) : Prop where
  dir : s.node d = some .dir
  main : s.node (d ++ [dataName]) = some (.file main)
  sessions : s.node (d ++ [sessionsName]) = some (.file sessions)
  fresh : ∀ k, s.node (d ++ uploadsName :: k) = none
  source : ¬ uploadDir <+: d → Copied fs uploadDir s uploadDir

theorem snapshots_spec {uploadDir d : Path} (main sessions : Bytes) {s₀ : Disk}
    (hdir : s₀.node d = some .dir) (hnew : ∀ k, k ≠ [] → s₀.node (d ++ k) = none)
    (hapart : ¬ d <+: uploadDir) (hsource : ¬ uploadDir <+: d → Copied fs uploadDir s₀ uploadDir) :
    Triple turns (· = s₀)
      (do
        (writeFile (d ++ [dataName]) main).context (.context "snapshot main database")
        (writeFile (d ++ [sessionsName]) sessions).context (.context "snapshot session database"))
      (fun _ s => Snapped fs uploadDir main sessions d s) (fun _ => True) := by
  obtain ⟨hds, hdu, hsu, -⟩ := names_differ
  apply (((fill_spec main _).exit fun _ _ => trivial).context _).seq
  intro _
  apply Triple.of_state
  rintro s₁ ⟨hwrote₁, hmain⟩
  apply (((fill_spec sessions _).context _).mono (fun _ => id) ?_ fun _ _ => trivial)
  rintro _ s₂ ⟨hwrote₂, hsessions⟩
  have hother : ∀ q, (∀ b, b = dataName ∨ b = sessionsName → q ≠ d ++ [b]) → s₂.node q = s₀.node q := by
    intro q hq
    rw [hwrote₂.other q (hq _ (Or.inr rfl)), hwrote₁.other q (hq _ (Or.inl rfl))]
  constructor
  · rw [hother d (by simp), hdir]
  · rw [hwrote₂.other _ (by simpa using hds), hmain]
  · exact hsessions
  · intro k
    rw [hother, hnew _ (List.cons_ne_nil _ _)]
    rintro b hb heq
    have hname : uploadsName = b := by
      rw [List.append_cancel_left_eq, List.cons_eq_cons] at heq
      exact heq.1
    rcases hb with rfl | rfl
    · exact hdu hname.symm
    · exact hsu hname.symm
  · intro hnot k
    rw [hother, hsource hnot]
    rintro b - heq
    rcases List.prefix_or_prefix_of_prefix (List.prefix_append uploadDir k)
      (heq ▸ List.prefix_append d [b]) with hpre | hpre
    · exact hnot hpre
    · exact hapart hpre

/-- A copy that succeeds is not one into the uploads themselves. -/
theorem uploads_spec {uploadDir d : Path} {main sessions : Bytes}
    (hroot : fs.node uploadDir = some .dir) (hapart : ¬ d <+: uploadDir) {s₀ : Disk}
    (h : Snapped fs uploadDir main sessions d s₀) :
    Triple turns (· = s₀) (copyTree uploadDir (d ++ [uploadsName]))
      (fun _ s => Gathered fs uploadDir main sessions d s) (fun _ => True) := by
  obtain ⟨-, hdu, hsu, -⟩ := names_differ
  by_cases hin : uploadDir <+: d
  · obtain ⟨w, rfl⟩ := hin
    rw [List.append_assoc]
    apply (copyTree_itself (by simp)).mono
    · exact fun _ _ => trivial
    · exact fun _ _ hfalse => hfalse.elim
    · exact fun _ _ => trivial
  · have hcopied := h.source hin
    have hnotSource : ¬ uploadDir <+: d ++ [uploadsName] := by
      intro hpre
      rcases List.prefix_concat_iff.mp hpre with heq | hpre
      · exact hapart (heq ▸ List.prefix_append d _)
      · exact hin hpre
    have hnotDestination : ¬ d ++ [uploadsName] <+: uploadDir := fun hpre =>
      hapart ((List.prefix_append d _).trans hpre)
    have hdir : s₀.node uploadDir = some .dir := by
      have hnil := hcopied []
      rwa [List.append_nil, hroot] at hnil
    have hempty : ∀ k, k ≠ [] → s₀.node (d ++ [uploadsName] ++ k) = none := by
      intro k _
      rw [List.append_assoc, List.singleton_append, h.fresh k]
    have hparent : s₀.node (d ++ [uploadsName]).dropLast = some .dir := by
      rw [List.dropLast_concat, h.dir]
    apply ((copyTree_spec hnotSource hnotDestination hdir hempty).and
      (copyTree_outside hparent uploadDir)).mono
    · exact fun s hs => ⟨hs, hs⟩
    · rintro _ s ⟨⟨huploads, hfits⟩, houtside⟩
      constructor
      · rw [houtside _ (entry_apart d hdu.symm []), h.main]
      · rw [houtside _ (entry_apart d hsu.symm []), h.sessions]
      · intro k
        rw [huploads, hcopied]
      · intro k hk
        exact hfits k (by rwa [hcopied])
    · exact fun _ _ => trivial

theorem rename_spec {p q : Path} (hne : p ≠ q) : Triple turns (· = fs) (rename p q)
    (fun _ s => ¬ p <+: q ∧ s.node = FileSystem.moved fs.node p q)
    (fun s => s = fs ∧ (fs.CanRename p q → Trouble turns)) := by
  apply call_spec
  · intro w _ s heq
    rw [if_neg (fun h => hne h.1)] at heq
    split at heq
    · next hcan =>
      cases heq
      exact ⟨hcan.2.2.1, rfl⟩
    · cases heq
  · rintro (htrouble | ⟨w, -, heq⟩)
    · exact ⟨rfl, fun _ => htrouble⟩
    · refine ⟨rfl, fun hcan => ?_⟩
      rw [if_neg (fun h => hne h.1), dif_pos hcan] at heq
      cases heq

theorem copied_moved {s : Disk} {p q : Path} (h : s.node = FileSystem.moved fs.node p q) :
    Copied fs p s q := by
  intro k
  rw [h, FileSystem.moved_below]

theorem removeAll_apart {s : Disk} {p q : Path} (h : ¬ p <+: q) (hp : p.length = q.length) :
    Copied s q (s.removeAll p) q := by
  intro k
  have hpnil : p ≠ [] := by
    rintro rfl
    exact h List.nil_prefix
  rw [FileSystem.removeAll_node _ hpnil, if_neg]
  intro hpre
  apply h
  rcases List.prefix_or_prefix_of_prefix hpre (List.prefix_append q k) with hpq | hqp
  · exact hpq
  · rw [hqp.eq_of_length hp.symm]

/-- The directories that are removed are others than one that has not expired. -/
theorem removeExpired_spec {expired : Bytes → Bool} {name : Bytes} (hexpired : expired name = false)
    (root : Path) (days : Int) :
    Triple turns (· = fs) (removeExpired expired root days)
      (fun _ s => Copied fs (root ++ [name]) s (root ++ [name])) (fun _ => True) := by
  rw [removeExpired]
  split
  · exact (Triple.ret (Q := fun _ s => s = fs) ()).post (by rintro _ s rfl k; rfl)
  · apply Triple.seq (Q := fun _ s => s = fs)
    · apply call_triple
      · rintro w s _ t rfl heq
        split at heq
        · cases heq
          rfl
        · cases heq
      · exact fun _ _ => trivial
    · intro entries
      apply Triple.pre
      · apply Triple.fold fun _ _ s => Copied fs (root ++ [name]) s (root ++ [name])
        intro done entry rest hold _
        have hentry : expired entry.1 = true := by
          have hmem : entry ∈ entries.filter fun entry =>
              entry.2 && (ascii "backup-").isPrefixOf entry.1 && expired entry.1 := by
            rw [hold]
            simp
          have hfilter := (List.mem_filter.mp hmem).2
          rw [Bool.and_eq_true] at hfilter
          exact hfilter.2
        have hne : entry.1 ≠ name := by
          intro heq
          rw [heq, hexpired] at hentry
          cases hentry
        apply call_triple
        · rintro w s _ t hs heq
          cases heq
          intro k
          rw [removeAll_apart (entry_apart root hne []) (by simp), hs]
        · exact fun _ _ => trivial
      · rintro s rfl k
        rfl

/-! ## The whole of `Create` -/

/-- From a new temporary directory to its place among the backups. -/
theorem publish_spec {config : Config} {main sessions name : Bytes} {createdAt : Time}
    {expired : Bytes → Bool} (hexpired : expired name = false) {temporary : Bytes}
    (hne : temporary ≠ name) (hroot : fs.node config.uploadDir = some .dir) {s₀ : Disk}
    (hdir : s₀.node (config.dir ++ [temporary]) = some .dir)
    (hnew : ∀ k, k ≠ [] → s₀.node (config.dir ++ [temporary] ++ k) = none)
    (hapart : ¬ config.dir ++ [temporary] <+: config.uploadDir)
    (hsource : ¬ config.uploadDir <+: config.dir ++ [temporary] →
      Copied fs config.uploadDir s₀ config.uploadDir) :
    Triple turns (· = s₀)
      (do
        (writeFile (config.dir ++ [temporary] ++ [dataName]) main).context
          (.context "snapshot main database")
        (writeFile (config.dir ++ [temporary] ++ [sessionsName]) sessions).context
          (.context "snapshot session database")
        (copyTree config.uploadDir (config.dir ++ [temporary] ++ [uploadsName])).context
          (.context "copy uploads")
        let manifest ← buildManifest lib (config.dir ++ [temporary]) createdAt
        writeFile (config.dir ++ [temporary] ++ [manifestName]) (lib.marshal manifest)
        (verify lib (config.dir ++ [temporary])).context (.context "verify created backup")
        rename (config.dir ++ [temporary]) (config.dir ++ [name])
        removeExpired expired config.dir config.retentionDays
        return config.dir ++ [name])
      (fun final s => final = config.dir ++ [name] ∧ ¬ config.dir ++ [temporary] <+: final ∧
        Backed lib fs config.uploadDir main sessions final s) (fun _ => True) := by
  rw [← Faulty.bind_assoc]
  apply (snapshots_spec main sessions hdir hnew hapart hsource).seq
  intro _
  apply Triple.of_state
  intro s₁ hsnapped
  apply ((uploads_spec hroot hapart hsnapped).context _).seq
  intro _
  apply Triple.of_state
  intro s₂ hgathered
  apply ((buildManifest_reads _ createdAt).exit fun _ _ => trivial).seq
  intro manifest
  apply Triple.of_state
  rintro s rfl
  apply ((fill_spec _ _).exit fun _ _ => trivial).seq
  intro _
  apply Triple.of_state
  rintro s₃ ⟨hwrote, -⟩
  have hgathered₃ := gathered_wrote hgathered hwrote
  apply (((verify_spec _).exit fun _ _ => trivial).context _).seq
  intro _
  apply Triple.of_state
  rintro s ⟨rfl, hverified⟩
  have hbacked : Backed lib fs config.uploadDir main sessions (config.dir ++ [temporary]) s :=
    ⟨hgathered₃.main, hgathered₃.sessions, hgathered₃.uploads, hroot, hgathered₃.fits, hverified⟩
  apply ((rename_spec (by simpa using hne)).exit fun _ _ => trivial).seq
  intro _
  apply Triple.of_state
  rintro s₄ ⟨hother, hmoved⟩
  apply (removeExpired_spec hexpired config.dir config.retentionDays).seq
  intro _
  apply Triple.of_state
  intro s₅ hkept
  apply (Triple.ret (Q := fun final s => final = config.dir ++ [name] ∧ s = s₅)
    (E := fun _ => True) _).mono
  · rintro s rfl
    exact ⟨rfl, rfl⟩
  · rintro _ s ⟨rfl, rfl⟩
    exact ⟨rfl, hother, backed_copied hkept (backed_copied (copied_moved hmoved) hbacked)⟩
  · exact fun _ _ => trivial

/-- A backup that has been created holds what was there at the start. -/
theorem create_spec {config : Config} {main sessions name : Bytes} {createdAt : Time}
    {expired : Bytes → Bool} (hexpired : expired name = false)
    (hroot : fs.node config.uploadDir = some .dir) :
    Triple turns (· = fs) (create lib config main sessions createdAt name expired)
      (fun final s => Backed lib fs config.uploadDir main sessions final s) (fun _ => True) := by
  rw [create]
  split
  · exact (Triple.raise _).pre fun _ _ => trivial
  · split
    · exact (Triple.raise _).pre fun _ _ => trivial
    · apply ((mkdirAll_spec config.dir).exit fun _ _ => trivial).seq
      intro _
      apply Triple.of_state
      rintro s₁ ⟨hgrown, -⟩
      apply Triple.seq (Q := fun p s => ∃ temporary, p = config.dir ++ [temporary] ∧ temporary ≠ name ∧
        s₁.node p = none ∧ s.node = Function.update s₁.node p (some .dir))
      · apply (createTemp_spec .dir config.dir _).mono (fun _ => id)
        · rintro p s ⟨w, -, rfl, hnone, hs⟩
          refine ⟨_, rfl, ?_, hnone, hs⟩
          intro heq
          have hlen := congrArg List.length heq
          simp only [List.length_append] at hlen
          have hdot : (ascii ".").length = 1 := by decide
          omega
        · exact fun _ _ => trivial
      · intro p
        apply Triple.of_state
        rintro s₂ ⟨temporary, rfl, hne, hnone, hs₂⟩
        have hroot₁ : s₁.node config.uploadDir = some .dir := grown_dir hgrown hroot
        have hapart : ¬ config.dir ++ [temporary] <+: config.uploadDir := by
          intro hpre
          by_cases heq : config.dir ++ [temporary] = config.uploadDir
          · rw [heq, hroot₁] at hnone
            cases hnone
          · rw [s₁.parent_of_prefix hpre heq (by rw [hroot₁]; nofun)] at hnone
            cases hnone
        apply Triple.deferring
        apply (publish_spec hexpired hne hroot ?_ ?_ hapart ?_).mono (fun _ => id)
        · rintro final s ⟨rfl, hother, hbacked⟩
          exact backed_copied (removeAll_apart hother (by simp)) hbacked
        · exact fun _ _ => trivial
        · rw [hs₂, Function.update_self]
        · intro k hk
          rw [hs₂, Function.update_of_ne (by simpa using hk)]
          apply s₁.none_below (p := config.dir ++ [temporary])
          · rw [hnone]
            nofun
          · exact List.prefix_append _ k
          · simpa using hk
        · intro hnot k
          rw [hs₂, Function.update_of_ne]
          · refine (hgrown _).resolve_right ?_
            rintro ⟨-, -, hpre⟩
            exact hnot (((List.prefix_append _ k).trans hpre).trans (List.prefix_append _ _))
          · intro heq
            exact hnot (heq ▸ List.prefix_append _ k)

end ZReader.Backup
