import ZReader.Backup.Restoring

namespace ZReader.Backup

open Lib.Utf8 Lib.Faults Lib.Files Lib.LexicalPath
open Storage (Time ascii)

variable {turns : Turn → Prop} {fs : Disk} {lib : Libraries} {source : Path} {config : RestoreConfig}

/-! ## Separate places -/

/-- Neither path is at or below the other. -/
def Separate (p q : Path) : Prop := ¬ p <+: q ∧ ¬ q <+: p

theorem Separate.symm {p q : Path} (h : Separate p q) : Separate q p := ⟨h.2, h.1⟩

theorem separate_below {p q : Path} (h : Separate p q) (k : Path) : ¬ p <+: q ++ k := by
  intro hpre
  rcases List.prefix_or_prefix_of_prefix hpre (List.prefix_append q k) with hpq | hqp
  · exact h.1 hpq
  · exact h.2 hqp

section Kept

variable {s t : Disk} {p p' q : Path}

theorem kept_wrote (h : Separate p q) (hst : Wrote s p t) : Copied s q t q := by
  intro k
  apply hst.other
  rintro rfl
  exact h.2 (List.prefix_append q k)

theorem kept_outside (h : Separate p q) (hst : ∀ k, ¬ p <+: k → t.node k = s.node k) : Copied s q t q :=
  fun k => hst _ (separate_below h k)

theorem kept_moved (h : Separate p q) (h' : Separate p' q) (ht : t.node = FileSystem.moved s.node p p') :
    Copied s q t q := by
  intro k
  rw [ht, FileSystem.moved_other _ (separate_below h' k) (separate_below h k)]

theorem kept_removeAll (h : Separate p q) : Copied s q (s.removeAll p) q := by
  intro k
  have hp : p ≠ [] := by
    rintro rfl
    exact h.1 List.nil_prefix
  rw [FileSystem.removeAll_node _ hp, if_neg (separate_below h k)]

theorem kept_remove (h : Separate p q) : Copied s q (s.remove p) q := by
  rw [FileSystem.remove]
  split
  · exact kept_removeAll h
  · exact fun _ => rfl

theorem copied_self (h : Copied s q t q) : t.node q = s.node q := by
  have hnil := h []
  rwa [List.append_nil] at hnil

end Kept

/-- Where the temporary files are: apart from each other, from the source and from the
targets. -/
structure Layout (source : Path) (config : RestoreConfig) (mainTemp sessionTemp uploadTemp : Path) :
    Prop where
  main : Separate mainTemp sessionTemp
  upload : Separate mainTemp uploadTemp
  session : Separate sessionTemp uploadTemp
  target : ∀ r ∈ [mainTemp, sessionTemp, uploadTemp], ∀ t ∈ config.targets, Separate r t
  source : ∀ r ∈ [mainTemp, sessionTemp, uploadTemp], Separate r source
  apart : config.Apart

theorem targets_separate (h : config.Apart) : Separate config.dbPath config.sessionDBPath ∧
    Separate config.dbPath config.uploadDir ∧ Separate config.sessionDBPath config.uploadDir := by
  rw [RestoreConfig.Apart, RestoreConfig.targets, List.pairwise_cons, List.pairwise_cons] at h
  exact ⟨h.1 _ (by simp), h.1 _ (by simp), h.2.1 _ (by simp)⟩

/-- The targets hold what was backed up. -/
structure Restored (fs : Disk) (uploadDir : Path) (main sessions : Bytes) (config : RestoreConfig)
    (s : Disk) : Prop where
  main : s.node config.dbPath = some (.file main)
  sessions : s.node config.sessionDBPath = some (.file sessions)
  uploads : Copied fs uploadDir s config.uploadDir

theorem restored_kept {uploadDir : Path} {main sessions : Bytes} {s t : Disk}
    (h : Restored fs uploadDir main sessions config s)
    (hkept : ∀ p ∈ config.targets, Copied s p t p) :
    Restored fs uploadDir main sessions config t := by
  constructor
  · rw [copied_self (hkept _ (by simp [RestoreConfig.targets])), h.main]
  · rw [copied_self (hkept _ (by simp [RestoreConfig.targets])), h.sessions]
  · intro k
    rw [hkept _ (by simp [RestoreConfig.targets]) k, h.uploads k]

section Install

variable {uploadDir : Path} {main sessions : Bytes} {mainTemp sessionTemp uploadTemp : Path}

/-- The temporary files are filled and the targets are free. -/
structure Filled (fs : Disk) (uploadDir : Path) (main sessions : Bytes) (config : RestoreConfig)
    (mainTemp sessionTemp uploadTemp : Path) (s : Disk) : Prop where
  main : s.node mainTemp = some (.file main)
  sessions : s.node sessionTemp = some (.file sessions)
  uploads : Copied fs uploadDir s uploadTemp
  root : fs.node uploadDir = some .dir
  free : ∀ t ∈ config.targets, s.node t = none

theorem canRename_free {s : Disk} {p q : Path} (hp : s.node p ≠ none) (hsep : Separate p q)
    (hparent : q.dropLast = p.dropLast) (hq : s.node q = none) : s.CanRename p q := by
  have hpnil : p ≠ [] := by
    rintro rfl
    exact hsep.1 List.nil_prefix
  have hqnil : q ≠ [] := by
    rintro rfl
    exact hsep.2 List.nil_prefix
  refine ⟨hpnil, hp, hsep.1, hqnil, ?_, Or.inl hq⟩
  rw [hparent]
  apply s.parent p.dropLast (p.getLast hpnil)
  rwa [List.dropLast_append_getLast]

theorem rename_free {s : Disk} {p q : Path} (hp : s.node p ≠ none) (hsep : Separate p q)
    (hparent : q.dropLast = p.dropLast) (hq : s.node q = none) :
    Triple turns (· = s) (rename p q) (fun _ t => t.node = FileSystem.moved s.node p q)
      (fun _ => Trouble turns) := by
  have hne : p ≠ q := by
    rintro rfl
    exact hsep.1 List.prefix_rfl
  apply (rename_spec hne).mono (fun _ => id)
  · exact fun _ t ht => ht.2
  · exact fun t ht => ht.2 (canRename_free hp hsep hparent hq)

/-- The three renames put everything in place. -/
theorem place_spec (hlayout : Layout source config mainTemp sessionTemp uploadTemp)
    (hmainDir : mainTemp.dropLast = config.dbPath.dropLast)
    (hsessionDir : sessionTemp.dropLast = config.dbPath.dropLast)
    (huploadDir : uploadTemp.dropLast = config.uploadDir.dropLast) {s : Disk}
    (h : Filled fs uploadDir main sessions config mainTemp sessionTemp uploadTemp s) :
    Triple turns (· = s)
      (do
        rename mainTemp config.dbPath
        (rename sessionTemp config.sessionDBPath).onError (·.remove config.dbPath)
        (rename uploadTemp config.uploadDir).onError
          fun fs => (fs.remove config.dbPath).remove config.sessionDBPath)
      (fun _ => Restored fs uploadDir main sessions config) (fun _ => Trouble turns) := by
  obtain ⟨hdbSession, hdbUpload, hsessionUpload⟩ := targets_separate hlayout.apart
  have hdb : config.dbPath ∈ config.targets := by simp [RestoreConfig.targets]
  have hsession : config.sessionDBPath ∈ config.targets := by simp [RestoreConfig.targets]
  have hupload : config.uploadDir ∈ config.targets := by simp [RestoreConfig.targets]
  have hmainTo := hlayout.target mainTemp (by simp)
  have hsessionTo := hlayout.target sessionTemp (by simp)
  have huploadTo := hlayout.target uploadTemp (by simp)
  apply (rename_free (by simp [h.main]) (hmainTo _ hdb) hmainDir.symm (h.free _ hdb)).seq
  intro _
  apply Triple.of_state
  intro s₁ hs₁
  have hmain₁ : s₁.node config.dbPath = some (.file main) := by
    have hmoved := copied_moved hs₁ []
    rwa [List.append_nil, List.append_nil, h.main] at hmoved
  have hsession₁ : s₁.node sessionTemp = some (.file sessions) := by
    rw [copied_self (kept_moved hlayout.main (hsessionTo _ hdb).symm hs₁), h.sessions]
  have huploads₁ : Copied fs uploadDir s₁ uploadTemp := fun k => by
    rw [kept_moved hlayout.upload (huploadTo _ hdb).symm hs₁ k, h.uploads]
  have hfree₁ : ∀ t ∈ config.targets, Separate config.dbPath t → s₁.node t = none := by
    intro t ht hsep
    rw [copied_self (kept_moved (hmainTo t ht) hsep hs₁), h.free t ht]
  apply Triple.seq (Q := fun _ t => t.node = FileSystem.moved s₁.node sessionTemp config.sessionDBPath)
  · apply Triple.onError
    apply rename_free (by simp [hsession₁]) (hsessionTo _ hsession)
    · rw [sessionDBPath_dropLast, hsessionDir]
    · exact hfree₁ _ hsession hdbSession
  · intro _
    apply Triple.of_state
    intro s₂ hs₂
    have hmain₂ : s₂.node config.dbPath = some (.file main) := by
      rw [copied_self (kept_moved (hsessionTo _ hdb) hdbSession.symm hs₂), hmain₁]
    have hsession₂ : s₂.node config.sessionDBPath = some (.file sessions) := by
      have hmoved := copied_moved hs₂ []
      rwa [List.append_nil, List.append_nil, hsession₁] at hmoved
    have huploads₂ : Copied fs uploadDir s₂ uploadTemp := fun k => by
      rw [kept_moved hlayout.session (huploadTo _ hsession).symm hs₂ k, huploads₁]
    have hfree₂ : s₂.node config.uploadDir = none := by
      rw [copied_self (kept_moved (hsessionTo _ hupload) hsessionUpload hs₂),
        hfree₁ _ hupload hdbUpload]
    have htemp : s₂.node uploadTemp ≠ none := by
      have hnil := huploads₂ []
      rw [List.append_nil, List.append_nil, h.root] at hnil
      simp [hnil]
    apply Triple.onError
    apply (rename_free htemp (huploadTo _ hupload) huploadDir.symm hfree₂).post
    intro _ s₃ hs₃
    constructor
    · rw [copied_self (kept_moved (huploadTo _ hdb) hdbUpload.symm hs₃), hmain₂]
    · rw [copied_self (kept_moved (huploadTo _ hsession) hsessionUpload.symm hs₃), hsession₂]
    · intro k
      rw [copied_moved hs₃, huploads₂]

/-- The temporary files as they are made. -/
structure Made (config : RestoreConfig) (mainTemp sessionTemp uploadTemp : Path) (s : Disk) : Prop where
  main : s.node mainTemp = some (.file [])
  session : s.node sessionTemp = some (.file [])
  upload : s.node uploadTemp = some .dir
  empty : ∀ k, k ≠ [] → s.node (uploadTemp ++ k) = none
  free : ∀ t ∈ config.targets, s.node t = none

theorem canPut_file {s : Disk} {p : Path} {content : Bytes} (h : s.node p = some (.file content)) :
    s.CanPut p := by
  have hpnil : p ≠ [] := by
    rintro rfl
    rw [s.root] at h
    cases h
  refine ⟨hpnil, ?_, by rw [h]; nofun⟩
  apply s.parent p.dropLast (p.getLast hpnil)
  rw [List.dropLast_append_getLast, h]
  nofun

theorem dataName_of_backed {s : Disk} (h : Backed lib fs uploadDir main sessions source s) :
    Fits s (source ++ [uploadsName]) [] maxDepth ∧ s.node (source ++ [uploadsName]) = some .dir := by
  constructor
  · intro k hk
    rw [h.uploads] at hk
    exact h.fits k hk
  · have hnil := h.uploads []
    rwa [List.append_nil, List.append_nil, h.root] at hnil

theorem install_spec (hlayout : Layout source config mainTemp sessionTemp uploadTemp)
    (hmainDir : mainTemp.dropLast = config.dbPath.dropLast)
    (hsessionDir : sessionTemp.dropLast = config.dbPath.dropLast)
    (huploadDir : uploadTemp.dropLast = config.uploadDir.dropLast) {s : Disk}
    (hbacked : Backed lib fs uploadDir main sessions source s)
    (h : Made config mainTemp sessionTemp uploadTemp s) :
    Triple turns (· = s) (install source config mainTemp sessionTemp uploadTemp)
      (fun _ => Restored fs uploadDir main sessions config) (fun _ => Trouble turns) := by
  have hmainSource := hlayout.source mainTemp (by simp)
  have hsessionSource := hlayout.source sessionTemp (by simp)
  have huploadSource := hlayout.source uploadTemp (by simp)
  apply (((copyFile_spec hbacked.main mainTemp).exit fun t ht => ht.2 (canPut_file h.main)).context _).seq
  intro _
  apply Triple.of_state
  rintro s₁ ⟨hwrote₁, hmain₁⟩
  have hbacked₁ := backed_copied (kept_wrote hmainSource hwrote₁) hbacked
  have hsession₁ : s₁.node sessionTemp = some (.file []) := by
    rw [copied_self (kept_wrote hlayout.main hwrote₁), h.session]
  apply (((copyFile_spec hbacked₁.sessions sessionTemp).exit fun t ht =>
    ht.2 (canPut_file hsession₁)).context _).seq
  intro _
  apply Triple.of_state
  rintro s₂ ⟨hwrote₂, hsession₂⟩
  have hbacked₂ := backed_copied (kept_wrote hsessionSource hwrote₂) hbacked₁
  have hmain₂ : s₂.node mainTemp = some (.file main) := by
    rw [copied_self (kept_wrote hlayout.main.symm hwrote₂), hmain₁]
  have hkept : ∀ r, Separate mainTemp r → Separate sessionTemp r →
      ∀ k, s₂.node (r ++ k) = s.node (r ++ k) := by
    intro r hr hr' k
    rw [kept_wrote hr' hwrote₂ k, kept_wrote hr hwrote₁ k]
  have hupload₂ : s₂.node uploadTemp = some .dir := by
    rw [copied_self (hkept _ hlayout.upload hlayout.session), h.upload]
  have hempty₂ : ∀ k, k ≠ [] → s₂.node (uploadTemp ++ k) = none := by
    intro k hk
    rw [hkept _ hlayout.upload hlayout.session k, h.empty k hk]
  obtain ⟨hfits, hroot⟩ := dataName_of_backed hbacked₂
  have hnotSource : ¬ source ++ [uploadsName] <+: uploadTemp := fun hpre =>
    huploadSource.2 ((List.prefix_append source _).trans hpre)
  have hnotUpload : ¬ uploadTemp <+: source ++ [uploadsName] := separate_below huploadSource _
  have hway : ∀ q, q <+: uploadTemp → fileAt s₂ q = none := by
    intro q hq
    have hdir : s₂.node q = some .dir := by
      by_cases heq : q = uploadTemp
      · rw [heq, hupload₂]
      · exact s₂.parent_of_prefix hq heq (by rw [hupload₂]; nofun)
    rw [fileAt, hdir]
  have houtside : Triple turns (· = s₂) (copyTree (source ++ [uploadsName]) uploadTemp)
      (fun _ => Within s₂ uploadTemp) (Within s₂ uploadTemp) := by
    apply (copyTree_within List.prefix_rfl (source ++ [uploadsName])).pre
    rintro t rfl
    exact within_self hupload₂
  apply Triple.seq (Q := fun _ => Filled fs uploadDir main sessions config mainTemp sessionTemp uploadTemp)
  · apply Triple.context
    apply ((copyTree_spec hnotSource hnotUpload hroot hempty₂).and houtside).mono
    · exact fun t ht => ⟨ht, ht⟩
    · rintro _ s₃ ⟨⟨hcopied, -⟩, hwithin⟩
      constructor
      · rw [copied_self (kept_outside hlayout.upload.symm hwithin.outside), hmain₂]
      · rw [copied_self (kept_outside hlayout.session.symm hwithin.outside), hsession₂]
      · intro k
        rw [hcopied, hbacked₂.uploads]
      · exact hbacked.root
      · intro t ht
        rw [copied_self (kept_outside (hlayout.target uploadTemp (by simp) t ht) hwithin.outside),
          copied_self (hkept t (hlayout.target mainTemp (by simp) t ht)
            (hlayout.target sessionTemp (by simp) t ht)), h.free t ht]
    · exact fun t ht => ht.1 hway hfits
  · intro _
    apply Triple.of_state
    exact fun s₃ hs₃ => place_spec hlayout hmainDir hsessionDir huploadDir hs₃

end Install

/-! ## Temporary names -/

def temporaryPatterns : List Bytes :=
  [ascii ".restore-data-", ascii ".restore-sessions-", ascii ".restore-uploads-"]

/-- The random part of a name makes it none of the names in the targets. -/
def Avoids (config : RestoreConfig) (w : Turn) : Prop :=
  ∀ pattern ∈ temporaryPatterns, ∀ t ∈ config.targets, pattern ++ w.name ∉ t

/-- No temporary name is in use. -/
structure Unused (turns : Turn → Prop) (config : RestoreConfig) (s : Disk) : Prop where
  data : ∀ w, turns w → s.node (config.dbPath.dropLast ++ [ascii ".restore-data-" ++ w.name]) = none
  sessions : ∀ w, turns w →
    s.node (config.sessionDBPath.dropLast ++ [ascii ".restore-sessions-" ++ w.name]) = none
  uploads : ∀ w, turns w →
    s.node (config.uploadDir.dropLast ++ [ascii ".restore-uploads-" ++ w.name]) = none

theorem patterns_differ (x y : Bytes) : ascii ".restore-data-" ++ x ≠ ascii ".restore-sessions-" ++ y ∧
    ascii ".restore-data-" ++ x ≠ ascii ".restore-uploads-" ++ y ∧
    ascii ".restore-sessions-" ++ x ≠ ascii ".restore-uploads-" ++ y := by
  have htake : ∀ a b : Bytes, 10 ≤ a.length → 10 ≤ b.length → a.take 10 ≠ b.take 10 → a ++ x ≠ b ++ y := by
    intro a b ha hb hne heq
    apply hne
    rw [← List.take_append_of_le_length ha, heq, List.take_append_of_le_length hb]
  exact ⟨htake _ _ (by decide) (by decide) (by decide), htake _ _ (by decide) (by decide) (by decide),
    htake _ _ (by decide) (by decide) (by decide)⟩

theorem temporary_target (hconfig : config.Apart) (hdb : config.dbPath ≠ [])
    (hupload : config.uploadDir ≠ []) {dir : Path}
    (hdir : dir = config.dbPath.dropLast ∨ dir = config.uploadDir.dropLast) {name : Bytes} {t : Path}
    (ht : t ∈ config.targets) (hname : name ∉ t) : Separate (dir ++ [name]) t := by
  obtain ⟨hnotDB, hnotUpload⟩ := target_not_on_way hconfig hdb hupload ht
  constructor
  · intro hpre
    exact hname (hpre.subset (by simp))
  · intro hpre
    rcases List.prefix_concat_iff.mp hpre with rfl | hpre
    · exact hname (by simp)
    · rcases hdir with rfl | rfl
      · exact hnotDB hpre
      · exact hnotUpload hpre

theorem temporary_source {s : Disk} (hsource : ∀ t ∈ config.targets, ¬ source <+: t)
    (hexists : s.node source ≠ none) {dir : Path}
    (hdir : dir = config.dbPath.dropLast ∨ dir = config.uploadDir.dropLast) {name : Bytes}
    (hnone : s.node (dir ++ [name]) = none) : Separate (dir ++ [name]) source := by
  have hne : dir ++ [name] ≠ source := by
    rintro rfl
    exact hexists hnone
  constructor
  · intro hpre
    rw [s.parent_of_prefix hpre hne hexists] at hnone
    cases hnone
  · intro hpre
    rcases List.prefix_concat_iff.mp hpre with heq | hpre
    · exact hne heq.symm
    · rcases hdir with rfl | rfl
      · exact hsource config.dbPath (by simp [RestoreConfig.targets]) (hpre.trans (List.dropLast_prefix _))
      · exact hsource config.uploadDir (by simp [RestoreConfig.targets])
          (hpre.trans (List.dropLast_prefix _))

/-- A file and what is made after it. -/
theorem temporary_pair {s t : Disk} {p q : Path} {content : Bytes} {node : Node UInt8}
    (hp : s.node p = some (.file content)) (hq : s.node q = none)
    (ht : t.node = Function.update s.node q (some node)) : Separate p q := by
  have hne : p ≠ q := by
    rintro rfl
    rw [hp] at hq
    cases hq
  constructor
  · intro hpre
    have hp' : t.node p ≠ some .dir := by
      rw [ht, Function.update_of_ne hne, hp]
      nofun
    have hnone := t.none_below hp' hpre hne
    rw [ht, Function.update_self] at hnone
    cases hnone
  · intro hpre
    rw [s.parent_of_prefix hpre hne.symm (by rw [hp]; nofun)] at hq
    cases hq

section Staging

variable {uploadDir : Path} {main sessions : Bytes} {g : Disk}

theorem update_kept {s t : Disk} {p q : Path} {node : Node UInt8} (h : Separate p q)
    (ht : t.node = Function.update s.node p (some node)) : Copied s q t q := by
  intro k
  rw [ht, Function.update_of_ne]
  rintro rfl
  exact h.2 (List.prefix_append q k)

/-- The backup, the free targets and the directories for the targets are at hand. -/
structure Ground (lib : Libraries) (fs : Disk) (uploadDir : Path) (main sessions : Bytes) (source : Path)
    (config : RestoreConfig) (s : Disk) : Prop where
  backed : Backed lib fs uploadDir main sessions source s
  free : ∀ t ∈ config.targets, s.node t = none
  dbDir : s.node config.dbPath.dropLast = some .dir
  uploadDir : s.node config.uploadDir.dropLast = some .dir

/-- What is asked of the arguments. -/
structure Proper (turns : Turn → Prop) (source : Path) (config : RestoreConfig) : Prop where
  apart : config.Apart
  db : config.dbPath ≠ []
  upload : config.uploadDir ≠ []
  outside : ∀ t ∈ config.targets, ¬ source <+: t
  names : ∀ w, turns w → Avoids config w

theorem ground_temporary {s t : Disk} (hproper : Proper turns source config)
    (h : Ground lib fs uploadDir main sessions source config s) (pattern : Bytes)
    (hpattern : pattern ∈ temporaryPatterns) {dir : Path}
    (hdir : dir = config.dbPath.dropLast ∨ dir = config.uploadDir.dropLast) {w : Turn} (hw : turns w)
    {r : Path} (hr : r = dir ++ [pattern ++ w.name]) (hnone : s.node r = none) {node : Node UInt8}
    (ht : t.node = Function.update s.node r (some node)) :
    Ground lib fs uploadDir main sessions source config t ∧ (∀ p ∈ config.targets, Separate r p) ∧
      Separate r source := by
  subst hr
  have hexists : s.node source ≠ none := by
    rw [s.parent_of_prefix (List.prefix_append source [dataName]) (by simp)
      (by rw [h.backed.main]; nofun)]
    nofun
  have htargets : ∀ p ∈ config.targets, Separate (dir ++ [pattern ++ w.name]) p := fun p hp =>
    temporary_target hproper.apart hproper.db hproper.upload hdir hp
      (hproper.names w hw pattern hpattern p hp)
  have hsource := temporary_source hproper.outside hexists hdir hnone
  have hdirs : ∀ p, s.node p = some .dir → t.node p = some .dir := by
    intro p hp
    rw [ht, Function.update_of_ne, hp]
    rintro rfl
    rw [hnone] at hp
    cases hp
  refine ⟨⟨backed_copied (update_kept hsource ht) h.backed, ?_, hdirs _ h.dbDir, hdirs _ h.uploadDir⟩,
    htargets, hsource⟩
  intro p hp
  rw [copied_self (update_kept (htargets p hp) ht), h.free p hp]

/-- From the prepared disk `g` on. -/
theorem staging_spec (hproper : Proper turns source config)
    (hg : Ground lib fs uploadDir main sessions source config g) :
    Triple turns (· = g)
      (do
        let mainTemp ← createTemp (.file []) config.dbPath.dropLast (ascii ".restore-data-")
        close.onError (·.remove mainTemp)
        Faulty.deferring (·.remove mainTemp) do
          let sessionTemp ← createTemp (.file []) config.sessionDBPath.dropLast
            (ascii ".restore-sessions-")
          close.onError (·.remove sessionTemp)
          Faulty.deferring (·.remove sessionTemp) do
            let uploadTemp ← createTemp .dir config.uploadDir.dropLast (ascii ".restore-uploads-")
            Faulty.deferring (·.removeAll uploadTemp)
              (install source config mainTemp sessionTemp uploadTemp))
      (fun _ => Restored fs uploadDir main sessions config)
      (fun _ => Unused turns config g → Trouble turns) := by
  apply ((createTemp_spec (.file []) _ _).exit fun t ht hunused => ht.2 hg.dbDir hunused.data).seq
  intro mainTemp
  apply Triple.of_state
  rintro s₁ ⟨w₁, hw₁, hmainTemp, hnone₁, hs₁⟩
  obtain ⟨hg₁, htarget₁, hsource₁⟩ := ground_temporary hproper hg (ascii ".restore-data-")
    (by simp [temporaryPatterns]) (Or.inl rfl) hw₁ hmainTemp hnone₁ hs₁
  have hmain₁ : s₁.node mainTemp = some (.file []) := by rw [hs₁, Function.update_self]
  apply Triple.seq (Q := fun _ t => t = s₁)
  · apply Triple.onError
    exact close_found.exit fun t ht _ => ht.2
  intro _
  apply Triple.deferring
  apply Triple.post (Q := fun _ => Restored fs uploadDir main sessions config) _
    (fun _ t ht => restored_kept ht fun p hp => kept_remove (htarget₁ p hp))
  rw [sessionDBPath_dropLast]
  apply ((createTemp_spec (.file []) _ _).exit fun t ht hunused => ht.2 hg₁.dbDir ?_).seq
  · intro sessionTemp
    apply Triple.of_state
    rintro s₂ ⟨w₂, hw₂, hsessionTemp, hnone₂, hs₂⟩
    obtain ⟨hg₂, htarget₂, hsource₂⟩ := ground_temporary hproper hg₁
      (ascii ".restore-sessions-") (by simp [temporaryPatterns]) (Or.inl rfl) hw₂
      hsessionTemp hnone₂ hs₂
    have hmainSession := temporary_pair hmain₁ hnone₂ hs₂
    have hmain₂ : s₂.node mainTemp = some (.file []) := by
      rw [copied_self (update_kept hmainSession.symm hs₂), hmain₁]
    have hsession₂ : s₂.node sessionTemp = some (.file []) := by rw [hs₂, Function.update_self]
    apply Triple.seq (Q := fun _ t => t = s₂)
    · apply Triple.onError
      exact close_found.exit fun t ht _ => ht.2
    intro _
    apply Triple.deferring
    apply Triple.post (Q := fun _ => Restored fs uploadDir main sessions config) _
      (fun _ t ht => restored_kept ht fun p hp => kept_remove (htarget₂ p hp))
    apply ((createTemp_spec .dir _ _).exit fun t ht hunused => ht.2 hg₂.uploadDir ?_).seq
    · intro uploadTemp
      apply Triple.of_state
      rintro s₃ ⟨w₃, hw₃, huploadTemp, hnone₃, hs₃⟩
      obtain ⟨hg₃, htarget₃, hsource₃⟩ := ground_temporary hproper hg₂
        (ascii ".restore-uploads-") (by simp [temporaryPatterns]) (Or.inr rfl) hw₃
        huploadTemp hnone₃ hs₃
      have hmainUpload := temporary_pair hmain₂ hnone₃ hs₃
      have hsessionUpload := temporary_pair hsession₂ hnone₃ hs₃
      have hlayout : Layout source config mainTemp sessionTemp uploadTemp := by
        refine ⟨hmainSession, hmainUpload, hsessionUpload, ?_, ?_, hproper.apart⟩
        · exact List.forall_mem_cons.mpr ⟨htarget₁, List.forall_mem_cons.mpr
            ⟨htarget₂, List.forall_mem_singleton.mpr htarget₃⟩⟩
        · exact List.forall_mem_cons.mpr ⟨hsource₁, List.forall_mem_cons.mpr
            ⟨hsource₂, List.forall_mem_singleton.mpr hsource₃⟩⟩
      have hmade : Made config mainTemp sessionTemp uploadTemp s₃ := by
        constructor
        · rw [copied_self (update_kept hmainUpload.symm hs₃), hmain₂]
        · rw [copied_self (update_kept hsessionUpload.symm hs₃), hsession₂]
        · rw [hs₃, Function.update_self]
        · intro k hk
          rw [hs₃, Function.update_of_ne (by simpa using hk)]
          exact s₂.none_below (by rw [hnone₃]; nofun) (List.prefix_append _ k) (by simpa using hk)
        · exact hg₃.free
      apply Triple.deferring
      apply (install_spec hlayout (by rw [hmainTemp, List.dropLast_concat])
        (by rw [hsessionTemp, List.dropLast_concat]) (by rw [huploadTemp, List.dropLast_concat])
        hg₃.backed hmade).mono (fun _ => id)
      · exact fun _ t ht => restored_kept ht fun p hp => kept_removeAll (htarget₃ p hp)
      · exact fun _ ht _ => ht
    · intro w hw
      have hdiffer := patterns_differ
      rw [hs₂, Function.update_of_ne, hs₁, Function.update_of_ne, hunused.uploads w hw]
      · rw [hmainTemp]
        intro heq
        have hlast := List.append_inj_right' heq rfl
        rw [List.singleton_inj] at hlast
        exact (hdiffer _ _).2.1 hlast.symm
      · rw [hsessionTemp]
        intro heq
        have hlast := List.append_inj_right' heq rfl
        rw [List.singleton_inj] at hlast
        exact (hdiffer _ _).2.2 hlast.symm
  · intro w hw
    have hsessions := hunused.sessions w hw
    rw [sessionDBPath_dropLast] at hsessions
    rw [hs₁, Function.update_of_ne, hsessions]
    rw [hmainTemp]
    intro heq
    have hlast := List.append_inj_right' heq rfl
    rw [List.singleton_inj] at hlast
    exact (patterns_differ _ _).1 hlast.symm

end Staging

/-! ## The whole of `Restore` -/

/-- There is room for the restored files. -/
structure Room (turns : Turn → Prop) (config : RestoreConfig) (s : Disk) : Prop where
  absent : ∀ t ∈ config.targets, s.node t = none
  way : ∀ t ∈ config.targets, blocked s t = false
  unused : Unused turns config s

theorem verify_found {d : Path} {manifest : Manifest} (h : ManifestHolds lib fs d manifest) :
    Triple turns (· = fs) (verify lib d) (fun _ s => s = fs) (fun _ => Trouble turns) := by
  by_cases htrouble : Trouble turns
  · exact (verify_spec d).mono (fun _ => id) (fun _ s hs => hs.1) fun _ _ => htrouble
  · rw [Trouble, not_not] at htrouble
    exact ((verify_smooth h).weaken htrouble).exit fun _ => False.elim

theorem requireAbsent_targets : Triple turns (· = fs)
    (.fold (fun _ p => requireAbsent p) () [config.dbPath, config.sessionDBPath, config.uploadDir])
    (fun _ s => s = fs ∧ ∀ t ∈ config.targets, fs.node t = none)
    (fun _ => Room turns config fs → Trouble turns) := by
  apply Triple.pre
  · apply Triple.fold fun done _ s => s = fs ∧ ∀ t ∈ done, fs.node t = none
    intro done p rest htargets _
    have hp : p ∈ config.targets := by
      rw [RestoreConfig.targets, htargets]
      simp
    apply Triple.of_state
    rintro s ⟨rfl, hdone⟩
    apply (requireAbsent_spec p).mono (fun _ => id)
    · rintro _ s ⟨rfl, hnone⟩
      refine ⟨rfl, fun t ht => ?_⟩
      rcases List.mem_append.mp ht with hmem | hmem
      · exact hdone t hmem
      · rw [List.mem_singleton.mp hmem, hnone]
    · exact fun t ht hroom => ht.2 (hroom.absent p hp) (hroom.way p hp)
  · rintro s rfl
    exact ⟨rfl, by simp⟩

theorem way_free {t : Path} (ht : t ≠ []) (h : blocked fs t = false) :
    ∀ q, q <+: t.dropLast → fileAt fs q = none := by
  intro q hq
  rw [blocked, List.any_eq_false] at h
  have hmem : q ∈ t.inits := (List.mem_inits q t).mpr (hq.trans (List.dropLast_prefix t))
  have hne : q ≠ t := by
    rintro rfl
    exact not_prefix_dropLast ht hq
  simpa [hne] using h q hmem

theorem grown_fileAt {s : Disk} {p q : Path} (h : Grown fs p s) (hq : fileAt fs q = none) :
    fileAt s q = none := by
  rcases h q with heq | ⟨-, hdir, -⟩
  · rw [fileAt, heq]
    exact hq
  · rw [fileAt, hdir]

theorem prepared_unused {s : Disk} (hnames : ∀ w, turns w → Avoids config w)
    (hs : Prepared fs config s) (h : Unused turns config fs) : Unused turns config s := by
  have hkeep : ∀ pattern ∈ temporaryPatterns, ∀ w, turns w → ∀ dir : Path,
      fs.node (dir ++ [pattern ++ w.name]) = none → s.node (dir ++ [pattern ++ w.name]) = none := by
    intro pattern hpattern w hw dir hnone
    have havoids := hnames w hw pattern hpattern
    rcases hs (dir ++ [pattern ++ w.name]) with heq | ⟨-, -, hpre | hpre⟩
    · rw [heq, hnone]
    · exact absurd ((hpre.trans (List.dropLast_prefix _)).subset (by simp))
        (havoids config.dbPath (by simp [RestoreConfig.targets]))
    · exact absurd ((hpre.trans (List.dropLast_prefix _)).subset (by simp))
        (havoids config.uploadDir (by simp [RestoreConfig.targets]))
  constructor
  · exact fun w hw => hkeep _ (by simp [temporaryPatterns]) w hw _ (h.data w hw)
  · exact fun w hw => hkeep _ (by simp [temporaryPatterns]) w hw _ (h.sessions w hw)
  · exact fun w hw => hkeep _ (by simp [temporaryPatterns]) w hw _ (h.uploads w hw)

theorem prepared_source {s : Disk} (houtside : ∀ t ∈ config.targets, ¬ source <+: t)
    (hs : Prepared fs config s) : Copied fs source s source := by
  intro k
  refine (hs _).resolve_right ?_
  rintro ⟨-, -, hpre | hpre⟩
  · exact houtside config.dbPath (by simp [RestoreConfig.targets])
      (((List.prefix_append source k).trans hpre).trans (List.dropLast_prefix _))
  · exact houtside config.uploadDir (by simp [RestoreConfig.targets])
      (((List.prefix_append source k).trans hpre).trans (List.dropLast_prefix _))

/-- What is restored from a backup. In a smooth run with room for it nothing fails. -/
theorem restore_spec {fs₂ : Disk} {uploadDir : Path} {main sessions : Bytes} (hconfig : config.Apart)
    (houtside : ∀ t ∈ config.targets, ¬ source <+: t) (hnames : ∀ w, turns w → Avoids config w)
    (hbacked : Backed lib fs uploadDir main sessions source fs₂) :
    Triple turns (· = fs₂) (restore lib source config)
      (fun _ => Restored fs uploadDir main sessions config)
      (fun _ => Room turns config fs₂ → Trouble turns) := by
  have hroot : Room turns config fs₂ → ∀ t ∈ config.targets, t ≠ [] := by
    rintro hroom t ht rfl
    have hnone := hroom.absent [] ht
    rw [fs₂.root] at hnone
    cases hnone
  rw [restore]
  split
  · next hdb =>
    refine (Triple.raise _).pre fun s _ hroom => ?_
    exact absurd hdb (hroot hroom config.dbPath (by simp [RestoreConfig.targets]))
  · next hdb =>
    split
    · next hupload =>
      refine (Triple.raise _).pre fun s _ hroom => ?_
      exact absurd hupload (hroot hroom config.uploadDir (by simp [RestoreConfig.targets]))
    · next hupload =>
      obtain ⟨manifest, hholds⟩ := hbacked.verified
      apply (((verify_found hholds).exit fun s hs _ => hs).context _).seq
      intro _
      apply Triple.of_state
      rintro s rfl
      apply requireAbsent_targets.seq
      intro _
      apply Triple.of_state
      rintro s ⟨rfl, habsent⟩
      have hstart : Prepared s config s := fun q => Or.inl rfl
      apply ((mkdirAll_spec config.dbPath.dropLast).exit fun t ht hroom =>
        ht.2 (way_free hdb (hroom.way config.dbPath (by simp [RestoreConfig.targets])))).seq
      intro _
      apply Triple.of_state
      rintro g₁ ⟨hgrown₁, hdir₁⟩
      have hg₁ := prepared_grown hstart (Or.inl rfl) hgrown₁
      apply ((mkdirAll_spec config.uploadDir.dropLast).exit fun t ht hroom => ht.2 fun q hq =>
        grown_fileAt hgrown₁ (way_free hupload
          (hroom.way config.uploadDir (by simp [RestoreConfig.targets])) q hq)).seq
      intro _
      apply Triple.of_state
      rintro g ⟨hgrown, hdir⟩
      have hg := prepared_grown hg₁ (Or.inr rfl) hgrown
      have hground : Ground lib fs uploadDir main sessions source config g := by
        refine ⟨backed_copied (prepared_source houtside hg) hbacked, ?_, grown_dir hgrown hdir₁, hdir⟩
        intro t ht
        have htarget := prepared_target hconfig hdb hupload ht hg []
        rw [List.append_nil] at htarget
        rw [htarget, habsent t ht]
      apply (staging_spec ⟨hconfig, hdb, hupload, houtside, hnames⟩ hground).exit
      exact fun t ht hroom => ht (prepared_unused hnames hg hroom.unused)

/-- The turns of a script. -/
def Occurs (script : ℕ → Turn) (w : Turn) : Prop := ∃ n, script n = w

/-- What `Create` has published is restored as it was, to any place and from any disk that
still has the backup; and a restore that fails, from any source and at any point, leaves
the targets as they were and no temporary file behind. -/
theorem restore_inverts_create (lib : Libraries) :
    (∀ (config : Config) (main sessions : Bytes) (createdAt : Time) (name : Bytes) (expired : Bytes → Bool)
        (script : ℕ → Turn) (n : ℕ) (fs : Disk) (final : Path),
      fs.node config.uploadDir = some .dir → expired name = false →
      (create lib config main sessions createdAt name expired script n fs).1 = .ok final →
      ∀ fs₂ : Disk, Copied (create lib config main sessions createdAt name expired script n fs).2.2
          final fs₂ final →
      ∀ target : RestoreConfig, target.Apart → (∀ t ∈ target.targets, ¬ final <+: t) →
      ∀ (script₂ : ℕ → Turn) (n₂ : ℕ), (∀ k, Avoids target (script₂ k)) →
        ((restore lib final target script₂ n₂ fs₂).1 = .ok () →
          Restored fs config.uploadDir main sessions target (restore lib final target script₂ n₂ fs₂).2.2) ∧
        ((∀ k, Smooth (script₂ k)) → Room (Occurs script₂) target fs₂ →
          (restore lib final target script₂ n₂ fs₂).1 = .ok ())) ∧
    ∀ (source : Path) (target : RestoreConfig), target.Apart →
      ∀ (script : ℕ → Turn) (n : ℕ) (fs : Disk) (e : Failure),
        (restore lib source target script n fs).1 = .error e →
        Undone fs target (restore lib source target script n fs).2.2 := by
  constructor
  · intro config main sessions createdAt name expired script n fs final hroot hexpired hcreate fs₂ hcopied
      target hapart houtside script₂ n₂ hnames
    have hcreated : Triple (fun _ => True) (· = fs)
        (create lib config main sessions createdAt name expired)
        (fun final s => Backed lib fs config.uploadDir main sessions final s) (fun _ => True) :=
      create_spec hexpired hroot
    have hbacked := backed_copied hcopied (hcreated.value (fun _ => trivial) rfl hcreate)
    have hrestored : Triple (Occurs script₂) (· = fs₂) (restore lib final target)
        (fun _ => Restored fs config.uploadDir main sessions target)
        (fun _ => Room (Occurs script₂) target fs₂ → Trouble (Occurs script₂)) := by
      apply restore_spec hapart houtside _ hbacked
      rintro w ⟨k, rfl⟩
      exact hnames k
    constructor
    · exact fun hrun => hrestored.value (fun k => ⟨k, rfl⟩) rfl hrun
    · intro hsmooth hroom
      cases hrun : (restore lib final target script₂ n₂ fs₂).1 with
      | ok => rfl
      | error e =>
          have htrouble := hrestored.error (fun k => ⟨k, rfl⟩) rfl hrun hroom
          apply absurd _ htrouble
          rintro w ⟨k, rfl⟩
          exact hsmooth k
  · intro source target hapart script n fs e hrun
    have hfails : Triple (fun _ => True) (· = fs) (restore lib source target) (fun _ _ => True)
        (Undone fs target) := restore_fails hapart
    exact hfails.error (fun _ => trivial) rfl hrun

/-! ## A backup and what becomes of it -/

def libraryDigest : Bytes := ascii "2d711642b726b04401627ca9fbac32f5c8530fb1903cc4db02258717921a4881"

def libraryManifest : Manifest where
  createdAt := ⟨1704067200 * 10 ^ 9⟩
  files := [(dataName, sampleDigest), (sessionsName, sampleDigest), (ascii "uploads/x", libraryDigest)]

def libraryJSON : Bytes :=
  ascii "\x7b\n  \"created_at\": \"2024-01-01T00:00:00Z\",\n  \"files\": \x7b\n    \"data.db\": \"" ++
    sampleDigest ++ ascii "\",\n    \"data.db.sessions\": \"" ++ sampleDigest ++
    ascii "\",\n    \"uploads/x\": \"" ++ libraryDigest ++ ascii "\"\n  \x7d\n\x7d"

/-- The libraries on the contents at hand: `db` stands for a database. -/
def libraries : Libraries where
  marshal _ := libraryJSON
  unmarshal data := if data = libraryJSON then some libraryManifest else none
  sha256 content := if content = ascii "db" then sampleDigest else libraryDigest
  opens content := content = ascii "db"

/-- An upload directory with one file. -/
def libraryDisk : Disk :=
  let fs := FileSystem.empty.put [ascii "u"] .dir (by decide)
  fs.put [ascii "u", ascii "x"] (.file (ascii "x")) (by decide)

def libraryConfig : Config := ⟨[ascii "b"], [ascii "u"], 0⟩

def backupName : Bytes := ascii "backup-20240101T000000.000000000Z"

def libraryTarget : RestoreConfig := ⟨[ascii "r", ascii "db"], [ascii "r", ascii "u"]⟩

/-- Every turn goes well, up to one if there is one that fails. -/
def turnsBut (bad : Option ℕ) (k : ℕ) : Turn := ⟨some k ≠ bad, 0, ascii "1"⟩

def createdRun : Except Failure Path × ℕ × Disk :=
  create libraries libraryConfig (ascii "db") (ascii "db") ⟨1704067200 * 10 ^ 9⟩ backupName
    (fun _ => false) (turnsBut none) 0 libraryDisk

theorem created_ok : createdRun.1 = .ok [ascii "b", backupName] := by
  have hok : createdRun.1.toOption = some [ascii "b", backupName] := by decide +kernel
  cases hrun : createdRun.1 with
  | ok final =>
      rw [hrun] at hok
      cases hok
      rfl
  | error e =>
      rw [hrun] at hok
      cases hok

theorem target_apart : libraryTarget.Apart ∧
    (∀ t ∈ libraryTarget.targets, ¬ [ascii "b", backupName] <+: t) ∧
    ∀ bad k, Avoids libraryTarget (turnsBut bad k) := by
  refine ⟨?_, by decide, fun bad k => ?_⟩
  · rw [RestoreConfig.Apart]
    decide
  · have havoids : ∀ pattern ∈ temporaryPatterns, ∀ t ∈ libraryTarget.targets,
        pattern ++ ascii "1" ∉ t := by
      decide
    exact havoids

theorem target_room : Room (Occurs (turnsBut none)) libraryTarget createdRun.2.2 := by
  constructor
  · decide +kernel
  · decide +kernel
  · constructor
    all_goals
      rintro w ⟨k, rfl⟩
      simp only [turnsBut]
      decide +kernel

/-- The backup is restored; a restore whose twentieth operation fails leaves nothing. -/
theorem library_restored :
    Restored libraryDisk [ascii "u"] (ascii "db") (ascii "db") libraryTarget
      (restore libraries [ascii "b", backupName] libraryTarget (turnsBut none) 0 createdRun.2.2).2.2 ∧
    Undone createdRun.2.2 libraryTarget
      (restore libraries [ascii "b", backupName] libraryTarget (turnsBut (some 20)) 0
        createdRun.2.2).2.2 := by
  obtain ⟨hapart, houtside, hnames⟩ := target_apart
  obtain ⟨hrestores, hfails⟩ := restore_inverts_create libraries
  obtain ⟨hvalue, hok⟩ := hrestores libraryConfig (ascii "db") (ascii "db") ⟨1704067200 * 10 ^ 9⟩ backupName
    (fun _ => false) (turnsBut none) 0 libraryDisk [ascii "b", backupName] (by decide +kernel) rfl
    created_ok
    createdRun.2.2 (fun _ => rfl) libraryTarget hapart houtside (turnsBut none) 0 (hnames none)
  constructor
  · exact hvalue (hok (fun k => by simp [Smooth, turnsBut]) target_room)
  · cases hrun : (restore libraries [ascii "b", backupName] libraryTarget (turnsBut (some 20)) 0
        createdRun.2.2).1 with
    | ok a =>
        have hnone : (restore libraries [ascii "b", backupName] libraryTarget (turnsBut (some 20)) 0
          createdRun.2.2).1.toOption = none := by decide +kernel
        rw [hrun] at hnone
        cases hnone
    | error e => exact hfails _ libraryTarget hapart (turnsBut (some 20)) 0 createdRun.2.2 e hrun

end ZReader.Backup
