import ZReader.Backup.Creation

namespace ZReader.Backup

open Lib.Utf8 Lib.Faults Lib.Files Lib.LexicalPath
open Storage (ascii)

variable {turns : Turn → Prop} {fs : Disk} {lib : Libraries} {source : Path}

def RestoreConfig.targets (config : RestoreConfig) : List Path :=
  [config.dbPath, config.sessionDBPath, config.uploadDir]

/-- The targets are not nested. -/
def RestoreConfig.Apart (config : RestoreConfig) : Prop :=
  config.targets.Pairwise fun p q => ¬ p <+: q ∧ ¬ q <+: p

/-! ## What a failure leaves -/

/-- Nothing has changed but at and below some roots. -/
def Spread (g : Disk) (roots : List Path) (s : Disk) : Prop :=
  ∀ q, (∀ r ∈ roots, ¬ r <+: q) → s.node q = g.node q

/-- The path is not a directory, so that nothing is below it. -/
def Flat (p : Path) (s : Disk) : Prop := s.node p ≠ some .dir

section Spread

variable {g s t : Disk} {roots roots' : List Path} {p q r : Path}

theorem spread_mono (h : Spread g roots s) (hsub : roots ⊆ roots') : Spread g roots' s :=
  fun q hq => h q fun r hr => hq r (hsub hr)

theorem spread_wrote (h : Spread g roots s) (hp : p ∈ roots) (hst : Wrote s p t) :
    Spread g roots t := by
  intro q hq
  rw [hst.other q (by rintro rfl; exact hq q hp List.prefix_rfl), h q hq]

theorem spread_within (h : Spread g roots s) (hp : p ∈ roots) (hst : Within s p t) :
    Spread g roots t := by
  intro q hq
  rw [hst.outside q (hq p hp), h q hq]

theorem spread_moved (h : Spread g roots s) (hp : p ∈ roots)
    (ht : t.node = FileSystem.moved s.node p q) : Spread g (q :: roots) t := by
  intro k hk
  rw [ht, FileSystem.moved_other _ (hk q List.mem_cons_self) (hk p (List.mem_cons_of_mem _ hp))]
  exact h k fun r hr => hk r (List.mem_cons_of_mem _ hr)

/-- A root at which there was nothing is taken away. -/
theorem spread_removeAll (h : Spread g (p :: roots) s) (hp : g.node p = none) :
    Spread g roots (s.removeAll p) := by
  have hpnil : p ≠ [] := by
    rintro rfl
    rw [g.root] at hp
    cases hp
  intro q hq
  rw [FileSystem.removeAll_node _ hpnil]
  split
  · next hpq =>
    by_cases heq : p = q
    · rw [← heq, hp]
    · rw [g.none_below (by rw [hp]; nofun) hpq heq]
  · next hpq => exact h q (List.forall_mem_cons.mpr ⟨hpq, hq⟩)

theorem spread_remove (h : Spread g (p :: roots) s) (hp : g.node p = none) (hflat : Flat p s) :
    Spread g roots (s.remove p) := by
  rw [FileSystem.remove_of_not_dir hflat]
  exact spread_removeAll h hp

theorem flat_wrote (h : Flat r s) (hst : Wrote s p t) : Flat r t := by
  by_cases heq : r = p
  · subst heq
    rcases hst.self with heq | ⟨-, content, hfile⟩
    · rw [Flat, heq]
      exact h
    · rw [Flat, hfile]
      nofun
  · rw [Flat, hst.other r heq]
    exact h

theorem flat_moved (hp : Flat p s) (hr : Flat r s) (ht : t.node = FileSystem.moved s.node p q) :
    Flat r t := by
  rw [Flat, ht, FileSystem.moved]
  split
  · by_cases heq : r.drop q.length = []
    · rw [heq, List.append_nil]
      exact hp
    · rw [s.none_below hp (List.prefix_append p _) (by simpa using heq)]
      simp
  · split
    · simp
    · exact hr

theorem flat_target (hp : Flat p s) (ht : t.node = FileSystem.moved s.node p q) : Flat q t := by
  have hmoved := copied_moved ht []
  rw [List.append_nil, List.append_nil] at hmoved
  rw [Flat, hmoved]
  exact hp

theorem flat_removeAll (h : Flat r s) (p : Path) : Flat r (s.removeAll p) := by
  by_cases hp : p = []
  · rw [FileSystem.removeAll, dif_pos hp]
    exact h
  · rw [Flat, FileSystem.removeAll_node _ hp]
    split
    · simp
    · exact h

theorem flat_remove (h : Flat r s) (p : Path) : Flat r (s.remove p) := by
  rw [FileSystem.remove]
  split
  · exact flat_removeAll h p
  · exact h

end Spread

/-- A file that is moved, over itself at most. -/
theorem rename_flat {g : Disk} {roots : List Path} {p q : Path} (hp : p ∈ roots)
    {s : Disk} (hspread : Spread g roots s) (hflat : Flat p s) :
    Triple turns (· = s) (rename p q)
      (fun _ t => Spread g (q :: roots) t ∧ Flat q t ∧ ∀ r, Flat r s → Flat r t) (· = s) := by
  apply call_triple
  · rintro w t _ u rfl heq
    split at heq
    · next hsame =>
      cases heq
      exact ⟨spread_mono hspread (List.subset_cons_self q roots), hsame.1 ▸ hflat, fun _ => id⟩
    · split at heq
      · next hcan =>
        cases heq
        exact ⟨spread_moved hspread hp rfl, flat_target hflat rfl, fun r hr => flat_moved hflat hr rfl⟩
      · cases heq
  · exact fun _ => id

/-- The temporary files are all that differs, and the two database files are files. -/
structure Staged (g : Disk) (mainTemp sessionTemp uploadTemp : Path) (s : Disk) : Prop where
  spread : Spread g [uploadTemp, sessionTemp, mainTemp] s
  main : Flat mainTemp s
  session : Flat sessionTemp s

theorem copyFile_wrote (from' p : Path) : Triple turns (· = fs) (copyFile from' p)
    (fun _ s => Wrote fs p s) (Wrote fs p) := by
  apply ((readFile_spec from').exit ?_).seq
  · intro content
    apply Triple.of_state
    rintro s ⟨rfl, -⟩
    exact (fill_spec content p).mono (fun _ => id) (fun _ t ht => ht.1) fun t ht => ht.1
  · rintro s rfl
    exact wrote_self s p

section Install

variable {config : RestoreConfig} {mainTemp sessionTemp uploadTemp : Path} {g : Disk}

/-- A database is copied to its temporary file. -/
theorem stage_database {s : Disk} (h : Staged g mainTemp sessionTemp uploadTemp s)
    (hupload : Stands uploadTemp s) {p : Path} (hp : p = mainTemp ∨ p = sessionTemp) (from' : Path) :
    Triple turns (· = s) (copyFile from' p)
      (fun _ t => Staged g mainTemp sessionTemp uploadTemp t ∧ Stands uploadTemp t)
      (Staged g mainTemp sessionTemp uploadTemp) := by
  have hmem : p ∈ [uploadTemp, sessionTemp, mainTemp] := by
    rcases hp with rfl | rfl <;> simp
  have hstaged : ∀ t, Wrote s p t → Staged g mainTemp sessionTemp uploadTemp t := fun t ht =>
    ⟨spread_wrote h.spread hmem ht, flat_wrote h.main ht, flat_wrote h.session ht⟩
  apply (copyFile_wrote from' p).mono (fun _ => id)
  · exact fun _ t ht => ⟨hstaged t ht, wrote_stands ht hupload⟩
  · exact hstaged

theorem stage_uploads {s : Disk} (h : Staged g mainTemp sessionTemp uploadTemp s)
    (hupload : Stands uploadTemp s) (hmainApart : ¬ uploadTemp <+: mainTemp)
    (hsessionApart : ¬ uploadTemp <+: sessionTemp) (from' : Path) :
    Triple turns (· = s) (copyTree from' uploadTemp)
      (fun _ => Staged g mainTemp sessionTemp uploadTemp) (Staged g mainTemp sessionTemp uploadTemp) := by
  have hstaged : ∀ t, Within s uploadTemp t → Staged g mainTemp sessionTemp uploadTemp t := by
    intro t ht
    refine ⟨spread_within h.spread (by simp) ht, ?_, ?_⟩
    · rw [Flat, ht.outside _ hmainApart]
      exact h.main
    · rw [Flat, ht.outside _ hsessionApart]
      exact h.session
  apply (copyTree_within List.prefix_rfl from').mono
  · rintro t rfl
    exact within_self hupload
  · exact fun _ t ht => hstaged t ht
  · exact hstaged

/-- The three renames: each failure takes away what the renames before it have put in place. -/
theorem place_fails {s : Disk} (h : Staged g mainTemp sessionTemp uploadTemp s)
    (hdb : g.node config.dbPath = none) (hsession : g.node config.sessionDBPath = none) :
    Triple turns (· = s)
      (do
        rename mainTemp config.dbPath
        (rename sessionTemp config.sessionDBPath).onError (·.remove config.dbPath)
        (rename uploadTemp config.uploadDir).onError
          fun fs => (fs.remove config.dbPath).remove config.sessionDBPath)
      (fun _ _ => True) (Staged g mainTemp sessionTemp uploadTemp) := by
  apply ((rename_flat (by simp) h.spread h.main).exit ?_).seq
  · intro _
    apply Triple.of_state
    rintro s₁ ⟨hspread₁, hdb₁, hflat₁⟩
    apply Triple.seq (Q := fun _ t => Spread g [config.sessionDBPath, config.dbPath, uploadTemp,
      sessionTemp, mainTemp] t ∧ Flat config.dbPath t ∧ Flat config.sessionDBPath t ∧
        Flat mainTemp t ∧ Flat sessionTemp t)
    · apply Triple.onError
      apply (rename_flat (by simp) hspread₁ (hflat₁ _ h.session)).mono (fun _ => id)
      · rintro _ t ⟨hspread, hflat, hkeep⟩
        exact ⟨hspread, hkeep _ hdb₁, hflat, hkeep _ (hflat₁ _ h.main), hkeep _ (hflat₁ _ h.session)⟩
      · rintro t rfl
        exact ⟨spread_remove hspread₁ hdb hdb₁, flat_remove (hflat₁ _ h.main) _,
          flat_remove (hflat₁ _ h.session) _⟩
    · intro _
      apply Triple.of_state
      rintro s₂ ⟨hspread₂, hdb₂, hsession₂, hmain₂, hsessionTemp₂⟩
      apply Triple.onError
      apply (call_triple (P := (· = s₂)) ?_ ?_)
      · exact fun _ _ _ _ _ _ => trivial
      · rintro t rfl
        have hswap : Spread g [config.dbPath, config.sessionDBPath, uploadTemp, sessionTemp, mainTemp] t :=
          spread_mono hspread₂ (by simp)
        exact ⟨spread_remove (spread_remove hswap hdb hdb₂) hsession (flat_remove hsession₂ _),
          flat_remove (flat_remove hmain₂ _) _, flat_remove (flat_remove hsessionTemp₂ _) _⟩
  · rintro t rfl
    exact h

/-- What fails in `install` is undone there, but for the temporary files. -/
theorem install_fails {s : Disk} (h : Staged g mainTemp sessionTemp uploadTemp s)
    (hupload : Stands uploadTemp s) (hdb : g.node config.dbPath = none)
    (hsession : g.node config.sessionDBPath = none)
    (hmainApart : ¬ uploadTemp <+: mainTemp) (hsessionApart : ¬ uploadTemp <+: sessionTemp) :
    Triple turns (· = s) (install source config mainTemp sessionTemp uploadTemp) (fun _ _ => True)
      (Staged g mainTemp sessionTemp uploadTemp) := by
  apply ((stage_database h hupload (Or.inl rfl) _).context _).seq
  intro _
  apply Triple.of_state
  rintro s₁ ⟨h₁, hupload₁⟩
  apply ((stage_database h₁ hupload₁ (Or.inr rfl) _).context _).seq
  intro _
  apply Triple.of_state
  rintro s₂ ⟨h₂, hupload₂⟩
  apply ((stage_uploads h₂ hupload₂ hmainApart hsessionApart _).context _).seq
  intro _
  apply Triple.of_state
  exact fun s₃ h₃ => place_fails h₃ hdb hsession

end Install

/-- Directories on the way to the targets may be new, and nothing else. -/
def Prepared (fs : Disk) (config : RestoreConfig) (s : Disk) : Prop :=
  ∀ q, s.node q = fs.node q ∨ fs.node q = none ∧ s.node q = some .dir ∧
    (q <+: config.dbPath.dropLast ∨ q <+: config.uploadDir.dropLast)

theorem spread_nil {g s : Disk} (h : Spread g [] s) : s.node = g.node := by
  funext q
  exact h q (by simp)

theorem prepared_grown {config : RestoreConfig} {s t : Disk} {p : Path} (h : Prepared fs config s)
    (hp : p = config.dbPath.dropLast ∨ p = config.uploadDir.dropLast) (hst : Grown s p t) :
    Prepared fs config t := by
  intro q
  rcases hst q with heq | ⟨hnone, hdir, hpre⟩
  · rw [heq]
    exact h q
  · rcases h q with heq | ⟨-, hdir', -⟩
    · refine Or.inr ⟨heq ▸ hnone, hdir, ?_⟩
      rcases hp with rfl | rfl
      · exact Or.inl hpre
      · exact Or.inr hpre
    · rw [hdir'] at hnone
      cases hnone

theorem prepared_congr {config : RestoreConfig} {s t : Disk} (h : Prepared fs config s)
    (hst : t.node = s.node) : Prepared fs config t := by
  intro q
  rw [hst]
  exact h q

theorem not_prefix_dropLast {p : Path} (hp : p ≠ []) : ¬ p <+: p.dropLast := by
  intro hpre
  have hlen := hpre.length_le
  have := List.length_pos_iff.mpr hp
  rw [List.length_dropLast] at hlen
  omega

theorem sessionDBPath_dropLast (config : RestoreConfig) :
    config.sessionDBPath.dropLast = config.dbPath.dropLast := by
  rw [RestoreConfig.sessionDBPath, List.dropLast_concat]

/-- The way to a target does not go through a target. -/
theorem target_not_on_way {config : RestoreConfig} (h : config.Apart) (hdb : config.dbPath ≠ [])
    (hupload : config.uploadDir ≠ []) {t : Path} (ht : t ∈ config.targets) :
    ¬ t <+: config.dbPath.dropLast ∧ ¬ t <+: config.uploadDir.dropLast := by
  have hsession : config.sessionDBPath ≠ [] := by simp [RestoreConfig.sessionDBPath]
  obtain ⟨hone, htwo, -⟩ := List.pairwise_cons.mp h |>.imp id List.pairwise_cons.mp
  have hdbUpload := hone config.uploadDir (by simp)
  have hsessionUpload := htwo config.uploadDir (by simp)
  rw [RestoreConfig.targets, List.mem_cons, List.mem_cons, List.mem_singleton] at ht
  rcases ht with rfl | rfl | rfl
  · exact ⟨not_prefix_dropLast hdb, fun hpre => hdbUpload.1 (hpre.trans (List.dropLast_prefix _))⟩
  · refine ⟨?_, fun hpre => hsessionUpload.1 (hpre.trans (List.dropLast_prefix _))⟩
    rw [← sessionDBPath_dropLast]
    exact not_prefix_dropLast hsession
  · exact ⟨fun hpre => hdbUpload.2 (hpre.trans (List.dropLast_prefix _)), not_prefix_dropLast hupload⟩

theorem prepared_target {config : RestoreConfig} (h : config.Apart) (hdb : config.dbPath ≠ [])
    (hupload : config.uploadDir ≠ []) {t : Path} (ht : t ∈ config.targets) {s : Disk}
    (hs : Prepared fs config s) (k : Path) : s.node (t ++ k) = fs.node (t ++ k) := by
  obtain ⟨hnotDB, hnotUpload⟩ := target_not_on_way h hdb hupload ht
  refine (hs _).resolve_right ?_
  rintro ⟨-, -, hpre | hpre⟩
  · exact hnotDB ((List.prefix_append t k).trans hpre)
  · exact hnotUpload ((List.prefix_append t k).trans hpre)

theorem requireAbsent_spec (p : Path) : Triple turns (· = fs) (requireAbsent p)
    (fun _ s => s = fs ∧ fs.node p = none)
    (fun s => s = fs ∧ (fs.node p = none → blocked fs p = false → Trouble turns)) := by
  apply Triple.seq (Q := fun node s => s = fs ∧ node = fs.node p)
  · apply call_spec
    · intro w node s heq
      split at heq
      · cases heq
      · cases heq
        exact ⟨rfl, rfl⟩
    · rintro (htrouble | ⟨w, -, heq⟩)
      · exact ⟨rfl, fun _ _ => htrouble⟩
      · refine ⟨rfl, fun _ hfree => ?_⟩
        rw [if_neg (by simp [hfree])] at heq
        cases heq
  · intro node
    apply Triple.of_state
    rintro s ⟨rfl, hnode⟩
    cases node with
    | none => exact (Triple.ret (Q := fun _ t => t = s) ()).post fun _ t ht => ⟨ht, hnode.symm⟩
    | some node =>
        refine (Triple.raise _).pre ?_
        rintro t rfl
        refine ⟨rfl, fun hnone _ => ?_⟩
        rw [hnone] at hnode
        cases hnode

theorem spread_update {g s t : Disk} {roots : List Path} {p : Path} {node : Node UInt8}
    (h : Spread g roots s) (ht : t.node = Function.update s.node p (some node)) :
    Spread g (p :: roots) t := by
  intro q hq
  rw [ht, Function.update_of_ne]
  · exact h q fun r hr => hq r (List.mem_cons_of_mem _ hr)
  · rintro rfl
    exact hq q List.mem_cons_self List.prefix_rfl

/-- A temporary file and what is done with it, when this fails. `F` is what else is kept. -/
theorem temporary_fails {g s : Disk} {roots : List Path} {F : Disk → Prop} {dir : Path}
    {pattern : Bytes} {rest : Path → Program Unit} (hspread : Spread g roots s)
    (hnone : ∀ p, s.node p = none → g.node p = none) (hF : F s)
    (hwrote : ∀ t p, s.node p = none → t.node = Function.update s.node p (some (.file [])) → F t)
    (hremove : ∀ t p, F t → F (t.remove p))
    (hrest : ∀ p t, s.node p = none → t.node = Function.update s.node p (some (.file [])) →
      Triple turns (· = t) (rest p) (fun _ _ => True)
        (fun u => Spread g (p :: roots) u ∧ Flat p u ∧ F u)) :
    Triple turns (· = s)
      (do
        let p ← createTemp (.file []) dir pattern
        close.onError (·.remove p)
        Faulty.deferring (·.remove p) (rest p))
      (fun _ _ => True) (fun t => Spread g roots t ∧ F t) := by
  apply ((createTemp_spec (.file []) dir pattern).exit ?_).seq
  · intro p
    apply Triple.of_state
    rintro t ⟨-, -, -, hp, ht⟩
    have hspreadT := spread_update hspread ht
    have hflatT : Flat p t := by
      rw [Flat, ht, Function.update_self]
      nofun
    apply Triple.seq (Q := fun _ u => u = t)
    · apply Triple.onError
      refine close_spec.exit ?_
      rintro u rfl
      exact ⟨spread_remove hspreadT (hnone p hp) hflatT, hremove u p (hwrote u p hp ht)⟩
    · intro _
      apply Triple.deferring
      apply (hrest p t hp ht).exit
      rintro u ⟨hspreadU, hflatU, hFU⟩
      exact ⟨spread_remove hspreadU (hnone p hp) hflatU, hremove u p hFU⟩
  · rintro t ⟨rfl, -⟩
    exact ⟨hspread, hF⟩

/-- The temporary files are made on top of the prepared disk `g`. -/
theorem staging_fails {config : RestoreConfig} {g : Disk} (hdb : g.node config.dbPath = none)
    (hsession : g.node config.sessionDBPath = none) :
    Triple turns (· = g)
      (do
        let mainTemp ← createTemp (.file []) config.dbPath.dropLast (ascii ".restore-data-")
        close.onError (·.remove mainTemp)
        Faulty.deferring (·.remove mainTemp) do
          let sessionTemp ← createTemp (.file []) config.sessionDBPath.dropLast
            (ascii ".restore-sessions-")
          close.onError (·.remove sessionTemp)
          Faulty.deferring (·.remove sessionTemp) do
            let uploadTemp ← createTemp .dir config.uploadDir.dropLast (ascii ".restore-uploads-")
            Faulty.deferring (·.removeAll uploadTemp)
              (install source config mainTemp sessionTemp uploadTemp))
      (fun _ _ => True) (Spread g []) := by
  have hone : ∀ {s t : Disk} {p r : Path} {node : Node UInt8}, s.node p = none → Flat r s →
      t.node = Function.update s.node p (some node) → node ≠ .dir → Flat r t := by
    intro s t p r node hp hr ht hnode
    rw [Flat, ht, Function.update_apply]
    split
    · simpa using hnode
    · exact hr
  apply Triple.mono (P := (· = g)) (Q := fun _ _ => True) (E := fun t => Spread g [] t ∧ True) _
    (fun _ => id) (fun _ _ => id) (fun _ ht => ht.1)
  apply temporary_fails (fun _ _ => rfl) (fun _ => id) trivial (fun _ _ _ _ => trivial)
    (fun _ _ _ => trivial)
  intro mainTemp s₁ hmainNone hs₁
  have hmain₁ : s₁.node mainTemp = some (.file []) := by rw [hs₁, Function.update_self]
  have hflat₁ : Flat mainTemp s₁ := by
    rw [Flat, hmain₁]
    nofun
  have hnone₁ : ∀ p, s₁.node p = none → g.node p = none := by
    intro p hp
    rw [hs₁, Function.update_apply] at hp
    split at hp
    · cases hp
    · exact hp
  apply Triple.mono (P := (· = s₁)) (Q := fun _ _ => True)
    (E := fun t => Spread g [mainTemp] t ∧ Flat mainTemp t) _
    (fun _ => id) (fun _ _ => id) (fun _ ht => ⟨ht.1, ht.2, trivial⟩)
  apply temporary_fails (spread_update (fun _ _ => rfl) hs₁) hnone₁ hflat₁
    (fun t p hp ht => hone hp hflat₁ ht nofun) (fun t p ht => flat_remove ht p)
  intro sessionTemp s₂ hsessionNone hs₂
  have hsession₂ : s₂.node sessionTemp = some (.file []) := by rw [hs₂, Function.update_self]
  have hmain₂ : s₂.node mainTemp = some (.file []) := by
    rw [hs₂, Function.update_of_ne, hmain₁]
    rintro rfl
    rw [hmain₁] at hsessionNone
    cases hsessionNone
  have hspread₂ : Spread g [sessionTemp, mainTemp] s₂ :=
    spread_update (spread_update (fun _ _ => rfl) hs₁) hs₂
  apply ((createTemp_spec .dir _ _).exit ?_).seq
  · intro uploadTemp
    apply Triple.of_state
    rintro s₃ ⟨-, -, -, huploadNone, hs₃⟩
    have hnot : ∀ p, s₂.node p = some (.file []) → ¬ uploadTemp <+: p ∧ s₃.node p = some (.file []) := by
      intro p hp
      have hne : uploadTemp ≠ p := by
        rintro rfl
        rw [hp] at huploadNone
        cases huploadNone
      constructor
      · intro hpre
        rw [s₂.parent_of_prefix hpre hne (by rw [hp]; nofun)] at huploadNone
        cases huploadNone
      · rw [hs₃, Function.update_of_ne (Ne.symm hne), hp]
    obtain ⟨hmainApart, hmain₃⟩ := hnot mainTemp hmain₂
    obtain ⟨hsessionApart, hsession₃⟩ := hnot sessionTemp hsession₂
    have hstaged : Staged g mainTemp sessionTemp uploadTemp s₃ := by
      refine ⟨spread_update hspread₂ hs₃, ?_, ?_⟩
      · rw [Flat, hmain₃]
        nofun
      · rw [Flat, hsession₃]
        nofun
    have hgNone : g.node uploadTemp = none := by
      apply hnone₁
      rw [hs₂, Function.update_apply] at huploadNone
      split at huploadNone
      · cases huploadNone
      · exact huploadNone
    apply Triple.deferring
    apply (install_fails hstaged (by rw [Stands, hs₃, Function.update_self]) hdb hsession hmainApart
      hsessionApart).exit
    intro t ht
    exact ⟨spread_removeAll ht.spread hgNone, flat_removeAll ht.session _, flat_removeAll ht.main _⟩
  · rintro t ⟨rfl, -⟩
    refine ⟨hspread₂, ?_, ?_⟩
    · rw [Flat, hsession₂]
      nofun
    · rw [Flat, hmain₂]
      nofun

/-- What a failure leaves: the targets are as they were, and apart from directories on the
way to them there is nothing new. -/
structure Undone (fs : Disk) (config : RestoreConfig) (s : Disk) : Prop where
  targets : ∀ t ∈ config.targets, Copied fs t s t
  prepared : Prepared fs config s

/-- Each point at which an operation fails. -/
theorem restore_fails {config : RestoreConfig} (hconfig : config.Apart) :
    Triple turns (· = fs) (restore lib source config) (fun _ _ => True) (Undone fs config) := by
  have hself : ∀ s, s = fs → Undone fs config s := by
    rintro s rfl
    exact ⟨fun _ _ _ => rfl, fun q => Or.inl rfl⟩
  rw [restore]
  split
  · exact (Triple.raise _).pre hself
  · next hdbNil =>
    split
    · exact (Triple.raise _).pre hself
    · next huploadNil =>
      have hundone : ∀ s, Prepared fs config s → Undone fs config s := fun s hs =>
        ⟨fun t ht k => prepared_target hconfig hdbNil huploadNil ht hs k, hs⟩
      apply (((verify_spec source).context _).exit hself).seq
      intro _
      apply Triple.of_state
      rintro s ⟨rfl, -⟩
      apply ((fold_checks (fun p => (requireAbsent_spec p).exit fun _ ht => ht.1) _).exit hself).seq
      intro _
      apply Triple.of_state
      rintro s ⟨rfl, habsent⟩
      have hstart : Prepared s config s := (hself s rfl).prepared
      apply ((mkdirAll_spec config.dbPath.dropLast).exit fun t ht =>
        hundone t (prepared_grown hstart (Or.inl rfl) ht.1)).seq
      intro _
      apply Triple.of_state
      rintro g₁ ⟨hgrown₁, -⟩
      have hg₁ := prepared_grown hstart (Or.inl rfl) hgrown₁
      apply ((mkdirAll_spec config.uploadDir.dropLast).exit fun t ht =>
        hundone t (prepared_grown hg₁ (Or.inr rfl) ht.1)).seq
      intro _
      apply Triple.of_state
      rintro g ⟨hgrown, -⟩
      have hg := prepared_grown hg₁ (Or.inr rfl) hgrown
      have hnone : ∀ t ∈ config.targets, g.node t = none := by
        intro t ht
        have htarget := prepared_target hconfig hdbNil huploadNil ht hg []
        rw [List.append_nil] at htarget
        rw [htarget, habsent t ht]
      apply (staging_fails (hnone _ (by simp [RestoreConfig.targets]))
        (hnone _ (by simp [RestoreConfig.targets]))).exit
      exact fun t ht => hundone t (prepared_congr hg (spread_nil ht))

end ZReader.Backup
