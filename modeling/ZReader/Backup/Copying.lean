import ZReader.Backup.Verification

namespace ZReader.Backup

open Lib.Utf8 Lib.Faults Lib.Files Lib.LexicalPath

/-- Among the turns are some in which an operation fails. -/
def Trouble (turns : Turn → Prop) : Prop := ¬ ∀ w, turns w → Smooth w

section Calls

variable {α : Type} {turns : Turn → Prop} {fs : Disk} {Q : α → Disk → Prop} {E : Disk → Prop}

/-- A call either succeeds or leaves all as it is, and fails only in trouble or where it
cannot succeed. -/
theorem call_spec {f : Turn → Disk → Option (α × Disk)}
    (hok : ∀ w a s, f w fs = some (a, s) → Q a s)
    (herror : Trouble turns ∨ (∃ w, turns w ∧ f w fs = none) → E fs) :
    Triple turns (· = fs) (call f) Q E := by
  apply Triple.operation
  · rintro w s a s' - rfl h
    split at h
    · next heq =>
      cases h
      exact hok w _ _ heq
    · cases h
  · rintro w s e s' hw rfl h
    split at h
    · cases h
    · next hnot =>
      cases h
      apply herror
      cases hf : f w s with
      | none => exact Or.inr ⟨w, hw, hf⟩
      | some r =>
          left
          intro hall
          exact hnot r.1 r.2 (hall w hw) hf

end Calls

variable {turns : Turn → Prop} {fs : Disk} {p : Path}

theorem readFile_found {content : Bytes} (h : fs.node p = some (.file content)) :
    Triple turns (· = fs) (readFile p) (fun c s => s = fs ∧ c = content)
      (fun s => s = fs ∧ Trouble turns) := by
  rw [← fileAt_eq_some] at h
  apply call_spec
  · intro w a s heq
    rw [h] at heq
    cases heq
    exact ⟨rfl, rfl⟩
  · rintro (htrouble | ⟨w, -, heq⟩)
    · exact ⟨rfl, htrouble⟩
    · rw [h] at heq
      cases heq

/-- Nothing but one path has changed, and that one to a file if at all. -/
structure Wrote (fs : Disk) (p : Path) (s : Disk) : Prop where
  other : ∀ q, q ≠ p → s.node q = fs.node q
  self : s.node p = fs.node p ∨ fs.node p ≠ some .dir ∧ ∃ content, s.node p = some (.file content)

theorem wrote_self (fs : Disk) (p : Path) : Wrote fs p fs := ⟨fun _ _ => rfl, Or.inl rfl⟩

theorem wrote_put {content : Bytes} {s : Disk} (h : Wrote fs p s) (hput : s.CanPut p) :
    Wrote fs p (s.put p (.file content) hput) := by
  refine ⟨?_, Or.inr ⟨?_, content, ?_⟩⟩
  · intro q hq
    rw [FileSystem.put_node, Function.update_of_ne hq]
    exact h.other q hq
  · rcases h.self with heq | ⟨hdir, -⟩
    · rw [← heq]
      exact hput.2.2
    · exact hdir
  · rw [FileSystem.put_node, Function.update_self]

theorem openFile_spec (p : Path) : Triple turns (· = fs) (openFile p)
    (fun _ s => Wrote fs p s ∧ fs.CanPut p ∧ s.CanPut p)
    (fun s => s = fs ∧ (fs.CanPut p → Trouble turns)) := by
  apply call_spec
  · intro w a s heq
    split at heq
    · next hput =>
      cases heq
      refine ⟨wrote_put (wrote_self fs p) hput, hput, hput.1, ?_, ?_⟩
      · rw [FileSystem.put_node, Function.update_of_ne, hput.2.1]
        intro hp
        have hlen := congrArg List.length hp
        rw [List.length_dropLast] at hlen
        have := List.length_pos_iff.mpr hput.1
        omega
      · rw [FileSystem.put_node, Function.update_self]
        nofun
    · cases heq
  · rintro (htrouble | ⟨w, -, heq⟩)
    · exact ⟨rfl, fun _ => htrouble⟩
    · refine ⟨rfl, fun hput => ?_⟩
      rw [dif_pos hput] at heq
      cases heq

theorem copy_spec {content : Bytes} {s₁ : Disk} (hwrote : Wrote fs p s₁) (hput : s₁.CanPut p) :
    Triple turns (· = s₁) (copy content p)
      (fun _ s => Wrote fs p s ∧ s.node p = some (.file content))
      (fun s => Wrote fs p s ∧ Trouble turns) := by
  apply Triple.operation
  · rintro w s a s' - rfl heq
    rw [dif_pos hput] at heq
    split at heq
    · cases heq
      refine ⟨wrote_put hwrote hput, ?_⟩
      rw [FileSystem.put_node, Function.update_self]
    · cases heq
  · rintro w s e s' hw rfl heq
    rw [dif_pos hput] at heq
    split at heq
    · cases heq
    · next hbad =>
      cases heq
      exact ⟨wrote_put hwrote hput, fun hall => hbad (hall w hw)⟩

theorem close_found {P : Disk → Prop} : Triple turns P close (fun _ => P)
    (fun s => P s ∧ Trouble turns) := by
  apply Triple.of_state
  intro s hs
  apply call_spec
  · intro w a t heq
    cases heq
    exact hs
  · rintro (htrouble | ⟨w, -, heq⟩)
    · exact ⟨hs, htrouble⟩
    · cases heq

/-- The end of a copy and of a file that is written. -/
theorem fill_spec (content : Bytes) (p : Path) : Triple turns (· = fs)
    (do openFile p; copy content p; close)
    (fun _ s => Wrote fs p s ∧ s.node p = some (.file content))
    (fun s => Wrote fs p s ∧ (fs.CanPut p → Trouble turns)) := by
  apply ((openFile_spec p).exit ?_).seq
  · intro _
    apply Triple.of_state
    rintro s ⟨hwrote, hcan, hput⟩
    apply ((copy_spec hwrote hput).exit ?_).seq
    · intro _
      exact close_found.exit fun s hs => ⟨hs.1.1, fun _ => hs.2⟩
    · exact fun s hs => ⟨hs.1, fun _ => hs.2⟩
  · rintro s ⟨rfl, htrouble⟩
    exact ⟨wrote_self s p, htrouble⟩

theorem copyFile_spec {source : Path} {content : Bytes}
    (h : fs.node source = some (.file content)) (p : Path) :
    Triple turns (· = fs) (copyFile source p)
      (fun _ s => Wrote fs p s ∧ s.node p = some (.file content))
      (fun s => Wrote fs p s ∧ (fs.CanPut p → Trouble turns)) := by
  apply ((readFile_found h).exit ?_).seq
  · intro c
    apply Triple.of_state
    rintro s ⟨rfl, rfl⟩
    exact fill_spec c p
  · rintro s ⟨rfl, htrouble⟩
    exact ⟨wrote_self s p, fun _ => htrouble⟩

/-! ## Directories -/

/-- Directories on the way to a path have been added, and nothing else. -/
def Grown (fs : Disk) (p : Path) (s : Disk) : Prop :=
  ∀ q, s.node q = fs.node q ∨ fs.node q = none ∧ s.node q = some .dir ∧ q <+: p

theorem grown_self (fs : Disk) (p : Path) : Grown fs p fs := fun _ => Or.inl rfl

theorem grown_trans {q : Path} {s t : Disk} (hst : Grown s q t) (hqp : q <+: p) (h : Grown fs p s) :
    Grown fs p t := by
  intro k
  rcases hst k with heq | ⟨hnone, hdir, hk⟩
  · rw [heq]
    exact h k
  · rcases h k with heq' | ⟨-, hdir', -⟩
    · exact Or.inr ⟨heq' ▸ hnone, hdir, hk.trans hqp⟩
    · rw [hdir'] at hnone
      cases hnone

theorem grown_dir {s : Disk} (h : Grown fs p s) {q : Path} (hq : fs.node q = some .dir) :
    s.node q = some .dir := by
  rcases h q with heq | ⟨hnone, -⟩
  · rw [heq, hq]
  · rw [hq] at hnone
    cases hnone

theorem mkdir_spec (p : Path) : Triple turns (· = fs) (mkdir p)
    (fun _ s => Grown fs p s ∧ s.node p = some .dir)
    (fun s => s = fs ∧
      ((p = [] ∨ fs.node p.dropLast = some .dir) → fileAt fs p = none → Trouble turns)) := by
  apply call_spec
  · intro w a s heq
    split at heq
    · next hdir =>
      cases heq
      exact ⟨grown_self fs p, hdir⟩
    · split at heq
      · next hput =>
        cases heq
        rw [FileSystem.put_node, Function.update_self]
        refine ⟨?_, rfl⟩
        intro q
        rw [FileSystem.put_node]
        by_cases hq : q = p
        · rw [hq, Function.update_self]
          exact Or.inr ⟨hput.1, rfl, List.prefix_rfl⟩
        · exact Or.inl (Function.update_of_ne hq _ _)
      · cases heq
  · rintro (htrouble | ⟨w, -, heq⟩)
    · exact ⟨rfl, fun _ _ => htrouble⟩
    · refine ⟨rfl, fun hparent hfile => ?_⟩
      exfalso
      split at heq
      · cases heq
      · next hdir =>
        have hnone : fs.node p = none := by
          rw [fileAt] at hfile
          cases hp : fs.node p with
          | none => rfl
          | some node =>
              rw [hp] at hfile hdir
              cases node with
              | file content => cases hfile
              | dir => exact absurd rfl hdir
        have hne : p ≠ [] := by
          rintro rfl
          exact hdir fs.root
        rw [dif_pos ⟨hnone, hne, hparent.resolve_left hne, hdir⟩] at heq
        cases heq

/-- The path before a path of `inits` stands earlier. -/
theorem dropLast_mem_inits {done rest : List Path} {b : Path} (h : p.inits = done ++ b :: rest) :
    b = [] ∨ b.dropLast ∈ done := by
  have hlen : done.length < p.inits.length := by rw [h]; simp
  have hb : b = p.take done.length := by
    have := List.getElem_inits p done.length hlen
    rw [← this]
    simp [h]
  have hbound : done.length ≤ p.length := by
    rw [List.length_inits] at hlen
    omega
  rcases Nat.eq_zero_or_pos done.length with hzero | hpos
  · left
    rw [hb, hzero, List.take_zero]
  · right
    have hlen' : done.length - 1 < p.inits.length := by omega
    have hget := List.getElem_inits p (done.length - 1) hlen'
    have heq : b.dropLast = p.take (done.length - 1) := by
      rw [hb, List.dropLast_eq_take, List.take_take, List.length_take]
      congr 1
      omega
    rw [heq, ← hget]
    simp only [h]
    rw [List.getElem_append_left (by omega)]
    exact List.getElem_mem _

theorem mkdirAll_spec (p : Path) : Triple turns (· = fs) (mkdirAll p)
    (fun _ s => Grown fs p s ∧ s.node p = some .dir)
    (fun s => Grown fs p s ∧ ((∀ q, q <+: p → fileAt fs q = none) → Trouble turns)) := by
  apply Triple.post
  · apply Triple.pre
    · apply Triple.fold fun done _ s => Grown fs p s ∧ ∀ q ∈ done, s.node q = some .dir
      intro done b rest hinits _
      apply Triple.of_state
      rintro s ⟨hgrown, hdone⟩
      have hbp : b <+: p := List.mem_inits b p |>.mp (by rw [hinits]; simp)
      apply (mkdir_spec b).mono (fun _ => id)
      · rintro _ t ⟨hst, hb⟩
        refine ⟨grown_trans hst hbp hgrown, ?_⟩
        intro q hq
        rcases List.mem_append.mp hq with hq | hq
        · exact grown_dir hst (hdone q hq)
        · rw [List.mem_singleton.mp hq, hb]
      · rintro t ⟨rfl, htrouble⟩
        refine ⟨hgrown, fun hfree => ?_⟩
        apply htrouble
        · exact (dropLast_mem_inits hinits).imp id fun hmem => hdone _ hmem
        · have hfile := hfree b hbp
          rcases hgrown b with heq | ⟨-, hdir, -⟩
          · rw [fileAt, heq]
            exact hfile
          · rw [fileAt, hdir]
    · rintro s rfl
      exact ⟨grown_self s p, by simp⟩
  · rintro _ s ⟨hgrown, hall⟩
    exact ⟨hgrown, hall p (List.mem_inits p p |>.mpr List.prefix_rfl)⟩

/-! ## Changes within a directory -/

/-- The path is a directory, and outside of it nothing has changed. -/
structure Within (fs : Disk) (d : Path) (s : Disk) : Prop where
  dir : s.node d = some .dir
  outside : ∀ q, ¬ d <+: q → s.node q = fs.node q

theorem within_self {d : Path} (h : fs.node d = some .dir) : Within fs d fs := ⟨h, fun _ _ => rfl⟩

theorem within_wrote {d : Path} {s t : Disk} (h : Within fs d s) (hdp : d <+: p)
    (hst : Wrote s p t) : Within fs d t := by
  constructor
  · by_cases heq : d = p
    · subst heq
      rcases hst.self with heq | ⟨hdir, -⟩
      · rw [heq, h.dir]
      · exact absurd h.dir hdir
    · rw [hst.other d heq, h.dir]
  · intro q hq
    rw [hst.other q (by rintro rfl; exact hq hdp), h.outside q hq]

theorem within_grown {d : Path} {s t : Disk} (h : Within fs d s) (hdp : d <+: p)
    (hst : Grown s p t) : Within fs d t := by
  constructor
  · exact grown_dir hst h.dir
  · intro q hq
    rcases hst q with heq | ⟨hnone, -, hqp⟩
    · rw [heq, h.outside q hq]
    · -- A new directory is no part of the way to `d`.
      rcases List.prefix_or_prefix_of_prefix hqp hdp with hqd | hdq
      · have hne : q ≠ d := by
          rintro rfl
          exact hq List.prefix_rfl
        rw [s.parent_of_prefix hqd hne (by rw [h.dir]; nofun)] at hnone
        cases hnone
      · exact absurd hdq hq

theorem mkdirAll_within {d : Path} (hdp : d <+: p) :
    Triple turns (Within fs d) (mkdirAll p) (fun _ => Within fs d) (Within fs d) := by
  apply Triple.of_state
  intro s hs
  exact (mkdirAll_spec p).mono (fun _ => id) (fun _ t ht => within_grown hs hdp ht.1)
    fun t ht => within_grown hs hdp ht.1

theorem writeFile_within {d : Path} (hdp : d <+: p) (content : Bytes) :
    Triple turns (Within fs d) (writeFile p content) (fun _ => Within fs d) (Within fs d) := by
  apply Triple.of_state
  intro s hs
  exact (fill_spec content p).mono (fun _ => id) (fun _ t ht => within_wrote hs hdp ht.1)
    fun t ht => within_wrote hs hdp ht.1

theorem copyFile_within {d : Path} (hdp : d <+: p) (source : Path) :
    Triple turns (Within fs d) (copyFile source p) (fun _ => Within fs d) (Within fs d) := by
  apply Triple.of_state
  intro s hs
  apply ((readFile_spec source).exit ?_).seq
  · intro content
    apply Triple.of_state
    rintro t ⟨rfl, -⟩
    exact writeFile_within hdp content |>.pre (by rintro t rfl; exact hs)
  · rintro t rfl
    exact hs

/-- What every call of the function keeps is kept by the walk. -/
theorem walk_invariant {α : Type} {P : Disk → Prop} {fn : α → Path → Bool → Program α}
    (h : ∀ a q isDir, Triple turns P (fn a q isDir) (fun _ => P) P) (n : ℕ) :
    ∀ a q isDir, Triple turns P (walk fn n a q isDir) (fun _ => P) P := by
  induction n with
  | zero => exact fun _ _ _ => Triple.raise _
  | succ n ih =>
      intro a q isDir
      apply (h a q isDir).seq
      intro b
      cases isDir with
      | false => exact Triple.ret (Q := fun _ => P) b
      | true =>
          apply Triple.seq (Q := fun _ => P)
          · apply call_triple
            · intro w s entries t hs heq
              split at heq
              · cases heq
                exact hs
              · cases heq
            · exact fun _ => id
          · intro entries
            apply Triple.fold fun _ _ => P
            exact fun _ entry _ _ a => ih a _ _

theorem walkDir_invariant {α : Type} {P : Disk → Prop} {fn : α → Path → Bool → Program α}
    (h : ∀ a q isDir, Triple turns P (fn a q isDir) (fun _ => P) P) (root : Path) (a : α) :
    Triple turns P (walkDir root fn a) (fun _ => P) P := by
  apply Triple.seq (Q := fun _ => P)
  · apply call_triple
    · intro w s node t hs heq
      split at heq
      · cases heq
      · cases heq
        exact hs
    · exact fun _ => id
  · intro node
    cases node with
    | none => exact Triple.raise _
    | some node => exact walk_invariant h maxDepth a root _

theorem copyEntry_within {d destination : Path} (hd : d <+: destination) (source q : Path)
    (isDir : Bool) :
    Triple turns (Within fs d) (copyEntry source destination q isDir) (fun _ => Within fs d)
      (Within fs d) := by
  have htarget : d <+: destination ++ q.drop source.length := hd.trans (List.prefix_append _ _)
  rw [copyEntry]
  split
  · exact Triple.ret (Q := fun _ => Within fs d) ()
  · split
    · exact Triple.raise _
    · cases isDir with
      | false => exact copyFile_within htarget q
      | true => exact mkdirAll_within htarget

theorem copyTree_within {d destination : Path} (hd : d <+: destination) (source : Path) :
    Triple turns (Within fs d) (copyTree source destination) (fun _ => Within fs d) (Within fs d) :=
  (mkdirAll_within hd).seq fun _ =>
    walkDir_invariant (fun _ q isDir => copyEntry_within hd source q isDir) source ()

/-! ## A tree is copied -/

/-- The walk comes to an end below the path, and no name on the way is refused. -/
def Fits (fs : Disk) (source r : Path) (n : ℕ) : Prop :=
  ∀ k, fs.node (source ++ (r ++ k)) ≠ none → k.length < n ∧
    (r ++ k ≠ [] → safeRelativePath ([slash].intercalate (r ++ k)) = true)

theorem relative_append (root r : Path) : relative root (root ++ r) = [slash].intercalate r := by
  rw [relative, List.drop_left]

/-- An entry that is not yet there is copied. -/
theorem copyEntry_spec {source destination r : Path} {node : Node UInt8} (hr : r ≠ [])
    (hnode : fs.node (source ++ r) = some node) (hnone : fs.node (destination ++ r) = none)
    (hparent : fs.node (destination ++ r.dropLast) = some .dir) :
    Triple turns (· = fs) (copyEntry source destination (source ++ r) (node = .dir))
      (fun _ s => s.node = Function.update fs.node (destination ++ r) (some node) ∧
        safeRelativePath ([slash].intercalate r) = true)
      (fun _ => safeRelativePath ([slash].intercalate r) = true → Trouble turns) := by
  rw [copyEntry, if_neg (by simpa using hr), relative_append, List.drop_left]
  have hdropLast : (destination ++ r).dropLast = destination ++ r.dropLast :=
    List.dropLast_append_of_ne_nil hr
  split
  · next hrefused =>
    refine (Triple.raise _).pre fun s _ hsafe => ?_
    rw [hrefused] at hsafe
    cases hsafe
  · next hsafe =>
    rw [Bool.not_eq_false] at hsafe
    cases node with
    | file content =>
        apply (copyFile_spec hnode (destination ++ r)).mono (fun _ => id)
        · rintro _ s ⟨hwrote, hself⟩
          refine ⟨?_, hsafe⟩
          funext q
          by_cases hq : q = destination ++ r
          · rw [hq, Function.update_self, hself]
          · rw [Function.update_of_ne hq, hwrote.other q hq]
        · rintro s ⟨-, htrouble⟩ -
          apply htrouble
          refine ⟨by simp [hr], ?_, ?_⟩
          · rw [hdropLast, hparent]
          · rw [hnone]
            nofun
    | dir =>
        have hway : ∀ q, q <+: destination ++ r → q ≠ destination ++ r → fs.node q = some .dir := by
          intro q hq hne
          have hq' : q <+: destination ++ r.dropLast := by
            obtain ⟨k, hk⟩ := hq
            have hknil : k ≠ [] := by
              rintro rfl
              rw [List.append_nil] at hk
              exact hne hk
            rw [← hdropLast, ← hk, List.dropLast_append_of_ne_nil hknil]
            exact List.prefix_append _ _
          by_cases heq : q = destination ++ r.dropLast
          · rw [heq, hparent]
          · exact fs.parent_of_prefix hq' heq (by rw [hparent]; nofun)
        simp only [decide_true, if_true]
        apply (mkdirAll_spec (destination ++ r)).mono (fun _ => id)
        · rintro _ s ⟨hgrown, hself⟩
          refine ⟨?_, hsafe⟩
          funext q
          by_cases hq : q = destination ++ r
          · rw [hq, Function.update_self, hself]
          · rw [Function.update_of_ne hq]
            rcases hgrown q with heq | ⟨hnone', -, hqp⟩
            · exact heq
            · rw [hway q hqp hq] at hnone'
              cases hnone'
        · rintro s ⟨-, htrouble⟩ -
          apply htrouble
          intro q hq
          by_cases heq : q = destination ++ r
          · rw [fileAt, heq, hnone]
          · rw [fileAt, hway q hq heq]

theorem readDir_found (h : fs.node p = some .dir) :
    Triple turns (· = fs) (readDir p)
      (fun entries s => s = fs ∧ entries =
        (fs.children p).map fun name => (name, decide (fs.node (p ++ [name]) = some .dir)))
      (fun s => s = fs ∧ Trouble turns) := by
  apply call_spec
  · intro w a s heq
    rw [if_pos h] at heq
    cases heq
    exact ⟨rfl, rfl⟩
  · rintro (htrouble | ⟨w, -, heq⟩)
    · exact ⟨rfl, htrouble⟩
    · rw [if_pos h] at heq
      cases heq

/-- The paths at and below `p` are those that were at and below `q`. -/
def Copied (fs : Disk) (q : Path) (s : Disk) (p : Path) : Prop := ∀ k, s.node (p ++ k) = fs.node (q ++ k)

/-- Before the copy of a subtree: the place for it is empty, but for the root, which stands. -/
structure Ready (destination r : Path) (s : Disk) : Prop where
  self : s.node (destination ++ r) = if r = [] then some .dir else none
  below : ∀ k, k ≠ [] → s.node (destination ++ (r ++ k)) = none
  parent : r ≠ [] → s.node (destination ++ r.dropLast) = some .dir

section Walk

variable {source destination : Path}

/-- The visit of one entry, the root included. -/
theorem visit_spec {r : Path} {node : Node UInt8} (hnode : fs.node (source ++ r) = some node)
    (hroot : r = [] → node = .dir) (hready : Ready destination r fs) :
    Triple turns (· = fs) (copyEntry source destination (source ++ r) (node = .dir))
      (fun _ s => s.node = Function.update fs.node (destination ++ r) (some node) ∧
        (r ≠ [] → safeRelativePath ([slash].intercalate r) = true))
      (fun _ => (r ≠ [] → safeRelativePath ([slash].intercalate r) = true) → Trouble turns) := by
  by_cases hr : r = []
  · subst hr
    rw [copyEntry, if_pos (List.append_nil source)]
    apply (Triple.ret (Q := fun _ s => s = fs) ()).mono (fun _ => id)
    · rintro _ s rfl
      refine ⟨?_, fun h => absurd rfl h⟩
      have hself := hready.self
      rw [if_pos rfl] at hself
      rw [hroot rfl, ← hself, Function.update_eq_self]
    · exact fun _ h => h
  · have hself := hready.self
    rw [if_neg hr] at hself
    apply (copyEntry_spec hr hnode hself (hready.parent hr)).mono (fun _ => id)
    · exact fun _ s hs => ⟨hs.1, fun _ => hs.2⟩
    · exact fun s hs hsafe => hs (hsafe hr)

/-- After some entries of a directory: they are copied, the others have not been begun, and
elsewhere is what was there when the directory was read. -/
structure Half (fs s₁ : Disk) (source destination r : Path) (n : ℕ) (names : List Bytes) (s : Disk) :
    Prop where
  copied : ∀ c ∈ names, Copied fs (source ++ (r ++ [c])) s (destination ++ (r ++ [c]))
  begun : ∀ c, c ∉ names → ∀ k, s.node (destination ++ (r ++ c :: k)) = none
  elsewhere : ∀ q, (∀ c k, q ≠ destination ++ (r ++ c :: k)) → s.node q = s₁.node q
  fits : ∀ c ∈ names, Fits fs source (r ++ [c]) n

theorem half_snoc {s₁ s t : Disk} {r : Path} {n : ℕ} {names : List Bytes} {c : Bytes}
    (h : Half fs s₁ source destination r n names s) (hc : c ∉ names)
    (hcopied : Copied fs (source ++ (r ++ [c])) t (destination ++ (r ++ [c])))
    (hfits : Fits fs source (r ++ [c]) n)
    (hframe : ∀ q, ¬ destination ++ (r ++ [c]) <+: q → t.node q = s.node q) :
    Half fs s₁ source destination r n (names ++ [c]) t := by
  have happart : ∀ b k, b ≠ c → ¬ destination ++ (r ++ [c]) <+: destination ++ (r ++ b :: k) := by
    intro b k hb hpre
    rw [List.prefix_append_right_inj, List.prefix_append_right_inj, List.cons_prefix_cons] at hpre
    exact hb hpre.1.symm
  constructor
  · intro b hb k
    rcases List.mem_append.mp hb with hmem | hmem
    · have hbc : b ≠ c := by
        rintro rfl
        exact hc hmem
      rw [hframe, h.copied b hmem k]
      simpa using happart b k hbc
    · rw [List.mem_singleton.mp hmem]
      exact hcopied k
  · intro b hb k
    rw [List.mem_append, List.mem_singleton, not_or] at hb
    rw [hframe _ (happart b k hb.2), h.begun b hb.1 k]
  · intro q hq
    rw [hframe, h.elsewhere q hq]
    rintro ⟨k, rfl⟩
    exact hq c k (by simp)
  · intro b hb
    rcases List.mem_append.mp hb with hmem | hmem
    · exact h.fits b hmem
    · rw [List.mem_singleton.mp hmem]
      exact hfits

/-- The walk, with a depth of `n` left, copies each subtree to an empty place. -/
def CopiesTrees (turns : Turn → Prop) (fs : Disk) (source destination : Path) (n : ℕ) : Prop :=
  ∀ (r : Path) (node : Node UInt8) (s₀ : Disk), Copied fs source s₀ source →
    fs.node (source ++ r) = some node → (r = [] → node = .dir) → Ready destination r s₀ →
    Triple turns (· = s₀)
      (walk (fun _ p isDir => copyEntry source destination p isDir) n () (source ++ r) (node = .dir))
      (fun _ s => Copied fs (source ++ r) s (destination ++ r) ∧
        (∀ q, ¬ destination ++ r <+: q → s.node q = s₀.node q) ∧ Fits fs source r n)
      (fun _ => Fits fs source r n → Trouble turns)

/-- The loop over the entries of a directory that was just read. -/
theorem copy_entries (hsep : ∀ a b, source ++ a ≠ destination ++ b) {n : ℕ}
    (ih : CopiesTrees turns fs source destination n) {r : Path} {s₁ : Disk}
    (hsource : Copied fs source s₁ source) (hself : s₁.node (destination ++ r) = some .dir)
    (hempty : ∀ k, k ≠ [] → s₁.node (destination ++ (r ++ k)) = none) :
    Triple turns (· = s₁)
      (.fold (fun a entry => walk (fun _ p isDir => copyEntry source destination p isDir) n a
          (source ++ r ++ [entry.1]) entry.2) ()
        ((s₁.children (source ++ r)).map fun name =>
          (name, decide (s₁.node (source ++ r ++ [name]) = some .dir))))
      (fun _ s => Half fs s₁ source destination r n (s₁.children (source ++ r)) s)
      (fun _ => (∀ c, Fits fs source (r ++ [c]) n) → Trouble turns) := by
  have hnames : ((s₁.children (source ++ r)).map fun name =>
      (name, decide (s₁.node (source ++ r ++ [name]) = some .dir))).map Prod.fst =
        s₁.children (source ++ r) := by
    rw [List.map_map]
    exact List.map_id _
  apply Triple.mono (P := fun s => Half fs s₁ source destination r n [] s)
    (Q := fun _ s => Half fs s₁ source destination r n (((s₁.children (source ++ r)).map fun name =>
      (name, decide (s₁.node (source ++ r ++ [name]) = some .dir))).map Prod.fst) s)
    (E := fun _ => (∀ c, Fits fs source (r ++ [c]) n) → Trouble turns)
  · apply Triple.fold fun done _ s => Half fs s₁ source destination r n (done.map Prod.fst) s
    intro done entry rest hentries _
    apply Triple.of_state
    intro s hhalf
    have hmem : entry ∈ (s₁.children (source ++ r)).map fun name =>
        (name, decide (s₁.node (source ++ r ++ [name]) = some .dir)) := by
      rw [hentries]
      simp
    obtain ⟨c, hc, rfl⟩ := List.mem_map.mp hmem
    have hfresh : c ∉ done.map Prod.fst := by
      have hnodup : (s₁.children (source ++ r)).Nodup := FileSystem.nodup_children
      rw [← hnames, hentries, List.map_append, List.map_cons] at hnodup
      intro hin
      exact List.disjoint_of_nodup_append hnodup hin List.mem_cons_self
    rw [FileSystem.mem_children, List.append_assoc, hsource] at hc
    obtain ⟨child, hchild⟩ := Option.ne_none_iff_exists'.mp hc
    have hsourceS : Copied fs source s source := by
      intro k
      rw [hhalf.elsewhere _ (fun b j => hsep k (r ++ b :: j)), hsource]
    have hready : Ready destination (r ++ [c]) s := by
      constructor
      · rw [hhalf.begun c hfresh, if_neg (by simp)]
      · intro k _
        rw [List.append_assoc, List.singleton_append, hhalf.begun c hfresh]
      · intro _
        rw [List.dropLast_concat, hhalf.elsewhere _ (by simp), hself]
    dsimp only
    rw [List.append_assoc, hsource, hchild]
    simp only [Option.some.injEq]
    apply (ih (r ++ [c]) child s hsourceS hchild (by simp) hready).mono (fun _ => id)
    · rintro _ t ⟨hcopied, hframe, hfits⟩
      rw [List.map_append, List.map_cons, List.map_nil]
      exact half_snoc hhalf hfresh hcopied hfits hframe
    · exact fun t ht hfits => ht (hfits c)
  · rintro s rfl
    refine ⟨by simp, ?_, fun _ _ => rfl, by simp⟩
    intro c _ k
    exact hempty _ (List.cons_ne_nil c k)
  · intro _ s hhalf
    rwa [hnames] at hhalf
  · exact fun _ => id

/-- After all entries. -/
theorem half_done {n : ℕ} {r : Path} {s₁ s : Disk}
    (h : Half fs s₁ source destination r n (s₁.children (source ++ r)) s)
    (hsource : Copied fs source s₁ source) (hnode : fs.node (source ++ r) = some .dir)
    (hself : s₁.node (destination ++ r) = some .dir)
    (hsafe : r ≠ [] → safeRelativePath ([slash].intercalate r) = true) :
    Copied fs (source ++ r) s (destination ++ r) ∧ Fits fs source r (n + 1) := by
  have hchild : ∀ c, c ∈ s₁.children (source ++ r) ↔ fs.node (source ++ (r ++ [c])) ≠ none := by
    intro c
    rw [FileSystem.mem_children, List.append_assoc, hsource]
  have hbelow : ∀ c k, c ∉ s₁.children (source ++ r) → fs.node (source ++ (r ++ c :: k)) = none := by
    intro c k hc
    rw [hchild, not_not] at hc
    by_contra hk
    by_cases hknil : k = []
    · exact hk (hknil ▸ hc)
    · have hpre : source ++ (r ++ [c]) <+: source ++ (r ++ c :: k) := ⟨k, by simp⟩
      have hdir := fs.parent_of_prefix hpre (by simpa using Ne.symm hknil) hk
      rw [hc] at hdir
      cases hdir
  constructor
  · intro k
    rw [List.append_assoc, List.append_assoc]
    cases k with
    | nil => rw [List.append_nil, h.elsewhere _ (by simp), hself, hnode]
    | cons c k =>
        by_cases hc : c ∈ s₁.children (source ++ r)
        · have hcopied := h.copied c hc k
          simpa using hcopied
        · rw [h.begun c hc k, hbelow c k hc]
  · intro k hk
    cases k with
    | nil =>
        rw [List.append_nil]
        exact ⟨Nat.succ_pos n, hsafe⟩
    | cons c k =>
        have hc : c ∈ s₁.children (source ++ r) := by
          by_contra hc
          exact hk (hbelow c k hc)
        have hfits := h.fits c hc k (by simpa using hk)
        rw [List.append_assoc, List.singleton_append] at hfits
        exact ⟨Nat.succ_lt_succ hfits.1, hfits.2⟩

/-- The induction is on the depth that is left. -/
theorem copy_walk (hsep : ∀ a b, source ++ a ≠ destination ++ b) (n : ℕ) :
    CopiesTrees turns fs source destination n := by
  induction n with
  | zero =>
      intro r node s₀ hsource hnode hroot hready
      refine (Triple.raise _).pre fun s _ hfits => ?_
      have hnot := (hfits [] (by rw [List.append_nil, hnode]; nofun)).1
      exact absurd hnot (Nat.not_lt_zero _)
  | succ n ih =>
      intro r node s₀ hsource hnode hroot hready
      have hsafe : Fits fs source r (n + 1) → r ≠ [] → safeRelativePath ([slash].intercalate r) = true := by
        intro hfits hr
        have h := (hfits [] (by rw [List.append_nil, hnode]; nofun)).2
        rw [List.append_nil] at h
        exact h hr
      have hnode₀ : s₀.node (source ++ r) = some node := by rw [hsource, hnode]
      apply ((visit_spec hnode₀ hroot hready).exit fun s hs hfits => hs (hsafe hfits)).seq
      intro _
      apply Triple.of_state
      rintro s₁ ⟨hs₁, hsafeR⟩
      have hkeep : ∀ q, q ≠ destination ++ r → s₁.node q = s₀.node q := by
        intro q hq
        rw [hs₁, Function.update_of_ne hq]
      have hself : s₁.node (destination ++ r) = some node := by rw [hs₁, Function.update_self]
      have hsource₁ : Copied fs source s₁ source := fun k => by rw [hkeep _ (hsep k r), hsource]
      cases node with
      | file content =>
          refine (Triple.ret (Q := fun _ s => s = s₁) ()).mono (fun _ => id) ?_ (fun _ => False.elim)
          rintro _ s rfl
          have hnone : ∀ k, k ≠ [] → fs.node (source ++ (r ++ k)) = none := by
            intro k hk
            apply fs.none_below (p := source ++ r)
            · rw [hnode]
              nofun
            · exact ⟨k, by simp⟩
            · simpa using hk
          refine ⟨?_, ?_, ?_⟩
          · intro k
            by_cases hk : k = []
            · rw [hk, List.append_nil, List.append_nil, hself, hnode]
            · rw [List.append_assoc, List.append_assoc, hnone k hk, hkeep _ (by simpa using hk),
                hready.below k hk]
          · intro q hq
            exact hkeep q (by rintro rfl; exact hq List.prefix_rfl)
          · intro k hk
            by_cases hknil : k = []
            · rw [hknil, List.append_nil]
              exact ⟨Nat.succ_pos n, hsafeR⟩
            · exact absurd (hnone k hknil) hk
      | dir =>
          have hdir : s₁.node (source ++ r) = some .dir := by rw [hsource₁, hnode]
          apply ((readDir_found hdir).exit fun s hs _ => hs.2).seq
          intro entries
          apply Triple.of_state
          rintro s ⟨rfl, rfl⟩
          apply (copy_entries hsep ih hsource₁ hself ?_).mono (fun _ => id)
          · rintro _ t hhalf
            obtain ⟨hcopied, hfits⟩ := half_done hhalf hsource₁ hnode hself hsafeR
            refine ⟨hcopied, ?_, hfits⟩
            intro q hq
            rw [hhalf.elsewhere, hkeep]
            · rintro rfl
              exact hq List.prefix_rfl
            · rintro c k rfl
              exact hq ⟨c :: k, by simp⟩
          · intro t htrouble hfits
            apply htrouble
            intro c k hk
            rw [List.append_assoc, List.singleton_append] at hk ⊢
            obtain ⟨hlen, hsafeK⟩ := hfits (c :: k) hk
            exact ⟨by simpa using hlen, hsafeK⟩
          · intro k hk
            rw [hkeep _ (by simpa using hk), hready.below k hk]

end Walk

theorem lstat_found {node : Node UInt8} (h : fs.node p = some node) :
    Triple turns (· = fs) (lstat p) (fun found s => s = fs ∧ found = some node)
      (fun s => s = fs ∧ Trouble turns) := by
  have hfree : blocked fs p = false := by
    rw [blocked, List.any_eq_false]
    intro q hq
    rw [List.mem_inits] at hq
    by_cases hqp : q = p
    · simp [hqp]
    · have hdir := fs.parent_of_prefix hq hqp (by rw [h]; nofun)
      simp [fileAt, hdir]
  apply call_spec
  · intro w a s heq
    rw [if_neg (by simp [hfree])] at heq
    cases heq
    exact ⟨rfl, h⟩
  · rintro (htrouble | ⟨w, -, heq⟩)
    · exact ⟨rfl, htrouble⟩
    · rw [if_neg (by simp [hfree])] at heq
      cases heq

/-- The copy of a directory to a place that holds nothing, apart from the directory. -/
theorem copyTree_spec {source destination : Path} (hsource : ¬ source <+: destination)
    (hdestination : ¬ destination <+: source) (hdir : fs.node source = some .dir)
    (hempty : ∀ k, k ≠ [] → fs.node (destination ++ k) = none) :
    Triple turns (· = fs) (copyTree source destination)
      (fun _ s => Copied fs source s destination ∧ Fits fs source [] maxDepth)
      (fun _ => (∀ q, q <+: destination → fileAt fs q = none) → Fits fs source [] maxDepth →
        Trouble turns) := by
  have hsep : ∀ a b, source ++ a ≠ destination ++ b := by
    intro a b heq
    rcases List.prefix_or_prefix_of_prefix (List.prefix_append source a)
      (heq ▸ List.prefix_append destination b) with hpre | hpre
    · exact hsource hpre
    · exact hdestination hpre
  apply ((mkdirAll_spec destination).exit fun s hs hfree _ => hs.2 hfree).seq
  intro _
  apply Triple.of_state
  rintro s₁ ⟨hgrown, hself⟩
  have hkeep : ∀ q, ¬ q <+: destination → s₁.node q = fs.node q := by
    intro q hq
    exact (hgrown q).resolve_right fun h => hq h.2.2
  have hcopied : Copied fs source s₁ source := fun k =>
    hkeep _ fun hpre => hsource ((List.prefix_append source k).trans hpre)
  have hdir₁ : s₁.node source = some .dir := grown_dir hgrown hdir
  apply ((lstat_found hdir₁).exit fun s hs _ _ => hs.2).seq
  intro found
  apply Triple.of_state
  rintro s ⟨rfl, rfl⟩
  have hready : Ready destination [] s := by
    constructor
    · rw [List.append_nil, hself, if_pos rfl]
    · intro k hk
      have hnot : ¬ destination ++ k <+: destination := by
        intro hpre
        have hlen := hpre.length_le
        have := List.length_pos_iff.mpr hk
        rw [List.length_append] at hlen
        omega
      rw [List.nil_append, hkeep _ hnot, hempty k hk]
    · exact fun h => absurd rfl h
  have htrees : CopiesTrees turns fs source destination maxDepth := copy_walk hsep maxDepth
  have hwalk := htrees [] .dir s hcopied (by rwa [List.append_nil]) (fun _ => rfl) hready
  rw [List.append_nil, List.append_nil] at hwalk
  exact hwalk.mono (fun _ => id) (fun _ t ht => ⟨ht.1, ht.2.2⟩) fun t ht _ => ht

/-- Where the place has a parent, nothing changes outside of the place. -/
theorem copyTree_outside {destination : Path} (hparent : fs.node destination.dropLast = some .dir)
    (source : Path) :
    Triple turns (· = fs) (copyTree source destination)
      (fun _ s => ∀ q, ¬ destination <+: q → s.node q = fs.node q)
      (fun s => ∀ q, ¬ destination <+: q → s.node q = fs.node q) := by
  have houtside : ∀ s, Grown fs destination s → ∀ q, ¬ destination <+: q → s.node q = fs.node q := by
    intro s hgrown q hq
    refine (hgrown q).resolve_right ?_
    rintro ⟨hnone, -, hpre⟩
    have hne : q ≠ destination := by
      rintro rfl
      exact hq List.prefix_rfl
    obtain ⟨k, hk⟩ := hpre
    have hknil : k ≠ [] := by
      rintro rfl
      exact hne (by simpa using hk)
    have hpre' : q <+: destination.dropLast := by
      rw [← hk, List.dropLast_append_of_ne_nil hknil]
      exact List.prefix_append _ _
    by_cases heq : q = destination.dropLast
    · rw [heq, hparent] at hnone
      cases hnone
    · rw [fs.parent_of_prefix hpre' heq (by rw [hparent]; nofun)] at hnone
      cases hnone
  apply ((mkdirAll_spec destination).exit fun s hs => houtside s hs.1).seq
  intro _
  apply Triple.mono (P := Within fs destination)
  · exact walkDir_invariant (fun _ q isDir => copyEntry_within List.prefix_rfl source q isDir) source ()
  · exact fun s hs => ⟨hs.2, houtside s hs.1⟩
  · exact fun _ s hs => hs.outside
  · exact fun s hs => hs.outside

/-! ## A tree is not copied into itself -/

/-- The path is a directory. -/
def Stands (q : Path) (s : Disk) : Prop := s.node q = some .dir

theorem wrote_stands {s t : Disk} {q : Path} (h : Wrote s p t) (hq : Stands q s) : Stands q t := by
  by_cases heq : q = p
  · subst heq
    rcases h.self with heq | ⟨hdir, -⟩
    · rw [Stands, heq, hq]
    · exact absurd hq hdir
  · rw [Stands, h.other q heq, hq]

theorem copyEntry_stands {q : Path} (source destination p : Path) (isDir : Bool) :
    Triple turns (Stands q) (copyEntry source destination p isDir) (fun _ => Stands q)
      (Stands q) := by
  rw [copyEntry]
  split
  · exact Triple.ret (Q := fun _ => Stands q) ()
  · split
    · exact Triple.raise _
    · apply Triple.of_state
      intro s hs
      cases isDir with
      | false =>
          apply ((readFile_spec p).exit ?_).seq
          · intro content
            apply Triple.of_state
            rintro t ⟨rfl, -⟩
            apply (fill_spec content (destination ++ p.drop source.length)).mono (fun _ => id)
            · exact fun _ u hu => wrote_stands hu.1 hs
            · exact fun u hu => wrote_stands hu.1 hs
          · rintro t rfl
            exact hs
      | true =>
          exact (mkdirAll_spec _).mono (fun _ => id) (fun _ t ht => grown_dir ht.1 hs)
            fun t ht => grown_dir ht.1 hs

/-- A directory that is visited is there below the place afterwards. -/
theorem visit_stands {source w x : Path} : Triple turns (Stands (source ++ w))
    (copyEntry source (source ++ w) (source ++ x) true) (fun _ => Stands (source ++ (w ++ x)))
    (fun _ => True) := by
  rw [copyEntry]
  split
  · next hnil =>
    have hxnil : x = [] := by simpa using hnil
    rw [hxnil, List.append_nil]
    exact Triple.ret (Q := fun _ => Stands (source ++ w)) ()
  · split
    · exact (Triple.raise _).pre fun _ _ => trivial
    · apply Triple.of_state
      intro s _
      rw [List.drop_left, List.append_assoc]
      exact (mkdirAll_spec _).mono (fun _ => id) (fun _ t ht => ht.2) fun _ _ => trivial

/-- The walk follows the endless way `w ++ w ++ ...`: the part at hand is the beginning of
what has just been made, so there is always a next step, until no depth is left. -/
theorem walk_itself {source w : Path} (hw : w ≠ []) (n : ℕ) :
    ∀ x, x <+: w ++ x → Triple turns (Stands (source ++ w))
      (walk (fun _ p isDir => copyEntry source (source ++ w) p isDir) n () (source ++ x) true)
      (fun _ _ => False) (fun _ => True) := by
  induction n with
  | zero => exact fun _ _ => (Triple.raise _).pre fun _ _ => trivial
  | succ n ih =>
      intro x hx
      obtain ⟨c, rest, hrest⟩ : ∃ c rest, x ++ c :: rest = w ++ x := by
        obtain ⟨rest, hrest⟩ := hx
        cases rest with
        | nil =>
            have hlen := congrArg List.length hrest
            have := List.length_pos_iff.mpr hw
            simp only [List.append_nil, List.length_append] at hlen
            omega
        | cons c rest => exact ⟨c, rest, hrest⟩
      have hnext : x ++ [c] <+: w ++ x := ⟨rest, by rw [← hrest, List.append_assoc]; rfl⟩
      apply visit_stands.seq
      intro _
      apply Triple.of_state
      intro s hs
      have hstands : ∀ k, k <+: w ++ x → Stands (source ++ k) s := by
        intro k hk
        by_cases heq : k = w ++ x
        · rw [heq]
          exact hs
        · apply s.parent_of_prefix (q := source ++ (w ++ x))
          · rwa [List.prefix_append_right_inj]
          · simpa using heq
          · rw [hs]
            nofun
      have hdir : s.node (source ++ x) = some .dir := hstands x hx
      have hchild : s.node (source ++ x ++ [c]) = some .dir := by
        rw [List.append_assoc]
        exact hstands _ hnext
      apply ((readDir_found hdir).exit fun _ _ => trivial).seq
      intro entries
      apply Triple.of_state
      rintro t ⟨rfl, rfl⟩
      have hmem : (c, true) ∈ (t.children (source ++ x)).map fun name =>
          (name, decide (t.node (source ++ x ++ [name]) = some .dir)) := by
        apply List.mem_map.mpr
        refine ⟨c, FileSystem.mem_children.mpr (by rw [hchild]; nofun), ?_⟩
        rw [hchild, decide_eq_true rfl]
      apply Triple.mono (P := fun u => Stands (source ++ w) u ∧ (c, true) ∉ ([] : List (Bytes × Bool)))
      · apply Triple.fold fun done _ u => Stands (source ++ w) u ∧ (c, true) ∉ done
        rintro done ⟨b, isDir⟩ after - _
        by_cases hb : (b, isDir) = (c, true)
        · cases hb
          rw [List.append_assoc]
          apply (ih (x ++ [c]) (hnext.trans ⟨[c], by simp⟩)).mono
          · exact fun u hu => hu.1
          · exact fun _ _ h => h.elim
          · exact fun _ _ => trivial
        · have hentry : ∀ (_ : Unit) p d, Triple turns (Stands (source ++ w))
              (copyEntry source (source ++ w) p d) (fun _ => Stands (source ++ w)) (Stands (source ++ w)) :=
            fun _ p d => copyEntry_stands source (source ++ w) p d
          have hkeeps := walk_invariant hentry n () (source ++ x ++ [b]) isDir
          apply Triple.of_state
          rintro u ⟨hu, hdone⟩
          apply hkeeps.mono
          · rintro v rfl
            exact hu
          · intro _ v hv
            exact ⟨hv, by simpa [hdone] using Ne.symm hb⟩
          · exact fun _ _ => trivial
      · rintro u rfl
        exact ⟨hstands w (List.prefix_append w x), List.not_mem_nil⟩
      · exact fun _ u hu => hu.2 hmem
      · exact fun _ _ => trivial

theorem copyTree_itself {source w : Path} (hw : w ≠ []) : Triple turns (fun _ => True)
    (copyTree source (source ++ w)) (fun _ _ => False) (fun _ => True) := by
  apply Triple.of_state
  intro s _
  apply ((mkdirAll_spec _).exit fun _ _ => trivial).seq
  intro _
  apply Triple.of_state
  rintro t ⟨-, hself⟩
  have hdir : t.node source = some .dir :=
    t.parent_of_prefix (List.prefix_append source w) (by simpa using hw) (by rw [hself]; nofun)
  apply ((lstat_found hdir).exit fun _ _ => trivial).seq
  intro found
  apply Triple.of_state
  rintro u ⟨rfl, rfl⟩
  have hwalk : Triple turns (Stands (source ++ w))
      (walk (fun _ p isDir => copyEntry source (source ++ w) p isDir) maxDepth () (source ++ []) true)
      (fun _ _ => False) (fun _ => True) := walk_itself hw maxDepth [] List.nil_prefix
  rw [List.append_nil] at hwalk
  exact hwalk.pre (by rintro v rfl; exact hself)

end ZReader.Backup
