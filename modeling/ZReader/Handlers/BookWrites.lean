import ZReader.Handlers.Books
import ZReader.Storage.ContentRuns

namespace ZReader.Handlers

open Lib.Utf8 Lib.Strings Lib.KeyValue Lib.Fallible Storage

/-! ## Agreement in a field -/

theorem Field.Agrees.refl (f : Field) (b : Book) : f.Agrees b b := by
  cases f <;> rfl

theorem Field.Agrees.trans {f : Field} {a b c : Book} (h : f.Agrees a b) (h' : f.Agrees b c) :
    f.Agrees a c := by
  cases f <;> exact Eq.trans h h'

theorem Field.Agrees.symm {f : Field} {a b : Book} (h : f.Agrees a b) : f.Agrees b a := by
  cases f <;> exact Eq.symm h

theorem Field.Agrees.withFormat {f : Field} {a b : Book} (h : f.Agrees a b) :
    f.Agrees a (withFormat b) := by
  cases f <;> exact h

theorem Field.Agrees.attachCoverThumbnail {f : Field} {a b : Book} (h : f.Agrees a b) (t : Bool) :
    f.Agrees a (attachCoverThumbnail t b) := by
  rw [Handlers.attachCoverThumbnail]
  split
  · exact h
  · cases f <;> exact h

/-- Saving a record normalises its category, which reads the same. -/
theorem agrees_normalized (f : Field) (b : Book) :
    f.Agrees b { b with category := normalizeCategoryName b.category } := by
  cases f with
  | category =>
      rw [Field.Agrees, categoryForBook, categoryForBook]
      cases b.category with
      | none => rfl
      | some c =>
          simp only [normalizeCategoryName]
          by_cases h : trimSpace c = []
          · simp [h]
          · simp [h, trimSpace_idem]
  | title | author | coverPath | lastReadAt => rfl

/-! ## Writes that touch some fields only -/

/-- Every record stays, and differs at most in the given fields. -/
def Rewrites (sets : Field → Prop) (tx tx' : Tx) : Prop :=
  ∀ k, (tx.books.get k = none ∧ tx'.books.get k = none) ∨
    ∃ b b', tx.books.get k = some b ∧ tx'.books.get k = some b' ∧ ∀ f, ¬ sets f → f.Agrees b b'

theorem Rewrites.refl (sets : Field → Prop) (tx : Tx) : Rewrites sets tx tx := by
  intro k
  cases h : tx.books.get k with
  | none => exact Or.inl ⟨rfl, rfl⟩
  | some b => exact Or.inr ⟨b, b, rfl, rfl, fun f _ => Field.Agrees.refl f b⟩

theorem Rewrites.trans {sets : Field → Prop} {tx tx' tx'' : Tx} (h : Rewrites sets tx tx')
    (h' : Rewrites sets tx' tx'') : Rewrites sets tx tx'' := by
  intro k
  rcases h k with ⟨hn, hn'⟩ | ⟨b, b', hb, hb', hf⟩
  · rcases h' k with ⟨-, hn''⟩ | ⟨c, -, hc, -⟩
    · exact Or.inl ⟨hn, hn''⟩
    · rw [hn'] at hc
      cases hc
  · rcases h' k with ⟨hn', -⟩ | ⟨c, c', hc, hc', hf'⟩
    · rw [hn'] at hb'
      cases hb'
    · rw [hb', Option.some.injEq] at hc
      subst hc
      exact Or.inr ⟨b, c', hb, hc', fun f hn => (hf f hn).trans (hf' f hn)⟩

/-- Replacing the record under one key by a variant of it. -/
theorem Rewrites.of_put {sets : Field → Prop} {tx tx' : Tx} {id : Bytes} {b b' : Book}
    (hget : tx.books.get id = some b)
    (h : ∀ k, tx'.books.get k = if id = k then some b' else tx.books.get k)
    (hf : ∀ f, ¬ sets f → f.Agrees b b') : Rewrites sets tx tx' := by
  intro k
  rw [h k]
  by_cases hk : id = k
  · subst hk
    rw [if_pos rfl]
    exact Or.inr ⟨b, b', hget, rfl, hf⟩
  · rw [if_neg hk]
    exact Rewrites.refl sets tx k

theorem Rewrites.of_update {sets : Field → Prop} {tx tx' : Tx} {id : Bytes} {b b' : Book}
    (hget : tx.books.get id = some b)
    (h : tx'.books.get = Function.update tx.books.get id (some b'))
    (hf : ∀ f, ¬ sets f → f.Agrees b b') : Rewrites sets tx tx' := by
  refine Rewrites.of_put hget (fun k => ?_) hf
  rw [h, Function.update_apply]
  simp only [eq_comm]

/-! ## What each transaction does to the records -/

theorem updateBookCategory_books {tx tx' : Tx} {id u : Bytes} {category : Option Bytes} {b : Book}
    (hk : Keyed tx) (h : updateBookCategory u category tx id = .ok (b, tx')) :
    Keyed tx' ∧ Rewrites (· = .category) tx tx' := by
  obtain ⟨old, hget, hbooks, -⟩ := updateBookCategory_rows (fun b hb => (hk id b hb).1) h
  constructor
  · intro k b hb
    rw [hbooks, Function.update_apply] at hb
    split at hb
    · next heq =>
      cases hb
      exact heq ▸ hk id old hget
    · exact hk k b hb
  · apply Rewrites.of_update hget hbooks
    intro f hf
    cases f with
    | category => exact absurd rfl hf
    | title | author | coverPath | lastReadAt => rfl

theorem updateBooksCategory_books {tx tx' : Tx} {ids : List Bytes} {u : Bytes}
    {category : Option Bytes} {bs : List Book} (hk : Keyed tx)
    (h : updateBooksCategory ids u category tx = .ok (bs, tx')) : Rewrites (· = .category) tx tx' := by
  have hloop := foldlM_invariant (fun r : List Book × Tx => Keyed r.2 ∧ Rewrites (· = .category) tx r.2)
    ?_ ⟨hk, Rewrites.refl _ tx⟩ h
  · exact hloop.2
  · rintro id - r r' ⟨hk₁, hr⟩ hstep
    obtain ⟨⟨b, tx₁⟩, h₁, hstep⟩ := bind_eq_ok.mp hstep
    cases hstep
    obtain ⟨hk₂, hr₁⟩ := updateBookCategory_books hk₁ h₁
    exact ⟨hk₂, hr.trans hr₁⟩

theorem saveProgressIfCurrent_books {tx tx' : Tx} {p : Progress} {u : Bytes} {e : Option Time}
    (hk : Keyed tx) (h : saveProgressIfCurrent p u e tx = .ok tx') :
    Rewrites (· = .lastReadAt) tx tx' := by
  obtain ⟨-, b, hget, hsame | hbooks⟩ := saveProgressIfCurrent_rows (fun b hb => (hk _ b hb).1) h
  · intro k
    rw [hsame]
    exact Rewrites.refl _ tx k
  · apply Rewrites.of_update hget hbooks
    intro f hf
    cases f with
    | lastReadAt => exact absurd rfl hf
    | title | author | category | coverPath => rfl

/-! ## What a handler changes in the record it read -/

theorem setTitle_agrees {req : BookUpdateRequest} {b b' : Book} (h : setTitle req b = some b') :
    b'.id = b.id ∧ ∀ f, f ∉ req.sets → f.Agrees b b' := by
  rw [setTitle, setText] at h
  split at h
  · next v hset hval =>
    split at h
    · cases h
    · cases h
      refine ⟨rfl, ?_⟩
      intro f hf
      cases f with
      | title => simp [BookUpdateRequest.sets, hset, hval] at hf
      | author | category | coverPath | lastReadAt => rfl
  · cases h
    exact ⟨rfl, fun f _ => Field.Agrees.refl f b⟩

theorem setAuthor_agrees {req : BookUpdateRequest} {b b' : Book} (h : setAuthor req b = some b') :
    b'.id = b.id ∧ ∀ f, f ∉ req.sets → f.Agrees b b' := by
  rw [setAuthor, setText] at h
  split at h
  · next v hset hval =>
    split at h
    · cases h
    · cases h
      refine ⟨rfl, ?_⟩
      intro f hf
      cases f with
      | author => simp [BookUpdateRequest.sets, hset, hval] at hf
      | title | category | coverPath | lastReadAt => rfl
  · cases h
    exact ⟨rfl, fun f _ => Field.Agrees.refl f b⟩

theorem setCategory_agrees {req : BookUpdateRequest} {b b' : Book} (h : setCategory req b = some b') :
    b'.id = b.id ∧ ∀ f, f ∉ req.sets → f.Agrees b b' := by
  simp only [setCategory] at h
  split at h
  · next hset =>
    split at h
    · cases h
    · cases h
      refine ⟨rfl, ?_⟩
      intro f hf
      cases f with
      | category => simp [BookUpdateRequest.sets, hset] at hf
      | title | author | coverPath | lastReadAt => rfl
  · cases h
    exact ⟨rfl, fun f _ => Field.Agrees.refl f b⟩

theorem updatedBook_agrees {req : BookUpdateRequest} {b b' : Book} (h : updatedBook req b = some b') :
    b'.id = b.id ∧ ∀ f, f ∉ req.sets → f.Agrees b b' := by
  simp only [updatedBook, Option.bind_eq_bind, Option.bind_eq_some_iff, Option.pure_def,
    Option.some.injEq] at h
  obtain ⟨b₁, h₁, b₂, h₂, b₃, h₃, rfl⟩ := h
  obtain ⟨hid₁, hf₁⟩ := setTitle_agrees h₁
  obtain ⟨hid₂, hf₂⟩ := setAuthor_agrees h₂
  obtain ⟨hid₃, hf₃⟩ := setCategory_agrees h₃
  refine ⟨(hid₃.trans hid₂).trans hid₁, ?_⟩
  intro f hf
  exact (((hf₁ f hf).trans (hf₂ f hf)).trans (hf₃ f hf)).withFormat

theorem attachCoverThumbnail_id (t : Bool) (b : Book) : (attachCoverThumbnail t b).id = b.id := by
  rw [attachCoverThumbnail]
  split <;> rfl

theorem cacheExtractedCover_agrees {cover : CoverFile} {b b' : Book}
    (h : cacheExtractedCover cover b = some b') :
    b'.id = b.id ∧ ∀ f, f ∉ [Field.coverPath] → f.Agrees b b' := by
  rw [cacheExtractedCover, Option.map_eq_some_iff] at h
  obtain ⟨name, -, rfl⟩ := h
  constructor
  · exact attachCoverThumbnail_id _ _
  · intro f hf
    apply Field.Agrees.withFormat
    apply Field.Agrees.attachCoverThumbnail
    cases f with
    | coverPath => simp at hf
    | title | author | category | lastReadAt => rfl

theorem coverToSave_agrees {requested thumbnail : Bool} {cover : Option CoverFile} {b b' : Book}
    {sets : List Field} (h : coverToSave requested thumbnail cover b = some (b', sets)) :
    b'.id = b.id ∧ ∀ f, f ∉ sets → f.Agrees b b' := by
  simp only [coverToSave] at h
  split at h
  · split at h
    · cases h
      refine ⟨attachCoverThumbnail_id _ _, ?_⟩
      intro f _
      exact ((Field.Agrees.refl f b).withFormat).attachCoverThumbnail thumbnail
    · cases h
  · split at h
    · cases h
    · split at h
      · cases h
      · split at h
        · cases h
        · simp only [Option.map_eq_some_iff, Option.bind_eq_some_iff, Prod.mk.injEq] at h
          obtain ⟨c, ⟨file, -, hcache⟩, rfl, rfl⟩ := h
          obtain ⟨hid, hf⟩ := cacheExtractedCover_agrees hcache
          exact ⟨hid, fun f hn => ((Field.Agrees.refl f b).withFormat).trans (hf f hn)⟩

theorem previewTitle_agrees (job : BookProcessingJob) (preview : Preview) (b : Book) :
    (previewTitle job preview b).1.id = b.id ∧
      ∀ f, f ∉ (previewTitle job preview b).2 → f.Agrees b (previewTitle job preview b).1 := by
  rw [previewTitle]
  split
  · refine ⟨rfl, ?_⟩
    intro f hf
    cases f with
    | title => simp at hf
    | author | category | coverPath | lastReadAt => rfl
  · exact ⟨rfl, fun f _ => Field.Agrees.refl f b⟩

theorem previewAuthor_agrees (preview : Preview) (b : Book) :
    (previewAuthor preview b).1.id = b.id ∧
      ∀ f, f ∉ (previewAuthor preview b).2 → f.Agrees b (previewAuthor preview b).1 := by
  rw [previewAuthor]
  split
  · refine ⟨rfl, ?_⟩
    intro f hf
    cases f with
    | author => simp at hf
    | title | category | coverPath | lastReadAt => rfl
  · exact ⟨rfl, fun f _ => Field.Agrees.refl f b⟩

theorem previewCover_agrees (preview : Preview) (b : Book) :
    (previewCover preview b).1.id = b.id ∧
      ∀ f, f ∉ (previewCover preview b).2 → f.Agrees b (previewCover preview b).1 := by
  rw [previewCover]
  split
  · exact ⟨rfl, fun f _ => Field.Agrees.refl f b⟩
  · split
    · exact ⟨rfl, fun f _ => Field.Agrees.refl f b⟩
    · split
      · exact ⟨rfl, fun f _ => Field.Agrees.refl f b⟩
      · refine ⟨attachCoverThumbnail_id _ _, ?_⟩
        intro f hf
        apply Field.Agrees.attachCoverThumbnail
        cases f with
        | coverPath => simp at hf
        | title | author | category | lastReadAt => rfl

theorem previewedBook_agrees (job : BookProcessingJob) (preview : Preview) (b : Book) :
    (previewedBook job preview b).1.id = b.id ∧
      ∀ f, f ∉ (previewedBook job preview b).2 → f.Agrees b (previewedBook job preview b).1 := by
  simp only [previewedBook]
  generalize ht : previewTitle job preview b = t
  generalize ha : previewAuthor preview t.1 = a
  generalize hc : previewCover preview a.1 = c
  obtain ⟨hid₁, hf₁⟩ := ht ▸ previewTitle_agrees job preview b
  obtain ⟨hid₂, hf₂⟩ := ha ▸ previewAuthor_agrees preview t.1
  obtain ⟨hid₃, hf₃⟩ := hc ▸ previewCover_agrees preview a.1
  refine ⟨(hid₃.trans hid₂).trans hid₁, ?_⟩
  intro f hf
  simp only [List.mem_append, not_or] at hf
  have h := ((hf₁ f hf.1.1).trans (hf₂ f hf.1.2)).trans (hf₃ f hf.2)
  cases f <;> exact h

end ZReader.Handlers
