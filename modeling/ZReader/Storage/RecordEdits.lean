import ZReader.Storage.HashBackfill

namespace ZReader.Storage

open Lib.Utf8 Lib.Strings Lib.KeyValue Lib.Fallible

/-! ## What becomes of one record -/

/-- A record after operations that do not save a whole one: its category, hash and reading time may
have been set, and an owner where it had none. -/
structure Edited (b b' : Book) : Prop where
  fields : b' = { b with
    userID := b'.userID
    category := b'.category
    contentHash := b'.contentHash
    lastReadAt := b'.lastReadAt }
  owner : b.userID ≠ [] → b'.userID = b.userID

theorem Edited.refl (b : Book) : Edited b b := ⟨rfl, fun _ => rfl⟩

theorem Edited.trans {b b' b'' : Book} (h : Edited b b') (h' : Edited b' b'') : Edited b b'' := by
  obtain ⟨hfields, howner⟩ := h
  obtain ⟨hfields', howner'⟩ := h'
  constructor
  · rw [hfields] at hfields'
    exact hfields'
  · intro hu
    have hu' := howner hu
    rw [howner' (hu' ▸ hu), hu']

theorem Edited.state {b b' : Book} (h : Edited b b') : b'.processingState = b.processingState := by
  rw [h.fields]

theorem Edited.id {b b' : Book} (h : Edited b b') : b'.id = b.id := by
  rw [h.fields]

/-! ## What becomes of all of them -/

/-- Every record left comes from one that was there, by edits. -/
def Descends (tx tx' : Tx) : Prop :=
  ∀ id b', tx'.books.get id = some b' → ∃ b, tx.books.get id = some b ∧ Edited b b'

theorem Descends.of_fewer {tx tx' : Tx}
    (h : ∀ id b, tx'.books.get id = some b → tx.books.get id = some b) : Descends tx tx' :=
  fun id b hb => ⟨b, h id b hb, .refl b⟩

theorem Descends.of_books {tx tx' : Tx} (h : tx'.books = tx.books) : Descends tx tx' :=
  .of_fewer fun id b hb => by rwa [h] at hb

theorem Descends.trans {tx tx' tx'' : Tx} (h : Descends tx tx') (h' : Descends tx' tx'') :
    Descends tx tx'' := by
  intro id b'' hb''
  obtain ⟨b', hb', hedit'⟩ := h' id b'' hb''
  obtain ⟨b, hb, hedit⟩ := h id b' hb'
  exact ⟨b, hb, hedit.trans hedit'⟩

theorem Descends.of_update {tx tx' : Tx} {id : Bytes} {b b' : Book}
    (hget : tx.books.get id = some b)
    (hbooks : tx'.books.get = Function.update tx.books.get id (some b')) (hedit : Edited b b') :
    Descends tx tx' := by
  intro k c hc
  rw [hbooks, Function.update_apply] at hc
  split at hc
  · next heq =>
    cases hc
    exact ⟨b, heq ▸ hget, hedit⟩
  · exact ⟨c, hc, .refl c⟩

theorem Descends.of_map {tx tx' : Tx} {f : Book → Book}
    (h : ∀ k, tx'.books.get k = (tx.books.get k).map f) (hf : ∀ b, Edited b (f b)) :
    Descends tx tx' := by
  intro k c hc
  rw [h, Option.map_eq_some_iff] at hc
  obtain ⟨b, hb, rfl⟩ := hc
  exact ⟨b, hb, hf b⟩

theorem edited_withOwner (u : Bytes) (b : Book) : Edited b (withOwner u b) := by
  rw [withOwner]
  split
  · exact .refl b
  · next hu => exact ⟨rfl, fun hne => absurd hne hu⟩

/-! ## Operations -/

theorem deleteBookDataInTx_descends {passed : Bytes → Bool} {tx tx' : Tx} {id u : Bytes} {b : Book}
    (h : deleteBookDataInTx passed tx id u = .ok (b, tx')) : Descends tx tx' := by
  obtain ⟨-, hbooks, -⟩ := deleteBookDataInTx_rows h
  apply Descends.of_fewer
  intro k c hc
  rw [hbooks, Function.update_apply] at hc
  split at hc
  · cases hc
  · exact hc

theorem deleteBookData_descends {tx tx' : Tx} {id u : Bytes} (h : deleteBookData id u tx = .ok tx') :
    Descends tx tx' := by
  rw [deleteBookData] at h
  obtain ⟨⟨b, tx₁⟩, h₁, h⟩ := bind_eq_ok.mp h
  cases h
  exact deleteBookDataInTx_descends h₁

theorem deleteBooksByUser_descends {tx tx' : Tx} {u : Bytes} (h : deleteBooksByUser u tx = .ok tx') :
    Descends tx tx' := by
  refine foldlM_invariant (Descends tx) ?_ (.of_books rfl) h
  intro id _ t t' ht hstep
  exact ht.trans (deleteBookData_descends hstep)

theorem updateBooksCategoryInTx_descends {tx tx' : Tx} {ids : List Bytes} {u : Bytes}
    {category : Option Bytes} {bs : List Book} (hc : Coherent tx)
    (h : updateBooksCategoryInTx tx ids u category = .ok (bs, tx')) : Descends tx tx' := by
  have hloop := foldlM_invariant (fun r : List Book × Tx => Coherent r.2 ∧ Descends tx r.2) ?_
    ⟨hc, .of_books rfl⟩ h
  · exact hloop.2
  · rintro id - r r' ⟨hcr, hr⟩ hstep
    obtain ⟨⟨b, tx₁⟩, h₁, hstep⟩ := bind_eq_ok.mp hstep
    cases hstep
    obtain ⟨old, hget, hbooks, -⟩ := updateBookCategory_rows (fun b hb => (hcr.keyed id b hb).1) h₁
    exact ⟨updateBookCategory_ok hcr h₁, hr.trans (.of_update hget hbooks ⟨rfl, fun _ => rfl⟩)⟩

theorem renameBookCategory_descends {tx tx' : Tx} {u source : Bytes} {target : Option Bytes}
    {ids : List Bytes} (hc : Coherent tx) (h : renameBookCategory u source target tx = .ok (ids, tx')) :
    Descends tx tx' := by
  simp only [renameBookCategory] at h
  split at h
  · cases h
    exact .of_books rfl
  · split at h
    · cases h
    · obtain ⟨⟨bs, tx₁⟩, h₁, h⟩ := bind_eq_ok.mp h
      cases h
      exact updateBooksCategoryInTx_descends hc h₁

theorem normalizeBookCategories_descends {tx tx' : Tx} (h : normalizeBookCategories tx = .ok tx') :
    Descends tx tx' := by
  rw [normalizeBookCategories] at h
  obtain ⟨tx₁, h₁, h⟩ := bind_eq_ok.mp h
  obtain ⟨tx₂, h₂, h⟩ := bind_eq_ok.mp h
  obtain ⟨tx₃, h₃, h⟩ := bind_eq_ok.mp h
  obtain ⟨tx₄, h₄, h₅⟩ := bind_eq_ok.mp h
  obtain ⟨bs, rfl, hbs⟩ := migrateBookCategories_ok h₁
  have hmap : Descends tx { tx with books := bs } := .of_map hbs fun _ => ⟨rfl, fun _ => rfl⟩
  have hrest := (rebuildBookSortIndex_frame h₂).trans (rebuildBookSearchIndex_frame h₃)
  have hrest' := (rebuildBookSearchGramIndex_frame h₄).trans (rebuildLibrarySummaryIndex_frame h₅)
  exact hmap.trans (.of_books (hrest.trans hrest').books)

theorem assignUnownedDataToUser_descends {tx tx' : Tx} {u : Bytes}
    (h : assignUnownedDataToUser u tx = .ok tx') : Descends tx tx' := by
  simp only [assignUnownedDataToUser] at h
  split at h
  · cases h
    exact .of_books rfl
  · obtain ⟨tx₁, h₁, h⟩ := bind_eq_ok.mp h
    obtain ⟨tx₂, h₂, h⟩ := bind_eq_ok.mp h
    obtain ⟨tx₃, h₃, h⟩ := bind_eq_ok.mp h
    obtain ⟨tx₄, h₄, h⟩ := bind_eq_ok.mp h
    obtain ⟨tx₅, h₅, h⟩ := bind_eq_ok.mp h
    obtain ⟨tx₆, h₆, h⟩ := bind_eq_ok.mp h
    obtain ⟨tx₇, h₇, h⟩ := bind_eq_ok.mp h
    obtain ⟨tx₈, h₈, h⟩ := bind_eq_ok.mp h
    obtain ⟨tx₉, h₉, h₁₀⟩ := bind_eq_ok.mp h
    have howner : Descends tx tx₁ := .of_map (assignUnownedBooks_books h₁) (edited_withOwner _)
    obtain ⟨p, rfl⟩ := assignUnownedProgress_ok h₂
    obtain ⟨bs, rfl, hbs⟩ := migrateBookCategories_ok h₃
    have hmap : Descends tx₁ { tx₁ with progress := p, books := bs } :=
      .of_map hbs fun _ => ⟨rfl, fun _ => rfl⟩
    have hlists := ((rebuildBookSortIndex_frame h₄).trans (rebuildBookSearchIndex_frame h₅)).trans
      (rebuildBookSearchGramIndex_frame h₆)
    obtain ⟨c, m, rfl⟩ := rebuildBookContentIndex_ok h₇
    obtain ⟨t, rfl⟩ := rebuildProgressTimeIndex_ok h₉
    have hrest : tx'.books = bs :=
      (rebuildMissingBookHashIndex_frame h₁₀).books.trans
        ((rebuildLibrarySummaryIndex_frame h₈).books.trans hlists.books)
    exact howner.trans (hmap.trans (.of_books hrest))

theorem backfillBookContentHashes_descends {tx tx' : Tx} {hashes : List Book} (hc : Coherent tx)
    (h : backfillBookContentHashes hashes tx = .ok tx') : Descends tx tx' := by
  have hfilled := backfillBookContentHashes_backfilled hc h
  intro id b' hb'
  cases hb : tx.books.get id with
  | none =>
      rw [(hfilled.gone id).mpr hb] at hb'
      cases hb'
  | some b =>
      refine ⟨b, rfl, ?_⟩
      rcases hfilled.kept id b b' hb hb' with rfl | ⟨-, snapshot, -, -, rfl⟩
      · exact .refl b'
      · exact ⟨rfl, fun _ => rfl⟩

/-- The operations that put a record where there may be another one, or none. -/
def Op.puts : Op → Bool
  | .saveBook _ | .createBook _ => true
  | _ => false

/-- Only a save and a creation bring in records that are not edits of stored ones. -/
theorem Op.transaction_descends {tx tx' : Tx} {op : Op} (hc : Coherent tx) (hop : op.puts = false)
    (h : op.transaction tx = .ok tx') : Descends tx tx' := by
  cases op with
  | saveBook book => cases hop
  | createBook book => cases hop
  | deleteBookData id u => exact deleteBookData_descends h
  | deleteBooksData ids u passed =>
      obtain ⟨bs, h⟩ := map_snd_eq_ok h
      exact .of_fewer (deleteBooksData_rows h).1
  | updateBooksCategory ids u c =>
      obtain ⟨bs, h⟩ := map_snd_eq_ok h
      exact updateBooksCategoryInTx_descends hc h
  | renameBookCategory u s t =>
      obtain ⟨ids, h⟩ := map_snd_eq_ok h
      exact renameBookCategory_descends hc h
  | normalizeBookCategories => exact normalizeBookCategories_descends h
  | saveProgressIfCurrent p u e =>
      obtain ⟨-, b₀, hget, hsame | hbooks⟩ :=
        saveProgressIfCurrent_rows (fun b hb => (hc.keyed _ b hb).1) h
      · exact .of_books hsame
      · exact .of_update hget hbooks ⟨rfl, fun _ => rfl⟩
  | backfillBookContentHashes hs => exact backfillBookContentHashes_descends hc h
  | assignUnownedDataToUser u => exact assignUnownedDataToUser_descends h
  | deleteUserData u =>
      rw [transaction, Storage.deleteUserData] at h
      obtain ⟨tx₁, h₁, h⟩ := bind_eq_ok.mp h
      cases h
      exact (deleteBooksByUser_descends h₁).trans (.of_books rfl)
  | purgeUser id =>
      simp only [transaction, Storage.purgeUser] at h
      split at h
      · cases h
      · obtain ⟨tx₁, h₁, h⟩ := bind_eq_ok.mp h
        cases h
        exact (deleteBooksByUser_descends h₁).trans (.of_books rfl)
  | deleteProgress b u =>
      simp only [transaction, Storage.deleteProgress] at h
      cases h
      apply Descends.of_books
      cases hp : tx.progress.get (progressKey u b) with
      | none => rfl
      | some p =>
          obtain ⟨t, ht⟩ := removeProgressFromTimeIndex_eq tx p
          simp only [ht]
  | saveUser user =>
      simp only [transaction, Storage.saveUser] at h
      obtain ⟨us, -, h⟩ := bind_eq_ok.mp h
      obtain ⟨un, -, h⟩ := bind_eq_ok.mp h
      cases h
      exact .of_books rfl
  | deleteUser id =>
      simp only [transaction, Storage.deleteUser] at h
      split at h
      · cases h
      · cases h
        exact .of_books rfl
  | saveBookmark m u =>
      simp only [transaction, Storage.saveBookmark] at h
      obtain ⟨_, -, h⟩ := bind_eq_ok.mp h
      obtain ⟨ms, -, h⟩ := bind_eq_ok.mp h
      cases h
      exact .of_books rfl
  | deleteBookmark b m u =>
      simp only [transaction, Storage.deleteBookmark] at h
      obtain ⟨_, -, h⟩ := bind_eq_ok.mp h
      split at h
      · cases h
      · cases h
        exact .of_books rfl

/-- The same for the state of the database after the operation, whether it succeeds or not. -/
theorem Op.run_descends {db : Tx} {op : Op} (hc : Coherent db) (hop : op.puts = false) :
    Descends db (op.run db) :=
  Tx.update_induction (P := Descends db) (.of_books rfl) fun _ h => Op.transaction_descends hc hop h

end ZReader.Storage
