import ZReader.Storage.ContentRuns

namespace ZReader.Storage

open Lib.Utf8 Lib.Strings Lib.KeyValue Lib.Fallible

/-! ## What a commit changes -/

/-- The snapshot is of the record as it is, as far as its file is concerned, and has a hash for it. -/
def Fits (snapshot b : Book) : Prop :=
  snapshot.id = b.id ∧ snapshot.userID = b.userID ∧ snapshot.filename = b.filename ∧
    snapshot.contentHash ≠ []

theorem backfillBookContentHash_cases {tx tx' : Tx} {snapshot : Book} (hk : Keyed tx)
    (h : backfillBookContentHash tx snapshot = .ok tx') :
    (tx' = tx ∧ ∀ b, tx.books.get snapshot.id = some b → Fits snapshot b → b.contentHash ≠ []) ∨
    ∃ b bs c m, tx.books.get snapshot.id = some b ∧ Fits snapshot b ∧ b.contentHash = [] ∧
      tx' = { tx with books := bs, bookContentIndex := c, bookMissingHashIndex := m } ∧
      bs.get = Function.update tx.books.get snapshot.id
        (some { b with contentHash := snapshot.contentHash }) := by
  rw [backfillBookContentHash] at h
  split at h
  · next hnone =>
    cases h
    exact .inl ⟨rfl, fun b _ hfits => absurd hnone hfits.2.2.2⟩
  · next hhash =>
    split at h
    · next hget =>
      cases h
      refine .inl ⟨rfl, fun b hb => ?_⟩
      rw [hget] at hb
      cases hb
    · next b hget =>
      split at h
      · next hother =>
        cases h
        refine .inl ⟨rfl, fun b' hb' hfits => ?_⟩
        rw [hget] at hb'
        cases hb'
        rcases hother with hu | hf | hold
        · exact absurd hfits.2.1.symm hu
        · exact absurd hfits.2.2.1.symm hf
        · exact hold
      · next hsame =>
        obtain ⟨bs, hbs, h⟩ := bind_eq_ok.mp h
        obtain ⟨c, tx₁, ht, rfl⟩ := addBookToContentIndex_ok h
        obtain ⟨m, rfl⟩ := trackMissingBookHash_ok ht
        have hid : b.id = snapshot.id := (hk _ b hget).1
        refine .inr ⟨b, bs, c, m, hget, ⟨hid.symm, ?_, ?_, hhash⟩, ?_, rfl, ?_⟩
        · by_contra hne
          exact hsame (.inl (Ne.symm hne))
        · by_contra hne
          exact hsame (.inr (.inl (Ne.symm hne)))
        · by_contra hne
          exact hsame (.inr (.inr hne))
        · rw [← hid]
          exact store_get hbs

/-- The record after a commit: it has been given a hash where it had none, or is as it was. -/
def Filled (hashes : List Book) (b b' : Book) : Prop :=
  b' = b ∨ b.contentHash = [] ∧ ∃ snapshot ∈ hashes, Fits snapshot b ∧
    b' = { b with contentHash := snapshot.contentHash }

/-- What a commit of the snapshots leaves of the database. -/
structure Backfilled (hashes : List Book) (tx tx' : Tx) : Prop where
  rest : ∃ bs c m, tx' = { tx with books := bs, bookContentIndex := c, bookMissingHashIndex := m }
  gone : ∀ id, tx'.books.get id = none ↔ tx.books.get id = none
  kept : ∀ id b b', tx.books.get id = some b → tx'.books.get id = some b' → Filled hashes b b'
  fits : ∀ snapshot ∈ hashes, ∀ b b', tx.books.get snapshot.id = some b →
    tx'.books.get snapshot.id = some b' → Fits snapshot b → b'.contentHash ≠ []

theorem Backfilled.refl (tx : Tx) : Backfilled [] tx tx := by
  refine ⟨⟨_, _, _, rfl⟩, fun _ => Iff.rfl, ?_, nofun⟩
  intro id b b' hb hb'
  rw [hb] at hb'
  cases hb'
  exact .inl rfl

theorem Filled.fits {hashes : List Book} {b b' snapshot : Book} (h : Filled hashes b b') :
    Fits snapshot b' ↔ Fits snapshot b := by
  rcases h with rfl | ⟨-, s, -, -, rfl⟩
  · exact Iff.rfl
  · exact Iff.rfl

theorem Backfilled.step {hashes : List Book} {tx t t' : Tx} {snapshot : Book}
    (h : Backfilled hashes tx t) (hk : Keyed t) (hstep : backfillBookContentHash t snapshot = .ok t') :
    Backfilled (hashes ++ [snapshot]) tx t' := by
  have hgrow {b b' : Book} (hfilled : Filled hashes b b') : Filled (hashes ++ [snapshot]) b b' := by
    rcases hfilled with heq | ⟨hnone, s, hs, hfits, heq⟩
    · exact .inl heq
    · exact .inr ⟨hnone, s, List.mem_append_left _ hs, hfits, heq⟩
  have hsome {id : Bytes} {b : Book} (hb : tx.books.get id = some b) : ∃ b', t.books.get id = some b' := by
    rw [← Option.ne_none_iff_exists', Ne, h.gone, hb]
    nofun
  obtain ⟨bs, c, m, rfl⟩ := h.rest
  rcases backfillBookContentHash_cases hk hstep with
    ⟨rfl, hnot⟩ | ⟨b₀, bs', c', m', hget, hfits₀, hnone₀, rfl, hbs⟩
  · refine ⟨⟨bs, c, m, rfl⟩, h.gone, fun id b b' hb hb' => hgrow (h.kept id b b' hb hb'), ?_⟩
    intro s hs b b' hb hb' hfits
    rcases List.mem_append.mp hs with hs | hs
    · exact h.fits s hs b b' hb hb' hfits
    · rw [List.mem_singleton.mp hs] at hb hb' hfits
      exact hnot b' hb' ((h.kept _ b b' hb hb').fits.mpr hfits)
  · have hcases {id : Bytes} {b' : Book} (hb' : bs'.get id = some b') :
        (id = snapshot.id ∧ b' = { b₀ with contentHash := snapshot.contentHash }) ∨
        (id ≠ snapshot.id ∧ bs.get id = some b') := by
      rw [hbs, Function.update_apply] at hb'
      split at hb'
      · next heq =>
        cases hb'
        exact .inl ⟨heq, rfl⟩
      · next hne => exact .inr ⟨hne, hb'⟩
    refine ⟨⟨bs', c', m', rfl⟩, ?_, ?_, ?_⟩
    · intro id
      rw [← h.gone id]
      change bs'.get id = none ↔ bs.get id = none
      rw [hbs, Function.update_apply]
      split
      · next heq =>
        rw [heq]
        exact iff_of_false nofun (by rw [hget]; nofun)
      · exact Iff.rfl
    · intro id b b' hb hb'
      rcases hcases hb' with ⟨rfl, rfl⟩ | ⟨-, hold⟩
      · -- the record had no hash yet, so it is still the old one
        rcases h.kept _ b b₀ hb hget with rfl | ⟨-, s, -, hs, rfl⟩
        · exact .inr ⟨hnone₀, snapshot, by simp, hfits₀, rfl⟩
        · exact absurd hnone₀ hs.2.2.2
      · exact hgrow (h.kept id b b' hb hold)
    · intro s hs b b' hb hb' hfits
      rcases hcases hb' with ⟨-, rfl⟩ | ⟨hne, hold⟩
      · exact hfits₀.2.2.2
      · rcases List.mem_append.mp hs with hs | hs
        · exact h.fits s hs b b' hb hold hfits
        · rw [List.mem_singleton.mp hs] at hne
          exact absurd rfl hne

/-- A commit changes nothing but the empty hashes of records that its snapshots still fit, and
gives each of these a hash. -/
theorem backfillBookContentHashes_backfilled {tx tx' : Tx} {hashes : List Book} (hc : Coherent tx)
    (h : backfillBookContentHashes hashes tx = .ok tx') : Backfilled hashes tx tx' := by
  have hloop : Backfilled hashes tx tx' ∧ Coherent tx' := by
    refine foldlM_induction (fun pre t => Backfilled pre tx t ∧ Coherent t) ?_ ⟨.refl tx, hc⟩ h
    rintro pre snapshot suf - t t' ⟨hfilled, hct⟩ hstep
    exact ⟨hfilled.step hct.keyed hstep, backfillBookContentHash_coherent hct hstep⟩
  exact hloop.1

/-! ## Hashes through other transactions -/

/-- Every record left comes from one that was there, and still has a hash if that one had. -/
def KeepsHashes (tx tx' : Tx) : Prop :=
  ∀ id b', tx'.books.get id = some b' →
    ∃ b, tx.books.get id = some b ∧ (b.contentHash ≠ [] → b'.contentHash ≠ [])

theorem KeepsHashes.of_books {tx tx' : Tx} (h : tx'.books = tx.books) : KeepsHashes tx tx' := by
  intro id b' hb'
  rw [h] at hb'
  exact ⟨b', hb', fun hne => hne⟩

theorem KeepsHashes.trans {tx tx' tx'' : Tx} (h : KeepsHashes tx tx') (h' : KeepsHashes tx' tx'') :
    KeepsHashes tx tx'' := by
  intro id b'' hb''
  obtain ⟨b', hb', hhash'⟩ := h' id b'' hb''
  obtain ⟨b, hb, hhash⟩ := h id b' hb'
  exact ⟨b, hb, fun hne => hhash' (hhash hne)⟩

theorem KeepsHashes.of_update {tx tx' : Tx} {id : Bytes} {b b' : Book}
    (hget : tx.books.get id = some b)
    (hbooks : tx'.books.get = Function.update tx.books.get id (some b'))
    (hhash : b'.contentHash = b.contentHash) : KeepsHashes tx tx' := by
  intro k c hc
  rw [hbooks, Function.update_apply] at hc
  split at hc
  · next heq =>
    cases hc
    exact ⟨b, heq ▸ hget, fun hne => hhash ▸ hne⟩
  · exact ⟨c, hc, fun hne => hne⟩

theorem KeepsHashes.of_map {tx tx' : Tx} {f : Book → Book}
    (h : ∀ k, tx'.books.get k = (tx.books.get k).map f)
    (hhash : ∀ b, (f b).contentHash = b.contentHash) : KeepsHashes tx tx' := by
  intro k c hc
  rw [h, Option.map_eq_some_iff] at hc
  obtain ⟨b, hb, rfl⟩ := hc
  exact ⟨b, hb, fun hne => hhash b ▸ hne⟩

theorem deleteBookDataInTx_keepsHashes {passed : Bytes → Bool} {tx tx' : Tx} {id u : Bytes}
    {b : Book} (h : deleteBookDataInTx passed tx id u = .ok (b, tx')) : KeepsHashes tx tx' := by
  obtain ⟨-, hbooks, -⟩ := deleteBookDataInTx_rows h
  intro k c hc
  rw [hbooks, Function.update_apply] at hc
  split at hc
  · cases hc
  · exact ⟨c, hc, fun hne => hne⟩

theorem deleteBookData_keepsHashes {tx tx' : Tx} {id u : Bytes}
    (h : deleteBookData id u tx = .ok tx') : KeepsHashes tx tx' := by
  rw [deleteBookData] at h
  obtain ⟨⟨b, tx₁⟩, h₁, h⟩ := bind_eq_ok.mp h
  cases h
  exact deleteBookDataInTx_keepsHashes h₁

theorem deleteBooksByUser_keepsHashes {tx tx' : Tx} {u : Bytes}
    (h : deleteBooksByUser u tx = .ok tx') : KeepsHashes tx tx' := by
  refine foldlM_invariant (KeepsHashes tx) ?_ (.of_books rfl) h
  intro id _ t t' ht hstep
  exact ht.trans (deleteBookData_keepsHashes hstep)

theorem deleteBooksData_keepsHashes {passed : Bytes → Bool} {tx tx' : Tx} {ids : List Bytes}
    {u : Bytes} {bs : List Book} (h : deleteBooksData ids u passed tx = .ok (bs, tx')) :
      KeepsHashes tx tx' := by
  refine foldlM_invariant (fun r : List Book × Tx => KeepsHashes tx r.2) ?_ (.of_books rfl) h
  intro id _ r r' hr hstep
  obtain ⟨⟨b, tx₁⟩, h₁, hstep⟩ := bind_eq_ok.mp hstep
  cases hstep
  exact hr.trans (deleteBookDataInTx_keepsHashes h₁)

theorem updateBooksCategoryInTx_keepsHashes {tx tx' : Tx} {ids : List Bytes} {u : Bytes}
    {category : Option Bytes} {bs : List Book} (hc : Coherent tx)
    (h : updateBooksCategoryInTx tx ids u category = .ok (bs, tx')) : KeepsHashes tx tx' := by
  have hloop := foldlM_invariant (fun r : List Book × Tx => Coherent r.2 ∧ KeepsHashes tx r.2) ?_
    ⟨hc, .of_books rfl⟩ h
  · exact hloop.2
  · rintro id - r r' ⟨hcr, hr⟩ hstep
    obtain ⟨⟨b, tx₁⟩, h₁, hstep⟩ := bind_eq_ok.mp hstep
    cases hstep
    obtain ⟨old, hget, hbooks, -⟩ := updateBookCategory_rows (fun b hb => (hcr.keyed id b hb).1) h₁
    exact ⟨updateBookCategory_ok hcr h₁, hr.trans (.of_update hget hbooks rfl)⟩

theorem normalizeBookCategories_keepsHashes {tx tx' : Tx}
    (h : normalizeBookCategories tx = .ok tx') : KeepsHashes tx tx' := by
  rw [normalizeBookCategories] at h
  obtain ⟨tx₁, h₁, h⟩ := bind_eq_ok.mp h
  obtain ⟨tx₂, h₂, h⟩ := bind_eq_ok.mp h
  obtain ⟨tx₃, h₃, h⟩ := bind_eq_ok.mp h
  obtain ⟨tx₄, h₄, h₅⟩ := bind_eq_ok.mp h
  obtain ⟨bs, rfl, hbs⟩ := migrateBookCategories_ok h₁
  have hmap : KeepsHashes tx { tx with books := bs } := .of_map hbs fun _ => rfl
  have hrest := (rebuildBookSortIndex_frame h₂).trans (rebuildBookSearchIndex_frame h₃)
  have hrest' := (rebuildBookSearchGramIndex_frame h₄).trans (rebuildLibrarySummaryIndex_frame h₅)
  exact hmap.trans (.of_books (hrest.trans hrest').books)

theorem assignUnownedDataToUser_keepsHashes {tx tx' : Tx} {u : Bytes}
    (h : assignUnownedDataToUser u tx = .ok tx') : KeepsHashes tx tx' := by
  simp only [assignUnownedDataToUser] at h
  split at h
  · cases h
    exact .of_books rfl
  · obtain ⟨tx₁, h₁, h⟩ := bind_eq_ok.mp h
    obtain ⟨tx₂, h₂, h⟩ := bind_eq_ok.mp h
    obtain ⟨tx₃, h₃, h⟩ := bind_eq_ok.mp h
    obtain ⟨tx₄, h₄, h⟩ := bind_eq_ok.mp h
    obtain ⟨tx₅, h₅, h⟩ := bind_eq_ok.mp h
    obtain ⟨tx₆, h₆, h⟩ := bind_eq_ok.mp h
    obtain ⟨tx₇, h₇, h⟩ := bind_eq_ok.mp h
    obtain ⟨tx₈, h₈, h⟩ := bind_eq_ok.mp h
    obtain ⟨tx₉, h₉, h₁₀⟩ := bind_eq_ok.mp h
    have howner : KeepsHashes tx tx₁ := by
      refine .of_map (assignUnownedBooks_books h₁) fun b => ?_
      rw [withOwner]
      split
      · rfl
      · rfl
    obtain ⟨p, rfl⟩ := assignUnownedProgress_ok h₂
    obtain ⟨bs, rfl, hbs⟩ := migrateBookCategories_ok h₃
    have hmap : KeepsHashes tx₁ { tx₁ with progress := p, books := bs } := .of_map hbs fun _ => rfl
    have hlists := ((rebuildBookSortIndex_frame h₄).trans (rebuildBookSearchIndex_frame h₅)).trans
      (rebuildBookSearchGramIndex_frame h₆)
    obtain ⟨c, m, rfl⟩ := rebuildBookContentIndex_ok h₇
    obtain ⟨t, rfl⟩ := rebuildProgressTimeIndex_ok h₉
    have hrest : tx'.books = bs :=
      (rebuildMissingBookHashIndex_frame h₁₀).books.trans
        ((rebuildLibrarySummaryIndex_frame h₈).books.trans hlists.books)
    exact howner.trans (hmap.trans (.of_books hrest))

/-- A save that puts a record without a hash in the place of one that has a hash. -/
def Op.dropsHash (db : Tx) (id : Bytes) : Op → Bool
  | .saveBook book =>
      book.id = id && book.contentHash = [] && (db.books.get id).any (·.contentHash ≠ [])
  | _ => false

/-- A hash, once stored, stays with its record through every transaction but such a save. -/
theorem Op.transaction_keepsHash {tx tx' : Tx} {op : Op} {id : Bytes} {b b' : Book}
    (hc : Coherent tx) (ha : op.Admissible tx) (hdrops : op.dropsHash tx id = false)
    (h : op.transaction tx = .ok tx') (hb : tx.books.get id = some b)
    (hb' : tx'.books.get id = some b') (hhash : b.contentHash ≠ []) : b'.contentHash ≠ [] := by
  have hkeeps (hk : KeepsHashes tx tx') : b'.contentHash ≠ [] := by
    obtain ⟨b₀, hb₀, hne⟩ := hk id b' hb'
    rw [hb] at hb₀
    cases hb₀
    exact hne hhash
  cases op with
  | saveBook book =>
      rw [saveBook_books h] at hb'
      split at hb'
      · next hid =>
        cases hb'
        intro hnone
        have hnone : book.contentHash = [] := hnone
        simp [dropsHash, hid, hnone, hb, hhash] at hdrops
      · rw [hb] at hb'
        cases hb'
        exact hhash
  | createBook book =>
      rw [createBook_books h, Function.update_apply] at hb'
      split at hb'
      · next hid =>
        rw [hid, ha.2] at hb
        cases hb
      · rw [hb] at hb'
        cases hb'
        exact hhash
  | deleteBookData id u => exact hkeeps (deleteBookData_keepsHashes h)
  | deleteBooksData ids u passed =>
      obtain ⟨bs, h⟩ := map_snd_eq_ok h
      exact hkeeps (deleteBooksData_keepsHashes h)
  | updateBooksCategory ids u c =>
      obtain ⟨bs, h⟩ := map_snd_eq_ok h
      exact hkeeps (updateBooksCategoryInTx_keepsHashes hc h)
  | renameBookCategory u s t =>
      obtain ⟨ids, h⟩ := map_snd_eq_ok h
      simp only [Storage.renameBookCategory] at h
      split at h
      · cases h
        exact hkeeps (.of_books rfl)
      · split at h
        · cases h
        · obtain ⟨⟨bs, tx₁⟩, h₁, h⟩ := bind_eq_ok.mp h
          cases h
          exact hkeeps (updateBooksCategoryInTx_keepsHashes hc h₁)
  | normalizeBookCategories => exact hkeeps (normalizeBookCategories_keepsHashes h)
  | saveProgressIfCurrent p u e =>
      obtain ⟨-, b₀, hget, hsame | hbooks⟩ :=
        saveProgressIfCurrent_rows (fun b hb => (hc.keyed _ b hb).1) h
      · exact hkeeps (.of_books hsame)
      · exact hkeeps (.of_update hget hbooks rfl)
  | backfillBookContentHashes hs =>
      rcases (backfillBookContentHashes_backfilled hc h).kept id b b' hb hb' with rfl | ⟨hnone, -⟩
      · exact hhash
      · exact absurd hnone hhash
  | assignUnownedDataToUser u => exact hkeeps (assignUnownedDataToUser_keepsHashes h)
  | deleteUserData u =>
      rw [transaction, Storage.deleteUserData] at h
      obtain ⟨tx₁, h₁, h⟩ := bind_eq_ok.mp h
      cases h
      exact hkeeps ((deleteBooksByUser_keepsHashes h₁).trans (.of_books rfl))
  | purgeUser id =>
      simp only [transaction, Storage.purgeUser] at h
      split at h
      · cases h
      · obtain ⟨tx₁, h₁, h⟩ := bind_eq_ok.mp h
        cases h
        exact hkeeps ((deleteBooksByUser_keepsHashes h₁).trans (.of_books rfl))
  | deleteProgress b u =>
      simp only [transaction, Storage.deleteProgress] at h
      cases h
      split at hb'
      · next p _ =>
        obtain ⟨t, ht⟩ := removeProgressFromTimeIndex_eq tx p
        rw [ht] at hb'
        rw [hb] at hb'
        cases hb'
        exact hhash
      · rw [hb] at hb'
        cases hb'
        exact hhash
  | saveUser user =>
      simp only [transaction, Storage.saveUser] at h
      obtain ⟨us, -, h⟩ := bind_eq_ok.mp h
      obtain ⟨un, -, h⟩ := bind_eq_ok.mp h
      cases h
      exact hkeeps (.of_books rfl)
  | deleteUser id =>
      simp only [transaction, Storage.deleteUser] at h
      split at h
      · cases h
      · cases h
        exact hkeeps (.of_books rfl)
  | saveBookmark m u =>
      simp only [transaction, Storage.saveBookmark] at h
      obtain ⟨_, -, h⟩ := bind_eq_ok.mp h
      obtain ⟨ms, -, h⟩ := bind_eq_ok.mp h
      cases h
      exact hkeeps (.of_books rfl)
  | deleteBookmark b m u =>
      simp only [transaction, Storage.deleteBookmark] at h
      obtain ⟨_, -, h⟩ := bind_eq_ok.mp h
      split at h
      · cases h
      · cases h
        exact hkeeps (.of_books rfl)

/-- The same for the state of the database after the operation, whether it succeeds or not. -/
theorem Op.run_keepsHash {db : Tx} {op : Op} {id : Bytes} {b b' : Book} (hc : Coherent db)
    (ha : op.Admissible db) (hdrops : op.dropsHash db id = false) (hb : db.books.get id = some b)
    (hb' : (op.run db).books.get id = some b') (hhash : b.contentHash ≠ []) : b'.contentHash ≠ [] := by
  have hboth : ∀ b', (op.run db).books.get id = some b' → b'.contentHash ≠ [] := by
    refine Tx.update_induction (P := fun t => ∀ b', t.books.get id = some b' → b'.contentHash ≠ [])
      ?_ fun t ht b' hb' => Op.transaction_keepsHash hc ha hdrops ht hb hb' hhash
    intro c hc'
    rw [hb] at hc'
    cases hc'
    exact hhash
  exact hboth b' hb'

end ZReader.Storage
