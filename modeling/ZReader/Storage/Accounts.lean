import ZReader.Storage.ProgressTimes

namespace ZReader.Storage

open Lib.Utf8 Lib.Strings Lib.KeyValue Lib.Fallible Lib.Transition

def getUserByUsername (tx : Tx) (username : Bytes) : Option User :=
  (tx.usernameIndex.get (normalizeUsername username)).bind tx.users.get

def listUsers (tx : Tx) : List User := tx.users.values

/-! ## Transactions that leave the accounts alone -/

structure SameAccounts (tx tx' : Tx) : Prop where
  users : tx'.users = tx.users
  usernames : tx'.usernameIndex = tx.usernameIndex

theorem SameAccounts.refl (tx : Tx) : SameAccounts tx tx := ⟨rfl, rfl⟩

theorem SameAccounts.trans {tx tx' tx'' : Tx} (h : SameAccounts tx tx')
    (h' : SameAccounts tx' tx'') : SameAccounts tx tx'' :=
  ⟨h'.users.trans h.users, h'.usernames.trans h.usernames⟩

theorem BooksOnly.accounts {tx tx' : Tx} (h : BooksOnly tx tx') : SameAccounts tx tx' :=
  ⟨h.users, h.usernames⟩

theorem SameRecords.accounts {tx tx' : Tx} (h : SameRecords tx tx') : SameAccounts tx tx' :=
  h.reading.accounts

theorem deleteBookDataInTx_accounts {passed : Bytes → Bool} {tx tx' : Tx} {id u : Bytes} {b : Book}
    (h : deleteBookDataInTx passed tx id u = .ok (b, tx')) : SameAccounts tx tx' := by
  obtain ⟨hu, hn⟩ := dropReadingData_users passed tx id u
  exact SameAccounts.trans ⟨hu, hn⟩ (deleteBookDataInTx_drops h).accounts

theorem deleteBookData_accounts {tx tx' : Tx} {id u : Bytes} (h : deleteBookData id u tx = .ok tx') :
    SameAccounts tx tx' := by
  rw [deleteBookData] at h
  obtain ⟨⟨b, tx₁⟩, h₁, h⟩ := bind_eq_ok.mp h
  cases h
  exact deleteBookDataInTx_accounts h₁

theorem deleteBooksData_accounts {passed : Bytes → Bool} {tx tx' : Tx} {ids : List Bytes} {u : Bytes}
    {bs : List Book} (h : deleteBooksData ids u passed tx = .ok (bs, tx')) : SameAccounts tx tx' := by
  refine foldlM_invariant (fun r : List Book × Tx => SameAccounts tx r.2) ?_ (.refl tx) h
  intro id _ r r' hr hstep
  obtain ⟨⟨b, tx₁⟩, h₁, hstep⟩ := bind_eq_ok.mp hstep
  cases hstep
  exact hr.trans (deleteBookDataInTx_accounts h₁)

theorem deleteBooksByUser_accounts {tx tx' : Tx} {u : Bytes} (h : deleteBooksByUser u tx = .ok tx') :
    SameAccounts tx tx' := by
  refine foldlM_invariant (SameAccounts tx) ?_ (.refl tx) h
  intro id _ t t' ht hstep
  exact ht.trans (deleteBookData_accounts hstep)

theorem updateBookSortKey_rows {tx tx' : Tx} {old b : Book} {k : SortKey}
    (h : updateBookSortKey tx old b k = .ok tx') :
    ∃ s c, tx' = { tx with bookSortIndex := s, bookCategorySortIndex := c } := by
  simp only [updateBookSortKey] at h
  split at h
  · obtain ⟨t, ht, h⟩ := bind_eq_ok.mp h
    cases ht
    split at h
    · cases h
      exact ⟨_, _, rfl⟩
    · split at h
      · cases h
      · obtain ⟨c, -, h⟩ := bind_eq_ok.mp h
        cases h
        exact ⟨_, some c, rfl⟩
  · obtain ⟨s, -, h⟩ := bind_eq_ok.mp h
    obtain ⟨t, ht, h⟩ := bind_eq_ok.mp h
    cases ht
    split at h
    · cases h
      exact ⟨s, _, rfl⟩
    · split at h
      · cases h
      · obtain ⟨c, -, h⟩ := bind_eq_ok.mp h
        cases h
        exact ⟨s, some c, rfl⟩

theorem touchBook_rows {tx tx' : Tx} {b : Book} {t : Time} (h : touchBook tx b t = .ok tx') :
    ∃ bs s c, tx' = { tx with books := bs, bookSortIndex := s, bookCategorySortIndex := c } := by
  rw [touchBook] at h
  split at h
  · cases h
    exact ⟨_, _, _, rfl⟩
  · obtain ⟨bs, -, h⟩ := bind_eq_ok.mp h
    obtain ⟨s, c, rfl⟩ := updateBookSortKey_rows h
    exact ⟨bs, s, c, rfl⟩

theorem saveProgressIfCurrent_accounts {tx tx' : Tx} {p : Progress} {u : Bytes} {e : Option Time}
    (h : saveProgressIfCurrent p u e tx = .ok tx') : SameAccounts tx tx' := by
  rw [saveProgressIfCurrent_eq] at h
  obtain ⟨b, -, h⟩ := bind_eq_ok.mp h
  simp only at h
  split at h
  · cases h
  · obtain ⟨tx₁, h₁, h⟩ := bind_eq_ok.mp h
    obtain ⟨q, t, rfl⟩ := recordProgress_ok h
    obtain ⟨bs, s, c, rfl⟩ := touchBook_rows h₁
    exact ⟨rfl, rfl⟩

theorem assignUnownedBooks_reading {tx tx' : Tx} {u : Bytes}
    (h : assignUnownedBooks u tx = .ok tx') : BooksOnly tx tx' := by
  refine foldlM_invariant (BooksOnly tx) ?_ (.refl tx) h
  intro r _ t t' ht hstep
  split at hstep
  · cases hstep
    exact ht
  · obtain ⟨bs, -, hstep⟩ := bind_eq_ok.mp hstep
    obtain ⟨t₁, h₁, hstep⟩ := bind_eq_ok.mp hstep
    exact (ht.trans ((addBookToUserIndex_reading h₁).books bs)).trans
      (addBookToSortIndex_frame hstep).reading

theorem assignUnownedDataToUser_accounts {tx tx' : Tx} {u : Bytes}
    (h : assignUnownedDataToUser u tx = .ok tx') : SameAccounts tx tx' := by
  simp only [assignUnownedDataToUser] at h
  split at h
  · cases h
    exact .refl tx
  · obtain ⟨tx₁, h₁, h⟩ := bind_eq_ok.mp h
    obtain ⟨tx₂, h₂, h⟩ := bind_eq_ok.mp h
    obtain ⟨tx₃, h₃, h⟩ := bind_eq_ok.mp h
    obtain ⟨tx₄, h₄, h⟩ := bind_eq_ok.mp h
    obtain ⟨tx₅, h₅, h⟩ := bind_eq_ok.mp h
    obtain ⟨tx₆, h₆, h⟩ := bind_eq_ok.mp h
    obtain ⟨tx₇, h₇, h⟩ := bind_eq_ok.mp h
    obtain ⟨tx₈, h₈, h⟩ := bind_eq_ok.mp h
    obtain ⟨tx₉, h₉, h₁₀⟩ := bind_eq_ok.mp h
    obtain ⟨p, rfl⟩ := assignUnownedProgress_ok h₂
    obtain ⟨bs, rfl, -⟩ := migrateBookCategories_ok h₃
    obtain ⟨c, m, rfl⟩ := rebuildBookContentIndex_ok h₇
    obtain ⟨t, rfl⟩ := rebuildProgressTimeIndex_ok h₉
    have hassigned : SameAccounts tx { tx₁ with progress := p, books := bs } :=
      (assignUnownedBooks_reading h₁).accounts.trans ⟨rfl, rfl⟩
    have hindexed : SameAccounts { tx₁ with progress := p, books := bs } tx₆ :=
      (((rebuildBookSortIndex_frame h₄).trans (rebuildBookSearchIndex_frame h₅)).trans
        (rebuildBookSearchGramIndex_frame h₆)).accounts
    have hsummary := (rebuildLibrarySummaryIndex_frame h₈).accounts
    have hmissing := (rebuildMissingBookHashIndex_frame h₁₀).accounts
    have hcounted : SameAccounts tx₆ tx₈ := ⟨hsummary.users, hsummary.usernames⟩
    have htracked : SameAccounts tx₈ tx' := ⟨hmissing.users, hmissing.usernames⟩
    exact ((hassigned.trans hindexed).trans hcounted).trans htracked

/-- The operations on the accounts themselves. -/
def Op.writesAccounts : Op → Bool
  | .saveUser _ | .deleteUser _ | .purgeUser _ => true
  | _ => false

theorem Op.transaction_accounts {tx tx' : Tx} {op : Op} (hop : op.writesAccounts = false)
    (h : op.transaction tx = .ok tx') : SameAccounts tx tx' := by
  cases op with
  | saveBook book => exact (saveBook_reading h).accounts
  | createBook book => exact (createBook_reading h).accounts
  | deleteBookData id u => exact deleteBookData_accounts h
  | deleteBooksData ids u passed =>
      obtain ⟨bs, h⟩ := map_snd_eq_ok h
      exact deleteBooksData_accounts h
  | updateBooksCategory ids u c =>
      obtain ⟨bs, h⟩ := map_snd_eq_ok h
      exact (updateBooksCategoryInTx_reading h).accounts
  | renameBookCategory u s t =>
      obtain ⟨ids, h⟩ := map_snd_eq_ok h
      exact (renameBookCategory_reading h).accounts
  | normalizeBookCategories => exact (normalizeBookCategories_reading h).accounts
  | saveProgressIfCurrent p u e => exact saveProgressIfCurrent_accounts h
  | backfillBookContentHashes hs => exact (backfillBookContentHashes_reading h).accounts
  | assignUnownedDataToUser u => exact assignUnownedDataToUser_accounts h
  | deleteUserData u =>
      rw [transaction, Storage.deleteUserData] at h
      obtain ⟨tx₁, h₁, h⟩ := bind_eq_ok.mp h
      cases h
      exact (deleteBooksByUser_accounts h₁).trans ⟨rfl, rfl⟩
  | deleteProgress b u =>
      simp only [transaction, Storage.deleteProgress] at h
      cases h
      split
      · next p _ =>
        obtain ⟨t, ht⟩ := removeProgressFromTimeIndex_eq tx p
        rw [ht]
        exact ⟨rfl, rfl⟩
      · exact ⟨rfl, rfl⟩
  | saveBookmark m u =>
      simp only [transaction, Storage.saveBookmark] at h
      obtain ⟨_, -, h⟩ := bind_eq_ok.mp h
      obtain ⟨ms, -, h⟩ := bind_eq_ok.mp h
      cases h
      exact ⟨rfl, rfl⟩
  | deleteBookmark b m u =>
      simp only [transaction, Storage.deleteBookmark] at h
      obtain ⟨_, -, h⟩ := bind_eq_ok.mp h
      split at h
      · cases h
      · cases h
        exact ⟨rfl, rfl⟩
  | saveUser user | deleteUser id | purgeUser id => cases hop

/-! ## The username index -/

/-- Every account is filed under its identifier, and its name leads to it. -/
def Named (tx : Tx) : Prop :=
  ∀ id user, tx.users.get id = some user →
    user.id = id ∧ tx.usernameIndex.get (normalizeUsername user.username) = some id

theorem Named.congr {tx tx' : Tx} (hn : Named tx) (h : SameAccounts tx tx') : Named tx' := by
  rw [Named, h.users, h.usernames]
  exact hn

theorem named_migrated : Named .migrated := by
  intro id user h
  simp [Tx.migrated] at h

/-- Names that read the same belong to one account. -/
theorem Named.unique {tx : Tx} (hn : Named tx) {id id' : Bytes} {user user' : User}
    (h : tx.users.get id = some user) (h' : tx.users.get id' = some user')
    (hname : normalizeUsername user.username = normalizeUsername user'.username) : id = id' := by
  have hid := (hn id user h).2
  rw [hname, (hn id' user' h').2] at hid
  exact (Option.some.inj hid).symm

theorem Named.getUserByUsername {tx : Tx} (hn : Named tx) {id : Bytes} {user : User}
    (h : tx.users.get id = some user) : getUserByUsername tx user.username = some user := by
  rw [Storage.getUserByUsername, (hn id user h).2]
  exact h

/-- Saving a new account whose name nobody has. -/
theorem Named.save {tx tx' : Tx} (hn : Named tx) {user : User} (hnew : tx.users.get user.id = none)
    (hfree : Storage.getUserByUsername tx user.username = none) (h : saveUser user tx = .ok tx') :
    Named tx' := by
  rw [saveUser, hnew] at h
  obtain ⟨users, husers, h⟩ := bind_eq_ok.mp h
  obtain ⟨names, hnames, h⟩ := bind_eq_ok.mp h
  cases h
  intro id other hother
  change users.get id = some other at hother
  change other.id = id ∧ names.get (normalizeUsername other.username) = some id
  rw [Bucket.get_put (store_eq_ok.mp husers)] at hother
  rw [Bucket.get_put (store_eq_ok.mp hnames)]
  split at hother
  · next he =>
    cases hother
    exact ⟨he, by rw [if_pos rfl, he]⟩
  · obtain ⟨hid, hname⟩ := hn id other hother
    refine ⟨hid, ?_⟩
    rw [if_neg]
    · exact hname
    · intro he
      rw [Storage.getUserByUsername, he, hname, Option.bind_some, hother] at hfree
      cases hfree

theorem Named.delete {tx : Tx} (hn : Named tx) {id : Bytes} {user : User}
    (hget : tx.users.get id = some user) :
    Named { tx with
      users := tx.users.delete id
      usernameIndex := tx.usernameIndex.delete (normalizeUsername user.username) } := by
  intro id' other hother
  change (tx.users.delete id).get id' = some other at hother
  change other.id = id' ∧
    (tx.usernameIndex.delete (normalizeUsername user.username)).get _ = some id'
  rw [Bucket.get_delete] at hother
  rw [Bucket.get_delete]
  split at hother
  · cases hother
  · next hne =>
    obtain ⟨hid, hname⟩ := hn id' other hother
    refine ⟨hid, ?_⟩
    rw [if_neg]
    · exact hname
    · intro he
      exact hne (hn.unique hget hother he)

def Op.savesUser : Op → Bool
  | .saveUser _ => true
  | _ => false

/-- Whatever is not the saving of an account keeps the names apart. -/
theorem Op.transaction_named {tx tx' : Tx} {op : Op} (hn : Named tx)
    (hop : op.savesUser = false) (h : op.transaction tx = .ok tx') : Named tx' := by
  cases hw : op.writesAccounts with
  | false => exact hn.congr (Op.transaction_accounts hw h)
  | true =>
      cases op with
      | saveUser user => cases hop
      | deleteUser id =>
          simp only [transaction, Storage.deleteUser] at h
          split at h
          · cases h
          · next user hget =>
            cases h
            exact hn.delete hget
      | purgeUser id =>
          simp only [transaction, Storage.purgeUser] at h
          split at h
          · cases h
          · next user hget =>
            obtain ⟨tx₁, h₁, h⟩ := bind_eq_ok.mp h
            cases h
            have hsame := deleteBooksByUser_accounts h₁
            have hget₁ : tx₁.users.get id = some user := by rw [hsame.users, hget]
            exact ((hn.congr hsame).delete hget₁).congr ⟨rfl, rfl⟩
      | _ => cases hw

theorem Op.run_named {db : Tx} {op : Op} (hn : Named db) (hop : op.savesUser = false) :
    Named (op.run db) :=
  Tx.update_induction hn (fun _ h => Op.transaction_named hn hop h)

end ZReader.Storage
