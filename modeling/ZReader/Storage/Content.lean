import ZReader.Storage.Accounts

namespace ZReader.Storage

open Lib.Utf8 Lib.Strings Lib.KeyValue Lib.DerivedIndex Lib.Fallible

/-! ## The content bucket on its own -/

/-- What `addBookToContentIndex` does to the content bucket. -/
def fileContent (idx : Bucket Bytes) (book : Book) : Result (Bucket Bytes) :=
  if book.userID = [] ∨ book.id = [] ∨ book.contentHash = [] then .ok idx
  else do
    let bucket ← store idx (bookContentMembershipKey book) book.id
    match bucket.get (bookContentIndexKey book.userID book.contentHash) with
    | some _ => .ok bucket
    | none => store bucket (bookContentIndexKey book.userID book.contentHash) book.id

/-- What `removeBookFromContentIndex` does to it. -/
def unfileContent (idx : Bucket Bytes) (book : Book) : Result (Bucket Bytes) :=
  if book.userID = [] ∨ book.contentHash = [] then .ok idx
  else
    let key := bookContentIndexKey book.userID book.contentHash
    let bucket := idx.delete (bookContentMembershipKey book)
    if (bucket.get key).any (· ≠ book.id) then .ok bucket
    else
      match (bucket.seek (key ++ [nul]) (key ++ [nul])).head? with
      | some (_, id) => store bucket key id
      | none => .ok (bucket.delete key)

theorem addBookToContentIndex_content {tx tx' : Tx} {b : Book}
    (h : addBookToContentIndex tx b = .ok tx') :
    fileContent tx.bookContentIndex b = .ok tx'.bookContentIndex := by
  rw [addBookToContentIndex] at h
  obtain ⟨tx₁, ht, h⟩ := bind_eq_ok.mp h
  obtain ⟨m, rfl⟩ := trackMissingBookHash_ok ht
  rw [fileContent]
  split at h
  · next hu =>
    cases h
    rw [if_pos hu]
  · next hu =>
    rw [if_neg hu]
    obtain ⟨bucket, hput, h⟩ := bind_eq_ok.mp h
    apply bind_eq_ok.mpr
    refine ⟨bucket, hput, ?_⟩
    cases hget : bucket.get (bookContentIndexKey b.userID b.contentHash) with
    | some id =>
        simp only [hget] at h ⊢
        cases h
        rfl
    | none =>
        simp only [hget] at h ⊢
        obtain ⟨bucket', hput', h⟩ := bind_eq_ok.mp h
        cases h
        exact hput'

theorem removeBookFromContentIndex_content {tx tx' : Tx} {b : Book}
    (h : removeBookFromContentIndex tx b = .ok tx') :
    unfileContent tx.bookContentIndex b = .ok tx'.bookContentIndex := by
  simp only [removeBookFromContentIndex] at h
  simp only [unfileContent]
  split at h
  · next hu =>
    cases h
    rw [if_pos hu]
  · next hu =>
    rw [if_neg hu]
    split at h
    · next hcur =>
      cases h
      rw [if_pos hcur]
    · next hcur =>
      rw [if_neg hcur]
      cases hseek : ((tx.bookContentIndex.delete (bookContentMembershipKey b)).seek
          (bookContentIndexKey b.userID b.contentHash ++ [nul])
          (bookContentIndexKey b.userID b.contentHash ++ [nul])).head? with
      | some row =>
          simp only [hseek] at h ⊢
          obtain ⟨bucket, hput, h⟩ := bind_eq_ok.mp h
          cases h
          exact hput
      | none =>
          simp only [hseek] at h ⊢
          cases h
          rfl

/-! ## Index maintenance that leaves the content bucket alone -/

theorem addBookToSortIndex_content {tx tx' : Tx} {b : Book} (h : addBookToSortIndex tx b = .ok tx') :
    tx'.bookContentIndex = tx.bookContentIndex := by
  rw [addBookToSortIndex] at h
  split at h
  · cases h
    rfl
  · refine foldlM_invariant (fun t => t.bookContentIndex = tx.bookContentIndex) ?_ rfl h
    intro k _ t t' ht hstep
    rw [addSortKey] at hstep
    obtain ⟨s, -, hstep⟩ := bind_eq_ok.mp hstep
    simp only at hstep
    split at hstep
    · cases hstep
      exact ht
    · obtain ⟨c, -, hstep⟩ := bind_eq_ok.mp hstep
      cases hstep
      exact ht

theorem removeBookFromSortIndex_content (tx : Tx) (b : Book) :
    (removeBookFromSortIndex tx b).bookContentIndex = tx.bookContentIndex := by
  rw [removeBookFromSortIndex_eq]

theorem addBookToSearchIndex_content {tx tx' : Tx} {b : Book}
    (h : addBookToSearchIndex tx b = .ok tx') : tx'.bookContentIndex = tx.bookContentIndex := by
  rw [addBookToSearchIndex] at h
  split at h
  · cases h
    rfl
  · obtain ⟨s, -, h⟩ := bind_eq_ok.mp h
    cases h
    rfl

theorem removeBookFromSearchIndex_content (tx : Tx) (b : Book) :
    (removeBookFromSearchIndex tx b).bookContentIndex = tx.bookContentIndex := by
  rw [removeBookFromSearchIndex]
  split
  · rfl
  · rfl

theorem adjustBookSearchGramCount_content {tx tx' : Tx} {u g : Bytes} {d : Int}
    (h : adjustBookSearchGramCount tx u g d = .ok tx') :
    tx'.bookContentIndex = tx.bookContentIndex := by
  rw [adjustBookSearchGramCount] at h
  split at h
  · cases h
    rfl
  · simp only at h
    split at h
    · cases h
      rfl
    · obtain ⟨s, -, h⟩ := bind_eq_ok.mp h
      cases h
      rfl

theorem addBookToSearchGramIndex_content {tx tx' : Tx} {b : Book}
    (h : addBookToSearchGramIndex tx b = .ok tx') : tx'.bookContentIndex = tx.bookContentIndex := by
  rw [addBookToSearchGramIndex] at h
  split at h
  · cases h
    rfl
  · refine foldlM_invariant (fun t => t.bookContentIndex = tx.bookContentIndex) ?_ rfl h
    intro g _ t t' ht hstep
    simp only [addSearchGram] at hstep
    split at hstep
    · cases hstep
      exact ht
    · obtain ⟨s, -, hstep⟩ := bind_eq_ok.mp hstep
      exact (adjustBookSearchGramCount_content hstep).trans ht

theorem removeBookFromSearchGramIndex_content {tx tx' : Tx} {b : Book}
    (h : removeBookFromSearchGramIndex tx b = .ok tx') :
    tx'.bookContentIndex = tx.bookContentIndex := by
  rw [removeBookFromSearchGramIndex] at h
  split at h
  · cases h
    rfl
  · refine foldlM_invariant (fun t => t.bookContentIndex = tx.bookContentIndex) ?_ rfl h
    intro g _ t t' ht hstep
    simp only [removeSearchGram] at hstep
    split at hstep
    · cases hstep
      exact ht
    · exact (adjustBookSearchGramCount_content hstep).trans ht

theorem adjustLibrarySummary_content {tx tx' : Tx} {b : Book} {d : Int}
    (h : adjustLibrarySummary tx b d = .ok tx') : tx'.bookContentIndex = tx.bookContentIndex := by
  rw [adjustLibrarySummary, saveLibrarySummary] at h
  split at h
  · cases h
    rfl
  · split at h
    · cases h
      rfl
    · obtain ⟨s, -, h⟩ := bind_eq_ok.mp h
      cases h
      rfl

theorem addBookToUserIndex_rows {tx tx' : Tx} {id u : Bytes}
    (h : addBookToUserIndex tx id u = .ok tx') : ∃ i, tx' = { tx with userBooksIndex := i } := by
  rw [addBookToUserIndex] at h
  split at h
  · cases h
    exact ⟨_, rfl⟩
  · obtain ⟨i, -, h⟩ := bind_eq_ok.mp h
    cases h
    exact ⟨i, rfl⟩

theorem removeBookFromUserIndex_rows (tx : Tx) (id u : Bytes) :
    ∃ i, removeBookFromUserIndex tx id u = { tx with userBooksIndex := i } := by
  rw [removeBookFromUserIndex]
  split
  · exact ⟨_, rfl⟩
  · exact ⟨_, rfl⟩

theorem reassignBook_rows {tx tx' : Tx} {id old u : Bytes}
    (h : reassignBook tx id old u = .ok tx') : ∃ i, tx' = { tx with userBooksIndex := i } := by
  rw [reassignBook] at h
  split at h
  · simp only at h
    split at h
    · obtain ⟨i, hi⟩ := removeBookFromUserIndex_rows tx id old
      rw [hi] at h
      obtain ⟨j, rfl⟩ := addBookToUserIndex_rows h
      exact ⟨j, rfl⟩
    · exact addBookToUserIndex_rows h
  · cases h
    exact ⟨_, rfl⟩

theorem listBook_content {tx tx' : Tx} {b : Book} (h : listBook tx b = .ok tx') :
    fileContent tx.bookContentIndex b = .ok tx'.bookContentIndex := by
  rw [listBook] at h
  obtain ⟨tx₁, h₁, h⟩ := bind_eq_ok.mp h
  obtain ⟨tx₂, h₂, h⟩ := bind_eq_ok.mp h
  obtain ⟨tx₃, h₃, h⟩ := bind_eq_ok.mp h
  obtain ⟨tx₄, h₄, h⟩ := bind_eq_ok.mp h
  have hfile := addBookToContentIndex_content h₄
  rwa [addBookToSearchGramIndex_content h₃, addBookToSearchIndex_content h₂,
    addBookToSortIndex_content h₁, ← adjustLibrarySummary_content h] at hfile

theorem unlistBook_content {tx tx' : Tx} {b : Book} (h : unlistBook tx b = .ok tx') :
    unfileContent tx.bookContentIndex b = .ok tx'.bookContentIndex := by
  rw [unlistBook] at h
  obtain ⟨tx₁, h₁, h⟩ := bind_eq_ok.mp h
  obtain ⟨tx₂, h₂, h⟩ := bind_eq_ok.mp h
  have hunfile := removeBookFromContentIndex_content h₂
  have hrest := (removeBookFromSearchGramIndex_content h).trans
    (removeBookFromSearchIndex_content (removeBookFromSortIndex tx₂ b) b)
  rwa [adjustLibrarySummary_content h₁, ← removeBookFromSortIndex_content tx₂ b, ← hrest] at hunfile

/-! ## The canonical and the membership rows -/

def Hashed (b : Book) : Prop := b.userID ≠ [] ∧ b.contentHash ≠ []

/-- A record that is filed under a generated identifier; its owner and its hash can be
cut out of the keys they are joined into. -/
structure Plain (id : Bytes) (b : Book) : Prop where
  key : b.id = id
  wellFormed : WellFormedID id
  user : nul ∉ b.userID
  hash : nul ∉ b.contentHash

/-- What stands before the first separator and after it. -/
theorem append_cons_inj_left {sep : UInt8} {x y a b : Bytes} (hx : sep ∉ x) (hy : sep ∉ y)
    (h : x ++ sep :: a = y ++ sep :: b) : x = y ∧ a = b := by
  induction x generalizing y with
  | nil =>
      cases y with
      | nil => simpa using h
      | cons c y =>
          rw [List.nil_append, List.cons_append, List.cons.injEq] at h
          exact absurd (by simp [h.1]) hy
  | cons d x ih =>
      cases y with
      | nil =>
          rw [List.nil_append, List.cons_append, List.cons.injEq] at h
          exact absurd (by simp [h.1]) hx
      | cons c y =>
          rw [List.cons_append, List.cons_append, List.cons.injEq] at h
          obtain ⟨rfl, h⟩ := h
          obtain ⟨rfl, rfl⟩ := ih (fun hm => hx (by simp [hm])) (fun hm => hy (by simp [hm])) h
          exact ⟨rfl, rfl⟩

theorem bookContentIndexKey_inj {u v h k : Bytes} (hu : nul ∉ u) (hv : nul ∉ v)
    (he : bookContentIndexKey u h = bookContentIndexKey v k) : u = v ∧ h = k := by
  simp only [bookContentIndexKey, List.append_assoc, List.singleton_append] at he
  exact append_cons_inj_left hu hv he

theorem bookContentMembershipKey_eq (b : Book) :
    bookContentMembershipKey b = b.userID ++ nul :: (b.contentHash ++ nul :: b.id) := by
  simp [bookContentMembershipKey, bookContentIndexKey]

theorem isPrefix_bookContentMembershipKey (b : Book) :
    bookContentIndexKey b.userID b.contentHash ++ [nul] <+: bookContentMembershipKey b :=
  List.prefix_append _ _

/-- A membership key determines the book's owner, hash and identifier. -/
theorem Plain.membership_inj {id id' : Bytes} {b c : Book} (hb : Plain id b) (hc : Plain id' c)
    (he : bookContentMembershipKey b = bookContentMembershipKey c) :
    b.userID = c.userID ∧ b.contentHash = c.contentHash ∧ id = id' := by
  rw [bookContentMembershipKey_eq, bookContentMembershipKey_eq] at he
  obtain ⟨hu, he⟩ := append_cons_inj_left hb.user hc.user he
  obtain ⟨hh, hid⟩ := append_cons_inj_left hb.hash hc.hash he
  exact ⟨hu, hh, by rw [← hb.key, hid, hc.key]⟩

/-- No membership key is the canonical key of a hash. -/
theorem Plain.membership_ne {id u h : Bytes} {b : Book} (hb : Plain id b) (hu : nul ∉ u)
    (hh : nul ∉ h) : bookContentMembershipKey b ≠ bookContentIndexKey u h := by
  intro he
  simp only [bookContentMembershipKey_eq, bookContentIndexKey, List.append_assoc,
    List.singleton_append] at he
  obtain ⟨-, he⟩ := append_cons_inj_left hb.user hu he
  apply hh
  rw [← he]
  simp

/-- The rows in the range of a hash are the membership rows of its books. -/
theorem Plain.prefix_membership {id u h : Bytes} {b : Book} (hb : Plain id b) (hu : nul ∉ u)
    (hh : nul ∉ h) (hp : bookContentIndexKey u h ++ [nul] <+: bookContentMembershipKey b) :
    b.userID = u ∧ b.contentHash = h := by
  obtain ⟨x, hx⟩ := hp
  simp only [bookContentMembershipKey_eq, bookContentIndexKey, List.append_assoc,
    List.singleton_append] at hx
  obtain ⟨he, hx⟩ := append_cons_inj_left hu hb.user hx
  obtain ⟨he', -⟩ := append_cons_inj_left hh hb.hash hx
  exact ⟨he.symm, he'.symm⟩

/-- Canonical keys are not in the range of a hash. -/
theorem Plain.not_prefix_canonical {id u h : Bytes} {b : Book} (hb : Plain id b) (hu : nul ∉ u) :
    ¬ bookContentIndexKey u h ++ [nul] <+: bookContentIndexKey b.userID b.contentHash := by
  rintro ⟨x, hx⟩
  simp only [bookContentIndexKey, List.append_assoc, List.singleton_append] at hx
  obtain ⟨-, hx⟩ := append_cons_inj_left hu hb.user hx
  apply hb.hash
  rw [← hx]
  simp

/-- The content bucket has a membership row for every book with an owner and a hash, one
canonical row for every hash of an owner, and no others. -/
structure ContentIndexed (books : Bytes → Option Book) (idx : Bucket Bytes) : Prop where
  plain : ∀ id b, books id = some b → Plain id b
  sound : ∀ k id, idx.get k = some id → ∃ b, books id = some b ∧ Hashed b ∧
    (k = bookContentMembershipKey b ∨ k = bookContentIndexKey b.userID b.contentHash)
  member : ∀ id b, books id = some b → Hashed b →
    idx.get (bookContentMembershipKey b) = some id
  canonical : ∀ id b, books id = some b → Hashed b →
    ∃ c, idx.get (bookContentIndexKey b.userID b.contentHash) = some c

theorem contentIndexed_empty : ContentIndexed (fun _ => none) .empty :=
  ⟨by simp, by simp, by simp, by simp⟩

/-- The rows depend on owners and hashes only. -/
theorem ContentIndexed.congr {books books' : Bytes → Option Book} {idx : Bucket Bytes}
    (h : ContentIndexed books idx)
    (hsame : ∀ id, (books' id).map (fun b => (b.id, b.userID, b.contentHash)) =
      (books id).map (fun b => (b.id, b.userID, b.contentHash))) : ContentIndexed books' idx := by
  have hold : ∀ id b', books' id = some b' → ∃ b, books id = some b ∧ b.id = b'.id ∧
      b.userID = b'.userID ∧ b.contentHash = b'.contentHash := by
    intro id b' hb'
    have he := hsame id
    rw [hb', Option.map_some, eq_comm, Option.map_eq_some_iff] at he
    obtain ⟨b, hb, he⟩ := he
    simp only [Prod.mk.injEq] at he
    exact ⟨b, hb, he⟩
  have hnew : ∀ id b, books id = some b → ∃ b', books' id = some b' ∧ b'.id = b.id ∧
      b'.userID = b.userID ∧ b'.contentHash = b.contentHash := by
    intro id b hb
    have he := hsame id
    rw [hb, Option.map_some, Option.map_eq_some_iff] at he
    obtain ⟨b', hb', he⟩ := he
    simp only [Prod.mk.injEq] at he
    exact ⟨b', hb', he⟩
  refine ⟨?_, ?_, ?_, ?_⟩
  · intro id b' hb'
    obtain ⟨b, hb, hid, hu, hh⟩ := hold id b' hb'
    have hp := h.plain id b hb
    exact ⟨hid ▸ hp.key, hp.wellFormed, hu ▸ hp.user, hh ▸ hp.hash⟩
  · intro k id hk
    obtain ⟨b, hb, hhash, hrow⟩ := h.sound k id hk
    obtain ⟨b', hb', hid, hu, hh⟩ := hnew id b hb
    refine ⟨b', hb', ?_, ?_⟩
    · rw [Hashed, hu, hh]
      exact hhash
    · rw [bookContentMembershipKey, hid, hu, hh]
      exact hrow
  · intro id b' hb' hhash
    obtain ⟨b, hb, hid, hu, hh⟩ := hold id b' hb'
    have hmem := h.member id b hb (by rw [Hashed, hu, hh]; exact hhash)
    rwa [bookContentMembershipKey, hid, hu, hh] at hmem
  · intro id b' hb' hhash
    obtain ⟨b, hb, hid, hu, hh⟩ := hold id b' hb'
    have hcan := h.canonical id b hb (by rw [Hashed, hu, hh]; exact hhash)
    rwa [hu, hh] at hcan

/-! ## Filing and unfiling a book -/

theorem ContentIndexed.plain_update {books : Bytes → Option Book} {idx : Bucket Bytes}
    (h : ContentIndexed books idx) {b : Book} (hb : Plain b.id b) (id : Bytes) (c : Book)
    (hc : Function.update books b.id (some b) id = some c) : Plain id c := by
  by_cases hid : id = b.id
  · rw [hid, Function.update_self] at hc
    cases hc
    exact hid ▸ hb
  · rw [Function.update_of_ne hid] at hc
    exact h.plain id c hc

theorem ContentIndexed.file_unhashed {books : Bytes → Option Book} {idx : Bucket Bytes}
    (h : ContentIndexed books idx) {b : Book} (hb : Plain b.id b) (hn : ¬ Hashed b)
    (hold : ∀ c, books b.id = some c → ¬ Hashed c) :
    ContentIndexed (Function.update books b.id (some b)) idx := by
  have hother : ∀ id c, Function.update books b.id (some b) id = some c → Hashed c →
      books id = some c := by
    intro id c hc hhash
    by_cases hid : id = b.id
    · rw [hid, Function.update_self] at hc
      cases hc
      exact absurd hhash hn
    · rwa [Function.update_of_ne hid] at hc
  refine ⟨h.plain_update hb, ?_, ?_, ?_⟩
  · intro k id hk
    obtain ⟨c, hc, hhash, hrow⟩ := h.sound k id hk
    refine ⟨c, ?_, hhash, hrow⟩
    rw [Function.update_of_ne]
    · exact hc
    · rintro rfl
      exact hold c hc hhash
  · intro id c hc hhash
    exact h.member id c (hother id c hc hhash) hhash
  · intro id c hc hhash
    exact h.canonical id c (hother id c hc hhash) hhash

/-- The bucket keeps its rows and gains the membership row, and the canonical row if
there is none. -/
theorem fileContent_rows {idx idx' : Bucket Bytes} {b : Book} (hb : Plain b.id b) (hhash : Hashed b)
    (hfile : fileContent idx b = .ok idx') (k : Bytes) :
    (k = bookContentMembershipKey b → idx'.get k = some b.id) ∧
    (k ≠ bookContentMembershipKey b → idx'.get k = idx.get k ∨
      k = bookContentIndexKey b.userID b.contentHash ∧ idx.get k = none ∧
        idx'.get k = some b.id) ∧
    (k = bookContentIndexKey b.userID b.contentHash → ∃ c, idx'.get k = some c) := by
  have hne := hb.membership_ne hb.user hb.hash
  have hfiled : ¬ (b.userID = [] ∨ b.id = [] ∨ b.contentHash = []) := by
    rintro (hn | hn | hn)
    · exact hhash.1 hn
    · exact hb.wellFormed.1 hn
    · exact hhash.2 hn
  rw [fileContent, if_neg hfiled] at hfile
  obtain ⟨bucket, hput, hfile⟩ := bind_eq_ok.mp hfile
  rw [store_eq_ok] at hput
  split at hfile
  · next c hget =>
    cases hfile
    refine ⟨?_, ?_, ?_⟩
    · intro hk
      rw [Bucket.get_put hput, if_pos hk.symm]
    · intro hk
      rw [Bucket.get_put hput, if_neg (Ne.symm hk)]
      exact Or.inl rfl
    · rintro rfl
      exact ⟨c, hget⟩
  · next hget =>
    rw [store_eq_ok] at hfile
    rw [Bucket.get_put hput, if_neg hne] at hget
    refine ⟨?_, ?_, ?_⟩
    · intro hk
      rw [Bucket.get_put hfile, if_neg (hk ▸ hne.symm), Bucket.get_put hput, if_pos hk.symm]
    · intro hk
      rw [Bucket.get_put hfile]
      split
      · next hkey => exact Or.inr ⟨hkey.symm, hkey ▸ hget, rfl⟩
      · rw [Bucket.get_put hput, if_neg (Ne.symm hk)]
        exact Or.inl rfl
    · rintro rfl
      exact ⟨b.id, by rw [Bucket.get_put hfile, if_pos rfl]⟩

theorem ContentIndexed.file {books : Bytes → Option Book} {idx idx' : Bucket Bytes}
    (h : ContentIndexed books idx) {b : Book} (hb : Plain b.id b)
    (hold : ∀ c, books b.id = some c → ¬ Hashed c) (hfile : fileContent idx b = .ok idx') :
    ContentIndexed (Function.update books b.id (some b)) idx' := by
  by_cases hhash : Hashed b
  · have hrows := fileContent_rows hb hhash hfile
    have hupdate : Function.update books b.id (some b) b.id = some b := Function.update_self _ _ _
    have hkeep : ∀ id c, books id = some c → Hashed c →
        Function.update books b.id (some b) id = some c := by
      intro id c hc hchash
      rw [Function.update_of_ne]
      · exact hc
      · rintro rfl
        exact hold c hc hchash
    refine ⟨h.plain_update hb, ?_, ?_, ?_⟩
    · intro k id hk
      by_cases hmem : k = bookContentMembershipKey b
      · rw [(hrows k).1 hmem] at hk
        cases hk
        exact ⟨b, hupdate, hhash, Or.inl hmem⟩
      · rcases (hrows k).2.1 hmem with hsame | ⟨hcan, -, hset⟩
        · rw [hsame] at hk
          obtain ⟨c, hc, hchash, hrow⟩ := h.sound k id hk
          exact ⟨c, hkeep id c hc hchash, hchash, hrow⟩
        · rw [hset] at hk
          cases hk
          exact ⟨b, hupdate, hhash, Or.inr hcan⟩
    · intro id c hc hchash
      by_cases hid : id = b.id
      · rw [hid, Function.update_self] at hc
        cases hc
        rw [hid]
        exact (hrows _).1 rfl
      · rw [Function.update_of_ne hid] at hc
        have hcp := h.plain id c hc
        have hne : bookContentMembershipKey c ≠ bookContentMembershipKey b := by
          intro he
          exact hid (hcp.membership_inj hb he).2.2
        rcases (hrows _).2.1 hne with hsame | ⟨-, hnone, -⟩
        · rw [hsame]
          exact h.member id c hc hchash
        · rw [h.member id c hc hchash] at hnone
          cases hnone
    · intro id c hc hchash
      by_cases hid : id = b.id
      · rw [hid, Function.update_self] at hc
        cases hc
        exact (hrows _).2.2 rfl
      · rw [Function.update_of_ne hid] at hc
        have hcp := h.plain id c hc
        have hne := hb.membership_ne hcp.user hcp.hash
        rcases (hrows _).2.1 hne.symm with hsame | ⟨-, -, hset⟩
        · rw [hsame]
          exact h.canonical id c hc hchash
        · exact ⟨_, hset⟩
  · have hsame : idx' = idx := by
      rw [fileContent, if_pos] at hfile
      · cases hfile
        rfl
      · by_contra hn
        exact hhash ⟨fun hu => hn (Or.inl hu), fun hh => hn (Or.inr (Or.inr hh))⟩
    rw [hsame]
    exact h.file_unhashed hb hhash hold

/-- The first row in the range of a hash. -/
theorem seek_head_some {idx : Bucket Bytes} {pre : Bytes} {r : Bytes × Bytes}
    (h : (idx.seek pre pre).head? = some r) : idx.get r.1 = some r.2 ∧ pre <+: r.1 :=
  (Bucket.mem_seek_self (k := r.1) (v := r.2)).mp (List.mem_of_mem_head? h)

theorem seek_head_none {idx : Bucket Bytes} {pre : Bytes} (h : (idx.seek pre pre).head? = none)
    {k v : Bytes} (hp : pre <+: k) : idx.get k ≠ some v := by
  intro hget
  have hmem := Bucket.mem_seek_self.mpr ⟨hget, hp⟩
  rw [List.head?_eq_none_iff.mp h] at hmem
  cases hmem

/-- The bucket loses the membership row; the canonical row is kept when it points to
another book, else it moves to the first remaining member, else it is deleted. -/
theorem unfileContent_rows {idx idx' : Bucket Bytes} {b : Book} (hhash : Hashed b)
    (hunfile : unfileContent idx b = .ok idx') :
    let key := bookContentIndexKey b.userID b.contentHash
    let bucket := idx.delete (bookContentMembershipKey b)
    (∃ c, bucket.get key = some c ∧ c ≠ b.id ∧ ∀ k, idx'.get k = bucket.get k) ∨
    (∃ k' c, bucket.get k' = some c ∧ key ++ [nul] <+: k' ∧
      ∀ k, idx'.get k = if key = k then some c else bucket.get k) ∨
    ((∀ k c, key ++ [nul] <+: k → bucket.get k ≠ some c) ∧
      ∀ k, idx'.get k = if key = k then none else bucket.get k) := by
  intro key bucket
  have hfiled : ¬ (b.userID = [] ∨ b.contentHash = []) := by
    rintro (hn | hn)
    · exact hhash.1 hn
    · exact hhash.2 hn
  simp only [unfileContent, if_neg hfiled] at hunfile
  split at hunfile
  · next hcur =>
    cases hunfile
    obtain ⟨c, hc, hne⟩ := Option.any_eq_true _ _ |>.mp hcur
    exact Or.inl ⟨c, hc, by simpa using hne, fun _ => rfl⟩
  · split at hunfile
    · next k' c hseek =>
      obtain ⟨hget, hp⟩ := seek_head_some hseek
      right
      left
      refine ⟨k', c, hget, hp, ?_⟩
      intro k
      exact Bucket.get_put (store_eq_ok.mp hunfile) k
    · next hseek =>
      cases hunfile
      right
      right
      refine ⟨fun k c hp => seek_head_none hseek hp, ?_⟩
      intro k
      exact Bucket.get_delete bucket key k

/-- A row that is left without the membership row belongs to another book, unless it is
the canonical one. -/
theorem ContentIndexed.remaining_row {books : Bytes → Option Book} {idx : Bucket Bytes}
    (h : ContentIndexed books idx) {b : Book} (hget : books b.id = some b) {k id : Bytes}
    (hk : (idx.delete (bookContentMembershipKey b)).get k = some id) :
    ∃ c, books id = some c ∧ Hashed c ∧
      (k = bookContentMembershipKey c ∨ k = bookContentIndexKey c.userID c.contentHash) ∧
      (id = b.id → k = bookContentIndexKey b.userID b.contentHash) := by
  rw [Bucket.get_delete] at hk
  split at hk
  · cases hk
  · next hne =>
    obtain ⟨c, hc, hhash, hrow⟩ := h.sound k id hk
    refine ⟨c, hc, hhash, hrow, ?_⟩
    rintro rfl
    rw [hget] at hc
    cases hc
    rcases hrow with hrow | hrow
    · exact absurd hrow.symm hne
    · exact hrow

theorem ContentIndexed.unfile {books : Bytes → Option Book} {idx idx' : Bucket Bytes}
    (h : ContentIndexed books idx) {b : Book} (hget : books b.id = some b)
    (hunfile : unfileContent idx b = .ok idx') :
    ContentIndexed (Function.update books b.id none) idx' := by
  have hother : ∀ id c, Function.update books b.id none id = some c ↔
      id ≠ b.id ∧ books id = some c := by
    intro id c
    by_cases hid : id = b.id
    · simp [hid]
    · simp [hid]
  have hplain : ∀ id c, Function.update books b.id none id = some c → Plain id c :=
    fun id c hc => h.plain id c ((hother id c).mp hc).2
  have hb := h.plain b.id b hget
  by_cases hhash : Hashed b
  · have hkey := hb.membership_ne hb.user hb.hash
    have hmember : ∀ id c, id ≠ b.id → books id = some c → Hashed c →
        (idx.delete (bookContentMembershipKey b)).get (bookContentMembershipKey c) = some id := by
      intro id c hid hc hchash
      rw [Bucket.get_delete, if_neg]
      · exact h.member id c hc hchash
      · intro he
        exact hid ((h.plain id c hc).membership_inj hb he.symm).2.2
    have hmoved : ∀ id c, books id = some c →
        bookContentIndexKey b.userID b.contentHash ≠ bookContentMembershipKey c :=
      fun id c hc => ((h.plain id c hc).membership_ne hb.user hb.hash).symm
    have hcanonical : ∀ id c, books id = some c → Hashed c → ∃ d,
        (idx.delete (bookContentMembershipKey b)).get
          (bookContentIndexKey c.userID c.contentHash) = some d := by
      intro id c hc hchash
      have hcp := h.plain id c hc
      rw [Bucket.get_delete, if_neg (hb.membership_ne hcp.user hcp.hash)]
      exact h.canonical id c hc hchash
    -- where the canonical row goes
    rcases unfileContent_rows hhash hunfile with ⟨d, hd, hne, hrows⟩ |
      ⟨k', d, hd, hp, hrows⟩ | ⟨hnone, hrows⟩
    · refine ⟨hplain, ?_, ?_, ?_⟩
      · intro k id hk
        rw [hrows] at hk
        obtain ⟨c, hc, hchash, hrow, hcan⟩ := h.remaining_row hget hk
        refine ⟨c, (hother id c).mpr ⟨?_, hc⟩, hchash, hrow⟩
        intro hid
        rw [hcan hid, hd] at hk
        exact hne ((Option.some.inj hk).trans hid)
      · intro id c hc hchash
        obtain ⟨hid, hc⟩ := (hother id c).mp hc
        rw [hrows]
        exact hmember id c hid hc hchash
      · intro id c hc hchash
        rw [hrows]
        exact hcanonical id c ((hother id c).mp hc).2 hchash
    · obtain ⟨e, he, hehash, herow, hecan⟩ := h.remaining_row hget hd
      have hep := h.plain d e he
      have hemember : k' = bookContentMembershipKey e := by
        rcases herow with herow | herow
        · exact herow
        · rw [herow] at hp
          exact absurd hp (hep.not_prefix_canonical hb.user)
      rw [hemember] at hp hecan
      obtain ⟨heu, heh⟩ := hep.prefix_membership hb.user hb.hash hp
      have hed : d ≠ b.id := fun hid => hmoved d e he (hecan hid).symm
      refine ⟨hplain, ?_, ?_, ?_⟩
      · intro k id hk
        rw [hrows] at hk
        split at hk
        · next hkk =>
          cases hk
          refine ⟨e, (hother d e).mpr ⟨hed, he⟩, hehash, Or.inr ?_⟩
          rw [heu, heh, hkk]
        · next hkk =>
          obtain ⟨c, hc, hchash, hrow, hcan⟩ := h.remaining_row hget hk
          exact ⟨c, (hother id c).mpr ⟨fun hid => hkk (hcan hid).symm, hc⟩, hchash, hrow⟩
      · intro id c hc hchash
        obtain ⟨hid, hc⟩ := (hother id c).mp hc
        rw [hrows, if_neg (hmoved id c hc)]
        exact hmember id c hid hc hchash
      · intro id c hc hchash
        rw [hrows]
        split
        · exact ⟨d, rfl⟩
        · exact hcanonical id c ((hother id c).mp hc).2 hchash
    · refine ⟨hplain, ?_, ?_, ?_⟩
      · intro k id hk
        rw [hrows] at hk
        split at hk
        · cases hk
        · next hkk =>
          obtain ⟨c, hc, hchash, hrow, hcan⟩ := h.remaining_row hget hk
          exact ⟨c, (hother id c).mpr ⟨fun hid => hkk (hcan hid).symm, hc⟩, hchash, hrow⟩
      · intro id c hc hchash
        obtain ⟨hid, hc⟩ := (hother id c).mp hc
        rw [hrows, if_neg (hmoved id c hc)]
        exact hmember id c hid hc hchash
      · intro id c hc hchash
        obtain ⟨hid, hc⟩ := (hother id c).mp hc
        rw [hrows, if_neg]
        · exact hcanonical id c hc hchash
        · -- the book is a member, so the range of its hash is not empty
          intro he
          apply hnone _ id _ (hmember id c hid hc hchash)
          rw [he]
          exact isPrefix_bookContentMembershipKey c
  · have hsame : idx' = idx := by
      rw [unfileContent, if_pos] at hunfile
      · cases hunfile
        rfl
      · by_contra hn
        exact hhash ⟨fun hu => hn (Or.inl hu), fun hh => hn (Or.inr hh)⟩
    rw [hsame]
    refine ⟨hplain, ?_, ?_, ?_⟩
    · intro k id hk
      obtain ⟨c, hc, hchash, hrow⟩ := h.sound k id hk
      refine ⟨c, (hother id c).mpr ⟨?_, hc⟩, hchash, hrow⟩
      rintro rfl
      rw [hget] at hc
      cases hc
      exact hhash hchash
    · intro id c hc hchash
      exact h.member id c ((hother id c).mp hc).2 hchash
    · intro id c hc hchash
      exact h.canonical id c ((hother id c).mp hc).2 hchash

end ZReader.Storage
