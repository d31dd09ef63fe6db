import ZReader.Handlers.Uploads

namespace ZReader.Handlers.Uploads

open Lib.Utf8 Lib.Strings Lib.KeyValue Lib.Fallible Lib.Transition Storage

/-! ## What the transactions keep -/

/-- The canonical row of the content index. -/
def Row (db : Tx) (u h c : Bytes) : Prop := db.bookContentIndex.get (bookContentIndexKey u h) = some c

/-- No canonical row is taken away or changed. -/
def KeepsRows (db db' : Tx) : Prop := ∀ u h c, nul ∉ u → nul ∉ h → Row db u h c → Row db' u h c

theorem fileContent_keeps {db db' : Tx} {b : Book} (hb : Plain b.id b)
    (h : fileContent db.bookContentIndex b = .ok db'.bookContentIndex) : KeepsRows db db' := by
  intro u k c hu hk hrow
  by_cases hhash : Hashed b
  · obtain ⟨-, hother, -⟩ := fileContent_rows hb hhash h (bookContentIndexKey u k)
    rcases hother (Ne.symm (hb.membership_ne hu hk)) with heq | ⟨-, hnone, -⟩
    · rw [Row, heq]
      exact hrow
    · rw [hrow] at hnone
      cases hnone
  · rw [fileContent, if_pos] at h
    · rw [Except.ok.injEq] at h
      rw [Row, ← h]
      exact hrow
    · rw [Hashed, not_and_or, not_not, not_not] at hhash
      exact hhash.imp id Or.inr

theorem KeepsRows.trans {a b c : Tx} (h : KeepsRows a b) (h' : KeepsRows b c) : KeepsRows a c :=
  fun u k v hu hk hrow => h' u k v hu hk (h u k v hu hk hrow)

theorem createBook_rows {tx tx' : Tx} {book : Book} (h : createBook book tx = .ok tx') :
    fileContent tx.bookContentIndex { book with category := normalizeCategoryName book.category } =
        .ok tx'.bookContentIndex ∧
      tx'.books.get = Function.update tx.books.get book.id
        (some { book with category := normalizeCategoryName book.category }) ∧
      (book.contentHash ≠ [] → ∀ c, Row tx book.userID book.contentHash c → c = book.id) := by
  have hbooks := createBook_books h
  simp only [createBook] at h
  split at h
  · cases h
  · next hdup =>
    obtain ⟨bs, hbs, h⟩ := bind_eq_ok.mp h
    obtain ⟨tx₁, h₁, h⟩ := bind_eq_ok.mp h
    change listBook tx₁ { book with category := normalizeCategoryName book.category } = .ok tx' at h
    have hfile := listBook_content h
    obtain ⟨i, hi⟩ := addBookToUserIndex_rows h₁
    rw [hi] at hfile
    refine ⟨hfile, hbooks, ?_⟩
    intro hhash c hc
    by_contra hne
    exact hdup ⟨hhash, (Option.any_eq_true _ _).mpr ⟨c, hc, by simpa using hne⟩⟩

/-- A creation keeps the rows and puts the new book into its own. -/
theorem createBook_row {tx tx' : Tx} {book : Book} (hI : Contents tx) (hp : Plain book.id book)
    (hnew : tx.books.get book.id = none) (hu : book.userID ≠ []) (hh : book.contentHash ≠ [])
    (h : createBook book tx = .ok tx') :
    KeepsRows tx tx' ∧ Row tx' book.userID book.contentHash book.id := by
  obtain ⟨hfile, hbooks, hown⟩ := createBook_rows h
  have hplain : Plain book.id { book with category := normalizeCategoryName book.category } :=
    ⟨rfl, hp.wellFormed, hp.user, hp.hash⟩
  refine ⟨fileContent_keeps hplain hfile, ?_⟩
  have hcontents := createBook_contents hI hp hnew h
  have hbook : tx'.books.get book.id =
      some { book with category := normalizeCategoryName book.category } := by
    rw [hbooks, Function.update_self]
  obtain ⟨c, hc⟩ := hcontents.canonical book.id _ hbook ⟨hu, hh⟩
  obtain ⟨-, hother, -⟩ :=
    fileContent_rows (b := { book with category := normalizeCategoryName book.category })
      hplain ⟨hu, hh⟩ hfile (bookContentIndexKey book.userID book.contentHash)
  rcases hother (Ne.symm (hp.membership_ne hp.user hp.hash)) with heq | ⟨-, -, hrow⟩
  · rw [heq] at hc
    have hcid := hown hh c hc
    rw [Row, heq, ← hcid]
    exact hc
  · exact hrow

theorem backfillBookContentHash_keeps {tx tx' : Tx} {snapshot : Book} (hI : Contents tx)
    (hh : nul ∉ snapshot.contentHash) (h : backfillBookContentHash tx snapshot = .ok tx') :
    KeepsRows tx tx' ∧ ∀ k, tx'.books.get k = none ↔ tx.books.get k = none := by
  have hself : KeepsRows tx tx ∧ ∀ k, tx.books.get k = none ↔ tx.books.get k = none :=
    ⟨fun _ _ _ _ _ => id, fun _ => Iff.rfl⟩
  rw [backfillBookContentHash] at h
  split at h
  · cases h
    exact hself
  · split at h
    · cases h
      exact hself
    · next b hget =>
      split at h
      · cases h
        exact hself
      · obtain ⟨bs, hbs, h⟩ := bind_eq_ok.mp h
        have hp := hI.plain _ b hget
        have hplain : Plain b.id { b with contentHash := snapshot.contentHash } :=
          ⟨rfl, hp.key ▸ hp.wellFormed, hp.user, hh⟩
        have hrows : KeepsRows { tx with books := bs } tx' :=
          fileContent_keeps hplain (addBookToContentIndex_content h)
        refine ⟨fun u k c hu hk hrow => hrows u k c hu hk hrow, ?_⟩
        intro k
        rw [(addBookToContentIndex_frame h).books, store_get hbs, Function.update_apply]
        split
        · next hk =>
          rw [hk, hp.key, hget]
          simp
        · exact Iff.rfl

theorem backfillBookContentHashes_keeps {tx tx' : Tx} {hashes : List Book} (hI : Contents tx)
    (hh : ∀ snapshot ∈ hashes, nul ∉ snapshot.contentHash)
    (h : backfillBookContentHashes hashes tx = .ok tx') :
    KeepsRows tx tx' ∧ ∀ k, tx'.books.get k = none ↔ tx.books.get k = none := by
  have hloop := foldlM_invariant (fun t => Contents t ∧ KeepsRows tx t ∧
    ∀ k, t.books.get k = none ↔ tx.books.get k = none) ?_
    ⟨hI, fun _ _ _ _ _ => id, fun _ => Iff.rfl⟩ h
  · exact hloop.2
  · rintro s hs t t' ⟨hIt, hrows, hbooks⟩ hstep
    obtain ⟨hrows', hbooks'⟩ := backfillBookContentHash_keeps hIt (hh s hs) hstep
    exact ⟨backfillBookContentHash_contents hIt (hh s hs) hstep, hrows.trans hrows',
      fun k => (hbooks' k).trans (hbooks k)⟩

theorem find_row {db : Tx} (hI : Contents db) {u h : Bytes} {b : Book}
    (hfind : findBookByContentHash db u h = some b) : Row db u h b.id ∧ HasHash db u h b.id := by
  rw [findBookByContentHash] at hfind
  split at hfind
  · cases hfind
  · obtain ⟨hbind, hown⟩ := Option.filter_eq_some_iff.mp hfind
    obtain ⟨id, hrow, hb⟩ := Option.bind_eq_some_iff.mp hbind
    rw [decide_eq_true_eq] at hown
    have hid := (hI.plain id b hb).key
    rw [Row, hid]
    exact ⟨hrow, b, hb, hown⟩

/-! ## One request -/

/-- What is used of the digest: it is a text without separators. -/
structure Digest (hash : Bytes → Bytes) : Prop where
  ne_nil : ∀ c, hash c ≠ []
  nul : ∀ c, nul ∉ hash c

structure Request.Valid (r : Request) : Prop where
  wellFormed : WellFormedID r.id
  user : r.userID ≠ []
  nul : nul ∉ r.userID

section

variable {hash : Bytes → Bytes}

/-- What a request can rely on at each of its stages. -/
def Good (hash : Bytes → Bytes) (db : Tx) (files : Files) (r : Request) : Stage → Prop
  | .writing => db.books.get r.id = none
  | .checking _ | .creating => db.books.get r.id = none ∧ files.lookup r.name = some r.content
  | .refused look => look = .find ∧ files.lookup r.name = none ∧ ∃ c, Row db r.userID (hash r.content) c
  | .created b | .answered (.ok b) =>
      b = r.book hash ∧ Row db r.userID (hash r.content) r.id ∧ files.lookup r.name = some r.content
  | .answered .failed => files.lookup r.name = none
  | .answered (.duplicate b) =>
      files.lookup r.name = none ∧ Row db r.userID (hash r.content) b.id
  | .answered .conflict => False

theorem good_frame {db db' : Tx} {files files' : Files} {r : Request} {stage : Stage}
    (hd : Digest hash) (hr : r.Valid) (hrows : KeepsRows db db')
    (hbooks : db'.books.get r.id = none ↔ db.books.get r.id = none)
    (hfiles : files'.lookup r.name = files.lookup r.name) (h : Good hash db files r stage) :
    Good hash db' files' r stage := by
  have hrow : ∀ c, Row db r.userID (hash r.content) c → Row db' r.userID (hash r.content) c := fun c =>
    hrows _ _ c hr.nul (hd.nul _)
  cases stage with
  | writing => exact hbooks.mpr h
  | checking _ | creating => exact ⟨hbooks.mpr h.1, by rw [hfiles, h.2]⟩
  | refused look =>
      obtain ⟨hlook, hnone, c, hc⟩ := h
      exact ⟨hlook, by rw [hfiles, hnone], c, hrow c hc⟩
  | created b => exact ⟨h.1, hrow _ h.2.1, by rw [hfiles, h.2.2]⟩
  | answered answer =>
      cases answer with
      | ok b => exact ⟨h.1, hrow _ h.2.1, by rw [hfiles, h.2.2]⟩
      | failed => exact hfiles.trans h
      | duplicate b => exact ⟨hfiles.trans h.1, hrow _ h.2⟩
      | conflict => exact h

/-- What one step of a request leaves alone. -/
structure Frame (r : Request) (db : Tx) (files : Files) (db' : Tx) (files' : Files) : Prop where
  contents : Contents db'
  rows : KeepsRows db db'
  books : ∀ k, k ≠ r.id → (db'.books.get k = none ↔ db.books.get k = none)
  files : ∀ n, n ≠ r.name → files'.lookup n = files.lookup n

theorem frame_files {r : Request} {db : Tx} {files files' : Files} (hI : Contents db)
    (h : ∀ n, n ≠ r.name → files'.lookup n = files.lookup n) : Frame r db files db files' :=
  ⟨hI, fun _ _ _ _ _ => id, fun _ _ => Iff.rfl, h⟩

theorem lookup_erase_other (files : Files) {name n : Bytes} (hn : n ≠ name) :
    (files.erase name).lookup n = files.lookup n := AList.lookup_erase_ne hn

theorem lookup_insert_other (files : Files) (content : Bytes) {name n : Bytes} (hn : n ≠ name) :
    (files.insert name content).lookup n = files.lookup n := AList.lookup_insert_ne hn

theorem look_found {db : Tx} (hI : Contents db) {u h : Bytes} {stopped : Bool} {look : Look} {b : Book}
    (hlook : look.run db u h stopped = .found (some b)) : Row db u h b.id := by
  cases look with
  | find =>
      rw [Look.run] at hlook
      split at hlook
      · next book hfind =>
        cases hlook
        exact (find_row hI hfind).1
      · cases hlook
  | missing => cases hlook
  | waiting =>
      rw [Look.run] at hlook
      split at hlook <;> cases hlook
  | served ok =>
      cases ok with
      | false => cases hlook
      | true =>
          rw [Look.run, LookResult.found.injEq] at hlook
          exact (find_row hI hlook).1

/-- Each step of a request, with what the request can rely on afterwards. -/
theorem run_good (hd : Digest hash) {r : Request} (hr : r.Valid) {turn : Turn} {db db' : Tx}
    {files files' : Files} {stage stage' : Stage} (hI : Contents db) (h : Good hash db files r stage)
    (hrun : r.run hash turn db files stage = some (db', files', stage')) :
    Frame r db files db' files' ∧ Good hash db' files' r stage' := by
  have herase : Frame r db files db (files.erase r.name) :=
    frame_files hI fun n hn => lookup_erase_other files hn
  have hgone : (files.erase r.name).lookup r.name = none := AList.lookup_erase r.name files
  have hsame : Frame r db files db files := frame_files hI fun _ _ => rfl
  cases stage with
  | writing =>
      rw [Request.run] at hrun
      split at hrun
      · cases hrun
        exact ⟨herase, hgone⟩
      · split at hrun
        · cases hrun
          exact ⟨frame_files hI fun n hn => lookup_insert_other files _ hn, h⟩
        · cases hrun
          exact ⟨frame_files hI fun n hn => lookup_insert_other files _ hn, h, AList.lookup_insert files⟩
  | checking look =>
      rw [Request.run] at hrun
      split at hrun
      · cases hrun
        exact ⟨herase, hgone⟩
      · next b hlook =>
        cases hrun
        exact ⟨herase, hgone, look_found hI hlook⟩
      · cases hrun
        exact ⟨hsame, h⟩
      · cases hrun
        exact ⟨hsame, h⟩
      · cases hrun
  | creating =>
      have hplain : Plain (r.book hash).id (r.book hash) := ⟨rfl, hr.wellFormed, hr.nul, hd.nul _⟩
      rw [Request.run] at hrun
      split at hrun
      · cases hrun
        exact ⟨herase, hgone⟩
      · split at hrun
        · next tx hcreate =>
          cases hrun
          obtain ⟨hrows, hrow⟩ := createBook_row hI hplain h.1 hr.user (hd.ne_nil _) hcreate
          refine ⟨⟨createBook_contents hI hplain h.1 hcreate, hrows, ?_, fun _ _ => rfl⟩, rfl, hrow, h.2⟩
          intro k hk
          rw [(createBook_rows hcreate).2.1, Function.update_of_ne (show k ≠ (r.book hash).id from hk)]
        · next hcreate =>
          cases hrun
          obtain ⟨-, c, hc, -⟩ := (createBook_duplicate_iff _ _).mp hcreate
          exact ⟨herase, rfl, hgone, c, hc⟩
        · cases hrun
          exact ⟨herase, hgone⟩
  | refused look =>
      obtain ⟨rfl, hnone, c, hc⟩ := h
      obtain ⟨b, hfind⟩ := hI.find hr.user (hd.ne_nil _) (hI.canonical_sound hr.nul (hd.nul _) hc)
      rw [Request.run, Look.run, hfind] at hrun
      cases hrun
      exact ⟨hsame, hnone, (find_row hI hfind).1⟩
  | created b =>
      cases hrun
      exact ⟨hsame, h⟩
  | answered answer => cases hrun

theorem good_serve {db : Tx} {files : Files} {r : Request} {stage : Stage} (ok : Bool)
    (h : Good hash db files r stage) : Good hash db files r (stage.serve ok) := by
  cases stage with
  | refused look =>
      obtain ⟨rfl, h⟩ := h
      exact ⟨rfl, h⟩
  | checking look => exact h
  | writing | creating | created _ | answered _ => exact h

/-! ## All requests -/

/-- A library that has been built by the operations, and no request yet. -/
structure Started (s : Server) : Prop where
  filed : Filed s.db
  names : ∀ n ∈ s.files.keys, n ∈ s.names
  requests : s.requests = []
  work : s.work = .idle

/-- The hashes that the worker has computed so far are digests. -/
def Work.Clean : Work → Prop
  | .hashing _ _ _ hashes => ∀ b ∈ hashes, nul ∉ b.contentHash
  | _ => True

structure Inv (hash : Bytes → Bytes) (s : Server) : Prop where
  contents : Contents s.db
  files : ∀ n ∈ s.files.keys, n ∈ s.names
  work : s.work.Clean
  valid : ∀ (i : ℕ) (p : Request × Stage), s.requests[i]? = some p →
    p.1.Valid ∧ p.1.id ∈ s.names ∧ p.1.name ∈ s.names
  apart : ∀ (i j : ℕ) (p q : Request × Stage), s.requests[i]? = some p → s.requests[j]? = some q → i ≠ j →
    p.1.id ≠ q.1.id ∧ p.1.name ≠ q.1.name
  good : ∀ (i : ℕ) (p : Request × Stage), s.requests[i]? = some p → Good hash s.db s.files p.1 p.2

theorem inv_started {s : Server} (h : Started s) : Inv hash s := by
  refine ⟨h.filed.contents, h.names, ?_, ?_, ?_, ?_⟩
  · rw [h.work]
    trivial
  all_goals simp [h.requests]

theorem inv_accept {s : Server} (h : Inv hash s) {r : Request} (hfresh : s.Fresh r) :
    Inv hash { s with names := s.names ++ [r.id, r.name], requests := s.requests ++ [(r, .writing)] } := by
  obtain ⟨hid, hu, hun, hnew, hnames⟩ := hfresh
  have hnot : ∀ p : Request × Stage, p.1.id ∈ s.names → p.1.name ∈ s.names →
      r.id ≠ p.1.id ∧ r.name ≠ p.1.name := by
    intro p hpid hpname
    constructor
    · intro heq
      exact hnames _ hpid (heq ▸ List.prefix_rfl)
    · intro heq
      exact hnames _ hpname (heq ▸ List.prefix_append r.id r.ext)
  have hcases : ∀ i p, (s.requests ++ [(r, Stage.writing)])[i]? = some p →
      s.requests[i]? = some p ∨ i = s.requests.length ∧ p = (r, .writing) := by
    intro i p hp
    rw [List.getElem?_append] at hp
    split at hp
    · exact Or.inl hp
    · next hlen =>
      right
      rw [List.getElem?_singleton] at hp
      split at hp
      · next hzero =>
        cases hp
        exact ⟨by omega, rfl⟩
      · cases hp
  constructor
  · exact h.contents
  · exact fun n hn => List.mem_append_left _ (h.files n hn)
  · exact h.work
  · intro i p hp
    rcases hcases i p hp with hp | ⟨-, rfl⟩
    · obtain ⟨hv, hpid, hpname⟩ := h.valid i p hp
      exact ⟨hv, List.mem_append_left _ hpid, List.mem_append_left _ hpname⟩
    · exact ⟨⟨hid, hu, hun⟩, by simp, by simp⟩
  · intro i j p q hp hq hij
    rcases hcases i p hp with hp | ⟨hi, rfl⟩
    · rcases hcases j q hq with hq | ⟨hj, rfl⟩
      · exact h.apart i j p q hp hq hij
      · obtain ⟨-, hpid, hpname⟩ := h.valid i p hp
        exact ⟨(hnot p hpid hpname).1.symm, (hnot p hpid hpname).2.symm⟩
    · rcases hcases j q hq with hq | ⟨hj, rfl⟩
      · obtain ⟨-, hqid, hqname⟩ := h.valid j q hq
        exact hnot q hqid hqname
      · exact absurd (hi.trans hj.symm) hij
  · intro i p hp
    rcases hcases i p hp with hp | ⟨-, rfl⟩
    · exact h.good i p hp
    · exact hnew

theorem inv_advance (hd : Digest hash) {s : Server} (h : Inv hash s) {i : Nat} {r : Request}
    {turn : Turn} {stage stage' : Stage} {db : Tx} {files : Files}
    (hi : s.requests[i]? = some (r, stage))
    (hrun : r.run hash turn s.db s.files stage = some (db, files, stage')) :
    Inv hash { s with db := db, files := files, requests := s.requests.set i (r, stage') } := by
  obtain ⟨hr, hrid, hrname⟩ := h.valid i _ hi
  obtain ⟨hframe, hgood⟩ := run_good hd hr h.contents (h.good i _ hi) hrun
  have hcases : ∀ j p, (s.requests.set i (r, stage'))[j]? = some p →
      j = i ∧ p = (r, stage') ∨ j ≠ i ∧ s.requests[j]? = some p := by
    intro j p hp
    rw [List.getElem?_set] at hp
    split at hp
    · next hij =>
      split at hp
      · cases hp
        exact Or.inl ⟨hij.symm, rfl⟩
      · cases hp
    · next hij => exact Or.inr ⟨Ne.symm hij, hp⟩
  constructor
  · exact hframe.contents
  · intro n hn
    by_cases hname : n = r.name
    · exact hname ▸ hrname
    · apply h.files
      have hin : (files.lookup n).isSome := AList.lookup_isSome.mpr hn
      rw [hframe.files n hname] at hin
      exact AList.lookup_isSome.mp hin
  · exact h.work
  · intro j p hp
    rcases hcases j p hp with ⟨-, rfl⟩ | ⟨-, hp⟩
    · exact ⟨hr, hrid, hrname⟩
    · exact h.valid j p hp
  · intro j k p q hp hq hjk
    rcases hcases j p hp with ⟨rfl, rfl⟩ | ⟨hj, hp'⟩
    · rcases hcases k q hq with ⟨rfl, rfl⟩ | ⟨hk, hq'⟩
      · exact absurd rfl hjk
      · exact h.apart _ k (r, stage) q hi hq' hjk
    · rcases hcases k q hq with ⟨rfl, rfl⟩ | ⟨hk, hq'⟩
      · exact h.apart j _ p (r, stage) hp' hi hjk
      · exact h.apart j k p q hp' hq' hjk
  · intro j p hp
    rcases hcases j p hp with ⟨-, rfl⟩ | ⟨hj, hp⟩
    · exact hgood
    · obtain ⟨hid, hname⟩ := h.apart j i p (r, stage) hp hi hj
      exact good_frame hd (h.valid j p hp).1 hframe.rows (hframe.books _ hid) (hframe.files _ hname)
        (h.good j p hp)

theorem inv_finish {s : Server} (h : Inv hash s) (client : Option Nat) (ok : Bool) (next : Bytes) :
    Inv hash (s.finish client ok next) := by
  have hmodify : ∀ serve : Request × Stage → Request × Stage,
      (∀ r stage, serve (r, stage) = (r, stage.serve ok)) →
      ∀ (i j : ℕ) (p : Request × Stage), (s.requests.modify i serve)[j]? = some p →
        ∃ stage, s.requests[j]? = some (p.1, stage) ∧ (p.2 = stage ∨ p.2 = stage.serve ok) := by
    intro serve hserve i j p hp
    rw [List.getElem?_modify] at hp
    obtain ⟨⟨r, stage⟩, hj, hp⟩ := Option.map_eq_some_iff.mp hp
    rw [hserve] at hp
    split at hp
    · cases hp
      exact ⟨stage, hj, Or.inr rfl⟩
    · cases hp
      exact ⟨stage, hj, Or.inl rfl⟩
  unfold Server.finish
  split
  · exact ⟨h.contents, h.files, trivial, h.valid, h.apart, h.good⟩
  · next i =>
    split
    · refine ⟨h.contents, h.files, trivial, ?_, ?_, ?_⟩
      · intro j p hp
        obtain ⟨stage, hj, -⟩ := hmodify _ (fun _ _ => rfl) i j p hp
        have hvalid := h.valid j _ hj
        exact hvalid
      · intro j k p q hp hq hjk
        obtain ⟨stage, hj, -⟩ := hmodify _ (fun _ _ => rfl) i j p hp
        obtain ⟨stage', hk, -⟩ := hmodify _ (fun _ _ => rfl) i k q hq
        have hapart := h.apart j k _ _ hj hk hjk
        exact hapart
      · intro j p hp
        obtain ⟨stage, hj, heq | heq⟩ := hmodify _ (fun _ _ => rfl) i j p hp
        · exact heq ▸ h.good j _ hj
        · exact heq ▸ good_serve ok (h.good j _ hj)
    · exact ⟨h.contents, h.files, trivial, h.valid, h.apart, h.good⟩

/-- The worker rewrites no rows and neither adds nor drops books. -/
theorem inv_backfill (hd : Digest hash) {s : Server} (h : Inv hash s) {tx : Tx} {hashes : List Book}
    (hclean : ∀ b ∈ hashes, nul ∉ b.contentHash) (hrun : backfillBookContentHashes hashes s.db = .ok tx) :
    Inv hash { s with db := tx } := by
  obtain ⟨hrows, hbooks⟩ := backfillBookContentHashes_keeps h.contents hclean hrun
  refine ⟨backfillBookContentHashes_contents h.contents hclean hrun, h.files, h.work, h.valid, h.apart, ?_⟩
  intro i p hp
  exact good_frame hd (h.valid i p hp).1 hrows (hbooks _) rfl (h.good i p hp)

theorem inv_step (hd : Digest hash) {s t : Server} {a : Action} (h : Inv hash s)
    (hstep : s.step hash a = some t) : Inv hash t := by
  cases a with
  | accept r =>
      rw [Server.step] at hstep
      split at hstep
      · next hfresh =>
        cases hstep
        exact inv_accept h hfresh
      · cases hstep
  | advance i turn =>
      obtain ⟨⟨r, stage⟩, hi, hstep⟩ := Option.bind_eq_some_iff.mp hstep
      obtain ⟨⟨db, files, stage'⟩, hrun, hstep⟩ := Option.bind_eq_some_iff.mp hstep
      cases hstep
      exact inv_advance hd h hi hrun
  | tick =>
      rw [Server.step] at hstep
      split at hstep
      · cases hstep
        exact ⟨h.contents, h.files, by simp [Work.Clean], h.valid, h.apart, h.good⟩
      · cases hstep
  | serve i =>
      rw [Server.step] at hstep
      split at hstep
      · cases hstep
        exact ⟨h.contents, h.files, trivial, h.valid, h.apart, h.good⟩
      · cases hstep
        exact ⟨h.contents, h.files, trivial, h.valid, h.apart, h.good⟩
      · cases hstep
  | list =>
      rw [Server.step] at hstep
      split at hstep
      · cases hstep
        exact ⟨h.contents, h.files, by simp [Work.Clean], h.valid, h.apart, h.good⟩
      · cases hstep
  | hash ok =>
      rw [Server.step] at hstep
      split at hstep
      · next client next book books hashes hwork =>
        cases hstep
        refine ⟨h.contents, h.files, ?_, h.valid, h.apart, h.good⟩
        have hclean := h.work
        rw [hwork] at hclean
        intro b hb
        rcases List.mem_append.mp hb with hb | hb
        · exact hclean b hb
        · rw [Option.mem_toList, Option.map_eq_some_iff] at hb
          obtain ⟨content, -, rfl⟩ := hb
          exact hd.nul content
      · cases hstep
  | commit ok =>
      rw [Server.step] at hstep
      split at hstep
      · next client next hashes hwork =>
        have hclean := h.work
        rw [hwork] at hclean
        split at hstep
        · next tx hrun =>
          cases hstep
          split at hrun
          · exact inv_finish (inv_backfill hd h hclean hrun) client true next
          · cases hrun
        · cases hstep
          exact inv_finish h client false next
      · cases hstep

abbrev Run (hash : Bytes → Bytes) : Server → Action → Server → Prop :=
  Steps (Server.step hash) fun _ _ => True

theorem inv_reachable (hd : Digest hash) {s : Server} (h : Reachable Started (Run hash) s) : Inv hash s :=
  h.invariant (Inv hash) (fun _ => inv_started) fun _ _ _ hs hstep => inv_step hd hs hstep.2

/-! ## What the requests promise -/

def Stage.Created : Stage → Prop
  | .created _ | .answered (.ok _) => True
  | _ => False

/-- The record that a request has created or answers with. -/
def Stage.reported : Stage → Option Book
  | .created b | .answered (.ok b) | .answered (.duplicate b) => some b
  | _ => none

/-- The same user and the same content, as far as its digest tells. -/
def SameUpload (hash : Bytes → Bytes) (r r' : Request) : Prop :=
  r.userID = r'.userID ∧ hash r.content = hash r'.content

theorem good_created {db : Tx} {files : Files} {r : Request} {stage : Stage} (hc : stage.Created)
    (h : Good hash db files r stage) :
    Row db r.userID (hash r.content) r.id ∧ files.lookup r.name = some r.content := by
  cases stage with
  | created b => exact h.2
  | answered answer =>
      cases answer with
      | ok b => exact h.2
      | failed | duplicate _ | conflict => exact hc.elim
  | writing | checking _ | creating | refused _ => exact hc.elim

theorem good_reported {db : Tx} {files : Files} {r : Request} {stage : Stage} {b : Book}
    (hb : stage.reported = some b) (h : Good hash db files r stage) :
    Row db r.userID (hash r.content) b.id := by
  cases stage with
  | created c =>
      cases hb
      rw [h.1]
      exact h.2.1
  | answered answer =>
      cases answer with
      | ok c =>
          cases hb
          rw [h.1]
          exact h.2.1
      | duplicate c =>
          cases hb
          exact h.2
      | failed | conflict => cases hb
  | writing | checking _ | creating | refused _ => cases hb

/-- A request creates its book only where the index has no row for it. -/
theorem run_created {r : Request} {turn : Turn} {db db' : Tx} {files files' : Files}
    {stage stage' : Stage} (hI : Contents db) (hd : Digest hash) (hr : r.Valid)
    (h : Good hash db files r stage) {c : Bytes} (hrow : Row db r.userID (hash r.content) c)
    (hrun : r.run hash turn db files stage = some (db', files', stage')) (hc : stage'.Created) :
    stage.Created := by
  cases stage with
  | writing =>
      rw [Request.run] at hrun
      split at hrun
      · cases hrun
        exact hc.elim
      · split at hrun <;> (cases hrun; exact hc.elim)
  | checking look =>
      rw [Request.run] at hrun
      split at hrun <;> (cases hrun; try exact hc.elim)
  | creating =>
      rw [Request.run] at hrun
      split at hrun
      · cases hrun
        exact hc.elim
      · split at hrun
        · next hcreate =>
          have hown := (createBook_rows hcreate).2.2 (hd.ne_nil _) c hrow
          obtain ⟨b, hb, -⟩ := hI.canonical_sound hr.nul (hd.nul _) hrow
          have hnone : db.books.get c = none := hown ▸ h.1
          rw [hnone] at hb
          cases hb
        · cases hrun
          exact hc.elim
        · cases hrun
          exact hc.elim
  | refused look =>
      rw [Request.run] at hrun
      split at hrun <;> (cases hrun; try exact hc.elim)
  | created b => trivial
  | answered answer => cases hrun

theorem created_serve {stage : Stage} {ok : Bool} (h : (stage.serve ok).Created) : stage.Created := by
  cases stage with
  | checking _ | refused _ => exact h.elim
  | writing | creating | created _ | answered _ => exact h

/-- Where the user has a book with the content, no step makes another. -/
theorem step_created (hd : Digest hash) {s t : Server} {a : Action} (h : Inv hash s)
    (hstep : s.step hash a = some t) {i : Nat} {p : Request × Stage} (hp : t.requests[i]? = some p)
    {c : Bytes} (hrow : Row s.db p.1.userID (hash p.1.content) c) (hc : p.2.Created) :
    ∃ stage, s.requests[i]? = some (p.1, stage) ∧ stage.Created := by
  have hsame : t.requests = s.requests → ∃ stage, s.requests[i]? = some (p.1, stage) ∧ stage.Created := by
    intro heq
    rw [heq] at hp
    exact ⟨p.2, hp, hc⟩
  have hfinish : ∀ (tx : Tx) client ok next, t = { s with db := tx }.finish client ok next →
      ∃ stage, s.requests[i]? = some (p.1, stage) ∧ stage.Created := by
    rintro tx client ok next rfl
    unfold Server.finish at hp
    split at hp
    · exact ⟨p.2, hp, hc⟩
    · split at hp
      · rw [List.getElem?_modify] at hp
        obtain ⟨⟨r, stage⟩, hi, hp⟩ := Option.map_eq_some_iff.mp hp
        split at hp
        · cases hp
          exact ⟨stage, hi, created_serve hc⟩
        · cases hp
          exact ⟨stage, hi, hc⟩
      · exact ⟨p.2, hp, hc⟩
  cases a with
  | accept r =>
      rw [Server.step] at hstep
      split at hstep
      · cases hstep
        rw [List.getElem?_append] at hp
        split at hp
        · exact ⟨p.2, hp, hc⟩
        · rw [List.getElem?_singleton] at hp
          split at hp
          · cases hp
            exact hc.elim
          · cases hp
      · cases hstep
  | advance j turn =>
      obtain ⟨⟨r, stage⟩, hj, hstep⟩ := Option.bind_eq_some_iff.mp hstep
      obtain ⟨⟨db, files, stage'⟩, hrun, hstep⟩ := Option.bind_eq_some_iff.mp hstep
      cases hstep
      dsimp only at hp
      rw [List.getElem?_set] at hp
      split at hp
      · next hji =>
        subst hji
        split at hp
        · cases hp
          exact ⟨stage, hj, run_created h.contents hd (h.valid _ _ hj).1 (h.good _ _ hj) hrow hrun hc⟩
        · cases hp
      · exact ⟨p.2, hp, hc⟩
  | tick | list | hash =>
      rw [Server.step] at hstep
      split at hstep
      · cases hstep
        exact hsame rfl
      · cases hstep
  | serve j =>
      rw [Server.step] at hstep
      split at hstep
      · cases hstep
        exact hsame rfl
      · cases hstep
        exact hsame rfl
      · cases hstep
  | commit ok =>
      rw [Server.step] at hstep
      split at hstep
      · split at hstep
        · next tx _ =>
          cases hstep
          exact hfinish tx _ _ _ rfl
        · cases hstep
          exact hfinish s.db _ _ _ rfl
      · cases hstep

theorem step_keeps (hd : Digest hash) {s t : Server} {a : Action} (h : Inv hash s)
    (hstep : s.step hash a = some t) : KeepsRows s.db t.db := by
  have hsame : t.db = s.db → KeepsRows s.db t.db := by
    intro heq
    rw [heq]
    exact fun _ _ _ _ _ => id
  have hfinish : ∀ (s' : Server) client ok next, (s'.finish client ok next).db = s'.db := by
    intro s' client ok next
    unfold Server.finish
    split
    · rfl
    · split <;> rfl
  cases a with
  | advance i turn =>
      obtain ⟨⟨r, stage⟩, hi, hstep⟩ := Option.bind_eq_some_iff.mp hstep
      obtain ⟨⟨db, files, stage'⟩, hrun, hstep⟩ := Option.bind_eq_some_iff.mp hstep
      cases hstep
      exact (run_good hd (h.valid i _ hi).1 h.contents (h.good i _ hi) hrun).1.rows
  | commit ok =>
      rw [Server.step] at hstep
      split at hstep
      · next client next hashes hwork =>
        have hclean := h.work
        rw [hwork] at hclean
        split at hstep
        · next tx hrun =>
          cases hstep
          split at hrun
          · rw [hfinish]
            exact (backfillBookContentHashes_keeps h.contents hclean hrun).1
          · cases hrun
        · cases hstep
          exact hsame (hfinish s client false next)
      · cases hstep
  | accept r | tick | list | hash ok =>
      rw [Server.step] at hstep
      split at hstep
      · cases hstep
        exact hsame rfl
      · cases hstep
  | serve i =>
      rw [Server.step] at hstep
      split at hstep
      · cases hstep
        exact hsame rfl
      · cases hstep
        exact hsame rfl
      · cases hstep

/-- From a state in which the user has a book with the content, no request creates one. -/
theorem none_created_later (hd : Digest hash) {s t : Server} (hs : Reachable Started (Run hash) s)
    {u k id : Bytes} (hu : u ≠ []) (hun : nul ∉ u) (hhash : HasHash s.db u k id)
    (ht : Reachable (· = s) (Run hash) t) {i : Nat} {p : Request × Stage} (hp : t.requests[i]? = some p)
    (huser : p.1.userID = u) (hk : hash p.1.content = k) (hc : p.2.Created) :
    ∃ stage, s.requests[i]? = some (p.1, stage) ∧ stage.Created := by
  have hkn : k ≠ [] ∧ nul ∉ k := hk ▸ ⟨hd.ne_nil _, hd.nul _⟩
  obtain ⟨c, hrow⟩ := (inv_reachable hd hs).contents.canonical_exists hu hkn.1 hhash
  have hrun := ht.invariant (fun t => Inv hash t ∧ Row t.db u k c ∧ ∀ (i : ℕ) (p : Request × Stage),
    t.requests[i]? = some p → p.1.userID = u → hash p.1.content = k → p.2.Created →
      ∃ stage, s.requests[i]? = some (p.1, stage) ∧ stage.Created) ?_ ?_
  · exact hrun.2.2 i p hp huser hk hc
  · rintro s' rfl
    exact ⟨inv_reachable hd hs, hrow, fun i p hp _ _ hc => ⟨p.2, hp, hc⟩⟩
  · rintro s₁ a s₂ ⟨hinv, hrow₁, hbefore⟩ ⟨-, hstep⟩
    refine ⟨inv_step hd hinv hstep, step_keeps hd hinv hstep u k c hun hkn.2 hrow₁, ?_⟩
    intro i p hp huser hk hc
    obtain ⟨stage, hi, hcreated⟩ := step_created hd hinv hstep hp (by rw [huser, hk]; exact hrow₁) hc
    exact hbefore i (p.1, stage) hi huser hk hcreated

/-- In every reachable state: of the requests with one content at most one has created a
book, and whatever is reported is one book of the user's; its file is there, and where a
request has been answered without a book of its own the file it wrote is gone. -/
theorem upload_idempotent (hd : Digest hash) {s : Server} (hs : Reachable Started (Run hash) s) :
    (∀ (i j : ℕ) (p q : Request × Stage), s.requests[i]? = some p → s.requests[j]? = some q →
      SameUpload hash p.1 q.1 →
        (p.2.Created → q.2.Created → i = j) ∧
        ∀ a b, p.2.reported = some a → q.2.reported = some b →
          a.id = b.id ∧ HasHash s.db p.1.userID (hash p.1.content) a.id) ∧
    (∀ (i : ℕ) (p : Request × Stage), s.requests[i]? = some p →
      (p.2.Created → s.files.lookup p.1.name = some p.1.content ∧
        HasHash s.db p.1.userID (hash p.1.content) p.1.id) ∧
      ∀ answer, p.2 = .answered answer →
        (answer = .failed ∨ ∃ b, uploadResult answer = some b ∧ p.2.reported = some b) ∧
        (p.2.Created ∨ s.files.lookup p.1.name = none)) ∧
    ∀ u k id, u ≠ [] → nul ∉ u → HasHash s.db u k id →
      ∀ t, Reachable (· = s) (Run hash) t → ∀ (i : ℕ) (p : Request × Stage),
        t.requests[i]? = some p → p.1.userID = u → hash p.1.content = k → p.2.Created →
          ∃ stage, s.requests[i]? = some (p.1, stage) ∧ stage.Created := by
  have h := inv_reachable hd hs
  refine ⟨?_, ?_, fun u k id hu hun hhash t ht i p => none_created_later hd hs hu hun hhash ht⟩
  · rintro i j p q hp hq ⟨huser, hcontent⟩
    constructor
    · intro hpc hqc
      by_contra hij
      have hrow := (good_created hpc (h.good i p hp)).1
      have hrow' := (good_created hqc (h.good j q hq)).1
      rw [huser, hcontent, Row, hrow', Option.some.injEq] at hrow
      exact (h.apart i j p q hp hq hij).1 hrow.symm
    · intro a b ha hb
      have hrow := good_reported ha (h.good i p hp)
      have hrow' := good_reported hb (h.good j q hq)
      have hvalid := (h.valid i p hp).1
      refine ⟨?_, h.contents.canonical_sound hvalid.nul (hd.nul _) hrow⟩
      rw [huser, hcontent, Row, hrow', Option.some.injEq] at hrow
      exact hrow.symm
  · intro i p hp
    have hgood := h.good i p hp
    have hvalid := (h.valid i p hp).1
    constructor
    · intro hc
      obtain ⟨hrow, hfile⟩ := good_created hc hgood
      exact ⟨hfile, h.contents.canonical_sound hvalid.nul (hd.nul _) hrow⟩
    · intro answer hanswer
      rw [hanswer] at hgood ⊢
      cases answer with
      | failed => exact ⟨Or.inl rfl, Or.inr hgood⟩
      | duplicate b => exact ⟨Or.inr ⟨b, rfl, rfl⟩, Or.inr hgood.1⟩
      | conflict => exact hgood.elim
      | ok b => exact ⟨Or.inr ⟨b, rfl, rfl⟩, Or.inl trivial⟩

end

/-! ## Two requests with one file -/

/-- The digest of the file `x`, which alone is uploaded here. -/
def digestX (_ : Bytes) : Bytes :=
  ascii "2d711642b726b04401627ca9fbac32f5c8530fb1903cc4db02258717921a4881"

theorem digestX_digest : Digest digestX := by
  have htext : digestX [] ≠ [] ∧ nul ∉ digestX [] := by decide
  exact ⟨fun _ => htext.1, fun _ => htext.2⟩

def uploadX (id : String) : Request where
  id := ascii id
  userID := ascii "u"
  fileName := ascii "x.pdf"
  ext := ascii ".pdf"
  format := ascii "pdf"
  size := 1
  content := ascii "x"
  createdAt := ⟨1704067200 * 10 ^ 9⟩

def emptyServer : Server := ⟨.migrated, ∅, [], [], [], .idle⟩

/-- Both have found no duplicate when the first creates its book. -/
def overlapping : List Action :=
  let go (i : Nat) : Action := .advance i ⟨true, 1⟩
  [.accept (uploadX "a"), .accept (uploadX "b"), go 0, go 1, go 0, go 1, go 0, go 1, go 0, go 1, go 0,
    go 1, go 1]

theorem overlapping_one_book : ∃ s p q a b, Reachable Started (Run digestX) s ∧
    s.requests[0]? = some p ∧ s.requests[1]? = some q ∧ p.2.Created ∧ p.2.reported = some a ∧
    q.2 = .answered (.duplicate b) ∧ a.id = b.id := by
  have hrun : (replay (Server.step digestX) (fun _ _ => True) emptyServer overlapping).any (fun s =>
      (s.requests[0]?).any (fun p => p.1.userID = ascii "u" ∧ p.1.content = ascii "x" ∧
        p.2 = .created ((uploadX "a").book digestX)) ∧
      (s.requests[1]?).any (fun q => q.1.userID = ascii "u" ∧ q.1.content = ascii "x" ∧
        q.2 = .answered (.duplicate ((uploadX "a").book digestX)))) = true := by decide +kernel
  obtain ⟨s, hs, hstages⟩ := (Option.any_eq_true _ _).mp hrun
  simp only [decide_eq_true_eq, Option.any_eq_true] at hstages
  obtain ⟨⟨p, hp, hpu, hpc, hpstage⟩, q, hq, hqu, hqc, hqstage⟩ := hstages
  have hstart : Started emptyServer := ⟨.start rfl, by decide, rfl, rfl⟩
  have hreach := replay_reachable _ _ (.start hstart) hs
  have hone := (upload_idempotent digestX_digest hreach).1 0 1 p q hp hq
    ⟨hpu.trans hqu.symm, congrArg digestX (hpc.trans hqc.symm)⟩
  refine ⟨s, p, q, (uploadX "a").book digestX, (uploadX "a").book digestX, hreach, hp, hq, ?_, ?_,
    hqstage, ?_⟩
  · rw [hpstage]
    trivial
  · rw [hpstage]
    rfl
  · exact (hone.2 _ _ (by rw [hpstage]; rfl) (by rw [hqstage]; rfl)).1

end ZReader.Handlers.Uploads
