import ZReader.Backup.Online
import ZReader.Handlers.UploadRuns
import ZReader.Lib.Tokens

namespace ZReader.Backup.Online

open Lib.Utf8 Lib.Strings Lib.KeyValue Lib.Fallible Lib.Tokens Lib.Transition Storage Handlers
  Handlers.Uploads

/-! ## What a step of the server does to files and books -/

/-- The request may still create its book. -/
def Unfiled : Stage → Prop
  | .writing | .checking _ | .creating => True
  | .refused _ | .created _ | .answered _ => False

/-- The file of the request is complete, and its book not created. -/
def Written : Stage → Prop
  | .checking _ | .creating => True
  | .writing | .refused _ | .created _ | .answered _ => False

theorem Written.unfiled {stage : Stage} (h : Written stage) : Unfiled stage := by
  cases stage with
  | checking _ | creating => trivial
  | writing | refused _ | created _ | answered _ => exact h.elim

theorem unfiled_serve {stage : Stage} {ok : Bool} : Unfiled (stage.serve ok) ↔ Unfiled stage := by
  cases stage <;> exact Iff.rfl

theorem written_serve {stage : Stage} {ok : Bool} : Written (stage.serve ok) ↔ Written stage := by
  cases stage <;> exact Iff.rfl

section

variable {hash : Bytes → Bytes}

inductive Effect (hash : Bytes → Bytes) (r : Request) (db : Tx) (files : Files) :
    Stage → Tx → Files → Stage → Prop
  | stay {stage stage' : Stage} : (Unfiled stage' → Unfiled stage) → (Written stage' → Written stage) →
      Effect hash r db files stage db files stage'
  | write {content : Bytes} {stage : Stage} : (Written stage → content = r.content) →
      Effect hash r db files .writing db (files.insert r.name content) stage
  | giveUp {stage stage' : Stage} : Unfiled stage → ¬ Unfiled stage' →
      Effect hash r db files stage db (files.erase r.name) stage'
  | create {tx : Tx} : createBook (r.book hash) db = .ok tx →
      Effect hash r db files .creating tx files (.created (r.book hash))

theorem run_effect {r : Request} {turn : Uploads.Turn} {db db' : Tx} {files files' : Files}
    {stage stage' : Stage}
    (hrun : r.run hash turn db files stage = some (db', files', stage')) :
    Effect hash r db files stage db' files' stage' := by
  cases stage with
  | writing =>
      rw [Request.run] at hrun
      split at hrun
      · cases hrun
        exact .giveUp trivial id
      · split at hrun
        · cases hrun
          exact .write False.elim
        · cases hrun
          exact .write fun _ => rfl
  | checking look =>
      rw [Request.run] at hrun
      split at hrun
      · cases hrun
        exact .giveUp trivial id
      · cases hrun
        exact .giveUp trivial id
      · cases hrun
        exact .stay id id
      · cases hrun
        exact .stay id id
      · cases hrun
  | creating =>
      rw [Request.run] at hrun
      split at hrun
      · cases hrun
        exact .giveUp trivial id
      · split at hrun
        · next hcreate =>
          cases hrun
          exact .create hcreate
        · cases hrun
          exact .giveUp trivial id
        · cases hrun
          exact .giveUp trivial id
  | refused look =>
      rw [Request.run] at hrun
      split at hrun <;> (cases hrun; try exact .stay id id)
  | created b =>
      cases hrun
      exact .stay id id
  | answered answer => cases hrun

/-- The records under their keys, with the names they refer to, are no others. -/
def NoOthers (db db' : Tx) : Prop :=
  ∀ k b', db'.books.get k = some b' → ∃ b, db.books.get k = some b ∧ b'.id = b.id ∧
    bookFiles b' = bookFiles b

def Keyed (db : Tx) : Prop := ∀ k b, db.books.get k = some b → b.id = k

theorem backfillBookContentHash_noOthers {tx tx' : Tx} {snapshot : Book} (hk : Keyed tx)
    (h : backfillBookContentHash tx snapshot = .ok tx') : NoOthers tx tx' := by
  have hself : NoOthers tx tx := fun k b hb => ⟨b, hb, rfl, rfl⟩
  rw [backfillBookContentHash] at h
  split at h
  · cases h
    exact hself
  · split at h
    · cases h
      exact hself
    · next b hget =>
      split at h
      · cases h
        exact hself
      · obtain ⟨bs, hbs, h⟩ := bind_eq_ok.mp h
        have hid := hk _ _ hget
        intro k b' hb'
        rw [(addBookToContentIndex_frame h).books, store_get hbs, Function.update_apply] at hb'
        split at hb'
        · next hkid =>
          cases hb'
          exact ⟨b, by rw [hkid, hid, hget], rfl, rfl⟩
        · exact ⟨b', hb', rfl, rfl⟩

theorem backfillBookContentHashes_noOthers {tx tx' : Tx} {hashes : List Book} (hk : Keyed tx)
    (h : backfillBookContentHashes hashes tx = .ok tx') : NoOthers tx tx' := by
  have hloop := foldlM_invariant (fun t => Keyed t ∧ NoOthers tx t) ?_
    ⟨hk, fun k b hb => ⟨b, hb, rfl, rfl⟩⟩ h
  · exact hloop.2
  · rintro snapshot - t t' ⟨hkt, hothers⟩ hstep
    have hstep' := backfillBookContentHash_noOthers hkt hstep
    constructor
    · intro k b' hb'
      obtain ⟨b, hb, hid, -⟩ := hstep' k b' hb'
      rw [hid]
      exact hkt k b hb
    · intro k b' hb'
      obtain ⟨b, hb, hid, hfiles⟩ := hstep' k b' hb'
      obtain ⟨b₀, hb₀, hid₀, hfiles₀⟩ := hothers k b hb
      exact ⟨b₀, hb₀, hid.trans hid₀, hfiles.trans hfiles₀⟩

/-- The same requests, none of them earlier than it was. -/
def Later (l l' : List (Request × Stage)) : Prop :=
  l'.map Prod.fst = l.map Prod.fst ∧ ∀ (i : ℕ) p, l'[i]? = some p →
    ∃ stage, l[i]? = some (p.1, stage) ∧ (Unfiled p.2 → Unfiled stage) ∧ (Written p.2 → Written stage)

theorem Later.refl (l : List (Request × Stage)) : Later l l := ⟨rfl, fun _ p hp => ⟨p.2, hp, id, id⟩⟩

theorem set_fst {l : List (Request × Stage)} {i : Nat} {r : Request} {stage : Stage}
    (hi : l[i]? = some (r, stage)) (stage' : Stage) :
    (l.set i (r, stage')).map Prod.fst = l.map Prod.fst := by
  apply List.ext_getElem?
  intro j
  rw [List.getElem?_map, List.getElem?_map]
  by_cases hij : i = j
  · rw [← hij, getElem?_set_of_some hi, hi]
    rfl
  · rw [List.getElem?_set_ne hij]

theorem Later.set {l : List (Request × Stage)} {i : Nat} {r : Request} {stage stage' : Stage}
    (hi : l[i]? = some (r, stage)) (hu : Unfiled stage' → Unfiled stage)
    (hw : Written stage' → Written stage) : Later l (l.set i (r, stage')) := by
  refine ⟨set_fst hi stage', ?_⟩
  intro j p hp
  rcases getElem?_set_cases hp with ⟨rfl, rfl⟩ | ⟨-, hp⟩
  · exact ⟨stage, hi, hu, hw⟩
  · exact ⟨p.2, hp, id, id⟩

theorem later_finish (s : Uploads.Server) (client : Option Nat) (ok : Bool) (next : Bytes) :
    Later s.requests (s.finish client ok next).requests := by
  unfold Server.finish
  split
  · exact .refl _
  · next i =>
    split
    · dsimp only
      constructor
      · apply List.ext_getElem?
        intro j
        rw [List.getElem?_map, List.getElem?_map, List.getElem?_modify]
        cases s.requests[j]? with
        | none => rfl
        | some p => by_cases hij : i = j <;> simp [hij]
      · intro j p hp
        rw [List.getElem?_modify] at hp
        obtain ⟨⟨r, stage⟩, hj, hp⟩ := Option.map_eq_some_iff.mp hp
        split at hp
        · cases hp
          exact ⟨stage, hj, unfiled_serve.mp, written_serve.mp⟩
        · cases hp
          exact ⟨stage, hj, id, id⟩
    · exact .refl _

theorem finish_rest (s : Uploads.Server) (client : Option Nat) (ok : Bool) (next : Bytes) :
    (s.finish client ok next).db = s.db ∧ (s.finish client ok next).files = s.files ∧
      (s.finish client ok next).names = s.names := by
  unfold Server.finish
  split
  · exact ⟨rfl, rfl, rfl⟩
  · split <;> exact ⟨rfl, rfl, rfl⟩

/-- The steps of the server: of its worker, of a new request, and of one that goes on. -/
inductive Change (hash : Bytes → Bytes) (s t : Uploads.Server) : Prop
  | worker : t.files = s.files → t.names = s.names → NoOthers s.db t.db → Later s.requests t.requests →
      Change hash s t
  | accept {r : Request} : s.Fresh r →
      t = { s with names := s.names ++ [r.id, r.name], requests := s.requests ++ [(r, .writing)] } →
      Change hash s t
  | run {i : Nat} {r : Request} {stage stage' : Stage} {db : Tx} {files : Files} :
      s.requests[i]? = some (r, stage) → Effect hash r s.db s.files stage db files stage' →
      t = { s with db := db, files := files, requests := s.requests.set i (r, stage') } → Change hash s t

theorem server_change {s t : Uploads.Server} {a : Uploads.Action} (hk : Keyed s.db)
    (hstep : s.step hash a = some t) : Change hash s t := by
  have hself : NoOthers s.db s.db := fun k b hb => ⟨b, hb, rfl, rfl⟩
  cases a with
  | accept r =>
      rw [Uploads.Server.step] at hstep
      split at hstep
      · next hfresh =>
        cases hstep
        exact .accept hfresh rfl
      · cases hstep
  | advance i turn =>
      obtain ⟨⟨r, stage⟩, hi, hstep⟩ := Option.bind_eq_some_iff.mp hstep
      obtain ⟨⟨db, files, stage'⟩, hrun, hstep⟩ := Option.bind_eq_some_iff.mp hstep
      cases hstep
      exact .run hi (run_effect hrun) rfl
  | tick | list | hash ok =>
      rw [Uploads.Server.step] at hstep
      split at hstep
      · cases hstep
        exact .worker rfl rfl hself (.refl _)
      · cases hstep
  | serve i =>
      rw [Uploads.Server.step] at hstep
      split at hstep
      · cases hstep
        exact .worker rfl rfl hself (.refl _)
      · cases hstep
        exact .worker rfl rfl hself (.refl _)
      · cases hstep
  | commit ok =>
      rw [Uploads.Server.step] at hstep
      split at hstep
      · next client next hashes _ =>
        split at hstep
        · next tx hrun =>
          cases hstep
          split at hrun
          · obtain ⟨hdb, hfiles, hnames⟩ := finish_rest { s with db := tx } client true next
            refine .worker hfiles hnames ?_ (later_finish { s with db := tx } client true next)
            rw [hdb]
            exact backfillBookContentHashes_noOthers hk hrun
          · cases hrun
        · cases hstep
          obtain ⟨hdb, hfiles, hnames⟩ := finish_rest s client false next
          refine .worker hfiles hnames ?_ (later_finish s client false next)
          rw [hdb]
          exact hself
      · cases hstep

/-! ## What the library keeps -/

/-- The content that belongs to an identifier: of its book when it all began, or what a
request with the identifier has uploaded. -/
def Uploaded (s₀ s : Uploads.Server) (k c : Bytes) : Prop :=
  (∃ b, s₀.db.books.get k = some b ∧ s₀.files.lookup b.filename = some c) ∨
    ∃ r ∈ s.requests.map Prod.fst, r.id = k ∧ r.content = c

structure Stock (s₀ s : Uploads.Server) : Prop where
  keyed : ∀ k b, s.db.books.get k = some b → b.id = k ∧ k ∈ s.names ∧ b.filename ≠ []
  named : ∀ k b, s.db.books.get k = some b → ∀ n ∈ bookFiles b, n ≠ [] → n ∈ s.names
  stored : ∀ k b, s.db.books.get k = some b → ∃ c, Uploaded s₀ s k c ∧ s.files.lookup b.filename = some c
  apart : ∀ k k' b b', s.db.books.get k = some b → s.db.books.get k' = some b' → k ≠ k' →
    b.filename ∉ bookFiles b'
  requests : ∀ (i : ℕ) p, s.requests[i]? = some p → p.1.id ∈ s.names ∧ p.1.name ∈ s.names ∧ p.1.name ≠ []
  distinct : ∀ (i j : ℕ) p q, s.requests[i]? = some p → s.requests[j]? = some q → i ≠ j →
    p.1.id ≠ q.1.id ∧ p.1.name ≠ q.1.name
  unfiled : ∀ (i : ℕ) p, s.requests[i]? = some p → Unfiled p.2 → s.db.books.get p.1.id = none ∧
    ∀ k b, s.db.books.get k = some b → p.1.name ∉ bookFiles b
  written : ∀ (i : ℕ) p, s.requests[i]? = some p → Written p.2 → s.files.lookup p.1.name = some p.1.content

/-- What a step leaves of the things that belong to no unfiled request. -/
structure Keeps (s t : Uploads.Server) : Prop where
  names : ∀ n ∈ s.names, n ∈ t.names
  requests : ∀ r ∈ s.requests.map Prod.fst, r ∈ t.requests.map Prod.fst
  unfiled : ∀ (i : ℕ) p, t.requests[i]? = some p → Unfiled p.2 →
    (∃ (j : ℕ) (stage : Stage), s.requests[j]? = some (p.1, stage) ∧ Unfiled stage) ∨
      p.1.id ∉ s.names ∧ p.1.name ∉ s.names ∧ p.1.name ≠ []
  files : ∀ n c, t.files.lookup n = some c → s.files.lookup n = some c ∨
    ∃ (i : ℕ) (p : Request × Stage), s.requests[i]? = some p ∧ Unfiled p.2 ∧ p.1.name = n
  books : ∀ k b, t.db.books.get k = some b →
    (∃ b₀, s.db.books.get k = some b₀ ∧ bookFiles b = bookFiles b₀) ∨
      ∃ (i : ℕ) (p : Request × Stage), s.requests[i]? = some p ∧ Unfiled p.2 ∧ p.1.id = k ∧
        b.filename = p.1.name

variable {s₀ s t : Uploads.Server}

theorem filename_mem (b : Book) : b.filename ∈ bookFiles b := List.mem_cons_self

theorem filename_eq {b b' : Book} (h : bookFiles b = bookFiles b') : b.filename = b'.filename :=
  (List.cons.inj h).1

theorem Uploaded.mono {k c : Bytes} (hreq : ∀ r ∈ s.requests.map Prod.fst, r ∈ t.requests.map Prod.fst)
    (h : Uploaded s₀ s k c) : Uploaded s₀ t k c :=
  h.imp id fun ⟨r, hr, hid, hc⟩ => ⟨r, hreq r hr, hid, hc⟩

theorem Stock.worker (h : Stock s₀ s) (hfiles : t.files = s.files) (hnames : t.names = s.names)
    (hdb : NoOthers s.db t.db) (hlater : Later s.requests t.requests) : Stock s₀ t ∧ Keeps s t := by
  have hreq : ∀ r ∈ s.requests.map Prod.fst, r ∈ t.requests.map Prod.fst := by
    intro r hr
    rwa [hlater.1]
  have hbooks : ∀ k b, t.db.books.get k = some b → ∃ b₀, s.db.books.get k = some b₀ ∧ b.id = b₀.id ∧
      bookFiles b = bookFiles b₀ ∧ b.filename = b₀.filename := by
    intro k b hb
    obtain ⟨b₀, hb₀, hid, hf⟩ := hdb k b hb
    exact ⟨b₀, hb₀, hid, hf, filename_eq hf⟩
  constructor
  · constructor
    · intro k b hb
      obtain ⟨b₀, hb₀, hid, -, hname⟩ := hbooks k b hb
      rw [hid, hnames, hname]
      exact h.keyed k b₀ hb₀
    · intro k b hb
      obtain ⟨b₀, hb₀, -, hf, -⟩ := hbooks k b hb
      rw [hnames, hf]
      exact h.named k b₀ hb₀
    · intro k b hb
      obtain ⟨b₀, hb₀, -, -, hname⟩ := hbooks k b hb
      obtain ⟨c, hc, hfile⟩ := h.stored k b₀ hb₀
      exact ⟨c, hc.mono hreq, by rw [hfiles, hname, hfile]⟩
    · intro k k' b b' hb hb' hkk
      obtain ⟨b₀, hb₀, -, -, hname⟩ := hbooks k b hb
      obtain ⟨b₀', hb₀', -, hf', -⟩ := hbooks k' b' hb'
      rw [hname, hf']
      exact h.apart k k' b₀ b₀' hb₀ hb₀' hkk
    · intro i p hp
      obtain ⟨stage, hi, -⟩ := hlater.2 i p hp
      have hold := h.requests i _ hi
      rw [hnames]
      exact hold
    · intro i j p q hp hq hij
      obtain ⟨stage, hi, -⟩ := hlater.2 i p hp
      obtain ⟨stage', hj, -⟩ := hlater.2 j q hq
      have hold := h.distinct i j _ _ hi hj hij
      exact hold
    · intro i p hp hu
      obtain ⟨stage, hi, hstage, -⟩ := hlater.2 i p hp
      obtain ⟨hnone, hno⟩ := h.unfiled i _ hi (hstage hu)
      constructor
      · rw [Option.eq_none_iff_forall_ne_some]
        intro b hb
        obtain ⟨b₀, hb₀, -⟩ := hbooks _ b hb
        rw [hnone] at hb₀
        cases hb₀
      · intro k b hb
        obtain ⟨b₀, hb₀, -, hf, -⟩ := hbooks k b hb
        rw [hf]
        exact hno k b₀ hb₀
    · intro i p hp hw
      obtain ⟨stage, hi, -, hstage⟩ := hlater.2 i p hp
      have hold := h.written i _ hi (hstage hw)
      rw [hfiles]
      exact hold
  · constructor
    · intro n hn
      rwa [hnames]
    · exact hreq
    · intro i p hp hu
      obtain ⟨stage, hi, hstage, -⟩ := hlater.2 i p hp
      exact Or.inl ⟨i, stage, hi, hstage hu⟩
    · intro n c hc
      exact Or.inl (hfiles ▸ hc)
    · intro k b hb
      obtain ⟨b₀, hb₀, -, hf, -⟩ := hbooks k b hb
      exact Or.inl ⟨b₀, hb₀, hf⟩

theorem Stock.accept (h : Stock s₀ s) {r : Request} (hfresh : s.Fresh r)
    (ht : t = { s with names := s.names ++ [r.id, r.name], requests := s.requests ++ [(r, .writing)] }) :
    Stock s₀ t ∧ Keeps s t := by
  subst ht
  obtain ⟨hid, -, -, hnew, hnames⟩ := hfresh
  have hreq : ∀ r' ∈ s.requests.map Prod.fst, r' ∈ (s.requests ++ [(r, Stage.writing)]).map Prod.fst := by
    intro r' hr'
    rw [List.map_append]
    exact List.mem_append_left _ hr'
  have hidnew : r.id ∉ s.names := fun hmem => hnames _ hmem List.prefix_rfl
  have hnamenew : r.name ∉ s.names := fun hmem => hnames _ hmem (List.prefix_append r.id r.ext)
  have hname : r.name ≠ [] := by
    rw [Request.name]
    exact List.append_ne_nil_of_left_ne_nil hid.1 _
  constructor
  · constructor
    · intro k b hb
      obtain ⟨hkid, hk, hne⟩ := h.keyed k b hb
      exact ⟨hkid, List.mem_append_left _ hk, hne⟩
    · exact fun k b hb n hn hne => List.mem_append_left _ (h.named k b hb n hn hne)
    · intro k b hb
      obtain ⟨c, hc, hfile⟩ := h.stored k b hb
      exact ⟨c, hc.mono hreq, hfile⟩
    · exact h.apart
    · intro i p hp
      rcases getElem?_concat_cases hp with hp | ⟨-, rfl⟩
      · obtain ⟨hpid, hpname, hne⟩ := h.requests i p hp
        exact ⟨List.mem_append_left _ hpid, List.mem_append_left _ hpname, hne⟩
      · exact ⟨by simp, by simp, hname⟩
    · intro i j p q hp hq hij
      rcases getElem?_concat_cases hp with hp | ⟨hi, rfl⟩
      · obtain ⟨hpid, hpname, -⟩ := h.requests i p hp
        rcases getElem?_concat_cases hq with hq | ⟨-, rfl⟩
        · exact h.distinct i j p q hp hq hij
        · exact ⟨fun heq => hidnew (heq ▸ hpid), fun heq => hnamenew (heq ▸ hpname)⟩
      · rcases getElem?_concat_cases hq with hq | ⟨hj, rfl⟩
        · obtain ⟨hqid, hqname, -⟩ := h.requests j q hq
          exact ⟨fun heq => hidnew (heq ▸ hqid), fun heq => hnamenew (heq ▸ hqname)⟩
        · exact absurd (hi.trans hj.symm) hij
    · intro i p hp hu
      rcases getElem?_concat_cases hp with hp | ⟨-, rfl⟩
      · exact h.unfiled i p hp hu
      · exact ⟨hnew, fun k b hb hmem => hnamenew (h.named k b hb _ hmem hname)⟩
    · intro i p hp hw
      rcases getElem?_concat_cases hp with hp | ⟨-, rfl⟩
      · exact h.written i p hp hw
      · exact hw.elim
  · constructor
    · exact fun n hn => List.mem_append_left _ hn
    · exact hreq
    · intro i p hp hu
      rcases getElem?_concat_cases hp with hp | ⟨-, rfl⟩
      · exact Or.inl ⟨i, p.2, hp, hu⟩
      · exact Or.inr ⟨hidnew, hnamenew, hname⟩
    · exact fun n c hc => Or.inl hc
    · exact fun k b hb => Or.inl ⟨b, hb, rfl⟩

/-- A request that has not created its book changes only the file with its own name. -/
theorem Stock.file (h : Stock s₀ s) {i : ℕ} {r : Request} {stage stage' : Stage} {files : Files}
    (hi : s.requests[i]? = some (r, stage)) (hu : Unfiled stage)
    (hother : ∀ n, n ≠ r.name → files.lookup n = s.files.lookup n)
    (hown : Written stage' → files.lookup r.name = some r.content) :
    Stock s₀ { s with files := files, requests := s.requests.set i (r, stage') } ∧
      Keeps s { s with files := files, requests := s.requests.set i (r, stage') } := by
  have hreq : ∀ r' ∈ s.requests.map Prod.fst, r' ∈ (s.requests.set i (r, stage')).map Prod.fst := by
    intro r' hr'
    rwa [set_fst hi]
  obtain ⟨hnone, hno⟩ := h.unfiled i _ hi hu
  constructor
  · constructor
    · exact h.keyed
    · exact h.named
    · intro k b hb
      obtain ⟨c, hc, hfile⟩ := h.stored k b hb
      refine ⟨c, hc.mono hreq, ?_⟩
      rw [hother, hfile]
      intro heq
      exact hno k b hb (heq ▸ filename_mem b)
    · exact h.apart
    · intro j p hp
      rcases getElem?_set_cases hp with ⟨rfl, rfl⟩ | ⟨-, hp⟩
      · have hold := h.requests _ _ hi
        exact hold
      · exact h.requests j p hp
    · intro j k p q hp hq hjk
      rcases getElem?_set_cases hp with ⟨rfl, rfl⟩ | ⟨hj, hp'⟩
      · rcases getElem?_set_cases hq with ⟨rfl, rfl⟩ | ⟨-, hq'⟩
        · exact absurd rfl hjk
        · exact h.distinct _ k (r, stage) q hi hq' hjk
      · rcases getElem?_set_cases hq with ⟨rfl, rfl⟩ | ⟨-, hq'⟩
        · exact h.distinct j _ p (r, stage) hp' hi hjk
        · exact h.distinct j k p q hp' hq' hjk
    · intro j p hp hup
      rcases getElem?_set_cases hp with ⟨rfl, rfl⟩ | ⟨-, hp⟩
      · exact ⟨hnone, hno⟩
      · exact h.unfiled j p hp hup
    · intro j p hp hw
      rcases getElem?_set_cases hp with ⟨rfl, rfl⟩ | ⟨hj, hp⟩
      · exact hown hw
      · rw [← h.written j p hp hw]
        exact hother _ (h.distinct j i p _ hp hi hj).2
  · constructor
    · exact fun n hn => hn
    · exact hreq
    · intro j p hp hup
      rcases getElem?_set_cases hp with ⟨rfl, rfl⟩ | ⟨-, hp⟩
      · exact Or.inl ⟨_, stage, hi, hu⟩
      · exact Or.inl ⟨j, p.2, hp, hup⟩
    · intro n c hc
      by_cases hn : n = r.name
      · exact Or.inr ⟨i, _, hi, hu, hn.symm⟩
      · exact Or.inl (hother n hn ▸ hc)
    · exact fun k b hb => Or.inl ⟨b, hb, rfl⟩

/-- The new book refers to the file of its request, and to nothing else. -/
theorem Stock.create {hash : Bytes → Bytes} (h : Stock s₀ s) {i : ℕ} {r : Request} {tx : Tx}
    (hi : s.requests[i]? = some (r, .creating)) (hcreate : createBook (r.book hash) s.db = .ok tx) :
    Stock s₀ { s with db := tx, requests := s.requests.set i (r, .created (r.book hash)) } ∧
      Keeps s { s with db := tx, requests := s.requests.set i (r, .created (r.book hash)) } := by
  have hreq : ∀ r' ∈ s.requests.map Prod.fst,
      r' ∈ (s.requests.set i (r, Stage.created (r.book hash))).map Prod.fst := by
    intro r' hr'
    rwa [set_fst hi]
  obtain ⟨hnone, hno⟩ := h.unfiled i _ hi trivial
  obtain ⟨hrid, hrname, hne⟩ := h.requests i _ hi
  have hbooks : ∀ k b, tx.books.get k = some b → k ≠ r.id ∧ s.db.books.get k = some b ∨
      k = r.id ∧ b.id = r.id ∧ b.filename = r.name ∧ bookFiles b = [r.name, [], []] := by
    intro k b hb
    rw [(createBook_rows hcreate).2.1, Function.update_apply] at hb
    split at hb
    · next hk =>
      cases hb
      exact Or.inr ⟨hk, rfl, rfl, rfl⟩
    · next hk => exact Or.inl ⟨hk, hb⟩
  constructor
  · constructor
    · intro k b hb
      rcases hbooks k b hb with ⟨-, hb⟩ | ⟨rfl, hid, hname, -⟩
      · exact h.keyed k b hb
      · exact ⟨hid, hrid, hname ▸ hne⟩
    · intro k b hb n hn hnne
      rcases hbooks k b hb with ⟨-, hb⟩ | ⟨rfl, -, -, hf⟩
      · exact h.named k b hb n hn hnne
      · rw [hf] at hn
        simp only [List.mem_cons, hnne, List.not_mem_nil, or_false] at hn
        exact hn ▸ hrname
    · intro k b hb
      rcases hbooks k b hb with ⟨-, hb⟩ | ⟨rfl, -, hname, -⟩
      · obtain ⟨c, hc, hfile⟩ := h.stored k b hb
        exact ⟨c, hc.mono hreq, hfile⟩
      · refine ⟨r.content, Or.inr ⟨r, hreq r ?_, rfl, rfl⟩, ?_⟩
        · exact List.mem_map.mpr ⟨_, List.mem_of_getElem? hi, rfl⟩
        · rw [hname]
          exact h.written i _ hi trivial
    · intro k k' b b' hb hb' hkk
      rcases hbooks k b hb with ⟨-, hb⟩ | ⟨rfl, -, hname, -⟩
      · rcases hbooks k' b' hb' with ⟨-, hb'⟩ | ⟨rfl, -, -, hf⟩
        · exact h.apart k k' b b' hb hb' hkk
        · have hfile : b.filename ≠ r.name := fun heq => hno k b hb (heq ▸ filename_mem b)
          rw [hf]
          simp only [List.mem_cons, hfile, (h.keyed k b hb).2.2, List.not_mem_nil, or_self,
            not_false_eq_true]
      · rcases hbooks k' b' hb' with ⟨-, hb'⟩ | ⟨rfl, -⟩
        · rw [hname]
          exact hno k' b' hb'
        · exact absurd rfl hkk
    · intro j p hp
      rcases getElem?_set_cases hp with ⟨rfl, rfl⟩ | ⟨-, hp⟩
      · exact ⟨hrid, hrname, hne⟩
      · exact h.requests j p hp
    · intro j k p q hp hq hjk
      rcases getElem?_set_cases hp with ⟨rfl, rfl⟩ | ⟨hj, hp'⟩
      · rcases getElem?_set_cases hq with ⟨rfl, rfl⟩ | ⟨-, hq'⟩
        · exact absurd rfl hjk
        · exact h.distinct _ k (r, .creating) q hi hq' hjk
      · rcases getElem?_set_cases hq with ⟨rfl, rfl⟩ | ⟨-, hq'⟩
        · exact h.distinct j _ p (r, .creating) hp' hi hjk
        · exact h.distinct j k p q hp' hq' hjk
    · intro j p hp hup
      rcases getElem?_set_cases hp with ⟨rfl, rfl⟩ | ⟨hj, hp⟩
      · exact hup.elim
      · obtain ⟨hid, hname⟩ := h.distinct j i p _ hp hi hj
        obtain ⟨hpnone, hpno⟩ := h.unfiled j p hp hup
        constructor
        · rw [Option.eq_none_iff_forall_ne_some]
          intro b hb
          rcases hbooks _ b hb with ⟨-, hb⟩ | ⟨heq, -⟩
          · rw [hpnone] at hb
            cases hb
          · exact hid heq
        · intro k b hb
          rcases hbooks k b hb with ⟨-, hb⟩ | ⟨rfl, -, -, hf⟩
          · exact hpno k b hb
          · rw [hf]
            simp only [List.mem_cons, hname, (h.requests j p hp).2.2, List.not_mem_nil, or_self,
              not_false_eq_true]
    · intro j p hp hw
      rcases getElem?_set_cases hp with ⟨rfl, rfl⟩ | ⟨-, hp⟩
      · exact hw.elim
      · exact h.written j p hp hw
  · constructor
    · exact fun n hn => hn
    · exact hreq
    · intro j p hp hup
      rcases getElem?_set_cases hp with ⟨rfl, rfl⟩ | ⟨-, hp⟩
      · exact hup.elim
      · exact Or.inl ⟨j, p.2, hp, hup⟩
    · exact fun n c hc => Or.inl hc
    · intro k b hb
      rcases hbooks k b hb with ⟨-, hb⟩ | ⟨rfl, -, hname, -⟩
      · exact Or.inl ⟨b, hb, rfl⟩
      · exact Or.inr ⟨i, _, hi, trivial, rfl, hname⟩

theorem Stock.step {hash : Bytes → Bytes} {a : Uploads.Action} (h : Stock s₀ s)
    (hstep : s.step hash a = some t) : Stock s₀ t ∧ Keeps s t ∧
      ∀ n, (∀ (i : ℕ) p, s.requests[i]? = some p → Unfiled p.2 → p.1.name ≠ n) →
        t.files.lookup n = s.files.lookup n := by
  cases server_change (fun k b hb => (h.keyed k b hb).1) hstep with
  | worker hfiles hnames hdb hlater =>
      obtain ⟨hstock, hkeeps⟩ := h.worker hfiles hnames hdb hlater
      exact ⟨hstock, hkeeps, fun n _ => by rw [hfiles]⟩
  | accept hfresh ht =>
      obtain ⟨hstock, hkeeps⟩ := h.accept hfresh ht
      exact ⟨hstock, hkeeps, fun n _ => by rw [ht]⟩
  | @run i r stage stage' db files hi heffect ht =>
      subst ht
      cases heffect with
      | stay hu hw =>
          obtain ⟨hstock, hkeeps⟩ :=
            h.worker (t := { s with requests := s.requests.set i (r, stage') }) rfl rfl
              (fun k b hb => ⟨b, hb, rfl, rfl⟩) (.set hi hu hw)
          exact ⟨hstock, hkeeps, fun _ _ => rfl⟩
      | @write content _ hcontent =>
          have hother : ∀ n, n ≠ r.name → (s.files.insert r.name content).lookup n = s.files.lookup n :=
            fun n hn => lookup_insert_other s.files content hn
          have hown : Written stage' → (s.files.insert r.name content).lookup r.name = some r.content := by
            intro hw
            rw [AList.lookup_insert, hcontent hw]
          obtain ⟨hstock, hkeeps⟩ := h.file hi trivial hother hown
          exact ⟨hstock, hkeeps, fun n hn => hother n (Ne.symm (hn i _ hi trivial))⟩
      | giveUp hu hnot =>
          have hother : ∀ n, n ≠ r.name → (s.files.erase r.name).lookup n = s.files.lookup n :=
            fun n hn => lookup_erase_other s.files hn
          obtain ⟨hstock, hkeeps⟩ := h.file hi hu hother fun hw => absurd hw.unfiled hnot
          exact ⟨hstock, hkeeps, fun n hn => hother n (Ne.symm (hn i _ hi hu))⟩
      | create hcreate =>
          obtain ⟨hstock, hkeeps⟩ := h.create hi hcreate
          exact ⟨hstock, hkeeps, fun _ _ => rfl⟩

/-! ## Deletions -/

/-- A file that a deletion is going to remove belongs to no book and to no unfiled request. -/
def Harmless (s : Uploads.Server) : Deletion → Prop
  | .request _ _ | .batch _ _ _ => True
  | .found id _ book => id ∈ s.names ∧ (∀ n ∈ bookFiles book, n ≠ [] → n ∈ s.names) ∧
      (∀ (i : ℕ) p, s.requests[i]? = some p → Unfiled p.2 → p.1.id ≠ id ∧ p.1.name ∉ bookFiles book) ∧
      ∀ b, s.db.books.get id = some b → bookFiles b = bookFiles book
  | .committed names => ∀ n ∈ names, (n ≠ [] → n ∈ s.names) ∧
      (∀ k b, s.db.books.get k = some b → b.filename ≠ n) ∧
      ∀ (i : ℕ) p, s.requests[i]? = some p → Unfiled p.2 → p.1.name ≠ n

theorem Harmless.frame (hk : Keeps s t) {d : Deletion} (h : Harmless s d) : Harmless t d := by
  cases d with
  | request id u | batch ids u passed => trivial
  | found id u book =>
      obtain ⟨hid, hnames, hpending, hsame⟩ := h
      refine ⟨hk.names _ hid, fun n hn hne => hk.names _ (hnames n hn hne), ?_, ?_⟩
      · intro i p hp hu
        rcases hk.unfiled i p hp hu with ⟨j, stage, hj, hstage⟩ | ⟨hpid, hpname, hne⟩
        · have hold := hpending j _ hj hstage
          exact hold
        · exact ⟨fun heq => hpid (heq ▸ hid), fun hmem => hpname (hnames _ hmem hne)⟩
      · intro b hb
        rcases hk.books id b hb with ⟨b₀, hb₀, hf⟩ | ⟨j, p, hp, hu, hpid, -⟩
        · rw [hf, hsame b₀ hb₀]
        · exact absurd hpid (hpending j p hp hu).1
  | committed names =>
      intro n hn
      obtain ⟨hname, hbooks, hpending⟩ := h n hn
      refine ⟨fun hne => hk.names _ (hname hne), ?_, ?_⟩
      · intro k b hb
        rcases hk.books k b hb with ⟨b₀, hb₀, hf⟩ | ⟨j, p, hp, hu, -, hfile⟩
        · rw [filename_eq hf]
          exact hbooks k b₀ hb₀
        · rw [hfile]
          exact hpending j p hp hu
      · intro i p hp hu
        rcases hk.unfiled i p hp hu with ⟨j, stage, hj, hstage⟩ | ⟨-, hpname, hne⟩
        · have hold := hpending j _ hj hstage
          exact hold
        · rintro rfl
          exact hpname (hname hne)

/-- A deletion takes records away and changes no file. -/
theorem Stock.drop (h : Stock s₀ s) {db : Tx}
    (hsub : ∀ k b, db.books.get k = some b → s.db.books.get k = some b) :
    Stock s₀ { s with db := db } ∧ Keeps s { s with db := db } := by
  constructor
  · constructor
    · exact fun k b hb => h.keyed k b (hsub k b hb)
    · exact fun k b hb => h.named k b (hsub k b hb)
    · exact fun k b hb => h.stored k b (hsub k b hb)
    · exact fun k k' b b' hb hb' => h.apart k k' b b' (hsub k b hb) (hsub k' b' hb')
    · exact h.requests
    · exact h.distinct
    · intro i p hp hu
      obtain ⟨hnone, hno⟩ := h.unfiled i p hp hu
      refine ⟨?_, fun k b hb => hno k b (hsub k b hb)⟩
      rw [Option.eq_none_iff_forall_ne_some]
      intro b hb
      have hb' := hsub _ b hb
      rw [hnone] at hb'
      cases hb'
    · exact h.written
  · constructor
    · exact fun n hn => hn
    · exact fun r hr => hr
    · exact fun i p hp hu => Or.inl ⟨i, p.2, hp, hu⟩
    · exact fun n c hc => Or.inl hc
    · exact fun k b hb => Or.inl ⟨b, hsub k b hb, rfl⟩

theorem removeFile_other {files : Files} {name n : Bytes} (hn : n ≠ name) :
    (removeFile files name).lookup n = files.lookup n := by
  rw [removeFile]
  split
  · rfl
  · exact lookup_erase_other files hn

theorem removeFile_less {files : Files} {name n c : Bytes}
    (h : (removeFile files name).lookup n = some c) : files.lookup n = some c := by
  rw [removeFile] at h
  split at h
  · exact h
  · by_cases hn : n = name
    · rw [hn, AList.lookup_erase] at h
      cases h
    · rwa [lookup_erase_other files hn] at h

/-- A file goes that belongs to no book and to no unfiled request. -/
theorem Stock.remove (h : Stock s₀ s) {name : Bytes} (hharmless : Harmless s (.committed [name])) :
    Stock s₀ { s with files := removeFile s.files name } ∧
      Keeps s { s with files := removeFile s.files name } := by
  obtain ⟨-, hbooks, hpending⟩ := hharmless name (by simp)
  constructor
  · refine ⟨h.keyed, h.named, ?_, h.apart, h.requests, h.distinct, h.unfiled, ?_⟩
    · intro k b hb
      obtain ⟨c, hc, hfile⟩ := h.stored k b hb
      exact ⟨c, hc, by rw [removeFile_other (hbooks k b hb), hfile]⟩
    · intro i p hp hw
      rw [removeFile_other (hpending i p hp hw.unfiled)]
      exact h.written i p hp hw
  · constructor
    · exact fun n hn => hn
    · exact fun r hr => hr
    · exact fun i p hp hu => Or.inl ⟨i, p.2, hp, hu⟩
    · exact fun n c hc => Or.inl (removeFile_less hc)
    · exact fun k b hb => Or.inl ⟨b, hb, rfl⟩

theorem getBookForUser_stored {db : Tx} {id u : Bytes} {b : Book} (h : getBookForUser db id u = some b) :
    db.books.get id = some b := by
  rw [getBookForUser] at h
  split at h
  · cases h
  · exact h

/-- A step of a deletion: the files it is going to remove stay nobody's. -/
theorem Stock.delete (h : Stock s₀ s) {d d' : Deletion} {ok : Bool} {db : Tx} {files : Files}
    (hd : Harmless s d) (hrun : d.run ok s.db s.files = (db, files, d')) :
    Stock s₀ { s with db := db, files := files } ∧ Keeps s { s with db := db, files := files } ∧
      Harmless { s with db := db, files := files } d' ∧
      ∀ n, (ok = true → n ∉ d.removes) → files.lookup n = s.files.lookup n := by
  have hstay : Stock s₀ { s with db := s.db } ∧ Keeps s { s with db := s.db } := h.drop fun _ _ => id
  cases d with
  | request id u =>
      rw [Deletion.run] at hrun
      split at hrun
      · next b hget =>
        cases hrun
        split at hget
        · have hb := getBookForUser_stored hget
          refine ⟨hstay.1, hstay.2, ⟨(h.keyed id b hb).2.1, h.named id b hb, ?_, ?_⟩, fun _ _ => rfl⟩
          · intro i p hp hu
            obtain ⟨hnone, hno⟩ := h.unfiled i p hp hu
            refine ⟨?_, hno id b hb⟩
            rintro rfl
            rw [hnone] at hb
            cases hb
          · intro b' hb'
            rw [hb, Option.some.injEq] at hb'
            rw [hb']
        · cases hget
      · cases hrun
        exact ⟨hstay.1, hstay.2, fun n hn => absurd hn List.not_mem_nil, fun _ _ => rfl⟩
  | found id u book =>
      obtain ⟨hid, hnames, hpending, hsame⟩ := hd
      rw [Deletion.run] at hrun
      split at hrun
      · next tx hdelete =>
        cases hrun
        split at hdelete
        · rw [deleteBookData] at hdelete
          obtain ⟨⟨b, tx'⟩, hin, hdelete⟩ := bind_eq_ok.mp hdelete
          cases hdelete
          obtain ⟨hget, hbooks, -⟩ := deleteBookDataInTx_rows hin
          have hsub : ∀ k b', db.books.get k = some b' → k ≠ id ∧ s.db.books.get k = some b' := by
            intro k b' hb'
            rw [hbooks, Function.update_apply] at hb'
            split at hb'
            · cases hb'
            · next hk => exact ⟨hk, hb'⟩
          obtain ⟨hstock, hkeeps⟩ := h.drop fun k b' hb' => (hsub k b' hb').2
          refine ⟨hstock, hkeeps, ?_, fun _ _ => rfl⟩
          intro n hn
          refine ⟨hnames n hn, ?_, ?_⟩
          · rintro k b' hb' rfl
            obtain ⟨hk, hb'⟩ := hsub k b' hb'
            rw [← hsame b hget] at hn
            exact h.apart k id b' b hb' hget hk hn
          · rintro i p hp hu rfl
            exact (hpending i p hp hu).2 hn
        · cases hdelete
      · cases hrun
        exact ⟨hstay.1, hstay.2, fun n hn => absurd hn List.not_mem_nil, fun _ _ => rfl⟩
  | batch ids u passed =>
      rw [Deletion.run] at hrun
      split at hrun
      · next books tx hdelete =>
        cases hrun
        split at hdelete
        · obtain ⟨hsub, hgone⟩ := deleteBooksData_rows hdelete
          obtain ⟨hstock, hkeeps⟩ := h.drop hsub
          refine ⟨hstock, hkeeps, ?_, fun _ _ => rfl⟩
          intro n hn
          obtain ⟨b, hb, hn⟩ := List.mem_flatMap.mp hn
          obtain ⟨k, hk, hnone⟩ := hgone b hb
          refine ⟨h.named k b hk n hn, ?_, ?_⟩
          · rintro k' b' hb' rfl
            refine h.apart k' k b' b (hsub k' b' hb') hk ?_ hn
            rintro rfl
            rw [hnone] at hb'
            cases hb'
          · rintro i p hp hu rfl
            exact (h.unfiled i p hp hu).2 k b hk hn
        · cases hdelete
      · cases hrun
        exact ⟨hstay.1, hstay.2, fun n hn => absurd hn List.not_mem_nil, fun _ _ => rfl⟩
  | committed names =>
      cases names with
      | nil =>
          cases hrun
          exact ⟨hstay.1, hstay.2, fun n hn => absurd hn List.not_mem_nil, fun _ _ => rfl⟩
      | cons name names =>
          cases hrun
          have hrest : Harmless s (.committed names) := fun n hn => hd n (List.mem_cons_of_mem _ hn)
          cases ok with
          | false => exact ⟨hstay.1, hstay.2, hrest, fun _ _ => rfl⟩
          | true =>
              have hname : Harmless s (.committed [name]) := fun n hn =>
                hd n (List.mem_singleton.mp hn ▸ List.mem_cons_self)
              obtain ⟨hstock, hkeeps⟩ := h.remove hname
              refine ⟨hstock, hkeeps, hrest, fun n hn => removeFile_other ?_⟩
              rintro rfl
              exact hn rfl rfl

/-! ## The backup -/

/-- A record whose file, as long as it is there, is what was uploaded for it. -/
structure Settled (s₀ s : Uploads.Server) (k : Bytes) (b : Book) (c : Bytes) : Prop where
  uploaded : Uploaded s₀ s k c
  named : b.filename ∈ s.names
  file : ∀ c', s.files.lookup b.filename = some c' → c' = c
  unfiled : ∀ (i : ℕ) p, s.requests[i]? = some p → Unfiled p.2 → p.1.name ≠ b.filename

theorem Stock.settled (h : Stock s₀ s) {k : Bytes} {b : Book} (hb : s.db.books.get k = some b) :
    ∃ c, Settled s₀ s k b c ∧ s.files.lookup b.filename = some c := by
  obtain ⟨c, hc, hfile⟩ := h.stored k b hb
  refine ⟨c, ⟨hc, h.named k b hb _ (filename_mem b) (h.keyed k b hb).2.2, ?_, ?_⟩, hfile⟩
  · intro c' hc'
    rw [hfile, Option.some.injEq] at hc'
    exact hc'.symm
  · intro i p hp hu heq
    exact (h.unfiled i p hp hu).2 k b hb (heq ▸ filename_mem b)

theorem Settled.frame (hk : Keeps s t) {k c : Bytes} {b : Book} (h : Settled s₀ s k b c) :
    Settled s₀ t k b c := by
  refine ⟨h.uploaded.mono hk.requests, hk.names _ h.named, ?_, ?_⟩
  · intro c' hc'
    rcases hk.files _ c' hc' with hc' | ⟨i, p, hp, hu, hname⟩
    · exact h.file c' hc'
    · exact absurd hname (h.unfiled i p hp hu)
  · intro i p hp hu
    rcases hk.unfiled i p hp hu with ⟨j, stage, hj, hstage⟩ | ⟨-, hname, -⟩
    · have hold := h.unfiled j _ hj hstage
      exact hold
    · intro heq
      exact hname (heq ▸ h.named)

/-- What `Create` can rely on at each of its steps. -/
def Kept (s₀ s : Uploads.Server) : Phase → Prop
  | .idle | .failed => True
  | .snapshotted main | .sessionsSnapshotted main => ∀ k b, main.books.get k = some b →
      ∃ c, Settled s₀ s k b c ∧ s.files.lookup b.filename = some c
  | .copying main left uploads => ∀ k b, main.books.get k = some b → ∃ c, Settled s₀ s k b c ∧
      (∀ c', uploads.lookup b.filename = some c' → c' = c) ∧
      (b.filename ∈ left ∨ uploads.lookup b.filename ≠ none)
  | .listed main uploads _ | .verified main uploads | .published main uploads =>
      ∀ k b, main.books.get k = some b → ∃ c, uploads.lookup b.filename = some c ∧ Uploaded s₀ s k c

theorem Kept.frame (hk : Keeps s t) {phase : Phase} (hfiles : ∀ main ∈ phase.unlisted, ∀ k b c,
      main.books.get k = some b → Settled s₀ s k b c → s.files.lookup b.filename = some c →
        t.files.lookup b.filename = some c)
    (h : Kept s₀ s phase) : Kept s₀ t phase := by
  cases phase with
  | idle | failed => trivial
  | snapshotted main | sessionsSnapshotted main =>
      intro k b hb
      obtain ⟨c, hc, hfile⟩ := h k b hb
      exact ⟨c, hc.frame hk, hfiles main rfl k b c hb hc hfile⟩
  | copying main left uploads =>
      intro k b hb
      obtain ⟨c, hc, hrest⟩ := h k b hb
      exact ⟨c, hc.frame hk, hrest⟩
  | listed main uploads manifest | verified main uploads | published main uploads =>
      intro k b hb
      obtain ⟨c, hcopy, hc⟩ := h k b hb
      exact ⟨c, hcopy, hc.mono hk.requests⟩

theorem Kept.run {hash : Bytes → Bytes} (hs : Stock s₀ s) {phase : Phase} (ok : Bool)
    (h : Kept s₀ s phase) : Kept s₀ s (phase.run hash ok s.db s.files) := by
  have hsnapshot : Kept s₀ s (.snapshotted s.db) := fun k b hb => hs.settled hb
  cases phase with
  | idle | published _ _ | failed =>
      rw [Phase.run]
      split
      · exact hsnapshot
      · trivial
  | snapshotted main =>
      rw [Phase.run]
      split
      · exact h
      · trivial
  | sessionsSnapshotted main =>
      rw [Phase.run]
      split
      · intro k b hb
        obtain ⟨c, hc, hfile⟩ := h k b hb
        refine ⟨c, hc, by simp, Or.inl ?_⟩
        rw [List.mem_insertionSort]
        exact AList.lookup_isSome.mp (hfile ▸ rfl)
      · trivial
  | copying main left uploads =>
      cases left with
      | nil =>
          rw [Phase.run]
          split
          · intro k b hb
            obtain ⟨c, hc, hcopy, hthere⟩ := h k b hb
            obtain ⟨c', hc'⟩ := Option.ne_none_iff_exists'.mp (hthere.resolve_left List.not_mem_nil)
            exact ⟨c', hc', hcopy c' hc' ▸ hc.uploaded⟩
          · trivial
      | cons name left =>
          rw [Phase.run]
          split
          · next content hread =>
            split at hread
            · intro k b hb
              obtain ⟨c, hc, hcopy, hthere⟩ := h k b hb
              refine ⟨c, hc, ?_⟩
              by_cases hname : b.filename = name
              · rw [hname, AList.lookup_insert]
                exact ⟨fun c' hc' => hc.file c' (by rw [hname, hread, hc']), Or.inr nofun⟩
              · rw [lookup_insert_other uploads content hname]
                exact ⟨hcopy, hthere.imp_left fun hmem => (List.mem_cons.mp hmem).resolve_left hname⟩
            · cases hread
          · trivial
  | listed main uploads manifest =>
      rw [Phase.run]
      split
      · exact h
      · trivial
  | verified main uploads =>
      rw [Phase.run]
      split
      · exact h
      · trivial

/-! ## Runs -/

/-- A library with its files: no record refers to the upload of another. -/
structure Library (s : Uploads.Server) : Prop where
  keyed : ∀ k b, s.db.books.get k = some b → b.id = k ∧ k ∈ s.names ∧ b.filename ≠ []
  named : ∀ k b, s.db.books.get k = some b → ∀ n ∈ bookFiles b, n ≠ [] → n ∈ s.names
  stored : ∀ k b, s.db.books.get k = some b → ∃ c, s.files.lookup b.filename = some c
  apart : ∀ k k' b b', s.db.books.get k = some b → s.db.books.get k' = some b' → k ≠ k' →
    b.filename ∉ bookFiles b'

structure Live.Started (s : Live) : Prop where
  library : Library s.server
  requests : s.server.requests = []
  deletions : s.deletions = []
  backup : s.backup = .idle

abbrev Run (hash : Bytes → Bytes) (ok : Live → Event → Prop) : Live → Event → Live → Prop :=
  Steps (Live.step hash) ok

structure Live.Inv (s₀ : Uploads.Server) (s : Live) : Prop where
  stock : Stock s₀ s.server
  deletions : ∀ d ∈ s.deletions, Harmless s.server d
  backup : Kept s₀ s.server s.backup

theorem Live.inv_started {s : Live} (h : s.Started) : s.Inv s.server := by
  obtain ⟨hlibrary, hrequests, hdeletions, hbackup⟩ := h
  refine ⟨⟨hlibrary.keyed, hlibrary.named, ?_, hlibrary.apart, ?_, ?_, ?_, ?_⟩, ?_, ?_⟩
  · intro k b hb
    obtain ⟨c, hc⟩ := hlibrary.stored k b hb
    exact ⟨c, Or.inl ⟨b, hb, hc⟩, hc⟩
  · simp [hrequests]
  · simp [hrequests]
  · simp [hrequests]
  · simp [hrequests]
  · simp [hdeletions]
  · rw [hbackup]
    trivial

theorem Live.inv_step {hash : Bytes → Bytes} {s₀ : Uploads.Server} {s t : Live} {e : Event}
    (h : s.Inv s₀) (hspares : s.Spares e) (hstep : s.step hash e = some t) : t.Inv s₀ := by
  cases e with
  | serve action =>
      obtain ⟨server, hserver, rfl⟩ := Option.map_eq_some_iff.mp hstep
      obtain ⟨hstock, hkeeps, hfiles⟩ := h.stock.step hserver
      refine ⟨hstock, fun d hd => (h.deletions d hd).frame hkeeps, h.backup.frame hkeeps ?_⟩
      intro main _ k b c _ hc hfile
      exact (hfiles _ hc.unfiled).trans hfile
  | acceptDelete id userID =>
      cases hstep
      refine ⟨h.stock, ?_, h.backup⟩
      intro d hd
      rcases List.mem_append.mp hd with hd | hd
      · exact h.deletions d hd
      · rw [List.mem_singleton.mp hd]
        trivial
  | acceptBatchDelete ids userID passed =>
      simp only [Live.step] at hstep
      split at hstep
      · cases hstep
      · cases hstep
        refine ⟨h.stock, ?_, h.backup⟩
        intro d hd
        rcases List.mem_append.mp hd with hd | hd
        · exact h.deletions d hd
        · rw [List.mem_singleton.mp hd]
          trivial
  | delete i ok =>
      obtain ⟨d, hi, rfl⟩ := Option.map_eq_some_iff.mp hstep
      rcases hrun : d.run ok s.server.db s.server.files with ⟨db, files, d'⟩
      obtain ⟨hstock, hkeeps, hd', hfiles⟩ := h.stock.delete (h.deletions d (List.mem_of_getElem? hi)) hrun
      refine ⟨hstock, ?_, h.backup.frame hkeeps ?_⟩
      · intro d₁ hd₁
        rcases List.mem_or_eq_of_mem_set hd₁ with hd₁ | rfl
        · exact (h.deletions d₁ hd₁).frame hkeeps
        · exact hd'
      · intro main hmain k b c hb _ hfile
        refine (hfiles _ ?_).trans hfile
        rintro rfl hremoves
        exact hspares d hi _ hremoves main hmain b (Bucket.mem_values.mpr ⟨k, hb⟩) rfl
  | backup ok =>
      cases hstep
      exact ⟨h.stock, h.deletions, h.backup.run h.stock ok⟩

/-- Where no deletion removes an upload between the snapshot it is in and the listing of
the upload directory, a published backup has the complete file of each of its records. -/
theorem spared_backup_complete {hash : Bytes → Bytes} {s₀ s : Live} (hstart : s₀.Started)
    (hs : Reachable (· = s₀) (Run hash Live.Spares) s) {main : Tx} {uploads : Files}
    (hpublished : s.backup = .published main uploads) :
    ∀ k b, main.books.get k = some b →
      ∃ c, uploads.lookup b.filename = some c ∧ Uploaded s₀.server s.server k c := by
  have h := hs.invariant (Live.Inv s₀.server) ?_ ?_
  · have hkept := h.backup
    rw [hpublished] at hkept
    exact hkept
  · rintro s rfl
    exact Live.inv_started hstart
  · rintro s e t hinv ⟨hspares, hstep⟩
    exact Live.inv_step hinv hspares hstep

end

/-! ## An upload that is deleted meanwhile -/

def emptyLive : Live := ⟨emptyServer, [], .idle⟩

theorem emptyLive_started : emptyLive.Started := by
  have hempty : ∀ k b, emptyLive.server.db.books.get k ≠ some b := by
    intro k b hb
    have hnone : emptyLive.server.db.books.get k = none := Bucket.get_empty k
    rw [hnone] at hb
    cases hb
  refine ⟨⟨?_, ?_, ?_, ?_⟩, rfl, rfl, rfl⟩
  · exact fun k b hb => absurd hb (hempty k b)
  · exact fun k b hb => absurd hb (hempty k b)
  · exact fun k b hb => absurd hb (hempty k b)
  · exact fun k _ b _ hb => absurd hb (hempty k b)

def uploadingX : List Event :=
  .serve (.accept (uploadX "a")) :: List.replicate 5 (.serve (.advance 0 ⟨true, 1⟩))

def deletingX : List Event := .acceptDelete (ascii "a") (ascii "u") :: List.replicate 3 (.delete 0 true)

/-- The files of the records of a published backup. -/
def Phase.files : Phase → Option (List (Option Bytes))
  | .published main uploads => some (main.books.values.map fun b => uploads.lookup b.filename)
  | _ => none

/-- The deletion commits and removes the file after the snapshot of the database. -/
def deletedMeanwhile : List Event :=
  uploadingX ++ [.backup true] ++ deletingX ++ List.replicate 5 (.backup true)

theorem deleted_upload_missing : ∃ s main uploads k b, emptyLive.Started ∧
    Reachable (· = emptyLive) (Run digestX fun _ _ => True) s ∧ s.backup = .published main uploads ∧
    main.books.get k = some b ∧ uploads.lookup b.filename = none := by
  have hrun : (replay (Live.step digestX) (fun _ _ => True) emptyLive deletedMeanwhile).any (fun s =>
      s.backup.files = some [none]) = true := by decide +kernel
  obtain ⟨s, hs, hfiles⟩ := (Option.any_eq_true _ _).mp hrun
  rw [decide_eq_true_eq] at hfiles
  have hreach : Reachable (· = emptyLive) (Run digestX fun _ _ => True) s :=
    replay_reachable _ _ (.start rfl) hs
  cases hphase : s.backup with
  | published main uploads =>
      rw [hphase, Phase.files, Option.some.injEq] at hfiles
      obtain ⟨b, hb, hnone⟩ := List.mem_map.mp (hfiles ▸ List.mem_singleton_self none)
      obtain ⟨k, hk⟩ := Bucket.mem_values.mp hb
      exact ⟨s, main, uploads, k, b, emptyLive_started, hreach, hphase, hk, hnone⟩
  | idle | snapshotted _ | sessionsSnapshotted _ | copying _ _ _ | listed _ _ _ | verified _ _ | failed =>
      rw [hphase] at hfiles
      cases hfiles

/-- The same deletion, when the file has been copied. -/
def deletedLater : List Event :=
  uploadingX ++ List.replicate 4 (.backup true) ++ deletingX ++ List.replicate 3 (.backup true)

theorem copied_upload_complete : ∃ s main uploads k b c,
    Reachable (· = emptyLive) (Run digestX Live.Spares) s ∧ s.backup = .published main uploads ∧
    s.server.files.keys = [] ∧ main.books.get k = some b ∧ uploads.lookup b.filename = some c ∧
    Uploaded emptyServer s.server k c := by
  have hrun : (replay (Live.step digestX) Live.Spares emptyLive deletedLater).any (fun s =>
      s.server.files.keys = [] ∧ s.backup.files.any (· ≠ [])) = true := by decide +kernel
  obtain ⟨s, hs, hfiles⟩ := (Option.any_eq_true _ _).mp hrun
  rw [decide_eq_true_eq] at hfiles
  obtain ⟨hgone, hfiles⟩ := hfiles
  have hreach : Reachable (· = emptyLive) (Run digestX Live.Spares) s :=
    replay_reachable _ _ (.start rfl) hs
  cases hphase : s.backup with
  | published main uploads =>
      have hcomplete := spared_backup_complete emptyLive_started hreach hphase
      rw [hphase, Phase.files, Option.any_some, decide_eq_true_eq, ne_eq, List.map_eq_nil_iff] at hfiles
      obtain ⟨b, hb⟩ := List.exists_mem_of_ne_nil _ hfiles
      obtain ⟨k, hk⟩ := Bucket.mem_values.mp hb
      obtain ⟨c, hc, huploaded⟩ := hcomplete k b hk
      exact ⟨s, main, uploads, k, b, c, hreach, hphase, hgone, hk, hc, huploaded⟩
  | idle | snapshotted _ | sessionsSnapshotted _ | copying _ _ _ | listed _ _ _ | verified _ _ | failed =>
      rw [hphase] at hfiles
      cases hfiles

end ZReader.Backup.Online
