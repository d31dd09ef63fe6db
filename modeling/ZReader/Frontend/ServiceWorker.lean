import ZReader.Frontend.OfflineBooks
import ZReader.Lib.Transition

namespace ZReader.Frontend.Offline

open Lib.Percent Lib.Scripted Lib.Transition

/-! ## The service worker -/

/-- `CACHE_NAME`, which changes with each release. -/
def staticCacheName (version : Text) : Text := "z-reader-v".toList ++ version

def staticAssets : List Path :=
  [[[]], ["login".toList], ["manifest.json".toList], ["icons".toList, "icon-192.png".toList],
    ["icons".toList, "icon-512.png".toList]]

/-- `cache.addAll`, which stores all the fetched assets or none. -/
def addAll (cache : Nat) (fetched : Path → Response) : Page Unit :=
  awaitCache fun s =>
    ((), s.edit cache fun entries =>
      staticAssets.foldl (fun entries path => entries.insert path (fetched path)) entries)

def install (version : Text) (fetched : Path → Response) : Page Unit := do
  let cache ← openCache (staticCacheName version)
  addAll cache fetched

/-- `Promise.all` over the deletes of the names; each may fail without the others. -/
def deleteNames : List Text → Page Unit
  | [] => return
  | name :: names => do
      let _ ← (cachesDelete name).attempt
      deleteNames names

def activate (version : Text) : Page Unit := do
  let cacheNames ← cachesKeys
  deleteNames (cacheNames.filter (· ≠ staticCacheName version))

/-! ## Runs -/

inductive Event
  | saveOfflineBook (userId : Text) (book : Book) (file : Blob)
  | getOfflineBook (userId bookId : Text) (expectedContentHash : Option Text)
  | removeOfflineBook (userId bookId : Text)
  | clearOfflineBooks (userId : Option Text)
  | getPartialBookDownload (userId bookId : Text)
  | appendPartialBookDownload (userId bookId : Text) (chunk : Blob) (totalBytes : Option Nat)
      (contentType : Text)
  | createPartialBookDownloadWriter (userId bookId : Text) (totalBytes : Option Nat)
      (contentType : Text) (initialDownload : Option (Option PartialBookDownload)) (etag : Option Text)
  /-- A writer that somebody still holds. -/
  | append (writer : PartialBookDownloadWriter) (chunk : Blob)
  | clearPartialBookDownload (userId bookId : Text)
  | install (version : Text) (fetched : Path → Response)
  | activate (version : Text)

namespace Event

def run : Event → Page Unit
  | .saveOfflineBook userId book file => Offline.saveOfflineBook userId book file
  | .getOfflineBook userId bookId expected => do
      let _ ← Offline.getOfflineBook userId bookId expected
  | .removeOfflineBook userId bookId => Offline.removeOfflineBook userId bookId
  | .clearOfflineBooks userId => Offline.clearOfflineBooks userId
  | .getPartialBookDownload userId bookId => do
      let _ ← Offline.getPartialBookDownload userId bookId
  | .appendPartialBookDownload userId bookId chunk totalBytes contentType =>
      Offline.appendPartialBookDownload userId bookId chunk totalBytes contentType
  | .createPartialBookDownloadWriter userId bookId totalBytes contentType initialDownload etag => do
      let _ ← Offline.createPartialBookDownloadWriter userId bookId totalBytes contentType
        initialDownload etag
  | .append writer chunk => do
      let _ ← writer.append chunk
  | .clearPartialBookDownload userId bookId => Offline.clearPartialBookDownload userId bookId
  | .install version fetched => Offline.install version fetched
  | .activate version => Offline.activate version

/-- The users have an ID, and the book IDs are no dot segments. -/
def Valid : Event → Prop
  | .saveOfflineBook userId book _ => userId ≠ [] ∧ PlainID book.id
  | .getOfflineBook _ bookId _ | .removeOfflineBook _ bookId | .getPartialBookDownload _ bookId
  | .appendPartialBookDownload _ bookId _ _ _ | .createPartialBookDownloadWriter _ bookId _ _ _ _
  | .clearPartialBookDownload _ bookId => PlainID bookId
  | .append writer _ => PlainID writer.bookId
  | .clearOfflineBooks _ | .install _ _ | .activate _ => True

end Event

/-- The copies that were saved and since then neither removed nor cleared. -/
abbrev Copies := Text → Text → Option (Book × Blob)

def Event.recorded (copies : Copies) (exit : Exit Unit) : Event → Copies
  | .saveOfflineBook userId book file =>
      match exit with
      | .value _ => fun u b => if u = userId ∧ b = book.id then some (book, file) else copies u b
      | .thrown | .killed => copies
  | .removeOfflineBook userId bookId =>
      fun u b => if u = userId ∧ b = bookId then none else copies u b
  | .clearOfflineBooks userId => fun u b => if u = userId.getD [] then none else copies u b
  | _ => copies

structure Session where
  caches : Caches
  copies : Copies

def Session.after (s : Session) (event : Event) (script : List Turn) : Session :=
  let result := event.run script s.caches
  ⟨result.2.2, event.recorded s.copies result.1⟩

/-- A step of the browser, for events that meet a condition on the caches they find. -/
def Session.Step (ok : Caches → Event → Prop) (s : Session) (a : Event × List Turn) (t : Session) :
    Prop :=
  a.1.Valid ∧ ok s.caches a.1 ∧ t = s.after a.1 a.2

def Session.Reached (ok : Caches → Event → Prop) (s : Session) : Prop :=
  Reachable (fun s => ∃ supported, s = ⟨.empty supported, fun _ _ => none⟩) (Session.Step ok) s

theorem Session.Reached.after {ok : Caches → Event → Prop} {s : Session} (h : s.Reached ok) {event : Event}
    (hv : event.Valid) (hok : ok s.caches event) (script : List Turn) :
    (s.after event script).Reached ok :=
  Reachable.next (a := (event, script)) h ⟨hv, hok, rfl⟩

/-- The program gives `a` where nothing that it waits for fails. -/
def Answers {α : Type} (m : Page α) (s : Caches) (a : α) : Prop :=
  ∀ script, 3 ≤ script.length → (∀ turn ∈ script, turn.ok = true) → (m script s).1 = .value a

/-! ## What the caches hold -/

def IsStatic (name : Text) : Prop := "z-reader-v".toList <+: name

/-- An activation finds the caches of releases only. -/
def Spares (s : Caches) : Event → Prop
  | .activate _ => ∀ name ∈ s.names.keys, IsStatic name
  | _ => True

theorem cacheName_not_static (userId : Text) : ¬ IsStatic (cacheName userId) := by
  unfold IsStatic cacheName
  simp

theorem lookup_insert_cases {names : AList (fun _ : Text => Nat)} {name other : Text} {i j : Nat}
    (h : (names.insert name i).lookup other = some j) :
    other = name ∧ j = i ∨ names.lookup other = some j := by
  by_cases hn : other = name
  · subst hn
    rw [AList.lookup_insert, Option.some.injEq] at h
    exact Or.inl ⟨rfl, h.symm⟩
  · rw [AList.lookup_insert_ne hn] at h
    exact Or.inr h

structure Holding (supported : Bool) (copies : Copies) (s : Caches) : Prop where
  supports : s.supported = supported
  fresh : ∀ name i, s.names.lookup name = some i → i < s.fresh
  apart : ∀ name name' i, s.names.lookup name = some i → s.names.lookup name' = some i → name = name'
  late : ∀ x ∈ s.late, 3 < x.2.length
  held : ∀ u b book file, copies u b = some (book, file) → u ≠ [] ∧ PlainID b ∧
    supported = true ∧ s.find (cacheName u) (cacheRequest b) = some (bookResponse book file)

namespace Holding

variable {supported : Bool} {copies copies' : Copies} {s : Caches}

theorem empty (supported : Bool) : Holding supported (fun _ _ => none) (.empty supported) := by
  refine ⟨rfl, ?_, ?_, ?_, ?_⟩
  · intro name i h
    simp [Caches.empty] at h
  · intro name name' i h
    simp [Caches.empty] at h
  · intro x hx
    simp [Caches.empty] at hx
  · intro u b book file h
    cases h

theorem forget (h : Holding supported copies s)
    (hsub : ∀ u b c, copies' u b = some c → copies u b = some c) :
    Holding supported copies' s :=
  ⟨h.supports, h.fresh, h.apart, h.late, fun u b book file hc => h.held u b book file (hsub u b _ hc)⟩

theorem land (h : Holding supported copies s) (landed : List (Nat × Path)) :
    Holding supported copies (s.land landed) := by
  obtain ⟨hnames, hfresh, hsupp, hlate⟩ := s.land_names landed
  refine ⟨hsupp.trans h.supports, ?_, ?_, fun x hx => h.late x (hlate x hx), ?_⟩
  · rw [hnames, hfresh]
    exact h.fresh
  · rw [hnames]
    exact h.apart
  · intro u b book file hc
    obtain ⟨hu, hb, hs, hfind⟩ := h.held u b book file hc
    refine ⟨hu, hb, hs, ?_⟩
    obtain ⟨i, hi, hlookup⟩ := Option.bind_eq_some_iff.mp hfind
    rw [Caches.find, hnames, hi, Option.bind_some]
    rcases s.land_lookup landed i (cacheRequest b) with hsame | ⟨hmem, -⟩
    · exact hsame.trans hlookup
    · -- Late deletes are about partial downloads, whose keys are longer.
      have hlen := h.late _ hmem
      simp [cacheRequest_eq hb] at hlen

theorem land_name {name : Text} {i : Nat}
    (h : Holding supported copies s ∧ s.names.lookup name = some i) (landed : List (Nat × Path)) :
    Holding supported copies (s.land landed) ∧ (s.land landed).names.lookup name = some i := by
  rw [(s.land_names landed).1]
  exact ⟨h.1.land landed, h.2⟩

theorem opened (h : Holding supported copies s) (name : Text) :
    Holding supported copies (s.opened name).2 ∧
      (s.opened name).2.names.lookup name = some (s.opened name).1 := by
  unfold Caches.opened
  split
  · next i hi => exact ⟨h, hi⟩
  · next hnone =>
    refine ⟨⟨h.supports, ?_, ?_, h.late, ?_⟩, by simp⟩
    · intro other i hi
      rcases lookup_insert_cases hi with ⟨-, rfl⟩ | hi
      · exact Nat.lt_succ_self _
      · exact (h.fresh other i hi).trans (Nat.lt_succ_self _)
    · intro other other' i hi hi'
      rcases lookup_insert_cases hi with ⟨rfl, rfl⟩ | hi <;>
        rcases lookup_insert_cases hi' with ⟨ho, hfresh⟩ | hi'
      · exact ho.symm
      · exact absurd (h.fresh other' _ hi') (lt_irrefl _)
      · exact absurd (h.fresh other i hi) (hfresh ▸ lt_irrefl _)
      · exact h.apart other other' i hi hi'
    · intro u b book file hc
      obtain ⟨hu, hb, hs, hfind⟩ := h.held u b book file hc
      refine ⟨hu, hb, hs, ?_⟩
      obtain ⟨i, hi, hlookup⟩ := Option.bind_eq_some_iff.mp hfind
      have hne : cacheName u ≠ name := by
        rintro rfl
        rw [hnone] at hi
        cases hi
      have hi' : i ≠ s.fresh := (h.fresh _ i hi).ne
      simp only [Caches.find, AList.lookup_insert_ne hne, hi, Option.bind_some,
        Function.update_of_ne hi', hlookup]

/-- An edit of one store keeps what it does not touch. -/
theorem edit (h : Holding supported copies s) (i : Nat) (f : Cache → Cache)
    (hf : ∀ u b c, copies u b = some c → s.names.lookup (cacheName u) = some i →
      (f (s.stores i)).lookup (cacheRequest b) = (s.stores i).lookup (cacheRequest b)) :
    Holding supported copies (s.edit i f) := by
  refine ⟨h.supports, h.fresh, h.apart, h.late, ?_⟩
  intro u b book file hc
  obtain ⟨hu, hb, hs, hfind⟩ := h.held u b book file hc
  refine ⟨hu, hb, hs, ?_⟩
  obtain ⟨j, hj, hlookup⟩ := Option.bind_eq_some_iff.mp hfind
  simp only [Caches.find, Caches.edit, hj, Option.bind_some]
  by_cases hji : j = i
  · subst hji
    rw [Function.update_self, hf u b _ hc hj, hlookup]
  · rw [Function.update_of_ne hji, hlookup]

/-- What a save adds. -/
theorem store (h : Holding supported copies s) {userId : Text} {book : Book} (file : Blob) {i : Nat}
    (hu : userId ≠ []) (hb : PlainID book.id) (hs : supported = true)
    (hi : s.names.lookup (cacheName userId) = some i) :
    Holding supported
      (fun u b => if u = userId ∧ b = book.id then some (book, file) else copies u b)
      (s.edit i (·.insert (cacheRequest book.id) (bookResponse book file))) := by
  refine ⟨h.supports, h.fresh, h.apart, h.late, ?_⟩
  intro u b book' file' hc
  split at hc
  · next he =>
    obtain ⟨rfl, rfl⟩ := he
    cases hc
    refine ⟨hu, hb, hs, ?_⟩
    simp [Caches.find, Caches.edit, hi]
  · next hne =>
    obtain ⟨hu', hb', hs', hfind⟩ := h.held u b book' file' hc
    refine ⟨hu', hb', hs', ?_⟩
    obtain ⟨j, hj, hlookup⟩ := Option.bind_eq_some_iff.mp hfind
    simp only [Caches.find, Caches.edit, hj, Option.bind_some]
    by_cases hji : j = i
    · subst hji
      have hkey : cacheRequest b ≠ cacheRequest book.id := fun he =>
        hne ⟨cacheName_injective (h.apart _ _ j hj hi), cacheRequest_inj hb' hb he⟩
      rw [Function.update_self, AList.lookup_insert_ne hkey, hlookup]
    · rw [Function.update_of_ne hji, hlookup]

/-- An edit of an entry with a longer key, which is about a partial download. -/
theorem edit_long (h : Holding supported copies s) (i : Nat) {path : Path} (hpath : 3 < path.length)
    (f : Cache → Cache) (hf : ∀ cache p, p ≠ path → (f cache).lookup p = cache.lookup p) :
    Holding supported copies (s.edit i f) := by
  apply h.edit i f
  intro u b c hc _
  apply hf
  intro he
  have hlen := congrArg List.length he
  rw [cacheRequest_eq (h.held u b c.1 c.2 hc).2.1] at hlen
  simp at hlen
  omega

theorem addLate (h : Holding supported copies s) (i : Nat) {paths : List Path}
    (hlong : ∀ p ∈ paths, 3 < p.length) :
    Holding supported copies { s with late := s.late ++ paths.map (i, ·) } := by
  refine ⟨h.supports, h.fresh, h.apart, ?_, h.held⟩
  intro x hx
  rcases List.mem_append.mp hx with hx | hx
  · exact h.late x hx
  · obtain ⟨p, hp, rfl⟩ := List.mem_map.mp hx
    exact hlong p hp

theorem eraseName (h : Holding supported copies s) {name : Text}
    (hname : ∀ u b c, copies u b = some c → cacheName u ≠ name) :
    Holding supported copies { s with names := s.names.erase name } := by
  have hsub (other : Text) (i : Nat) (hi : (s.names.erase name).lookup other = some i) :
      s.names.lookup other = some i := by
    by_cases hn : other = name
    · subst hn
      simp at hi
    · rwa [AList.lookup_erase_ne hn] at hi
  refine ⟨h.supports, fun other i hi => h.fresh other i (hsub other i hi),
    fun other other' i hi hi' => h.apart other other' i (hsub other i hi) (hsub other' i hi'), h.late, ?_⟩
  intro u b book file hc
  obtain ⟨hu, hb, hs, hfind⟩ := h.held u b book file hc
  refine ⟨hu, hb, hs, ?_⟩
  simp only [Caches.find, AList.lookup_erase_ne (hname u b _ hc)]
  exact hfind

end Holding

/-! ## What the programs keep -/

section Programs

variable (supported : Bool) (copies : Copies)

theorem awaitCache_read {α : Type} (f : Caches → α) :
    Keeps (Holding supported copies) (awaitCache fun s => (f s, s)) :=
  awaitCache_keeps (fun _ landed h => h.land landed) (fun _ h => h)

theorem supportsOfflineBooks_keeps : Keeps (Holding supported copies) supportsOfflineBooks :=
  Keeps.atOnce fun _ h => h

theorem blob_keeps (response : Response) : Keeps (Holding supported copies) response.blob := by
  apply await_keeps (fun _ landed h => h.land landed)
  intro _ s h
  cases response.body with
  | blob bytes => exact h
  | json partialMeta => exact h

theorem json_keeps (response : Response) : Keeps (Holding supported copies) response.json := by
  apply await_keeps (fun _ landed h => h.land landed)
  intro _ s h
  cases response.body with
  | blob bytes => exact h
  | json partialMeta => exact h

theorem openCache_spec (name : Text) :
    Triple (Holding supported copies) (openCache name)
      (fun i s => Holding supported copies s ∧ s.names.lookup name = some i) (Holding supported copies) :=
  awaitCache_spec (fun _ landed h => h.land landed) (fun _ => id) (fun _ h => h.opened name)

theorem openCache_keeps (name : Text) : Keeps (Holding supported copies) (openCache name) :=
  (openCache_spec supported copies name).post fun _ _ h => h.1

theorem cachePut_keeps (cache : Nat) {path : Path} (hpath : 3 < path.length) (response : Response) :
    Keeps (Holding supported copies) (cachePut cache path response) := by
  apply awaitCache_keeps (fun _ landed h => h.land landed)
  intro s h
  exact h.edit_long cache hpath _ fun _ _ hp => AList.lookup_insert_ne hp

theorem deleteAll_keeps (cache : Nat) {paths : List Path} (hlong : ∀ p ∈ paths, 3 < p.length) :
    Keeps (Holding supported copies) (deleteAll cache paths) := by
  apply Keeps.seq
  · exact Keeps.atOnce fun s h => h.addLate cache hlong
  · intro _
    exact await_keeps (fun _ landed h => h.land landed) fun _ _ h => h.land _

theorem clearPartialBookDownload_keeps (userId bookId : Text) :
    Keeps (Holding supported copies) (clearPartialBookDownload userId bookId) := by
  apply (supportsOfflineBooks_keeps supported copies).seq
  intro supports
  split
  · exact Keeps.ret ()
  · apply (openCache_keeps supported copies _).seq
    intro cache
    apply (awaitCache_read supported copies _).seq
    intro requests
    apply deleteAll_keeps
    intro p hp
    exact startsWith_partialDownloadPath (List.mem_filter.mp hp).2

theorem readChunks_keeps (cache : Nat) (bookId : Text) (indices : List Nat) :
    Keeps (Holding supported copies) (readChunks cache bookId indices) := by
  induction indices with
  | nil => exact Keeps.ret _
  | cons index rest ih =>
      apply (awaitCache_read supported copies _).seq
      rintro (_ | response)
      · exact Keeps.ret _
      · apply (blob_keeps supported copies response).seq
        intro chunk
        apply ih.seq
        rintro (_ | chunks)
        · exact Keeps.ret _
        · exact Keeps.ret _

theorem readPartialBookDownload_keeps (userId bookId : Text) :
    Keeps (Holding supported copies) (readPartialBookDownload userId bookId) := by
  have hclear : Keeps (Holding supported copies) (do
      clearPartialBookDownload userId bookId
      return (none : Option PartialBookDownload)) :=
    (clearPartialBookDownload_keeps supported copies userId bookId).seq fun _ => Keeps.ret _
  apply (openCache_keeps supported copies _).seq
  intro cache
  apply (awaitCache_read supported copies _).seq
  rintro (_ | metaResponse)
  · exact Keeps.ret _
  · apply (json_keeps supported copies metaResponse).seq
    intro partialMeta
    split
    · exact hclear
    · apply (readChunks_keeps supported copies cache bookId _).seq
      rintro (_ | chunks)
      · exact hclear
      · dsimp only
        split
        · exact Keeps.ret _
        · exact hclear

theorem getPartialBookDownload_keeps (userId bookId : Text) :
    Keeps (Holding supported copies) (getPartialBookDownload userId bookId) := by
  apply (supportsOfflineBooks_keeps supported copies).seq
  intro supports
  split
  · exact Keeps.ret _
  · exact (readPartialBookDownload_keeps supported copies userId bookId).attempt.seq fun _ => Keeps.ret _

/-- A writer is about the book that it was made for. -/
theorem createPartialBookDownloadWriter_spec (userId bookId : Text) (totalBytes : Option Nat)
    (contentType : Text) (initialDownload : Option (Option PartialBookDownload)) (etag : Option Text) :
    Triple (Holding supported copies)
      (createPartialBookDownloadWriter userId bookId totalBytes contentType initialDownload etag)
      (fun result s => Holding supported copies s ∧ ∀ writer ∈ result, writer.bookId = bookId)
        (Holding supported copies) := by
  apply Triple.seq (supportsOfflineBooks_keeps supported copies)
  intro supports
  split
  · exact fun _ _ h => ⟨h, by simp⟩
  · apply Triple.seq (openCache_keeps supported copies _)
    intro cache
    cases initialDownload with
    | some download => exact fun _ _ h => ⟨h, by simp⟩
    | none =>
        apply Triple.seq (awaitCache_read supported copies _)
        rintro (_ | response)
        · exact fun _ _ h => ⟨h, by simp⟩
        · exact Triple.seq (json_keeps supported copies response) fun _ _ _ h => ⟨h, by simp⟩

theorem append_keeps {writer : PartialBookDownloadWriter} (hid : PlainID writer.bookId) (chunk : Blob) :
    Keeps (Holding supported copies) (writer.append chunk) := by
  unfold PartialBookDownloadWriter.append
  split
  · exact Keeps.ret _
  · have hcheck : Keeps (Holding supported copies) writer.checkCapacity := by
      unfold PartialBookDownloadWriter.checkCapacity
      split
      · exact awaitCache_read supported copies _
      · exact Keeps.ret _
    apply hcheck.seq
    intro _
    apply (cachePut_keeps supported copies _ _ _).seq
    · intro _
      apply (cachePut_keeps supported copies _ _ _).seq
      · intro _
        exact Keeps.ret _
      · simp [partialDownloadMetaRequest_eq hid, partialDownloadPath]
    · simp [partialDownloadChunkRequest_eq hid, partialDownloadPath]

theorem appendPartialBookDownload_keeps {bookId : Text} (hid : PlainID bookId) (userId : Text)
    (chunk : Blob) (totalBytes : Option Nat) (contentType : Text) :
    Keeps (Holding supported copies)
      (appendPartialBookDownload userId bookId chunk totalBytes contentType) := by
  apply (supportsOfflineBooks_keeps supported copies).seq
  intro supports
  split
  · exact Keeps.ret ()
  · apply (createPartialBookDownloadWriter_spec supported copies userId bookId totalBytes
      contentType none none).seq
    rintro (_ | writer)
    · exact fun _ _ h => h.1
    · have hrest (hwriter : writer.bookId = bookId) : Keeps (Holding supported copies) (do
          let _ ← writer.append chunk) :=
        (append_keeps supported copies (hwriter ▸ hid) chunk).seq fun _ => Keeps.ret ()
      exact fun script s h => hrest (h.2 writer rfl) script s h.1

theorem getOfflineBookEntry_keeps (userId bookId : Text) (expected : Option Text) :
    Keeps (Holding supported copies) (getOfflineBookEntry userId bookId expected) := by
  apply (supportsOfflineBooks_keeps supported copies).seq
  intro supports
  split
  · exact Keeps.ret _
  · apply (openCache_keeps supported copies _).seq
    intro cache
    apply (awaitCache_read supported copies _).seq
    rintro (_ | response)
    · exact Keeps.ret _
    · dsimp only
      split
      · exact Keeps.ret _
      · apply (blob_keeps supported copies response).seq
        intro blob
        split
        · exact Keeps.raise
        · exact Keeps.ret _
        · exact Keeps.ret _

theorem install_keeps (version : Text) (fetched : Path → Response) :
    Keeps (Holding supported copies) (install version fetched) := by
  apply (openCache_spec supported copies _).seq
  intro cache
  -- The store of a release is the store of no user.
  have hadd : Triple
      (fun s => Holding supported copies s ∧ s.names.lookup (staticCacheName version) = some cache)
      (addAll cache fetched) (fun _ s => Holding supported copies s ∧
        s.names.lookup (staticCacheName version) = some cache) (fun s => Holding supported copies s ∧
        s.names.lookup (staticCacheName version) = some cache) := by
    apply awaitCache_keeps
    · exact fun _ landed h => Holding.land_name h landed
    · intro s h
      have hedit := h.1.edit cache (fun entries =>
        staticAssets.foldl (fun entries path => entries.insert path (fetched path)) entries) (by
          intro u b c _ hu
          have hname := h.1.apart _ _ cache hu h.2
          exact absurd (hname ▸ List.prefix_append _ _) (cacheName_not_static u))
      exact ⟨hedit, h.2⟩
  exact hadd.mono (fun _ h => h) (fun _ _ h => h.1) (fun _ h => h.1)

theorem deleteNames_keeps (names : List Text) (hnames : ∀ name ∈ names, IsStatic name) :
    Keeps (Holding supported copies) (deleteNames names) := by
  induction names with
  | nil => exact Keeps.ret ()
  | cons name names ih =>
      have hdelete : Keeps (Holding supported copies) (cachesDelete name) := by
        apply awaitCache_keeps (fun _ landed h => h.land landed)
        intro s h
        apply h.eraseName
        intro u _ _ _ he
        exact cacheName_not_static u (he ▸ hnames name (by simp))
      apply hdelete.attempt.seq
      intro _
      exact ih fun other hother => hnames other (List.mem_cons_of_mem name hother)

theorem saveOfflineBook_spec {userId : Text} {book : Book} (file : Blob) (hu : userId ≠ [])
    (hb : PlainID book.id) :
    Triple (Holding supported copies) (saveOfflineBook userId book file)
      (fun _ => Holding supported
        (fun u b => if u = userId ∧ b = book.id then some (book, file) else copies u b))
      (Holding supported copies) := by
  have hguard : Triple (Holding supported copies) supportsOfflineBooks
      (fun supports s => supports = supported ∧ Holding supported copies s) (Holding supported copies) :=
    Triple.atOnce fun _ h => ⟨h.supports, h⟩
  apply hguard.seq
  intro supports
  split
  · exact fun _ _ h => h.2
  · next hsupports =>
    apply Triple.of_pure
    intro hs
    have hs' : supported = true := by simpa [← hs] using hsupports
    apply Triple.seq (awaitCache_read supported copies _)
    intro _
    apply (openCache_spec supported copies _).seq
    intro cache
    apply awaitCache_spec
    · exact fun _ landed h => Holding.land_name h landed
    · exact fun _ h => h.1
    · exact fun _ h => h.1.store file hu hb hs' h.2

/-- Removing a copy that is not counted on keeps the others. -/
theorem removeOfflineBook_keeps {userId bookId : Text} (hb : PlainID bookId)
    (hcopy : copies userId bookId = none) :
    Keeps (Holding supported copies) (removeOfflineBook userId bookId) := by
  apply (supportsOfflineBooks_keeps supported copies).seq
  intro supports
  split
  · exact Keeps.ret ()
  · have hdelete (cache : Nat) : Triple
        (fun s => Holding supported copies s ∧ s.names.lookup (cacheName userId) = some cache)
        (cacheDelete cache (cacheRequest bookId)) (fun _ => Holding supported copies)
        (Holding supported copies) := by
      have hkeeps : Keeps
          (fun s => Holding supported copies s ∧ s.names.lookup (cacheName userId) = some cache)
          (cacheDelete cache (cacheRequest bookId)) := by
        apply awaitCache_keeps
        · exact fun _ landed h => Holding.land_name h landed
        · intro s h
          have hedit := h.1.edit cache (·.erase (cacheRequest bookId)) (by
            intro u b c hc hu
            apply AList.lookup_erase_ne
            intro he
            have hname := cacheName_injective (h.1.apart _ _ cache hu h.2)
            have hkey := cacheRequest_inj (h.1.held u b c.1 c.2 hc).2.1 hb he
            rw [hname, hkey, hcopy] at hc
            cases hc)
          exact ⟨hedit, h.2⟩
      exact hkeeps.mono (fun _ h => h) (fun _ _ h => h.1) (fun _ h => h.1)
    apply (openCache_spec supported copies _).seq
    intro cache
    apply (hdelete cache).seq
    intro _
    exact clearPartialBookDownload_keeps supported copies userId bookId

theorem clearOfflineBooks_keeps {userId : Option Text} (hcopies : ∀ b, copies (userId.getD []) b = none) :
    Keeps (Holding supported copies) (clearOfflineBooks userId) := by
  apply (supportsOfflineBooks_keeps supported copies).seq
  intro supports
  split
  · exact Keeps.ret ()
  · apply awaitCache_keeps (fun _ landed h => h.land landed)
    intro s h
    apply h.eraseName
    intro u b c hc he
    rw [cacheName_injective he, hcopies b] at hc
    cases hc

theorem activate_spec (version : Text) :
    Triple (fun s => Holding supported copies s ∧ Spares s (.activate version)) (activate version)
      (fun _ => Holding supported copies) (Holding supported copies) := by
  have hkeys : Triple (fun s => Holding supported copies s ∧ Spares s (.activate version)) cachesKeys
      (fun names s => Holding supported copies s ∧ ∀ name ∈ names, IsStatic name)
      (Holding supported copies) := by
    apply awaitCache_spec
    · intro s landed h
      refine ⟨h.1.land landed, ?_⟩
      rw [Spares, (s.land_names landed).1]
      exact h.2
    · exact fun _ h => h.1
    · exact fun _ h => h
  apply hkeys.seq
  intro names script s h
  exact deleteNames_keeps supported copies _
    (fun name hname => h.2 name (List.mem_of_mem_filter hname)) script s h.1

end Programs

/-! ## Runs keep the copies -/

theorem Session.after_holding {supported : Bool} {s : Session} {event : Event}
    (h : Holding supported s.copies s.caches) (hv : event.Valid) (hs : Spares s.caches event)
    (script : List Turn) :
    Holding supported (s.after event script).copies (s.after event script).caches := by
  have hsame {m : Page Unit} (hm : Keeps (Holding supported s.copies) m) :
      Holding supported s.copies (m script s.caches).2.2 := hm.final script h
  cases event with
  | saveOfflineBook userId book file =>
      have hrun := saveOfflineBook_spec supported s.copies file hv.1 hv.2 script s.caches h
      simp only [after, Event.run, Event.recorded]
      rcases hexit : saveOfflineBook userId book file script s.caches with ⟨_ | _ | _, rest, s'⟩ <;>
        (rw [hexit] at hrun; exact hrun)
  | getOfflineBook userId bookId expected =>
      apply hsame
      apply Keeps.seq
      · exact (getOfflineBookEntry_keeps supported s.copies userId bookId expected).seq
          fun _ => Keeps.ret _
      · exact fun _ => Keeps.ret ()
  | removeOfflineBook userId bookId =>
      have hforget : Holding supported
          (fun u b => if u = userId ∧ b = bookId then none else s.copies u b) s.caches := by
        apply h.forget
        intro u b c hc
        split at hc
        · cases hc
        · exact hc
      exact (removeOfflineBook_keeps supported _ hv (if_pos ⟨rfl, rfl⟩)).final script hforget
  | clearOfflineBooks userId =>
      have hforget : Holding supported
          (fun u b => if u = userId.getD [] then none else s.copies u b) s.caches := by
        apply h.forget
        intro u b c hc
        split at hc
        · cases hc
        · exact hc
      exact (clearOfflineBooks_keeps supported _ fun _ => if_pos rfl).final script hforget
  | getPartialBookDownload userId bookId =>
      exact hsame ((getPartialBookDownload_keeps supported s.copies userId bookId).seq
        fun _ => Keeps.ret ())
  | appendPartialBookDownload userId bookId chunk totalBytes contentType =>
      exact hsame (appendPartialBookDownload_keeps supported s.copies hv userId chunk totalBytes
        contentType)
  | createPartialBookDownloadWriter userId bookId totalBytes contentType initialDownload etag =>
      apply hsame
      apply Triple.seq
      · exact (createPartialBookDownloadWriter_spec supported s.copies userId bookId totalBytes
          contentType initialDownload etag).post fun _ _ h => h.1
      · exact fun _ => Keeps.ret ()
  | append writer chunk =>
      exact hsame ((append_keeps supported s.copies hv chunk).seq fun _ => Keeps.ret ())
  | clearPartialBookDownload userId bookId =>
      exact hsame (clearPartialBookDownload_keeps supported s.copies userId bookId)
  | install version fetched => exact hsame (install_keeps supported s.copies version fetched)
  | activate version =>
      have hrun := activate_spec supported s.copies version script s.caches ⟨h, hs⟩
      simp only [after, Event.run, Event.recorded]
      rcases hexit : activate version script s.caches with ⟨_ | _ | _, rest, s'⟩ <;>
        (rw [hexit] at hrun; exact hrun)

theorem Session.Reached.holding {s : Session} (h : s.Reached Spares) :
    ∃ supported, Holding supported s.copies s.caches := by
  apply Reachable.invariant (fun s : Session => ∃ supported, Holding supported s.copies s.caches) _ _ h
  · rintro s ⟨supported, rfl⟩
    exact ⟨supported, Holding.empty supported⟩
  · rintro s ⟨event, script⟩ t ⟨supported, hs⟩ ⟨hv, hspares, rfl⟩
    exact ⟨supported, Session.after_holding hs hv hspares script⟩

/-! ## What `getOfflineBook` answers -/

theorem getOfflineBookEntry_answers {supported : Bool} {copies : Copies} {s : Caches} {u b : Text}
    {book : Book} {file : Blob} (h : Holding supported copies s) (hc : copies u b = some (book, file))
    {expected : Option Text} (hexpected : ∀ e ∈ expected, e ≠ [] ∧ book.contentHash.getD [] = e) :
    Answers (getOfflineBookEntry u b expected) s
      (some ⟨⟨file.bytes, orElse file.type octetStream⟩,
        if book.filename = [] then b ++ ".epub".toList else book.filename, book.contentHash.getD []⟩) := by
  rintro (_ | ⟨t₁, _ | ⟨t₂, _ | ⟨t₃, script⟩⟩⟩) hlen hok
  · simp at hlen
  · simp at hlen
  · simp at hlen
  · obtain ⟨hu, -, hs, -⟩ := h.held u b book file hc
    have h₁ := (h.land t₁.landed).opened (cacheName u)
    have h₂ := Holding.land_name h₁ t₂.landed
    have hsupports (script : List Turn) : supportsOfflineBooks script s = (.value true, script, s) := by
      rw [supportsOfflineBooks, Program.atOnce, h.supports, hs]
    have hopen := openCache_run (cacheName u) (hok t₁ (by simp)) (t₂ :: t₃ :: script) s
    rw [getOfflineBookEntry, Program.bind_run (hsupports _), if_neg (by simp [hu]), Program.bind_run hopen]
    generalize (s.land t₁.landed).opened (cacheName u) = opened at h₂ ⊢
    obtain ⟨-, -, -, hfind⟩ := h₂.1.held u b book file hc
    rw [Caches.find, h₂.2, Option.bind_some] at hfind
    have hmatch := cacheMatch_run opened.1 (cacheRequest b) (hok t₂ (by simp)) (t₃ :: script) opened.2
    rw [hfind] at hmatch
    have hhash : ¬ ∃ e ∈ expected, e = [] ∨ (bookResponse book file).contentHash.getD [] ≠ e := by
      rintro ⟨e, he, h | h⟩
      · exact (hexpected e he).1 h
      · exact h (hexpected e he).2
    have hblob := Response.blob_run (r := bookResponse book file) rfl (hok t₃ (by simp)) script
      (opened.2.land t₂.landed)
    rw [Program.bind_run hmatch]
    dsimp only
    rw [if_neg hhash, Program.bind_run hblob]
    have htype : orElse (bookResponse book file).contentType octetStream =
        orElse file.type octetStream := by
      simp only [bookResponse, orElse]
      split
      · rfl
      · rfl
    by_cases hname : book.filename = []
    · have hnone : ((bookResponse book file).filename.filter (· ≠ [])).map decodeURIComponent = none := by
        simp [bookResponse, hname, encodeURIComponent]
      rw [hnone, if_pos hname]
      dsimp only
      rw [htype]
      rfl
    · have hencoded : encodeURIComponent book.filename ≠ [] := fun he =>
        hname (encodeURIComponent_injective he)
      have hsome : ((bookResponse book file).filename.filter (· ≠ [])).map decodeURIComponent =
          some (some book.filename) := by
        simp [bookResponse, Option.filter, hencoded, decodeURIComponent_encodeURIComponent]
      rw [hsome, if_neg hname]
      dsimp only
      rw [htype]
      rfl

/-- A user without a cache has no copies. -/
theorem getOfflineBookEntry_absent {s : Caches} {u : Text} (h : s.names.lookup (cacheName u) = none)
    (b : Text) (expected : Option Text) : Answers (getOfflineBookEntry u b expected) s none := by
  rintro (_ | ⟨t₁, _ | ⟨t₂, script⟩⟩) hlen hok
  · simp at hlen
  · simp at hlen
  · have hsupports : supportsOfflineBooks (t₁ :: t₂ :: script) s =
        (.value s.supported, t₁ :: t₂ :: script, s) := rfl
    rw [getOfflineBookEntry, Program.bind_run hsupports]
    split
    · rfl
    · have hopen := openCache_run (cacheName u) (hok t₁ (by simp)) (t₂ :: script) s
      have hfresh : ((((s.land t₁.landed).opened (cacheName u)).2.stores
          ((s.land t₁.landed).opened (cacheName u)).1).lookup (cacheRequest b)) = none := by
        unfold Caches.opened
        rw [(s.land_names t₁.landed).1, h]
        simp
      rw [Program.bind_run hopen]
      generalize (s.land t₁.landed).opened (cacheName u) = opened at hfresh ⊢
      have hmatch := cacheMatch_run opened.1 (cacheRequest b) (hok t₂ (by simp)) script opened.2
      have hnone : ((opened.2.land t₂.landed).stores opened.1).lookup (cacheRequest b) = none := by
        rcases opened.2.land_lookup t₂.landed opened.1 (cacheRequest b) with hsame | ⟨-, hnone⟩
        · exact hsame.trans hfresh
        · exact hnone
      rw [hnone] at hmatch
      rw [Program.bind_run hmatch]
      rfl

/-- `getOfflineBook` gives the file of the entry. -/
theorem getOfflineBook_of_entry {s : Caches} {u b : Text} {expected : Option Text}
    {answer : Option OfflineBookEntry} (h : Answers (getOfflineBookEntry u b expected) s answer) :
    Answers (getOfflineBook u b expected) s (answer.map (·.file)) := by
  intro script hlen hok
  have hentry := h script hlen hok
  rcases hrun : getOfflineBookEntry u b expected script s with ⟨entry | _ | _, rest, s'⟩
  · rw [hrun] at hentry
    cases hentry
    rw [getOfflineBook, Program.bind_run hrun]
    rfl
  · rw [hrun] at hentry
    cases hentry
  · rw [hrun] at hentry
    cases hentry

/-! ## What an activation removes -/

/-- The names that are not to be deleted stay. -/
theorem deleteNames_spares {name : Text} {names : List Text} (h : name ∉ names) :
    Keeps (fun s => name ∈ s.names) (deleteNames names) := by
  induction names with
  | nil => exact Keeps.ret ()
  | cons other names ih =>
      have hne := List.ne_of_not_mem_cons h
      have hrest := List.not_mem_of_not_mem_cons h
      have hdelete : Keeps (fun s : Caches => name ∈ s.names) (cachesDelete other) := by
        apply awaitCache_keeps
        · intro s landed hs
          rwa [(s.land_names landed).1]
        · intro s hs
          exact AList.mem_erase.mpr ⟨hne, hs⟩
      apply hdelete.attempt.seq
      intro _
      exact ih hrest

/-- Where no delete fails, the names are gone. -/
theorem deleteNames_run (names : List Text) (turn : Turn) (hok : turn.ok = true) (s : Caches) :
    ∀ name ∈ (deleteNames names (List.replicate names.length turn) s).2.2.names,
      name ∈ s.names ∧ name ∉ names := by
  induction names generalizing s with
  | nil => exact fun name hname => ⟨hname, List.not_mem_nil⟩
  | cons other names ih =>
      have hdelete : (cachesDelete other).attempt (turn :: List.replicate names.length turn) s =
          (.value (some ()), List.replicate names.length turn,
            { s.land turn.landed with names := (s.land turn.landed).names.erase other }) :=
        Program.attempt_run (awaitCache_run _ hok _ s)
      intro name hname
      rw [deleteNames, List.length_cons, List.replicate_succ, Program.bind_run hdelete] at hname
      obtain ⟨herase, hnot⟩ := ih _ name hname
      obtain ⟨hne, hmem⟩ := AList.mem_erase.mp herase
      rw [(s.land_names turn.landed).1] at hmem
      exact ⟨hmem, List.not_mem_cons_of_ne_of_not_mem hne hnot⟩

/-- An activation in which nothing fails. -/
def smooth (s : Caches) (version : Text) : List Turn :=
  let turn : Turn := ⟨[], true, 0, false, 0⟩
  turn :: List.replicate (s.names.keys.filter (· ≠ staticCacheName version)).length turn

theorem cachesKeys_run {turn : Turn} (h : turn.ok = true) (script : List Turn) (s : Caches) :
    cachesKeys (turn :: script) s = (.value s.names.keys, script, s.land turn.landed) := by
  rw [cachesKeys, awaitCache_run _ h, (s.land_names turn.landed).1]

theorem activate_smooth (s : Caches) (version : Text) :
    ∀ name ∈ (activate version (smooth s version) s).2.2.names,
      name ∈ s.names ∧ name = staticCacheName version := by
  intro name hname
  rw [activate, smooth, Program.bind_run (cachesKeys_run rfl _ _)] at hname
  obtain ⟨hmem, hnot⟩ := deleteNames_run _ _ rfl _ name hname
  rw [(s.land_names _).1] at hmem
  refine ⟨hmem, ?_⟩
  by_contra hne
  exact hnot (List.mem_filter.mpr ⟨hmem, by simpa using hne⟩)

theorem activate_removes (s : Caches) (version : Text) :
    (∀ script, ∀ name ∈ s.names, name ∉ (activate version script s).2.2.names →
      IsStatic name ∧ name ≠ staticCacheName version) ↔ Spares s (.activate version) := by
  constructor
  · intro h name hname
    by_cases hown : name = staticCacheName version
    · exact hown ▸ List.prefix_append _ _
    · apply (h (smooth s version) name hname _).1
      exact fun hmem => hown (activate_smooth s version name hmem).2
  · intro hspares script name hname hgone
    refine ⟨hspares name hname, ?_⟩
    rintro rfl
    apply hgone
    have hread : Keeps (fun s : Caches => staticCacheName version ∈ s.names) cachesKeys := by
      apply awaitCache_keeps
      · intro s landed hs
        rwa [(s.land_names landed).1]
      · exact fun _ hs => hs
    refine (hread.seq fun names => ?_).final script hname
    exact deleteNames_spares (by simp)

/-! ## Copies and releases -/

/-- In runs where every activation finds the caches of releases only, a copy that was saved
is returned until it is removed, cleared or saved anew. An activation removes the caches of
older releases and nothing else if and only if it finds the caches of releases only, and it
removes every copy that there is where none of its deletes fails. -/
theorem offline_copies_survive {s : Session} (hreach : s.Reached Spares) :
    (∀ u b book file, s.copies u b = some (book, file) →
      Answers (getOfflineBook u b none) s.caches (some ⟨file.bytes, orElse file.type octetStream⟩) ∧
      ∃ entry, entry.file.bytes = file.bytes ∧ entry.contentHash = book.contentHash.getD [] ∧
        Answers (getOfflineBookEntry u b none) s.caches (some entry) ∧
        (entry.contentHash ≠ [] →
          Answers (getOfflineBookEntry u b (some entry.contentHash)) s.caches (some entry))) ∧
    ∀ version,
      ((∀ script, ∀ name ∈ s.caches.names, name ∉ (activate version script s.caches).2.2.names →
          IsStatic name ∧ name ≠ staticCacheName version) ↔ Spares s.caches (.activate version)) ∧
      ∀ u b, Answers (getOfflineBook u b none)
        (s.after (.activate version) (smooth s.caches version)).caches none := by
  obtain ⟨supported, h⟩ := hreach.holding
  constructor
  · intro u b book file hc
    have hentry : Answers (getOfflineBookEntry u b none) s.caches _ :=
      getOfflineBookEntry_answers h hc (by simp)
    refine ⟨getOfflineBook_of_entry hentry, _, ?_, ?_, hentry, ?_⟩
    · rfl
    · rfl
    · intro hhash
      apply getOfflineBookEntry_answers h hc
      simpa using hhash
  · intro version
    refine ⟨activate_removes s.caches version, fun u b => ?_⟩
    refine getOfflineBook_of_entry (getOfflineBookEntry_absent ?_ b none)
    rw [AList.lookup_eq_none]
    intro hmem
    have hname := (activate_smooth s.caches version _ hmem).2
    exact cacheName_not_static u (hname ▸ List.prefix_append _ _)

/-- A copy is saved after a release was installed and activated. -/
theorem offline_copies_survive_release : ∃ s : Session, s.Reached Spares ∧
    s.copies ['u'] ['b'] = some (⟨['b'], ['f'], some ['h']⟩, ⟨[1, 2], ['t']⟩) ∧
    Answers (getOfflineBook ['u'] ['b'] none) s.caches (some ⟨[1, 2], ['t']⟩) := by
  let turn : Turn := ⟨[], true, 0, false, 0⟩
  let s₀ : Session := ⟨.empty true, fun _ _ => none⟩
  let s₁ := s₀.after (.install ['1'] fun _ => blobResponse ⟨[], []⟩) [turn, turn]
  let s₂ := s₁.after (.activate ['1']) [turn]
  let s₃ := s₂.after (.saveOfflineBook ['u'] ⟨['b'], ['f'], some ['h']⟩ ⟨[1, 2], ['t']⟩)
    [turn, turn, turn]
  have h₀ : s₀.Reached Spares := .start ⟨true, rfl⟩
  have hspares : Spares s₁.caches (.activate ['1']) := by
    have hkeys : s₁.caches.names.keys = [staticCacheName ['1']] := by decide +kernel
    intro name hname
    rw [hkeys, List.mem_singleton] at hname
    exact hname ▸ List.prefix_append _ _
  have h₁ : s₁.Reached Spares := by
    refine h₀.after ?_ ?_ _
    · exact trivial
    · exact trivial
  have h₂ : s₂.Reached Spares := by
    refine h₁.after ?_ ?_ _
    · exact trivial
    · exact hspares
  have h₃ : s₃.Reached Spares := by
    refine h₂.after ?_ ?_ _
    · exact ⟨by decide, by decide⟩
    · exact trivial
  have hcopy : s₃.copies ['u'] ['b'] = some (⟨['b'], ['f'], some ['h']⟩, ⟨[1, 2], ['t']⟩) := rfl
  exact ⟨s₃, h₃, hcopy, ((offline_copies_survive h₃).1 _ _ _ _ hcopy).1⟩

/-- The first release after a save deletes the copy. -/
theorem offline_copy_deleted_by_release : ∃ s : Session, s.Reached (fun _ _ => True) ∧
    s.copies ['u'] ['b'] = some (⟨['b'], ['f'], some ['h']⟩, ⟨[1, 2], ['t']⟩) ∧
    Answers (getOfflineBook ['u'] ['b'] none) s.caches none := by
  let turn : Turn := ⟨[], true, 0, false, 0⟩
  let s₀ : Session := ⟨.empty true, fun _ _ => none⟩
  let s₁ := s₀.after (.saveOfflineBook ['u'] ⟨['b'], ['f'], some ['h']⟩ ⟨[1, 2], ['t']⟩) [turn, turn, turn]
  let s₂ := s₁.after (.activate ['1']) [turn, turn]
  have h₀ : s₀.Reached (fun _ _ => True) := .start ⟨true, rfl⟩
  have h₁ : s₁.Reached (fun _ _ => True) := by
    refine h₀.after ?_ ?_ _
    · exact ⟨by decide, by decide⟩
    · exact trivial
  have h₂ : s₂.Reached (fun _ _ => True) := by
    refine h₁.after ?_ ?_ _
    · exact trivial
    · exact trivial
  have hgone : s₂.caches.names.lookup (cacheName ['u']) = none := by decide +kernel
  exact ⟨s₂, h₂, rfl, getOfflineBook_of_entry (getOfflineBookEntry_absent hgone _ none)⟩

end ZReader.Frontend.Offline
