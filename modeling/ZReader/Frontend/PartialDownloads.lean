import ZReader.Frontend.OfflineBooks

namespace ZReader.Frontend.Offline

open Lib.Scripted

namespace Caches

/-! ## What deletes leave -/

/-- The cache of a name holds nothing that it did not hold before, in the same store. -/
structure Below (name : Text) (s s₀ : Caches) : Prop where
  find : ∀ path r, s.find name path = some r → s₀.find name path = some r
  store : ∀ i, s₀.names.lookup name = some i → s.names.lookup name = some i

namespace Below

variable {name : Text} {s s₀ s₁ : Caches}

theorem refl (name : Text) (s : Caches) : Below name s s := ⟨fun _ _ h => h, fun _ h => h⟩

theorem trans (h : Below name s s₁) (h₁ : Below name s₁ s₀) : Below name s s₀ :=
  ⟨fun path r hr => h₁.find path r (h.find path r hr), fun i hi => h.store i (h₁.store i hi)⟩

theorem land (name : Text) (s : Caches) (landed : List (Nat × Path)) : Below name (s.land landed) s := by
  have hnames := (s.land_names landed).1
  constructor
  · intro path r hr
    rw [Caches.find, hnames] at hr
    obtain ⟨i, hi, hlookup⟩ := Option.bind_eq_some_iff.mp hr
    rcases s.land_lookup landed i path with hsame | ⟨-, hnone⟩
    · rw [Caches.find, hi, Option.bind_some, ← hsame, hlookup]
    · rw [hnone] at hlookup
      cases hlookup
  · intro i hi
    rw [hnames, hi]

theorem opened (name : Text) (s : Caches) : Below name (s.opened name).2 s := by
  unfold Caches.opened
  split
  · exact refl name s
  · next hnone =>
    constructor
    · intro path r hr
      simp [Caches.find] at hr
    · intro i hi
      rw [hnone] at hi
      cases hi

end Below

theorem opened_lookup (s : Caches) (name : Text) :
    (s.opened name).2.names.lookup name = some (s.opened name).1 := by
  unfold opened
  split
  · next i hi => exact hi
  · simp

theorem find_of_lookup {s : Caches} {name : Text} {i : Nat} (h : s.names.lookup name = some i)
    (path : Path) :
    s.find name path = (s.stores i).lookup path := by
  rw [find, h, Option.bind_some]

theorem find_insert {s : Caches} {name : Text} {i : Nat} (h : s.names.lookup name = some i)
    (path path' : Path) (r : Response) :
    (s.edit i (·.insert path r)).find name path' = if path' = path then some r else s.find name path' := by
  have h' : (s.edit i (·.insert path r)).names.lookup name = some i := h
  have hstore : (s.edit i (·.insert path r)).stores i = (s.stores i).insert path r :=
    Function.update_self i _ s.stores
  rw [find_of_lookup h, find_of_lookup h', hstore]
  split
  · next he => rw [he, AList.lookup_insert]
  · next hne => exact AList.lookup_insert_ne hne

end Caches

open Caches

/-- A property of the cache of a name that deletes cannot break. -/
def Stable (name : Text) (X : Caches → Prop) : Prop := ∀ s s₀, Below name s s₀ → X s₀ → X s

theorem Stable.and {name : Text} {X Y : Caches → Prop} (hX : Stable name X) (hY : Stable name Y) :
    Stable name fun s => X s ∧ Y s := fun s s₀ h hs => ⟨hX s s₀ h hs.1, hY s s₀ h hs.2⟩

theorem stable_lookup (name : Text) (i : Nat) : Stable name fun s => s.names.lookup name = some i :=
  fun _ _ h hi => h.store i hi

/-- An entry that is there has this body. -/
def Known (name : Text) (path : Path) (body : Body) (s : Caches) : Prop :=
  ∀ r, s.find name path = some r → r.body = body

theorem stable_known (name : Text) (path : Path) (body : Body) : Stable name (Known name path body) :=
  fun _ _ h hs r hr => hs r (h.find path r hr)

/-! ## Reads and deletes -/

section Reads

variable {name : Text} {X : Caches → Prop}

theorem Stable.land (hX : Stable name X) (s : Caches) (landed : List (Nat × Path)) (h : X s) :
    X (s.land landed) := hX _ s (Below.land name s landed) h

theorem supportsOfflineBooks_stable (X : Caches → Prop) : Keeps X supportsOfflineBooks :=
  Keeps.atOnce fun _ h => h

theorem read_stable (hX : Stable name X) {α : Type} (f : Caches → α) :
    Keeps X (awaitCache fun s => (f s, s)) :=
  awaitCache_keeps (fun s landed h => hX.land s landed h) (fun _ h => h)

theorem openCache_stable (hX : Stable name X) :
    Triple X (openCache name) (fun i s => X s ∧ s.names.lookup name = some i) X :=
  awaitCache_spec (fun s landed h => hX.land s landed h) (fun _ => id)
    (fun s h => ⟨hX _ s (Below.opened name s) h, s.opened_lookup name⟩)

theorem cacheMatch_stable (hX : Stable name X) {cache : Nat} (path : Path)
    (hcache : ∀ s, X s → s.names.lookup name = some cache) :
    Triple X (cacheMatch cache path) (fun r s => X s ∧ s.find name path = r) X :=
  awaitCache_spec (fun s landed h => hX.land s landed h) (fun _ => id)
    (fun s h => ⟨h, find_of_lookup (hcache s h) path⟩)

theorem blob_stable (hX : Stable name X) (response : Response) :
    Triple X response.blob (fun blob s => X s ∧ response.body = .blob blob.bytes) X := by
  apply await_spec (fun s landed h => hX.land s landed h) (fun _ => id)
  · intro _ s blob h hblob
    cases hbody : response.body with
    | blob bytes =>
        rw [hbody] at hblob
        cases hblob
        exact ⟨h, rfl⟩
    | json partialMeta =>
        rw [hbody] at hblob
        cases hblob
  · intro _ s h _
    cases response.body with
    | blob bytes => exact h
    | json partialMeta => exact h

theorem json_stable (hX : Stable name X) (response : Response) :
    Triple X response.json (fun partialMeta s => X s ∧ response.body = .json partialMeta) X := by
  apply await_spec (fun s landed h => hX.land s landed h) (fun _ => id)
  · intro _ s partialMeta h hjson
    cases hbody : response.body with
    | blob bytes =>
        rw [hbody] at hjson
        cases hjson
    | json _ =>
        rw [hbody] at hjson
        cases hjson
        exact ⟨h, rfl⟩
  · intro _ s h _
    cases response.body with
    | blob bytes => exact h
    | json partialMeta => exact h

theorem deleteAll_stable (hX : Stable name X) (cache : Nat) (paths : List Path) :
    Keeps X (deleteAll cache paths) := by
  apply Keeps.seq
  · apply Keeps.atOnce
    intro s h
    exact hX _ s ⟨fun _ _ hr => hr, fun _ hi => hi⟩ h
  · intro _
    apply await_keeps (fun s landed h => hX.land s landed h)
    exact fun _ s h => hX.land s _ h

end Reads

theorem clearPartialBookDownload_stable {userId : Text} {X : Caches → Prop}
    (hX : Stable (cacheName userId) X) (bookId : Text) :
    Keeps X (clearPartialBookDownload userId bookId) := by
  apply (supportsOfflineBooks_stable X).seq
  intro supports
  split
  · exact Keeps.ret ()
  · apply Keeps.seq ((openCache_stable hX).post fun _ _ h => h.1)
    intro cache
    apply (read_stable hX _).seq
    intro requests
    exact deleteAll_stable hX cache _

/-! ## A record and the file it comes from -/

section File

variable (userId id : Text) (F : List UInt8)

/-- The first chunk may already belong to a new attempt. -/
def Fits (pieces : List (List UInt8)) (i : Nat) (bytes : List UInt8) : Prop :=
  pieces[i]? = some bytes ∨ i = 0 ∧ bytes <+: F

/-- The metadata counts pieces of a prefix of the file; the chunks that are there are these
pieces. -/
structure Laid (partialMeta : PartialBookDownloadMeta) (pieces : List (List UInt8))
    (s : Caches) : Prop where
  chunks : pieces.length = partialMeta.chunks
  downloadedBytes : pieces.flatten.length = partialMeta.downloadedBytes
  initial : pieces.flatten <+: F
  stored : ∀ i r, i < pieces.length →
    s.find (cacheName userId) (partialDownloadChunkRequest id i) = some r →
      ∃ bytes, r.body = .blob bytes ∧ Fits F pieces i bytes

/-- The invariant: whatever metadata is there counts pieces of the file. -/
def Sound (s : Caches) : Prop :=
  ∀ r, s.find (cacheName userId) (partialDownloadMetaRequest id) = some r →
    ∃ partialMeta pieces, r.body = .json partialMeta ∧ Laid userId id F partialMeta pieces s

/-- Metadata that is there counts `n` chunks. -/
def Counts (n : Nat) (s : Caches) : Prop :=
  ∀ r, s.find (cacheName userId) (partialDownloadMetaRequest id) = some r →
    ∃ partialMeta, r.body = .json partialMeta ∧ partialMeta.chunks = n

/-- The chunks of the list are those that are there. -/
def Holds (pieces : List (List UInt8)) (s : Caches) : Prop :=
  ∀ i bytes, pieces[i]? = some bytes →
    Known (cacheName userId) (partialDownloadChunkRequest id i) (.blob bytes) s

theorem stable_laid (partialMeta : PartialBookDownloadMeta) (pieces : List (List UInt8)) :
    Stable (cacheName userId) (Laid userId id F partialMeta pieces) := fun _ _ h hs =>
  ⟨hs.chunks, hs.downloadedBytes, hs.initial, fun i r hi hr => hs.stored i r hi (h.find _ r hr)⟩

theorem stable_sound : Stable (cacheName userId) (Sound userId id F) := by
  intro s s₀ h hs r hr
  obtain ⟨partialMeta, pieces, hbody, hlaid⟩ := hs r (h.find _ r hr)
  exact ⟨partialMeta, pieces, hbody, stable_laid userId id F partialMeta pieces s s₀ h hlaid⟩

theorem stable_counts (n : Nat) : Stable (cacheName userId) (Counts userId id n) :=
  fun _ _ h hs r hr => hs r (h.find _ r hr)

theorem stable_holds (pieces : List (List UInt8)) : Stable (cacheName userId) (Holds userId id pieces) :=
  fun s s₀ h hs i bytes hi => stable_known _ _ _ s s₀ h (hs i bytes hi)

/-- A record that continues the file: what it has read is still there or deleted. -/
structure Resumes (d : PartialBookDownload) (s : Caches) : Prop where
  initial : d.chunks.flatMap (·.bytes) <+: F
  downloadedBytes : (d.chunks.flatMap (·.bytes)).length = d.downloadedBytes
  pos : 0 < d.downloadedBytes
  holds : Holds userId id (d.chunks.map (·.bytes)) s
  counts : Counts userId id d.chunks.length s

theorem stable_resumes (d : PartialBookDownload) : Stable (cacheName userId) (Resumes userId id F d) :=
  fun s s₀ h hs => ⟨hs.initial, hs.downloadedBytes, hs.pos,
    stable_holds userId id _ s s₀ h hs.holds, stable_counts userId id _ s s₀ h hs.counts⟩

theorem stable_resuming (p : Option PartialBookDownload) :
    Stable (cacheName userId) fun s => Sound userId id F s ∧ ∀ d ∈ p, Resumes userId id F d s :=
  fun s s₀ h hs => ⟨stable_sound userId id F s s₀ h hs.1,
    fun d hd => stable_resumes userId id F d s s₀ h (hs.2 d hd)⟩

/-- Chunks that fit and have the size of the pieces are the pieces. -/
theorem eq_pieces {F : List UInt8} {pieces chunks : List (List UInt8)}
    (hlen : chunks.length = pieces.length)
    (hfits : ∀ i bytes, chunks[i]? = some bytes → Fits F pieces i bytes) (hinitial : pieces.flatten <+: F)
    (hsize : chunks.flatten.length = pieces.flatten.length) : chunks = pieces := by
  cases chunks with
  | nil => exact (List.length_eq_zero_iff.mp hlen.symm).symm
  | cons chunk chunks =>
      cases pieces with
      | nil => simp at hlen
      | cons piece pieces =>
          have htail : chunks = pieces := by
            apply List.ext_getElem?
            intro i
            have hlen' : chunks.length = pieces.length := by simpa using hlen
            by_cases hi : i < chunks.length
            · rcases hfits (i + 1) chunks[i] (by simp [hi]) with h | ⟨h, -⟩
              · rw [List.getElem?_cons_succ] at h
                rw [h, List.getElem?_eq_getElem hi]
              · omega
            · rw [List.getElem?_eq_none (by omega), List.getElem?_eq_none (by omega)]
          subst htail
          rcases hfits 0 chunk rfl with h | ⟨-, h⟩
          · rw [List.getElem?_cons_zero, Option.some.injEq] at h
            rw [h]
          · have hpiece : piece <+: F := (List.prefix_append piece _).trans hinitial
            have hlength : chunk.length = piece.length := by simpa using hsize
            rw [(List.prefix_of_prefix_length_le h hpiece hlength.le).eq_of_length hlength]

/-! ## `getPartialBookDownload` -/

/-- Chunks read from index `k` on. -/
def ReadFrom (fits : Nat → List UInt8 → Prop) (k : Nat) (chunks : List Blob) (s : Caches) : Prop :=
  ∀ i chunk, chunks[i]? = some chunk → fits (k + i) chunk.bytes ∧
    Known (cacheName userId) (partialDownloadChunkRequest id (k + i)) (.blob chunk.bytes) s

theorem readChunks_spec {X : Caches → Prop} {fits : Nat → List UInt8 → Prop} {cache k n : Nat}
    (hX : Stable (cacheName userId) X) (hcache : ∀ s, X s → s.names.lookup (cacheName userId) = some cache)
    (hfits : ∀ s, X s → ∀ i r, k ≤ i → i < k + n →
      s.find (cacheName userId) (partialDownloadChunkRequest id i) = some r →
        ∃ bytes, r.body = .blob bytes ∧ fits i bytes) :
    Triple X (readChunks cache id (List.range' k n))
      (fun result s => X s ∧ ∀ chunks ∈ result, chunks.length = n ∧
        ReadFrom userId id fits k chunks s) X := by
  induction n generalizing k X with
  | zero =>
      intro script s hs
      refine ⟨hs, ?_⟩
      rintro chunks ⟨⟩
      exact ⟨rfl, by simp [ReadFrom]⟩
  | succ n ih =>
      rw [List.range'_succ]
      apply (cacheMatch_stable hX (partialDownloadChunkRequest id k) hcache).seq
      rintro (_ | response)
      · exact fun _ _ h => ⟨h.1, by simp⟩
      · -- The entry was there, so what it holds is known from now on.
        let X' (bytes : List UInt8) (s : Caches) : Prop := X s ∧
          Known (cacheName userId) (partialDownloadChunkRequest id k) (.blob bytes) s
        have hX' (bytes : List UInt8) : Stable (cacheName userId) (X' bytes) :=
          hX.and (stable_known _ _ _)
        have hread : ∀ s,
            X s ∧ s.find (cacheName userId) (partialDownloadChunkRequest id k) = some response →
            ∃ bytes, (response.body = .blob bytes ∧ fits k bytes) ∧ X' bytes s := by
          rintro s ⟨hs, hfind⟩
          obtain ⟨bytes, hbody, hfit⟩ := hfits s hs k response le_rfl (by omega) hfind
          refine ⟨bytes, ⟨hbody, hfit⟩, hs, ?_⟩
          intro r hr
          rw [hfind] at hr
          cases hr
          exact hbody
        refine Triple.pre (Triple.of_exists fun bytes => Triple.of_pure ?_) hread
        rintro ⟨hbody, hfit⟩
        have hrest := ih (k := k + 1) (hX' bytes) (fun s hs => hcache s hs.1)
          (fun s hs i r hi hi' => hfits s hs.1 i r (by omega) (by omega))
        have hout : Triple (X' bytes) (readChunks cache id (List.range' (k + 1) n))
            (fun result s => X' bytes s ∧ ∀ chunks ∈ result, chunks.length = n ∧
              ReadFrom userId id fits (k + 1) chunks s) X :=
          hrest.exit (fun _ h => h.1)
        apply ((blob_stable (hX' bytes) response).exit fun _ h => h.1).seq
        intro chunk
        refine Triple.pre (Triple.of_pure ?_) fun _ h => And.symm h
        intro hchunk
        obtain rfl : bytes = chunk.bytes := by
          rw [hbody] at hchunk
          exact Body.blob.inj hchunk
        apply hout.seq
        rintro (_ | chunks)
        · exact fun _ _ h => ⟨h.1.1, by simp⟩
        · intro _ s h
          obtain ⟨hlen, hchunks⟩ := h.2 chunks rfl
          refine ⟨h.1.1, ?_⟩
          rintro _ ⟨⟩
          refine ⟨by simp [hlen], ?_⟩
          intro i c hc
          cases i with
          | zero =>
              cases hc
              exact ⟨hfit, h.1.2⟩
          | succ i =>
              rw [← Nat.add_assoc, Nat.add_right_comm]
              exact hchunks i c hc

theorem readPartialBookDownload_spec :
    Triple (Sound userId id F) (readPartialBookDownload userId id)
      (fun result s => Sound userId id F s ∧ ∀ d ∈ result, Resumes userId id F d s)
        (Sound userId id F) := by
  have hsound := stable_sound userId id F
  have hclear {X : Caches → Prop} (hX : ∀ s, X s → Sound userId id F s) : Triple X (do
      clearPartialBookDownload userId id
      return (none : Option PartialBookDownload))
      (fun result s => Sound userId id F s ∧ ∀ d ∈ result, Resumes userId id F d s)
      (Sound userId id F) := by
    apply Triple.pre _ hX
    apply Triple.seq (clearPartialBookDownload_stable hsound id)
    exact fun _ _ _ h => ⟨h, by simp⟩
  apply (openCache_stable hsound).seq
  intro cache
  have hopen := hsound.and (stable_lookup (cacheName userId) cache)
  apply ((cacheMatch_stable hopen (partialDownloadMetaRequest id) fun _ h => h.2).exit fun _ h => h.1).seq
  rintro (_ | metaResponse)
  · exact fun _ _ h => ⟨h.1.1, by simp⟩
  · -- The metadata that was there counts pieces of the file.
    let X (partialMeta : PartialBookDownloadMeta) (pieces : List (List UInt8)) (s : Caches) : Prop :=
      (Sound userId id F s ∧ s.names.lookup (cacheName userId) = some cache) ∧
        Laid userId id F partialMeta pieces s ∧
        Known (cacheName userId) (partialDownloadMetaRequest id) (.json partialMeta) s
    have hX (partialMeta : PartialBookDownloadMeta) (pieces : List (List UInt8)) :
        Stable (cacheName userId) (X partialMeta pieces) :=
      hopen.and ((stable_laid userId id F partialMeta pieces).and (stable_known _ _ _))
    have hread : ∀ s, (Sound userId id F s ∧ s.names.lookup (cacheName userId) = some cache) ∧
        s.find (cacheName userId) (partialDownloadMetaRequest id) = some metaResponse →
          ∃ partialMeta pieces, metaResponse.body = .json partialMeta ∧ X partialMeta pieces s := by
      rintro s ⟨hs, hfind⟩
      obtain ⟨partialMeta, pieces, hbody, hlaid⟩ := hs.1 metaResponse hfind
      refine ⟨partialMeta, pieces, hbody, hs, hlaid, ?_⟩
      intro r hr
      rw [hfind] at hr
      cases hr
      exact hbody
    refine Triple.pre (Triple.of_exists fun m => Triple.of_exists fun pieces => Triple.of_pure ?_) hread
    intro hbody
    apply ((json_stable (hX m pieces) metaResponse).exit fun _ h => h.1.1).seq
    intro partialMeta
    refine Triple.pre (Triple.of_pure ?_) fun _ h => And.symm h
    intro hmeta
    obtain rfl : m = partialMeta := by
      rw [hbody] at hmeta
      exact Body.json.inj hmeta
    split
    · exact hclear fun _ h => h.1.1
    · next hpos =>
      have hchunks := readChunks_spec userId id (k := 0) (n := m.chunks) (hX m pieces)
        (fun _ h => h.1.2) (fun s h i r _ hi hr => h.2.1.stored i r (by rw [h.2.1.chunks]; omega) hr)
      rw [List.range_eq_range']
      apply (hchunks.exit fun _ h => h.1.1).seq
      rintro (_ | chunks)
      · exact hclear fun _ h => h.1.1.1
      · dsimp only
        split
        · next hsize =>
          intro _ s h
          obtain ⟨hlen, hread⟩ := h.2 chunks rfl
          have hlaid := h.1.2.1
          have hflat : (chunks.map (·.bytes)).flatten.length = m.downloadedBytes := by
            rw [← hsize, List.length_flatten, List.map_map]
            rfl
          have hpieces : chunks.map (·.bytes) = pieces := by
            apply eq_pieces (by rw [List.length_map, hlen, hlaid.chunks]) _ hlaid.initial
              (hflat.trans hlaid.downloadedBytes.symm)
            intro i bytes hi
            rw [List.getElem?_map] at hi
            obtain ⟨chunk, hchunk, rfl⟩ := Option.map_eq_some_iff.mp hi
            simpa using (hread i chunk hchunk).1
          refine ⟨h.1.1.1, ?_⟩
          rintro _ ⟨⟩
          refine ⟨?_, ?_, Nat.pos_of_ne_zero fun h => hpos (Or.inr h), ?_, ?_⟩
          · rw [List.flatMap_def, hpieces]
            exact hlaid.initial
          · rw [List.flatMap_def]
            exact hflat
          · intro i bytes hi
            rw [List.getElem?_map] at hi
            obtain ⟨chunk, hchunk, rfl⟩ := Option.map_eq_some_iff.mp hi
            simpa using (hread i chunk hchunk).2
          · intro r hr
            exact ⟨m, h.1.2.2 r hr, hlen.symm⟩
        · exact hclear fun _ h => h.1.1.1

theorem getPartialBookDownload_spec :
    Triple (Sound userId id F) (getPartialBookDownload userId id)
      (fun result s => Sound userId id F s ∧ ∀ d ∈ result, Resumes userId id F d s)
        (Sound userId id F) := by
  apply Triple.seq (supportsOfflineBooks_stable (Sound userId id F))
  intro supports
  split
  · exact fun _ _ h => ⟨h, by simp⟩
  · have hattempt : Triple (Sound userId id F) (readPartialBookDownload userId id).attempt
        (fun result s => Sound userId id F s ∧ ∀ d ∈ result.join, Resumes userId id F d s)
        (Sound userId id F) :=
      (readPartialBookDownload_spec userId id F).attempt (fun _ _ h => h) fun _ h => ⟨h, by simp⟩
    exact hattempt.seq fun _ _ _ h => h

/-! ## The writer -/

/-- A writer that continues the file. The metadata that is there is its own, or nothing has been
written yet. -/
structure Active (writer : PartialBookDownloadWriter) (s : Caches) : Prop where
  book : writer.bookId = id
  store : s.names.lookup (cacheName userId) = some writer.cache
  written : ∃ pieces, pieces.length = writer.chunks ∧ pieces.flatten.length = writer.downloadedBytes ∧
    pieces.flatten <+: F ∧ Holds userId id pieces s ∧
      (writer.chunks = 0 ∨ Counts userId id writer.chunks s)

theorem stable_active (writer : PartialBookDownloadWriter) :
    Stable (cacheName userId) (Active userId id F writer) := by
  intro s s₀ h hs
  obtain ⟨pieces, hlen, hbytes, hinitial, hholds, hcounts⟩ := hs.written
  exact ⟨hs.book, h.store _ hs.store, pieces, hlen, hbytes, hinitial,
    stable_holds userId id pieces s s₀ h hholds,
    hcounts.imp_right (stable_counts userId id writer.chunks s s₀ h)⟩

theorem createPartialBookDownloadWriter_active (totalBytes : Option Nat) (contentType : Text)
    (p : Option PartialBookDownload) (etag : Option Text) :
    Triple (fun s => Sound userId id F s ∧ ∀ d ∈ p, Resumes userId id F d s)
      (createPartialBookDownloadWriter userId id totalBytes contentType (some p) etag)
      (fun result s => Sound userId id F s ∧ ∀ writer ∈ result, Active userId id F writer s ∧
        writer.downloadedBytes = (p.map (·.downloadedBytes)).getD 0)
      (Sound userId id F) := by
  have hstable := stable_resuming userId id F p
  apply Triple.seq ((supportsOfflineBooks_stable _).exit fun _ h => h.1)
  intro supports
  split
  · exact fun _ _ h => ⟨h.1, by simp⟩
  · apply ((openCache_stable hstable).exit fun _ h => h.1).seq
    rintro cache _ s ⟨⟨hsound, hresumes⟩, hcache⟩
    refine ⟨hsound, ?_⟩
    rintro _ ⟨⟩
    cases p with
    | none =>
        exact ⟨⟨rfl, hcache, [], rfl, rfl, List.nil_prefix, by simp [Holds], Or.inl rfl⟩, rfl⟩
    | some d =>
        have hd := hresumes d rfl
        refine ⟨⟨rfl, hcache, d.chunks.map (·.bytes), by simp, ?_, ?_, hd.holds, Or.inr hd.counts⟩, rfl⟩
        · rw [← List.flatMap_def]
          exact hd.downloadedBytes
        · rw [← List.flatMap_def]
          exact hd.initial

/-- What holds between the two writes of `append`. -/
structure Written (writer : PartialBookDownloadWriter) (chunk : Blob) (s : Caches) : Prop where
  sound : Sound userId id F s
  store : s.names.lookup (cacheName userId) = some writer.cache
  written : ∃ pieces, pieces.length = writer.chunks + 1 ∧
    pieces.flatten.length = writer.downloadedBytes + chunk.size ∧ pieces.flatten <+: F ∧
      Holds userId id pieces s

theorem stable_written (writer : PartialBookDownloadWriter) (chunk : Blob) :
    Stable (cacheName userId) (Written userId id F writer chunk) := by
  intro s s₀ h hs
  obtain ⟨pieces, hlen, hbytes, hinitial, hholds⟩ := hs.written
  exact ⟨stable_sound userId id F s s₀ h hs.sound, h.store _ hs.store, pieces, hlen, hbytes, hinitial,
    stable_holds userId id pieces s s₀ h hholds⟩

variable {userId id F}

theorem written_of_active (hid : PlainID id) {writer : PartialBookDownloadWriter} {chunk : Blob}
    {s : Caches}
    (hsound : Sound userId id F s) (hactive : Active userId id F writer s)
    (hchunk : F.take writer.downloadedBytes ++ chunk.bytes <+: F) :
    Written userId id F writer chunk
      (s.edit writer.cache
        (·.insert (partialDownloadChunkRequest id writer.chunks) (blobResponse chunk))) := by
  obtain ⟨pieces, hlen, hbytes, hinitial, hholds, hcounts⟩ := hactive.written
  have hfind := find_insert hactive.store (partialDownloadChunkRequest id writer.chunks)
  have hkey {i : Nat} (hi : i ≠ writer.chunks) :
      partialDownloadChunkRequest id i ≠ partialDownloadChunkRequest id writer.chunks :=
    fun he => hi (partialDownloadChunkRequest_inj hid he)
  have hflat : pieces.flatten = F.take writer.downloadedBytes := by
    rw [← hbytes]
    exact List.prefix_iff_eq_take.mp hinitial
  refine ⟨?_, hactive.store, pieces ++ [chunk.bytes], by simp [hlen], ?_, ?_, ?_⟩
  · intro r hr
    rw [hfind, if_neg (partialDownloadChunkRequest_ne_meta hid _).symm] at hr
    obtain ⟨partialMeta, pieces', hbody, hlaid⟩ := hsound r hr
    refine ⟨partialMeta, pieces', hbody, hlaid.chunks, hlaid.downloadedBytes, hlaid.initial, ?_⟩
    intro i r' hi hr'
    rw [hfind] at hr'
    split at hr'
    · next he =>
      -- The overwritten chunk is the first one, or lies after those that the metadata counts.
      obtain rfl := partialDownloadChunkRequest_inj hid he
      cases hr'
      rcases hcounts with hzero | hcounts
      · rw [hzero] at hlen
        have hempty : F.take writer.downloadedBytes = [] := by
          rw [← hflat, List.length_eq_zero_iff.mp hlen, List.flatten_nil]
        rw [hempty, List.nil_append] at hchunk
        exact ⟨chunk.bytes, rfl, Or.inr ⟨hzero, hchunk⟩⟩
      · obtain ⟨other, hother, hn⟩ := hcounts r hr
        rw [hbody] at hother
        cases hother
        have hchunks := hlaid.chunks
        omega
    · exact hlaid.stored i r' hi hr'
  · rw [List.flatten_append, List.length_append, hbytes]
    simp [Blob.size]
  · rw [List.flatten_append, hflat]
    simpa using hchunk
  · intro i bytes hi r hr
    rw [hfind] at hr
    split at hr
    · next he =>
      obtain rfl := partialDownloadChunkRequest_inj hid he
      cases hr
      rw [← hlen, List.getElem?_concat_length, Option.some.injEq] at hi
      rw [← hi]
      rfl
    · next hne =>
      have hi' : i ≠ pieces.length := by
        rintro rfl
        exact hne (by rw [hlen])
      have hold : pieces[i]? = some bytes := by
        have hlt := (List.getElem?_eq_some_iff.mp hi).1
        rw [List.length_append, List.length_singleton] at hlt
        rwa [List.getElem?_append_left (by omega)] at hi
      exact hholds i bytes hold r hr

theorem active_of_written (hid : PlainID id) {writer : PartialBookDownloadWriter} {chunk : Blob}
    {s : Caches}
    (hbook : writer.bookId = id) (h : Written userId id F writer chunk s) (contentType : Text) :
    Sound userId id F (s.edit writer.cache (·.insert (partialDownloadMetaRequest id)
        ⟨.json (writer.nextMeta chunk), contentType, none, none⟩)) ∧
      Active userId id F (writer.appended chunk) (s.edit writer.cache
        (·.insert (partialDownloadMetaRequest id)
          ⟨.json (writer.nextMeta chunk), contentType, none, none⟩)) := by
  obtain ⟨pieces, hlen, hbytes, hinitial, hholds⟩ := h.written
  have hfind := find_insert h.store (partialDownloadMetaRequest id)
  have hchunk (i : Nat) (r : Response) := hfind (partialDownloadChunkRequest id i) r
  simp only [if_neg (partialDownloadChunkRequest_ne_meta hid _)] at hchunk
  constructor
  · intro r hr
    rw [hfind, if_pos rfl] at hr
    cases hr
    refine ⟨_, pieces, rfl, hlen, hbytes, hinitial, ?_⟩
    intro i r hi hr
    rw [hchunk] at hr
    have hpiece : pieces[i]? = some pieces[i] := List.getElem?_eq_getElem hi
    exact ⟨pieces[i], hholds i _ hpiece r hr, Or.inl hpiece⟩
  · refine ⟨hbook, h.store, pieces, hlen, hbytes, hinitial, ?_, Or.inr ?_⟩
    · intro i bytes hi r hr
      rw [hchunk] at hr
      exact hholds i bytes hi r hr
    · intro r hr
      rw [hfind, if_pos rfl] at hr
      cases hr
      exact ⟨_, rfl, rfl⟩

theorem append_spec (hid : PlainID id) {writer : PartialBookDownloadWriter} {chunk : Blob}
    (hchunk : F.take writer.downloadedBytes ++ chunk.bytes <+: F) :
    Triple (fun s => Sound userId id F s ∧ Active userId id F writer s) (writer.append chunk)
      (fun writer' s => Sound userId id F s ∧ Active userId id F writer' s ∧
        writer'.downloadedBytes = writer.downloadedBytes + chunk.size)
      (Sound userId id F) := by
  have hstable := (stable_sound userId id F).and (stable_active userId id F writer)
  unfold PartialBookDownloadWriter.append
  split
  · next hsize => exact fun _ _ h => ⟨h.1, h.2, by omega⟩
  · have hcheck :
        Keeps (fun s => Sound userId id F s ∧ Active userId id F writer s) writer.checkCapacity := by
      unfold PartialBookDownloadWriter.checkCapacity
      split
      · exact read_stable hstable _
      · exact Keeps.ret ()
    apply (hcheck.exit fun _ h => h.1).seq
    intro _
    refine Triple.pre (Triple.of_pure (p := writer.bookId = id) fun hbook => ?_) fun _ h => ⟨h.2.book, h⟩
    rw [hbook]
    have hput : Triple (fun s => Sound userId id F s ∧ Active userId id F writer s)
        (cachePut writer.cache (partialDownloadChunkRequest id writer.chunks) (blobResponse chunk))
        (fun _ => Written userId id F writer chunk) (Sound userId id F) :=
      awaitCache_spec (fun s landed h => hstable.land s landed h) (fun _ h => h.1)
        fun _ h => written_of_active hid h.1 h.2 hchunk
    apply hput.seq
    intro _
    have hputMeta : Triple (Written userId id F writer chunk)
        (cachePut writer.cache (partialDownloadMetaRequest id)
          ⟨.json (writer.nextMeta chunk), "application/json".toList, none, none⟩)
        (fun _ s => Sound userId id F s ∧ Active userId id F (writer.appended chunk) s)
        (Sound userId id F) :=
      awaitCache_spec (fun s landed h => (stable_written userId id F writer chunk).land s landed h)
        (fun _ h => h.sound) fun _ h => active_of_written hid hbook h _
    apply hputMeta.seq
    intro _
    exact fun _ _ h => ⟨h.1, h.2, rfl⟩

end File

end ZReader.Frontend.Offline
