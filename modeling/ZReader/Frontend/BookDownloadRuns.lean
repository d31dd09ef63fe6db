import ZReader.Frontend.BookDownload
import ZReader.Frontend.PartialDownloads
import ZReader.Lib.Transition

namespace ZReader.Frontend.Offline

open Lib.Scripted Lib.Transition

/-! ## The server -/

def contentRangeText (first last total : Nat) : Text :=
  "bytes ".toList ++ (Nat.toDigits 10 first ++ '-' :: (Nat.toDigits 10 last ++ '/' :: Nat.toDigits 10 total))

/-- A plain answer with the whole file. -/
def IsWhole (F : List UInt8) (response : HttpResponse) : Prop :=
  response.status = 200 ∧ response.contentRange = none ∧
    response.contentLength = some (Nat.toDigits 10 F.length) ∧ response.body = F

/-- An answer with the file from some byte on. -/
def IsRest (F : List UInt8) (startAt : Nat) (response : HttpResponse) : Prop :=
  response.status = 206 ∧ response.body = F.drop startAt ∧
    response.contentRange = some (contentRangeText startAt (F.length - 1) F.length)

/-- The server has the file `F`. It may not know ranges, and it may find a range past the end. -/
structure Serves (F : List UInt8) (requestFile : Nat → Option Text → Turn → HttpResponse) : Prop where
  whole : ∀ etag turn, IsWhole F (requestFile 0 etag turn)
  rest : ∀ startAt etag turn, 0 < startAt →
    IsWhole F (requestFile startAt etag turn) ∨ IsRest F startAt (requestFile startAt etag turn) ∨
      (requestFile startAt etag turn).status = 416

/-! ### Its headers are read back -/

theorem isDigit_of_mem_digits {n : Nat} {c : Char} (hc : c ∈ Nat.toDigits 10 n) : c.isDigit = true :=
  Nat.isDigit_of_mem_toDigits (by omega) le_rfl hc

theorem not_isSpace_of_isDigit {c : Char} (h : c.isDigit = true) : isSpace c = false := by
  simp only [Char.isDigit, Bool.and_eq_true, decide_eq_true_eq, ge_iff_le, UInt32.le_iff_toNat_le] at h
  have hlow : 48 ≤ c.toNat := h.1
  have hhigh : c.toNat ≤ 57 := h.2
  simp only [isSpace, List.mem_cons, List.not_mem_nil, or_false, decide_eq_false_iff_not]
  omega

theorem span_digits (n : Nat) {c : Char} (hc : c.isDigit = false) (rest : Text) :
    (Nat.toDigits 10 n ++ c :: rest).span (·.isDigit) = (Nat.toDigits 10 n, c :: rest) := by
  rw [List.span_eq_takeWhile_dropWhile,
    List.takeWhile_append_of_pos (fun d hd => isDigit_of_mem_digits hd),
    List.dropWhile_append_of_pos (fun d hd => isDigit_of_mem_digits hd)]
  simp [hc]

theorem number_digits (n : Nat) : number (Nat.toDigits 10 n) = n := Nat.ofDigitChars_ten_toDigits

theorem trim_of_ends {value : Text} (hhead : ∀ c ∈ value.head?, isSpace c = false)
    (hlast : ∀ c ∈ value.getLast?, isSpace c = false) : trim value = value := by
  have hdrop {l : Text} (h : ∀ c ∈ l.head?, isSpace c = false) : l.dropWhile isSpace = l := by
    cases l with
    | nil => rfl
    | cons c l => rw [List.dropWhile_cons_of_neg (by simp [h c rfl])]
  rw [trim, hdrop hhead, hdrop (by simpa using hlast), List.reverse_reverse]

theorem isSpace_getLast_digits (n : Nat) : ∀ c ∈ (Nat.toDigits 10 n).getLast?, isSpace c = false :=
  fun _ hc => not_isSpace_of_isDigit (isDigit_of_mem_digits (List.mem_of_getLast? hc))

theorem parseRange_digits (first last total : Nat) :
    parseRange (Nat.toDigits 10 first ++ '-' :: (Nat.toDigits 10 last ++ '/' :: Nat.toDigits 10 total)) =
      some ⟨first, some total⟩ := by
  have hdigits : (Nat.toDigits 10 total).all (·.isDigit) = true :=
    List.all_eq_true.mpr fun c hc => isDigit_of_mem_digits hc
  have hstar : Nat.toDigits 10 total ≠ ['*'] := by
    intro h
    rw [h] at hdigits
    simp at hdigits
  rw [parseRange, span_digits first (by decide)]
  simp only
  rw [span_digits last (by decide)]
  simp [Nat.toDigits_ne_nil, hstar, hdigits, number_digits]

theorem parseContentRange_text (first last total : Nat) :
    parseContentRange (some (contentRangeText first last total)) = some ⟨first, some total⟩ := by
  have htrim : trim (contentRangeText first last total) = contentRangeText first last total := by
    apply trim_of_ends
    · intro c hc
      cases hc
      decide
    · rw [contentRangeText, List.getLast?_append_of_ne_nil _ (by simp),
        List.getLast?_append_of_ne_nil _ (by simp), List.getLast?_cons_of_ne_nil (by simp),
        List.getLast?_append_of_ne_nil _ (by simp), List.getLast?_cons_of_ne_nil Nat.toDigits_ne_nil]
      exact isSpace_getLast_digits total
  have hsplit : (contentRangeText first last total).splitAt 5 = ("bytes".toList,
      ' ' :: (Nat.toDigits 10 first ++ '-' :: (Nat.toDigits 10 last ++ '/' :: Nat.toDigits 10 total))) := by
    rw [List.splitAt_eq]
    rfl
  obtain ⟨c, rest, hdigits⟩ := List.exists_cons_of_ne_nil (Nat.toDigits_ne_nil (n := first) (b := 10))
  have hc : isSpace c = false :=
    not_isSpace_of_isDigit (isDigit_of_mem_digits (n := first) (by simp [hdigits]))
  have hspan (tail : Text) : (' ' :: (Nat.toDigits 10 first ++ tail)).span isSpace =
      ([' '], Nat.toDigits 10 first ++ tail) := by
    rw [List.span_eq_takeWhile_dropWhile, hdigits]
    simp [hc, show isSpace ' ' = true by decide]
  rw [parseContentRange, Option.bind_some, htrim, hsplit]
  simp only [hspan]
  rw [if_pos ⟨by decide, by simp⟩, parseRange_digits]

theorem contentLength_digits {response : HttpResponse} {n : Nat}
    (h : response.contentLength = some (Nat.toDigits 10 n)) : contentLength response = some n := by
  have htrim : trim (Nat.toDigits 10 n) = Nat.toDigits 10 n := by
    apply trim_of_ends
    · intro c hc
      exact not_isSpace_of_isDigit (isDigit_of_mem_digits (List.mem_of_mem_head? hc))
    · exact isSpace_getLast_digits n
  have hdigits : (Nat.toDigits 10 n).all (·.isDigit) = true :=
    List.all_eq_true.mpr fun c hc => isDigit_of_mem_digits hc
  rw [contentLength, h, Option.bind_some, htrim, if_pos hdigits, number_digits]

/-! ## Receiving -/

section Receive

variable {userId id : Text} {F : List UInt8}

/-- What has been read, what waits for its write and what is still to come make up the file. -/
structure Received (userId id : Text) (F rest : List UInt8) (d : Receiving) (s : Caches) : Prop where
  sound : Sound userId id F s
  bytes : d.parts.flatMap (·.bytes) ++ d.pendingChunks ++ rest = F
  downloadedBytes : d.downloadedBytes = (d.parts.flatMap (·.bytes) ++ d.pendingChunks).length
  writer : ∀ writer ∈ d.writer, Active userId id F writer s ∧
    writer.downloadedBytes = (d.parts.flatMap (·.bytes)).length

theorem stable_received (userId id : Text) (F rest : List UInt8) (d : Receiving) :
    Stable (cacheName userId) (Received userId id F rest d) := fun s s₀ h hs =>
  ⟨stable_sound userId id F s s₀ h hs.sound, hs.bytes, hs.downloadedBytes, fun writer hwriter =>
    ⟨stable_active userId id F writer s s₀ h (hs.writer writer hwriter).1, (hs.writer writer hwriter).2⟩⟩

theorem persistChunk_spec (hid : PlainID id) {rest : List UInt8} {d : Receiving} (chunk : Blob)
    (hpending : d.pendingChunks = []) :
    Triple (Received userId id F rest { d with pendingChunks := chunk.bytes }) (d.persistChunk chunk)
      (fun d' s => Received userId id F rest d' s ∧ d'.pendingChunks = []) (Sound userId id F) := by
  have hparts : (d.parts ++ [chunk]).flatMap (·.bytes) = d.parts.flatMap (·.bytes) ++ chunk.bytes := by
    simp [List.flatMap_append]
  have hreceived {s : Caches} {writer : Option PartialBookDownloadWriter} (hsound : Sound userId id F s)
      (hbytes : d.parts.flatMap (·.bytes) ++ chunk.bytes ++ rest = F)
      (hlen : d.downloadedBytes = (d.parts.flatMap (·.bytes) ++ chunk.bytes).length)
      (hwriter : ∀ w ∈ writer, Active userId id F w s ∧
        w.downloadedBytes = (d.parts.flatMap (·.bytes) ++ chunk.bytes).length) :
      Received userId id F rest { d with parts := d.parts ++ [chunk], writer := writer } s := by
    refine ⟨hsound, ?_, ?_, ?_⟩
    · simpa [hparts, hpending] using hbytes
    · simpa [hparts, hpending] using hlen
    · simpa [hparts] using hwriter
  unfold Receiving.persistChunk
  cases hw : d.writer with
  | none =>
      intro _ s h
      exact ⟨hreceived h.sound h.bytes h.downloadedBytes (by simp), hpending⟩
  | some writer =>
      have hpure : ∀ s, Received userId id F rest
            { d with pendingChunks := chunk.bytes, writer := some writer } s →
          (d.parts.flatMap (·.bytes) ++ chunk.bytes ++ rest = F ∧
            d.downloadedBytes = (d.parts.flatMap (·.bytes) ++ chunk.bytes).length ∧
            writer.downloadedBytes = (d.parts.flatMap (·.bytes)).length) ∧
          Sound userId id F s ∧ Active userId id F writer s :=
        fun s h => ⟨⟨h.bytes, h.downloadedBytes, (h.writer writer rfl).2⟩, h.sound, (h.writer writer rfl).1⟩
      refine Triple.pre (Triple.of_pure ?_) hpure
      rintro ⟨hbytes, hlen, hwritten⟩
      have hchunk : F.take writer.downloadedBytes ++ chunk.bytes <+: F := by
        have htake : F.take writer.downloadedBytes = d.parts.flatMap (·.bytes) := by
          rw [hwritten, ← hbytes, List.append_assoc, List.take_left]
        rw [htake]
        exact ⟨rest, hbytes⟩
      apply ((append_spec hid hchunk).attempt (R := fun result s =>
        Sound userId id F s ∧ ∀ writer' ∈ result, Active userId id F writer' s ∧
          writer'.downloadedBytes = writer.downloadedBytes + chunk.size) ?_ ?_).seq
      · intro result _ s h
        refine ⟨hreceived h.1 hbytes hlen ?_, hpending⟩
        intro w hmem
        obtain ⟨hactive, hw'⟩ := h.2 w hmem
        exact ⟨hactive, by rw [hw', hwritten, List.length_append, Blob.size]⟩
      · rintro writer' s ⟨hsound, hrest⟩
        refine ⟨hsound, ?_⟩
        rintro _ ⟨⟩
        exact hrest
      · exact fun _ h => ⟨h, by simp⟩

theorem persistPendingChunks_spec (hid : PlainID id) (rest : List UInt8) (d : Receiving)
    (contentType : Text) :
    Triple (Received userId id F rest d) (d.persistPendingChunks contentType)
      (fun d' s => Received userId id F rest d' s ∧ d'.pendingChunks = []) (Sound userId id F) := by
  unfold Receiving.persistPendingChunks
  split
  · next hempty => exact fun _ _ h => ⟨h, hempty⟩
  · exact persistChunk_spec hid (d := { d with pendingChunks := [] })
      ⟨d.pendingChunks, contentType⟩ rfl

theorem readNext_spec {X : Caches → Prop} {name : Text} (hX : Stable name X) (body : List UInt8) :
    Triple X (readNext body)
      (fun next s => X s ∧ ∀ p ∈ next, p.1 ++ p.2 = body) X := by
  apply Triple.seq (read_stable hX _)
  intro _
  apply Triple.seq (await_spec (Q := fun next s => X s ∧ ∀ p ∈ next, p.1 ++ p.2 = body)
    (fun s landed h => hX.land s landed h) (fun _ => id) ?_ ?_)
  · intro next
    have hstable : Stable name fun s => X s ∧ ∀ p ∈ next, p.1 ++ p.2 = body :=
      fun s s₀ h hs => ⟨hX s s₀ h hs.1, hs.2⟩
    apply ((read_stable hstable _).exit fun _ h => h.1).seq
    exact fun _ _ _ h => h
  · rintro turn s next h ⟨⟩
    refine ⟨h, ?_⟩
    intro p hp
    split at hp
    · cases hp
    · cases hp
      exact List.take_append_drop turn.size body
  · rintro turn s h ⟨⟩

theorem receiveNext_spec (hid : PlainID id) (contentType : Text) (x : List UInt8 × Receiving) :
    Triple (Received userId id F x.1 x.2) (receiveNext contentType x)
      (fun r s => r.elim (fun x' => Received userId id F x'.1 x'.2 s)
        fun result => ∃ rest, Received userId id F rest result.1 s)
      (Sound userId id F) := by
  obtain ⟨body, d⟩ := x
  have hstable := stable_received userId id F body d
  have hnext : Triple (Received userId id F body d) (readNext body).attempt
      (fun result s => Received userId id F body d s ∧ ∀ next ∈ result, ∀ p ∈ next, p.1 ++ p.2 = body)
      (Sound userId id F) := by
    apply ((readNext_spec hstable body).attempt _ _).exit fun _ h => h.sound
    · rintro next s ⟨h, hnext⟩
      refine ⟨h, ?_⟩
      rintro _ ⟨⟩
      exact hnext
    · exact fun _ h => ⟨h, by simp⟩
  apply hnext.seq
  rintro (_ | _ | ⟨value, body'⟩)
  · exact fun _ _ h => ⟨body, h.1⟩
  · exact fun _ _ h => ⟨body, h.1⟩
  · refine Triple.pre (Triple.of_pure (p := value ++ body' = body) ?_)
      fun _ h => ⟨h.2 _ rfl _ rfl, h.1⟩
    rintro rfl
    dsimp only
    split
    · next hempty =>
      subst hempty
      exact fun _ _ h => h
    · let d' : Receiving := { d with
        pendingChunks := d.pendingChunks ++ value
        downloadedBytes := d.downloadedBytes + value.length }
      have hadd (s : Caches) (h : Received userId id F (value ++ body') d s) :
          Received userId id F body' d' s := by
        refine ⟨h.sound, ?_, ?_, h.writer⟩
        · rw [← h.bytes]
          simp [d']
        · simp [d', h.downloadedBytes, Nat.add_assoc]
      have hreport : Triple (Received userId id F body' d') reportProgress.attempt
          (fun _ => Received userId id F body' d') (Sound userId id F) :=
        Triple.exit (read_stable (stable_received userId id F body' d') _).attempt fun _ h => h.sound
      apply (Triple.pre hreport hadd).seq
      rintro (_ | _)
      · exact fun _ _ h => ⟨body', h⟩
      · dsimp only
        split
        · apply (persistPendingChunks_spec hid body' d' contentType).seq
          exact fun _ _ _ h => h.1
        · exact fun _ _ h => h

theorem receiveBlob_spec (hid : PlainID id) (type : Text) (body : List UInt8) {d : Receiving}
    (hpending : d.pendingChunks = []) :
    Triple (Received userId id F body d) (receiveBlob type body d)
      (fun r s => ∃ rest, Received userId id F rest r.1 s) (Sound userId id F) := by
  have hstable := stable_received userId id F body d
  have hread : Triple (Received userId id F body d)
      (do let bytes ← readBlob body; throwIfAborted; return bytes)
      (fun bytes s => Received userId id F body d s ∧ bytes <+: body) (Received userId id F body d) := by
    apply Triple.seq (await_spec (Q := fun bytes s => Received userId id F body d s ∧ bytes <+: body)
      (fun s landed h => hstable.land s landed h) (fun _ h => h) ?_ ?_)
    · intro bytes
      have hstable' : Stable (cacheName userId)
          fun s => Received userId id F body d s ∧ bytes <+: body :=
        fun s s₀ h hs => ⟨hstable s s₀ h hs.1, hs.2⟩
      apply (Triple.exit (read_stable hstable' _) fun _ h => h.1).seq
      exact fun _ _ _ h => h
    · rintro turn s bytes h ⟨⟩
      refine ⟨h, ?_⟩
      split
      · exact List.take_prefix turn.size body
      · exact List.prefix_rfl
    · rintro turn s h ⟨⟩
  have hattempt : Triple (Received userId id F body d)
      (do let bytes ← readBlob body; throwIfAborted; return bytes : Page (List UInt8)).attempt
      (fun result s => Received userId id F body d s ∧ ∀ bytes ∈ result, bytes <+: body)
      (Sound userId id F) := by
    apply (hread.attempt _ _).exit fun _ h => h.sound
    · rintro bytes s ⟨h, hprefix⟩
      refine ⟨h, ?_⟩
      rintro _ ⟨⟩
      exact hprefix
    · exact fun _ h => ⟨h, by simp⟩
  apply hattempt.seq
  rintro (_ | bytes)
  · exact fun _ _ h => ⟨body, h.1⟩
  · refine Triple.pre (Triple.of_pure (p := bytes <+: body) ?_) fun _ h => ⟨h.2 _ rfl, h.1⟩
    rintro ⟨rest, rfl⟩
    dsimp only
    split
    · exact fun _ _ h => ⟨_, h⟩
    · let d' : Receiving := { d with downloadedBytes := d.downloadedBytes + bytes.length }
      have hadd (s : Caches) (h : Received userId id F (bytes ++ rest) d s) :
          Received userId id F rest { d' with pendingChunks := bytes } s := by
        refine ⟨h.sound, ?_, ?_, h.writer⟩
        · rw [← h.bytes]
          simp [d', hpending]
        · simp [d', h.downloadedBytes, hpending]
      apply (Triple.pre (persistChunk_spec hid (d := d') ⟨bytes, type⟩ hpending) hadd).seq
      exact fun _ _ _ h => ⟨rest, h.1⟩

theorem checkComplete_spec {X : Caches → Prop} {name : Text} (hX : Stable name X) (d : Receiving)
    (totalBytes : Option Nat) :
    Triple X (checkComplete d totalBytes)
      (fun _ s => X s ∧ ∀ total ∈ totalBytes, total ≤ d.downloadedBytes) X := by
  apply Triple.seq (read_stable hX _)
  intro _
  split
  · exact Triple.raise
  · split
    · exact Triple.raise
    · next hcomplete =>
      apply Triple.post (read_stable hX _)
      refine fun _ s h => ⟨h, fun total htotal => ?_⟩
      by_contra hlt
      exact hcomplete ⟨total, htotal, by omega⟩

/-- A body that is accepted is the rest of the file. -/
theorem receiveBody_spec (hid : PlainID id) (r : BookFileResponse) (htotal : r.totalBytes = some F.length)
    {d : Receiving} (hpending : d.pendingChunks = []) :
    Triple (Received userId id F r.response.body d) (receiveBody r d)
      (fun d' s => Sound userId id F s ∧ d'.parts.flatMap (·.bytes) = F) (Sound userId id F) := by
  have hbody : Triple (Received userId id F r.response.body d) (receiveBytes r d)
      (fun x s => ∃ rest, Received userId id F rest x.1 s) (Sound userId id F) := by
    unfold receiveBytes
    split
    · exact Triple.forever (I := fun x : List UInt8 × Receiving => Received userId id F x.1 x.2)
        (receiveNext_spec hid r.contentType) (fun _ _ h => h.sound) (r.response.body, d)
    · exact receiveBlob_spec hid _ _ hpending
  apply hbody.seq
  rintro ⟨d, ended⟩
  apply Triple.of_exists
  intro rest
  apply (persistPendingChunks_spec hid rest d r.contentType).seq
  intro d'
  refine Triple.pre (Triple.of_pure (p := d'.pendingChunks = []) ?_) fun _ h => And.symm h
  intro hpending
  have hstable := stable_received userId id F rest d'
  split
  · exact fun _ _ h => h.sound
  · apply ((checkComplete_spec hstable d' r.totalBytes).exit fun _ h => h.sound).seq
    intro _ _ s h
    refine ⟨h.1.sound, ?_⟩
    have hlen := h.2 F.length (by rw [htotal]; rfl)
    have hbytes := h.1.bytes
    rw [h.1.downloadedBytes, hpending, List.append_nil] at hlen
    rw [hpending, List.append_nil] at hbytes
    exact List.IsPrefix.eq_of_length_le ⟨rest, hbytes⟩ hlen

/-! ## Requests -/

/-- The response continues the record, or is the whole file. -/
structure Opened (userId id : Text) (F : List UInt8) (r : BookFileResponse) (s : Caches) : Prop where
  sound : Sound userId id F s
  resumes : ∀ d ∈ r.partialDownload, Resumes userId id F d s
  range : r.range = parseContentRange r.response.contentRange
  response : IsWhole F r.response ∨
    0 < r.downloadedBytes ∧ IsRest F r.downloadedBytes r.response

variable {requestFile : Nat → Option Text → Turn → HttpResponse}

theorem getBookFileResponse_spec {X : Caches → Prop} {name : Text} (hX : Stable name X) (startAt : Nat)
    (etag : Option Text) :
    Triple X (getBookFileResponse requestFile startAt etag)
      (fun response s => X s ∧ ∃ turn, response = requestFile startAt etag turn) X := by
  apply await_spec (fun s landed h => hX.land s landed h) (fun _ h => h)
  · rintro turn s response h ⟨⟩
    exact ⟨h, turn, rfl⟩
  · rintro turn s h ⟨⟩

theorem requestWhole_spec (hserver : Serves F requestFile) :
    Triple (Sound userId id F) (do
        let response ← getBookFileResponse requestFile 0 none
        return ofResponse response none)
      (Opened userId id F) (Sound userId id F) := by
  apply (getBookFileResponse_spec (stable_sound userId id F) 0 none).seq
  rintro response _ s ⟨hsound, turn, rfl⟩
  exact ⟨hsound, by simp [ofResponse], rfl, Or.inl (hserver.whole none turn)⟩

theorem requestRest_spec (hserver : Serves F requestFile) (p : Option PartialBookDownload) :
    Triple (fun s => Sound userId id F s ∧ ∀ d ∈ p, Resumes userId id F d s)
      (requestRest requestFile userId id p) (Opened userId id F) (Sound userId id F) := by
  have hstable := stable_resuming userId id F p
  apply ((getBookFileResponse_spec hstable _ _).exit fun _ h => h.1).seq
  intro response
  split
  · apply Triple.pre _ fun _ h => h.1.1
    apply Triple.seq (clearPartialBookDownload_stable (stable_sound userId id F) id)
    exact fun _ => requestWhole_spec hserver
  · next hstatus =>
    rintro _ s ⟨⟨hsound, hresumes⟩, turn, rfl⟩
    refine ⟨hsound, hresumes, rfl, ?_⟩
    by_cases hpos : 0 < (p.map (·.downloadedBytes)).getD 0
    · rcases hserver.rest _ (p.bind (·.etag)) turn hpos with hwhole | hrest | hpast
      · exact Or.inl hwhole
      · exact Or.inr ⟨hpos, hrest⟩
      · exact absurd ⟨hpast, hpos⟩ hstatus
    · rw [Nat.eq_zero_of_not_pos hpos]
      exact Or.inl (hserver.whole _ turn)

/-- Past this point the response has exactly what the record lacks. -/
structure Continues (userId id : Text) (F : List UInt8) (r : BookFileResponse) (s : Caches) : Prop where
  sound : Sound userId id F s
  resumes : ∀ d ∈ r.partialDownload, Resumes userId id F d s
  body : r.response.body = F.drop r.downloadedBytes
  totalBytes : r.totalBytes = some F.length

theorem continues_of_whole {r : BookFileResponse} {s : Caches} (h : Opened userId id F r s)
    (hwhole : IsWhole F r.response) (hnone : r.partialDownload = none) : Continues userId id F r s := by
  obtain ⟨-, hrange, hlength, hbody⟩ := hwhole
  have hzero : r.downloadedBytes = 0 := by simp [BookFileResponse.downloadedBytes, hnone]
  refine ⟨h.sound, h.resumes, ?_, ?_⟩
  · rw [hbody, hzero, List.drop_zero]
  · simp [BookFileResponse.totalBytes, h.range, hrange, parseContentRange,
      contentLength_digits hlength, hzero]

theorem continues_of_rest {r : BookFileResponse} {s : Caches} (h : Opened userId id F r s)
    (hrest : IsRest F r.downloadedBytes r.response) : Continues userId id F r s := by
  obtain ⟨-, hbody, hrange⟩ := hrest
  refine ⟨h.sound, h.resumes, hbody, ?_⟩
  simp [BookFileResponse.totalBytes, h.range, hrange, parseContentRange_text]

theorem restart_spec (r : BookFileResponse) :
    Triple (Opened userId id F r) (restart requestFile userId id r) (Continues userId id F)
      (Sound userId id F) := by
  unfold restart
  split
  · next hrestart =>
    have hstable : Stable (cacheName userId) (Opened userId id F r) := fun s s₀ h hs =>
      ⟨stable_sound userId id F s s₀ h hs.sound,
        fun d hd => stable_resumes userId id F d s s₀ h (hs.resumes d hd), hs.range, hs.response⟩
    apply (Triple.exit (clearPartialBookDownload_stable hstable id) fun _ h => h.sound).seq
    intro _
    -- A response that starts where the record ends would have been appended.
    have hwhole : ∀ s, Opened userId id F r s → IsWhole F r.response := by
      intro s h
      rcases h.response with hwhole | ⟨hpos, hrest⟩
      · exact hwhole
      · refine absurd ?_ hrestart.2
        simp [BookFileResponse.canAppend, hpos, hrest.1, h.range, hrest.2.2, parseContentRange_text]
    split
    · next hstatus => exact fun _ s h => absurd (hwhole s h).1 hstatus
    · intro _ s h
      apply continues_of_whole (r := { r with partialDownload := none })
      · exact ⟨h.sound, by simp, h.range, Or.inl (hwhole s h)⟩
      · exact hwhole s h
      · rfl
  · next hkeep =>
    intro _ s h
    rcases h.response with hwhole | ⟨-, hrest⟩
    · apply continues_of_whole h hwhole
      cases hp : r.partialDownload with
      | none => rfl
      | some d =>
          have hpos : 0 < r.downloadedBytes := by
            simpa [BookFileResponse.downloadedBytes, hp] using (h.resumes d hp).pos
          refine absurd ⟨hpos, ?_⟩ hkeep
          simp [BookFileResponse.canAppend, hwhole.1]
    · exact continues_of_rest h hrest

theorem read_of_resumes {r : BookFileResponse} {s : Caches}
    (h : ∀ d ∈ r.partialDownload, Resumes userId id F d s) :
    ((r.partialDownload.map (·.chunks)).getD []).flatMap (·.bytes) <+: F ∧
      (((r.partialDownload.map (·.chunks)).getD []).flatMap (·.bytes)).length = r.downloadedBytes := by
  unfold BookFileResponse.downloadedBytes
  cases hp : r.partialDownload with
  | none => exact ⟨List.nil_prefix, rfl⟩
  | some d => exact ⟨(h d hp).initial, (h d hp).downloadedBytes⟩

theorem receive_spec (hid : PlainID id) (r : BookFileResponse) :
    Triple (Continues userId id F r) (receive userId id r)
      (fun blob s => Sound userId id F s ∧ blob.bytes = F) (Sound userId id F) := by
  unfold receive
  split
  · exact fun _ _ h => h.sound
  · have hpure : ∀ s, Continues userId id F r s →
        (r.response.body = F.drop r.downloadedBytes ∧ r.totalBytes = some F.length) ∧
          Sound userId id F s ∧ ∀ d ∈ r.partialDownload, Resumes userId id F d s :=
      fun s h => ⟨⟨h.body, h.totalBytes⟩, h.sound, h.resumes⟩
    refine Triple.pre (Triple.of_pure ?_) hpure
    rintro ⟨hbody, htotal⟩
    refine Triple.pre (Triple.of_pure
      (p := ((r.partialDownload.map (·.chunks)).getD []).flatMap (·.bytes) <+: F ∧
      (((r.partialDownload.map (·.chunks)).getD []).flatMap (·.bytes)).length = r.downloadedBytes) ?_)
      fun s h => ⟨read_of_resumes h.2, h⟩
    rintro ⟨hinitial, hlen⟩
    have hwriter : Triple (fun s => Sound userId id F s ∧ ∀ d ∈ r.partialDownload, Resumes userId id F d s)
        (createPartialBookDownloadWriter userId id r.totalBytes r.contentType
          (some r.partialDownload) r.response.etag).attempt
        (fun result s => Received userId id F r.response.body
          ⟨(r.partialDownload.map (·.chunks)).getD [], [], r.downloadedBytes, result.join⟩ s)
        (Sound userId id F) := by
      have hreceived {s : Caches} {writer : Option PartialBookDownloadWriter} (hsound : Sound userId id F s)
          (hw : ∀ w ∈ writer, Active userId id F w s ∧ w.downloadedBytes = r.downloadedBytes) :
          Received userId id F r.response.body
            ⟨(r.partialDownload.map (·.chunks)).getD [], [], r.downloadedBytes, writer⟩ s := by
        refine ⟨hsound, ?_, by simp [hlen], fun w hmem => ⟨(hw w hmem).1, (hw w hmem).2.trans hlen.symm⟩⟩
        obtain ⟨rest, hrest⟩ := hinitial
        rw [List.append_nil, hbody, ← hlen, ← hrest, List.drop_left]
      apply (createPartialBookDownloadWriter_active userId id F _ _ _ _).attempt
      · exact fun _ s h => hreceived h.1 h.2
      · exact fun s h => hreceived h (by simp)
    apply hwriter.seq
    intro writer
    apply Triple.seq (Triple.exit (read_stable (stable_received userId id F _ _) _) fun _ h => h.sound)
    intro _
    apply (receiveBody_spec hid r htotal rfl).seq
    intro d
    refine Triple.pre (Triple.of_pure (p := d.parts.flatMap (·.bytes) = F) ?_) fun _ h => And.symm h
    intro hbytes
    apply Triple.seq (clearPartialBookDownload_stable (stable_sound userId id F) id).attempt
    exact fun _ _ _ h => ⟨h, hbytes⟩

theorem downloadBookFile_spec (hid : PlainID id) (hserver : Serves F requestFile) :
    Triple (Sound userId id F) (downloadBookFile requestFile userId id)
      (fun blob s => Sound userId id F s ∧ blob.bytes = F) (Sound userId id F) := by
  apply Triple.seq (read_stable (stable_sound userId id F) _)
  intro _
  apply (getPartialBookDownload_spec userId id F).seq
  intro p
  have hstable := stable_resuming userId id F p
  apply Triple.seq (Triple.exit (read_stable hstable _) fun _ h => h.1)
  intro _
  apply (requestRest_spec hserver p).seq
  intro r
  apply (restart_spec r).seq
  exact receive_spec hid

end Receive

/-! ## Runs -/

inductive DownloadEvent
  /-- An attempt, with a server. -/
  | download (requestFile : Nat → Option Text → Turn → HttpResponse)
  | getPartialBookDownload

/-- A call, interrupted wherever its script ends. -/
def downloadStep (userId id : Text) (F : List UInt8) (s : Caches) (a : DownloadEvent × List Turn)
    (t : Caches) : Prop :=
  match a with
  | (.download requestFile, script) =>
      Serves F requestFile ∧ t = (downloadBookFile requestFile userId id script s).2.2
  | (.getPartialBookDownload, script) => t = (getPartialBookDownload userId id script s).2.2

/-- Caches that may hold anything else, but no record of this download. -/
def NoRecord (userId id : Text) (s : Caches) : Prop :=
  s.find (cacheName userId) (partialDownloadMetaRequest id) = none

/-- The states between the calls of one user for one book, one call at a time. -/
def DownloadReached (userId id : Text) (F : List UInt8) (s : Caches) : Prop :=
  Reachable (NoRecord userId id) (downloadStep userId id F) s

theorem DownloadReached.sound {userId id : Text} {F : List UInt8} (hid : PlainID id) {s : Caches}
    (h : DownloadReached userId id F s) : Sound userId id F s := by
  apply Reachable.invariant (Sound userId id F) _ _ h
  · intro s hs r hr
    rw [hs] at hr
    cases hr
  · rintro s ⟨requestFile | _, script⟩ t hs hstep
    · obtain ⟨hserver, rfl⟩ := hstep
      exact Keeps.final ((downloadBookFile_spec hid hserver).post fun _ _ h => h.1) script hs
    · obtain rfl := hstep
      exact Keeps.final ((getPartialBookDownload_spec userId id F).post fun _ _ h => h.1) script hs

/-- Whatever interrupted the calls before, a record is a prefix of the file and a download that
ends has the file. -/
theorem resumable_download_exact {userId id : Text} {F : List UInt8} (hid : PlainID id) {s : Caches}
    (hreach : DownloadReached userId id F s) :
    (∀ script d, (getPartialBookDownload userId id script s).1 = .value (some d) →
      d.chunks.flatMap (·.bytes) <+: F ∧ (d.chunks.flatMap (·.bytes)).length = d.downloadedBytes) ∧
    ∀ requestFile, Serves F requestFile → ∀ script blob,
      (downloadBookFile requestFile userId id script s).1 = .value blob → blob.bytes = F := by
  have hsound := hreach.sound hid
  constructor
  · intro script d hd
    have hresumes := ((getPartialBookDownload_spec userId id F).value hsound hd).2 d rfl
    exact ⟨hresumes.initial, hresumes.downloadedBytes⟩
  · intro requestFile hserver script blob hblob
    exact ((downloadBookFile_spec hid hserver).value hsound hblob).2

/-- A server for a file of three bytes that knows ranges. -/
def threeBytes (startAt : Nat) (_ : Option Text) (_ : Turn) : HttpResponse :=
  if startAt = 0 then ⟨200, none, some (Nat.toDigits 10 3), none, none, true, [1, 2, 3]⟩
  else ⟨206, some (contentRangeText startAt 2 3), none, none, none, true, [1, 2, 3].drop startAt⟩

theorem threeBytes_serves : Serves [1, 2, 3] threeBytes := by
  constructor
  · intro etag turn
    exact ⟨rfl, rfl, rfl, rfl⟩
  · intro startAt etag turn hpos
    rw [threeBytes, if_neg hpos.ne']
    exact Or.inr (Or.inl ⟨rfl, rfl, rfl⟩)

/-- The network fails after two bytes, which the next attempt does not ask for again. -/
theorem resumable_download_exact_resumed : ∃ s : Caches, DownloadReached ['u'] ['b'] [1, 2, 3] s ∧
    (∃ script d, (getPartialBookDownload ['u'] ['b'] script s).1 = .value (some d) ∧
      d.downloadedBytes = 2 ∧ d.chunks.flatMap (·.bytes) <+: [1, 2, 3]) ∧
    ∃ script blob, (downloadBookFile threeBytes ['u'] ['b'] script s).1 = .value blob ∧
      blob.bytes = [1, 2, 3] := by
  let turn : Turn := ⟨[], true, 0, false, 2⟩
  let s := (downloadBookFile threeBytes ['u'] ['b'] (List.replicate 12 turn ++
    ({ turn with ok := false } :: List.replicate 3 turn)) (.empty true)).2.2
  have hstart : NoRecord ['u'] ['b'] (.empty true) := rfl
  have hreach : DownloadReached ['u'] ['b'] [1, 2, 3] s :=
    Reachable.next (a := (.download threeBytes, _)) (.start hstart) ⟨threeBytes_serves, rfl⟩
  have hid : PlainID ['b'] := by decide
  obtain ⟨hrecord, hblob⟩ := resumable_download_exact hid hreach
  have hget : (getPartialBookDownload ['u'] ['b'] (List.replicate 20 turn) s).1 =
      .value (some ⟨[⟨[1, 2], octetStream⟩], 2, some 3, octetStream, none⟩) := by decide +kernel
  have hdownload : (downloadBookFile threeBytes ['u'] ['b'] (List.replicate 40 turn) s).1 =
      .value ⟨[1, 2, 3], octetStream⟩ := by decide +kernel
  exact ⟨s, hreach, ⟨_, _, hget, rfl, (hrecord _ _ hget).1⟩,
    ⟨_, _, hdownload, hblob threeBytes threeBytes_serves _ _ hdownload⟩⟩

end ZReader.Frontend.Offline
