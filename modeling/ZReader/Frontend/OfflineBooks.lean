import ZReader.Frontend.CacheStorage

namespace ZReader.Frontend.Offline

open Lib.Utf8 Lib.Percent Lib.Scripted

structure Book where
  id : Text
  filename : Text
  contentHash : Option Text

structure PartialBookDownload where
  chunks : List Blob
  downloadedBytes : Nat
  totalBytes : Option Nat
  contentType : Text
  etag : Option Text
  deriving DecidableEq

/-! ## Names and keys -/

def cacheName (userId : Text) : Text := "z-reader-offline-books-v1:".toList ++ encodeURIComponent userId

def cacheKey : Text := "__z-reader-offline-books".toList

def cacheRequest (bookId : Text) : Path := request [cacheKey, encodeURIComponent bookId]

/-- The segments of a key prefix that ends in a slash. -/
def partialDownloadPath (bookId : Text) : Path := [cacheKey, "partial".toList, encodeURIComponent bookId]

def partialDownloadMetaRequest (bookId : Text) : Path :=
  request (partialDownloadPath bookId ++ ["meta".toList])

def partialDownloadChunkRequest (bookId : Text) (chunkIndex : Nat) : Path :=
  request (partialDownloadPath bookId ++ ["chunk".toList, Nat.toDigits 10 chunkIndex])

/-- `pathname.startsWith` for a prefix that ends in a slash. -/
def startsWith (path start : Path) : Bool := start.isPrefixOf path && start.length < path.length

/-! ### The keys are apart -/

/-- An ID that the URL parser does not take for a dot segment, such as a UUID. -/
def PlainID (id : Text) : Prop := id ≠ ['.'] ∧ id ≠ ['.', '.']

instance (id : Text) : Decidable (PlainID id) := inferInstanceAs (Decidable (_ ∧ _))

theorem encoded_no_dots {id : Text} (h : PlainID id) :
    isSingleDot (encodeURIComponent id) = false ∧ isDoubleDot (encodeURIComponent id) = false := by
  have hid := unescape_encodeURIComponent id
  rw [Bool.eq_false_iff, Bool.eq_false_iff, ne_eq, ne_eq, isSingleDot_iff hid, isDoubleDot_iff hid]
  exact h

theorem digits_no_dots (n : Nat) :
    isSingleDot (Nat.toDigits 10 n) = false ∧ isDoubleDot (Nat.toDigits 10 n) = false := by
  have hdigit (c : Char) (hc : c ∈ Nat.toDigits 10 n) : c.isDigit = true :=
    Nat.isDigit_of_mem_toDigits (by omega) le_rfl hc
  have hpercent : '%' ∉ Nat.toDigits 10 n := fun h => absurd (hdigit '%' h) (by decide)
  have hdot : '.' ∉ Nat.toDigits 10 n := fun h => absurd (hdigit '.' h) (by decide)
  have hid := unescape_of_no_percent hpercent
  rw [Bool.eq_false_iff, Bool.eq_false_iff, ne_eq, ne_eq, isSingleDot_iff hid, isDoubleDot_iff hid]
  constructor
  · intro h
    exact hdot (h ▸ by simp)
  · intro h
    exact hdot (h ▸ by simp)

theorem cacheRequest_eq {bookId : Text} (h : PlainID bookId) :
    cacheRequest bookId = [cacheKey, encodeURIComponent bookId] := by
  apply resolve_of_no_dots
  simp only [List.mem_cons, List.not_mem_nil, or_false, forall_eq_or_imp, forall_eq]
  exact ⟨by decide, encoded_no_dots h⟩

theorem partialDownloadMetaRequest_eq {bookId : Text} (h : PlainID bookId) :
    partialDownloadMetaRequest bookId = partialDownloadPath bookId ++ ["meta".toList] := by
  apply resolve_of_no_dots
  simp only [partialDownloadPath, List.cons_append, List.nil_append, List.mem_cons, List.not_mem_nil,
    or_false, forall_eq_or_imp, forall_eq]
  exact ⟨by decide, by decide, encoded_no_dots h, by decide⟩

theorem partialDownloadChunkRequest_eq {bookId : Text} (h : PlainID bookId) (chunkIndex : Nat) :
    partialDownloadChunkRequest bookId chunkIndex =
      partialDownloadPath bookId ++ ["chunk".toList, Nat.toDigits 10 chunkIndex] := by
  apply resolve_of_no_dots
  simp only [partialDownloadPath, List.cons_append, List.nil_append, List.mem_cons, List.not_mem_nil,
    or_false, forall_eq_or_imp, forall_eq]
  exact ⟨by decide, by decide, encoded_no_dots h, by decide, digits_no_dots chunkIndex⟩

theorem partialDownloadChunkRequest_inj {bookId : Text} (h : PlainID bookId) {i j : Nat}
    (he : partialDownloadChunkRequest bookId i = partialDownloadChunkRequest bookId j) : i = j := by
  rw [partialDownloadChunkRequest_eq h, partialDownloadChunkRequest_eq h] at he
  have hdigits : Nat.toDigits 10 i = Nat.toDigits 10 j := by simpa using he
  calc
    i = Nat.ofDigitChars 10 (Nat.toDigits 10 i) 0 := Nat.ofDigitChars_ten_toDigits.symm
    _ = Nat.ofDigitChars 10 (Nat.toDigits 10 j) 0 := by rw [hdigits]
    _ = j := Nat.ofDigitChars_ten_toDigits

theorem partialDownloadChunkRequest_ne_meta {bookId : Text} (h : PlainID bookId) (i : Nat) :
    partialDownloadChunkRequest bookId i ≠ partialDownloadMetaRequest bookId := by
  rw [partialDownloadChunkRequest_eq h, partialDownloadMetaRequest_eq h]
  intro he
  have hlen := congrArg List.length he
  simp [partialDownloadPath] at hlen

theorem cacheName_injective : Function.Injective cacheName := fun _ _ h =>
  encodeURIComponent_injective (List.append_cancel_left h)

theorem cacheRequest_inj {a b : Text} (ha : PlainID a) (hb : PlainID b)
    (h : cacheRequest a = cacheRequest b) : a = b := by
  rw [cacheRequest_eq ha, cacheRequest_eq hb] at h
  exact encodeURIComponent_injective (by simpa using h)

theorem startsWith_partialDownloadPath {path : Path} {bookId : Text}
    (h : startsWith path (partialDownloadPath bookId)) : 3 < path.length := by
  simp only [startsWith, Bool.and_eq_true, decide_eq_true_eq] at h
  exact h.2

def octetStream : Text := "application/octet-stream".toList

/-- `a || b` -/
def orElse (a b : Text) : Text := if a = [] then b else a

def supportsOfflineBooks : Page Bool := .atOnce fun s => (s.supported, s)

/-- The turn says whether the browser's estimate leaves enough room. -/
def ensureCapacity : Page Unit := awaitCache ((), ·)

/-! ## Partial downloads -/

def clearPartialBookDownload (userId bookId : Text) : Page Unit := do
  if userId = [] || !(← supportsOfflineBooks) then return
  let cache ← openCache (cacheName userId)
  let requests ← cacheKeys cache
  deleteAll cache (requests.filter (startsWith · (partialDownloadPath bookId)))

/-- The loop that collects the chunks, up to the first one that is missing. -/
def readChunks (cache : Nat) (bookId : Text) : List Nat → Page (Option (List Blob))
  | [] => return some []
  | index :: rest => do
      match ← cacheMatch cache (partialDownloadChunkRequest bookId index) with
      | none => return none
      | some response =>
          let chunk ← response.blob
          match ← readChunks cache bookId rest with
          | none => return none
          | some chunks => return some (chunk :: chunks)

/-- The body of the `try` in `getPartialBookDownload`. -/
def readPartialBookDownload (userId bookId : Text) : Page (Option PartialBookDownload) := do
  let cache ← openCache (cacheName userId)
  match ← cacheMatch cache (partialDownloadMetaRequest bookId) with
  | none => return none
  | some metaResponse =>
      let partialMeta ← metaResponse.json
      if partialMeta.chunks = 0 ∨ partialMeta.downloadedBytes = 0 then
        clearPartialBookDownload userId bookId
        return none
      else
        match ← readChunks cache bookId (List.range partialMeta.chunks) with
        | none =>
            clearPartialBookDownload userId bookId
            return none
        | some chunks =>
            if (chunks.map Blob.size).sum = partialMeta.downloadedBytes then
              return some ⟨chunks, partialMeta.downloadedBytes, partialMeta.totalBytes,
                orElse partialMeta.contentType octetStream, partialMeta.etag⟩
            else
              clearPartialBookDownload userId bookId
              return none

def getPartialBookDownload (userId bookId : Text) : Page (Option PartialBookDownload) := do
  if userId = [] || !(← supportsOfflineBooks) then return none
  return (← (readPartialBookDownload userId bookId).attempt).join

def quotaCheckInterval : Nat := 8 * 1024 * 1024

/-- What the closure of `append` holds. -/
structure PartialBookDownloadWriter where
  cache : Nat
  bookId : Text
  totalBytes : Option Nat
  contentType : Text
  etag : Option Text
  chunks : Nat
  downloadedBytes : Nat
  bytesSinceQuotaCheck : Nat

/-- The result is `none` for the writer that writes nothing; an `initialDownload` of `none` is
`undefined`. -/
def createPartialBookDownloadWriter (userId bookId : Text) (totalBytes : Option Nat)
    (contentType : Text) (initialDownload : Option (Option PartialBookDownload))
    (etag : Option Text) : Page (Option PartialBookDownloadWriter) := do
  if userId = [] || !(← supportsOfflineBooks) then return none
  let cache ← openCache (cacheName userId)
  let etag := (etag.filter (· ≠ [])).orElse fun _ => initialDownload.join.bind (·.etag)
  let writer : PartialBookDownloadWriter := ⟨cache, bookId, totalBytes, contentType, etag,
    (initialDownload.join.map (·.chunks.length)).getD 0,
    (initialDownload.join.map (·.downloadedBytes)).getD 0, quotaCheckInterval⟩
  match initialDownload with
  | some _ => return some writer
  | none =>
      match ← cacheMatch cache (partialDownloadMetaRequest bookId) with
      | none => return some writer
      | some response =>
          let previous ← response.json
          return some { writer with
            chunks := previous.chunks
            downloadedBytes := previous.downloadedBytes }

namespace PartialBookDownloadWriter

def checkCapacity (writer : PartialBookDownloadWriter) : Page Unit :=
  if writer.bytesSinceQuotaCheck ≥ quotaCheckInterval then ensureCapacity else pure ()

def nextMeta (writer : PartialBookDownloadWriter) (chunk : Blob) : PartialBookDownloadMeta :=
  ⟨writer.chunks + 1, writer.downloadedBytes + chunk.size, writer.totalBytes,
    orElse writer.contentType octetStream, writer.etag⟩

def appended (writer : PartialBookDownloadWriter) (chunk : Blob) : PartialBookDownloadWriter :=
  { writer with
    chunks := writer.chunks + 1
    downloadedBytes := writer.downloadedBytes + chunk.size
    bytesSinceQuotaCheck :=
      (if writer.bytesSinceQuotaCheck ≥ quotaCheckInterval then 0 else writer.bytesSinceQuotaCheck) +
        chunk.size }

/-- The metadata is written after its chunk, so a failure leaves a resumable prefix. -/
def append (writer : PartialBookDownloadWriter) (chunk : Blob) : Page PartialBookDownloadWriter := do
  if chunk.size = 0 then return writer
  writer.checkCapacity
  cachePut writer.cache (partialDownloadChunkRequest writer.bookId writer.chunks) (blobResponse chunk)
  cachePut writer.cache (partialDownloadMetaRequest writer.bookId)
    ⟨.json (writer.nextMeta chunk), "application/json".toList, none, none⟩
  return writer.appended chunk

end PartialBookDownloadWriter

def appendPartialBookDownload (userId bookId : Text) (chunk : Blob) (totalBytes : Option Nat)
    (contentType : Text) : Page Unit := do
  if userId = [] || !(← supportsOfflineBooks) || chunk.size = 0 then return
  match ← createPartialBookDownloadWriter userId bookId totalBytes contentType none none with
  | none => return
  | some writer =>
      let _ ← writer.append chunk

/-! ## Explicit copies -/

def bookResponse (book : Book) (file : Blob) : Response :=
  ⟨.blob file.bytes, orElse file.type octetStream, some (encodeURIComponent book.filename),
    some (book.contentHash.getD [])⟩

def saveOfflineBook (userId : Text) (book : Book) (file : Blob) : Page Unit := do
  if !(← supportsOfflineBooks) then .raise
  else
    ensureCapacity
    let cache ← openCache (cacheName userId)
    cachePut cache (cacheRequest book.id) (bookResponse book file)

/-- The file keeps its name unless the browser has no `File` constructor. -/
structure OfflineBookEntry where
  file : Blob
  filename : Text
  contentHash : Text
  deriving DecidableEq

def getOfflineBookEntry (userId bookId : Text) (expectedContentHash : Option Text) :
    Page (Option OfflineBookEntry) := do
  if userId = [] || !(← supportsOfflineBooks) then return none
  let cache ← openCache (cacheName userId)
  match ← cacheMatch cache (cacheRequest bookId) with
  | none => return none
  | some response =>
      let contentHash := response.contentHash.getD []
      if ∃ expected ∈ expectedContentHash, expected = [] ∨ contentHash ≠ expected then return none
      let blob ← response.blob
      match (response.filename.filter (· ≠ [])).map decodeURIComponent with
      | some none => .raise
      | some (some filename) =>
          return some ⟨⟨blob.bytes, orElse blob.type octetStream⟩, filename, contentHash⟩
      | none =>
          return some
            ⟨⟨blob.bytes, orElse blob.type octetStream⟩, bookId ++ ".epub".toList, contentHash⟩

def getOfflineBook (userId bookId : Text) (expectedContentHash : Option Text) : Page (Option Blob) :=
  return (← getOfflineBookEntry userId bookId expectedContentHash).map (·.file)

def removeOfflineBook (userId bookId : Text) : Page Unit := do
  if userId = [] || !(← supportsOfflineBooks) then return
  let cache ← openCache (cacheName userId)
  cacheDelete cache (cacheRequest bookId)
  clearPartialBookDownload userId bookId

/-- An `undefined` user is `none`. -/
def clearOfflineBooks (userId : Option Text) : Page Unit := do
  if userId.getD [] = [] || !(← supportsOfflineBooks) then return
  cachesDelete (cacheName (userId.getD []))

end ZReader.Frontend.Offline
