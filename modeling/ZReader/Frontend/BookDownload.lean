import ZReader.Frontend.OfflineBooks

namespace ZReader.Frontend.Offline

open Lib.Scripted

/-! ## Headers -/

/-- `\s` among the characters of a header value. -/
def isSpace (c : Char) : Bool := c.toNat ∈ [9, 10, 11, 12, 13, 32, 160]

def trim (value : Text) : Text := (value.dropWhile isSpace).reverse.dropWhile isSpace |>.reverse

def number (digits : Text) : Nat := Nat.ofDigitChars 10 digits 0

structure ContentRange where
  start : Nat
  totalBytes : Option Nat
  deriving DecidableEq

/-- The part after `bytes\s+` of `/^bytes\s+(\d+)-\d+\/(\d+|\*)$/i`. -/
def parseRange (value : Text) : Option ContentRange :=
  match value.span (·.isDigit) with
  | (start, '-' :: value) =>
      match value.span (·.isDigit) with
      | (last, '/' :: total) =>
          if start = [] ∨ last = [] then none
          else if total = ['*'] then some ⟨number start, none⟩
          else if total ≠ [] ∧ total.all (·.isDigit) then some ⟨number start, some (number total)⟩
          else none
      | _ => none
  | _ => none

def parseContentRange (value : Option Text) : Option ContentRange :=
  value.bind fun value =>
    let (unit, range) := (trim value).splitAt 5
    let (spaces, range) := range.span isSpace
    if unit.map Char.toLower = "bytes".toList ∧ spaces ≠ [] then parseRange range else none

structure HttpResponse where
  status : Nat
  contentRange : Option Text
  contentLength : Option Text
  contentType : Option Text
  etag : Option Text
  /-- `response.body` is not null. -/
  streamed : Bool
  body : List UInt8

def HttpResponse.ok (response : HttpResponse) : Bool := 200 ≤ response.status ∧ response.status < 300

/-- `Number` of the header, for the numbers without sign, point and exponent that it has. -/
def contentLength (response : HttpResponse) : Option Nat :=
  response.contentLength.bind fun header =>
    if (trim header).all (·.isDigit) then some (number (trim header)) else none

/-! ## Receiving a file -/

/-- The `AbortSignal`; the turn says whether it is aborted. -/
def throwIfAborted : Page Unit := awaitCache ((), ·)

/-- The caller's `onProgress`, which may throw. -/
def reportProgress : Page Unit := awaitCache ((), ·)

/-- The variables of a download that is being received. The chunks that wait for their write
are counted as written: the writes come in the order of the chunks, and where one of them
fails the later ones are dropped. -/
structure Receiving where
  parts : List Blob
  pendingChunks : List UInt8
  downloadedBytes : Nat
  /-- A writer that is `null`, or that writes nothing, is `none`. -/
  writer : Option PartialBookDownloadWriter

namespace Receiving

def persistChunk (d : Receiving) (chunk : Blob) : Page Receiving :=
  match d.writer with
  | none => return { d with parts := d.parts ++ [chunk] }
  | some writer => do
      let writer ← (writer.append chunk).attempt
      return { d with parts := d.parts ++ [chunk], writer := writer }

def persistPendingChunks (d : Receiving) (contentType : Text) : Page Receiving :=
  if d.pendingChunks = [] then return d
  else { d with pendingChunks := [] }.persistChunk ⟨d.pendingChunks, contentType⟩

end Receiving

/-- `reader.read()`: the next bytes and the rest of the body, or `none` at the end. -/
def readBody (body : List UInt8) : Page (Option (List UInt8 × List UInt8)) :=
  await fun turn s =>
    (some (if turn.ends ∨ body = [] then none else some (body.take turn.size, body.drop turn.size)), s)

def readNext (body : List UInt8) : Page (Option (List UInt8 × List UInt8)) := do
  throwIfAborted
  let next ← readBody body
  throwIfAborted
  return next

/-- One round of the loop. It gives the rest of the body, or whether the body has ended and
not failed. -/
def receiveNext (contentType : Text) (x : List UInt8 × Receiving) :
    Page ((List UInt8 × Receiving) ⊕ (Receiving × Bool)) := do
  match ← (readNext x.1).attempt with
  | none => return .inr (x.2, false)
  | some none => return .inr (x.2, true)
  | some (some (value, body)) =>
      if value = [] then return .inl (body, x.2)
      else
        let d := { x.2 with
          pendingChunks := x.2.pendingChunks ++ value
          downloadedBytes := x.2.downloadedBytes + value.length }
        match ← reportProgress.attempt with
        | none => return .inr (d, false)
        | some () =>
            if d.pendingChunks.length ≥ 1024 * 1024 then
              return .inl (body, ← d.persistPendingChunks contentType)
            else return .inl (body, d)

/-- `await response.blob()` -/
def readBlob (body : List UInt8) : Page (List UInt8) :=
  await fun turn s => (some (if turn.ends then body.take turn.size else body), s)

def receiveBlob (type : Text) (body : List UInt8) (d : Receiving) : Page (Receiving × Bool) := do
  match ← (do let bytes ← readBlob body; throwIfAborted; return bytes).attempt with
  | none => return (d, false)
  | some bytes =>
      if bytes = [] then return (d, false)
      else
        let d := { d with downloadedBytes := d.downloadedBytes + bytes.length }
        return (← d.persistChunk ⟨bytes, type⟩, true)

/-- The checks after the body has ended. -/
def checkComplete (d : Receiving) (totalBytes : Option Nat) : Page Unit := do
  throwIfAborted
  if d.downloadedBytes = 0 then .raise
  else if ∃ total ∈ totalBytes, d.downloadedBytes < total then .raise
  else reportProgress

/-! ## `downloadBookFile` -/

section Download

-- `context.requestFile`: its answer to the start of a range, or 0 for the whole file, and to
-- the `If-Range` header.
variable (requestFile : Nat → Option Text → Turn → HttpResponse)

def getBookFileResponse (startAt : Nat) (etag : Option Text) : Page HttpResponse :=
  await fun turn s => (some (requestFile startAt etag turn), s)

/-- What is received and what it continues. -/
structure BookFileResponse where
  response : HttpResponse
  range : Option ContentRange
  partialDownload : Option PartialBookDownload

def BookFileResponse.downloadedBytes (r : BookFileResponse) : Nat :=
  (r.partialDownload.map (·.downloadedBytes)).getD 0

def ofResponse (response : HttpResponse) (partialDownload : Option PartialBookDownload) :
    BookFileResponse :=
  ⟨response, parseContentRange response.contentRange, partialDownload⟩

/-- The request, and the request for the whole file when the range is past its end. -/
def requestRest (userId id : Text) (partialDownload : Option PartialBookDownload) :
    Page BookFileResponse := do
  let downloadedBytes := (partialDownload.map (·.downloadedBytes)).getD 0
  let response ← getBookFileResponse requestFile downloadedBytes (partialDownload.bind (·.etag))
  if response.status = 416 ∧ downloadedBytes > 0 then
    clearPartialBookDownload userId id
    let response ← getBookFileResponse requestFile 0 none
    return ofResponse response none
  else return ofResponse response partialDownload

def BookFileResponse.canAppend (r : BookFileResponse) : Bool :=
  r.downloadedBytes > 0 ∧ r.response.status = 206 ∧ r.range.map (·.start) = some r.downloadedBytes

/-- Bytes that the response does not continue are dropped. -/
def restart (userId id : Text) (r : BookFileResponse) : Page BookFileResponse := do
  if r.downloadedBytes > 0 ∧ ¬ r.canAppend then
    clearPartialBookDownload userId id
    if r.response.status ≠ 200 then
      let response ← getBookFileResponse requestFile 0 none
      return ofResponse response none
    else return { r with partialDownload := none }
  else return r

def BookFileResponse.totalBytes (r : BookFileResponse) : Option Nat :=
  (r.range.bind (·.totalBytes)).orElse fun _ =>
    match contentLength r.response with
    | none => r.partialDownload.bind (·.totalBytes)
    | some length => some (r.downloadedBytes + length)

def BookFileResponse.contentType (r : BookFileResponse) : Text :=
  orElse (r.response.contentType.getD [])
    (orElse ((r.partialDownload.map (·.contentType)).getD []) octetStream)

def receiveBytes (r : BookFileResponse) (d : Receiving) : Page (Receiving × Bool) :=
  if r.response.streamed then .forever (receiveNext r.contentType) (r.response.body, d)
  else receiveBlob (r.response.contentType.getD []) r.response.body d

/-- The part inside `try`. A download that fails keeps the chunks it has. -/
def receiveBody (r : BookFileResponse) (d : Receiving) : Page Receiving := do
  let (d, ended) ← receiveBytes r d
  let d ← d.persistPendingChunks r.contentType
  if !ended then .raise
  else
    checkComplete d r.totalBytes
    return d

def receive (userId id : Text) (r : BookFileResponse) : Page Blob := do
  if !r.response.ok then .raise
  else
    let writer ← (createPartialBookDownloadWriter userId id r.totalBytes r.contentType
      (some r.partialDownload) r.response.etag).attempt
    reportProgress
    let d ← receiveBody r
      ⟨(r.partialDownload.map (·.chunks)).getD [], [], r.downloadedBytes, writer.join⟩
    let _ ← (clearPartialBookDownload userId id).attempt
    return ⟨d.parts.flatMap (·.bytes), r.contentType⟩

def downloadBookFile (userId id : Text) : Page Blob := do
  throwIfAborted
  let partialDownload ← getPartialBookDownload userId id
  throwIfAborted
  let response ← requestRest requestFile userId id partialDownload
  let response ← restart requestFile userId id response
  receive userId id response

end Download

end ZReader.Frontend.Offline
