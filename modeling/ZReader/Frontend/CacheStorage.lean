import ZReader.Lib.Percent
import ZReader.Lib.Scripted

namespace ZReader.Frontend.Offline

open Lib.Utf8 Lib.Percent Lib.Scripted

abbrev Text := List Char

structure Blob where
  bytes : List UInt8
  type : Text
  deriving DecidableEq

def Blob.size (blob : Blob) : Nat := blob.bytes.length

structure PartialBookDownloadMeta where
  chunks : Nat
  downloadedBytes : Nat
  totalBytes : Option Nat
  contentType : Text
  etag : Option Text
  deriving DecidableEq

/-! ## Responses and requests -/

/-- A stored body: the bytes of a blob, or JSON text with what it parses to. -/
inductive Body
  | blob (bytes : List UInt8)
  | json (partialMeta : PartialBookDownloadMeta)
  deriving DecidableEq

/-- The headers are `Content-Type`, `X-Z-Reader-Filename` and `X-Z-Reader-Content-Hash`. -/
structure Response where
  body : Body
  contentType : Text
  filename : Option Text
  contentHash : Option Text
  deriving DecidableEq

def blobResponse (blob : Blob) : Response := ⟨.blob blob.bytes, blob.type, none, none⟩

/-- The segments of a URL path, without the first slash. -/
abbrev Path := List Text

/-- What the URL parser takes for `.`, escaped or not. -/
def isSingleDot (segment : Text) : Bool := unescape segment = some [46]

def isDoubleDot (segment : Text) : Bool := unescape segment = some [46, 46]

theorem isSingleDot_iff {segment text : Text} (h : unescape segment = some (encode text)) :
    isSingleDot segment = true ↔ text = ['.'] := by
  have hdot : ([46] : Bytes) = encode ['.'] := by decide
  rw [isSingleDot, h, decide_eq_true_eq, Option.some.injEq, hdot, encode_injective.eq_iff]

theorem isDoubleDot_iff {segment text : Text} (h : unescape segment = some (encode text)) :
    isDoubleDot segment = true ↔ text = ['.', '.'] := by
  have hdots : ([46, 46] : Bytes) = encode ['.', '.'] := by decide
  rw [isDoubleDot, h, decide_eq_true_eq, Option.some.injEq, hdots, encode_injective.eq_iff]

def resolve : Path → Path → Path
  | out, [] => out
  | out, [segment] =>
      if isDoubleDot segment then out.dropLast ++ [[]]
      else if isSingleDot segment then out ++ [[]]
      else out ++ [segment]
  | out, segment :: next :: rest =>
      if isDoubleDot segment then resolve out.dropLast (next :: rest)
      else if isSingleDot segment then resolve out (next :: rest)
      else resolve (out ++ [segment]) (next :: rest)

/-- The path of `new Request(url)`, by which Cache Storage knows an entry. -/
def request (url : Path) : Path := resolve [] url

theorem resolve_of_no_dots {out url : Path}
    (h : ∀ segment ∈ url, isSingleDot segment = false ∧ isDoubleDot segment = false) :
    resolve out url = out ++ url := by
  induction url generalizing out with
  | nil => simp [resolve]
  | cons segment rest ih =>
      obtain ⟨hsingle, hdouble⟩ := h segment (by simp)
      cases rest with
      | nil => simp [resolve, hsingle, hdouble]
      | cons next rest =>
          rw [resolve, hdouble, hsingle]
          simp only [Bool.false_eq_true, if_false]
          rw [ih (fun t ht => h t (List.mem_cons_of_mem segment ht)), List.append_assoc,
            List.singleton_append]

/-! ## Cache Storage -/

abbrev Cache := AList (fun _ : Path => Response)

/-- Cache Storage as one origin sees it. A name stands for a store; who has opened a store
keeps it when the name is deleted. -/
structure Caches where
  /-- `'caches' in window` -/
  supported : Bool
  names : AList (fun _ : Text => Nat)
  stores : Nat → Cache
  fresh : Nat
  /-- Deletes that were started together and may still take effect. -/
  late : List (Nat × Path)

namespace Caches

def edit (s : Caches) (i : Nat) (f : Cache → Cache) : Caches :=
  { s with stores := Function.update s.stores i (f (s.stores i)) }

def landOne (s : Caches) (x : Nat × Path) : Caches :=
  if x ∈ s.late then { s.edit x.1 (·.erase x.2) with late := s.late.erase x } else s

def land (s : Caches) (landed : List (Nat × Path)) : Caches := landed.foldl landOne s

def find (s : Caches) (name : Text) (path : Path) : Option Response :=
  (s.names.lookup name).bind fun i => (s.stores i).lookup path

def opened (s : Caches) (name : Text) : Nat × Caches :=
  match s.names.lookup name with
  | some i => (i, s)
  | none =>
      (s.fresh, { s with
        names := s.names.insert name s.fresh
        stores := Function.update s.stores s.fresh ∅
        fresh := s.fresh + 1 })

def empty (supported : Bool) : Caches := ⟨supported, ∅, fun _ => ∅, 0, []⟩

/-! ## What late deletes can change -/

theorem landOne_names (s : Caches) (x : Nat × Path) :
    (s.landOne x).names = s.names ∧ (s.landOne x).fresh = s.fresh ∧
      (s.landOne x).supported = s.supported ∧ ∀ y ∈ (s.landOne x).late, y ∈ s.late := by
  unfold landOne
  split
  · exact ⟨rfl, rfl, rfl, fun y hy => List.mem_of_mem_erase hy⟩
  · exact ⟨rfl, rfl, rfl, fun y hy => hy⟩

theorem landOne_lookup (s : Caches) (x : Nat × Path) (i : Nat) (path : Path) :
    ((s.landOne x).stores i).lookup path = (s.stores i).lookup path ∨
      (i, path) ∈ s.late ∧ ((s.landOne x).stores i).lookup path = none := by
  unfold landOne
  split
  · next hx =>
    obtain ⟨j, p⟩ := x
    by_cases hi : i = j
    · subst hi
      by_cases hp : path = p
      · subst hp
        exact Or.inr ⟨hx, by simp [edit]⟩
      · exact Or.inl (by simp [edit, AList.lookup_erase_ne hp])
    · exact Or.inl (by simp [edit, Function.update_of_ne hi])
  · exact Or.inl rfl

theorem land_names (s : Caches) (landed : List (Nat × Path)) :
    (s.land landed).names = s.names ∧ (s.land landed).fresh = s.fresh ∧
      (s.land landed).supported = s.supported ∧ ∀ y ∈ (s.land landed).late, y ∈ s.late := by
  induction landed generalizing s with
  | nil => exact ⟨rfl, rfl, rfl, fun y hy => hy⟩
  | cons x landed ih =>
      obtain ⟨hn, hf, hs, hl⟩ := s.landOne_names x
      obtain ⟨hn', hf', hs', hl'⟩ := ih (s.landOne x)
      exact ⟨hn'.trans hn, hf'.trans hf, hs'.trans hs, fun y hy => hl y (hl' y hy)⟩

/-- A late delete removes an entry that it is about, or nothing. -/
theorem land_lookup (s : Caches) (landed : List (Nat × Path)) (i : Nat) (path : Path) :
    ((s.land landed).stores i).lookup path = (s.stores i).lookup path ∨
      (i, path) ∈ s.late ∧ ((s.land landed).stores i).lookup path = none := by
  induction landed generalizing s with
  | nil => exact Or.inl rfl
  | cons x landed ih =>
      have hlate := (s.landOne_names x).2.2.2
      rcases ih (s.landOne x) with h | ⟨hmem, hnone⟩
      · rcases s.landOne_lookup x i path with h' | ⟨hmem, hnone⟩
        · exact Or.inl (h.trans h')
        · exact Or.inr ⟨hmem, h.trans hnone⟩
      · exact Or.inr ⟨hlate _ hmem, hnone⟩

end Caches

/-- What happens while a promise is awaited: which of the late deletes take effect, and
whether the promise is fulfilled. The server chooses among its answers; the network chooses
whether a body ends here, or how many of its bytes come next. -/
structure Turn where
  landed : List (Nat × Path)
  ok : Bool
  choice : Nat
  ends : Bool
  size : Nat

abbrev Page := Program Turn Caches

def await {α : Type} (f : Turn → Caches → Option α × Caches) : Page α :=
  .operation fun turn s =>
    let s := s.land turn.landed
    if turn.ok then f turn s else (none, s)

def awaitCache {α : Type} (f : Caches → α × Caches) : Page α :=
  await fun _ s => (some (f s).1, (f s).2)

def openCache (name : Text) : Page Nat := awaitCache (·.opened name)

def cacheMatch (cache : Nat) (path : Path) : Page (Option Response) :=
  awaitCache fun s => ((s.stores cache).lookup path, s)

def cachePut (cache : Nat) (path : Path) (response : Response) : Page Unit :=
  awaitCache fun s => ((), s.edit cache (·.insert path response))

def cacheDelete (cache : Nat) (path : Path) : Page Unit :=
  awaitCache fun s => ((), s.edit cache (·.erase path))

def cacheKeys (cache : Nat) : Page (List Path) := awaitCache fun s => ((s.stores cache).keys, s)

/-- `Promise.all` over deletes of one cache: they start together, and where one of them
fails the others go on. -/
def deleteAll (cache : Nat) (paths : List Path) : Page Unit := do
  .atOnce fun s => ((), { s with late := s.late ++ paths.map (cache, ·) })
  await fun _ s => (some (), s.land (paths.map (cache, ·)))

def cachesDelete (name : Text) : Page Unit :=
  awaitCache fun s => ((), { s with names := s.names.erase name })

def cachesKeys : Page (List Text) := awaitCache fun s => (s.names.keys, s)

/-- `response.blob()`. The text of a JSON entry is not modelled, since nothing reads one as a blob. -/
def Response.blob (response : Response) : Page Blob :=
  await fun _ s =>
    match response.body with
    | .blob bytes => (some ⟨bytes, response.contentType⟩, s)
    | .json _ => (none, s)

def Response.json (response : Response) : Page PartialBookDownloadMeta :=
  await fun _ s =>
    match response.body with
    | .blob _ => (none, s)
    | .json partialMeta => (some partialMeta, s)

/-! ## Rules for waits -/

section Waits

variable {α : Type} {I C : Caches → Prop} {Q : α → Caches → Prop}

/-- Late deletes may take effect before the operation, also where it fails. -/
theorem await_spec {f : Turn → Caches → Option α × Caches}
    (hland : ∀ s landed, I s → I (s.land landed)) (hC : ∀ s, I s → C s)
    (hok : ∀ turn s a, I s → (f turn s).1 = some a → Q a (f turn s).2)
    (hthrow : ∀ turn s, I s → (f turn s).1 = none → C (f turn s).2) : Triple I (await f) Q C := by
  apply Triple.operation hC
  · intro turn s a s' hs hrun
    dsimp only at hrun
    split at hrun
    · have h := hok turn (s.land turn.landed) a (hland s turn.landed hs)
      rw [hrun] at h
      exact h rfl
    · cases hrun
  · intro turn s s' hs hrun
    dsimp only at hrun
    split at hrun
    · have h := hthrow turn (s.land turn.landed) (hland s turn.landed hs)
      rw [hrun] at h
      exact h rfl
    · cases hrun
      exact hC _ (hland s turn.landed hs)

theorem awaitCache_spec {f : Caches → α × Caches} (hland : ∀ s landed, I s → I (s.land landed))
    (hC : ∀ s, I s → C s) (h : ∀ s, I s → Q (f s).1 (f s).2) : Triple I (awaitCache f) Q C := by
  apply await_spec hland hC
  · intro _ s a hs ha
    cases ha
    exact h s hs
  · intro _ _ _ ha
    cases ha

theorem await_keeps {f : Turn → Caches → Option α × Caches}
    (hland : ∀ s landed, I s → I (s.land landed)) (h : ∀ turn s, I s → I (f turn s).2) :
    Keeps I (await f) :=
  await_spec hland (fun _ => id) (fun turn s _ hs _ => h turn s hs) (fun turn s hs _ => h turn s hs)

theorem awaitCache_keeps {f : Caches → α × Caches}
    (hland : ∀ s landed, I s → I (s.land landed)) (h : ∀ s, I s → I (f s).2) :
    Keeps I (awaitCache f) := awaitCache_spec hland (fun _ => id) h

end Waits

theorem awaitCache_run {α : Type} (f : Caches → α × Caches) {turn : Turn} (h : turn.ok = true)
    (script : List Turn) (s : Caches) :
    awaitCache f (turn :: script) s =
      (.value (f (s.land turn.landed)).1, script, (f (s.land turn.landed)).2) := by
  simp [awaitCache, await, Program.operation, h]

theorem openCache_run (name : Text) {turn : Turn} (h : turn.ok = true) (script : List Turn) (s : Caches) :
    openCache name (turn :: script) s =
      (.value ((s.land turn.landed).opened name).1, script, ((s.land turn.landed).opened name).2) :=
  awaitCache_run _ h script s

theorem cacheMatch_run (cache : Nat) (path : Path) {turn : Turn} (h : turn.ok = true)
    (script : List Turn) (s : Caches) :
    cacheMatch cache path (turn :: script) s =
      (.value (((s.land turn.landed).stores cache).lookup path), script, s.land turn.landed) :=
  awaitCache_run _ h script s

theorem Response.blob_run {r : Response} {bytes : List UInt8} (hbody : r.body = .blob bytes)
    {turn : Turn} (h : turn.ok = true) (script : List Turn) (s : Caches) :
    r.blob (turn :: script) s = (.value ⟨bytes, r.contentType⟩, script, s.land turn.landed) := by
  simp [Response.blob, await, Program.operation, h, hbody]

end ZReader.Frontend.Offline
