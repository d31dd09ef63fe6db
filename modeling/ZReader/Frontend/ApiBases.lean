import ZReader.Handlers.Bookmarks
import ZReader.Storage.Runs

namespace ZReader.Frontend.Api

open Lib.Utf8 Lib.KeyValue Storage Handlers

/-- What `fetch`, or the code that reads a response, throws. -/
inductive Thrown
  | apiError (message : String) (status : Nat)
  /-- An `AbortError` or a `TimeoutError`. -/
  | abortLike
  /-- What `fetch` throws when there is no response, and when the body breaks off. -/
  | typeError
  | otherError (message : String)
  deriving DecidableEq

/-- `body` is the parsed text of the response, `errorText` its `error` or `message`. -/
structure Response (T : Type) where
  status : Nat
  body : Except Thrown T
  errorText : Option String

def Response.ok {T : Type} (res : Response T) : Bool := 200 ≤ res.status ∧ res.status ≤ 299

def shouldRetryWithNextApiBase (error : Thrown) (apiBases : List String) (currentBase : String) :
    Bool :=
  if apiBases.getLast? = some currentBase then false
  else
    match error with
    | .apiError _ _ => false
    | .abortLike => true
    | .typeError => true
    | .otherError _ => false

def shouldRetryResponseWithNextApiBase (status : Nat) (apiBases : List String)
    (currentBase : String) : Bool :=
  if apiBases.getLast? = some currentBase then false
  else status = 502 ∨ status = 503 ∨ status = 504

def normalizeRequestError : Thrown → Thrown
  | .abortLike => .otherError "请求超时，请稍后重试"
  | error => error

theorem Response.ok_iff {T : Type} (res : Response T) :
    res.ok = true ↔ 200 ≤ res.status ∧ res.status ≤ 299 := by
  simp [Response.ok]

theorem retriesStatus_iff {status : Nat} {apiBases : List String} {base : String} :
    shouldRetryResponseWithNextApiBase status apiBases base = true ↔
      apiBases.getLast? ≠ some base ∧ (status = 502 ∨ status = 503 ∨ status = 504) := by
  rw [shouldRetryResponseWithNextApiBase]
  split
  · next h => simp [h]
  · next h => simp [h]

section Loop

variable {S T : Type}

/-- The loop of `fetchApi` over the bases that are left. `fetch` also yields the state
that the attempt leaves behind. -/
def fetchFrom (apiBases : List String) (fetch : String → S → Except Thrown (Response T) × S) :
    Thrown → List String → S → Except Thrown T × S
  | lastError, [], s => (.error (normalizeRequestError lastError), s)
  | _, base :: rest, s =>
      -- an exception of the `try` block, also the one it throws itself
      let caught (error : Thrown) (s : S) : Except Thrown T × S :=
        if shouldRetryWithNextApiBase error apiBases base then
          fetchFrom apiBases fetch error rest s
        else (.error (normalizeRequestError error), s)
      match fetch base s with
      | (.error error, s) => caught error s
      | (.ok res, s) =>
          if res.ok then
            match res.body with
            | .ok value => (.ok value, s)
            | .error error => caught error s
          else if shouldRetryResponseWithNextApiBase res.status apiBases base then
            fetchFrom apiBases fetch (.apiError "请求失败，正在尝试局域网后端" res.status) rest s
          else caught (.apiError (res.errorText.getD "请求失败") res.status) s

def fetchApi (apiBases : List String) (fetch : String → S → Except Thrown (Response T) × S) (s : S) :
    Except Thrown T × S :=
  fetchFrom apiBases fetch (.otherError "未知错误") apiBases s

end Loop

/-- The status of an HTTP error. -/
def ErrorStatus : Type := { status : Nat // ¬(200 ≤ status ∧ status ≤ 299) }

/-- How the network treats one attempt; where the client does not see the answer of the
backend, the backend may or may not have processed the request. -/
inductive Fate
  /-- The backend's answer comes back. -/
  | answered
  | httpError (status : ErrorStatus) (processed : Bool)
  | timeout (processed : Bool)
  | networkFailure (processed : Bool)

def Fate.processed : Fate → Bool
  | .answered => true
  | .httpError _ processed => processed
  | .timeout processed => processed
  | .networkFailure processed => processed

/-- The failures after which the next base is tried. -/
def Fate.retried : Fate → Bool
  | .answered => false
  | .httpError status _ => status.1 = 502 ∨ status.1 = 503 ∨ status.1 = 504
  | .timeout _ => true
  | .networkFailure _ => true

/-- The database behind every base, and the number of attempts so far. -/
structure Network where
  db : Tx
  attempts : Nat

section Bookmarks

/-- The fate of each attempt, and the identifier and the time that the backend gives to it. -/
structure Schedule where
  fate : Nat → Fate
  uuid : Nat → Bytes
  now : Nat → Time

variable (w : Schedule) (bookID userID : Bytes) (body : Except BindError BookmarkRequest)

def respond : BookmarkReply → Response Bookmark
  | .created bookmark => ⟨201, .ok bookmark, none⟩
  | .refused status message => ⟨status, .error (.otherError "not a bookmark"), some message⟩

/-- One attempt at the request, which every base forwards to the same backend. -/
def fetchBookmark (_base : String) (s : Network) : Except Thrown (Response Bookmark) × Network :=
  let (db, reply) := Handlers.createBookmark bookID userID body (w.uuid s.attempts)
    (w.now s.attempts) s.db
  let fate := w.fate s.attempts
  let s' : Network := ⟨if fate.processed then db else s.db, s.attempts + 1⟩
  match fate with
  | .answered => (.ok (respond reply), s')
  | .httpError status _ => (.ok ⟨status.1, .error (.otherError "no JSON"), none⟩, s')
  | .timeout _ => (.error .abortLike, s')
  | .networkFailure _ => (.error .typeError, s')

/-- `api.createBookmark` in the given database. -/
def createBookmark (apiBases : List String) (db : Tx) : Except Thrown Bookmark × Network :=
  fetchApi apiBases (fetchBookmark w bookID userID body) ⟨db, 0⟩

/-! ## How many attempts are processed -/

variable {w bookID userID body} {n : Nat}

/-- Attempt `n`, at this base, fails in a way that leads on to the next base. -/
def GoesOn (w : Schedule) (apiBases : List String) (base : String) (n : Nat) : Prop :=
  apiBases.getLast? ≠ some base ∧ (w.fate n).retried = true

instance (w : Schedule) (apiBases : List String) (base : String) (n : Nat) :
    Decidable (GoesOn w apiBases base n) := inferInstanceAs (Decidable (_ ∧ _))

/-- The attempts from number `n` on that the backend processes. -/
def processedFrom (w : Schedule) (apiBases : List String) : List String → Nat → Nat
  | [], _ => 0
  | base :: rest, n =>
      (if (w.fate n).processed then 1 else 0) +
        if GoesOn w apiBases base n then processedFrom w apiBases rest (n + 1) else 0

/-- The call gets as far as the attempt at base number `j` of the ones that are left. -/
def Reaches (w : Schedule) (apiBases rest : List String) (n j : Nat) : Prop :=
  ∀ k base, k < j → rest[k]? = some base → GoesOn w apiBases base (n + k)

theorem reaches_succ {apiBases : List String} {base : String} {rest : List String} {n j : Nat} :
    Reaches w apiBases (base :: rest) n (j + 1) ↔
      GoesOn w apiBases base n ∧ Reaches w apiBases rest (n + 1) j := by
  constructor
  · intro h
    refine ⟨h 0 base (by omega) rfl, ?_⟩
    intro k b hk hb
    have hgo := h (k + 1) b (by omega) (by simpa using hb)
    rwa [show n + (k + 1) = n + 1 + k by omega] at hgo
  · rintro ⟨hgo, h⟩ k b hk hb
    cases k with
    | zero =>
        cases hb
        exact hgo
    | succ k =>
        have hgo' := h k b (by omega) (by simpa using hb)
        rwa [show n + 1 + k = n + (k + 1) by omega] at hgo'

theorem processedFrom_pos {apiBases : List String} (rest : List String) (n : Nat) :
    0 < processedFrom w apiBases rest n ↔
      ∃ j, j < rest.length ∧ (w.fate (n + j)).processed = true ∧ Reaches w apiBases rest n j := by
  induction rest generalizing n with
  | nil => simp [processedFrom]
  | cons base rest ih =>
      rw [processedFrom]
      constructor
      · intro h
        by_cases hp : (w.fate n).processed = true
        · refine ⟨0, by simp, hp, ?_⟩
          intro k b hk
          omega
        · rw [if_neg hp, Nat.zero_add] at h
          split at h
          · next hgo =>
            obtain ⟨j, hj, hproc, hon⟩ := (ih (n + 1)).mp h
            rw [show n + 1 + j = n + (j + 1) by omega] at hproc
            exact ⟨j + 1, by simpa using hj, hproc, reaches_succ.mpr ⟨hgo, hon⟩⟩
          · omega
      · rintro ⟨j, hj, hproc, hon⟩
        cases j with
        | zero =>
            rw [if_pos (by simpa using hproc)]
            omega
        | succ j =>
            obtain ⟨hgo, hon⟩ := reaches_succ.mp hon
            rw [show n + (j + 1) = n + 1 + j by omega] at hproc
            have hpos := (ih (n + 1)).mpr ⟨j, by simpa using hj, hproc, hon⟩
            rw [if_pos hgo]
            omega

/-- Two attempts are processed, and the call gets as far as the second of them. -/
def ProcessedTwice (w : Schedule) (apiBases rest : List String) (n : Nat) : Prop :=
  ∃ i j, i < j ∧ j < rest.length ∧ (w.fate (n + i)).processed = true ∧
    (w.fate (n + j)).processed = true ∧ Reaches w apiBases rest n j

theorem one_lt_processedFrom {apiBases : List String} (rest : List String) (n : Nat) :
    1 < processedFrom w apiBases rest n ↔ ProcessedTwice w apiBases rest n := by
  induction rest generalizing n with
  | nil =>
      simp only [processedFrom, ProcessedTwice, List.length_nil]
      constructor
      · omega
      · rintro ⟨i, j, -, hj, -⟩
        omega
  | cons base rest ih =>
      rw [processedFrom]
      constructor
      · intro h
        have hgo : GoesOn w apiBases base n := by
          by_contra hgo
          rw [if_neg hgo] at h
          split at h <;> omega
        rw [if_pos hgo] at h
        by_cases hp : (w.fate n).processed = true
        · rw [if_pos hp] at h
          have hpos : 0 < processedFrom w apiBases rest (n + 1) := by omega
          obtain ⟨j, hj, hproc, hon⟩ := (processedFrom_pos rest (n + 1)).mp hpos
          rw [show n + 1 + j = n + (j + 1) by omega] at hproc
          exact ⟨0, j + 1, by omega, by simpa using hj, hp, hproc, reaches_succ.mpr ⟨hgo, hon⟩⟩
        · rw [if_neg hp, Nat.zero_add] at h
          obtain ⟨i, j, hij, hj, hi, hproc, hon⟩ := (ih (n + 1)).mp h
          rw [show n + 1 + i = n + (i + 1) by omega] at hi
          rw [show n + 1 + j = n + (j + 1) by omega] at hproc
          exact ⟨i + 1, j + 1, by omega, by simpa using hj, hi, hproc,
            reaches_succ.mpr ⟨hgo, hon⟩⟩
      · rintro ⟨i, j, hij, hj, hi, hproc, hon⟩
        obtain ⟨j, rfl⟩ : ∃ j', j = j' + 1 := ⟨j - 1, by omega⟩
        obtain ⟨hgo, hon⟩ := reaches_succ.mp hon
        rw [show n + (j + 1) = n + 1 + j by omega] at hproc
        have hj' : j < rest.length := by simpa using hj
        rw [if_pos hgo]
        cases i with
        | zero =>
            have hpos := (processedFrom_pos rest (n + 1)).mpr ⟨j, hj', hproc, hon⟩
            rw [if_pos (by simpa using hi)]
            omega
        | succ i =>
            rw [show n + (i + 1) = n + 1 + i by omega] at hi
            have htwo := (ih (n + 1)).mpr ⟨i, j, by omega, hj', hi, hproc, hon⟩
            omega

/-! ## How many bookmarks are created -/

/-- A generated identifier has the documented length, and none of the ones given to the
attempts at these bases is in use. -/
structure Fresh (w : Schedule) (bookID userID : Bytes) (apiBases : List String) (db : Tx) : Prop where
  length : ∀ n, (w.uuid n).length = uuidLength
  distinct : ∀ i j, i < j → j < apiBases.length → w.uuid i ≠ w.uuid j
  unused : ∀ n, n < apiBases.length → db.bookmarks.get (bookmarkKey userID bookID (w.uuid n)) = none

variable (bookID userID body) in
/-- What one attempt leaves behind: the row of an accepted request that is processed. -/
theorem fetchBookmark_db (hf : ∀ n, (w.uuid n).length = uuidLength) (base : String) (s : Network) :
    let s' := (fetchBookmark w bookID userID body base s).2
    s'.attempts = s.attempts + 1 ∧
      (AcceptsBookmark s.db bookID userID body → (w.fate s.attempts).processed = true →
        ∃ b m, s.db.bookmarks.put (bookmarkKey userID bookID (w.uuid s.attempts)) m = .ok b ∧
          s'.db = { s.db with bookmarks := b }) ∧
      (¬(AcceptsBookmark s.db bookID userID body ∧ (w.fate s.attempts).processed = true) →
        s'.db = s.db) := by
  have hdb : (fetchBookmark w bookID userID body base s).2 =
      ⟨if (w.fate s.attempts).processed then
        (Handlers.createBookmark bookID userID body (w.uuid s.attempts) (w.now s.attempts) s.db).1
        else s.db, s.attempts + 1⟩ := by
    simp only [fetchBookmark]
    cases w.fate s.attempts <;> rfl
  intro s'
  simp only [s', hdb]
  refine ⟨trivial, ?_, ?_⟩
  · intro ha hp
    obtain ⟨b, m, hput, hcreate⟩ :=
      createBookmark_of_accepts (w.now s.attempts) (hf s.attempts) ha
    refine ⟨b, m, hput, ?_⟩
    rw [if_pos hp, hcreate]
  · intro h
    split
    · next hp =>
      have ha : ¬AcceptsBookmark s.db bookID userID body := fun ha => h ⟨ha, hp⟩
      obtain ⟨status, message, -, hcreate⟩ :=
        createBookmark_of_not_accepts (w.now s.attempts) (hf s.attempts) ha
      rw [hcreate]
    · rfl

variable (bookID userID body) in
/-- The backend's own answer ends the call. -/
theorem respond_not_retried (hid : (w.uuid n).length = uuidLength) (db : Tx) (apiBases : List String)
    (base : String) :
    let res := respond (Handlers.createBookmark bookID userID body (w.uuid n) (w.now n) db).2
    (res.ok = true ∧ ∃ m, res.body = .ok m) ∨
      (res.ok = false ∧ shouldRetryResponseWithNextApiBase res.status apiBases base = false) := by
  by_cases ha : AcceptsBookmark db bookID userID body
  · obtain ⟨b, m, -, hcreate⟩ := createBookmark_of_accepts (w.now n) hid ha
    rw [hcreate]
    exact .inl ⟨rfl, m, rfl⟩
  · obtain ⟨status, message, hstatus, hcreate⟩ :=
      createBookmark_of_not_accepts (w.now n) hid ha
    rw [hcreate]
    simp only [List.mem_cons, List.not_mem_nil, or_false] at hstatus
    refine .inr ⟨?_, ?_⟩
    · rw [Bool.eq_false_iff, Ne, Response.ok_iff]
      change ¬(200 ≤ status ∧ status ≤ 299)
      omega
    · rw [Bool.eq_false_iff, Ne, retriesStatus_iff]
      change ¬(_ ∧ (status = 502 ∨ status = 503 ∨ status = 504))
      omega

variable (bookID userID body) in
/-- The call goes on to the next base exactly after the failures that `GoesOn` names. -/
theorem fetchFrom_cons (hf : ∀ n, (w.uuid n).length = uuidLength) (apiBases rest : List String)
    (base : String) (e : Thrown) (s : Network) :
    ∃ e', (fetchFrom apiBases (fetchBookmark w bookID userID body) e (base :: rest) s).2 =
      if GoesOn w apiBases base s.attempts then
        (fetchFrom apiBases (fetchBookmark w bookID userID body) e' rest
          (fetchBookmark w bookID userID body base s).2).2
      else (fetchBookmark w bookID userID body base s).2 := by
  have hcaught (error : Thrown) (s' : Network)
      (hr : shouldRetryWithNextApiBase error apiBases base = false) :
      (if shouldRetryWithNextApiBase error apiBases base then
          fetchFrom apiBases (fetchBookmark w bookID userID body) error rest s'
        else (.error (normalizeRequestError error), s')).2 = s' := by
    rw [hr]
    rfl
  rw [fetchFrom]
  cases hfate : w.fate s.attempts with
  | answered =>
      have hgo : ¬GoesOn w apiBases base s.attempts := by simp [GoesOn, hfate, Fate.retried]
      refine ⟨e, ?_⟩
      rw [if_neg hgo]
      simp only [fetchBookmark, hfate]
      have hres := respond_not_retried bookID userID body
        (hf s.attempts) s.db apiBases base
      obtain ⟨hok, m, hm⟩ | ⟨hok, hr⟩ := hres
      · simp only [hok, hm, if_true]
      · simp only [hok, hr, Bool.false_eq_true, if_false]
        apply hcaught
        simp [shouldRetryWithNextApiBase]
  | httpError status processed =>
      have hgo : GoesOn w apiBases base s.attempts ↔
          shouldRetryResponseWithNextApiBase status.1 apiBases base = true := by
        simp [GoesOn, hfate, Fate.retried, retriesStatus_iff]
      have hok (res : Response Bookmark) (hs : res.status = status.1) : res.ok = false := by
        rw [Bool.eq_false_iff, Ne, Response.ok_iff, hs]
        exact status.2
      refine ⟨.apiError "请求失败，正在尝试局域网后端" status.1, ?_⟩
      simp only [fetchBookmark, hfate, hgo]
      rw [hok _ rfl]
      simp only [Bool.false_eq_true, if_false]
      split
      · rfl
      · apply hcaught
        simp [shouldRetryWithNextApiBase]
  | timeout processed =>
      have hgo : GoesOn w apiBases base s.attempts ↔
          shouldRetryWithNextApiBase .abortLike apiBases base = true := by
        simp [GoesOn, hfate, Fate.retried, shouldRetryWithNextApiBase]
      refine ⟨.abortLike, ?_⟩
      simp only [fetchBookmark, hfate, hgo]
      split <;> rfl
  | networkFailure processed =>
      have hgo : GoesOn w apiBases base s.attempts ↔
          shouldRetryWithNextApiBase .typeError apiBases base = true := by
        simp [GoesOn, hfate, Fate.retried, shouldRetryWithNextApiBase]
      refine ⟨.typeError, ?_⟩
      simp only [fetchBookmark, hfate, hgo]
      split <;> rfl

theorem bookmarkKey_injective {id id' : Bytes}
    (h : bookmarkKey userID bookID id = bookmarkKey userID bookID id') : id = id' :=
  List.append_cancel_left h

theorem fetchFrom_of_not_accepts (hf : ∀ n, (w.uuid n).length = uuidLength)
    (apiBases rest : List String) (e : Thrown) (s : Network)
    (ha : ¬AcceptsBookmark s.db bookID userID body) :
    (fetchFrom apiBases (fetchBookmark w bookID userID body) e rest s).2.db = s.db := by
  induction rest generalizing e s with
  | nil => rfl
  | cons base rest ih =>
      obtain ⟨e', he'⟩ := fetchFrom_cons bookID userID body hf apiBases rest base e s
      obtain ⟨-, -, hdb⟩ := fetchBookmark_db bookID userID body hf base s
      have hdb := hdb (fun h => ha h.1)
      rw [he']
      split
      · rw [ih e' _ (by rwa [hdb]), hdb]
      · exact hdb

/-- Every processed attempt of an accepted request adds a row of its own. -/
theorem fetchFrom_length (hf : ∀ n, (w.uuid n).length = uuidLength) (apiBases rest : List String)
    (e : Thrown) (s : Network) (hn : s.attempts = n) (ha : AcceptsBookmark s.db bookID userID body)
    (hdistinct : ∀ i j, i < j → j < n + rest.length → w.uuid i ≠ w.uuid j)
    (hunused : ∀ k, n ≤ k → k < n + rest.length →
      s.db.bookmarks.get (bookmarkKey userID bookID (w.uuid k)) = none) :
    (fetchFrom apiBases (fetchBookmark w bookID userID body) e rest s).2.db.bookmarks.entries.length =
      s.db.bookmarks.entries.length + processedFrom w apiBases rest n := by
  induction rest generalizing e s n with
  | nil => rfl
  | cons base rest ih =>
      subst hn
      obtain ⟨e', he'⟩ := fetchFrom_cons bookID userID body hf apiBases rest base e s
      obtain ⟨hattempts, hput, hsame⟩ := fetchBookmark_db bookID userID body hf base s
      rw [he', processedFrom]
      simp only [List.length_cons] at hdistinct hunused
      set s' := (fetchBookmark w bookID userID body base s).2
      -- the attempt itself
      have hrow : s'.db.bookmarks.entries.length =
            s.db.bookmarks.entries.length + (if (w.fate s.attempts).processed then 1 else 0) ∧
          s'.db.books = s.db.books ∧
          ∀ k, s.attempts + 1 ≤ k → k < s.attempts + (rest.length + 1) →
            s'.db.bookmarks.get (bookmarkKey userID bookID (w.uuid k)) = none := by
        by_cases hp : (w.fate s.attempts).processed = true
        · obtain ⟨b, m, hb, hdb⟩ := hput ha hp
          refine ⟨?_, by rw [hdb], ?_⟩
          · rw [hdb, if_pos hp]
            exact Bucket.length_entries_put hb (hunused s.attempts (by omega) (by omega))
          · intro k hk hk'
            rw [hdb]
            change b.get _ = none
            have hne : bookmarkKey userID bookID (w.uuid s.attempts) ≠
                bookmarkKey userID bookID (w.uuid k) := fun h =>
              hdistinct s.attempts k (by omega) hk' (bookmarkKey_injective h)
            rw [Bucket.get_put hb, if_neg hne]
            exact hunused k (by omega) hk'
        · have hdb := hsame (fun h => hp h.2)
          refine ⟨by rw [hdb, if_neg hp]; rfl, by rw [hdb], ?_⟩
          intro k hk hk'
          rw [hdb]
          exact hunused k (by omega) hk'
      obtain ⟨hlen, hbooks, hnone⟩ := hrow
      split
      · have hrest := ih e' s' hattempts ((AcceptsBookmark.of_books_eq hbooks).mpr ha)
          (fun i j hij hj => hdistinct i j hij (by omega))
          (fun k hk hk' => hnone k hk (by omega))
        rw [hrest, hlen]
        omega
      · rw [hlen]
        rfl

/-- A call creates at most one bookmark exactly when the request is none that the backend
stores, or no two attempts are processed. -/
theorem creates_at_most_one_iff {apiBases : List String} {db : Tx}
    (hfresh : Fresh w bookID userID apiBases db) :
    (createBookmark w bookID userID body apiBases db).2.db.bookmarks.entries.length ≤
        db.bookmarks.entries.length + 1 ↔
      ¬(AcceptsBookmark db bookID userID body ∧ ProcessedTwice w apiBases apiBases 0) := by
  by_cases ha : AcceptsBookmark db bookID userID body
  · have hlen : (createBookmark w bookID userID body apiBases db).2.db.bookmarks.entries.length =
        db.bookmarks.entries.length + processedFrom w apiBases apiBases 0 := by
      refine fetchFrom_length hfresh.length apiBases apiBases _ ⟨db, 0⟩ rfl ha ?_ ?_
      · intro i j hij hj
        exact hfresh.distinct i j hij (by omega)
      · intro k _ hk
        exact hfresh.unused k (by omega)
    have htwice : 1 < processedFrom w apiBases apiBases 0 ↔ ProcessedTwice w apiBases apiBases 0 :=
      one_lt_processedFrom apiBases 0
    rw [hlen, ← htwice]
    constructor
    · rintro h ⟨-, htwo⟩
      omega
    · intro h
      have hle : ¬1 < processedFrom w apiBases apiBases 0 := fun htwo => h ⟨ha, htwo⟩
      omega
  · have hdb : (createBookmark w bookID userID body apiBases db).2.db = db :=
      fetchFrom_of_not_accepts hfresh.length apiBases apiBases _ ⟨db, 0⟩ ha
    rw [hdb]
    constructor
    · rintro - ⟨h, -⟩
      exact ha h
    · intro _
      omega

end Bookmarks

/-! ## A retry that repeats the effect -/

/-- A database with the book `b` of the user `u`. -/
def bookDB : Tx := (Op.createBook sampleBook).run .migrated

def sampleRequest : BookmarkRequest := ⟨ascii "epubcfi(/6/4)", 12, [], []⟩

/-- The first attempt times out after the backend has processed it. -/
def lateAnswer : Schedule where
  fate n := if n = 0 then .timeout true else .answered
  uuid n := ascii "6ba7b810-9dad-11d1-80b4-00c04fd430c" ++ [UInt8.ofNat (48 + n % 10)]
  now n := ⟨10 ^ 18 + n⟩

def twoBases : List String := ["", "http://nas:8080"]

theorem lateAnswer_fresh : Fresh lateAnswer (ascii "b") (ascii "u") twoBases bookDB where
  length n := rfl
  distinct i j hij hj := by
    have hj : j < 2 := hj
    interval_cases j
    · omega
    · obtain rfl : i = 0 := by omega
      decide +kernel
  unused n hn := by
    have hn : n < 2 := hn
    interval_cases n <;> decide +kernel

theorem lateAnswer_creates_two :
    (createBookmark lateAnswer (ascii "b") (ascii "u") (.ok sampleRequest) twoBases
      bookDB).2.db.bookmarks.entries.length = bookDB.bookmarks.entries.length + 2 := by
  decide +kernel

theorem createBookmark_repeats :
    ¬∀ (w : Schedule) (bookID userID : Bytes) (body : Except BindError BookmarkRequest)
        (apiBases : List String) (db : Tx), Fresh w bookID userID apiBases db →
      (createBookmark w bookID userID body apiBases db).2.db.bookmarks.entries.length ≤
        db.bookmarks.entries.length + 1 := by
  intro h
  have hle := h lateAnswer (ascii "b") (ascii "u") (.ok sampleRequest) twoBases bookDB
    lateAnswer_fresh
  rw [lateAnswer_creates_two] at hle
  omega

/-- The condition singles the failing call out. -/
theorem creates_at_most_one_iff_lateAnswer :
    ProcessedTwice lateAnswer twoBases twoBases 0 := by
  have hiff : (createBookmark lateAnswer (ascii "b") (ascii "u") (.ok sampleRequest) twoBases
      bookDB).2.db.bookmarks.entries.length ≤ bookDB.bookmarks.entries.length + 1 ↔
        ¬(AcceptsBookmark bookDB (ascii "b") (ascii "u") (.ok sampleRequest) ∧
          ProcessedTwice lateAnswer twoBases twoBases 0) :=
    creates_at_most_one_iff lateAnswer_fresh
  rw [lateAnswer_creates_two] at hiff
  by_contra htwo
  have hle := hiff.mpr (fun h => htwo h.2)
  omega

end ZReader.Frontend.Api
