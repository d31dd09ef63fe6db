import ZReader.Frontend.OfflineBooks
import ZReader.Lib.Transition

namespace ZReader.Frontend.Offline

open Lib.Transition

/-! ## A call of createBookFile -/

/-- What `isApiError` and `isAbortLikeError` tell of an error. The server was unreachable
where it is neither. -/
inductive Failure
  | api
  | abort
  | unreachable
  deriving DecidableEq

/-- The promise of `context.fetchBook`, with the account under which the request was last
sent, if it has been sent. -/
inductive Download
  | idle
  | running (account : Option Text)
  | done (account : Text) (blob : Blob)
  | failed (failure : Failure)
  deriving DecidableEq

/-- The account under which the file is being fetched, or was. -/
def Download.account : Download → Option Text
  | .running account => account
  | .done account _ => some account
  | .idle | .failed _ => none

/-- What the promise of `createBookFile` settles with. A file comes with the account whose
copy it is or for which it was fetched. -/
inductive Delivery
  | cached (account : Text) (entry : OfflineBookEntry)
  | downloaded (account : Text) (filename : Text) (blob : Blob)
  | rejected (failure : Failure)
  deriving DecidableEq

/-- The account of a file that is handed over. -/
def Delivery.account : Delivery → Option Text
  | .cached account _ | .downloaded account _ _ => some account
  | .rejected _ => none

/-- The promise that the call awaits. -/
inductive Awaits
  | offlineEntry
  | metadata
  | download
  | nothing (delivery : Delivery)
  deriving DecidableEq

structure FileCall where
  /-- The account that is signed in. -/
  account : Text
  /-- `options.signal.aborted` -/
  aborted : Bool
  /-- The offline copy of the book that each account has. -/
  copies : Text → Option OfflineBookEntry
  /-- The account at the call. -/
  userId : Text
  metadata : Option (Except Failure Book)
  /-- The offline copy that was found, with the account whose copy it is. -/
  offlineEntry : Option (Option (Text × OfflineBookEntry))
  cached : Option (Text × OfflineBookEntry)
  book : Option Book
  download : Download
  /-- `downloadController.signal.aborted` -/
  cancelled : Bool
  awaits : Awaits

/-- What can happen during the call. Each promise settles in one step, and `createBookFile`
takes up the promise it awaits in another. -/
inductive FileEvent
  | signIn (account : Text)
  | abort
  | store (account : Text) (entry : Option OfflineBookEntry)
  | metadata (outcome : Except Failure Book)
  /-- The lookup of the offline copy, which `catch` lets fail. -/
  | lookUp (ok : Bool)
  /-- The download sends a request with the credentials of the moment. -/
  | send
  | downloaded (outcome : Except Failure Blob)
  | takeUp

namespace FileCall

/-- The call, with the account and the state of its signal. -/
def start (account : Text) (aborted : Bool) (copies : Text → Option OfflineBookEntry) : FileCall where
  account := account
  aborted := aborted
  copies := copies
  userId := account
  metadata := none
  offlineEntry := none
  cached := none
  book := none
  download := .idle
  cancelled := false
  awaits := .offlineEntry

def settle (c : FileCall) (delivery : Delivery) : FileCall := { c with awaits := .nothing delivery }

def sameHash (entry : OfflineBookEntry) (book : Book) : Bool :=
  match book.contentHash with
  | some hash => hash ≠ [] && entry.contentHash = hash
  | none => false

/-- The `catch` clause. -/
def recover (c : FileCall) (failure : Failure) : FileCall :=
  let c := { c with cancelled := true }
  if c.aborted = true then c.settle (.rejected .abort)
  else
    match c.cached with
    | some (owner, entry) =>
        if failure = .unreachable ∧ c.account = c.userId ∧ c.book.all (sameHash entry) = true then
          c.settle (.cached owner entry)
        else c.settle (.rejected failure)
    | none => c.settle (.rejected failure)

def takeEntry (c : FileCall) (entry : Option (Text × OfflineBookEntry)) : FileCall :=
  if c.aborted = true then c.settle (.rejected .abort)
  else { c with
    cached := entry
    download := if entry.isSome then .idle else .running none
    awaits := .metadata }

def takeBook (c : FileCall) (book : Book) : FileCall :=
  let c := { c with book := some book }
  if c.aborted = true then c.recover .abort
  else if c.account ≠ c.userId then c.recover .api
  else
    match c.cached.filter (sameHash ·.2 book) with
    | some (owner, entry) => c.settle (.cached owner entry)
    | none => { c with
        download := if c.download = .idle then .running none else c.download
        awaits := .download }

def takeUp (c : FileCall) : Option FileCall :=
  match c.awaits with
  | .offlineEntry => c.offlineEntry.map c.takeEntry
  | .metadata =>
      match c.metadata with
      | some (.ok book) => some (c.takeBook book)
      | some (.error failure) => some (c.recover failure)
      | none => none
  | .download =>
      match c.download, c.book with
      | .done account blob, some book => some (c.settle (.downloaded account book.filename blob))
      | .failed failure, _ => some (c.recover failure)
      | _, _ => none
  | .nothing _ => none

/-- The listener on the signal of the caller. -/
def abort (c : FileCall) : FileCall :=
  let c := { c with aborted := true }
  match c.awaits with
  | .metadata | .download => { c with cancelled := true }
  | .offlineEntry | .nothing _ => c

def step (c : FileCall) : FileEvent → Option FileCall
  | .signIn account => some { c with account := account }
  | .abort => some c.abort
  | .store account entry => some { c with copies := Function.update c.copies account entry }
  | .metadata outcome =>
      if c.metadata.isSome = true then none else some { c with metadata := some outcome }
  | .lookUp ok =>
      if c.offlineEntry.isSome = true then none
      else
        let entry := if ok = false ∨ c.userId = [] then none else c.copies c.userId
        some { c with offlineEntry := some (entry.map (c.userId, ·)) }
  | .send =>
      match c.download with
      | .running _ => some { c with download := .running (some c.account) }
      | _ => none
  | .downloaded (.ok blob) =>
      match c.download with
      | .running (some account) =>
          if c.cancelled = true then none else some { c with download := .done account blob }
      | _ => none
  | .downloaded (.error failure) =>
      match c.download with
      | .running _ => some { c with download := .failed failure }
      | _ => none
  | .takeUp => c.takeUp

/-! ## Whose file it is -/

/-- What the server has said, or not said, allows the copy. -/
def Allows (c : FileCall) (entry : OfflineBookEntry) : Prop :=
  (∃ book hash, c.metadata = some (.ok book) ∧ book.contentHash = some hash ∧ hash ≠ [] ∧
    entry.contentHash = hash) ∨
  (c.metadata = some (.error .unreachable) ∨ c.download = .failed .unreachable) ∧
    ∀ book, c.metadata = some (.ok book) → sameHash entry book = true

/-- A step resolves the promise only before an abort, with a file of the account that is
signed in, and with an offline copy only where it is of the caller and allowed. -/
def Safe (caller : Text) (c : FileCall) (_ : FileEvent) (c' : FileCall) : Prop :=
  ∀ delivery account, c.awaits ≠ .nothing delivery → c'.awaits = .nothing delivery →
    delivery.account = some account →
    c'.aborted = false ∧ c'.account = account ∧
      ∀ entry, delivery = .cached account entry → account = caller ∧ c'.Allows entry

/-- What the checks of `createBookFile` do not see: a request of the download goes out under
another account before the metadata has been taken up; after that, another account signs in than
the download's, or the caller aborts while the file waits to be taken up. -/
def Disturbs (c : FileCall) : FileEvent → Prop
  | .signIn account => c.awaits = .download ∧ ∃ owner ∈ c.download.account, account ≠ owner
  | .abort => c.awaits = .download ∧ ∃ owner blob, c.download = .done owner blob
  | .send => c.awaits = .metadata ∧ c.account ≠ c.userId
  | _ => False

structure Consistent (caller : Text) (c : FileCall) : Prop where
  userId : c.userId = caller
  offlineEntry : ∀ owner entry, c.offlineEntry = some (some (owner, entry)) → owner = caller
  cached : ∀ owner entry, c.cached = some (owner, entry) → owner = caller
  book : ∀ book, c.book = some book → c.metadata = some (.ok book)
  known : c.awaits = .download → ∃ book, c.book = some book

/-- Whose file is on its way: before the metadata has been taken up the caller's, then that of the
account that is signed in. -/
structure Owned (c : FileCall) : Prop where
  early : c.awaits = .offlineEntry → c.download = .idle
  before : c.awaits = .metadata → ∀ owner ∈ c.download.account, owner = c.userId
  after : c.awaits = .download → ∀ owner ∈ c.download.account, owner = c.account
  stopped : c.awaits = .download → c.aborted = true → c.cancelled = true
  whole : c.awaits = .download → ∀ owner blob, c.download = .done owner blob → c.aborted = false

variable {caller : Text} {c c' : FileCall} {e : FileEvent}

theorem consistent_start (account : Text) (aborted : Bool)
    (copies : Text → Option OfflineBookEntry) : Consistent account (start account aborted copies) :=
  ⟨rfl, nofun, nofun, nofun, nofun⟩

theorem sameHash_iff {entry : OfflineBookEntry} {book : Book} : sameHash entry book = true ↔
    ∃ hash, book.contentHash = some hash ∧ hash ≠ [] ∧ entry.contentHash = hash := by
  rw [sameHash]
  split
  · next hash h =>
    rw [Bool.and_eq_true, decide_eq_true_eq, decide_eq_true_eq]
    constructor
    · rintro ⟨hne, heq⟩
      exact ⟨hash, h, hne, heq⟩
    · rintro ⟨_, hsome, hne, heq⟩
      cases h.symm.trans hsome
      exact ⟨hne, heq⟩
  · next h => simp [h]

/-- The two ways out of the `catch` clause. -/
theorem recover_cases (c : FileCall) (failure : Failure) :
    (∃ reason, c.recover failure = { c with cancelled := true }.settle (.rejected reason)) ∨
      ∃ owner entry, c.recover failure = { c with cancelled := true }.settle (.cached owner entry) ∧
        c.aborted = false ∧ c.cached = some (owner, entry) ∧ failure = .unreachable ∧
        c.account = c.userId ∧ ∀ book, c.book = some book → sameHash entry book = true := by
  rw [recover]
  dsimp only
  split
  · exact Or.inl ⟨_, rfl⟩
  · next habort =>
    rw [Bool.not_eq_true] at habort
    split
    · next owner entry hcached =>
      split
      · next hall =>
        obtain ⟨hfailure, haccount, hbook⟩ := hall
        refine Or.inr ⟨owner, entry, rfl, habort, hcached, hfailure, haccount, ?_⟩
        intro book hb
        rw [hb] at hbook
        exact hbook
      · exact Or.inl ⟨_, rfl⟩
    · exact Or.inl ⟨_, rfl⟩

theorem recover_safe (h : Consistent caller c) (failure : Failure)
    (hfailure : failure = .unreachable →
      c.metadata = some (.error .unreachable) ∨ c.download = .failed .unreachable)
    (hbook : ∀ book, c.metadata = some (.ok book) → c.book = some book) :
    Safe caller c e (c.recover failure) := by
  intro delivery account hopen hend haccount
  rcases recover_cases c failure with ⟨reason, heq⟩ | ⟨owner, entry, heq, habort, hcached, hf, hu, hb⟩
  · rw [heq] at hend
    cases hend
    cases haccount
  · rw [heq] at hend ⊢
    cases hend
    have howner := h.cached owner entry hcached
    cases haccount
    refine ⟨habort, ?_, ?_⟩
    · rw [howner, ← h.userId]
      exact hu
    · rintro _ ⟨⟩
      exact ⟨howner, Or.inr ⟨hfailure hf, fun book hmeta => hb book (hbook book hmeta)⟩⟩

/-- A step after which the call still waits resolves nothing. -/
theorem safe_of_waiting (h : ∀ d, c'.awaits = .nothing d → c.awaits = .nothing d) :
    Safe caller c e c' :=
  fun delivery _ hopen hend => absurd (h delivery hend) hopen

theorem takeBook_safe (h : Consistent caller c) {book : Book}
    (hmeta : c.metadata = some (.ok book)) : Safe caller c e (c.takeBook book) := by
  have hnow : Consistent caller { c with book := some book } := by
    refine ⟨h.userId, h.offlineEntry, h.cached, ?_, fun _ => ⟨book, rfl⟩⟩
    rintro _ ⟨⟩
    exact hmeta
  have hrecover : ∀ failure, failure ≠ .unreachable →
      Safe caller c e ({ c with book := some book }.recover failure) := by
    intro failure hne
    refine recover_safe (e := e) hnow failure (absurd · hne) ?_
    intro other hother
    cases hmeta.symm.trans hother
    rfl
  rw [takeBook]
  dsimp only
  split
  · exact hrecover .abort nofun
  · next habort =>
    split
    · exact hrecover .api nofun
    · next hu =>
      rw [not_not] at hu
      split
      · next owner entry hfound =>
        obtain ⟨hcached, hsame⟩ := Option.filter_eq_some_iff.mp hfound
        obtain ⟨hash, hhash, hne, heq⟩ := sameHash_iff.mp hsame
        have howner := h.cached owner entry hcached
        rw [Bool.not_eq_true] at habort
        rintro delivery account - ⟨⟩ ⟨⟩
        refine ⟨habort, ?_, ?_⟩
        · rw [howner, ← h.userId]
          exact hu
        · rintro _ ⟨⟩
          exact ⟨howner, Or.inl ⟨book, hash, hmeta, hhash, hne, heq⟩⟩
      · exact safe_of_waiting nofun

theorem takeUp_safe (h : Consistent caller c) (howned : c.Owned) (hstep : c.takeUp = some c') :
    Safe caller c e c' := by
  rw [takeUp] at hstep
  split at hstep
  · next hawaits =>
    obtain ⟨entry, -, rfl⟩ := Option.map_eq_some_iff.mp hstep
    rw [takeEntry]
    split
    · rintro delivery account - ⟨⟩ ⟨⟩
    · exact safe_of_waiting nofun
  · next hawaits =>
    split at hstep
    · next book hm =>
      cases hstep
      exact takeBook_safe h hm
    · next failure hm =>
      cases hstep
      apply recover_safe h failure
      · rintro rfl
        exact Or.inl hm
      · intro book hbook
        cases hm.symm.trans hbook
    · cases hstep
  · next hawaits =>
    split at hstep
    · next account blob book hdone hbook =>
      cases hstep
      rintro delivery account' - ⟨⟩ ⟨⟩
      have haccount : account = c.account := howned.after hawaits account (by rw [hdone]; rfl)
      exact ⟨howned.whole hawaits account blob hdone, haccount.symm, nofun⟩
    · next failure hfailed =>
      cases hstep
      apply recover_safe h failure
      · rintro rfl
        exact Or.inr hfailed
      · intro book hbook
        obtain ⟨known, hknown⟩ := h.known hawaits
        have hm := h.book known hknown
        cases hm.symm.trans hbook
        exact hknown
    · cases hstep
  · cases hstep

theorem Consistent.recover (h : Consistent caller c) (failure : Failure) :
    Consistent caller (c.recover failure) := by
  rcases recover_cases c failure with ⟨reason, heq⟩ | ⟨owner, entry, heq, -⟩
  · rw [heq]
    exact ⟨h.userId, h.offlineEntry, h.cached, h.book, nofun⟩
  · rw [heq]
    exact ⟨h.userId, h.offlineEntry, h.cached, h.book, nofun⟩

theorem Consistent.takeUp (h : Consistent caller c) (hstep : c.takeUp = some c') :
    Consistent caller c' := by
  rw [FileCall.takeUp] at hstep
  split at hstep
  · obtain ⟨entry, hentry, rfl⟩ := Option.map_eq_some_iff.mp hstep
    rw [takeEntry]
    split
    · exact ⟨h.userId, h.offlineEntry, h.cached, h.book, nofun⟩
    · refine ⟨h.userId, h.offlineEntry, ?_, h.book, nofun⟩
      rintro owner found rfl
      exact h.offlineEntry owner found hentry
  · split at hstep
    · next book hm =>
      cases hstep
      have hnow : Consistent caller { c with book := some book } := by
        refine ⟨h.userId, h.offlineEntry, h.cached, ?_, fun _ => ⟨book, rfl⟩⟩
        rintro _ ⟨⟩
        exact hm
      rw [takeBook]
      dsimp only
      split
      · exact hnow.recover _
      · split
        · exact hnow.recover _
        · split
          · exact ⟨hnow.userId, hnow.offlineEntry, hnow.cached, hnow.book, nofun⟩
          · exact ⟨hnow.userId, hnow.offlineEntry, hnow.cached, hnow.book, fun _ => ⟨book, rfl⟩⟩
    · cases hstep
      exact h.recover _
    · cases hstep
  · split at hstep
    · cases hstep
      exact ⟨h.userId, h.offlineEntry, h.cached, h.book, nofun⟩
    · cases hstep
      exact h.recover _
    · cases hstep
  · cases hstep

/-- What a step other than the continuation leaves alone. -/
structure Around (c c' : FileCall) : Prop where
  userId : c'.userId = c.userId
  cached : c'.cached = c.cached
  book : c'.book = c.book
  awaits : c'.awaits = c.awaits
  metadata : c'.metadata = c.metadata ∨ c.metadata = none
  offlineEntry : c'.offlineEntry = c.offlineEntry ∨
    ∃ entry : Option OfflineBookEntry, c'.offlineEntry = some (entry.map (c.userId, ·))

theorem step_around (hstep : c.step e = some c') (he : e ≠ .takeUp) : Around c c' := by
  cases e with
  | signIn account =>
      cases hstep
      exact ⟨rfl, rfl, rfl, rfl, Or.inl rfl, Or.inl rfl⟩
  | abort =>
      cases hstep
      rw [abort]
      dsimp only
      split <;> exact ⟨rfl, rfl, rfl, rfl, Or.inl rfl, Or.inl rfl⟩
  | store account entry =>
      cases hstep
      exact ⟨rfl, rfl, rfl, rfl, Or.inl rfl, Or.inl rfl⟩
  | metadata outcome =>
      rw [step] at hstep
      split at hstep
      · cases hstep
      · next hnone =>
        cases hstep
        rw [Bool.not_eq_true, Option.isSome_eq_false_iff, Option.isNone_iff_eq_none] at hnone
        exact ⟨rfl, rfl, rfl, rfl, Or.inr hnone, Or.inl rfl⟩
  | lookUp ok =>
      rw [step] at hstep
      split at hstep
      · cases hstep
      · cases hstep
        exact ⟨rfl, rfl, rfl, rfl, Or.inl rfl, Or.inr ⟨_, rfl⟩⟩
  | send =>
      rw [step] at hstep
      split at hstep
      · cases hstep
        exact ⟨rfl, rfl, rfl, rfl, Or.inl rfl, Or.inl rfl⟩
      · cases hstep
  | downloaded outcome =>
      cases outcome with
      | ok blob =>
          rw [step] at hstep
          split at hstep
          · split at hstep
            · cases hstep
            · cases hstep
              exact ⟨rfl, rfl, rfl, rfl, Or.inl rfl, Or.inl rfl⟩
          · cases hstep
      | error failure =>
          rw [step] at hstep
          split at hstep
          · cases hstep
            exact ⟨rfl, rfl, rfl, rfl, Or.inl rfl, Or.inl rfl⟩
          · cases hstep
  | takeUp => exact absurd rfl he

theorem Consistent.step (h : Consistent caller c) (hstep : c.step e = some c') :
    Consistent caller c' := by
  by_cases he : e = .takeUp
  · subst he
    exact h.takeUp hstep
  · have haround := step_around hstep he
    refine ⟨haround.userId.trans h.userId, ?_, ?_, ?_, ?_⟩
    · intro owner entry hentry
      rcases haround.offlineEntry with heq | ⟨found, heq⟩
      · exact h.offlineEntry owner entry (heq ▸ hentry)
      · rw [heq] at hentry
        obtain ⟨_, -, hpair⟩ := Option.map_eq_some_iff.mp (Option.some.inj hentry)
        rw [← h.userId]
        exact (congrArg Prod.fst hpair).symm
    · rw [haround.cached]
      exact h.cached
    · intro book hbook
      rw [haround.book] at hbook
      have hmeta := h.book book hbook
      rcases haround.metadata with heq | hnone
      · rw [heq]
        exact hmeta
      · rw [hnone] at hmeta
        cases hmeta
    · rw [haround.awaits, haround.book]
      exact h.known

/-! ## Runs -/

theorem owned_start (account : Text) (aborted : Bool) (copies : Text → Option OfflineBookEntry) :
    (start account aborted copies).Owned := ⟨fun _ => rfl, nofun, nofun, nofun, nofun⟩

theorem owned_of_settled {delivery : Delivery} (h : c.awaits = .nothing delivery) : c.Owned := by
  constructor <;> simp [h]

theorem recover_owned (c : FileCall) (failure : Failure) : (c.recover failure).Owned := by
  rcases recover_cases c failure with ⟨reason, heq⟩ | ⟨owner, entry, heq, -⟩
  · rw [heq]
    exact owned_of_settled rfl
  · rw [heq]
    exact owned_of_settled rfl

/-- The account is checked together with the metadata, and whatever has been sent before was sent
for the caller. -/
theorem Owned.takeBook (h : c.Owned) (hawaits : c.awaits = .metadata) (book : Book) :
    (c.takeBook book).Owned := by
  rw [FileCall.takeBook]
  dsimp only
  split
  · exact recover_owned _ _
  · next habort =>
    split
    · exact recover_owned _ _
    · next haccount =>
      rw [not_not] at haccount
      split
      · exact owned_of_settled rfl
      · refine ⟨nofun, nofun, fun _ owner howner => ?_, fun _ hnow => absurd hnow habort,
          fun _ _ _ _ => Bool.eq_false_iff.mpr habort⟩
        dsimp only at howner
        split at howner
        · cases howner
        · exact (h.before hawaits owner howner).trans haccount.symm

theorem Owned.takeUp (h : c.Owned) (hstep : c.takeUp = some c') : c'.Owned := by
  rw [FileCall.takeUp] at hstep
  split at hstep
  · obtain ⟨entry, -, rfl⟩ := Option.map_eq_some_iff.mp hstep
    rw [takeEntry]
    split
    · exact owned_of_settled rfl
    · refine ⟨nofun, fun _ owner howner => ?_, nofun, nofun, nofun⟩
      dsimp only at howner
      split at howner <;> cases howner
  · next hawaits =>
    split at hstep
    · cases hstep
      exact h.takeBook hawaits _
    · cases hstep
      exact recover_owned _ _
    · cases hstep
  · split at hstep
    · cases hstep
      exact owned_of_settled rfl
    · cases hstep
      exact recover_owned _ _
    · cases hstep
  · cases hstep

theorem Owned.abort (h : c.Owned) (hcalm : ¬ c.Disturbs .abort) : c.abort.Owned := by
  have hwhole : c.awaits = .download → ∀ owner blob, c.download ≠ .done owner blob :=
    fun hawaits owner blob hdone => hcalm ⟨hawaits, owner, blob, hdone⟩
  rw [FileCall.abort]
  dsimp only
  split
  · exact ⟨h.early, h.before, h.after, fun _ _ => rfl,
      fun hawaits owner blob hdone => absurd hdone (hwhole hawaits owner blob)⟩
  · exact ⟨h.early, h.before, h.after, fun _ _ => rfl,
      fun hawaits owner blob hdone => absurd hdone (hwhole hawaits owner blob)⟩
  · next hawaits =>
    exact ⟨h.early, h.before, h.after, by simp [hawaits], by simp [hawaits]⟩
  · next hawaits => exact owned_of_settled hawaits

theorem Owned.step (h : c.Owned) (hstep : c.step e = some c') (hcalm : ¬ c.Disturbs e) : c'.Owned := by
  cases e with
  | signIn account =>
      cases hstep
      refine ⟨h.early, h.before, fun hawaits owner howner => ?_, h.stopped, h.whole⟩
      by_contra hne
      exact hcalm ⟨hawaits, owner, howner, Ne.symm hne⟩
  | abort =>
      cases hstep
      exact h.abort hcalm
  | store account entry =>
      cases hstep
      exact ⟨h.early, h.before, h.after, h.stopped, h.whole⟩
  | metadata outcome =>
      rw [FileCall.step] at hstep
      split at hstep
      · cases hstep
      · cases hstep
        exact ⟨h.early, h.before, h.after, h.stopped, h.whole⟩
  | lookUp ok =>
      rw [FileCall.step] at hstep
      split at hstep
      · cases hstep
      · cases hstep
        exact ⟨h.early, h.before, h.after, h.stopped, h.whole⟩
  | send =>
      rw [FileCall.step] at hstep
      split at hstep
      · next hrunning =>
        cases hstep
        refine ⟨fun hawaits => ?_, fun hawaits owner howner => ?_, fun _ owner howner => ?_,
          h.stopped, nofun⟩
        · rw [h.early hawaits] at hrunning
          cases hrunning
        · cases howner
          by_contra hne
          exact hcalm ⟨hawaits, hne⟩
        · cases howner
          rfl
      · cases hstep
  | downloaded outcome =>
      cases outcome with
      | ok blob =>
          rw [FileCall.step] at hstep
          split at hstep
          · next account hrunning =>
            split at hstep
            · cases hstep
            · next hcancelled =>
              cases hstep
              have hsent : account ∈ c.download.account := by
                rw [hrunning]
                rfl
              refine ⟨fun hawaits => ?_, fun hawaits owner howner => ?_, fun hawaits owner howner => ?_,
                h.stopped, fun hawaits _ _ _ => ?_⟩
              · rw [h.early hawaits] at hrunning
                cases hrunning
              · cases howner
                exact h.before hawaits account hsent
              · cases howner
                exact h.after hawaits account hsent
              · by_contra haborted
                exact hcancelled (h.stopped hawaits (by simpa using haborted))
          · cases hstep
      | error failure =>
          rw [FileCall.step] at hstep
          split at hstep
          · next account hrunning =>
            cases hstep
            refine ⟨fun hawaits => ?_, nofun, nofun, h.stopped, nofun⟩
            rw [h.early hawaits] at hrunning
            cases hrunning
          · cases hstep
  | takeUp => exact h.takeUp hstep

/-- Another account signs in and out again while the metadata is awaited. -/
def revisited : List FileEvent :=
  [.lookUp true, .takeUp, .send, .signIn "v".toList, .metadata (.ok ⟨"b".toList, "b.epub".toList, none⟩),
    .signIn "u".toList, .takeUp, .send, .downloaded (.ok ⟨[1], []⟩), .takeUp]

end FileCall

end ZReader.Frontend.Offline
