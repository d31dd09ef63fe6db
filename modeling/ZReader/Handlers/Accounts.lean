import ZReader.Storage.Accounts

namespace ZReader.Handlers

open Lib.Utf8 Lib.Strings Lib.KeyValue Lib.Transition Storage

structure RegisterRequest where
  username : Bytes
  password : Bytes
  deriving DecidableEq

def minPasswordLength : Nat := 8
def maxUsernameLength : Nat := 50
def maxPasswordLength : Nat := 72

inductive RegisterReply
  /-- The account, for which a session has been stored. -/
  | created (user : User)
  | status (code : Nat)
  deriving DecidableEq

/-- A `Register` request between two of its calls. -/
inductive Registration
  | lookUp (username password : Bytes)
  | list (username password : Bytes)
  | hash (username password : Bytes) (first : Bool)
  | save (username passwordHash : Bytes) (first : Bool)
  | assign (user : User)
  | session (user : User)
  | answered (reply : RegisterReply)
  deriving DecidableEq

/-- The checks of the input. -/
def register (req : RegisterRequest) : Registration :=
  let username := trimSpace req.username
  let password := trimSpace req.password
  if username = [] ∨ username.length > maxUsernameLength then .answered (.status 400)
  else if password.length < minPasswordLength then .answered (.status 400)
  else if password.length > maxPasswordLength then .answered (.status 400)
  else .lookUp username password

def newUser (username passwordHash id : Bytes) (now : Time) : User where
  id := id
  username := username
  passwordHash := passwordHash
  role := []
  createdAt := now
  updatedAt := now

inductive AccountAction
  | register (req : RegisterRequest)
  | lookUp (i : Nat)
  | list (i : Nat)
  /-- The outcome of `HashPassword`. -/
  | hash (i : Nat) (result : Option Bytes)
  /-- `SaveUser` with the generated identifier. -/
  | save (i : Nat) (id : Bytes) (now : Time)
  | assign (i : Nat)
  /-- Whether the session was stored. -/
  | session (i : Nat) (stored : Bool)
  /-- A transaction of any other request. -/
  | other (op : Op)

structure AccountServer where
  db : Tx
  registrations : List Registration

namespace AccountServer

/-- The request number `i` goes on with the given database. -/
def proceed (s : AccountServer) (i : Nat) (db : Tx) (r : Registration) : AccountServer :=
  ⟨db, s.registrations.set i r⟩

/-- A call of one request. -/
def stepRegistration (s : AccountServer) (i : Nat) : Registration → AccountAction → Option AccountServer
  | .lookUp username password, .lookUp _ =>
      match getUserByUsername s.db username with
      | some _ => some (s.proceed i s.db (.answered (.status 409)))
      | none => some (s.proceed i s.db (.list username password))
  | .list username password, .list _ =>
      some (s.proceed i s.db (.hash username password (listUsers s.db).isEmpty))
  | .hash _ _ _, .hash _ none => some (s.proceed i s.db (.answered (.status 500)))
  | .hash username _ first, .hash _ (some passwordHash) =>
      some (s.proceed i s.db (.save username passwordHash first))
  | .save username passwordHash first, .save _ id now =>
      let user := newUser username passwordHash id now
      match saveUser user s.db with
      | .error _ => some (s.proceed i s.db (.answered (.status 500)))
      | .ok db => some (s.proceed i db (if first then .assign user else .session user))
  | .assign user, .assign _ =>
      match assignUnownedDataToUser user.id s.db with
      | .error _ => some (s.proceed i s.db (.answered (.status 500)))
      | .ok db => some (s.proceed i db (.session user))
  | .session user, .session _ stored =>
      some (s.proceed i s.db (.answered (if stored then .created user else .status 500)))
  | _, _ => none

def step (s : AccountServer) (a : AccountAction) : Option AccountServer :=
  match a with
  | .register req => some { s with registrations := s.registrations ++ [Handlers.register req] }
  | .other op => some { s with db := op.run s.db }
  | .lookUp i | .list i | .hash i _ | .save i _ _ | .assign i | .session i _ =>
      (s.registrations[i]?).bind (s.stepRegistration i · a)

/-- Identifiers are generated afresh, and only registrations save accounts. -/
def Admissible (s : AccountServer) : AccountAction → Prop
  | .save _ id _ => WellFormedID id ∧ s.db.users.get id = none
  | .other op => op.savesUser = false
  | _ => True

instance (s : AccountServer) : (a : AccountAction) → Decidable (s.Admissible a)
  | .save _ _ _ => inferInstanceAs (Decidable (_ ∧ _))
  | .other op => inferInstanceAs (Decidable (op.savesUser = false))
  | .register _ | .lookUp _ | .list _ | .hash _ _ | .assign _ | .session _ _ => isTrue trivial

/-- When an account is about to be saved, a lookup of its name still finds nobody. -/
def Registration.Unclaimed (db : Tx) : Registration → Prop
  | .save username _ _ => getUserByUsername db username = none
  | _ => True

instance (db : Tx) : (r : Registration) → Decidable (Registration.Unclaimed db r)
  | .save username _ _ => inferInstanceAs (Decidable (getUserByUsername db username = none))
  | .lookUp _ _ | .list _ _ | .hash _ _ _ | .assign _ | .session _ | .answered _ => isTrue trivial

/-- The saves of a run find their names unclaimed. -/
def Undisputed (s : AccountServer) (a : AccountAction) : Prop :=
  s.Admissible a ∧ match a with
    | .save i _ _ => ∀ r ∈ s.registrations[i]?, Registration.Unclaimed s.db r
    | _ => True

instance (s : AccountServer) : (a : AccountAction) → Decidable (s.Undisputed a)
  | .save _ _ _ | .register _ | .lookUp _ | .list _ | .hash _ _ | .assign _ | .session _ _
  | .other _ => inferInstanceAs (Decidable (_ ∧ _))

def Started (s : AccountServer) : Prop := s.db = .migrated ∧ s.registrations = []

/-! ## One call of a request -/

theorem stepRegistration_named {s s' : AccountServer} {i : Nat} {r : Registration}
    {a : AccountAction} (hn : Named s.db) (hr : s.registrations[i]? = some r)
    (hok : s.Undisputed a) (ha : ∀ j id now, a = .save j id now → j = i)
    (h : s.stepRegistration i r a = some s') : Named s'.db := by
  unfold stepRegistration at h
  split at h
  · split at h
    · cases h
      exact hn
    · cases h
      exact hn
  · cases h
    exact hn
  · cases h
    exact hn
  · cases h
    exact hn
  · next username passwordHash first j id now =>
    obtain ⟨⟨-, hnew⟩, hunclaimed⟩ := hok
    have hfree : Registration.Unclaimed s.db (.save username passwordHash first) := by
      apply hunclaimed
      rw [ha j id now rfl]
      exact hr
    obtain ⟨user, huser, hid, hname⟩ : ∃ user, newUser username passwordHash id now = user ∧
      user.id = id ∧ user.username = username := ⟨_, rfl, rfl, rfl⟩
    simp only [huser] at h
    rw [← hid] at hnew
    rw [Registration.Unclaimed, ← hname] at hfree
    split at h
    · cases h
      exact hn
    · next db hsave =>
      cases h
      exact hn.save hnew hfree hsave
  · split at h
    · cases h
      exact hn
    · next db hassign =>
      cases h
      exact hn.congr (assignUnownedDataToUser_accounts hassign)
  · cases h
    exact hn
  · cases h

theorem step_named {s s' : AccountServer} {a : AccountAction} (hn : Named s.db)
    (hok : s.Undisputed a) (h : s.step a = some s') : Named s'.db := by
  cases a with
  | register req =>
      cases h
      exact hn
  | other op =>
      cases h
      exact Op.run_named hn hok.1
  | save i id now =>
      obtain ⟨r, hr, h⟩ := Option.bind_eq_some_iff.mp h
      apply stepRegistration_named hn hr hok _ h
      intro j id' now' he
      cases he
      rfl
  | lookUp i | list i | hash i _ | assign i | session i _ =>
      obtain ⟨r, hr, h⟩ := Option.bind_eq_some_iff.mp h
      exact stepRegistration_named hn hr hok (by simp) h

/-! ## Runs -/

/-- At most one account has a name, and each is found by its own. -/
def UniqueNames (db : Tx) : Prop :=
  (∀ id id' user user', db.users.get id = some user → db.users.get id' = some user' →
    normalizeUsername user.username = normalizeUsername user'.username → id = id') ∧
  ∀ id user, db.users.get id = some user → getUserByUsername db user.username = some user

/-- As long as every account is saved while its name is unclaimed, names stay unique and
every account is found by its name. -/
theorem undisputed_uniqueNames {s : AccountServer}
    (h : Reachable Started (Steps step Undisputed) s) : UniqueNames s.db := by
  have hn : Named s.db := by
    refine h.invariant (fun s => Named s.db) ?_ ?_
    · intro s hs
      rw [hs.1]
      exact named_migrated
    · intro s a t hn hstep
      exact step_named hn hstep.1 hstep.2
  exact ⟨fun _ _ _ _ => hn.unique, fun _ _ => hn.getUserByUsername⟩

def nobody : AccountServer := ⟨.migrated, []⟩

theorem nobody_started : nobody.Started := ⟨rfl, rfl⟩

/-- A request that reads a name which is taken when it looks again. -/
theorem undisputed_second_refused : ∃ s, Reachable Started (Steps step Undisputed) s ∧
    s.registrations.length = 2 ∧ s.registrations[1]? = some (.answered (.status 409)) ∧
    UniqueNames s.db := by
  have hrun : (replay step Undisputed nobody
      [.register ⟨ascii "Bob", ascii "password"⟩, .register ⟨ascii " bob", ascii "passw0rd"⟩,
        .lookUp 0, .list 0, .hash 0 (some [1]), .save 0 (ascii "a") ⟨1⟩, .assign 0, .session 0 true,
        .lookUp 1]).any
      (fun s => s.registrations.length = 2 ∧
        s.registrations[1]? = some (.answered (.status 409))) = true := by decide +kernel
  obtain ⟨s, hs, hanswers⟩ := (Option.any_eq_true _ _).mp hrun
  rw [decide_eq_true_eq] at hanswers
  have hreach := replay_reachable _ _ (.start nobody_started) hs
  exact ⟨s, hreach, hanswers.1, hanswers.2, undisputed_uniqueNames hreach⟩

/-- Two requests look the same name up before either saves its account; both are
answered, and the name of the first account leads to the second. -/
theorem overlapping_registrations_collide : ∃ s, Reachable Started (Steps step Admissible) s ∧
    (∃ user user', s.registrations =
        [.answered (.created user), .answered (.created user')] ∧
      s.db.users.get user.id = some user ∧ s.db.users.get user'.id = some user' ∧
      user.id ≠ user'.id ∧
      normalizeUsername user.username = normalizeUsername user'.username ∧
      getUserByUsername s.db user.username = some user') ∧ ¬ UniqueNames s.db := by
  have hrun : (replay step Admissible nobody
      [.register ⟨ascii "Bob", ascii "password"⟩, .register ⟨ascii " bob", ascii "passw0rd"⟩,
        .lookUp 0, .lookUp 1, .list 0, .list 1, .hash 0 (some [1]), .hash 1 (some [2]),
        .save 0 (ascii "a") ⟨1⟩, .assign 0, .session 0 true, .save 1 (ascii "b") ⟨2⟩, .assign 1,
        .session 1 true]).any
      (fun s => s.registrations =
          [.answered (.created (newUser (ascii "Bob") [1] (ascii "a") ⟨1⟩)),
            .answered (.created (newUser (ascii "bob") [2] (ascii "b") ⟨2⟩))] ∧
        s.db.users.get (ascii "a") = some (newUser (ascii "Bob") [1] (ascii "a") ⟨1⟩) ∧
        s.db.users.get (ascii "b") = some (newUser (ascii "bob") [2] (ascii "b") ⟨2⟩) ∧
        normalizeUsername (ascii "Bob") = normalizeUsername (ascii "bob") ∧
        getUserByUsername s.db (ascii "Bob") =
          some (newUser (ascii "bob") [2] (ascii "b") ⟨2⟩)) = true := by decide +kernel
  obtain ⟨s, hs, hcollide⟩ := (Option.any_eq_true _ _).mp hrun
  rw [decide_eq_true_eq] at hcollide
  obtain ⟨hanswers, ha, hb, hname, hfound⟩ := hcollide
  have hne : ascii "a" ≠ ascii "b" := by decide
  refine ⟨s, replay_reachable _ _ (.start nobody_started) hs,
    ⟨_, _, hanswers, ha, hb, hne, hname, hfound⟩, ?_⟩
  intro hunique
  exact hne (hunique.1 _ _ _ _ ha hb hname)

end AccountServer

end ZReader.Handlers
