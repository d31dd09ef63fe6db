import ZReader.Handlers.Accounts

namespace ZReader.Handlers

open Lib.Utf8 Lib.Strings Lib.KeyValue Lib.Fallible Lib.Transition Storage

structure LoginRequest where
  username : Bytes
  password : Bytes
  deriving DecidableEq

inductive LoginReply
  /-- A session for the account has been stored. -/
  | session (user : User)
  | refused (status : Nat) (message : String)
  deriving DecidableEq

/-- `AuthHandler.Login`. The password is required, `check` is `CheckPassword`, and `stored`
tells whether the session can be stored. -/
def login (check : Bytes → Bytes → Bool) (stored : Bool) (req : LoginRequest) (db : Tx) : LoginReply :=
  if req.password = [] then .refused 400 "请输入密码"
  else
    let username := trimSpace req.username
    if username = [] then .refused 400 "请输入用户名"
    else if req.password.length > maxPasswordLength then .refused 401 "用户名或密码错误"
    else
      match getUserByUsername db username with
      | none => .refused 401 "用户名或密码错误"
      | some user =>
          if check user.passwordHash req.password then
            if stored then .session user else .refused 500 "保存登录状态失败"
          else .refused 401 "用户名或密码错误"

/-- `AuthHandler.Register` from its first call to its answer, with no other request in
between: `hash` is `HashPassword`, `id` the generated identifier. -/
def registerAlone (hash : Bytes → Option Bytes) (id : Bytes) (now : Time) (stored : Bool)
    (req : RegisterRequest) (db : Tx) : Tx × RegisterReply :=
  match register req with
  | .lookUp username password =>
      match getUserByUsername db username with
      | some _ => (db, .status 409)
      | none =>
          let first := (listUsers db).isEmpty
          match hash password with
          | none => (db, .status 500)
          | some passwordHash =>
              let user := newUser username passwordHash id now
              match saveUser user db with
              | .error _ => (db, .status 500)
              | .ok tx =>
                  match if first then assignUnownedDataToUser user.id tx else .ok tx with
                  | .error _ => (tx, .status 500)
                  | .ok tx => (tx, if stored then .created user else .status 500)
  | .answered reply => (db, reply)
  | _ => (db, .status 500)

variable {hash : Bytes → Option Bytes} {check : Bytes → Bytes → Bool} {id : Bytes} {now : Time}
  {stored : Bool} {db db' : Tx} {user : User}

/-- An accepted password is stored as the hash of the trimmed string. -/
theorem register_eq_lookUp {req : RegisterRequest} {username password : Bytes}
    (h : register req = .lookUp username password) :
    username = trimSpace req.username ∧ password = trimSpace req.password ∧ username ≠ [] ∧
      minPasswordLength ≤ password.length ∧ password.length ≤ maxPasswordLength := by
  simp only [register] at h
  split at h
  · cases h
  · next hname =>
    split at h
    · cases h
    · next hmin =>
      split at h
      · cases h
      · next hmax =>
        cases h
        exact ⟨rfl, rfl, fun he => hname (.inl he), not_lt.mp hmin, not_lt.mp hmax⟩

theorem register_cases (req : RegisterRequest) :
    (∃ username password, register req = .lookUp username password) ∨
      ∃ reply, register req = .answered reply := by
  simp only [register]
  split
  · exact .inr ⟨_, rfl⟩
  · split
    · exact .inr ⟨_, rfl⟩
    · split
      · exact .inr ⟨_, rfl⟩
      · exact .inl ⟨_, _, rfl⟩

theorem register_eq_answered {req : RegisterRequest} {reply : RegisterReply}
    (h : register req = .answered reply) : reply = .status 400 := by
  simp only [register] at h
  split at h
  · cases h
    rfl
  · split at h
    · cases h
      rfl
    · split at h
      · cases h
        rfl
      · cases h

theorem getUserByUsername_saveUser (h : saveUser user db = .ok db') :
    getUserByUsername db' user.username = some user := by
  simp only [saveUser] at h
  obtain ⟨users, husers, h⟩ := bind_eq_ok.mp h
  obtain ⟨names, hnames, h⟩ := bind_eq_ok.mp h
  cases h
  have hid : names.get (normalizeUsername user.username) = some user.id := by
    rw [Bucket.get_put (store_eq_ok.mp hnames), if_pos rfl]
  have huser : users.get user.id = some user := by
    rw [Bucket.get_put (store_eq_ok.mp husers), if_pos rfl]
  simp only [getUserByUsername, hid, Option.bind_some]
  exact huser

/-- What a successful registration leaves behind. -/
theorem registerAlone_created {req : RegisterRequest}
    (h : registerAlone hash id now stored req db = (db', .created user)) :
    ∃ password, password = trimSpace req.password ∧ trimSpace req.username ≠ [] ∧
      minPasswordLength ≤ password.length ∧ password.length ≤ maxPasswordLength ∧
      hash password = some user.passwordHash ∧
      getUserByUsername db' (trimSpace req.username) = some user := by
  rw [registerAlone] at h
  split at h
  · next username password hreg =>
    obtain ⟨rfl, rfl, hname, hmin, hmax⟩ := register_eq_lookUp hreg
    split at h
    · cases h
    · split at h
      · cases h
      · next passwordHash hhash =>
        simp only at h
        split at h
        · cases h
        · next tx hsave =>
          have hfound := getUserByUsername_saveUser hsave
          split at h
          · cases h
          · next tx' hassign =>
            have hsame : SameAccounts tx tx' := by
              split at hassign
              · exact assignUnownedDataToUser_accounts hassign
              · cases hassign
                exact .refl tx
            rw [Prod.mk.injEq] at h
            obtain ⟨rfl, hreply⟩ := h
            split at hreply
            · cases hreply
              refine ⟨_, rfl, hname, hmin, hmax, hhash, ?_⟩
              rw [getUserByUsername, hsame.users, hsame.usernames]
              exact hfound
            · cases hreply
  · next reply hreg =>
    rw [register_eq_answered hreg] at h
    cases h
  · cases h

/-! ## The two handlers agree -/

/-- Which strings open a session of the account, when the hash accepts exactly the string
it was made of. -/
theorem login_session_iff {username password p : Bytes} (hname : trimSpace username ≠ [])
    (hfound : getUserByUsername db (trimSpace username) = some user)
    (hcheck : ∀ p, check user.passwordHash p = true ↔ p = password)
    (hmin : minPasswordLength ≤ password.length) (hmax : password.length ≤ maxPasswordLength) :
    login check true ⟨username, p⟩ db = .session user ↔ p = password := by
  constructor
  · intro h
    simp only [login, if_neg hname, hfound] at h
    split at h
    · cases h
    · split at h
      · cases h
      · split at h
        · next hp => exact (hcheck p).mp hp
        · cases h
  · rintro rfl
    have hne : p ≠ [] := by
      rintro rfl
      simp [minPasswordLength] at hmin
    simp only [login, if_neg hne, if_neg hname, if_neg (not_lt.mpr hmax), hfound, hcheck, if_true]

/-- Whoever logs in under a name gets the account of that name. -/
theorem login_session_user {username p : Bytes} {other : User}
    (hfound : getUserByUsername db (trimSpace username) = some user)
    (h : login check stored ⟨username, p⟩ db = .session other) :
    login check true ⟨username, p⟩ db = .session user := by
  simp only [login, hfound] at h ⊢
  split at h
  · cases h
  · next hp =>
    rw [if_neg hp]
    split at h
    · cases h
    · next hname =>
      rw [if_neg hname]
      split at h
      · cases h
      · next hmax =>
        rw [if_neg hmax]
        split at h
        · next hc => simp only [if_pos hc, if_true]
        · cases h

/-- After a registration has succeeded and as long as the account stays as it is, the two
strings log in and no other password does, exactly when the password has no white space at
its ends. -/
theorem login_agrees_with_register_iff {req : RegisterRequest} {later : Tx}
    (hexact : ∀ password passwordHash, hash password = some passwordHash →
      ∀ p, check passwordHash p = true ↔ p = password)
    (hreg : registerAlone hash id now stored req db = (db', .created user))
    (hlater : getUserByUsername later (trimSpace req.username) =
      getUserByUsername db' (trimSpace req.username)) :
    (login check true ⟨req.username, req.password⟩ later = .session user ∧
        ∀ p, p ≠ req.password → ∀ stored other,
          login check stored ⟨req.username, p⟩ later ≠ .session other) ↔
      trimSpace req.password = req.password := by
  obtain ⟨password, hpassword, hname, hmin, hmax, hhash, hfound⟩ := registerAlone_created hreg
  rw [← hlater] at hfound
  have hlogin (p : Bytes) := login_session_iff (p := p) hname hfound (hexact _ _ hhash) hmin hmax
  rw [hlogin, ← hpassword]
  constructor
  · rintro ⟨h, -⟩
    exact h.symm
  · intro h
    refine ⟨h.symm, ?_⟩
    intro p hp stored other hsession
    have hopen := login_session_user hfound hsession
    rw [hlogin, h] at hopen
    exact hp hopen

/-- The runs of the server from the given database without requests. -/
abbrev RunFrom (db : Tx) : AccountServer → Prop :=
  Reachable (· = AccountServer.mk db []) (Steps AccountServer.step (fun _ _ => True))

theorem RunFrom.call {db₀ db db' : Tx} {r r' : Registration} (h : RunFrom db₀ ⟨db, [r]⟩)
    (a : AccountAction) (hs : AccountServer.step ⟨db, [r]⟩ a = some ⟨db', [r']⟩) :
    RunFrom db₀ ⟨db', [r']⟩ := Reachable.next (a := a) h ⟨trivial, hs⟩

/-- `Register` on its own is one of the runs of the server. -/
theorem registerAlone_run (hash : Bytes → Option Bytes) (id : Bytes) (now : Time) (stored : Bool)
    (req : RegisterRequest) (db : Tx) :
    RunFrom db ⟨(registerAlone hash id now stored req db).1,
      [.answered (registerAlone hash id now stored req db).2]⟩ := by
  have hreceived : RunFrom db ⟨db, [register req]⟩ :=
    Reachable.next (a := .register req) (.start rfl) ⟨trivial, rfl⟩
  rw [registerAlone]
  split
  · next username password hreg =>
    rw [hreg] at hreceived
    split
    · next user hfound =>
      refine hreceived.call (.lookUp 0) ?_
      simp [AccountServer.step, AccountServer.stepRegistration, AccountServer.proceed, hfound]
    · next hnone =>
      have hlist : RunFrom db ⟨db, [.list username password]⟩ := by
        refine hreceived.call (.lookUp 0) ?_
        simp [AccountServer.step, AccountServer.stepRegistration, AccountServer.proceed, hnone]
      have hhash : RunFrom db ⟨db, [.hash username password (listUsers db).isEmpty]⟩ :=
        hlist.call (.list 0) rfl
      simp only
      split
      · next hfail => exact hhash.call (.hash 0 none) rfl
      · next passwordHash _ =>
        have hsave : RunFrom db ⟨db, [.save username passwordHash (listUsers db).isEmpty]⟩ :=
          hhash.call (.hash 0 (some passwordHash)) rfl
        split
        · next e he =>
          refine hsave.call (.save 0 id now) ?_
          simp [AccountServer.step, AccountServer.stepRegistration, AccountServer.proceed, he]
        · next tx htx =>
          set first := (listUsers db).isEmpty
          set user := newUser username passwordHash id now
          have hsaved : RunFrom db ⟨tx, [if first then .assign user else .session user]⟩ := by
            refine hsave.call (.save 0 id now) ?_
            simp [AccountServer.step, AccountServer.stepRegistration, AccountServer.proceed, user, htx]
          have hanswer {tx' : Tx} (h : RunFrom db ⟨tx', [.session user]⟩) :
              RunFrom db ⟨tx', [.answered (if stored then .created user else .status 500)]⟩ :=
            h.call (.session 0 stored) rfl
          by_cases hfirst : first = true
          · simp only [hfirst, if_true] at hsaved ⊢
            split
            · next e he =>
              refine hsaved.call (.assign 0) ?_
              simp [AccountServer.step, AccountServer.stepRegistration, AccountServer.proceed, he]
            · next tx' htx' =>
              apply hanswer
              refine hsaved.call (.assign 0) ?_
              simp [AccountServer.step, AccountServer.stepRegistration, AccountServer.proceed, htx']
          · simp only [hfirst, Bool.false_eq_true, if_false] at hsaved ⊢
            exact hanswer hsaved
  · next reply hreg =>
    rw [hreg] at hreceived
    exact hreceived
  · next hlook hans =>
    obtain ⟨u, p, hreg⟩ | ⟨r, hreg⟩ := register_cases req
    · exact absurd hreg (hlook u p)
    · exact absurd hreg (hans r)

/-! ## A password with white space around it -/

/-- A hash that keeps the password. -/
def plainHash (password : Bytes) : Option Bytes := some password

def plainCheck (passwordHash password : Bytes) : Bool := passwordHash = password

theorem plainCheck_exact (password passwordHash : Bytes) (h : plainHash password = some passwordHash)
    (p : Bytes) : plainCheck passwordHash p = true ↔ p = password := by
  cases h
  simp only [plainCheck, decide_eq_true_eq]
  exact eq_comm

def bob : User := newUser (ascii "bob") (ascii "password") (ascii "a") ⟨1⟩

/-- Bob registers in an empty database, with the given password. -/
def bobRegisters (password : Bytes) : Tx × RegisterReply :=
  registerAlone plainHash (ascii "a") ⟨1⟩ true ⟨ascii "bob", password⟩ .migrated

theorem bobRegisters_spaced : (bobRegisters (ascii "password ")).2 = .created bob := by
  decide +kernel

theorem bobRegisters_plain : (bobRegisters (ascii "password")).2 = .created bob := by
  decide +kernel

theorem bobRegisters_eq {password : Bytes} (h : (bobRegisters password).2 = .created bob) :
    registerAlone plainHash (ascii "a") ⟨1⟩ true ⟨ascii "bob", password⟩ .migrated =
      ((bobRegisters password).1, .created bob) := by
  rw [← h]
  rfl

theorem bob_refused : login plainCheck true ⟨ascii "bob", ascii "password "⟩
    (bobRegisters (ascii "password ")).1 = .refused 401 "用户名或密码错误" := by
  decide +kernel

/-- The account is registered with `password` followed by a blank, and its owner is refused. -/
theorem spaced_password_refused :
    ¬∀ (hash : Bytes → Option Bytes) (check : Bytes → Bytes → Bool) (id : Bytes) (now : Time)
        (stored : Bool) (req : RegisterRequest) (db db' : Tx) (user : User),
      (∀ password passwordHash, hash password = some passwordHash →
        ∀ p, check passwordHash p = true ↔ p = password) →
      registerAlone hash id now stored req db = (db', .created user) →
      login check true ⟨req.username, req.password⟩ db' = .session user := by
  intro h
  have hopen := h plainHash plainCheck (ascii "a") ⟨1⟩ true ⟨ascii "bob", ascii "password "⟩
    .migrated (bobRegisters (ascii "password ")).1 bob plainCheck_exact
    (bobRegisters_eq bobRegisters_spaced)
  rw [bob_refused] at hopen
  cases hopen

theorem bob_logs_in : login plainCheck true ⟨ascii "bob", ascii "password"⟩
    (bobRegisters (ascii "password")).1 = .session bob := by
  have hsame : getUserByUsername (bobRegisters (ascii "password")).1 (trimSpace (ascii "bob")) =
      getUserByUsername (bobRegisters (ascii "password")).1 (trimSpace (ascii "bob")) := rfl
  have hiff := login_agrees_with_register_iff plainCheck_exact (bobRegisters_eq bobRegisters_plain)
    hsame
  exact (hiff.mpr (by decide +kernel)).1

end ZReader.Handlers
