import ZReader.Storage.Sessions

namespace ZReader.Middleware.Auth

open Lib.Utf8 Lib.Strings Lib.KeyValue Lib.Fallible Storage

/-! ## Requests and sessions -/

structure Request where
  authorization : Bytes
  /-- the session cookie, when one is sent -/
  cookie : Option Bytes
  deriving DecidableEq

/-- `strings.TrimPrefix`. -/
def trimPrefix (s pre : Bytes) : Bytes := if pre <+: s then s.drop pre.length else s

def sessionTokenFromRequest (r : Request) : Bytes :=
  let token := trimSpace r.authorization
  let token := trimSpace (trimPrefix token (ascii "Bearer "))
  if token ≠ [] then token
  else
    match r.cookie with
    | none => []
    | some cookieToken => trimSpace cookieToken

inductive Reply
  /-- The request goes on with this token and account. -/
  | passed (token : Bytes) (user : User)
  | unauthorized (message : String)
  deriving DecidableEq

def sessionDuration : Int := 7 * 24 * 3600 * 10 ^ 9

/-- The session that `createSessionResponse` stores for an account. -/
def newSession (user : User) (token : Bytes) (now : Time) : Session where
  token := token
  userID := user.id
  username := user.username
  role := user.role
  createdAt := now
  expiresAt := ⟨now.nanos + sessionDuration⟩

section Server

variable (sha256 : Bytes → Bytes)

/-- The session is looked up in `sessions`, the account afterwards in `tx`. -/
def authRequired (r : Request) (now : Time) (sessions : Bucket Session) (tx : Tx) : Reply :=
  let token := sessionTokenFromRequest r
  if token = [] then .unauthorized "请先登录"
  else
    match getUserBySessionToken sha256 token now sessions tx with
    | none => .unauthorized "登录已失效，请重新登录"
    | some user => .passed token user

/-- What changes accounts or sessions. -/
inductive Action
  /-- The last call of a login or a registration; the account was read before. -/
  | createSession (user : User) (token : Bytes) (now : Time)
  | logout (r : Request)
  | cleanExpiredSessions (cleaning : Cleaning)
  /-- Any transaction on the library database. -/
  | write (op : Op)

structure Server where
  db : Tx
  sessions : Bucket Session

/-- A failing write leaves the sessions as they are. -/
def step (s : Server) : Action → Server
  | .createSession user token now =>
      match saveSession sha256 (newSession user token now) s.sessions with
      | .error _ => s
      | .ok sessions => { s with sessions := sessions }
  | .logout r =>
      let token := sessionTokenFromRequest r
      if token = [] then s else { s with sessions := deleteSession sha256 token s.sessions }
  | .cleanExpiredSessions cleaning =>
      { s with sessions := Storage.cleanExpiredSessions cleaning s.sessions }
  | .write op => { s with db := op.run s.db }

def run (l : List Action) : Server := l.foldl (step sha256) ⟨Tx.migrated, .empty⟩

/-! ## The session that the history gives -/

/-- The action creates or ends the session under this hash. -/
def Concerns (hashed : Bytes) : Action → Prop
  | .createSession _ token _ => hashToken sha256 token = hashed
  | .logout r =>
      sessionTokenFromRequest r ≠ [] ∧ hashToken sha256 (sessionTokenFromRequest r) = hashed
  | _ => False

instance (hashed : Bytes) : DecidablePred (Concerns sha256 hashed)
  | .createSession _ _ _ => inferInstanceAs (Decidable (_ = _))
  | .logout _ => inferInstanceAs (Decidable (_ ∧ _))
  | .cleanExpiredSessions _ | .write _ => inferInstanceAs (Decidable False)

/-- The session that the last such action leaves, as it is stored. -/
def sessionAfter (hashed : Bytes) (current : Option Session) : Action → Option Session
  | .createSession user token now =>
      if hashToken sha256 token = hashed then some { newSession user token now with token := hashed }
      else current
  | .logout r =>
      if sessionTokenFromRequest r ≠ [] ∧ hashToken sha256 (sessionTokenFromRequest r) = hashed then none
      else current
  | .cleanExpiredSessions _ | .write _ => current

def lastSession (hashed : Bytes) (l : List Action) : Option Session :=
  l.foldl (sessionAfter sha256 hashed) none

variable {sha256} {hashed : Bytes} {l : List Action}

theorem sessionAfter_of_not_concerns {a : Action} (h : ¬ Concerns sha256 hashed a)
    (current : Option Session) : sessionAfter sha256 hashed current a = current := by
  cases a with
  | createSession user token now => exact if_neg h
  | logout r => exact if_neg h
  | cleanExpiredSessions cleaning => rfl
  | write op => rfl

theorem sessionAfter_of_concerns {a : Action} (h : Concerns sha256 hashed a)
    (current other : Option Session) :
    sessionAfter sha256 hashed current a = sessionAfter sha256 hashed other a := by
  cases a with
  | createSession user token now => exact (if_pos h).trans (if_pos h).symm
  | logout r => exact (if_pos h).trans (if_pos h).symm
  | _ => cases h

theorem lastSession_append (l : List Action) (a : Action) :
    lastSession sha256 hashed (l ++ [a]) = sessionAfter sha256 hashed (lastSession sha256 hashed l) a := by
  rw [lastSession, lastSession, List.foldl_append]
  rfl

theorem snoc_eq_append_cons {A : Type} {l pre suf : List A} {a c : A} (h : l ++ [a] = pre ++ c :: suf) :
    (suf = [] ∧ a = c ∧ l = pre) ∨ ∃ mid, suf = mid ++ [a] ∧ l = pre ++ c :: mid := by
  rcases List.eq_nil_or_concat suf with rfl | ⟨mid, b, rfl⟩
  · obtain ⟨rfl, hac⟩ := List.append_inj' h rfl
    exact .inl ⟨rfl, List.singleton_inj.mp hac, rfl⟩
  · have happ : l ++ [a] = (pre ++ c :: mid) ++ [b] := by simpa using h
    obtain ⟨rfl, hab⟩ := List.append_inj' happ rfl
    exact .inr ⟨mid, by rw [List.concat_eq_append, List.singleton_inj.mp hab], rfl⟩

/-- The session of the last creation that nothing about its token has followed. -/
theorem lastSession_eq_some {session : Session} :
    lastSession sha256 hashed l = some session ↔
      ∃ pre suf user token now, l = pre ++ .createSession user token now :: suf ∧
        hashToken sha256 token = hashed ∧ (∀ a ∈ suf, ¬ Concerns sha256 hashed a) ∧
        session = { newSession user token now with token := hashed } := by
  induction l using List.reverseRecOn with
  | nil =>
      constructor
      · intro h
        cases h
      · rintro ⟨pre, suf, user, token, now, hl, -⟩
        simp at hl
  | append_singleton l a ih =>
      rw [lastSession_append]
      by_cases ha : Concerns sha256 hashed a
      · constructor
        · intro h
          cases a with
          | createSession user token now =>
              rw [sessionAfter, if_pos (id ha : hashToken sha256 token = hashed)] at h
              cases h
              exact ⟨l, [], user, token, now, rfl, ha, by simp, rfl⟩
          | logout r =>
              have hended : sessionTokenFromRequest r ≠ [] ∧
                  hashToken sha256 (sessionTokenFromRequest r) = hashed := ha
              rw [sessionAfter, if_pos hended] at h
              cases h
          | _ => cases ha
        · rintro ⟨pre, suf, user, token, now, hl, htoken, hsuf, rfl⟩
          rcases snoc_eq_append_cons hl with ⟨rfl, rfl, rfl⟩ | ⟨mid, rfl, -⟩
          · exact if_pos htoken
          · exact absurd ha (hsuf a (by simp))
      · rw [sessionAfter_of_not_concerns ha, ih]
        constructor
        · rintro ⟨pre, suf, user, token, now, rfl, htoken, hsuf, rfl⟩
          refine ⟨pre, suf ++ [a], user, token, now, by simp, htoken, ?_, rfl⟩
          intro b hb
          rcases List.mem_append.mp hb with hb | hb
          · exact hsuf b hb
          · rw [List.mem_singleton.mp hb]
            exact ha
        · rintro ⟨pre, suf, user, token, now, hl, htoken, hsuf, rfl⟩
          rcases snoc_eq_append_cons hl with ⟨rfl, rfl, rfl⟩ | ⟨mid, rfl, rfl⟩
          · exact absurd htoken ha
          · exact ⟨pre, mid, user, token, now, rfl, htoken, fun b hb => hsuf b (by simp [hb]), rfl⟩

/-! ## What is stored follows the history -/

theorem run_append (l : List Action) (a : Action) :
    run sha256 (l ++ [a]) = step sha256 (run sha256 l) a := by
  rw [run, run, List.foldl_append]
  rfl

/-- Except for cleaning, a step does to the stored sessions what the history says. -/
theorem step_get (hsha : ∀ token, (sha256 token).length = 32) (s : Server) {a : Action}
    (ha : ∀ cleaning, a ≠ .cleanExpiredSessions cleaning) (hashed : Bytes) :
    (step sha256 s a).sessions.get hashed = sessionAfter sha256 hashed (s.sessions.get hashed) a := by
  cases a with
  | createSession user token now =>
      obtain ⟨b, hb⟩ := store_of_valid s.sessions (hashToken_valid sha256 hsha token)
        { newSession user token now with token := hashToken sha256 token }
      have hsave : saveSession sha256 (newSession user token now) s.sessions = .ok b := hb
      have hget := Bucket.get_put (store_eq_ok.mp hb) hashed
      simp only [step, hsave, sessionAfter, hget]
      by_cases hk : hashToken sha256 token = hashed
      · rw [if_pos hk, if_pos hk, hk]
      · rw [if_neg hk, if_neg hk]
  | logout r =>
      simp only [step, sessionAfter]
      by_cases htoken : sessionTokenFromRequest r = []
      · simp [htoken]
      · rw [if_neg htoken, deleteSession, Bucket.get_delete]
        simp [htoken]
  | cleanExpiredSessions cleaning => exact absurd rfl (ha cleaning)
  | write op => rfl

/-- A stored session is the last one, and the last one is stored unless it has been
found expired. -/
structure Follows (sha256 : Bytes → Bytes) (l : List Action) (sessions : Bucket Session) : Prop where
  last : ∀ hashed session, sessions.get hashed = some session → lastSession sha256 hashed l = some session
  stored : ∀ hashed session, lastSession sha256 hashed l = some session →
    sessions.get hashed = some session ∨
      ∃ cleaning, .cleanExpiredSessions cleaning ∈ l ∧
        session.expiresAt.nanos < cleaning.finished.nanos

theorem run_follows (hsha : ∀ token, (sha256 token).length = 32) (l : List Action) :
    Follows sha256 l (run sha256 l).sessions := by
  induction l using List.reverseRecOn with
  | nil =>
      constructor
      · intro hashed session h
        simp [run] at h
      · intro hashed session h
        cases h
  | append_singleton l a ih =>
      rw [run_append]
      by_cases hclean : ∃ cleaning, a = .cleanExpiredSessions cleaning
      · obtain ⟨cleaning, rfl⟩ := hclean
        have hget := fun hashed => cleanExpiredSessions_get cleaning (run sha256 l).sessions hashed
        constructor
        · intro hashed session h
          rw [lastSession_append]
          change (Storage.cleanExpiredSessions cleaning (run sha256 l).sessions).get hashed =
            some session at h
          rw [hget, Option.filter_eq_some_iff] at h
          exact ih.last hashed session h.1
        · intro hashed session h
          rw [lastSession_append] at h
          change (Storage.cleanExpiredSessions cleaning (run sha256 l).sessions).get hashed =
            some session ∨ _
          rw [hget]
          rcases ih.stored hashed session h with hstored | ⟨earlier, hmem, hexpired⟩
          · by_cases hexpired : session.expiresAt.before (cleaning.reading hashed) = true
            · refine .inr ⟨cleaning, by simp, ?_⟩
              exact (of_decide_eq_true hexpired).trans_le (cleaning.ordered hashed)
            · exact .inl (by simp [hstored, hexpired, Option.filter])
          · exact .inr ⟨earlier, by simp [hmem], hexpired⟩
      · have hget := step_get hsha (run sha256 l) (fun cleaning he => hclean ⟨cleaning, he⟩)
        constructor
        · intro hashed session h
          rw [hget] at h
          rw [lastSession_append]
          by_cases ha : Concerns sha256 hashed a
          · rwa [sessionAfter_of_concerns ha _ ((run sha256 l).sessions.get hashed)]
          · rw [sessionAfter_of_not_concerns ha] at h ⊢
            exact ih.last hashed session h
        · intro hashed session h
          rw [lastSession_append] at h
          rw [hget]
          by_cases ha : Concerns sha256 hashed a
          · left
            rwa [sessionAfter_of_concerns ha _ (lastSession sha256 hashed l)]
          · rw [sessionAfter_of_not_concerns ha] at h ⊢
            rcases ih.stored hashed session h with hstored | ⟨cleaning, hmem, hexpired⟩
            · exact .inl hstored
            · exact .inr ⟨cleaning, by simp [hmem], hexpired⟩

/-- Cleaning shows in no lookup that is made later. -/
theorem getSession_eq (hsha : ∀ token, (sha256 token).length = 32) {now : Time}
    (hnow : ∀ cleaning, .cleanExpiredSessions cleaning ∈ l → cleaning.finished.nanos ≤ now.nanos)
    (token : Bytes) :
    getSession sha256 token now (run sha256 l).sessions =
      (lastSession sha256 (hashToken sha256 token) l).filter fun session =>
        ¬ session.expiresAt.before now := by
  have hfollows := run_follows hsha l
  rw [getSession]
  cases hget : (run sha256 l).sessions.get (hashToken sha256 token) with
  | some session =>
      rw [hfollows.last _ _ hget]
      by_cases hexpired : session.expiresAt.before now = true
      · simp [hexpired, Option.filter]
      · simp [hexpired, Option.filter]
  | none =>
      cases hlast : lastSession sha256 (hashToken sha256 token) l with
      | none => rfl
      | some session =>
          rcases hfollows.stored _ _ hlast with hstored | ⟨cleaning, hmem, hexpired⟩
          · rw [hget] at hstored
            cases hstored
          · have hbefore : session.expiresAt.before now = true :=
              decide_eq_true (hexpired.trans_le (hnow cleaning hmem))
            simp [hbefore, Option.filter]

/-! ## Accounts stay under their identifiers -/

theorem run_usersKeyed (l : List Action) : UsersKeyed (run sha256 l).db := by
  induction l using List.reverseRecOn with
  | nil =>
      intro id user hget
      simp [run, Tx.migrated] at hget
  | append_singleton l a ih =>
      rw [run_append]
      cases a with
      | createSession user token now =>
          simp only [step]
          split
          · exact ih
          · exact ih
      | logout r =>
          simp only [step]
          split
          · exact ih
          · exact ih
      | cleanExpiredSessions cleaning => exact ih
      | write op => exact ih.run op

/-- A request passes as an account exactly if the last thing that happened to its token was
the creation of a session for that account, at most seven days ago, and the account is still
there; the account may be read later than the session. -/
theorem authRequired_passed_iff (hsha : ∀ token, (sha256 token).length = 32) (later : List Action)
    {now : Time} (hnow : ∀ cleaning, .cleanExpiredSessions cleaning ∈ l →
      cleaning.finished.nanos ≤ now.nanos)
    (r : Request) (token : Bytes) (user : User) :
    authRequired sha256 r now (run sha256 l).sessions (run sha256 (l ++ later)).db = .passed token user ↔
      token = sessionTokenFromRequest r ∧ token ≠ [] ∧
        ∃ pre suf account token' created,
          l = pre ++ .createSession account token' created :: suf ∧
          hashToken sha256 token' = hashToken sha256 token ∧
          (∀ a ∈ suf, ¬ Concerns sha256 (hashToken sha256 token) a) ∧
          now.nanos ≤ created.nanos + sessionDuration ∧
          account.id ≠ [] ∧ user.id = account.id ∧
          (run sha256 (l ++ later)).db.users.get account.id = some user := by
  have hpassed : authRequired sha256 r now (run sha256 l).sessions (run sha256 (l ++ later)).db =
        .passed token user ↔ token = sessionTokenFromRequest r ∧ token ≠ [] ∧
      ∃ session, getSession sha256 token now (run sha256 l).sessions = some session ∧
        session.userID ≠ [] ∧ (run sha256 (l ++ later)).db.users.get session.userID = some user := by
    rw [authRequired]
    by_cases htoken : sessionTokenFromRequest r = []
    · simp only [htoken, if_true]
      constructor
      · intro h
        cases h
      · rintro ⟨rfl, hne, -⟩
        exact absurd rfl hne
    · simp only [if_neg htoken, getUserBySessionToken]
      constructor
      · intro h
        split at h
        · cases h
        · next found hfound =>
          cases h
          split at hfound
          · cases hfound
          · next session hsession =>
            split at hfound
            · cases hfound
            · next hid => exact ⟨rfl, htoken, session, hsession, hid, hfound⟩
      · rintro ⟨rfl, -, session, hsession, hid, huser⟩
        simp only [hsession, if_neg hid, huser]
  rw [hpassed]
  refine and_congr_right fun _ => and_congr_right fun _ => ?_
  constructor
  · rintro ⟨session, hsession, hid, huser⟩
    rw [getSession_eq hsha hnow, Option.filter_eq_some_iff] at hsession
    obtain ⟨hlast, hexpires⟩ := hsession
    obtain ⟨pre, suf, account, token', created, hl, htoken, hsuf, rfl⟩ := lastSession_eq_some.mp hlast
    refine ⟨pre, suf, account, token', created, hl, htoken, hsuf, ?_, hid,
      run_usersKeyed _ _ _ huser, huser⟩
    exact not_lt.mp fun hlt => of_decide_eq_true hexpires (decide_eq_true hlt)
  · rintro ⟨pre, suf, account, token', created, hl, htoken, hsuf, hexpires, hid, -, huser⟩
    refine ⟨{ newSession account token' created with token := hashToken sha256 token }, ?_, hid, huser⟩
    rw [getSession_eq hsha hnow, Option.filter_eq_some_iff]
    refine ⟨lastSession_eq_some.mpr ⟨pre, suf, account, token', created, hl, htoken, hsuf, rfl⟩, ?_⟩
    exact decide_eq_true fun hbefore => not_lt.mpr hexpires (of_decide_eq_true hbefore)

end Server

/-! ## Tokens as clients send them -/

theorem trimSpace_bounded {cs : List Char} (hfirst : ∀ c ∈ cs.head?, Lib.Unicode.isSpace c = false)
    (hlast : ∀ c ∈ cs.getLast?, Lib.Unicode.isSpace c = false) : trimSpace (encode cs) = encode cs := by
  have hfront : cs.dropWhile Lib.Unicode.isSpace = cs := by
    cases cs with
    | nil => rfl
    | cons c cs => rw [List.dropWhile_cons, hfirst c rfl]; rfl
  have hback : cs.rdropWhile Lib.Unicode.isSpace = cs := by
    rw [List.rdropWhile_eq_self_iff]
    intro hne
    rw [hlast _ (List.getLast?_eq_some_getLast hne)]
    exact Bool.false_ne_true
  rw [trimSpace_encode, hfront, hback]

/-- A token as it is generated: not empty, and without white space. -/
structure Plain (cs : List Char) : Prop where
  nonempty : cs ≠ []
  word : ∀ c ∈ cs, Lib.Unicode.isSpace c = false

theorem Plain.trim {cs : List Char} (h : Plain cs) : trimSpace (encode cs) = encode cs :=
  trimSpace_bounded (fun c hc => h.word c (List.mem_of_mem_head? hc))
    fun c hc => h.word c (List.mem_of_mem_getLast? hc)

theorem Plain.encode_ne {cs : List Char} (h : Plain cs) : encode cs ≠ [] := fun he =>
  h.nonempty (encode_injective (he.trans encode_nil.symm))

theorem sessionTokenFromRequest_cookie {cs : List Char} (h : Plain cs) :
    sessionTokenFromRequest ⟨[], some (encode cs)⟩ = encode cs := by
  have hnone : trimSpace (trimPrefix (trimSpace []) (ascii "Bearer ")) = [] := by decide
  simp only [sessionTokenFromRequest, hnone, ne_eq, not_true_eq_false, if_false]
  exact h.trim

theorem sessionTokenFromRequest_bearer {cs : List Char} (h : Plain cs) (cookie : Option Bytes) :
    sessionTokenFromRequest ⟨ascii "Bearer " ++ encode cs, cookie⟩ = encode cs := by
  have happend : ascii "Bearer " ++ encode cs = encode ("Bearer ".toList ++ cs) := by
    rw [encode_append]
    rfl
  have houter : trimSpace (ascii "Bearer " ++ encode cs) = ascii "Bearer " ++ encode cs := by
    rw [happend]
    refine trimSpace_bounded ?_ ?_
    · intro c hc
      cases hc
      decide
    · intro c hc
      rw [List.getLast?_append_of_ne_nil _ h.nonempty] at hc
      exact h.word c (List.mem_of_mem_getLast? hc)
  have hcut : trimPrefix (ascii "Bearer " ++ encode cs) (ascii "Bearer ") = encode cs := by
    rw [trimPrefix, if_pos (List.prefix_append _ _), List.drop_left]
  simp only [sessionTokenFromRequest, houter, hcut, h.trim]
  exact if_pos h.encode_ne

/-- Whoever has signed in passes for seven days, with the token in the header or in the
cookie, until the token is used to sign out or the account is gone. -/
theorem signed_in {sha256 : Bytes → Bytes} (hsha : ∀ token, (sha256 token).length = 32)
    {pre suf later : List Action} {account user : User} {cs : List Char} (hcs : Plain cs)
    {created now : Time}
    (hsuf : ∀ a ∈ suf, ¬ Concerns sha256 (hashToken sha256 (encode cs)) a)
    (hclean : ∀ cleaning,
      .cleanExpiredSessions cleaning ∈ pre ++ .createSession account (encode cs) created :: suf →
      cleaning.finished.nanos ≤ now.nanos)
    (hnow : now.nanos ≤ created.nanos + sessionDuration) (hid : account.id ≠ [])
    (huser : (run sha256 (pre ++ .createSession account (encode cs) created :: suf ++ later)).db.users.get
      account.id = some user) (r : Request)
    (hr : (∃ cookie, r = ⟨ascii "Bearer " ++ encode cs, cookie⟩) ∨ r = ⟨[], some (encode cs)⟩) :
    authRequired sha256 r now
      (run sha256 (pre ++ .createSession account (encode cs) created :: suf)).sessions
      (run sha256 (pre ++ .createSession account (encode cs) created :: suf ++ later)).db =
      .passed (encode cs) user := by
  have htoken : sessionTokenFromRequest r = encode cs := by
    rcases hr with ⟨cookie, rfl⟩ | rfl
    · exact sessionTokenFromRequest_bearer hcs cookie
    · exact sessionTokenFromRequest_cookie hcs
  refine (authRequired_passed_iff hsha later hclean r (encode cs) user).mpr ⟨htoken.symm, hcs.encode_ne, ?_⟩
  exact ⟨pre, suf, account, encode cs, created, rfl, rfl, hsuf, hnow, hid,
    run_usersKeyed _ _ _ huser, huser⟩

def sampleUser : User := ⟨ascii "u", ascii "u", [], [], ⟨0⟩, ⟨0⟩⟩

/-- SHA-256 of the sample token. -/
def sampleSha256 (token : Bytes) : Bytes :=
  if token = ascii "t" then
    [227, 185, 138, 77, 163, 26, 18, 125, 75, 222, 110, 67, 3, 63, 102, 186,
      39, 76, 171, 14, 183, 235, 28, 112, 236, 65, 64, 43, 246, 39, 61, 216]
  else List.replicate 32 0

theorem sampleUser_passes :
    authRequired sampleSha256 ⟨ascii "Bearer t", none⟩ ⟨1⟩
      (run sampleSha256 [.write (.saveUser sampleUser), .createSession sampleUser (ascii "t") ⟨0⟩]).sessions
      (run sampleSha256 [.write (.saveUser sampleUser), .createSession sampleUser (ascii "t") ⟨0⟩]).db =
      .passed (ascii "t") sampleUser := by
  have hsha : ∀ token, (sampleSha256 token).length = 32 := by
    intro token
    rw [sampleSha256]
    split
    · rfl
    · exact List.length_replicate
  refine (authRequired_passed_iff hsha [] ?_ _ _ _).mpr ⟨by decide, by decide, ?_⟩
  · intro cleaning hmem
    simp at hmem
  · refine ⟨[.write (.saveUser sampleUser)], [], sampleUser, ascii "t", ⟨0⟩, rfl, rfl, by simp, by decide,
      by decide, rfl, ?_⟩
    decide +kernel

end ZReader.Middleware.Auth
