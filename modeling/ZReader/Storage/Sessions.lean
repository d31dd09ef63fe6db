import ZReader.Storage.Accounts

namespace ZReader.Storage

open Lib.Utf8 Lib.Strings Lib.KeyValue Lib.Fallible

structure Session where
  token : Bytes
  userID : Bytes
  username : Bytes
  role : Bytes
  createdAt : Time
  expiresAt : Time
  deriving DecidableEq

def hexAlphabet : Bytes := ascii "0123456789abcdef"

/-- `hex.EncodeToString`. -/
def hexEncode (bytes : Bytes) : Bytes :=
  bytes.flatMap fun b => [hexAlphabet.getD (b.toNat / 16) 0, hexAlphabet.getD (b.toNat % 16) 0]

section SessionDB

/- `sha256` is `sha256.Sum256`. -/
variable (sha256 : Bytes → Bytes)

def hashToken (token : Bytes) : Bytes := hexEncode (sha256 token)

def saveSession (session : Session) (b : Bucket Session) : Result (Bucket Session) :=
  let hashed := hashToken sha256 session.token
  store b hashed { session with token := hashed }

def getSession (token : Bytes) (now : Time) (b : Bucket Session) : Option Session :=
  match b.get (hashToken sha256 token) with
  | none => none
  | some session => if session.expiresAt.before now then none else some session

def deleteSession (token : Bytes) (b : Bucket Session) : Bucket Session :=
  b.delete (hashToken sha256 token)

/-- The clock is read for every record. -/
structure Cleaning where
  reading : Bytes → Time
  finished : Time
  ordered : ∀ k, (reading k).nanos ≤ finished.nanos

def cleanExpiredSessions (cleaning : Cleaning) (b : Bucket Session) : Bucket Session :=
  let toDelete := b.entries.filter fun row => row.2.expiresAt.before (cleaning.reading row.1)
  toDelete.foldl (fun b row => b.delete row.1) b

/-- The session is read from its own database before the account is read from `tx`. -/
def getUserBySessionToken (token : Bytes) (now : Time) (b : Bucket Session) (tx : Tx) : Option User :=
  match getSession sha256 token now b with
  | none => none
  | some session => if session.userID = [] then none else tx.users.get session.userID

theorem length_hexEncode (bytes : Bytes) : (hexEncode bytes).length = 2 * bytes.length := by
  rw [hexEncode, List.length_flatMap]
  simp [mul_comm]

theorem hashToken_valid (hsha : ∀ token, (sha256 token).length = 32) (token : Bytes) :
    ValidKey (hashToken sha256 token) := by
  have hlength : (hashToken sha256 token).length = 64 := by
    rw [hashToken, length_hexEncode, hsha]
  constructor
  · intro hn
    rw [hn] at hlength
    cases hlength
  · rw [hlength]
    decide

end SessionDB

/-! ## Cleaning -/

theorem foldl_delete_get_eq {V : Type} (rows : List (Bytes × V)) (b : Bucket V) (k : Bytes) :
    (rows.foldl (fun b row => b.delete row.1) b).get k =
      if k ∈ rows.map Prod.fst then none else b.get k := by
  induction rows generalizing b with
  | nil => rfl
  | cons row rows ih =>
      rw [List.foldl_cons, ih, Bucket.get_delete]
      by_cases hk : row.1 = k
      · simp [hk]
      · have hmem : k ∈ (row :: rows).map Prod.fst ↔ k ∈ rows.map Prod.fst := by simp [Ne.symm hk]
        rw [if_neg hk]
        simp only [hmem]

theorem cleanExpiredSessions_get (cleaning : Cleaning) (b : Bucket Session) (k : Bytes) :
    (cleanExpiredSessions cleaning b).get k =
      (b.get k).filter fun session => ¬ session.expiresAt.before (cleaning.reading k) := by
  rw [cleanExpiredSessions, foldl_delete_get_eq]
  cases hget : b.get k with
  | none => simp
  | some session =>
      have hmem : k ∈ (b.entries.filter fun row => row.2.expiresAt.before (cleaning.reading row.1)).map
          Prod.fst ↔ session.expiresAt.before (cleaning.reading k) = true := by
        rw [List.mem_map]
        constructor
        · rintro ⟨⟨j, x⟩, hrow, rfl⟩
          obtain ⟨hentry, hexpired⟩ := List.mem_filter.mp hrow
          rw [Bucket.mem_entries, hget] at hentry
          cases hentry
          exact hexpired
        · intro hexpired
          exact ⟨(k, session), List.mem_filter.mpr ⟨Bucket.mem_entries.mpr hget, hexpired⟩, rfl⟩
      by_cases hexpired : session.expiresAt.before (cleaning.reading k) = true
      · simp [hmem, hexpired, Option.filter]
      · simp [hmem, hexpired, Option.filter]

/-! ## Accounts lie under their identifiers -/

def UsersKeyed (tx : Tx) : Prop := ∀ id user, tx.users.get id = some user → user.id = id

theorem UsersKeyed.delete {tx : Tx} (h : UsersKeyed tx) (id : Bytes) (tx' : Tx)
    (hu : tx'.users = tx.users.delete id) : UsersKeyed tx' := by
  intro j user hget
  rw [hu, Bucket.get_delete] at hget
  split at hget
  · cases hget
  · exact h j user hget

theorem UsersKeyed.run {db : Tx} (h : UsersKeyed db) (op : Op) : UsersKeyed (op.run db) := by
  refine Tx.update_induction h ?_
  intro tx htx
  cases hw : op.writesAccounts with
  | false =>
      intro id user hget
      rw [(Op.transaction_accounts hw htx).users] at hget
      exact h id user hget
  | true =>
      cases op with
      | saveUser user =>
          simp only [Op.transaction, Storage.saveUser] at htx
          obtain ⟨users, husers, htx⟩ := bind_eq_ok.mp htx
          obtain ⟨names, -, htx⟩ := bind_eq_ok.mp htx
          cases htx
          intro id other hget
          change users.get id = some other at hget
          rw [Bucket.get_put (store_eq_ok.mp husers)] at hget
          split at hget
          · next hid =>
            cases hget
            exact hid
          · exact h id other hget
      | deleteUser id =>
          simp only [Op.transaction, Storage.deleteUser] at htx
          split at htx
          · cases htx
          · cases htx
            exact h.delete id _ rfl
      | purgeUser id =>
          simp only [Op.transaction, Storage.purgeUser] at htx
          split at htx
          · cases htx
          · obtain ⟨tx₁, h₁, htx⟩ := bind_eq_ok.mp htx
            cases htx
            refine h.delete id _ ?_
            change tx₁.users.delete id = db.users.delete id
            rw [(deleteBooksByUser_accounts h₁).users]
      | _ => cases hw

end ZReader.Storage
