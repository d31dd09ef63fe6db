import ZReader.Storage.ProgressListing

namespace ZReader.Handlers

open Lib.Utf8 Lib.Strings Lib.KeyValue Storage

structure ProgressRequest where
  cfi : Bytes
  percentage : ℚ
  deviceID : Bytes
  expectedUpdatedAt : Option Time
  deriving DecidableEq

def maxProgressCFIRunes : Nat := 16 * 1024
def maxProgressDeviceRunes : Nat := 256

/-- The record that `Save` builds from a request; none when the request is rejected. -/
def newProgress (id userID : Bytes) (req : ProgressRequest) (now : Time) : Option Progress :=
  let cfi := trimSpace req.cfi
  let deviceID := trimSpace req.deviceID
  if cfi = [] ∨ (runes cfi).length > maxProgressCFIRunes ∨
      (runes deviceID).length > maxProgressDeviceRunes ∨ req.percentage < 0 ∨ req.percentage > 100 then
    none
  else
    some
      { bookID := id
        userID := userID
        cfi := cfi
        percentage := req.percentage
        deviceID := deviceID
        updatedAt := now }

theorem newProgress_eq_some {id userID : Bytes} {req : ProgressRequest} {now : Time} {p : Progress}
    (h : newProgress id userID req now = some p) :
    p.bookID = id ∧ p.userID = userID ∧ p.updatedAt = now := by
  simp only [newProgress] at h
  split at h
  · cases h
  · cases h
    exact ⟨rfl, rfl, rfl⟩

/-- What `Save` answers: the stored record or an error status. -/
inductive SaveReply
  | saved (progress : Progress)
  | status (code : Nat)
  deriving DecidableEq

/-- `ProgressHandler.Save` at the time `now`, as one transaction. -/
def saveProgress (id userID : Bytes) (req : ProgressRequest) (now : Time) (db : Tx) : Tx × SaveReply :=
  match newProgress id userID req now with
  | none => (db, .status 400)
  | some progress =>
      match saveProgressIfCurrent progress userID req.expectedUpdatedAt db with
      | .ok tx => (tx, .saved progress)
      | .error .notFound => (db, .status 404)
      | .error .progressConflict => (db, .status 409)
      | .error _ => (db, .status 500)

theorem newProgress_deviceID {id userID : Bytes} {req : ProgressRequest} {now : Time} {p : Progress}
    (h : newProgress id userID req now = some p) : p.deviceID = trimSpace req.deviceID := by
  simp only [newProgress] at h
  split at h
  · cases h
  · cases h
    rfl

/-! ## Where a conflict comes from -/

theorem bind_ne_conflict {α β : Type} {x : Result α} {f : α → Result β}
    (hx : x ≠ .error .progressConflict) (hf : ∀ a, f a ≠ .error .progressConflict) :
    (x >>= f) ≠ .error .progressConflict := by
  cases x with
  | ok a => exact hf a
  | error e =>
      intro h
      apply hx
      simpa [bind, Except.bind] using h

theorem store_ne_conflict {V : Type} (b : Bucket V) (k : Bytes) (v : V) :
    store b k v ≠ .error .progressConflict := by
  rw [store]
  split
  · simp
  · simp

theorem updateBookSortKey_ne_conflict (tx : Tx) (oldBook book : Book) (sortKey : SortKey) :
    updateBookSortKey tx oldBook book sortKey ≠ .error .progressConflict := by
  rw [updateBookSortKey]
  split
  · apply bind_ne_conflict
    · simp
    · intro t
      dsimp only
      split
      · simp
      · split
        · simp
        · apply bind_ne_conflict
          · apply store_ne_conflict
          · simp
  · apply bind_ne_conflict
    · apply store_ne_conflict
    · intro b
      apply bind_ne_conflict
      · simp
      · intro t
        dsimp only
        split
        · simp
        · split
          · simp
          · apply bind_ne_conflict
            · apply store_ne_conflict
            · simp

theorem touchBook_ne_conflict (tx : Tx) (book : Book) (time : Time) :
    touchBook tx book time ≠ .error .progressConflict := by
  rw [touchBook]
  split
  · simp
  · apply bind_ne_conflict
    · apply store_ne_conflict
    · intro b
      apply updateBookSortKey_ne_conflict

theorem recordProgress_ne_conflict (tx : Tx) (key : Bytes) (previous : Option Progress)
    (progress : Progress) : recordProgress tx key previous progress ≠ .error .progressConflict := by
  rw [recordProgress]
  apply bind_ne_conflict
  · apply store_ne_conflict
  · intro b
    rw [addProgressToTimeIndex]
    split
    · simp
    · apply bind_ne_conflict
      · apply store_ne_conflict
      · simp

theorem ownedBook_ne_conflict (tx : Tx) (id userID : Bytes) :
    ownedBook tx id userID ≠ .error .progressConflict := by
  rw [ownedBook]
  split
  · simp
  · split
    · simp
    · simp

/-- Only a version that is not the stored one is a conflict. -/
theorem stale_of_conflict {p : Progress} {u : Bytes} {e : Option Time} {tx : Tx}
    (h : saveProgressIfCurrent p u e tx = .error .progressConflict) :
    stale e (tx.progress.get (progressKey u p.bookID)) = true := by
  by_contra hs
  rw [saveProgressIfCurrent_eq] at h
  refine bind_ne_conflict (ownedBook_ne_conflict _ _ _) ?_ h
  intro book
  simp only [if_neg hs]
  apply bind_ne_conflict
  · apply touchBook_ne_conflict
  · intro tx₁
    apply recordProgress_ne_conflict

/-! ## What a save leaves behind -/

/-- A save stores its record under the book's key and nothing else, or it is refused
and leaves the database as it is. -/
inductive Saves (id userID : Bytes) (req : ProgressRequest) (now : Time) (db : Tx) :
    Tx × SaveReply → Prop
  | saved {tx : Tx} {p : Progress} (time : p.updatedAt = now)
      (device : p.deviceID = trimSpace req.deviceID)
      (stored : ∀ k, tx.progress.get k =
        if progressKey userID id = k then some p else db.progress.get k) :
      Saves id userID req now db (tx, .saved p)
  | refused {code : Nat}
      (conflict : code = 409 →
        stale req.expectedUpdatedAt (db.progress.get (progressKey userID id)) = true) :
      Saves id userID req now db (db, .status code)

theorem saveProgress_reached {id userID : Bytes} {req : ProgressRequest} {now : Time} {db : Tx}
    (h : Reached db) (hu : userID ≠ []) : Reached (saveProgress id userID req now db).1 := by
  rw [saveProgress]
  split
  · exact h
  · next p hp =>
    have hrun := h.run (.saveProgressIfCurrent p userID req.expectedUpdatedAt) hu
    simp only [Op.run, Tx.update, Op.transaction] at hrun
    split
    · next tx hs =>
      rw [hs] at hrun
      exact hrun
    all_goals exact h

theorem saveProgress_saves {id userID : Bytes} {req : ProgressRequest} {now : Time} {db : Tx}
    (h : Reached db) (hu : userID ≠ []) :
    Saves id userID req now db (saveProgress id userID req now db) := by
  rw [saveProgress]
  split
  · exact .refused (by simp)
  · next p hp =>
    obtain ⟨rfl, rfl, htime⟩ := newProgress_eq_some hp
    split
    · next tx hs =>
      exact .saved htime (newProgress_deviceID hp) (saveProgressIfCurrent_rowed h.coherent h.rowed hu hs).2
    · exact .refused (by simp)
    · next hs => exact .refused (fun _ => stale_of_conflict hs)
    · exact .refused (by simp)

end ZReader.Handlers
