import ZReader.Lib.Isolation
import ZReader.Storage.References

namespace ZReader.Storage

open Lib.Utf8 Lib.Strings Lib.KeyValue Lib.DerivedIndex Lib.Fallible Lib.Isolation

/-! ## What one user sees of the database -/

abbrev UserID := {u : Bytes // WellFormedID u}

section Within

variable {X : Type} {P : Bytes → Bool}

/-- The rows of a bucket under the keys of one owner. -/
def within (P : Bytes → Bool) (b : Bucket X) (k : Bytes) : Option X := if P k then b.get k else none

theorem within_eq_iff {b c : Bucket X} :
    within P b = within P c ↔ ∀ k, P k = true → b.get k = c.get k := by
  constructor
  · intro h k hk
    have hrow := congrFun h k
    simpa only [within, hk, if_true] using hrow
  · intro h
    funext k
    rw [within, within]
    split
    · next hk => exact h k hk
    · rfl

theorem within_delete (b : Bucket X) (k : Bytes) :
    within P (b.delete k) = if P k then Function.update (within P b) k none else within P b := by
  funext j
  rw [within, Bucket.get_delete]
  by_cases hj : k = j
  · subst hj
    by_cases hP : P k = true <;> simp [hP, within]
  · by_cases hP : P k = true <;> simp [hP, hj, within, Function.update_of_ne (Ne.symm hj)]

theorem within_put {b c : Bucket X} {k : Bytes} {x : X} (h : store b k x = .ok c) :
    within P c = if P k then Function.update (within P b) k (some x) else within P b := by
  funext j
  rw [within, Bucket.get_put (store_eq_ok.mp h)]
  by_cases hj : k = j
  · subst hj
    by_cases hP : P k = true <;> simp [hP, within]
  · by_cases hP : P k = true <;> simp [hP, hj, within, Function.update_of_ne (Ne.symm hj)]

theorem store_invalid {k : Bytes} (hk : ¬ ValidKey k) (b : Bucket X) (x : X) :
    store b k x = .error (.put (if k = [] then .keyRequired else .keyTooLarge)) := by
  rw [store, Bucket.put, dif_neg hk]
  split
  · next hstored =>
    split at hstored
    · cases hstored
    · cases hstored
  · next e he =>
    split at he
    · next hn =>
      cases he
      rw [if_pos hn]
    · next hn =>
      cases he
      rw [if_neg hn]

/-- Whether a row can be written depends on the key alone. -/
theorem store_cases (b c : Bucket X) (k : Bytes) (x y : X) :
    (∃ e, store b k x = .error e ∧ store c k y = .error e) ∨
      ∃ b' c', store b k x = .ok b' ∧ store c k y = .ok c' := by
  by_cases hk : ValidKey k
  · obtain ⟨b', hb⟩ := store_of_valid b hk x
    obtain ⟨c', hc⟩ := store_of_valid c hk y
    exact .inr ⟨b', c', hb, hc⟩
  · exact .inl ⟨_, store_invalid hk b x, store_invalid hk c y⟩

/-- A scan below a prefix of the owner's sees the owner's rows only. -/
theorem seek_within {b c : Bucket X} {pre start : Bytes} (hs : pre <+: start)
    (hpre : ∀ k, pre <+: k → P k = true) (h : within P b = within P c) :
    b.seek start pre = c.seek start pre := by
  have hrows := within_eq_iff.mp h
  have hmem : ∀ r, r ∈ b.seek start pre ↔ r ∈ c.seek start pre := by
    rintro ⟨k, x⟩
    rw [Bucket.mem_seek hs, Bucket.mem_seek hs, Bucket.mem_entries, Bucket.mem_entries]
    constructor
    · rintro ⟨hget, hge, hp⟩
      exact ⟨(hrows k (hpre k hp)).symm.trans hget, hge, hp⟩
    · rintro ⟨hget, hge, hp⟩
      exact ⟨(hrows k (hpre k hp)).trans hget, hge, hp⟩
  have hsorted : ∀ d : Bucket X,
      (d.seek start pre).Pairwise (fun r s => compare r.1 s.1 = .lt) := by
    intro d
    rw [Bucket.seek_eq_filter d hs]
    exact d.entries_sorted.filter _
  have hnodup : ∀ d : Bucket X, (d.seek start pre).Nodup := by
    intro d
    refine (hsorted d).imp ?_
    intro r s hlt he
    simp [he] at hlt
  have hperm := (List.perm_ext_iff_of_nodup (hnodup b) (hnodup c)).mpr hmem
  refine hperm.eq_of_pairwise ?_ (hsorted b) (hsorted c)
  intro r s _ _ hlt hgt
  have hgt' : compare r.1 s.1 = .gt := Std.OrientedCmp.gt_of_lt hgt
  rw [hlt] at hgt'
  cases hgt'

end Within

section Rows

/-- No key has two owners. -/
def Exclusive (owns : UserID → Bytes → Bool) : Prop :=
  ∀ ⦃u w k⦄, owns u k = true → owns w k = true → u = w

variable {X : Type} {owns : UserID → Bytes → Bool} {u : UserID} {k : Bytes}

/-- A change of one bucket that reads and writes rows of the user only. -/
abbrev ActsRows (owns : UserID → Bytes → Bool) (u : UserID) (f : Bucket X → Result (Bucket X)) : Prop :=
  Acts (fun w => within (owns w)) (fun _ => True) u f

theorem store_acts (hunique : Exclusive owns)
    (hk : owns u k = true) (x : X) : ActsRows owns u (store · k x) where
  reads := by
    intro b c _ _ h
    simp only [silent]
    rcases store_cases b c k x x with ⟨e, hb, hc⟩ | ⟨b', c', hb, hc⟩
    · rw [hb, hc]
    · rw [hb, hc]
      simp only [Except.map, Prod.map, within_put hb, within_put hc, h]
  keeps := by
    intro b _ c w _ hw h
    have hother : ¬ owns w k = true := fun hwk => hw (hunique hwk hk)
    rw [within_put (silent_eq_ok.mp h), if_neg hother]
  inv _ _ _ _ _ := trivial

theorem delete_acts (hunique : Exclusive owns)
    (hk : owns u k = true) : ActsRows owns u (fun b : Bucket X => .ok (b.delete k)) := by
  refine Acts.update ?_ ?_ (fun _ _ => trivial)
  · intro b c _ _ h
    rw [within_delete, within_delete, h]
  · intro b w _ hw
    have hother : ¬ owns w k = true := fun hwk => hw (hunique hwk hk)
    rw [within_delete, if_neg hother]

theorem seen_row (hk : owns u k = true) :
    Seen (fun w => within (owns w)) (fun _ => True) u (fun b : Bucket X => b.get k) := by
  intro b c _ _ h
  exact within_eq_iff.mp h k hk

theorem seen_rows {pre start : Bytes} (hs : pre <+: start) (hpre : ∀ k, pre <+: k → owns u k = true) :
    Seen (fun w => within (owns w)) (fun _ => True) u (fun b : Bucket X => b.seek start pre) := by
  intro b c _ _ h
  exact seek_within hs hpre h

end Rows

def colonKey (u : UserID) (k : Bytes) : Bool := (u.1 ++ [colon]) <+: k

def nulKey (u : UserID) (k : Bytes) : Bool := (u.1 ++ [nul]) <+: k

def sortedKey (u : UserID) (k : Bytes) : Bool :=
  supportedBookSorts.any fun s => decide ((s.name ++ [nul] ++ u.1 ++ [nul]) <+: k)

/-- The records of a user, and the rows under the user's keys. -/
structure View where
  user : Bytes → Option User
  books : Bytes → Option Book
  progress : Bytes → Option Progress
  bookmarks : Bytes → Option Bookmark
  userBooks : Bytes → Option Bytes
  sort : Bytes → Option Bytes
  categorySort : Option (Bytes → Option Bytes)
  search : Bytes → Option Bytes
  grams : Bytes → Option Bytes
  gramCounts : Option (Bytes → Option Nat)
  times : Bytes → Option Bytes
  content : Bytes → Option Bytes
  missing : Option (Bytes → Option Bytes)
  summary : Bytes → Option BookLibrarySummary

def ownBooks (u : UserID) (b : Bucket Book) (id : Bytes) : Option Book :=
  (b.get id).filter (·.userID = u.1)

def view (u : UserID) (tx : Tx) : View where
  user := within (fun k => k = u.1) tx.users
  books := ownBooks u tx.books
  progress := within (colonKey u) tx.progress
  bookmarks := within (colonKey u) tx.bookmarks
  userBooks := within (colonKey u) tx.userBooksIndex
  sort := within (sortedKey u) tx.bookSortIndex
  categorySort := tx.bookCategorySortIndex.map (within (sortedKey u))
  search := within (nulKey u) tx.bookSearchIndex
  grams := within (nulKey u) tx.bookSearchGramIndex
  gramCounts := tx.bookSearchGramCounts.map (within (nulKey u))
  times := within (nulKey u) tx.progressTimeIndex
  content := within (nulKey u) tx.bookContentIndex
  missing := tx.bookMissingHashIndex.map (within (nulKey u))
  summary := within (fun k => k = u.1) tx.librarySummaryIndex

theorem user_of_sep {sep : UInt8} {u w : Bytes} (hu : sep ∉ u) (hw : sep ∉ w) {k : Bytes}
    (h : (u ++ [sep]) <+: k) (h' : (w ++ [sep]) <+: k) : u = w := by
  obtain ⟨x, rfl⟩ := h
  obtain ⟨y, hy⟩ := h'
  rw [List.append_assoc, List.append_assoc] at hy
  exact (append_cons_inj_left hw hu hy).1.symm

theorem colonKey_unique : Exclusive colonKey := fun u w _ h h' =>
  Subtype.ext (user_of_sep (colon_notMem u.2) (colon_notMem w.2) (of_decide_eq_true h)
    (of_decide_eq_true h'))

theorem nulKey_unique : Exclusive nulKey := fun u w _ h h' =>
  Subtype.ext (user_of_sep (nul_notMem u.2) (nul_notMem w.2) (of_decide_eq_true h) (of_decide_eq_true h'))

theorem nul_notMem_name (s : SortKey) : nul ∉ s.name := by
  cases s <;> decide

theorem sortedKey_unique : Exclusive sortedKey := by
  intro u w k h h'
  rw [sortedKey, List.any_eq_true] at h h'
  obtain ⟨s, -, hs⟩ := h
  obtain ⟨s', -, hs'⟩ := h'
  obtain ⟨x, rfl⟩ := of_decide_eq_true hs
  obtain ⟨y, hy⟩ := of_decide_eq_true hs'
  simp only [List.append_assoc] at hy
  obtain ⟨-, htail⟩ := append_cons_inj_left (nul_notMem_name s') (nul_notMem_name s) hy
  exact Subtype.ext (append_cons_inj_left (nul_notMem w.2) (nul_notMem u.2) htail).1.symm

/-! ## States in which users can act -/

/-- All buckets exist, and the progress that is filed under a user is the user's. -/
structure Ready (P : Bucket Book → Prop) (tx : Tx) : Prop where
  books : P tx.books
  categorySort : tx.bookCategorySortIndex.isSome
  gramCounts : tx.bookSearchGramCounts.isSome
  missing : tx.bookMissingHashIndex.isSome
  progress : ∀ (u : UserID) k p, tx.progress.get k = some p → colonKey u k = true → p.userID = u.1

theorem Consistent.ready {tx : Tx} (h : Consistent tx) {P : Bucket Book → Prop} (hP : P tx.books) :
    Ready P tx where
  books := hP
  categorySort := by
    obtain ⟨-, c, hc, -⟩ := h.coherent.listed.sort
    simp [hc]
  gramCounts := by
    obtain ⟨-, c, hc, -⟩ := h.coherent.listed.gram
    simp [hc]
  missing := by
    obtain ⟨c, hc, -⟩ := h.coherent.listed.missing
    simp [hc]
  progress := by
    intro u k p hget hk
    exact (h.references.ownsProgress u.2 k p hget (of_decide_eq_true hk)).1

theorem Ready.mono {P Q : Bucket Book → Prop} {tx : Tx} (h : Ready P tx) (hQ : Q tx.books) :
    Ready Q tx :=
  ⟨hQ, h.categorySort, h.gramCounts, h.missing, h.progress⟩

/-! ## Buckets whose rows have owners -/

/-- A bucket of the database in which every key has at most one owner, and which shows
in the view of that owner only. -/
structure Part (X : Type) where
  get : Tx → Bucket X
  set : Bucket X → Tx → Tx
  owns : UserID → Bytes → Bool
  field : View → Bytes → Option X
  write : (Bytes → Option X) → View → View
  unique : Exclusive owns
  set_get : ∀ {P tx}, Ready P tx → set (get tx) tx = tx
  view_get : ∀ u tx, field (view u tx) = within (owns u) (get tx)
  view_set : ∀ u b tx, view u (set b tx) = write (within (owns u) b) (view u tx)

/-- An index: a state stays one to act in, whatever its rows are. -/
structure IndexPart (X : Type) extends Part X where
  ready_set : ∀ {P tx b}, Ready P tx → Ready P (set b tx)

namespace Part

variable {X : Type} (p : Part X) {P : Bucket Book → Prop} {u : UserID}

theorem get_congr {s t : Tx} (h : view u s = view u t) :
    within (p.owns u) (p.get s) = within (p.owns u) (p.get t) := by
  rw [← p.view_get, ← p.view_get, h]

theorem set_congr {s t : Tx} {b c : Bucket X} (h : view u s = view u t)
    (hb : within (p.owns u) b = within (p.owns u) c) : view u (p.set b s) = view u (p.set c t) := by
  rw [p.view_set, p.view_set, h, hb]

/-- A change of the bucket that acts on the user's rows acts on the database. -/
theorem modify {f : Bucket X → Result (Bucket X)} (hf : ActsRows p.owns u f)
    (hready : ∀ tx b, Ready P tx → f (p.get tx) = .ok b → Ready P (p.set b tx)) :
    Acts view (Ready P) u (fun tx => f (p.get tx) >>= fun b => .ok (p.set b tx)) where
  reads := by
    intro s t _ _ h
    have hrows := hf.reads (p.get s) (p.get t) trivial trivial (p.get_congr h)
    simp only [silent] at hrows ⊢
    cases hb : f (p.get s) with
    | error e =>
        rw [hb] at hrows
        cases hc : f (p.get t) with
        | error e' =>
            rw [hc] at hrows
            cases hrows
            rfl
        | ok c =>
            rw [hc] at hrows
            cases hrows
    | ok b =>
        rw [hb] at hrows
        cases hc : f (p.get t) with
        | error e' =>
            rw [hc] at hrows
            cases hrows
        | ok c =>
            rw [hc] at hrows
            simp only [Except.map, Prod.map, Except.ok.injEq, Prod.mk.injEq] at hrows
            exact congrArg (fun v => Except.ok ((), v)) (p.set_congr h hrows.2)
  keeps := by
    intro s _ t w hs hw h
    obtain ⟨b, hb, h⟩ := bind_eq_ok.mp (silent_eq_ok.mp h)
    cases h
    have hrows := hf.keeps (p.get s) () b w trivial hw (silent_eq_ok.mpr hb)
    rw [p.set_congr (u := w) (s := s) rfl hrows, p.set_get hs]
  inv := by
    intro s _ t hs h
    obtain ⟨b, hb, h⟩ := bind_eq_ok.mp (silent_eq_ok.mp h)
    cases h
    exact hready s b hs hb

theorem seen_get {k : Bytes} (hk : p.owns u k = true) :
    Seen view (Ready P) u (fun tx => (p.get tx).get k) := by
  intro s t _ _ h
  exact within_eq_iff.mp (p.get_congr h) k hk

theorem seen_seek {pre start : Bytes} (hs : pre <+: start) (hpre : ∀ k, pre <+: k → p.owns u k = true) :
    Seen view (Ready P) u (fun tx => (p.get tx).seek start pre) := by
  intro s t _ _ h
  exact seek_within hs hpre (p.get_congr h)

end Part

namespace IndexPart

variable {X : Type} (p : IndexPart X) {P : Bucket Book → Prop} {u : UserID}

theorem modify {f : Bucket X → Result (Bucket X)} (hf : ActsRows p.owns u f) :
    Acts view (Ready P) u (fun tx => f (p.get tx) >>= fun b => .ok (p.set b tx)) :=
  p.toPart.modify hf fun _ _ h _ => p.ready_set h

theorem store {k : Bytes} (hk : p.owns u k = true) (x : X) :
    Acts view (Ready P) u (fun tx => Storage.store (p.get tx) k x >>= fun b => .ok (p.set b tx)) :=
  p.modify (store_acts p.unique hk x)

theorem delete {k : Bytes} (hk : p.owns u k = true) :
    Acts view (Ready P) u (fun tx => (.ok (p.set ((p.get tx).delete k) tx) : Result Tx)) :=
  p.modify (delete_acts p.unique hk)

end IndexPart

end ZReader.Storage
