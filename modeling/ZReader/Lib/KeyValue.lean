import ZReader.Lib.Utf8

namespace Lib.KeyValue

open Utf8 Std

variable {V : Type}

inductive PutError
  | keyRequired
  | keyTooLarge
  deriving DecidableEq, Repr

def maxKeySize : Nat := 32768

def ValidKey (k : Bytes) : Prop := k ≠ [] ∧ k.length ≤ maxKeySize

instance (k : Bytes) : Decidable (ValidKey k) := inferInstanceAs (Decidable (_ ∧ _))

/-- A bucket of an ordered key-value store. Every stored key is one that `put`
accepts, so a row can always be written again under its own key. -/
structure Bucket (V : Type) where
  rows : ExtTreeMap Bytes V
  valid : ∀ k ∈ rows, ValidKey k

namespace Bucket

def empty : Bucket V := ⟨∅, by simp⟩

instance : Inhabited (Bucket V) := ⟨empty⟩

def get (b : Bucket V) (k : Bytes) : Option V := b.rows[k]?

/-- Writing a row fails for a blank and for an oversized key. -/
def put (b : Bucket V) (k : Bytes) (v : V) : Except PutError (Bucket V) :=
  if h : ValidKey k then
    .ok ⟨b.rows.insert k v, by
      intro j hj
      obtain hj | hj := ExtTreeMap.mem_insert.mp hj
      · exact LawfulEqOrd.eq_of_compare hj ▸ h
      · exact b.valid j hj⟩
  else if k = [] then .error .keyRequired
  else .error .keyTooLarge

def delete (b : Bucket V) (k : Bytes) : Bucket V :=
  ⟨b.rows.erase k, fun j hj => b.valid j (ExtTreeMap.mem_erase.mp hj).2⟩

/-- The rows in key order, as a cursor visits them. -/
def entries (b : Bucket V) : List (Bytes × V) := b.rows.toList

def values (b : Bucket V) : List V := b.entries.map Prod.snd

theorem ext_get {b c : Bucket V} (h : ∀ k, b.get k = c.get k) : b = c := by
  have hrows : b.rows = c.rows := ExtTreeMap.ext_getElem? h
  cases b
  cases c
  cases hrows
  rfl

@[simp] theorem get_empty (k : Bytes) : (empty : Bucket V).get k = none := by
  simp [get, empty]

theorem put_eq_ok {b c : Bucket V} {k : Bytes} {v : V} (h : b.put k v = .ok c) :
    ValidKey k ∧ c.rows = b.rows.insert k v := by
  rw [put] at h
  split at h
  · next hk => cases h; exact ⟨hk, rfl⟩
  · split at h <;> cases h

theorem put_of_valid (b : Bucket V) {k : Bytes} (hk : ValidKey k) (v : V) :
    ∃ c, b.put k v = .ok c := by
  simp only [put, dif_pos hk]
  exact ⟨_, rfl⟩

theorem get_put {b c : Bucket V} {k : Bytes} {v : V} (h : b.put k v = .ok c) (j : Bytes) :
    c.get j = if k = j then some v else b.get j := by
  simp only [get, (put_eq_ok h).2, ExtTreeMap.getElem?_insert, LawfulEqOrd.compare_eq_iff_eq]

theorem get_delete (b : Bucket V) (k j : Bytes) :
    (b.delete k).get j = if k = j then none else b.get j := by
  simp only [get, delete, ExtTreeMap.getElem?_erase, LawfulEqOrd.compare_eq_iff_eq]

theorem valid_of_get {b : Bucket V} {k : Bytes} {v : V} (h : b.get k = some v) : ValidKey k := by
  apply b.valid
  rw [ExtTreeMap.mem_iff_isSome_getElem?]
  exact Option.isSome_of_eq_some h

theorem mem_entries {b : Bucket V} {k : Bytes} {v : V} : (k, v) ∈ b.entries ↔ b.get k = some v :=
  ExtTreeMap.mem_toList_iff_getElem?_eq_some

theorem get_of_isEmpty {b : Bucket V} (h : b.entries.isEmpty = true) (k : Bytes) :
    b.get k = none := by
  rw [Option.eq_none_iff_forall_ne_some]
  intro v hv
  have hmem := mem_entries.mpr hv
  rw [List.isEmpty_iff.mp h] at hmem
  simp at hmem

theorem entries_sorted (b : Bucket V) :
    b.entries.Pairwise (fun r s => compare r.1 s.1 = .lt) := ExtTreeMap.ordered_keys_toList

theorem entries_nodup (b : Bucket V) : b.entries.Nodup := by
  refine b.entries_sorted.imp ?_
  intro r s h he
  simp [he] at h

theorem keys_nodup (b : Bucket V) : (b.entries.map Prod.fst).Nodup := by
  rw [List.nodup_iff_pairwise_ne, List.pairwise_map]
  refine b.entries_sorted.imp ?_
  intro r s h he
  simp [he] at h

theorem mem_values {b : Bucket V} {v : V} : v ∈ b.values ↔ ∃ k, b.get k = some v := by
  simp only [values, List.mem_map, Prod.exists, mem_entries]
  constructor
  · rintro ⟨k, w, h, rfl⟩
    exact ⟨k, h⟩
  · rintro ⟨k, h⟩
    exact ⟨k, v, h, rfl⟩

theorem length_entries_put {b c : Bucket V} {k : Bytes} {v : V} (h : b.put k v = .ok c)
    (hk : b.get k = none) : c.entries.length = b.entries.length + 1 := by
  have hmem : k ∉ b.rows := by
    rw [ExtTreeMap.mem_iff_isSome_getElem?]
    simpa [get] using hk
  have hcontains : ¬b.rows.contains k = true := hmem
  simp only [entries, ExtTreeMap.length_toList, (put_eq_ok h).2, ExtTreeMap.size_insert,
    if_neg hcontains]

theorem values_empty : (empty : Bucket V).values = [] := by
  have h : (empty : Bucket V).entries = [] := by
    rw [List.eq_nil_iff_forall_not_mem]
    rintro ⟨k, v⟩ hm
    simp [mem_entries] at hm
  simp [values, h]

/-- The records of a bucket, with the one under `k` singled out. -/
theorem values_perm_of_get {b : Bucket V} {k : Bytes} {v : V} (h : b.get k = some v) :
    b.values.Perm (v :: (b.delete k).values) := by
  have hn : ((k, v) :: (b.delete k).entries).Nodup := by
    refine List.nodup_cons.mpr ⟨?_, (b.delete k).entries_nodup⟩
    simp [mem_entries, get_delete]
  have hp : b.entries.Perm ((k, v) :: (b.delete k).entries) := by
    rw [List.perm_ext_iff_of_nodup b.entries_nodup hn]
    rintro ⟨j, w⟩
    simp only [List.mem_cons, Prod.mk.injEq, mem_entries, get_delete]
    by_cases hj : k = j
    · subst hj
      simp [h, eq_comm]
    · simp [hj, Ne.symm hj]
  exact hp.map Prod.snd

theorem delete_of_get_none {b : Bucket V} {k : Bytes} (h : b.get k = none) : b.delete k = b := by
  apply ext_get
  intro j
  rw [get_delete]
  split
  · next hj => rw [← hj, h]
  · rfl

theorem delete_put {b c : Bucket V} {k : Bytes} {v : V} (h : b.put k v = .ok c) :
    c.delete k = b.delete k := by
  apply ext_get
  intro j
  rw [get_delete, get_delete, get_put h]
  split <;> rfl

theorem values_put_perm {b c : Bucket V} {k : Bytes} {v : V} (h : b.put k v = .ok c) :
    c.values.Perm (v :: (b.delete k).values) := by
  have hg : c.get k = some v := by rw [get_put h, if_pos rfl]
  rw [← delete_put h]
  exact values_perm_of_get hg

/-- Positioning a cursor at `start` and following it while the keys carry `pre`. -/
def seek (b : Bucket V) (start pre : Bytes) : List (Bytes × V) :=
  (b.entries.dropWhile (fun r => compare r.1 start == .lt)).takeWhile (fun r => decide (pre <+: r.1))

theorem compare_ne_lt_of_isPrefix {pre k : Bytes} (h : pre <+: k) : compare k pre ≠ .lt := by
  induction pre generalizing k with
  | nil => cases k <;> simp [compare, List.compareLex]
  | cons p pre ih =>
      obtain ⟨t, rfl⟩ := h
      simp only [List.cons_append, List.compare_cons_cons, ReflCmp.compare_self, Ordering.eq_then]
      exact ih (pre.prefix_append t)

/-- Byte strings between two extensions of `pre` extend `pre` themselves. -/
theorem isPrefix_of_between {pre a b c : Bytes} (ha : pre <+: a) (hc : pre <+: c)
    (hab : compare a b ≠ .gt) (hbc : compare b c ≠ .gt) : pre <+: b := by
  induction pre generalizing a b c with
  | nil => exact List.nil_prefix
  | cons p pre ih =>
      obtain ⟨a, rfl⟩ := ha
      obtain ⟨c, rfl⟩ := hc
      cases b with
      | nil => exact absurd rfl hab
      | cons x b =>
          rw [List.cons_append, List.compare_cons_cons] at hab hbc
          have hx : p = x := by
            cases h : compare p x with
            | eq => exact LawfulEqOrd.eq_of_compare h
            | lt =>
                have h' : compare x p = .gt := OrientedCmp.gt_of_lt h
                simp [h'] at hbc
            | gt => simp [h] at hab
          subst hx
          simp only [ReflCmp.compare_self, Ordering.eq_then] at hab hbc
          exact List.cons_prefix_cons.mpr ⟨rfl, ih (pre.prefix_append a) (pre.prefix_append c) hab hbc⟩

theorem takeWhile_eq_filter_of_sorted {pre start : Bytes} (hs : pre <+: start)
    (l : List (Bytes × V)) (hl : l.Pairwise (fun r s => compare r.1 s.1 = .lt))
    (hge : ∀ r ∈ l, compare start r.1 ≠ .gt) :
    l.takeWhile (fun r => decide (pre <+: r.1)) = l.filter (fun r => decide (pre <+: r.1)) := by
  induction l with
  | nil => rfl
  | cons r l ih =>
      obtain ⟨hr, hl⟩ := List.pairwise_cons.mp hl
      by_cases hp : pre <+: r.1
      · simp only [List.takeWhile_cons, List.filter_cons, hp, decide_true, if_true]
        rw [ih hl (fun s hm => hge s (by simp [hm]))]
      · have hnone : ∀ s ∈ l, ¬ pre <+: s.1 := by
          intro s hm hps
          refine hp (isPrefix_of_between hs hps (hge r (by simp)) ?_)
          simp [hr s hm]
        have hf : l.filter (fun r => decide (pre <+: r.1)) = [] := by
          rw [List.filter_eq_nil_iff]
          intro s hm
          simp [hnone s hm]
        simp [hp, hf]

theorem dropWhile_lt_eq_filter_of_sorted (start : Bytes) (l : List (Bytes × V))
    (hl : l.Pairwise (fun r s => compare r.1 s.1 = .lt)) :
    l.dropWhile (fun r => compare r.1 start == .lt) =
      l.filter (fun r => compare r.1 start != .lt) := by
  induction l with
  | nil => rfl
  | cons r l ih =>
      obtain ⟨hr, hl⟩ := List.pairwise_cons.mp hl
      by_cases h : compare r.1 start = .lt
      · simp [h, ih hl]
      · have hall : ∀ s ∈ l, compare s.1 start ≠ .lt := by
          intro s hm hlt
          exact h (TransCmp.lt_trans (hr s hm) hlt)
        have hf : l.filter (fun r => compare r.1 start != .lt) = l := by
          rw [List.filter_eq_self]
          intro s hm
          simp [hall s hm]
        simp [h, hf]

/-- A prefix scan visits exactly the rows from `start` on that carry the prefix. -/
theorem seek_eq_filter (b : Bucket V) {start pre : Bytes} (hs : pre <+: start) :
    b.seek start pre =
      b.entries.filter (fun r => compare r.1 start != .lt && decide (pre <+: r.1)) := by
  rw [seek, dropWhile_lt_eq_filter_of_sorted start _ b.entries_sorted,
    takeWhile_eq_filter_of_sorted hs _ (b.entries_sorted.filter _), List.filter_filter]
  · simp only [Bool.and_comm]
  · intro r hr hgt
    have := (List.mem_filter.mp hr).2
    simp [OrientedCmp.lt_of_gt hgt] at this

theorem mem_seek {b : Bucket V} {start pre : Bytes} (hs : pre <+: start) {r : Bytes × V} :
    r ∈ b.seek start pre ↔ r ∈ b.entries ∧ compare r.1 start ≠ .lt ∧ pre <+: r.1 := by
  simp [seek_eq_filter b hs]

theorem mem_seek_self {b : Bucket V} {pre : Bytes} {k : Bytes} {v : V} :
    (k, v) ∈ b.seek pre pre ↔ b.get k = some v ∧ pre <+: k := by
  rw [mem_seek (List.prefix_refl pre), mem_entries]
  constructor
  · rintro ⟨h, -, hp⟩
    exact ⟨h, hp⟩
  · rintro ⟨h, hp⟩
    exact ⟨h, compare_ne_lt_of_isPrefix hp, hp⟩

end Bucket

end Lib.KeyValue
