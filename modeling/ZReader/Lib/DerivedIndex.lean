import ZReader.Lib.KeyValue

namespace Lib.DerivedIndex

open Utf8 KeyValue

variable {R V : Type}

def putRows (b : Bucket V) (l : List (Bytes × V)) : Except PutError (Bucket V) :=
  l.foldlM (fun b r => b.put r.1 r.2) b

def deleteRows (b : Bucket V) (l : List (Bytes × V)) : Bucket V :=
  l.foldl (fun b r => b.delete r.1) b

/-- No key of the list is given two values. -/
def Functional (l : List (Bytes × V)) : Prop :=
  ∀ k v w, (k, v) ∈ l → (k, w) ∈ l → v = w

/-- A derived bucket holds exactly the rows that the records contribute. -/
def Mirrors (rows : R → List (Bytes × V)) (l : List R) (idx : Bucket V) : Prop :=
  ∀ k v, idx.get k = some v ↔ ∃ r ∈ l, (k, v) ∈ rows r

/-- The rows of `r` share no key with those of the records in `l`. -/
def Separate (rows : R → List (Bytes × V)) (r : R) (l : List R) : Prop :=
  ∀ s ∈ l, ∀ k v w, (k, v) ∈ rows r → (k, w) ∉ rows s

theorem putRows_cons (b : Bucket V) (r : Bytes × V) (l : List (Bytes × V)) :
    putRows b (r :: l) = (b.put r.1 r.2).bind (fun b => putRows b l) := rfl

theorem putRows_cons_ok {b d : Bucket V} {r : Bytes × V} {l : List (Bytes × V)}
    (h : putRows b (r :: l) = .ok d) : ∃ c, b.put r.1 r.2 = .ok c ∧ putRows c l = .ok d := by
  rw [putRows_cons] at h
  cases hp : b.put r.1 r.2 with
  | error e => rw [hp] at h; cases h
  | ok c => rw [hp] at h; exact ⟨c, rfl, h⟩

theorem get_putRows {b c : Bucket V} {l : List (Bytes × V)} (hf : Functional l)
    (h : putRows b l = .ok c) (k : Bytes) (v : V) :
    c.get k = some v ↔ (k, v) ∈ l ∨ (k ∉ l.map Prod.fst ∧ b.get k = some v) := by
  induction l generalizing b with
  | nil =>
      cases h
      simp
  | cons r l ih =>
      obtain ⟨d, hd, hc⟩ := putRows_cons_ok h
      have hf' : Functional l := fun k v w hv hw => hf k v w (by simp [hv]) (by simp [hw])
      rw [ih hf' hc, Bucket.get_put hd]
      obtain ⟨j, w⟩ := r
      by_cases hj : j = k
      · subst hj
        by_cases hm : j ∈ l.map Prod.fst
        · obtain ⟨⟨i, u⟩, hu, rfl⟩ := List.mem_map.mp hm
          have huw : u = w := hf i u w (by simp [hu]) (by simp)
          subst huw
          have hv : (i, v) ∈ l → v = u := fun hv => hf i v u (by simp [hv]) (by simp)
          simp only [hm, not_true_eq_false, false_and, or_false, List.mem_cons, Prod.mk.injEq,
            true_and, List.map_cons, true_or]
          constructor
          · exact Or.inr
          · rintro (rfl | hv')
            · exact hu
            · exact hv'
        · have hv : (j, v) ∉ l := fun hv => hm (List.mem_map_of_mem hv)
          simp [hm, hv, eq_comm]
      · simp [hj, Ne.symm hj]

theorem get_deleteRows (b : Bucket V) (l : List (Bytes × V)) (k : Bytes) :
    (deleteRows b l).get k = if k ∈ l.map Prod.fst then none else b.get k := by
  induction l generalizing b with
  | nil => simp [deleteRows]
  | cons r l ih =>
      have hstep : deleteRows b (r :: l) = deleteRows (b.delete r.1) l := rfl
      rw [hstep, ih, Bucket.get_delete]
      by_cases hm : k ∈ l.map Prod.fst
      · simp [hm]
      · by_cases hr : r.1 = k
        · simp [hr]
        · simp [hm, hr, Ne.symm hr]

theorem mirrors_nil (rows : R → List (Bytes × V)) : Mirrors rows [] Bucket.empty := by
  intro k v
  simp

theorem Mirrors.perm {rows : R → List (Bytes × V)} {l m : List R} {idx : Bucket V}
    (h : Mirrors rows l idx) (hp : l.Perm m) : Mirrors rows m idx := by
  intro k v
  rw [h k v]
  simp only [hp.mem_iff]

theorem Mirrors.unique {rows : R → List (Bytes × V)} {l : List R} {idx jdx : Bucket V}
    (h : Mirrors rows l idx) (h' : Mirrors rows l jdx) : idx = jdx := by
  apply Bucket.ext_get
  intro k
  apply Option.ext
  intro v
  rw [h k v, h' k v]

/-- A record may be replaced by one with the same rows. -/
theorem Mirrors.congr_head {rows : R → List (Bytes × V)} {r s : R} {l : List R} {idx : Bucket V}
    (h : Mirrors rows (r :: l) idx) (hr : rows s = rows r) : Mirrors rows (s :: l) idx := by
  intro k v
  rw [h k v]
  simp [hr]

theorem Mirrors.valid {rows : R → List (Bytes × V)} {l : List R} {idx : Bucket V}
    (h : Mirrors rows l idx) {r : R} (hr : r ∈ l) : ∀ s ∈ rows r, ValidKey s.1 := by
  intro s hs
  exact Bucket.valid_of_get ((h s.1 s.2).mpr ⟨r, hr, hs⟩)

/-- A bucket that exchanges the rows of `r` for those of `s` follows the records. -/
theorem Mirrors.exchange {rows : R → List (Bytes × V)} {r s : R} {l : List R} {idx jdx : Bucket V}
    (h : Mirrors rows (r :: l) idx) (hsep : Separate rows r l)
    (hj : ∀ k v, jdx.get k = some v ↔
      (k, v) ∈ rows s ∨ (k ∉ (rows r).map Prod.fst ∧ idx.get k = some v)) :
    Mirrors rows (s :: l) jdx := by
  intro k v
  rw [hj k v, h k v]
  constructor
  · rintro (hs | ⟨hk, t, ht, hv⟩)
    · exact ⟨s, by simp, hs⟩
    · obtain rfl | ht := List.mem_cons.mp ht
      · exact absurd (List.mem_map_of_mem hv) hk
      · exact ⟨t, by simp [ht], hv⟩
  · rintro ⟨t, ht, hv⟩
    obtain rfl | ht := List.mem_cons.mp ht
    · exact Or.inl hv
    · refine Or.inr ⟨?_, t, by simp [ht], hv⟩
      intro hk
      obtain ⟨⟨i, w⟩, hw, rfl⟩ := List.mem_map.mp hk
      exact hsep t ht i w v hw hv

theorem Mirrors.remove {rows : R → List (Bytes × V)} {r : R} {l : List R} {idx : Bucket V}
    (h : Mirrors rows (r :: l) idx) (hsep : Separate rows r l) :
    Mirrors rows l (deleteRows idx (rows r)) := by
  intro k v
  rw [get_deleteRows]
  by_cases hk : k ∈ (rows r).map Prod.fst
  · obtain ⟨⟨i, w⟩, hw, rfl⟩ := List.mem_map.mp hk
    simp only [hk, if_true, reduceCtorEq, false_iff]
    rintro ⟨s, hs, hv⟩
    exact hsep s hs i w v hw hv
  · rw [if_neg hk, h k v]
    constructor
    · rintro ⟨s, hs, hv⟩
      obtain rfl | hs := List.mem_cons.mp hs
      · exact absurd (List.mem_map_of_mem hv) hk
      · exact ⟨s, hs, hv⟩
    · rintro ⟨s, hs, hv⟩
      exact ⟨s, by simp [hs], hv⟩

theorem Mirrors.add {rows : R → List (Bytes × V)} {r : R} {l : List R} {idx jdx : Bucket V}
    (h : Mirrors rows l idx) (hf : Functional (rows r)) (hsep : Separate rows r l)
    (hp : putRows idx (rows r) = .ok jdx) : Mirrors rows (r :: l) jdx := by
  intro k v
  rw [get_putRows hf hp, h k v]
  constructor
  · rintro (hr | ⟨-, s, hs, hv⟩)
    · exact ⟨r, by simp, hr⟩
    · exact ⟨s, by simp [hs], hv⟩
  · rintro ⟨s, hs, hv⟩
    obtain rfl | hs := List.mem_cons.mp hs
    · exact Or.inl hv
    · refine Or.inr ⟨?_, s, hs, hv⟩
      intro hk
      obtain ⟨⟨i, w⟩, hw, rfl⟩ := List.mem_map.mp hk
      exact hsep s hs i w v hw hv

/-- Moving a single row of a record to another key. -/
theorem Mirrors.move {rows : R → List (Bytes × V)} {r s : R} {l : List R} {idx jdx : Bucket V}
    {rest : List (Bytes × V)} {i j : Bytes} {u v : V} (h : Mirrors rows (r :: l) idx)
    (hsep : Separate rows r l) (hsep' : Separate rows s l) (hr : rows r = (i, u) :: rest)
    (hs : rows s = (j, v) :: rest) (hi : i ∉ rest.map Prod.fst) (hj : j ∉ rest.map Prod.fst)
    (hput : (idx.delete i).put j v = .ok jdx) : Mirrors rows (s :: l) jdx := by
  intro k w
  rw [Bucket.get_put hput, Bucket.get_delete]
  by_cases hjk : j = k
  · subst hjk
    rw [if_pos rfl, Option.some.injEq]
    constructor
    · rintro rfl
      exact ⟨s, by simp, by simp [hs]⟩
    · rintro ⟨t, ht, hw⟩
      rcases List.mem_cons.mp ht with rfl | ht
      · rw [hs, List.mem_cons, Prod.mk.injEq] at hw
        rcases hw with ⟨-, rfl⟩ | hw
        · rfl
        · exact absurd (List.mem_map_of_mem hw) hj
      · exact absurd hw (hsep' t ht j v w (by simp [hs]))
  · rw [if_neg hjk]
    by_cases hik : i = k
    · subst hik
      simp only [if_true, reduceCtorEq, false_iff]
      rintro ⟨t, ht, hw⟩
      rcases List.mem_cons.mp ht with rfl | ht
      · rw [hs, List.mem_cons, Prod.mk.injEq] at hw
        rcases hw with ⟨hij, -⟩ | hw
        · exact hjk hij.symm
        · exact hi (List.mem_map_of_mem hw)
      · exact hsep t ht i u w (by simp [hr]) hw
    · rw [if_neg hik, h k w]
      simp [hr, hs, Ne.symm hik, Ne.symm hjk]

/-- A stored counter: zero is represented by an absent row. -/
def counter (n : Nat) : Option Nat := if n = 0 then none else some n

/-- A counter bucket records, for every key, how many records contribute it. -/
def Tallies (keys : R → List Bytes) (l : List R) (cnt : Bucket Nat) : Prop :=
  ∀ k, cnt.get k = counter (l.countP (fun r => decide (k ∈ keys r)))

theorem counter_getD (n : Nat) : (counter n).getD 0 = n := by
  unfold counter
  split <;> simp_all

theorem tallies_nil (keys : R → List Bytes) : Tallies keys [] Bucket.empty := by
  intro k
  simp [counter]

theorem Tallies.perm {keys : R → List Bytes} {l m : List R} {cnt : Bucket Nat}
    (h : Tallies keys l cnt) (hp : l.Perm m) : Tallies keys m cnt := by
  intro k
  rw [h k, hp.countP_eq]

theorem Tallies.congr_head {keys : R → List Bytes} {r s : R} {l : List R} {cnt : Bucket Nat}
    (h : Tallies keys (r :: l) cnt) (hr : keys s = keys r) : Tallies keys (s :: l) cnt := by
  intro k
  rw [h k, List.countP_cons, List.countP_cons, hr]

theorem Tallies.unique {keys : R → List Bytes} {l : List R} {c d : Bucket Nat}
    (h : Tallies keys l c) (h' : Tallies keys l d) : c = d := by
  apply Bucket.ext_get
  intro k
  rw [h k, h' k]

end Lib.DerivedIndex
