import ZReader.Lib.KeyValue

namespace Lib.Ordered

open Utf8 Std

variable {α : Type}

/-- The strict order of the byte keys of records. -/
def Before (key : α → Bytes) (a b : α) : Prop := compare (key a) (key b) = .lt

instance (key : α → Bytes) : DecidableRel (Before key) := fun a b =>
  inferInstanceAs (Decidable (compare (key a) (key b) = .lt))

theorem Before.irrefl {key : α → Bytes} (a : α) : ¬ Before key a a := by
  simp [Before]

theorem Before.trans {key : α → Bytes} {a b c : α} (h : Before key a b) (h' : Before key b c) :
    Before key a c := TransCmp.lt_trans h h'

theorem Before.asymm {key : α → Bytes} {a b : α} (h : Before key a b) : ¬ Before key b a :=
  fun h' => Before.irrefl a (h.trans h')

theorem compare_append_left (p a b : Bytes) : compare (p ++ a) (p ++ b) = compare a b := by
  induction p with
  | nil => rfl
  | cons x p ih =>
      simp only [List.cons_append, List.compare_cons_cons, ReflCmp.compare_self, Ordering.eq_then]
      exact ih

/-- Strictly ordered lists with the same members are equal. -/
theorem eq_of_mem_iff {key : α → Bytes} {l m : List α} (hl : l.Pairwise (Before key))
    (hm : m.Pairwise (Before key)) (h : ∀ a, a ∈ l ↔ a ∈ m) : l = m := by
  have : Std.Irrefl (Before key) := ⟨Before.irrefl⟩
  have : Std.Antisymm (Before key) := ⟨fun _ _ h h' => absurd h' h.asymm⟩
  exact hl.eq_of_mem_iff hm h

/-- Sorting by the byte order of the keys. -/
def sortByKey (key : α → Bytes) (l : List α) : List α :=
  l.insertionSort (fun a b => compare (key a) (key b) ≠ .gt)

theorem mem_sortByKey {key : α → Bytes} {l : List α} {a : α} : a ∈ sortByKey key l ↔ a ∈ l := by
  rw [sortByKey, List.mem_insertionSort]

theorem sortByKey_pairwise {key : α → Bytes} {l : List α} (hn : (l.map key).Nodup) :
    (sortByKey key l).Pairwise (Before key) := by
  have : Std.Total (fun a b : α => compare (key a) (key b) ≠ .gt) := ⟨by
    intro a b
    by_cases h : compare (key a) (key b) = .gt
    · right
      rw [OrientedCmp.lt_of_gt h]
      simp
    · left
      exact h⟩
  have : IsTrans α (fun a b : α => compare (key a) (key b) ≠ .gt) := ⟨by
    intro a b c hab hbc
    exact Ordering.isLE_iff_ne_gt.mp
      (TransCmp.isLE_trans (Ordering.isLE_iff_ne_gt.mpr hab) (Ordering.isLE_iff_ne_gt.mpr hbc))⟩
  have hsorted := List.pairwise_insertionSort (fun a b : α => compare (key a) (key b) ≠ .gt) l
  have hdistinct : ((sortByKey key l).map key).Nodup :=
    ((List.perm_insertionSort _ l).map key).nodup_iff.mpr hn
  rw [List.nodup_iff_pairwise_ne, List.pairwise_map] at hdistinct
  refine (hsorted.and hdistinct).imp ?_
  rintro a b ⟨hle, hne⟩
  cases h : compare (key a) (key b) with
  | lt => exact h
  | eq => exact absurd (LawfulEqOrd.eq_of_compare h) hne
  | gt => exact absurd h hle

/-- What follows an element of an ordered list is the rest of the list. -/
theorem filter_before {key : α → Bytes} {pre suf : List α} {a : α}
    (h : (pre ++ a :: suf).Pairwise (Before key)) :
    (pre ++ a :: suf).filter (fun b => Before key a b) = suf := by
  rw [List.pairwise_append] at h
  obtain ⟨-, hsuf, hcross⟩ := h
  rw [List.pairwise_cons] at hsuf
  have hpre : pre.filter (fun b => Before key a b) = [] := by
    rw [List.filter_eq_nil_iff]
    intro b hb
    have hba := hcross b hb a (by simp)
    simp [hba.asymm]
  have hall : suf.filter (fun b => Before key a b) = suf := by
    rw [List.filter_eq_self]
    intro b hb
    simp [hsuf.1 b hb]
  simp [hpre, hall, Before.irrefl]

end Lib.Ordered
