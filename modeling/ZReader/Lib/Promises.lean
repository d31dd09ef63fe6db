import Mathlib

namespace Lib.Promises

inductive State
  | pending
  | fulfilled
  | rejected
  deriving DecidableEq

/-- A call of the function that the executor of a promise is given. -/
def State.resolve : State → State
  | .pending => .fulfilled
  | state => state

/-- The promises are numbered in the order of their creation. -/
def resolve (promises : List State) (id : ℕ) : List State := promises.modify id State.resolve

def resolveAll (promises : List State) (ids : List ℕ) : List State := ids.foldl resolve promises

@[simp] theorem length_resolve (promises : List State) (id : ℕ) :
    (resolve promises id).length = promises.length :=
  List.length_modify _ _ _

@[simp] theorem length_resolveAll (promises : List State) (ids : List ℕ) :
    (resolveAll promises ids).length = promises.length := by
  induction ids generalizing promises with
  | nil => rfl
  | cons id ids ih => exact (ih (resolve promises id)).trans (length_resolve promises id)

theorem getElem?_resolve (promises : List State) (id other : ℕ) :
    (resolve promises id)[other]? =
      if id = other then promises[other]?.map State.resolve else promises[other]? := by
  rw [resolve, List.getElem?_modify]
  split <;> simp

theorem resolve_fulfilled {promises : List State} {other : ℕ} (id : ℕ)
    (h : promises[other]? = some .fulfilled) : (resolve promises id)[other]? = some .fulfilled := by
  rw [getElem?_resolve, h]
  split <;> rfl

theorem resolveAll_fulfilled {promises : List State} {other : ℕ} (ids : List ℕ)
    (h : promises[other]? = some .fulfilled) : (resolveAll promises ids)[other]? = some .fulfilled := by
  induction ids generalizing promises with
  | nil => exact h
  | cons id ids ih => exact ih (resolve_fulfilled id h)

/-- The promises in `ids` are pending, and all others have been fulfilled. -/
structure Outstanding (ids : List ℕ) (promises : List State) : Prop where
  nodup : ids.Nodup
  pending : ∀ id ∈ ids, promises[id]? = some .pending
  fulfilled : ∀ id, id < promises.length → id ∉ ids → promises[id]? = some .fulfilled

namespace Outstanding

variable {ids rest : List ℕ} {promises : List State} {id : ℕ}

theorem nil : Outstanding [] [] :=
  ⟨List.nodup_nil, fun _ h => absurd h List.not_mem_nil, fun _ h => absurd h (Nat.not_lt_zero _)⟩

theorem lt_length (h : Outstanding ids promises) (hid : id ∈ ids) : id < promises.length :=
  (List.getElem?_eq_some_iff.mp (h.pending id hid)).1

theorem not_mem_of_fulfilled (h : Outstanding ids promises) (hid : promises[id]? = some .fulfilled) :
    id ∉ ids := by
  intro hmem
  rw [h.pending id hmem] at hid
  cases hid

theorem perm (h : Outstanding ids promises) (hp : ids.Perm rest) : Outstanding rest promises where
  nodup := hp.nodup h.nodup
  pending id hid := h.pending id (hp.mem_iff.mpr hid)
  fulfilled id hlt hid := h.fulfilled id hlt fun hmem => hid (hp.mem_iff.mp hmem)

/-- A new promise. -/
theorem create (h : Outstanding ids promises) :
    Outstanding (promises.length :: ids) (promises ++ [.pending]) where
  nodup := List.nodup_cons.mpr ⟨fun hid => Nat.lt_irrefl _ (h.lt_length hid), h.nodup⟩
  pending id hid := by
    rcases List.mem_cons.mp hid with rfl | hid
    · exact List.getElem?_concat_length
    · rw [List.getElem?_append_left (h.lt_length hid)]
      exact h.pending id hid
  fulfilled id hlt hid := by
    rw [List.length_append, List.length_singleton] at hlt
    obtain ⟨hne, hid⟩ := not_or.mp (mt List.mem_cons.mpr hid)
    have hlt : id < promises.length := by omega
    rw [List.getElem?_append_left hlt]
    exact h.fulfilled id hlt hid

theorem resolve (h : Outstanding (id :: rest) promises) :
    Outstanding rest (Promises.resolve promises id) where
  nodup := (List.nodup_cons.mp h.nodup).2
  pending other hother := by
    have hne : id ≠ other := fun heq => (List.nodup_cons.mp h.nodup).1 (heq ▸ hother)
    rw [getElem?_resolve, if_neg hne]
    exact h.pending other (List.mem_cons_of_mem _ hother)
  fulfilled other hlt hother := by
    rw [getElem?_resolve]
    split
    · next heq =>
      subst heq
      rw [h.pending id List.mem_cons_self]
      rfl
    · next hne =>
      rw [length_resolve] at hlt
      exact h.fulfilled other hlt (mt List.mem_cons.mp (not_or.mpr ⟨Ne.symm hne, hother⟩))

theorem resolveAll (h : Outstanding (ids ++ rest) promises) :
    Outstanding rest (Promises.resolveAll promises ids) := by
  induction ids generalizing promises with
  | nil => exact h
  | cons id ids ih => exact ih (Outstanding.resolve h)

end Outstanding

end Lib.Promises
