import Mathlib.Data.List.Nodup
import Mathlib.Data.List.Perm.Basic
import Mathlib.Data.List.Range
import SqlStore.Proofs.Check

/-!
# Lists in another order

`rearranged order xs` takes the elements of a list by their places. Where each place comes once, all elements
stay: what is looked up by a key is found again, and what is worked out element by element is worked out in
the new order.
-/

namespace SqlStore

variable {ε α β : Type}

/-- The elements at some places, one after the other. -/
def rearranged (order : List Nat) (xs : List α) : List α := order.filterMap fun i => xs[i]?

@[simp] theorem rearranged_nil (xs : List α) : rearranged [] xs = [] := rfl

theorem rearranged_cons {order : List Nat} {i : Nat} {xs : List α} {x : α} (h : xs[i]? = some x) :
    rearranged (i :: order) xs = x :: rearranged order xs := List.filterMap_cons_some h

theorem rearranged_range (xs : List α) : rearranged (List.range xs.length) xs = xs := by
  induction xs with
  | nil => rfl
  | cons x xs ih =>
    rw [List.length_cons, List.range_succ_eq_map, rearranged_cons List.getElem?_cons_zero]
    congr 1
    refine (List.filterMap_map ..).trans (Eq.trans ?_ ih)
    exact congrArg (fun f => List.filterMap f _) (funext fun i => List.getElem?_cons_succ)

/-- With each place once, all elements are there. -/
theorem rearranged_perm {order : List Nat} {xs : List α} (h : order.Perm (List.range xs.length)) :
    (rearranged order xs).Perm xs := by
  have hperm := h.filterMap fun i => xs[i]?
  rwa [show (List.range xs.length).filterMap _ = xs from rearranged_range xs] at hperm

theorem mem_of_mem_rearranged {order : List Nat} {xs : List α} {x : α} (h : x ∈ rearranged order xs) :
    x ∈ xs := by
  obtain ⟨i, -, hi⟩ := List.mem_filterMap.mp h
  exact List.mem_of_getElem? hi

/-- With each place at most once, no element comes twice. -/
theorem nodup_rearranged {order : List Nat} {xs : List α} (h : order.Nodup) (hxs : xs.Nodup) :
    (rearranged order xs).Nodup := by
  refine List.Nodup.filterMap (fun i j x hi hj => ?_) h
  obtain ⟨hlt, hi⟩ := List.getElem?_eq_some_iff.mp hi
  obtain ⟨hlt', hj⟩ := List.getElem?_eq_some_iff.mp hj
  exact (hxs.getElem_inj_iff).mp (hi.trans hj.symm)

/-- What belongs to the elements one by one. -/
theorem forall₂_rearranged {R : α → β → Prop} {xs : List α} {ys : List β} (h : List.Forall₂ R xs ys)
    (order : List Nat) : List.Forall₂ R (rearranged order xs) (rearranged order ys) := by
  induction order with
  | nil => exact .nil
  | cons i order ih =>
    cases hi : xs[i]? with
    | none =>
      have hlength := h.length_eq
      have hi' : ys[i]? = none := by
        rw [List.getElem?_eq_none_iff] at hi ⊢
        omega
      rw [show rearranged (i :: order) xs = rearranged order xs from List.filterMap_cons_none hi,
        show rearranged (i :: order) ys = rearranged order ys from List.filterMap_cons_none hi']
      exact ih
    | some x =>
      obtain ⟨hlt, rfl⟩ := List.getElem?_eq_some_iff.mp hi
      have hlt' : i < ys.length := h.length_eq ▸ hlt
      rw [rearranged_cons hi, rearranged_cons (List.getElem?_eq_getElem hlt')]
      exact .cons ((List.forall₂_iff_get.mp h).2 i hlt hlt') ih

/-- What is worked out for each element. -/
theorem mapM_rearranged {f : α → Except ε β} {xs : List α} {ys : List β} (h : xs.mapM f = .ok ys)
    (order : List Nat) : (rearranged order xs).mapM f = .ok (rearranged order ys) :=
  Except.mapM_eq_ok_of_forall₂ (forall₂_rearranged (Except.forall₂_of_mapM_eq_ok h) order)

end SqlStore
