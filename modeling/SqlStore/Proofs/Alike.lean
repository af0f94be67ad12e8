import Mathlib.Data.List.Perm.Basic
import SqlStore.Proofs.Check

/-!
# Checks with results alike

Two checks come to related results, or both fail. The relation goes through sequences of steps and through
loops, also through a loop over the same list in another order.
-/

namespace SqlStore

variable {ε α β γ δ : Type}

/-- Both checks succeed with related results, or both fail. -/
def Alike (R : α → β → Prop) : Except ε α → Except ε β → Prop
  | .ok a, .ok b => R a b
  | .error _, .error _ => True
  | _, _ => False

variable {R : α → β → Prop} {S : γ → δ → Prop}

theorem alike_self (c : Except ε α) : Alike Eq c c := by
  cases c with
  | error e => trivial
  | ok a => rfl

theorem alike_of_eq {c d : Except ε α} (h : c = d) : Alike Eq c d := h ▸ alike_self c

namespace Alike

variable {c : Except ε α} {d : Except ε β}

theorem mono {R' : α → β → Prop} (h : Alike R c d) (hR : ∀ {a b}, R a b → R' a b) : Alike R' c d := by
  cases c <;> cases d <;> first
    | exact h
    | exact hR h

theorem symm (h : Alike R c d) : Alike (fun b a => R a b) d c := by
  cases c <;> cases d <;> exact h

theorem bind {f : α → Except ε γ} {g : β → Except ε δ} (h : Alike R c d)
    (hf : ∀ {a b}, R a b → Alike S (f a) (g b)) : Alike S (c >>= f) (d >>= g) := by
  cases c <;> cases d
  case ok.ok => exact hf h
  case error.error => trivial
  all_goals exact h.elim

theorem map {f : α → γ} {g : β → δ} (h : Alike R c d) (hf : ∀ {a b}, R a b → S (f a) (g b)) :
    Alike S (c.map f) (d.map g) := by
  cases c <;> cases d
  case ok.ok => exact hf h
  case error.error => trivial
  all_goals exact h.elim

theorem exists_of_ok (h : Alike R c d) {a : α} (hc : c = .ok a) : ∃ b, d = .ok b ∧ R a b := by
  cases hc
  cases d with
  | error e => exact h.elim
  | ok b => exact ⟨b, rfl, h⟩

end Alike

/-- It is enough that each of them has a related result when the other one has a result. -/
theorem alike_of_forall {c : Except ε α} {d : Except ε β} (hc : ∀ a, c = .ok a → ∃ b, d = .ok b ∧ R a b)
    (hd : ∀ b, d = .ok b → ∃ a, c = .ok a) : Alike R c d := by
  cases c with
  | ok a =>
    obtain ⟨b, rfl, hab⟩ := hc a rfl
    exact hab
  | error e =>
    cases d with
    | error e' => trivial
    | ok b =>
      obtain ⟨a, ha⟩ := hd b rfl
      cases ha

/-! ## Loops -/

/-- A loop over related members. -/
theorem alike_mapM {f : α → Except ε γ} {g : β → Except ε δ} {xs : List α} {ys : List β}
    (h : List.Forall₂ (fun x y => Alike S (f x) (g y)) xs ys) :
    Alike (List.Forall₂ S) (xs.mapM f) (ys.mapM g) := by
  induction h with
  | nil => exact .nil
  | cons hxy _ ih =>
    rw [List.mapM_cons, List.mapM_cons]
    exact hxy.bind fun hb => ih.bind fun hbs => .cons hb hbs

theorem alike_mapM_self {f g : α → Except ε γ} {xs : List α} (h : ∀ x ∈ xs, Alike Eq (f x) (g x)) :
    Alike Eq (xs.mapM f) (xs.mapM g) := by
  have hall : List.Forall₂ (fun x y => Alike Eq (f x) (g y)) xs xs := List.forall₂_same.mpr h
  exact (alike_mapM hall).mono fun hbs => List.forall₂_eq_eq_eq ▸ hbs

/-- The members with their results, in another order. -/
theorem exists_mapM_of_perm {f g : α → Except ε γ} {xs ys : List α} (hperm : xs.Perm ys)
    (h : ∀ x ∈ xs, Alike Eq (f x) (g x)) {bs : List γ} (hbs : xs.mapM f = .ok bs) :
    ∃ cs, ys.mapM g = .ok cs ∧ (xs.zip bs).Perm (ys.zip cs) := by
  have hpairs : List.Forall₂ (fun x (p : α × γ) => p.1 = x ∧ g x = .ok p.2) xs (xs.zip bs) := by
    have hresults := Except.forall₂_of_mapM_eq_ok hbs
    clear hbs hperm
    induction hresults with
    | nil => exact .nil
    | cons hx _ ih =>
      obtain ⟨hhead, htail⟩ := List.forall_mem_cons.mp h
      obtain ⟨b, hb, rfl⟩ := hhead.exists_of_ok hx
      exact .cons ⟨rfl, hb⟩ (ih htail)
  obtain ⟨pairs, hys, hsame⟩ := List.perm_comp_forall₂ hperm.symm hpairs
  clear hpairs hperm
  refine ⟨pairs.map Prod.snd, Except.mapM_eq_ok_of_forall₂ ?_, ?_⟩
  · exact List.forall₂_map_right_iff.mpr (hys.imp fun _ _ hpair => hpair.2)
  · have hzip : ys.zip (pairs.map Prod.snd) = pairs := by
      clear hsame
      induction hys with
      | nil => rfl
      | cons hpair _ ih => rw [List.map_cons, List.zip_cons_cons, ih, ← hpair.1]
    rw [hzip]
    exact hsame.symm

/-- A loop over the members in another order. -/
theorem alike_mapM_perm {f g : α → Except ε γ} {xs ys : List α} (hperm : xs.Perm ys)
    (h : ∀ x ∈ xs, Alike Eq (f x) (g x)) :
    Alike (fun bs cs => (xs.zip bs).Perm (ys.zip cs)) (xs.mapM f) (ys.mapM g) := by
  refine alike_of_forall (fun bs hbs => exists_mapM_of_perm hperm h hbs) fun cs hcs => ?_
  obtain ⟨bs, hbs, -⟩ := exists_mapM_of_perm hperm.symm
    (fun y hy => (h y (hperm.mem_iff.mpr hy)).symm.mono Eq.symm) hcs
  exact ⟨bs, hbs⟩

end SqlStore
