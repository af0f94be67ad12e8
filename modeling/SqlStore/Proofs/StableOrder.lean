import Mathlib.Data.List.GetD
import SqlStore.Proofs.Partition

/-!
# Stable order

Sorting by insertion permutes a list. Where the comparison is a total preorder on the elements, the result is
in order, and elements that are equal keep the order that they had: `pairwise_stableSort` says so for whatever
is known of each earlier and each later element of the list. Put on the places of the elements, the sorted
list is the elements at the places in their one order by element and then by place.
-/

namespace SqlStore

variable {α β : Type} {cmp : α → α → Ordering} {S : α → Prop} {R : α → α → Prop}

/-! ## Preorders made of others -/

namespace PreordersOn

/-- Comparing what is read off elements. -/
theorem comap (ho : PreordersOn cmp S) (f : β → α) {S' : β → Prop} (hf : ∀ b, S' b → S (f b)) :
    PreordersOn (fun a b => cmp (f a) (f b)) S' where
  swap := fun ha hb => ho.swap (hf _ ha) (hf _ hb)
  trans := fun ha hb hc => ho.trans (hf _ ha) (hf _ hb) (hf _ hc)

/-- One comparison, and where it says that elements are equal another one. -/
theorem lex {cmp' : α → α → Ordering} (ho : PreordersOn cmp S) (ho' : PreordersOn cmp' S) :
    PreordersOn (fun a b => (cmp a b).then (cmp' a b)) S where
  swap := fun ha hb => by rw [Ordering.swap_then, ho.swap ha hb, ho'.swap ha hb]
  trans := by
    intro a b c ha hb hc hab hbc
    have hcases : ∀ {o p : Ordering}, (o.then p).isLE → o = .lt ∨ o = .eq ∧ p.isLE := by decide
    rcases hcases hab with hlt | ⟨heq, hle⟩
    · have hbc' : (cmp b c).isLE := by rcases hcases hbc with h | ⟨h, -⟩ <;> rw [h] <;> rfl
      rw [ho.lt_of_lt_of_le ha hb hc hlt hbc']
      rfl
    · rcases hcases hbc with hlt' | ⟨heq', hle'⟩
      · rw [ho.lt_of_eq_of_lt ha hb hc heq hlt']
        rfl
      · rw [ho.eq_trans ha hb hc heq heq']
        exact ho'.trans ha hb hc hle hle'

end PreordersOn

/-! ## Permutation -/

theorem insertLast_perm (cmp : α → α → Ordering) (x : α) (ys : List α) :
    (insertLast cmp x ys).Perm (x :: ys) := by
  induction ys with
  | nil => exact .refl _
  | cons y ys ih =>
    unfold insertLast
    split
    · exact (ih.cons y).trans (.swap x y ys)
    · exact .refl _

theorem foldl_insertLast_perm (cmp : α → α → Ordering) (xs sorted : List α) :
    (xs.foldl (fun sorted x => insertLast cmp x sorted) sorted).Perm (xs ++ sorted) := by
  induction xs generalizing sorted with
  | nil => exact .refl _
  | cons x xs ih =>
    exact (ih _).trans (((insertLast_perm cmp x sorted).append_left xs).trans List.perm_middle)

theorem perm_stableSort (cmp : α → α → Ordering) (xs : List α) : (stableSort cmp xs).Perm xs := by
  have hsorted := foldl_insertLast_perm cmp xs []
  rw [List.append_nil] at hsorted
  exact (List.reverse_perm _).trans hsorted

/-! ## Order -/

/-- The first element is below the second one, or they are equal and related. -/
def Before (cmp : α → α → Ordering) (R : α → α → Prop) (a b : α) : Prop :=
  cmp a b = .lt ∨ cmp a b = .eq ∧ R a b

theorem Before.isLE {a b : α} (h : Before cmp R a b) : (cmp a b).isLE := by
  rcases h with h | ⟨h, -⟩ <;> rw [h] <;> rfl

/-- An element that is not below another one, which comes before it. -/
theorem before_of_not_lt (ho : PreordersOn cmp S) {x y : α} (hx : S x) (hy : S y) (hnot : cmp x y ≠ .lt)
    (hR : R y x) : Before cmp R y x := by
  cases hcompare : cmp x y with
  | lt => exact absurd hcompare hnot
  | eq => exact .inr ⟨ho.eq_symm hx hy hcompare, hR⟩
  | gt => exact .inl (ho.lt_of_gt hx hy hcompare)

/-- Before something and at most something else, which comes behind. -/
theorem Before.trans_isLE (ho : PreordersOn cmp S) {a b c : α} (ha : S a) (hb : S b) (hc : S c)
    (hab : Before cmp R a b) (hbc : (cmp b c).isLE) (hR : R a c) : Before cmp R a c := by
  rcases hab with hlt | ⟨heq, -⟩
  · exact .inl (ho.lt_of_lt_of_le ha hb hc hlt hbc)
  · cases hcompare : cmp b c with
    | lt => exact .inl (ho.lt_of_eq_of_lt ha hb hc heq hcompare)
    | eq => exact .inr ⟨ho.eq_trans ha hb hc heq hcompare, hR⟩
    | gt =>
      rw [hcompare] at hbc
      cases hbc

/-- One insertion into a list that runs from the last element to the first. -/
theorem pairwise_insertLast (ho : PreordersOn cmp S) {x : α} (hx : S x) {ys : List α} (hys : ∀ y ∈ ys, S y)
    (hR : ∀ y ∈ ys, R y x) (h : ys.Pairwise fun b a => Before cmp R a b) :
    (insertLast cmp x ys).Pairwise fun b a => Before cmp R a b := by
  induction ys with
  | nil => exact List.pairwise_singleton _ _
  | cons y ys ih =>
    obtain ⟨hy, hys⟩ := List.forall_mem_cons.mp hys
    obtain ⟨hRy, hRys⟩ := List.forall_mem_cons.mp hR
    obtain ⟨hbelow, hrest⟩ := List.pairwise_cons.mp h
    unfold insertLast
    split
    · next hlt =>
      refine List.pairwise_cons.mpr ⟨fun a ha => ?_, ih hys hRys hrest⟩
      rcases mem_insertLast.mp ha with rfl | ha
      · exact .inl (beq_iff_eq.mp hlt)
      · exact hbelow a ha
    · next hnot =>
      have hyx : Before cmp R y x := before_of_not_lt ho hx hy (fun hlt => hnot (beq_iff_eq.mpr hlt)) hRy
      refine List.pairwise_cons.mpr ⟨List.forall_mem_cons.mpr ⟨hyx, fun a ha => ?_⟩, h⟩
      exact (hbelow a ha).trans_isLE ho (hys a ha) hy hx hyx.isLE (hRys a ha)

/-- Insertions one after the other of elements that come behind those that are sorted. -/
theorem pairwise_foldl_insertLast (ho : PreordersOn cmp S) {rest sorted : List α} (hrest : ∀ x ∈ rest, S x)
    (hsorted : ∀ y ∈ sorted, S y) (hlater : rest.Pairwise R) (hacross : ∀ y ∈ sorted, ∀ x ∈ rest, R y x)
    (h : sorted.Pairwise fun b a => Before cmp R a b) :
    (rest.foldl (fun sorted x => insertLast cmp x sorted) sorted).Pairwise
      fun b a => Before cmp R a b := by
  induction rest generalizing sorted with
  | nil => exact h
  | cons x rest ih =>
    obtain ⟨hx, hrest⟩ := List.forall_mem_cons.mp hrest
    obtain ⟨hRx, hlater⟩ := List.pairwise_cons.mp hlater
    have hmem : ∀ y ∈ insertLast cmp x sorted, y = x ∨ y ∈ sorted := fun y hy => mem_insertLast.mp hy
    refine ih hrest (fun y hy => ?_) hlater (fun y hy z hz => ?_)
      (pairwise_insertLast ho hx hsorted (fun y hy => hacross y hy x List.mem_cons_self) h)
    · rcases hmem y hy with rfl | hy
      · exact hx
      · exact hsorted y hy
    · rcases hmem y hy with rfl | hy
      · exact hRx z hz
      · exact hacross y hy z (List.mem_cons_of_mem x hz)

/-- A sorted list is in order, and equal elements are related as earlier and later ones were. -/
theorem pairwise_stableSort (ho : PreordersOn cmp S) {xs : List α} (hxs : ∀ x ∈ xs, S x)
    (hR : xs.Pairwise R) : (stableSort cmp xs).Pairwise (Before cmp R) :=
  -- the loop builds the list backwards
  List.pairwise_reverse.mpr (pairwise_foldl_insertLast ho hxs (List.forall_mem_nil _) hR
    (List.forall_mem_nil _) .nil)

theorem pairwise_isLE_stableSort (ho : PreordersOn cmp S) {xs : List α} (hxs : ∀ x ∈ xs, S x) :
    (stableSort cmp xs).Pairwise fun a b => (cmp a b).isLE :=
  (pairwise_stableSort (R := fun _ _ => True) ho hxs (List.pairwise_of_forall fun _ _ => trivial)).imp
    Before.isLE

/-! ## Places -/

theorem insertLast_map (f : β → α) (x : β) (ys : List β) :
    insertLast cmp (f x) (ys.map f) = (insertLast (fun a b => cmp (f a) (f b)) x ys).map f := by
  induction ys with
  | nil => rfl
  | cons y ys ih =>
    rw [List.map_cons]
    unfold insertLast
    split
    · rw [ih]
      rfl
    · rfl

theorem foldl_insertLast_map (f : β → α) (xs sorted : List β) :
    (xs.map f).foldl (fun sorted x => insertLast cmp x sorted) (sorted.map f) =
      (xs.foldl (fun sorted x => insertLast (fun a b => cmp (f a) (f b)) x sorted) sorted).map f := by
  induction xs generalizing sorted with
  | nil => rfl
  | cons x xs ih => rw [List.map_cons, List.foldl_cons, List.foldl_cons, insertLast_map, ih]

/-- Sorting does not look at what an element is compared for. -/
theorem stableSort_map (f : β → α) (xs : List β) :
    stableSort cmp (xs.map f) = (stableSort (fun a b => cmp (f a) (f b)) xs).map f := by
  unfold stableSort
  rw [List.map_reverse, ← foldl_insertLast_map f xs []]
  rfl

theorem map_getD_range (xs : List α) (d : α) :
    (List.range xs.length).map (fun i => xs.getD i d) = xs := by
  refine List.ext_getElem (by simp) fun i hi hi' => ?_
  rw [List.getElem_map, List.getElem_range, List.getD_eq_getElem _ _ hi']

/-- A sorted list is the elements at places that are in order of the elements, and in their own order where
the elements are equal. -/
theorem exists_places_of_stableSort (d : α) {xs : List α} (ho : PreordersOn cmp (· ∈ xs)) :
    ∃ places : List Nat, places.Perm (List.range xs.length) ∧
      (places.Pairwise fun i j => cmp (xs.getD i d) (xs.getD j d) = .lt ∨
        cmp (xs.getD i d) (xs.getD j d) = .eq ∧ i < j) ∧
      stableSort cmp xs = places.map fun i => xs.getD i d := by
  let byElement : Nat → Nat → Ordering := fun i j => cmp (xs.getD i d) (xs.getD j d)
  have hmem : ∀ i < xs.length, xs.getD i d ∈ xs := by
    intro i hi
    rw [List.getD_eq_getElem _ _ hi]
    exact List.getElem_mem hi
  have hplaces : PreordersOn byElement (· < xs.length) := ho.comap _ hmem
  refine ⟨stableSort byElement (List.range xs.length), perm_stableSort _ _, ?_, ?_⟩
  · exact pairwise_stableSort hplaces (fun i hi => List.mem_range.mp hi) List.pairwise_lt_range
  · conv_lhs => rw [← map_getD_range xs d]
    exact stableSort_map (fun i => xs.getD i d) _

end SqlStore
