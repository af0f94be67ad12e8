import Mathlib.Data.List.Induction
import SqlStore.Proofs.StableOrder

/-!
# One of each class

Repeats are removed in three ways: by filtering a list while an ordered set of what was seen is built, by
grouping, and by dropping neighbours of a sorted list. Where the comparison is a total preorder, each way keeps
one element of each class of equal elements, which is what `Representatives` says. Two lists of representatives
have one length (`Representatives.length_eq`), and whether a list represents another one does not depend on the
order of the elements.
-/

namespace SqlStore

variable {κ α β : Type} {cmp : α → α → Ordering} {S : α → Prop}

/-- One element of each class of equal elements. -/
structure Representatives (cmp : α → α → Ordering) (xs reps : List α) : Prop where
  mem : ∀ r ∈ reps, r ∈ xs
  apart : reps.Pairwise fun r r' => cmp r r' ≠ .eq
  covers : ∀ x ∈ xs, ∃ r ∈ reps, cmp r x = .eq

/-! ## Their number -/

/-- Elements of which no two are equal are no more than the elements that they are equal to. -/
theorem length_le_of_apart (ho : PreordersOn cmp S) {xs ys : List α} (hxs : ∀ x ∈ xs, S x)
    (hys : ∀ y ∈ ys, S y) (hapart : xs.Pairwise fun x x' => cmp x x' ≠ .eq)
    (hcovered : ∀ x ∈ xs, ∃ y ∈ ys, cmp y x = .eq) : xs.length ≤ ys.length := by
  induction xs generalizing ys with
  | nil => exact Nat.zero_le _
  | cons x xs ih =>
    obtain ⟨hx, hxs⟩ := List.forall_mem_cons.mp hxs
    obtain ⟨⟨y, hy, hyx⟩, hcovered⟩ := List.forall_mem_cons.mp hcovered
    obtain ⟨hfirst, hapart⟩ := List.pairwise_cons.mp hapart
    obtain ⟨before, after, rfl⟩ := List.append_of_mem hy
    have hyS := hys y hy
    have hothers : ∀ z ∈ before ++ after, z ∈ before ++ y :: after := fun z hz =>
      List.perm_middle.mem_iff.mpr (List.mem_cons_of_mem y hz)
    -- what is equal to `y` is equal to `x`, so the others are covered without `y`
    have hrest := ih hxs (fun z hz => hys z (hothers z hz)) hapart fun x' hx' => by
      obtain ⟨z, hz, hzx'⟩ := hcovered x' hx'
      rcases List.mem_cons.mp (List.perm_middle.mem_iff.mp hz) with rfl | hz
      · exact absurd (ho.eq_trans hx hyS (hxs x' hx') (ho.eq_symm hyS hx hyx) hzx') (hfirst x' hx')
      · exact ⟨z, hz, hzx'⟩
    rw [List.perm_middle.length_eq]
    exact Nat.succ_le_succ hrest

namespace Representatives

variable {xs ys reps others : List α} {x : α}

/-- There are as many representatives of the one list as of the other if the two have the same members. -/
theorem length_eq (h : Representatives cmp xs reps) (h' : Representatives cmp ys others)
    (ho : PreordersOn cmp S) (hxs : ∀ x ∈ xs, S x) (hsame : ∀ x, x ∈ xs ↔ x ∈ ys) :
    reps.length = others.length := by
  have hreps : ∀ r ∈ reps, S r := fun r hr => hxs r (h.mem r hr)
  have hothers : ∀ r ∈ others, S r := fun r hr => hxs r ((hsame r).mpr (h'.mem r hr))
  apply Nat.le_antisymm
  · exact length_le_of_apart ho hreps hothers h.apart fun r hr => h'.covers r ((hsame r).mp (h.mem r hr))
  · exact length_le_of_apart ho hothers hreps h'.apart fun r hr => h.covers r ((hsame r).mpr (h'.mem r hr))

/-- What is kept of equal elements alike. -/
theorem filter (h : Representatives cmp xs reps) {p : α → Bool}
    (hp : ∀ a ∈ xs, ∀ b ∈ xs, cmp a b = .eq → p a = p b) :
    Representatives cmp (xs.filter p) (reps.filter p) where
  mem r hr := by
    obtain ⟨hr, hpr⟩ := List.mem_filter.mp hr
    exact List.mem_filter.mpr ⟨h.mem r hr, hpr⟩
  apart := h.apart.filter p
  covers x hx := by
    obtain ⟨hx, hpx⟩ := List.mem_filter.mp hx
    obtain ⟨r, hr, hrx⟩ := h.covers x hx
    exact ⟨r, List.mem_filter.mpr ⟨hr, (hp r (h.mem r hr) x hx hrx).trans hpx⟩, hrx⟩

/-- Another list of the same members. -/
theorem congr (h : Representatives cmp xs reps) (hsame : ∀ x, x ∈ xs ↔ x ∈ ys) :
    Representatives cmp ys reps :=
  ⟨fun r hr => (hsame r).mp (h.mem r hr), h.apart, fun x hx => h.covers x ((hsame x).mpr hx)⟩

/-- One more element, which is equal to one that is there. -/
theorem snoc_of_eq (h : Representatives cmp xs reps) (ho : PreordersOn cmp S) (hxs : ∀ x ∈ xs, S x) (hx : S x)
    (hold : ∃ y ∈ xs, cmp y x = .eq) : Representatives cmp (xs ++ [x]) reps where
  mem r hr := List.mem_append_left _ (h.mem r hr)
  apart := h.apart
  covers := by
    obtain ⟨y, hy, hyx⟩ := hold
    obtain ⟨r, hr, hry⟩ := h.covers y hy
    refine List.forall_mem_append.mpr ⟨h.covers, List.forall_mem_singleton.mpr ⟨r, hr, ?_⟩⟩
    exact ho.eq_trans (hxs r (h.mem r hr)) (hxs y hy) hx hry hyx

/-- One more element, which is equal to none that is there. -/
theorem snoc_of_ne (h : Representatives cmp xs reps) (hself : cmp x x = .eq)
    (hnew : ∀ y ∈ xs, cmp y x ≠ .eq) : Representatives cmp (xs ++ [x]) (reps ++ [x]) where
  mem := List.forall_mem_append.mpr
    ⟨fun r hr => List.mem_append_left _ (h.mem r hr), fun r hr => List.mem_append_right _ hr⟩
  apart := List.pairwise_append.mpr ⟨h.apart, List.pairwise_singleton _ _,
    fun r hr => List.forall_mem_singleton.mpr (hnew r (h.mem r hr))⟩
  covers := by
    refine List.forall_mem_append.mpr ⟨fun y hy => ?_, List.forall_mem_singleton.mpr ?_⟩
    · obtain ⟨r, hr, hry⟩ := h.covers y hy
      exact ⟨r, List.mem_append_left _ hr, hry⟩
    · exact ⟨x, List.mem_append_right _ (List.mem_singleton_self x), hself⟩

theorem cons_of_ne (h : Representatives cmp xs reps) (hself : cmp x x = .eq)
    (hnew : ∀ y ∈ xs, cmp x y ≠ .eq) : Representatives cmp (x :: xs) (x :: reps) where
  mem := List.forall_mem_cons.mpr
    ⟨List.mem_cons_self, fun r hr => List.mem_cons_of_mem x (h.mem r hr)⟩
  apart := List.pairwise_cons.mpr ⟨fun r hr => hnew r (h.mem r hr), h.apart⟩
  covers := by
    refine List.forall_mem_cons.mpr ⟨⟨x, List.mem_cons_self, hself⟩, fun y hy => ?_⟩
    obtain ⟨r, hr, hry⟩ := h.covers y hy
    exact ⟨r, List.mem_cons_of_mem x hr, hry⟩

end Representatives

/-! ## First occurrences -/

/-- The elements of a list that no earlier one is equal to, in their order. -/
def firsts (cmp : α → α → Ordering) (xs : List α) : List α :=
  (xs.zipIdx.filter fun (x, i) => (xs.take i).all fun y => cmp y x != .eq).map Prod.fst

theorem firsts_snoc (cmp : α → α → Ordering) (xs : List α) (x : α) :
    firsts cmp (xs ++ [x]) = firsts cmp xs ++ if xs.all fun y => cmp y x != .eq then [x] else [] := by
  unfold firsts
  rw [List.zipIdx_append, List.filter_append, List.map_append, Nat.zero_add]
  congr 1
  · refine congrArg (List.map Prod.fst) (List.filter_congr fun (y, i) hp => ?_)
    have hi : i < xs.length := by simpa using List.snd_lt_of_mem_zipIdx hp
    dsimp only
    rw [List.take_append_of_le_length (Nat.le_of_lt hi)]
  · simp only [List.zipIdx_singleton, List.filter_singleton, List.take_left]
    cases xs.all fun y => cmp y x != .eq <;> rfl

theorem firsts_map (f : β → α) (xs : List β) :
    firsts cmp (xs.map f) = (firsts (fun a b => cmp (f a) (f b)) xs).map f := by
  induction xs using List.reverseRecOn with
  | nil => rfl
  | append_singleton xs x ih =>
    rw [List.map_append, List.map_singleton, firsts_snoc, firsts_snoc, ih, List.map_append, List.all_map]
    congr 1
    simp only [Function.comp_def]
    split <;> rfl

/-- First occurrences represent a list. -/
theorem representatives_firsts (ho : PreordersOn cmp S) {xs : List α} (hxs : ∀ x ∈ xs, S x) :
    Representatives cmp xs (firsts cmp xs) := by
  induction xs using List.reverseRecOn with
  | nil => exact ⟨nofun, .nil, nofun⟩
  | append_singleton xs x ih =>
    obtain ⟨hxs, hx⟩ := List.forall_mem_append.mp hxs
    have hx := List.forall_mem_singleton.mp hx
    rw [firsts_snoc]
    split
    · next hnew =>
      exact (ih hxs).snoc_of_ne (ho.self hx) fun y hy => bne_iff_ne.mp (List.all_eq_true.mp hnew y hy)
    · next hold =>
      rw [List.append_nil]
      refine (ih hxs).snoc_of_eq ho hxs hx ?_
      by_contra hnone
      refine hold (List.all_eq_true.mpr fun y hy => bne_iff_ne.mpr fun heq => hnone ⟨y, hy, heq⟩)

/-! ## Filtering by what was seen -/

/-- An ascending list of keys has an entry that is equal to each of the elements seen, and no other. -/
structure Seen (cmp : α → α → Ordering) (S : α → Prop) (done seen : List α) : Prop where
  key : ∀ k ∈ seen, S k
  ascending : seen.Pairwise fun k k' => cmp k k' = .lt
  same : ∀ x, S x → ((∃ k ∈ seen, cmp x k = .eq) ↔ ∃ y ∈ done, cmp y x = .eq)

/-- A key is refused if it is equal to one that is there. -/
theorem insertKey?_eq_none_iff (ho : PreordersOn cmp S) {x : α} (hx : S x) {seen : List α}
    (hseen : ∀ k ∈ seen, S k) (hascending : seen.Pairwise fun k k' => cmp k k' = .lt) :
    insertKey? cmp x seen = none ↔ ∃ k ∈ seen, cmp x k = .eq := by
  induction seen with
  | nil => simp [insertKey?]
  | cons k seen ih =>
    obtain ⟨hk, hrest⟩ := List.forall_mem_cons.mp hseen
    obtain ⟨hbelow, hascending⟩ := List.pairwise_cons.mp hascending
    unfold insertKey?
    cases hcompare : cmp x k with
    | lt =>
      refine iff_of_false nofun ?_
      rintro ⟨k', hk', heq⟩
      rcases List.mem_cons.mp hk' with rfl | hk'
      · rw [hcompare] at heq
        cases heq
      · rw [ho.lt_of_lt_of_le hx hk (hrest k' hk') hcompare (by rw [hbelow k' hk']; rfl)] at heq
        cases heq
    | eq => exact iff_of_true rfl ⟨k, List.mem_cons_self, hcompare⟩
    | gt =>
      rw [Option.map_eq_none_iff, ih hrest hascending, List.exists_mem_cons_iff, hcompare]
      simp

/-- A new key is put in its place. -/
theorem of_insertKey? (ho : PreordersOn cmp S) {x : α} (hx : S x) {seen seen' : List α}
    (hseen : ∀ k ∈ seen, S k) (hascending : seen.Pairwise fun k k' => cmp k k' = .lt)
    (h : insertKey? cmp x seen = some seen') :
    seen'.Perm (x :: seen) ∧ seen'.Pairwise fun k k' => cmp k k' = .lt := by
  induction seen generalizing seen' with
  | nil =>
    cases h
    exact ⟨.refl _, List.pairwise_singleton _ _⟩
  | cons k seen ih =>
    obtain ⟨hk, hrest⟩ := List.forall_mem_cons.mp hseen
    obtain ⟨hbelow, hrestAscending⟩ := List.pairwise_cons.mp hascending
    unfold insertKey? at h
    cases hcompare : cmp x k with
    | lt =>
      rw [hcompare] at h
      cases h
      refine ⟨.refl _, List.pairwise_cons.mpr ⟨List.forall_mem_cons.mpr ⟨hcompare, ?_⟩, hascending⟩⟩
      exact fun k' hk' => ho.lt_of_lt_of_le hx hk (hrest k' hk') hcompare (by rw [hbelow k' hk']; rfl)
    | eq =>
      rw [hcompare] at h
      cases h
    | gt =>
      rw [hcompare] at h
      obtain ⟨between, hbetween, rfl⟩ := Option.map_eq_some_iff.mp h
      obtain ⟨hperm, hpairs⟩ := ih hrest hrestAscending hbetween
      refine ⟨(hperm.cons k).trans (.swap x k seen), List.pairwise_cons.mpr ⟨fun k' hk' => ?_, hpairs⟩⟩
      rcases List.mem_cons.mp (hperm.mem_iff.mp hk') with rfl | hk'
      · exact ho.lt_of_gt hx hk hcompare
      · exact hbelow k' hk'

namespace Seen

variable {done seen : List α} {x : α}

theorem snoc_of_eq (h : Seen cmp S done seen) (ho : PreordersOn cmp S) (hdone : ∀ y ∈ done, S y) (hx : S x)
    (hold : ∃ y ∈ done, cmp y x = .eq) : Seen cmp S (done ++ [x]) seen := by
  refine ⟨h.key, h.ascending, fun z hz => (h.same z hz).trans ?_⟩
  obtain ⟨y, hy, hyx⟩ := hold
  constructor
  · rintro ⟨y', hy', hy'z⟩
    exact ⟨y', List.mem_append_left _ hy', hy'z⟩
  · rintro ⟨y', hy', hy'z⟩
    rcases List.mem_append.mp hy' with hy' | hy'
    · exact ⟨y', hy', hy'z⟩
    · cases List.mem_singleton.mp hy'
      exact ⟨y, hy, ho.eq_trans (hdone y hy) hx hz hyx hy'z⟩

theorem snoc_of_some (h : Seen cmp S done seen) (ho : PreordersOn cmp S) (hx : S x) {seen' : List α}
    (hinsert : insertKey? cmp x seen = some seen') : Seen cmp S (done ++ [x]) seen' := by
  obtain ⟨hperm, hascending⟩ := of_insertKey? ho hx h.key h.ascending hinsert
  refine ⟨fun k hk => ?_, hascending, fun z hz => ?_⟩
  · rcases List.mem_cons.mp (hperm.mem_iff.mp hk) with rfl | hk
    · exact hx
    · exact h.key k hk
  · have hswap : cmp z x = .eq ↔ cmp x z = .eq := ⟨ho.eq_symm hz hx, ho.eq_symm hx hz⟩
    simp only [hperm.mem_iff, List.exists_mem_cons_iff, List.mem_append, List.mem_singleton, or_and_right,
      exists_or, exists_eq_left, h.same z hz, hswap, or_comm]

end Seen

/-- The loop over a list, of which a part is done: it goes on with the first occurrences. -/
theorem firsts_append_distinctBy (ho : PreordersOn cmp S) {done seen rest : List α}
    (hS : ∀ x ∈ done ++ rest, S x) (h : Seen cmp S done seen) :
    firsts cmp done ++ distinctBy cmp seen rest = firsts cmp (done ++ rest) := by
  induction rest generalizing done seen with
  | nil => rw [distinctBy, List.append_nil, List.append_nil]
  | cons x rest ih =>
    obtain ⟨hdone, hrest⟩ := List.forall_mem_append.mp hS
    have hx := hrest x List.mem_cons_self
    -- the set refuses an element just if an earlier one is equal to it
    have hrefused := (insertKey?_eq_none_iff ho hx h.key h.ascending).trans (h.same x hx)
    rw [List.append_cons] at hS ⊢
    unfold distinctBy
    cases hinsert : insertKey? cmp x seen with
    | none =>
      have hold := hrefused.mp hinsert
      rw [← ih hS (h.snoc_of_eq ho hdone hx hold), firsts_snoc, if_neg]
      · rw [List.append_nil]
      · obtain ⟨y, hy, hyx⟩ := hold
        exact fun hall => bne_iff_ne.mp (List.all_eq_true.mp hall y hy) hyx
    | some seen' =>
      rw [← ih hS (h.snoc_of_some ho hx hinsert), firsts_snoc, if_pos]
      · rw [List.append_assoc]
        rfl
      · refine List.all_eq_true.mpr fun y hy => bne_iff_ne.mpr fun hyx => ?_
        rw [hrefused.mpr ⟨y, hy, hyx⟩] at hinsert
        cases hinsert

/-- Filtering by an ordered set of what was seen keeps the first occurrences. -/
theorem distinctBy_eq_firsts (ho : PreordersOn cmp S) {xs : List α} (hxs : ∀ x ∈ xs, S x) :
    distinctBy cmp [] xs = firsts cmp xs := by
  have hnone : Seen cmp S [] [] := ⟨List.forall_mem_nil _, .nil, fun _ _ => by simp⟩
  exact firsts_append_distinctBy ho hxs hnone

/-! ## Dropping neighbours -/

/-- The loop over a sorted list drops what is equal to the element that it kept last. -/
theorem representatives_go (ho : PreordersOn cmp S) {kept : α} {ys : List α} (hS : ∀ y ∈ kept :: ys, S y)
    (hsorted : (kept :: ys).Pairwise fun a b => (cmp a b).isLE) :
    Representatives cmp (kept :: ys) (kept :: dropRepeats.go cmp kept ys) := by
  induction ys generalizing kept with
  | nil =>
    refine ⟨fun _ hr => hr, List.pairwise_singleton _ _, List.forall_mem_singleton.mpr ?_⟩
    exact ⟨kept, List.mem_cons_self, ho.self (hS kept List.mem_cons_self)⟩
  | cons y ys ih =>
    obtain ⟨hkept, hS⟩ := List.forall_mem_cons.mp hS
    obtain ⟨hy, hys⟩ := List.forall_mem_cons.mp hS
    obtain ⟨hfirst, hrest⟩ := List.pairwise_cons.mp hsorted
    unfold dropRepeats.go
    split
    · next heq =>
      have hshort := ih (List.forall_mem_cons.mpr ⟨hkept, hys⟩)
        (List.pairwise_cons.mpr ⟨fun z hz => hfirst z (List.mem_cons_of_mem y hz), hrest.of_cons⟩)
      refine (hshort.snoc_of_eq ho (List.forall_mem_cons.mpr ⟨hkept, hys⟩) hy
        ⟨kept, List.mem_cons_self, ho.eq_symm hy hkept (beq_iff_eq.mp heq)⟩).congr fun z => ?_
      simp [or_left_comm, or_comm]
    · next hne =>
      -- what is behind `y` is not below it, so nothing there is equal to the element before
      have hky : cmp kept y ≠ .eq := fun heq => hne (beq_iff_eq.mpr (ho.eq_symm hkept hy heq))
      have hlt : cmp kept y = .lt := Ordering.isLE_iff_eq_lt_or_eq_eq.mp (hfirst y List.mem_cons_self)
        |>.resolve_right hky
      refine (ih hS hrest).cons_of_ne (ho.self hkept) (List.forall_mem_cons.mpr ⟨hky, fun z hz => ?_⟩)
      rw [ho.lt_of_lt_of_le hkept hy (hys z hz) hlt (List.rel_of_pairwise_cons hrest hz)]
      decide

/-- What is left of a sorted list represents it. -/
theorem representatives_dropRepeats (ho : PreordersOn cmp S) {xs : List α} (hxs : ∀ x ∈ xs, S x)
    (hsorted : xs.Pairwise fun a b => (cmp a b).isLE) : Representatives cmp xs (dropRepeats cmp xs) := by
  cases xs with
  | nil => exact ⟨fun _ hr => hr, .nil, List.forall_mem_nil _⟩
  | cons x xs => exact representatives_go ho hxs hsorted

end SqlStore
