import Mathlib.Data.List.Forall2
import SqlStore.StableSort

/-!
# What sorting keeps, and what it forgets

Sorting and grouping take elements one after the other. Where the comparison orders the elements, the
order in which they are taken does not show in what comes out: sorted lists are equal, and groups are the
same ones with their members in some order. Both follow from one law of folds: what does not depend on the
order of any two elements does not depend on the order of all.
-/

namespace SqlStore

section

variable {α : Type} {cmp : α → α → Ordering}

theorem mem_of_mem_dropRepeats {x : α} {xs : List α} (h : x ∈ dropRepeats cmp xs) : x ∈ xs := by
  have hgo : ∀ (kept : α) (ys : List α), x ∈ dropRepeats.go cmp kept ys → x ∈ ys := by
    intro kept ys
    induction ys generalizing kept with
    | nil => exact id
    | cons y ys ih =>
      unfold dropRepeats.go
      intro h
      split at h
      · exact List.mem_cons_of_mem y (ih kept h)
      · rcases List.mem_cons.mp h with rfl | h
        · exact List.mem_cons_self
        · exact List.mem_cons_of_mem y (ih y h)
  cases xs with
  | nil => cases h
  | cons y ys =>
    rcases List.mem_cons.mp h with rfl | h
    · exact List.mem_cons_self
    · exact List.mem_cons_of_mem y (hgo y ys h)

end

/-! ## Orders -/

/-- The comparison is a total order on the elements of a set. -/
structure OrdersOn {α : Type} (cmp : α → α → Ordering) (S : α → Prop) : Prop where
  eq_of : ∀ {a b}, S a → S b → cmp a b = .eq → a = b
  swap : ∀ {a b}, S a → S b → (cmp a b).swap = cmp b a
  trans : ∀ {a b c}, S a → S b → S c → cmp a b = .lt → cmp b c = .lt → cmp a c = .lt

namespace OrdersOn

variable {α : Type} {cmp : α → α → Ordering} {S : α → Prop} {a b c : α}

theorem mono {T : α → Prop} (h : OrdersOn cmp S) (hsub : ∀ {a}, T a → S a) : OrdersOn cmp T :=
  ⟨fun ha hb => h.eq_of (hsub ha) (hsub hb), fun ha hb => h.swap (hsub ha) (hsub hb),
    fun ha hb hc => h.trans (hsub ha) (hsub hb) (hsub hc)⟩

theorem self (h : OrdersOn cmp S) (ha : S a) : cmp a a = .eq := by
  have hswap := h.swap ha ha
  revert hswap
  cases cmp a a <;> decide

theorem gt_of_lt (h : OrdersOn cmp S) (ha : S a) (hb : S b) (hlt : cmp a b = .lt) : cmp b a = .gt := by
  rw [← h.swap ha hb, hlt]
  rfl

theorem lt_of_gt (h : OrdersOn cmp S) (ha : S a) (hb : S b) (hgt : cmp a b = .gt) : cmp b a = .lt := by
  rw [← h.swap ha hb, hgt]
  rfl

/-- Below an element that is not above another one. -/
theorem lt_of_lt_of_not_lt (h : OrdersOn cmp S) (ha : S a) (hb : S b) (hc : S c) (hlt : cmp a b = .lt)
    (hnot : cmp c b ≠ .lt) : cmp a c = .lt := by
  cases hcompare : cmp c b with
  | lt => exact absurd hcompare hnot
  | eq => rwa [h.eq_of hc hb hcompare]
  | gt => exact h.trans ha hb hc hlt (h.lt_of_gt hc hb hcompare)

end OrdersOn

/-! ## Folds -/

section

variable {α β : Type} {f : β → α → β} {S : α → Prop} {I : β → Prop} {R : β → β → Prop}

theorem foldl_related (hI : ∀ {b x}, I b → S x → I (f b x))
    (hstep : ∀ {b c x}, I b → I c → S x → R b c → R (f b x) (f c x)) {xs : List α}
    (hxs : ∀ x ∈ xs, S x) {b c : β} (hb : I b) (hc : I c) (h : R b c) :
    R (xs.foldl f b) (xs.foldl f c) := by
  induction xs generalizing b c with
  | nil => exact h
  | cons x xs ih =>
    obtain ⟨hx, hxs⟩ := List.forall_mem_cons.mp hxs
    exact ih hxs (hI hb hx) (hI hc hx) (hstep hb hc hx h)

/-- A fold does not depend on the order of the elements if it does not depend on that of two of them. -/
theorem foldl_perm (hrefl : ∀ b, R b b) (htrans : ∀ {a b c}, R a b → R b c → R a c)
    (hI : ∀ {b x}, I b → S x → I (f b x))
    (hstep : ∀ {b c x}, I b → I c → S x → R b c → R (f b x) (f c x))
    (hcomm : ∀ {b x y}, I b → S x → S y → R (f (f b x) y) (f (f b y) x)) {xs ys : List α}
    (h : xs.Perm ys) (hxs : ∀ x ∈ xs, S x) {b : β} (hb : I b) : R (xs.foldl f b) (ys.foldl f b) := by
  induction h generalizing b with
  | nil => exact hrefl b
  | cons x _ ih =>
    obtain ⟨hx, hxs⟩ := List.forall_mem_cons.mp hxs
    exact ih hxs (hI hb hx)
  | swap x y xs =>
    obtain ⟨hy, hxs⟩ := List.forall_mem_cons.mp hxs
    obtain ⟨hx, hxs⟩ := List.forall_mem_cons.mp hxs
    exact foldl_related hI hstep hxs (hI (hI hb hy) hx) (hI (hI hb hx) hy) (hcomm hb hy hx)
  | trans hfirst _ ih ih' =>
    exact htrans (ih hxs hb) (ih' (fun x hx => hxs x (hfirst.mem_iff.mpr hx)) hb)

end

/-! ## Sorting -/

section

variable {α : Type} {cmp : α → α → Ordering} {S : α → Prop}

theorem insertLast_comm (h : OrdersOn cmp S) {x y : α} (hx : S x) (hy : S y) {zs : List α}
    (hzs : ∀ z ∈ zs, S z) :
    insertLast cmp x (insertLast cmp y zs) = insertLast cmp y (insertLast cmp x zs) := by
  induction zs with
  | nil =>
    simp only [insertLast]
    cases hxy : cmp x y with
    | lt => simp [h.gt_of_lt hx hy hxy]
    | eq => simp [h.eq_of hx hy hxy]
    | gt => simp [h.lt_of_gt hx hy hxy]
  | cons z zs ih =>
    obtain ⟨hz, hzs⟩ := List.forall_mem_cons.mp hzs
    by_cases hxz : cmp x z = .lt <;> by_cases hyz : cmp y z = .lt
    · simp [insertLast, hxz, hyz, ih hzs]
    · simp [insertLast, hxz, hyz, h.lt_of_lt_of_not_lt hx hz hy hxz hyz]
    · simp [insertLast, hxz, hyz, h.lt_of_lt_of_not_lt hy hz hx hyz hxz]
    · -- both come in front of `z`, in the order that they have
      cases hxy : cmp x y with
      | lt => simp [insertLast, hxz, hyz, hxy, h.gt_of_lt hx hy hxy]
      | eq => simp [h.eq_of hx hy hxy]
      | gt => simp [insertLast, hxz, hyz, hxy, h.lt_of_gt hx hy hxy]

/-- The sorted list does not depend on the order of the elements. -/
theorem stableSort_perm (h : OrdersOn cmp S) {xs ys : List α} (hperm : xs.Perm ys)
    (hxs : ∀ x ∈ xs, S x) : stableSort cmp xs = stableSort cmp ys := by
  unfold stableSort
  refine congrArg List.reverse (foldl_perm (I := fun zs => ∀ z ∈ zs, S z) (R := Eq) (fun _ => rfl)
    Eq.trans ?_ (fun _ _ _ hbc => hbc ▸ rfl) ?_ hperm hxs (b := []) (fun _ hz => nomatch hz))
  · intro zs x hzs hx z hz
    rcases mem_insertLast.mp hz with rfl | hz
    · exact hx
    · exact hzs z hz
  · exact fun hzs hx hy => insertLast_comm h hy hx hzs

end

/-! ## Grouping -/

section

variable {κ α : Type} {cmp : κ → κ → Ordering} {S : κ → Prop}

/-- The same groups in the same order, each with its members in some order. -/
def SameGroups (groups groups' : List (κ × List α)) : Prop :=
  List.Forall₂ (fun g g' => g.1 = g'.1 ∧ g.2.Perm g'.2) groups groups'

theorem sameGroups_refl (groups : List (κ × List α)) : SameGroups groups groups := by
  induction groups with
  | nil => exact .nil
  | cons g groups ih => exact .cons ⟨rfl, .refl _⟩ ih

theorem SameGroups.trans {groups groups' groups'' : List (κ × List α)} (h : SameGroups groups groups')
    (h' : SameGroups groups' groups'') : SameGroups groups groups'' := by
  induction h generalizing groups'' with
  | nil => exact h'
  | cons hg _ ih =>
    cases h' with
    | cons hg' h' => exact .cons ⟨hg.1.trans hg'.1, hg.2.trans hg'.2⟩ (ih h')

theorem SameGroups.addToGroup {groups groups' : List (κ × List α)} (h : SameGroups groups groups')
    (key : κ) (x : α) :
    SameGroups (addToGroup cmp key x groups) (SqlStore.addToGroup cmp key x groups') := by
  induction h with
  | nil => exact sameGroups_refl _
  | @cons g g' _ _ hg hrest ih =>
    rcases g with ⟨k, xs⟩
    rcases g' with ⟨k', ys⟩
    obtain ⟨rfl, hperm⟩ := hg
    dsimp only at hperm
    unfold SqlStore.addToGroup
    cases cmp key k with
    | lt => exact .cons ⟨rfl, .refl _⟩ (.cons ⟨rfl, hperm⟩ hrest)
    | eq => exact .cons ⟨rfl, hperm.append_right _⟩ hrest
    | gt => exact .cons ⟨rfl, hperm⟩ ih

/-- What holds of the members of groups under the keys of their groups holds after one more was added. -/
theorem forall_addToGroup (h : OrdersOn cmp S) {P : κ → α → Prop} {key : κ} {x : α} (hkey : S key)
    (hx : P key x) {groups : List (κ × List α)} (hgroups : ∀ g ∈ groups, S g.1 ∧ ∀ y ∈ g.2, P g.1 y) :
    ∀ g ∈ addToGroup cmp key x groups, S g.1 ∧ ∀ y ∈ g.2, P g.1 y := by
  have hnew : S key ∧ ∀ y ∈ [x], P key y := ⟨hkey, List.forall_mem_singleton.mpr hx⟩
  induction groups with
  | nil => exact List.forall_mem_singleton.mpr hnew
  | cons entry rest ih =>
    rcases entry with ⟨k, xs⟩
    obtain ⟨⟨hk, hxs⟩, hrest⟩ := List.forall_mem_cons.mp hgroups
    cases hcompare : cmp key k with
    | lt =>
      simp only [addToGroup, hcompare]
      exact List.forall_mem_cons.mpr ⟨hnew, hgroups⟩
    | eq =>
      cases h.eq_of hkey hk hcompare
      simp only [addToGroup, hcompare]
      exact List.forall_mem_cons.mpr
        ⟨⟨hk, List.forall_mem_append.mpr ⟨hxs, List.forall_mem_singleton.mpr hx⟩⟩, hrest⟩
    | gt =>
      simp only [addToGroup, hcompare]
      exact List.forall_mem_cons.mpr ⟨⟨hk, hxs⟩, ih hrest⟩

/-- What holds of elements under their keys holds of the members of groups under the keys of the groups. -/
theorem forall_groups (h : OrdersOn cmp S) {P : κ → α → Prop} {xs : List (κ × α)}
    (hxs : ∀ x ∈ xs, S x.1 ∧ P x.1 x.2) :
    ∀ g ∈ xs.foldl (fun groups (key, x) => addToGroup cmp key x groups) [],
      S g.1 ∧ ∀ y ∈ g.2, P g.1 y := by
  refine List.foldlRecOn xs _ (motive := fun groups : List (κ × List α) =>
    ∀ g ∈ groups, S g.1 ∧ ∀ y ∈ g.2, P g.1 y) nofun ?_
  exact fun groups hgroups x hx => forall_addToGroup h (hxs x hx).1 (hxs x hx).2 hgroups

/-- Two elements may be added in either order. -/
theorem addToGroup_comm (h : OrdersOn cmp S) {k l : κ} (hk : S k) (hl : S l) (x y : α)
    {groups : List (κ × List α)} (hgroups : ∀ g ∈ groups, S g.1) :
    SameGroups (addToGroup cmp l y (addToGroup cmp k x groups))
      (addToGroup cmp k x (addToGroup cmp l y groups)) := by
  have hswapped : ∀ xs : List α, (xs ++ [x] ++ [y]).Perm (xs ++ [y] ++ [x]) := by
    intro xs
    rw [List.append_assoc, List.append_assoc]
    exact (List.Perm.swap y x []).append_left xs
  induction groups with
  | nil =>
    cases hkl : cmp k l with
    | lt => simp only [addToGroup, hkl, h.gt_of_lt hk hl hkl, sameGroups_refl]
    | eq =>
      cases h.eq_of hk hl hkl
      simp only [addToGroup, hkl]
      exact .cons ⟨rfl, hswapped []⟩ .nil
    | gt => simp only [addToGroup, hkl, h.lt_of_gt hk hl hkl, sameGroups_refl]
  | cons entry rest ih =>
    rcases entry with ⟨m, xs⟩
    obtain ⟨hm, hrest⟩ := List.forall_mem_cons.mp hgroups
    cases hkm : cmp k m <;> cases hlm : cmp l m
    case lt.lt =>
      cases hkl : cmp k l with
      | lt => simp only [addToGroup, hkm, hlm, hkl, h.gt_of_lt hk hl hkl, sameGroups_refl]
      | eq =>
        cases h.eq_of hk hl hkl
        simp only [addToGroup, hkm, hkl]
        exact .cons ⟨rfl, hswapped []⟩ (sameGroups_refl _)
      | gt => simp only [addToGroup, hkm, hlm, hkl, h.lt_of_gt hk hl hkl, sameGroups_refl]
    case eq.eq =>
      simp only [addToGroup, hkm, hlm]
      exact .cons ⟨rfl, hswapped xs⟩ (sameGroups_refl _)
    case gt.gt =>
      simp only [addToGroup, hkm, hlm]
      exact .cons ⟨rfl, .refl _⟩ (ih hrest)
    -- the two belong to different sides of the first group, or one of them to it
    case lt.eq =>
      have hlk : cmp l k = .gt := by
        rw [h.eq_of hl hm hlm]
        exact h.gt_of_lt hk hm hkm
      simp only [addToGroup, hkm, hlm, hlk, sameGroups_refl]
    case lt.gt =>
      have hlk : cmp l k = .gt :=
        h.gt_of_lt hk hl (h.trans hk hm hl hkm (h.lt_of_gt hl hm hlm))
      simp only [addToGroup, hkm, hlm, hlk, sameGroups_refl]
    case eq.lt =>
      have hkl : cmp k l = .gt := by
        rw [h.eq_of hk hm hkm]
        exact h.gt_of_lt hl hm hlm
      simp only [addToGroup, hkm, hlm, hkl, sameGroups_refl]
    case gt.lt =>
      have hkl : cmp k l = .gt :=
        h.gt_of_lt hl hk (h.trans hl hm hk hlm (h.lt_of_gt hk hm hkm))
      simp only [addToGroup, hkm, hlm, hkl, sameGroups_refl]
    all_goals simp only [addToGroup, hkm, hlm, sameGroups_refl]

/-- Groups do not depend on the order in which elements are added. -/
theorem sameGroups_of_perm (h : OrdersOn cmp S) {xs ys : List (κ × α)} (hperm : xs.Perm ys)
    (hxs : ∀ x ∈ xs, S x.1) :
    SameGroups (xs.foldl (fun groups (key, x) => addToGroup cmp key x groups) [])
      (ys.foldl (fun groups (key, x) => addToGroup cmp key x groups) []) := by
  refine foldl_perm (S := fun x : κ × α => S x.1) (I := fun groups => ∀ g ∈ groups, S g.1)
    (f := fun groups (x : κ × α) => addToGroup cmp x.1 x.2 groups) (b := []) sameGroups_refl
    SameGroups.trans ?_ (fun _ _ _ hsame => hsame.addToGroup _ _) ?_ hperm hxs (fun _ hg => nomatch hg)
  · intro groups x hgroups hx g hg
    exact (forall_addToGroup (P := fun _ _ => True) h hx trivial
      (fun g hg => ⟨hgroups g hg, fun _ _ => trivial⟩) g hg).1
  · exact fun hgroups hx hy => addToGroup_comm h hx hy _ _ hgroups

end

end SqlStore
