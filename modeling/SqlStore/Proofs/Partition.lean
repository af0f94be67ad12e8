import SqlStore.Proofs.Sorting

/-!
# Groups are classes

Adding elements to groups one after the other partitions them by their keys, as long as the comparison is a
total preorder on the keys that occur: the group of a key holds the elements whose keys are equal to it, in
the order in which they came, and the keys of the groups ascend strictly. `addToGroup_cases` says what one
step does, `ClassesOf` is what it keeps.
-/

namespace SqlStore

/-! ## Preorders -/

/-- The comparison is a total preorder on the elements of a set. -/
structure PreordersOn {α : Type} (cmp : α → α → Ordering) (S : α → Prop) : Prop where
  swap : ∀ {a b}, S a → S b → (cmp a b).swap = cmp b a
  trans : ∀ {a b c}, S a → S b → S c → (cmp a b).isLE → (cmp b c).isLE → (cmp a c).isLE

namespace PreordersOn

variable {α : Type} {cmp : α → α → Ordering} {S : α → Prop} {a b c : α}

theorem self (h : PreordersOn cmp S) (ha : S a) : cmp a a = .eq := by
  have hswap := h.swap ha ha
  revert hswap
  cases cmp a a <;> decide

theorem eq_symm (h : PreordersOn cmp S) (ha : S a) (hb : S b) (heq : cmp a b = .eq) : cmp b a = .eq := by
  rw [← h.swap ha hb, heq]
  rfl

theorem lt_of_gt (h : PreordersOn cmp S) (ha : S a) (hb : S b) (hgt : cmp a b = .gt) : cmp b a = .lt := by
  rw [← h.swap ha hb, hgt]
  rfl

/-- What is not at most something is above it. -/
theorem lt_of_not_isLE (h : PreordersOn cmp S) (ha : S a) (hb : S b) (hle : ¬ (cmp a b).isLE) :
    cmp b a = .lt := by
  refine h.lt_of_gt ha hb ?_
  cases hcompare : cmp a b with
  | gt => rfl
  | lt | eq => exact absurd (by rw [hcompare]; rfl) hle

theorem lt_of_lt_of_le (h : PreordersOn cmp S) (ha : S a) (hb : S b) (hc : S c) (hab : cmp a b = .lt)
    (hbc : (cmp b c).isLE) : cmp a c = .lt := by
  refine h.lt_of_not_isLE hc ha fun hca => ?_
  have hba := h.trans hb hc ha hbc hca
  rw [← h.swap ha hb, hab] at hba
  cases hba

theorem lt_of_le_of_lt (h : PreordersOn cmp S) (ha : S a) (hb : S b) (hc : S c) (hab : (cmp a b).isLE)
    (hbc : cmp b c = .lt) : cmp a c = .lt := by
  refine h.lt_of_not_isLE hc ha fun hca => ?_
  have hcb := h.trans hc ha hb hca hab
  rw [← h.swap hb hc, hbc] at hcb
  cases hcb

theorem lt_of_eq_of_lt (h : PreordersOn cmp S) (ha : S a) (hb : S b) (hc : S c) (hab : cmp a b = .eq)
    (hbc : cmp b c = .lt) : cmp a c = .lt := h.lt_of_le_of_lt ha hb hc (by rw [hab]; rfl) hbc

theorem lt_of_lt_of_eq (h : PreordersOn cmp S) (ha : S a) (hb : S b) (hc : S c) (hab : cmp a b = .lt)
    (hbc : cmp b c = .eq) : cmp a c = .lt := h.lt_of_lt_of_le ha hb hc hab (by rw [hbc]; rfl)

theorem eq_trans (h : PreordersOn cmp S) (ha : S a) (hb : S b) (hc : S c) (hab : cmp a b = .eq)
    (hbc : cmp b c = .eq) : cmp a c = .eq := by
  cases hac : cmp a c with
  | eq => rfl
  | lt =>
    rw [h.lt_of_eq_of_lt hb ha hc (h.eq_symm ha hb hab) hac] at hbc
    cases hbc
  | gt =>
    have hca := h.lt_of_gt ha hc hac
    have hcb := h.lt_of_lt_of_eq hc ha hb hca hab
    rw [← h.swap hc hb, hcb] at hbc
    cases hbc

theorem mono {T : α → Prop} (h : PreordersOn cmp S) (hsub : ∀ {a}, T a → S a) : PreordersOn cmp T :=
  ⟨fun ha hb => h.swap (hsub ha) (hsub hb), fun ha hb hc => h.trans (hsub ha) (hsub hb) (hsub hc)⟩

/-- A total order is a total preorder. -/
theorem of_ordersOn (h : OrdersOn cmp S) : PreordersOn cmp S where
  swap := h.swap
  trans := by
    intro a b c ha hb hc hab hbc
    cases hcab : cmp a b with
    | lt =>
      cases hcbc : cmp b c with
      | lt =>
        rw [h.trans ha hb hc hcab hcbc]
        rfl
      | eq => rwa [← h.eq_of hb hc hcbc]
      | gt =>
        rw [hcbc] at hbc
        cases hbc
    | eq => rwa [h.eq_of ha hb hcab]
    | gt =>
      rw [hcab] at hab
      cases hab

end PreordersOn

/-! ## One step -/

variable {κ α β : Type} {cmp : κ → κ → Ordering} {S : κ → Prop} {key : κ} {x : α}

/-- An element goes to the first group whose key is not below its own: into this group if the keys are equal,
else into a new one in front of it. -/
theorem addToGroup_cases (cmp : κ → κ → Ordering) (key : κ) (x : α) (groups : List (κ × List α)) :
    ∃ before after, (∀ g ∈ before, cmp key g.1 = .gt) ∧
      ((∃ k xs, groups = before ++ (k, xs) :: after ∧ cmp key k = .eq ∧
          addToGroup cmp key x groups = before ++ (k, xs ++ [x]) :: after) ∨
        (groups = before ++ after ∧ (∀ g ∈ after.head?, cmp key g.1 = .lt) ∧
          addToGroup cmp key x groups = before ++ (key, [x]) :: after)) := by
  induction groups with
  | nil => exact ⟨[], [], nofun, .inr ⟨rfl, nofun, rfl⟩⟩
  | cons entry rest ih =>
    rcases entry with ⟨k, xs⟩
    cases hcompare : cmp key k with
    | lt =>
      refine ⟨[], (k, xs) :: rest, nofun, .inr ⟨rfl, ?_, by simp [addToGroup, hcompare]⟩⟩
      rintro _ ⟨⟩
      exact hcompare
    | eq => exact ⟨[], rest, nofun, .inl ⟨k, xs, rfl, hcompare, by simp [addToGroup, hcompare]⟩⟩
    | gt =>
      obtain ⟨before, after, hbefore, hrest⟩ := ih
      refine ⟨(k, xs) :: before, after, List.forall_mem_cons.mpr ⟨hcompare, hbefore⟩, ?_⟩
      rcases hrest with ⟨k', xs', hgroups, heq, hadd⟩ | ⟨hgroups, hafter, hadd⟩
      · exact .inl ⟨k', xs', by rw [hgroups]; rfl, heq, by simp [addToGroup, hcompare, hadd]⟩
      · exact .inr ⟨by rw [hgroups]; rfl, hafter, by simp [addToGroup, hcompare, hadd]⟩

/-- The elements whose keys are equal to a key, in their order. -/
def classOf (cmp : κ → κ → Ordering) (key : κ) (xs : List (κ × α)) : List α :=
  (xs.filter fun p => cmp key p.1 == .eq).map Prod.snd

theorem classOf_append (key : κ) (xs ys : List (κ × α)) :
    classOf cmp key (xs ++ ys) = classOf cmp key xs ++ classOf cmp key ys := by
  rw [classOf, List.filter_append, List.map_append]
  rfl

/-- The groups are the classes of elements with equal keys, with strictly ascending keys. -/
structure ClassesOf (cmp : κ → κ → Ordering) (S : κ → Prop) (xs : List (κ × α))
    (groups : List (κ × List α)) : Prop where
  key : ∀ g ∈ groups, S g.1
  ascending : groups.Pairwise fun g h => cmp g.1 h.1 = .lt
  member : ∀ g ∈ groups, g.2 = classOf cmp g.1 xs ∧ g.2 ≠ []
  covered : ∀ p ∈ xs, ∃ g ∈ groups, cmp g.1 p.1 = .eq

namespace ClassesOf

variable {xs : List (κ × α)} {groups : List (κ × List α)}

theorem classOf_snoc_of_ne (key' : κ) (h : cmp key' key ≠ .eq) :
    classOf cmp key' (xs ++ [(key, x)]) = classOf cmp key' xs := by
  rw [classOf_append]
  simp [classOf, h]

theorem classOf_snoc_of_eq (key' : κ) (h : cmp key' key = .eq) :
    classOf cmp key' (xs ++ [(key, x)]) = classOf cmp key' xs ++ [x] := by
  rw [classOf_append]
  simp [classOf, h]

/-- An element whose key is that of no group begins a class. -/
theorem classOf_eq_nil (h : ClassesOf cmp S xs groups) (ho : PreordersOn cmp S) (hkey : S key)
    (hxs : ∀ p ∈ xs, S p.1) (hnew : ∀ g ∈ groups, cmp key g.1 ≠ .eq) : classOf cmp key xs = [] := by
  rw [classOf, List.map_eq_nil_iff, List.filter_eq_nil_iff]
  intro p hp heq
  obtain ⟨g, hg, hgp⟩ := h.covered p hp
  have hgS := h.key g hg
  exact hnew g hg (ho.eq_trans hkey (hxs p hp) hgS (beq_iff_eq.mp heq) (ho.eq_symm hgS (hxs p hp) hgp))

/-- An element in the class of a key that stands between groups of other keys. -/
theorem of_between {before after : List (κ × List α)} {k : κ} (ho : PreordersOn cmp S) (hkey : S key) (hk : S k)
    (heq : cmp key k = .eq) (hS : ∀ g ∈ before ++ after, S g.1)
    (hmember : ∀ g ∈ before ++ after, g.2 = classOf cmp g.1 xs ∧ g.2 ≠ [])
    (hothers : (before ++ after).Pairwise fun g h => cmp g.1 h.1 = .lt)
    (hbelow : ∀ g ∈ before, cmp g.1 k = .lt) (habove : ∀ g ∈ after, cmp k g.1 = .lt)
    (hcovered : ∀ p ∈ xs, cmp k p.1 = .eq ∨ ∃ g ∈ before ++ after, cmp g.1 p.1 = .eq) (x : α) :
    ClassesOf cmp S (xs ++ [(key, x)]) (before ++ (k, classOf cmp k xs ++ [x]) :: after) := by
  have haround : ∀ g, g ∈ before ++ (k, classOf cmp k xs ++ [x]) :: after ↔
      g ∈ (k, classOf cmp k xs ++ [x]) :: (before ++ after) := fun _ => List.perm_middle.mem_iff
  have hkk := ho.eq_symm hkey hk heq
  have hne : ∀ g ∈ before ++ after, cmp g.1 key ≠ .eq := by
    intro g hg hgkey
    have hgk := ho.eq_trans (hS g hg) hkey hk hgkey heq
    rcases List.mem_append.mp hg with hmem | hmem
    · rw [hbelow g hmem] at hgk
      cases hgk
    · rw [← ho.swap hk (hS g hg), habove g hmem] at hgk
      cases hgk
  refine { key := ?_, ascending := ?_, member := ?_, covered := ?_ }
  · intro g hg
    rcases List.mem_cons.mp ((haround g).mp hg) with rfl | hmem
    · exact hk
    · exact hS g hmem
  · obtain ⟨hleft, hright, hacross⟩ := List.pairwise_append.mp hothers
    refine List.pairwise_append.mpr ⟨hleft, List.pairwise_cons.mpr ⟨habove, hright⟩, fun g hg => ?_⟩
    exact List.forall_mem_cons.mpr ⟨hbelow g hg, hacross g hg⟩
  · intro g hg
    rcases List.mem_cons.mp ((haround g).mp hg) with rfl | hmem
    · rw [classOf_snoc_of_eq k hkk]
      exact ⟨rfl, by simp⟩
    · rw [classOf_snoc_of_ne g.1 (hne g hmem)]
      exact hmember g hmem
  · intro p hp
    rcases List.mem_append.mp hp with hp | hp
    · rcases hcovered p hp with hkp | ⟨g, hg, hgp⟩
      · exact ⟨_, (haround _).mpr List.mem_cons_self, hkp⟩
      · exact ⟨g, (haround g).mpr (List.mem_cons_of_mem _ hg), hgp⟩
    · cases List.mem_singleton.mp hp
      exact ⟨_, (haround _).mpr List.mem_cons_self, hkk⟩

/-- What is below the first of ascending groups is below all of them. -/
theorem lt_of_lt_head {after : List (κ × List α)} (ho : PreordersOn cmp S) (hkey : S key)
    (hS : ∀ g ∈ after, S g.1) (hascending : after.Pairwise fun g h => cmp g.1 h.1 = .lt)
    (hhead : ∀ g ∈ after.head?, cmp key g.1 = .lt) : ∀ g ∈ after, cmp key g.1 = .lt := by
  cases after with
  | nil => exact nofun
  | cons first rest =>
    have hfirst : cmp key first.1 = .lt := hhead first rfl
    obtain ⟨hfirstS, hrestS⟩ := List.forall_mem_cons.mp hS
    refine List.forall_mem_cons.mpr ⟨hfirst, fun g hg => ?_⟩
    exact ho.lt_of_lt_of_le hkey hfirstS (hrestS g hg) hfirst
      (by rw [List.rel_of_pairwise_cons hascending hg]; rfl)

/-- One more element. -/
theorem addToGroup (h : ClassesOf cmp S xs groups) (ho : PreordersOn cmp S) (hkey : S key)
    (hxs : ∀ p ∈ xs, S p.1) (x : α) :
    ClassesOf cmp S (xs ++ [(key, x)]) (addToGroup cmp key x groups) := by
  obtain ⟨before, after, hbefore, hcases⟩ := addToGroup_cases cmp key x groups
  rcases hcases with ⟨k, ys, rfl, heq, hadd⟩ | ⟨rfl, hafter, hadd⟩
  · -- the element joins the group of `k`
    have hothers : ∀ g ∈ before ++ after, g ∈ before ++ (k, ys) :: after := fun g hg =>
      List.perm_middle.mem_iff.mpr (List.mem_cons_of_mem _ hg)
    have hclass : ys = classOf cmp k xs := (h.member (k, ys) (by simp)).1
    obtain ⟨hleft, hright, hacross⟩ := List.pairwise_append.mp h.ascending
    obtain ⟨hbehind, hright⟩ := List.pairwise_cons.mp hright
    have hpairs := List.pairwise_append.mpr
      ⟨hleft, hright, fun g hg g' hg' => hacross g hg g' (List.mem_cons_of_mem _ hg')⟩
    rw [hadd, hclass]
    refine of_between ho hkey (h.key (k, ys) (by simp)) heq (fun g hg => h.key g (hothers g hg))
      (fun g hg => h.member g (hothers g hg)) hpairs (fun g hg => hacross g hg _ List.mem_cons_self) hbehind
      (fun p hp => ?_) x
    obtain ⟨g, hg, hgp⟩ := h.covered p hp
    rcases List.mem_cons.mp (List.perm_middle.mem_iff.mp hg) with rfl | hg
    · exact .inl hgp
    · exact .inr ⟨g, hg, hgp⟩
  · -- the element begins a group in front of `after`
    obtain ⟨-, hright, -⟩ := List.pairwise_append.mp h.ascending
    have hbelow : ∀ g ∈ before, cmp g.1 key = .lt := fun g hg =>
      ho.lt_of_gt hkey (h.key g (List.mem_append_left _ hg)) (hbefore g hg)
    have habove := lt_of_lt_head ho hkey (fun g hg => h.key g (List.mem_append_right _ hg)) hright hafter
    have hnew : ∀ g ∈ before ++ after, cmp key g.1 ≠ .eq :=
      List.forall_mem_append.mpr ⟨fun g hg => by simp [hbefore g hg], fun g hg => by simp [habove g hg]⟩
    have hempty := h.classOf_eq_nil ho hkey hxs hnew
    have hadded := of_between ho hkey hkey (ho.self hkey) h.key h.member h.ascending hbelow habove
      (fun p hp => .inr (h.covered p hp)) x
    rw [hempty] at hadded
    rwa [hadd]

end ClassesOf

/-- Adding elements one after the other makes the groups of their classes. -/
theorem classesOf_foldl (ho : PreordersOn cmp S) {xs : List (κ × α)} (hxs : ∀ p ∈ xs, S p.1) :
    ClassesOf cmp S xs (xs.foldl (fun groups (key, x) => addToGroup cmp key x groups) []) := by
  have hgo : ∀ (rest done : List (κ × α)) (groups : List (κ × List α)),
      (∀ p ∈ done ++ rest, S p.1) → ClassesOf cmp S done groups →
      ClassesOf cmp S (done ++ rest)
        (rest.foldl (fun groups (key, x) => addToGroup cmp key x groups) groups) := by
    intro rest
    induction rest with
    | nil =>
      intro done groups _ h
      rwa [List.append_nil]
    | cons p rest ih =>
      intro done groups hS h
      obtain ⟨hdone, hrest⟩ := List.forall_mem_append.mp hS
      have hstep := h.addToGroup ho (hrest p List.mem_cons_self) hdone p.2
      rw [List.append_cons] at hS ⊢
      exact ih (done ++ [p]) _ hS hstep
  exact hgo xs [] [] hxs ⟨nofun, .nil, nofun, nofun⟩

/-- Grouping does not look at what is grouped. -/
theorem addToGroup_map (f : α → β) (key : κ) (x : α) (groups : List (κ × List α)) :
    addToGroup cmp key (f x) (groups.map fun g => (g.1, g.2.map f)) =
      (addToGroup cmp key x groups).map fun g => (g.1, g.2.map f) := by
  induction groups with
  | nil => rfl
  | cons g groups ih =>
    rw [List.map_cons]
    unfold addToGroup
    cases cmp key g.1 with
    | lt => rfl
    | eq => simp
    | gt => simp [ih]

theorem foldl_addToGroup_map (f : α → β) (xs : List (κ × α)) :
    (xs.map fun p => (p.1, f p.2)).foldl (fun groups (key, x) => addToGroup cmp key x groups) [] =
      (xs.foldl (fun groups (key, x) => addToGroup cmp key x groups) []).map
        fun g => (g.1, g.2.map f) := by
  have hgo : ∀ groups : List (κ × List α),
      (xs.map fun p => (p.1, f p.2)).foldl (fun groups (key, x) => addToGroup cmp key x groups)
          (groups.map fun g => (g.1, g.2.map f)) =
        (xs.foldl (fun groups (key, x) => addToGroup cmp key x groups) groups).map
          fun g => (g.1, g.2.map f) := by
    induction xs with
    | nil => exact fun _ => rfl
    | cons p xs ih =>
      intro groups
      rw [List.map_cons, List.foldl_cons, List.foldl_cons]
      dsimp only
      rw [addToGroup_map, ih]
  exact hgo []

end SqlStore
