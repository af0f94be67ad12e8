/-!
# Stable sorting

Sorting by insertion from the right end: an element moves in front of those that it is strictly
less than, so equal elements keep their order. Nothing is assumed of the comparison; on a total
preorder the result is the one stable sort, and on any other it is what the insertions give.
-/

namespace SqlStore

/-- Puts `x` into a list that runs from the last element to the first. -/
def insertLast {α : Type} (cmp : α → α → Ordering) (x : α) : List α → List α
  | [] => [x]
  | y :: ys => if cmp x y == .lt then y :: insertLast cmp x ys else x :: y :: ys

/-- The stable sort by a comparison. -/
def stableSort {α : Type} (cmp : α → α → Ordering) (xs : List α) : List α :=
  (xs.foldl (fun sorted x => insertLast cmp x sorted) []).reverse

/-- Drops every element equal to the one kept before it. -/
def dropRepeats {α : Type} (cmp : α → α → Ordering) : List α → List α
  | [] => []
  | x :: xs => x :: go x xs
where
  /-- The elements that differ from the last one kept. -/
  go (kept : α) : List α → List α
    | [] => []
    | x :: xs => if cmp x kept == .eq then go kept xs else x :: go x xs

/-- Adds a value to the entry of its key in a list ordered by key, which gets an entry if it has
none. -/
def addToGroup {κ α : Type} (cmp : κ → κ → Ordering) (key : κ) (x : α) :
    List (κ × List α) → List (κ × List α)
  | [] => [(key, [x])]
  | (k, xs) :: rest => match cmp key k with
    | .lt => (key, [x]) :: (k, xs) :: rest
    | .eq => (k, xs ++ [x]) :: rest
    | .gt => (k, xs) :: addToGroup cmp key x rest

/-- Puts a key into an ordered list of keys; `none` if it is there. -/
def insertKey? {κ : Type} (cmp : κ → κ → Ordering) (key : κ) : List κ → Option (List κ)
  | [] => some [key]
  | k :: rest => match cmp key k with
    | .lt => some (key :: k :: rest)
    | .eq => none
    | .gt => (insertKey? cmp key rest).map (k :: ·)

/-- The first of each set of equal elements, in their order; `seen` holds the keys so far. -/
def distinctBy {α : Type} (cmp : α → α → Ordering) (seen : List α) : List α → List α
  | [] => []
  | x :: xs => match insertKey? cmp x seen with
    | some seen => x :: distinctBy cmp seen xs
    | none => distinctBy cmp seen xs

theorem mem_insertLast {α : Type} {cmp : α → α → Ordering} {x y : α} {ys : List α} :
    y ∈ insertLast cmp x ys ↔ y = x ∨ y ∈ ys := by
  induction ys with
  | nil => simp [insertLast]
  | cons z zs ih =>
    unfold insertLast
    split
    · simp only [List.mem_cons, ih]
      constructor
      · rintro (h | h | h) <;> simp [h]
      · rintro (h | h | h) <;> simp [h]
    · simp

theorem mem_stableSort {α : Type} {cmp : α → α → Ordering} {x : α} {xs : List α} :
    x ∈ stableSort cmp xs ↔ x ∈ xs := by
  have hfold : ∀ sorted : List α,
      x ∈ xs.foldl (fun sorted x => insertLast cmp x sorted) sorted ↔ x ∈ sorted ∨ x ∈ xs := by
    induction xs with
    | nil => simp
    | cons y ys ih =>
      intro sorted
      rw [List.foldl_cons, ih, mem_insertLast, List.mem_cons]
      constructor
      · rintro ((h | h) | h) <;> simp [h]
      · rintro (h | h | h) <;> simp [h]
  rw [stableSort, List.mem_reverse, hfold]
  simp

theorem mem_of_mem_distinctBy {α : Type} {cmp : α → α → Ordering} {x : α} {seen xs : List α}
    (h : x ∈ distinctBy cmp seen xs) : x ∈ xs := by
  induction xs generalizing seen with
  | nil => cases h
  | cons y ys ih =>
    unfold distinctBy at h
    split at h
    · rcases List.mem_cons.mp h with rfl | h
      · exact List.mem_cons_self
      · exact List.mem_cons_of_mem _ (ih h)
    · exact List.mem_cons_of_mem _ (ih h)

/-- What is in the groups after a value was added is that value, or was in them before. -/
theorem mem_of_mem_addToGroup {κ α : Type} {cmp : κ → κ → Ordering} {key : κ} {x y : α}
    {groups : List (κ × List α)} {g : κ × List α} (hg : g ∈ addToGroup cmp key x groups)
    (hy : y ∈ g.2) : y = x ∨ ∃ g' ∈ groups, y ∈ g'.2 := by
  induction groups with
  | nil =>
    cases List.mem_singleton.mp hg
    exact Or.inl (List.mem_singleton.mp hy)
  | cons entry rest ih =>
    rcases entry with ⟨k, xs⟩
    unfold addToGroup at hg
    split at hg
    · rcases List.mem_cons.mp hg with rfl | hg
      · exact Or.inl (List.mem_singleton.mp hy)
      · exact Or.inr ⟨g, hg, hy⟩
    · rcases List.mem_cons.mp hg with rfl | hg
      · rcases List.mem_append.mp hy with hy | hy
        · exact Or.inr ⟨(k, xs), List.mem_cons_self, hy⟩
        · exact Or.inl (List.mem_singleton.mp hy)
      · exact Or.inr ⟨g, List.mem_cons_of_mem _ hg, hy⟩
    · rcases List.mem_cons.mp hg with rfl | hg
      · exact Or.inr ⟨_, List.mem_cons_self, hy⟩
      · refine (ih hg).imp id ?_
        rintro ⟨g', hg', hy⟩
        exact ⟨g', List.mem_cons_of_mem _ hg', hy⟩

end SqlStore
