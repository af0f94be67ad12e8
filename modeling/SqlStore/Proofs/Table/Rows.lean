import SqlStore.Table.Content

/-!
# The rows of a table

Rows stand in the order of their numbers. A list in that order is told apart by what it stores under
each number, so a change of rows is undone once every number stores again what it stored before. No
proof about undoing looks into the lists themselves.
-/

namespace SqlStore

namespace Table

/-- Rows with increasing numbers. -/
def Ordered (rows : List Row) : Prop := rows.Pairwise fun a b => a.id < b.id

/-- What is stored under a number. -/
def rowIn (rows : List Row) (id : Nat) : Option Row := rows.find? fun r => r.id == id

theorem mem_of_rowIn {rows : List Row} {id : Nat} {r : Row} (h : rowIn rows id = some r) :
    r ∈ rows ∧ r.id = id := by
  have hid := List.find?_some h
  exact ⟨List.mem_of_find?_eq_some h, by simpa using hid⟩

namespace Ordered

variable {rows : List Row} {r : Row}

theorem tail (h : Ordered (r :: rows)) : Ordered rows := List.Pairwise.of_cons h

theorem head_lt (h : Ordered (r :: rows)) : ∀ q ∈ rows, r.id < q.id :=
  (List.pairwise_cons.mp h).1

/-- Every row is stored under its own number. -/
theorem rowIn_self (h : Ordered rows) (hr : r ∈ rows) : rowIn rows r.id = some r := by
  induction rows with
  | nil => cases hr
  | cons q rows ih =>
    unfold rowIn
    rw [List.find?_cons]
    rcases List.mem_cons.mp hr with rfl | hmem
    · simp
    · have hlt := h.head_lt r hmem
      have hne : (q.id == r.id) = false := beq_false_of_ne (by omega)
      rw [hne]
      exact ih h.tail hmem

theorem mem_iff_rowIn (h : Ordered rows) : r ∈ rows ↔ rowIn rows r.id = some r :=
  ⟨h.rowIn_self, fun hr => (mem_of_rowIn hr).1⟩

/-- Rows are equal if they have equal numbers. -/
theorem eq_of_id_eq (h : Ordered rows) {q : Row} (hr : r ∈ rows) (hq : q ∈ rows)
    (hid : r.id = q.id) : r = q := by
  have hr' := h.rowIn_self hr
  have hq' := h.rowIn_self hq
  rw [hid, hq'] at hr'
  exact (Option.some.inj hr').symm

theorem nodup (h : Ordered rows) : rows.Nodup := by
  refine List.Pairwise.imp ?_ h
  rintro a b hab rfl
  exact Nat.lt_irrefl _ hab

theorem nodup_ids (h : Ordered rows) : (rows.map Row.id).Nodup :=
  List.pairwise_map.mpr (List.Pairwise.imp (fun hab => Nat.ne_of_lt hab) h)

/-- Two lists of rows are equal if they store the same under every number. -/
theorem ext {others : List Row} (h : Ordered rows) (ho : Ordered others)
    (heq : ∀ id, rowIn rows id = rowIn others id) : rows = others := by
  -- both lists have the same members, and an order allows for one arrangement of them only
  have hmem : ∀ r, r ∈ rows ↔ r ∈ others := by
    intro r
    rw [h.mem_iff_rowIn, ho.mem_iff_rowIn, heq]
  have hperm : rows.Perm others := (List.perm_ext_iff_of_nodup h.nodup ho.nodup).mpr hmem
  refine hperm.eq_of_pairwise ?_ h ho
  intro a b _ _ hab hba
  omega

/-- Leaving rows out keeps the order. -/
theorem filter (p : Row → Bool) (h : Ordered rows) : Ordered (rows.filter p) :=
  List.Pairwise.filter p h

end Ordered

theorem mem_of_mem_putInto {row r : Row} {rows : List Row} (h : r ∈ putInto row rows) :
    r = row ∨ r ∈ rows := by
  induction rows with
  | nil =>
    left
    simpa [putInto] using h
  | cons q rows ih =>
    unfold putInto at h
    split at h
    · rcases List.mem_cons.mp h with rfl | hmem
      · exact Or.inl rfl
      · exact Or.inr (List.mem_cons_of_mem _ hmem)
    · split at h
      · exact List.mem_cons.mp h
      · rcases List.mem_cons.mp h with rfl | hmem
        · exact Or.inr List.mem_cons_self
        · exact (ih hmem).imp id (List.mem_cons_of_mem _)

theorem ordered_putInto (row : Row) {rows : List Row} (h : Ordered rows) :
    Ordered (putInto row rows) := by
  induction rows with
  | nil => exact List.pairwise_singleton _ _
  | cons q rows ih =>
    unfold putInto
    split
    · next heq =>
      have hid : row.id = q.id := by simpa using heq
      refine List.pairwise_cons.mpr ⟨?_, h.tail⟩
      intro r hr
      rw [hid]
      exact h.head_lt r hr
    · next hne =>
      split
      · next hlt =>
        refine List.pairwise_cons.mpr ⟨?_, h⟩
        intro r hr
        rcases List.mem_cons.mp hr with rfl | hmem
        · exact hlt
        · have := h.head_lt r hmem
          omega
      · next hge =>
        have hid : row.id ≠ q.id := by simpa using hne
        refine List.pairwise_cons.mpr ⟨?_, ih h.tail⟩
        intro r hr
        rcases mem_of_mem_putInto hr with rfl | hmem
        · omega
        · exact h.head_lt r hmem

/-- What a row put in changes: only what is stored under its number. -/
theorem rowIn_putInto (row : Row) (rows : List Row) (id : Nat) :
    rowIn (putInto row rows) id = if id = row.id then some row else rowIn rows id := by
  split
  · next h =>
    subst h
    exact find?_putInto_self
  · next h => exact find?_putInto_of_ne h

/-- What leaving out a number changes: nothing is stored under it. -/
theorem rowIn_filter (rows : List Row) (gone id : Nat) :
    rowIn (rows.filter fun r => r.id != gone) id = if id = gone then none else rowIn rows id := by
  let t : Table := ⟨⟨"", "", []⟩, rows, 0, [], []⟩
  split
  · next h =>
    subst h
    exact row?_remove_self (t := t)
  · next h => exact row?_remove_of_ne (t := t) h

/-! ## Changes that take each other back -/

section Inverse

variable {rows : List Row} {old new : Row}

/-- Taking out a row that was put in under an unused number. -/
theorem filter_putInto (h : Ordered rows) (hfree : rowIn rows new.id = none) :
    (putInto new rows).filter (fun r => r.id != new.id) = rows := by
  apply Ordered.ext ((ordered_putInto new h).filter _) h
  intro id
  rw [rowIn_filter, rowIn_putInto]
  split
  · next hid => rw [hid, hfree]
  · rfl

/-- Putting back a row that was replaced. -/
theorem putInto_putInto (h : Ordered rows) (hold : rowIn rows old.id = some old)
    (hid : new.id = old.id) : putInto old (putInto new rows) = rows := by
  apply Ordered.ext (ordered_putInto old (ordered_putInto new h)) h
  intro id
  rw [rowIn_putInto, rowIn_putInto, hid]
  split
  · next heq => rw [heq, hold]
  · rfl

/-- Putting back a row that was taken out. -/
theorem putInto_filter (h : Ordered rows) (hold : rowIn rows old.id = some old) :
    putInto old (rows.filter fun r => r.id != old.id) = rows := by
  apply Ordered.ext (ordered_putInto old (h.filter _)) h
  intro id
  rw [rowIn_putInto, rowIn_filter]
  split
  · next heq => rw [heq, hold]
  · rfl

end Inverse

end Table

end SqlStore
