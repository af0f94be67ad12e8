import SqlStore.Proofs.Table.Rows

/-!
# Tables that gave out numbers

A failed statement leaves a trace in a table: the row numbers and sequence values that it drew are
gone. `Table.Grown` says that this is all that happened to a table. `Table.Keyed` is what keeps the
numbers that are still to come apart from those in use.
-/

namespace SqlStore

namespace Table

/-- The last value of a column's sequence, zero before the first one. -/
def sequence (t : Table) (column : String) : Int := (t.sequences.lookup column).getD 0

theorem lookup_cons (other column : String) (value : Int) (rest : List (String × Int)) :
    List.lookup other ((column, value) :: rest) =
      if other = column then some value else rest.lookup other := by
  rw [List.lookup_cons]
  by_cases h : other = column
  · rw [if_pos h, beq_iff_eq.mpr h]
  · rw [if_neg h, beq_false_of_ne h]

theorem lookup_putSequence (column other : String) (value : Int) (sequences : List (String × Int)) :
    (putSequence column value sequences).lookup other =
      if other = column then some value else sequences.lookup other := by
  induction sequences with
  | nil =>
    unfold putSequence
    rw [lookup_cons]
  | cons entry rest ih =>
    rcases entry with ⟨c, v⟩
    unfold putSequence
    split
    · next heq =>
      have hc : c = column := by simpa using heq
      rw [lookup_cons, lookup_cons, hc]
      by_cases h : other = column
      · rw [if_pos h, if_pos h]
      · rw [if_neg h, if_neg h, if_neg h]
    · next hne =>
      have hc : c ≠ column := by simpa using hne
      rw [lookup_cons, lookup_cons, ih]
      by_cases h : other = c
      · have ho : other ≠ column := fun ho => hc (h.symm.trans ho)
        rw [if_pos h, if_neg ho, if_pos h]
      · rw [if_neg h, if_neg h]

/-- What drawing from a sequence does. -/
theorem nextSequence_eq_ok {t u : Table} {column : String} {value : Int}
    (h : t.nextSequence column = .ok (value, u)) :
    value = t.sequence column + 1 ∧
      u = { t with sequences := putSequence column value t.sequences } := by
  unfold nextSequence at h
  simp only at h
  split at h
  · cases h
  · cases h
    exact ⟨rfl, rfl⟩

/-! ## Growth -/

/-- The second table is the first one after row numbers and sequence values were drawn. -/
structure Grown (t u : Table) : Prop where
  definition_eq : u.definition = t.definition
  rows_eq : u.rows = t.rows
  lastKeys_eq : u.lastKeys = t.lastKeys
  nextId_le : t.nextId ≤ u.nextId
  sequence_le : ∀ column, t.sequence column ≤ u.sequence column

namespace Grown

theorem refl (t : Table) : Grown t t := ⟨rfl, rfl, rfl, Nat.le_refl _, fun _ => Int.le_refl _⟩

theorem trans {t u v : Table} (h : Grown t u) (k : Grown u v) : Grown t v where
  definition_eq := k.definition_eq.trans h.definition_eq
  rows_eq := k.rows_eq.trans h.rows_eq
  lastKeys_eq := k.lastKeys_eq.trans h.lastKeys_eq
  nextId_le := Nat.le_trans h.nextId_le k.nextId_le
  sequence_le column := Int.le_trans (h.sequence_le column) (k.sequence_le column)

theorem allocate (t : Table) : Grown t t.allocate.2 :=
  ⟨rfl, rfl, rfl, Nat.le_succ _, fun _ => Int.le_refl _⟩

theorem nextSequence {t u : Table} {column : String} {value : Int}
    (h : t.nextSequence column = .ok (value, u)) : Grown t u := by
  obtain ⟨hvalue, rfl⟩ := nextSequence_eq_ok h
  refine ⟨rfl, rfl, rfl, Nat.le_refl _, ?_⟩
  intro other
  show _ ≤ ((putSequence column value t.sequences).lookup other).getD 0
  rw [lookup_putSequence]
  by_cases hother : other = column
  · subst hother
    rw [if_pos rfl, hvalue]
    exact Int.le_of_lt (Int.lt_succ _)
  · rw [if_neg hother]
    exact Int.le_refl _

/-- Growth says nothing about the rows, so the same change of the rows keeps it. -/
theorem withRows {t u : Table} (h : Grown t u) (f : List Row → List Row) :
    Grown { t with rows := f t.rows } { u with rows := f u.rows } :=
  ⟨h.definition_eq, congrArg f h.rows_eq, h.lastKeys_eq, h.nextId_le, h.sequence_le⟩

theorem withLastKeys {t u : Table} (h : Grown t u) (keys : List Tuple) :
    Grown { t with lastKeys := keys } { u with lastKeys := keys } :=
  ⟨h.definition_eq, h.rows_eq, rfl, h.nextId_le, h.sequence_le⟩

end Grown

/-! ## Row numbers -/

/-- The rows stand in order, under numbers that were given out. -/
structure Keyed (t : Table) : Prop where
  ordered : Ordered t.rows
  positive : ∀ r ∈ t.rows, 1 ≤ r.id
  below : ∀ r ∈ t.rows, r.id < t.nextId
  nextId_pos : 1 ≤ t.nextId

namespace Keyed

variable {t u : Table}

/-- Every row is stored under its own number. -/
theorem row?_self (h : t.Keyed) {r : Row} (hr : r ∈ t.rows) : t.row? r.id = some r :=
  h.ordered.rowIn_self hr

/-- The next number is free. -/
theorem row?_nextId (h : t.Keyed) : t.row? t.nextId = none := by
  cases hrow : t.row? t.nextId with
  | none => rfl
  | some r =>
    obtain ⟨hmem, hid⟩ := mem_of_rowIn hrow
    have hlt := h.below r hmem
    omega

theorem ofDefinition (d : TableDefinition) : (Table.ofDefinition d).Keyed :=
  ⟨List.Pairwise.nil, nofun, nofun, Nat.le_refl _⟩

theorem grown (h : t.Keyed) (hg : Grown t u) : u.Keyed where
  ordered := by
    rw [hg.rows_eq]
    exact h.ordered
  positive := by
    rw [hg.rows_eq]
    exact h.positive
  below := by
    rw [hg.rows_eq]
    exact fun r hr => Nat.lt_of_lt_of_le (h.below r hr) hg.nextId_le
  nextId_pos := Nat.le_trans h.nextId_pos hg.nextId_le

/-- A row may be put in under a number that was given out. -/
theorem put (h : t.Keyed) {row : Row} (hpos : 1 ≤ row.id) (hlt : row.id < t.nextId) :
    (t.put row).Keyed where
  ordered := ordered_putInto row h.ordered
  positive r hr := by
    rcases mem_of_mem_putInto hr with rfl | hmem
    · exact hpos
    · exact h.positive r hmem
  below r hr := by
    rcases mem_of_mem_putInto hr with rfl | hmem
    · exact hlt
    · exact h.below r hmem
  nextId_pos := h.nextId_pos

theorem remove (h : t.Keyed) (id : Nat) : (t.remove id).Keyed where
  ordered := h.ordered.filter _
  positive r hr := h.positive r ((List.mem_filter.mp hr).1)
  below r hr := h.below r ((List.mem_filter.mp hr).1)
  nextId_pos := h.nextId_pos

theorem clear (h : t.Keyed) : t.clear.Keyed := ⟨List.Pairwise.nil, nofun, nofun, h.nextId_pos⟩

theorem withLastKeys (h : t.Keyed) (keys : List Tuple) : { t with lastKeys := keys }.Keyed :=
  ⟨h.ordered, h.positive, h.below, h.nextId_pos⟩

theorem withDefinition (h : t.Keyed) (d : TableDefinition) : { t with definition := d }.Keyed :=
  ⟨h.ordered, h.positive, h.below, h.nextId_pos⟩

end Keyed

end Table

end SqlStore
