import SqlStore.Proofs.Arrangement
import SqlStore.Proofs.Table.Form
import SqlStore.Proofs.Table.Growth

/-!
# Rows that are filled in and appended

An insertion supplies values for some columns of each row. The others are filled in: serial columns from
their sequences, all others with their defaults. What comes of this for the table is `Table.Inserted`: the
new rows stand behind the old ones under the next numbers.
-/

namespace SqlStore

/-- What is supplied for the columns of a row, by their names. -/
abbrev Supply := String → Option Value

namespace Table

variable {t u : Table} {c : Column} {before : List Supply} {supply : Supply}

/-- The value for a column in a row behind others: the supplied one, or else the next one of a serial
column's sequence behind those that the rows before took, or the default of the column, or NULL. -/
def filling (t : Table) (before : List Supply) (supply : Supply) (c : Column) : Value :=
  match supply c.name with
  | some v => v
  | none =>
    if c.autoIncrement then
      .bigInt (Int64.ofInt (t.sequence c.name + before.countP (fun s => (s c.name).isNone) + 1))
    else c.default.getD .null

/-- The table after columns of rows were filled in: nothing changed but their sequences, each of which went
on by one for each row without a value. -/
structure Took (t : Table) (cs : List Column) (supplies : List Supply) (u : Table) : Prop where
  eq : u = { t with sequences := u.sequences }
  others : ∀ column, column ∉ cs.map Column.name → u.sequence column = t.sequence column
  serials : ∀ c ∈ cs, c.autoIncrement = true →
    u.sequence c.name = t.sequence c.name + supplies.countP (fun s => (s c.name).isNone)

namespace Took

variable {v : Table} {cs : List Column} {supplies : List Supply}

theorem definition_eq (h : t.Took cs supplies u) : u.definition = t.definition := by
  rw [h.eq]

/-- Without columns or rows nothing happens. -/
theorem refl (t : Table) (h : ∀ c ∈ cs, c.autoIncrement = true →
    supplies.countP (fun s => (s c.name).isNone) = 0) : t.Took cs supplies t where
  eq := rfl
  others _ _ := rfl
  serials c hc hserial := by
    rw [h c hc hserial]
    exact (Int.add_zero _).symm

/-- One column of a row and then the others. -/
theorem cons (h : t.Took [c] supplies u) (h' : u.Took cs supplies v) (hname : c.name ∉ cs.map Column.name) :
    t.Took (c :: cs) supplies v where
  eq := by
    rw [h'.eq, h.eq]
  others column hcolumn := by
    rw [List.map_cons, List.mem_cons, not_or] at hcolumn
    rw [h'.others column hcolumn.2, h.others column (by simpa using hcolumn.1)]
  serials := by
    refine List.forall_mem_cons.mpr ⟨fun hserial => ?_, fun d hd hserial => ?_⟩
    · rw [h'.others c.name hname, h.serials c List.mem_cons_self hserial]
    · have hne : d.name ∉ [c].map Column.name := by
        intro hmem
        exact hname (List.mem_singleton.mp hmem ▸ List.mem_map_of_mem hd)
      rw [h'.serials d hd hserial, h.others d.name hne]

/-- One row and then the others. -/
theorem next (h : t.Took cs [supply] u) (h' : u.Took cs supplies v) : t.Took cs (supply :: supplies) v where
  eq := by
    rw [h'.eq, h.eq]
  others column hcolumn := by
    rw [h'.others column hcolumn, h.others column hcolumn]
  serials c hc hserial := by
    rw [h'.serials c hc hserial, h.serials c hc hserial, ← List.singleton_append (l := supplies),
      List.countP_append]
    push_cast
    omega

end Took

end Table

namespace Column

end Column

namespace TableDefinition

end TableDefinition

namespace Table

variable {t : Table}

/-! ## Appending -/

/-- The table with rows behind its rows, and so many numbers given out. -/
def appended (t : Table) (new : List Row) : Table :=
  { t with rows := t.rows ++ new, nextId := t.nextId + new.length }

@[simp] theorem appended_definition (t : Table) (new : List Row) :
    (t.appended new).definition = t.definition := rfl

/-- Behind smaller numbers a row is put at the end. -/
theorem putInto_of_lt {row : Row} {rows : List Row} (h : ∀ r ∈ rows, r.id < row.id) :
    putInto row rows = rows ++ [row] := by
  induction rows with
  | nil => rfl
  | cons r rows ih =>
    obtain ⟨hr, hrows⟩ := List.forall_mem_cons.mp h
    unfold putInto
    rw [if_neg (mt beq_iff_eq.mp (Nat.ne_of_gt hr)), if_neg (Nat.not_lt_of_gt hr), ih hrows]
    rfl

/-- Storing a row under the next number appends it. -/
theorem Keyed.allocate_put (h : t.Keyed) (values : Tuple) :
    t.allocate.2.put ⟨t.nextId, values⟩ = t.appended [⟨t.nextId, values⟩] :=
  congrArg (fun rows => { t with rows, nextId := t.nextId + 1 }) (putInto_of_lt h.below)

theorem Keyed.appended (h : t.Keyed) (values : Tuple) : (t.appended [⟨t.nextId, values⟩]).Keyed := by
  rw [← h.allocate_put]
  exact (h.grown (.allocate t)).put h.nextId_pos (Nat.lt_succ_self _)

end Table

end SqlStore
