import SqlStore.Proofs.Check
import SqlStore.Proofs.Table.Growth
import SqlStore.Store.Snapshot
import SqlStore.Transaction.Basic

/-!
# Changes of one table

`Table.Change` lists what a statement can do to the rows of a table, with the entry that each change
puts into the log. The checks that the change passed are part of it, so what holds of the tables of
a store is read off this list and never off the code. Two facts rest on it:

* `Table.Change.reverted`: taking back the logged entry leaves the table as it was, up to growth;
* `Table.Invariant`: what a property of tables needs to be kept by everything that can happen to a
  table.
-/

namespace SqlStore

namespace Undo

/-- The table of an entry. -/
def tableName : Undo → TableName
  | remove n _ => n
  | put n _ => n
  | keys n _ => n

/-- What an entry does to its table. -/
def revert : Undo → Table → Table
  | remove _ id, t => t.remove id
  | put _ old, t => t.put old
  | keys _ last, t => { t with lastKeys := last }

theorem apply_eq (s : Store) (u : Undo) : u.apply s = s.change u.tableName u.revert := by
  cases u <;> rfl

/-- Taking back does not look at numbers that are still to come. -/
theorem revert_grown (u : Undo) {t t' : Table} (h : t.Grown t') :
    (u.revert t).Grown (u.revert t') := by
  cases u with
  | remove n id => exact h.withRows fun rows => rows.filter fun r => r.id != id
  | put n old => exact h.withRows (Table.putInto old)
  | keys n last => exact h.withLastKeys last

end Undo

namespace TableDefinition

/-- No two columns share a name. -/
def NamesDiffer (d : TableDefinition) : Prop := (d.columns.map Column.name).Nodup

theorem nodup_of_validateColumns {before : List String} {cs : List Column}
    (h : validateColumns before cs = .ok ⟨⟩) :
    (cs.map Column.name).Nodup ∧ ∀ c ∈ cs, c.name ∉ before := by
  induction cs generalizing before with
  | nil => exact ⟨List.nodup_nil, List.forall_mem_nil _⟩
  | cons c cs ih =>
    unfold validateColumns at h
    split at h
    · cases h
    · next hbefore =>
      obtain ⟨_, -, h⟩ := Except.exists_of_bind_eq_ok h
      obtain ⟨hnodup, hfree⟩ := ih h
      refine ⟨List.nodup_cons.mpr ⟨fun hmem => ?_, hnodup⟩, List.forall_mem_cons.mpr ⟨?_, fun c' hc' => ?_⟩⟩
      · obtain ⟨c', hc', heq⟩ := List.mem_map.mp hmem
        exact hfree c' hc' (heq ▸ List.mem_cons_self)
      · exact fun hmem => hbefore (List.contains_iff_mem.mpr hmem)
      · exact fun hmem => hfree c' hc' (List.mem_cons_of_mem _ hmem)

theorem namesDiffer_of_validate {d : TableDefinition} (h : d.validate = .ok ⟨⟩) : d.NamesDiffer := by
  unfold validate at h
  cases hempty : d.columns.isEmpty with
  | true =>
    rw [hempty] at h
    cases h
  | false =>
    rw [hempty] at h
    obtain ⟨_, hcolumns, -⟩ := Except.exists_of_bind_eq_ok h
    exact (nodup_of_validateColumns hcolumns).1

theorem NamesDiffer.pictured {d : TableDefinition} (h : d.NamesDiffer) : d.pictured.NamesDiffer := by
  show ((d.columns.map Column.pictured).map Column.name).Nodup
  rw [List.map_map]
  exact h

end TableDefinition

namespace Table

/-- A change of a table of a name: the table after it and what is logged. -/
inductive Change (n : TableName) (t : Table) : Table → Option Undo → Prop
  /-- A row number is given out. -/
  | number : Change n t t.allocate.2 none
  /-- A row goes in under the next number. -/
  | insert {given values : Tuple} (haccept : t.definition.accept given = .ok values)
      (hunique : t.allocate.2.checkUnique values none = .ok ()) :
      Change n t (t.allocate.2.put ⟨t.nextId, values⟩) (some (.remove n t.nextId))
  /-- The values of a row are replaced. -/
  | update {old : Row} {given values : Tuple} (hold : t.row? old.id = some old)
      (haccept : t.definition.accept given = .ok values)
      (hunique : t.checkUnique values (some old.id) = .ok ()) :
      Change n t (t.put (old.withValues values)) (some (.put n old))
  /-- A row is taken out. -/
  | delete {old : Row} (hold : t.row? old.id = some old) :
      Change n t (t.remove old.id) (some (.put n old))
  /-- Generated keys are recorded. -/
  | keys (last : List Tuple) :
      Change n t { t with lastKeys := last } (some (.keys n t.lastKeys))

namespace Change

variable {n : TableName} {t u : Table} {entry : Option Undo}

theorem definition_eq (h : Change n t u entry) : u.definition = t.definition := by
  cases h <;> rfl

theorem tableName_eq (h : Change n t u entry) : ∀ x ∈ entry, x.tableName = n := by
  cases h <;> rintro x ⟨⟩ <;> rfl

/-- A change with its entry taken back leaves the table as it was, but for the numbers drawn. -/
theorem reverted (h : Change n t u entry) (hk : t.Keyed) :
    t.Grown (match entry with
      | some x => x.revert u
      | none => u) := by
  cases h with
  | number => exact Grown.allocate t
  | @insert _ values haccept hunique =>
    -- the row goes out again, and its number stays used up
    have hfree : rowIn t.rows (Row.mk t.nextId values).id = none := hk.row?_nextId
    refine (Grown.allocate t).trans ⟨rfl, ?_, rfl, Nat.le_refl _, fun _ => Int.le_refl _⟩
    exact filter_putInto hk.ordered hfree
  | update hold haccept hunique =>
    exact ⟨rfl, putInto_putInto hk.ordered hold rfl, rfl, Nat.le_refl _, fun _ => Int.le_refl _⟩
  | delete hold =>
    exact ⟨rfl, putInto_filter hk.ordered hold, rfl, Nat.le_refl _, fun _ => Int.le_refl _⟩
  | keys last => exact Grown.refl t

theorem keyed (h : Change n t u entry) (hk : t.Keyed) : u.Keyed := by
  cases h with
  | number => exact hk.grown (Grown.allocate t)
  | insert haccept hunique =>
    exact (hk.grown (Grown.allocate t)).put hk.nextId_pos (Nat.lt_succ_self _)
  | @update old _ _ hold haccept hunique =>
    -- the new values go in under a number that was given out before
    obtain ⟨hmem, -⟩ := mem_of_rowIn hold
    exact hk.put (hk.positive old hmem) (hk.below old hmem)
  | delete hold => exact hk.remove _
  | keys last => exact hk.withLastKeys last

end Change

/-! ## Invariants of tables -/

/-- A property of tables that nothing in the life of a table breaks. A table is made of a definition whose
columns have different names. Restoring a table puts an earlier one, which had the property, under the
present definition. -/
structure Invariant (I : Table → Prop) : Prop where
  keyed : ∀ {t}, I t → t.Keyed
  ofDefinition : ∀ {d : TableDefinition}, d.NamesDiffer → I (.ofDefinition d)
  grown : ∀ {t u}, I t → t.Grown u → I u
  change : ∀ {n t u entry}, I t → Change n t u entry → I u
  clear : ∀ {t}, I t → I t.clear
  restored : ∀ {t} {d : TableDefinition}, I t → t.definition.same d →
    I { t with definition := d }

theorem invariant_keyed : Invariant Keyed where
  keyed h := h
  ofDefinition _ := Keyed.ofDefinition _
  grown := Keyed.grown
  change h hc := hc.keyed h
  clear := Keyed.clear
  restored h _ := h.withDefinition _

/-- A picture keeps the numbers of the rows. -/
theorem Keyed.pictured {t : Table} (h : t.Keyed) : t.pictured.Keyed where
  ordered := List.pairwise_map.mpr h.ordered
  positive r hr := by
    obtain ⟨q, hq, rfl⟩ := List.mem_map.mp hr
    exact h.positive q hq
  below r hr := by
    obtain ⟨q, hq, rfl⟩ := List.mem_map.mp hr
    exact h.below q hq
  nextId_pos := h.nextId_pos

/-- A table keeps the property when it is put back to a picture that has it. -/
theorem Invariant.restoredFrom {I : Table → Prop} (hI : Invariant I) {t : Table} (ht : I t)
    {picture : Option Table} (hp : ∀ p ∈ picture, I p) : I (t.restoredFrom picture) := by
  cases picture with
  | none => exact hI.clear ht
  | some p =>
    show I (if p.definition.same t.definition then { p with definition := t.definition }
      else t.clear)
    -- a picture under another definition is not put back
    split
    · next hsame => exact hI.restored (hp p rfl) hsame
    · exact hI.clear ht

end Table

end SqlStore
