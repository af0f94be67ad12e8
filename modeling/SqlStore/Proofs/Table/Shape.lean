import SqlStore.Proofs.Table.Sound
import SqlStore.Proofs.Value.Kind

/-!
# The shape of rows

Some of what is promised of rows does not hang on the values themselves, so pictures keep it whatever they
lose: how many values there are, one for each column, and of which kinds. A property of rows is a `Shape` if accepted rows have
it and pictures keep it; tables then have rows of that shape throughout their lives.
-/

namespace SqlStore

/-- A property of the rows of a definition that accepted rows have and that pictures keep. -/
structure Shape (R : TableDefinition → Tuple → Prop) : Prop where
  formed : ∀ {d row}, d.Formed row → R d row
  same : ∀ {c d : TableDefinition} {row}, c.same d → R c row → R d row
  pictured : ∀ {d row}, R d row → R d.pictured (row.map Value.pictured)

namespace Table

/-- The rows are keyed and have the property. -/
structure Shaped (R : TableDefinition → Tuple → Prop) (t : Table) : Prop where
  keyed : t.Keyed
  rows : ∀ r ∈ t.rows, R t.definition r.values

namespace Shaped

variable {R : TableDefinition → Tuple → Prop} {t u : Table}

theorem ofDefinition (d : TableDefinition) : (Table.ofDefinition d).Shaped R :=
  ⟨Keyed.ofDefinition d, nofun⟩

theorem grown (h : t.Shaped R) (hg : Grown t u) : u.Shaped R where
  keyed := h.keyed.grown hg
  rows := by
    rw [hg.definition_eq, hg.rows_eq]
    exact h.rows

/-- Rows that were there before have the shape that they had. -/
theorem subset (h : t.Shaped R) (hkeyed : u.Keyed) (hdefinition : u.definition = t.definition)
    (hrows : ∀ r ∈ u.rows, r ∈ t.rows) : u.Shaped R where
  keyed := hkeyed
  rows r hr := by
    rw [hdefinition]
    exact h.rows r (hrows r hr)

theorem put (h : t.Shaped R) {row : Row} (hkeyed : (t.put row).Keyed)
    (hrow : R t.definition row.values) : (t.put row).Shaped R where
  keyed := hkeyed
  rows r hr := by
    rcases mem_of_mem_putInto hr with rfl | hmem
    · exact hrow
    · exact h.rows r hmem

theorem change (hR : Shape R) (h : t.Shaped R) {n : TableName} {entry : Option Undo}
    (hc : Change n t u entry) : u.Shaped R := by
  have hkeyed := hc.keyed h.keyed
  cases hc with
  | number => exact h.grown (Grown.allocate t)
  | insert haccept hunique =>
    refine (h.grown (Grown.allocate t)).put hkeyed ?_
    exact hR.formed (TableDefinition.formed_accept haccept)
  | update hold haccept hunique =>
    exact h.put hkeyed (hR.formed (TableDefinition.formed_accept haccept))
  | delete hold => exact h.subset hkeyed rfl fun r hr => (List.mem_filter.mp hr).1
  | keys last => exact h.subset hkeyed rfl fun r hr => hr

theorem pictured (hR : Shape R) (h : t.Shaped R) : t.pictured.Shaped R where
  keyed := h.keyed.pictured
  rows r hr := by
    obtain ⟨q, hq, rfl⟩ := List.mem_map.mp hr
    exact hR.pictured (h.rows q hq)

end Shaped

/-- Nothing in the life of a table changes the shape of its rows. -/
theorem invariant_shaped {R : TableDefinition → Tuple → Prop} (hR : Shape R) :
    Invariant (Shaped R) where
  keyed := Shaped.keyed
  ofDefinition _ := Shaped.ofDefinition _
  grown := Shaped.grown
  change h hc := h.change hR hc
  clear h := h.subset h.keyed.clear rfl nofun
  restored h hsame := ⟨h.keyed.withDefinition _, fun r hr => hR.same hsame (h.rows r hr)⟩

end Table

/-! ## Kinds -/

/-- The kinds of the values in the columns of a table. -/
def TableDefinition.kinds (d : TableDefinition) : List (List DataType) :=
  d.columns.map fun c => [c.datatype.kind]

theorem TableDefinition.kinds_of_same {c d : TableDefinition} (h : c.same d = true) :
    c.kinds = d.kinds := by
  have hcolumns := forall₂_of_same h
  unfold kinds
  generalize c.columns = cs at hcolumns ⊢
  generalize d.columns = ds at hcolumns ⊢
  induction hcolumns with
  | nil => rfl
  | cons hsame _ ih => rw [List.map_cons, List.map_cons, ih, Column.eq_of_same hsame]

theorem Value.datatype_pictured (v : Value) : v.pictured.datatype = v.datatype := by
  unfold pictured
  split
  · rfl
  · split <;> rfl
  · rfl

theorem Column.among_of_formed {c : Column} {v : Value} (h : c.Formed v) :
    v.Among [c.datatype.kind] := by
  rcases h with ⟨rfl, -⟩ | ⟨hformed, -⟩
  · exact Value.among_null _
  · exact Value.among_of_datatype (DataType.datatype_of_formed hformed) List.mem_cons_self

theorem shape_kinds : Shape fun d row => AmongAll d.kinds row where
  formed h := List.forall₂_map_left_iff.mpr (h.imp fun _ _ => Column.among_of_formed)
  same hsame h := TableDefinition.kinds_of_same hsame ▸ h
  pictured {d row} h := by
    have hkinds : d.pictured.kinds = d.kinds := by
      show (d.columns.map Column.pictured).map _ = _
      rw [List.map_map]
      rfl
    show AmongAll d.pictured.kinds (row.map Value.pictured)
    rw [hkinds]
    refine List.forall₂_map_right_iff.mpr (h.imp fun ks v hv t ht => ?_)
    exact hv t (v.datatype_pictured ▸ ht)

/-! ## Widths and names -/

namespace Table

/-- The rows are keyed and have one value for each column. -/
structure Rectangular (t : Table) : Prop where
  keyed : t.Keyed
  width : ∀ r ∈ t.rows, r.values.length = t.definition.columns.length

theorem shape_width : Shape fun d row => row.length = d.columns.length where
  formed h := h.length_eq.symm
  same hsame h := h.trans (TableDefinition.forall₂_of_same hsame).length_eq
  pictured {d row} h := by
    show (row.map Value.pictured).length = (d.columns.map Column.pictured).length
    rw [List.length_map, List.length_map, h]

theorem rectangular_iff {t : Table} :
    t.Rectangular ↔ t.Shaped fun d row => row.length = d.columns.length :=
  ⟨fun h => ⟨h.keyed, h.width⟩, fun h => ⟨h.keyed, h.rows⟩⟩

theorem Rectangular.pictured {t : Table} (h : t.Rectangular) : t.pictured.Rectangular :=
  rectangular_iff.mpr ((rectangular_iff.mp h).pictured shape_width)

/-- Nothing in the life of a table changes the width of its rows. -/
theorem invariant_rectangular : Invariant Rectangular := by
  have hshaped : Rectangular = Shaped fun d row => row.length = d.columns.length :=
    funext fun t => propext rectangular_iff
  rw [hshaped]
  exact invariant_shaped shape_width

/-- The rows are keyed, and no two columns share a name. -/
structure Named (t : Table) : Prop where
  keyed : t.Keyed
  names : t.definition.NamesDiffer

theorem Named.pictured {t : Table} (h : t.Named) : t.pictured.Named :=
  ⟨h.keyed.pictured, h.names.pictured⟩

/-- Nothing in the life of a table changes the names of its columns. -/
theorem invariant_named : Invariant Named where
  keyed := Named.keyed
  ofDefinition h := ⟨Keyed.ofDefinition _, h⟩
  grown h hg := ⟨h.keyed.grown hg, hg.definition_eq ▸ h.names⟩
  change h hc := ⟨hc.keyed h.keyed, hc.definition_eq ▸ h.names⟩
  clear h := ⟨h.keyed.clear, h.names⟩
  restored {t d} h hsame := by
    refine ⟨h.keyed.withDefinition _, ?_⟩
    have hnames : ∀ {cs ds : List Column}, List.Forall₂ (fun c d => c.same d = true) cs ds →
        ds.map Column.name = cs.map Column.name := by
      intro cs ds hcolumns
      induction hcolumns with
      | nil => rfl
      | cons hsame _ ih => rw [List.map_cons, List.map_cons, ih, Column.eq_of_same hsame]
    show (d.columns.map Column.name).Nodup
    rw [hnames (TableDefinition.forall₂_of_same hsame)]
    exact h.names

end Table

end SqlStore
