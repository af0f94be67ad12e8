import Mathlib.Data.List.Basic
import SqlStore.Query.Execution

/-!
# The layout of results

Columns of results are told apart by table and name. A plan knows them before it is run, and running it
finds them again: `Relation.Fits` says that a relation has the columns that were foretold, types apart,
and that each of its rows has one value for each. `Frame.Fits` says the same of what an expression sees.
-/

namespace SqlStore

/-! ## Keys -/

namespace ResultColumn

/-- What a reference tells a column by: its table and its name. -/
def key (c : ResultColumn) : Option String × String := (c.table, c.name)

theorem length_of_keys {cs ds : List ResultColumn} (h : cs.map key = ds.map key) :
    cs.length = ds.length := by
  have hlength := congrArg List.length h
  rwa [List.length_map, List.length_map] at hlength

/-- A reference is resolved by keys alone. -/
theorem resolve_of_keys {cs ds : List ResultColumn} (h : cs.map key = ds.map key)
    (table : Option String) (name : String) : resolve cs table name = resolve ds table name := by
  let suits : Option String × String → Bool := fun k => k.2 == name && (table.isNone || k.1 == table)
  have hfind : ∀ columns : List ResultColumn,
      columns.findIdx? (fits table name) = (columns.map key).findIdx? suits := by
    intro columns
    rw [List.findIdx?_map]
    rfl
  have hrest : ∀ (columns : List ResultColumn) (i : Nat),
      (columns.drop i).any (fits table name) = ((columns.map key).drop i).any suits := by
    intro columns i
    rw [← List.map_drop, List.any_map]
    rfl
  unfold resolve
  simp only [hfind, hrest, h]

end ResultColumn

/-- A reference that the own frame resolves reads the row. -/
theorem Scope.value_of_resolve {f : Frame} {outer : Scope} {table : Option String} {name : String}
    {i : Nat} {v : Value} (hi : ResultColumn.resolve f.columns table name = .ok (some i))
    (hv : f.row[i]? = some v) : Scope.value (f :: outer) table name = .ok v := by
  unfold Scope.value
  rw [hi]
  dsimp only [bind, Except.bind]
  rw [hv]

open ResultColumn (key)

theorem keys_relabel {cs ds : List ResultColumn} (h : cs.map key = ds.map key)
    (label : Option String) : (relabel label cs).map key = (relabel label ds).map key := by
  have hkeys : ∀ columns : List ResultColumn,
      (relabel label columns).map key = (columns.map key).map fun k => (label, k.2) := by
    intro columns
    unfold relabel
    rw [List.map_map, List.map_map]
    rfl
  rw [hkeys, hkeys, h]

theorem keys_fillTypes (rows : List Tuple) (columns : List ResultColumn) :
    (fillTypes rows columns).map key = columns.map key := by
  unfold fillTypes
  rw [List.map_map]
  calc _ = columns.zipIdx.map (key ∘ Prod.fst) := by
        refine List.map_congr_left fun p _ => ?_
        dsimp only [Function.comp_apply]
        split <;> rfl
    _ = columns.map key := by rw [← List.map_map, List.zipIdx_map_fst]

/-! ## Joins -/

section

variable {α β : Type}

theorem map_withoutPlaces (f : α → β) (places : List Nat) (xs : List α) :
    (withoutPlaces places xs).map f = withoutPlaces places (xs.map f) := by
  unfold withoutPlaces
  rw [List.zipIdx_map, List.filter_map, List.map_map, List.map_map]
  rfl

/-- A map that goes through merging goes through the layout of a join. -/
theorem map_joinLayout {f : α → β} {pick : α → α → α} {pick' : β → β → β}
    (h : ∀ x y, f (pick x y) = pick' (f x) (f y)) (merged : List (Nat × Nat)) (left right : List α) :
    (joinLayout pick merged left right).map f =
      joinLayout pick' merged (left.map f) (right.map f) := by
  unfold joinLayout
  simp only [List.map_append, map_withoutPlaces, List.map_filterMap, List.getElem?_map]
  refine congrArg (· ++ _) (List.filterMap_congr fun places _ => ?_)
  rcases places with ⟨l, r⟩
  dsimp only
  cases left[l]? <;> cases right[r]? <;> simp [h]

/-- How long the layout of a join is depends on how long its sides are. -/
theorem length_joinLayout (pick : α → α → α) (pick' : β → β → β) (merged : List (Nat × Nat))
    {left right : List α} {left' right' : List β} (hleft : left.length = left'.length)
    (hright : right.length = right'.length) :
    (joinLayout pick merged left right).length = (joinLayout pick' merged left' right').length := by
  -- both are as long as the layout of as many blanks
  have hblank {γ : Type} (pick : γ → γ → γ) (l r : List γ) :
      (joinLayout pick merged l r).length = (joinLayout (fun _ _ => ()) merged
        (List.replicate l.length ()) (List.replicate r.length ())).length := by
    have hmap : (joinLayout pick merged l r).map (Function.const γ ()) =
        joinLayout (fun _ _ => ()) merged (l.map (Function.const γ ()))
          (r.map (Function.const γ ())) := map_joinLayout (fun _ _ => rfl) merged l r
    rw [List.map_const, List.map_const, List.map_const] at hmap
    rw [← hmap, List.length_replicate]
  rw [hblank pick, hblank pick', hleft, hright]

end

theorem keys_joinColumns {left right left' right' : List ResultColumn}
    (hleft : left.map key = left'.map key) (hright : right.map key = right'.map key)
    (merged : List (Nat × Nat)) :
    (joinColumns merged left right).map key = (joinColumns merged left' right').map key := by
  have hkeys (l r : List ResultColumn) : (joinColumns merged l r).map key =
      joinLayout (fun l _ => l) merged (l.map key) (r.map key) :=
    map_joinLayout (fun _ _ => rfl) merged l r
  rw [hkeys, hkeys, hleft, hright]

theorem length_joinRow {l r : Tuple} {left right : List ResultColumn} (hl : l.length = left.length)
    (hr : r.length = right.length) (merged : List (Nat × Nat)) :
    (joinRow merged l r).length = (joinColumns merged left right).length :=
  length_joinLayout _ _ merged hl hr

/-! ## Relations and frames that fit -/

/-- The relation has the columns, types apart, and one value for each in every row. -/
structure Relation.Fits (r : Relation) (columns : List ResultColumn) : Prop where
  keys : r.columns.map key = columns.map key
  width : ∀ row ∈ r.rows, row.length = columns.length

/-- The frame has the columns, types apart, and one value for each. It holds rows of a group where rows
are grouped, which are as wide. -/
structure Frame.Fits (f : Frame) (columns : List ResultColumn) (grouped : Bool) : Prop where
  keys : f.columns.map key = columns.map key
  width : f.row.length = columns.length
  isSome_group : f.group.isSome = grouped
  group : ∀ rows ∈ f.group, ∀ row ∈ rows, row.length = columns.length

namespace Relation.Fits

variable {l r : Relation} {left right columns : List ResultColumn}

/-- Fewer rows fit as well. -/
theorem subset (h : r.Fits columns) {rows : List Tuple} (hrows : ∀ row ∈ rows, row ∈ r.rows) :
    Relation.Fits ⟨r.columns, rows⟩ columns :=
  ⟨h.keys, fun row hrow => h.width row (hrows row hrow)⟩

theorem relabel (h : r.Fits columns) (label : Option String) :
    Relation.Fits ⟨SqlStore.relabel label r.columns, r.rows⟩ (SqlStore.relabel label columns) := by
  refine ⟨keys_relabel h.keys label, fun row hrow => ?_⟩
  rw [h.width row hrow, SqlStore.relabel, List.length_map]

theorem take (h : r.Fits columns) (width : Nat) :
    Relation.Fits ⟨r.columns.take width, r.rows.map (List.take width)⟩ (columns.take width) := by
  refine ⟨?_, fun row hrow => ?_⟩
  · rw [List.map_take, List.map_take, h.keys]
  · obtain ⟨q, hq, rfl⟩ := List.mem_map.mp hrow
    rw [List.length_take, List.length_take, h.width q hq]

/-- Each row of a join is made of a row of the left and one of the right side, where NULLs may stand for
one of them. -/
theorem join (hl : l.Fits left) (hr : r.Fits right) (kind : JoinKind) (merged : List (Nat × Nat))
    (hits : List (List Bool)) :
    Relation.Fits ⟨joinColumns merged l.columns r.columns,
      joinedRows kind merged l.columns.length r.columns.length l.rows r.rows hits⟩
        (joinColumns merged left right) := by
  refine ⟨keys_joinColumns hl.keys hr.keys merged, fun row hrow => ?_⟩
  have hleft := ResultColumn.length_of_keys hl.keys
  have hright := ResultColumn.length_of_keys hr.keys
  unfold joinedRows at hrow
  dsimp only at hrow
  rcases List.mem_append.mp hrow with hrow | hrow
  · obtain ⟨⟨x, hs⟩, hx, hrow⟩ := List.mem_flatMap.mp hrow
    have hwidth := hl.width x (List.of_mem_zip hx).1
    dsimp only at hrow
    split at hrow
    · cases List.mem_singleton.mp hrow
      exact length_joinRow hwidth (by rw [List.length_replicate, hright]) merged
    · obtain ⟨⟨y, hit⟩, hy, rfl⟩ := List.mem_map.mp hrow
      have hzip := List.of_mem_zip (List.mem_filter.mp hy).1
      exact length_joinRow hwidth (hr.width y hzip.1) merged
  · split at hrow
    · obtain ⟨⟨y, j⟩, hy, rfl⟩ := List.mem_map.mp hrow
      have hmem := List.fst_mem_of_mem_zipIdx (List.mem_filter.mp hy).1
      exact length_joinRow (by rw [List.length_replicate, hleft]) (hr.width y hmem) merged
    · cases hrow

/-- Results of as many values as there are outputs. -/
theorem outputs (outputs : List Output) {rows : List Tuple}
    (hrows : ∀ row ∈ rows, row.length = outputs.length) :
    (outputRelation outputs rows).Fits (outputs.map Output.column) := by
  refine ⟨keys_fillTypes rows _, fun row hrow => ?_⟩
  rw [hrows row hrow, List.length_map]

/-- The frame of a row. -/
theorem frame (h : r.Fits columns) {row : Tuple} (hrow : row ∈ r.rows) :
    (Frame.ofRow r.columns row).Fits columns false :=
  ⟨h.keys, h.width row hrow, rfl, nofun⟩

/-- The frame of a pair of rows. -/
theorem pair (hl : l.Fits left) (hr : r.Fits right) {x y : Tuple} (hx : x ∈ l.rows)
    (hy : y ∈ r.rows) :
    (Frame.ofRow (l.columns ++ r.columns) (x ++ y)).Fits (left ++ right) false := by
  refine ⟨?_, ?_, rfl, nofun⟩
  · show (l.columns ++ r.columns).map key = _
    rw [List.map_append, List.map_append, hl.keys, hr.keys]
  · show (x ++ y).length = _
    rw [List.length_append, List.length_append, hl.width x hx, hr.width y hy]

/-- The frame of a group; one without rows has NULLs in its columns. -/
theorem groupFrame (h : r.Fits columns) {rows : List Tuple} (hrows : ∀ row ∈ rows, row ∈ r.rows) :
    Frame.Fits ⟨r.columns, rows.headD (List.replicate r.columns.length .null), some rows⟩ columns
      true := by
  refine ⟨h.keys, ?_, rfl, ?_⟩
  · cases rows with
    | nil => exact (List.length_replicate ..).trans (ResultColumn.length_of_keys h.keys)
    | cons row rows => exact h.width row (hrows row List.mem_cons_self)
  · rintro _ ⟨⟩ row hrow
    exact h.width row (hrows row hrow)

end Relation.Fits

end SqlStore
