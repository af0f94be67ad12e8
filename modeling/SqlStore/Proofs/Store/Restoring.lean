import SqlStore.Proofs.Store.Growth
import SqlStore.Store.Snapshot

/-!
# Restoring a snapshot

What comes back from a snapshot when the tables of the store still have the definitions that they had
when it was taken: every table as it was pictured. Nothing is lost on the way where pictures are
faithful (`Table.Faithful`): a table is its own picture, and its definition counts as the same as
itself, which a default that is not equal to itself would prevent.
-/

namespace SqlStore

/-- The picture of the table is the table, and its definition is the same as itself. -/
structure Table.Faithful (t : Table) : Prop where
  pictured_eq : t.pictured = t
  same : t.definition.same t.definition = true

/-- Pictures lose nothing of the tables of the store. -/
def Store.Lossless (s : Store) : Prop := ∀ t ∈ s.tables, t.pictured = t

/-- The definition of the table comes back from a picture as the same. -/
def Table.Recognized (t : Table) : Prop := t.definition.pictured.same t.definition = true

theorem Table.Faithful.recognized {t : Table} (h : t.Faithful) : t.Recognized := by
  have hdefinition : t.definition.pictured = t.definition := congrArg definition h.pictured_eq
  unfold Table.Recognized
  rw [hdefinition]
  exact h.same

/-! ## Values that every picture keeps -/

/-- Only exact decimals and documents go through text on their way into a picture and back. -/
def Value.isPlain : Value → Bool
  | .numeric _ => false
  | .json _ => false
  | _ => true

theorem Value.pictured_of_isPlain {v : Value} (h : v.isPlain = true) : v.pictured = v := by
  cases v <;> first
    | rfl
    | cases h

/-- A table that holds plain values only. -/
def Table.isPlain (t : Table) : Bool :=
  (t.definition.columns.all fun c => c.default.all Value.isPlain) &&
    (t.rows.all fun r => r.values.all Value.isPlain) &&
    t.lastKeys.all fun key => key.all Value.isPlain

theorem pictured_tuple_of_isPlain {values : Tuple} (h : values.all Value.isPlain = true) :
    values.map Value.pictured = values := by
  refine (List.map_congr_left ?_).trans (List.map_id _)
  intro v hv
  exact Value.pictured_of_isPlain (List.all_eq_true.mp h v hv)

theorem Table.pictured_of_isPlain {t : Table} (h : t.isPlain = true) : t.pictured = t := by
  rcases t with ⟨⟨schema, name, columns⟩, rows, nextId, sequences, lastKeys⟩
  unfold Table.isPlain at h
  simp only [Bool.and_eq_true, List.all_eq_true] at h
  obtain ⟨⟨hcolumns, hrows⟩, hkeys⟩ := h
  have hc : columns.map Column.pictured = columns := by
    refine (List.map_congr_left ?_).trans (List.map_id _)
    intro c hc
    rcases c with ⟨_, _, _, default, _, _, _, _⟩
    have hdefault := hcolumns _ hc
    cases default with
    | none => rfl
    | some v =>
      show Column.mk _ _ _ (some v.pictured) _ _ _ _ = _
      rw [Value.pictured_of_isPlain (by simpa using hdefault)]
      rfl
  have hr : (rows.map fun r => r.withValues (r.values.map Value.pictured)) = rows := by
    refine (List.map_congr_left ?_).trans (List.map_id _)
    intro r hr
    rw [pictured_tuple_of_isPlain (List.all_eq_true.mpr (hrows r hr))]
    rfl
  have hk : (lastKeys.map fun key => key.map Value.pictured) = lastKeys := by
    refine (List.map_congr_left ?_).trans (List.map_id _)
    intro key hkey
    exact pictured_tuple_of_isPlain (List.all_eq_true.mpr (hkeys key hkey))
  show Table.mk ⟨schema, name, columns.map Column.pictured⟩ _ _ _ _ = _
  rw [hc, hr, hk]

theorem Store.lossless_of_isPlain {s : Store} (h : s.tables.all Table.isPlain = true) :
    s.Lossless := fun t ht => Table.pictured_of_isPlain (List.all_eq_true.mp h t ht)

namespace Snapshot

theorem table?_capture (s : Store) (n : TableName) :
    (capture s).table? n = (s.table? n).map Table.pictured := by
  show (s.tables.map Table.pictured).find? _ = _
  rw [List.find?_map]
  rfl

/-- A table as it comes back from its picture under its definition. -/
def comeBack (t : Table) : Table := { t.pictured with definition := t.definition }

theorem comeBack_of_faithful {t : Table} (h : t.pictured = t) : comeBack t = t := by
  unfold comeBack
  rw [h]

/-- Every table comes back from its picture, whatever happened to its rows in between. -/
theorem along_restore {s s' : Store} (hd : s.Distinct) (hrecognized : ∀ t ∈ s.tables, t.Recognized)
    (h : Store.Along (fun t u => u.definition = t.definition) s s') :
    Store.Along (fun t u => u = comeBack t) s ((capture s).restore s') := by
  refine ⟨h.schemas_eq, ?_⟩
  show List.Forall₂ _ s.tables (s'.tables.map _)
  rw [List.forall₂_map_right_iff]
  have hmem : List.Forall₂ (fun t u => t ∈ s.tables ∧ u.definition = t.definition) s.tables
      s'.tables := (List.forall₂_and_left _ _).mpr ⟨fun t ht => ht, h.tables⟩
  refine hmem.imp ?_
  rintro t u ⟨ht, hdefinition⟩
  have hpicture : (capture s).table? u.definition.fullName = some t.pictured := by
    rw [table?_capture, hdefinition, hd.table?_of_mem ht]
    rfl
  rw [hpicture]
  show (if t.pictured.definition.same u.definition then
    { t.pictured with definition := u.definition } else u.clear) = _
  have hsame : t.pictured.definition.same t.definition = true := hrecognized t ht
  rw [hdefinition, if_pos hsame]
  rfl

end Snapshot

end SqlStore
