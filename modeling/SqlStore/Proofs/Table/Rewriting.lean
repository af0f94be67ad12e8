import Mathlib.Data.List.Forall2
import Mathlib.Logic.Function.Basic
import SqlStore.Proofs.Table.Rows

/-!
# Tables with rewritten rows

Putting a row in under the number of one that is there rewrites that row and leaves the others where they
are. `Table.rewritten` rewrites several rows at once and `Table.without` leaves several out; one after the
other comes to the same.
-/

namespace SqlStore

/-- The row with other values, if it has one of some numbers. -/
def Row.rewritten (r : Row) (ids : List Nat) (values : Nat → Tuple) : Row :=
  if r.id ∈ ids then r.withValues (values r.id) else r

namespace Row

variable {r : Row} {ids : List Nat} {values : Nat → Tuple}

theorem rewritten_of_mem (h : r.id ∈ ids) : r.rewritten ids values = r.withValues (values r.id) :=
  if_pos h

theorem rewritten_of_notMem (h : r.id ∉ ids) : r.rewritten ids values = r := if_neg h

@[simp] theorem id_rewritten : (r.rewritten ids values).id = r.id := by
  unfold rewritten
  split <;> rfl

/-- Rewriting one row and then others is rewriting all of them. -/
theorem rewritten_rewritten {id : Nat} (hid : id ∉ ids) (first : Tuple) :
    (r.rewritten [id] fun _ => first).rewritten ids values =
      r.rewritten (id :: ids) (Function.update values id first) := by
  by_cases hr : r.id = id
  · subst hr
    rw [rewritten_of_mem (List.mem_singleton_self _), rewritten_of_mem List.mem_cons_self,
      Function.update_self]
    exact rewritten_of_notMem hid
  · rw [rewritten_of_notMem (mt List.mem_singleton.mp hr)]
    by_cases hmem : r.id ∈ ids
    · rw [rewritten_of_mem hmem, rewritten_of_mem (List.mem_cons_of_mem _ hmem),
        Function.update_of_ne hr]
    · rw [rewritten_of_notMem hmem, rewritten_of_notMem]
      rw [List.mem_cons, not_or]
      exact ⟨hr, hmem⟩

end Row

namespace Table

/-- The table with other values in the rows of some numbers. -/
def rewritten (t : Table) (ids : List Nat) (values : Nat → Tuple) : Table :=
  { t with rows := t.rows.map fun r => r.rewritten ids values }

@[simp] theorem rewritten_definition (t : Table) (ids : List Nat) (values : Nat → Tuple) :
    (t.rewritten ids values).definition = t.definition := rfl

@[simp] theorem rewritten_nil (t : Table) (values : Nat → Tuple) : t.rewritten [] values = t := by
  have hrows : (t.rows.map fun r => r.rewritten [] values) = t.rows := List.map_id t.rows
  unfold rewritten
  rw [hrows]

theorem rewritten_congr {t : Table} {ids others : List Nat} {values new : Nat → Tuple}
    (hids : ∀ id, id ∈ ids ↔ id ∈ others) (hvalues : ∀ id ∈ ids, values id = new id) :
    t.rewritten ids values = t.rewritten others new := by
  have hrows : (t.rows.map fun r => r.rewritten ids values) =
      t.rows.map fun r => r.rewritten others new := by
    refine List.map_congr_left fun r _ => ?_
    by_cases hr : r.id ∈ ids
    · rw [Row.rewritten_of_mem hr, Row.rewritten_of_mem ((hids r.id).mp hr), hvalues r.id hr]
    · rw [Row.rewritten_of_notMem hr, Row.rewritten_of_notMem (mt (hids r.id).mpr hr)]
  unfold rewritten
  rw [hrows]

/-- Rewriting changes nothing exactly if each row gets the values that it has. -/
theorem rewritten_eq_self_iff {t : Table} {ids : List Nat} {values : Nat → Tuple} :
    t.rewritten ids values = t ↔ ∀ r ∈ t.rows, r.id ∈ ids → values r.id = r.values := by
  have hrow : ∀ r : Row, r.rewritten ids values = r ↔ (r.id ∈ ids → values r.id = r.values) := by
    intro r
    by_cases hr : r.id ∈ ids
    · rw [Row.rewritten_of_mem hr]
      exact ⟨fun h _ => congrArg Row.values h, fun h => congrArg (Row.mk r.id) (h hr)⟩
    · exact ⟨fun _ hmem => absurd hmem hr, fun _ => Row.rewritten_of_notMem hr⟩
  have hrows : t.rewritten ids values = t ↔
      t.rows.map (fun r => r.rewritten ids values) = t.rows.map id := by
    rw [List.map_id]
    exact ⟨fun h => congrArg rows h, fun h => congrArg (fun rows => { t with rows }) h⟩
  rw [hrows, List.map_inj_left]
  exact forall₂_congr fun r _ => hrow r

theorem putInto_eq_map {rows : List Row} (h : Ordered rows) {new : Row}
    (hthere : ∃ r ∈ rows, r.id = new.id) :
    putInto new rows = rows.map fun r => if r.id = new.id then new else r := by
  induction rows with
  | nil =>
    obtain ⟨r, hr, -⟩ := hthere
    cases hr
  | cons q rows ih =>
    unfold putInto
    by_cases hq : q.id = new.id
    · -- the rows behind have greater numbers
      have hrest : (rows.map fun r => if r.id = new.id then new else r) = rows := by
        refine (List.map_congr_left fun r hr => ?_).trans (List.map_id rows)
        have hlt := h.head_lt r hr
        exact if_neg (by omega)
      rw [if_pos (beq_iff_eq.mpr hq.symm), List.map_cons, if_pos hq, hrest]
    · obtain ⟨r, hr, hid⟩ := hthere
      have hr : r ∈ rows := by
        rcases List.mem_cons.mp hr with rfl | hr
        · exact absurd hid hq
        · exact hr
      have hlt := h.head_lt r hr
      rw [if_neg (mt beq_iff_eq.mp (Ne.symm hq)), if_neg (by omega), List.map_cons, if_neg hq,
        ih h.tail ⟨r, hr, hid⟩]

/-- Rewriting one row by putting it in. -/
theorem put_eq_rewritten {t : Table} (h : Ordered t.rows) {r : Row} (hr : r ∈ t.rows)
    (values : Tuple) : t.put (r.withValues values) = t.rewritten [r.id] fun _ => values := by
  have hrows : putInto (r.withValues values) t.rows =
      t.rows.map fun q => q.rewritten [r.id] fun _ => values := by
    have hthere : ∃ q ∈ t.rows, q.id = (r.withValues values).id := ⟨r, hr, rfl⟩
    rw [putInto_eq_map h hthere]
    refine List.map_congr_left fun q hq => ?_
    by_cases hid : q.id = r.id
    · rw [if_pos (show q.id = (r.withValues values).id from hid),
        Row.rewritten_of_mem (List.mem_singleton.mpr hid), h.eq_of_id_eq hq hr hid]
    · rw [if_neg (show q.id ≠ (r.withValues values).id from hid),
        Row.rewritten_of_notMem (mt List.mem_singleton.mp hid)]
  exact congrArg (fun rows => { t with rows }) hrows

theorem rewritten_rewritten {t : Table} {id : Nat} {ids : List Nat} (hid : id ∉ ids)
    (first : Tuple) (values : Nat → Tuple) :
    (t.rewritten [id] fun _ => first).rewritten ids values =
      t.rewritten (id :: ids) (Function.update values id first) := by
  have hrows : ((t.rows.map fun r => r.rewritten [id] fun _ => first).map
      fun r => r.rewritten ids values) =
      t.rows.map fun r => r.rewritten (id :: ids) (Function.update values id first) := by
    rw [List.map_map]
    exact List.map_congr_left fun r _ => Row.rewritten_rewritten hid first
  exact congrArg (fun rows => { t with rows }) hrows

/-- A row of another number is still there. -/
theorem mem_rewritten {t : Table} {r : Row} (hr : r ∈ t.rows) {ids : List Nat} (hid : r.id ∉ ids)
    (values : Nat → Tuple) : r ∈ (t.rewritten ids values).rows :=
  List.mem_map.mpr ⟨r, hr, Row.rewritten_of_notMem hid⟩

/-- Rows of other numbers are still there when one row was rewritten. -/
theorem subset_rewritten {t : Table} {rows : List Row} {id : Nat} (hrows : ∀ r ∈ rows, r ∈ t.rows)
    (hid : id ∉ rows.map Row.id) (values : Nat → Tuple) :
    ∀ r ∈ rows, r ∈ (t.rewritten [id] values).rows := by
  intro r hr
  refine mem_rewritten (hrows r hr) (fun hmem => hid ?_) values
  rw [← List.mem_singleton.mp hmem]
  exact List.mem_map_of_mem hr

theorem Ordered.rewritten {t : Table} (h : Ordered t.rows) (ids : List Nat) (values : Nat → Tuple) :
    Ordered (t.rewritten ids values).rows := by
  refine List.pairwise_map.mpr (List.Pairwise.imp ?_ h)
  intro a b hab
  rw [Row.id_rewritten, Row.id_rewritten]
  exact hab

/-! ## Tables without some rows -/

/-- The table without the rows of some numbers. -/
def without (t : Table) (ids : List Nat) : Table :=
  { t with rows := t.rows.filter fun r => r.id ∉ ids }

@[simp] theorem without_definition (t : Table) (ids : List Nat) :
    (t.without ids).definition = t.definition := rfl

@[simp] theorem without_nil (t : Table) : t.without [] = t := by
  have hrows : (t.rows.filter fun r => r.id ∉ ([] : List Nat)) = t.rows :=
    List.filter_eq_self.mpr fun r _ => decide_eq_true List.not_mem_nil
  unfold without
  rw [hrows]

theorem remove_eq_without (t : Table) (id : Nat) : t.remove id = t.without [id] := by
  have hrows : (t.rows.filter fun r => r.id != id) = t.rows.filter fun r => r.id ∉ [id] :=
    List.filter_congr fun r _ => by rw [Bool.eq_iff_iff]; simp
  unfold remove without
  rw [hrows]

/-- Leaving out one row and then others is leaving out all of them. -/
theorem without_without (t : Table) (id : Nat) (ids : List Nat) :
    (t.without [id]).without ids = t.without (id :: ids) := by
  have hrows : ((t.rows.filter fun r => r.id ∉ [id]).filter fun r => r.id ∉ ids) =
      t.rows.filter fun r => r.id ∉ id :: ids := by
    rw [List.filter_filter]
    exact List.filter_congr fun r _ => by rw [Bool.eq_iff_iff]; simp [and_comm]
  exact congrArg (fun rows => { t with rows }) hrows

/-- Rows kept by answers that were given one by one are those of some numbers. -/
theorem exists_of_kept {R : Row → Bool → Prop} {rows : List Row} {kept : List Bool}
    (h : List.Forall₂ R rows kept) (hids : (rows.map Row.id).Nodup) :
    ∃ truth : Nat → Bool,
      ((rows.zip kept).filter Prod.snd).map Prod.fst = rows.filter (fun r => truth r.id) ∧
        ∀ r ∈ rows, R r (truth r.id) := by
  induction h with
  | nil => exact ⟨fun _ => false, rfl, nofun⟩
  | @cons row answer rows kept hrow _ ih =>
    obtain ⟨hid, hids⟩ := List.nodup_cons.mp hids
    obtain ⟨truth, hkept, hrest⟩ := ih hids
    -- the answer for the first number is no other row's
    have hother : ∀ r ∈ rows, Function.update truth row.id answer r.id = truth r.id := fun r hr =>
      Function.update_of_ne (fun heq => hid (List.mem_map.mpr ⟨r, hr, heq⟩)) _ _
    have htail : rows.filter (fun r => Function.update truth row.id answer r.id) =
        rows.filter fun r => truth r.id := List.filter_congr hother
    refine ⟨Function.update truth row.id answer, ?_, List.forall_mem_cons.mpr ⟨?_, fun r hr => ?_⟩⟩
    · rw [List.zip_cons_cons, List.filter_cons, List.filter_cons, Function.update_self, htail]
      cases answer
      · exact hkept
      · exact congrArg (List.cons row) hkept
    · rw [Function.update_self]
      exact hrow
    · rw [hother r hr]
      exact hrest r hr

end Table

end SqlStore
