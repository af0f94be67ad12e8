import SqlStore.Proofs.Transaction.Lifecycle

/-!
# Undoing, row by row

Taking back a log does to each row what the entries about that row say, whatever else happened to the
store. `Core.revertedRow` is what the log leads a row back to. It is the same before and after each change
that a transaction makes, because the change puts its own inverse in front of the log
(`Write.revertedRow_eq`), and of the other rows' changes it takes no notice.
-/

open Relation

namespace SqlStore

namespace Store

/-- The row that is stored under a number in a table. -/
def row? (s : Store) (n : TableName) (id : Nat) : Option Row := (s.table? n).bind fun t => t.row? id

/-- The number that a table gives out next, zero without a table. -/
def nextId (s : Store) (n : TableName) : Nat := ((s.table? n).map Table.nextId).getD 0

/-- All rows stand under numbers below the one that their table gives out next. -/
def Below (s : Store) : Prop := ∀ t ∈ s.tables, ∀ r ∈ t.rows, r.id < t.nextId

variable {s : Store} {n : TableName} {t u : Table}

theorem row?_of_table? (h : s.table? n = some t) (id : Nat) : s.row? n id = t.row? id := by
  unfold row?
  rw [h, Option.bind_some]

theorem nextId_of_table? (h : s.table? n = some t) : s.nextId n = t.nextId := by
  unfold nextId
  rw [h]
  rfl

theorem row?_put (h : s.table? n = some t) (hu : u.definition.fullName = n) (m : TableName)
    (id : Nat) : (s.put n u).row? m id = if m = n then u.row? id else s.row? m id := by
  by_cases hm : m = n
  · rw [if_pos hm, hm, row?_of_table? (table?_put h hu)]
  · rw [if_neg hm]
    unfold row?
    rw [table?_put_of_ne hu hm]

theorem nextId_put (h : s.table? n = some t) (hu : u.definition.fullName = n) (m : TableName) :
    (s.put n u).nextId m = if m = n then u.nextId else s.nextId m := by
  by_cases hm : m = n
  · rw [if_pos hm, hm, nextId_of_table? (table?_put h hu)]
  · rw [if_neg hm]
    unfold nextId
    rw [table?_put_of_ne hu hm]

/-- The next number of a table is free. -/
theorem Below.row?_of_nextId_le (h : s.Below) {id : Nat} (hid : s.nextId n ≤ id) :
    s.row? n id = none := by
  cases ht : s.table? n with
  | none =>
    unfold row?
    rw [ht, Option.bind_none]
  | some t =>
    rw [nextId_of_table? ht] at hid
    rw [row?_of_table? ht]
    cases hrow : t.row? id with
    | none => rfl
    | some r =>
      obtain ⟨hmem, rfl⟩ := Table.mem_of_rowIn hrow
      have hlt := h t (mem_of_table? ht).1 r hmem
      omega

/-- A change that leaves the names of tables replaces the table of its name and no other. -/
theorem table?_modify {f : Table → Table} (hf : ∀ t, (f t).definition = t.definition)
    (m : TableName) :
    (s.modify n f).table? m = (s.table? m).map fun t => if m = n then f t else t := by
  let change : Table → Table := fun t => if t.definition.fullName == n then f t else t
  -- the search stops at the same place as before
  have hsame : (fun v : Table => v.definition.fullName == m) ∘ change =
      fun v => v.definition.fullName == m := by
    funext v
    show ((if v.definition.fullName == n then f v else v).definition.fullName == m) = _
    split
    · rw [hf]
    · rfl
  show (s.tables.map change).find? _ = _
  rw [List.find?_map, hsame]
  show (s.table? m).map _ = _
  refine Option.map_congr fun v hv => ?_
  show (if v.definition.fullName == n then f v else v) = _
  simp only [(mem_of_table? hv).2, beq_iff_eq]

end Store

/-! ## Entries of a log -/

namespace Undo

/-- The row that an entry is about: its table and its number. -/
def about : Undo → Option (TableName × Nat)
  | remove n id => some (n, id)
  | put n old => some (n, old.id)
  | keys _ _ => none

/-- What an entry puts in the place of its row. -/
def stored : Undo → Option Row
  | remove _ _ => none
  | put _ old => some old
  | keys _ _ => none

/-- What is stored under a number once an entry is taken back, by what is stored there now. -/
def revertRow (n : TableName) (id : Nat) (now : Option Row) (u : Undo) : Option Row :=
  if u.about = some (n, id) then u.stored else now

theorem revert_definition (u : Undo) (t : Table) : (u.revert t).definition = t.definition := by
  cases u <;> rfl

theorem revertRow_of_table_ne {u : Undo} {n : TableName} (h : u.tableName ≠ n) (id : Nat)
    (now : Option Row) : revertRow n id now u = now := by
  refine if_neg fun hrow => h ?_
  cases u with
  | remove m k => exact congrArg Prod.fst (Option.some.inj hrow)
  | put m old => exact congrArg Prod.fst (Option.some.inj hrow)
  | keys m last => cases hrow

theorem row?_revert (u : Undo) (t : Table) (id : Nat) :
    (u.revert t).row? id = revertRow u.tableName id (t.row? id) u := by
  cases u with
  | remove n k =>
    show Table.rowIn (t.rows.filter fun r => r.id != k) id = _
    rw [Table.rowIn_filter]
    simp [revertRow, about, stored, tableName, Table.row?, Table.rowIn, eq_comm]
  | put n old =>
    show Table.rowIn (Table.putInto old t.rows) id = _
    rw [Table.rowIn_putInto]
    simp [revertRow, about, stored, tableName, Table.row?, Table.rowIn, eq_comm]
  | keys n last => rfl

/-- Taking back an entry changes its row, and no other row of any table. -/
theorem row?_apply {u : Undo} {s s' : Store} (h : u.apply s = .ok s') (n : TableName) (id : Nat) :
    s'.row? n id = revertRow n id (s.row? n id) u := by
  rw [apply_eq] at h
  have hfound : (s.table? u.tableName).isSome := by
    cases hn : s.table? u.tableName with
    | some t => rfl
    | none =>
      unfold Store.change Store.table at h
      rw [hn] at h
      cases h
  obtain ⟨t, ht⟩ := Option.isSome_iff_exists.mp hfound
  rw [Store.change_eq_ok h]
  unfold Store.row?
  rw [Store.table?_modify u.revert_definition]
  by_cases hn : n = u.tableName
  · subst hn
    rw [ht]
    simp only [Option.map_some, if_true, Option.bind_some, row?_revert]
  · simp only [if_neg hn, Option.map_id', revertRow_of_table_ne (Ne.symm hn)]

/-- A log whose tables are all there is taken back to its end, and does to each row what its entries
about that row say, the newest first. -/
theorem row?_applyAll {us : List Undo} {s : Store} (h : ∀ u ∈ us, u.tableName ∈ s.names) :
    (applyAll s us).1 = none ∧
      ∀ n id, (applyAll s us).2.row? n id = us.foldl (revertRow n id) (s.row? n id) := by
  induction us generalizing s with
  | nil => exact ⟨rfl, fun _ _ => rfl⟩
  | cons u us ih =>
    obtain ⟨hu, hus⟩ := List.forall_mem_cons.mp h
    obtain ⟨t, ht⟩ := Option.isSome_iff_exists.mp (Store.table?_isSome.mpr hu)
    have happly : u.apply s = .ok (s.modify u.tableName u.revert) := by
      rw [apply_eq]
      exact Store.change_of_table? ht
    have hnames : (s.modify u.tableName u.revert).names = s.names :=
      Store.names_modify fun t _ hname => by rw [revert_definition, hname]
    obtain ⟨hend, hrows⟩ := ih (s := s.modify u.tableName u.revert) fun v hv => by
      rw [hnames]
      exact hus v hv
    unfold applyAll
    rw [happly]
    refine ⟨hend, fun n id => ?_⟩
    rw [hrows, List.foldl_cons, row?_apply happly]

/-- Entries about other rows leave a row alone. -/
theorem foldl_revertRow_of_not_about {us : List Undo} {n : TableName} {id : Nat}
    (h : us.filter (fun u => u.about = some (n, id)) = []) (now : Option Row) :
    us.foldl (revertRow n id) now = now := by
  induction us with
  | nil => rfl
  | cons u us ih =>
    rw [List.filter_eq_nil_iff] at h
    obtain ⟨hu, hus⟩ := List.forall_mem_cons.mp h
    have hnot : u.about ≠ some (n, id) := by simpa using hu
    rw [List.foldl_cons]
    unfold revertRow
    rw [if_neg hnot]
    exact ih (List.filter_eq_nil_iff.mpr hus)

end Undo

/-! ## Changes, row by row -/

namespace Table.Change

variable {n : TableName} {t u : Table} {entry : Option Undo}

/-- A change with its entry taken back leaves every row as it was. -/
theorem revertRow_eq (h : Change n t u entry) (hfree : t.row? t.nextId = none) (id : Nat) :
    entry.toList.foldl (Undo.revertRow n id) (u.row? id) = t.row? id := by
  have hentry : ∀ x : Undo, x.tableName = n →
      Undo.revertRow n id (u.row? id) x = (x.revert u).row? id := by
    rintro x rfl
    exact (Undo.row?_revert x u id).symm
  cases h with
  | number => rfl
  | @insert _ values haccept hunique =>
    refine (hentry (.remove n t.nextId) rfl).trans ?_
    show ((t.allocate.2.put ⟨t.nextId, values⟩).remove t.nextId).row? id = _
    -- taking the row back leaves nothing at its number, and nothing stood there before
    by_cases hid : id = t.nextId
    · rw [hid, row?_remove_self, hfree]
    · rw [row?_remove_of_ne hid, row?_put_of_ne hid]
      rfl
  | @update old _ values hold haccept hunique =>
    refine (hentry (.put n old) rfl).trans ?_
    show ((t.put (old.withValues values)).put old).row? id = _
    by_cases hid : id = old.id
    · rw [hid, row?_put_self, hold]
    · have hnew : id ≠ (old.withValues values).id := hid
      rw [row?_put_of_ne hid, row?_put_of_ne hnew]
  | @delete old hold =>
    refine (hentry (.put n old) rfl).trans ?_
    show ((t.remove old.id).put old).row? id = _
    by_cases hid : id = old.id
    · rw [hid, row?_put_self, hold]
    · rw [row?_put_of_ne hid, row?_remove_of_ne hid]
  | keys last => rfl

theorem below (h : Change n t u entry) (ht : ∀ r ∈ t.rows, r.id < t.nextId) :
    ∀ r ∈ u.rows, r.id < u.nextId := by
  cases h with
  | number => exact fun r hr => Nat.lt_succ_of_lt (ht r hr)
  | insert haccept hunique =>
    intro r hr
    rcases mem_of_mem_putInto hr with rfl | hold
    · exact Nat.lt_succ_self _
    · exact Nat.lt_succ_of_lt (ht r hold)
  | @update old _ _ hold haccept hunique =>
    intro r hr
    rcases mem_of_mem_putInto hr with rfl | hmem
    · exact ht old (mem_of_rowIn hold).1
    · exact ht r hmem
  | delete hold => exact fun r hr => ht r (List.mem_filter.mp hr).1
  | keys last => exact ht

theorem nextId_le (h : Change n t u entry) : t.nextId ≤ u.nextId := by
  cases h with
  | number => exact Nat.le_succ _
  | insert haccept hunique => exact Nat.le_succ _
  | _ => exact Nat.le_refl _

/-- A row that changed has an entry in the log. -/
theorem about_of_row?_ne (h : Change n t u entry) {id : Nat} (hne : u.row? id ≠ t.row? id) :
    ∃ x ∈ entry, x.about = some (n, id) := by
  cases h with
  | number => exact absurd rfl hne
  | @insert _ values haccept hunique =>
    have hid : id = t.nextId := by
      by_contra hother
      exact hne (row?_put_of_ne hother)
    exact ⟨_, rfl, by rw [hid]; rfl⟩
  | @update old _ values hold haccept hunique =>
    have hid : id = old.id := by
      by_contra hother
      have hkept : (t.put (old.withValues values)).row? id = t.row? id := row?_put_of_ne hother
      exact hne hkept
    exact ⟨_, rfl, by rw [hid]; rfl⟩
  | @delete old hold =>
    have hid : id = old.id := by
      by_contra hother
      exact hne (row?_remove_of_ne hother)
    exact ⟨_, rfl, by rw [hid]; rfl⟩
  | keys last => exact absurd rfl hne

/-- A number that was given out and stands for nothing is not used again. -/
theorem row?_of_lt_nextId (h : Change n t u entry) {id : Nat} (hlt : id < t.nextId)
    (hnone : t.row? id = none) : u.row? id = none := by
  cases h with
  | number => exact hnone
  | insert haccept hunique => exact (row?_put_of_ne (Nat.ne_of_lt hlt)).trans hnone
  | @update old _ values hold haccept hunique =>
    have hid : id ≠ (old.withValues values).id := by
      rintro rfl
      exact nomatch hnone.symm.trans hold
    exact (row?_put_of_ne hid).trans hnone
  | @delete old hold =>
    by_cases hid : id = old.id
    · rw [hid, row?_remove_self]
    · rw [row?_remove_of_ne hid, hnone]
  | keys last => exact hnone

end Table.Change

/-- Numbers only go on from the first store to the second: what was given out is not given out again. -/
structure Store.Onward (s s' : Store) : Prop where
  names_eq : s'.names = s.names
  below : s.Below → s'.Below
  nextId_le : ∀ n, s.nextId n ≤ s'.nextId n
  row?_none : ∀ n id, id < s.nextId n → s.row? n id = none → s'.row? n id = none

namespace Store.Onward

variable {s s' s'' : Store}

theorem refl (s : Store) : s.Onward s := ⟨rfl, id, fun _ => Nat.le_refl _, fun _ _ _ h => h⟩

theorem trans (h : s.Onward s') (k : s'.Onward s'') : s.Onward s'' where
  names_eq := k.names_eq.trans h.names_eq
  below hs := k.below (h.below hs)
  nextId_le n := Nat.le_trans (h.nextId_le n) (k.nextId_le n)
  row?_none n id hlt hnone :=
    k.row?_none n id (Nat.lt_of_lt_of_le hlt (h.nextId_le n)) (h.row?_none n id hlt hnone)

/-- Replacing a table goes on if the table does. -/
theorem put {n : TableName} {t u : Table} (htable : s.table? n = some t)
    (hname : u.definition.fullName = n)
    (hbelow : (∀ r ∈ t.rows, r.id < t.nextId) → ∀ r ∈ u.rows, r.id < u.nextId)
    (hnext : t.nextId ≤ u.nextId)
    (hnone : ∀ id, id < t.nextId → t.row? id = none → u.row? id = none) :
    s.Onward (s.put n u) where
  names_eq := names_put hname
  below hs := forall_put hs (hbelow (hs t (mem_of_table? htable).1))
  nextId_le m := by
    rw [nextId_put htable hname]
    split
    · next hm =>
      rw [hm, nextId_of_table? htable]
      exact hnext
    · exact Nat.le_refl _
  row?_none m id hlt hrow := by
    rw [row?_put htable hname]
    split
    · next hm =>
      rw [hm, nextId_of_table? htable] at hlt
      rw [hm, row?_of_table? htable] at hrow
      exact hnone id hlt hrow
    · exact hrow

/-- A row that came up stands under a number that was still to be given out. -/
theorem nextId_le_of_new (h : s.Onward s') {n : TableName} {id : Nat} (hnone : s.row? n id = none)
    (hsome : s'.row? n id ≠ none) : s.nextId n ≤ id :=
  Nat.le_of_not_lt fun hlt => hsome (h.row?_none n id hlt hnone)

end Store.Onward

namespace Core

/-- What the log leads a row back to. -/
def revertedRow (c : Core) (n : TableName) (id : Nat) : Option Row :=
  c.transaction.undo.foldl (Undo.revertRow n id) (c.store.row? n id)

/-- The tables of the log are in the store. -/
def Logged (c : Core) : Prop := ∀ u ∈ c.transaction.undo, u.tableName ∈ c.store.names

end Core

namespace Write

variable {c d : Core}

theorem onward (h : Write c d) : c.store.Onward d.store := by
  cases h with
  | capture hexplicit hnone => exact .refl _
  | @change n t u entry hready htable hchange =>
    exact .put htable (hchange.fullName_eq htable) hchange.below hchange.nextId_le
      fun id => hchange.row?_of_lt_nextId

theorem logged (h : Write c d) (hc : c.Logged) : d.Logged := by
  cases h with
  | capture hexplicit hnone => exact hc
  | @change n t u entry hready htable hchange =>
    have hnames : (c.store.put n u).names = c.store.names :=
      Store.names_put (hchange.fullName_eq htable)
    intro x hx
    show x.tableName ∈ (c.store.put n u).names
    rw [hnames]
    rcases List.mem_append.mp hx with hnew | hold
    · rw [hchange.tableName_eq x (Option.mem_toList.mp hnew)]
      exact Store.table?_isSome.mp (Option.isSome_iff_exists.mpr ⟨t, htable⟩)
    · exact hc x hold

/-- The log leads each row back to the same as before. -/
theorem revertedRow_eq (h : Write c d) (hbelow : c.store.Below) (n : TableName) (id : Nat) :
    d.revertedRow n id = c.revertedRow n id := by
  cases h with
  | capture hexplicit hnone => rfl
  | @change m t u entry hready htable hchange =>
    have hfirst : entry.toList.foldl (Undo.revertRow n id) ((c.store.put m u).row? n id) =
        c.store.row? n id := by
      rw [Store.row?_put htable (hchange.fullName_eq htable)]
      split
      · next hn =>
        have hfree : t.row? t.nextId = none := by
          rw [← Store.row?_of_table? htable]
          exact hbelow.row?_of_nextId_le (Nat.le_of_eq (Store.nextId_of_table? htable))
        rw [hn, hchange.revertRow_eq hfree, Store.row?_of_table? htable]
      · next hn =>
        -- the entry is about a row of the table that was changed
        cases entry with
        | none => rfl
        | some x =>
          have hx : x.tableName ≠ n := by
            rw [hchange.tableName_eq x rfl]
            exact Ne.symm hn
          exact Undo.revertRow_of_table_ne hx id _
    show (entry.toList ++ c.transaction.undo).foldl (Undo.revertRow n id)
      ((c.store.put m u).row? n id) = _
    rw [List.foldl_append, hfirst]
    rfl

end Write

/-! ## Work on rows -/

/-- A step of a statement on rows: a sequence gives out a value, or rows are changed. -/
def RowStep (c d : Core) : Prop := Draw c d ∨ Write c d

theorem Table.Drawn.row?_eq {t u : Table} (h : t.Drawn u) (id : Nat) : u.row? id = t.row? id :=
  congrArg (fun rows => Table.rowIn rows id) h.rows_eq

namespace Draw

variable {c d : Core}

theorem onward (h : Draw c d) : c.store.Onward d.store := by
  cases h with
  | @sequence n t u column value htable hnext =>
    have hdrawn := Table.Drawn.nextSequence hnext
    obtain ⟨hmem, rfl⟩ := Store.mem_of_table? htable
    have hname := congrArg TableDefinition.fullName hdrawn.definition_eq
    refine .put htable hname (fun hbelow => ?_) (Nat.le_of_eq hdrawn.nextId_eq.symm)
      fun id _ hnone => (hdrawn.row?_eq id).trans hnone
    rw [hdrawn.rows_eq, hdrawn.nextId_eq]
    exact hbelow

theorem row?_eq (h : Draw c d) (n : TableName) (id : Nat) :
    d.store.row? n id = c.store.row? n id := by
  cases h with
  | @sequence m t u column value htable hnext =>
    have hdrawn := Table.Drawn.nextSequence hnext
    obtain ⟨-, rfl⟩ := Store.mem_of_table? htable
    have hname := congrArg TableDefinition.fullName hdrawn.definition_eq
    show (c.store.put _ u).row? n id = _
    rw [Store.row?_put htable hname, hdrawn.row?_eq]
    split
    · next hn => rw [hn, Store.row?_of_table? htable]
    · rfl

end Draw

namespace RowStep

variable {c d : Core}

theorem onward (h : RowStep c d) : c.store.Onward d.store := h.elim Draw.onward Write.onward

theorem logged (h : RowStep c d) (hc : c.Logged) : d.Logged := by
  rcases h with hdraw | hwrite
  · intro u hu
    rw [hdraw.transaction_eq] at hu
    rw [hdraw.onward.names_eq]
    exact hc u hu
  · exact hwrite.logged hc

theorem revertedRow_eq (h : RowStep c d) (hbelow : c.store.Below) (n : TableName) (id : Nat) :
    d.revertedRow n id = c.revertedRow n id := by
  rcases h with hdraw | hwrite
  · unfold Core.revertedRow
    rw [hdraw.transaction_eq, hdraw.row?_eq]
  · exact hwrite.revertedRow_eq hbelow n id

/-- The log is added to, and each row that changed has an entry in it. -/
theorem undo_eq (h : RowStep c d) : ∃ entries, d.transaction.undo = entries ++ c.transaction.undo ∧
    ∀ n id, d.store.row? n id ≠ c.store.row? n id → ∃ x ∈ entries, x.about = some (n, id) := by
  rcases h with hdraw | hwrite
  · refine ⟨[], by rw [hdraw.transaction_eq, List.nil_append], fun n id hne => ?_⟩
    exact absurd (hdraw.row?_eq n id) hne
  · cases hwrite with
    | capture hexplicit hnone => exact ⟨[], rfl, fun n id hne => absurd rfl hne⟩
    | @change m t u entry hready htable hchange =>
      refine ⟨entry.toList, rfl, fun n id hne => ?_⟩
      have hput := Store.row?_put htable (hchange.fullName_eq htable) n id
      have hrow : (c.store.put m u).row? n id ≠ c.store.row? n id := hne
      rw [hput] at hrow
      split at hrow
      · next hn =>
        rw [hn, Store.row?_of_table? htable] at hrow
        obtain ⟨x, hx, habout⟩ := hchange.about_of_row?_ne hrow
        exact ⟨x, Option.mem_toList.mpr hx, by rw [habout, hn]⟩
      · exact absurd rfl hrow

theorem run_onward (h : ReflTransGen RowStep c d) : c.store.Onward d.store := by
  induction h with
  | refl => exact .refl _
  | tail _ hstep ih => exact ih.trans hstep.onward

theorem run_logged (h : ReflTransGen RowStep c d) (hc : c.Logged) : d.Logged := by
  induction h with
  | refl => exact hc
  | tail _ hstep ih => exact hstep.logged ih

theorem run_revertedRow_eq (h : ReflTransGen RowStep c d) (hbelow : c.store.Below) (n : TableName)
    (id : Nat) : d.revertedRow n id = c.revertedRow n id := by
  induction h with
  | refl => rfl
  | tail hrun hstep ih => rw [hstep.revertedRow_eq ((run_onward hrun).below hbelow), ih]

theorem run_undo_eq (h : ReflTransGen RowStep c d) :
    ∃ entries, d.transaction.undo = entries ++ c.transaction.undo ∧
      ∀ n id, d.store.row? n id ≠ c.store.row? n id → ∃ x ∈ entries, x.about = some (n, id) := by
  induction h with
  | refl => exact ⟨[], rfl, fun n id hne => absurd rfl hne⟩
  | @tail d e _ hstep ih =>
    obtain ⟨entries, hundo, hrows⟩ := ih
    obtain ⟨more, hmore, hchanged⟩ := hstep.undo_eq
    refine ⟨more ++ entries, by rw [hmore, hundo, List.append_assoc], fun n id hne => ?_⟩
    by_cases hlast : e.store.row? n id = d.store.row? n id
    · rw [hlast] at hne
      obtain ⟨x, hx, habout⟩ := hrows n id hne
      exact ⟨x, List.mem_append_right _ hx, habout⟩
    · obtain ⟨x, hx, habout⟩ := hchanged n id hlast
      exact ⟨x, List.mem_append_left _ hx, habout⟩

end RowStep

end SqlStore
