import SqlStore.Proofs.Session.Sample
import SqlStore.Proofs.Session.Updating

/-!
# What an update computes with

The rows that an update changes are those on which its condition is true in the store before. Their new
values are evaluated row by row while the update goes on, so a query about the table itself in an assignment
sees the rows that were changed already. Assignments that do not ask about the table all compute with the
store before, and then it does not matter in which order the rows are taken.
-/

namespace SqlStore

open Run

namespace Engine

variable {e : Engine}

/-- An update that succeeds rewrites the rows that pass its condition in the store before, and nothing
else; the values of each row are given with the rows before it rewritten. If no query of the assignments
names the table, they are given by the store before, and if no function is called either, any order of
the rows leads to the same table. -/
theorem update_rewrites_passing_rows (he : e.Reachable) (i : Nat) {name : ObjectName}
    {label : Option String} {assignments : List (String × Expression)}
    {condition : Option Expression} {o : Outcome}
    (hok : e.answer i (.update name label assignments condition) = .ok o) :
    ∃ t places rows values,
      e.database.Updates name label assignments condition t places rows values ∧
      o = .updated rows.length ∧
      (e.execute i (.update name label assignments condition)).store =
        e.store.put t.definition.fullName (t.rewritten (rows.map Row.id) values) ∧
      ((∀ a ∈ assignments, ∀ m ∈ a.2.tables,
          m.inSchema e.database.config.defaultSchema ≠ t.definition.fullName) →
        (∀ row ∈ rows, e.database.Gives t label places row (values row.id)) ∧
        ((∀ a ∈ assignments, a.2.calls = []) → ∀ order others, order.Perm rows →
          e.database.Sequential t label places order others →
          t.rewritten (order.map Row.id) others = t.rewritten (rows.map Row.id) values)) := by
  have hc := he.inv i
  have hrun : exec (Connection.executeStatement (e.connection i).database.hook
      (.update name label assignments condition)) (e.connection i) = (.ok o, _) :=
    Prod.ext ((congrArg Prod.fst (exec_executeStatement _ _)).symm.trans hok) rfl
  obtain ⟨w, w', hdatabase, hactive, hperform, hdone⟩ :=
    Connection.exists_performed id hc.quiet (fun t ht => (hc.active t ht).1) hrun
  have hw : w.Reads e.database e.database.drawn :=
    ⟨by rw [hdatabase]; rfl, hc.quiet, hactive⟩
  obtain ⟨t, places, rows, values, drawn', hupdates, ho, hreads⟩ :=
    Action.exists_of_updateStatement hw hc.distinct hc.tables hperform
  have ht : e.store.table? t.definition.fullName = some t := by
    rw [(Store.mem_of_table? hupdates.table).2]
    exact hupdates.table
  refine ⟨t, places, rows, values, hupdates, ho, ?_, fun havoid => ?_⟩
  · have hstore : (exec (Connection.executeStatement (e.connection i).database.hook
        (.update name label assignments condition)) (e.connection i)).2.database.store = _ :=
      (congrArg Database.store hdone).trans hreads.store_eq
    show (exec (Session.executeStatement _) (e.connection i)).2.database.store = _
    rw [exec_executeStatement, hstore]
    rfl
  · -- the places have the expressions of the assignments
    have hplaces := Action.mem_assignments hupdates.checked
    have havoid' : ∀ p ∈ places, ∀ m ∈ p.2.tables,
        m.inSchema e.database.config.defaultSchema ≠ t.definition.fullName := by
      intro p hp
      obtain ⟨a, ha, heq⟩ := hplaces p hp
      exact heq ▸ havoid a ha
    refine ⟨hupdates.sequential.simultaneous ht havoid', fun hcalls order others hperm horder => ?_⟩
    refine hupdates.sequential.rewritten_eq horder hperm ht havoid' fun p hp => ?_
    obtain ⟨a, ha, heq⟩ := hplaces p hp
    exact heq ▸ hcalls a ha

end Engine

namespace Sample

/-- `UPDATE items SET code = code + 1` -/
def shiftCodes : Statement :=
  .update ⟨none, "items"⟩ none
    [("code", .binary .add (.column none "code") (.literal (.integer 1)))] none

-- both rows pass, and each new code is one above the old code of its row
example : (filled.execute 0 shiftCodes).store.tables.map
    (fun t => t.rows.map fun r => r.values.map Value.toText) = [[["1", "11"], ["2", "21"]]] := by decide +kernel

/-- `SELECT max(id) FROM items` -/
def greatestId : Select :=
  .mk
    { distinct := false
      items := [.expr (.aggregate .max false (some (.column none "id"))) none]
      sources := [.table ⟨none, "items"⟩ none]
      filter := none
      groupBy := []
      having := none
      orderBy := []
      limit := none
      offset := none }

/-- `id = (SELECT max(id) FROM items) + 1` -/
def raising : List (String × Expression) :=
  [("id", .binary .add (.subquery greatestId) (.literal (.integer 1)))]

/-- `UPDATE items SET id = (SELECT max(id) FROM items) + 1` -/
def raiseIds : Statement := .update ⟨none, "items"⟩ none raising none

theorem update_shifts_codes :
    ∃ o t places rows values, filled.answer 0 shiftCodes = .ok o ∧
      (filled.execute 0 shiftCodes).store =
        filled.store.put t.definition.fullName (t.rewritten (rows.map Row.id) values) ∧
      (∀ row ∈ rows, filled.database.Gives t none places row (values row.id)) ∧
      ∀ order others, order.Perm rows → filled.database.Sequential t none places order others →
        t.rewritten (order.map Row.id) others = t.rewritten (rows.map Row.id) values := by
  have hok : (filled.answer 0 shiftCodes).isOk = true := by decide +kernel
  obtain ⟨o, ho⟩ := exists_ok_of_isOk hok
  obtain ⟨t, places, rows, values, -, -, hstore, hsimultaneous⟩ :=
    Engine.update_rewrites_passing_rows filled_reachable 0 ho
  obtain ⟨hgives, horder⟩ := hsimultaneous (by
    intro a ha m hm
    cases List.mem_singleton.mp ha
    cases hm)
  refine ⟨o, t, places, rows, values, ho, hstore, hgives, horder ?_⟩
  intro a ha
  cases List.mem_singleton.mp ha
  rfl

/-- The first values of the items, as text. -/
def firstValues (db : Database) : Except Error (List String) := do
  let t ← db.store.table (ObjectName.inSchema ⟨none, "items"⟩ db.config.defaultSchema)
  return t.rows.map fun r => (r.values.headD .null).toText

/-- What those values were after the update if each row's were computed with the store before. -/
def raisedAtOnce (db : Database) : Except Error (List String) := do
  let t ← db.store.table (ObjectName.inSchema ⟨none, "items"⟩ db.config.defaultSchema)
  let columns := t.definition.resultColumns none
  let places ← Action.assignmentPlaces t.definition [Frame.ofColumns columns] [] raising
  t.rows.mapM fun r => do
    let values ← t.definition.accept (← db.still.assigned columns places r.values)
    return (values.headD .null).toText

/-- The second item gets an identity one above the new one of the first: computing with the store before
is not what an update does in general. -/
theorem update_reads_own_changes :
    ¬ ∀ (e : Engine) (i : Nat) (name : ObjectName) (label : Option String)
      (assignments : List (String × Expression)) (condition : Option Expression) (o : Outcome),
      e.Reachable → e.answer i (.update name label assignments condition) = .ok o →
      ∃ t places rows values,
        e.store.table? (name.inSchema e.database.config.defaultSchema) = some t ∧
        Action.assignmentPlaces t.definition [Frame.ofColumns (t.definition.resultColumns label)] []
          assignments = .ok places ∧
        e.database.Passing t label condition rows ∧
        (∀ row ∈ rows, e.database.Gives t label places row (values row.id)) ∧
        (e.execute i (.update name label assignments condition)).store =
          e.store.put t.definition.fullName (t.rewritten (rows.map Row.id) values) := by
  intro h
  have hok : (filled.answer 0 raiseIds).isOk = true := by decide +kernel
  obtain ⟨o, ho⟩ := exists_ok_of_isOk hok
  obtain ⟨t, places, rows, values, ht, hplaces, ⟨truth, hrows, htruth⟩, hgives, hstore⟩ :=
    h filled 0 _ _ _ _ o filled_reachable ho
  have hall : ∀ r ∈ t.rows, r ∈ rows := by
    intro r hr
    obtain ⟨_, _, hpasses⟩ := htruth r hr
    have htrue : truth r.id = true := (Except.ok.inj (Prod.ext_iff.mp hpasses).1).symm
    rw [hrows]
    exact List.mem_filter.mpr ⟨hr, htrue⟩
  have hcalls : ∀ p ∈ places, p.2.calls = [] := by
    intro p hp
    obtain ⟨a, ha, heq⟩ := Action.mem_assignments hplaces p hp
    cases List.mem_singleton.mp ha
    rw [← heq]
    rfl
  let texts := t.rows.map fun r => ((values r.id).headD .null).toText
  have hbefore : raisedAtOnce filled.database = .ok texts := by
    unfold raisedAtOnce
    rw [Store.table_eq_ok.mpr ht]
    show (Action.assignmentPlaces _ _ _ _ >>= fun places => _) = _
    rw [hplaces]
    refine Except.mapM_eq_ok_map fun r hr => ?_
    obtain ⟨given, hgiven, haccept⟩ := (hgives r (hall r hr)).still hcalls
    rw [hgiven]
    show (t.definition.accept given >>= fun values => _) = _
    rw [haccept]
    rfl
  have hafter : firstValues (filled.execute 0 raiseIds).database = .ok texts := by
    have hschema : (filled.execute 0 raiseIds).database.config.defaultSchema =
        filled.database.config.defaultSchema := by decide +kernel
    have hput : (filled.execute 0 raiseIds).store.table?
        (ObjectName.inSchema ⟨none, "items"⟩ filled.database.config.defaultSchema) =
          some (t.rewritten (rows.map Row.id) values) := by
      have hname := (Store.mem_of_table? ht).2
      rw [show (filled.execute 0 raiseIds).store = _ from hstore, hname]
      exact Store.table?_put ht hname
    have hrewritten : (t.rewritten (rows.map Row.id) values).rows.map
        (fun r => (r.values.headD .null).toText) = texts := by
      show (t.rows.map _).map _ = t.rows.map _
      rw [List.map_map]
      refine List.map_congr_left fun r hr => ?_
      exact congrArg (fun q : Row => (q.values.headD .null).toText)
        (Row.rewritten_of_mem (List.mem_map_of_mem (hall r hr)))
    unfold firstValues
    rw [hschema, Store.table_eq_ok.mpr hput, ← hrewritten]
    rfl
  have hdiffer : raisedAtOnce filled.database ≠ firstValues (filled.execute 0 raiseIds).database := by
    decide +kernel
  exact hdiffer (hbefore.trans hafter.symm)

end Sample

end SqlStore
