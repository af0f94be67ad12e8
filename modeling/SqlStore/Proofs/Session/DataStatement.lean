import SqlStore.Proofs.Query.Supplied
import SqlStore.Proofs.Transaction.Action

/-!
# What the statements do

Queries only read. A statement on rows draws all its sequence values before it changes the first
row. A statement on schemas and tables changes nothing if it fails, except that `DROP TABLE` may have
dropped some of its tables by then.
-/

open Relation

namespace SqlStore

open Run

/-- A statement on rows: a query, an insertion, an update or a deletion. -/
def Statement.OnRows : Statement → Prop
  | .insert .. | .select .. | .update .. | .delete .. => True
  | _ => False

/-- A statement on schemas and tables that changes nothing if it fails. -/
def Statement.AllOrNothing : Statement → Prop
  | .dropTable .. => False
  | _ => True

namespace Action

section

variable {R : Core → Core → Prop} {α β : Type} {act : Action α} {next : α → Action β}

/-- A call that only reads, before one that takes steps. -/
theorem moves_bind_read [Std.Refl R] (h : Moves (Leads Eq) act)
    (hnext : ∀ a, Moves (Leads R) (next a)) : Moves (Leads R) (act >>= next) := by
  refine Moves.bind_of ?_ ?_ h hnext
  · exact Leads.mono fun c c' hc => hc ▸ refl_of R c
  · intro u v w huv hvw hq
    obtain ⟨hv, hcore⟩ := huv hq
    rw [hcore]
    exact hvw hv

/-- A call that draws, before one that draws and writes. -/
theorem moves_bind_draw (h : Moves (Leads (ReflTransGen Draw)) act)
    (hnext : ∀ a, Moves (Leads Works) (next a)) : Moves (Leads Works) (act >>= next) := by
  refine Moves.bind_of ?_ ?_ h hnext
  · exact Leads.mono fun c c' hc => ⟨c', hc, .refl⟩
  · intro u v w huv hvw hq
    obtain ⟨hv, hdraw⟩ := huv hq
    obtain ⟨hw, d, hmore, hwrite⟩ := hvw hv
    exact ⟨hw, d, hdraw.trans hmore, hwrite⟩

theorem moves_works_of_write (h : Moves (Leads (ReflTransGen Write)) act) :
    Moves (Leads Works) act :=
  h.mono (Leads.mono fun c _ hc => ⟨c, .refl, hc⟩)

end

instance : Std.Refl Works := ⟨fun c => ⟨c, .refl, .refl⟩⟩

/-! ## Reading -/

theorem moves_defaultSchema : Moves (Leads Eq) defaultSchema :=
  moves_get.bind fun _ => moves_pure _

theorem moves_fullName (n : ObjectName) : Moves (Leads Eq) (fullName n) :=
  moves_defaultSchema.bind fun _ => moves_pure _

theorem moves_catalog : Moves (Leads Eq) catalog :=
  moves_defaultSchema.bind fun _ => moves_store.bind fun _ => moves_pure _

theorem moves_definition (n : ObjectName) : Moves (Leads Eq) (definition n) :=
  moves_catalog.bind fun _ => moves_ofExcept _

theorem moves_callFunction (name : String) (args : Tuple) :
    Moves (Leads Eq) (callFunction name args) := by
  refine moves_onDatabase fun db => ?_
  rw [exec_bind_ok (exec_get db), exec_bind_ok (exec_set db _), exec_ofExcept]
  exact ⟨rfl, fun _ hr => hr⟩

variable (hook : Hook)

theorem moves_evaluate (scope : Scope) (e : Expression) :
    Moves (Leads Eq) ((services hook).evaluate scope e) :=
  Services.moves_evaluate moves_catalog (fun _ _ => moves_scan hook _) moves_callFunction scope e

theorem moves_select (q : Select) : Moves (Leads Eq) ((services hook).select q) :=
  Services.moves_select moves_catalog (fun _ _ => moves_scan hook _) moves_callFunction q

theorem moves_holds (depth : Nat) (scope : Scope) (clause : String) (e : Expression) :
    Moves (Leads Eq) (e.holds ((services hook).access depth).toSurroundings scope clause) :=
  Services.moves_holds moves_catalog (fun _ _ => moves_scan hook _) moves_callFunction depth scope
    clause e

theorem moves_suppliedRows (named : Bool) (targets : Nat) (source : InsertSource) :
    Moves (Leads Eq) (suppliedRows hook named targets source) := by
  rw [suppliedRows_eq]
  exact Services.moves_supplied moves_catalog (fun _ _ => moves_scan hook _) moves_callFunction named targets
    source

theorem moves_matchingRows (d : TableDefinition) (label : Option String)
    (condition : Option Expression) : Moves (Leads Eq) (matchingRows hook d label condition) := by
  refine (moves_scan hook d.fullName).bind fun rows => ?_
  cases condition with
  | none => exact moves_pure _
  | some e =>
    exact (moves_mapM (fun row => moves_holds hook _ _ "WHERE" e) rows).bind fun _ => moves_pure _

theorem moves_assigned (columns : List ResultColumn) (old : Tuple)
    (assignments : List (Nat × Expression)) :
    Moves (Leads Eq) (assigned hook columns old assignments) :=
  moves_foldlM (fun _ _ => (moves_evaluate hook _ _).bind fun _ => moves_pure _) assignments old

/-! ## Statements on rows -/

theorem moves_defaultValue (n : TableName) (c : Column) :
    Moves (Leads (ReflTransGen Draw)) (defaultValue n c) := by
  unfold defaultValue
  split
  · exact (moves_nextSequence n c.name).bind fun _ => moves_ofExcept _
  · exact moves_pure _

theorem moves_makeRow (d : TableDefinition) (targets : List Nat)
    (supplied : List (Option Value)) :
    Moves (Leads (ReflTransGen Draw)) (makeRow d targets supplied) := by
  refine moves_mapM (fun place => ?_) d.columns.zipIdx
  dsimp only
  split
  · exact moves_pure _
  · exact moves_defaultValue d.fullName place.1

theorem moves_insertStatement (name : ObjectName) (columns : Option (List String))
    (source : InsertSource) :
    Moves (Leads Works) (insertStatement hook name columns source) := by
  refine moves_bind_read (moves_definition name) fun d => ?_
  have hrest (targets : List Nat) : Moves (Leads Works) (do
      let supplied ← suppliedRows hook columns.isSome targets.length source
      let rows ← supplied.mapM (makeRow d targets)
      let inserted ← insert hook d.fullName rows
      return Outcome.inserted inserted.length) := by
    -- all rows are made, and their sequence values drawn, before the first one goes in
    refine moves_bind_read (moves_suppliedRows hook _ _ source) fun supplied => ?_
    refine moves_bind_draw (moves_mapM (moves_makeRow d targets) supplied) fun rows => ?_
    exact moves_works_of_write ((moves_insert hook d.fullName rows).bind fun _ => moves_pure _)
  cases columns with
  | some names => exact moves_bind_read (moves_ofExcept _) hrest
  | none => exact moves_bind_read (moves_pure _) hrest

theorem moves_updateStatement (name : ObjectName) (label : Option String)
    (assignments : List (String × Expression)) (condition : Option Expression) :
    Moves (Leads (ReflTransGen Write)) (updateStatement hook name label assignments condition) := by
  refine moves_bind_read (moves_definition name) fun d => ?_
  refine moves_bind_read (moves_ofExcept _) fun _ => ?_
  refine moves_bind_read (moves_ofExcept _) fun places => ?_
  refine moves_bind_read (moves_matchingRows hook d label condition) fun rows => ?_
  refine (moves_forM fun row _ => ?_).bind fun _ => moves_pure _
  refine moves_bind_read (moves_assigned hook _ row.values places) fun values => ?_
  exact (moves_update hook d.fullName row.id values).bind fun _ => moves_pure _

theorem moves_deleteStatement (name : ObjectName) (label : Option String)
    (condition : Option Expression) :
    Moves (Leads (ReflTransGen Write)) (deleteStatement hook name label condition) := by
  refine moves_bind_read (moves_definition name) fun d => ?_
  refine moves_bind_read (moves_ofExcept _) fun _ => ?_
  refine moves_bind_read (moves_matchingRows hook d label condition) fun rows => ?_
  exact (moves_forM fun row _ => moves_delete hook d.fullName row.id).bind fun _ => moves_pure _

/-- A statement on rows draws and then writes, however it ends. -/
theorem moves_perform_onRows {s : Statement} (hs : s.OnRows) :
    Moves (Leads Works) (perform hook s) := by
  cases s with
  | insert table columns source => exact moves_insertStatement hook table columns source
  | select q => exact moves_bind_read (moves_select hook q) fun _ => moves_pure _
  | update table label assignments condition =>
    exact moves_works_of_write (moves_updateStatement hook table label assignments condition)
  | delete table label condition =>
    exact moves_works_of_write (moves_deleteStatement hook table label condition)
  | _ => exact hs.elim

/-! ## Statements on schemas and tables -/

variable {c : Core}

/-- A step that changes schemas or tables, after which nothing fails. -/
theorem meets_altered {α : Type} {act : Action α} (o : Outcome)
    (h : Meets (At c) act (fun _ => Reaches Alter c) (At c)) :
    Meets (At c) (act >>= fun _ => pure o) (fun _ => Reaches (ReflTransGen Alter) c) (At c) := by
  refine h.bind fun _ => meets_pure ?_
  rintro w ⟨c', hc, hw⟩
  exact ⟨c', .single hc, hw⟩

theorem meets_unaltered (o : Outcome) :
    Meets (At c) (pure o : Action Outcome) (fun _ => Reaches (ReflTransGen Alter) c) (At c) :=
  meets_pure fun _ hw => ⟨c, .refl, hw⟩

theorem meets_throw {α : Type} (e : Error) {Q : α → Work → Prop} :
    Meets (At c) (throw e : Action α) Q (At c) := fun _ hw => hw

theorem meets_throw_bind {α β : Type} (e : Error) (next : α → Action β) {Q : β → Work → Prop} :
    Meets (At c) (throw e >>= next) Q (At c) := fun _ hw => hw

theorem meets_createSchemaStatement (name : String) (ifNotExists : Bool) :
    Meets (At c) (createSchemaStatement name ifNotExists)
      (fun _ => Reaches (ReflTransGen Alter) c) (At c) := by
  refine (meets_read (moves_hasSchema name) fun _ hw => hw).bind fun present => ?_
  cases present with
  | false => exact meets_altered _ (meets_createSchema name fun _ hw => hw)
  | true =>
    cases ifNotExists with
    | false => exact meets_throw_bind _ _
    | true => exact meets_unaltered _

theorem meets_dropSchemaStatement (name : String) (ifExists : Bool) :
    Meets (At c) (dropSchemaStatement name ifExists)
      (fun _ => Reaches (ReflTransGen Alter) c) (At c) := by
  refine (meets_read (moves_hasSchema name) fun _ hw => hw).bind fun present => ?_
  cases present with
  | true => exact meets_altered _ (meets_dropSchema name fun _ hw => hw)
  | false =>
    cases ifExists with
    | false => exact meets_throw_bind _ _
    | true => exact meets_unaltered _

theorem moves_columnOf (c : ColumnSpec) : Moves (Leads Eq) (columnOf hook c) := by
  unfold columnOf
  cases c.default with
  | none => exact moves_pure _
  | some e =>
    refine (moves_ofExcept _).bind fun _ => (moves_evaluate hook [] e).bind fun v => ?_
    exact moves_ite (moves_pure _) ((moves_ofExcept _).bind fun _ => moves_pure _)

theorem meets_createTableStatement (name : ObjectName) (columns : List ColumnSpec)
    (ifNotExists : Bool) :
    Meets (At c) (createTableStatement hook name columns ifNotExists)
      (fun _ => Reaches (ReflTransGen Alter) c) (At c) := by
  have hstay : ∀ w, At c w → At c w := fun _ hw => hw
  refine (meets_read (moves_fullName name) hstay).bind fun n => ?_
  refine (meets_read (moves_hasSchema n.schema) hstay).bind fun present => ?_
  cases present with
  | false => exact meets_throw_bind _ _
  | true =>
    refine (meets_read (moves_mapM (moves_columnOf hook) columns) hstay).bind fun cs => ?_
    refine (meets_read (moves_ofExcept _) hstay).bind fun _ => ?_
    refine (meets_read (moves_definition? n) hstay).bind fun d => ?_
    dsimp only
    split
    · exact meets_altered _ (meets_createTable _ hstay)
    · exact meets_unaltered _

theorem moves_presentTables (ifExists : Bool) (names : List TableName) :
    Moves (Leads Eq) (presentTables ifExists names) := by
  induction names with
  | nil => exact moves_pure _
  | cons n ns ih =>
    refine (moves_definition? n).bind fun d => ?_
    have hrest : Moves (Leads Eq) (do
        let rest ← presentTables ifExists ns
        return if d.isSome then n :: rest else rest) := ih.bind fun _ => moves_pure _
    dsimp only
    split
    · exact (moves_throw _).bind fun _ => hrest
    · exact hrest

theorem moves_dropTableStatement (names : List ObjectName) (ifExists : Bool) :
    Moves (Leads (ReflTransGen Alter)) (dropTableStatement names ifExists) := by
  refine moves_bind_read (moves_mapM moves_fullName names) fun ns => ?_
  refine moves_bind_read (moves_presentTables ifExists ns) fun present => ?_
  exact (moves_forM fun n _ => moves_dropTable n).bind fun _ => moves_pure _

/-- A statement that is not on rows alters schemas and tables, and if it fails it altered none. -/
theorem meets_perform_allOrNothing {s : Statement} (hs : ¬ s.OnRows) (hall : s.AllOrNothing) :
    Meets (At c) (perform hook s) (fun _ => Reaches (ReflTransGen Alter) c) (At c) := by
  cases s with
  | createSchema name ifNotExists => exact meets_createSchemaStatement name ifNotExists
  | dropSchema name ifExists => exact meets_dropSchemaStatement name ifExists
  | createTable name columns ifNotExists =>
    exact meets_createTableStatement hook name columns ifNotExists
  -- statements about transactions are refused here
  | begin_ isolation => exact meets_throw _
  | commit => exact meets_throw _
  | rollback => exact meets_throw _
  | dropTable names ifExists => exact hall.elim
  | _ => exact absurd trivial hs

theorem moves_perform (s : Statement) : Moves (Leads Does) (perform hook s) := by
  by_cases hs : s.OnRows
  · exact (moves_perform_onRows hook hs).mono (Leads.mono fun _ _ => Or.inl)
  · by_cases hall : s.AllOrNothing
    · refine moves_leads fun c => ?_
      refine (meets_perform_allOrNothing hook hs hall).weaken (fun _ hw => hw) ?_ ?_
      · rintro _ w ⟨c', hc, hw⟩
        exact ⟨c', Or.inr hc, hw⟩
      · exact fun w hw => ⟨c, Or.inr .refl, hw⟩
    · cases s with
      | dropTable names ifExists =>
        exact (moves_dropTableStatement names ifExists).mono (Leads.mono fun _ _ => Or.inr)
      | _ => exact absurd trivial hall

/-- A statement other than `DROP TABLE` that fails worked on rows at most. -/
theorem meets_perform_error {s : Statement} (hall : s.AllOrNothing) :
    Meets (At c) (perform hook s) (fun _ _ => True) (Reaches Works c) := by
  by_cases hs : s.OnRows
  · exact (meets_reaches (moves_perform_onRows hook hs) c).weaken (fun _ hw => hw)
      (fun _ _ _ => trivial) (fun _ hw => hw)
  · exact (meets_perform_allOrNothing hook hs hall).weaken (fun _ hw => hw)
      (fun _ _ _ => trivial) (fun w hw => ⟨c, refl_of Works c, hw⟩)

end Action

end SqlStore
