import SqlStore.Proofs.Query.SwappedSides
import SqlStore.Proofs.Session.Grouping
import SqlStore.Proofs.Session.ScanCosts

/-!
# Left and right joins mirror each other

On an engine that a new one comes to, a join on a condition succeeds where the mirrored join of its sides does,
and then both have the same rows with the two blocks of columns swapped. The sides are read in another order, and
so are the pairs on which the condition is evaluated; but functions draw nothing, and what the triggers are asked
to tolerate is the same.
-/

namespace SqlStore

open Run

/-- `SELECT * FROM source` -/
def Select.everythingFrom (source : FromItem Select) : Select :=
  .mk
    { distinct := false
      items := [.all]
      sources := [source]
      filter := none
      groupBy := []
      having := none
      orderBy := []
      limit := none
      offset := none }

/-- Plans and runs a source inside an outer scope, where queries in its expressions nest up to a depth. -/
def Services.runSource {m : Type → Type} [Monad m] [MonadExceptOf Error m] (s : Services m) (depth : Nat)
    (outer : Scope) (source : FromItem Select) : m Relation := do
  let plan ← ofExcept (Plan.ofSource (← s.catalog) outer source)
  plan.run (s.access depth) outer

namespace Plan

variable {catalog : Catalog} {outer : Scope} {source : FromItem Select} {p left right : Plan} {q : Select}
  {kind : JoinKind} {predicate : Option Expression} {merged : List (Nat × Nat)}

theorem madeOf_ofSource (h : ofSource catalog outer source = .ok p) :
    p.MadeOf catalog (.everythingFrom source) := by
  refine (planned_madeOf catalog outer (.everythingFrom source)).ofSource source List.mem_cons_self ?_ ?_
    (fun body hbody => ?_) h
  · exact fun name hname => List.mem_flatMap.mpr ⟨source, List.mem_cons_self, hname⟩
  · exact fun condition hcondition => List.mem_flatMap.mpr ⟨source, List.mem_cons_self, hcondition⟩
  · exact List.mem_cons_of_mem _ (List.mem_append_left _ hbody)

theorem MadeOf.left_of_join (h : (Plan.join kind left right predicate merged).MadeOf catalog q) :
    left.MadeOf catalog q where
  expressions e he := h.expressions e (List.mem_append_left _ he)
  scans d hd := h.scans d (List.mem_append_left _ hd)

theorem MadeOf.right_of_join (h : (Plan.join kind left right predicate merged).MadeOf catalog q) :
    right.MadeOf catalog q where
  expressions e he := h.expressions e (List.mem_append_right _ (List.mem_append_left _ he))
  scans d hd := h.scans d (List.mem_append_right _ hd)

end Plan

namespace Database

variable {db : Database} {hook : Hook} {depth : Nat} {outer : Scope} {left right : Plan} {e : Expression}

/-! ## What joins cost -/

/-- A join costs what its sides do, and what its condition does on each pair. -/
theorem costs_join (kind : JoinKind) (cost : Tuple → Tuple → List Nat) {predicate : Option Expression}
    {merged : List (Nat × Nat)} {l r : Relation} {lefts rights : List Nat} {a : Access Action}
    {b : Access (Except Error)}
    (hl : db.Costs lefts (left.run a outer) (.ok l)) (hr : db.Costs rights (right.run a outer) (.ok r))
    (hpairs : ∀ x ∈ l.rows, ∀ y ∈ r.rows,
      db.Costs (cost x y) (keepsPair a outer (l.columns ++ r.columns) predicate merged x y)
        (keepsPair b outer (l.columns ++ r.columns) predicate merged x y)) :
    db.Costs (lefts ++ (rights ++ l.rows.flatMap fun x => r.rows.flatMap (cost x)))
      ((Plan.join kind left right predicate merged).run a outer)
      (joinRelations b outer kind predicate merged l r) := by
  have htable := costs_mapM fun x hx => costs_mapM fun y hy => hpairs x hx y hy
  have hjoin : db.Costs (l.rows.flatMap fun x => r.rows.flatMap (cost x))
      (joinRelations a outer kind predicate merged l r) (joinRelations b outer kind predicate merged l r) := by
    rw [← List.append_nil (l.rows.flatMap _)]
    exact htable.bind fun _ _ => costs_pure db _
  show db.Costs _ (left.run a outer >>= fun l => right.run a outer >>= fun r =>
    joinRelations a outer kind predicate merged l r) _
  exact hl.andThen (hr.andThen hjoin)

/-- What a query is made of is asked at a cost. -/
theorem asks_costing (hsound : db.registry.Sound) (hquiet : db.Quiet) (hook : Hook) {depth : Nat} {q : Select}
    (hcalls : ∀ name ∈ q.functionsUpTo (depth + 1), db.Deterministic name) {e : Expression}
    (he : Plan.WrittenIn q e) :
    e.Asks db.costing ((db.asked hook).access depth).toSurroundings (db.fixed.access depth).toSurroundings := by
  rcases he with ⟨body, hbody, he⟩ | ⟨-, table, name, rfl⟩
  · exact (agree_costing hsound hquiet hook).asks hbody he (fun _ _ => trivial) hcalls
  · exact ⟨nofun, nofun⟩

/-- So running what is planned has a cost. -/
theorem exists_costs_run (hsound : db.registry.Sound) (hquiet : db.Quiet) (hook : Hook) {depth : Nat} {q : Select}
    (hcalls : ∀ name ∈ q.functionsUpTo (depth + 1), db.Deterministic name) {p : Plan}
    (hp : p.MadeOf db.catalog q) (outer : Scope) :
    ∃ serials, db.Costs serials (p.run ((db.asked hook).access depth) outer)
      (p.run (db.fixed.access depth) outer) := by
  refine parallel_run (L := db.costing) (fun _ => trivial) outer p (fun e he => ?_) fun d _ => ?_
  · exact asks_costing hsound hquiet hook hcalls (hp.expressions e he)
  · rw [Services.scan_access, Services.scan_access]
    exact costs_scan hsound hquiet hook ⟨d.schema, d.name⟩

/-! ## The sides of a join -/

/-- What is known of a side of a join: what it costs, and that it is laid out as it was planned. -/
structure Side (db : Database) (hook : Hook) (depth : Nat) (outer : Scope) (p : Plan) : Prop where
  costs : ∃ serials, db.Costs serials (p.run ((db.asked hook).access depth) outer)
    (p.run (db.fixed.access depth) outer)
  fits : ∀ (w : Work) (r : Relation) (w' : Work), w.IsReading db →
    exec (p.run ((db.asked hook).access depth) outer) w = (.ok r, w') → r.Fits p.columns

/-- Where a join succeeds, the mirrored one does. -/
theorem exists_mirrored (hleft : db.Side hook depth outer left) (hright : db.Side hook depth outer right)
    (he : e.Asks db.costing ((db.asked hook).access depth).toSurroundings
      (db.fixed.access depth).toSurroundings) {kind : JoinKind} {w w' : Work} (hw : w.IsReading db)
    {joined : Relation}
    (hrun : exec ((Plan.join kind left right (some e) []).run ((db.asked hook).access depth) outer) w =
      (.ok joined, w')) :
    ∃ mirrored, (exec ((Plan.join kind.mirror right left (some e) []).run ((db.asked hook).access depth) outer)
      w).1 = .ok mirrored ∧ joined.Mirrors left.columns.length mirrored := by
  obtain ⟨lefts, hlefts⟩ := hleft.costs
  obtain ⟨rights, hrights⟩ := hright.costs
  -- both sides were read
  obtain ⟨l, w₁, hl, hrest⟩ := exec_bind_eq_ok hrun
  obtain ⟨r, w₂, hr, -⟩ := exec_bind_eq_ok hrest
  obtain ⟨hlresult, -, hw₁, -⟩ := hlefts.of_exec hw hl
  obtain ⟨hrresult, -, -, -⟩ := hrights.of_exec hw₁ hr
  have hlfits := hleft.fits w l w₁ hw hl
  have hrfits := hright.fits w₁ r w₂ hw₁ hr
  have hwidth : left.columns.length = l.columns.length := (ResultColumn.length_of_keys hlfits.keys).symm
  have hlwidth : ∀ x ∈ l.rows, x.length = l.columns.length := fun x hx => (hlfits.width x hx).trans hwidth
  have hrwidth : ∀ y ∈ r.rows, y.length = r.columns.length := fun y hy =>
    (hrfits.width y hy).trans (ResultColumn.length_of_keys hrfits.keys).symm
  rw [hlresult] at hlefts
  rw [hrresult] at hrights
  -- the condition costs the same on a pair, whichever way around
  have hcondition : ∀ x ∈ (some e).toList, x.AsksUnder db.costing ((db.asked hook).access depth).toSurroundings
      (db.fixed.access depth).toSurroundings outer outer :=
    List.forall_mem_singleton.mpr (he.under (fun _ => trivial) outer)
  have hpair (x y : Tuple) : ∃ serials, db.Costs serials
      (keepsPair ((db.asked hook).access depth) outer (l.columns ++ r.columns) (some e) [] x y)
      (keepsPair (db.fixed.access depth) outer (l.columns ++ r.columns) (some e) [] x y) :=
    parallel_keepsPair (L := db.costing) (fun _ => trivial) _ hcondition [] x y
  choose cost hcost using hpair
  have hswapped : ∀ y ∈ r.rows, ∀ x ∈ l.rows, db.Costs (cost x y)
      (keepsPair ((db.asked hook).access depth) outer (r.columns ++ l.columns) (some e) [] y x)
      (keepsPair (db.fixed.access depth) outer (r.columns ++ l.columns) (some e) [] y x) := by
    intro y hy x hx
    rw [Services.keepsPair_swap _ _ _ _ (hlwidth x hx) (hrwidth y hy),
      Services.keepsPair_swap _ _ _ _ (hlwidth x hx) (hrwidth y hy)]
    exact hcost x y
  have hjoined := costs_join kind cost hlefts hrights fun x _ y _ => hcost x y
  have hmirrored := costs_join kind.mirror (fun y x => cost x y) hrights hlefts hswapped
  obtain ⟨hresult, htolerates, -, -⟩ := hjoined.of_exec hw hrun
  obtain ⟨mirrored, hmresult, hmirrors⟩ := exists_joinRelations_mirror hlwidth (fun x hx y hy =>
    Services.keepsPair_swap db.fixed depth outer e (hlwidth x hx) (hrwidth y hy)) hresult
  have hperm : (lefts ++ (rights ++ l.rows.flatMap fun x => r.rows.flatMap (cost x))).Perm
      (rights ++ (lefts ++ r.rows.flatMap fun y => l.rows.flatMap fun x => cost x y)) := by
    rw [← List.append_assoc, ← List.append_assoc]
    exact List.perm_append_comm.append (flatMap_flatMap_perm l.rows r.rows cost)
  obtain ⟨w'', hmrun⟩ := hmirrored.exec_ok hw hmresult (htolerates.perm hperm)
  rw [hmrun]
  exact ⟨mirrored, rfl, hwidth ▸ hmirrors⟩

end Database

/-! ## Engines -/

theorem Action.exec_runSource {db : Database} {w : Work} (hw : w.IsReading db) (hook : Hook) (depth : Nat)
    (outer : Scope) (source : FromItem Select) :
    (exec ((Action.services hook).runSource depth outer source) w).1 =
      match Plan.ofSource db.catalog outer source with
      | .ok p => (exec (p.run ((db.asked hook).access depth) outer) w).1
      | .error err => .error err := by
  obtain ⟨drawn, hreads⟩ := hw
  have hcatalog : exec (Action.services hook).catalog w = (.ok db.catalog, w) := by
    refine (Action.exec_catalog w).trans ?_
    rw [hreads.database]
    rfl
  unfold Services.runSource
  rw [exec_bind_ok hcatalog, exec_bind, exec_ofExcept]
  cases Plan.ofSource db.catalog outer source with
  | error err => rfl
  | ok p => exact congrArg Prod.fst (Database.exec_run_asked hook depth outer p ⟨drawn, hreads⟩)

namespace Engine

variable {e : Engine} {q : Select} {p : Plan} {depth : Nat}

theorem Reachable.side (he : e.Reachable) (hook : Hook)
    (hcalls : ∀ name ∈ q.functionsUpTo (depth + 1), e.database.Deterministic name)
    (hp : p.MadeOf e.database.catalog q) (outer : Scope) : e.database.Side hook depth outer p where
  costs := Database.exists_costs_run he.sound (he.inv 0).quiet hook hcalls hp outer
  fits := by
    intro w r w' hw hrun
    have hsupported : p.Supported (Work.IsReading e.database) (fun _ => True)
        ((Action.services hook).access depth) outer := he.supported_of_madeOf hook depth hp
    have hends := Plan.ends_run (operations_of_forall fun _ => trivial) ⟨trivial, fun _ => trivial⟩ hsupported
      w hw
    rw [Database.exec_run_asked hook depth outer p hw, hrun] at hends
    exact hends.2

/-- On an engine that a new one comes to, read a join of two sources on a condition inside any outer scope, and
read the join with the sides swapped: a left join becomes a right join and a right one a left one, inner and full
joins stay what they are. If all functions that are called draw nothing, then the one succeeds where the other
does, and the rows of the second are those of the first, with the columns of the first source behind those of the
second. -/
theorem joins_mirror (he : e.Reachable) (hook : Hook) (depth : Nat) (outer : Scope) (kind : JoinKind)
    (a b : FromItem Select) (condition : Expression)
    (hcalls : ∀ name ∈ (Select.everythingFrom (.join kind a b (.on condition))).functionsUpTo (depth + 1),
      e.database.Deterministic name) {w : Work} (hw : w.IsReading e.database) :
    Alike
      (fun r r' => ∃ left, Plan.ofSource e.database.catalog outer a = .ok left ∧
        r.Mirrors left.columns.length r')
      (exec ((Action.services hook).runSource depth outer (.join kind a b (.on condition))) w).1
      (exec ((Action.services hook).runSource depth outer (.join kind.mirror b a (.on condition))) w).1 := by
  rw [Action.exec_runSource hw, Action.exec_runSource hw]
  cases hplan : Plan.ofSource e.database.catalog outer (.join kind a b (.on condition)) with
  | error err =>
    cases hplan' : Plan.ofSource e.database.catalog outer (.join kind.mirror b a (.on condition)) with
    | error err' => exact trivial
    | ok p =>
      -- the mirrored join of the mirrored join is the join itself
      obtain ⟨_, _, _, _, _, hagain⟩ := Plan.ofSource_mirror hplan'
      rw [JoinKind.mirror_mirror, hplan] at hagain
      cases hagain
  | ok p =>
    have hmade := Plan.madeOf_ofSource hplan
    obtain ⟨left, right, hleft, -, rfl, hmirror⟩ := Plan.ofSource_mirror hplan
    rw [hmirror]
    have hside := he.side hook hcalls hmade.left_of_join outer
    have hside' := he.side hook hcalls hmade.right_of_join outer
    have hasks := Database.asks_costing he.sound (he.inv 0).quiet hook hcalls
      (hmade.expressions condition (by simp [Plan.expressions]))
    refine alike_of_forall (fun joined hjoined => ?_) fun mirrored hmirrored => ?_
    · obtain ⟨mirrored, hrun, hmirrors⟩ := Database.exists_mirrored hside hside' hasks hw (Prod.ext hjoined rfl)
      exact ⟨mirrored, hrun, left, hleft, hmirrors⟩
    · obtain ⟨joined, hrun, -⟩ := Database.exists_mirrored hside' hside hasks hw (Prod.ext hmirrored rfl)
      rw [JoinKind.mirror_mirror] at hrun
      exact ⟨joined, hrun⟩

end Engine

namespace Sample

/-- `items AS label` -/
def itemsAs (label : String) : FromItem Select := .table ⟨none, "items"⟩ (some label)

/-- `(SELECT a.id) < b.id` -/
def earlier : Expression := .binary .less (scalar (.column (some "a") "id")) (.column (some "b") "id")

/-- `items AS a LEFT JOIN items AS b ON (SELECT a.id) < b.id`, and `items AS b RIGHT JOIN items AS a` on the same. -/
theorem items_left_join_mirrored :
    ∃ r r' left, (exec ((Action.services fun _ => return ⟨⟩).runSource 1 []
        (.join .left (itemsAs "a") (itemsAs "b") (.on earlier))) reading).1 = .ok r ∧ r.rows.length = 2 ∧
      (exec ((Action.services fun _ => return ⟨⟩).runSource 1 []
        (.join .right (itemsAs "b") (itemsAs "a") (.on earlier))) reading).1 = .ok r' ∧
      Plan.ofSource filled.database.catalog [] (itemsAs "a") = .ok left ∧ r.Mirrors left.columns.length r' := by
  have hreads : reading.IsReading filled.database :=
    ⟨filled.database.drawn, rfl, (filled_reachable.inv 0).quiet, rfl⟩
  have hcalls : (Select.everythingFrom (.join .left (itemsAs "a") (itemsAs "b") (.on earlier))).functionsUpTo 2 =
      [] := by
    decide +kernel
  obtain ⟨r, hr, hrows⟩ := exists_ok_of_any (p := fun r => r.rows.length == 2) (r :=
    (exec ((Action.services fun _ => return ⟨⟩).runSource 1 []
      (.join .left (itemsAs "a") (itemsAs "b") (.on earlier))) reading).1) (by decide +kernel)
  have halike := Engine.joins_mirror filled_reachable (fun _ => return ⟨⟩) 1 [] .left (itemsAs "a") (itemsAs "b")
    earlier (fun name hname => by
      rw [hcalls] at hname
      cases hname) hreads
  obtain ⟨r', hr', left, hleft, hmirrors⟩ := halike.exists_of_ok hr
  exact ⟨r, r', left, hr, beq_iff_eq.mp hrows, hr', hleft, hmirrors⟩

end Sample

end SqlStore
