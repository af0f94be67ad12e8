import SqlStore.Proofs.Query.Closed
import SqlStore.Proofs.Session.DerivedTable

/-!
# Queries that ignore their surroundings

A query that is answered on its own is answered alike wherever it stands inside other queries, whatever
columns the rows around it have.
-/

namespace SqlStore

open Run

namespace Services

variable {σ : Type} (s : Services (Run σ)) {q : Select} {r : Relation} {w w' : σ}

/-- Let a query succeed on its own. Then inside any scope, as a query of an expression that leaves enough
depth, it comes to the same columns and rows and ends in the same state. Also any name that has a value in
some frames has the same value when other frames are put around them. -/
theorem query_of_select (h : exec (s.select q) w = (.ok r, w')) (outer : Scope) :
    (∀ depth, q.depth < depth → exec ((s.access depth).query q outer) w = (.ok r, w')) ∧
      ∀ (scope : Scope) table name v, scope.value table name = .ok v →
        (scope ++ outer).value table name = .ok v := by
  refine ⟨fun depth hdepth => ?_, fun scope table name v => Scope.value_append scope outer v⟩
  rw [← s.query_access_of_le (Nat.le_succ q.depth) hdepth]
  exact s.query_append (q.depth + 1) q [] outer w r w' h

end Services

namespace Sample

/-- `SELECT 1 FROM items AS other WHERE other.code = items.code` -/
def matching : Select :=
  .mk
    { distinct := false
      items := [.expr (.literal (.integer 1)) none]
      sources := [.table ⟨none, "items"⟩ (some "other")]
      filter := some (.binary .equal (.column (some "other") "code") (.column (some "items") "code"))
      groupBy := []
      having := none
      orderBy := []
      limit := none
      offset := none }

/-- `SELECT code FROM items WHERE EXISTS (...)`, with a query inside that needs this one around it. -/
def matched : Select :=
  .mk
    { distinct := false
      items := [.expr (.column none "code") none]
      sources := [.table ⟨none, "items"⟩ none]
      filter := some (.exists_ matching)
      groupBy := []
      having := none
      orderBy := []
      limit := none
      offset := none }

/-- A row around a query, with a column of the same name. -/
def around : Scope := [.ofRow [⟨some "items", "code", some .integer⟩] [.integer 7]]

/-- The row of a query. -/
def within : Scope := [.ofRow [⟨some "items", "code", some .integer⟩] [.integer 10]]

theorem matched_around :
    ∃ (r : Relation) (w' : Work), r.rows.length = 2 ∧
      exec ((Action.services filled.database.hook).select matched) (filled.connection 0).starting =
        (.ok r, w') ∧
      exec (((Action.services filled.database.hook).access 5).query matched around)
        (filled.connection 0).starting = (.ok r, w') ∧
      (within ++ around).value (some "items") "code" = .ok (.integer 10) := by
  obtain ⟨r, hanswer, hkind⟩ := exists_of_answers (e := filled) (q := matched)
    (k := fun r => r.rows.length == 2) (by decide +kernel)
  obtain ⟨_, hr, ⟨⟩⟩ := (Engine.select_ok_iff filled_reachable 0).mp hanswer
  have hrun := Prod.ext (y := (_, _)) hr rfl
  obtain ⟨hquery, hvalue⟩ := Services.query_of_select _ hrun around
  exact ⟨r, _, beq_iff_eq.mp hkind, hrun, hquery 5 (by decide), hvalue within _ _ _ rfl⟩

end Sample

end SqlStore
