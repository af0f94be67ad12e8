import SqlStore.Query.Scope
import SqlStore.Syntax.Statement

/-!
# Query plans

A plan says how the rows of a query come about. Names are resolved when a plan is made, so a plan
knows the columns of its results before any row is read: `Plan.columns`.
-/

namespace SqlStore

/-- A result of a query: its expression and its column. -/
structure Output where
  expr : Expression
  column : ResultColumn

/-- A sort key: the place of a result and how to sort by it. -/
structure SortKey where
  index : Nat
  descending : Bool
  nullsFirst : Bool
deriving Repr, DecidableEq

/-- A plan of a query. -/
inductive Plan where
  /-- One row without columns. -/
  | singleRow
  | scan (table : TableDefinition) (label : Option String)
  /-- A query as a table of another name. -/
  | derived (source : Plan) (label : Option String)
  /-- Pairs of rows that agree in the merged columns and satisfy the predicate. -/
  | join (kind : JoinKind) (left right : Plan) (predicate : Option Expression)
      (merged : List (Nat × Nat))
  | filter (source : Plan) (predicate : Expression)
  | project (source : Plan) (outputs : List Output)
  | group (source : Plan) (keys : List Expression) (having : Option Expression)
      (outputs : List Output)
  | distinct (source : Plan)
  | order (source : Plan) (keys : List SortKey)
  | offset (source : Plan) (count : Expression)
  | limit (source : Plan) (count : Expression)
  /-- Only the first columns. -/
  | truncate (source : Plan) (width : Nat)

/-- The members of a list whose places are not among the given ones. -/
def withoutPlaces {α : Type} (places : List Nat) (xs : List α) : List α :=
  (xs.zipIdx.filter fun (_, i) => !places.contains i).map Prod.fst

/-- The layout of a join: the merged columns, then the rest of the left, then the rest of the right
ones. `pick` makes a merged member from the two that are merged. -/
def joinLayout {α : Type} (pick : α → α → α) (merged : List (Nat × Nat)) (left right : List α) :
    List α :=
  let both := merged.filterMap fun (l, r) =>
    match left[l]?, right[r]? with
    | some a, some b => some (pick a b)
    | _, _ => none
  both ++ (withoutPlaces (merged.map Prod.fst) left ++ withoutPlaces (merged.map Prod.snd) right)

/-- The columns of a join: merged columns are those of the left side. -/
def joinColumns (merged : List (Nat × Nat)) (left right : List ResultColumn) :
    List ResultColumn :=
  joinLayout (fun l _ => l) merged left right

/-- Columns under another table name. -/
def relabel (label : Option String) (columns : List ResultColumn) : List ResultColumn :=
  columns.map fun c => { c with table := label }

namespace Plan

/-- The columns of the results. -/
def columns : Plan → List ResultColumn
  | singleRow => []
  | scan table label => table.resultColumns label
  | derived source label => relabel label source.columns
  | join _ left right _ merged => joinColumns merged left.columns right.columns
  | filter source _ => source.columns
  | project _ outputs => outputs.map Output.column
  | group _ _ _ outputs => outputs.map Output.column
  | distinct source => source.columns
  | order source _ => source.columns
  | offset source _ => source.columns
  | limit source _ => source.columns
  | truncate source width => source.columns.take width

end Plan

end SqlStore
