import SqlStore.Query.Evaluation
import SqlStore.Query.Planning

/-!
# Running plans

A plan is run inside an outer scope. Sources come before what is laid over them, except that the
bounds of the number of rows are evaluated first. Queries inside expressions are planned and run
each time they are asked: `Services.access` ties that together, with a number that bounds how deep
queries nest.
-/

namespace SqlStore

/-- What running plans asks of its surroundings: besides queries and functions, the rows of a
table. -/
structure Access (m : Type → Type) extends Surroundings Select m where
  /-- The rows of a table, by schema and name. -/
  scan : String → String → m (List Row)

/-- The columns, those without a type typed by their first value that is not NULL. -/
def fillTypes (rows : List Tuple) (columns : List ResultColumn) : List ResultColumn :=
  columns.zipIdx.map fun (c, i) =>
    if c.datatype.isSome then c
    else { c with datatype := rows.findSome? fun row => row[i]?.bind Value.datatype }

/-- The order of two values under a sort key; NULLs stand at the side that the key says. -/
def SortKey.compareValues (k : SortKey) (x y : Value) : Ordering :=
  if x.isNull && y.isNull then .eq
  else if x.isNull then (if k.nullsFirst then .lt else .gt)
  else if y.isNull then (if k.nullsFirst then .gt else .lt)
  else if k.descending then y.totalCompare x
  else x.totalCompare y

/-- The order of two rows by sort keys, the first key first. -/
def compareRows (keys : List SortKey) (a b : Tuple) : Ordering :=
  match keys with
  | [] => .eq
  | k :: ks =>
    (k.compareValues (a.getD k.index .null) (b.getD k.index .null)).then (compareRows ks a b)

/-! ## Joins -/

/-- A value of merged columns: the left one, unless it is NULL. -/
def mergeValues (l r : Value) : Value := if l.isNull then r else l

/-- The row of a pair. -/
def joinRow (merged : List (Nat × Nat)) (l r : Tuple) : Tuple := joinLayout mergeValues merged l r

/-- Whether two rows are equal in the merged columns. -/
def agree (l r : Tuple) : List (Nat × Nat) → Except Error Bool
  | [] => .ok true
  | (i, j) :: rest => do
    if (← (l.getD i .null).compare (r.getD j .null)) == some .eq then agree l r rest
    else return false

/-- Whether a join keeps rows of the left side that have no match. -/
def JoinKind.keepsLeft : JoinKind → Bool
  | left => true
  | full => true
  | _ => false

/-- Whether a join keeps rows of the right side that have no match. -/
def JoinKind.keepsRight : JoinKind → Bool
  | right => true
  | full => true
  | _ => false

/-- The rows of a join from the table of matches: for each left row its pairs, or itself beside
NULLs where such rows are kept; then the kept right rows. -/
def joinedRows (kind : JoinKind) (merged : List (Nat × Nat)) (leftWidth rightWidth : Nat)
    (lefts rights : List Tuple) (hits : List (List Bool)) : List Tuple :=
  let ofLeft := fun (l : Tuple) (hs : List Bool) =>
    if kind.keepsLeft && !hs.any id then [joinRow merged l (List.replicate rightWidth .null)]
    else ((rights.zip hs).filter Prod.snd).map fun (r, _) => joinRow merged l r
  let unmatched := rights.zipIdx.filter fun (_, j) => !hits.any fun hs => hs.getD j false
  let ofRight := if kind.keepsRight then
      unmatched.map fun (r, _) => joinRow merged (List.replicate leftWidth .null) r
    else []
  ((lefts.zip hits).flatMap fun (l, hs) => ofLeft l hs) ++ ofRight

section

variable {m : Type → Type} [Monad m] [MonadExceptOf Error m]

/-- Whether a join keeps a pair. -/
def keepsPair (a : Access m) (outer : Scope) (columns : List ResultColumn)
    (predicate : Option Expression) (merged : List (Nat × Nat)) (l r : Tuple) : m Bool := do
  if ← ofExcept (agree l r merged) then
    match predicate with
    | none => return true
    | some e => e.holds a.toSurroundings (Frame.ofRow columns (l ++ r) :: outer) "JOIN/ON"
  else return false

/-- Joins two relations. -/
def joinRelations (a : Access m) (outer : Scope) (kind : JoinKind)
    (predicate : Option Expression) (merged : List (Nat × Nat)) (left right : Relation) :
    m Relation := do
  let columns := left.columns ++ right.columns
  let hits ← left.rows.mapM fun l =>
    right.rows.mapM fun r => keepsPair a outer columns predicate merged l r
  return ⟨joinColumns merged left.columns right.columns,
    joinedRows kind merged left.columns.length right.columns.length left.rows right.rows hits⟩

/-! ## Rows -/

/-- The rows on which a predicate is true. -/
def filterRows (a : Access m) (outer : Scope) (columns : List ResultColumn)
    (predicate : Expression) (rows : List Tuple) : m (List Tuple) := do
  let kept ← rows.mapM fun row =>
    predicate.holds a.toSurroundings (Frame.ofRow columns row :: outer) "WHERE"
  return ((rows.zip kept).filter Prod.snd).map Prod.fst

/-- The results in a scope. -/
def outputRow (a : Access m) (scope : Scope) (outputs : List Output) : m Tuple :=
  outputs.mapM fun o => o.expr.evaluate a.toSurroundings scope

/-- Results with their columns. -/
def outputRelation (outputs : List Output) (rows : List Tuple) : Relation :=
  ⟨fillTypes rows (outputs.map Output.column), rows⟩

/-- The rows of each group, ordered by key. Without keys all rows are one group, even if there are
none. -/
def groupRows (a : Access m) (outer : Scope) (columns : List ResultColumn)
    (keys : List Expression) (rows : List Tuple) : m (List (List Tuple)) := do
  if keys.isEmpty then return [rows]
  let keyed ← rows.mapM fun row => do
    let key ← keys.mapM fun e =>
      e.evaluate a.toSurroundings (Frame.ofRow columns row :: outer)
    return (key, row)
  let groups := keyed.foldl
    (fun groups (key, row) => addToGroup Value.compareTuples key row groups) []
  return groups.map Prod.snd

/-- The results of a group, if it passes HAVING. Columns are those of its first row. -/
def groupOutput (a : Access m) (outer : Scope) (columns : List ResultColumn)
    (having : Option Expression) (outputs : List Output) (rows : List Tuple) :
    m (Option Tuple) := do
  let first := rows.headD (List.replicate columns.length .null)
  let scope := ⟨columns, first, some rows⟩ :: outer
  let passes ← match having with
    | none => pure true
    | some e => e.holds a.toSurroundings scope "HAVING"
  if passes then return some (← outputRow a scope outputs) else return none

/-- The bound that a clause gives; NULL is none. -/
def rowCount (a : Access m) (clause : String) (e : Expression) : m (Option Nat) := do
  let v ← e.evaluate a.toSurroundings []
  if v.isNull then return none
  match v.int? with
  | none => throw (.execution ("argument of " ++ clause ++ " must be type bigint, not type " ++
      v.typeName))
  | some n =>
    if n < 0 then throw (.execution (clause ++ " must not be negative"))
    return some n.toNat

/-! ## Plans -/

namespace Plan

/-- Runs a plan inside an outer scope. -/
def run (a : Access m) (outer : Scope) : Plan → m Relation
  | singleRow => pure ⟨[], [[]]⟩
  | scan table label => do
    let rows ← a.scan table.schema table.name
    return ⟨table.resultColumns label, rows.map Row.values⟩
  | derived source label => do
    let r ← source.run a outer
    return ⟨relabel label r.columns, r.rows⟩
  | join kind left right predicate merged => do
    let l ← left.run a outer
    let r ← right.run a outer
    joinRelations a outer kind predicate merged l r
  | filter source predicate => do
    let r ← source.run a outer
    return ⟨r.columns, ← filterRows a outer r.columns predicate r.rows⟩
  | project source outputs => do
    let r ← source.run a outer
    let rows ← r.rows.mapM fun row => outputRow a (Frame.ofRow r.columns row :: outer) outputs
    return outputRelation outputs rows
  | group source keys having outputs => do
    let r ← source.run a outer
    let groups ← groupRows a outer r.columns keys r.rows
    let rows ← groups.mapM (groupOutput a outer r.columns having outputs)
    return outputRelation outputs (rows.filterMap id)
  | distinct source => do
    let r ← source.run a outer
    return ⟨r.columns, distinctBy Value.compareTuples [] r.rows⟩
  | order source keys => do
    let r ← source.run a outer
    match keys.find? fun k => r.columns.length ≤ k.index with
    | some k => throw (.internal ("sort key " ++ Text.showInt k.index ++ " is outside the " ++
        Text.showInt r.columns.length ++ " projected columns"))
    | none => return ⟨r.columns, stableSort (compareRows keys) r.rows⟩
  | offset source count => do
    let n ← rowCount a "OFFSET" count
    let r ← source.run a outer
    return ⟨r.columns, r.rows.drop (n.getD 0)⟩
  | limit source count => do
    let n ← rowCount a "LIMIT" count
    let r ← source.run a outer
    return ⟨r.columns, match n with
      | some n => r.rows.take n
      | none => r.rows⟩
  | truncate source width => do
    let r ← source.run a outer
    return ⟨r.columns.take width, r.rows.map (List.take width)⟩

end Plan

/-! ## Queries inside queries -/

/-- What a database offers to queries. -/
structure Services (m : Type → Type) where
  catalog : m Catalog
  scan : String → String → m (List Row)
  call : String → Tuple → m Value

namespace Services

/-- Plans and runs a query inside an outer scope, given the access that its own queries have. -/
def runSelect (s : Services m) (a : Access m) (q : Select) (outer : Scope) : m Relation := do
  let plan ← ofExcept (Plan.ofSelect (← s.catalog) outer q)
  plan.run a outer

/-- The access of expressions in which queries nest up to a depth. -/
def access (s : Services m) : Nat → Access m
  | 0 =>
    { query := fun _ _ => throw (.internal "queries nest too deep")
      call := s.call
      scan := s.scan }
  | depth + 1 =>
    { query := s.runSelect (access s depth)
      call := s.call
      scan := s.scan }

/-- Evaluates an expression. -/
def evaluate (s : Services m) (scope : Scope) (e : Expression) : m Value :=
  e.evaluate (s.access (exprDepth e)).toSurroundings scope

/-- Plans and runs a query of its own. -/
def select (s : Services m) (q : Select) : m Relation := s.runSelect (s.access q.depth) q []

end Services

end

end SqlStore
