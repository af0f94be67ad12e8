import SqlStore.Proofs.Check
import SqlStore.Proofs.Query.Layout
import SqlStore.Proofs.Query.Parallel
import SqlStore.Proofs.Run

/-!
# Running plans as they are laid out

`Plan.Supported` says of a plan what its running rests on: scans answer rows of the width of their table,
and expressions have values, or fail as they may, wherever a frame fits the columns that the plan foretells.
Then every step finds the columns and widths that the step below it promises, and the results of the whole
fit the columns of the plan. `E` is the failures that may occur, so with all of them allowed this is about
layout alone, and with few of them it says which failures never occur.
-/

namespace SqlStore

open Run

namespace Plan

/-- The plans inside a plan, itself first. -/
def nodes : Plan → List Plan
  | singleRow => [singleRow]
  | scan table label => [scan table label]
  | derived source label => derived source label :: source.nodes
  | join kind left right predicate merged =>
    join kind left right predicate merged :: (left.nodes ++ right.nodes)
  | filter source e => filter source e :: source.nodes
  | project source outputs => project source outputs :: source.nodes
  | group source keys having outputs => group source keys having outputs :: source.nodes
  | distinct source => distinct source :: source.nodes
  | order source keys => order source keys :: source.nodes
  | offset source count => offset source count :: source.nodes
  | limit source count => limit source count :: source.nodes
  | truncate source width => truncate source width :: source.nodes

section

variable {σ : Type} (P : σ → Prop) (E : Error → Prop) (a : Access (Run σ)) (outer : Scope)

/-- An expression has a value, or fails as it may, in every frame that fits the columns. -/
def Evaluates (columns : List ResultColumn) (grouped : Bool) (e : Expression) : Prop :=
  ∀ frame : Frame, frame.Fits columns grouped →
    Ends P (e.evaluate a.toSurroundings (frame :: outer)) (fun _ => True) E

/-- What running a plan rests on. -/
def Supported : Plan → Prop
  | singleRow => True
  | scan table _ =>
    Ends P (a.scan table.schema table.name)
      (fun rows => ∀ r ∈ rows, r.values.length = table.columns.length) E
  | derived source _ | distinct source | truncate source _ => source.Supported
  | join _ left right predicate _ =>
    left.Supported ∧ right.Supported ∧
      ∀ e ∈ predicate, Evaluates P E a outer (left.columns ++ right.columns) false e
  | filter source e => source.Supported ∧ Evaluates P E a outer source.columns false e
  | project source outputs =>
    source.Supported ∧ ∀ o ∈ outputs, Evaluates P E a outer source.columns false o.expr
  | group source keys having outputs =>
    source.Supported ∧ (∀ e ∈ keys, Evaluates P E a outer source.columns false e) ∧
      (∀ e ∈ having, Evaluates P E a outer source.columns true e) ∧
      ∀ o ∈ outputs, Evaluates P E a outer source.columns true o.expr
  | order source keys =>
    source.Supported ∧ ∀ k ∈ keys, source.columns.length ≤ k.index → ∀ m, E (.internal m)
  | offset source count | limit source count =>
    source.Supported ∧ Ends P (count.evaluate a.toSurroundings []) (fun _ => True) E

end

/-- The failures of counts of rows are admitted. -/
structure Counting (E : Error → Prop) : Prop where
  type : ∀ {clause} {v : Value}, E (.execution ("argument of " ++ clause ++
    " must be type bigint, not type " ++ v.typeName))
  negative : ∀ {clause}, clause ∈ ["OFFSET", "LIMIT"] →
    E (.execution (clause ++ " must not be negative"))

theorem Counting.mono {A B : Error → Prop} (h : Counting A) (hAB : ∀ err, A err → B err) :
    Counting B := ⟨hAB _ h.type, fun hclause => hAB _ (h.negative hclause)⟩

variable {σ : Type} {P : σ → Prop} {E : Error → Prop} {a : Access (Run σ)} {outer : Scope}

/-! ## The steps of a plan -/

section

variable {l r : Relation} {left right columns : List ResultColumn}

theorem ends_holds (ho : Operations E) {scope : Scope} {e : Expression}
    (he : Ends P (e.evaluate a.toSurroundings scope) (fun _ => True) E) (clause : String) :
    Ends P (e.holds a.toSurroundings scope clause) (fun _ => True) E :=
  he.bind fun _ _ => (ends_ofExcept (fun _ _ => trivial) fun _ => ho.truth).bind fun _ _ =>
    ends_pure trivial

theorem failsWith_agree (ho : Operations E) (x y : Tuple) (merged : List (Nat × Nat)) :
    FailsWith E (agree x y merged) := by
  induction merged with
  | nil => exact failsWith_ok _
  | cons places rest ih =>
    rcases places with ⟨i, j⟩
    refine FailsWith.bind (fun _ => ho.compare) fun order _ => ?_
    split
    · exact ih
    · exact failsWith_ok _

theorem ends_joinRelations (ho : Operations E) (hl : l.Fits left) (hr : r.Fits right)
    (kind : JoinKind) {predicate : Option Expression}
    (hp : ∀ e ∈ predicate, Evaluates P E a outer (left ++ right) false e)
    (merged : List (Nat × Nat)) :
    Ends P (joinRelations a outer kind predicate merged l r)
      (·.Fits (joinColumns merged left right)) E := by
  -- whatever the matches are, the rows are as wide as the columns
  refine (ends_mapM fun x hx => ends_mapM (Q := fun _ => True) fun y hy => ?_).bind fun hits _ =>
    ends_pure (hl.join hr kind merged hits)
  refine (ends_ofExcept (Q := fun _ => True) (fun _ _ => trivial) (failsWith_agree ho x y merged)).bind
    fun _ _ => ends_ite ?_ (ends_pure trivial)
  cases predicate with
  | none => exact ends_pure trivial
  | some e => exact ends_holds ho (hp e rfl _ (hl.pair hr hx hy)) "JOIN/ON"

theorem ends_filterRows (ho : Operations E) (hr : r.Fits columns) {e : Expression}
    (he : Evaluates P E a outer columns false e) :
    Ends P (filterRows a outer r.columns e r.rows) (fun rows => ∀ row ∈ rows, row ∈ r.rows) E := by
  refine (ends_mapM (Q := fun _ => True) fun row hrow =>
    ends_holds ho (he _ (hr.frame hrow)) "WHERE").bind fun kept _ => ends_pure fun row hrow => ?_
  obtain ⟨⟨x, keep⟩, hx, rfl⟩ := List.mem_map.mp hrow
  exact (List.of_mem_zip (List.mem_filter.mp hx).1).1

theorem ends_outputRow {outputs : List Output} {scope : Scope}
    (ho : ∀ o ∈ outputs, Ends P (o.expr.evaluate a.toSurroundings scope) (fun _ => True) E) :
    Ends P (outputRow a scope outputs) (fun row => row.length = outputs.length) E :=
  (ends_mapM ho).mono (fun _ h => h.1) fun _ h => h

/-- Groups hold rows of the source. -/
theorem ends_groupRows (hr : r.Fits columns) {keys : List Expression}
    (hk : ∀ e ∈ keys, Evaluates P E a outer columns false e) :
    Ends P (groupRows a outer r.columns keys r.rows)
      (fun groups => ∀ rows ∈ groups, ∀ row ∈ rows, row ∈ r.rows) E := by
  refine ends_ite (ends_pure (List.forall_mem_singleton.mpr fun _ h => h)) ?_
  refine (ends_mapM (Q := fun keyed : Tuple × Tuple => keyed.2 ∈ r.rows) fun row hrow => ?_).bind
    fun keyed hkeyed => ends_pure ?_
  · exact (ends_mapM fun e he => hk e he _ (hr.frame hrow)).bind fun _ _ => ends_pure hrow
  · -- rows are added to groups one after the other
    have hgroups : ∀ g ∈ keyed.foldl (fun groups (key, row) =>
        addToGroup Value.compareTuples key row groups) [], ∀ row ∈ g.2, row ∈ r.rows := by
      refine List.foldlRecOn keyed _ (motive := fun groups : List (Tuple × List Tuple) =>
        ∀ g ∈ groups, ∀ row ∈ g.2, row ∈ r.rows) nofun ?_
      rintro groups hgroups ⟨key, row⟩ hmem g hg x hx
      rcases mem_of_mem_addToGroup hg hx with rfl | ⟨g', hg', hx⟩
      · exact hkeyed.2 _ hmem
      · exact hgroups g' hg' x hx
    intro rows hrows
    obtain ⟨g, hg, rfl⟩ := List.mem_map.mp hrows
    exact hgroups g hg

/-- A group gives no row, or one that is put out of it: without HAVING every group passes. -/
theorem ends_group {columns : List ResultColumn} {having : Option Expression} {outputs : List Output}
    {rows : List Tuple} {Q : Tuple → Prop}
    (hh : ∀ e ∈ having, Ends P (e.holds a.toSurroundings
      (⟨columns, rows.headD (List.replicate columns.length .null), some rows⟩ :: outer) "HAVING")
        (fun _ => True) E)
    (hrow : Ends P (outputRow a
      (⟨columns, rows.headD (List.replicate columns.length .null), some rows⟩ :: outer) outputs) Q E) :
    Ends P (groupOutput a outer columns having outputs rows) (fun result => ∀ row ∈ result, Q row) E := by
  have hgroup (passes : Bool) : Ends P (if passes then (return some (← outputRow a
      (⟨columns, rows.headD (List.replicate columns.length .null), some rows⟩ :: outer) outputs))
        else return none) (fun result : Option Tuple => ∀ row ∈ result, Q row) E := by
    refine ends_ite ?_ (ends_pure nofun)
    refine hrow.bind fun row hrow => ends_pure ?_
    rintro _ ⟨⟩
    exact hrow
  cases having with
  | none => exact (ends_pure (Q := fun _ => True) trivial).bind fun passes _ => hgroup passes
  | some e => exact (hh e rfl).bind fun passes _ => hgroup passes

theorem ends_groupOutput (ho : Operations E) (hr : r.Fits columns) {having : Option Expression}
    {outputs : List Output} (hh : ∀ e ∈ having, Evaluates P E a outer columns true e)
    (houtputs : ∀ o ∈ outputs, Evaluates P E a outer columns true o.expr) {rows : List Tuple}
    (hrows : ∀ row ∈ rows, row ∈ r.rows) :
    Ends P (groupOutput a outer r.columns having outputs rows)
      (fun result => ∀ row ∈ result, row.length = outputs.length) E := by
  have hframe := hr.groupFrame hrows
  exact ends_group (fun e he => ends_holds ho (hh e he _ hframe) "HAVING")
    (ends_outputRow fun o hmem => houtputs o hmem _ hframe)

theorem ends_rowCount (hc : Counting E) {clause : String} (hclause : clause ∈ ["OFFSET", "LIMIT"])
    {e : Expression} (he : Ends P (e.evaluate a.toSurroundings []) (fun _ => True) E) :
    Ends P (rowCount a clause e) (fun _ => True) E := by
  refine he.bind fun v _ => ends_ite (ends_pure trivial) ?_
  cases v.int? with
  | none => exact ends_throw hc.type
  | some n =>
    refine ends_ite ?_ (ends_pure trivial)
    exact (ends_throw (Q := fun _ => True) (hc.negative hclause)).bind fun _ _ => ends_pure trivial

end

/-! ## Whole plans -/

/-- The results of a plan fit its columns. The induction goes from the sources up: what is laid over a
source is evaluated in frames made of its results. -/
theorem ends_run (ho : Operations E) (hc : Counting E) {p : Plan} (h : p.Supported P E a outer) :
    Ends P (p.run a outer) (·.Fits p.columns) E := by
  induction p with
  | singleRow => exact ends_pure ⟨rfl, List.forall_mem_singleton.mpr rfl⟩
  | scan table label =>
    refine h.bind fun rows hrows => ends_pure ⟨rfl, fun row hrow => ?_⟩
    obtain ⟨stored, hstored, rfl⟩ := List.mem_map.mp hrow
    exact (hrows stored hstored).trans (List.length_map _).symm
  | derived source label ih => exact (ih h).bind fun r hr => ends_pure (hr.relabel label)
  | join kind left right predicate merged ihl ihr =>
    obtain ⟨hleft, hright, hpredicate⟩ := h
    refine (ihl hleft).bind fun l hl => (ihr hright).bind fun r hr => ?_
    exact ends_joinRelations ho hl hr kind hpredicate merged
  | filter source e ih =>
    refine (ih h.1).bind fun r hr => (ends_filterRows ho hr h.2).bind fun rows hrows => ?_
    exact ends_pure (hr.subset hrows)
  | project source outputs ih =>
    refine (ih h.1).bind fun r hr => ?_
    refine (ends_mapM fun row hrow => ends_outputRow fun o hmem => ?_).bind fun rows hrows =>
      ends_pure (Relation.Fits.outputs outputs hrows.2)
    exact h.2 o hmem _ (hr.frame hrow)
  | group source keys having outputs ih =>
    obtain ⟨hsource, hkeys, hhaving, houtputs⟩ := h
    refine (ih hsource).bind fun r hr => (ends_groupRows hr hkeys).bind fun groups hgroups => ?_
    refine (ends_mapM fun rows hrows =>
      ends_groupOutput ho hr hhaving houtputs (hgroups rows hrows)).bind fun results hresults =>
        ends_pure (Relation.Fits.outputs outputs fun row hrow => ?_)
    obtain ⟨result, hmem, heq⟩ := List.mem_filterMap.mp hrow
    exact hresults.2 result hmem row heq
  | distinct source ih =>
    exact (ih h).bind fun r hr => ends_pure (hr.subset fun _ => mem_of_mem_distinctBy)
  | order source keys ih =>
    refine (ih h.1).bind fun r hr => ?_
    -- a key beyond the columns of the results is one beyond those of the plan
    cases hfound : keys.find? fun k => r.columns.length ≤ k.index with
    | some k =>
      have hbeyond : r.columns.length ≤ k.index := by simpa using List.find?_some hfound
      rw [ResultColumn.length_of_keys hr.keys] at hbeyond
      exact ends_throw (h.2 k (List.mem_of_find?_eq_some hfound) hbeyond _)
    | none => exact ends_pure (hr.subset fun _ => mem_stableSort.mp)
  | offset source count ih =>
    refine (ends_rowCount hc (by simp) h.2).bind fun _ _ => (ih h.1).bind fun r hr => ?_
    exact ends_pure (hr.subset fun _ => List.mem_of_mem_drop)
  | limit source count ih =>
    refine (ends_rowCount hc (by simp) h.2).bind fun n _ => (ih h.1).bind fun r hr => ?_
    cases n with
    | none => exact ends_pure hr
    | some n => exact ends_pure (hr.subset fun _ => List.mem_of_mem_take)
  | truncate source width ih => exact (ih h).bind fun r hr => ends_pure (hr.take width)

/-- What a plan rests on is what the plans inside it rest on. -/
theorem Supported.of_node {p node : Plan} (h : p.Supported P E a outer) (hnode : node ∈ p.nodes) :
    node.Supported P E a outer := by
  induction p with
  | singleRow | scan _ _ =>
    cases List.mem_singleton.mp hnode
    exact h
  | derived _ _ ih | distinct _ ih | truncate _ _ ih =>
    rcases List.mem_cons.mp hnode with rfl | hnode
    · exact h
    · exact ih h hnode
  | join _ _ _ _ _ ihl ihr =>
    rcases List.mem_cons.mp hnode with rfl | hnode
    · exact h
    · rcases List.mem_append.mp hnode with hnode | hnode
      · exact ihl h.1 hnode
      · exact ihr h.2.1 hnode
  | filter _ _ ih | project _ _ ih | group _ _ _ _ ih | order _ _ ih | offset _ _ ih | limit _ _ ih =>
    rcases List.mem_cons.mp hnode with rfl | hnode
    · exact h
    · exact ih h.1 hnode

/-- Where every failure may occur, only scans matter. -/
theorem supported_of_scans (hE : ∀ err, E err)
    (he : ∀ (e : Expression) (scope : Scope),
      Ends P (e.evaluate a.toSurroundings scope) (fun _ => True) E) {p : Plan}
    (hs : ∀ d ∈ p.scans, Ends P (a.scan d.schema d.name)
      (fun rows => ∀ r ∈ rows, r.values.length = d.columns.length) E) :
    p.Supported P E a outer := by
  have hevaluates : ∀ columns grouped e, Evaluates P E a outer columns grouped e :=
    fun _ _ e _ _ => he e _
  induction p with
  | singleRow => exact trivial
  | scan table label => exact hs table List.mem_cons_self
  | derived _ _ ih | distinct _ ih | truncate _ _ ih => exact ih hs
  | join _ _ _ _ _ ihl ihr =>
    obtain ⟨hleft, hright⟩ := List.forall_mem_append.mp hs
    exact ⟨ihl hleft, ihr hright, fun e _ => hevaluates _ _ e⟩
  | filter _ e ih => exact ⟨ih hs, hevaluates _ _ e⟩
  | project _ _ ih => exact ⟨ih hs, fun _ _ => hevaluates _ _ _⟩
  | group _ _ _ _ ih =>
    exact ⟨ih hs, fun e _ => hevaluates _ _ e, fun e _ => hevaluates _ _ e,
      fun _ _ => hevaluates _ _ _⟩
  | order _ _ ih => exact ⟨ih hs, fun _ _ _ _ => hE _⟩
  | offset _ count ih | limit _ count ih => exact ⟨ih hs, he count []⟩

end Plan

end SqlStore
