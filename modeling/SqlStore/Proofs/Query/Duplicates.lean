import SqlStore.Proofs.Query.Groups
import SqlStore.Proofs.Representatives

/-!
# Three ways of removing duplicates

SELECT DISTINCT filters rows by an ordered set of those that were seen, GROUP BY collects them under ordered
keys, and COUNT(DISTINCT) sorts values and drops neighbours. On values of one kind other than that of documents,
each of the three keeps one value of each class of equal ones, so they agree on how many classes there are, in
whatever order the values come.
-/

namespace SqlStore

open Run

namespace Value

variable {values others : List Value} {type : DataType}

/-! ## The order of values of one kind -/

theorem preordersOn_among (htype : type ≠ .jsonb) : PreordersOn totalCompare (Among [type]) where
  swap := fun _ _ => totalCompare_swap _ _
  trans := fun ha hb hc => totalCompare_trans (together_of_among htype ha hb)
    (together_of_among htype hb hc) (together_of_among htype ha hc)

/-- NULL is equal to NULL only. -/
theorem isNull_eq_of_totalCompare {a b : Value} (h : a.totalCompare b = .eq) : a.isNull = b.isNull := by
  unfold totalCompare at h
  cases ha : a.isNull <;> cases hb : b.isNull <;> simp [ha, hb] at h ⊢

theorem compareTuples_singleton (a b : Value) : compareTuples [a] [b] = a.totalCompare b :=
  Ordering.then_eq

theorem uniform_singletons (htype : type ≠ .jsonb) (h : ∀ v ∈ values, v.Among [type]) :
    Uniform 1 (values.map fun v => [v]) where
  length := List.forall_mem_map.mpr fun _ _ => rfl
  kind i hi := by
    cases Nat.lt_one_iff.mp hi
    exact ⟨type, htype, List.forall_mem_map.mpr h⟩

/-! ## The number of classes -/

/-- The values that are not NULL. -/
def present (values : List Value) : List Value := values.filter fun v => !v.isNull

/-- The number of classes of equal values among those that are not NULL. -/
def classCount (values : List Value) : Nat := (present (firsts totalCompare values)).length

theorem representatives_present {reps : List Value} (h : Representatives totalCompare values reps) :
    Representatives totalCompare (present values) (present reps) :=
  h.filter fun _ _ _ _ heq => congrArg (!·) (isNull_eq_of_totalCompare heq)

/-- Representatives of the values of a list that are not NULL are as many as its classes. -/
theorem length_eq_classCount (htype : type ≠ .jsonb) (h : ∀ v ∈ values, v.Among [type]) {reps : List Value}
    (hreps : Representatives totalCompare (present others) reps) (hsame : others.Perm values) :
    reps.length = classCount values := by
  have ho := preordersOn_among htype
  have hsame' := hsame.filter fun v => !v.isNull
  refine hreps.length_eq (representatives_present (representatives_firsts ho h)) ho (fun v hv => ?_)
    fun v => hsame'.mem_iff
  exact h v (hsame.mem_iff.mp (List.mem_filter.mp hv).1)

theorem classCount_perm (htype : type ≠ .jsonb) (h : ∀ v ∈ values, v.Among [type])
    (hperm : others.Perm values) : classCount others = classCount values :=
  length_eq_classCount htype h (representatives_present (representatives_firsts (preordersOn_among htype)
    fun v hv => h v (hperm.mem_iff.mp hv))) hperm

/-! ## The three ways -/

/-- Rows of one value are kept at the first occurrences of their values. -/
theorem distinctBy_singletons (htype : type ≠ .jsonb) (h : ∀ v ∈ values, v.Among [type]) :
    distinctBy compareTuples [] (values.map fun v => [v]) =
      (firsts totalCompare values).map fun v => [v] := by
  rw [distinctBy_eq_firsts (uniform_singletons htype h).preordersOn fun _ hv => hv, firsts_map]
  exact congrArg (List.map _) (congrArg (firsts · values) (funext₂ compareTuples_singleton))

/-- Sorted and without repeats, values are represented. -/
theorem representatives_sorted {S : Value → Prop} (ho : PreordersOn totalCompare S) (h : ∀ v ∈ values, S v) :
    Representatives totalCompare values (dropRepeats totalCompare (Value.sort values)) := by
  have hperm : (Value.sort values).Perm values := perm_stableSort _ _
  exact (representatives_dropRepeats ho (fun v hv => h v (hperm.mem_iff.mp hv))
    (pairwise_isLE_stableSort ho h)).congr fun v => hperm.mem_iff

/-- Counting distinct values sorts them and drops neighbours. -/
theorem reduce_count_distinct (htype : type ≠ .jsonb) (h : ∀ v ∈ values, v.Among [type]) :
    AggregateFunction.reduce .count true values = .ok (.bigInt (Int64.ofInt (classCount values))) := by
  have hreps := representatives_sorted (preordersOn_among htype)
    fun v (hv : v ∈ present values) => h v (List.mem_filter.mp hv).1
  have hlength := length_eq_classCount htype h hreps (.refl _)
  rw [← hlength]
  rfl

/-- The keys of groups represent the keys that were grouped. -/
theorem representatives_groupPlaces {keys : List Tuple} {width : Nat} (h : Uniform width keys) :
    Representatives compareTuples keys ((groupPlaces keys).map Prod.fst) where
  mem := List.forall_mem_map.mpr (classesOf_groupPlaces h).key
  apart := List.pairwise_map.mpr ((classesOf_groupPlaces h).ascending.imp fun hlt => by simp [hlt])
  covers k hk := by
    obtain ⟨i, hi, rfl⟩ := List.mem_iff_getElem.mp hk
    obtain ⟨g, hg, heq⟩ := (classesOf_groupPlaces h).covered (keys[i], i)
      (List.mem_zipIdx_iff_getElem?.mpr (List.getElem?_eq_getElem hi))
    exact ⟨g.1, List.mem_map_of_mem hg, heq⟩

/-- The values at some places are not NULL. -/
def presentAt (values : List Value) (places : List Nat) : Bool :=
  places.all fun i => !(values.getD i .null).isNull

/-- The values at the places of a group are NULL if its key is. -/
theorem presentAt_group (htype : type ≠ .jsonb) (h : ∀ v ∈ values, v.Among [type]) {g : Tuple × List Nat}
    (hg : g ∈ groupPlaces (values.map fun v => [v])) :
    presentAt values g.2 = !(g.1.headD .null).isNull := by
  have huniform := uniform_singletons htype h
  have hclasses := classesOf_groupPlaces huniform
  obtain ⟨k, -, hk⟩ := List.mem_map.mp (hclasses.key g hg)
  -- values of one group are equal to its key, and only NULL is equal to NULL
  have hsame : ∀ i ∈ g.2, (values.getD i .null).isNull = k.isNull := by
    intro i hi
    obtain ⟨hlt, heq⟩ := (mem_group_iff huniform hg).mp hi
    rw [List.length_map] at hlt
    rw [← hk, List.getD_eq_getElem _ _ (by simpa using hlt), List.getElem_map, compareTuples_singleton]
      at heq
    rw [List.getD_eq_getElem _ _ hlt]
    exact (isNull_eq_of_totalCompare heq).symm
  have hne := (hclasses.member g hg).2
  obtain ⟨i, hi⟩ := List.exists_mem_of_ne_nil _ hne
  rw [← hk, List.headD_cons, presentAt, Bool.eq_iff_iff, List.all_eq_true]
  constructor
  · intro hall
    rw [← hsame i hi]
    exact hall i hi
  · intro hpresent j hj
    rw [hsame j hj]
    exact hpresent

/-- The groups of values that are not NULL. -/
theorem length_present_groups (htype : type ≠ .jsonb) (h : ∀ v ∈ values, v.Among [type]) :
    (((groupPlaces (values.map fun v => [v])).map Prod.snd).filter (presentAt values)).length =
      classCount values := by
  have hreps := representatives_groupPlaces (uniform_singletons htype h)
  -- the keys of the groups, as values
  have hkeys : Representatives totalCompare values
      ((groupPlaces (values.map fun v => [v])).map fun g => g.1.headD .null) := by
    have hsingle : ∀ g ∈ groupPlaces (values.map fun v => [v]), ∃ v ∈ values, g.1 = [v] := by
      intro g hg
      obtain ⟨v, hv, heq⟩ := List.mem_map.mp (hreps.mem g.1 (List.mem_map_of_mem hg))
      exact ⟨v, hv, heq.symm⟩
    refine ⟨List.forall_mem_map.mpr fun g hg => ?_, List.pairwise_map.mpr ?_, fun v hv => ?_⟩
    · obtain ⟨v, hv, heq⟩ := hsingle g hg
      rw [heq]
      exact hv
    · refine (List.pairwise_map.mp hreps.apart).imp_of_mem fun {g g'} hg hg' hne => ?_
      obtain ⟨v, -, heq⟩ := hsingle g hg
      obtain ⟨v', -, heq'⟩ := hsingle g' hg'
      rw [heq, heq', compareTuples_singleton] at hne
      rwa [heq, heq']
    · obtain ⟨k, hk, hkv⟩ := hreps.covers [v] (List.mem_map_of_mem hv)
      obtain ⟨g, hg, rfl⟩ := List.mem_map.mp hk
      obtain ⟨u, -, heq⟩ := hsingle g hg
      rw [heq, compareTuples_singleton] at hkv
      exact ⟨_, List.mem_map_of_mem hg, by rwa [heq]⟩
  rw [← length_eq_classCount htype h (representatives_present hkeys) (.refl _), present, List.filter_map,
    List.filter_map, List.length_map, List.length_map]
  exact congrArg List.length (List.filter_congr fun g hg => presentAt_group htype h hg)

end Value

open Value

section

variable {σ α β γ : Type}

theorem Run.mapM_singleton (f : α → Run σ β) (x : α) : [x].mapM f = f x >>= fun y => pure [y] := by
  rw [List.mapM_cons, List.mapM_nil]
  simp only [pure_bind]

/-- A loop whose results are put into another form. -/
theorem Run.exec_mapM_map {f : α → Run σ β} {xs : List α} {ys : List β} {s t : σ} (g : β → γ)
    (h : exec (xs.mapM f) s = (.ok ys, t)) :
    exec (xs.mapM fun x => f x >>= fun y => pure (g y)) s = (.ok (ys.map g), t) := by
  induction xs generalizing ys s with
  | nil =>
    cases h
    rfl
  | cons x xs ih =>
    rw [List.mapM_cons] at h
    obtain ⟨y, u, hx, h⟩ := exec_bind_eq_ok h
    obtain ⟨ys', v, hxs, h⟩ := exec_bind_eq_ok h
    cases h
    rw [List.mapM_cons, bind_assoc, exec_bind_ok hx, pure_bind, exec_bind_ok (ih hxs)]
    rfl

variable {a : Access (Run σ)} {outer : Scope} {source : Plan} {e : Expression} {r : Relation}
  {values : List Value} {w w₁ w₂ : σ}

/-- The values of an expression on the rows of a relation. -/
def valuesOn (a : Access (Run σ)) (outer : Scope) (r : Relation) (e : Expression) : Run σ (List Value) :=
  r.rows.mapM fun row => e.evaluate a.toSurroundings (Frame.ofRow r.columns row :: outer)

/-- SELECT DISTINCT of an expression. -/
theorem exec_run_distinct (c : ResultColumn) (hsource : exec (source.run a outer) w = (.ok r, w₁))
    (hvalues : exec (valuesOn a outer r e) w₁ = (.ok values, w₂)) {type : DataType} (htype : type ≠ .jsonb)
    (hkind : ∀ v ∈ values, v.Among [type]) :
    exec ((Plan.distinct (.project source [⟨e, c⟩])).run a outer) w =
      (.ok ⟨fillTypes (values.map fun v => [v]) [c],
        (firsts totalCompare values).map fun v => [v]⟩, w₂) := by
  have hrows : exec (r.rows.mapM fun row => outputRow a (Frame.ofRow r.columns row :: outer) [⟨e, c⟩]) w₁ =
      (.ok (values.map fun v => [v]), w₂) := by
    simp only [outputRow, mapM_singleton]
    exact exec_mapM_map _ hvalues
  have hproject : exec ((Plan.project source [⟨e, c⟩]).run a outer) w =
      (.ok (outputRelation [⟨e, c⟩] (values.map fun v => [v])), w₂) := by
    unfold Plan.run
    rw [exec_bind_ok hsource, exec_bind_ok hrows]
    rfl
  unfold Plan.run
  rw [exec_bind_ok hproject, ← distinctBy_singletons htype hkind]
  rfl

/-- COUNT(DISTINCT e) over all rows. -/
theorem exec_run_count_distinct (c : ResultColumn) (hsource : exec (source.run a outer) w = (.ok r, w₁))
    (hvalues : exec (valuesOn a outer r e) w₁ = (.ok values, w₂)) {type : DataType} (htype : type ≠ .jsonb)
    (hkind : ∀ v ∈ values, v.Among [type]) :
    exec ((source.group [] none [⟨.aggregate .count true (some e), c⟩]).run a outer) w =
      (.ok (outputRelation [⟨.aggregate .count true (some e), c⟩]
        [[.bigInt (Int64.ofInt (classCount values))]]), w₂) := by
  let scope : Scope := ⟨r.columns, r.rows.headD (List.replicate r.columns.length .null), some r.rows⟩ :: outer
  have hcount : exec ((Expr.aggregate .count true (some e)).evaluate a.toSurroundings scope) w₁ =
      (.ok (.bigInt (Int64.ofInt (classCount values))), w₂) := by
    have hrows : exec (Expr.evaluateRows a.toSurroundings scope r.rows (some e)) w₁ =
        (.ok values, w₂) := by
      unfold Expr.evaluateRows
      exact hvalues
    unfold Expr.evaluate
    show exec (Expr.evaluateRows a.toSurroundings scope r.rows (some e) >>= _) w₁ = _
    rw [exec_bind_ok hrows, exec_ofExcept, reduce_count_distinct htype hkind]
  have hrow : exec (outputRow a scope [⟨.aggregate .count true (some e), c⟩]) w₁ =
      (.ok [.bigInt (Int64.ofInt (classCount values))], w₂) := by
    unfold outputRow
    rw [mapM_singleton, exec_bind_ok hcount]
    rfl
  have hgroup : exec ([r.rows].mapM (groupOutput a outer r.columns none
      [⟨.aggregate .count true (some e), c⟩])) w₁ =
        (.ok [some [.bigInt (Int64.ofInt (classCount values))]], w₂) := by
    rw [mapM_singleton]
    exact exec_bind_ok (exec_bind_ok hrow)
  unfold Plan.run
  rw [exec_bind_ok hsource, exec_bind_ok exec_groupRows_nil, exec_bind_ok hgroup]
  rfl

/-- GROUP BY an expression. -/
theorem exec_run_group (having : Option Expression) (outputs : List Output)
    (hsource : exec (source.run a outer) w = (.ok r, w₁))
    (hvalues : exec (valuesOn a outer r e) w₁ = (.ok values, w₂)) :
    exec ((source.group [e] having outputs).run a outer) w = exec (outputGroups a outer r.columns having outputs
      (((groupPlaces (values.map fun v => [v])).map Prod.snd).map
        (List.map fun i => r.rows.getD i []))) w₂ := by
  have hkeys : exec (keysOfRows a outer r.columns [e] r.rows) w₁ = (.ok (values.map fun v => [v]), w₂) := by
    unfold keysOfRows
    simp only [mapM_singleton]
    exact exec_mapM_map _ hvalues
  unfold Plan.run
  rw [exec_bind_ok hsource, exec_bind_ok (exec_groupRows (List.cons_ne_nil _ _) hkeys).2]
  rfl

/-- Take the values of an expression on the rows of a source, all of one kind other than that of documents or
NULL. SELECT DISTINCT keeps the first occurrence of each class of equal values, in the order of the rows. Of the
values that it keeps as many are not NULL as GROUP BY forms groups of values that are not NULL, as
COUNT(DISTINCT) counts, and as there are for the same values in any other order. -/
theorem Plan.duplicates_removed_alike (c c' : ResultColumn) {type : DataType}
    (hsource : exec (source.run a outer) w = (.ok r, w₁))
    (hvalues : exec (valuesOn a outer r e) w₁ = (.ok values, w₂)) (htype : type ≠ .jsonb)
    (hkind : ∀ v ∈ values, v.Among [type]) :
    ∃ count parts,
      exec ((distinct (.project source [⟨e, c⟩])).run a outer) w =
        (.ok ⟨fillTypes (values.map fun v => [v]) [c],
          (firsts totalCompare values).map fun v => [v]⟩, w₂) ∧
      (present (firsts totalCompare values)).length = count ∧
      Partitions (values.map fun v => [v]) parts ∧
      (∀ having outputs, exec ((source.group [e] having outputs).run a outer) w =
        exec (outputGroups a outer r.columns having outputs
          (parts.map (List.map fun i => r.rows.getD i []))) w₂) ∧
      (parts.filter (presentAt values)).length = count ∧
      exec ((source.group [] none [⟨.aggregate .count true (some e), c'⟩]).run a outer) w =
        (.ok (outputRelation [⟨.aggregate .count true (some e), c'⟩] [[.bigInt (Int64.ofInt count)]]), w₂) ∧
      ∀ others : List Value, others.Perm values → (present (firsts totalCompare others)).length = count :=
  ⟨classCount values, (groupPlaces (values.map fun v => [v])).map Prod.snd,
    exec_run_distinct c hsource hvalues htype hkind, rfl, partitions_groupPlaces (uniform_singletons htype hkind),
    fun having outputs => exec_run_group having outputs hsource hvalues, length_present_groups htype hkind,
    exec_run_count_distinct c' hsource hvalues htype hkind,
    fun _ hperm => classCount_perm htype hkind hperm⟩

end

namespace Sample

/-- Each item beside each of them. -/
def pairsOf (d : TableDefinition) : Plan := .join .cross (.scan d none) (.scan d (some "other")) none []

/-- `CASE WHEN items.id = 2 THEN items.id END`, which is NULL beside the first item. -/
def secondOnly : Expression :=
  .cases none [(.binary .equal (.column (some "items") "id") (.literal (.integer 2)),
    .column (some "items") "id")] none

/-- The column of the results. -/
def unnamed : ResultColumn := ⟨none, "n", none⟩

theorem pairs_without_duplicates :
    ∃ d r w values w' parts, filled.database.catalog ⟨none, "items"⟩ = .ok d ∧
      exec ((pairsOf d).run asking []) reading = (.ok r, w) ∧
      exec (valuesOn asking [] r secondOnly) w = (.ok values, w') ∧
      values.map Value.datatype = [none, none, some .integer, some .integer] ∧
      exec ((Plan.distinct (.project (pairsOf d) [⟨secondOnly, unnamed⟩])).run asking []) reading =
        (.ok ⟨fillTypes (values.map fun v => [v]) [unnamed],
          (firsts Value.totalCompare values).map fun v => [v]⟩, w') ∧
      (present (firsts Value.totalCompare values)).length = 1 ∧
      Partitions (values.map fun v => [v]) parts ∧ (parts.filter (presentAt values)).length = 1 ∧
      exec (((pairsOf d).group [] none [⟨.aggregate .count true (some secondOnly), unnamed⟩]).run asking [])
          reading =
        (.ok (outputRelation [⟨.aggregate .count true (some secondOnly), unnamed⟩] [[.bigInt 1]]), w') := by
  have hcomputed : (filled.database.catalog ⟨none, "items"⟩).toOption.any (fun d =>
      (exec ((pairsOf d).run asking []) reading).1.toOption.any fun r =>
        (exec (valuesOn asking [] r secondOnly) (exec ((pairsOf d).run asking []) reading).2).1.toOption.any
          fun values => values.map Value.datatype == [none, none, some .integer, some .integer] &&
            (present (firsts Value.totalCompare values)).length == 1) = true := by
    decide +kernel
  obtain ⟨d, hd, hran⟩ := exists_ok_of_any hcomputed
  obtain ⟨r, hr, hran⟩ := exists_ok_of_any hran
  obtain ⟨values, hvalues, hran⟩ := exists_ok_of_any hran
  have hsource : exec ((pairsOf d).run asking []) reading = (.ok r, _) := Prod.ext hr rfl
  have hextracted : exec (valuesOn asking [] r secondOnly) _ = (.ok values, _) := Prod.ext hvalues rfl
  obtain ⟨htypes, hlength⟩ := Bool.and_eq_true_iff.mp hran
  have htypes := beq_iff_eq.mp htypes
  have hkind : ∀ v ∈ values, v.Among [.integer] := by
    intro v hv t ht
    have hmem : v.datatype ∈ values.map Value.datatype := List.mem_map_of_mem hv
    rw [htypes, ht] at hmem
    simpa using hmem
  obtain ⟨count, parts, hdistinct, hcount, hparts, -, hgroups, haggregate, -⟩ :=
    Plan.duplicates_removed_alike unnamed unnamed hsource hextracted (by decide) hkind
  cases (beq_iff_eq.mp hlength).symm.trans hcount
  exact ⟨d, r, _, values, _, parts, hd, hsource, hextracted, htypes, hdistinct, hcount, hparts, hgroups,
    haggregate⟩

end Sample

end SqlStore
