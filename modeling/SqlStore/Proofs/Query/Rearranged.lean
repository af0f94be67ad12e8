import SqlStore.Proofs.Query.Agreement
import SqlStore.Proofs.Query.Layout
import SqlStore.Proofs.Query.OuterScope

/-!
# Columns in another order

A reference is to the one column that it fits, wherever that stands. So a row may be laid out in another order,
together with its columns: references are bound alike and have the same values, expressions without a group
around them are the same calls, and so are the queries inside them, down to every depth.
-/

namespace SqlStore

/-- References are bound alike in both scopes, and have the same values. -/
structure Scope.ReadsAs (scope scope' : Scope) : Prop where
  binds : scope.SameBinds scope'
  value : scope.value = scope'.value

theorem Scope.ReadsAs.cons {scope scope' : Scope} (h : scope.ReadsAs scope') (f : Frame) :
    ReadsAs (f :: scope) (f :: scope') := by
  refine ⟨h.binds.cons f, ?_⟩
  funext table name
  unfold Scope.value
  rw [h.value]

/-! ## References -/

namespace ResultColumn

/-- What a reference comes to by what it fits: one thing, or nothing, which leaves it to something else. -/
def theOne {α β : Type} (name : String) (otherwise : Except Error β) (f : α → β) : List α → Except Error β
  | [] => otherwise
  | [x] => .ok (f x)
  | _ => .error (.execution ("column reference " ++ quoteName name ++ " is ambiguous"))

theorem theOne_perm {α β : Type} {xs ys : List α} (h : xs.Perm ys) (name : String)
    (otherwise : Except Error β) (f : α → β) : theOne name otherwise f xs = theOne name otherwise f ys := by
  match xs with
  | [] =>
    rw [List.nil_perm.mp h]
  | [x] =>
    rw [List.singleton_perm.mp h]
  | x :: x' :: rest =>
    match ys, h.length_eq with
    | y :: y' :: rest', _ => rfl

variable {table : Option String} {name : String}

theorem resolve_of_none {columns : List ResultColumn} (h : ∀ c ∈ columns, ¬ fits table name c = true) :
    resolve columns table name = .ok none := by
  unfold resolve
  rw [List.findIdx?_eq_none_iff.mpr fun c hc => Bool.not_eq_true _ ▸ h c hc]

/-- The first column that a reference fits is the one, unless another one behind it fits. -/
theorem resolve_append {before after : List ResultColumn} {c : ResultColumn}
    (hbefore : ∀ d ∈ before, ¬ fits table name d = true) (hc : fits table name c = true) :
    resolve (before ++ c :: after) table name =
      theOne name (.ok none) (fun _ => some before.length) (c :: after.filter (fits table name)) := by
  have hfound : (before ++ c :: after).findIdx? (fits table name) = some before.length := by
    rw [List.findIdx?_append, List.findIdx?_eq_none_iff.mpr fun d hd => Bool.not_eq_true _ ▸ hbefore d hd,
      List.findIdx?_cons, if_pos hc]
    simp
  have hrest : (before ++ c :: after).drop (before.length + 1) = after := by simp
  unfold resolve
  rw [hfound]
  dsimp only
  rw [hrest]
  cases hfilter : after.filter (fits table name) with
  | nil =>
    rw [if_neg]
    · rfl
    · rw [Bool.not_eq_true, List.any_eq_false]
      exact List.filter_eq_nil_iff.mp hfilter
  | cons d rest =>
    rw [if_pos]
    · rfl
    · obtain ⟨hmem, hfits⟩ := List.mem_filter.mp (hfilter ▸ List.mem_cons_self)
      exact List.any_eq_true.mpr ⟨d, hmem, hfits⟩

end ResultColumn

namespace Scope

variable {outer : Scope} {table : Option String} {name : String}

/-- A reference in a row of columns with their values. -/
theorem value_cons (cells : List (ResultColumn × Value)) (group : Option (List Tuple)) (outer : Scope)
    (table : Option String) (name : String) :
    value (⟨cells.map Prod.fst, cells.map Prod.snd, group⟩ :: outer) table name =
      ResultColumn.theOne name (outer.value table name) Prod.snd
        (cells.filter fun p => ResultColumn.fits table name p.1) := by
  cases hcells : cells.filter fun p => ResultColumn.fits table name p.1 with
  | nil =>
    rw [value, ResultColumn.resolve_of_none (List.forall_mem_map.mpr (List.filter_eq_nil_iff.mp hcells))]
    rfl
  | cons p rest =>
    obtain ⟨before, after, rfl, hbefore, hp, rfl⟩ := List.filter_eq_cons_iff.mp hcells
    have hcolumns : (before ++ p :: after).map Prod.fst =
        before.map Prod.fst ++ p.1 :: after.map Prod.fst := by simp
    have hrow : ((before ++ p :: after).map Prod.snd)[(before.map Prod.fst).length]? = some p.2 := by simp
    have hresolve : ResultColumn.resolve ((before ++ p :: after).map Prod.fst) table name =
        ResultColumn.theOne name (.ok none) (fun _ => some (before.map Prod.fst).length)
          (p.1 :: (after.map Prod.fst).filter (ResultColumn.fits table name)) := by
      rw [hcolumns]
      exact ResultColumn.resolve_append (List.forall_mem_map.mpr hbefore) hp
    rw [List.filter_map] at hresolve
    cases hafter : after.filter fun p => ResultColumn.fits table name p.1 with
    | nil =>
      have hnone : after.filter (ResultColumn.fits table name ∘ Prod.fst) = [] := hafter
      rw [hnone] at hresolve
      exact value_of_resolve hresolve hrow
    | cons q rest =>
      have hmore : after.filter (ResultColumn.fits table name ∘ Prod.fst) = q :: rest := hafter
      rw [hmore] at hresolve
      rw [value, hresolve]
      rfl

theorem binds_cons (columns : List ResultColumn) (row : Tuple) (group : Option (List Tuple)) (outer : Scope)
    (table : Option String) (name : String) :
    binds (⟨columns, row, group⟩ :: outer) table name =
      ResultColumn.theOne name (outer.binds table name) (fun _ => true)
        (columns.filter (ResultColumn.fits table name)) := by
  rw [binds]
  cases hcolumns : columns.filter (ResultColumn.fits table name) with
  | nil =>
    rw [ResultColumn.resolve_of_none (List.filter_eq_nil_iff.mp hcolumns)]
    rfl
  | cons c rest =>
    obtain ⟨before, after, rfl, hbefore, hc, rfl⟩ := List.filter_eq_cons_iff.mp hcolumns
    dsimp only
    rw [ResultColumn.resolve_append hbefore hc]
    cases after.filter (ResultColumn.fits table name) <;> rfl

/-- Columns in another order bind the same references. -/
theorem sameBinds_of_perm {columns columns' : List ResultColumn} (h : columns.Perm columns') (row row' : Tuple)
    (group group' : Option (List Tuple)) (outer : Scope) :
    SameBinds (⟨columns, row, group⟩ :: outer) (⟨columns', row', group'⟩ :: outer) := by
  funext table name
  rw [binds_cons, binds_cons]
  exact ResultColumn.theOne_perm (h.filter _) _ _ _

/-- A row in another order of its columns reads as the row itself. -/
theorem readsAs_of_perm {columns columns' : List ResultColumn} {row row' : Tuple}
    (hrow : row.length = columns.length) (hrow' : row'.length = columns'.length)
    (h : (columns.zip row).Perm (columns'.zip row')) (outer : Scope) :
    ReadsAs (Frame.ofRow columns row :: outer) (Frame.ofRow columns' row' :: outer) := by
  have hcells : ∀ {cs : List ResultColumn} {vs : Tuple}, vs.length = cs.length →
      Frame.ofRow cs vs = ⟨(cs.zip vs).map Prod.fst, (cs.zip vs).map Prod.snd, none⟩ := by
    intro cs vs hlength
    rw [List.map_fst_zip (Nat.le_of_eq hlength.symm), List.map_snd_zip (Nat.le_of_eq hlength)]
    rfl
  rw [hcells hrow, hcells hrow']
  refine ⟨sameBinds_of_perm (h.map Prod.fst) _ _ _ _ _, ?_⟩
  funext table name
  rw [value_cons, value_cons]
  exact ResultColumn.theOne_perm (h.filter _) _ _ _

end Scope

/-! ## Queries and expressions -/

namespace Services

variable {m : Type → Type} [Monad m] [MonadExceptOf Error m] {s : Services m} {scope scope' : Scope}

/-- A query is the same call inside scopes that read alike: by induction on the depth. -/
theorem query_eq (s : Services m) (h : scope.ReadsAs scope') (depth : Nat) (q : Select) :
    (s.access depth).query q scope = (s.access depth).query q scope' := by
  induction depth generalizing q scope scope' with
  | zero => rfl
  | succ depth ih =>
    show s.runSelect _ q scope = s.runSelect _ q scope'
    unfold runSelect
    refine congrArg (s.catalog >>= ·) (funext fun c => ?_)
    rw [h.binds.ofSelect_eq]
    refine congrArg (ofExcept (Plan.ofSelect c scope' q) >>= ·) (funext fun p => ?_)
    refine parallel_run_under (L := .equality m) (fun _ => trivial) p (fun e _ => ?_) fun _ _ => rfl
    exact
      { query := fun _ _ _ => rfl
        call := fun _ _ _ => rfl
        inside := fun q _ f => ih (h.cons f) q
        column := fun table name _ f => by rw [(h.cons f).value]; rfl }

/-- An expression is the same call in scopes that read alike, where no group is around it. -/
theorem evaluate_eq (s : Services m) (h : scope.ReadsAs scope') (hgroup : scope.group? = none)
    (hgroup' : scope'.group? = none) (depth : Nat) (e : Expression) :
    e.evaluate (s.access depth).toSurroundings scope = e.evaluate (s.access depth).toSurroundings scope' := by
  have hrelated : Expr.Related (.equality m) (s.access depth).toSurroundings (s.access depth).toSurroundings
      fun s s' _ => s = scope ∧ s' = scope' :=
    { operations := operations_of_forall fun _ => trivial
      operand := fun hscopes _ _ => hscopes
      column := by
        rintro _ _ table name ⟨rfl, rfl⟩
        rw [h.value]
        rfl
      aggregate := by
        rintro _ _ f distinct arg ⟨rfl, rfl⟩ -
        rw [Expr.evaluate, Expr.evaluate, hgroup, hgroup']
        rfl
      query := by
        rintro _ _ e q ⟨rfl, rfl⟩ -
        exact query_eq s h depth q
      call := fun _ _ => rfl }
  exact Expr.related_evaluate hrelated e scope scope' ⟨rfl, rfl⟩

/-- So is a condition. -/
theorem holds_eq (s : Services m) (h : scope.ReadsAs scope') (hgroup : scope.group? = none)
    (hgroup' : scope'.group? = none) (depth : Nat) (clause : String) (e : Expression) :
    e.holds (s.access depth).toSurroundings scope clause =
      e.holds (s.access depth).toSurroundings scope' clause := by
  unfold Expr.holds
  rw [evaluate_eq s h hgroup hgroup']

end Services

end SqlStore
