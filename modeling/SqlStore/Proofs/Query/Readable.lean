import SqlStore.Proofs.Operator.Failures
import SqlStore.Proofs.Query.Layout
import SqlStore.Proofs.Run

/-!
# Expressions that were checked

Planning checks an expression against columns; running evaluates it against rows. If the rows come with the
columns that the check saw, types apart, then every reference that the check bound has a value, and an
aggregate stands only where rows are grouped. So of the failures that planning is there to prevent,
`Error.IsNaming`, none occurs. Queries inside an expression are planned when they are asked, so what is
said here is about expressions without them.
-/

namespace SqlStore

open Run

open ResultColumn (key)

/-- The failures that planning is there to prevent, and broken invariants. -/
inductive Error.IsNaming : Error → Prop
  /-- A reference fits no column. -/
  | unknown (table : Option String) (name : String) : IsNaming (ResultColumn.unknown table name)
  /-- A reference fits two columns. -/
  | ambiguous (name : String) :
    IsNaming (.execution ("column reference " ++ quoteName name ++ " is ambiguous"))
  /-- An aggregate stands where there is no group. -/
  | notAllowed (f : AggregateFunction) : IsNaming f.notAllowed
  | internal (message : String) : IsNaming (.internal message)

/-- The wording of a failure on values never begins as that of one about names. -/
theorem Error.IsOperational.not_isNaming {err : Error} (h : err.IsOperational) : ¬ err.IsNaming := by
  intro hnaming
  cases hnaming with
  | unknown table name => cases table <;> simp [ResultColumn.unknown, IsOperational] at h
  | ambiguous name => simp [IsOperational] at h
  | notAllowed f => simp [AggregateFunction.notAllowed, IsOperational] at h
  | internal message => exact h

/-! ## References -/

theorem ResultColumn.lt_of_resolve {columns : List ResultColumn} {table : Option String}
    {name : String} {i : Nat} (h : resolve columns table name = .ok (some i)) :
    i < columns.length := by
  unfold resolve at h
  split at h
  · cases h
  · next j hj =>
    split at h
    · cases h
    · cases h
      exact (List.findIdx?_eq_some_iff_findIdx_eq.mp hj).1

namespace Scope

/-- Every frame has one value for each of its columns. -/
def Filled (scope : Scope) : Prop := ∀ f ∈ scope, f.row.length = f.columns.length

/-- The frames of a scope have the columns of those of a check, types apart. -/
def Alike (check scope : Scope) : Prop :=
  List.Forall₂ (fun c f : Frame => f.columns.map key = c.columns.map key) check scope

theorem alike_self (scope : Scope) : Alike scope scope :=
  List.forall₂_same.mpr fun _ _ => rfl

/-- A reference that the check bound has a value. -/
theorem exists_of_binds {check scope : Scope} (h : Alike check scope) (hfilled : scope.Filled)
    {table : Option String} {name : String} (hbinds : check.binds table name = .ok true) :
    ∃ v, scope.value table name = .ok v := by
  induction h with
  | nil => cases hbinds
  | @cons c f check scope hkeys hrest ih =>
    obtain ⟨hrow, hfilled⟩ := List.forall_mem_cons.mp hfilled
    obtain ⟨found, hfound, hbinds⟩ := Except.exists_of_bind_eq_ok hbinds
    rw [← ResultColumn.resolve_of_keys hkeys] at hfound
    unfold value
    rw [hfound]
    cases found with
    | none => exact ih hfilled hbinds
    | some i =>
      have hlt : i < f.row.length := hrow ▸ ResultColumn.lt_of_resolve hfound
      refine ⟨f.row[i], ?_⟩
      dsimp only [bind, Except.bind]
      rw [List.getElem?_eq_getElem hlt]

end Scope

/-! ## Checked expressions -/

/-- What was made sure of for a part of an expression: it is bound in the scope of the check, it is no
query, and if it is an aggregate, then there is a group, and its argument has no aggregate inside. -/
structure Sure (check scope : Scope) (x : Expression) : Prop where
  reference : x.checkReference check = .ok ⟨⟩
  query : x.ownQuery? = none
  flat : ∀ f distinct arg, x = .aggregate f distinct (some arg) → arg.hasAggregate = false
  grouped : x.isAggregate = true → scope.group?.isSome

/-- An expression that was checked against the columns of a scope that has values for all of them, also
in the rows of its group. -/
structure Readable (scope : Scope) (e : Expression) : Prop where
  filled : scope.Filled
  group : ∀ rows ∈ scope.group?, ∀ row ∈ rows, (scope.ofGroupRow row).Filled
  sure : ∃ check, Scope.Alike check scope ∧ ∀ x ∈ e.subexpressions, Sure check scope x

/-- Calls that end as they may, whatever they are compared with. -/
def ending {σ : Type} (P : σ → Prop) (E : Error → Prop) : Parallel (Run σ) (Run σ) where
  Rel c _ := Ends P c (fun _ => True) E
  Admits := E
  pure _ := ends_pure trivial
  throw h := ends_throw h
  bind hc hf := hc.bind fun a _ => hf a

namespace Readable

variable {scope : Scope} {e : Expression}

theorem operand (h : Readable scope e) {x : Expression} (hx : x ∈ e.operands) : Readable scope x := by
  obtain ⟨check, hcheck, hsure⟩ := h.sure
  exact ⟨h.filled, h.group, check, hcheck,
    fun y hy => hsure y (Expr.mem_subexpressions_of_operand hx hy)⟩

/-- The argument of an aggregate is read from the rows of the group; it has no aggregates, so it needs no
group itself. -/
theorem argument {f : AggregateFunction} {distinct : Bool}
    (h : Readable scope (.aggregate f distinct (some e))) {rows : List Tuple} {row : Tuple}
    (hrows : scope.group? = some rows) (hrow : row ∈ rows) :
    Readable (scope.ofGroupRow row) e := by
  obtain ⟨check, hcheck, hsure⟩ := h.sure
  have hflat : e.hasAggregate = false :=
    (hsure _ (Expr.mem_subexpressions_self _)).flat f distinct e rfl
  refine ⟨h.group rows hrows row hrow, ?_, check, ?_, fun x hx => ?_⟩
  · cases scope with
    | nil => exact nofun
    | cons frame outer => exact nofun
  · cases scope with
    | nil => exact hcheck
    | cons frame outer =>
      cases hcheck with
      | cons hkeys hrest => exact .cons hkeys hrest
  · have hpart := hsure x (Expr.mem_subexpressions_of_operand (by simp [Expr.operands]) hx)
    refine ⟨hpart.reference, hpart.query, hpart.flat, fun haggregate => ?_⟩
    exact absurd haggregate (List.any_eq_false.mp hflat x hx)

variable {σ : Type} {P : σ → Prop} {E : Error → Prop} {s : Surroundings Select (Run σ)}

/-- A checked expression has a value, or fails on values or in a function. -/
theorem ends_evaluate (ho : Operations E)
    (hcall : ∀ name args, Ends P (s.call name args) (fun _ => True) E) (h : Readable scope e) :
    Ends P (e.evaluate s scope) (fun _ => True) E := by
  have hevaluable : Expr.Evaluable (ending P E) s s Readable :=
    { operations := ho
      operand := fun hok _ hx => hok.operand hx
      argument := fun hok hrows hrow => hok.argument hrows hrow
      column := by
        intro scope table name err hok herr
        obtain ⟨check, hcheck, hsure⟩ := hok.sure
        have hreference := (hsure _ (Expr.mem_subexpressions_self _)).reference
        obtain ⟨bound, hbound, hreference⟩ := Except.exists_of_bind_eq_ok hreference
        cases bound with
        | false => cases hreference
        | true =>
          obtain ⟨v, hv⟩ := Scope.exists_of_binds hcheck hok.filled hbound
          cases herr.symm.trans hv
      grouped := by
        intro scope f distinct arg hok hnone
        obtain ⟨check, -, hsure⟩ := hok.sure
        have hsome := (hsure _ (Expr.mem_subexpressions_self _)).grouped rfl
        rw [hnone] at hsome
        cases hsome
      query := by
        intro scope e q hok hquery
        obtain ⟨check, -, hsure⟩ := hok.sure
        have hnone := (hsure _ (Expr.mem_subexpressions_self _)).query
        cases hquery.symm.trans hnone
      call := fun _ values => hcall _ values }
  exact Expr.parallel_evaluate hevaluable e scope h

end Readable

/-! ## What the checks make sure of -/

section

variable {check scope : Scope} {e : Expression}

theorem sure_of_checkColumns (hcolumns : e.checkColumns check = .ok ⟨⟩) (hqueries : e.queries = [])
    (hflat : e.hasNestedAggregate = false)
    (hgrouped : e.hasAggregate = true → scope.group?.isSome) :
    ∀ x ∈ e.subexpressions, Sure check scope x := by
  intro x hx
  refine ⟨Except.forall_of_forM_eq_ok hcolumns x hx, ?_, ?_, ?_⟩
  · exact List.filterMap_eq_nil_iff.mp hqueries x hx
  · rintro f distinct arg rfl
    simpa using List.any_eq_false.mp hflat _ hx
  · exact fun haggregate => hgrouped (List.any_eq_true.mpr ⟨x, hx, haggregate⟩)

/-- A clause that is evaluated row by row has no aggregate, so it needs no group. -/
theorem sure_of_checkClause {clause : String} (h : e.checkClause check clause = .ok ⟨⟩)
    (hqueries : e.queries = []) : ∀ x ∈ e.subexpressions, Sure check scope x := by
  obtain ⟨⟨⟩, hrequire, hcolumns⟩ := Except.exists_of_bind_eq_ok h
  have hnone : e.hasAggregate = false := by
    simpa using require_eq_ok.mp hrequire
  refine sure_of_checkColumns hcolumns hqueries ?_ fun hsome => ?_
  · refine List.any_eq_false.mpr fun x hx => ?_
    have hplain := List.any_eq_false.mp hnone x hx
    cases x with
    | aggregate f distinct arg => exact absurd rfl hplain
    | _ => exact Bool.false_ne_true
  · rw [hnone] at hsome
    cases hsome

/-- A clause that may aggregate, where rows are grouped or it does not. -/
theorem sure_of_checkAggregating (h : e.checkAggregating check = .ok ⟨⟩) (hqueries : e.queries = [])
    (hgrouped : e.hasAggregate = true → scope.group?.isSome) :
    ∀ x ∈ e.subexpressions, Sure check scope x := by
  obtain ⟨⟨⟩, hcolumns, hnesting⟩ := Except.exists_of_bind_eq_ok h
  refine sure_of_checkColumns hcolumns hqueries ?_ hgrouped
  simpa using require_eq_ok.mp hnesting

end

/-- A scope that was made for the columns of a check: a frame that fits them in front of the same outer
scope. -/
theorem readable_of_fits {columns : List ResultColumn} {grouped : Bool} {frame : Frame}
    {outer : Scope} (hframe : frame.Fits columns grouped) (houter : outer.Filled) {e : Expression}
    (hsure : ∀ x ∈ e.subexpressions, Sure (.ofColumns columns :: outer) (frame :: outer) x) :
    Readable (frame :: outer) e := by
  have hlength := ResultColumn.length_of_keys hframe.keys
  refine ⟨?_, ?_, _, .cons hframe.keys (Scope.alike_self outer), hsure⟩
  · exact List.forall_mem_cons.mpr ⟨hframe.width.trans hlength.symm, houter⟩
  · intro rows hrows row hrow
    refine List.forall_mem_cons.mpr ⟨?_, houter⟩
    exact (hframe.group rows hrows row hrow).trans hlength.symm

end SqlStore
