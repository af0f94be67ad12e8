import SqlStore.Proofs.Alike
import SqlStore.Proofs.Query.Readable
import SqlStore.Proofs.Value.Order
import SqlStore.Query.Planning

/-!
# What grouped expressions read
-/

namespace SqlStore

namespace Expr

variable {σ : Type} {same : Expr σ → Expr σ → Bool} {keys : List (Expr σ)}
variable {columns : List ResultColumn}

theorem forall_of_checkAllGrouped {es : List (Expr σ)}
    (h : checkAllGrouped same keys columns es = .ok ⟨⟩) :
    ∀ x ∈ es, x.checkGrouped same keys columns = .ok ⟨⟩ := by
  induction es with
  | nil => exact nofun
  | cons e es ih =>
    rw [checkAllGrouped] at h
    obtain ⟨⟨⟩, he, hes⟩ := Except.exists_of_bind_eq_ok h
    exact List.forall_mem_cons.mpr ⟨he, ih hes⟩

theorem forall_of_checkOptionGrouped {o : Option (Expr σ)}
    (h : checkOptionGrouped same keys columns o = .ok ⟨⟩) :
    ∀ x ∈ o.toList, x.checkGrouped same keys columns = .ok ⟨⟩ := by
  cases o with
  | none => exact nofun
  | some e =>
    rw [checkOptionGrouped] at h
    exact List.forall_mem_singleton.mpr h

theorem forall_of_checkBranchesGrouped {branches : List (Expr σ × Expr σ)}
    (h : checkBranchesGrouped same keys columns branches = .ok ⟨⟩) :
    ∀ x ∈ branches.flatMap (fun b => [b.1, b.2]), x.checkGrouped same keys columns = .ok ⟨⟩ := by
  induction branches with
  | nil => exact nofun
  | cons branch branches ih =>
    rw [checkBranchesGrouped] at h
    obtain ⟨⟨⟩, hcondition, h⟩ := Except.exists_of_bind_eq_ok h
    obtain ⟨⟨⟩, hresult, h⟩ := Except.exists_of_bind_eq_ok h
    exact List.forall_mem_cons.mpr ⟨hcondition, List.forall_mem_cons.mpr ⟨hresult, ih h⟩⟩

/-- What stands inside an expression that is no key passes the check, too. -/
theorem checkGrouped_operand {e : Expr σ} (hkey : keys.any (same · e) = false)
    (hplain : e.isAggregate = false) (h : e.checkGrouped same keys columns = .ok ⟨⟩) :
    ∀ x ∈ e.operands, x.checkGrouped same keys columns = .ok ⟨⟩ := by
  unfold checkGrouped at h
  rw [hkey] at h
  cases e with
  | literal _ | column _ _ | exists_ _ | subquery _ => exact nofun
  | aggregate _ _ _ => cases hplain
  | unary _ e | isNull e _ | cast e _ | inQuery e _ _ => exact List.forall_mem_singleton.mpr h
  | binary _ l r =>
    obtain ⟨⟨⟩, hl, hr⟩ := Except.exists_of_bind_eq_ok h
    exact List.forall_mem_cons.mpr ⟨hl, List.forall_mem_singleton.mpr hr⟩
  | like e pattern _ _ =>
    obtain ⟨⟨⟩, he, hpattern⟩ := Except.exists_of_bind_eq_ok h
    exact List.forall_mem_cons.mpr ⟨he, List.forall_mem_singleton.mpr hpattern⟩
  | inList e items _ =>
    obtain ⟨⟨⟩, he, hitems⟩ := Except.exists_of_bind_eq_ok h
    exact List.forall_mem_cons.mpr ⟨he, forall_of_checkAllGrouped hitems⟩
  | between e low high _ =>
    obtain ⟨⟨⟩, he, h⟩ := Except.exists_of_bind_eq_ok h
    obtain ⟨⟨⟩, hlow, hhigh⟩ := Except.exists_of_bind_eq_ok h
    exact List.forall_mem_cons.mpr ⟨he, List.forall_mem_cons.mpr
      ⟨hlow, List.forall_mem_singleton.mpr hhigh⟩⟩
  | cases operand branches otherwise =>
    obtain ⟨⟨⟩, hoperand, h⟩ := Except.exists_of_bind_eq_ok h
    obtain ⟨⟨⟩, hbranches, hotherwise⟩ := Except.exists_of_bind_eq_ok h
    exact List.forall_mem_append.mpr ⟨forall_of_checkOptionGrouped hoperand,
      List.forall_mem_append.mpr ⟨forall_of_checkBranchesGrouped hbranches,
        forall_of_checkOptionGrouped hotherwise⟩⟩
  | call _ args => exact forall_of_checkAllGrouped h

/-! ## Columns of discrete kinds -/

/-- The expression is a column of a type whose values have a total order. -/
def isDiscrete (columns : List ResultColumn) (e : Expr σ) : Bool :=
  match e with
  | column table name => ((column table name : Expr σ).type? columns).any fun t =>
      DataType.discrete.contains t.kind
  | _ => false

/-- The place of the column that a reference fits. -/
def place (columns : List ResultColumn) : Expr σ → Nat
  | column table name => match ResultColumn.resolve columns table name with
    | .ok (some i) => i
    | _ => 0
  | _ => 0

/-- A reference that does not see columns apart from those of keys: it fits one of these, or none at all. -/
def namesGroup (columns : List ResultColumn) (keys : List (Expr σ)) (table : Option String)
    (name : String) : Bool :=
  match ResultColumn.resolve columns table name with
  | .ok (some i) => keys.any (·.place columns == i)
  | _ => true

/-- Where the expression aggregates, it counts or compares rows or columns of discrete kinds. -/
def comparesDiscrete (columns : List ResultColumn) (e : Expr σ) : Bool :=
  e.subexpressions.all fun
    | aggregate f _ arg => AggregateFunction.comparing.contains f && arg.all (·.isDiscrete columns)
    | _ => true

theorem namesGroup_of_checkGroupedColumn {table : Option String} {name : String}
    (h : checkGroupedColumn keys columns table name = .ok ⟨⟩) :
    namesGroup columns keys table name = true := by
  unfold checkGroupedColumn at h
  obtain ⟨found, hfound, h⟩ := Except.exists_of_bind_eq_ok h
  unfold namesGroup
  rw [hfound]
  cases found with
  | none => rfl
  | some i =>
    obtain ⟨key, hkey, hmatch⟩ := List.any_eq_true.mp (require_eq_ok.mp h)
    split at hmatch
    · split at hmatch
      · next t n _ j hj =>
        have hplace : (column t n : Expr σ).place columns = j := by
          simp only [place, hj]
        refine List.any_eq_true.mpr ⟨_, hkey, ?_⟩
        rw [hplace]
        exact hmatch
      · cases hmatch
    · cases hmatch

/-- A column whose values are of one discrete kind. -/
structure Discrete (columns : List ResultColumn) (e : Expr σ) (t : DataType) : Prop where
  reference : ∃ table name, e = column table name ∧
    ResultColumn.resolve columns table name = .ok (some (e.place columns))
  datatype : (columns[e.place columns]?).bind (·.datatype) = some t
  discrete : t.kind ∈ DataType.discrete

theorem exists_of_isDiscrete {e : Expr σ} (h : e.isDiscrete columns = true) :
    ∃ t, e.Discrete columns t := by
  unfold isDiscrete at h
  split at h
  · next table name =>
    obtain ⟨t, htype, hkind⟩ := (Option.any_eq_true _ _).mp h
    rw [type?] at htype
    cases hresolve : ResultColumn.resolve columns table name with
    | error err =>
      rw [hresolve] at htype
      cases htype
    | ok found =>
      cases found with
      | none =>
        rw [hresolve] at htype
        cases htype
      | some i =>
        rw [hresolve] at htype
        have hplace : (column table name : Expr σ).place columns = i := by
          simp only [place, hresolve]
        exact ⟨t, ⟨table, name, rfl, hplace ▸ hresolve⟩, hplace ▸ htype, List.contains_iff_mem.mp hkind⟩
  · cases h

end Expr

/-- Every value of a row is NULL or of the kind of its column's type, where that is known. -/
def TypedRow (columns : List ResultColumn) (row : Tuple) : Prop :=
  List.Forall₂ (fun c (v : Value) => ∀ t, c.datatype = some t → v.Among [t.kind]) columns row

namespace Expr.Discrete

variable {σ : Type} {columns : List ResultColumn} {e : Expr σ} {t : DataType} {row : Tuple}

theorem exists_of_typedRow (h : e.Discrete columns t) (hrow : TypedRow columns row) :
    ∃ v, row[e.place columns]? = some v ∧ v.Among [t.kind] := by
  obtain ⟨c, hc, ht⟩ := Option.bind_eq_some_iff.mp h.datatype
  obtain ⟨hlt, rfl⟩ := List.getElem?_eq_some_iff.mp hc
  obtain ⟨hlength, hvalues⟩ := List.forall₂_iff_get.mp hrow
  have hlt' : e.place columns < row.length := hlength ▸ hlt
  exact ⟨row[e.place columns], List.getElem?_eq_getElem hlt', hvalues _ hlt hlt' t ht⟩

theorem evaluate {f : Frame} (h : e.Discrete f.columns t) (hrow : TypedRow f.columns f.row)
    (s : Surroundings σ (Except Error)) (outer : Scope) :
    e.evaluate s (f :: outer) = .ok (f.row.getD (e.place f.columns) .null) := by
  obtain ⟨table, name, he, hresolve⟩ := h.reference
  obtain ⟨v, hv, -⟩ := h.exists_of_typedRow hrow
  rw [List.getD_eq_getElem?_getD, hv, he, Expr.evaluate, Scope.value_of_resolve hresolve hv]
  rfl

theorem among (h : e.Discrete columns t) (hrow : TypedRow columns row) :
    (row.getD (e.place columns) .null).Among [t.kind] := by
  obtain ⟨v, hv, hamong⟩ := h.exists_of_typedRow hrow
  rw [List.getD_eq_getElem?_getD, hv]
  exact hamong

end Expr.Discrete

/-! ## Groups in two orders -/

/-- The frame of a group: the columns of its first row, and its rows. -/
def Frame.ofGroup (columns : List ResultColumn) (rows : List Tuple) : Frame :=
  ⟨columns, rows.headD (List.replicate columns.length .null), some rows⟩

/-- The values of a row under the grouping keys. -/
def keyOf (columns : List ResultColumn) (keys : List Expression) (row : Tuple) : Tuple :=
  keys.map fun key => row.getD (key.place columns) .null

/-- A group of known rows, in two orders. -/
structure SameGroup (columns : List ResultColumn) (keys : List Expression)
    (known rows rows' : List Tuple) : Prop where
  perm : rows.Perm rows'
  subset : rows ⊆ known
  keyed : ∀ row ∈ rows, ∀ row' ∈ rows, keyOf columns keys row = keyOf columns keys row'

/-- Rows of the types of their columns, and grouping keys that are columns of discrete kinds. -/
structure Groupable (columns : List ResultColumn) (keys : List Expression) (known : List Tuple) :
    Prop where
  typed : ∀ row ∈ known, TypedRow columns row
  keys : ∀ key ∈ keys, key.isDiscrete columns = true

/-- An expression of a grouped query that was checked and that counts and compares, with queries that come
to the same over a group in two orders. -/
structure Expr.Grouped (a b : Access (Except Error)) (outer : Scope) (columns : List ResultColumn)
    (keys : List Expression) (known : List Tuple) (e : Expression) : Prop where
  checked : e.checkGrouped sameExpression keys columns = .ok ⟨⟩
  comparing : e.comparesDiscrete columns = true
  query : ∀ q ∈ e.queries, ∀ rows rows', SameGroup columns keys known rows rows' →
    Alike Eq (a.query q (.ofGroup columns rows :: outer)) (b.query q (.ofGroup columns rows' :: outer))

/-- Checks with equal results or failures of both. -/
def Parallel.alike : Parallel (Except Error) (Except Error) where
  Rel := Alike Eq
  Admits _ := True
  pure := fun _ => rfl
  throw := fun _ => trivial
  bind := by
    intro α β c d f g h hf
    refine h.bind ?_
    rintro x _ rfl
    exact hf x

theorem typedRow_null (columns : List ResultColumn) :
    TypedRow columns (List.replicate columns.length .null) := by
  induction columns with
  | nil => exact .nil
  | cons c columns ih => exact .cons (fun t _ => Value.among_null [t.kind]) ih

variable {a b : Access (Except Error)} {outer : Scope} {columns : List ResultColumn}
variable {keys : List Expression} {known rows rows' : List Tuple} {e : Expression}

theorem column_of_same {key : Expression} (hkey : key.isDiscrete columns = true)
    (h : sameExpression key e = true) : e = key := by
  unfold Expr.isDiscrete at hkey
  split at hkey
  · next table name =>
    unfold sameExpression at h
    cases e
    case column t n =>
      rw [Expr.same, Bool.and_eq_true, beq_iff_eq, beq_iff_eq] at h
      rw [h.1, h.2]
    all_goals
      unfold Expr.same at h
      cases h
  · cases hkey

namespace Expr.Grouped

/-- What stands inside an expression that does not aggregate. -/
theorem operand (h : e.Grouped a b outer columns keys known) (hg : Groupable columns keys known)
    (hplain : e.isAggregate = false) {x : Expression} (hx : x ∈ e.operands) :
    x.Grouped a b outer columns keys known where
  checked := by
    cases hsame : keys.any (sameExpression · e) with
    | true =>
      -- nothing stands inside a key
      obtain ⟨key, hkey, hsame⟩ := List.any_eq_true.mp hsame
      obtain ⟨t, hkind⟩ := exists_of_isDiscrete (hg.keys key hkey)
      obtain ⟨table, name, hcolumn, -⟩ := hkind.reference
      rw [column_of_same (hg.keys key hkey) hsame, hcolumn] at hx
      cases hx
    | false => exact checkGrouped_operand hsame hplain h.checked x hx
  comparing := List.all_eq_true.mpr fun y hy =>
    List.all_eq_true.mp h.comparing y (mem_subexpressions_of_operand hx hy)
  query q hq := h.query q (mem_queries_of_operand hx hq)

theorem of_aggregate {f : AggregateFunction} {distinct : Bool} {arg : Option Expression}
    (h : (Expr.aggregate f distinct arg).Grouped a b outer columns keys known) :
    f ∈ AggregateFunction.comparing ∧ ∀ e ∈ arg, e.isDiscrete columns = true := by
  have hself := List.all_eq_true.mp h.comparing _ (mem_subexpressions_self _)
  obtain ⟨hf, harg⟩ := Bool.and_eq_true_iff.mp hself
  exact ⟨List.contains_iff_mem.mp hf, fun e he => by
    cases Option.mem_def.mp he
    exact harg⟩

end Expr.Grouped

namespace SameGroup

theorem typed_head (hg : Groupable columns keys known) (hsubset : rows ⊆ known) :
    TypedRow columns (Frame.ofGroup columns rows).row := by
  cases rows with
  | nil => exact typedRow_null columns
  | cons row rows => exact hg.typed row (hsubset List.mem_cons_self)

theorem subset' (h : SameGroup columns keys known rows rows') : rows' ⊆ known :=
  fun _ hrow => h.subset (h.perm.mem_iff.mpr hrow)

/-- The first rows have the same key. -/
theorem key_head (h : SameGroup columns keys known rows rows') :
    keyOf columns keys (Frame.ofGroup columns rows).row =
      keyOf columns keys (Frame.ofGroup columns rows').row := by
  cases rows with
  | nil => rw [List.nil_perm.mp h.perm]
  | cons row rows =>
    cases rows' with
    | nil => cases List.perm_nil.mp h.perm
    | cons row' rows' =>
      exact h.keyed row List.mem_cons_self row' (h.perm.mem_iff.mpr List.mem_cons_self)

/-- A grouping key has the same value over both orders. -/
theorem evaluate_key (h : SameGroup columns keys known rows rows') (hg : Groupable columns keys known)
    {key : Expression} (hkey : key ∈ keys) (outer : Scope) :
    key.evaluate a.toSurroundings (.ofGroup columns rows :: outer) =
      key.evaluate b.toSurroundings (.ofGroup columns rows' :: outer) := by
  obtain ⟨t, hkind⟩ := Expr.exists_of_isDiscrete (hg.keys key hkey)
  have hvalue := List.map_eq_map_iff.mp h.key_head key hkey
  rw [hkind.evaluate (f := .ofGroup columns rows) (typed_head hg h.subset),
    hkind.evaluate (f := .ofGroup columns rows') (typed_head hg h.subset')]
  exact congrArg Except.ok hvalue

/-- A reference that sees only keys has the same value over both orders. -/
theorem value_of_namesGroup (h : SameGroup columns keys known rows rows')
    (hg : Groupable columns keys known) {table : Option String} {name : String}
    (hnamed : Expr.namesGroup columns keys table name = true) :
    Scope.value (.ofGroup columns rows :: outer) table name =
      Scope.value (.ofGroup columns rows' :: outer) table name := by
  unfold Expr.namesGroup at hnamed
  unfold Scope.value
  rw [show (Frame.ofGroup columns rows).columns = columns from rfl,
    show (Frame.ofGroup columns rows').columns = columns from rfl]
  cases hresolve : ResultColumn.resolve columns table name with
  | error err => rfl
  | ok found =>
    cases found with
    | none => rfl
    | some i =>
      -- the key at the same place
      rw [hresolve] at hnamed
      obtain ⟨key, hkey, hplace⟩ := List.any_eq_true.mp hnamed
      rw [beq_iff_eq] at hplace
      obtain ⟨kind, hkind⟩ := Expr.exists_of_isDiscrete (hg.keys key hkey)
      obtain ⟨v, hv, -⟩ := hkind.exists_of_typedRow (typed_head hg h.subset)
      obtain ⟨v', hv', -⟩ := hkind.exists_of_typedRow (typed_head hg h.subset')
      have hvalue := List.map_eq_map_iff.mp h.key_head key hkey
      rw [List.getD_eq_getElem?_getD, List.getD_eq_getElem?_getD, hv, hv'] at hvalue
      cases hvalue
      rw [hplace] at hv hv'
      simp only [bind, Except.bind, hv, hv']

/-- The values of a column of a discrete kind on the rows of a group. -/
theorem evaluateRows_column (hg : Groupable columns keys known) (hsubset : rows ⊆ known)
    (he : e.isDiscrete columns = true) :
    Expr.evaluateRows a.toSurroundings (.ofGroup columns rows :: outer) rows (some e) =
      .ok (rows.map fun row => row.getD (e.place columns) .null) := by
  obtain ⟨t, hkind⟩ := Expr.exists_of_isDiscrete he
  rw [Expr.evaluateRows]
  refine Except.mapM_eq_ok_map fun row hrow => ?_
  exact hkind.evaluate (f := .ofRow columns row) (hg.typed row (hsubset hrow)) _ _

/-- Counts and extremes of columns of discrete kinds are the same over both orders. -/
theorem evaluate_aggregate (h : SameGroup columns keys known rows rows')
    (hg : Groupable columns keys known) {f : AggregateFunction} {distinct : Bool}
    {arg : Option Expression} (hf : f ∈ AggregateFunction.comparing)
    (harg : ∀ e ∈ arg, e.isDiscrete columns = true) :
    (Expr.aggregate f distinct arg).evaluate a.toSurroundings (.ofGroup columns rows :: outer) =
      (Expr.aggregate f distinct arg).evaluate b.toSurroundings (.ofGroup columns rows' :: outer) := by
  obtain ⟨k, hk, value, hvalue, hrows⟩ : ∃ k ∈ DataType.discrete, ∃ value : Tuple → Value,
      (∀ row ∈ known, (value row).Among [k]) ∧ ∀ (a : Access (Except Error)) (rows : List Tuple),
        rows ⊆ known →
          Expr.evaluateRows a.toSurroundings (.ofGroup columns rows :: outer) rows arg =
            .ok (rows.map value) := by
    cases arg with
    | none =>
      refine ⟨.boolean, by decide, fun _ => .boolean true, fun _ _ => ?_, fun a rows _ => ?_⟩
      · exact Value.among_of_datatype rfl List.mem_cons_self
      · rw [Expr.evaluateRows]
        rfl
    | some e =>
      have he := harg e rfl
      obtain ⟨t, hkind⟩ := Expr.exists_of_isDiscrete he
      exact ⟨t.kind, hkind.discrete, _, fun row hrow => hkind.among (hg.typed row hrow),
        fun a rows hsubset => evaluateRows_column hg hsubset he⟩
  rw [Expr.evaluate, Expr.evaluate]
  show (Expr.evaluateRows _ _ rows arg >>= _) = (Expr.evaluateRows _ _ rows' arg >>= _)
  rw [hrows a rows h.subset, hrows b rows' h.subset']
  refine congrArg ofExcept (AggregateFunction.reduce_perm hk hf distinct (h.perm.map value) ?_)
  exact List.forall_mem_map.mpr fun row hrow => hvalue row (h.subset hrow)

/-- What an expression of a grouped query comes to over a group in two orders. -/
theorem alike_evaluate (h : SameGroup columns keys known rows rows') (hg : Groupable columns keys known)
    (hcall : a.call = b.call) (he : e.Grouped a b outer columns keys known) :
    Alike Eq (e.evaluate a.toSurroundings (.ofGroup columns rows :: outer))
      (e.evaluate b.toSurroundings (.ofGroup columns rows' :: outer)) := by
  have hrelated : Expr.Related .alike a.toSurroundings b.toSurroundings fun scope scope' e =>
      scope = .ofGroup columns rows :: outer ∧ scope' = .ofGroup columns rows' :: outer ∧
        e.Grouped a b outer columns keys known :=
    { operations := operations_of_forall fun _ => trivial
      operand := by
        rintro _ _ e x ⟨rfl, rfl, he⟩ hplain hx
        exact ⟨rfl, rfl, he.operand hg hplain hx⟩
      column := by
        rintro _ _ table name ⟨rfl, rfl, he⟩
        refine alike_of_eq ?_
        -- the column is a key, or it passed the check of columns
        cases hsame : keys.any (sameExpression · (.column table name)) with
        | true =>
          obtain ⟨key, hkey, hsame⟩ := List.any_eq_true.mp hsame
          have hvalue := h.evaluate_key (a := a) (b := b) hg hkey outer
          rwa [← column_of_same (hg.keys key hkey) hsame, Expr.evaluate, Expr.evaluate] at hvalue
        | false =>
          have hcheck := he.checked
          rw [Expr.checkGrouped, hsame] at hcheck
          exact congrArg ofExcept
            (h.value_of_namesGroup hg (Expr.namesGroup_of_checkGroupedColumn hcheck))
      aggregate := by
        rintro _ _ f distinct arg ⟨rfl, rfl, he⟩ -
        obtain ⟨hf, harg⟩ := he.of_aggregate
        exact alike_of_eq (h.evaluate_aggregate hg hf harg)
      query := by
        rintro _ _ e q ⟨rfl, rfl, he⟩ hq
        exact he.query q (Expr.mem_queries_of_own hq) rows rows' h
      call := by
        rintro _ _ name args - values
        exact alike_of_eq (congrFun (congrFun hcall name) values) }
  exact Expr.related_evaluate hrelated e _ _ ⟨rfl, rfl, he⟩

end SameGroup

end SqlStore
