import SqlStore.Syntax.Expr

/-!
# The operands of an expression

`Expr.operands` lists what stands right inside an expression, whatever its form keeps it in. Induction
over operands is one step for every form, and what is said of all parts of an expression is said of the
expression and of the parts of its operands.
-/

namespace SqlStore

namespace Expr

variable {σ : Type}

/-- The expressions right inside an expression, without entering queries. -/
def operands : Expr σ → List (Expr σ)
  | literal _ | column _ _ | exists_ _ | subquery _ => []
  | unary _ e | isNull e _ | inQuery e _ _ | cast e _ => [e]
  | binary _ l r => [l, r]
  | inList e items _ => e :: items
  | between e low high _ => [e, low, high]
  | like e pattern _ _ => [e, pattern]
  | cases operand branches otherwise =>
    operand.toList ++ (branches.flatMap (fun b => [b.1, b.2]) ++ otherwise.toList)
  | call _ args => args
  | aggregate _ _ arg => arg.toList

theorem sizeOf_branch_lt {branches : List (Expr σ × Expr σ)} {x : Expr σ}
    (h : x ∈ branches.flatMap (fun b => [b.1, b.2])) : sizeOf x < sizeOf branches := by
  obtain ⟨⟨condition, result⟩, hb, hx⟩ := List.mem_flatMap.mp h
  have hsize := List.sizeOf_lt_of_mem hb
  rw [Prod.mk.sizeOf_spec] at hsize
  simp only [List.mem_cons, List.not_mem_nil, or_false] at hx
  rcases hx with rfl | rfl <;> omega

theorem sizeOf_option_lt {x : Expr σ} {o : Option (Expr σ)} (h : x ∈ o.toList) :
    sizeOf x < sizeOf o := by
  rw [Option.mem_toList] at h
  cases h
  rw [Option.some.sizeOf_spec]
  omega

theorem sizeOf_operand_lt {e x : Expr σ} (h : x ∈ e.operands) : sizeOf x < sizeOf e := by
  cases e with
  | literal _ | column _ _ | exists_ _ | subquery _ => cases h
  | unary _ _ | isNull _ _ | inQuery _ _ _ | cast _ _ =>
    cases List.mem_singleton.mp h
    simp only [unary.sizeOf_spec, isNull.sizeOf_spec, inQuery.sizeOf_spec, cast.sizeOf_spec]
    omega
  | binary _ _ _ | between _ _ _ _ | like _ _ _ _ =>
    simp only [operands, List.mem_cons, List.not_mem_nil, or_false] at h
    simp only [binary.sizeOf_spec, between.sizeOf_spec, like.sizeOf_spec]
    rcases h with rfl | rfl | rfl <;> omega
  | inList _ items _ =>
    rw [inList.sizeOf_spec]
    rcases List.mem_cons.mp h with rfl | hx
    · omega
    · have := List.sizeOf_lt_of_mem hx
      omega
  | cases operand branches otherwise =>
    simp only [operands, List.mem_append] at h
    rw [cases.sizeOf_spec]
    rcases h with hx | hx | hx
    · have := sizeOf_option_lt hx
      omega
    · have := sizeOf_branch_lt hx
      omega
    · have := sizeOf_option_lt hx
      omega
  | call _ args =>
    have := List.sizeOf_lt_of_mem (show x ∈ args from h)
    rw [call.sizeOf_spec]
    omega
  | aggregate _ _ arg =>
    have := sizeOf_option_lt (show x ∈ arg.toList from h)
    rw [aggregate.sizeOf_spec]
    omega

/-- Induction over operands. -/
theorem induction_operands {P : Expr σ → Prop} (h : ∀ e, (∀ x ∈ e.operands, P x) → P e)
    (e : Expr σ) : P e :=
  h e fun x hx =>
    have := sizeOf_operand_lt hx
    induction_operands h x
termination_by sizeOf e

/-! ## Parts -/

theorem listParts_eq (es : List (Expr σ)) : listParts es = es.flatMap subexpressions := by
  induction es with
  | nil => simp [listParts]
  | cons e es ih => simp [listParts, ih]

theorem optionParts_eq (o : Option (Expr σ)) : optionParts o = o.toList.flatMap subexpressions := by
  cases o <;> simp [optionParts]

theorem branchParts_eq (branches : List (Expr σ × Expr σ)) :
    branchParts branches = (branches.flatMap fun b => [b.1, b.2]).flatMap subexpressions := by
  induction branches with
  | nil => simp [branchParts]
  | cons b branches ih => simp [branchParts, ih]

/-- The parts of an expression are itself and the parts of its operands. -/
theorem subexpressions_eq (e : Expr σ) :
    e.subexpressions = e :: e.operands.flatMap subexpressions := by
  cases e <;>
    simp [subexpressions, operands, listParts_eq, optionParts_eq, branchParts_eq]

theorem mem_subexpressions_self (e : Expr σ) : e ∈ e.subexpressions := by
  rw [subexpressions_eq]
  exact List.mem_cons_self

theorem mem_subexpressions_of_operand {e x y : Expr σ} (hx : x ∈ e.operands)
    (hy : y ∈ x.subexpressions) : y ∈ e.subexpressions := by
  rw [subexpressions_eq]
  exact List.mem_cons_of_mem e (List.mem_flatMap.mpr ⟨x, hx, hy⟩)

theorem mem_queries_of_operand {e x : Expr σ} {q : σ} (hx : x ∈ e.operands) (hq : q ∈ x.queries) :
    q ∈ e.queries := by
  obtain ⟨y, hy, hown⟩ := List.mem_filterMap.mp hq
  exact List.mem_filterMap.mpr ⟨y, mem_subexpressions_of_operand hx hy, hown⟩

/-- The function that the outermost form of an expression calls. -/
def ownFunction? : Expr σ → Option String
  | call name _ => some name
  | _ => none

/-- The functions that an expression calls, without those inside its queries. -/
def functions (e : Expr σ) : List String := e.subexpressions.filterMap ownFunction?

theorem mem_functions_of_operand {e x : Expr σ} {name : String} (hx : x ∈ e.operands)
    (hname : name ∈ x.functions) : name ∈ e.functions := by
  obtain ⟨y, hy, hown⟩ := List.mem_filterMap.mp hname
  exact List.mem_filterMap.mpr ⟨y, mem_subexpressions_of_operand hx hy, hown⟩

theorem mem_functions_of_own {e : Expr σ} {name : String} (h : e.ownFunction? = some name) :
    name ∈ e.functions :=
  List.mem_filterMap.mpr ⟨e, mem_subexpressions_self e, h⟩

theorem mem_queries_of_own {e : Expr σ} {q : σ} (h : e.ownQuery? = some q) : q ∈ e.queries :=
  List.mem_filterMap.mpr ⟨e, mem_subexpressions_self e, h⟩

end Expr

end SqlStore
