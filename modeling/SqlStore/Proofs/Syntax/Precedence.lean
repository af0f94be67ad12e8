import Mathlib.Data.List.Induction
import SqlStore.Proofs.Syntax.Rendering

/-!
# Operators between operands

A text that is a row of operands with operators between them is read as a tree: read in order, the tree is
the row again, and under every operator the operators on the left bind at least as tightly and those on the
right more tightly. There is exactly one such tree, `parseExpression_row`.

Reading follows the left spine of the tree. Behind the operand at its end the loop takes one operator of the
spine after the other, each with its right subtree, which is read as an expression of a higher precedence.
-/

namespace SqlStore

/-! ## Trees of operators -/

/-- Operands that operators put together two by two. -/
inductive OperatorTree (α : Type) where
  | operand (a : α)
  | node (op : BinaryOp) (l r : OperatorTree α)

namespace OperatorTree

variable {α : Type}

/-- What stands in the tree, from left to right. -/
def inorder : OperatorTree α → List (BinaryOp ⊕ α)
  | operand a => [.inr a]
  | node op l r => l.inorder ++ .inl op :: r.inorder

/-- The operator at the root. -/
def root? : OperatorTree α → Option BinaryOp
  | operand _ => none
  | node op _ _ => some op

/-- Under every operator, the one on the left binds at least as tightly and the one on the right more
tightly. -/
def Grouped : OperatorTree α → Prop
  | operand _ => True
  | node op l r => (∀ o ∈ l.root?, op.precedence ≤ o.precedence) ∧
      (∀ o ∈ r.root?, op.precedence < o.precedence) ∧ l.Grouped ∧ r.Grouped

/-- In a grouped tree no operator binds less tightly than the root. -/
theorem Grouped.le_of_mem {t : OperatorTree α} (h : t.Grouped) {least : Nat}
    (hroot : ∀ o ∈ t.root?, least ≤ o.precedence) {o : BinaryOp} (ho : .inl o ∈ t.inorder) :
    least ≤ o.precedence := by
  induction t generalizing least with
  | operand a => simp [inorder] at ho
  | node op l r ihl ihr =>
    obtain ⟨hleft, hright, hl, hr⟩ := h
    have hop : least ≤ op.precedence := hroot op rfl
    rcases List.mem_append.mp ho with ho | ho
    · exact ihl hl (fun o ho => Nat.le_trans hop (hleft o ho)) ho
    · rcases List.mem_cons.mp ho with ho | ho
      · cases ho
        exact hop
      · exact ihr hr (fun o ho => Nat.le_trans hop (Nat.le_of_lt (hright o ho))) ho

/-- The same row in two grouped trees, the left part of the first one within that of the second. If the first
root stood left of the second one, it would bind at least as tightly, and the second one more tightly than
it. -/
theorem Grouped.split_of_append {op op' : BinaryOp} {l r l' r' : OperatorTree α}
    (h : (node op l r).Grouped) (h' : (node op' l' r').Grouped) {between : List (BinaryOp ⊕ α)}
    (hl : l'.inorder = l.inorder ++ between)
    (hr : .inl op :: r.inorder = between ++ .inl op' :: r'.inorder) :
    op = op' ∧ l.inorder = l'.inorder ∧ r.inorder = r'.inorder := by
  cases between with
  | nil =>
    obtain ⟨hop, hr⟩ := List.cons.inj hr
    rw [List.append_nil] at hl
    exact ⟨Sum.inl.inj hop, hl.symm, hr⟩
  | cons s between =>
    obtain ⟨rfl, htail⟩ := List.cons.inj hr
    obtain ⟨-, hright, -, hgr⟩ := h
    obtain ⟨hleft, -, hgl, -⟩ := h'
    have hmore : op.precedence + 1 ≤ op'.precedence := hgr.le_of_mem hright (by simp [htail])
    have hless : op'.precedence ≤ op.precedence := hgl.le_of_mem hleft (by simp [hl])
    omega

theorem length_inorder_pos (t : OperatorTree α) : 0 < t.inorder.length := by
  cases t <;> simp [inorder]

theorem inorder_node_ne (op : BinaryOp) (l r : OperatorTree α) (a : α) :
    (node op l r).inorder ≠ (operand a).inorder := by
  intro h
  have hlength := congrArg List.length h
  have hl := l.length_inorder_pos
  simp only [inorder, List.length_append, List.length_cons, List.length_nil] at hlength
  omega

/-- A row is grouped in one way only. -/
theorem Grouped.unique {t u : OperatorTree α} (ht : t.Grouped) (hu : u.Grouped)
    (h : t.inorder = u.inorder) : t = u := by
  induction t generalizing u with
  | operand a =>
    cases u with
    | operand b => simpa [inorder] using h
    | node op l r => exact absurd h.symm (inorder_node_ne op l r a)
  | node op l r ihl ihr =>
    cases u with
    | operand b => exact absurd h (inorder_node_ne op l r b)
    | node op' l' r' =>
      have hsplit : op = op' ∧ l.inorder = l'.inorder ∧ r.inorder = r'.inorder := by
        rcases List.append_eq_append_iff.mp h with ⟨between, hl, hr⟩ | ⟨between, hl, hr⟩
        · exact ht.split_of_append hu hl hr
        · obtain ⟨hop, hl, hr⟩ := hu.split_of_append ht hl hr
          exact ⟨hop.symm, hl.symm, hr.symm⟩
      obtain ⟨rfl, hl, hr⟩ := hsplit
      rw [ihl ht.2.2.1 hu.2.2.1 hl, ihr ht.2.2.2 hu.2.2.2 hr]

/-- The tree with one more operator and operand behind it: the operator goes down on the right as long as it
binds more tightly than the operators there. -/
def extend (op : BinaryOp) (a : α) : OperatorTree α → OperatorTree α
  | operand b => node op (operand b) (operand a)
  | node o l r =>
    if op.precedence ≤ o.precedence then node op (node o l r) (operand a)
    else node o l (r.extend op a)

theorem inorder_extend (op : BinaryOp) (a : α) (t : OperatorTree α) :
    (t.extend op a).inorder = t.inorder ++ [.inl op, .inr a] := by
  induction t with
  | operand b => rfl
  | node o l r _ ihr =>
    rw [extend]
    split
    · rfl
    · rw [inorder, ihr, inorder, List.append_assoc, List.cons_append]

theorem root?_extend (op : BinaryOp) (a : α) (t : OperatorTree α) :
    (t.extend op a).root? = some op ∨ (t.extend op a).root? = t.root? := by
  cases t with
  | operand b => exact .inl rfl
  | node o l r =>
    rw [extend]
    split
    · exact .inl rfl
    · exact .inr rfl

theorem Grouped.extend {t : OperatorTree α} (h : t.Grouped) (op : BinaryOp) (a : α) :
    (t.extend op a).Grouped := by
  induction t with
  | operand b => exact ⟨nofun, nofun, trivial, trivial⟩
  | node o l r _ ihr =>
    rw [OperatorTree.extend]
    split
    · next hle =>
      refine ⟨?_, nofun, h, trivial⟩
      rintro _ ⟨⟩
      exact hle
    · next hlt =>
      obtain ⟨hleft, hright, hl, hr⟩ := h
      refine ⟨hleft, fun o' ho' => ?_, hl, ihr hr⟩
      rcases root?_extend op a r with hroot | hroot <;> rw [hroot] at ho'
      · cases ho'
        exact Nat.lt_of_not_le hlt
      · exact hright o' ho'

end OperatorTree

/-- An operand and operators behind it, each with the operand that follows it. -/
def operatorRow {α : Type} (a : α) (rest : List (BinaryOp × α)) : List (BinaryOp ⊕ α) :=
  .inr a :: rest.flatMap fun (op, b) => [.inl op, .inr b]

/-- Every row can be grouped. -/
theorem exists_grouped {α : Type} (a : α) (rest : List (BinaryOp × α)) :
    ∃ t : OperatorTree α, t.Grouped ∧ t.inorder = operatorRow a rest := by
  induction rest using List.reverseRecOn with
  | nil => exact ⟨.operand a, trivial, rfl⟩
  | append_singleton rest last ih =>
    obtain ⟨t, ht, hrow⟩ := ih
    refine ⟨t.extend last.1 last.2, ht.extend _ _, ?_⟩
    rw [OperatorTree.inorder_extend, hrow, operatorRow, operatorRow, List.flatMap_append]
    rfl

/-! ## Operands -/

/-- The name that a token is: a word that is not reserved, or a quoted name. -/
def Token.name? : Token → Option String
  | ident name => some name
  | keyword k => if k.isReserved then none else some k.asName
  | _ => none

/-- What a name without a table stands for: a column, or the clock for the words of the clock. -/
def Expr.ofName (name : String) : Expression :=
  if nowNames.contains name then .call name [] else .column none name

namespace Parser

/-- Column names and literals, as they are written. -/
inductive IsOperand : Expression → List Token → Prop where
  | number {digits : String} {v : Value} :
    numberValue? digits = some v → IsOperand (.literal v) [.number digits]
  | string (s : String) : IsOperand (.literal (.text s)) [.string s]
  | boolean (b : Bool) :
    IsOperand (.literal (.boolean b)) [.keyword (if b then .true_ else .false_)]
  | null : IsOperand (.literal .null) [.keyword .null]
  /-- The text of a literal behind the name of its type. -/
  | typed {t : Token} {name s : String} {type : TypeName} : t.name? = some name →
    TypeName.resolve name [] = some type →
      IsOperand (.cast (.literal (.text s)) type.datatype) [t, .string s]
  | name {t : Token} {name : String} : t.name? = some name → IsOperand (.ofName name) [t]
  | qualified {t u : Token} {table name : String} : t.name? = some table → u.name? = some name →
    IsOperand (.column (some table) name) [t, .period, u]

variable {e : Expression} {ts us : List Token} {n : Nat} {t : Token} {name : String}

theorem not_unary_of_name (h : t.name? = some name) : t.unaryOp? = none := by
  cases t with
  | keyword k => cases k <;> first | rfl | cases h
  | _ => first | rfl | cases h

theorem Reads.ident_of_name (h : t.name? = some name) : Reads Parser.ident [t] us name := by
  refine .bind_cons .next ?_
  cases t with
  | ident s =>
    cases h
    exact .pure
  | keyword k =>
    rw [Token.name?] at h
    split at h
    · cases h
    · next hreserved =>
      cases h
      dsimp only
      rw [if_neg hreserved]
      exact .pure
  | _ => cases h

/-- A name in the place of an operand. -/
theorem reads_atom_of_name {g : Grammar} (h : t.name? = some name)
    (hname : Reads (nameExpression g name) ts us e) : Reads (atom g) (t :: ts) us e := by
  refine .bind_cons .next ?_
  cases t with
  | ident s =>
    cases h
    exact hname
  | keyword k => cases k <;> first
    | (cases h; exact hname)
    | cases h
  | _ => cases h

namespace IsOperand

/-- An operand begins with no operator. -/
theorem front (h : IsOperand e ts) : ts[0]?.bind Token.unaryOp? = none := by
  cases h with
  | typed ht => exact not_unary_of_name ht
  | name ht => exact not_unary_of_name ht
  | qualified ht => exact not_unary_of_name ht
  | boolean b => cases b <;> rfl
  | _ => rfl

theorem ne_nil (h : IsOperand e ts) : ts ≠ [] := by
  cases h <;> exact List.cons_ne_nil _ _

theorem reads (h : IsOperand e ts) (hclear : Clear us) (hn : (ts ++ us).length ≤ n) :
    Reads (atom (grammar n)) ts us e := by
  cases h with
  | number hv => exact (Atom.number hv).reads n us hclear hn
  | string s => exact (Atom.string s).reads n us hclear hn
  | boolean b => exact (Atom.boolean b).reads n us hclear hn
  | null => exact Atom.null.reads n us hclear hn
  | typed ht htype =>
    refine reads_atom_of_name ht ?_
    unfold nameExpression
    refine .bind_nil (.take?_not (by rintro ⟨⟩)) (.bind_nil (.take?_not (by rintro ⟨⟩)) (.bind_nil .peek ?_))
    rw [htype]
    exact .bind_cons .next .pure
  | name ht => exact reads_atom_of_name ht (reads_name_alone hclear)
  | qualified ht hu =>
    refine reads_atom_of_name ht ?_
    unfold nameExpression
    exact .bind_nil (.take?_not (by rintro ⟨⟩)) (.bind_cons .take? (.bind_last (.ident_of_name hu) .pure))

end IsOperand

end Parser

/-- A column name or a literal, with its tokens. -/
structure Operand where
  expression : Expression
  tokens : List Token
  isOperand : Parser.IsOperand expression tokens

/-- The tokens of a row of operands and operators. -/
def rowTokens (row : List (BinaryOp ⊕ Operand)) : List Token :=
  row.flatMap fun
    | .inl op => [op.token]
    | .inr a => a.tokens

/-- The expression that a tree of operators is. -/
def OperatorTree.expression : OperatorTree Operand → Expression
  | operand a => a.expression
  | node op l r => .binary op l.expression r.expression

namespace OperatorTree

/-- The operand that the tree begins with. -/
def first {α : Type} : OperatorTree α → α
  | operand a => a
  | node _ l _ => l.first

/-- What stands behind the first operand. -/
def behind {α : Type} : OperatorTree α → List (BinaryOp ⊕ α)
  | operand _ => []
  | node op l r => l.behind ++ .inl op :: r.inorder

theorem inorder_eq {α : Type} (t : OperatorTree α) : t.inorder = .inr t.first :: t.behind := by
  induction t with
  | operand a => rfl
  | node op l r ihl _ => rw [inorder, ihl, first, behind, List.cons_append]

end OperatorTree

namespace Parser

variable {us : List Token}

theorem Quiet.mono {least least' : Nat} (h : Quiet least us) (hle : least ≤ least') : Quiet least' us :=
  ⟨fun op hop => Nat.lt_of_lt_of_le (h.behind op hop) hle,
    fun op hop => Nat.lt_of_lt_of_le (h.between op hop) hle⟩

theorem quiet_operator {op : BinaryOp} {least : Nat} (h : op.precedence < least) :
    Quiet least (op.token :: us) := by
  constructor
  · intro o ho
    cases op <;> cases ho
  · intro o ho
    rw [List.getElem?_cons_zero, Option.bind_some, op.binaryOp?_token] at ho
    cases ho
    exact h

theorem clear_operator (op : BinaryOp) : Clear (op.token :: us) := by
  rintro t ⟨⟩
  cases op <;> rfl

theorem rowTokens_append (row row' : List (BinaryOp ⊕ Operand)) :
    rowTokens (row ++ row') = rowTokens row ++ rowTokens row' := List.flatMap_append

theorem rowTokens_operator (op : BinaryOp) (row : List (BinaryOp ⊕ Operand)) :
    rowTokens (.inl op :: row) = op.token :: rowTokens row := rfl

theorem rowTokens_operand (a : Operand) (row : List (BinaryOp ⊕ Operand)) :
    rowTokens (.inr a :: row) = a.tokens ++ rowTokens row := rfl

/-- One turn of the loop: an operator, and the expression on its right. -/
theorem operatorsFrom_operator {g : Grammar} {least fuel : Nat} {op : BinaryOp} {l r e : Expression}
    {rs vs : List Token} (hleast : least ≤ op.precedence)
    (hright : Reads (g.expression (op.precedence + 1)) rs (vs ++ us) r)
    (hrest : Reads (operatorsFrom g least fuel (.binary op l r)) vs us e) :
    Reads (operatorsFrom g least (fuel + 1) l) (op.token :: (rs ++ vs)) us e := by
  have hpostfix : postfixAhead (some op.token) (op.token :: (rs ++ vs ++ us))[1]? = none := by
    cases op <;> rfl
  unfold operatorsFrom
  refine .bind_nil .peekPostfix ?_
  rw [List.cons_append, List.getElem?_cons_zero, hpostfix]
  refine .bind_nil .peek ?_
  rw [List.cons_append, List.getElem?_cons_zero, Option.bind_some, op.binaryOp?_token]
  dsimp only
  rw [if_neg (Nat.not_lt_of_le hleast)]
  exact .bind_cons .next (.bind hright hrest)

theorem rowTokens_behind_node (op : BinaryOp) (l r : OperatorTree Operand) (vs : List Token) :
    rowTokens (OperatorTree.node op l r).behind ++ vs =
      rowTokens l.behind ++ (op.token :: (rowTokens r.inorder ++ vs)) := by
  rw [OperatorTree.behind, rowTokens_append, rowTokens_operator, List.append_assoc, List.cons_append]

/-- Behind the first operand stands an operator, or the tree is over. -/
theorem clear_behind (t : OperatorTree Operand) {us : List Token} (h : Clear us) :
    Clear (rowTokens t.behind ++ us) := by
  induction t generalizing us with
  | operand a => exact h
  | node op l r ihl _ =>
    rw [rowTokens_behind_node]
    exact ihl (clear_operator op)

/-- An expression is its first operand and what the loop makes of the rest. -/
theorem expression_of_loop {t : OperatorTree Operand} {n least : Nat} (hclear : Clear us)
    (hn : (rowTokens t.inorder ++ us).length ≤ n)
    (hloop : ∀ fuel, (rowTokens t.behind).length ≤ fuel →
      Reads (operatorsFrom (grammar n) least fuel t.first.expression) (rowTokens t.behind) us t.expression) :
    Reads ((grammar (n + 1)).expression least) (rowTokens t.inorder) us t.expression := by
  rw [t.inorder_eq, rowTokens_operand] at hn ⊢
  rw [List.append_assoc] at hn
  show Reads (expressionFrom (grammar n) least) (t.first.tokens ++ rowTokens t.behind) us _
  unfold expressionFrom
  have hfront : (t.first.tokens ++ rowTokens t.behind ++ us)[0]?.bind Token.unaryOp? = none := by
    obtain ⟨first, rest, hfirst⟩ := List.exists_cons_of_ne_nil t.first.isOperand.ne_nil
    have hunary := t.first.isOperand.front
    rw [hfirst] at hunary ⊢
    exact hunary
  refine .bind_nil .peek ?_
  dsimp only
  rw [hfront]
  refine .bind (t.first.isOperand.reads (clear_behind t hclear) hn) ?_
  refine .fuel_bind (f := fun n => operatorsFrom _ least (n + 1) _) (hloop _ ?_)
  rw [List.length_append]
  omega

/-- What the loop makes of a grouped tree whose first operand was read: if it goes on from the whole tree
with `vs` to `e`, then it comes to `e` behind the first operand. The induction goes along the left spine, and
what follows a left subtree is the operator over it. -/
theorem operatorsFrom_tree (t : OperatorTree Operand) : ∀ (n least : Nat) (vs us : List Token)
    (e : Expression), t.Grouped → (∀ o ∈ t.root?, least ≤ o.precedence) → Clear (vs ++ us) →
    (∀ o ∈ t.root?, Quiet (o.precedence + 1) (vs ++ us)) →
    (rowTokens t.behind ++ (vs ++ us)).length ≤ n →
    (∀ fuel, vs.length ≤ fuel → Reads (operatorsFrom (grammar n) least fuel t.expression) vs us e) →
    ∀ fuel, (rowTokens t.behind ++ vs).length ≤ fuel →
      Reads (operatorsFrom (grammar n) least fuel t.first.expression) (rowTokens t.behind ++ vs) us e := by
  induction t with
  | operand a =>
    intro n least vs us e _ _ _ _ _ hrest
    exact hrest
  | node op l r ihl ihr =>
    intro n least vs us e hgrouped hleast hclear hquiet hn hrest
    obtain ⟨hleft, hright, hl, hr⟩ := hgrouped
    have hop : least ≤ op.precedence := hleast op rfl
    rw [rowTokens_behind_node] at hn ⊢
    -- the right subtree is an expression whose operators bind more tightly than the one in front of it
    have hexpression : Reads ((grammar n).expression (op.precedence + 1)) (rowTokens r.inorder) (vs ++ us)
        r.expression := by
      obtain ⟨n, rfl⟩ : ∃ m, n = m + 1 := by
        refine Nat.exists_eq_succ_of_ne_zero ?_
        simp only [List.length_append, List.length_cons] at hn
        omega
      have hlength : (rowTokens r.inorder ++ (vs ++ us)).length ≤ n := by
        simp only [List.length_append, List.length_cons] at hn ⊢
        omega
      refine expression_of_loop hclear hlength fun fuel hfuel => ?_
      have hbehind : (rowTokens r.behind ++ ([] ++ (vs ++ us))).length ≤ n := by
        rw [r.inorder_eq, rowTokens_operand] at hlength
        simp only [List.length_append, List.nil_append] at hlength ⊢
        omega
      have hloop := ihr n (op.precedence + 1) [] (vs ++ us) r.expression hr hright hclear
        (fun o ho => (hquiet op rfl).mono (Nat.succ_le_succ (Nat.le_of_lt (hright o ho)))) hbehind
        (fun _ _ => operatorsFrom_of_quiet (hquiet op rfl)) fuel
      rw [List.append_nil] at hloop
      exact hloop hfuel
    refine ihl n least _ us e hl (fun o ho => Nat.le_trans hop (hleft o ho)) (clear_operator op)
      (fun o ho => quiet_operator (Nat.lt_succ_of_le (hleft o ho))) ?_ ?_
    · simpa only [List.append_assoc, List.cons_append] using hn
    · intro fuel hfuel
      obtain ⟨fuel, rfl⟩ := Nat.exists_eq_succ_of_ne_zero (Nat.ne_zero_of_lt hfuel)
      refine operatorsFrom_operator hop hexpression (hrest fuel ?_)
      simp only [List.length_append, List.length_cons] at hfuel
      omega

/-- A grouped tree is read from its row. -/
theorem expression_tree {t : OperatorTree Operand} {n : Nat} (h : t.Grouped)
    (hn : (rowTokens t.inorder).length ≤ n) :
    Reads ((grammar (n + 1)).expression 0) (rowTokens t.inorder) [] t.expression := by
  have hends : Ends [] := by rintro t ⟨⟩
  refine expression_of_loop hends.clear (by rwa [List.append_nil]) fun fuel hfuel => ?_
  have hloop := operatorsFrom_tree t n 0 [] [] t.expression h
    (fun _ _ => Nat.zero_le _) hends.clear (fun _ _ => hends.quiet _) ?_
    (fun _ _ => operatorsFrom_of_quiet (hends.quiet _)) fuel
  · rw [List.append_nil] at hloop
    exact hloop hfuel
  · rw [t.inorder_eq, rowTokens_operand, List.length_append] at hn
    simp only [List.append_nil]
    omega

end Parser

/-- Let operands, which are column names and literals, stand in a row with operators between them. Exactly one
tree is the row when it is read in order and has under each operator, on the left, an operator that binds at
least as tightly, and on the right one that binds more tightly, if any. Every text whose tokens are those of
the row is read as this tree. -/
theorem parseExpression_row (a : Operand) (rest : List (BinaryOp × Operand)) :
    ∃ t : OperatorTree Operand, t.inorder = operatorRow a rest ∧ t.Grouped ∧
      (∀ u : OperatorTree Operand, u.inorder = operatorRow a rest → u.Grouped → u = t) ∧
      ∀ text, (Scan.ofString text).tokens.map Placed.token = rowTokens (operatorRow a rest) →
        (Scan.ofString text).failure = none → parseExpression text = .ok t.expression := by
  obtain ⟨t, hgrouped, hrow⟩ := exists_grouped a rest
  refine ⟨t, hrow, hgrouped, fun u hu hgroupedu => hgroupedu.unique hgrouped (hu.trans hrow.symm), ?_⟩
  intro text htokens hfailure
  rw [← tokens_cursor] at htokens
  have hlength : (rowTokens t.inorder).length ≤ (Scan.ofString text).cursor.rest.length := by
    rw [hrow, ← htokens, Parser.length_tokens]
  obtain ⟨c, hrun, -⟩ := Parser.expression_tree hgrouped hlength _ hfailure
    (by rw [htokens, hrow, List.append_nil])
  exact parseExpression_eq_ok_iff.mpr ⟨c, hrun⟩

namespace Sample

/-- A column without a table. -/
def columnOperand (name : String) : Operand := ⟨.ofName name, [.ident name], .name rfl⟩

/-- The number one. -/
def oneOperand : Operand := ⟨.literal (.integer 1), [.number "1"], .number (by rfl)⟩

/-- A text. -/
def textOperand : Operand := ⟨.literal (.text "x"), [.string "x"], .string "x"⟩

/-- `a OR b = 1 - c - 1 * d || 'x'`, grouped. -/
def mixed : OperatorTree Operand :=
  .node .or (.operand (columnOperand "a"))
    (.node .equal (.operand (columnOperand "b"))
      (.node .concat
        (.node .subtract (.node .subtract (.operand oneOperand) (.operand (columnOperand "c")))
          (.node .multiply (.operand oneOperand) (.operand (columnOperand "d"))))
        (.operand textOperand)))

theorem parseExpression_mixed :
    ∃ rest, mixed.inorder = operatorRow (columnOperand "a") rest ∧ mixed.Grouped ∧
      (∀ u : OperatorTree Operand, u.inorder = operatorRow (columnOperand "a") rest → u.Grouped →
        u = mixed) ∧
      parseExpression "a OR b=1-c -1*d||'x'" = .ok mixed.expression := by
  let rest : List (BinaryOp × Operand) := [(.or, columnOperand "b"), (.equal, oneOperand),
    (.subtract, columnOperand "c"), (.subtract, oneOperand), (.multiply, columnOperand "d"),
    (.concat, textOperand)]
  have hrow : mixed.inorder = operatorRow (columnOperand "a") rest := rfl
  have hgrouped : mixed.Grouped := by
    simp [mixed, OperatorTree.Grouped, OperatorTree.root?, BinaryOp.precedence, Precedence.or,
      Precedence.comparison, Precedence.concat, Precedence.additive, Precedence.multiplicative]
  have htokens : (Scan.ofString "a OR b=1-c -1*d||'x'").tokens.map Placed.token =
      rowTokens (operatorRow (columnOperand "a") rest) := by
    decide +kernel
  have hfailure : (Scan.ofString "a OR b=1-c -1*d||'x'").failure = none := by decide +kernel
  obtain ⟨t, -, -, hunique, hreads⟩ := parseExpression_row (columnOperand "a") rest
  cases hunique mixed hrow hgrouped
  exact ⟨rest, hrow, hgrouped, hunique, hreads _ htokens hfailure⟩

end Sample

end SqlStore
