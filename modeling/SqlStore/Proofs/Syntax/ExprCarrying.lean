import SqlStore.Proofs.Syntax.Carrying

/-!
# Reading expressions in front of more text

Every reader of `Syntax.ExprReading` reads in front of a semicolon what it reads at the end of a text, and
what it reads is legible, if the grammar one level down does so.
-/

namespace SqlStore

/-- Two grammars of which the second reads what the first reads, in front of `B`. -/
structure Grammar.Carries (B : Behind) (n : Nat) (g g' : Grammar) : Prop where
  expression : ∀ least,
    Parser.Carries B n true Expr.Legible (g.expression least) (g'.expression least)
  select : Parser.Carries B n true Parser.Anything g.select g'.select

theorem Grammar.Carries.mono {B : Behind} {n m : Nat} {g g' : Grammar} (h : g.Carries B n g')
    (hm : m ≤ n) : g.Carries B m g' :=
  ⟨fun least => (h.expression least).mono hm, h.select.mono hm⟩

namespace Parser.Carries

variable {B : Behind} {n : Nat}

/-! ## Types -/

theorem typeWords (first : String) :
    Carries B n false Anything (typeWords first) (typeWords first) := by
  have hzone : ∀ word : String, Carries B n false Anything
      (do
        Parser.expectWord "time"
        Parser.expectWord "zone"
        return first ++ " " ++ word ++ " time zone")
      (do
        Parser.expectWord "time"
        Parser.expectWord "zone"
        return first ++ " " ++ word ++ " time zone") :=
    fun word => (expectWord "time").relax.bind fun _ _ =>
      (expectWord "zone").relax.bind fun _ _ => pure trivial
  unfold Parser.typeWords
  split
  · exact takeWord?_bind (fun _ _ => pure trivial) (pure trivial)
  · split
    · exact takeWord?_bind (fun _ _ => pure trivial) (pure trivial)
    · split
      · refine takeWord?_bind (fun m hm => (hzone "with").mono (Nat.le_of_lt hm)) ?_
        exact takeWord?_bind (fun m hm => (hzone "without").mono (Nat.le_of_lt hm)) (pure trivial)
      · exact pure trivial

theorem lt_of_modifier? {digits : String} {m : Nat} (h : modifier? digits = some m) :
    m < UInt32.size := by
  obtain ⟨-, hlt⟩ := Option.filter_eq_some_iff.mp h
  exact of_decide_eq_true hlt

theorem typeArgsFrom {fuel fuel' : Nat} (hfuel : n < fuel) (hfuel' : n < fuel') :
    Carries B n false (fun args => ∀ m ∈ args, m < UInt32.size) (typeArgsFrom fuel)
      (typeArgsFrom fuel') := by
  induction fuel generalizing n fuel' with
  | zero => omega
  | succ fuel ih =>
    obtain ⟨fuel', rfl⟩ := Nat.exists_eq_succ_of_ne_zero (Nat.ne_zero_of_lt hfuel')
    unfold Parser.typeArgsFrom
    refine next.bind_lt fun t m hm _ => ?_
    dsimp only
    split
    · split
      · next k hk =>
        refine (pure (V := (· < UInt32.size)) (lt_of_modifier? hk)).bind fun k hk => ?_
        refine take?_bind (by decide) (fun l hl => ?_) ?_
        · refine (ih (by omega) (by omega)).bind fun args hargs => ?_
          exact pure (List.forall_mem_cons.mpr ⟨hk, hargs⟩)
        · exact (expect _).relax.bind fun _ _ => pure (List.forall_mem_singleton.mpr hk)
      · exact of_fails ((fails_fail _).bind _)
    · exact of_fails ((fails_unexpected _).bind _)

theorem typeName :
    Carries B n true (fun t : TypeName => t.datatype.Legible) typeName typeName := by
  unfold Parser.typeName
  refine peekPosition_bind fun i j => ident.bind_lt fun first m _ _ => ?_
  refine (typeWords first).bind fun name _ => ?_
  refine take?_ite_bind (V := fun args => ∀ m ∈ args, m < UInt32.size) (by decide) ?_ ?_ fun args hargs => ?_
  · exact fun l _ => fuel_bind fun c d k _ hc hd => typeArgsFrom (Nat.lt_succ_of_le hc) (Nat.lt_succ_of_le hd)
  · exact pure (List.forall_mem_nil _)
  · dsimp only
    split
    · next t ht => exact pure (DataType.legible_of_resolve hargs ht)
    · exact of_fails (fails_failAt _ _)

/-! ## Operands -/

variable {g g' : Grammar}

theorem branchesFrom {fuel fuel' : Nat} (hg : g.Carries B n g') (hfuel : n < fuel)
    (hfuel' : n < fuel') :
    Carries B n false (fun branches => ∀ b ∈ branches, b.1.Legible ∧ b.2.Legible)
      (branchesFrom g fuel) (branchesFrom g' fuel') := by
  induction fuel generalizing n fuel' with
  | zero => omega
  | succ fuel ih =>
    obtain ⟨fuel', rfl⟩ := Nat.exists_eq_succ_of_ne_zero (Nat.ne_zero_of_lt hfuel')
    unfold Parser.branchesFrom
    refine takeKeyword?_bind (fun m hm => ?_) (pure (List.forall_mem_nil _))
    have hg := hg.mono (Nat.le_of_lt hm)
    refine (hg.expression 0).relax.bind fun condition hcondition => ?_
    refine (expectKeyword _).relax.bind fun _ _ => ?_
    refine (hg.expression 0).relax.bind fun result hresult => ?_
    refine (ih hg (by omega) (by omega)).bind fun branches hbranches => ?_
    exact pure (List.forall_mem_cons.mpr ⟨⟨hcondition, hresult⟩, hbranches⟩)

theorem caseExpression (hg : g.Carries B n g') :
    Carries B n false Expr.Legible (caseExpression g) (caseExpression g') := by
  unfold Parser.caseExpression
  refine peek_bind fun t u htu => ?_
  extract_lets rest rest'
  have hrest : ∀ operand : Option Expression, (∀ x ∈ operand.toList, x.Legible) →
      Carries B n false Expr.Legible (rest operand) (rest' operand) := by
    intro operand hoperand
    refine fuel_bind fun c d m hm hc hd => ?_
    have hg := hg.mono hm
    refine (branchesFrom hg (Nat.lt_succ_of_le hc) (Nat.lt_succ_of_le hd)).bind fun branches hbranches => ?_
    dsimp only
    split
    · exact peekPosition_bind fun _ _ => of_fails ((fails_failAt _ _).bind _)
    · next hsome =>
      refine take?_ite_bind (V := fun otherwise => ∀ x ∈ otherwise.toList, x.Legible) (by decide)
        (fun l hl => ?_) (pure (by simp)) fun otherwise hotherwise => ?_
      · exact ((hg.mono (Nat.le_of_lt hl)).expression 0).relax.map fun e he => by simpa using he
      · refine (expectKeyword _).relax.bind fun _ _ => pure (Expr.Legible.of_operands ?_ ?_)
        · exact fun hnil => hsome (List.isEmpty_iff.mpr hnil)
        · simp only [Expr.operands, List.mem_append, List.mem_flatMap]
          rintro x (hx | ⟨b, hb, hx⟩ | hx)
          · exact hoperand x hx
          · simp only [List.mem_cons, List.not_mem_nil, or_false] at hx
            rcases hx with rfl | rfl
            · exact (hbranches b hb).1
            · exact (hbranches b hb).2
          · exact hotherwise x hx
  have hoperand : Carries B n false Expr.Legible (some <$> g.expression 0 >>= rest)
      (some <$> g'.expression 0 >>= rest') :=
    ((hg.expression 0).relax.map fun e he => by simpa using he).bind hrest
  cases htu with
  | token t =>
    split
    · exact hrest none (by simp)
    · exact hoperand
  | nothing => exact hoperand
  | separator => exact hoperand

theorem callArgs {name : String} (hname : name ≠ "") (hg : g.Carries B n g') :
    Carries B n false Expr.Legible (callArgs g name) (callArgs g' name) := by
  unfold Parser.callArgs
  split
  · next f _ =>
    refine takeWhen?_bind (by decide) (fun hf m hm => ?_) ?_
    · refine (expect _).relax.bind fun _ _ => pure (Expr.Legible.of_operands ?_ ?_)
      · exact ⟨by simpa using hf, rfl⟩
      · exact List.forall_mem_nil _
    · refine (takeKeyword? _).bind fun distinct _ => ?_
      extract_lets rest rest'
      have hrest : Carries B n false Expr.Legible (rest ()) (rest' ()) := by
        refine (hg.expression 0).relax.bind fun arg harg => ?_
        refine (expect _).relax.bind fun _ _ => pure (Expr.Legible.of_operands trivial ?_)
        exact List.forall_mem_singleton.mpr harg
      split
      · exact (takeKeyword? _).bind fun _ _ => hrest
      · exact hrest
  · next hnone =>
    have hform : ∀ args : List Expression, (∀ x ∈ args, x.Legible) → (Expr.call name args).Legible :=
      fun args hargs => .of_operands ⟨hname, hnone⟩ hargs
    refine take?_bind (by decide) (fun m hm => pure (hform [] (List.forall_mem_nil _))) ?_
    exact (closedList (hg.expression 0).relax).bind fun args hargs => pure (hform args hargs.2)

theorem nameExpression {name : String} (hname : name ≠ "") (hg : g.Carries B n g') :
    Carries B n false Expr.Legible (nameExpression g name) (nameExpression g' name) := by
  unfold Parser.nameExpression
  refine take?_bind (by decide) (fun m hm => callArgs hname (hg.mono (Nat.le_of_lt hm))) ?_
  refine take?_bind (by decide) (fun m hm => ?_) (peek_bind fun t u htu => ?_)
  · exact ident.relax.bind fun column hcolumn =>
      pure (.of_operands ⟨hname, hcolumn⟩ (List.forall_mem_nil _))
  · have hplain : ∀ p : Parser Expression,
        p = (if nowNames.contains name = true then Pure.pure (Expr.call name [])
          else Pure.pure (Expr.column none name)) → Carries B n false Expr.Legible p p := by
      rintro p rfl
      split
      · next hnow =>
        have hnone : AggregateFunction.ofName? name = none := by
          have hall : ∀ w ∈ nowNames, AggregateFunction.ofName? w = none := by decide
          exact hall name (List.contains_iff_mem.mp hnow)
        exact pure (.of_operands ⟨hname, hnone⟩ (List.forall_mem_nil _))
      · next hnow =>
        exact pure (.of_operands ⟨hname, Bool.eq_false_iff.mpr hnow⟩ (List.forall_mem_nil _))
    cases htu with
    | token t =>
      split
      · next s type _ hresolve =>
        refine next.bind_lt fun _ m hm _ => pure (.of_operands ?_ ?_)
        · exact DataType.legible_of_resolve (List.forall_mem_nil _) hresolve
        · exact List.forall_mem_singleton.mpr (.of_operands trivial (List.forall_mem_nil _))
      · exact hplain _ rfl
    | nothing => exact hplain _ rfl
    | separator => exact hplain _ rfl

theorem closedSelect (hg : g.Carries B n g') :
    Carries B n false Anything (closedSelect g) (closedSelect g') :=
  hg.select.relax.bind fun _ _ => (expect _).relax.bind fun _ _ => pure trivial

theorem atom (hg : ∀ m < n, g.Carries B m g') :
    Carries B n true Expr.Legible (atom g) (atom g') := by
  unfold Parser.atom
  refine next.bind_lt fun t m hm ht => ?_
  have hg := hg m hm
  split
  · split
    · next v hv =>
      exact pure (.of_operands (legible_of_numberValue? ht hv) (List.forall_mem_nil _))
    · exact of_fails (fails_fail _)
  · exact pure (.of_operands trivial (List.forall_mem_nil _))
  · exact pure (.of_operands trivial (List.forall_mem_nil _))
  · exact pure (.of_operands trivial (List.forall_mem_nil _))
  · exact pure (.of_operands trivial (List.forall_mem_nil _))
  · refine peek_bind fun t u htu => ?_
    have hclosed : Carries B m false Expr.Legible
        (do let e ← g.expression 0; Parser.expect .closeParen; return e)
        (do let e ← g'.expression 0; Parser.expect .closeParen; return e) :=
      (hg.expression 0).relax.bind fun e he => (expect _).relax.bind fun _ _ => pure he
    cases htu with
    | token t =>
      split
      · exact (closedSelect hg).bind fun _ _ => pure (.of_operands trivial (List.forall_mem_nil _))
      · exact hclosed
    | nothing => exact hclosed
    | separator => exact hclosed
  · refine (expect _).relax.bind fun _ _ => ?_
    exact (closedSelect hg).bind fun _ _ => pure (.of_operands trivial (List.forall_mem_nil _))
  · exact caseExpression hg
  · refine (expect _).relax.bind fun _ _ => (hg.expression 0).relax.bind fun e he => ?_
    refine (expectKeyword _).relax.bind fun _ _ => typeName.relax.bind fun type htype => ?_
    refine (expect _).relax.bind fun _ _ => pure (.of_operands htype ?_)
    exact List.forall_mem_singleton.mpr he
  · exact nameExpression ht hg
  · next k _ _ _ _ _ _ =>
    split
    · exact of_fails (fails_fail _)
    · exact nameExpression k.asName_ne_empty hg
  · exact of_fails (fails_fail _)

/-! ## Operators -/

/-- `NOT` in front of the word of an operator. -/
theorem negation {α : Type} {W : α → Prop} {negated : Bool} {p q : Parser α}
    (h : ∀ m ≤ n, Carries B m true W p q) :
    Carries B n true W (if negated = true then Parser.next >>= fun _ => p else p)
      (if negated = true then Parser.next >>= fun _ => q else q) := by
  split
  · exact next.bind_lt fun _ m hm _ => (h m (Nat.le_of_lt hm)).relax
  · exact h n (Nat.le_refl n)

theorem postfixExpression {e : Expression} (he : e.Legible) (op : PostfixOp)
    (hg : ∀ m < n, g.Carries B m g') :
    Carries B n true Expr.Legible (postfixExpression g e op) (postfixExpression g' e op) := by
  cases op with
  | isNull =>
    refine next.bind_lt fun _ m hm _ => (takeKeyword? _).bind fun negated _ => ?_
    refine (expectKeyword _).relax.bind fun _ _ => pure (.of_operands trivial ?_)
    exact List.forall_mem_singleton.mpr he
  | membership negated =>
    refine negation fun l hl => next.bind_lt fun _ m hm _ => ?_
    have hg := hg m (by omega)
    refine (expect _).relax.bind fun _ _ => peek_bind fun t u htu => ?_
    have hitems : Carries B m false Expr.Legible
        (do return .inList e (← Parser.closedList (g.expression 0)) negated)
        (do return .inList e (← Parser.closedList (g'.expression 0)) negated) :=
      (closedList (hg.expression 0).relax).bind fun items hitems =>
        pure (.of_operands hitems.1 (List.forall_mem_cons.mpr ⟨he, hitems.2⟩))
    cases htu with
    | token t =>
      split
      · exact (closedSelect hg).bind fun _ _ =>
          pure (.of_operands trivial (List.forall_mem_singleton.mpr he))
      · exact hitems
    | nothing => exact hitems
    | separator => exact hitems
  | between negated =>
    refine negation fun l hl => next.bind_lt fun _ m hm _ => ?_
    have hg := hg m (by omega)
    refine (hg.expression _).relax.bind fun low hlow => (expectKeyword _).relax.bind fun _ _ => ?_
    refine (hg.expression _).relax.bind fun high hhigh => pure (.of_operands trivial ?_)
    simp only [Expr.operands, List.forall_mem_cons]
    exact ⟨he, hlow, hhigh, List.forall_mem_nil _⟩
  | like negated =>
    refine negation fun l hl => next.bind_lt fun word m hm _ => ?_
    have hg := hg m (by omega)
    refine (hg.expression _).relax.bind fun pattern hpattern => pure (.of_operands trivial ?_)
    simp only [Expr.operands, List.forall_mem_cons]
    exact ⟨he, hpattern, List.forall_mem_nil _⟩
  | cast =>
    refine next.bind_lt fun _ m hm _ => typeName.relax.bind fun type htype => ?_
    exact pure (.of_operands htype (List.forall_mem_singleton.mpr he))

theorem operatorsFrom {fuel fuel' : Nat} {least : Nat} {e : Expression} (he : e.Legible)
    (hg : ∀ m < n, g.Carries B m g') (hfuel : n < fuel) (hfuel' : n < fuel') :
    Carries B n false Expr.Legible (operatorsFrom g least fuel e) (operatorsFrom g' least fuel' e) := by
  induction fuel generalizing n fuel' e with
  | zero => omega
  | succ fuel ih =>
    obtain ⟨fuel', rfl⟩ := Nat.exists_eq_succ_of_ne_zero (Nat.ne_zero_of_lt hfuel')
    unfold Parser.operatorsFrom
    refine peekPostfix_bind fun op => ?_
    have hdone : Carries B n false Expr.Legible (Pure.pure e) (Pure.pure e) := pure he
    cases op with
    | some op =>
      dsimp only
      split
      · exact hdone
      · refine (postfixExpression he op hg).bind_lt fun e m hm he => ?_
        exact ih he (fun l hl => hg l (by omega)) (by omega) (by omega)
    | none =>
      dsimp only
      refine peek_bind fun t u htu => ?_
      cases htu with
      | token t =>
        split
        · exact hdone
        · next op _ =>
          split
          · exact hdone
          · refine next.bind_lt fun _ m hm _ => ?_
            refine ((hg m hm).expression _).bind_lt fun right l hl hright => ?_
            refine ih (.of_operands trivial ?_) (fun k hk => hg k (by omega)) (by omega) (by omega)
            simp only [Expr.operands, List.forall_mem_cons]
            exact ⟨he, hright, List.forall_mem_nil _⟩
      | nothing => exact hdone
      | separator => exact hdone

theorem expressionFrom (least : Nat) (hg : ∀ m < n, g.Carries B m g') :
    Carries B n true Expr.Legible (expressionFrom g least) (expressionFrom g' least) := by
  unfold Parser.expressionFrom
  refine peek_bind fun t u htu => ?_
  extract_lets rest rest'
  have hrest : ∀ e m, m < n → e.Legible → Carries B m false Expr.Legible (rest e) (rest' e) :=
    fun e m hm he => fuel_bind fun c d l hl hc hd =>
      operatorsFrom he (fun k hk => hg k (by omega)) (Nat.lt_succ_of_le hc) (Nat.lt_succ_of_le hd)
  have hatom : Carries B n true Expr.Legible (Parser.atom g >>= rest) (Parser.atom g' >>= rest') :=
    (atom hg).bind_lt hrest
  cases htu with
  | token t =>
    split
    · next op _ =>
      refine next.bind_lt fun _ m hm _ => ?_
      refine ((hg m hm).expression _).bind_lt fun e l hl he => ?_
      have hunary : (Expr.unary op e).Legible :=
        .of_operands trivial (List.forall_mem_singleton.mpr he)
      exact (pure hunary).bind fun e he => hrest e l (by omega) he
    · exact hatom
  | nothing => exact hatom
  | separator => exact hatom

end Parser.Carries

end SqlStore
